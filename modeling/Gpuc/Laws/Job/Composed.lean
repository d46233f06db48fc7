import Gpuc.Laws.Job.Merged

/-!
# Changes of a config, one after the other

Two changes made one after the other leave the config that the two made at once leave
(`changes_compose`): what a merge makes of a key is a matter of the key alone, and what one has made
another leaves. A key that no config is read from is carried through, with the value it was last given,
and the config that is read of the result is the config that is read of the documents laid over each
other, with nothing normalised in between.

Values are compared as what they are, a float that is no number with itself. The language's own `==`
says of such a float that it is not itself, and of two that were spelled apart (`spelled_apart`).
-/

set_option autoImplicit false

namespace Gpuc.Host.Documents

open Gpuc.Basis

variable {t : Texts}

/-! ## Documents with the same keys -/

/-- Documents that agree on every key are read as the same config. -/
theorem ReadsAs.congr {d d' : Dict String Json} {config : HostConfig}
    (hget : ∀ k, d.get? k = d'.get? k) (h : ReadsAs t (.ofDict d) config) :
    ReadsAs t (.ofDict d') config := by
  have hagree : ∀ k, Agree (.ofDict d) (.ofDict d') k := by
    intro k
    rw [Agree, fieldsOf_ofDict, fieldsOf_ofDict]
    exact hget k
  exact
    { schemaVersion := (hagree _).asInt _ ▸ h.schemaVersion
      host := (hagree _).asStr "local" ▸ h.host
      gpus := (hagree _).asOptStrList ▸ h.gpus
      sharedGpus := (hagree _).asStrList ▸ h.sharedGpus
      provider := by
        rw [← h.provider, show (fieldsOf (.ofDict d)).get? "provider" = _ from hagree _]
      idleMinutes := (hagree _).asFloat _ ▸ h.idleMinutes
      s3Prefix := (hagree _).asOptStr ▸ h.s3Prefix
      createdAt := (hagree _).asOptStr ▸ h.createdAt
      retentionDays := (hagree _).asOptFloat ▸ h.retentionDays
      workdirDays := (hagree _).asOptFloat ▸ h.workdirDays
      env := (hagree _).asStrDict ▸ h.env
      pkgCommit := (hagree _).asOptStr ▸ h.pkgCommit }

/-- A document that is read is read under another exactly when the other is. -/
theorem configFits_update {d patch : Dict String Json} (hd : ConfigFits (.ofDict d)) :
    ConfigFits (.ofDict (update d patch)) ↔ ConfigFits (.ofDict patch) := by
  constructor
  · intro h
    apply h.mono
    intro k v hv
    rw [get?_update, hv, Option.some_or]
  · intro h
    have hfrom : ∀ k v, (fieldsOf (.ofDict (update d patch))).get? k = some v →
        (fieldsOf (.ofDict patch)).get? k = some v ∨ (fieldsOf (.ofDict d)).get? k = some v := by
      intro k v hv
      rw [fieldsOf_ofDict, get?_update, Option.or_eq_some_iff] at hv
      rw [fieldsOf_ofDict, fieldsOf_ofDict]
      exact hv.imp_right And.right
    refine ⟨fun key hkey hlarge => ?_, fun key hkey hlong => ?_, fun key hkey hlong => ?_,
      fun hlong => ?_⟩
    · obtain ⟨n, hn, hlarge⟩ := hlarge
      rcases hfrom key _ hn with hn | hn
      · exact h.numbers key hkey ⟨n, hn, hlarge⟩
      · exact hd.numbers key hkey ⟨n, hn, hlarge⟩
    · obtain ⟨value, hvalue, hlong⟩ := hlong
      rcases hfrom key _ hvalue with hvalue | hvalue
      · exact h.texts key hkey ⟨value, hvalue, hlong⟩
      · exact hd.texts key hkey ⟨value, hvalue, hlong⟩
    · obtain ⟨item, hitem, hlong⟩ := hlong
      unfold asList at hitem
      split at hitem
      · next items hitems =>
        rcases hfrom key _ hitems with hitems | hitems
        · exact h.lists key hkey ⟨item, by rw [asList, hitems]; exact hitem, hlong⟩
        · exact hd.lists key hkey ⟨item, by rw [asList, hitems]; exact hitem, hlong⟩
      · exact absurd hitem List.not_mem_nil
    · obtain ⟨pairs, hpairs, k, value, hvalue, hlong⟩ := hlong
      rcases hfrom _ _ hpairs with hpairs | hpairs
      · exact h.env ⟨pairs, hpairs, k, value, hvalue, hlong⟩
      · exact hd.env ⟨pairs, hpairs, k, value, hvalue, hlong⟩

/-- A merge answers exactly when the merged document is read. -/
theorem exists_mergedConfig {existing : Json} {patch : Dict String Json} :
    (∃ m, mergedConfig t existing patch = .ok m) ↔
      ConfigFits (.ofDict (update (fieldsOf existing) patch)) := by
  rw [← HostConfig.fromDict_ok t, mergedConfig]
  constructor
  · rintro ⟨m, h⟩
    obtain ⟨config, hconfig, -⟩ := bind_eq_ok h
    exact ⟨config, hconfig⟩
  · rintro ⟨config, hconfig⟩
    rw [hconfig]
    exact ⟨_, rfl⟩

/-- What a merge made is read. -/
theorem configFits_merged {d patch m : Dict String Json}
    (h : mergedConfig t (.ofDict d) patch = .ok m) (hversion : BinaryVersion t (update d patch)) :
    ConfigFits (.ofDict m) := by
  obtain ⟨m', hm', -⟩ := mergedConfig_again h hversion
  have hfits := exists_mergedConfig.mp ⟨m', hm'⟩
  rwa [fieldsOf_ofDict, update_empty] at hfits

theorem mergedConfig_fieldsOf (existing : Json) (patch : Dict String Json) :
    mergedConfig t (.ofDict (fieldsOf existing)) patch = mergedConfig t existing patch := by
  rw [mergedConfig, fieldsOf_ofDict]
  rfl

/-- A key that no config is read from keeps what the documents give it. -/
theorem mergedConfig_unknown {d patch m : Dict String Json}
    (h : mergedConfig t (.ofDict d) patch = .ok m) {k : String} (hk : k ∉ configKeys) :
    m.get? k = (patch.get? k).or (d.get? k) := by
  obtain ⟨config, -, rfl⟩ := mergedConfig_eq_ok.mp h
  have hwritten : config.toDict.get? k = none := by
    rw [toDict_eq]
    exact List.lookup_eq_none_iff.mpr fun e he => by
      have hmem : e.1 ∈ configKeys := List.mem_map_of_mem he
      exact bne_iff_ne.mpr fun hkey => hk (hkey ▸ hmem)
  rw [get?_update, hwritten, Option.none_or, get?_update]

/-! ## Two changes -/

/-- Two changes, one laid over the other. -/
theorem get?_update_update (d p q : Dict String Json) (k : String) :
    (update d (update p q)).get? k = (update (update d p) q).get? k := by
  rw [get?_update, get?_update, get?_update, get?_update, Option.or_assoc]

section Compose
variable {e p q m m' m'' : Dict String Json}

/-- **The second change answers exactly when both at once do.** -/
theorem exists_second (h : mergedConfig t (.ofDict e) p = .ok m)
    (hversion : BinaryVersion t (update e p)) :
    (∃ m', mergedConfig t (.ofDict m) q = .ok m') ↔
      ∃ m'', mergedConfig t (.ofDict e) (update p q) = .ok m'' := by
  have hfits : ConfigFits (.ofDict (update e p)) := by
    have hfits := exists_mergedConfig.mp ⟨m, h⟩
    rwa [fieldsOf_ofDict] at hfits
  have hat : ConfigFits (.ofDict (update e (update p q))) ↔
      ConfigFits (.ofDict (update (update e p) q)) := by
    constructor
    · exact ConfigFits.mono fun k v hv => by rwa [get?_update_update]
    · exact ConfigFits.mono fun k v hv => by rwa [← get?_update_update]
  rw [exists_mergedConfig, exists_mergedConfig, fieldsOf_ofDict, fieldsOf_ofDict, hat,
    configFits_update hfits, configFits_update (configFits_merged h hversion)]

/-- **And comes to the same under every key.** -/
theorem get?_second (h : mergedConfig t (.ofDict e) p = .ok m)
    (hversion : BinaryVersion t (update e p)) (h' : mergedConfig t (.ofDict m) q = .ok m')
    (h'' : mergedConfig t (.ofDict e) (update p q) = .ok m'') (k : String) :
    m'.get? k = m''.get? k := by
  have hsecond := normalised_of_merged h' k
  have hboth := normalised_of_merged h'' k
  rw [get?_update, Option.or_assoc] at hboth
  cases hq : q.get? k with
  | some value =>
    -- both are of the second change's value
    rw [hq, Option.some_or] at hsecond hboth
    exact eq_of_ok rfl hsecond hboth
  | none =>
    -- both are of what the first change made of it
    rw [hq, Option.none_or] at hsecond hboth
    rw [← eq_of_ok rfl (normalised_again h hversion k) hsecond]
    exact eq_of_ok rfl (normalised_of_merged h k) hboth

/-- The config that is read of a merge is the one that is read of what was merged. -/
theorem fromDict_merged {d patch : Dict String Json} (h : mergedConfig t (.ofDict d) patch = .ok m)
    (hversion : BinaryVersion t (update d patch)) :
    ∃ config, ReadsAs t (.ofDict (update d patch)) config ∧ ReadsAs t (.ofDict m) config := by
  obtain ⟨config, hreads, rfl⟩ := mergedConfig_eq_ok.mp h
  refine ⟨config, hreads, hreads.again hversion fun e he => ?_⟩
  have hwritten : config.toDict.get? e.1 = some e.2 := by
    rw [toDict_eq]
    exact Dict.get?_eq_some.mpr he
  rw [get?_update, hwritten, Option.some_or]

end Compose

/-- **What two changes of a config come to**, made one after the other (`m'`) and at once (`m''`). -/
structure Composes (t : Texts) (e p q m' m'' : Dict String Json) : Prop where
  /-- The same keys, with the same values. -/
  same : ∀ k, m'.get? k = m''.get? k
  /-- A key of another build's has what it was last given. -/
  carried : ∀ k, k ∉ configKeys → m'.get? k = (q.get? k).or ((p.get? k).or (e.get? k))
  /-- The config read of the documents laid over each other is read of the result. -/
  read : ∃ config, HostConfig.fromDict t (.ofDict m') = .ok config ∧
    HostConfig.fromDict t (.ofDict (update (update e p) q)) = .ok config

theorem composes {e p q m m' m'' : Dict String Json} (hversion : BinaryVersion t (update e p))
    (hq : BinaryVersion t q) (h : mergedConfig t (.ofDict e) p = .ok m)
    (h' : mergedConfig t (.ofDict m) q = .ok m')
    (h'' : mergedConfig t (.ofDict e) (update p q) = .ok m'') : Composes t e p q m' m'' := by
  have hsame := get?_second h hversion h' h''
  have hlaid : BinaryVersion t (update e (update p q)) := by
    have hboth := hversion.updated hq
    unfold BinaryVersion at hboth ⊢
    rwa [get?_update_update]
  obtain ⟨config, hreads, hmerged⟩ := fromDict_merged h'' hlaid
  refine ⟨hsame, fun k hk => ?_, config, ?_, ?_⟩
  · rw [hsame k, mergedConfig_unknown h'' hk, get?_update, Option.or_assoc]
  · exact fromDict_eq_ok.mpr (hmerged.congr fun k => (hsame k).symm)
  · exact fromDict_eq_ok.mpr (hreads.congr fun k => get?_update_update e p q k)

/-- **Changes of a config compose**: where the first is read, the second made of its result answers
exactly when the two at once do, and comes to the same. -/
theorem changes_compose {existing : Json} {p q m : Dict String Json}
    (hexisting : BinaryVersion t (fieldsOf existing)) (hp : BinaryVersion t p)
    (hq : BinaryVersion t q) (h : mergedConfig t existing p = .ok m) :
    ((∃ m', mergedConfig t (.ofDict m) q = .ok m') ↔
      ∃ m'', mergedConfig t existing (update p q) = .ok m'') ∧
    ∀ m' m'', mergedConfig t (.ofDict m) q = .ok m' →
      mergedConfig t existing (update p q) = .ok m'' →
      Composes t (fieldsOf existing) p q m' m'' := by
  have hversion := hexisting.updated hp
  rw [← mergedConfig_fieldsOf existing] at h
  rw [← mergedConfig_fieldsOf existing]
  exact ⟨exists_second h hversion, fun m' m'' h' h'' => composes hversion hq h h' h''⟩

/-! ## Two changes of one config -/

/-- The texts of an interpreter that reads two spellings of a float. -/
def spelling : Texts :=
  { plainTexts with
    toFloat := fun s => if s = "nan" then some .nan else if s = "30" then some (.finite 30) else none }

/-- A config with a number as a string, a null, and a key of another build's. -/
def handWritten : Json := .obj [("idle_minutes", .str "30"), ("gpus", .null), ("theirs", .bool true)]

/-- Its environment set. -/
def setEnv : Dict String Json := .ofList [("env", .obj [("K", .int 1)])]

/-- A card shared, and the other build's key changed. -/
def setShared : Dict String Json := .ofList [("shared_gpus", .arr [.int 0]), ("theirs", .int 2)]

theorem changes_compose_handWritten : ∃ m m' m'',
    mergedConfig spelling handWritten setEnv = .ok m ∧
    mergedConfig spelling (.ofDict m) setShared = .ok m' ∧
    mergedConfig spelling handWritten (update setEnv setShared) = .ok m'' ∧
    Composes spelling (fieldsOf handWritten) setEnv setShared m' m'' := by
  have hfirst : (mergedConfig spelling handWritten setEnv).isOk = true := by decide +kernel
  have hboth : (mergedConfig spelling handWritten (update setEnv setShared)).isOk = true := by
    decide +kernel
  obtain ⟨m, h⟩ := exists_of_isOk hfirst
  obtain ⟨m'', h''⟩ := exists_of_isOk hboth
  have hnone : ∀ d : Dict String Json, d.get? "schema_version" = none → BinaryVersion spelling d := by
    intro d hd value x hvalue
    rw [hd] at hvalue
    cases hvalue
  obtain ⟨hanswers, hcomposes⟩ :=
    changes_compose (hnone _ (by rfl)) (hnone _ (by rfl)) (hnone setShared (by rfl)) h
  obtain ⟨m', h'⟩ := hanswers.mpr ⟨m'', h''⟩
  exact ⟨m, m', m'', h, h', h'', hcomposes m' m'' h' h''⟩

/-- The minutes a host may idle, set. -/
def setIdle (minutes : Int) : Dict String Json := .ofList [("idle_minutes", .int minutes)]

/-- **Two configs of one spelling are not equal**, when it spells no number; **and a change that is
refused is refused whatever the next one is**, where both at once are the second. -/
theorem spelled_apart :
    (do
      let existing : Json := .obj [("idle_minutes", .str "nan")]
      let m ← mergedConfig spelling existing .empty
      let m' ← mergedConfig spelling (.ofDict m) .empty
      let m'' ← mergedConfig spelling existing (update .empty .empty)
      pure ((Json.ofDict m').same (.ofDict m''))) = .ok false ∧
    (mergedConfig spelling (.obj []) (setIdle (10 ^ 400))).isOk = false ∧
    (mergedConfig spelling (.obj []) (update (setIdle (10 ^ 400)) (setIdle 5))).isOk = true := by
  refine ⟨?_, ?_, ?_⟩
  · decide +kernel
  · decide +kernel
  · decide +kernel

end Gpuc.Host.Documents
