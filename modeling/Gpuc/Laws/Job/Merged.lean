import Gpuc.Laws.Job.Documents

/-!
# What a merge makes of a config

`merged_config` reads the merged document and writes the known keys back as they were read. What it
makes of a key is a matter of that key alone (`normalised`, `normalised_of_merged`), whether the value is
the patch's or was there before, and what it has made of one it leaves alone (`mergedConfig_again`).

The one key this leaves a condition on is `schema_version`, which goes through a float: a float the
document holds there, or spells there, has to be one (`BinaryVersion`).
-/

set_option autoImplicit false

namespace Gpuc.Host.Documents

open Gpuc.Basis

@[simp] theorem get?_update (d patch : Dict String Json) (k : String) :
    (update d patch).get? k = (patch.get? k).or (d.get? k) := by
  have hreverse : ∀ d : Dict String Json, d.entries.reverse.lookup k = d.get? k := by
    intro d
    rw [← Dict.get?_ofList_eq_lookup, Dict.ofList_entries]
  rw [update, Dict.get?_ofList_eq_lookup, List.reverse_append, List.lookup_append, hreverse, hreverse]

@[simp] theorem fieldsOf_ofDict (d : Dict String Json) : fieldsOf (.ofDict d) = d := by
  rw [fieldsOf, Json.members_ofDict, Option.getD_some]

/-! ## One key at a time -/

section Reads
variable {t : Texts} {d d' : Json} {k : String}

/-- **Two documents have the same under a key.** -/
def Agree (d d' : Json) (k : String) : Prop := (fieldsOf d).get? k = (fieldsOf d').get? k

theorem Agree.given (h : Agree d d' k) : given d k = given d' k := by
  unfold Documents.given
  rw [show (fieldsOf d).get? k = (fieldsOf d').get? k from h]

theorem Agree.asFloat (h : Agree d d' k) (default' : Float64) :
    asFloat t d k default' = asFloat t d' k default' := by
  unfold Documents.asFloat
  rw [h.given]

theorem Agree.asOptFloat (h : Agree d d' k) : asOptFloat t d k = asOptFloat t d' k := by
  unfold Documents.asOptFloat
  rw [h.given, h.asFloat]

theorem Agree.asInt (h : Agree d d' k) (default' : Int) :
    asInt t d k default' = asInt t d' k default' := by
  unfold Documents.asInt
  rw [h.asFloat]

theorem Agree.asStr (h : Agree d d' k) (default' : String) :
    asStr t d k default' = asStr t d' k default' := by
  unfold Documents.asStr
  rw [h.given]

theorem Agree.asOptStr (h : Agree d d' k) : asOptStr t d k = asOptStr t d' k := by
  unfold Documents.asOptStr
  rw [h.given]

theorem Agree.asStrList (h : Agree d d' k) : asStrList t d k = asStrList t d' k := by
  unfold Documents.asStrList asList
  rw [show (fieldsOf d).get? k = (fieldsOf d').get? k from h]

theorem Agree.asOptStrList (h : Agree d d' k) : asOptStrList t d k = asOptStrList t d' k := by
  unfold Documents.asOptStrList
  rw [show (fieldsOf d).get? k = (fieldsOf d').get? k from h, h.asStrList]

theorem Agree.asStrDict (h : Agree d d' k) : asStrDict t d k = asStrDict t d' k := by
  unfold Documents.asStrDict
  rw [show (fieldsOf d).get? k = (fieldsOf d').get? k from h]

end Reads

/-- **A config as its fields are read**, each from its own key. -/
structure ReadsAs (t : Texts) (d : Json) (config : HostConfig) : Prop where
  schemaVersion : asInt t d "schema_version" Documents.schemaVersion = .ok config.schemaVersion
  host : (orElse · "local") <$> asStr t d "host" "local" = .ok config.host
  gpus : asOptStrList t d "gpus" = .ok config.gpus
  sharedGpus : asStrList t d "shared_gpus" = .ok config.sharedGpus
  provider : ((fieldsOf d).get? "provider").bind Json.members = config.provider
  idleMinutes : asFloat t d "idle_minutes" (.finite 15) = .ok config.idleMinutes
  s3Prefix : asOptStr t d "s3_prefix" = .ok config.s3Prefix
  createdAt : asOptStr t d "created_at" = .ok config.createdAt
  retentionDays : asOptFloat t d "retention_days" = .ok config.retentionDays
  workdirDays : asOptFloat t d "workdir_days" = .ok config.workdirDays
  env : asStrDict t d "env" = .ok config.env
  pkgCommit : asOptStr t d "pkg_commit" = .ok config.pkgCommit

variable {t : Texts}

theorem fromDict_eq_ok {d : Json} {config : HostConfig} :
    HostConfig.fromDict t d = .ok config ↔ ReadsAs t d config := by
  constructor
  · intro h
    unfold HostConfig.fromDict at h
    obtain ⟨version, hversion, h⟩ := bind_eq_ok h
    obtain ⟨host, hhost, h⟩ := bind_eq_ok h
    obtain ⟨gpus, hgpus, h⟩ := bind_eq_ok h
    obtain ⟨sharedGpus, hshared, h⟩ := bind_eq_ok h
    obtain ⟨idleMinutes, hidle, h⟩ := bind_eq_ok h
    obtain ⟨s3Prefix, hprefix, h⟩ := bind_eq_ok h
    obtain ⟨createdAt, hcreated, h⟩ := bind_eq_ok h
    obtain ⟨retentionDays, hretention, h⟩ := bind_eq_ok h
    obtain ⟨workdirDays, hworkdir, h⟩ := bind_eq_ok h
    obtain ⟨env, henv, h⟩ := bind_eq_ok h
    obtain ⟨pkgCommit, hcommit, h⟩ := bind_eq_ok h
    obtain rfl := Except.ok.inj h
    exact ⟨hversion, by rw [hhost]; rfl, hgpus, hshared, rfl, hidle, hprefix, hcreated, hretention,
      hworkdir, henv, hcommit⟩
  · intro h
    obtain ⟨host, hhost, hname⟩ := map_eq_ok h.host
    unfold HostConfig.fromDict
    rw [h.schemaVersion, hhost, h.gpus, h.sharedGpus, h.idleMinutes, h.s3Prefix, h.createdAt,
      h.retentionDays, h.workdirDays, h.env, h.pkgCommit]
    simp only [pure, Except.pure, bind, Except.bind, hname, h.provider]

/-- The keys a config is read from, and written to. -/
def configKeys : List String :=
  ["schema_version", "host", "gpus", "shared_gpus", "provider", "idle_minutes", "s3_prefix",
    "created_at", "retention_days", "workdir_days", "env", "pkg_commit"]

/-- What is written to each of them, in order. -/
def HostConfig.pairs (config : HostConfig) : List (String × Json) :=
  [("schema_version", .int config.schemaVersion),
    ("host", .str config.host),
    ("gpus", orNull (fun gpus => .arr (gpus.map .str)) config.gpus),
    ("shared_gpus", .arr (config.sharedGpus.map .str)),
    ("provider", orNull .ofDict config.provider),
    ("idle_minutes", .float config.idleMinutes),
    ("s3_prefix", orNull .str config.s3Prefix),
    ("created_at", orNull .str config.createdAt),
    ("retention_days", orNull .float config.retentionDays),
    ("workdir_days", orNull .float config.workdirDays),
    ("env", .ofDict (config.env.map .str)),
    ("pkg_commit", orNull .str config.pkgCommit)]

theorem nodup_pairs (config : HostConfig) : (config.pairs.map Prod.fst).Nodup :=
  show configKeys.Nodup by decide

theorem toDict_eq (config : HostConfig) : config.toDict = ⟨config.pairs, nodup_pairs config⟩ :=
  Dict.ofList_entries ⟨config.pairs, nodup_pairs config⟩

/-- A key is looked up the same where the entries agree on it. -/
theorem lookup_congr {α : Type} {k : String} {es es' : List (String × α)}
    (h : List.Forall₂ (fun e e' => e.1 = e'.1 ∧ (e.1 = k → e.2 = e'.2)) es es') :
    es.lookup k = es'.lookup k := by
  induction h with
  | nil => rfl
  | @cons e e' es es' he _ ih =>
    obtain ⟨hkey, hvalue⟩ := he
    rw [List.lookup_cons, List.lookup_cons, ← hkey, ih]
    by_cases hk : k = e.1
    · rw [hvalue hk.symm]
    · rw [beq_false_of_ne hk]

theorem eq_of_ok {ε α : Type} {x y : Except ε α} {a b : α} (hxy : x = y) (hx : x = .ok a)
    (hy : y = .ok b) : a = b := by
  rw [hx, hy] at hxy
  exact Except.ok.inj hxy

/-- **What is written to a key is a matter of what is read from it.** -/
theorem ReadsAs.toDict_agree {d d' : Json} {config config' : HostConfig} (h : ReadsAs t d config)
    (h' : ReadsAs t d' config') {k : String} (hk : Agree d d' k) :
    config.toDict.get? k = config'.toDict.get? k := by
  rw [toDict_eq, toDict_eq]
  show config.pairs.lookup k = config'.pairs.lookup k
  apply lookup_congr
  refine .cons ⟨rfl, ?_⟩ <| .cons ⟨rfl, ?_⟩ <| .cons ⟨rfl, ?_⟩ <| .cons ⟨rfl, ?_⟩ <|
    .cons ⟨rfl, ?_⟩ <| .cons ⟨rfl, ?_⟩ <| .cons ⟨rfl, ?_⟩ <| .cons ⟨rfl, ?_⟩ <|
    .cons ⟨rfl, ?_⟩ <| .cons ⟨rfl, ?_⟩ <| .cons ⟨rfl, ?_⟩ <| .cons ⟨rfl, ?_⟩ .nil
  all_goals
    rintro rfl
    dsimp only
  · rw [eq_of_ok (hk.asInt _) h.schemaVersion h'.schemaVersion]
  · rw [eq_of_ok (congrArg _ (hk.asStr _)) h.host h'.host]
  · rw [eq_of_ok hk.asOptStrList h.gpus h'.gpus]
  · rw [eq_of_ok hk.asStrList h.sharedGpus h'.sharedGpus]
  · rw [← h.provider, ← h'.provider, show (fieldsOf d).get? "provider" = _ from hk]
  · rw [eq_of_ok (hk.asFloat _) h.idleMinutes h'.idleMinutes]
  · rw [eq_of_ok hk.asOptStr h.s3Prefix h'.s3Prefix]
  · rw [eq_of_ok hk.asOptStr h.createdAt h'.createdAt]
  · rw [eq_of_ok hk.asOptFloat h.retentionDays h'.retentionDays]
  · rw [eq_of_ok hk.asOptFloat h.workdirDays h'.workdirDays]
  · rw [eq_of_ok hk.asStrDict h.env h'.env]
  · rw [eq_of_ok hk.asOptStr h.pkgCommit h'.pkgCommit]

/-! ## What was written is read -/

section Written
variable {d : Json} {k : String}

theorem asStr_written {text : String} (h : (fieldsOf d).get? k = some (.str text))
    (default' : String) : asStr t d k default' = .ok text := by
  rw [asStr, given_eq_some.mpr ⟨h, nofun⟩]
  rfl

theorem asOptStr_written {text : Option String} (h : (fieldsOf d).get? k = some (orNull .str text)) :
    asOptStr t d k = .ok text := by
  cases text with
  | none => rw [asOptStr, given_eq_none.mpr (.inr h)]
  | some text =>
    rw [asOptStr, given_eq_some.mpr ⟨h, nofun⟩]
    rfl

theorem asStrList_written {texts : List String}
    (h : (fieldsOf d).get? k = some (.arr (texts.map .str))) : asStrList t d k = .ok texts := by
  have hall : ∀ texts : List String, (texts.map Json.str).mapM (Json.text t) = .ok texts := by
    intro texts
    induction texts with
    | nil => rfl
    | cons text texts ih =>
      rw [List.map_cons, List.mapM_cons, ih]
      rfl
  rw [asStrList, asList, h]
  exact hall texts

theorem asOptStrList_written {texts : Option (List String)}
    (h : (fieldsOf d).get? k = some (orNull (fun texts => .arr (texts.map .str)) texts)) :
    asOptStrList t d k = .ok texts := by
  cases texts with
  | none =>
    rw [asOptStrList, h]
    rfl
  | some texts =>
    rw [asOptStrList, h]
    show (do let texts ← asStrList t d k; pure (some texts)) = _
    rw [asStrList_written h]
    rfl

theorem asFloat_written {x : Float64} (h : (fieldsOf d).get? k = some (.float x))
    (default' : Float64) : asFloat t d k default' = .ok x := by
  rw [asFloat, given_eq_some.mpr ⟨h, nofun⟩]
  rfl

theorem asOptFloat_written {x : Option Float64} (h : (fieldsOf d).get? k = some (orNull .float x))
    (hx : x ≠ some .nan) : asOptFloat t d k = .ok x := by
  cases x with
  | none => rw [asOptFloat, given_eq_none.mpr (.inr h)]
  | some x =>
    rw [asOptFloat, given_eq_some.mpr ⟨h, nofun⟩]
    show (do let parsed ← asFloat t d k .nan; pure (if parsed = Float64.nan then none else some parsed)) = _
    rw [asFloat_written h]
    exact congrArg _ (if_neg fun hnan => hx (congrArg some hnan))

theorem asInt_written {n : Int} (h : (fieldsOf d).get? k = some (.int n))
    (hn : Float64.ofInt n = some (.finite n)) (default' : Int) : asInt t d k default' = .ok n := by
  have hread : asFloat t d k (.finite default') = .ok (.finite n) := by
    rw [asFloat, given_eq_some.mpr ⟨h, nofun⟩]
    show orDefault _ (Json.toFloat t (.int n)) = _
    rw [Json.toFloat, hn]
    rfl
  rw [asInt, hread]
  exact congrArg (fun o : Option Int => Except.ok (o.getD default')) (Float64.toInt_intCast n)

theorem asStrDict_written {texts : Dict String String}
    (h : (fieldsOf d).get? k = some (.ofDict (texts.map .str))) : asStrDict t d k = .ok texts := by
  have hall : ∀ es : List (String × String), (es.map fun e => (e.1, Json.str e.2)).mapM (fun e => do
      let text ← e.2.text t
      pure (e.1, text)) = (.ok es : Except Raised (List (String × String))) := by
    intro es
    induction es with
    | nil => rfl
    | cons e es ih =>
      rw [List.map_cons, List.mapM_cons, ih]
      rfl
  unfold asStrDict
  rw [h, Json.ofDict]
  dsimp only
  rw [Dict.ofList_entries, Dict.map, hall]
  exact congrArg Except.ok (Dict.ofList_entries texts)

end Written

/-- The version is an integer, or its float is one of the format. -/
def BinaryVersion (t : Texts) (d : Dict String Json) : Prop :=
  ∀ value x, d.get? "schema_version" = some value → value.toFloat t = .ok x →
    (∃ n, value = .int n) ∨ x.Binary64

theorem orElse_orElse (text other : String) :
    orElse (orElse text other) other = orElse text other := by
  unfold orElse
  split
  · exact ite_self _
  · rfl

/-- A field comes to its default, or to the float its value is. -/
theorem asFloat_eq_ok {d : Json} {k : String} {default' x : Float64}
    (h : asFloat t d k default' = .ok x) :
    x = default' ∨ ∃ value, (fieldsOf d).get? k = some value ∧ value.toFloat t = .ok x := by
  unfold asFloat at h
  split at h
  · exact .inl (Except.ok.inj h).symm
  · exact .inl (Except.ok.inj h).symm
  · next value _ hvalue =>
    cases hfloat : value.toFloat t with
    | ok y =>
      rw [hfloat] at h
      obtain rfl := Except.ok.inj h
      exact .inr ⟨value, (given_eq_some.mp hvalue).1, hfloat⟩
    | error raised =>
      rw [hfloat] at h
      cases raised with
      | overflowError => cases h
      | typeError => exact .inl (Except.ok.inj h).symm
      | valueError message => exact .inl (Except.ok.inj h).symm

theorem toFloat_int {n : Int} {x : Float64} (h : (Json.int n).toFloat t = .ok x) :
    Float64.ofInt n = some x := by
  rw [Json.toFloat] at h
  split at h
  · next y hy => rw [hy, Except.ok.inj h]
  · cases h

/-- A float stands for the integer. -/
def Representable (n : Int) : Prop := Float64.ofInt n = some (.finite n)

/-- One of at most 53 bits, to begin with. -/
theorem representable_of_small {n : Int} (hn : n.natAbs < 2 ^ 53) : Representable n :=
  Float64.ofInt_small hn

/-- What stands under a key is an integer, or its float is one of the format. -/
def BinaryAt (t : Texts) (d : Json) (k : String) : Prop :=
  ∀ value x, (fieldsOf d).get? k = some value → value.toFloat t = .ok x →
    (∃ n, value = .int n) ∨ x.Binary64

/-- The integer part of what stands there is read again from what it is written as. -/
theorem representable_toInt {d : Json} {k : String} (hd : BinaryAt t d k) {value : Json} {x : Float64}
    {n : Int} (hvalue : (fieldsOf d).get? k = some value) (hx : value.toFloat t = .ok x)
    (hn : x.toInt = some n) : Representable n := by
  rcases hd value x hvalue hx with ⟨m, rfl⟩ | hbinary
  · exact Float64.ofInt_toInt_ofInt (toFloat_int hx) hn
  · exact hbinary.ofInt_toInt hn

/-- **An integer that was read is read again from what it is written as.** -/
theorem representable_asInt {d : Json} {k : String} (hd : BinaryAt t d k) {default' n : Int}
    (hdefault : Representable default') (h : asInt t d k default' = .ok n) : Representable n := by
  obtain ⟨x, hread, hn⟩ := map_eq_ok h
  cases hk : x.toInt with
  | none =>
    rw [hk] at hn
    exact hn ▸ hdefault
  | some m =>
    rw [hk] at hn
    obtain rfl : m = n := hn
    rcases asFloat_eq_ok hread with rfl | ⟨value, hvalue, hfloat⟩
    · rw [Float64.toInt_intCast] at hk
      exact Option.some.inj hk ▸ hdefault
    · exact representable_toInt hd hvalue hfloat hk

/-- A version that was read is one of these. -/
theorem ofInt_asInt {d : Dict String Json} {n : Int} (hd : BinaryVersion t d)
    (h : asInt t (.ofDict d) "schema_version" schemaVersion = .ok n) : Representable n := by
  refine representable_asInt (fun value x hvalue hx => ?_) (representable_of_small (by decide)) h
  rw [fieldsOf_ofDict] at hvalue
  exact hd value x hvalue hx

theorem asOptFloat_ne_nan {d : Json} {k : String} {x : Option Float64}
    (h : asOptFloat t d k = .ok x) : x ≠ some .nan := by
  unfold asOptFloat at h
  split at h
  · obtain rfl := Except.ok.inj h
    nofun
  · obtain ⟨parsed, -, hx⟩ := map_eq_ok h
    rintro rfl
    split at hx
    · cases hx
    · next hnot => exact hnot (Option.some.inj hx)

/-- **A config that was read is read again from what it is written as.** -/
theorem ReadsAs.again {d m : Dict String Json} {config : HostConfig}
    (h : ReadsAs t (.ofDict d) config) (hd : BinaryVersion t d)
    (hm : ∀ e ∈ config.pairs, m.get? e.1 = some e.2) : ReadsAs t (.ofDict m) config := by
  have hget : ∀ e ∈ config.pairs, (fieldsOf (.ofDict m)).get? e.1 = some e.2 := by
    rw [fieldsOf_ofDict]
    exact hm
  simp only [HostConfig.pairs, List.forall_mem_cons, List.not_mem_nil, false_imp_iff, implies_true,
    and_true] at hget
  obtain ⟨hversion, hhost, hgpus, hshared, hprovider, hidle, hprefix, hcreated, hretention, hworkdir,
    henv, hcommit⟩ := hget
  exact
    { schemaVersion := asInt_written hversion (ofInt_asInt hd h.schemaVersion) _
      host := by
        obtain ⟨text, -, hname⟩ := map_eq_ok h.host
        rw [asStr_written hhost, ← hname]
        exact congrArg Except.ok (orElse_orElse text _)
      gpus := asOptStrList_written hgpus
      sharedGpus := asStrList_written hshared
      provider := by
        rw [hprovider]
        cases config.provider with
        | none => rfl
        | some fields => exact Json.members_ofDict fields
      idleMinutes := asFloat_written hidle _
      s3Prefix := asOptStr_written hprefix
      createdAt := asOptStr_written hcreated
      retentionDays := asOptFloat_written hretention (asOptFloat_ne_nan h.retentionDays)
      workdirDays := asOptFloat_written hworkdir (asOptFloat_ne_nan h.workdirDays)
      env := asStrDict_written henv
      pkgCommit := asOptStr_written hcommit }

/-! ## A merge -/

theorem mergedConfig_eq_ok {d patch m : Dict String Json} :
    mergedConfig t (.ofDict d) patch = .ok m ↔
      ∃ config, ReadsAs t (.ofDict (update d patch)) config ∧
        m = update (update d patch) config.toDict := by
  unfold mergedConfig
  rw [fieldsOf_ofDict]
  dsimp only
  constructor
  · intro h
    obtain ⟨config, hconfig, h⟩ := bind_eq_ok h
    exact ⟨config, fromDict_eq_ok.mp hconfig, (Except.ok.inj h).symm⟩
  · rintro ⟨config, hconfig, rfl⟩
    rw [fromDict_eq_ok.mpr hconfig]
    rfl

/-- A document with a value under one key, or nothing at all. -/
def single (key : String) (value : Option Json) : Dict String Json :=
  value.elim .empty (Dict.empty.set key)

/-- **What `merged_config` makes of a key**, in a document with nothing else. -/
def normalised (t : Texts) (key : String) (value : Option Json) : Except Raised (Option Json) := do
  let document ← mergedConfig t (.ofDict .empty) (single key value)
  pure (document.get? key)

theorem get?_single (key k : String) (value : Option Json) :
    (single key value).get? k = if k = key then value else none := by
  cases value with
  | none => simp [single]
  | some value =>
    show (Dict.empty.set key value).get? k = _
    rw [Dict.get?_set, Dict.get?_empty]

/-- A document with fewer keys is read where the whole is. -/
theorem ConfigFits.mono {d d' : Dict String Json}
    (hsub : ∀ k v, d'.get? k = some v → d.get? k = some v) (h : ConfigFits (.ofDict d)) :
    ConfigFits (.ofDict d') := by
  have hget : ∀ k v, (fieldsOf (.ofDict d')).get? k = some v →
      (fieldsOf (.ofDict d)).get? k = some v := by
    rw [fieldsOf_ofDict, fieldsOf_ofDict]
    exact hsub
  refine ⟨fun key hkey hlarge => ?_, fun key hkey hlong => ?_, fun key hkey hlong => ?_, fun hlong => ?_⟩
  · obtain ⟨n, hn, hlarge⟩ := hlarge
    exact h.numbers key hkey ⟨n, hget _ _ hn, hlarge⟩
  · obtain ⟨value, hvalue, hlong⟩ := hlong
    exact h.texts key hkey ⟨value, hget _ _ hvalue, hlong⟩
  · obtain ⟨item, hitem, hlong⟩ := hlong
    refine h.lists key hkey ⟨item, ?_, hlong⟩
    unfold asList at hitem ⊢
    split at hitem
    · next items hitems =>
      rw [hget _ _ hitems]
      exact hitem
    · exact absurd hitem List.not_mem_nil
  · obtain ⟨pairs, hpairs, k, value, hvalue, hlong⟩ := hlong
    exact h.env ⟨pairs, hget _ _ hpairs, k, value, hvalue, hlong⟩

/-- **What a merge makes of a key is a matter of the key.** -/
theorem normalised_of_merged {d patch m : Dict String Json}
    (h : mergedConfig t (.ofDict d) patch = .ok m) (k : String) :
    normalised t k ((patch.get? k).or (d.get? k)) = .ok (m.get? k) := by
  obtain ⟨config, hreads, rfl⟩ := mergedConfig_eq_ok.mp h
  rw [← get?_update]
  have hsub : ∀ j v, (update .empty (single k ((update d patch).get? k))).get? j = some v →
      (update d patch).get? j = some v := by
    intro j v hj
    rw [get?_update, Dict.get?_empty, Option.or_none, get?_single] at hj
    split at hj
    · next hjk => rwa [hjk]
    · cases hj
  obtain ⟨config', hconfig'⟩ := (HostConfig.fromDict_ok t _).mpr
    (((HostConfig.fromDict_ok t _).mp ⟨config, fromDict_eq_ok.mpr hreads⟩).mono hsub)
  have hagree : Agree (.ofDict (update .empty (single k ((update d patch).get? k))))
      (.ofDict (update d patch)) k := by
    rw [Agree, fieldsOf_ofDict, fieldsOf_ofDict, get?_update, Dict.get?_empty, Option.or_none, get?_single,
      if_pos rfl]
  have hwritten := (fromDict_eq_ok.mp hconfig').toDict_agree hreads hagree
  rw [Agree, fieldsOf_ofDict, fieldsOf_ofDict] at hagree
  have hmerged := mergedConfig_eq_ok.mpr ⟨config', fromDict_eq_ok.mp hconfig', rfl⟩
  rw [normalised, hmerged]
  apply congrArg Except.ok
  rw [get?_update _ config'.toDict, get?_update _ config.toDict, hwritten, hagree]

@[simp] theorem update_empty (d : Dict String Json) : update d .empty = d := by
  rw [update]
  show Dict.ofList (d.entries ++ []) = d
  rw [List.append_nil, Dict.ofList_entries]

/-- What a merge makes of a key that a config is read from. -/
theorem ReadsAs.normalised {d : Dict String Json} {config : HostConfig}
    (h : ReadsAs t (.ofDict d) config) {key : String} {value : Json}
    (hvalue : (key, value) ∈ config.pairs) :
    Documents.normalised t key (d.get? key) = .ok (some value) := by
  have hwritten : config.toDict.get? key = some value := by
    rw [toDict_eq]
    exact Dict.get?_eq_some.mpr hvalue
  have hmerged : mergedConfig t (.ofDict d) .empty = .ok (update d config.toDict) := by
    apply mergedConfig_eq_ok.mpr
    rw [update_empty]
    exact ⟨config, h, rfl⟩
  have hnormal := normalised_of_merged hmerged key
  rwa [Dict.get?_empty, Option.none_or, get?_update, hwritten, Option.some_or] at hnormal

/-- **What a merge has made, another leaves as it is.** -/
theorem mergedConfig_again {d patch m : Dict String Json}
    (h : mergedConfig t (.ofDict d) patch = .ok m) (hversion : BinaryVersion t (update d patch)) :
    ∃ m', mergedConfig t (.ofDict m) .empty = .ok m' ∧ ∀ k, m'.get? k = m.get? k := by
  obtain ⟨config, hreads, rfl⟩ := mergedConfig_eq_ok.mp h
  have hagain : ReadsAs t (.ofDict (update (update (update d patch) config.toDict) .empty)) config := by
    apply hreads.again hversion
    intro e he
    have hwritten : config.toDict.get? e.1 = some e.2 := by
      rw [toDict_eq]
      exact Dict.get?_eq_some.mpr he
    rw [get?_update, Dict.get?_empty, Option.none_or, get?_update, hwritten, Option.some_or]
  refine ⟨_, mergedConfig_eq_ok.mpr ⟨config, hagain, rfl⟩, fun k => ?_⟩
  rw [get?_update, get?_update, Dict.get?_empty, Option.none_or, get?_update, ← Option.or_assoc,
    Option.or_self]

/-- **A value that a merge has made of another is made of itself.** -/
theorem normalised_again {d patch m : Dict String Json}
    (h : mergedConfig t (.ofDict d) patch = .ok m) (hversion : BinaryVersion t (update d patch))
    (k : String) : normalised t k (m.get? k) = .ok (m.get? k) := by
  obtain ⟨m', hm', hget⟩ := mergedConfig_again h hversion
  have hagain := normalised_of_merged hm' k
  rwa [Dict.get?_empty, Option.none_or, hget] at hagain

theorem BinaryVersion.updated {d patch : Dict String Json} (hd : BinaryVersion t d)
    (hpatch : BinaryVersion t patch) : BinaryVersion t (update d patch) := by
  intro value x hget hfloat
  rw [get?_update] at hget
  cases hkey : patch.get? "schema_version" with
  | none =>
    rw [hkey, Option.none_or] at hget
    exact hd value x hget hfloat
  | some value' =>
    rw [hkey, Option.some_or] at hget
    obtain rfl := Option.some.inj hget
    exact hpatch _ x hkey hfloat

theorem binaryVersion_merged {d patch m : Dict String Json}
    (h : mergedConfig t (.ofDict d) patch = .ok m) : BinaryVersion t m := by
  obtain ⟨config, -, rfl⟩ := mergedConfig_eq_ok.mp h
  intro value x hget _
  have hversion : config.toDict.get? "schema_version" = some (.int config.schemaVersion) := by
    rw [toDict_eq]
    rfl
  rw [get?_update, hversion, Option.some_or] at hget
  exact .inl ⟨_, (Option.some.inj hget).symm⟩

end Gpuc.Host.Documents
