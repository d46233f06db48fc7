import Mathlib.Data.List.ReduceOption
import Gpuc.Laws.Control.Connect

/-!
# What a machine's judgement says of a config

A patch that was judged and not written reads as no change: the report has no line for a key that it
compares (`Judged.noDrift`). One that was judged names no card twice, over the document it was judged on
(`Judged.named`), and what cards a merge names is a matter of the lists it merges (`cardsOf_merged`,
`cardsOf_update_congr`).
-/

set_option autoImplicit false

namespace Gpuc.Control.Connect

open Gpuc.Basis Gpuc.Host.Documents Gpuc.Control.Remote
open Gpuc.Host (Gpu Uuid resolve)

variable {t : Texts}

/-! ## A patch that changes nothing -/

/-- **`config_changes` has nothing to say of a key**: what a document holds there reads as the value. -/
def NoDrift (t : Texts) (key : String) (value value' : Option Json) : Prop :=
  ∃ theirs ours, normalised t key value = .ok (some theirs) ∧
    normalised t key value' = .ok (some ours) ∧ driftLine t key theirs ours = .ok none

/-- A comparison with no lines has none for a key that it compares. -/
theorem configDrift_eq_nil {d : Dict String Json} {incoming : HostConfig} {keys : List String}
    (h : configDrift t d incoming keys = .ok []) {key : String} {theirs ours : Json}
    (hours : (key, ours) ∈ incoming.pairs) (hkey : key ∈ keys) (hdrift : key ∉ notDrift)
    (htheirs : d.get? key = some theirs) : driftLine t key theirs ours = .ok none := by
  unfold configDrift at h
  rw [toDict_eq] at h
  obtain ⟨lines, hlines, h⟩ := bind_eq_ok h
  obtain ⟨line, hline, hread⟩ := mem_mapM_eq_ok hlines hours
  have hnone : line = none := by
    cases line with
    | none => rfl
    | some text =>
      have hmem := List.reduceOption_mem_iff.mpr hline
      rw [Except.ok.inj h] at hmem
      exact absurd hmem List.not_mem_nil
  dsimp only at hread
  rw [htheirs, hnone] at hread
  dsimp only at hread
  rwa [if_neg (by simp [hdrift, hkey])] at hread

/-- What a report with no lines has compared. -/
theorem configChanges_eq_nil {d patch : Dict String Json} (h : configChanges t d patch = .ok []) :
    ∃ before after, ReadsAs t (.ofDict d) before ∧ ReadsAs t (.ofDict (update d patch)) after ∧
      ∀ key theirs ours, (key, theirs) ∈ before.pairs → (key, ours) ∈ after.pairs →
        key ∈ patch.keys → key ∉ notDrift → driftLine t key theirs ours = .ok none := by
  unfold configChanges at h
  obtain ⟨before, hbefore, h⟩ := bind_eq_ok h
  obtain ⟨after, hafter, h⟩ := bind_eq_ok h
  refine ⟨before, after, fromDict_eq_ok.mp hbefore, fromDict_eq_ok.mp hafter, ?_⟩
  intro key theirs ours htheirs hours hkey hdrift
  have hread : before.toDict.get? key = some theirs := by
    rw [toDict_eq]
    exact Dict.get?_eq_some.mpr htheirs
  refine configDrift_eq_nil h hours hkey hdrift ((Dict.get?_ofList_agree ?_).mpr ?_)
  · intro k v w hv hw
    obtain ⟨j, -, hj⟩ := List.mem_map.mp hv
    obtain ⟨j', -, hj'⟩ := List.mem_map.mp hw
    cases hj
    cases hj'
    rfl
  · exact List.mem_map.mpr ⟨key, hkey, by rw [hread, Option.getD_some]⟩

theorem exists_mem_pairs {key : String} (hkey : key ∈ configKeys) (config : HostConfig) :
    ∃ value, (key, value) ∈ config.pairs := by
  obtain ⟨⟨k, value⟩, hmem, rfl⟩ := List.mem_map.mp (show key ∈ config.pairs.map Prod.fst from hkey)
  exact ⟨value, hmem⟩

/-- A patch that was judged and not written had no line in the report. -/
theorem Judged.compared {table : List Gpu} {seen : Dict String Json} {decision : Decision}
    (h : Judged t table seen decision) (hwrites : decision.writes = false)
    (hpatch : decision.patch.entries ≠ []) :
    ∃ before after, ReadsAs t (.ofDict seen) before ∧
      ReadsAs t (.ofDict (update seen decision.patch)) after ∧
      ∀ key theirs ours, (key, theirs) ∈ before.pairs → (key, ours) ∈ after.pairs →
        key ∈ decision.patch.keys → key ∉ notDrift → driftLine t key theirs ours = .ok none := by
  obtain ⟨changes, hchanges, hwritten⟩ := h.writes
  have hnone : changes = [] := by
    rw [hwrites, List.isEmpty_eq_false_iff.mpr hpatch] at hwritten
    simp only [Bool.not_false, Bool.true_and, Bool.false_eq, Bool.or_eq_false_iff, Bool.not_eq_false',
      List.isEmpty_iff] at hwritten
    exact hwritten.1
  rw [hnone] at hchanges
  exact configChanges_eq_nil hchanges

/-- **A patch that was judged and not written reads as no change.** -/
theorem Judged.noDrift {table : List Gpu} {seen : Dict String Json} {decision : Decision}
    (h : Judged t table seen decision) (hwrites : decision.writes = false) {key : String}
    (hkey : key ∈ decision.patch.keys) (hknown : key ∈ configKeys) (hdrift : key ∉ notDrift) :
    NoDrift t key (seen.get? key) (decision.patch.get? key) := by
  have hpatch : decision.patch.entries ≠ [] := by
    obtain ⟨e, he, -⟩ := List.mem_map.mp hkey
    exact List.ne_nil_of_mem he
  obtain ⟨before, after, hbefore, hafter, hcompared⟩ := h.compared hwrites hpatch
  obtain ⟨theirs, htheirs⟩ := exists_mem_pairs hknown before
  obtain ⟨ours, hours⟩ := exists_mem_pairs hknown after
  refine ⟨theirs, ours, hbefore.normalised htheirs, ?_,
    hcompared key theirs ours htheirs hours hkey hdrift⟩
  obtain ⟨value, hvalue⟩ := Dict.mem_keys.mp hkey
  have hnormal := hafter.normalised hours
  rwa [get?_update, hvalue, Option.some_or, ← hvalue] at hnormal

/-! ## The cards a document names -/

/-- The lists of a document that name cards, as they are read. -/
def cardsOf (t : Texts) (d : Dict String Json) : Except Raised (Option (List String) × List String) := do
  let owned ← asOptStrList t (.ofDict d) "gpus"
  let shared ← asStrList t (.ofDict d) "shared_gpus"
  pure (owned, shared)

/-- **A document names no card of a table twice.** -/
def NamedOnce (t : Texts) (table : List Gpu) (d : Dict String Json) : Prop :=
  ∃ cards, cardsOf t d = .ok cards ∧ (resolve cards.1 table cards.2).duplicates = []

/-- A patch names one of the lists. -/
def NamesCards (patch : Dict String Json) : Prop :=
  "gpus" ∈ patch.keys ∨ "shared_gpus" ∈ patch.keys

theorem cardsOf_eq_ok {d : Dict String Json} {cards : Option (List String) × List String} :
    cardsOf t d = .ok cards ↔ asOptStrList t (.ofDict d) "gpus" = .ok cards.1 ∧
      asStrList t (.ofDict d) "shared_gpus" = .ok cards.2 := by
  constructor
  · intro h
    obtain ⟨owned, howned, h⟩ := bind_eq_ok h
    obtain ⟨shared, hshared, h⟩ := bind_eq_ok h
    obtain rfl := Except.ok.inj h
    exact ⟨howned, hshared⟩
  · rintro ⟨howned, hshared⟩
    rw [cardsOf, howned, hshared]
    rfl

theorem cardsOf_reads {d : Dict String Json} {config : HostConfig}
    (h : ReadsAs t (.ofDict d) config) : cardsOf t d = .ok (config.gpus, config.sharedGpus) :=
  cardsOf_eq_ok.mpr ⟨h.gpus, h.sharedGpus⟩

/-- A document with the same lists names the same cards. -/
theorem cardsOf_congr {d d' : Dict String Json} (hgpus : d.get? "gpus" = d'.get? "gpus")
    (hshared : d.get? "shared_gpus" = d'.get? "shared_gpus") : cardsOf t d = cardsOf t d' := by
  have hown : Agree (.ofDict d) (.ofDict d') "gpus" := by
    rwa [Agree, fieldsOf_ofDict, fieldsOf_ofDict]
  have hborrowed : Agree (.ofDict d) (.ofDict d') "shared_gpus" := by
    rwa [Agree, fieldsOf_ofDict, fieldsOf_ofDict]
  rw [cardsOf, cardsOf, hown.asOptStrList, hborrowed.asStrList]

/-- A patch that names no cards leaves them. -/
theorem cardsOf_update_of_not {d patch : Dict String Json} (h : ¬ NamesCards patch) :
    cardsOf t (update d patch) = cardsOf t d := by
  obtain ⟨hgpus, hshared⟩ := not_or.mp h
  apply cardsOf_congr
  · rw [get?_update, Dict.get?_eq_none.mpr hgpus, Option.none_or]
  · rw [get?_update, Dict.get?_eq_none.mpr hshared, Option.none_or]

/-- **A patch makes the same of two documents with the same cards.** -/
theorem cardsOf_update_congr {d d' patch : Dict String Json} {cards : Option (List String) × List String}
    (h : cardsOf t d = .ok cards) (h' : cardsOf t d' = .ok cards) :
    cardsOf t (update d patch) = cardsOf t (update d' patch) := by
  obtain ⟨hgpus, hshared⟩ := cardsOf_eq_ok.mp h
  obtain ⟨hgpus', hshared'⟩ := cardsOf_eq_ok.mp h'
  -- a list is the patch's, or the one the document had
  have hagree : ∀ key, Agree (.ofDict (update d patch)) (.ofDict (update d' patch)) key ∨
      (Agree (.ofDict (update d patch)) (.ofDict d) key ∧
        Agree (.ofDict (update d' patch)) (.ofDict d') key) := by
    intro key
    simp only [Agree, fieldsOf_ofDict, get?_update]
    cases patch.get? key with
    | none => exact .inr ⟨rfl, rfl⟩
    | some value => exact .inl rfl
  have howned : asOptStrList t (.ofDict (update d patch)) "gpus"
      = asOptStrList t (.ofDict (update d' patch)) "gpus" := by
    rcases hagree "gpus" with hsame | ⟨hleft, hright⟩
    · exact hsame.asOptStrList
    · rw [hleft.asOptStrList, hright.asOptStrList, hgpus, hgpus']
  have hborrowed : asStrList t (.ofDict (update d patch)) "shared_gpus"
      = asStrList t (.ofDict (update d' patch)) "shared_gpus" := by
    rcases hagree "shared_gpus" with hsame | ⟨hleft, hright⟩
    · exact hsame.asStrList
    · rw [hleft.asStrList, hright.asStrList, hshared, hshared']
  rw [cardsOf, cardsOf, howned, hborrowed]

/-- **A merge names the cards of what it merges.** -/
theorem cardsOf_merged {d patch m : Dict String Json} (h : mergedConfig t (.ofDict d) patch = .ok m) :
    cardsOf t m = cardsOf t (update d patch) := by
  obtain ⟨config, hreads, rfl⟩ := mergedConfig_eq_ok.mp h
  have hwritten : ∀ key value, (key, value) ∈ config.pairs →
      (fieldsOf (.ofDict (update (update d patch) config.toDict))).get? key = some value := by
    intro key value hmem
    have hread : config.toDict.get? key = some value := by
      rw [toDict_eq]
      exact Dict.get?_eq_some.mpr hmem
    rw [fieldsOf_ofDict, get?_update, hread, Option.some_or]
  rw [cardsOf_reads hreads]
  apply cardsOf_eq_ok.mpr
  exact ⟨asOptStrList_written (hwritten _ _ (by simp [HostConfig.pairs])),
    asStrList_written (hwritten _ _ (by simp [HostConfig.pairs]))⟩

theorem same_texts {texts texts' : List String}
    (h : (Json.arr (texts.map .str)).same (.arr (texts'.map .str)) = true) : texts = texts' := by
  have hitems : ∀ texts texts' : List String,
      Json.sameItems (texts.map .str) (texts'.map .str) = true → texts = texts' := by
    intro texts
    induction texts with
    | nil =>
      intro texts' h
      cases texts' with
      | nil => rfl
      | cons => cases h
    | cons text texts ih =>
      intro texts' h
      cases texts' with
      | nil => cases h
      | cons text' texts' =>
        rw [List.map_cons, List.map_cons, Json.sameItems, Bool.and_eq_true] at h
        rw [of_decide_eq_true h.1, ih texts' h.2]
  exact hitems texts texts' h

theorem same_optTexts {texts texts' : Option (List String)}
    (h : (orNull (fun texts => .arr (texts.map .str)) texts).same
      (orNull (fun texts => .arr (texts.map .str)) texts') = true) : texts = texts' := by
  cases texts with
  | none =>
    cases texts' with
    | none => rfl
    | some texts' => cases h
  | some texts =>
    cases texts' with
    | none => cases h
    | some texts' => exact congrArg some (same_texts h)

/-- A key without a line is the same on both sides, unless it is the environment. -/
theorem same_of_driftLine {key : String} {theirs ours : Json} (hkey : key ≠ "env")
    (h : driftLine t key theirs ours = .ok none) : theirs.same ours = true := by
  unfold driftLine at h
  split at h
  · next hsame => exact hsame
  · obtain ⟨before, -, h⟩ := bind_eq_ok h
    obtain ⟨after, -, h⟩ := bind_eq_ok h
    cases h

/-- A patch that changes nothing leaves the cards. -/
theorem Judged.cards_kept {table : List Gpu} {seen : Dict String Json} {decision : Decision}
    (h : Judged t table seen decision) (hwrites : decision.writes = false) :
    cardsOf t (update seen decision.patch) = cardsOf t seen := by
  by_cases hempty : decision.patch.entries = []
  · have hnames : ¬ NamesCards decision.patch := by
      simp [NamesCards, Dict.keys, hempty]
    exact cardsOf_update_of_not hnames
  obtain ⟨before, after, hbefore, hafter, hcompared⟩ := h.compared hwrites hempty
  have hkept : ∀ key, key ∉ decision.patch.keys →
      Agree (.ofDict (update seen decision.patch)) (.ofDict seen) key := by
    intro key hkey
    rw [Agree, fieldsOf_ofDict, fieldsOf_ofDict, get?_update, Dict.get?_eq_none.mpr hkey,
      Option.none_or]
  have howned : after.gpus = before.gpus := by
    by_cases hkey : "gpus" ∈ decision.patch.keys
    · have hsame := same_of_driftLine (by decide) (hcompared "gpus" _ _
        (by simp [HostConfig.pairs]; rfl) (by simp [HostConfig.pairs]; rfl) hkey (by decide))
      exact (same_optTexts hsame).symm
    · exact eq_of_ok (hkept _ hkey).asOptStrList hafter.gpus hbefore.gpus
  have hborrowed : after.sharedGpus = before.sharedGpus := by
    by_cases hkey : "shared_gpus" ∈ decision.patch.keys
    · have hsame := same_of_driftLine (by decide) (hcompared "shared_gpus" _ _
        (by simp [HostConfig.pairs]; rfl) (by simp [HostConfig.pairs]; rfl) hkey (by decide))
      exact (same_texts hsame).symm
    · exact eq_of_ok (hkept _ hkey).asStrList hafter.sharedGpus hbefore.sharedGpus
  rw [cardsOf_reads hafter, cardsOf_reads hbefore, howned, hborrowed]

/-- A judged result names no card twice. -/
theorem Judged.named {table : List Gpu} {seen : Dict String Json} {decision : Decision}
    (h : Judged t table seen decision) (hpatch : decision.patch.entries ≠ []) :
    NamedOnce t table (update seen decision.patch) := by
  obtain ⟨config, hconfig, honce⟩ := bind_eq_ok (h.once hpatch)
  exact ⟨_, cardsOf_reads (fromDict_eq_ok.mp hconfig), Except.ok.inj honce⟩

/-- What is judged on is read. -/
theorem Judged.reads {table : List Gpu} {seen : Dict String Json} {decision : Decision}
    (h : Judged t table seen decision) : ∃ cards, cardsOf t seen = .ok cards := by
  obtain ⟨changes, hchanges, -⟩ := h.writes
  obtain ⟨before, hbefore, -⟩ := bind_eq_ok hchanges
  exact ⟨_, cardsOf_reads (fromDict_eq_ok.mp hbefore)⟩

theorem Judged.patch_ne {table : List Gpu} {seen : Dict String Json} {decision : Decision}
    (h : Judged t table seen decision) (hwrites : decision.writes = true) :
    decision.patch.entries ≠ [] := by
  obtain ⟨changes, -, hwritten⟩ := h.writes
  rw [hwrites, eq_comm, Bool.and_eq_true] at hwritten
  exact List.isEmpty_eq_false_iff.mp (Bool.not_eq_eq_eq_not.mp hwritten.1)

end Gpuc.Control.Connect
