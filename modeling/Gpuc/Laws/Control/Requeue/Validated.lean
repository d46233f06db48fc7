import Gpuc.Laws.Control.Requeue.Job

/-!
# Documents that are validated

A document is a model's when each field is read from its own key and no key is another's (`Reads`). So
what a key is replaced by is read in its place: a patch that `patch_error` accepts makes of a model's
document the patched model's (`Reads.patched`), in the mirror as in the submitter's own. A mirrored
document holds what the model is dumped as, beside keys that are not the model's: tolerantly, it is the
model's document (`reads_of_dump`).
-/

set_option autoImplicit false

namespace Gpuc.Control.Requeue

open Gpuc.Basis Gpuc.Host.Documents

/-! ## Field by field -/

section Fields
variable {V : Type} {lax : Lax V} {document document' : Dict String V} {model : JobSpecModel}

/-- **The document is the model's.** -/
structure Reads (lax : Lax V) (document : Dict String V) (model : JobSpecModel) : Prop where
  known : ∀ k v, document.get? k = some v → k ∈ specFields
  command : (document.get? "command").bind lax.toStr = some model.command
  name : fieldOr "" lax.toStr (document.get? "name") = some model.name
  setup : nullable lax lax.toStr (document.get? "setup") = some model.setup
  python : fieldOr defaultPython lax.toStr (document.get? "python") = some model.python
  gpus : fieldOr 1 lax.toInt (document.get? "gpus") = some model.gpus
  useShared : fieldOr false lax.toBool (document.get? "use_shared") = some model.useShared
  env : fieldOr .empty lax.toStrDict (document.get? "env") = some model.env
  secrets : fieldOr [] lax.toStrList (document.get? "secrets") = some model.secrets
  outputs : fieldOr [] (fun value => (lax.toList value).bind (List.mapM (Output.validate lax)))
    (document.get? "outputs") = some model.outputs
  syncIntervalS : fieldOr 180 lax.toInt (document.get? "sync_interval_s") = some model.syncIntervalS
  priority : fieldOr 50 lax.toInt (document.get? "priority") = some model.priority
  maxRuntimeMin : nullable lax lax.toFloat (document.get? "max_runtime_min") = some model.maxRuntimeMin
  estimatedRuntimeMin : nullable lax lax.toFloat (document.get? "estimated_runtime_min") =
    some model.estimatedRuntimeMin
  progressCommand : nullable lax lax.toStr (document.get? "progress_command") = some model.progressCommand
  progressIntervalS : fieldOr defaultIntervalS lax.toFloat (document.get? "progress_interval_s") =
    some model.progressIntervalS
  autoPreempt : fieldOr false lax.toBool (document.get? "auto_preempt") = some model.autoPreempt
  cleanup : fieldOr "on_success" lax.text (document.get? "cleanup") = some model.cleanup
  holds : model.holds = true

/-- No key is another's when every key there is is a field's. -/
theorem keys_known : (document.keys.all (· ∈ specFields)) = true ↔
    ∀ k v, document.get? k = some v → k ∈ specFields := by
  rw [List.all_eq_true]
  constructor
  · exact fun h k v hget => of_decide_eq_true (h k (Dict.mem_keys.mpr ⟨v, hget⟩))
  · intro h k hk
    obtain ⟨v, hget⟩ := Dict.mem_keys.mp hk
    exact decide_eq_true (h k v hget)

/-- **What is validated is the model's document.** -/
theorem modelValidate_eq_some : modelValidate lax document = some model ↔ Reads lax document model := by
  constructor
  · intro h
    unfold modelValidate at h
    obtain ⟨_, hknown, h⟩ := Option.bind_eq_some_iff.mp h
    obtain ⟨command, hcommand, h⟩ := Option.bind_eq_some_iff.mp h
    obtain ⟨name, hname, h⟩ := Option.bind_eq_some_iff.mp h
    obtain ⟨setup, hsetup, h⟩ := Option.bind_eq_some_iff.mp h
    obtain ⟨python, hpython, h⟩ := Option.bind_eq_some_iff.mp h
    obtain ⟨gpus, hgpus, h⟩ := Option.bind_eq_some_iff.mp h
    obtain ⟨useShared, hshared, h⟩ := Option.bind_eq_some_iff.mp h
    obtain ⟨env, henv, h⟩ := Option.bind_eq_some_iff.mp h
    obtain ⟨secrets, hsecrets, h⟩ := Option.bind_eq_some_iff.mp h
    obtain ⟨outputs, houtputs, h⟩ := Option.bind_eq_some_iff.mp h
    obtain ⟨syncIntervalS, hsync, h⟩ := Option.bind_eq_some_iff.mp h
    obtain ⟨priority, hpriority, h⟩ := Option.bind_eq_some_iff.mp h
    obtain ⟨maxRuntimeMin, hmax, h⟩ := Option.bind_eq_some_iff.mp h
    obtain ⟨estimatedRuntimeMin, hestimated, h⟩ := Option.bind_eq_some_iff.mp h
    obtain ⟨progressCommand, hprogress, h⟩ := Option.bind_eq_some_iff.mp h
    obtain ⟨progressIntervalS, hinterval, h⟩ := Option.bind_eq_some_iff.mp h
    obtain ⟨autoPreempt, hpreempt, h⟩ := Option.bind_eq_some_iff.mp h
    obtain ⟨cleanup, hcleanup, h⟩ := Option.bind_eq_some_iff.mp h
    obtain ⟨_, hholds, h⟩ := Option.bind_eq_some_iff.mp h
    obtain rfl := Option.some.inj h
    exact
      { known := keys_known.mp ((Option.guard_eq_some' _).mp hknown)
        command := hcommand
        name := hname
        setup := hsetup
        python := hpython
        gpus := hgpus
        useShared := hshared
        env := henv
        secrets := hsecrets
        outputs := houtputs
        syncIntervalS := hsync
        priority := hpriority
        maxRuntimeMin := hmax
        estimatedRuntimeMin := hestimated
        progressCommand := hprogress
        progressIntervalS := hinterval
        autoPreempt := hpreempt
        cleanup := hcleanup
        holds := (Option.guard_eq_some' _).mp hholds }
  · intro h
    unfold modelValidate
    rw [(Option.guard_eq_some' ()).mpr (keys_known.mpr h.known), h.command, h.name, h.setup, h.python,
      h.gpus, h.useShared, h.env, h.secrets, h.outputs, h.syncIntervalS, h.priority, h.maxRuntimeMin,
      h.estimatedRuntimeMin, h.progressCommand, h.progressIntervalS, h.autoPreempt, h.cleanup]
    show (do
      guard (model.holds = true)
      pure model) = some model
    rw [(Option.guard_eq_some' ()).mpr h.holds]
    rfl

end Fields

/-! ## A patch -/

section Patch
variable {V : Type} {lax : LaxJson} {laxV : Lax V} {ofJson : Json → V} {t : Texts} {now : Nat}
  {s : Settable} {value : Json} {patch : Dict String Json} {model : JobSpecModel}

/-- A model with a patch's fields. -/
def JobSpecModel.patched (model : JobSpecModel) (patch : Dict String Json) : JobSpecModel :=
  { model with
    priority := ((fieldAs patch "priority" none).bind Float64.toInt).getD model.priority
    estimatedRuntimeMin := fieldAs patch "estimated_runtime_min" model.estimatedRuntimeMin
    maxRuntimeMin := fieldAs patch "max_runtime_min" model.maxRuntimeMin }

theorem embeds_self (lax : Lax Json) : Embeds lax lax id := ⟨fun _ => rfl, fun _ => rfl, fun _ => rfl⟩

/-- Accepted minutes are nothing, or a number of them. -/
theorem accepted_minutes (lax : LaxJson) (hkind : s.kind = .float) (h : Accepts t now s value) :
    (value = .null ∧ value.number = none) ∨
      ∃ q : ℚ, 0 < q ∧ lax.isNone value = false ∧ lax.toFloat value = some (.finite q) ∧
        value.number = some (.finite q) := by
  have hpresent : value ≠ .null → lax.isNone value = false :=
    fun hne => Bool.eq_false_iff.mpr fun hnone => hne ((lax.isNone_eq value).mp hnone)
  unfold Accepts at h
  rw [hkind] at h
  cases value with
  | null => exact .inl ⟨rfl, rfl⟩
  | bool _ | str _ | arr _ | obj _ => exact h.elim
  | int n =>
    obtain ⟨hpositive, x, hx, hdate⟩ := h
    have hn : 0 < n := positiveFinite_int.mp hpositive
    refine .inr ⟨n, by exact_mod_cast hn, hpresent (fun heq => by cases heq), ?_, rfl⟩
    exact lax.toFloat_int n _ (representable_of_date hn hx hdate)
  | float x =>
    cases x with
    | infinite _ | nan => exact absurd h.1 Bool.false_ne_true
    | finite q => exact .inr ⟨q, of_decide_eq_true h.1, hpresent (fun heq => by cases heq), lax.toFloat_float _, rfl⟩

/-- An accepted whole number is one up to 99. -/
theorem accepted_whole (lax : LaxJson) (hkind : s.kind = .int) (hclear : s.clearable = false)
    (h : Accepts t now s value) :
    ∃ n : Int, 0 ≤ n ∧ n ≤ 99 ∧ lax.toInt value = some n ∧ value.number = some (.finite n) := by
  unfold Accepts at h
  rw [hkind] at h
  cases value with
  | null => exact absurd (hclear.symm.trans h) Bool.false_ne_true
  | bool _ | str _ | arr _ | obj _ => exact h.elim
  | int n =>
    obtain ⟨hnonneg, hle⟩ := upTo99_int.mp h
    exact ⟨n, hnonneg, hle, lax.toInt_int n, rfl⟩
  | float x =>
    cases x with
    | infinite _ | nan => cases h
    | finite q =>
      simp only [upTo99, Json.number, Option.any_some, Bool.and_eq_true, decide_eq_true_eq] at h
      obtain ⟨⟨hnonneg, hle⟩, hwhole⟩ := h
      generalize q.num.tdiv q.den = n at hwhole
      subst hwhole
      have hrange : 0 ≤ n ∧ n ≤ 99 := by exact_mod_cast And.intro hnonneg hle
      exact ⟨n, hrange.1, hrange.2, lax.toInt_float n (by omega), rfl⟩

/-- What a patch has of a limit or an estimate is read as it is given. -/
theorem nullable_patched (hembeds : Embeds lax.toLax laxV ofJson) (hpatch : AcceptsPatch t now patch)
    {k : String} (hk : k ∈ ["estimated_runtime_min", "max_runtime_min"]) {own : Option V}
    {x : Option Float64} (hown : nullable laxV laxV.toFloat own = some x) :
    nullable laxV laxV.toFloat (((patch.get? k).map ofJson).or own) = some (fieldAs patch k x) := by
  cases hget : patch.get? k with
  | none =>
    rw [fieldAs_none hget]
    exact hown
  | some value =>
    rw [fieldAs_some hget]
    obtain ⟨s, hs, haccepts⟩ := hpatch.entry hget
    rcases settableOf_cases hs with ⟨rfl, -⟩ | ⟨-, hkind⟩
    · exact absurd hk (by decide)
    · show (if laxV.isNone (ofJson value) then _ else _) = _
      rw [hembeds.isNone, hembeds.toFloat]
      rcases accepted_minutes lax hkind haccepts with ⟨rfl, hnumber⟩ | ⟨q, -, hsome, hfloat, hnumber⟩
      · rw [hnumber, if_pos ((lax.isNone_eq _).mpr rfl)]
      · rw [hnumber, hsome, hfloat]
        rfl

/-- So is what it has of a priority, which is one there is. -/
theorem priority_patched (hembeds : Embeds lax.toLax laxV ofJson) (hpatch : AcceptsPatch t now patch)
    {own : Option V} (hown : fieldOr 50 laxV.toInt own = some model.priority)
    (hrange : 0 ≤ model.priority ∧ model.priority ≤ 99) :
    fieldOr 50 laxV.toInt (((patch.get? "priority").map ofJson).or own) =
        some (model.patched patch).priority ∧
      0 ≤ (model.patched patch).priority ∧ (model.patched patch).priority ≤ 99 := by
  unfold JobSpecModel.patched
  dsimp only
  cases hget : patch.get? "priority" with
  | none =>
    rw [fieldAs_none hget]
    exact ⟨hown, hrange⟩
  | some value =>
    rw [fieldAs_some hget]
    obtain ⟨s, hs, haccepts⟩ := hpatch.entry hget
    rcases settableOf_cases hs with ⟨-, hkind, hclear⟩ | ⟨hmem, -⟩
    · obtain ⟨n, hnonneg, hle, hint, hnumber⟩ := accepted_whole lax hkind hclear haccepts
      have hread : ((value.number.bind Float64.toInt).getD model.priority) = n := by
        rw [hnumber]
        show ((Float64.finite n).toInt).getD _ = n
        rw [Float64.toInt_intCast]
        rfl
      rw [hread]
      exact ⟨(hembeds.toInt value).trans hint, hnonneg, hle⟩
    · exact absurd hmem (by decide)

/-- An estimate of a patch is more than nothing. -/
theorem positive_patched (lax : LaxJson) (hpatch : AcceptsPatch t now patch)
    (hpositive : model.estimatedRuntimeMin.all positive = true) :
    (model.patched patch).estimatedRuntimeMin.all positive = true := by
  show (fieldAs patch "estimated_runtime_min" model.estimatedRuntimeMin).all positive = true
  cases hget : patch.get? "estimated_runtime_min" with
  | none =>
    rw [fieldAs_none hget]
    exact hpositive
  | some value =>
    rw [fieldAs_some hget]
    obtain ⟨s, hs, haccepts⟩ := hpatch.entry hget
    rcases settableOf_cases hs with ⟨hname, -⟩ | ⟨-, hkind⟩
    · exact absurd hname (by decide)
    · rcases accepted_minutes lax hkind haccepts with ⟨-, hnumber⟩ | ⟨q, hq, -, -, hnumber⟩
      · rw [hnumber]
        rfl
      · rw [hnumber]
        exact decide_eq_true hq

/-- **A document with a patch over it is the patched model's.** -/
theorem Reads.patched {document document' : Dict String V} (h : Reads laxV document model)
    (hembeds : Embeds lax.toLax laxV ofJson) (hpatch : AcceptsPatch t now patch)
    (hget : ∀ k, document'.get? k = ((patch.get? k).map ofJson).or (document.get? k)) :
    Reads laxV document' (model.patched patch) := by
  have hother : ∀ k, k ∉ settingFields → document'.get? k = document.get? k := by
    intro k hk
    rw [hget, hpatch.get?_other hk]
    rfl
  obtain ⟨hcommand, hgpus, hsync, hrange, hpositive, hrest⟩ := JobSpecModel.holds_iff.mp h.holds
  have hpriority := priority_patched hembeds hpatch h.priority hrange
  exact
    { known := by
        intro k v hv
        by_cases hk : k ∈ settingFields
        · exact (by decide : settingFields ⊆ specFields) hk
        · exact h.known k v (hother k hk ▸ hv)
      command := hother "command" (by decide) ▸ h.command
      name := hother "name" (by decide) ▸ h.name
      setup := hother "setup" (by decide) ▸ h.setup
      python := hother "python" (by decide) ▸ h.python
      gpus := hother "gpus" (by decide) ▸ h.gpus
      useShared := hother "use_shared" (by decide) ▸ h.useShared
      env := hother "env" (by decide) ▸ h.env
      secrets := hother "secrets" (by decide) ▸ h.secrets
      outputs := hother "outputs" (by decide) ▸ h.outputs
      syncIntervalS := hother "sync_interval_s" (by decide) ▸ h.syncIntervalS
      priority := (hget "priority").symm ▸ hpriority.1
      maxRuntimeMin := by
        rw [hget]
        exact nullable_patched hembeds hpatch (by decide) h.maxRuntimeMin
      estimatedRuntimeMin := by
        rw [hget]
        exact nullable_patched hembeds hpatch (by decide) h.estimatedRuntimeMin
      progressCommand := hother "progress_command" (by decide) ▸ h.progressCommand
      progressIntervalS := hother "progress_interval_s" (by decide) ▸ h.progressIntervalS
      autoPreempt := hother "auto_preempt" (by decide) ▸ h.autoPreempt
      cleanup := hother "cleanup" (by decide) ▸ h.cleanup
      holds := by
        apply JobSpecModel.holds_iff.mpr
        exact ⟨hcommand, hgpus, hsync, hpriority.2, positive_patched lax hpatch hpositive, hrest⟩ }

/-- What the host reads of a patched model is what it read, patched. -/
theorem JobSpecModel.normal_patched (lax : LaxJson) (hpatch : AcceptsPatch t now patch)
    (model : JobSpecModel) (gpus syncIntervalS : Int) :
    (model.patched patch).normal gpus syncIntervalS = (model.normal gpus syncIntervalS).patched patch := by
  have hmax : (fieldAs patch "max_runtime_min" model.maxRuntimeMin).filter isNumber =
      fieldAs patch "max_runtime_min" (model.maxRuntimeMin.filter isNumber) := by
    cases hget : patch.get? "max_runtime_min" with
    | none => rw [fieldAs_none hget, fieldAs_none hget]
    | some value =>
      rw [fieldAs_some hget, fieldAs_some hget]
      obtain ⟨s, hs, haccepts⟩ := hpatch.entry hget
      rcases settableOf_cases hs with ⟨hname, -⟩ | ⟨-, hkind⟩
      · exact absurd hname (by decide)
      · rcases accepted_minutes lax hkind haccepts with ⟨-, hnumber⟩ | ⟨q, -, -, -, hnumber⟩
        · rw [hnumber]
          rfl
        · rw [hnumber]
          rfl
  unfold JobSpecModel.normal JobSpecModel.patched
  dsimp only
  rw [hmax]

end Patch

/-! ## What a model is dumped as -/

section Dump
variable {lax : LaxJson} {document : Dict String Json} {model : JobSpecModel}

/-- What a key that is known keeps of its value. -/
def knownValue (k : String) (value : Json) : Json :=
  match value with
  | .arr outputs => if k = "outputs" then .arr (outputs.map knownOutput) else value
  | _ => value

theorem get?_knownKeys (document : Dict String Json) (k : String) :
    (knownKeys document).get? k =
      if k ∈ specFields then (document.get? k).map (knownValue k) else none := by
  have hfilter : (document.filter fun key _ => key ∈ specFields).get? k =
      if k ∈ specFields then document.get? k else none := by
    rw [Dict.get?_filter]
    by_cases hk : k ∈ specFields
    · rw [if_pos hk]
      cases document.get? k with
      | none => rfl
      | some value => rw [Option.filter_some, if_pos (decide_eq_true hk)]
    · rw [if_neg hk]
      cases document.get? k with
      | none => rfl
      | some value => rw [Option.filter_some, if_neg (by simpa using hk)]
  have houtputs : (document.filter fun key _ => key ∈ specFields).get? "outputs" =
      document.get? "outputs" := by
    rw [Dict.get?_filter]
    cases document.get? "outputs" with
    | none => rfl
    | some value => rw [Option.filter_some, if_pos (by decide)]
  have hsame : ∀ value, document.get? k = some value → (k = "outputs" → ∀ items, value ≠ .arr items) →
      knownValue k value = value := by
    intro value hget hne
    unfold knownValue
    split
    · next items =>
      by_cases hk : k = "outputs"
      · exact absurd rfl (hne hk items)
      · exact if_neg hk
    · rfl
  unfold knownKeys
  dsimp only
  rw [houtputs]
  split
  · next outputs hget =>
    rw [Dict.get?_set]
    by_cases hk : k = "outputs"
    · subst hk
      rw [if_pos rfl, if_pos (by decide), hget]
      rfl
    · rw [if_neg hk, hfilter]
      cases hvalue : document.get? k with
      | none => rfl
      | some value => rw [Option.map_some, hsame value hvalue fun hk' => absurd hk' hk]
  · next hnot =>
    rw [hfilter]
    cases hvalue : document.get? k with
    | none => rfl
    | some value =>
      rw [Option.map_some, hsame value hvalue]
      rintro rfl items rfl
      exact hnot items hvalue

/-- A value that may be null is read as it was dumped. -/
theorem nullable_orNull {α : Type} {dump : α → Json} {read : Json → Option α} (hne : ∀ a, dump a ≠ .null)
    (hread : ∀ a, read (dump a) = some a) (x : Option α) :
    nullable lax.toLax read (some (orNull dump x)) = some x := by
  cases x with
  | none =>
    show (if lax.isNone .null then _ else _) = _
    rw [if_pos ((lax.isNone_eq _).mpr rfl)]
  | some a =>
    show (if lax.isNone (dump a) then _ else _) = _
    rw [if_neg fun hnone => hne a ((lax.isNone_eq _).mp hnone)]
    exact congrArg (Option.map some) (hread a)

/-- An output is validated from its fields. -/
theorem validate_output {V : Type} {lax : Lax V} {value : V} {fields : Dict String V} {output : Output}
    (hfields : lax.toFields value = some fields) (hkeys : (fields.keys.all (· ∈ outputFields)) = true)
    (hpath : (fields.get? "path").bind lax.toStr = some output.path)
    (hs3 : nullable lax lax.toStr (fields.get? "s3") = some output.s3)
    (hhf : nullable lax lax.toStr (fields.get? "hf") = some output.hf)
    (hhfPath : nullable lax lax.toStr (fields.get? "hf_path") = some output.hfPath)
    (hcreate : fieldOr false lax.toBool (fields.get? "hf_create") = some output.hfCreate) :
    Output.validate lax value = some output := by
  unfold Output.validate
  rw [hfields]
  show ((guard (fields.keys.all (· ∈ outputFields) = true) : Option Unit) >>= _) = _
  rw [(Option.guard_eq_some' ()).mpr hkeys]
  show ((fields.get? "path").bind lax.toStr >>= _) = _
  rw [hpath, hs3, hhf, hhfPath, hcreate]
  rfl

/-- It is validated as it was dumped, and has no other keys. -/
theorem validate_pairs (output : Output) :
    Output.validate lax.toLax (knownOutput (.ofDict (.ofList output.pairs))) = some output := by
  have hvalue : knownOutput (.ofDict (.ofList output.pairs)) =
      .ofDict ((Dict.ofList output.pairs).filter fun key _ => key ∈ outputFields) := by
    show Json.ofDict ((Dict.ofList (Dict.ofList output.pairs).entries).filter _) = _
    rw [Dict.ofList_entries]
  rw [hvalue]
  generalize hknown : (Dict.ofList output.pairs).filter (fun key _ => key ∈ outputFields) = known
  have hget : ∀ e ∈ output.pairs, known.get? e.1 = some e.2 := by
    intro e he
    have hkey : e.1 ∈ outputFields := List.mem_map_of_mem he
    rw [← hknown, Dict.get?_filter, (Dict.get?_ofList output.nodup_pairs).mpr he, Option.filter_some]
    exact if_pos (decide_eq_true hkey)
  have hkeys : known.keys.all (· ∈ outputFields) = true := by
    rw [List.all_eq_true, ← hknown]
    intro k hk
    obtain ⟨v, hget⟩ := Dict.mem_keys.mp hk
    rw [Dict.get?_filter] at hget
    exact (Option.filter_eq_some_iff.mp hget).2
  have hfields : lax.toFields (.ofDict known) = some known :=
    (lax.toFields_obj known.entries).trans (congrArg some known.ofList_entries)
  have hne : ∀ text : String, Json.str text ≠ .null := by simp
  simp only [Output.pairs, List.forall_mem_cons, List.not_mem_nil, false_imp_iff, implies_true,
    and_true] at hget
  obtain ⟨hpath, hs3, hhf, hhfPath, hcreate⟩ := hget
  apply validate_output hfields hkeys
  · rw [hpath]
    exact lax.toStr_str _
  · rw [hs3]
    exact nullable_orNull hne lax.toStr_str _
  · rw [hhf]
    exact nullable_orNull hne lax.toStr_str _
  · rw [hhfPath]
    exact nullable_orNull hne lax.toStr_str _
  · rw [hcreate]
    exact lax.toBool_bool _

theorem validate_outputs (outputs : List Output) :
    ((outputs.map fun output => Json.ofDict (.ofList output.pairs)).map knownOutput).mapM
      (Output.validate lax.toLax) = some outputs := by
  induction outputs with
  | nil => rfl
  | cons output outputs ih =>
    rw [List.map_cons, List.map_cons, List.mapM_cons, validate_pairs, ih]
    rfl

/-- **A document that holds what a model is dumped as is the model's**, the keys that are not the model's
left out. -/
theorem reads_of_dump (hholds : model.holds = true)
    (hdump : ∀ e ∈ model.dump, document.get? e.1 = some e.2) : Reads lax.toLax (knownKeys document) model := by
  have hknown : ∀ e ∈ model.dump, (knownKeys document).get? e.1 = some (knownValue e.1 e.2) := by
    intro e he
    have hkey : e.1 ∈ specFields := List.mem_map_of_mem he
    rw [get?_knownKeys, if_pos hkey, hdump e he]
    rfl
  simp only [JobSpecModel.dump, List.forall_mem_cons, List.not_mem_nil, false_imp_iff, implies_true,
    and_true] at hknown
  obtain ⟨hcommand, hname, hsetup, hpython, hgpus, hshared, henv, hsecrets, houtputs, hsync, hpriority,
    hmax, hestimated, hprogress, hinterval, hpreempt, hcleanup⟩ := hknown
  have hstr : ∀ text : String, Json.str text ≠ .null := by simp
  have hfloat : ∀ x : Float64, Json.float x ≠ .null := by simp
  have hvalue : ∀ k, ∀ text : Option String, knownValue k (orNull .str text) = orNull .str text := by
    intro k text
    cases text <;> rfl
  have hminutes : ∀ k, ∀ x : Option Float64, knownValue k (orNull .float x) = orNull .float x := by
    intro k x
    cases x <;> rfl
  exact
    { known := by
        intro k v hv
        rw [get?_knownKeys] at hv
        by_contra hk
        rw [if_neg hk] at hv
        cases hv
      command := by
        rw [hcommand]
        exact lax.toStr_str _
      name := by
        rw [hname]
        exact lax.toStr_str _
      setup := by
        rw [hsetup, hvalue]
        exact nullable_orNull hstr lax.toStr_str _
      python := by
        rw [hpython]
        exact lax.toStr_str _
      gpus := by
        rw [hgpus]
        exact lax.toInt_int _
      useShared := by
        rw [hshared]
        exact lax.toBool_bool _
      env := by
        rw [henv]
        exact lax.toStrDict_ofDict _
      secrets := by
        rw [hsecrets]
        exact lax.toStrList_ofTexts _
      outputs := by
        rw [houtputs]
        show (lax.toList (.arr _)).bind _ = _
        rw [lax.toList_arr]
        exact validate_outputs model.outputs
      syncIntervalS := by
        rw [hsync]
        exact lax.toInt_int _
      priority := by
        rw [hpriority]
        exact lax.toInt_int _
      maxRuntimeMin := by
        rw [hmax, hminutes]
        exact nullable_orNull hfloat lax.toFloat_float _
      estimatedRuntimeMin := by
        rw [hestimated, hminutes]
        exact nullable_orNull hfloat lax.toFloat_float _
      progressCommand := by
        rw [hprogress, hvalue]
        exact nullable_orNull hstr lax.toStr_str _
      progressIntervalS := by
        rw [hinterval]
        exact lax.toFloat_float _
      autoPreempt := by
        rw [hpreempt]
        exact lax.toBool_bool _
      cleanup := by
        rw [hcleanup]
        exact lax.text_str _
      holds := hholds }

/-- What a patch puts over a document it puts over what is known of it. -/
theorem get?_knownKeys_updated {t : Texts} {now : Nat} {patch : Dict String Json}
    (hpatch : AcceptsPatch t now patch) (document : Dict String Json) (k : String) :
    (knownKeys (document.updated patch)).get? k =
      ((patch.get? k).map id).or ((knownKeys document).get? k) := by
  rw [get?_knownKeys, get?_knownKeys, Dict.get?_updated, Option.map_id]
  cases hget : patch.get? k with
  | none => rfl
  | some value =>
    have hk : k ∈ settingFields := by
      by_contra hk
      rw [hpatch.get?_other hk] at hget
      cases hget
    have hne : k ≠ "outputs" := by
      rintro rfl
      exact absurd hk (by decide)
    have hvalue : knownValue k value = value := by
      unfold knownValue
      split
      · exact if_neg hne
      · rfl
    rw [if_pos ((by decide : settingFields ⊆ specFields) hk)]
    show some (knownValue k value) = some value
    rw [hvalue]

end Dump

end Gpuc.Control.Requeue
