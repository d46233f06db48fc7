import Gpuc.Control.Requeue
import Gpuc.Laws.Job.Patched

/-!
# The job of a model

`to_spec` writes a model as a document and has the host's reader read it. All but four fields are read
as they were written: an interpreter that is empty is the default one, a limit that is no number is none,
and the cards and the interval of an upload go through a float (`Rounds`). Whatever is read, another
reading leaves it as it is (`normal_normal`, `Rounds.again`): so the job of the model of a job is the
same job.
-/

set_option autoImplicit false

namespace Gpuc.Control.Requeue

open Gpuc.Basis Gpuc.Host.Documents

/-! ## An integer through a float -/

/-- **What an integer is read as**: the integer part of the float that is nearest to it. -/
def Rounds (n k : Int) : Prop := ∃ x, Float64.ofInt n = some x ∧ x.toInt = some k

theorem exists_toInt_ofInt {n : Int} {x : Float64} (h : Float64.ofInt n = some x) :
    ∃ k, x.toInt = some k := by
  unfold Float64.ofInt at h
  dsimp only at h
  split at h
  · cases h
  · obtain rfl := Option.some.inj h
    exact ⟨_, rfl⟩

theorem asInt_eq_ok {t : Texts} {d : Json} {key : String} {n : Int} {default' k : Int}
    (h : (fieldsOf d).get? key = some (.int n)) : asInt t d key default' = .ok k ↔ Rounds n k := by
  rw [asInt, asFloat, given_eq_some.mpr ⟨h, fun heq => by cases heq⟩]
  show (orDefault _ (Json.toFloat t (.int n)) >>= _) = _ ↔ _
  rw [Json.toFloat]
  unfold Rounds
  cases hx : Float64.ofInt n with
  | none => exact iff_of_false (fun heq => by cases heq) (by simp)
  | some x =>
    obtain ⟨m, hm⟩ := exists_toInt_ofInt hx
    show Except.ok (x.toInt.getD default') = _ ↔ _
    rw [hm]
    constructor
    · intro heq
      obtain rfl := Except.ok.inj heq
      exact ⟨x, rfl, hm⟩
    · rintro ⟨y, hy, hk⟩
      obtain rfl := Option.some.inj hy
      rw [hm] at hk
      obtain rfl := Option.some.inj hk
      rfl

section Rounds
variable {n k : Int}

theorem Rounds.representable (h : Rounds n k) : Representable k := by
  obtain ⟨x, hx, hk⟩ := h
  exact Float64.ofInt_toInt_ofInt hx hk

/-- What was read is read as it is. -/
theorem Rounds.again (h : Rounds n k) : Rounds k k := ⟨_, h.representable, Float64.toInt_intCast k⟩

/-- No bound of few bits is crossed. -/
theorem Rounds.le {m : Int} (h : Rounds n k) (hm : 0 ≤ m) (hsmall : m < 2 ^ 53) (hn : m ≤ n) : m ≤ k := by
  obtain ⟨x, hx, hk⟩ := h
  rcases lt_or_ge n (2 ^ 53) with hlt | hge
  · rw [Float64.ofInt_small (by omega)] at hx
    obtain rfl := Option.some.inj hx
    rw [Float64.toInt_intCast] at hk
    exact Option.some.inj hk ▸ hn
  · obtain ⟨q, rfl, hq⟩ := Float64.le_of_ofInt hge hx
    refine Float64.le_toInt hm (le_trans ?_ hq) hk
    exact_mod_cast hsmall.le

end Rounds

/-! ## The fields -/

section Model
variable {t : Texts} {model : JobSpecModel} {jobId : String}

/-- What a model holds, field by field. -/
theorem JobSpecModel.holds_iff : model.holds = true ↔
    Text.strip model.command.toList ≠ [] ∧ 0 ≤ model.gpus ∧ 10 ≤ model.syncIntervalS ∧
      (0 ≤ model.priority ∧ model.priority ≤ 99) ∧ model.estimatedRuntimeMin.all positive = true ∧
      atLeast 5 model.progressIntervalS = true ∧ model.cleanup ∈ cleanupPolicies := by
  simp only [JobSpecModel.holds, Bool.and_eq_true, decide_eq_true_eq, and_assoc]

/-- A command that is not blank is some text. -/
theorem command_ne {text : String} (h : Text.strip text.toList ≠ []) : text ≠ "" := by
  rintro rfl
  exact h rfl

/-- An estimate that is more than nothing is a number. -/
theorem ne_nan_of_positive {x : Option Float64} (h : x.all positive = true) : x ≠ some .nan := by
  rintro rfl
  cases h

/-- An interval of five seconds is one to wait. -/
theorem positive_of_atLeast {x : Float64} (h : atLeast 5 x = true) : positive x = true := by
  cases x with
  | finite q =>
    have hq : (5 : ℚ) ≤ q := of_decide_eq_true h
    exact decide_eq_true (by linarith)
  | infinite negative => exact h
  | nan => cases h

/-- Is the number one? -/
def isNumber (x : Float64) : Bool := x ≠ .nan

/-- A number that may be none is read as it is, or as nothing. -/
theorem asOptFloat_dumped {d : Json} {key : String} {x : Option Float64}
    (h : (fieldsOf d).get? key = some (orNull .float x)) :
    asOptFloat t d key = .ok (x.filter isNumber) := by
  by_cases hnan : x = some .nan
  · subst hnan
    rw [asOptFloat, given_eq_some.mpr ⟨h, fun heq => by cases heq⟩]
    show (do
      let parsed ← asFloat t d key .nan
      pure (if parsed = Float64.nan then none else some parsed)) = _
    rw [asFloat_written h]
    rfl
  · rw [asOptFloat_written h hnan]
    cases x with
    | none => rfl
    | some x =>
      have hnumber : isNumber x = true := decide_eq_true fun hx => hnan (congrArg some hx)
      rw [Option.filter_some, if_pos hnumber]

/-- **The model as the host reads it**: with the cards and the interval that are read. -/
def JobSpecModel.normal (model : JobSpecModel) (gpus syncIntervalS : Int) : JobSpecModel :=
  { model with
    gpus := gpus
    syncIntervalS := syncIntervalS
    python := orElse model.python defaultPython
    maxRuntimeMin := model.maxRuntimeMin.filter isNumber }

theorem JobSpecModel.normal_normal (model : JobSpecModel) (gpus syncIntervalS : Int) :
    (model.normal gpus syncIntervalS).normal gpus syncIntervalS = model.normal gpus syncIntervalS := by
  have hpython := orElse_orElse model.python defaultPython
  have hmax : (model.maxRuntimeMin.filter isNumber).filter isNumber = model.maxRuntimeMin.filter isNumber := by
    rw [Option.filter_filter]
    simp only [Bool.and_self]
  unfold JobSpecModel.normal
  dsimp only
  rw [hpython, hmax]

/-- It holds what the model does. -/
theorem JobSpecModel.holds_normal {gpus syncIntervalS : Int} (hholds : model.holds = true)
    (hgpus : Rounds model.gpus gpus) (hsync : Rounds model.syncIntervalS syncIntervalS) :
    (model.normal gpus syncIntervalS).holds = true := by
  obtain ⟨hcommand, hcards, hinterval, hrest⟩ := JobSpecModel.holds_iff.mp hholds
  apply JobSpecModel.holds_iff.mpr
  exact ⟨hcommand, hgpus.le le_rfl (by decide) hcards, hsync.le (by decide) (by decide) hinterval, hrest⟩

/-! ## The job -/

/-- **The job of a model that is as the host reads it.** -/
def JobSpecModel.job (model : JobSpecModel) (jobId : String) : JobSpec :=
  { jobId := jobId
    command := model.command
    name := model.name
    setup := model.setup
    python := model.python
    gpus := model.gpus
    useShared := model.useShared
    env := model.env
    secrets := model.secrets
    outputs := model.outputs
    syncIntervalS := model.syncIntervalS
    priority := model.priority
    maxRuntimeMin := model.maxRuntimeMin
    estimatedRuntimeMin := model.estimatedRuntimeMin
    progressCommand := model.progressCommand
    progressIntervalS := model.progressIntervalS
    autoPreempt := model.autoPreempt
    cleanup := model.cleanup
    requeuedFrom := none }

/-- It is written as the model is, with its id. -/
theorem JobSpecModel.pairs_job (model : JobSpecModel) (jobId : String) :
    (model.job jobId).pairs = ("job_id", .str jobId) :: (model.dump ++ [("requeued_from", .null)]) := rfl

/-- **What the host's reader makes of a model.** -/
theorem fromDict_dump {d : Json} (hholds : model.holds = true) (hdump : Holds d model.dump)
    (hjobId : (fieldsOf d).get? "job_id" = some (.str jobId))
    (hrequeued : (fieldsOf d).get? "requeued_from" = none) :
    JobSpec.fromDict t jobId d = (do
      let gpus ← asInt t d "gpus" 1
      let syncIntervalS ← asInt t d "sync_interval_s" 180
      pure ((model.normal gpus syncIntervalS).job jobId)) := by
  simp only [Holds, JobSpecModel.dump, List.forall_mem_cons, List.not_mem_nil, false_imp_iff,
    implies_true, and_true] at hdump
  obtain ⟨hcommand, hname, hsetup, hpython, hgpus, hshared, henv, hsecrets, houtputs, -, hpriority,
    hmax, hestimated, hprogress, hinterval, hpreempt, hcleanup⟩ := hdump
  obtain ⟨hblank, hcards, -, hrange, hpositive, hlong, hpolicy⟩ := JobSpecModel.holds_iff.mp hholds
  have hread : (asList d "outputs").mapM (Output.fromDict t) = .ok (model.outputs.map id) := by
    rw [asList, houtputs]
    exact mapM_written fun output _ => Output.fromDict_holds (holds_ofList output.nodup_pairs)
  have hpolling : pollingInterval t d = .ok model.progressIntervalS := by
    rw [pollingInterval, asFloat_written hinterval]
    exact congrArg Except.ok (if_pos (positive_of_atLeast hlong))
  have hnormal : normalizeCleanup t (given d "cleanup") = .ok model.cleanup := by
    rw [given_eq_some.mpr ⟨hcleanup, fun heq => by cases heq⟩]
    exact if_pos hpolicy
  have hnone : asOptStr t d "requeued_from" = .ok none := by
    rw [asOptStr, given_eq_none.mpr (.inl hrequeued)]
  unfold JobSpec.fromDict
  rw [asStr_written hcommand, asStr_written hjobId, asStr_written hname, asOptStr_written hsetup,
    asStr_written hpython, asStrDict_written henv, asStrList_written hsecrets, hread,
    asInt_written hpriority (representable_of_small (by omega)), asOptFloat_dumped hmax,
    asOptFloat_written hestimated (ne_nan_of_positive hpositive), asOptStr_written hprogress, hpolling,
    hnormal, hnone, asBool_written hshared, asBool_written hpreempt]
  have hid : orElse jobId jobId = jobId := by
    unfold orElse
    split
    · rfl
    · rfl
  simp only [pure, Except.pure, bind, Except.bind, if_neg (command_ne hblank), List.map_id, hid]
  cases hread : asInt t d "gpus" 1 with
  | error raised => rfl
  | ok gpus =>
    have hnonneg : 0 ≤ gpus := ((asInt_eq_ok hgpus).mp hread).le le_rfl (by decide) hcards
    dsimp only
    rw [if_neg (not_lt.mpr hnonneg)]
    rfl

theorem nodup_dump (model : JobSpecModel) (jobId : String) :
    ((model.dump ++ [("job_id", Json.str jobId)]).map Prod.fst).Nodup :=
  show (specFields ++ ["job_id"]).Nodup by decide

/-- **A model is a job exactly when its integers are read.** -/
theorem JobSpecModel.toSpec_eq_ok {spec : JobSpec} (hholds : model.holds = true) :
    model.toSpec t jobId = .ok spec ↔ ∃ gpus syncIntervalS, Rounds model.gpus gpus ∧
      Rounds model.syncIntervalS syncIntervalS ∧ spec = (model.normal gpus syncIntervalS).job jobId := by
  generalize hd : Json.ofDict (.ofList (model.dump ++ [("job_id", Json.str jobId)])) = d
  have hall : Holds d (model.dump ++ [("job_id", .str jobId)]) := hd ▸ holds_ofList (nodup_dump model jobId)
  have hdump : Holds d model.dump := fun e he => hall e (List.mem_append_left _ he)
  have hjobId : (fieldsOf d).get? "job_id" = some (.str jobId) :=
    hall ("job_id", .str jobId) (List.mem_append_right _ List.mem_cons_self)
  have hrequeued : (fieldsOf d).get? "requeued_from" = none := by
    rw [← hd, fieldsOf_ofDict, Dict.get?_eq_none, Dict.mem_keys_ofList]
    show "requeued_from" ∉ specFields ++ ["job_id"]
    decide
  have hgpus : (fieldsOf d).get? "gpus" = some (.int model.gpus) :=
    hdump ("gpus", .int model.gpus) (by simp [JobSpecModel.dump])
  have hsync : (fieldsOf d).get? "sync_interval_s" = some (.int model.syncIntervalS) :=
    hdump ("sync_interval_s", .int model.syncIntervalS) (by simp [JobSpecModel.dump])
  rw [JobSpecModel.toSpec, hd, fromDict_dump hholds hdump hjobId hrequeued]
  constructor
  · intro h
    obtain ⟨gpus, hread, h⟩ := bind_eq_ok h
    obtain ⟨syncIntervalS, hread', h⟩ := bind_eq_ok h
    exact ⟨gpus, syncIntervalS, (asInt_eq_ok hgpus).mp hread, (asInt_eq_ok hsync).mp hread',
      (Except.ok.inj h).symm⟩
  · rintro ⟨gpus, syncIntervalS, hrounds, hrounds', rfl⟩
    rw [(asInt_eq_ok hgpus).mpr hrounds, (asInt_eq_ok hsync).mpr hrounds']
    rfl

/-- The model as the host reads it is the same job. -/
theorem JobSpecModel.toSpec_normal {gpus syncIntervalS : Int} (hholds : model.holds = true)
    (hgpus : Rounds model.gpus gpus) (hsync : Rounds model.syncIntervalS syncIntervalS) (t' : Texts) :
    (model.normal gpus syncIntervalS).toSpec t jobId = model.toSpec t' jobId := by
  have hown : model.toSpec t' jobId = .ok ((model.normal gpus syncIntervalS).job jobId) :=
    (JobSpecModel.toSpec_eq_ok hholds).mpr ⟨gpus, syncIntervalS, hgpus, hsync, rfl⟩
  rw [hown, JobSpecModel.toSpec_eq_ok (JobSpecModel.holds_normal hholds hgpus hsync)]
  refine ⟨gpus, syncIntervalS, hgpus.again, hsync.again, ?_⟩
  rw [JobSpecModel.normal_normal]

end Model

end Gpuc.Control.Requeue
