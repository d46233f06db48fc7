import Mathlib.Data.Rat.Defs
import Mathlib.Algebra.Order.Ring.Rat

/-!
# A job's spec and state, and the writes that change the state

`JobState` is the content of one `state.json`: every process that changes it reads it, changes the
record and replaces the file, all under the job's lock. So each writer here is a pure function on
the record, one call of which is one lock section. Timestamps are kept as the strings the file holds
and come in as arguments; the file's counters are naturals, and its floats are rationals.

`finish` is the one write that ends a job, `recordUpload` and `clearOutputUploads` keep the record of
what reached which destination, and `updateState` sets fields with no expectation about the status:
`Report` lists every set of fields any caller passes to it.
-/

set_option autoImplicit false

namespace Gpuc.Host

/-- A job's id, `20260510-103000-a1b2c3`: ids sort by the time of their submission. -/
abbrev JobId := String

/-- A card, by the name nvidia-smi gives it. -/
abbrev Uuid := String

/-- A time or a span of time, in seconds. -/
abbrev Seconds := ℚ

/-! ## The spec -/

/-- One entry of a spec's `outputs:`, and where it goes. -/
structure Output where
  path : String
  s3 : Option String := none
  hf : Option String := none
  hfPath : Option String := none
  deriving DecidableEq, Repr

/-- What a spec says that the queue, the plan or the dispatcher reads. -/
structure JobSpec where
  jobId : JobId
  gpus : Nat := 1
  useShared : Bool := false
  outputs : List Output := []
  priority : Int := 50
  maxRuntimeMin : Option ℚ := none
  estimatedRuntimeMin : Option ℚ := none
  autoPreempt : Bool := false
  deriving DecidableEq

/-! ## The state -/

/-- `queued | running | succeeded | failed | cancelled`, or whatever else a file holds. -/
inductive Status where
  | queued
  | running
  | succeeded
  | failed
  | cancelled
  | other (text : String)
  deriving DecidableEq, Repr

/-- The status as the file holds it. -/
def Status.text : Status → String
  | .queued => "queued"
  | .running => "running"
  | .succeeded => "succeeded"
  | .failed => "failed"
  | .cancelled => "cancelled"
  | .other text => text

/-- `FINISHED_STATUSES`. -/
def Status.finished : Status → Bool
  | .succeeded | .failed | .cancelled => true
  | .queued | .running | .other _ => false

/-- What somebody has asked of a job, as distinct from what it is doing: `INTENTS`. -/
inductive Intent where
  | cancel
  | preempt
  deriving DecidableEq, Repr

/-- The last thing that happened to one destination of one job. -/
structure Upload where
  dest : String
  output : Option String := none
  okAt : Option String := none
  error : Option String := none
  deriving DecidableEq, Repr

/-- **The state of a job**, with the defaults of a bare `JobState`. -/
structure JobState where
  status : Status := .queued
  intent : Option Intent := none
  attempt : Nat := 1
  priority : Int := 50
  estimatedRuntimeMin : Option ℚ := none
  maxRuntimeMin : Option ℚ := none
  liveMaxRuntime : Bool := false
  reason : Option String := none
  problems : List String := []
  exitCode : Option Int := none
  gpus : List Uuid := []
  startedAt : Option String := none
  endedAt : Option String := none
  phase : Option String := none
  pgid : Option Nat := none
  isolation : Option String := none
  cgroupUnit : Option String := none
  runnerPid : Option Nat := none
  runnerBootId : Option String := none
  runnerInitStart : Option String := none
  runnerStarttime : Option String := none
  utilRecent : List (Option ℚ) := []
  utilSum : ℚ := 0
  utilSamples : Nat := 0
  progressPct : Option ℚ := none
  progressError : Option String := none
  eta : Option String := none
  uploads : List Upload := []
  workdirBytes : Option Nat := none
  outputsLost : Bool := false
  ran : Bool := true
  checkoutRemovedAt : Option String := none
  keptBytes : Option Nat := none
  restarts : Nat := 0
  deriving DecidableEq

/-- A job is finished exactly when its status is one of the finished ones. -/
def JobState.finished (state : JobState) : Bool := state.status.finished

/-- The state a job is enqueued with: everything the spec said that can change afterwards, copied
out of it once. -/
def JobState.initial (spec : JobSpec) : JobState where
  status := .queued
  priority := spec.priority
  estimatedRuntimeMin := spec.estimatedRuntimeMin
  maxRuntimeMin := spec.maxRuntimeMin
  liveMaxRuntime := true
  ran := false

/-- The wall-clock limit in minutes a job is held to, if any. -/
def JobState.maxRuntime (state : JobState) (spec : Option JobSpec) : Option ℚ :=
  if state.liveMaxRuntime then state.maxRuntimeMin
  else
    match spec with
    | none => none
    | some spec => spec.maxRuntimeMin

/-- Drop every output's success: a periodic tick having worked says nothing about the files written
after it. -/
def JobState.forgetOutputUploads (state : JobState) : JobState :=
  { state with
    uploads := state.uploads.map fun u => if u.output.isSome then { u with okAt := none } else u }

/-! ## Setting fields

`apply_fields` sets the named fields of the record, in order. The fields here are those that some
caller passes to `claim`, `finish`, `update_state` or `settable.apply`. -/

/-- One keyword argument of a write. -/
inductive Field where
  | status (value : Status)
  | priority (value : Int)
  | estimatedRuntimeMin (value : Option ℚ)
  | maxRuntimeMin (value : Option ℚ)
  | liveMaxRuntime (value : Bool)
  | problems (value : List String)
  | gpus (value : List Uuid)
  | startedAt (value : Option String)
  | phase (value : Option String)
  | pgid (value : Option Nat)
  | isolation (value : Option String)
  | cgroupUnit (value : Option String)
  | runnerPid (value : Option Nat)
  | runnerBootId (value : Option String)
  | runnerInitStart (value : Option String)
  | runnerStarttime (value : Option String)
  | utilRecent (value : List (Option ℚ))
  | utilSum (value : ℚ)
  | utilSamples (value : Nat)
  | progressPct (value : Option ℚ)
  | progressError (value : Option String)
  | eta (value : Option String)
  | workdirBytes (value : Option Nat)
  | outputsLost (value : Bool)
  | ran (value : Bool)
  | checkoutRemovedAt (value : Option String)
  | keptBytes (value : Option Nat)

/-- `setattr(state, key, value)`. -/
def JobState.set (state : JobState) : Field → JobState
  | .status v => { state with status := v }
  | .priority v => { state with priority := v }
  | .estimatedRuntimeMin v => { state with estimatedRuntimeMin := v }
  | .maxRuntimeMin v => { state with maxRuntimeMin := v }
  | .liveMaxRuntime v => { state with liveMaxRuntime := v }
  | .problems v => { state with problems := v }
  | .gpus v => { state with gpus := v }
  | .startedAt v => { state with startedAt := v }
  | .phase v => { state with phase := v }
  | .pgid v => { state with pgid := v }
  | .isolation v => { state with isolation := v }
  | .cgroupUnit v => { state with cgroupUnit := v }
  | .runnerPid v => { state with runnerPid := v }
  | .runnerBootId v => { state with runnerBootId := v }
  | .runnerInitStart v => { state with runnerInitStart := v }
  | .runnerStarttime v => { state with runnerStarttime := v }
  | .utilRecent v => { state with utilRecent := v }
  | .utilSum v => { state with utilSum := v }
  | .utilSamples v => { state with utilSamples := v }
  | .progressPct v => { state with progressPct := v }
  | .progressError v => { state with progressError := v }
  | .eta v => { state with eta := v }
  | .workdirBytes v => { state with workdirBytes := v }
  | .outputsLost v => { state with outputsLost := v }
  | .ran v => { state with ran := v }
  | .checkoutRemovedAt v => { state with checkoutRemovedAt := v }
  | .keptBytes v => { state with keptBytes := v }

/-- `apply_fields`: every field in turn. -/
def applyFields (state : JobState) (fields : List Field) : JobState :=
  fields.foldl JobState.set state

@[simp] theorem applyFields_nil (state : JobState) : applyFields state [] = state := rfl

@[simp] theorem applyFields_cons (state : JobState) (f : Field) (fs : List Field) :
    applyFields state (f :: fs) = applyFields (state.set f) fs := rfl

/-! ## Ending a job -/

/-- **How a job ended**: a finished status, one short word, and whether `main` started. An outcome
whose status is not a finished one cannot be built. -/
structure Outcome where
  status : Status
  reason : Option String := none
  exitCode : Int := 1
  ran : Bool := true
  isFinished : status.finished = true := by exact Eq.refl true

/-- The state with what ended it in place, and without the fields a finished job must not carry. -/
def JobState.ended (state : JobState) (outcome : Outcome) (now : String) : JobState :=
  { state with
    status := outcome.status
    reason := outcome.reason
    exitCode := some outcome.exitCode
    endedAt := some now
    intent := none
    phase := none
    pgid := none
    cgroupUnit := none
    eta := none
    ran := state.ran || outcome.ran }

/-- The statuses a caller of `finish` expects. -/
inductive Expect where
  | queued
  | running
  deriving DecidableEq

def Expect.status : Expect → Status
  | .queued => .queued
  | .running => .running

/-- **The one write that ends a job**, a compare-and-set on the status. `none` means the status was no
longer what `expect` says and nothing was written. -/
def finish (state : JobState) (outcome : Outcome) (now : String) (expect : Status := .running)
    (forgetOutputUploads : Bool := false) (extra : List Field := []) : Option JobState :=
  if state.status ≠ expect then none
  else
    let ended := state.ended outcome now
    some (applyFields (if forgetOutputUploads then ended.forgetOutputUploads else ended) extra)

/-! ## The uploads -/

/-- Is this the record of that destination of that output? -/
def Upload.isFor (u : Upload) (dest : String) (output : Option String) : Bool :=
  u.dest == dest && u.output == output

/-- What one attempt at a destination makes of its record: a success clears the error, a failure keeps
the last success time. -/
def Upload.note (u : Upload) (okAt error : Option String) : Upload :=
  if okAt.isSome then { u with okAt := okAt, error := none } else { u with error := error }

/-- Change the first record of the destination. -/
def noteUpload (dest : String) (output : Option String) (okAt error : Option String) :
    List Upload → List Upload
  | [] => [({ dest := dest, output := output } : Upload).note okAt error]
  | u :: us =>
    if u.isFor dest output then u.note okAt error :: us
    else u :: noteUpload dest output okAt error us

/-- Note what just happened at one destination. -/
def recordUpload (state : JobState) (dest : String) (output : Option String)
    (okAt error : Option String) : JobState :=
  { state with uploads := noteUpload dest output okAt error state.uploads }

/-- Forget every output's success. -/
def clearOutputUploads (state : JobState) : JobState := state.forgetOutputUploads

/-! ## `update_state` and its callers -/

/-- Set the fields, whatever the status. -/
def updateState (state : JobState) (fields : List Field) : JobState := applyFields state fields

/-- **Every call of `update_state`**: the runner's while it monitors a phase, those of the delete of a
workdir, and the dispatcher's when a drain retries an upload. -/
inductive Report where
  /-- `JobRunner._monitor`, as the phase starts. -/
  | phaseStarted (phase : String) (pgid : Nat) (unit : Option String)
  /-- `JobRunner._run_phase`, as it ends. -/
  | phaseEnded
  /-- `JobRunner._sync_preflight`. -/
  | syncPreflight
  /-- `JobRunner._run_phases`, as `main` begins. -/
  | mainStarted
  /-- `JobRunner._finalize`. -/
  | finalSync
  /-- `JobRunner._publish_estimated_eta`. -/
  | estimatedEta (eta : Option String)
  /-- `JobRunner._record_progress` of a poll that failed. -/
  | progressFailed (message : String)
  /-- `JobRunner._record_progress`, with the end time the percentage implies, if it implies one. -/
  | progress (percent : ℚ) (eta : Option String)
  /-- `JobRunner._record_util` of a sample that failed. -/
  | utilMissing (recent : List (Option ℚ))
  /-- `JobRunner._record_util`. -/
  | util (recent : List (Option ℚ)) (sum : ℚ) (samples : Nat)
  /-- The size of the workdir, measured or gone. -/
  | workdirMeasured (bytes : Nat)
  /-- `cleanup.remove_workdir`, around outputs that are kept. -/
  | checkoutRemoved (now : String) (kept : Nat)
  /-- `Dispatcher._retry_outputs`. -/
  | outputsRetried (lost : Bool)

/-- The fields of a call. -/
def Report.fields : Report → List Field
  | .phaseStarted phase pgid unit => [.phase (some phase), .pgid (some pgid), .cgroupUnit unit]
  | .phaseEnded => [.pgid none, .cgroupUnit none]
  | .syncPreflight => [.phase (some "preflight")]
  | .mainStarted => [.ran true]
  | .finalSync => [.phase (some "sync")]
  | .estimatedEta eta => [.eta eta]
  | .progressFailed message => [.progressError (some message)]
  | .progress percent eta =>
    [.progressPct (some percent), .progressError none]
      ++ (match eta with | some stamp => [.eta (some stamp)] | none => [])
  | .utilMissing recent => [.utilRecent recent]
  | .util recent sum samples => [.utilRecent recent, .utilSum sum, .utilSamples samples]
  | .workdirMeasured bytes => [.workdirBytes (some bytes)]
  | .checkoutRemoved now kept =>
    [.checkoutRemovedAt (some now), .workdirBytes (some 0), .keptBytes (some kept)]
  | .outputsRetried lost => [.outputsLost lost]

/-! ## What a write leaves alone

The fields the life cycle of a job is made of, and those that say who runs it and on which cards. -/

/-- **Two states agree on the life cycle**: the status, the request standing against the job, which
launch it is, how often its host restarted under it, and the claim it runs under. -/
structure SameLife (before after : JobState) : Prop where
  status : after.status = before.status
  intent : after.intent = before.intent
  attempt : after.attempt = before.attempt
  restarts : after.restarts = before.restarts
  gpus : after.gpus = before.gpus
  runnerPid : after.runnerPid = before.runnerPid
  runnerBootId : after.runnerBootId = before.runnerBootId
  runnerInitStart : after.runnerInitStart = before.runnerInitStart

theorem SameLife.refl (state : JobState) : SameLife state state :=
  ⟨rfl, rfl, rfl, rfl, rfl, rfl, rfl, rfl⟩

theorem SameLife.trans {a b c : JobState} (hab : SameLife a b) (hbc : SameLife b c) : SameLife a c :=
  ⟨hbc.status.trans hab.status, hbc.intent.trans hab.intent, hbc.attempt.trans hab.attempt,
    hbc.restarts.trans hab.restarts, hbc.gpus.trans hab.gpus, hbc.runnerPid.trans hab.runnerPid,
    hbc.runnerBootId.trans hab.runnerBootId, hbc.runnerInitStart.trans hab.runnerInitStart⟩

/-- The fields that only a claim passes. -/
def Field.ofClaim : Field → Bool
  | .status _ | .gpus _ | .runnerPid _ | .runnerBootId _ | .runnerInitStart _
  | .runnerStarttime _ => true
  | _ => false

/-- A write of any other field keeps the life cycle. -/
theorem set_sameLife (state : JobState) {f : Field} (h : f.ofClaim = false) :
    SameLife state (state.set f) := by
  cases f with
  | status _ | gpus _ | runnerPid _ | runnerBootId _ | runnerInitStart _ | runnerStarttime _ =>
    exact absurd h (by simp [Field.ofClaim])
  | _ => exact ⟨rfl, rfl, rfl, rfl, rfl, rfl, rfl, rfl⟩

theorem applyFields_sameLife (state : JobState) (fs : List Field)
    (h : ∀ f ∈ fs, f.ofClaim = false) : SameLife state (applyFields state fs) := by
  induction fs generalizing state with
  | nil => exact SameLife.refl state
  | cons f fs ih =>
    have hf := set_sameLife state (h f List.mem_cons_self)
    exact hf.trans (ih (state.set f) fun g hg => h g (List.mem_cons_of_mem f hg))

/-- No caller of `update_state` writes a status or a claim. -/
theorem Report.fields_ofClaim (r : Report) : ∀ f ∈ r.fields, f.ofClaim = false := by
  cases r with
  | progress percent eta => cases eta <;> simp [Report.fields, Field.ofClaim]
  | _ => simp [Report.fields, Field.ofClaim]

/-- **Every call of `update_state` keeps the life cycle.** -/
theorem updateState_sameLife (state : JobState) (r : Report) :
    SameLife state (updateState state r.fields) :=
  applyFields_sameLife state r.fields r.fields_ofClaim

/-- What `finish` wrote, when its extra fields are no claim's. -/
theorem finish_eq_some {state written : JobState} {outcome : Outcome} {now : String}
    {expect : Status} {forget : Bool} {extra : List Field}
    (hextra : ∀ f ∈ extra, f.ofClaim = false)
    (h : finish state outcome now expect forget extra = some written) :
    state.status = expect ∧ written.status = outcome.status ∧ written.intent = none ∧
      written.attempt = state.attempt ∧ written.restarts = state.restarts := by
  unfold finish at h
  split at h
  · cases h
  · next hs =>
    obtain rfl := Option.some.inj h
    have hlife := applyFields_sameLife
      (if forget then (state.ended outcome now).forgetOutputUploads else state.ended outcome now)
      extra hextra
    refine ⟨not_not.mp hs, hlife.status.trans ?_, hlife.intent.trans ?_, hlife.attempt.trans ?_,
      hlife.restarts.trans ?_⟩ <;> cases forget <;> rfl

/-- A compare-and-set that does not find its status writes nothing. -/
theorem finish_eq_none {state : JobState} {outcome : Outcome} {now : String} {expect : Status}
    {forget : Bool} {extra : List Field} (h : state.status ≠ expect) :
    finish state outcome now expect forget extra = none :=
  if_pos h

end Gpuc.Host
