import Gpuc.Basis.Run
import Gpuc.Host.Destinations
import Gpuc.Host.Runner
import Gpuc.Host.Settable

/-!
# A job and its uploads

The records of a job's uploads are the only account of whether its outputs are safe. `outputsUploaded`
is the question `purge`, the drain and `status` put to them.

`Tracked` is one job with its runner, as far as its uploads go, and with every upload in flight: those of
the runner's sync loop and of its final pass, and those of a drain. A step is one section under the job's
lock, or an upload that begins. What the job's processes do is a step too (`works`), which is all that is
known of when they write: `wrote` is the last moment one of them could, and `done` what has become of
each upload, with the moment it began, newest first. No source function reads these two.

An upload raises nothing but a `SyncError`, and that always says something; a tick with too much in
flight, and one that finds no output yet, end without a record. A runner that an exception ends is
`killed`, and so is one that a signal ends. No read or write of a state fails.
-/

set_option autoImplicit false

namespace Gpuc.Host

open Gpuc.Basis

/-! ## The question -/

/-- The record says that the last upload there succeeded. -/
def Upload.stands (u : Upload) : Bool := (present u.okAt).isSome && (present u.error).isNone

/-- Each declared output, with each place it goes to. -/
def wantedUploads (fields : Fields) (spec : JobSpec) : Except FormatError (List (String × String)) := do
  let wanted ← spec.outputs.mapM fun output => do
    let destinations ← destinationsOf fields output spec.jobId
    return destinations.map fun destination => (output.path, destination.uri)
  return wanted.flatten

/-- **`outputs_uploaded`**: did the last upload of every declared output reach every one of its
destinations? -/
def outputsUploaded (fields : Fields) (state : JobState) (spec : JobSpec) : Except FormatError Bool := do
  let wanted ← wantedUploads fields spec
  return wanted.all fun (path, uri) =>
    state.uploads.any fun u => u.output = some path ∧ u.dest = uri ∧ u.stands

/-! ## A job that is run -/

/-- An upload of one output to one destination, and the moment it began. -/
structure InFlight where
  dest : String
  output : String
  began : Nat
  deriving DecidableEq

/-- An upload that was recorded, and whether it succeeded. -/
structure Recorded where
  upload : InFlight
  ok : Bool
  deriving DecidableEq

/-- What an upload ends with. -/
inductive Answer where
  /-- It succeeded, at this time. -/
  | ok (stamp : String)
  | failed (error : String) (htext : error ≠ "")
  /-- Nothing goes in the record. -/
  | skipped

/-- Where a runner stands. -/
inductive SyncStage where
  /-- `main` has not begun, and a process of the attempt has run or not. -/
  | before (worked : Bool)
  /-- `main` runs, and the sync loop with it. -/
  | main (tick : Option InFlight)
  /-- `main` has stopped, and the sync loop is on its way to. -/
  | over (tick : Option InFlight)
  /-- The final pass: the records are cleared. -/
  | final (upload : Option InFlight)
  deriving DecidableEq

/-- `_main_started`, in an attempt that ends here. -/
def SyncStage.ran : SyncStage → Bool
  | .before _ => false
  | .main _ | .over _ | .final _ => true

/-- It has made its final pass, or there is none to make. -/
def SyncStage.settled : SyncStage → Bool
  | .before _ | .final none => true
  | .main _ | .over _ | .final (some _) => false

/-- **A job, its runner and its uploads.** -/
structure Tracked where
  state : JobState
  /-- The runner, while it is alive. -/
  runner : Option SyncStage := none
  /-- The restarts that were decided on and are not yet written. -/
  requeues : List Outcome := []
  /-- The uploads of a drain. -/
  drains : List InFlight := []
  moment : Nat := 0
  wrote : Nat := 0
  done : List Recorded := []

namespace Tracked

/-- The job as it is enqueued. -/
def initial (spec : JobSpec) : Tracked where
  state := .initial spec

def write (t : Tracked) (written : Option JobState) : Tracked :=
  { t with state := written.getD t.state }

/-- A process of the job ran on until now. -/
def works (t : Tracked) (runner : Option SyncStage) : Tracked :=
  { t with runner, moment := t.moment + 1, wrote := t.moment + 1 }

/-- The upload that begins now. -/
def beginning (t : Tracked) (dest output : String) : InFlight := ⟨dest, output, t.moment + 1⟩

/-- The answer of an upload goes in its record. -/
def record (t : Tracked) (upload : InFlight) : Answer → Tracked
  | .ok stamp =>
    { t with
      state := recordUpload t.state upload.dest (some upload.output) (some stamp) none
      done := ⟨upload, true⟩ :: t.done }
  | .failed error _ =>
    { t with
      state := recordUpload t.state upload.dest (some upload.output) none (some error)
      done := ⟨upload, false⟩ :: t.done }
  | .skipped => t

/-! ## Steps -/

inductive Step where
  /-- A runner's claim, for the attempt it was started for. -/
  | claim (attempt : Nat) (spec : Option JobSpec) (assigned : List Uuid) (isolation now : String)
    (who : Identity)
  /-- A process of the job runs on. Those of a killed runner do until the dispatcher ends them. -/
  | works
  | mainStarts
  | mainStops
  /-- The sync loop's upload of one output to one destination, or the final pass's. -/
  | uploadBegins (dest output : String)
  | uploadEnds (answer : Answer)
  /-- `SyncLoop.final`, past the sync loop: every output's success is forgotten. -/
  | clears
  | nextAttempt
  /-- `_end`, of a job that is not queued again. -/
  | ends (outcome : Outcome) (now : String) (problems : List String)
  | killed
  /-- `_mark_runner_died`. -/
  | runnerDied (now : String) (expect : Expect)
  /-- `_fail_queued`. -/
  | failQueued (reason now : String)
  /-- The section of `requeue_after_restart` that decides. -/
  | restart (boot : Boot)
  /-- The one that ends the job as one of the decisions still to be written says. -/
  | restartEnds (i : Nat) (now : String)
  | drainBegins (dest output : String)
  | drainEnds (i : Nat) (answer : Answer)
  | cancel (now : String)
  | preempt (draining : Bool) (jobs : Jobs) (jobId : JobId) (priority : Option Int)
  | apply (shown : Shown) (jobId : JobId) (elapsed : Option ℚ) (patch : List Setting)
  /-- Any call of `update_state` but the one as `main` begins. -/
  | report (r : Report) (other : r ≠ .mainStarted)
  /-- The mirror of the log and the state. -/
  | mirrors (dest : String) (okAt error : Option String)

/-- How `_mark_runner_died` ends a job. -/
def died : Outcome := { status := .failed, reason := some "runner-died", ran := false }

/-- **A step of the job**, where it is possible. -/
def step (t : Tracked) : Step → Option Tracked
  | .claim attempt spec assigned isolation now who =>
    match claim t.state attempt spec (claimFields assigned isolation now who) with
    | some state => some { t with state, runner := some (.before false) }
    | none => some t
  | .works =>
    match t.runner with
    | some (.before _) => some (t.works (some (.before true)))
    | some (.main tick) => some (t.works (some (.main tick)))
    | none => if t.state.status = .running then some (t.works none) else none
    | some (.over _) | some (.final _) => none
  | .mainStarts =>
    match t.runner with
    | some (.before _) =>
      some { t with state := updateState t.state Report.mainStarted.fields, runner := some (.main none) }
    | _ => none
  | .mainStops =>
    match t.runner with
    | some (.main tick) => some { t with runner := some (.over tick) }
    | _ => none
  | .uploadBegins dest output =>
    let upload := some (t.beginning dest output)
    match t.runner with
    | some (.main none) => some { t with runner := some (.main upload), moment := t.moment + 1 }
    | some (.over none) => some { t with runner := some (.over upload), moment := t.moment + 1 }
    | some (.final none) => some { t with runner := some (.final upload), moment := t.moment + 1 }
    | _ => none
  | .uploadEnds answer =>
    match t.runner with
    | some (.main (some upload)) => some { t.record upload answer with runner := some (.main none) }
    | some (.over (some upload)) => some { t.record upload answer with runner := some (.over none) }
    | some (.final (some upload)) => some { t.record upload answer with runner := some (.final none) }
    | _ => none
  | .clears =>
    match t.runner with
    | some (.over none) =>
      some { t with state := clearOutputUploads t.state, runner := some (.final none) }
    | _ => none
  | .nextAttempt =>
    match t.runner.filter SyncStage.settled with
    | some runner =>
      match Host.nextAttempt t.state runner.ran with
      | some state => some { t with state, runner := none }
      | none => some t
    | none => none
  | .ends outcome now problems =>
    match t.runner.filter SyncStage.settled with
    | some runner =>
      if outcome.ran = runner.ran then
        some { t.write (finish t.state outcome now .running false [.problems problems]) with
          runner := none }
      else none
    | none => none
  | .killed => if t.runner.isSome then some { t with runner := none } else none
  | .runnerDied now expect =>
    if t.runner.isSome then none else some (t.write (finish t.state died now expect.status true))
  | .failQueued reason now =>
    some (t.write (finish t.state { status := .failed, reason := some reason, ran := false } now .queued))
  | .restart boot =>
    if t.runner.isSome then none
    else
      match requeueAfterRestart t.state boot with
      | .leaves => some t
      | .again state => some { t with state }
      | .ends outcome => some { t with requeues := t.requeues ++ [outcome] }
  | .restartEnds i now =>
    match t.requeues[i]? with
    | some outcome =>
      some { t.write (finish t.state outcome now .running true) with requeues := t.requeues.eraseIdx i }
    | none => none
  | .drainBegins dest output =>
    if t.state.status = .running then none
    else some { t with drains := t.drains ++ [t.beginning dest output], moment := t.moment + 1 }
  | .drainEnds i answer =>
    match t.drains[i]? with
    | some upload => some { t.record upload answer with drains := t.drains.eraseIdx i }
    | none => none
  | .cancel now => some { t with state := (cancel t.state now).2 }
  | .preempt draining jobs jobId priority =>
    some (t.write (preempt draining jobs jobId priority t.state).toOption)
  | .apply shown jobId elapsed patch => some (t.write (Host.apply shown jobId elapsed patch t.state).toOption)
  | .report r _ => some { t with state := updateState t.state r.fields }
  | .mirrors dest okAt error => some { t with state := recordUpload t.state dest none okAt error }

def machine : Machine Tracked Step where
  step := step

end Tracked

end Gpuc.Host
