import Mathlib.Data.Prod.Lex
import Mathlib.Data.String.Basic
import Gpuc.Basis.Dict
import Gpuc.Basis.Sorted
import Gpuc.Host.Jobs

/-!
# The queue, and the moves of a job through it

The queue is every job whose state is `queued`, in `(priority, job_id)` order; nothing else is stored
about it. Each operation here is one section under the job's own lock: it takes the state it reads
there, and answers the state it writes, or none when its compare-and-set finds something else.
`requeueAfterRestart` is two such sections, the second a `finish` that the first one only decided on,
so its first section answers a `Requeue`.

What a job's directory holds is a spec, which may not be readable, and a state.
-/

set_option autoImplicit false

namespace Gpuc.Host

open Gpuc.Basis

/-! ## Boots -/

/-- What names the boot of the machine and of the container, as far as it can be read. -/
structure Boot where
  bootId : Option String
  initStart : Option String
  deriving DecidableEq, Repr

/-- A name that was recorded, or could be read: an empty one says nothing. -/
def known (name : Option String) : Option String := name.filter fun n => n ≠ ""

/-- **Was this recorded in another boot?** Only a value recorded and readable now and different says
so. -/
def fromAnotherBoot (now : Boot) (bootId initStart : Option String) : Bool :=
  match known bootId, known now.bootId with
  | some recorded, some current =>
    if recorded ≠ current then true
    else
      match known initStart, known now.initStart with
      | some recordedInit, some currentInit => recordedInit ≠ currentInit
      | _, _ => false
  | _, _ => false

/-! ## The listing -/

/-- `jobs/<id>/`: the spec, if it can be read, and the state. -/
structure JobDir where
  spec : Option JobSpec
  state : JobState

/-- `jobs/`, by job id. -/
abbrev Jobs := Dict JobId JobDir

structure QueueEntry where
  priority : Int
  jobId : JobId
  /-- Which launch of this job the dispatcher would be making. -/
  attempt : Nat := 1
  deriving DecidableEq, Repr

/-- Entries compare by `(priority, job_id)`. -/
def QueueEntry.key (entry : QueueEntry) : Int ×ₗ JobId := toLex (entry.priority, entry.jobId)

/-- `list_job_ids`. -/
def listJobIds (jobs : Jobs) : List JobId := sortedBy id jobs.keys

/-- **The queue**: every queued job, in dispatch order. -/
def listQueued (jobs : Jobs) : List QueueEntry :=
  sortedBy QueueEntry.key <| jobs.entries.filterMap fun (jobId, dir) =>
    if dir.state.status = .queued then some ⟨dir.state.priority, jobId, dir.state.attempt⟩
    else none

/-! ## Claim and cancel -/

/-- **Take a job out of the queue**: a compare-and-set on `(queued, attempt)`. A state that an earlier
build enqueued gets the spec's limit made live. -/
def claim (state : JobState) (attempt : Nat) (spec : Option JobSpec) (fields : List Field) :
    Option JobState :=
  if state.status ≠ .queued ∨ state.attempt ≠ attempt then none
  else
    let live := match spec with
      | some spec =>
        if state.liveMaxRuntime then state
        else { state with maxRuntimeMin := spec.maxRuntimeMin, liveMaxRuntime := true }
      | none => state
    some (applyFields live fields)

/-- **Request cancellation**: the answer, and the state it leaves. A queued job is cancelled here and
now; a running one gets the intent, over a preempt that stands. -/
def cancel (state : JobState) (now : String) : String × JobState :=
  if state.finished then (state.status.text, state)
  else if state.status = .queued then
    ("cancelled",
      { state with
        status := .cancelled
        reason := some "cancelled"
        endedAt := some now
        intent := none })
  else ("cancelling", { state with intent := some .cancel })

/-- `STOP_REASONS`: what each intent ends the attempt as. -/
def Intent.stopReason : Intent → String
  | .cancel => "cancelled"
  | .preempt => "preempted"

/-- The reason a running job's runner should stop it now, or none. -/
def stopRequested (state : JobState) : Option String := state.intent.map Intent.stopReason

/-! ## Preempt -/

/-- An unreadable spec counts as wanting some. -/
def wantsCards (spec : Option JobSpec) : Bool :=
  match spec with
  | some spec => 0 < spec.gpus
  | none => true

/-- Does the job with this id want cards? One that is not there has no readable spec. -/
def Jobs.wantsCards (jobs : Jobs) (jobId : JobId) : Bool :=
  Host.wantsCards ((jobs.get? jobId).bind JobDir.spec)

/-- **The first queued job wanting cards that would be dispatched before this one** if it came back at
this priority. -/
def queuedAheadOf (jobs : Jobs) (jobId : JobId) (priority : Int) : Option QueueEntry :=
  let mine : QueueEntry := ⟨priority, jobId, 1⟩
  ((listQueued jobs).takeWhile fun entry => entry.key < mine.key).find? fun entry =>
    entry.jobId ≠ jobId ∧ jobs.wantsCards entry.jobId = true

/-- Why a preempt would only stop this job and start it again, or none. -/
def refuseIfNothingElseCanRun (draining : Bool) (jobs : Jobs) (jobId : JobId) (priority : Int) :
    Option String :=
  if draining then
    some (s!"this host is draining, so it will not start anything else: preempting "
      ++ s!"job {jobId} would throw away what it has done for nothing")
  else if (queuedAheadOf jobs jobId priority).isSome then none
  else
    match (listQueued jobs).filter fun entry =>
        entry.jobId ≠ jobId ∧ jobs.wantsCards entry.jobId = true with
    | [] =>
      some (s!"nothing else is queued on this host for a GPU, so preempting job {jobId} would "
        ++ "stop it and start it again from the beginning. Queue the job you want to run "
        ++ "first, then preempt this one")
    | first :: _ =>
      some (s!"job {jobId} would come back at priority {priority} and be dispatched ahead of "
        ++ s!"every job now waiting (the next is {first.jobId} at priority {first.priority}), "
        ++ "so preempting it would only start it over. Dispatch order is (priority, job id) "
        ++ "and this job was submitted first, so it wins a tie: give it "
        ++ s!"`--priority` above {first.priority} to queue it behind")

/-- **Stop a running job and queue it again**: the intent, and the priority it comes back at, or why
not. -/
def preempt (draining : Bool) (jobs : Jobs) (jobId : JobId) (priority : Option Int)
    (state : JobState) : Except String JobState :=
  match priority.filter fun p => ¬ (0 ≤ p ∧ p ≤ 99) with
  | some p => .error s!"priority must be 0-99 (lower dispatches first), got {p}"
  | none =>
    if state.finished then
      .error (s!"job {jobId} has already {state.status.text}, so there is nothing to preempt; "
        ++ s!"`gpuc requeue {jobId}` submits it again")
    else if state.status ≠ .running then
      .error (s!"job {jobId} is {state.status.text}, not running, so it is already waiting its "
        ++ s!"turn; `gpuc set {jobId} --priority N` moves it")
    else if state.intent = some .cancel then
      .error s!"job {jobId} is already being cancelled, so it is not coming back"
    else if jobs.wantsCards jobId = false then
      .error (s!"job {jobId} holds no GPUs, so stopping it would free nothing for a job "
        ++ s!"waiting; `gpuc cancel {jobId}` ends it")
    else
      let wanted := priority.getD state.priority
      match refuseIfNothingElseCanRun draining jobs jobId wanted with
      | some why => .error why
      | none => .ok { state with intent := some .preempt, priority := wanted }

def isPreempted (state : JobState) : Bool := state.intent = some .preempt

/-! ## Queued again -/

/-- `_write_queued_again`: the fresh `queued` state of the next attempt. What a queued job is ordered
and described by survives, and nothing else. -/
def writeQueuedAgain (state : JobState) (ran : Bool) (restarts : Option Nat := none) : JobState where
  status := .queued
  attempt := state.attempt + 1
  priority := state.priority
  estimatedRuntimeMin := state.estimatedRuntimeMin
  maxRuntimeMin := state.maxRuntimeMin
  liveMaxRuntime := state.liveMaxRuntime
  ran := ran
  restarts := restarts.getD state.restarts

/-- **Queue a preempted job again**, as the runner's last act for the attempt it stopped. -/
def nextAttempt (state : JobState) (ran : Bool) : Option JobState :=
  if state.status ≠ .running ∨ state.intent ≠ some .preempt then none
  else some (writeQueuedAgain state (state.ran || ran))

/-- How many times a job is queued again because its host restarted under it. -/
def maxRestarts : Nat := 3

/-- What the first section of `requeue_after_restart` does: nothing, the fresh state, or the outcome
its second section is to end the job with. -/
inductive Requeue where
  | leaves
  | again (written : JobState)
  | ends (outcome : Outcome)

/-- **Queue again a job whose runner ran in an earlier boot**: the section that decides. A job somebody
was preempting is queued again without counting against the limit. -/
def requeueAfterRestart (state : JobState) (now : Boot) : Requeue :=
  if state.status ≠ .running ∨
      fromAnotherBoot now state.runnerBootId state.runnerInitStart = false then .leaves
  else if state.intent = some .preempt then .again (writeQueuedAgain state state.ran)
  else if state.intent ≠ some .cancel ∧ state.restarts < maxRestarts then
    .again (writeQueuedAgain state state.ran (some (state.restarts + 1)))
  else if state.intent = some .cancel then
    .ends { status := .cancelled, reason := some "cancelled", ran := false }
  else .ends { status := .failed, reason := some "host-restarted", ran := false }

end Gpuc.Host
