import Gpuc.Host.Machine

/-!
# Passes over a queue nobody changes

`Gpuc.Host.Machine` takes a dispatcher read by read among everything that can happen to its host. Here
is the dispatcher pass by pass (`run_once`), on a host where it and the runners it counts on are alone:
no job is submitted, changed or cancelled, none ends by itself, and nvidia-smi keeps its answer, so that
the resolved cards and `inUse`, the cards somebody else is on, are the same all along.

A pass is three steps. `begins` takes the entries out of `running` whose runners have exited, and lists
the queue; `launches` is `launch_ready`; `preempts` is `preempt_for_waiting`. Before, between and after
them the runners write: a runner claims the job it was started for, and one that has been stopped makes
its last write, which queues the job again at its own `(priority, job_id)`. Until it has exited and a
pass has reaped it, its cards are on their way back.
-/

set_option autoImplicit false

namespace Gpuc.Host

open Gpuc.Basis

/-- What a runner writes that a walk along the queue reads. -/
inductive RunnerWrite where
  | claims (isolation now : String) (who : Identity)
  /-- Its last write, once it has been stopped: the job is queued again, or cancelled. -/
  | stops (ran : Bool) (exitCode : Int) (now : String)

/-- The state the runner of an entry writes, or none when its compare-and-set finds something else. -/
def RunnerWrite.written (entry : Running) (dir : JobDir) : RunnerWrite → Option JobState
  | .claims isolation now who =>
    claim dir.state entry.attempt dir.spec (claimFields entry.gpus isolation now who)
  | .stops ran exitCode now =>
    match dir.state.intent with
    | some .preempt => nextAttempt dir.state ran
    | some .cancel =>
      finish dir.state
        { status := .cancelled, reason := some "cancelled", exitCode := exitCode, ran := ran } now
    | none => none

/-- Has the runner of an entry made its last write? -/
def hasLeft (jobs : Jobs) (jobId : JobId) (entry : Running) : Bool :=
  match jobs.get? jobId with
  | none => false
  | some dir =>
    dir.state.finished || (dir.state.status = .queued && entry.attempt < dir.state.attempt)

/-- **A dispatcher and the jobs it serves.** -/
structure Service where
  dispatcher : Dispatcher
  jobs : Jobs

/-- A step of a pass, or a write of a runner. -/
inductive PassStep where
  | writes (jobId : JobId) (write : RunnerWrite)
  /-- The pass finds these runners exited. -/
  | begins (exited : List JobId)
  | launches (clock : Seconds) (now : String)
  | preempts (now : String)

namespace Service

/-- A compare-and-set on one job, or none if it writes nothing. -/
def change (s : Service) (jobId : JobId) (f : JobDir → Option JobState) : Option Service :=
  (s.jobs.get? jobId).bind fun dir =>
    (f dir).map fun written =>
      { s with jobs := s.jobs.set jobId { dir with state := written } }

/-- One write of a runner the dispatcher counts on. -/
def writes (s : Service) (jobId : JobId) (write : RunnerWrite) : Service :=
  ((s.dispatcher.running.get? jobId).bind fun entry =>
    s.change jobId (write.written entry)).getD s

/-- `_fail_queued`. -/
def failQueued (s : Service) (now : String) (jobId : JobId) (reason : String) : Service :=
  match s.change jobId fun dir => finish dir.state (failedQueued reason) now .queued with
  | some written => { written with dispatcher := s.dispatcher.dropQueued jobId }
  | none => s

/-- The start of `run_once`: what a pass reads once is forgotten, the runners that are gone are reaped,
and the queue is listed. -/
def begins (s : Service) (exited : List JobId) : Option Service :=
  match s.dispatcher.stage with
  | .idle =>
    some
      { s with
        dispatcher :=
          { s.dispatcher with
            running := s.dispatcher.running.filter fun jobId entry =>
              ¬ (jobId ∈ exited ∧ hasLeft s.jobs jobId entry = true)
            claimed := none
            borrowable := none
            queued := listQueued s.jobs
            stage := .loop (.dropping [] .launches) } }
  | _ => none

/-- `_requests` fails the jobs whose spec cannot be read. -/
def drops (s : Service) (now : String) : Service :=
  (s.dispatcher.badSpecs s.jobs).foldl (fun s jobId => s.failQueued now jobId "bad-spec") s

/-- What `launch_ready` does about one decision. A launch reads the claims on disk again, and a spawned
runner's cards count as taken from now. -/
def act (now : String) (s : Service) : Act → Service
  | .fail jobId reason => s.failQueued now jobId reason
  | .launch jobId gpus attempt =>
    let reread := { s.dispatcher with claimed := some (claimedGpus s.jobs) }
    if ∃ uuid ∈ gpus, uuid ∈ claimedGpus s.jobs then { s with dispatcher := reread }
    else
      { s with
        dispatcher :=
          { reread with
            running := reread.running.set jobId { gpus := gpus, attempt := attempt } } }

/-- The dispatcher after a walk: the pass remembers what it read. -/
def walked (stamp : String → Option Seconds) (inUse : List Uuid) (s : Service) : Dispatcher :=
  { s.dispatcher with
    claimed := some (s.dispatcher.claimedNow s.jobs)
    borrowable := s.dispatcher.keptReading stamp s.jobs inUse }

/-- `launch_ready`. -/
def launches (stamp : String → Option Seconds) (inUse : List Uuid) (s : Service) (clock : Seconds)
    (now : String) : Option Service :=
  match s.dispatcher.stage with
  | .loop (.dropping [] .launches) =>
    let s := s.drops now
    let read : Dispatcher :=
      { s.walked stamp inUse with
        unreadableSince := s.dispatcher.unreadable clock
        stage := .loop (.dropping [] .preempts) }
    some <|
      (s.dispatcher.launchReady stamp s.jobs inUse clock).foldl (act now)
        { s with dispatcher := read }
  | _ => none

/-- `_preempt_for` each of them; one refusal, and the rest are not stopped either. -/
def stopEach (s : Service) : List JobId → Service
  | [] => s
  | jobId :: rest =>
    match s.change jobId fun dir => (preempt false s.jobs jobId none dir.state).toOption with
    | some stopped => stopped.stopEach rest
    | none => s

/-- **The jobs `preempt_for_waiting` stops.** -/
def orders (stamp : String → Option Seconds) (inUse : List Uuid) (s : Service) : PassStep → List JobId
  | .preempts now =>
    (s.drops now).dispatcher.preemptForWaiting stamp (s.drops now).jobs inUse
  | .writes .. | .begins _ | .launches .. => []

/-- `preempt_for_waiting`. -/
def preempts (stamp : String → Option Seconds) (inUse : List Uuid) (s : Service) (now : String) :
    Option Service :=
  match s.dispatcher.stage with
  | .loop (.dropping [] .preempts) =>
    let dropped := s.drops now
    some <|
      ({ dropped with dispatcher := (dropped.walked stamp inUse).goTo .idle } : Service).stopEach
        (s.orders stamp inUse (.preempts now))
  | _ => none

/-- **A step.** -/
def step (stamp : String → Option Seconds) (inUse : List Uuid) (s : Service) :
    PassStep → Option Service
  | .writes jobId write => some (s.writes jobId write)
  | .begins exited => s.begins exited
  | .launches clock now => s.launches stamp inUse clock now
  | .preempts now => s.preempts stamp inUse now

/-- Passes, one after the other. -/
def passes (stamp : String → Option Seconds) (inUse : List Uuid) : Machine Service PassStep where
  step := step stamp inUse

end Service

end Gpuc.Host
