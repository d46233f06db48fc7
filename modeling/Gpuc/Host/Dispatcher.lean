import Mathlib.Data.Finset.Dedup
import Gpuc.Host.Cards
import Gpuc.Host.Plan
import Gpuc.Host.Runner

/-!
# The dispatcher's view

What a dispatcher holds between two of its reads of the disk, and what it makes of one read. `running`
is its own account of whose cards are taken: the runners it spawned, by their process, and those it
adopted, by what the job's state recorded. The rest of `Dispatcher` is what one pass reads once and
keeps (`queued`, `claimed`, `borrowable`), and `stage` is where the pass stands.

`pool` and `requests` are what a pass hands to `plan`, and `launchReady` what it does with the
decisions. The steps themselves are in `Gpuc.Host.Machine`.
-/

set_option autoImplicit false

namespace Gpuc.Host

open Gpuc.Basis

/-- What the dispatcher reads of a host's configuration. -/
structure HostConfig where
  gpus : Option (List String) := none
  sharedGpus : List String := []
  /-- The host is rented from a provider, and ends itself when idle. -/
  ephemeral : Bool := false
  idleMinutes : ℚ := 15

/-- May this job be given one of this host's shared cards? -/
def HostConfig.mayBorrow (config : HostConfig) (spec : JobSpec) : Bool :=
  spec.useShared && config.sharedGpus ≠ []

/-! ## Whose cards are taken -/

/-- Is the process a state recorded still running? A pid alone is reused, so the boot it was recorded
in must not be known to be another, nor its start time to be different. -/
def recordedProcessAlive (now : Boot) (processes : List Identity) (pid : Option Nat)
    (bootId starttime initStart : Option String) : Bool :=
  match pid.bind fun pid => processes.find? fun process => process.pid = pid with
  | none => false
  | some process =>
    if fromAnotherBoot now bootId initStart then false
    else
      match known starttime, known process.starttime with
      | some recorded, some current => recorded = current
      | _, _ => true

/-- **A job whose cards this dispatcher counts as taken** (`_Running`): one it spawned a runner for, or
one it adopted by the runner the job's state named. -/
structure Running where
  gpus : List Uuid
  /-- Which launch of the job this is. -/
  attempt : Nat
  /-- The runner this dispatcher spawned. -/
  popen : Option Nat := none
  runnerPid : Option Nat := none
  runnerBootId : Option String := none
  runnerStarttime : Option String := none
  runnerInitStart : Option String := none
  deriving DecidableEq

def Running.adopted (state : JobState) : Running where
  gpus := state.gpus
  attempt := state.attempt
  runnerPid := state.runnerPid
  runnerBootId := state.runnerBootId
  runnerStarttime := state.runnerStarttime
  runnerInitStart := state.runnerInitStart

/-- Is the runner still there? A spawned one is asked directly. -/
def Running.alive (now : Boot) (processes : List Identity) (entry : Running) : Bool :=
  match entry.popen with
  | some pid => processes.any fun process => process.pid = pid
  | none =>
    recordedProcessAlive now processes entry.runnerPid entry.runnerBootId entry.runnerStarttime
      entry.runnerInitStart

/-- The runner the entry counts on. -/
def Running.runner (entry : Running) : Option Nat :=
  match entry.popen with
  | some pid => some pid
  | none => entry.runnerPid

/-- Is the runner that a state names still there? -/
def JobState.runnerAlive (now : Boot) (processes : List Identity) (state : JobState) : Bool :=
  recordedProcessAlive now processes state.runnerPid state.runnerBootId state.runnerStarttime
    state.runnerInitStart

/-! ## Where a pass stands -/

/-- What `launch_ready` does about one decision. -/
inductive Act where
  | launch (jobId : JobId) (gpus : List Uuid) (attempt : Nat)
  | fail (jobId : JobId) (reason : String)
  deriving DecidableEq

def Act.jobId : Act → JobId
  | .launch jobId .. | .fail jobId _ => jobId

/-- The cards an act is about to take. -/
def Act.gpus : Act → List Uuid
  | .launch _ gpus _ => gpus
  | .fail .. => []

/-- The two walks along the queue that one pass makes. -/
inductive Walks where
  | launches
  | preempts
  deriving DecidableEq

/-- A loop of the dispatcher, with what is left of it. -/
inductive Loop where
  /-- `adopt_orphans`, with the job ids not yet read. -/
  | adopting (todo : List JobId)
  /-- `reap`, with the keys of `running` not yet asked about. -/
  | reaping (todo : List JobId)
  /-- `_requests` of one of the walks, with the jobs whose spec cannot be read. -/
  | dropping (todo : List JobId) (walk : Walks)
  | launching (todo : List Act)
  | preempting (todo : List JobId)
  deriving DecidableEq

/-- **Where a dispatcher stands** between two reads or writes. -/
inductive Stage where
  /-- Between two passes. -/
  | idle
  | loop (l : Loop)
  /-- `requeue_after_restart`, the job's state having been read. -/
  | requeueing (jobId : JobId) (todo : List JobId)
  /-- `_settle`, the entry having been taken out of `running`. -/
  | settling (jobId : JobId) (entry : Running) (todo : List JobId)
  /-- A `finish` decided on and not yet made. -/
  | ending (jobId : JobId) (outcome : Outcome) (expect : Expect) (forget : Bool) (l : Loop)
  /-- `_launch`, past its reading of the claims. -/
  | spawning (jobId : JobId) (gpus : List Uuid) (attempt : Nat) (todo : List Act)
  /-- `maybe_terminate`. -/
  | checking
  /-- `drain_and_terminate`: before the marker, the retry of the outputs, the last mirror and the
  call. -/
  | marking
  | retrying
  | mirroring
  | terminating

/-- **A dispatcher**: its own account of the cards, and what its pass has read. -/
structure Dispatcher where
  pid : Nat
  stage : Stage
  running : Dict JobId Running := .empty
  config : HostConfig := {}
  cards : Resolution := {}
  /-- nvidia-smi could not be read this pass. -/
  tableError : Bool := false
  unreadableSince : Option Seconds := none
  queued : List QueueEntry := []
  claimed : Option (List Uuid) := none
  borrowable : Option (List Uuid × Nat) := none
  queueEmptySince : Option Seconds := none
  terminateRetryAt : Option Seconds := none

/-- The cards every running state on disk names. -/
def claimedGpus (jobs : Jobs) : List Uuid :=
  jobs.values.flatMap fun dir => if dir.state.status = .running then dir.state.gpus else []

/-- `_fail_queued`'s outcome. -/
def failedQueued (reason : String) : Outcome where
  status := .failed
  reason := some reason
  ran := false

/-- The verdict for a runner that is gone. -/
def runnerDied : Outcome where
  status := .failed
  reason := some "runner-died"
  ran := false

namespace Dispatcher

/-- The claims as this pass has read them, or reads them now. -/
def claimedNow (d : Dispatcher) (jobs : Jobs) : List Uuid := d.claimed.getD (claimedGpus jobs)

/-- **The cards nothing may be handed this pass**: those of every runner this dispatcher spawned or
adopted, and those every running state on disk names. -/
def busyGpus (d : Dispatcher) (jobs : Jobs) : List Uuid :=
  d.running.values.flatMap Running.gpus ++ d.claimedNow jobs

def freeGpus (d : Dispatcher) (jobs : Jobs) : List Uuid :=
  d.cards.owned.filter fun uuid => uuid ∉ d.busyGpus jobs

/-- The pass's one reading of the shared cards, taken now if it was not: `inUse` are those nvidia-smi
says somebody is on, or says nothing about. -/
def borrowableRead (d : Dispatcher) (jobs : Jobs) (inUse : List Uuid) : List Uuid × Nat :=
  d.borrowable.getD <|
    let asked := d.cards.shared.filter fun uuid => uuid ∉ d.busyGpus jobs
    (asked.filter fun uuid => uuid ∉ inUse, asked.countP fun uuid => uuid ∈ inUse)

/-- Shared cards nothing of ours holds and nobody else is using, and how many somebody else is on. -/
def borrowableGpus (d : Dispatcher) (jobs : Jobs) (inUse : List Uuid) : List Uuid × Nat :=
  let (unused, theirs) := d.borrowableRead jobs inUse
  (unused.filter fun uuid => uuid ∉ d.busyGpus jobs, theirs)

/-- The listed jobs this dispatcher has not already started a runner for, and whose spec cannot be
read. -/
def badSpecs (d : Dispatcher) (jobs : Jobs) : List JobId :=
  (d.queued.map QueueEntry.jobId).filter fun jobId =>
    jobId ∉ d.running.keys ∧ ((jobs.get? jobId).bind JobDir.spec).isNone = true

/-- **The queue as `plan` sees it.** -/
def requests (d : Dispatcher) (jobs : Jobs) : List (QueueEntry × Request) :=
  d.queued.filterMap fun entry =>
    if entry.jobId ∈ d.running.keys then none
    else
      ((jobs.get? entry.jobId).bind JobDir.spec).map fun spec =>
        (entry,
          { jobId := entry.jobId
            gpus := spec.gpus
            borrows := d.config.mayBorrow spec
            priority := entry.priority
            fills := spec.autoPreempt })

/-- Is this runner's attempt over, bar the runner exiting? One that has not claimed yet is arriving. -/
def leaving (jobs : Jobs) (jobId : JobId) (entry : Running) : Bool :=
  match jobs.get? jobId with
  | none => false
  | some dir =>
    if dir.state.status = .running then dir.state.intent.isSome
    else ¬ (dir.state.status = .queued ∧ dir.state.attempt = entry.attempt)

/-- The running jobs whose spec said they may be stopped, never one that is already stopping. `stamp`
reads a recorded time. -/
def autoPreemptable (stamp : String → Option Seconds) (d : Dispatcher) (jobs : Jobs) :
    List Preemptable :=
  d.running.entries.filterMap fun (jobId, entry) =>
    match jobs.get? jobId with
    | some ⟨some spec, state⟩ =>
      if state.intent = none ∧ spec.autoPreempt = true ∧ state.status = .running then
        some
          { jobId := jobId
            priority := state.priority
            gpus := entry.gpus
            started := (state.startedAt.bind stamp).getD 0
            owned := entry.gpus.countP fun uuid => uuid ∈ d.cards.owned
            borrowed := entry.gpus.countP fun uuid => uuid ∈ d.cards.shared }
      else none
    | _ => none

/-- **This pass's cards**: free, on their way back, and under jobs that may be stopped. -/
def pool (stamp : String → Option Seconds) (d : Dispatcher) (jobs : Jobs) (inUse : List Uuid) :
    Pool where
  ownedFree := d.freeGpus jobs
  ownedPresent := d.cards.owned.length
  sharedVisible := d.cards.shared.length
  ownedAbsent := d.cards.missing
  sharedAbsent := d.cards.sharedMissing
  sample := some fun _ => d.borrowableGpus jobs inUse
  shared := d.cards.shared.toFinset
  coming := d.running.entries.flatMap fun (jobId, entry) =>
    if leaving jobs jobId entry then
      entry.gpus.filter fun uuid => uuid ∈ d.cards.owned ∨ uuid ∈ d.cards.shared
    else []
  preemptable := d.autoPreemptable stamp jobs

/-- `SMI_PATIENCE_S`. -/
def smiPatienceS : Seconds := 300

/-- Since when nvidia-smi has not answered. -/
def unreadable (d : Dispatcher) (now : Seconds) : Option Seconds :=
  if d.tableError then some (d.unreadableSince.getD now) else none

/-- What one decision comes to. A job the cards can never hold is failed only once nvidia-smi is not
given the time to come back. -/
def actOn (requests : List (QueueEntry × Request)) (patient : Bool) : Decision → Option Act
  | .fails jobId reason => if patient then none else some (.fail jobId reason)
  | .assigned jobId gpus _ =>
    (requests.find? fun p => p.1.jobId = jobId).map fun p => .launch jobId gpus p.1.attempt
  | .holds .. | .steppedOver .. => none

/-- **What `launch_ready` does**, in order. -/
def launchReady (stamp : String → Option Seconds) (d : Dispatcher) (jobs : Jobs)
    (inUse : List Uuid) (now : Seconds) : List Act :=
  let requests := d.requests jobs
  let patient := (d.unreadable now).any fun since => now - since < smiPatienceS
  (plan (requests.map Prod.snd) (d.pool stamp jobs inUse)).filterMap (actOn requests patient)

/-- What `preempt_for_waiting` stops: the jobs named by the first decision with a gap. -/
def preemptForWaiting (stamp : String → Option Seconds) (d : Dispatcher) (jobs : Jobs)
    (inUse : List Uuid) : List JobId :=
  let decisions := plan ((d.requests jobs).map Prod.snd) (d.pool stamp jobs inUse)
  (decisions.findSome? fun
    | .holds _ _ _ gap preempts => if gap = 0 then none else some preempts
    | .assigned .. | .steppedOver .. | .fails .. => none).getD []

/-- The reading of the shared cards the pass keeps, if the walk took one. -/
def keptReading (stamp : String → Option Seconds) (d : Dispatcher) (jobs : Jobs)
    (inUse : List Uuid) : Option (List Uuid × Nat) :=
  let walk := planFrom (Walk.start (d.pool stamp jobs inUse)) ((d.requests jobs).map Prod.snd)
  if walk.2.pool.calls = 0 then d.borrowable else some (d.borrowableRead jobs inUse)

/-- The listing forgets a job. -/
def dropQueued (d : Dispatcher) (jobId : JobId) : Dispatcher :=
  { d with queued := d.queued.filter fun entry => entry.jobId ≠ jobId }

end Dispatcher

end Gpuc.Host
