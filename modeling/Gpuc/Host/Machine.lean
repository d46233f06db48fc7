import Gpuc.Basis.Run
import Gpuc.Host.Dispatcher
import Gpuc.Host.Settable

/-!
# The host

One machine with its jobs on disk, the runner processes that are alive, and at most one dispatcher.
A step is one section under a job's lock, one read that a later decision rests on, or one process
coming or going; between any two of a process's steps every other process may take its own. States are
replaced whole, so a read finds one. A pid names one process for good: what makes that so on a real
host is recorded with it (`Identity`).

A runner may exit at any point, for any reason: a failed claim, its last act done, a signal of
`escalate_stops`, a crash. A dispatcher may be killed at any point. A reboot takes all of them and
leaves the disk. The machine has one owner throughout, so `_stand_down_if_replaced` answers no.
-/

set_option autoImplicit false

namespace Gpuc.Host

open Gpuc.Basis

/-! ## The runner -/

/-- Where a runner stands. -/
inductive RunnerStage where
  | started
  /-- It has claimed the job, and runs its phases. -/
  | running (killReason : Option String) (mainStarted : Bool)
  /-- `_finalize`, before `_coming_back`. -/
  | finalizing (outcome : Outcome)
  /-- Before `_end`. -/
  | settled (outcome : Outcome) (problems : List String) (comingBack : Bool)
  /-- `_end`, the job not having been queued again. -/
  | ending (outcome : Outcome) (problems : List String)
  /-- Before its `finish`. -/
  | writing (outcome : Outcome) (problems : List String)
  /-- Its last write is made; it still has its mirror and its secrets to see to. -/
  | done

/-- A runner process, and what it was spawned with. -/
structure RunnerProcess where
  who : Identity
  /-- The dispatcher that spawned it. -/
  parent : Nat
  jobId : JobId
  attempt : Nat
  assigned : List Uuid
  stage : RunnerStage

/-- What keeps a job from running at all, past its claim. -/
inductive CannotRun where
  | checkoutLost
  | gpuAssert
  | syncPreflight

def CannotRun.reason : CannotRun → String
  | .checkoutLost => "checkout-lost"
  | .gpuAssert => "gpu-assert"
  | .syncPreflight => "sync-preflight"

/-- A step of a runner, with what the machine answers it. -/
inductive RunnerAct where
  | claims (isolation now : String)
  | mainStarts
  /-- It asks whether it should stop, between phases or while one runs. -/
  | polls
  | timesOut
  /-- The phase that was running ends the attempt. -/
  | phaseEnds (code : Int) (failureReason : Option String)
  | cannotRun (why : CannotRun)
  | terminated
  /-- The final sync is over, with what it ended in; the runner reads whether it is coming back. -/
  | settles (syncReason : Option String)
  /-- `next_attempt`, if it is. -/
  | requeues
  /-- It reads whether a cancel overrode the preempt. -/
  | overrules
  | finishes (now : String)

/-- **A runner's step**: the job's state after it, and where the runner stands, or none if it exits. -/
def RunnerProcess.step (r : RunnerProcess) (dir : JobDir) :
    RunnerAct → Option (JobState × Option RunnerStage)
  | .claims isolation now =>
    match r.stage with
    | .started =>
      match claim dir.state r.attempt dir.spec (claimFields r.assigned isolation now r.who) with
      | some written => some (written, some (.running none false))
      | none => some (dir.state, none)
    | _ => none
  | .mainStarts =>
    match r.stage with
    | .running none _ =>
      some (updateState dir.state Report.mainStarted.fields, some (.running none true))
    | _ => none
  | .polls =>
    match r.stage with
    | .running none mainStarted =>
      some (dir.state, some (.running (stopRequested dir.state) mainStarted))
    | _ => none
  | .timesOut =>
    match r.stage with
    | .running none mainStarted => some (dir.state, some (.running (some "timeout") mainStarted))
    | _ => none
  | .phaseEnds code failureReason =>
    match r.stage with
    | .running killReason mainStarted =>
      some (dir.state, some (.finalizing (classify killReason code failureReason mainStarted)))
    | _ => none
  | .cannotRun why =>
    match r.stage with
    | .running _ _ =>
      some (dir.state, some (.finalizing
        { status := .failed, reason := some why.reason, exitCode := 1, ran := false }))
    | _ => none
  | .terminated =>
    match r.stage with
    | .running _ mainStarted =>
      some (dir.state, some (.finalizing (terminatedOutcome (stopRequested dir.state) mainStarted)))
    | _ => none
  | .settles syncReason =>
    match r.stage with
    | .finalizing outcome =>
      let (outcome, problems) := match syncReason with
        | some reason => if outcome.ran then blame outcome reason [] else (outcome, [])
        | none => (outcome, [])
      some (dir.state, some (.settled outcome problems (comingBack outcome dir.state)))
    | _ => none
  | .requeues =>
    match r.stage with
    | .settled outcome problems true =>
      match nextAttempt dir.state outcome.ran with
      | some written => some (written, some .done)
      | none => some (dir.state, some (.ending outcome problems))
    | .settled outcome problems false => some (dir.state, some (.ending outcome problems))
    | _ => none
  | .overrules =>
    match r.stage with
    | .ending outcome problems =>
      some (dir.state, some (.writing (endedAs outcome dir.state) problems))
    | _ => none
  | .finishes now =>
    match r.stage with
    | .writing outcome problems =>
      match finish dir.state outcome now .running false [.problems problems] with
      | some written => some (written, some .done)
      | none => some (dir.state, some .done)
    | _ => none

/-! ## The host -/

/-- **A host between two steps.** -/
structure Host where
  boot : Boot
  jobs : Jobs := .empty
  runners : List RunnerProcess := []
  dispatcher : Option Dispatcher := none
  /-- The draining marker is there. -/
  draining : Bool := false
  nextPid : Nat := 1

/-- A write of a person's, or one that keeps the life cycle whoever makes it. -/
inductive Command where
  | cancel (now : String)
  | preempt (priority : Option Int)
  | apply (shown : Shown) (elapsed : Option ℚ) (patch : List Setting)
  | report (r : Report)
  | recordUpload (dest : String) (output okAt error : Option String)
  | clearOutputUploads

/-- A step of the dispatcher, with what the machine answers it. -/
inductive DispatcherAct where
  | adopts
  | requeues
  | begins (config : HostConfig) (table : Option (List Gpu))
  | reaps
  | settles
  /-- It makes the `finish` it decided on. -/
  | finishes (now : String)
  | drops (now : String)
  | plans (inUse : List Uuid) (now : Seconds)
  | acts (now : String)
  | spawns (starttime : Option String)
  | cannotSpawn
  | preempts
  | checks (now : Seconds)
  | marks
  | retries
  | mirrors
  | terminates (succeeds : Bool) (now : Seconds)

inductive Label where
  | enqueue (spec : JobSpec)
  | command (jobId : JobId) (c : Command)
  | runner (pid : Nat) (act : RunnerAct)
  | exits (pid : Nat)
  | starts
  | killed
  | dispatcher (act : DispatcherAct)
  | reboots (boot : Boot)

namespace Host

/-- The processes whose identity a dispatcher can look up. -/
def processes (h : Host) : List Identity := h.runners.map RunnerProcess.who

/-- One job's state is replaced. -/
def write (h : Host) (jobId : JobId) (dir : JobDir) (state : JobState) : Host :=
  { h with jobs := h.jobs.set jobId { dir with state := state } }

/-- A compare-and-set on one job, which writes nothing when it finds something else. -/
def change (h : Host) (jobId : JobId) (f : JobState → Option JobState) : Host :=
  match h.jobs.get? jobId with
  | none => h
  | some dir =>
    match f dir.state with
    | none => h
    | some written => h.write jobId dir written

/-- The dispatcher goes on. -/
def goes (h : Host) (d : Dispatcher) : Host := { h with dispatcher := some d }

/-- What a command makes of a job. -/
def runCommand (h : Host) (jobId : JobId) : Command → JobState → Option JobState
  | .cancel now, state => some (cancel state now).2
  | .preempt priority, state => (preempt h.draining h.jobs jobId priority state).toOption
  | .apply shown elapsed patch, state => (Host.apply shown jobId elapsed patch state).toOption
  | .report r, state => some (updateState state r.fields)
  | .recordUpload dest output okAt error, state => some (recordUpload state dest output okAt error)
  | .clearOutputUploads, state => some (clearOutputUploads state)

end Host

/-! ## The dispatcher -/

namespace Dispatcher

/-- The dispatcher stands there now. -/
def goTo (d : Dispatcher) (stage : Stage) : Dispatcher := { d with stage := stage }

/-- `adopt_orphans`, one job. -/
def adopts (h : Host) (d : Dispatcher) : Option Host :=
  match d.stage with
  | .loop (.adopting []) => some (h.goes (d.goTo .idle))
  | .loop (.adopting (jobId :: todo)) =>
    let next := Loop.adopting todo
    match h.jobs.get? jobId with
    | none => some (h.goes (d.goTo (.loop next)))
    | some ⟨_, state⟩ =>
      if state.status ≠ .running ∨ jobId ∈ d.running.keys then some (h.goes (d.goTo (.loop next)))
      else if fromAnotherBoot h.boot state.runnerBootId state.runnerInitStart then
        some (h.goes (d.goTo (.requeueing jobId todo)))
      else if state.runnerAlive h.boot h.processes then
        some (h.goes
          { d with running := d.running.set jobId (.adopted state), stage := .loop next })
      else some (h.goes (d.goTo (.ending jobId runnerDied .running true next)))
  | _ => none

/-- The first section of `requeue_after_restart`. -/
def requeues (h : Host) (d : Dispatcher) : Option Host :=
  match d.stage with
  | .requeueing jobId todo =>
    let next := Loop.adopting todo
    match h.jobs.get? jobId with
    | none => some (h.goes (d.goTo (.loop next)))
    | some dir =>
      match requeueAfterRestart dir.state h.boot with
      | .leaves => some (h.goes (d.goTo (.loop next)))
      | .again written => some ((h.write jobId dir written).goes (d.goTo (.loop next)))
      | .ends outcome => some (h.goes (d.goTo (.ending jobId outcome .running true next)))
  | _ => none

/-- A pass begins: the configuration and the cards are read once. -/
def begins (h : Host) (d : Dispatcher) (config : HostConfig) (table : Option (List Gpu)) :
    Option Host :=
  match d.stage with
  | .idle =>
    some (h.goes
      { d with
        config := config
        cards := resolve config.gpus (table.getD []) config.sharedGpus
        tableError := table.isNone
        claimed := none
        borrowable := none
        stage := .loop (.reaping d.running.keys) })
  | _ => none

/-- `reap`, one entry; after the last, the queue is listed, unless the host is going away. -/
def reaps (h : Host) (d : Dispatcher) : Option Host :=
  match d.stage with
  | .loop (.reaping []) =>
    if h.draining then some (h.goes (d.goTo .checking))
    else
      let listed := { d with queued := listQueued h.jobs }
      some (h.goes (listed.goTo (.loop (.dropping (listed.badSpecs h.jobs) .launches))))
  | .loop (.reaping (jobId :: todo)) =>
    match d.running.get? jobId with
    | none => some (h.goes (d.goTo (.loop (.reaping todo))))
    | some entry =>
      if entry.alive h.boot h.processes then some (h.goes (d.goTo (.loop (.reaping todo))))
      else
        some (h.goes
          { d with
            running := d.running.erase jobId
            stage := .settling jobId entry todo })
  | _ => none

/-- `_settle`: what became of a job whose runner is gone. -/
def settles (h : Host) (d : Dispatcher) : Option Host :=
  match d.stage with
  | .settling jobId entry todo =>
    let next := Loop.reaping todo
    match h.jobs.get? jobId with
    | none => some (h.goes (d.goTo (.loop next)))
    | some ⟨_, state⟩ =>
      if state.finished then some (h.goes (d.goTo (.loop next)))
      else if state.status = .queued then
        if entry.attempt < state.attempt then some (h.goes (d.goTo (.loop next)))
        else some (h.goes (d.goTo (.ending jobId runnerDied .queued true next)))
      else
        if state.runnerPid ≠ entry.runner ∧ state.runnerAlive h.boot h.processes = true then
          some (h.goes
            { d with running := d.running.set jobId (.adopted state), stage := .loop next })
        else some (h.goes (d.goTo (.ending jobId runnerDied .running true next)))
  | _ => none

/-- The write of an outcome, and what the listing becomes: a job failed in the queue leaves it. -/
def failIn (h : Host) (d : Dispatcher) (jobId : JobId) (outcome : Outcome) (expect : Expect)
    (forget : Bool) (now : String) (next : Loop) : Host :=
  let written (state : JobState) := finish state outcome now expect.status forget
  let left :=
    if ((h.jobs.get? jobId).bind fun dir => written dir.state).isSome ∧ forget = false then
      d.dropQueued jobId
    else d
  (h.change jobId written).goes (left.goTo (.loop next))

/-- The `finish` it decided on. -/
def finishes (h : Host) (d : Dispatcher) (now : String) : Option Host :=
  match d.stage with
  | .ending jobId outcome expect forget next =>
    some (d.failIn h jobId outcome expect forget now next)
  | _ => none

/-- `_requests`, one job whose spec cannot be read. -/
def drops (h : Host) (d : Dispatcher) (now : String) : Option Host :=
  match d.stage with
  | .loop (.dropping (jobId :: todo) walk) =>
    some (d.failIn h jobId (failedQueued "bad-spec") .queued false now (.dropping todo walk))
  | _ => none

/-- One walk along the queue. -/
def plans (stamp : String → Option Seconds) (h : Host) (d : Dispatcher) (inUse : List Uuid)
    (now : Seconds) : Option Host :=
  let read : Dispatcher :=
    { d with
      claimed := some (d.claimedNow h.jobs)
      borrowable := d.keptReading stamp h.jobs inUse }
  match d.stage with
  | .loop (.dropping [] .launches) =>
    some (h.goes
      { read with
        unreadableSince := d.unreadable now
        stage := .loop (.launching (d.launchReady stamp h.jobs inUse now)) })
  | .loop (.dropping [] .preempts) =>
    some (h.goes (read.goTo (.loop (.preempting (d.preemptForWaiting stamp h.jobs inUse)))))
  | _ => none

/-- `launch_ready`, one decision. A launch reads the claims on disk again. -/
def acts (stamp : String → Option Seconds) (h : Host) (d : Dispatcher) (now : String) :
    Option Host :=
  match d.stage with
  | .loop (.launching []) =>
    if d.autoPreemptable stamp h.jobs = [] then some (h.goes (d.goTo .checking))
    else some (h.goes (d.goTo (.loop (.dropping (d.badSpecs h.jobs) .preempts))))
  | .loop (.launching (.fail jobId reason :: todo)) =>
    some (d.failIn h jobId (failedQueued reason) .queued false now (.launching todo))
  | .loop (.launching (.launch jobId gpus attempt :: todo)) =>
    let reread := { d with claimed := some (claimedGpus h.jobs) }
    if ∃ uuid ∈ gpus, uuid ∈ claimedGpus h.jobs then
      some (h.goes (reread.goTo (.loop (.launching todo))))
    else some (h.goes (reread.goTo (.spawning jobId gpus attempt todo)))
  | _ => none

/-- The runner starts, and its cards count as taken from now. -/
def spawns (h : Host) (d : Dispatcher) (starttime : Option String) : Option Host :=
  match d.stage with
  | .spawning jobId gpus attempt todo =>
    let runner : RunnerProcess :=
      { who := ⟨h.nextPid, h.boot.bootId, h.boot.initStart, starttime⟩
        parent := d.pid
        jobId := jobId
        attempt := attempt
        assigned := gpus
        stage := .started }
    some
      { h with
        runners := h.runners ++ [runner]
        nextPid := h.nextPid + 1
        dispatcher := some
          { d with
            running := d.running.set jobId
              { gpus := gpus, attempt := attempt, popen := some h.nextPid }
            stage := .loop (.launching todo) } }
  | _ => none

def cannotSpawn (h : Host) (d : Dispatcher) : Option Host :=
  match d.stage with
  | .spawning jobId _ _ todo =>
    some (h.goes (d.goTo
      (.ending jobId (failedQueued "spawn-failed") .queued false (.launching todo))))
  | _ => none

/-- `_preempt_for`: one refusal, and the rest are not stopped either. -/
def preempts (h : Host) (d : Dispatcher) : Option Host :=
  match d.stage with
  | .loop (.preempting []) => some (h.goes (d.goTo .checking))
  | .loop (.preempting (jobId :: todo)) =>
    match h.jobs.get? jobId with
    | none => some (h.goes (d.goTo (.loop (.preempting []))))
    | some dir =>
      match preempt h.draining h.jobs jobId none dir.state with
      | .error _ => some (h.goes (d.goTo (.loop (.preempting []))))
      | .ok written => some ((h.write jobId dir written).goes (d.goTo (.loop (.preempting todo))))
  | _ => none

/-- **Has the host been idle for long enough?** The queue is listed afresh. -/
def checks (h : Host) (d : Dispatcher) (now : Seconds) : Option Host :=
  match d.stage with
  | .checking =>
    if d.config.ephemeral = false ∨ d.terminateRetryAt.any (fun at' => now < at') = true then
      some (h.goes (d.goTo .idle))
    else if d.running.keys ≠ [] ∨ listQueued h.jobs ≠ [] then
      some (h.goes { d with queueEmptySince := none, stage := .idle })
    else
      let since := d.queueEmptySince.getD now
      some (h.goes
        { d with
          queueEmptySince := some since
          stage := if d.config.idleMinutes * 60 ≤ now - since then .marking else .idle })
  | _ => none

def marks (h : Host) (d : Dispatcher) : Option Host :=
  match d.stage with
  | .marking => some ({ h with draining := true }.goes (d.goTo .retrying))
  | _ => none

def retries (h : Host) (d : Dispatcher) : Option Host :=
  match d.stage with
  | .retrying => some (h.goes (d.goTo .mirroring))
  | _ => none

def mirrors (h : Host) (d : Dispatcher) : Option Host :=
  match d.stage with
  | .mirroring => some (h.goes (d.goTo .terminating))
  | _ => none

/-- `TERMINATE_RETRY_S`. -/
def terminateRetryS : Seconds := 600

/-- **The terminate call.** One that fails leaves the host up and dispatching. -/
def terminates (h : Host) (d : Dispatcher) (succeeds : Bool) (now : Seconds) : Option Host :=
  match d.stage with
  | .terminating =>
    if succeeds then some { h with dispatcher := none }
    else
      some ({ h with draining := false }.goes
        { d with terminateRetryAt := some (now + terminateRetryS), stage := .idle })
  | _ => none

/-- **A step of the dispatcher.** -/
def step (stamp : String → Option Seconds) (h : Host) (d : Dispatcher) :
    DispatcherAct → Option Host
  | .adopts => d.adopts h
  | .requeues => d.requeues h
  | .begins config table => d.begins h config table
  | .reaps => d.reaps h
  | .settles => d.settles h
  | .finishes now => d.finishes h now
  | .drops now => d.drops h now
  | .plans inUse now => d.plans stamp h inUse now
  | .acts now => d.acts stamp h now
  | .spawns starttime => d.spawns h starttime
  | .cannotSpawn => d.cannotSpawn h
  | .preempts => d.preempts h
  | .checks now => d.checks h now
  | .marks => d.marks h
  | .retries => d.retries h
  | .mirrors => d.mirrors h
  | .terminates succeeds now => d.terminates h succeeds now

end Dispatcher

/-! ## The machine -/

namespace Host

/-- A runner's step, on the host. -/
def runnerStep (h : Host) (pid : Nat) (act : RunnerAct) : Option Host := do
  let r ← h.runners.find? fun r => r.who.pid = pid
  let dir ← h.jobs.get? r.jobId
  let (state, stage) ← r.step dir act
  let others := h.runners.filter fun r => r.who.pid ≠ pid
  pure
    { h.write r.jobId dir state with
      runners := match stage with
        | some stage => others ++ [{ r with stage := stage }]
        | none => others }

/-- **A step of the host.** -/
def step (stamp : String → Option Seconds) (h : Host) : Label → Option Host
  | .enqueue spec =>
    if spec.jobId ∈ h.jobs.keys then none
    else some { h with jobs := h.jobs.set spec.jobId ⟨some spec, .initial spec⟩ }
  | .command jobId c => some (h.change jobId (h.runCommand jobId c))
  | .runner pid act => h.runnerStep pid act
  | .exits pid => some { h with runners := h.runners.filter fun r => r.who.pid ≠ pid }
  | .starts =>
    if h.dispatcher.isSome then none
    else
      some
        { h with
          nextPid := h.nextPid + 1
          dispatcher := some { pid := h.nextPid, stage := .loop (.adopting (listJobIds h.jobs)) } }
  | .killed => some { h with dispatcher := none }
  | .dispatcher act => h.dispatcher.bind fun d => d.step stamp h act
  | .reboots boot => some { h with boot := boot, runners := [], dispatcher := none }

/-- A host that has taken no job yet. -/
def fresh (boot : Boot) : Host where
  boot := boot

/-- Steps in any order. -/
def machine (stamp : String → Option Seconds) : Machine Host Label where
  step := Host.step stamp

end Host

end Gpuc.Host
