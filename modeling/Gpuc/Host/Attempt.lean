import Gpuc.Basis.Effect
import Gpuc.Host.Runner

/-!
# The runner's program

`JobRunner.run` from its claim to the one write that ends the attempt: the phases in order, the loop that
watches one, what a stop, a limit or a signal does to it, and the end, with everything it asks of the
machine an answer of the `World`. An answer may be an exception that nothing here catches, upon which
the process dies, as one does that finds its queue taken over.

A signal is a `Terminated` raised in the middle of whatever the program is doing: here before or after
any of its calls (`ask`), until `ending` is set. Fields of the object are kept through it (`Self`). What
the program logs in the job's log, and the thread of the periodic sync between its start and the final
sync, are not modelled.
-/

set_option autoImplicit false

namespace Gpuc.Host.Attempt

open Gpuc.Basis

inductive Phase where
  | setup
  | preflight
  | main
  deriving DecidableEq

def Phase.text : Phase → String
  | .setup => "setup"
  | .preflight => "preflight"
  | .main => "main"

/-- What a spec says that the runner reads. -/
structure Spec extends JobSpec where
  setup : Option String := none
  command : String
  progressCommand : Option String := none
  progressIntervalS : Seconds := 60

structure Deps where
  pollIntervalS : Seconds := 1 / 2
  sampleIntervalS : Seconds := 30
  estimateRefreshS : Seconds := 30
  preflight : Bool := true
  preflightCommand : String
  syncPreflight : Bool := true

/-- `owner.CHECK_S`. -/
def checkS : Seconds := 5

/-- What the process was started with, and what it read as it started. -/
structure Given where
  spec : Spec
  assigned : List Uuid
  attempt : Nat
  isolation : String
  who : Identity
  deps : Deps
  unit : Phase → Option String := fun _ => none

/-- The fields of a `JobRunner` that change. -/
structure Self where
  killReason : Option String := none
  mainStarted : Bool := false
  ending : Bool := false
  current : Option Nat := none
  estimate : Option ℚ := none
  maxRuntime : Option ℚ := none
  publishedEstimate : Option ℚ := none
  measuredEta : Bool := false
  nextOwnerCheck : Seconds := 0

/-- What the final sync may raise that is caught. -/
inductive SyncProblem where
  | missingOutput
  | syncError
  deriving DecidableEq

def SyncProblem.reason : SyncProblem → String
  | .missingOutput => "no-outputs"
  | .syncError => "sync"

/-- **Everything the runner asks of its machine.** No answer is an exception that it does not catch. -/
structure World (σ : Type) where
  signalled : σ → Bool × σ
  replaced : σ → Option Bool × σ
  now : σ → Option Seconds × σ
  utcNow : σ → Option String × σ
  /-- `utc_in`, where that is a date. -/
  utcIn : ℚ → σ → Option (Option String) × σ
  sleep : Seconds → σ → Option Unit × σ
  /-- The state, read under the job's lock. -/
  lockState : σ → Option JobState × σ
  writeState : JobState → σ → Option Unit × σ
  /-- The state, read without it, where it can be. -/
  readState : σ → Option (Option JobState) × σ
  verifyAssigned : σ → Option (Option String) × σ
  buildEnv : σ → Option Unit × σ
  /-- `checkout.restore`. -/
  restore : σ → Option (Option String) × σ
  ensureJobLayout : σ → Option Unit × σ
  captureOutputBaseline : σ → Option Unit × σ
  spawn : Phase → String → σ → Option Nat × σ
  poll : Nat → σ → Option (Option Int) × σ
  wait : Nat → σ → Option Int × σ
  /-- `proc.wait(timeout=5)`, and nothing for what it raises. -/
  waitBriefly : Nat → σ → Option Unit × σ
  stop : Nat → σ → Option Unit × σ
  kill : Nat → σ → Option Unit × σ
  stopLeftovers : Nat → σ → Option Unit × σ
  /-- A rounded sample, if one could be taken. -/
  sample : σ → Option (Option ℚ) × σ
  progress : String → σ → Option (Except String ℚ) × σ
  preflight : σ → Option (Option String) × σ
  startSync : σ → Option Unit × σ
  finalSync : σ → Option (Option SyncProblem) × σ
  cleanupWorkdir : String → σ → Option Nat × σ
  mirror : σ → Option Bool × σ
  putState : σ → Option Unit × σ
  settleSecrets : σ → Option Unit × σ

/-- What happens, for whoever watches. -/
inductive Event where
  | claimed
  | spawned (phase : Phase)
  | exited (phase : Phase) (code : Int)
  /-- The monitor looks at the job at this time. -/
  | looked (time : Seconds)
  /-- The monitor reads the limit afresh, where it can. -/
  | reread (limit : Option (Option ℚ))
  /-- The attempt is to stop for this reason. -/
  | stops (reason : String)
  | signalled
  | reported (r : Report)
  | finalizing (outcome : Outcome)
  | synced (problem : Option SyncProblem)
  /-- **The write that ends the attempt.** -/
  | ended (written : JobState)

inductive Exn where
  /-- `_Terminated`. -/
  | terminated
  | died

/-- The object and the machine. -/
structure Running (σ : Type) where
  self : Self
  world : σ

abbrev Prog (σ : Type) := Act (Running σ) Event Exn

/-- `JobRunner.__init__`, and a machine. -/
def start {σ : Type} (g : Given) (state : JobState) (world : σ) : Logged (Running σ) Event where
  world :=
    { self :=
        { estimate := state.estimatedRuntimeMin
          maxRuntime := state.maxRuntime (some g.spec.toJobSpec) }
      world }
  log := []

/-! ## Asking -/

section Ask
variable {σ α : Type} (w : World σ)

def get : Prog σ Self := Act.call fun s => (.ok s.self, s)

def modify (f : Self → Self) : Prog σ Unit := Act.call fun s => (.ok (), { s with self := f s.self })

/-- A call, with no handler for signals around it. -/
def plain (f : σ → Option α × σ) : Prog σ α := Act.call fun s =>
  match f s.world with
  | (some a, world) => (.ok a, { s with world })
  | (none, world) => (.error .died, { s with world })

/-- Has a signal come in? -/
def arrived : Prog σ Bool := Act.call fun s =>
  match w.signalled s.world with
  | (yes, world) => (.ok (yes && !s.self.ending), { s with world })

/-- The handler, where one has: once only, and never when the attempt is on its way out. -/
def signals : Prog σ Unit := do
  if ← arrived w then
    modify fun self => { self with ending := true }
    Act.emit .signalled
    Act.raise .terminated
  else return ()

/-- A call with the handler around it. -/
def ask (f : σ → Option α × σ) : Prog σ α := do
  signals w
  let a ← plain f
  signals w
  return a

/-- The same, of a call that is to be seen. -/
def does (f : σ → Option α × σ) (event : α → Event) : Prog σ α := do
  signals w
  let a ← plain f
  Act.emit (event a)
  signals w
  return a

/-- A section under the job's lock. -/
def locked (f : JobState → Option JobState) (event : JobState → Event) :
    Prog σ (Option JobState) := do
  let found ← ask w w.lockState
  match f found with
  | none => return none
  | some written => do
    does w (w.writeState written) fun _ => event written
    return some written

/-- `jobs.update_state`. -/
def updateState (r : Report) : Prog σ Unit := do
  let _ ← locked w (fun state => some (Host.updateState state r.fields)) fun _ => .reported r
  return ()

/-- `queue.stop_requested`. -/
def stopRequested : Prog σ (Option String) := do
  match ← ask w w.readState with
  | none => return none
  | some state => return Host.stopRequested state

/-- `_stand_down_if_replaced`. -/
def standDownIfReplaced (proc : Option Nat) (force : Bool) : Prog σ Unit := do
  let now ← ask w w.now
  let self ← get
  if !force && now < self.nextOwnerCheck then return ()
  else do
    modify fun self => { self with nextOwnerCheck := now + checkS }
    if ← ask w w.replaced then
      match proc with
      | none => Act.raise .died
      | some pid => do
        ask w (w.kill pid)
        Act.raise .died
    else return ()

/-- `_kill`. -/
def kill (pid : Nat) (reason : String) : Prog σ Unit := do
  modify fun self => { self with killReason := some reason }
  Act.emit (.stops reason)
  ask w (w.stop pid)

end Ask

/-! ## One phase -/

section Phases
variable {σ : Type} (w : World σ) (g : Given)

/-- `_reread_live_fields`. -/
def rereadLiveFields : Prog σ Unit := do
  match ← ask w w.readState with
  | none => Act.emit (.reread none)
  | some state => do
    let limit := state.maxRuntime (some g.spec.toJobSpec)
    modify fun self => { self with estimate := state.estimatedRuntimeMin, maxRuntime := limit }
    Act.emit (.reread (some limit))

/-- `_publish_estimated_eta`. -/
def publishEstimatedEta (estimate : Option ℚ) (elapsedS : Seconds) : Prog σ Unit := do
  let self ← get
  if self.measuredEta || estimate = self.publishedEstimate then return ()
  else
    match estimate with
    | none => do
      modify fun self => { self with publishedEstimate := none }
      updateState w (.estimatedEta none)
    | some estimate => do
      match ← ask w (w.utcIn (estimate * 60 - elapsedS)) with
      | none => return ()
      | some eta => do
        modify fun self => { self with publishedEstimate := some estimate }
        updateState w (.estimatedEta (some eta))

/-- The end time that a percentage implies: none at 0, where there is no rate yet. -/
def impliedEta (percent elapsedS : ℚ) : Prog σ (Option String) :=
  if 0 < percent then ask w (w.utcIn (elapsedS * (100 - percent) / percent)) else return none

/-- `_record_progress`. -/
def recordProgress (command : String) (elapsedS : Seconds) : Prog σ Unit := do
  match ← ask w (w.progress command) with
  | .error message => updateState w (.progressFailed message)
  | .ok percent => do
    let eta ← impliedEta w percent elapsedS
    if eta.isSome then modify fun self => { self with measuredEta := true } else pure ()
    updateState w (.progress percent eta)

/-- `UTIL_SAMPLES_KEPT`. -/
def utilSamplesKept : Nat := 40

/-- The report of a sample, beside what the state held. -/
def utilReport (state : JobState) (sample : Option ℚ) : Report :=
  let all := state.utilRecent ++ [sample]
  let recent := all.drop (all.length - utilSamplesKept)
  match sample with
  | none => .utilMissing recent
  | some sample => .util recent (state.utilSum + sample) (state.utilSamples + 1)

/-- `_record_util`. The state is read without the lock. -/
def recordUtil (sample : Option ℚ) : Prog σ Unit := do
  match ← ask w w.readState with
  | none => Act.raise .died
  | some state => updateState w (utilReport state sample)

/-- When the monitor looks at what next. -/
structure Timers where
  nextSample : Seconds
  nextEstimate : Seconds
  nextProgress : Seconds

/-- What a phase is watched for. -/
structure Watched where
  pid : Nat
  phase : Phase
  jobStart : Seconds
  phaseStart : Seconds

def Watched.progressCommand (g : Given) (p : Watched) : Option String :=
  if p.phase = .main then g.spec.progressCommand.filter fun text => text ≠ "" else none

def Watched.recordsUtil (g : Given) (p : Watched) : Bool := p.phase = .main && !g.assigned.isEmpty

/-- Is the job past its limit? -/
def pastLimit (limit : Option ℚ) (elapsedS : Seconds) : Bool :=
  match limit with
  | none => false
  | some minutes => minutes * 60 ≤ elapsedS

/-- Stop the phase, and wait for it. -/
def stopPhase (p : Watched) (reason : String) : Prog σ (Int ⊕ Timers) := do
  kill w p.pid reason
  return .inl (← ask w (w.wait p.pid))

/-- The estimate and the limit, when they are due. -/
def refreshes (p : Watched) (t : Seconds) (timers : Timers) : Prog σ Timers := do
  if timers.nextEstimate ≤ t then do
    rereadLiveFields w g
    let self ← get
    publishEstimatedEta w self.estimate (t - p.jobStart)
    return { timers with nextEstimate := t + g.deps.estimateRefreshS }
  else return timers

/-- The progress, when it is due. -/
def polls (p : Watched) (t : Seconds) (timers : Timers) : Prog σ Timers := do
  match p.progressCommand g with
  | none => return timers
  | some command =>
    if timers.nextProgress ≤ t then do
      recordProgress w command (t - p.phaseStart)
      return { timers with nextProgress := t + g.spec.progressIntervalS }
    else return timers

/-- A sample, when one is due. -/
def samples (p : Watched) (t : Seconds) (timers : Timers) : Prog σ Timers := do
  if p.recordsUtil g && timers.nextSample ≤ t then do
    let sample ← ask w w.sample
    recordUtil w sample
    return { timers with nextSample := t + g.deps.sampleIntervalS }
  else return timers

/-- A turn of the loop in `_monitor`. -/
def monitorTurn (p : Watched) (timers : Timers) : Prog σ (Int ⊕ Timers) := do
  match ← ask w (w.poll p.pid) with
  | some _ => return .inl (← ask w (w.wait p.pid))
  | none => do
    ask w (w.sleep g.deps.pollIntervalS)
    let t ← does w w.now .looked
    standDownIfReplaced w (some p.pid) false
    match ← stopRequested w with
    | some reason => stopPhase w p reason
    | none => do
      let timers ← refreshes w g p t timers
      let self ← get
      if pastLimit self.maxRuntime (t - p.jobStart) then stopPhase w p "timeout"
      else do
        let timers ← polls w g p t timers
        let timers ← samples w g p t timers
        return .inr timers

/-- **`_monitor`.** -/
def monitor (fuel : Nat) (pid : Nat) (phase : Phase) (jobStart : Seconds) : Prog σ Int := do
  updateState w (.phaseStarted phase.text pid (g.unit phase))
  let phaseStart ← ask w w.now
  let self ← get
  publishEstimatedEta w self.estimate (phaseStart - jobStart)
  Act.forever (monitorTurn w g { pid, phase, jobStart, phaseStart }) fuel
    { nextSample := phaseStart + g.deps.sampleIntervalS
      nextEstimate := phaseStart + g.deps.estimateRefreshS
      nextProgress := phaseStart + g.spec.progressIntervalS }

/-- The phase is over, and its group is nobody's. -/
def forgets : Prog σ Unit := do
  modify fun self => { self with current := none }
  updateState w .phaseEnded

/-- What follows a phase. -/
def phaseEnds (pid : Nat) : Prog σ Unit := do
  let self ← get
  if self.killReason.isNone then do
    ask w (w.stopLeftovers pid)
    forgets w
  else forgets w

/-- **`_run_phase`.** -/
def runPhase (fuel : Nat) (phase : Phase) (command : String) (jobStart : Seconds) : Prog σ Int := do
  let pid ← does w (w.spawn phase command) fun _ => .spawned phase
  modify fun self => { self with current := some pid }
  let code ← monitor w g fuel pid phase jobStart
  Act.emit (.exited phase code)
  phaseEnds w pid
  return code

end Phases

/-! ## The end of an attempt -/

section End
variable {σ : Type} (w : World σ)

/-- `_coming_back`. -/
def comingBack (outcome : Outcome) : Prog σ Bool := do
  if outcome.reason = some "preempted" then
    match ← ask w w.readState with
    | none => return false
    | some state => return isPreempted state
  else return false

/-- The outcome that is written: `cancelled` where a cancel overrode the preempt. -/
def overruled (outcome : Outcome) : Prog σ Outcome := do
  if outcome.reason = some "preempted" then
    match ← ask w w.readState with
    | none => return outcome
    | some state => return endedAs outcome state
  else return outcome

/-- The compare-and-set of `_end`. -/
def finishes (outcome : Outcome) (problems : List String) : Prog σ (Option String) := do
  let outcome ← overruled w outcome
  let now ← ask w w.utcNow
  let written ← locked w (fun state => finish state outcome now .running false [.problems problems])
    .ended
  return written.map fun _ => outcome.status.text

/-- **`_end`**: the status it wrote. -/
def ends (outcome : Outcome) (coming : Bool) (problems : List String) : Prog σ (Option String) := do
  standDownIfReplaced w none true
  if coming then
    match ← locked w (fun state => nextAttempt state outcome.ran) .ended with
    | some _ => return some "queued"
    | none => finishes w outcome problems
  else finishes w outcome problems

/-- The final sync, for an attempt that may have results, and what it makes of the outcome. -/
def syncs (outcome : Outcome) : Prog σ (Outcome × List String) := do
  if outcome.ran then
    match ← does w w.finalSync .synced with
    | none => return (outcome, [])
    | some problem => return blame outcome problem.reason []
  else return (outcome, [])

/-- The mirror's copy of the state, once more. -/
def putsState (mirror : Bool) (written : Option String) : Prog σ Unit :=
  if mirror && written.isSome then ask w w.putState else return ()

/-- `_settle_secrets`. -/
def settlesSecrets (written : Option String) : Prog σ Unit :=
  if written = some "queued" then return () else ask w w.settleSecrets

/-- **`_finalize`.** -/
def finalize (outcome : Outcome) : Prog σ Int := do
  standDownIfReplaced w none true
  modify fun self => { self with ending := true }
  Act.emit (.finalizing outcome)
  updateState w .finalSync
  let (outcome, problems) ← syncs w outcome
  let coming ← comingBack w outcome
  let bytes ← ask w (w.cleanupWorkdir (if coming then "queued" else outcome.status.text))
  updateState w (.workdirMeasured bytes)
  let mirror ← ask w w.mirror
  let written ← ends w outcome coming problems
  putsState w mirror written
  settlesSecrets w written
  return outcome.exitCode

/-- `_finalize` of what `_classify` says. -/
def finalizeClassified (code : Int) (failureReason : Option String) : Prog σ Int := do
  let self ← get
  finalize w (classify self.killReason code failureReason self.mainStarted)

/-- `_stopped_before`. -/
def stoppedBefore : Prog σ (Option Int) := do
  match ← stopRequested w with
  | none => return none
  | some reason => do
    modify fun self => { self with killReason := some reason }
    Act.emit (.stops reason)
    return some (← finalizeClassified w terminatedExitCode none)

/-- The phase that was left is stopped. -/
def killsCurrent : Prog σ Unit := do
  let self ← get
  match self.current with
  | none => return ()
  | some pid => do
    kill w pid "terminated"
    ask w (w.waitBriefly pid)

/-- **`_finalize_terminated`.** -/
def finalizeTerminated : Prog σ Int := do
  killsCurrent w
  let requested ← stopRequested w
  let self ← get
  finalize w (terminatedOutcome requested self.mainStarted)

end End

/-! ## The attempt -/

section Run
variable {σ : Type} (w : World σ) (g : Given) (fuel : Nat)

def failedBeforeMain (reason : String) : Outcome :=
  { status := .failed, reason := some reason, exitCode := 1, ran := false }

/-- `_capture_output_baseline`: nothing is captured for a job that declares no outputs. -/
def captureOutputBaseline : Prog σ Unit :=
  if g.spec.outputs.isEmpty then return () else ask w w.captureOutputBaseline

/-- A phase before `main`: what ends the attempt, if it does. -/
def prepares (phase : Phase) (command : String) (failureReason : String) (jobStart : Seconds) :
    Prog σ (Option Int) := do
  match ← stoppedBefore w with
  | some code => return some code
  | none => do
    let code ← runPhase w g fuel phase command jobStart
    let self ← get
    if code ≠ 0 || self.killReason.isSome then
      return some (← finalizeClassified w code (some failureReason))
    else return none

/-- `setup`, where the spec has one; what asks whether to stop asks it all the same. -/
def runSetup (jobStart : Seconds) : Prog σ (Option Int) := do
  match g.spec.setup.filter fun text => text ≠ "" with
  | none => stoppedBefore w
  | some command => prepares w g fuel .setup command "setup" jobStart

def runPreflight (jobStart : Seconds) : Prog σ (Option Int) := do
  if g.deps.preflight && !g.assigned.isEmpty then
    prepares w g fuel .preflight g.deps.preflightCommand "gpu-preflight" jobStart
  else return none

/-- `_sync_preflight`. -/
def syncPreflight : Prog σ (Option String) := do
  if g.deps.syncPreflight then do
    updateState w .syncPreflight
    ask w w.preflight
  else return none

/-- `main`, and the end. -/
def runMain (jobStart : Seconds) : Prog σ Int := do
  match ← stoppedBefore w with
  | some code => return code
  | none => do
    modify fun self => { self with mainStarted := true }
    updateState w .mainStarted
    ask w w.startSync
    let code ← runPhase w g fuel .main g.spec.command jobStart
    finalizeClassified w code none

/-- **`_run_phases`.** -/
def runPhases (jobStart : Seconds) (gpuError : Option String) : Prog σ Int := do
  match gpuError with
  | some _ => finalize w (failedBeforeMain "gpu-assert")
  | none => do
    captureOutputBaseline w g
    match ← runSetup w g fuel jobStart with
    | some code => return code
    | none =>
      match ← runPreflight w g fuel jobStart with
      | some code => return code
      | none =>
        match ← syncPreflight w g with
        | some _ => finalize w (failedBeforeMain "sync-preflight")
        | none => runMain w g fuel jobStart

/-- `_claim`. No handler is around it yet. -/
def claims : Prog σ Bool := do
  let now ← plain w.utcNow
  let found ← plain w.lockState
  match claim found g.attempt (some g.spec.toJobSpec) (claimFields g.assigned g.isolation now g.who) with
  | none => return false
  | some written => do
    plain (w.writeState written)
    Act.emit .claimed
    return true

/-- What runs inside of the handlers. -/
def runClaimed (jobStart : Seconds) (gpuError : Option String) : Prog σ Int := do
  match ← ask w w.restore with
  | some _ => finalize w (failedBeforeMain "checkout-lost")
  | none => do
    ask w w.ensureJobLayout
    runPhases w g fuel jobStart gpuError

/-- **`run`.** -/
def run : Prog σ Int := do
  if ← plain w.replaced then return 0
  else if ← claims w g then do
    let jobStart ← plain w.now
    let gpuError ← plain w.verifyAssigned
    plain w.buildEnv
    match ← Act.attempt (runClaimed w g fuel jobStart gpuError) with
    | .ok code => return code
    | .error .terminated => finalizeTerminated w
    | .error .died => Act.raise .died
  else return 0

end Run

end Gpuc.Host.Attempt
