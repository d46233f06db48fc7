import Gpuc.Host.Queue

/-!
# The runner's own writes

A runner claims the job it was started for, runs its phases, and ends the attempt: it decides an
outcome, reads whether the attempt is coming back, and writes the job queued again or ended. Between
two of these the state may change under it. The pieces are here one by one, each a function of what it
reads at the time; `Gpuc.Laws.Job` is about their interleavings.
-/

set_option autoImplicit false

namespace Gpuc.Host

/-- What makes a process provably the same one later. -/
structure Identity where
  pid : Nat
  bootId : Option String := none
  initStart : Option String := none
  starttime : Option String := none
  deriving DecidableEq, Repr

/-- The fields of `JobRunner._claim`: the assignment the dispatcher decided, and who runs the job. -/
def claimFields (assigned : List Uuid) (isolation now : String) (who : Identity) : List Field :=
  [.status .running, .gpus assigned, .phase (some "setup"), .startedAt (some now),
    .isolation (some isolation), .runnerPid (some who.pid), .runnerBootId who.bootId,
    .runnerInitStart who.initStart, .runnerStarttime who.starttime]

/-- `TERMINATED_EXIT_CODE`. -/
def terminatedExitCode : Int := 143

/-- `_classify`: the outcome of the phase that just ended, or that a stop landed before. -/
def classify (killReason : Option String) (code : Int) (failureReason : Option String)
    (ran : Bool) : Outcome :=
  match killReason with
  | some reason =>
    if reason = "cancelled" then
      { status := .cancelled, reason := some "cancelled", exitCode := code, ran := ran }
    else { status := .failed, reason := some reason, exitCode := code, ran := ran }
  | none =>
    if code = 0 then { status := .succeeded, reason := none, exitCode := 0, ran := ran }
    else
      { status := .failed, reason := some (failureReason.getD s!"exit {code}"), exitCode := code,
        ran := ran }

/-- `_finalize_terminated`: the runner itself was signalled, and ends the attempt as whatever was asked
of the job. -/
def terminatedOutcome (requested : Option String) (ran : Bool) : Outcome :=
  if requested = some "cancelled" then
    { status := .cancelled, reason := some "cancelled", exitCode := terminatedExitCode, ran := ran }
  else if requested = some "preempted" then
    { status := .failed, reason := some "preempted", exitCode := terminatedExitCode, ran := ran }
  else
    { status := .failed, reason := some "terminated", exitCode := terminatedExitCode, ran := ran }

/-- `_blame`: a job that succeeded and then lost its outputs failed for that; one that was over for a
reason of its own keeps it, and notes the problem beside it. -/
def blame (outcome : Outcome) (syncReason : String) (problems : List String) :
    Outcome × List String :=
  if outcome.status = .succeeded then
    ({ status := .failed, reason := some syncReason, exitCode := 1 }, problems)
  else if outcome.reason = none then ({ outcome with reason := some syncReason }, problems)
  else (outcome, problems ++ [syncReason])

/-- `_coming_back`: is this attempt going back in the queue rather than ending? -/
def comingBack (outcome : Outcome) (state : JobState) : Bool :=
  outcome.reason = some "preempted" && isPreempted state

/-- The outcome `_end` writes for an attempt that is not queued again: `cancelled` when a cancel
overrode its preempt. -/
def endedAs (outcome : Outcome) (state : JobState) : Outcome :=
  if outcome.reason = some "preempted" ∧ stopRequested state = some "cancelled" then
    { outcome with status := .cancelled, reason := some "cancelled", isFinished := Eq.refl true }
  else outcome

end Gpuc.Host
