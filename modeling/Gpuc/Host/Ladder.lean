import Gpuc.Host.Queue

/-!
# The stop ladder

A stop request that a runner does not honour is escalated by the dispatcher: `JobProcesses.escalate`
takes the job's own processes down, then sends the runner SIGTERM, then SIGKILLs the runner's group.
Which rungs one call takes is decided by the time since the request alone, and `escalateStop` is what
one pass does about one running job: the request's clock starts at the pass that first sees it, and
the ladder at the end of a patience that depends on the phase.

A pass escalates every running job, and keeps for each its own `Ladder`: the passes of one job are its
`climb`.
-/

set_option autoImplicit false

namespace Gpuc.Host

open Gpuc.Basis

/-- `KILL_GRACE_S`. -/
def killGraceS : Seconds := 15

/-- `SYNC_STOP_PATIENCE_S`. -/
def syncStopPatienceS : Seconds := 1800

/-- What a job is running as, from its state: any of them may be unknown. -/
structure JobProcesses where
  cgroupUnit : Option String := none
  jobPgid : Option Nat := none
  runnerPid : Option Nat := none

/-- `JobProcesses.of`: a state written in another boot names nothing. -/
def JobProcesses.of (now : Boot) (state : JobState) : JobProcesses :=
  if fromAnotherBoot now state.runnerBootId state.runnerInitStart then {}
  else
    { cgroupUnit := state.cgroupUnit
      jobPgid := state.pgid.filter fun pgid => pgid ≠ 0
      runnerPid := state.runnerPid }

/-- What the kernel answers of these processes, each when it is asked. -/
structure Alive where
  /-- The dispatcher's own group. -/
  ownPgid : Nat
  jobGroup : Bool
  runner : Bool
  runnerGroup : Bool

/-- **What one rung of the ladder does.** -/
inductive Rung where
  /-- `kill`: the job's scope is stopped and its group SIGKILLed, whichever of them there is. -/
  | job (unit : Option String) (pgid : Option Nat)
  /-- The runner is sent SIGTERM. -/
  | terminate (pid : Nat)
  /-- The runner's group is sent SIGKILL. -/
  | group (pgid : Nat)
  deriving DecidableEq, Repr

def Rung.isJob : Rung → Bool
  | .job .. => true
  | .terminate _ | .group _ => false

def Rung.isTerminate : Rung → Bool
  | .terminate _ => true
  | .job .. | .group _ => false

def Rung.isGroup : Rung → Bool
  | .group _ => true
  | .job .. | .terminate _ => false

namespace JobProcesses
variable (p : JobProcesses) (alive : Alive)

/-- `kill`: no grace. -/
def kill : Rung :=
  .job (p.cgroupUnit.filter fun unit => unit ≠ "")
    (p.jobPgid.filter fun pgid => 1 < pgid ∧ pgid ≠ alive.ownPgid ∧ alive.jobGroup = true)

/-- The runner, if the state names one that may be signalled. -/
def runner : Option Nat := p.runnerPid.filter fun pid => 1 < pid

/-- **One rung per grace period**, counted from the request. -/
def escalate (elapsedS graceS : Seconds) : List Rung :=
  if elapsedS ≤ graceS then []
  else
    p.kill alive ::
      match p.runner with
      | none => []
      | some runner =>
        (if 2 * graceS < elapsedS ∧ alive.runner = true then [.terminate runner] else [])
          ++ if 3 * graceS < elapsedS ∧ alive.runnerGroup = true then [.group runner] else []

end JobProcesses

/-! ## A pass -/

/-- What a pass finds of one running job: when, its state (a bare one if it cannot be read), in which
boot, and what is alive. -/
structure Pass where
  now : Seconds
  state : JobState
  boot : Boot
  alive : Alive

/-- `_stop_sent` and `_stop_escalated` of one job: since when its request is known, and whether its
escalation has been logged. -/
structure Ladder where
  sent : Option Seconds := none
  escalated : Bool := false

namespace Pass
variable (p : Pass)

/-- How long a runner is left to honour a request. One in its final sync is honouring it. -/
def patience (grace : Seconds) : Seconds :=
  if p.state.phase = some "sync" then syncStopPatienceS else grace

def processes : JobProcesses := .of p.boot p.state

end Pass

/-- **`escalate_stops`, about one job.** -/
def escalateStop (grace : Seconds) (ladder : Ladder) (p : Pass) : Ladder × List Rung :=
  if p.state.intent = none then (ladder, [])
  else
    let sent := ladder.sent.getD p.now
    let elapsed := p.now - sent
    let patience := p.patience grace
    if elapsed ≤ patience then ({ ladder with sent := some sent }, [])
    else
      ({ sent := some sent, escalated := true },
        p.processes.escalate p.alive (elapsed - patience + grace) grace)

/-- `escalate_stops`: every running job by itself. -/
def escalateStops (grace : Seconds) (running : Dict JobId (Ladder × Pass)) :
    Dict JobId (Ladder × List Rung) :=
  running.map fun (ladder, p) => escalateStop grace ladder p

/-- **The passes of one job while it runs**: when each was, and the rungs it took. -/
def climb (grace : Seconds) : Ladder → List Pass → List (Seconds × List Rung)
  | _, [] => []
  | ladder, p :: ps =>
    let (next, rungs) := escalateStop grace ladder p
    (p.now, rungs) :: climb grace next ps

end Gpuc.Host
