import Gpuc.Basis.Run
import Gpuc.Control.HostDocument
import Gpuc.Host.Dispatcher

/-!
# The dispatcher's lock

`DispatcherLock`: one file with a `flock` on it, whose text says who took the lock, and one whose time
says when the holder last beat. Any number of dispatchers may be starting at once, each somewhere in
`acquire` (`Place`); each of their steps is one read or one write of what they share, and between any
two others take theirs, time passes, and processes die and are started.

Where the body's process is looked up and then signalled is one step here, and a pid that has been in
use comes back with another start time. A process sent a SIGKILL takes no more steps, but may be there
for a while; a SIGTERM does nothing by itself, as any process may die at any time.
-/

set_option autoImplicit false

namespace Gpuc.Host.DispatcherLock

open Gpuc.Basis
open Gpuc.Control (isOtherBuild)

/-- `HEARTBEAT_STALE_S`. -/
def heartbeatStaleS : Seconds := 30

/-- **Who holds the lock**, in enough detail to tell them apart from a pid that was reused. Of a text
that is none of a dispatcher's, nothing is known. -/
structure LockBody where
  pid : Option Nat := none
  pgid : Option Nat := none
  starttime : Option String := none
  bootId : Option String := none
  initStart : Option String := none
  pkgCommit : Option String := none

/-- What is one process's only. -/
structure Name where
  pid : Nat
  starttime : String
  deriving DecidableEq

/-- **Where a process stands in `acquire`**, with what it has read so far. -/
inductive Place where
  /-- It is no dispatcher. -/
  | foreign
  | opened
  | refused
  | looked (incumbent : LockBody)
  | asking (incumbent : LockBody)
  /-- In `_take_over`, between two tries, for a handoff it asked for then, or after a kill. -/
  | waiting (asked : Option (LockBody × Seconds)) (deadline : Seconds)
  | trying (asked : Option (LockBody × Seconds)) (deadline : Seconds)
  | rechecking (incumbent : LockBody) (asked : Seconds)
  | insisting (incumbent : LockBody) (asked : Seconds)
  /-- It saw this heartbeat, and when. -/
  | evicting (seen : Option Seconds) (looked : Seconds)
  | evictingOf (holder : LockBody) (seen : Option Seconds) (looked : Seconds)
  | adopting
  /-- It has beaten, for the first time then. -/
  | beaten (since : Seconds)
  | truncated (since : Seconds)
  | serving (since : Seconds)
  /-- It gave up, or has let go of the lock. -/
  | left

structure Process where
  name : Name
  pgid : Nat
  /-- `is_gpuc_process`. -/
  gpuc : Bool
  /-- `running_pkg_commit`, as it was when the process started. -/
  commit : Option String := none
  place : Place
  /-- It has been sent a SIGKILL. -/
  doomed : Bool := false

/-- The process stands there now. -/
def Process.goTo (p : Process) (place : Place) : Process := { p with place }

/-- The arguments of `acquire`. -/
structure Waits where
  takeoverS : Seconds := 10
  handoffS : Seconds := 30

/-- **A host's processes, and what they share.** -/
structure State where
  boot : Boot
  now : Seconds := 0
  processes : List Process := []
  /-- The processes there have been. -/
  past : List Name := []
  /-- Whose descriptor has the `flock`. -/
  holder : Option Name := none
  body : LockBody := {}
  beat : Option Seconds := none

namespace State
variable (s : State)

/-- `holder_is_fresh`. -/
def holderIsFresh : Bool :=
  match s.beat with
  | none => false
  | some beat => s.now - beat < heartbeatStaleS

def find? (name : Name) : Option Process := s.processes.find? fun p => p.name = name

/-- What `/proc` says of who is there. -/
def identities : List Identity :=
  s.processes.map fun p => { pid := p.name.pid, starttime := some p.name.starttime }

def isGpucProcess (pid : Nat) : Bool := s.processes.any fun p => p.name.pid = pid && p.gpuc

/-- **`_signalable_pgid`**: the group of the process the body names, where it is provably a dispatcher
of its own. -/
def signalablePgid (self : Process) (body : LockBody) : Option Nat :=
  match body.pid with
  | none => none
  | some pid =>
    if recordedProcessAlive s.boot s.identities (some pid) body.bootId body.starttime body.initStart
        = false then none
    else if s.isGpucProcess pid = false then none
    else if body.pgid ≠ some pid then none
    else if pid = self.pgid ∨ pid = self.name.pid then none
    else some pid

/-- `_still_held_by`. -/
def stillHeldBy (incumbent : LockBody) : Bool :=
  s.body.pid = incumbent.pid ∧ s.body.starttime = incumbent.starttime

/-- The process of that name stands there now. -/
def goTo (name : Name) (place : Place) : State :=
  { s with processes := s.processes.map fun p => if p.name = name then p.goTo place else p }

/-- `os.killpg(pgid, SIGKILL)`. -/
def dooms (pgid : Nat) : State :=
  { s with processes := s.processes.map fun p => if p.pgid = pgid then { p with doomed := true } else p }

/-- `_signal_holder(SIGKILL, ..)`. -/
def kills (self : Process) (body : LockBody) : State :=
  match s.signalablePgid self body with
  | none => s
  | some pgid => s.dooms pgid

end State

/-- What `_adopt` writes: the group only where the process leads it. -/
def Process.body (boot : Boot) (p : Process) : LockBody where
  pid := some p.name.pid
  pgid := if p.pgid = p.name.pid then some p.pgid else none
  starttime := some p.name.starttime
  bootId := boot.bootId
  initStart := boot.initStart
  pkgCommit := p.commit

/-! `_adopt`, one step at a time, from the `flock` that it was given. -/

namespace State
variable (s : State)

def takes (name : Name) : State := { s.goTo name .adopting with holder := some name }

/-- It beats before the body is written. -/
def firstBeat (name : Name) : State := { s.goTo name (.beaten s.now) with beat := some s.now }

def truncates (name : Name) (since : Seconds) : State := { s.goTo name (.truncated since) with body := {} }

def writes (p : Process) (since : Seconds) : State :=
  { s.goTo p.name (.serving since) with body := p.body s.boot }

/-- `release`. -/
def releases (name : Name) : State := { s.goTo name .left with holder := none }

end State

variable (w : Waits)

/-- **A step of a process in `acquire`**, and in `_adopt` once it has the lock. -/
def goes (s : State) (p : Process) : Option State :=
  match p.place with
  | .foreign | .serving _ | .left => none
  | .opened =>
    match s.holder with
    | none => some (s.takes p.name)
    | some _ => some (s.goTo p.name .refused)
  | .refused => some (s.goTo p.name (.looked s.body))
  | .looked incumbent =>
    if s.holderIsFresh then
      if isOtherBuild incumbent.pkgCommit p.commit then some (s.goTo p.name (.asking incumbent))
      else some (s.goTo p.name .left)
    else some (s.goTo p.name (.evicting s.beat s.now))
  | .asking incumbent =>
    match s.signalablePgid p incumbent with
    | none => some (s.goTo p.name .left)
    | some _ => some (s.goTo p.name (.waiting (some (incumbent, s.now)) (s.now + w.handoffS)))
  | .waiting asked deadline =>
    if s.now < deadline then some (s.goTo p.name (.trying asked deadline))
    else
      match asked with
      | some (incumbent, t) => some (s.goTo p.name (.rechecking incumbent t))
      | none => some (s.goTo p.name .left)
  | .trying asked deadline =>
    match s.holder with
    | none => some (s.takes p.name)
    | some _ => some (s.goTo p.name (.waiting asked deadline))
  | .rechecking incumbent asked =>
    if s.stillHeldBy incumbent then some (s.goTo p.name (.insisting incumbent asked))
    else some (s.goTo p.name .left)
  | .insisting incumbent _ =>
    some ((s.kills p incumbent).goTo p.name (.waiting none (s.now + w.takeoverS)))
  | .evicting seen looked => some (s.goTo p.name (.evictingOf s.body seen looked))
  | .evictingOf holder _ _ =>
    some ((s.kills p holder).goTo p.name (.waiting none (s.now + w.takeoverS)))
  | .adopting => some (s.firstBeat p.name)
  | .beaten since => some (s.truncates p.name since)
  | .truncated since => some (s.writes p since)

inductive Label where
  | passes (d : Seconds)
  /-- A process is started: a dispatcher that read this commit, or any other. -/
  | spawns (name : Name) (pgid : Nat) (gpuc : Bool)
  | spawnsDispatcher (name : Name) (pgid : Nat) (commit : Option String)
  | dies (name : Name)
  | goes (name : Name)
  | beats (name : Name)
  | releases (name : Name)

/-- May a process of this name be started? -/
def State.mayStart (s : State) (name : Name) : Bool :=
  name ∉ s.past && name.starttime ≠ "" && s.processes.all fun p => p.name.pid ≠ name.pid

def State.starts (s : State) (p : Process) : State :=
  { s with processes := p :: s.processes, past := p.name :: s.past }

/-- **A step of a host.** -/
def step (s : State) : Label → Option State
  | .passes d => if 0 ≤ d then some { s with now := s.now + d } else none
  | .spawns name pgid gpuc =>
    if s.mayStart name then some (s.starts { name, pgid, gpuc, place := .foreign }) else none
  | .spawnsDispatcher name pgid commit =>
    if s.mayStart name then some (s.starts { name, pgid, gpuc := true, commit, place := .opened })
    else none
  | .dies name =>
    some { s with
      processes := s.processes.filter fun p => p.name ≠ name
      holder := s.holder.filter fun holder => holder ≠ name }
  | .goes name =>
    match s.find? name with
    | none => none
    | some p => if p.doomed then none else goes w s p
  | .beats name =>
    match s.find? name with
    | none => none
    | some p =>
      match p.place with
      | .serving _ => if p.doomed then none else some { s with beat := some s.now }
      | _ => none
  | .releases name =>
    match s.find? name with
    | none => none
    | some p =>
      match p.place with
      | .serving _ => if p.doomed then none else some (s.releases name)
      | _ => none

def machine : Machine State Label := ⟨step w⟩

/-- A host on which no dispatcher has run yet. -/
def start (boot : Boot) : State where
  boot := boot

end Gpuc.Host.DispatcherLock
