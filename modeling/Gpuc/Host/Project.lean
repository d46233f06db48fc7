import Gpuc.Basis.Dict
import Gpuc.Host.Plan

/-!
# When each queued job is expected to start

`project` replays the dispatch rule over the end times of what is running: at each release the queue
is planned exactly as a dispatch pass plans it, what fits starts, and what covers the first stuck job
is stopped for it.

The replay's `releases` are kept on the cards themselves, in the order the cards came in, and the end
of a job that may be stopped stands with the job. A running job's cards are cards of the host: for one
that is not, the source looks up a release that is not there. `replay` counts its rounds down, and
answers nothing if it runs out of them; that it needs finitely many is a law.
-/

set_option autoImplicit false

namespace Gpuc.Host

open Gpuc.Basis

/-- A card `project` may schedule onto, and when it is free: now if nothing holds it, its holder's
end if that is known, and `none` when nothing can say. -/
structure Card where
  uuid : Uuid
  shared : Bool
  releaseS : Option Seconds

/-- Is the card free by this time? -/
def Card.freeBy (card : Card) (clock : Seconds) : Bool :=
  match card.releaseS with
  | none => false
  | some release => release ≤ clock

structure Projection where
  /-- Seconds until each queued job is expected to start, for those that can be. -/
  startsInS : Dict JobId Seconds
  /-- Why each of the rest has no start time. -/
  unknown : Dict JobId String
  /-- For each running `auto_preempt` job, the first queued job it would be stopped for. -/
  yieldsTo : Dict JobId JobId := .empty

/-- The first queued job ahead of this running one that could use its cards. -/
def yieldsTo (job : Preemptable) (requests : List Request) : Option JobId :=
  (requests.find? fun r => r.key < job.key ∧ r.gpus ≠ 0 ∧ job.frees r.borrows ≠ 0).map (·.jobId)

/-- A running job that may be stopped, the request it is queued again as, and when it ends. -/
structure Stoppable where
  job : Preemptable
  again : Request
  ends : Option Seconds

/-- What the replay has besides the cards: the cards nvidia-smi does not report, and how many shared
ones somebody else is on. -/
structure Elsewhere where
  ownedMissing : List String := []
  sharedMissing : List String := []
  theirs : Nat

/-- **The state of the replay.** -/
structure Replay where
  /-- The cards, with the time each comes free. -/
  cards : List Card
  stoppable : Dict JobId Stoppable
  pending : List Request
  starts : Dict JobId Seconds
  clock : Seconds
  /-- What the last round decided. -/
  decisions : List Decision

namespace Replay

/-- The jobs that may be stopped and have not ended. -/
def current (s : Replay) : Dict JobId Stoppable :=
  s.stoppable.filter fun _ entry =>
    match entry.ends with
    | none => true
    | some ends => s.clock < ends

def free (s : Replay) : List Card := s.cards.filter fun card => card.freeBy s.clock

def isShared (s : Replay) (uuid : Uuid) : Bool :=
  s.cards.any fun card => card.uuid = uuid ∧ card.shared = true

/-- The pool of a round: the free cards, and the jobs that may be stopped. -/
def pool (s : Replay) (e : Elsewhere) : Pool where
  ownedFree := (s.free.filter fun card => !card.shared).map (·.uuid)
  ownedPresent := s.cards.countP fun card => !card.shared
  sharedVisible := (s.cards.countP fun card => card.shared) + e.theirs
  ownedAbsent := e.ownedMissing
  sharedAbsent := e.sharedMissing
  shared := ((s.cards.filter fun card => card.shared).map (·.uuid)).toFinset
  preemptable := s.stoppable.values.map (·.job)
  sharedFree := some ((s.free.filter fun card => card.shared).map (·.uuid))
  theirs := e.theirs

/-- The cards come free at the time given. -/
def release (s : Replay) (gpus : List Uuid) (time : Option Seconds) : Replay :=
  { s with cards := s.cards.map fun card =>
      if card.uuid ∈ gpus then { card with releaseS := time } else card }

/-- A job starts: it runs for its own estimate, and one that fills may be stopped. -/
def start (s : Replay) (r : Request) (gpus : List Uuid) : Replay :=
  let done := r.estimateS.map (s.clock + ·)
  let nShared := gpus.countP s.isShared
  let started : Stoppable :=
    { job := ⟨r.jobId, r.priority, gpus, s.clock, gpus.length - nShared, nShared⟩
      again := r
      ends := done }
  { s.release gpus done with
    starts := s.starts.setDefault r.jobId s.clock
    pending := s.pending.erase r
    stoppable :=
      if r.fills ∧ gpus ≠ [] then s.stoppable.set r.jobId started else s.stoppable }

/-- Every job assigned cards starts. -/
def startAll (byId : Dict JobId Request) : Replay → List Decision → Replay
  | s, [] => s
  | s, .assigned jobId gpus _ :: ds =>
    match byId.get? jobId with
    | some r => startAll byId (s.start r gpus) ds
    | none => startAll byId s ds
  | s, .holds .. :: ds => startAll byId s ds
  | s, .steppedOver .. :: ds => startAll byId s ds
  | s, .fails .. :: ds => startAll byId s ds

/-- A job is stopped: its cards are free now, and it is queued again. -/
def stop (s : Replay) (jobId : JobId) : Replay :=
  match s.stoppable.get? jobId with
  | none => s
  | some entry =>
    { s.release entry.job.gpus (some s.clock) with
      stoppable := s.stoppable.erase jobId
      pending := s.pending ++ [entry.again] }

/-- What covers the first stuck job is stopped, and queued again in dispatch order. -/
def stopAll (s : Replay) (jobIds : List JobId) : Replay :=
  let stopped := jobIds.foldl stop s
  { stopped with pending := sortedBy Request.key stopped.pending }

/-- The times at which a card comes free later on. -/
def later (s : Replay) : List Seconds :=
  s.cards.filterMap fun card => card.releaseS.filter fun release => s.clock < release

end Replay

/-- The jobs to stop for the first job with a gap. -/
def stuckPreempts : List Decision → List JobId
  | [] => []
  | .holds _ _ _ gap preempts :: ds => if gap ≠ 0 then preempts else stuckPreempts ds
  | .assigned .. :: ds => stuckPreempts ds
  | .steppedOver .. :: ds => stuckPreempts ds
  | .fails .. :: ds => stuckPreempts ds

namespace Replay

/-- The replay as a round plans it: the jobs that have ended forgotten, and the decisions made. -/
def planned (s : Replay) (e : Elsewhere) : Replay :=
  let live := { s with stoppable := s.current }
  { live with decisions := plan s.pending (live.pool e) }

/-- What fits is launched. -/
def launched (s : Replay) (e : Elsewhere) : Replay :=
  let planned := s.planned e
  let byId := Dict.ofList (s.pending.map fun r => (r.jobId, r))
  startAll byId planned planned.decisions

/-- **One round**: launch what fits, then stop what covers the first stuck job, else move the clock to
the next release. The answer says whether there is another round to come. -/
def round (s : Replay) (e : Elsewhere) : Replay × Bool :=
  let launched := s.launched e
  match stuckPreempts launched.decisions with
  | jobId :: jobIds => (launched.stopAll (jobId :: jobIds), true)
  | [] =>
    match launched.later.min? with
    | none => (launched, false)
    | some next => ({ launched with clock := next }, true)

/-- `while pending`: rounds until nothing is pending or nothing comes free any more. -/
def run (e : Elsewhere) : Nat → Replay → Option Replay
  | 0, _ => none
  | fuel + 1, s =>
    if s.pending = [] then some s
    else
      match s.round e with
      | (next, true) => run e fuel next
      | (last, false) => some last

/-- The card's release, if the host has the card and knows it. -/
def releaseOf (cards : List Card) (uuid : Uuid) : Option Seconds :=
  (cards.find? fun card => card.uuid = uuid).bind (·.releaseS)

/-- The replay at the start: the running jobs that may be stopped end when their first card comes
free. -/
def initial (requests : List Request) (cards : List Card)
    (running : List (Preemptable × Request)) : Replay where
  cards := cards
  stoppable := Dict.ofList <| running.map fun (p, again) =>
    (p.jobId, { job := p, again := again, ends := p.gpus.head?.bind (releaseOf cards) })
  pending := requests
  starts := .empty
  clock := 0
  decisions := []

end Replay

/-! ## The reasons -/

/-- Why a job is still waiting after the last pass that could start nothing. -/
def reasonFor (firstHolder : Option JobId) : Decision → Option String
  | .fails _ reason => some s!"{reason}, so it will never be dispatched"
  | .steppedOver _ short =>
    some (s!"it needs {short} shared card(s) somebody else is using, and when "
      ++ "they stop is not something this host can predict")
  | .holds .. =>
    match firstHolder with
    | some holder => some s!"job {holder} is ahead of it and has no start time yet"
    | none => some "the jobs holding the cards it needs gave no end time"
  | .assigned .. => none

/-- `_unknown_reasons`: the reason of each decision about a job still queued, the first job that holds
told apart from those behind it. -/
def unknownReasons (queued : List JobId) :
    List Decision → Option JobId → Dict JobId String → Dict JobId String
  | [], _, reasons => reasons
  | d :: ds, firstHolder, reasons =>
    if d.jobId ∉ queued then unknownReasons queued ds firstHolder reasons
    else
      let told := match reasonFor firstHolder d with
        | some reason => reasons.set d.jobId reason
        | none => reasons
      let holder := match d with
        | .holds jobId .. => firstHolder.or (some jobId)
        | .assigned .. | .steppedOver .. | .fails .. => firstHolder
      unknownReasons queued ds holder told

/-- What the end of the replay says of the jobs that were queued at its start. -/
def Replay.answer (s : Replay) (requests : List Request)
    (running : List (Preemptable × Request)) : Projection :=
  let already := running.map (·.1.jobId)
  let queued := (s.pending.filter fun r => r.jobId ∉ already).map (·.jobId)
  { startsInS := s.starts.filter fun jobId _ => jobId ∉ already
    unknown := unknownReasons queued s.decisions none .empty
    yieldsTo := Dict.ofList <| running.filterMap fun (p, _) =>
      (yieldsTo p requests).map fun to' => (p.jobId, to') }

/-- **When each queued job is expected to start**, within `fuel` rounds. -/
def project (fuel : Nat) (requests : List Request) (cards : List Card) (e : Elsewhere)
    (running : List (Preemptable × Request) := []) (draining : Bool := false) :
    Option Projection :=
  if draining then
    let why := "the host is draining, so nothing more will be dispatched"
    some { startsInS := .empty, unknown := Dict.ofList (requests.map fun r => (r.jobId, why)) }
  else ((Replay.initial requests cards running).run e fuel).map (·.answer requests running)

end Gpuc.Host
