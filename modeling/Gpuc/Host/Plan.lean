import Mathlib.Data.Prod.Lex
import Mathlib.Data.String.Basic
import Mathlib.Data.Finset.Insert
import Gpuc.Basis.Sorted
import Gpuc.Host.Jobs

/-!
# The dispatch rule

`plan` decides what a dispatch pass does with each queued job, in queue order: assign it cards, hold
cards for it, step over it, or fail it, and, for the first job the queue is stuck on, which
`auto_preempt` jobs to stop for it.

The queue is walked once (`planFrom`). A `Walk` is what the walk has so far: the pool it consumes,
the cards held and for whom, the jobs that are covered, and whether the first job with a gap has been
passed. `turn` is what it does with one request. The intermediate values of a turn have names of
their own (`freeFor`, `comingFor`, `shortFor`, `oursFor`), so that a law can speak of them.
-/

set_option autoImplicit false

namespace Gpuc.Host

open Gpuc.Basis

/-- Dispatch order: the priority, then the job id. -/
abbrev Key := Int ×ₗ JobId

/-- One queued job, as the rule sees it. -/
structure Request where
  jobId : JobId
  gpus : Nat
  /-- The job asked for shared cards and the host has some. -/
  borrows : Bool
  /-- How long it expects to run, for `project` only. -/
  estimateS : Option Seconds := none
  priority : Int := 50
  /-- The spec's `auto_preempt`: it may take cards held for a job ahead of it. -/
  fills : Bool := false
  deriving DecidableEq

def Request.key (r : Request) : Key := toLex (r.priority, r.jobId)

/-- A running job whose spec said it may be stopped for something better. -/
structure Preemptable where
  jobId : JobId
  priority : Int
  gpus : List Uuid
  /-- When it started, in any unit that orders starts. -/
  started : Seconds
  owned : Nat
  borrowed : Nat
  deriving DecidableEq

def Preemptable.key (p : Preemptable) : Key := toLex (p.priority, p.jobId)

/-- Cards this would hand to a waiting job that may (or may not) borrow. -/
def Preemptable.frees (p : Preemptable) (borrowing : Bool) : Nat :=
  if borrowing then p.owned + p.borrowed else p.owned

/-- The candidates to stop, taken in order until they free `gap` cards, and what they free. One that
is ahead of the waiting job, or frees it nothing, is passed over. -/
def enoughLoop (key : Key) (gap : Nat) (borrowing : Bool) :
    List Preemptable → Nat → List Preemptable × Nat
  | [], freed => ([], freed)
  | candidate :: rest, freed =>
    if gap ≤ freed then ([], freed)
    else if candidate.key ≤ key ∨ candidate.frees borrowing = 0 then
      enoughLoop key gap borrowing rest freed
    else
      let (chosen, total) := enoughLoop key gap borrowing rest (freed + candidate.frees borrowing)
      (candidate :: chosen, total)

/-- Least important first, and among equals the one that has been running the shortest time. -/
def Preemptable.stopOrder (p : Preemptable) : (Int ×ₗ Seconds)ᵒᵈ :=
  OrderDual.toDual (toLex (p.priority, p.started))

/-- **Which of these to stop** so the job queued at `key` gets `gap` more cards: all of them or none. -/
def enoughToStart (candidates : List Preemptable) (key : Key) (gap : Nat) (borrowing : Bool) :
    List Preemptable :=
  let (chosen, freed) :=
    enoughLoop key gap borrowing (sortedBy Preemptable.stopOrder candidates) 0
  if gap ≤ freed then chosen else []

/-! ## The pool -/

/-- The readings of the shared cards: what the `n`-th call answers, the cards nobody is on and how
many somebody else is on. -/
abbrev Sample := Nat → List Uuid × Nat

/-- What one pass has to hand out. -/
structure Pool where
  /-- Owned cards nothing of ours holds, visible now. -/
  ownedFree : List Uuid
  /-- Owned cards nvidia-smi reports, busy or not. -/
  ownedPresent : Nat
  /-- Shared cards nvidia-smi reports, ours and somebody else's. -/
  sharedVisible : Nat
  ownedAbsent : List String := []
  sharedAbsent : List String := []
  /-- How to read the shared cards, if a job needs them. -/
  sample : Option Sample := none
  /-- Every visible shared card. -/
  shared : Finset Uuid := ∅
  /-- Cards a job on its way out is handing back. -/
  coming : List Uuid := []
  /-- Running `auto_preempt` jobs not already stopping. -/
  preemptable : List Preemptable := []
  /-- Set once `sample` has been called. -/
  sharedFree : Option (List Uuid) := none
  /-- Shared cards somebody else is on, from that reading. -/
  theirs : Nat := 0
  /-- How many times `sample` has been called. -/
  calls : Nat := 0

/-- The free shared cards, read on the first call only, and the pool that remembers them. -/
def Pool.borrowable (pool : Pool) : List Uuid × Pool :=
  match pool.sharedFree with
  | some free => (free, pool)
  | none =>
    match pool.sample with
    | none => ([], { pool with sharedFree := some [], theirs := 0 })
    | some sample =>
      let (free, theirs) := sample pool.calls
      (free, { pool with sharedFree := some free, theirs := theirs, calls := pool.calls + 1 })

/-- `_take`: the cards leave the pool. -/
def Pool.take (pool : Pool) (cards : List Uuid) : Pool :=
  { pool with
    ownedFree := pool.ownedFree.filter fun c => c ∉ cards
    sharedFree := pool.sharedFree.map fun free => free.filter fun c => c ∉ cards }

/-! ## The decisions -/

inductive Decision where
  /-- Started on these cards; for a filler, the jobs holding the cards it was given. -/
  | assigned (jobId : JobId) (gpus : List Uuid) (heldFor : List JobId)
  /-- Does not fit yet, and keeps the cards it could take. `gap` is what it is still short of once
  the cards on their way back are here, and `preempts` the jobs whose stopping covers it. -/
  | holds (jobId : JobId) (takenOwned takenShared gap : Nat) (preempts : List JobId)
  /-- Short of a shared card somebody else is using; holds nothing. -/
  | steppedOver (jobId : JobId) (short : Int)
  | fails (jobId : JobId) (reason : String)
  deriving DecidableEq

def Decision.jobId : Decision → JobId
  | .assigned jobId .. | .holds jobId .. | .steppedOver jobId _ | .fails jobId _ => jobId

/-- The cards a decision hands out. -/
def Decision.gpus : Decision → List Uuid
  | .assigned _ gpus _ => gpus
  | .holds .. | .steppedOver .. | .fails .. => []

/-- Why a job asking for `gpus` cards cannot run on this host's cards, or `none`. -/
def capacityFailure (gpus owned shared : Nat) (borrows : Bool) (absent : List String := []) :
    Option String :=
  let haveN := owned + (if borrows then shared else 0)
  if gpus ≤ haveN then none
  else
    let owns := s!"host owns {owned}"
    let shares :=
      if borrows then s!" and may borrow {shared} shared"
      else if shared ≠ 0 then
        s!" and shares {shared} this job did not ask for (`use_shared: true` would let it)"
      else ""
    let names := ", ".intercalate absent
    let missing :=
      if absent ≠ [] ∧ gpus ≤ haveN + absent.length then
        s!" that nvidia-smi reports ({names} listed but missing)"
      else ""
    some (s!"needs {gpus} GPUs, " ++ owns ++ shares ++ missing)

/-! ## The walk -/

/-- What the walk along the queue has so far. -/
structure Walk where
  pool : Pool
  /-- Card to the job holding it. -/
  held : Uuid → Option JobId := fun _ => none
  covered : Finset JobId := ∅
  /-- Whether the first job with a gap has been passed: automatic preemption acts for that one
  only. -/
  stuck : Bool := false

namespace Walk

/-- The cards of a list that nothing ahead holds. -/
def unheld (w : Walk) (cards : List Uuid) : List Uuid :=
  cards.filter fun c => (w.held c).isNone

/-- Why the host could never run this job, or `none`. -/
def failureFor (w : Walk) (r : Request) : Option String :=
  capacityFailure r.gpus w.pool.ownedPresent w.pool.sharedVisible r.borrows
    (w.pool.ownedAbsent ++ if r.borrows then w.pool.sharedAbsent else [])

/-- The owned cards a request is offered. -/
def ownedFor (w : Walk) (r : Request) : List Uuid :=
  (w.unheld w.pool.ownedFree).take r.gpus

/-- Does the request need a reading of the shared cards? -/
def asks (w : Walk) (r : Request) : Bool :=
  (w.ownedFor r).length < r.gpus && r.borrows

/-- The walk once that reading is taken, if it is. -/
def readFor (w : Walk) (r : Request) : Walk :=
  if w.asks r then { w with pool := w.pool.borrowable.2 } else w

/-- **The free cards a request is offered**: owned cards first, a borrower's shortfall from the shared
ones. -/
def freeFor (w : Walk) (r : Request) : List Uuid :=
  if w.asks r then
    w.ownedFor r
      ++ (w.unheld w.pool.borrowable.1).take (r.gpus - (w.ownedFor r).length)
  else w.ownedFor r

/-- Of the cards on their way back, those the request may wait for: owned before shared, and no more
than it is short of. -/
def comingFor (w : Walk) (r : Request) : List Uuid :=
  let coming := (w.unheld w.pool.coming).filter fun c => r.borrows || c ∉ w.pool.shared
  (sortedBy (fun c => decide (c ∈ w.pool.shared)) coming).take (r.gpus - (w.freeFor r).length)

/-- The cards the request is short of once those are back. -/
def shortFor (w : Walk) (r : Request) : Nat :=
  r.gpus - (w.freeFor r).length - (w.comingFor r).length

/-- The cards the request could have once every job of ours ends. -/
def oursFor (w : Walk) (r : Request) : Int :=
  let pool := (w.readFor r).pool
  pool.ownedPresent + (if r.borrows then (pool.sharedVisible : Int) - pool.theirs else 0)

/-- A filler may not have a card held for a covered job. -/
def openToIt (w : Walk) (card : Uuid) : Bool :=
  match w.held card with
  | none => true
  | some job => job ∉ w.covered

/-- The free cards open to a filler, those held for a job that is not covered among them. Unheld
before held, owned before borrowed, so it sits on as few held cards as it can. -/
def openFor (w : Walk) (r : Request) : List Uuid :=
  let owned := sortedBy (fun c => (w.held c).isSome) (w.pool.ownedFree.filter w.openToIt)
  let shared :=
    if r.borrows then
      sortedBy (fun c => (w.held c).isSome) (w.pool.borrowable.1.filter w.openToIt)
    else []
  owned ++ shared

/-- `_fill`: the cards that would start this `auto_preempt` job now, with the jobs holding them, and
the pool they were looked for in. -/
def fill (w : Walk) (r : Request) : Option (List Uuid × List JobId) × Pool :=
  let cards := (w.openFor r).take r.gpus
  let pool := if r.borrows then w.pool.borrowable.2 else w.pool
  if cards.length < r.gpus then (none, pool)
  else (some (cards, (cards.filterMap w.held).eraseDups), pool)

/-- The walk once these cards have gone to a job. -/
def give (w : Walk) (cards : List Uuid) : Walk :=
  { w with pool := w.pool.take cards }

/-- The cards are held for the job. -/
def hold (w : Walk) (jobId : JobId) (taken : List Uuid) : Walk :=
  { w with held := fun c => if c ∈ taken then some jobId else w.held c }

/-- The jobs to stop for a request with a gap: only for the first one the queue is stuck on. -/
def stopsFor (w : Walk) (r : Request) (short : Nat) : List Preemptable :=
  if short ≠ 0 ∧ w.stuck = false then
    enoughToStart w.pool.preemptable r.key short r.borrows
  else []

/-- A job waits: it keeps the cards it could take. It is covered if only stops in flight stand before
it, or if the stops it asks for cover its gap. -/
def wait (w : Walk) (r : Request) (nOwned : Nat) (free coming : List Uuid) (short : Nat) :
    Decision × Walk :=
  let preempts := w.stopsFor r short
  let taken := free ++ coming
  let nOwned := nOwned + coming.countP fun c => c ∉ w.pool.shared
  (.holds r.jobId nOwned (taken.length - nOwned) short (preempts.map (·.jobId)),
    { w.hold r.jobId taken with
      covered := if short = 0 ∨ preempts ≠ [] then insert r.jobId w.covered else w.covered
      stuck := w.stuck || decide (short ≠ 0) })

/-- **What the walk does with one request.** -/
def turn (w : Walk) (r : Request) : Decision × Walk :=
  match w.failureFor r with
  | some reason => (.fails r.jobId reason, w)
  | none =>
    let nOwned := (w.ownedFor r).length
    let free := w.freeFor r
    let read := w.readFor r
    if free.length = r.gpus then (.assigned r.jobId free [], read.give free)
    else
      let coming := w.comingFor r
      let short := w.shortFor r
      let ours := w.oursFor r
      if ours < r.gpus then (.steppedOver r.jobId (r.gpus - ours), read)
      else if r.fills ∧ short ≠ 0 then
        match read.fill r with
        | (some (cards, heldFor), pool) =>
          (.assigned r.jobId cards heldFor, { read with pool := pool }.give cards)
        | (none, pool) => { read with pool := pool }.wait r nOwned free coming short
      else read.wait r nOwned free coming short

end Walk

/-- The decisions along the queue from a walk, and the walk they leave. -/
def planFrom : Walk → List Request → List Decision × Walk
  | w, [] => ([], w)
  | w, r :: rs =>
    let (d, after) := w.turn r
    let (ds, last) := planFrom after rs
    (d :: ds, last)

/-- The walk as a pass begins it. -/
def Walk.start (pool : Pool) : Walk where
  pool := pool

/-- **One decision per request, in order.** -/
def plan (requests : List Request) (pool : Pool) : List Decision :=
  (planFrom (Walk.start pool) requests).1

end Gpuc.Host
