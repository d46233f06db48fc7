import Gpuc.Control.Providers
import Gpuc.Control.Registry

/-!
# Ending a rental

`gpuc host terminate` finds the pod a name stands for, asks the host behind it what it is doing, and ends
the pod at its provider; then the registry forgets the entry that names the pod. Without `force` a host
that is busy, or that did not say that it is idle, is a refusal, unless the provider says that nothing
can run on the pod.

The provider is the one of `Providers`, with its `terminate_confirmed`. What the ssh half answers is in
`Hosts`, with the registry's file, which other commands may write at any time. The log has what was heard
in the course of the command, and what was done. Messages are left out, with the labels and the order
that jobs have in them.
-/

set_option autoImplicit false

namespace Gpuc.Control.Teardown

open Gpuc.Basis

/-! ## What a host answers -/

/-- A row of the answer's jobs. -/
structure JobView where
  jobId : String
  name : Json := .str ""
  status : Json := .str "queued"
  outputsPending : Bool := false

/-- A row that is an object with an id. -/
def jobView (row : Json) : Option JobView := do
  let entry ← row.members
  match entry.get? "job_id" with
  | some (.str jobId) =>
    some
      { jobId
        name := (entry.get? "name").getD (.str "")
        status := (entry.get? "status").getD (.str "queued")
        outputsPending := ((entry.get? "outputs_pending").map Json.truthy).getD false }
  | _ => none

def JobView.is (view : JobView) (status : String) : Bool :=
  match view.status with
  | .str s => s = status
  | _ => false

structure JobViews where
  queued : List JobView := []
  running : List JobView := []
  finished : List JobView := []

/-- **`job_views`**: a row that is no object, or has no string for an id, is skipped. What is no list of
rows has none, and a number is not gone through. -/
def jobViews (payload : Dict String Json) : Except Exn JobViews := do
  let rows ← match (payload.get? "jobs").filter Json.truthy with
    | none => .ok []
    | some (.arr rows) => .ok rows
    | some (.str _) | some (.obj _) => .ok []
    | some _ => .error .exception
  let views := rows.filterMap jobView
  pure
    { queued := views.filter fun view => view.is "queued"
      running := views.filter fun view => view.is "running"
      finished := views.filter fun view => !view.is "running" && !view.is "queued" }

/-- `outputs_at_risk`. -/
def JobViews.outputsAtRisk (views : JobViews) : List JobView :=
  views.finished.filter JobView.outputsPending

/-! ## The command's world -/

/-- What a terminate heard and did. -/
inductive Heard where
  /-- The provider listed its pods. -/
  | listed (pods : List Pod)
  /-- The provider answered about a pod. -/
  | read (podId : String) (answer : Option Pod)
  /-- The host of an entry answered `status`. -/
  | answered (entry : HostEntry) (payload : Dict String Json)
  /-- `terminate_confirmed` was called. -/
  | terminating (podId : String)
  /-- What it logged. -/
  | provider (event : Event)
  /-- `forget_host` was called for a pod's entry, with the registry before and after. -/
  | forgot (name podId : String) (before after : StateDir)

/-- How a terminate ends that does not return. -/
inductive Stop where
  /-- `TerminateRefused`. -/
  | refused
  /-- `HostNotFound`. -/
  | notFound
  /-- `TerminateFailed`: the pod is still billing. -/
  | failed
  | raised (e : Exn)
  deriving DecidableEq

/-- What is on the other side of an ssh, and on this machine. -/
structure Hosts (σ : Type) where
  /-- The host's answer to `status`, or that it could not be asked. -/
  status : HostEntry → σ → Except Exn (Option Json) × σ
  /-- Reading the rest of an answer: what is not about its jobs, and what of a job nothing here asks. -/
  rest : Dict String Json → σ → Except Exn Unit × σ
  stateDir : σ → StateDir
  putStateDir : StateDir → σ → σ
  /-- The registry's lock is held elsewhere for too long. -/
  locked : σ → Bool

abbrev Cmd (σ α : Type) := Act σ Heard Stop α

section Terminate
variable {σ Offer Transport Entry : Type} (w : World σ Offer Transport Entry) (hosts : Hosts σ)
  (py : Pydantic)

def callOf {α : Type} (f : σ → Except Exn α × σ) : Cmd σ α :=
  Act.call fun s => ((f s).1.mapError .raised, (f s).2)

/-- `provider.get`. -/
def readPod (podId : String) : Cmd σ (Option Pod) := do
  let pod ← callOf (w.get podId)
  Act.emit (.read podId pod)
  return pod

/-! ## Which pod it is -/

structure Target where
  podId : String
  pod : Option Pod := none
  entry : Option HostEntry := none

/-- `_entry_for_pod`. -/
def entryForPod (podId : String) (registry : Registry) : Option HostEntry :=
  registry.hosts.values.find? fun entry => entry.podId = some podId

/-- `_find_pod`. -/
def findPod (target : String) : Cmd σ Pod := do
  let pods ← callOf w.list
  Act.emit (.listed pods)
  let ours := pods.filter fun pod => w.namePrefix.toList.isPrefixOf pod.name.toList
  match ours.find? fun pod => target = pod.id || target = pod.name with
  | some pod => return pod
  | none => Act.raise .notFound

/-- **`resolve`**: a registered host, else a pod by its id or its name. -/
def resolve (target : String) (registry : Registry) : Cmd σ Target :=
  match registry.hosts.get? target with
  | some entry =>
    match entry.rental with
    | none => Act.raise .refused
    | some rental => return { podId := rental.podId, entry := some entry }
  | none => do
    let pod ← findPod w target
    return { podId := pod.id, pod := some pod, entry := entryForPod pod.id registry }

/-! ## What it is doing -/

/-- `Answered`, `Unaskable` and `Gone`. -/
inductive Asked where
  | answered (payload : Dict String Json) (pod : Option Pod)
  | unaskable (pod : Option Pod)
  | gone (pod : Option Pod)

/-- **`rental_state`**: the provider's word on a rental's pod, before any ssh is tried. A read that fails
is no answer. -/
def rentalState (entry : HostEntry) : Cmd σ (Asked ⊕ Option Pod) :=
  match entry.rental with
  | none => return .inr none
  | some rental => do
    match ← Act.attempt (readPod w rental.podId) with
    | .error (.raised e) => if e.isProvider then return .inr none else Act.raise (.raised e)
    | .error e => Act.raise e
    | .ok none => return .inl (.gone none)
    | .ok (some pod) =>
      if w.isGone (some pod) then return .inl (.gone (some pod))
      else if w.isDead pod then return .inl (.unaskable (some pod))
      else return .inr (some pod)

/-- **`ask`**, for `status`. -/
def ask (entry : HostEntry) : Cmd σ Asked := do
  match ← rentalState w entry with
  | .inl asked => return asked
  | .inr pod =>
    match (← callOf (hosts.status entry)).bind Json.members with
    | none => return .unaskable pod
    | some payload => do
      Act.emit (.answered entry payload)
      return .answered payload pod

inductive HostState where
  | answered
  | unaskable
  | gone
  deriving DecidableEq

structure HostView where
  state : HostState
  pod : Option Pod := none
  jobs : JobViews := {}

/-- `parse_status`: a host that nobody could ask produces no claim about its jobs. -/
def parseStatus : Asked → Cmd σ HostView
  | .gone pod => return { state := .gone, pod }
  | .unaskable pod => return { state := .unaskable, pod }
  | .answered payload pod => do
    callOf (hosts.rest payload)
    match jobViews payload with
    | .ok jobs => return { state := .answered, pod, jobs }
    | .error e => Act.raise (.raised e)

/-- `gather`. -/
def gather (entry : HostEntry) : Cmd σ HostView := do
  let asked ← ask w hosts entry
  parseStatus hosts asked

/-- What was ended, and what it was doing. -/
structure Termination where
  target : Target
  /-- The host itself answered. -/
  checked : Bool := false
  /-- It did not answer, and was asked. -/
  unasked : Bool := false
  /-- The provider itself says that the pod is stopped, terminated or missing. -/
  nothingCanRun : Bool := false
  running : List JobView := []
  queued : List JobView := []
  outputsPending : List JobView := []
  terminated : Bool := false
  forgotten : Bool := false

def Termination.busy (result : Termination) : Bool :=
  !result.running.isEmpty || !result.queued.isEmpty || !result.outputsPending.isEmpty

/-- **`inspect`**: what the pod is doing, as the host itself reports it. -/
def inspect (target : Target) : Cmd σ Termination :=
  match target.entry with
  | none =>
    return { target, unasked := true, nothingCanRun := target.pod.any w.isDead }
  | some entry => do
    let view ← gather w hosts entry
    let target := { target with pod := view.pod.or target.pod }
    if view.state = .answered then
      return { target, checked := true, running := view.jobs.running, queued := view.jobs.queued,
               outputsPending := view.jobs.outputsAtRisk }
    else
      let nothingCanRun := decide (view.state = .gone) || target.pod.any w.isDead
      return { target, nothingCanRun, unasked := !nothingCanRun }

/-! ## The command -/

/-- `terminate_confirmed`, and what its callers say of a pod that could not be confirmed gone. -/
def endPod (podId : String) : Cmd σ Unit := do
  Act.emit (.terminating podId)
  match ← Act.attempt (Act.embed Heard.provider Stop.raised (terminateConfirmed w podId)) with
  | .ok () => return ()
  | .error (.raised e) => if e.isProvider then Act.raise .failed else Act.raise (.raised e)
  | .error e => Act.raise e

/-- `forget_host`, of the entry that names a pod. -/
def forgetEntry (name podId : String) : Cmd σ Bool := fun s =>
  let before := hosts.stateDir s.world
  let (answer, after) := forgetHost py (hosts.locked s.world) before name (some podId)
  let s' : Logged σ Heard :=
    { world := hosts.putStateDir after s.world, log := s.log ++ [.forgot name podId before after] }
  match answer with
  | .ok forgotten => (.returned forgotten, s')
  | .error _ => (.raised (.raised .exception), s')

/-- `_forget`: only ever the entry that names this pod. -/
def forget (target : Target) : Cmd σ Bool :=
  match target.entry with
  | none => return false
  | some entry => forgetEntry hosts py entry.name target.podId

/-- The question to the host, and the refusal. -/
def examine (force : Bool) (resolved : Target) : Cmd σ Termination :=
  if force then return { target := resolved }
  else do
    let result ← inspect w hosts resolved
    if !result.nothingCanRun && (result.busy || !result.checked) then Act.raise .refused
    else return result

/-- The provider's word on the pod, where there is none yet. -/
def knownPod (target : Target) : Cmd σ (Option Pod) :=
  match target.pod with
  | some pod => return some pod
  | none => readPod w target.podId

/-- **`terminate`**. -/
def terminate (force : Bool) (target : String) (registry : Registry) : Cmd σ Termination := do
  let resolved ← resolve w target registry
  let result ← examine w hosts force resolved
  let pod ← knownPod w result.target
  if result.unasked then callOf w.report
  let result := { result with target := { result.target with pod } }
  if w.isGone pod then
    let forgotten ← forget hosts py result.target
    return { result with forgotten }
  else
    callOf w.report
    endPod w result.target.podId
    callOf w.report
    let forgotten ← forget hosts py result.target
    return { result with terminated := true, forgotten }

end Terminate

end Gpuc.Control.Teardown
