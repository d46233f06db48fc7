import Mathlib.Data.Rat.Defs
import Mathlib.Algebra.Order.Ring.Unbundled.Rat
import Gpuc.Basis.Effect

/-!
# Rental providers

What the control side knows of a provider: its calls, each of which may raise anything, its vocabulary
of pod statuses, and `terminateConfirmed`, the one place a terminate is retried.

The world is a state, and a call answers from it and changes it, so a world stands for every behaviour.
The log keeps what the laws are about: the creates and their answers, the listings that were answered,
and each pod whose end was confirmed. What a create made is kept with its answer, since a create that
raised may have made a pod all the same (`Creation.made`). Messages are left out: what is reported is
read by no one here.
-/

set_option autoImplicit false

namespace Gpuc.Control

open Gpuc.Basis

/-! ## Exceptions -/

/-- What an error of provisioning says. -/
inductive Why where
  | noOffers
  /-- Every offer failed, with what could not be terminated. -/
  | everyOffer (billing : List String)
  /-- No other offer could fix this, with what could not be terminated. -/
  | stopped (billing : List String)
  | vanished
  | dead
  | brokenHost
  | noEndpoint
  | noCards
  | ceiling
  | misconfigured
  /-- A create that failed may have made a pod, so no other is bought. -/
  | maybeBilling
  deriving DecidableEq

/-- The classes of exception that a handler here tells apart. -/
inductive Exn where
  | createRefused
  /-- Any other `ProviderError`. -/
  | provider
  | provision (why : Why)
  | unprovisionable (why : Why)
  | bootstrap
  | remote
  | sshUnusable
  | localToolMissing
  /-- Any other `TransportError`, with its text. -/
  | transport (text : String)
  /-- Any other `Exception`: a response that does not parse, a full disk, a bug. -/
  | exception
  /-- `KeyboardInterrupt`. -/
  | interrupt
  /-- Any other `BaseException`. -/
  | exit
  deriving DecidableEq

namespace Exn

/-- It is a `ProviderError`. -/
def isProvider : Exn → Bool
  | .createRefused | .provider => true
  | _ => false

/-- It is a `TransportError`. -/
def isTransport : Exn → Bool
  | .sshUnusable | .localToolMissing | .transport _ => true
  | _ => false

/-- It is an `Exception`. -/
def isException : Exn → Bool
  | .interrupt | .exit => false
  | _ => true

/-- It is one of `RECOVERABLE`. -/
def recoverable : Exn → Bool
  | .createRefused | .provider | .provision _ | .unprovisionable _ | .bootstrap | .remote
  | .sshUnusable | .localToolMissing | .transport _ => true
  | .exception | .interrupt | .exit => false

end Exn

/-! ## Pods -/

inductive PodStatus where
  | provisioning
  | starting
  | running
  | exited
  | error
  | terminated
  deriving DecidableEq

structure SshEndpoint where
  host : String
  port : Int
  username : String
  deriving DecidableEq

structure Pod where
  id : String
  name : String
  status : PodStatus := .provisioning
  sshDirect : Option SshEndpoint := none
  deriving DecidableEq

/-- How a create was answered, and the pod that one which raised made anyway. -/
structure Creation where
  answer : Except Exn Pod
  madeAnyway : Option String := none
  deriving DecidableEq

/-- The pod a create made. One that was refused made none. -/
def Creation.made (creation : Creation) : Option String :=
  match creation.answer with
  | .ok pod => some pod.id
  | .error .createRefused => none
  | .error _ => creation.madeAnyway

/-! ## The world -/

/-- How to reach a pod, and what is cached of it: an address in the registry. -/
structure Address where
  name : String
  endpoint : SshEndpoint
  provider : String
  podId : String
  gpuInfo : List String := []
  driverVersion : Option String := none
  python : Option String := none
  deriving DecidableEq

structure Probed where
  gpuInfo : List String
  driverVersion : Option String := none
  python : Option String := none
  deriving DecidableEq

/-- The exit of a command, with the text of the error it makes. -/
structure Ran where
  returncode : Int
  text : String

/-- Everything `provision` calls, and the provider's vocabulary. `σ` is the world's state. -/
structure World (σ Offer Transport Entry : Type) where
  /-- The provider's own. -/
  providerName : String
  namePrefix : String
  deadStatuses : List PodStatus := [.exited, .error, .terminated]
  goneStatuses : List PodStatus := [.terminated]
  brokenHost : String → Bool
  terminateAttempts : Nat := 3
  confirmPolls : Nat := 60
  offers : σ → Except Exn (List Offer) × σ
  create : Offer → String → σ → Creation × σ
  get : String → σ → Except Exn (Option Pod) × σ
  logs : String → σ → Except Exn String × σ
  terminate : String → σ → Except Exn Unit × σ
  list : σ → Except Exn (List Pod) × σ
  ensureSshKey : σ → Except Exn Unit × σ
  /-- The clock, the sleeps, and what else is on this machine. -/
  now : σ → Except Exn ℚ × σ
  sleep : ℚ → σ → Except Exn Unit × σ
  report : σ → Except Exn Unit × σ
  /-- What `pod_name` makes of the name hint, and its random half. -/
  hint : String
  token : σ → Except Exn String × σ
  publicKeyPath : σ → Except Exn Unit × σ
  forgetHost : String → String → σ → Except Exn Unit × σ
  register : Entry → σ → Except Exn Unit × σ
  /-- The transport to the pod, and what runs over it. -/
  transportFactory : Address → σ → Except Exn Transport × σ
  run : Transport → σ → Except Exn Ran × σ
  probe : Address → Transport → σ → Except Exn Probed × σ
  connect : Address → Transport → σ → Except Exn Entry × σ
  bootstrap : Entry → Transport → σ → Except Exn Entry × σ
  pollIntervalS : ℚ := 5
  logCheckIntervalS : ℚ := 30

/-- What the log keeps. -/
inductive Event where
  | created (name : String) (creation : Creation)
  /-- A listing of the account's pods was answered. -/
  | listed (pods : List Pod)
  /-- `terminate_confirmed` of the pod returned. -/
  | confirmed (podId : String)
  /-- It was appended to `billing`. -/
  | billed (text : String)
  deriving DecidableEq

/-- The `billing` list of the attempt. -/
def billing (log : List Event) : List String :=
  log.filterMap fun
    | .billed text => some text
    | _ => none

/-- An action of the attempt. -/
abbrev Prog (σ α : Type) := Act σ Event Exn α

section Provider
variable {σ Offer Transport Entry : Type} (w : World σ Offer Transport Entry)

/-- `is_dead`, of a pod there is. -/
def World.isDead (pod : Pod) : Bool := pod.status ∈ w.deadStatuses

/-- `is_gone`. -/
def World.isGone : Option Pod → Bool
  | none => true
  | some pod => pod.status ∈ w.goneStatuses

/-- **`list_ours`**: the account's pods whose names are this attempt's kind. -/
def listOurs : Prog σ (List Pod) := do
  let pods ← Act.call w.list
  Act.emit (.listed pods)
  return pods.filter fun pod => w.namePrefix.toList.isPrefixOf pod.name.toList

/-- `_Progress`: each line reads the clock. -/
def progress : Prog σ Unit := do
  let _ ← Act.call w.now
  Act.call w.report

/-- The terminates of `terminate_confirmed`, with so many attempts left. -/
def terminateBy (podId : String) : Nat → Prog σ Unit
  | 0 => return ()
  | n + 1 => do
    match ← Act.attempt (Act.call (w.terminate podId)) with
    | .ok () => return ()
    | .error e =>
      if !e.isProvider then Act.raise e
      else if n = 0 then Act.raise .provider
      else do
        progress w
        Act.call (w.sleep 5)
        terminateBy podId n

/-- The polls of `terminate_confirmed`, with so many left. -/
def confirmBy (podId : String) : Nat → Prog σ Unit
  | 0 => Act.raise .provider
  | n + 1 => do
    match ← Act.attempt (Act.call (w.get podId)) with
    | .error e =>
      if !e.isProvider then Act.raise e
      else do
        progress w
        Act.call (w.sleep 5)
        confirmBy podId n
    | .ok pod =>
      if w.isGone pod then Act.emit (.confirmed podId)
      else do
        Act.call (w.sleep 5)
        confirmBy podId n

/-- **`Provider.terminate_confirmed`**: end a pod, and return only once the provider says it is gone. -/
def terminateConfirmed (podId : String) : Prog σ Unit := do
  terminateBy w podId w.terminateAttempts
  confirmBy w podId w.confirmPolls

end Provider

end Gpuc.Control
