import Gpuc.Control.Providers

/-!
# Renting a host

`provision` turns a request into a rented host that runs, or gives the money back: it buys a pod of one
offer after the other, brings it up, and terminates it where that fails. `verdict` says what a failure
means for the attempt.

A wait has no bound of its own but the ceiling, which is read off the clock, so the waits here run as
far as their fuel goes, and one that goes further is left `going`.
-/

set_option autoImplicit false

namespace Gpuc.Control

open Gpuc.Basis

/-! ## What a failure costs -/

inductive Verdict where
  | keepWaiting
  | nextOffer
  | abort
  deriving DecidableEq

/-- A letter as a search that ignores case takes it. -/
def foldCase (c : Char) : Char :=
  if c = '\u017f' then 's'
  else if c = '\u212a' then 'k'
  else if c = '\u0130' ∨ c = '\u0131' then 'i'
  else c.toLower

/-- The text has the pattern in it. -/
def hasInside (pattern text : List Char) : Bool :=
  text.tails.any pattern.isPrefixOf

/-- **`SSH_MISCONFIGURED`**: a local ssh problem that no waiting fixes. -/
def sshMisconfigured (text : String) : Bool :=
  let lines := (text.toList.map foldCase).splitOn '\n'
  ["bad configuration option", "no such identity file", "warning: unprotected private key"].any
      (fun pattern => lines.any (hasInside pattern.toList)) ||
    lines.any fun line => line.tails.any fun rest =>
      "identity file ".toList.isPrefixOf rest &&
        hasInside " not accessible".toList (rest.drop "identity file ".length)

/-- **`verdict`**: the one rule for what a failure costs. -/
def verdict (e : Exn) (polling : Bool) : Verdict :=
  match e with
  | .sshUnusable | .localToolMissing | .unprovisionable _ => .abort
  | .transport text =>
    if sshMisconfigured text then .abort else if polling then .keepWaiting else .nextOffer
  | .createRefused | .provider => if polling then .keepWaiting else .nextOffer
  | .provision _ | .bootstrap | .remote => .nextOffer
  | .exception | .interrupt | .exit => .abort

/-- The attempt goes on to the next offer from it. -/
def Exn.goesOn (e : Exn) : Bool := e.recoverable && verdict e false ≠ .abort

section Provision
variable {σ Offer Transport Entry : Type} (w : World σ Offer Transport Entry)

/-- **`_abandon`**: terminate and forget a pod, and `false` if it still bills. -/
def abandon (name podId : String) : Prog σ Bool := do
  progress w
  match ← Act.attempt (terminateConfirmed w podId) with
  | .error e =>
    if e.isProvider then do
      progress w
      return false
    else Act.raise e
  | .ok () =>
    progress w
    Act.call (w.forgetHost name podId)
    return true

/-- A pod that `_abandon` could not end goes on the `billing` list. -/
def abandonOrBill (name podId : String) : Prog σ Unit := do
  let ended ← abandon w name podId
  if ended then return () else Act.emit (.billed podId)

/-- The pods a sweep found, each abandoned, or else billed. -/
def abandonAll (name : String) : List Pod → Prog σ Unit
  | [] => return ()
  | pod :: rest => do
    abandonOrBill w name pod.id
    abandonAll name rest

/-- What `billing` has for a pod no listing could show. -/
def unknownId (name : String) : String := name ++ " (id unknown)"

/-- The pods of a listing that are live under a name. -/
def World.liveUnder (name : String) (pods : List Pod) : List Pod :=
  pods.filter fun pod => pod.name = name ∧ !w.isGone (some pod)

/-- The pause before each poll but the first. -/
def pauseBefore (first : Bool) : Prog σ Unit :=
  if first then return () else Act.call (w.sleep w.pollIntervalS)

/-- The polls of a sweep: how many are left, whether this is the first, and whether one was answered. -/
def sweepPolls (name : String) : Nat → Bool → Bool → Prog σ Bool
  | 0, _, true => do
    progress w
    return true
  | 0, _, false => do
    progress w
    Act.emit (.billed (unknownId name))
    return false
  | n + 1, first, listed => do
    pauseBefore w first
    match ← Act.attempt (listOurs w) with
    | .error e =>
      if e.isProvider then do
        progress w
        sweepPolls name n false listed
      else Act.raise e
    | .ok pods =>
      let found := w.liveUnder name pods
      if found.isEmpty then sweepPolls name n false true
      else do
        abandonAll w name found
        let log ← Act.readLog
        return !found.any fun pod => pod.id ∈ billing log

/-- **`_sweep_failed_create`**: look for a pod that a failed create made anyway, and end it. `false` if
one may still be billing. -/
def sweepFailedCreate (name : String) : Prog σ Bool := do
  progress w
  sweepPolls w name 6 true false

/-! ## Bringing a pod up -/

/-- `_ceiling`. -/
def ceiling (deadline : ℚ) : Prog σ Unit := do
  let now ← Act.call w.now
  if deadline ≤ now then Act.raise (.unprovisionable .ceiling)

/-- `_poll_failure`. -/
def pollFailure (e : Exn) : Prog σ Unit :=
  if verdict e true = .abort then Act.raise (.unprovisionable .misconfigured) else progress w

/-- `_safe_logs`. -/
def safeLogs (podId : String) : Prog σ String := do
  match ← Act.attempt (Act.call (w.logs podId)) with
  | .ok text => return text
  | .error e => if e.isProvider then return "" else Act.raise e

/-- The log check of a pod that boots, when it is time for one: the time of the next. -/
def checkLogs (podId : String) (nextLogCheck : ℚ) : Prog σ ℚ := do
  let now ← Act.call w.now
  if nextLogCheck ≤ now then do
    let now ← Act.call w.now
    let text ← safeLogs w podId
    if w.brokenHost text then Act.raise (.provision .brokenHost) else return now + w.logCheckIntervalS
  else return nextLogCheck

/-- The report of a state that is not the last one reported. -/
def noteState (last : Option (PodStatus × Bool)) (state : PodStatus × Bool) : Prog σ Unit :=
  if last = some state then return () else progress w

/-- One look at a pod that boots: it is ready, or the wait goes on with what it has seen and when it is
to read the logs. -/
def lookAtPod (podId : String) (deadline : ℚ) (seen : Option (PodStatus × Bool) × ℚ) :
    Prog σ (Pod ⊕ (Option (PodStatus × Bool) × ℚ)) := do
  match ← Act.attempt (Act.call (w.get podId)) with
  | .error e =>
    if !e.isProvider then Act.raise e
    else do
      pollFailure w e
      ceiling w deadline
      Act.call (w.sleep w.pollIntervalS)
      return .inr seen
  | .ok none => Act.raise (.provision .vanished)
  | .ok (some current) => do
    let state := (current.status, current.sshDirect.isSome)
    noteState w seen.1 state
    if w.isDead current then do
      let _ ← safeLogs w podId
      Act.raise (.provision .dead)
    else if current.sshDirect.isSome then return .inl current
    else do
      let nextLogCheck ← checkLogs w podId seen.2
      ceiling w deadline
      Act.call (w.sleep w.pollIntervalS)
      return .inr (some state, nextLogCheck)

/-- **`_wait_for_ssh_direct`**. -/
def waitForSshDirect (fuel : Nat) (pod : Pod) (deadline : ℚ) : Prog σ Pod := do
  let now ← Act.call w.now
  Act.forever (lookAtPod w pod.id deadline) fuel (none, now + w.logCheckIntervalS)

/-- The report of an ssh that is not up, when it is time for one: the time of the next. -/
def reportWait (nextReport : ℚ) : Prog σ ℚ := do
  let now ← Act.call w.now
  if nextReport ≤ now then do
    let now ← Act.call w.now
    progress w
    return now + 60
  else return nextReport

/-- One command over ssh. -/
def sshAnswers (transport : Transport) : Prog σ Unit := do
  let result ← Act.call (w.run transport)
  if result.returncode = 0 then progress w else Act.raise (.transport result.text)

/-- One try of ssh: it answered, or the wait goes on with the next pause and when it is to be
reported. -/
def trySsh (transport : Transport) (deadline : ℚ) (wait : ℚ × ℚ) : Prog σ (Unit ⊕ (ℚ × ℚ)) := do
  match ← Act.attempt (sshAnswers w transport) with
  | .ok () => return .inl ()
  | .error e =>
    if !e.isTransport then Act.raise e
    else if verdict e true = .abort then Act.raise (.unprovisionable .misconfigured)
    else do
      let nextReport ← reportWait w wait.2
      ceiling w deadline
      Act.call (w.sleep wait.1)
      return .inr (min (wait.1 * (3 / 2)) 15, nextReport)

/-- **`_wait_for_ssh`**. -/
def waitForSsh (fuel : Nat) (transport : Transport) (deadline : ℚ) : Prog σ Unit :=
  Act.forever (trySsh w transport deadline) fuel (2, 0)

/-- `rented.address_for`. -/
def addressFor (name : String) (pod : Pod) (provider : String) : Option Address :=
  pod.sshDirect.map fun endpoint => { name, endpoint, provider, podId := pod.id }

/-- The middle of `_try_offer`: from a pod there is to its entry in the registry. -/
def bringUp (fuel : Nat) (name : String) (pod : Pod) (deadline : ℚ) : Prog σ Entry := do
  let pod ← waitForSshDirect w fuel pod deadline
  progress w
  match addressFor name pod w.providerName with
  | none => Act.raise (.provision .noEndpoint)
  | some address => do
    let transport ← Act.call (w.transportFactory address)
    waitForSsh w fuel transport deadline
    let probed ← Act.call (w.probe address transport)
    if probed.gpuInfo = [] then Act.raise (.provision .noCards)
    else do
      let address := { address with
        gpuInfo := probed.gpuInfo, driverVersion := probed.driverVersion, python := probed.python }
      progress w
      let entry ← Act.call (w.connect address transport)
      Act.call (w.register entry)
      let entry ← Act.call (w.bootstrap entry transport)
      Act.call (w.register entry)
      progress w
      return entry

/-! ## Offers -/

/-- `pod_name`. -/
def podName (token : String) : String := w.namePrefix ++ w.hint ++ "-" ++ token

/-- A create, with what it made kept beside its answer. -/
def create (offer : Offer) (name : String) : Prog σ Creation := fun s =>
  let (creation, world) := w.create offer name s.world
  (.returned creation, { world, log := s.log ++ [.created name creation] })

/-- What `_try_offer` does of a create that was not answered with a pod. -/
def createFailed (name : String) (e : Exn) : Prog σ Entry :=
  if e = .createRefused then Act.raise e
  else do
    match ← Act.attempt (sweepFailedCreate w name) with
    | .error e' =>
      if e' = .interrupt then do
        progress w
        Act.emit (.billed (unknownId name))
        Act.raise e'
      else Act.raise e'
    | .ok settled =>
      if !settled && e.isException then Act.raise (.unprovisionable .maybeBilling) else Act.raise e

/-- The report of a pod that was just made, with what is left of the ceiling. -/
def announce : Prog σ Unit := do
  let _ ← Act.call w.now
  progress w

/-- What `_try_offer` does of a pod there is. The first report stands before the block that
terminates. -/
def podMade (fuel : Nat) (name : String) (pod : Pod) (deadline : ℚ) : Prog σ Entry := do
  announce w
  match ← Act.attempt (bringUp w fuel name pod deadline) with
  | .ok entry => return entry
  | .error e => do
    abandonOrBill w name pod.id
    Act.raise e

/-- What `_try_offer` does of the answer to its create. -/
def afterCreate (fuel : Nat) (name : String) (creation : Creation) (deadline : ℚ) : Prog σ Entry :=
  match creation.answer with
  | .error e => createFailed w name e
  | .ok pod => podMade w fuel name pod deadline

/-- **`_try_offer`**: one offer, start to finish. -/
def tryOffer (fuel : Nat) (offer : Offer) (deadline : ℚ) : Prog σ Entry := do
  let token ← Act.call w.token
  let name := podName w token
  progress w
  let creation ← create w offer name
  afterCreate w fuel name creation deadline

/-- The offers of `provision`, one after the other. -/
def tryOffers (fuel : Nat) (deadline : ℚ) : List Offer → Prog σ Entry
  | [] => do
    let log ← Act.readLog
    Act.raise (.provision (.everyOffer (billing log)))
  | offer :: rest => do
    let now ← Act.call w.now
    if deadline ≤ now then tryOffers fuel deadline rest
    else
      match ← Act.attempt (tryOffer w fuel offer deadline) with
      | .ok entry => return entry
      | .error e =>
        if !e.recoverable then Act.raise e
        else if verdict e false = .abort then do
          let log ← Act.readLog
          Act.raise (.provision (.stopped (billing log)))
        else do
          progress w
          tryOffers fuel deadline rest

/-- What `provision` does before the first offer: the offers, and when the ceiling passes. -/
def openAttempt : Prog σ (List Offer × ℚ) := do
  let _ ← Act.call w.now
  Act.call w.publicKeyPath
  Act.call w.ensureSshKey
  progress w
  let offers ← Act.call w.offers
  if offers.isEmpty then Act.raise (.provision .noOffers)
  else do
    let now ← Act.call w.now
    progress w
    return (offers, now + 15 * 60)

/-- **`provision`**: create, wait for, bootstrap and register one pod. -/
def provision (fuel : Nat) : Prog σ Entry := do
  let (offers, deadline) ← openAttempt w
  tryOffers w fuel deadline offers

end Provision

end Gpuc.Control
