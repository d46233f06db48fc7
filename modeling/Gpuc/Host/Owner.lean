import Gpuc.Host.Documents

/-!
# Which machine serves a queue

`owner.json` names the machine that serves the queue, and that machine renews the file's modification
time. A newcomer watches the record for as long as it takes to go quiet, or until it has watched long
enough to leave the queue to its owner.

What a newcomer sees is a `Watch`: one round after another, each with what reading the record came to
and with what the newcomer's clock reads at each point of the loop it passes. The clock runs on, and a
round sleeps a second before it looks.
-/

set_option autoImplicit false

namespace Gpuc.Host.Owner

open Gpuc.Basis
open Gpuc.Host.Documents

/-- `STALE_S`. -/
def staleS : Seconds := 30

/-- `LONG_GONE_S`. -/
def longGoneS : Seconds := 10 * staleS

/-- `CLAIM_WAIT_S`. -/
def claimWaitS : Seconds := staleS + 5

/-- `owner.json`, as a claim writes it. -/
structure OwnerRecord where
  instance' : String
  host : String
  since : String
  deriving DecidableEq, Repr

/-! ## Reading the record -/

/-- What reading `owner.json` comes to. -/
inductive Look where
  /-- There is no such file, or it cannot be stat'ed. -/
  | gone
  /-- It is there, and `read_json` gives up on it. -/
  | unreadable (renewed : Seconds)
  | found (renewed : Seconds) (document : Json)

/-- **`current`**: the instance the record names and its modification time, or nothing without a
readable record. -/
def current (t : Texts) : Look → Except Raised (Option (String × Seconds))
  | .gone | .unreadable _ => .ok none
  | .found renewed document => do
    let owner ← asOptStr t document "instance"
    pure ((owner.filter fun owner => owner ≠ "").map fun owner => (owner, renewed))

/-! ## Watching it -/

/-- One round of the loop: what the look at its start saw, and the newcomer's clock at the look, where
`quiet_since` is taken, where the quiet is checked and where the deadline is. -/
structure Poll where
  look : Look
  looked : Seconds
  moved : Seconds
  checked : Seconds
  late : Seconds

/-- **Everything a newcomer sees.** -/
structure Watch where
  /-- The time of day after the first look. -/
  wall : Seconds
  /-- The clock where the deadline is counted from. -/
  start : Seconds
  poll : Nat → Poll
  start_le : start ≤ (poll 0).moved
  looked_le : ∀ k, (poll k).looked ≤ (poll k).moved
  moved_le : ∀ k, (poll k).moved ≤ (poll k).checked
  checked_le : ∀ k, (poll k).checked ≤ (poll k).late
  /-- `sleep(1.0)`. -/
  sleeps : ∀ k, (poll k).late + 1 ≤ (poll (k + 1)).looked

/-- What a claim comes to. -/
inductive Outcome where
  /-- `Busy` is raised: the named machine is serving the queue. Nothing is written. -/
  | busy (owner : String)
  /-- The record is written, over the one of the machine it took over from, if any. -/
  | claimed (record : OwnerRecord) (previous : Option String)
  | raised (raised : Raised)
  deriving DecidableEq

section Claim
variable (t : Texts) (me : OwnerRecord)

/-- The loop of `claim`, from its `k`-th round, for `rounds` of them at most. -/
def watchOn (w : Watch) (deadline : Seconds) :
    Nat → Nat → String × Seconds → Seconds → Option Outcome
  | 0, _, _, _ => none
  | rounds + 1, k, record, quietSince =>
    if staleS ≤ (w.poll k).checked - quietSince then some (.claimed me (some record.1))
    else if deadline ≤ (w.poll k).late then some (.busy record.1)
    else
      match current t (w.poll (k + 1)).look with
      | .error raised => some (.raised raised)
      | .ok none => some (.claimed me none)
      | .ok (some seen) =>
        if seen.1 = me.instance' then some (.claimed me none)
        else if seen ≠ record then watchOn w deadline rounds (k + 1) seen (w.poll (k + 1)).moved
        else watchOn w deadline rounds (k + 1) record quietSince

/-- A round takes a second at least, so no more of them than this come before the deadline. -/
def roundsIn (waitS : Seconds) : Nat := waitS.ceil.toNat + 1

/-- **`claim`**. -/
def claim (waitS : Seconds) (w : Watch) : Option Outcome :=
  match current t (w.poll 0).look with
  | .error raised => some (.raised raised)
  | .ok none => some (.claimed me none)
  | .ok (some record) =>
    if record.1 = me.instance' then some (.claimed me none)
    else if w.wall - record.2 < longGoneS then
      watchOn t me w (w.start + waitS) (roundsIn waitS) 0 record (w.poll 0).moved
    else some (.claimed me (some record.1))

end Claim

end Gpuc.Host.Owner
