import Mathlib.Data.Int.ConditionallyCompleteOrder
import Mathlib.Data.Rat.Floor
import Mathlib.Tactic.Linarith
import Mathlib.Tactic.Ring
import Gpuc.Host.Owner

/-!
# A live owner is left its queue

The owner renews its record within every `STALE_S` (`LiveOwner`), so two looks of a newcomer that find
the same record are less than that apart. What can still cost it the queue is a look that finds no
record, whatever the reason (`Look.reads`), and a newcomer that is held up between a look and the
check that follows (`LiveOwner.HeldUp`): `claim_busy_iff` says there is nothing else.
-/

set_option autoImplicit false

namespace Gpuc.Host.Owner

open Gpuc.Basis
open Gpuc.Host.Documents

/-! ## The newcomer's clock -/

namespace Watch
variable (w : Watch)

theorem looked_mono : Monotone fun k => (w.poll k).looked :=
  monotone_nat_of_le_succ fun k => by
    have hmoved := w.looked_le k
    have hchecked := w.moved_le k
    have hlate := w.checked_le k
    have hnext := w.sleeps k
    linarith

theorem moved_mono : Monotone fun k => (w.poll k).moved :=
  monotone_nat_of_le_succ fun k => by
    have hchecked := w.moved_le k
    have hlate := w.checked_le k
    have hnext := w.sleeps k
    have hmoved := w.looked_le (k + 1)
    linarith

/-- Every round takes a second. -/
theorem start_add_le (k : Nat) : w.start + k ≤ (w.poll k).late := by
  induction k with
  | zero =>
    have hmoved := w.start_le
    have hchecked := w.moved_le 0
    have hlate := w.checked_le 0
    rw [Nat.cast_zero]
    linarith
  | succ k ih =>
    have hnext := w.sleeps k
    have hmoved := w.looked_le (k + 1)
    have hchecked := w.moved_le (k + 1)
    have hlate := w.checked_le (k + 1)
    rw [Nat.cast_succ]
    linarith

/-- The rounds before it all end before the deadline. -/
def Reaches (deadline : Seconds) (k : Nat) : Prop := ∀ i < k, (w.poll i).late < deadline

theorem Reaches.succ {w : Watch} {deadline : Seconds} {k : Nat} (h : w.Reaches deadline k)
    (hlate : (w.poll k).late < deadline) : w.Reaches deadline (k + 1) := fun i hi => by
  rcases Nat.lt_succ_iff_lt_or_eq.mp hi with hi | rfl
  · exact h i hi
  · exact hlate

/-- The rounds a claim is given are enough. -/
theorem deadline_le (waitS : Seconds) : w.start + waitS ≤ (w.poll waitS.ceil.toNat).late := by
  have hceil : waitS ≤ (waitS.ceil.toNat : Seconds) := by
    have hle : waitS ≤ (waitS.ceil : ℚ) := Rat.le_ceil
    have hnat : (waitS.ceil : ℚ) ≤ ((waitS.ceil.toNat : ℤ) : ℚ) :=
      Int.cast_le.mpr (Int.self_le_toNat _)
    rw [Int.cast_natCast] at hnat
    exact hle.trans hnat
  have hstart := w.start_add_le waitS.ceil.toNat
  linarith

end Watch

/-! ## The owner -/

/-- **A machine that renews its record**: by the newcomer's clock, at least once within every `STALE_S`,
each time with a modification time of its own. -/
structure LiveOwner where
  name : String
  named : name ≠ ""
  /-- Which renewal of the record is the last, counted from any one of them. -/
  renewals : Seconds → Int
  renewals_mono : Monotone renewals
  renews : ∀ time, renewals time < renewals (time + staleS)
  /-- The modification time a renewal gives the record. -/
  stamp : Int → Seconds
  stamp_injective : Function.Injective stamp

/-- The look finds a record. -/
def Look.reads : Look → Prop
  | .found _ _ => True
  | .gone | .unreadable _ => False

namespace LiveOwner
variable (owner : LiveOwner)

/-- The record as it stands at a time. -/
def record (time : Seconds) : String × Seconds := (owner.name, owner.stamp (owner.renewals time))

/-- What a look may see: the record as it stands, or nothing it can read. -/
def Seen (time : Seconds) : Look → Prop
  | .gone | .unreadable _ => True
  | .found renewed document =>
    renewed = (owner.record time).2 ∧ (fieldsOf document).get? "instance" = some (.str owner.name)

/-- **The newcomer is held up**: the record has not been renewed since an earlier look, and by the check
`STALE_S` have gone by since that one. -/
def HeldUp (w : Watch) (k : Nat) : Prop :=
  ∃ j ≤ k, owner.renewals (w.poll j).looked = owner.renewals (w.poll k).looked ∧
    staleS ≤ (w.poll k).checked - (w.poll j).moved

/-- Every round that is come to reads the record and is not held up. -/
def LeftAlone (w : Watch) (deadline : Seconds) : Prop :=
  ∀ k, w.Reaches deadline k → (w.poll k).look.reads ∧ ¬ owner.HeldUp w k

variable {owner}

/-- Looks that find the same record are less than `STALE_S` apart. -/
theorem lt_of_renewals_eq {first second : Seconds}
    (h : owner.renewals first = owner.renewals second) : second < first + staleS := by
  by_contra hlong
  have hrenewed := owner.renews first
  have hmono := owner.renewals_mono (not_lt.mp hlong)
  omega

/-- Who is held up is held up between a look and its check. -/
theorem HeldUp.stalls {w : Watch} {k : Nat} (h : owner.HeldUp w k) :
    (w.poll k).looked < (w.poll k).checked := by
  obtain ⟨j, -, hsame, hquiet⟩ := h
  have hapart := lt_of_renewals_eq hsame
  have hmoved := w.looked_le j
  linarith

theorem record_eq_iff {first second : Seconds} :
    owner.record first = owner.record second ↔ owner.renewals first = owner.renewals second :=
  ⟨fun h => owner.stamp_injective (congrArg Prod.snd h), fun h => by rw [record, h]; rfl⟩

theorem current_of_reads (t : Texts) {look : Look} {time : Seconds} (hseen : owner.Seen time look)
    (hreads : look.reads) : current t look = .ok (some (owner.record time)) := by
  cases look with
  | found renewed document =>
    obtain ⟨rfl, hname⟩ := hseen
    have hgiven : given document "instance" = some (.str owner.name) := by rw [given, hname]
    have howner : asOptStr t document "instance" = .ok (some owner.name) := by
      rw [asOptStr, hgiven]
      rfl
    rw [current, howner]
    show Except.ok (((some owner.name).filter _).map _) = _
    rw [Option.filter_some, if_pos (decide_eq_true owner.named)]
    rfl
  | _ => exact hreads.elim

end LiveOwner

theorem current_of_not_reads (t : Texts) {look : Look} (h : ¬ look.reads) :
    current t look = .ok none := by
  cases look with
  | found => exact absurd trivial h
  | _ => rfl

/-! ## The loop -/

/-- **How the loop stands at its `k`-th round**: the record of that round was first seen in round `j`. -/
structure Watching (owner : LiveOwner) (w : Watch) (deadline : Seconds) (k j : Nat) : Prop where
  reached : w.Reaches deadline k
  reads : (w.poll k).look.reads
  le : j ≤ k
  same : owner.renewals (w.poll j).looked = owner.renewals (w.poll k).looked
  first : ∀ i, owner.renewals (w.poll i).looked = owner.renewals (w.poll k).looked → j ≤ i

section Claim
variable {t : Texts} {me : OwnerRecord} {w : Watch} {owner : LiveOwner} {deadline : Seconds} {k j : Nat}

namespace Watching

/-- The quiet is counted from the first round of the record, so it is over as soon as it is from any. -/
theorem heldUp_iff (h : Watching owner w deadline k j) :
    owner.HeldUp w k ↔ staleS ≤ (w.poll k).checked - (w.poll j).moved := by
  constructor
  · rintro ⟨i, -, hsame, hquiet⟩
    have hmoved : (w.poll j).moved ≤ (w.poll i).moved := w.moved_mono (h.first i hsame)
    linarith
  · intro hquiet
    exact ⟨j, h.le, h.same, hquiet⟩

/-- The next round finds the record renewed. -/
theorem renewed (h : Watching owner w deadline k j) (hlate : (w.poll k).late < deadline)
    (hreads : (w.poll (k + 1)).look.reads)
    (hrenewed : owner.renewals (w.poll (k + 1)).looked ≠ owner.renewals (w.poll k).looked) :
    Watching owner w deadline (k + 1) (k + 1) where
  reached := h.reached.succ hlate
  reads := hreads
  le := le_rfl
  same := rfl
  first i hsame := by
    -- the renewals between the two rounds stand between every earlier look and this one
    by_contra hearlier
    have hle : (w.poll i).looked ≤ (w.poll k).looked := w.looked_mono (by omega)
    have hnext : (w.poll k).looked ≤ (w.poll (k + 1)).looked := w.looked_mono (Nat.le_succ k)
    have hbefore := owner.renewals_mono hle
    have hafter := owner.renewals_mono hnext
    omega

/-- The next round finds the record as it was. -/
theorem unchanged (h : Watching owner w deadline k j) (hlate : (w.poll k).late < deadline)
    (hreads : (w.poll (k + 1)).look.reads)
    (hsame : owner.renewals (w.poll (k + 1)).looked = owner.renewals (w.poll k).looked) :
    Watching owner w deadline (k + 1) j where
  reached := h.reached.succ hlate
  reads := hreads
  le := h.le.trans (Nat.le_succ k)
  same := h.same.trans hsame.symm
  first i hi := h.first i (hi.trans hsame)

end Watching

/-- What is left alone from a round on is left alone in it, and from the next one on. -/
theorem leftAlone_from (k : Nat) :
    (∀ m, k ≤ m → w.Reaches deadline m → (w.poll m).look.reads ∧ ¬ owner.HeldUp w m) ↔
      (w.Reaches deadline k → (w.poll k).look.reads ∧ ¬ owner.HeldUp w k) ∧
      ∀ m, k + 1 ≤ m → w.Reaches deadline m → (w.poll m).look.reads ∧ ¬ owner.HeldUp w m := by
  constructor
  · intro h
    exact ⟨h k le_rfl, fun m hm => h m (Nat.le_of_succ_le hm)⟩
  · intro ⟨hk, hrest⟩ m hm
    rcases Nat.eq_or_lt_of_le hm with rfl | hlt
    · exact hk
    · exact hrest m hlt

/-- The rounds from `k` on leave the record alone. -/
def LeftAloneFrom (owner : LiveOwner) (w : Watch) (deadline : Seconds) (k : Nat) : Prop :=
  ∀ m, k ≤ m → w.Reaches deadline m → (w.poll m).look.reads ∧ ¬ owner.HeldUp w m

/-- A round that finds the record quiet does not. -/
theorem Watching.not_leftAlone (h : Watching owner w deadline k j)
    (hquiet : staleS ≤ (w.poll k).checked - (w.poll j).moved) :
    ¬ LeftAloneFrom owner w deadline k := fun hleft =>
  (hleft k le_rfl h.reached).2 (h.heldUp_iff.mpr hquiet)

theorem LeftAloneFrom.iff_next (h : Watching owner w deadline k j) (hkept : ¬ owner.HeldUp w k) :
    LeftAloneFrom owner w deadline k ↔ LeftAloneFrom owner w deadline (k + 1) := by
  refine ⟨fun hleft m hm => hleft m (Nat.le_of_succ_le hm), fun hleft m hm => ?_⟩
  rcases Nat.eq_or_lt_of_le hm with rfl | hlt
  · exact fun _ => ⟨h.reads, hkept⟩
  · exact hleft m hlt

/-- A round that comes to the deadline is the last. -/
theorem LeftAloneFrom.of_late (hlate : deadline ≤ (w.poll k).late) :
    LeftAloneFrom owner w deadline (k + 1) := fun _ hm hreach =>
  absurd (hreach k hm) (not_lt.mpr hlate)

/-- **From a round on, the loop raises `Busy` exactly when the rounds it comes to leave the record
alone.** -/
theorem watchOn_busy (hother : owner.name ≠ me.instance')
    (hseen : ∀ k, owner.Seen (w.poll k).looked (w.poll k).look) {rounds : Nat}
    (h : Watching owner w deadline k j) (henough : deadline ≤ (w.poll (k + rounds)).late) :
    watchOn t me w deadline (rounds + 1) k (owner.record (w.poll k).looked) (w.poll j).moved
        = some (.busy owner.name) ↔ LeftAloneFrom owner w deadline k := by
  induction rounds generalizing k j with
  | zero =>
    replace henough : deadline ≤ (w.poll k).late := henough
    rw [watchOn]
    split
    · next hquiet =>
      exact ⟨fun hbusy => (nomatch hbusy), fun hleft => absurd hleft (h.not_leftAlone hquiet)⟩
    · next hquiet =>
      have hkept : ¬ owner.HeldUp w k := fun hheld => hquiet (h.heldUp_iff.mp hheld)
      rw [LeftAloneFrom.iff_next h hkept]
      exact ⟨fun _ => .of_late henough, fun _ => congrArg some rfl⟩
  | succ rounds ih =>
    rw [watchOn]
    split
    · next hquiet =>
      exact ⟨fun hbusy => (nomatch hbusy), fun hleft => absurd hleft (h.not_leftAlone hquiet)⟩
    · next hquiet =>
      have hkept : ¬ owner.HeldUp w k := fun hheld => hquiet (h.heldUp_iff.mp hheld)
      rw [LeftAloneFrom.iff_next h hkept]
      split
      · next hlate => exact ⟨fun _ => .of_late hlate, fun _ => rfl⟩
      · next hlate =>
        replace hlate := not_le.mp hlate
        have hnext : deadline ≤ (w.poll (k + 1 + rounds)).late := by
          rw [Nat.add_right_comm]
          exact henough
        by_cases hreads : (w.poll (k + 1)).look.reads
        · rw [LiveOwner.current_of_reads t (hseen (k + 1)) hreads]
          show (if owner.name = me.instance' then _ else _) = _ ↔ _
          rw [if_neg hother]
          by_cases hsame : owner.renewals (w.poll (k + 1)).looked = owner.renewals (w.poll k).looked
          · have hrecord := LiveOwner.record_eq_iff.mpr hsame
            rw [if_neg (not_not.mpr hrecord), ← hrecord]
            exact ih (h.unchanged hlate hreads hsame) hnext
          · rw [if_pos fun heq => hsame (LiveOwner.record_eq_iff.mp heq)]
            exact ih (h.renewed hlate hreads hsame) hnext
        · rw [current_of_not_reads t hreads]
          refine ⟨fun hbusy => (nomatch hbusy), fun hleft => absurd ?_ hreads⟩
          exact (hleft (k + 1) le_rfl (h.reached.succ hlate)).1

/-! ## A claim -/

/-- A claim never runs out of rounds: one that is not `Busy` has written the record, or raised. -/
theorem watchOn_ends {rounds : Nat} (record : String × Seconds) (quietSince : Seconds)
    (henough : deadline ≤ (w.poll (k + rounds)).late) :
    ∃ outcome, watchOn t me w deadline (rounds + 1) k record quietSince = some outcome := by
  induction rounds generalizing k record quietSince with
  | zero =>
    rw [watchOn]
    split
    · exact ⟨_, rfl⟩
    · exact ⟨_, if_pos henough⟩
  | succ rounds ih =>
    have hnext : deadline ≤ (w.poll (k + 1 + rounds)).late := by
      rw [Nat.add_right_comm]
      exact henough
    rw [watchOn]
    repeat' split
    all_goals first | exact ⟨_, rfl⟩ | exact ih _ _ hnext

theorem claim_returns (t : Texts) (me : OwnerRecord) (waitS : Seconds) (w : Watch) :
    ∃ outcome, claim t me waitS w = some outcome := by
  unfold claim
  have henough : w.start + waitS ≤ (w.poll (0 + waitS.ceil.toNat)).late := by
    rw [Nat.zero_add]
    exact w.deadline_le waitS
  repeat' split
  all_goals first | exact ⟨_, rfl⟩ | exact watchOn_ends _ _ henough

/-- **A live owner whose record is not long gone is left its queue exactly when every look that is come
to reads the record and no round is held up.** -/
theorem claim_busy_iff (t : Texts) {me : OwnerRecord} (waitS : Seconds) {w : Watch}
    {owner : LiveOwner} (hother : owner.name ≠ me.instance')
    (hseen : ∀ k, owner.Seen (w.poll k).looked (w.poll k).look)
    (hrecent : w.wall - (owner.record (w.poll 0).looked).2 < longGoneS) :
    claim t me waitS w = some (.busy owner.name) ↔ owner.LeftAlone w (w.start + waitS) := by
  have henough : w.start + waitS ≤ (w.poll (0 + waitS.ceil.toNat)).late := by
    rw [Nat.zero_add]
    exact w.deadline_le waitS
  have hfrom : owner.LeftAlone w (w.start + waitS) ↔ LeftAloneFrom owner w (w.start + waitS) 0 :=
    ⟨fun h m _ => h m, fun h m => h m (Nat.zero_le m)⟩
  have hreached : w.Reaches (w.start + waitS) 0 := fun i hi => absurd hi (Nat.not_lt_zero i)
  unfold claim
  by_cases hreads : (w.poll 0).look.reads
  · rw [LiveOwner.current_of_reads t (hseen 0) hreads, hfrom]
    show (if owner.name = me.instance' then _ else _) = _ ↔ _
    rw [if_neg hother, if_pos hrecent]
    exact watchOn_busy hother hseen
      ⟨hreached, hreads, le_rfl, rfl, fun i _ => Nat.zero_le i⟩ henough
  · rw [current_of_not_reads t hreads]
    exact ⟨fun hbusy => (nomatch hbusy), fun hleft => absurd (hleft 0 hreached).1 hreads⟩

/-- **A newcomer whose every look reads the record, at the moment it checks, never takes a live owner's
queue.** -/
theorem claim_busy_of_prompt (t : Texts) {me : OwnerRecord} (waitS : Seconds) {w : Watch}
    {owner : LiveOwner} (hother : owner.name ≠ me.instance')
    (hseen : ∀ k, owner.Seen (w.poll k).looked (w.poll k).look)
    (hrecent : w.wall - (owner.record (w.poll 0).looked).2 < longGoneS)
    (hreads : ∀ k, (w.poll k).look.reads) (hprompt : ∀ k, (w.poll k).checked = (w.poll k).looked) :
    claim t me waitS w = some (.busy owner.name) :=
  (claim_busy_iff t waitS hother hseen hrecent).mpr fun k _ =>
    ⟨hreads k, fun hheld => absurd hheld.stalls (hprompt k).le.not_gt⟩

end Claim

/-! ## A look that fails -/

/-- A machine that renews its record every five seconds, by a clock that agrees with the newcomer's. -/
def everyFive : LiveOwner where
  name := "other/boot"
  named := by decide
  renewals time := ⌊time / 5⌋
  renewals_mono _ _ h := Int.floor_le_floor (by linarith)
  renews time := by
    have hlater : (time + staleS) / 5 = time / 5 + (6 : ℤ) := by
      unfold staleS
      push_cast
      ring
    rw [hlater, Int.floor_add_intCast]
    omega
  stamp n := 5 * n
  stamp_injective _ _ h := by
    have heq := mul_left_cancel₀ (by norm_num) h
    exact_mod_cast heq

/-- The record as a look finds it at a time. -/
def everyFive.found (time : Seconds) : Look :=
  .found (everyFive.record time).2 (.obj [("instance", .str "other/boot")])

/-- A newcomer that looks every second, no time passing but in its sleep. -/
def everySecond (look : Nat → Look) : Watch where
  wall := 0
  start := 0
  poll k := { look := look k, looked := k, moved := k, checked := k, late := k }
  start_le := le_of_eq Nat.cast_zero.symm
  looked_le _ := le_rfl
  moved_le _ := le_rfl
  checked_le _ := le_rfl
  sleeps k := le_of_eq (Nat.cast_succ k).symm

/-- It reads the record in every round but the fourth. -/
def missedRead : Watch :=
  everySecond fun k => if k = 3 then .unreadable 0 else everyFive.found k

def newcomer : OwnerRecord := { instance' := "me/boot", host := "pod", since := "2026-01-01T00:00:00Z" }

theorem missedRead_seen (k : Nat) :
    everyFive.Seen (missedRead.poll k).looked (missedRead.poll k).look := by
  show everyFive.Seen k (if k = 3 then _ else _)
  split
  · trivial
  · exact ⟨rfl, rfl⟩

/-- **One read that fails takes the queue from a machine that has just renewed its record.** -/
theorem missedRead_taken :
    (∀ k, everyFive.Seen (missedRead.poll k).looked (missedRead.poll k).look) ∧
    missedRead.wall - (everyFive.record (missedRead.poll 0).looked).2 < longGoneS ∧
    claim plainTexts newcomer claimWaitS missedRead = some (.claimed newcomer none) := by
  refine ⟨missedRead_seen, by decide +kernel, by decide +kernel⟩

theorem missedRead_busy_iff :
    claim plainTexts newcomer claimWaitS missedRead = some (.busy "other/boot") ↔
      everyFive.LeftAlone missedRead (0 + claimWaitS) :=
  claim_busy_iff plainTexts claimWaitS (by decide) missedRead_seen (by decide +kernel)

end Gpuc.Host.Owner
