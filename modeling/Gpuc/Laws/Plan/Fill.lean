import Gpuc.Laws.Plan.Walk

/-!
# The cards a filler is given

A filler takes the free cards open to it, owned before borrowed, and of either kind the unheld ones
first. Of its owned cards it then sits on as few held ones as it can, and so of its shared cards; of all
of them it need not, for a held owned card comes before an unheld shared one.
-/

set_option autoImplicit false

namespace Gpuc.Host

open Gpuc.Basis

namespace Walk

variable {w : Walk} {r : Request}

/-- The free owned cards open to a filler. -/
def openOwned (w : Walk) : List Uuid := w.pool.ownedFree.filter w.openToIt

/-- The free shared cards open to it, if it borrows. -/
def openShared (w : Walk) (r : Request) : List Uuid :=
  if r.borrows then w.pool.borrowable.1.filter w.openToIt else []

/-- How many of the cards somebody holds. -/
def countHeld (w : Walk) (cards : List Uuid) : Nat := cards.countP fun c => (w.held c).isSome

/-- How many of the cards nobody holds. -/
def countUnheld (w : Walk) (cards : List Uuid) : Nat := cards.countP fun c => !(w.held c).isSome

/-- **A choice of cards that would start the job**: as many as it asks for, of those open to it. -/
def Starts (w : Walk) (r : Request) (cards : List Uuid) : Prop :=
  List.Subperm cards (w.openOwned ++ w.openShared r) ∧ cards.length = r.gpus

theorem length_eq_counts (w : Walk) (cards : List Uuid) :
    cards.length = w.countHeld cards + w.countUnheld cards := by
  have h := List.length_eq_countP_add_countP (fun c => (w.held c).isSome) (l := cards)
  simp only [Bool.not_eq_true, Bool.decide_eq_false] at h
  exact h

theorem openFor_eq (w : Walk) (r : Request) :
    w.openFor r = sortedBy (fun c => (w.held c).isSome) w.openOwned
      ++ sortedBy (fun c => (w.held c).isSome) (w.openShared r) := by
  unfold openFor openShared openOwned
  split
  · rfl
  · rfl

theorem openFor_perm (w : Walk) (r : Request) :
    (w.openFor r).Perm (w.openOwned ++ w.openShared r) := by
  rw [openFor_eq]
  exact (sortedBy_perm _ _).append (sortedBy_perm _ _)

/-- The held cards among those a filler is given. -/
theorem countHeld_take (w : Walk) (r : Request) (n : Nat) :
    w.countHeld ((w.openFor r).take n)
      = (min n w.openOwned.length - w.countUnheld w.openOwned)
        + (min (n - w.openOwned.length) (w.openShared r).length - w.countUnheld (w.openShared r)) := by
  rw [openFor_eq, List.take_append, length_sortedBy, countHeld, List.countP_append,
    countP_take_sortedBy, countP_take_sortedBy]
  rfl

/-- No choice holds fewer cards than the unheld ones leave it short of, and one holds no more. -/
theorem fewest_held (w : Walk) (r : Request)
    (henough : r.gpus ≤ w.openOwned.length + (w.openShared r).length) :
    (∀ cards, w.Starts r cards → r.gpus - (w.countUnheld w.openOwned
      + w.countUnheld (w.openShared r)) ≤ w.countHeld cards) ∧
      ∃ cards, w.Starts r cards ∧ w.countHeld cards
        = r.gpus - (w.countUnheld w.openOwned + w.countUnheld (w.openShared r)) := by
  constructor
  · rintro cards ⟨hsub, hlength⟩
    have hunheld : w.countUnheld cards
        ≤ w.countUnheld w.openOwned + w.countUnheld (w.openShared r) := by
      have h := hsub.countP_le (fun c => !(w.held c).isSome)
      rwa [List.countP_append] at h
    have hcounts := length_eq_counts w cards
    omega
  · -- sorted all together, the unheld cards of either kind come first
    refine ⟨(sortedBy (fun c => (w.held c).isSome) (w.openOwned ++ w.openShared r)).take r.gpus,
      ⟨?_, ?_⟩, ?_⟩
    · exact (List.take_sublist _ _).subperm.trans (sortedBy_perm _ _).subperm
    · rw [List.length_take, length_sortedBy, List.length_append]
      omega
    · rw [countHeld, countP_take_sortedBy, List.length_append, List.countP_append]
      unfold countUnheld
      omega

end Walk

/-- **A filler sits on as few held cards as it can exactly when no held owned card comes before an unheld
shared one**: the unheld owned cards are enough for it, or no owned card open to it is held, or what the
owned cards leave it short of takes in every unheld shared one. The jobs it is filling for are those
holding the held cards it was given. -/
theorem fill_fewest_iff (w : Walk) (r : Request) {cards : List Uuid} {heldFor : List JobId}
    (h : (w.fill r).1 = some (cards, heldFor)) :
    (w.Starts r cards ∧ (∀ other, w.Starts r other → w.countHeld cards ≤ w.countHeld other) ∧
        ∀ jobId, jobId ∈ heldFor ↔ ∃ c ∈ cards, w.held c = some jobId) ↔
      (r.gpus ≤ w.countUnheld w.openOwned ∨ w.countHeld w.openOwned = 0 ∨
        w.countUnheld (w.openShared r) ≤ r.gpus - w.openOwned.length) := by
  obtain ⟨hcards, hlength, hholders⟩ := Walk.fill_eq_some w r h
  have hstarts : w.Starts r cards := by
    refine ⟨?_, hlength⟩
    rw [hcards]
    exact (List.take_sublist _ _).subperm.trans (w.openFor_perm r).subperm
  have henough : r.gpus ≤ w.openOwned.length + (w.openShared r).length := by
    have hle := hstarts.1.length_le
    rwa [hlength, List.length_append] at hle
  have hnames : ∀ jobId, jobId ∈ heldFor ↔ ∃ c ∈ cards, w.held c = some jobId := by
    intro jobId
    rw [hholders, List.mem_eraseDups, List.mem_filterMap]
  obtain ⟨hleast, best, hbest, hfewest⟩ := w.fewest_held r henough
  have hgiven : w.countHeld cards = _ := hcards ▸ w.countHeld_take r r.gpus
  have howned := w.length_eq_counts w.openOwned
  have hshared := w.length_eq_counts (w.openShared r)
  constructor
  · rintro ⟨-, hmin, -⟩
    have hle := hmin best hbest
    rw [hgiven, hfewest] at hle
    omega
  · intro hcond
    refine ⟨hstarts, fun other hother => le_trans ?_ (hleast other hother), hnames⟩
    rw [hgiven]
    omega

/-- Two owned cards free of three, and a shared one free. -/
def twoFreeOfThree : Pool where
  ownedFree := ["a", "b"]
  ownedPresent := 3
  sharedVisible := 1
  sample := some fun _ => (["s"], 0)
  shared := {"s"}

/-- A job that waits for all three owned cards, and a filler that borrows. -/
def waiterAndBorrower : List Request :=
  [{ jobId := "h", gpus := 3, borrows := false, priority := 10 },
    { jobId := "f", gpus := 2, borrows := true, fills := true }]

/-- What the filler is looked at with. -/
def atBorrower : Walk := (walkTo twoFreeOfThree [waiterAndBorrower[0]]).readFor waiterAndBorrower[1]

theorem fill_fewest_iff_oneCard :
    let alone : Request := { jobId := "f", gpus := 1, borrows := false, fills := true }
    atBorrower.countHeld ["a"] ≤ atBorrower.countHeld ["b"] := by
  intro alone
  have hfewest := ((@fill_fewest_iff atBorrower alone ["a"] ["h"] (by decide)).mpr (by decide)).2.1
  exact hfewest ["b"] ⟨by decide, rfl⟩

/-- The borrower is given both held cards, and would start on one of them and the shared one. -/
theorem fill_holds_one_too_many :
    plan waiterAndBorrower twoFreeOfThree = [.holds "h" 2 0 1 [], .assigned "f" ["a", "b"] ["h"]] ∧
      (atBorrower.fill waiterAndBorrower[1]).1 = some (["a", "b"], ["h"]) ∧
      ∃ other, atBorrower.Starts waiterAndBorrower[1] other ∧
        atBorrower.countHeld other < atBorrower.countHeld ["a", "b"] :=
  ⟨by decide, by decide, ["a", "s"], ⟨by decide, rfl⟩, by decide⟩

end Gpuc.Host
