import Mathlib.Algebra.GroupWithZero.Nat
import Gpuc.Laws.Plan.Waiting

/-!
# Which jobs are stopped

`enough_to_start` takes the running jobs behind the waiting one, least important first, until they free
the cards it is short of. So it finds a set whenever there is one (`enoughLoop_enough`), and the last job
it takes is needed: those before it do not make up the gap (`enoughLoop_last`). One it took earlier may
turn out not to be, when a job behind it in the order frees more: importance decides who is stopped, not
how few are.
-/

set_option autoImplicit false

namespace Gpuc.Host

open Gpuc.Basis

variable {key : Key} {gap : Nat} {borrowing : Bool}

/-- What jobs free together. -/
def cardsFreed (borrowing : Bool) (ps : List Preemptable) : Nat :=
  (ps.map fun p => p.frees borrowing).sum

/-- The jobs the waiting one is ahead of. -/
def behind (key : Key) (ps : List Preemptable) : List Preemptable :=
  ps.filter fun p => key < p.key

theorem cardsFreed_cons (p : Preemptable) (ps : List Preemptable) :
    cardsFreed borrowing (p :: ps) = p.frees borrowing + cardsFreed borrowing ps := by
  simp [cardsFreed]

theorem cardsFreed_append (ps qs : List Preemptable) :
    cardsFreed borrowing (ps ++ qs) = cardsFreed borrowing ps + cardsFreed borrowing qs := by
  simp [cardsFreed]

theorem cardsFreed_perm {ps qs : List Preemptable} (h : ps.Perm qs) :
    cardsFreed borrowing ps = cardsFreed borrowing qs :=
  (h.map _).sum_nat

/-- **The loop ends with enough if there is enough.** -/
theorem enoughLoop_enough (ps : List Preemptable) (freed : Nat) :
    gap ≤ (enoughLoop key gap borrowing ps freed).2
      ↔ gap ≤ freed + cardsFreed borrowing (behind key ps) := by
  induction ps generalizing freed with
  | nil => rfl
  | cons p ps ih =>
    unfold enoughLoop
    split
    · next henough =>
      exact iff_of_true henough (le_trans henough (Nat.le_add_right _ _))
    · split
      · next hskip =>
        -- a job that is passed over adds nothing to what those behind free
        have hsame : cardsFreed borrowing (behind key (p :: ps))
            = cardsFreed borrowing (behind key ps) := by
          unfold behind
          by_cases hbehind : key < p.key
          · have hnone : p.frees borrowing = 0 := hskip.resolve_left (not_le.mpr hbehind)
            rw [List.filter_cons_of_pos (by simpa using hbehind), cardsFreed_cons, hnone, Nat.zero_add]
          · rw [List.filter_cons_of_neg (by simpa using hbehind)]
        rw [hsame]
        exact ih freed
      · next htake =>
        have hbehind : key < p.key := not_le.mp fun h => htake (.inl h)
        have hcons : behind key (p :: ps) = p :: behind key ps :=
          List.filter_cons_of_pos (by simpa using hbehind)
        rw [hcons, cardsFreed_cons, ← Nat.add_assoc]
        exact ih _

/-- **The last job taken is needed**: those before it leave a gap. -/
theorem enoughLoop_last (ps : List Preemptable) (freed : Nat)
    (h : (enoughLoop key gap borrowing ps freed).1 ≠ []) :
    freed + cardsFreed borrowing (enoughLoop key gap borrowing ps freed).1.dropLast < gap := by
  induction ps generalizing freed with
  | nil => exact absurd rfl h
  | cons p ps ih =>
    unfold enoughLoop at h ⊢
    split at h
    · exact absurd rfl h
    · next hshort =>
      rw [if_neg hshort]
      split at h
      · next hskip =>
        rw [if_pos hskip]
        exact ih freed h
      · next htake =>
        rw [if_neg htake]
        dsimp only
        by_cases hrest : (enoughLoop key gap borrowing ps (freed + p.frees borrowing)).1 = []
        · rw [hrest]
          exact not_le.mp hshort
        · have hlast := ih _ hrest
          rw [List.dropLast_cons_of_ne_nil hrest, cardsFreed_cons]
          omega

theorem enoughToStart_eq_nil {candidates : List Preemptable} (hgap : 1 ≤ gap) :
    enoughToStart candidates key gap borrowing = []
      ↔ cardsFreed borrowing (behind key candidates) < gap := by
  have hperm : cardsFreed borrowing (behind key (sortedBy Preemptable.stopOrder candidates))
      = cardsFreed borrowing (behind key candidates) :=
    cardsFreed_perm ((sortedBy_perm _ candidates).filter _)
  have henough := @enoughLoop_enough key gap borrowing (sortedBy Preemptable.stopOrder candidates) 0
  have htotal := enoughLoop_total key gap borrowing (sortedBy Preemptable.stopOrder candidates) 0
  rw [hperm, Nat.zero_add] at henough
  simp only [enoughToStart]
  split
  · next hfreed =>
    refine iff_of_false (fun hnil => ?_) (not_lt.mpr (henough.mp hfreed))
    rw [hnil] at htotal
    simp only [List.map_nil, List.sum_nil] at htotal
    omega
  · next hfew => exact iff_of_true rfl (not_le.mp fun h => hfew (henough.mpr h))

/-- What is left of a list without one of its elements frees what the list does, less that. -/
theorem cardsFreed_without {chosen before after : List Preemptable} {p : Preemptable}
    (h : chosen = before ++ p :: after) :
    cardsFreed borrowing chosen = cardsFreed borrowing (before ++ after) + p.frees borrowing := by
  rw [h, cardsFreed_append, cardsFreed_cons, cardsFreed_append]
  omega

/-- **Automatic preemption stops enough jobs, and only for as long as there is a gap.** There is a set
exactly when the jobs behind the waiting one free enough together; each job in it is behind the waiting
one and frees it a card; together they make up the gap; and a job that frees as much as the last one
taken could not be left out. -/
theorem enough_to_start (candidates : List Preemptable) (key : Key) (gap : Nat) (borrowing : Bool)
    (hgap : 1 ≤ gap) :
    let chosen := enoughToStart candidates key gap borrowing
    (chosen ≠ [] ↔ gap ≤ cardsFreed borrowing (behind key candidates)) ∧
      List.Subperm chosen candidates ∧
      (∀ p ∈ chosen, key < p.key ∧ 1 ≤ p.frees borrowing) ∧
      (chosen ≠ [] → gap ≤ cardsFreed borrowing chosen) ∧
      ∀ before p after, chosen = before ++ p :: after →
        (∀ last ∈ chosen.getLast?, last.frees borrowing ≤ p.frees borrowing) →
          cardsFreed borrowing (before ++ after) < gap := by
  intro chosen
  have hloop : chosen ≠ [] →
      chosen = (enoughLoop key gap borrowing (sortedBy Preemptable.stopOrder candidates) 0).1 := by
    intro hsome
    simp only [chosen, enoughToStart] at hsome ⊢
    split
    · rfl
    · next hfew => rw [if_neg hfew] at hsome; exact absurd rfl hsome
  refine ⟨?_, ?_, fun p hp => ?_, enoughToStart_frees, ?_⟩
  · exact (not_congr (enoughToStart_eq_nil hgap)).trans not_lt
  · by_cases hnil : chosen = []
    · rw [hnil]
      exact List.nil_subperm
    · rw [hloop hnil]
      exact (enoughLoop_sublist key gap borrowing _ 0).subperm.trans (sortedBy_perm _ candidates).subperm
  · have hnonempty := List.ne_nil_of_mem hp
    rw [hloop hnonempty] at hp
    exact ⟨(enoughLoop_subset key gap borrowing _ 0 p hp).2,
      Nat.pos_of_ne_zero (enoughLoop_frees key gap borrowing _ 0 p hp)⟩
  · intro before p after hsplit hlast
    have hsome : chosen ≠ [] := by
      rw [hsplit]
      exact List.append_ne_nil_of_right_ne_nil _ (List.cons_ne_nil _ _)
    have hneeded : cardsFreed borrowing chosen.dropLast < gap := by
      have h := enoughLoop_last (sortedBy Preemptable.stopOrder candidates) 0
        ((hloop hsome) ▸ hsome)
      rwa [← hloop hsome, Nat.zero_add] at h
    have hless := hlast (chosen.getLast hsome) (List.getLast?_eq_getLast_of_ne_nil hsome ▸ rfl)
    have hall : cardsFreed borrowing chosen
        = cardsFreed borrowing (chosen.dropLast ++ []) + (chosen.getLast hsome).frees borrowing :=
      cardsFreed_without (List.dropLast_append_getLast hsome).symm
    have hwithout := @cardsFreed_without borrowing _ _ _ _ hsplit
    rw [List.append_nil] at hall
    omega

/-- A one-card job that matters least, and a two-card job that matters a little more. -/
def narrowThenWide : List Preemptable :=
  [{ jobId := "n", priority := 90, gpus := ["GPU-0"], started := 0, owned := 1, borrowed := 0 },
    { jobId := "w", priority := 80, gpus := ["GPU-1", "GPU-2"], started := 0, owned := 2,
      borrowed := 0 }]

theorem enough_to_start_narrowThenWide :
    cardsFreed false [narrowThenWide[0]] < 2 := by
  have h := (enough_to_start narrowThenWide (toLex (10, "h")) 2 false (by decide)).2.2.2.2
  exact h [narrowThenWide[0]] narrowThenWide[1] [] (by decide) (by decide)

/-- Both are stopped for a job two cards short, and without the first the second frees them. -/
theorem stops_one_too_many :
    ∃ before p after, enoughToStart narrowThenWide (toLex (10, "h")) 2 false = before ++ p :: after ∧
      2 ≤ cardsFreed false (before ++ after) :=
  ⟨[], narrowThenWide[0], [narrowThenWide[1]], by decide, by decide⟩

end Gpuc.Host
