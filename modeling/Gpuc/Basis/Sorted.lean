import Mathlib.Data.List.Sort
import Mathlib.Data.Bool.Basic
import Mathlib.Order.Defs.LinearOrder

/-!
# Stable sorting by a key

A list ordered by a key, elements of equal keys left in the order they came in: the sort a language
hands out as `sorted(xs, key=f)`. The laws say what a caller may rely on without looking at the sort:
the elements stay the same (`sortedBy_perm`), they come in key order (`sortedBy_pairwise`), a list in
key order is left alone (`sortedBy_of_pairwise`), a list in strict key order is the only one with its
elements (`sortedBy_eq_of_perm`), and a sort by a yes-or-no key is a partition (`sortedBy_bool`).
-/

set_option autoImplicit false

namespace Gpuc.Basis

variable {α : Type} {κ : Type} [LinearOrder κ]

/-- The list in key order, stably. -/
def sortedBy (key : α → κ) (xs : List α) : List α :=
  xs.insertionSort (fun a b => key a ≤ key b)

private instance keyTotal (key : α → κ) : Std.Total (fun a b : α => key a ≤ key b) :=
  ⟨fun a b => le_total (key a) (key b)⟩

private instance keyTrans (key : α → κ) : IsTrans α (fun a b : α => key a ≤ key b) :=
  ⟨fun _ _ _ hab hbc => le_trans hab hbc⟩

/-! ## The elements -/

theorem sortedBy_perm (key : α → κ) (xs : List α) : (sortedBy key xs).Perm xs :=
  List.perm_insertionSort _ xs

@[simp] theorem mem_sortedBy {key : α → κ} {xs : List α} {x : α} : x ∈ sortedBy key xs ↔ x ∈ xs :=
  List.mem_insertionSort _

@[simp] theorem length_sortedBy (key : α → κ) (xs : List α) : (sortedBy key xs).length = xs.length :=
  List.length_insertionSort _ xs

@[simp] theorem nodup_sortedBy {key : α → κ} {xs : List α} : (sortedBy key xs).Nodup ↔ xs.Nodup :=
  (sortedBy_perm key xs).nodup_iff

/-! ## The order -/

theorem sortedBy_pairwise (key : α → κ) (xs : List α) :
    (sortedBy key xs).Pairwise (fun a b => key a ≤ key b) :=
  List.pairwise_insertionSort _ xs

/-- A list already in key order is left as it is: the sort is stable. -/
theorem sortedBy_of_pairwise {key : α → κ} {xs : List α}
    (h : xs.Pairwise (fun a b => key a ≤ key b)) : sortedBy key xs = xs :=
  h.insertionSort_eq

/-- **Elements of one key stay in the order they came in.** -/
theorem filter_sortedBy (key : α → κ) (k : κ) (xs : List α) :
    (sortedBy key xs).filter (fun x => key x = k) = xs.filter fun x => key x = k := by
  have hordered : (xs.filter fun x => key x = k).Pairwise (fun a b => key a ≤ key b) := by
    refine List.Pairwise.imp_of_mem (fun {a b} ha hb _ => ?_) (List.pairwise_of_forall fun _ _ => trivial)
    rw [of_decide_eq_true (List.mem_filter.mp ha).2, of_decide_eq_true (List.mem_filter.mp hb).2]
  have hsub := (List.sublist_insertionSort hordered List.filter_sublist).filter fun x => key x = k
  rw [List.filter_filter, List.filter_congr (q := fun x => decide (key x = k)) (by simp)] at hsub
  refine (hsub.eq_of_length ?_).symm
  exact ((sortedBy_perm key xs).filter fun x => key x = k).length_eq.symm

/-- A front in key order, with nothing behind it that belongs before it, stays the front. -/
theorem sortedBy_append {key : α → κ} {xs ys : List α}
    (hxs : xs.Pairwise (fun a b => key a ≤ key b))
    (hxy : ∀ x ∈ xs, ∀ y ∈ ys, key x ≤ key y) :
    sortedBy key (xs ++ ys) = xs ++ sortedBy key ys := by
  induction xs with
  | nil => rfl
  | cons x xs ih =>
    have hrest := ih hxs.of_cons fun a ha => hxy a (List.mem_cons_of_mem x ha)
    have hfirst : ∀ b ∈ xs ++ ys, key x ≤ key b := by
      intro b hb
      rcases List.mem_append.mp hb with hb | hb
      · exact List.rel_of_pairwise_cons hxs hb
      · exact hxy x List.mem_cons_self b hb
    have hcons : sortedBy key (x :: (xs ++ ys)) = x :: sortedBy key (xs ++ ys) :=
      List.insertionSort_cons_of_forall_rel _ hfirst
    rw [List.cons_append, hcons, hrest, List.cons_append]

/-- **Strict key order determines the list**: it is what any rearrangement of it sorts to. -/
theorem sortedBy_eq_of_perm {key : α → κ} {xs ys : List α}
    (hlt : ys.Pairwise (fun a b => key a < key b)) (hperm : xs.Perm ys) : sortedBy key xs = ys := by
  refine ((sortedBy_perm key xs).trans hperm).eq_of_pairwise ?_ (sortedBy_pairwise key xs)
    (hlt.imp le_of_lt)
  intro a b ha hb hab hba
  have ha' : a ∈ ys := hperm.mem_iff.mp (mem_sortedBy.mp ha)
  have hkeys : (ys.map key).Nodup := List.pairwise_map.mpr (hlt.imp fun h => ne_of_lt h)
  exact List.inj_on_of_nodup_map hkeys ha' hb (le_antisymm hab hba)

private theorem orderedInsert_true {p : α → Bool} {x : α} (hx : p x = true) {ns ys : List α}
    (hn : ∀ a ∈ ns, p a = false) (hy : ∀ a ∈ ys, p a = true) :
    (ns ++ ys).orderedInsert (fun a b => p a ≤ p b) x = ns ++ x :: ys := by
  induction ns with
  | nil =>
    cases ys with
    | nil => rfl
    | cons y ys =>
      refine List.orderedInsert_cons_of_le _ ys ?_
      rw [hy y List.mem_cons_self]
      exact Bool.le_true _
  | cons a ns ih =>
    have ha : ¬ p x ≤ p a := by
      rw [hx, hn a List.mem_cons_self]
      decide
    have hrest := ih fun b hb => hn b (List.mem_cons_of_mem a hb)
    show (a :: (ns ++ ys)).orderedInsert (fun a b => p a ≤ p b) x = a :: (ns ++ x :: ys)
    rw [← hrest]
    exact List.orderedInsert_of_not_le (r := fun a b => p a ≤ p b) _ ha

/-- A sort by a yes-or-no key puts the noes first and keeps each half in order. -/
theorem sortedBy_bool (p : α → Bool) (xs : List α) :
    sortedBy p xs = xs.filter (fun x => !p x) ++ xs.filter p := by
  induction xs with
  | nil => rfl
  | cons x xs ih =>
    cases hx : p x with
    | true =>
      have hcons : sortedBy p (x :: xs)
          = (sortedBy p xs).orderedInsert (fun a b => p a ≤ p b) x := rfl
      rw [hcons, ih, orderedInsert_true hx (by simp) (by simp)]
      simp [hx]
    | false =>
      have hfirst : ∀ b ∈ xs, p x ≤ p b := by
        intro b _
        rw [hx]
        exact Bool.false_le _
      have hcons : sortedBy p (x :: xs) = x :: sortedBy p xs :=
        List.insertionSort_cons_of_forall_rel _ hfirst
      rw [hcons, ih]
      simp [hx]

/-- A sort by a yes-or-no key hands out the noes first. -/
theorem countP_take_sortedBy {α : Type} (p : α → Bool) (xs : List α) (n : Nat) :
    ((sortedBy p xs).take n).countP p = min n xs.length - xs.countP fun x => !p x := by
  have hlength := List.length_eq_countP_add_countP p (l := xs)
  have hnone : ((xs.filter fun x => !p x).take n).countP p = 0 := by
    refine List.countP_eq_zero.mpr fun x hx hp => ?_
    have hnot := (List.mem_filter.mp (List.mem_of_mem_take hx)).2
    rw [hp] at hnot
    cases hnot
  have hall : ∀ m, ((xs.filter p).take m).countP p = min m (xs.countP p) := by
    intro m
    rw [List.countP_eq_length.mpr fun x hx => (List.mem_filter.mp (List.mem_of_mem_take hx)).2,
      List.length_take, List.countP_eq_length_filter]
  rw [sortedBy_bool, List.take_append, List.countP_append, hnone, hall,
    ← List.countP_eq_length_filter]
  simp only [Bool.not_eq_true, Bool.decide_eq_false] at hlength
  omega

/-! ## Handing a list out from the front -/

/-- What is left of a list of distinct elements once its first `n` are gone. -/
theorem filter_notMem_take [DecidableEq α] {xs : List α} (hnodup : xs.Nodup) (n : Nat) :
    xs.filter (fun x => x ∉ xs.take n) = xs.drop n := by
  have hsplit : (xs.take n ++ xs.drop n).Nodup := by rwa [List.take_append_drop]
  have hapart := (List.nodup_append.mp hsplit).2.2
  have htake : (xs.take n).filter (fun x => x ∉ xs.take n) = [] := by simp
  have hdrop : (xs.drop n).filter (fun x => x ∉ xs.take n) = xs.drop n :=
    List.filter_eq_self.mpr fun x hx => by simpa using fun h => hapart x h x hx rfl
  calc xs.filter (fun x => x ∉ xs.take n)
      = (xs.take n ++ xs.drop n).filter (fun x => x ∉ xs.take n) := by rw [List.take_append_drop]
    _ = xs.drop n := by rw [List.filter_append, htake, hdrop, List.nil_append]

end Gpuc.Basis
