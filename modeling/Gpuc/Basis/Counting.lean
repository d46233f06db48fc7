import Mathlib.Data.List.Count
import Mathlib.Data.List.Nodup

/-!
# Counting by cases

What a count over a list is when the elements counted fall under two tests (`countP_le_add`), when two
tests exclude each other (`add_countP_le`), and when one element more is counted (`countP_lt`).
-/

set_option autoImplicit false

namespace Gpuc.Basis

variable {α : Type} {xs : List α} {p q r : α → Bool}

/-- A count is covered by the counts of the cases. -/
theorem countP_le_add (h : ∀ x ∈ xs, r x = true → p x = true ∨ q x = true) :
    xs.countP r ≤ xs.countP p + xs.countP q := by
  induction xs with
  | nil => exact Nat.zero_le _
  | cons x xs ih =>
    have hx := h x List.mem_cons_self
    have hxs := ih fun y hy => h y (List.mem_cons_of_mem x hy)
    rw [List.countP_cons, List.countP_cons, List.countP_cons]
    cases hr : r x <;> cases hp : p x <;> cases hq : q x <;> simp_all <;> omega

/-- Cases that exclude each other count apart. -/
theorem add_countP_le (hp : ∀ x ∈ xs, p x = true → r x = true)
    (hq : ∀ x ∈ xs, q x = true → r x = true)
    (hapart : ∀ x ∈ xs, p x = true → q x = false) :
    xs.countP p + xs.countP q ≤ xs.countP r := by
  induction xs with
  | nil => exact Nat.zero_le _
  | cons x xs ih =>
    have hpx := hp x List.mem_cons_self
    have hqx := hq x List.mem_cons_self
    have hx := hapart x List.mem_cons_self
    have hxs := ih (fun y hy => hp y (List.mem_cons_of_mem x hy))
      (fun y hy => hq y (List.mem_cons_of_mem x hy))
      fun y hy => hapart y (List.mem_cons_of_mem x hy)
    rw [List.countP_cons, List.countP_cons, List.countP_cons]
    cases hr : r x <;> cases hp' : p x <;> cases hq' : q x <;> simp_all <;> omega

/-- One element more makes the count larger. -/
theorem countP_lt (h : ∀ x ∈ xs, p x = true → q x = true) {a : α} (ha : a ∈ xs)
    (hp : p a = false) (hq : q a = true) : xs.countP p < xs.countP q := by
  obtain ⟨before, rest, rfl⟩ := List.append_of_mem ha
  have hbefore : before.countP p ≤ before.countP q :=
    List.countP_mono_left fun x hx => h x (List.mem_append_left _ hx)
  have hrest : rest.countP p ≤ rest.countP q :=
    List.countP_mono_left fun x hx =>
      h x (List.mem_append_right _ (List.mem_cons_of_mem a hx))
  rw [List.countP_append, List.countP_append, List.countP_cons, List.countP_cons, hp, hq]
  simp only [Bool.false_eq_true, if_false, if_true]
  omega

end Gpuc.Basis
