import Mathlib.Data.Finset.Dedup
import Mathlib.Data.Multiset.Bind
import Mathlib.Algebra.BigOperators.Group.Finset.Basic
import Mathlib.Algebra.Order.BigOperators.Group.Finset
import Mathlib.Algebra.Order.Ring.Nat

/-!
# What references hold

A thing referred to is held once, however many refer to it, and until the last reference to it goes.
What some of all references give back when they go (`freed`) is known without a look at the others, from
how many references each thing has in all. Parts give back no more one by one than together
(`sum_freed_le`), and what has one reference goes with that (`lone_le_freed`).
-/

set_option autoImplicit false

namespace Gpuc.Basis

variable {κ : Type} [DecidableEq κ]

/-- **What is held by references**, each thing of its weight. -/
def held (weight : κ → Nat) (references : Multiset κ) : Nat := ∑ k ∈ references.toFinset, weight k

/-- **What goes with a part of all references**: what has no other. -/
def freed (part all : Multiset κ) : Finset κ := part.toFinset.filter fun k => all.count k ≤ part.count k

variable {weight : κ → Nat} {part all gone left : Multiset κ}

theorem mem_freed {k : κ} : k ∈ freed part all ↔ k ∈ part ∧ all.count k ≤ part.count k := by
  simp [freed]

theorem mem_freed_add {k : κ} : k ∈ freed gone (gone + left) ↔ k ∈ gone ∧ k ∉ left := by
  rw [mem_freed, Multiset.count_add, ← Multiset.count_eq_zero]
  exact and_congr_right fun _ => ⟨fun h => by omega, fun h => by omega⟩

theorem freed_add (gone left : Multiset κ) :
    freed gone (gone + left) = gone.toFinset \ left.toFinset := by
  ext k
  rw [mem_freed_add, Finset.mem_sdiff, Multiset.mem_toFinset, Multiset.mem_toFinset]

theorem held_add (weight : κ → Nat) (gone left : Multiset κ) :
    held weight (gone + left) = held weight left + ∑ k ∈ freed gone (gone + left), weight k := by
  have hunion : (gone + left).toFinset = left.toFinset ∪ gone.toFinset \ left.toFinset := by
    rw [Multiset.toFinset_add, Finset.union_comm, Finset.union_sdiff_self_eq_union]
  rw [freed_add, held, hunion, Finset.sum_union Finset.disjoint_sdiff, held]

/-- What goes with one part does not go with another, and all of it goes with both. -/
theorem sum_freed_add_le (weight : κ → Nat) {other : Multiset κ} (h : part + other ≤ all) :
    ∑ k ∈ freed part all, weight k + ∑ k ∈ freed other all, weight k ≤
      ∑ k ∈ freed (part + other) all, weight k := by
  have hcount (k : κ) : part.count k + other.count k ≤ all.count k :=
    Multiset.count_add k part other ▸ Multiset.count_le_of_le k h
  have hapart : Disjoint (freed part all) (freed other all) := by
    refine Finset.disjoint_left.mpr fun k hpart hother => ?_
    have := hcount k
    have hpos := Multiset.count_pos.mpr (mem_freed.mp hpart).1
    have hle := (mem_freed.mp hother).2
    omega
  rw [← Finset.sum_union hapart]
  refine Finset.sum_le_sum_of_subset (Finset.union_subset (fun k hk => ?_) fun k hk => ?_)
  all_goals
    obtain ⟨hmem, hle⟩ := mem_freed.mp hk
    rw [mem_freed, Multiset.mem_add, Multiset.count_add]
  · exact ⟨.inl hmem, by omega⟩
  · exact ⟨.inr hmem, by omega⟩

/-- **Parts give back no more one by one than together.** -/
theorem sum_freed_le (weight : κ → Nat) {parts : List (Multiset κ)} (h : parts.sum ≤ all) :
    (parts.map fun part => ∑ k ∈ freed part all, weight k).sum ≤ ∑ k ∈ freed parts.sum all, weight k := by
  induction parts with
  | nil => exact Nat.zero_le _
  | cons part parts ih =>
    rw [List.sum_cons] at h
    rw [List.map_cons, List.sum_cons, List.sum_cons]
    exact (Nat.add_le_add_left (ih ((Multiset.le_add_left _ _).trans h)) _).trans
      (sum_freed_add_le weight h)

/-- The references of a part that are the only one to what they refer to. -/
def lone (part all : Multiset κ) : Multiset κ := part.filter fun k => all.count k = 1

theorem mem_lone {k : κ} : k ∈ lone part all ↔ k ∈ part ∧ all.count k = 1 := Multiset.mem_filter

theorem lone_nodup (h : part ≤ all) : (lone part all).Nodup := by
  refine Multiset.nodup_iff_count_le_one.mpr fun k => ?_
  by_cases hk : k ∈ lone part all
  · have hpart := Multiset.count_le_of_le k (Multiset.filter_le (fun k => all.count k = 1) part)
    exact (hpart.trans (Multiset.count_le_of_le k h)).trans (mem_lone.mp hk).2.le
  · exact (Multiset.count_eq_zero_of_notMem hk).le.trans (Nat.zero_le 1)

theorem sum_lone (weight : κ → Nat) (h : part ≤ all) :
    ((lone part all).map weight).sum = ∑ k ∈ (lone part all).toFinset, weight k := by
  rw [Finset.sum, Multiset.toFinset_val, (lone_nodup h).dedup]

theorem lone_subset_freed (part all : Multiset κ) : (lone part all).toFinset ⊆ freed part all := by
  intro k hk
  obtain ⟨hpart, hone⟩ := mem_lone.mp (Multiset.mem_toFinset.mp hk)
  exact mem_freed.mpr ⟨hpart, hone.le.trans (Multiset.count_pos.mpr hpart)⟩

/-- **What only one refers to goes with that one.** -/
theorem lone_le_freed (weight : κ → Nat) (h : part ≤ all) :
    ((lone part all).map weight).sum ≤ ∑ k ∈ freed part all, weight k := by
  rw [sum_lone weight h]
  exact Finset.sum_le_sum_of_subset (lone_subset_freed part all)

/-- And nothing else does, where all else has a reference that stays. -/
theorem lone_eq_freed (weight : κ → Nat) (h : ∀ k ∈ gone, (gone + left).count k ≠ 1 → k ∈ left) :
    ((lone gone (gone + left)).map weight).sum = ∑ k ∈ freed gone (gone + left), weight k := by
  have hsub : freed gone (gone + left) ⊆ (lone gone (gone + left)).toFinset := by
    intro k hk
    obtain ⟨hgone, hleft⟩ := mem_freed_add.mp hk
    refine Multiset.mem_toFinset.mpr (mem_lone.mpr ⟨hgone, ?_⟩)
    by_contra hone
    exact hleft (h k hgone hone)
  rw [sum_lone weight (Multiset.le_add_right _ _), (lone_subset_freed _ _).antisymm hsub]

end Gpuc.Basis
