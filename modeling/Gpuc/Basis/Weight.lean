import Mathlib.Algebra.Order.Ring.GeomSum
import Mathlib.Algebra.BigOperators.Group.Finset.Basic
import Mathlib.Algebra.Order.BigOperators.Group.Finset

/-!
# Weights along an order

Each element of a finite universe weighs twice what the next one along the order weighs, so that an
element outweighs any set of elements behind it (`sum_weight_lt`). A process that takes an element out
and puts back only elements behind it makes the total weight smaller, however many it puts back.
-/

set_option autoImplicit false

namespace Gpuc.Basis

variable {α κ : Type} [LinearOrder κ]

/-- How many elements of the universe are behind this one. -/
def behind (all : Finset α) (key : α → κ) (a : α) : Nat :=
  (all.filter fun b => key a < key b).card

/-- **The weight of an element**: a power of two for the elements behind it. -/
def weight (all : Finset α) (key : α → κ) (a : α) : Nat := 2 ^ behind all key a

theorem weight_pos (all : Finset α) (key : α → κ) (a : α) : 0 < weight all key a :=
  Nat.two_pow_pos _

/-- An element has fewer behind it than any element it is behind. -/
theorem behind_lt {all : Finset α} {key : α → κ} {a b : α} (hb : b ∈ all)
    (h : key a < key b) : behind all key b < behind all key a := by
  refine Finset.card_lt_card ⟨fun c hc => ?_, fun hsub => ?_⟩
  · rw [Finset.mem_filter] at hc ⊢
    exact ⟨hc.1, h.trans hc.2⟩
  · have hself := hsub (Finset.mem_filter.mpr ⟨hb, h⟩)
    exact lt_irrefl _ (Finset.mem_filter.mp hself).2

/-- **An element outweighs all that is behind it.** -/
theorem sum_weight_lt {all elements : Finset α} {key : α → κ} {a : α}
    (hsub : elements ⊆ all) (hkey : Set.InjOn key elements)
    (hbehind : ∀ b ∈ elements, key a < key b) :
    ∑ b ∈ elements, weight all key b < weight all key a := by
  have hinj : Set.InjOn (behind all key) elements := by
    intro b hb c hc heq
    rcases lt_trichotomy (key b) (key c) with hlt | hkeys | hlt
    · exact absurd heq (behind_lt (hsub hc) hlt).ne'
    · exact hkey hb hc hkeys
    · exact absurd heq (behind_lt (hsub hb) hlt).ne
  calc ∑ b ∈ elements, weight all key b
      = ∑ n ∈ elements.image (behind all key), 2 ^ n := (Finset.sum_image hinj).symm
    _ < weight all key a := by
        refine Nat.geomSum_lt le_rfl fun n hn => ?_
        obtain ⟨b, hb, rfl⟩ := Finset.mem_image.mp hn
        exact behind_lt (hsub hb) (hbehind b hb)

/-- Taking an element out and putting back elements behind it makes the total smaller. -/
theorem sum_weight_exchange [DecidableEq α] {all before after : Finset α} {key : α → κ} {a : α}
    (hafter : after ⊆ all) (hkey : Set.InjOn key after) (ha : a ∈ before) (hout : a ∉ after)
    (hbehind : ∀ b ∈ after, b ∉ before → key a < key b) :
    ∑ b ∈ after, weight all key b < ∑ b ∈ before, weight all key b := by
  have hnew : ∑ b ∈ after \ before, weight all key b < weight all key a :=
    sum_weight_lt (Finset.sdiff_subset.trans hafter) (hkey.mono Finset.sdiff_subset)
      fun b hb => hbehind b (Finset.mem_sdiff.mp hb).1 (Finset.mem_sdiff.mp hb).2
  have hkept : ∑ b ∈ after ∩ before, weight all key b
      ≤ ∑ b ∈ before.erase a, weight all key b := by
    refine Finset.sum_le_sum_of_subset fun b hb => ?_
    obtain ⟨hb, hb'⟩ := Finset.mem_inter.mp hb
    exact Finset.mem_erase.mpr ⟨fun heq => hout (heq ▸ hb), hb'⟩
  have hafterSum := Finset.sum_inter_add_sum_sdiff after before (weight all key)
  have hbeforeSum := Finset.add_sum_erase before (weight all key) ha
  omega

end Gpuc.Basis
