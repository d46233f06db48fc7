import Mathlib.Order.Filter.AtTopBot.Basic
import Mathlib.Order.Filter.Cofinite
import Mathlib.Order.Filter.Finite
import Gpuc.Basis.Run

/-!
# Endless runs

An endless run of a machine is a state for every number, and the label of the step to the next. What
happens again and again along it is `∃ᶠ`, and what holds from some point on is `∀ᶠ`.

The rules: what every step keeps holds all along (`Endless.invariant`); what no step takes back, from
some point on, is decided from some point on (`settles`), and so is whatever is eventually always or
never so of each of finitely many things; and of finitely many things one happens again and again if
always one does (`again_of_finite`).
-/

set_option autoImplicit false

namespace Gpuc.Basis

open Filter

/-- **An endless run.** -/
structure Machine.Endless {σ α : Type} (m : Machine σ α) where
  state : ℕ → σ
  label : ℕ → α
  step : ∀ n, m.step (state n) (label n) = some (state (n + 1))

namespace Machine.Endless

variable {σ α : Type} {m : Machine σ α} (ρ : m.Endless)

/-- **What every step keeps holds all along.** -/
theorem invariant {I : σ → Prop} (hstep : ∀ s a next, I s → m.step s a = some next → I next)
    (hs : I (ρ.state 0)) (n : ℕ) : I (ρ.state n) := by
  induction n with
  | zero => exact hs
  | succ n ih => exact hstep _ _ _ ih (ρ.step n)

end Machine.Endless

/-! ## What settles -/

variable {p : ℕ → Prop}

/-- What is so, and is not taken back, stays so. -/
theorem stays {n : ℕ} (hkept : ∀ k, n ≤ k → p k → p (k + 1)) (hn : p n) {k : ℕ} (hk : n ≤ k) :
    p k := by
  induction k, hk using Nat.le_induction with
  | base => exact hn
  | succ k hk ih => exact hkept k hk ih

/-- **What no step takes back, from some point on, is so from some point on or never again.** -/
theorem settles (hkept : ∀ᶠ n in atTop, p n → p (n + 1)) :
    (∀ᶠ n in atTop, p n) ∨ ∀ᶠ n in atTop, ¬ p n := by
  by_cases hoften : ∃ᶠ n in atTop, p n
  · obtain ⟨start, hstart⟩ := eventually_atTop.mp hkept
    obtain ⟨n, hn, hpn⟩ := frequently_atTop.mp hoften start
    have hfrom : ∀ k, n ≤ k → p k := fun k hk =>
      stays (fun k hk => hstart k (le_trans hn hk)) hpn hk
    exact .inl (eventually_atTop.mpr ⟨n, hfrom⟩)
  · exact .inr (not_frequently.mp hoften)

/-- **Of finitely many things, one happens again and again** if always one does. -/
theorem again_of_finite {β : Type} {P : β → ℕ → Prop} {these : List β}
    (h : ∃ᶠ n in atTop, ∃ x ∈ these, P x n) : ∃ x ∈ these, ∃ᶠ n in atTop, P x n := by
  by_contra hnone
  push Not at hnone
  have hall : ∀ᶠ n in atTop, ∀ x ∈ these, ¬ P x n := by
    have hfinite := (eventually_all_finite (List.finite_toSet these)).mpr hnone
    exact hfinite
  apply h
  filter_upwards [hall] with n hn
  push Not
  exact hn

/-- What holds of each of finitely many things from some point on holds of all of them from some
point on. -/
theorem eventually_all_mem {β : Type} {P : β → ℕ → Prop} {these : List β}
    (h : ∀ x ∈ these, ∀ᶠ n in atTop, P x n) : ∀ᶠ n in atTop, ∀ x ∈ these, P x n :=
  (eventually_all_finite (List.finite_toSet these)).mpr h

/-- What happens again and again happens after any point. -/
theorem again_after (h : ∃ᶠ n in atTop, p n) (start : ℕ) : ∃ n, start ≤ n ∧ p n :=
  frequently_atTop.mp h start

end Gpuc.Basis
