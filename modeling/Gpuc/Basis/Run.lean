import Mathlib.Data.List.Count

/-!
# Runs of a machine

A machine takes labelled steps, each possible in some states and not in others; a label says all that
is decided outside the machine, so a step's result is a function. A run is a list of labels taken in
order, and its trace is each label with the state it was taken in.

The rules: what every step keeps, a run keeps (`run_invariant`), at its end and all along it
(`trace_invariant`), also when only the steps that meet a condition keep it and all of the run's do
(`run_invariant_of`); and what can happen only while
something is not yet spent, and spends it for good, happens at most once (`trace_once`).
-/

set_option autoImplicit false

namespace Gpuc.Basis

/-- **A machine**: what each label makes of a state it is possible in. -/
structure Machine (σ α : Type) where
  step : σ → α → Option σ

namespace Machine

variable {σ α : Type} (m : Machine σ α)

/-- The state the labels lead to, if every step is possible. -/
def run : σ → List α → Option σ
  | s, [] => some s
  | s, a :: as =>
    match m.step s a with
    | some next => run next as
    | none => none

/-- Each label of a run with the state it is taken in. -/
def trace : σ → List α → List (σ × α)
  | _, [] => []
  | s, a :: as =>
    (s, a) ::
      match m.step s a with
      | some next => trace next as
      | none => []

variable {m} {s last : σ} {as bs : List α}

theorem run_cons {a : α} :
    m.run s (a :: as) = some last ↔ ∃ next, m.step s a = some next ∧ m.run next as = some last := by
  rw [run]
  cases m.step s a <;> simp

/-- A run goes on from where a run has led. -/
theorem run_append :
    m.run s (as ++ bs) = some last ↔ ∃ mid, m.run s as = some mid ∧ m.run mid bs = some last := by
  induction as generalizing s with
  | nil => simp [run]
  | cons a as ih =>
    rw [List.cons_append, run_cons]
    constructor
    · rintro ⟨next, hstep, hrun⟩
      obtain ⟨mid, hmid, hlast⟩ := ih.mp hrun
      exact ⟨mid, run_cons.mpr ⟨next, hstep, hmid⟩, hlast⟩
    · rintro ⟨mid, hmid, hlast⟩
      obtain ⟨next, hstep, hrun⟩ := run_cons.mp hmid
      exact ⟨next, hstep, ih.mpr ⟨mid, hrun, hlast⟩⟩

/-- **What the steps that meet a condition keep, a run of such steps keeps.** -/
theorem run_invariant_of {I : σ → Prop} {C : σ → α → Prop}
    (hstep : ∀ s a next, I s → C s a → m.step s a = some next → I next) (hs : I s)
    (hmeets : ∀ p ∈ m.trace s as, C p.1 p.2) (hrun : m.run s as = some last) : I last := by
  induction as generalizing s with
  | nil =>
    obtain rfl := Option.some.inj hrun
    exact hs
  | cons a as ih =>
    obtain ⟨next, hnext, hrest⟩ := run_cons.mp hrun
    rw [trace, hnext] at hmeets
    have hfirst := hmeets (s, a) List.mem_cons_self
    exact ih (hstep s a next hs hfirst hnext)
      (fun p hp => hmeets p (List.mem_cons_of_mem _ hp)) hrest

/-- **What every step keeps, a run keeps.** -/
theorem run_invariant {I : σ → Prop}
    (hstep : ∀ s a next, I s → m.step s a = some next → I next) (hs : I s)
    (hrun : m.run s as = some last) : I last :=
  run_invariant_of (C := fun _ _ => True) (fun s a next h _ => hstep s a next h) hs
    (fun _ _ => trivial) hrun

/-- **What every step keeps holds at every step of a run.** -/
theorem trace_invariant {I : σ → Prop}
    (hstep : ∀ s a next, I s → m.step s a = some next → I next) (hs : I s) :
    ∀ p ∈ m.trace s as, I p.1 := by
  induction as generalizing s with
  | nil => exact fun p hp => absurd hp List.not_mem_nil
  | cons a as ih =>
    intro p hp
    rw [trace] at hp
    rcases List.mem_cons.mp hp with rfl | hp
    · exact hs
    · cases hnext : m.step s a with
      | none => rw [hnext] at hp; exact absurd hp List.not_mem_nil
      | some next => rw [hnext] at hp; exact ih (hstep s a next hs hnext) p hp

/-- What is spent is not spent again. -/
theorem trace_never {S : σ → Prop} {event : σ × α → Bool}
    (hstep : ∀ s a next, S s → m.step s a = some next → S next)
    (hevent : ∀ s a, event (s, a) = true → ¬ S s) (hs : S s) :
    (m.trace s as).countP event = 0 := by
  induction as generalizing s with
  | nil => rfl
  | cons a as ih =>
    have hno : event (s, a) = false := by
      by_contra hyes
      exact hevent s a (by simpa using hyes) hs
    rw [trace, List.countP_cons_of_neg (by simp [hno])]
    cases hnext : m.step s a with
    | none => rfl
    | some next => exact ih (hstep s a next hs hnext)

/-- **What can only happen before something is spent, and spends it for good, happens once at
most.** -/
theorem trace_once {I S : σ → Prop} {event : σ × α → Bool}
    (hI : ∀ s a next, I s → m.step s a = some next → I next)
    (hkept : ∀ s a next, I s ∧ S s → m.step s a = some next → S next)
    (hevent : ∀ s a, I s → event (s, a) = true → ¬ S s)
    (hspends : ∀ s a next, I s → event (s, a) = true → m.step s a = some next → S next)
    (hs : I s) : (m.trace s as).countP event ≤ 1 := by
  induction as generalizing s with
  | nil => exact Nat.zero_le 1
  | cons a as ih =>
    rw [trace, List.countP_cons]
    cases hnext : m.step s a with
    | none =>
      rw [List.countP_nil]
      split <;> omega
    | some next =>
      have hrest := hI s a next hs hnext
      by_cases hnow : event (s, a) = true
      · have hlater : (m.trace next as).countP event = 0 :=
          trace_never (S := fun s => I s ∧ S s)
            (fun s a next h hstep => ⟨hI s a next h.1 hstep, hkept s a next h hstep⟩)
            (fun s a h hspent => hevent s a hspent.1 h hspent.2)
            ⟨hrest, hspends s a next hs hnow hnext⟩
        simp only [hlater, if_pos hnow, Nat.zero_add, Nat.le_refl]
      · rw [if_neg hnow]
        exact ih hrest

end Machine

end Gpuc.Basis
