import Mathlib.Data.List.Forall2

/-!
# Computations that may fail

How a computation that succeeds did so: each of its steps did (`bind_eq_ok`), and over a list each of
its elements did (`mapM_eq_ok`). When one succeeds is in `exists_bind_ok` and `exists_mapM_ok`, and how
one fails in `bind_eq_error` and `exists_of_mapM_error`. `FailsWhen` is of what fails in one way only,
and when. `Together` is of two computations that fail alike, and of what their answers have in common.
-/

set_option autoImplicit false

namespace Gpuc.Basis

variable {ε α β : Type}

/-- A step that is followed by another succeeds with something the other succeeds on. -/
theorem bind_eq_ok {x : Except ε α} {f : α → Except ε β} {b : β} (h : (x >>= f) = .ok b) :
    ∃ a, x = .ok a ∧ f a = .ok b := by
  cases x with
  | error e => cases h
  | ok a => exact ⟨a, rfl, h⟩

theorem map_eq_ok {x : Except ε α} {f : α → β} {b : β} (h : f <$> x = .ok b) :
    ∃ a, x = .ok a ∧ f a = b := by
  cases x with
  | error e => cases h
  | ok a => exact ⟨a, rfl, Except.ok.inj h⟩

theorem map_eq_error {x : Except ε α} {f : α → β} {e : ε} (h : f <$> x = .error e) :
    x = .error e := by
  cases x with
  | error d => exact congrArg _ (Except.error.inj h)
  | ok a => cases h

/-- A step followed by another fails as the first does, or as the other does on what the first made. -/
theorem bind_eq_error {x : Except ε α} {f : α → Except ε β} {e : ε} :
    (x >>= f) = .error e ↔ x = .error e ∨ ∃ a, x = .ok a ∧ f a = .error e := by
  cases x with
  | error d =>
    refine ⟨fun h => .inl ?_, fun h => h.elim (fun h => ?_) fun ⟨_, h, _⟩ => nomatch h⟩
    · cases h; rfl
    · cases h; rfl
  | ok a =>
    refine ⟨fun h => .inr ⟨a, rfl, h⟩, fun h => h.elim (fun h => nomatch h) fun ⟨b, hb, h⟩ => ?_⟩
    cases hb
    exact h

/-- A step followed by another succeeds exactly when it does and the other does on what it made. -/
theorem exists_bind_ok {x : Except ε α} {f : α → Except ε β} :
    (∃ b, (x >>= f) = .ok b) ↔ ∃ a, x = .ok a ∧ ∃ b, f a = .ok b := by
  cases x with
  | error e => exact ⟨fun ⟨_, h⟩ => (nomatch h), fun ⟨_, h, _⟩ => (nomatch h)⟩
  | ok a =>
    refine ⟨fun h => ⟨a, rfl, h⟩, fun ⟨b, hb, h⟩ => ?_⟩
    cases hb
    exact h

theorem mapError_eq_ok {δ : Type} {x : Except ε α} {f : ε → δ} {a : α} (h : x.mapError f = .ok a) :
    x = .ok a := by
  cases x with
  | error e => cases h
  | ok b => exact congrArg _ (Except.ok.inj h)

theorem toOption_eq_some {x : Except ε α} {a : α} (h : x.toOption = some a) : x = .ok a := by
  cases x with
  | error e => cases h
  | ok b => exact congrArg _ (Option.some.inj h)

theorem not_exists_ok {e : ε} : ¬ ∃ a : α, Except.error e = .ok a := by
  rintro ⟨a, h⟩
  cases h

theorem not_exists_ok_and {e : ε} {P : α → Prop} : ¬ ∃ a : α, Except.error e = .ok a ∧ P a := by
  rintro ⟨a, h, -⟩
  cases h

theorem exists_of_isOk {x : Except ε α} (h : x.isOk = true) : ∃ a, x = .ok a := by
  cases x with
  | error e => cases h
  | ok a => exact ⟨a, rfl⟩

/-- What is in the second of two lists that correspond has its part in the first. -/
theorem exists_left {R : α → β → Prop} {xs : List α} {ys : List β} (h : List.Forall₂ R xs ys)
    {y : β} (hy : y ∈ ys) : ∃ x ∈ xs, R x y := by
  induction h with
  | nil => exact absurd hy List.not_mem_nil
  | @cons x y' xs ys hfirst _ ih =>
    rcases List.mem_cons.mp hy with rfl | hy
    · exact ⟨x, List.mem_cons_self, hfirst⟩
    · obtain ⟨x', hx', hR⟩ := ih hy
      exact ⟨x', List.mem_cons_of_mem x hx', hR⟩

/-- And the other way round. -/
theorem exists_right {R : α → β → Prop} {xs : List α} {ys : List β} (h : List.Forall₂ R xs ys)
    {x : α} (hx : x ∈ xs) : ∃ y ∈ ys, R x y :=
  exists_left h.flip hx

/-- Lists whose elements agree in something agree in it. -/
theorem map_eq_map {γ : Type} {f : α → γ} {g : β → γ} {xs : List α} {ys : List β}
    (h : List.Forall₂ (fun x y => f x = g y) xs ys) : xs.map f = ys.map g := by
  rw [← List.forall₂_eq_eq_eq]
  exact List.forall₂_map_left_iff.mpr (List.forall₂_map_right_iff.mpr h)

/-- **A pass over a list that succeeds has succeeded on each element.** -/
theorem mapM_eq_ok {f : α → Except ε β} {xs : List α} {ys : List β} (h : xs.mapM f = .ok ys) :
    List.Forall₂ (fun x y => f x = .ok y) xs ys := by
  induction xs generalizing ys with
  | nil =>
    obtain rfl := Except.ok.inj h
    exact .nil
  | cons x xs ih =>
    rw [List.mapM_cons] at h
    obtain ⟨y, hy, h⟩ := bind_eq_ok h
    obtain ⟨rest, hrest, h⟩ := bind_eq_ok h
    obtain rfl := Except.ok.inj h
    exact .cons hy (ih hrest)

/-- A pass over a list succeeds exactly when it does on each element. -/
theorem exists_mapM_ok {f : α → Except ε β} {xs : List α} :
    (∃ ys, xs.mapM f = .ok ys) ↔ ∀ x ∈ xs, ∃ y, f x = .ok y := by
  induction xs with
  | nil => exact ⟨fun _ x hx => absurd hx List.not_mem_nil, fun _ => ⟨[], rfl⟩⟩
  | cons x xs ih =>
    rw [List.mapM_cons, exists_bind_ok, List.forall_mem_cons, ← ih]
    constructor
    · rintro ⟨y, hy, hrest⟩
      obtain ⟨ys, hys, -⟩ := exists_bind_ok.mp hrest
      exact ⟨⟨y, hy⟩, ys, hys⟩
    · rintro ⟨⟨y, hy⟩, ys, hys⟩
      exact ⟨y, hy, exists_bind_ok.mpr ⟨ys, hys, _, rfl⟩⟩

/-- A pass over a list fails as it does on one of the elements. -/
theorem exists_of_mapM_error {f : α → Except ε β} {xs : List α} {e : ε}
    (h : xs.mapM f = .error e) : ∃ x ∈ xs, f x = .error e := by
  induction xs with
  | nil => cases h
  | cons x xs ih =>
    rw [List.mapM_cons] at h
    rcases bind_eq_error.mp h with hx | ⟨y, -, hrest⟩
    · exact ⟨x, List.mem_cons_self, hx⟩
    · rcases bind_eq_error.mp hrest with hxs | ⟨ys, -, hlast⟩
      · obtain ⟨z, hz, hfz⟩ := ih hxs
        exact ⟨z, List.mem_cons_of_mem x hz, hfz⟩
      · cases hlast

/-- Each element has its result in the pass. -/
theorem mem_mapM_eq_ok {f : α → Except ε β} {xs : List α} {ys : List β} (h : xs.mapM f = .ok ys)
    {x : α} (hx : x ∈ xs) : ∃ y ∈ ys, f x = .ok y :=
  exists_right (mapM_eq_ok h) hx

/-- Each result of the pass is that of an element. -/
theorem exists_of_mem_mapM {f : α → Except ε β} {xs : List α} {ys : List β} (h : xs.mapM f = .ok ys)
    {y : β} (hy : y ∈ ys) : ∃ x ∈ xs, f x = .ok y :=
  exists_left (mapM_eq_ok h) hy

/-- What holds of a result exactly when something holds of what it came from does so of all of them. -/
theorem forall_mapM_iff {f : α → Except ε β} {P : α → Prop} {Q : β → Prop}
    (hstep : ∀ x y, f x = .ok y → (Q y ↔ P x)) {xs : List α} {ys : List β}
    (h : xs.mapM f = .ok ys) : (∀ y ∈ ys, Q y) ↔ ∀ x ∈ xs, P x := by
  have hforall : ∀ {xs ys}, List.Forall₂ (fun x y => f x = .ok y) xs ys →
      ((∀ y ∈ ys, Q y) ↔ ∀ x ∈ xs, P x) := by
    intro xs ys hall
    induction hall with
    | nil => simp
    | cons hxy _ ih => rw [List.forall_mem_cons, List.forall_mem_cons, hstep _ _ hxy, ih]
  exact hforall (mapM_eq_ok h)

/-- Passes over lists that correspond are the same, if they are element by element. -/
theorem mapM_congr {γ : Type} {f : α → Except ε γ} {g : β → Except ε γ} {xs : List α} {ys : List β}
    (h : List.Forall₂ (fun x y => f x = g y) xs ys) : xs.mapM f = ys.mapM g := by
  induction h with
  | nil => rfl
  | cons hfirst _ ih => rw [List.mapM_cons, List.mapM_cons, hfirst, ih]

/-! ## Failing in one way -/

/-- **It fails in this way exactly when this holds**, and in no other. -/
structure FailsWhen (x : Except ε α) (e : ε) (P : Prop) : Prop where
  error : P → x = .error e
  ok : ¬ P → ∃ a, x = .ok a

namespace FailsWhen
variable {x : Except ε α} {e : ε} {P Q : Prop}

theorem exists_ok (h : FailsWhen x e P) : (∃ a, x = .ok a) ↔ ¬ P := by
  refine ⟨fun ⟨a, ha⟩ hP => ?_, h.ok⟩
  rw [h.error hP] at ha
  cases ha

theorem eq_error (h : FailsWhen x e P) {d : ε} : x = .error d ↔ P ∧ d = e := by
  by_cases hP : P
  · rw [h.error hP, Except.error.injEq]
    exact ⟨fun heq => ⟨hP, heq.symm⟩, fun hd => hd.2.symm⟩
  · obtain ⟨a, ha⟩ := h.ok hP
    rw [ha]
    exact ⟨fun heq => (nomatch heq), fun hd => absurd hd.1 hP⟩

theorem congr (h : FailsWhen x e P) (hPQ : P ↔ Q) : FailsWhen x e Q :=
  ⟨fun hQ => h.error (hPQ.mpr hQ), fun hQ => h.ok (mt hPQ.mp hQ)⟩

theorem of_ok (a : α) : FailsWhen (.ok a) e False :=
  ⟨fun h => h.elim, fun _ => ⟨a, rfl⟩⟩

/-- What is made of the result does not change whether there is one. -/
theorem map (h : FailsWhen x e P) (f : α → β) : FailsWhen (x >>= fun a => .ok (f a)) e P := by
  refine ⟨fun hP => ?_, fun hP => ?_⟩
  · rw [h.error hP]
    rfl
  · obtain ⟨a, rfl⟩ := h.ok hP
    exact ⟨f a, rfl⟩

/-- A step and one after it that fails in the same way fail when one of them does. -/
theorem bind {f : α → Except ε β} (h : FailsWhen x e P) (hf : ∀ a, FailsWhen (f a) e Q) :
    FailsWhen (x >>= f) e (P ∨ Q) := by
  by_cases hP : P
  · rw [h.error hP]
    exact ⟨fun _ => rfl, fun hnot => absurd (.inl hP) hnot⟩
  · obtain ⟨a, rfl⟩ := h.ok hP
    exact (hf a).congr ⟨.inr, fun hPQ => hPQ.resolve_left hP⟩

/-- A pass over a list fails when one of the elements does. -/
theorem mapM {f : α → Except ε β} {P : α → Prop} {xs : List α}
    (h : ∀ x ∈ xs, FailsWhen (f x) e (P x)) : FailsWhen (xs.mapM f) e (∃ x ∈ xs, P x) := by
  have hok : (∃ ys, xs.mapM f = .ok ys) ↔ ¬ ∃ x ∈ xs, P x := by
    rw [exists_mapM_ok, not_exists]
    exact ⟨fun hall x ⟨hx, hP⟩ => (h x hx).exists_ok.mp (hall x hx) hP,
      fun hnone x hx => (h x hx).exists_ok.mpr fun hP => hnone x ⟨hx, hP⟩⟩
  refine ⟨fun hP => ?_, hok.mpr⟩
  cases hmap : xs.mapM f with
  | ok ys => exact absurd hP (hok.mp ⟨ys, hmap⟩)
  | error d =>
    obtain ⟨x, hx, herror⟩ := exists_of_mapM_error hmap
    rw [((h x hx).eq_error.mp herror).2]

end FailsWhen

/-! ## Two computations -/

/-- **Two computations raise the same, or answer what is related.** -/
inductive Together {α' : Type} (R : α → α' → Prop) : Except ε α → Except ε α' → Prop
  | ok {a : α} {a' : α'} : R a a' → Together R (.ok a) (.ok a')
  | error (e : ε) : Together R (.error e) (.error e)

namespace Together
variable {α' β' : Type} {R : α → α' → Prop} {S : β → β' → Prop} {x : Except ε α} {x' : Except ε α'}

theorem of_eq {x y : Except ε α} (h : x = y) : Together Eq x y := by
  subst h
  cases x with
  | error e => exact .error e
  | ok a => exact .ok rfl

theorem eq {x y : Except ε α} (h : Together Eq x y) : x = y := by
  cases h with
  | ok h => rw [h]
  | error e => rfl

/-- What is related is what the two answered. -/
theorem answers (h : Together R x x') :
    Together (fun a a' => R a a' ∧ x = .ok a ∧ x' = .ok a') x x' := by
  cases h with
  | ok h => exact .ok ⟨h, rfl, rfl⟩
  | error e => exact .error e

/-- What follows in each keeps to the other, if it does from related answers. -/
theorem bind {f : α → Except ε β} {f' : α' → Except ε β'} (h : Together R x x')
    (hf : ∀ a a', R a a' → Together S (f a) (f' a')) : Together S (x >>= f) (x' >>= f') := by
  cases h with
  | ok h => exact hf _ _ h
  | error e => exact .error e

end Together

end Gpuc.Basis
