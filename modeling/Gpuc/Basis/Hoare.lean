import Gpuc.Basis.Effect

/-!
# What actions keep

`Act.Holds P x Q E I`: from a world and a log where `P` holds, the action leaves them so that `Q` does
where it returns, `E` where it raises, and `I` where it has not left yet. The rules are one for each way
of putting actions together; `Holds.forever` is the one for loops, with what each turn keeps.
-/

set_option autoImplicit false

namespace Gpuc.Basis.Act

variable {σ τ ε α β : Type}

/-- How a run ended, and what holds of that. -/
def Lands (Q : α → Logged σ τ → Prop) (E : ε → Logged σ τ → Prop) (I : Logged σ τ → Prop) :
    Outcome ε α × Logged σ τ → Prop
  | (.returned a, s) => Q a s
  | (.raised e, s) => E e s
  | (.going, s) => I s

/-- **Where an action leads from these states.** -/
def Holds (P : Logged σ τ → Prop) (x : Act σ τ ε α) (Q : α → Logged σ τ → Prop)
    (E : ε → Logged σ τ → Prop) (I : Logged σ τ → Prop) : Prop :=
  ∀ s, P s → Lands Q E I (x s)

section Rules
variable {P P' : Logged σ τ → Prop} {Q Q' : α → Logged σ τ → Prop} {R : β → Logged σ τ → Prop}
  {E E' : ε → Logged σ τ → Prop} {I I' : Logged σ τ → Prop} {x : Act σ τ ε α} {f : α → Act σ τ ε β}

theorem Lands.imp {end' : Outcome ε α × Logged σ τ} (h : Lands Q E I end')
    (hQ : ∀ a s, Q a s → Q' a s) (hE : ∀ e s, E e s → E' e s) (hI : ∀ s, I s → I' s) :
    Lands Q' E' I' end' := by
  rcases end' with ⟨a | e | _, s⟩
  · exact hQ a s h
  · exact hE e s h
  · exact hI s h

theorem Holds.imp (h : Holds P x Q E I) (hP : ∀ s, P' s → P s) (hQ : ∀ a s, Q a s → Q' a s)
    (hE : ∀ e s, E e s → E' e s) (hI : ∀ s, I s → I' s) : Holds P' x Q' E' I' :=
  fun s hs => (h s (hP s hs)).imp hQ hE hI

theorem Holds.before (h : Holds P x Q E I) (hP : ∀ s, P' s → P s) : Holds P' x Q E I :=
  fun s hs => h s (hP s hs)

theorem Holds.after (h : Holds P x Q E I) (hQ : ∀ a s, Q a s → Q' a s) : Holds P x Q' E I :=
  h.imp (fun _ => id) hQ (fun _ _ => id) fun _ => id

theorem Holds.pure {a : α} (h : ∀ s, P s → Q a s) : Holds P (pure a : Act σ τ ε α) Q E I := h

theorem Holds.raise {e : ε} (h : ∀ s, P s → E e s) : Holds P (raise e : Act σ τ ε α) Q E I := h

theorem Holds.emit {event : τ} {Q : Unit → Logged σ τ → Prop}
    (h : ∀ s, P s → Q () { s with log := s.log ++ [event] }) :
    Holds P (emit event : Act σ τ ε Unit) Q E I := h

/-- A call moves the world, and says nothing to the log. -/
theorem Holds.call {f : σ → Except ε α × σ}
    (hok : ∀ s a world, P s → f s.world = (.ok a, world) → Q a { s with world })
    (herror : ∀ s e world, P s → f s.world = (.error e, world) → E e { s with world }) :
    Holds P (call f) Q E I := by
  intro s hs
  unfold Act.call
  rcases hf : f s.world with ⟨e | a, world⟩
  · exact herror s e world hs hf
  · exact hok s a world hs hf

theorem Holds.bind (hx : Holds P x Q E I) (hf : ∀ a, Holds (Q a) (f a) R E I) :
    Holds P (x >>= f) R E I := by
  intro s hs
  have hlands := hx s hs
  rcases h : x s with ⟨a | e | _, s'⟩
  · rw [h] at hlands
    rw [bind_returned h]
    exact hf a s' hlands
  · rw [h] at hlands
    rw [bind_raised h]
    exact hlands
  · rw [h] at hlands
    rw [bind_going h]
    exact hlands

/-- A handler returns, with what the action it stands around returned or raised. -/
theorem Holds.attempt {Q : Except ε α → Logged σ τ → Prop}
    (hx : Holds P x (fun a s => Q (.ok a) s) (fun e s => Q (.error e) s) I) :
    Holds P (attempt x) Q E I := by
  intro s hs
  have hlands := hx s hs
  rcases h : x s with ⟨a | e | _, s'⟩
  · rw [h] at hlands
    rw [attempt_returned h]
    exact hlands
  · rw [h] at hlands
    rw [attempt_raised h]
    exact hlands
  · rw [h] at hlands
    rw [attempt_going h]
    exact hlands

theorem Holds.ite {c : Prop} [Decidable c] {y : Act σ τ ε α} (hx : c → Holds P x Q E I)
    (hy : ¬ c → Holds P y Q E I) : Holds P (if c then x else y) Q E I := by
  split
  · next h => exact hx h
  · next h => exact hy h

/-- **What each turn of a loop keeps, the loop keeps**, and what a last turn leads to it leads to. -/
theorem Holds.forever {body : β → Act σ τ ε (α ⊕ β)} {K : β → Logged σ τ → Prop}
    (hbody : ∀ b, Holds (K b) (body b) (fun answer s => answer.elim (fun a => Q a s) fun b => K b s)
      E I)
    (hfuel : ∀ b s, K b s → I s) (n : Nat) (b : β) : Holds (K b) (forever body n b) Q E I := by
  induction n generalizing b with
  | zero => exact hfuel b
  | succ n ih =>
    refine (hbody b).bind fun answer => ?_
    cases answer with
    | inl a => exact .pure fun _ hs => hs
    | inr b => exact ih b

end Rules

end Gpuc.Basis.Act
