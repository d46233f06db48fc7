import Mathlib.Logic.Basic

/-!
# Actions that may raise

A computation that calls the world, keeps a log of what it was answered, and ends in one of three ways:
it returns, it raises, or it has not left yet (`going`: a wait the run saw no end of). `Act.attempt` is
what a handler is made of: it turns what an action raised into a value.

`Act.Quiet` says that an action adds nothing to the log, `Act.Ends` that it always leaves, and
`Act.Emits` what one run of it adds, with how it ends. Each has its rules for sequencing, for handlers
and for waits, so that what a run leaves in the log is read off the text of the action. `Act.Triple` is
of what holds of the log itself: before an action, however it ends, and where it returns.
-/

set_option autoImplicit false

namespace Gpuc.Basis

/-- How one run of an action ends. -/
inductive Outcome (ε α : Type) where
  | returned (a : α)
  | raised (e : ε)
  | going
  deriving DecidableEq

/-- A world, and the log of what it has answered, newest last. -/
structure Logged (σ τ : Type) where
  world : σ
  log : List τ

/-- An action on a logged world. -/
def Act (σ τ ε α : Type) := Logged σ τ → Outcome ε α × Logged σ τ

namespace Act

variable {σ τ ε α β : Type}

protected def pure (a : α) : Act σ τ ε α := fun s => (.returned a, s)

protected def bind (x : Act σ τ ε α) (f : α → Act σ τ ε β) : Act σ τ ε β := fun s =>
  match x s with
  | (.returned a, s') => f a s'
  | (.raised e, s') => (.raised e, s')
  | (.going, s') => (.going, s')

instance : Monad (Act σ τ ε) where
  pure := Act.pure
  bind := Act.bind

def raise (e : ε) : Act σ τ ε α := fun s => (.raised e, s)

/-- A call of the world, which may raise. -/
def call (f : σ → Except ε α × σ) : Act σ τ ε α := fun s =>
  match f s.world with
  | (.ok a, world) => (.returned a, { s with world })
  | (.error e, world) => (.raised e, { s with world })

def emit (event : τ) : Act σ τ ε Unit := fun s => (.returned (), { s with log := s.log ++ [event] })

/-- The log as it stands. -/
def readLog : Act σ τ ε (List τ) := fun s => (.returned s.log, s)

/-- What an action raises, as a value. -/
def attempt (x : Act σ τ ε α) : Act σ τ ε (Except ε α) := fun s =>
  match x s with
  | (.returned a, s') => (.returned (.ok a), s')
  | (.raised e, s') => (.returned (.error e), s')
  | (.going, s') => (.going, s')

/-- An action with a log and exceptions of its own, as a part of one with others. -/
def embed {τ' ε' : Type} (f : τ → τ') (g : ε → ε') (x : Act σ τ ε α) : Act σ τ' ε' α := fun s =>
  match x { world := s.world, log := [] } with
  | (.returned a, s') => (.returned a, { world := s'.world, log := s.log ++ s'.log.map f })
  | (.raised e, s') => (.raised (g e), { world := s'.world, log := s.log ++ s'.log.map f })
  | (.going, s') => (.going, { world := s'.world, log := s.log ++ s'.log.map f })

/-- A loop until its body answers, as far as the fuel goes. -/
def forever (body : β → Act σ τ ε (α ⊕ β)) : Nat → β → Act σ τ ε α
  | 0, _ => fun s => (.going, s)
  | n + 1, b => do
    match ← body b with
    | .inl a => return a
    | .inr b => forever body n b

/-! ## What an action computes -/

section Run
variable {s s' : Logged σ τ} {x : Act σ τ ε α} {f : α → Act σ τ ε β} {a : α} {e : ε}

@[simp] theorem pure_run : (pure a : Act σ τ ε α) s = (.returned a, s) := rfl

@[simp] theorem raise_run : (raise e : Act σ τ ε α) s = (.raised e, s) := rfl

@[simp] theorem emit_run {event : τ} :
    (emit event : Act σ τ ε Unit) s = (.returned (), { s with log := s.log ++ [event] }) := rfl

@[simp] theorem readLog_run : (readLog : Act σ τ ε (List τ)) s = (.returned s.log, s) := rfl

theorem bind_returned (h : x s = (.returned a, s')) : (x >>= f) s = f a s' := by
  change Act.bind x f s = _
  rw [Act.bind, h]

theorem bind_raised (h : x s = (.raised e, s')) : (x >>= f) s = (.raised e, s') := by
  change Act.bind x f s = _
  rw [Act.bind, h]

theorem bind_going (h : x s = (.going, s')) : (x >>= f) s = (.going, s') := by
  change Act.bind x f s = _
  rw [Act.bind, h]

theorem attempt_returned (h : x s = (.returned a, s')) : attempt x s = (.returned (.ok a), s') := by
  rw [attempt, h]

theorem attempt_raised (h : x s = (.raised e, s')) : attempt x s = (.returned (.error e), s') := by
  rw [attempt, h]

theorem attempt_going (h : x s = (.going, s')) : attempt x s = (.going, s') := by
  rw [attempt, h]

end Run

/-! ## What a run adds to the log -/

/-- It adds these events, and ends so. -/
def Emits (x : Act σ τ ε α) (s : Logged σ τ) (Q : Outcome ε α → List τ → Prop) : Prop :=
  ∃ events, (x s).2.log = s.log ++ events ∧ Q (x s).1 events

/-- It adds nothing to the log, from wherever it starts. -/
def Quiet (x : Act σ τ ε α) : Prop :=
  ∀ s, (x s).2.log = s.log

/-- It always leaves, from wherever it starts. -/
def Ends (x : Act σ τ ε α) : Prop :=
  ∀ s, (x s).1 ≠ .going

section Rules
variable {s : Logged σ τ} {x : Act σ τ ε α} {f : α → Act σ τ ε β}

theorem Emits.imp {P Q : Outcome ε α → List τ → Prop} (h : Emits x s P)
    (hpq : ∀ outcome events, P outcome events → Q outcome events) : Emits x s Q := by
  obtain ⟨events, hlog, hp⟩ := h
  exact ⟨events, hlog, hpq _ _ hp⟩

/-- The events are what the log has grown by. -/
theorem Emits.logged {P : Outcome ε α → List τ → Prop} (h : Emits x s P) :
    Emits x s fun outcome events => P outcome events ∧ (x s).2.log = s.log ++ events := by
  obtain ⟨events, hlog, hp⟩ := h
  exact ⟨events, hlog, hp, hlog⟩

theorem Emits.pure {a : α} {Q : Outcome ε α → List τ → Prop} (h : Q (.returned a) []) :
    Emits (pure a : Act σ τ ε α) s Q :=
  ⟨[], (List.append_nil _).symm, h⟩

theorem Emits.raise {e : ε} {Q : Outcome ε α → List τ → Prop} (h : Q (.raised e) []) :
    Emits (raise e : Act σ τ ε α) s Q :=
  ⟨[], (List.append_nil _).symm, h⟩

theorem Emits.emit {event : τ} {Q : Outcome ε Unit → List τ → Prop} (h : Q (.returned ()) [event]) :
    Emits (emit event : Act σ τ ε Unit) s Q :=
  ⟨[event], rfl, h⟩

/-- What follows an action that returned starts where that left the world, and adds to its events. -/
theorem Emits.bind_cases {P : Outcome ε α → List τ → Prop} {Q : Outcome ε β → List τ → Prop}
    (hx : Emits x s P)
    (hreturned : ∀ a s' events, x s = (.returned a, s') → P (.returned a) events →
      Emits (f a) s' fun outcome events' => Q outcome (events ++ events'))
    (hraised : ∀ e s' events, x s = (.raised e, s') → P (.raised e) events → Q (.raised e) events)
    (hgoing : ∀ events, (x s).1 = .going → P .going events → Q .going events) :
    Emits (x >>= f) s Q := by
  obtain ⟨events, hlog, hp⟩ := hx
  rcases hx : x s with ⟨a | e | _, s'⟩
  · rw [hx] at hlog hp
    obtain ⟨events', hlog', hq⟩ := hreturned a s' events hx hp
    refine ⟨events ++ events', ?_, ?_⟩
    · rw [bind_returned hx, hlog', hlog, List.append_assoc]
    · rw [bind_returned hx]
      exact hq
  · rw [hx] at hlog hp
    refine ⟨events, ?_, ?_⟩
    · rw [bind_raised hx, hlog]
    · rw [bind_raised hx]
      exact hraised e s' events hx hp
  · rw [hx] at hlog hp
    refine ⟨events, ?_, ?_⟩
    · rw [bind_going hx, hlog]
    · rw [bind_going hx]
      exact hgoing events (by rw [hx]) hp

theorem Emits.bind {Q : Outcome ε β → List τ → Prop}
    (h : Emits x s fun outcome events =>
      match outcome with
      | .returned a => Emits (f a) (x s).2 fun outcome' events' => Q outcome' (events ++ events')
      | .raised e => Q (.raised e) events
      | .going => Q .going events) :
    Emits (x >>= f) s Q := by
  refine h.bind_cases ?_ (fun e s' events _ hq => hq) (fun events _ hq => hq)
  intro a s' events hx hq
  rw [hx] at hq
  exact hq

/-- A handler takes over where the action it stands around left the world. -/
theorem Emits.bind_attempt {P : Outcome ε α → List τ → Prop} {Q : Outcome ε β → List τ → Prop}
    {f : Except ε α → Act σ τ ε β} (hx : Emits x s P)
    (hok : ∀ a s' events, x s = (.returned a, s') → P (.returned a) events →
      Emits (f (.ok a)) s' fun outcome events' => Q outcome (events ++ events'))
    (herror : ∀ e s' events, x s = (.raised e, s') → P (.raised e) events →
      Emits (f (.error e)) s' fun outcome events' => Q outcome (events ++ events'))
    (hgoing : ∀ events, (x s).1 = .going → P .going events → Q .going events) :
    Emits (attempt x >>= f) s Q := by
  obtain ⟨events, hlog, hp⟩ := hx
  rcases hx : x s with ⟨a | e | _, s'⟩
  · rw [hx] at hlog hp
    obtain ⟨events', hlog', hq⟩ := hok a s' events hx hp
    refine ⟨events ++ events', ?_, ?_⟩
    · rw [bind_returned (attempt_returned hx), hlog', hlog, List.append_assoc]
    · rw [bind_returned (attempt_returned hx)]
      exact hq
  · rw [hx] at hlog hp
    obtain ⟨events', hlog', hq⟩ := herror e s' events hx hp
    refine ⟨events ++ events', ?_, ?_⟩
    · rw [bind_returned (attempt_raised hx), hlog', hlog, List.append_assoc]
    · rw [bind_returned (attempt_raised hx)]
      exact hq
  · rw [hx] at hlog hp
    refine ⟨events, ?_, ?_⟩
    · rw [bind_going (attempt_going hx), hlog]
    · rw [bind_going (attempt_going hx)]
      exact hgoing events (by rw [hx]) hp

theorem Emits.readLog {f : List τ → Act σ τ ε β} {Q : Outcome ε β → List τ → Prop}
    (h : Emits (f s.log) s Q) : Emits (readLog >>= f) s Q := by
  unfold Emits
  rw [bind_returned (readLog_run (s := s))]
  exact h

/-- A quiet action may end in any way, with nothing in the log. -/
theorem Quiet.emits (h : Quiet x) {Q : Outcome ε α → List τ → Prop} (hq : ∀ outcome, Q outcome []) :
    Emits x s Q :=
  ⟨[], by rw [h s, List.append_nil], hq _⟩

/-- A quiet action does nothing that the log tells. -/
theorem Quiet.emits_nil (h : Quiet x) : Emits x s fun _ events => events = [] :=
  h.emits fun _ => rfl

theorem quiet_pure (a : α) : Quiet (pure a : Act σ τ ε α) := fun _ => rfl

theorem quiet_raise (e : ε) : Quiet (raise e : Act σ τ ε α) := fun _ => rfl

theorem quiet_readLog : Quiet (readLog : Act σ τ ε (List τ)) := fun _ => rfl

theorem quiet_call (f : σ → Except ε α × σ) : Quiet (call f : Act σ τ ε α) := by
  intro s
  unfold call
  rcases f s.world with ⟨e | a, world⟩ <;> rfl

theorem Quiet.bind (hx : Quiet x) (hf : ∀ a, Quiet (f a)) : Quiet (x >>= f) := by
  intro s
  rcases h : x s with ⟨a | e | _, s'⟩
  · have hlog := hx s
    rw [h] at hlog
    rw [bind_returned h, hf a s']
    exact hlog
  · have hlog := hx s
    rw [bind_raised h, ← hlog, h]
  · have hlog := hx s
    rw [bind_going h, ← hlog, h]

theorem Quiet.ite {c : Prop} [Decidable c] {y : Act σ τ ε α} (hx : Quiet x) (hy : Quiet y) :
    Quiet (if c then x else y) := by
  split
  · exact hx
  · exact hy

theorem Quiet.attempt (hx : Quiet x) : Quiet (attempt x) := by
  intro s
  have hlog := hx s
  rcases h : x s with ⟨a | e | _, s'⟩
  · rw [attempt_returned h, ← hlog, h]
  · rw [attempt_raised h, ← hlog, h]
  · rw [attempt_going h, ← hlog, h]

theorem quiet_forever {body : β → Act σ τ ε (α ⊕ β)} (hbody : ∀ b, Quiet (body b)) (n : Nat) (b : β) :
    Quiet (forever body n b) := by
  induction n generalizing b with
  | zero => exact fun _ => rfl
  | succ n ih =>
    refine (hbody b).bind fun answer => ?_
    cases answer with
    | inl a => exact quiet_pure a
    | inr b => exact ih b

theorem ends_pure (a : α) : Ends (pure a : Act σ τ ε α) := fun _ h => nomatch h

theorem ends_raise (e : ε) : Ends (raise e : Act σ τ ε α) := fun _ h => nomatch h

theorem ends_call (f : σ → Except ε α × σ) : Ends (call f : Act σ τ ε α) := by
  intro s
  unfold call
  rcases f s.world with ⟨e | a, world⟩ <;> simp

theorem Ends.bind (hx : Ends x) (hf : ∀ a, Ends (f a)) : Ends (x >>= f) := by
  intro s
  rcases h : x s with ⟨a | e | _, s'⟩
  · rw [bind_returned h]
    exact hf a s'
  · rw [bind_raised h]
    simp
  · exact absurd (congrArg Prod.fst h) (hx s)

theorem Ends.ite {c : Prop} [Decidable c] {y : Act σ τ ε α} (hx : Ends x) (hy : Ends y) :
    Ends (if c then x else y) := by
  split
  · exact hx
  · exact hy

theorem Ends.attempt (hx : Ends x) : Ends (attempt x) := by
  intro s
  rcases h : x s with ⟨a | e | _, s'⟩
  · rw [attempt_returned h]
    simp
  · rw [attempt_raised h]
    simp
  · exact absurd (congrArg Prod.fst h) (hx s)

end Rules

/-! ## What holds of the log -/

/-- **From a log where one thing holds, another does however the action ends, and a third where it
returns.** -/
def Triple (P : List τ → Prop) (x : Act σ τ ε α) (I : List τ → Prop) (Q : α → List τ → Prop) : Prop :=
  ∀ s, P s.log → I (x s).2.log ∧ ∀ a, (x s).1 = .returned a → Q a (x s).2.log

section Triples
variable {P P' I : List τ → Prop} {Q : α → List τ → Prop} {R : β → List τ → Prop}
  {x : Act σ τ ε α} {f : α → Act σ τ ε β}

theorem Triple.bind (hx : Triple P x I Q) (hf : ∀ a, Triple (Q a) (f a) I R) :
    Triple P (x >>= f) I R := by
  intro s hs
  obtain ⟨hend, hreturned⟩ := hx s hs
  rcases h : x s with ⟨a | e | _, s'⟩
  · rw [h] at hreturned
    rw [bind_returned h]
    exact hf a s' (hreturned a rfl)
  · rw [h] at hend
    rw [bind_raised h]
    exact ⟨hend, fun a ha => nomatch ha⟩
  · rw [h] at hend
    rw [bind_going h]
    exact ⟨hend, fun a ha => nomatch ha⟩

theorem Triple.imp {I' : List τ → Prop} {Q' : α → List τ → Prop} (hx : Triple P x I Q)
    (hP : ∀ log, P' log → P log) (hI : ∀ log, I log → I' log) (hQ : ∀ a log, Q a log → Q' a log) :
    Triple P' x I' Q' := fun s hs =>
  ⟨hI _ (hx s (hP _ hs)).1, fun a ha => hQ a _ ((hx s (hP _ hs)).2 a ha)⟩

/-- What holds before may be used to show it. -/
theorem Triple.of_before (h : ∀ log, P log → Triple P x I Q) : Triple P x I Q :=
  fun s hs => h s.log hs s hs

theorem Triple.pure {a : α} (h : ∀ log, P log → I log ∧ Q a log) :
    Triple P (pure a : Act σ τ ε α) I Q := by
  intro s hs
  obtain ⟨hI, hQ⟩ := h s.log hs
  refine ⟨hI, fun b hb => ?_⟩
  cases hb
  exact hQ

theorem Triple.raise {e : ε} (h : ∀ log, P log → I log) : Triple P (raise e : Act σ τ ε α) I Q :=
  fun s hs => ⟨h s.log hs, fun _ ha => nomatch ha⟩

theorem Triple.emit {event : τ} {Q : Unit → List τ → Prop}
    (h : ∀ log, P log → I (log ++ [event]) ∧ Q () (log ++ [event])) :
    Triple P (emit event : Act σ τ ε Unit) I Q := fun s hs =>
  ⟨(h s.log hs).1, fun _ _ => (h s.log hs).2⟩

/-- A call says nothing to the log. -/
theorem Triple.call {f : σ → Except ε α × σ} (h : ∀ log, P log → I log ∧ ∀ a, Q a log) :
    Triple P (call f) I Q := by
  intro s hs
  rw [quiet_call f s]
  exact ⟨(h s.log hs).1, fun a _ => (h s.log hs).2 a⟩

/-- A handler returns, with what the action it stands around returned or raised. -/
theorem Triple.attempt {Q : Except ε α → List τ → Prop}
    (hx : Triple P x I fun a log => Q (.ok a) log) (hraised : ∀ e log, I log → Q (.error e) log) :
    Triple P (attempt x) I Q := by
  intro s hs
  obtain ⟨hend, hreturned⟩ := hx s hs
  rcases h : x s with ⟨a | e | _, s'⟩
  · rw [h] at hend hreturned
    rw [attempt_returned h]
    refine ⟨hend, fun b hb => ?_⟩
    cases hb
    exact hreturned a rfl
  · rw [h] at hend
    rw [attempt_raised h]
    refine ⟨hend, fun b hb => ?_⟩
    cases hb
    exact hraised e _ hend
  · rw [h] at hend
    rw [attempt_going h]
    exact ⟨hend, fun b hb => nomatch hb⟩

theorem Triple.ite {c : Prop} [Decidable c] {y : Act σ τ ε α} (hx : c → Triple P x I Q)
    (hy : ¬ c → Triple P y I Q) : Triple P (if c then x else y) I Q := by
  split
  · next h => exact hx h
  · next h => exact hy h

/-- What one run of the part adds to its own log, it adds to the whole's. -/
theorem Triple.embed {τ' ε' : Type} {f : τ → τ'} {g : ε → ε'} {P I : List τ' → Prop}
    {Q : α → List τ' → Prop} {S : Outcome ε α → List τ → Prop}
    (hx : ∀ world, Emits x { world, log := [] } S)
    (h : ∀ log, P log → ∀ outcome events, S outcome events →
      I (log ++ events.map f) ∧ ∀ a, outcome = .returned a → Q a (log ++ events.map f)) :
    Triple P (embed f g x) I Q := by
  intro s hs
  obtain ⟨events, hlog, hS⟩ := hx s.world
  obtain ⟨hI, hQ⟩ := h s.log hs _ events hS
  rw [List.nil_append] at hlog
  unfold Act.embed
  rcases hrun : x { world := s.world, log := [] } with ⟨a | e | _, s'⟩
  · rw [hrun] at hlog hQ
    dsimp only at hlog ⊢
    rw [hlog]
    refine ⟨hI, fun b hb => ?_⟩
    cases hb
    exact hQ a rfl
  · rw [hrun] at hlog
    dsimp only at hlog ⊢
    rw [hlog]
    exact ⟨hI, fun b hb => nomatch hb⟩
  · rw [hrun] at hlog
    dsimp only at hlog ⊢
    rw [hlog]
    exact ⟨hI, fun b hb => nomatch hb⟩

end Triples

end Act

end Gpuc.Basis
