import Gpuc.Basis.Hoare
import Gpuc.Laws.Job.Course

/-!
# A runner keeps to its course

Wherever a signal comes in and whatever its machine answers, the events of a run are those of some course
(`run_course`), which says what may be known from a record (`run_disciplined`). `Leads` is where a piece
of the program leads from a stage: there is one rule for each, and the program is gone through once.
-/

set_option autoImplicit false

namespace Gpuc.Host.Attempt

open Gpuc.Basis

/-! ## The object at a stage -/

section Here
variable (g : Given)

/-- What the fields are at a stage. -/
def Fits (object : Self) : Stage → Prop
  | .unclaimed => object.killReason = none ∧ object.ending = false ∧ object.mainStarted = false
  | .ready done | .during done _ =>
    object.killReason = none ∧ object.ending = false ∧ (object.mainStarted = true → beforeMain g <+: done)
  | .off done signalled =>
    (signalled = true → object.ending = true) ∧ (object.mainStarted = true → beforeMain g <+: done)
  | .ending _ _ _ | .closed => object.ending = true

/-- **The attempt stands there**, its object fits, and so much is known of what was asked of it and of
whether `main` has started. -/
structure Stands (stage : Stage) (C : Option String → Bool → Prop) (object : Self) (log : List Event) :
    Prop where
  course : courseOf g log = some stage
  fits : Fits g object stage
  known : C object.killReason object.mainStarted

/-- Nothing in particular is known. -/
def Any : Option String → Bool → Prop := fun _ _ => True

/-- Something was asked of the attempt. -/
def Asked : Option String → Bool → Prop := fun reason _ => reason.isSome = true

/-- Left by a signal. -/
def Interrupted (object : Self) (log : List Event) : Prop :=
  ∃ done, Stands g (.off done true) Any object log

/-- There is such a course. -/
def Courses (_ : Self) (log : List Event) : Prop := (courseOf g log).isSome = true

variable {σ : Type}

/-- A predicate of the object and the events, on the states of a run. -/
def On (K : Self → List Event → Prop) (s : Logged (Running σ) Event) : Prop := K s.world.self s.log

/-- What an exception leaves. -/
def Thrown : Exn → Self → List Event → Prop
  | .terminated => Interrupted g
  | .died => Courses g

/-- **From one place to another**, whatever is answered, and wherever a signal comes in. -/
def Leads {α : Type} (K : Self → List Event → Prop) (x : Prog σ α) (L : α → Self → List Event → Prop) :
    Prop :=
  Act.Holds (On K) x (fun a => On (L a)) (fun e => On (Thrown g e)) (On (Courses g))

/-- A signal may come in here: it finds a course, with more of it to come or none to be taken. -/
structure Steady (K : Self → List Event → Prop) : Prop where
  live : ∀ {object log}, K object log → Courses g object log
  signalled : ∀ {object log}, K object log → object.ending = false →
    Interrupted g { object with ending := true } (log ++ [.signalled])

end Here

section Leads
variable {g : Given} {σ : Type} {α β : Type} {w : World σ} {K K₁ : Self → List Event → Prop}
  {x : Prog σ α} {f : α → Prog σ β} {L L₁ : α → Self → List Event → Prop}
  {M : β → Self → List Event → Prop}

theorem Stands.steady {stage : Stage} {C : Option String → Bool → Prop} (hstage : stage.claimed = true) :
    Steady g (Stands g stage C) where
  live h := by rw [Courses, h.course]; rfl
  signalled {object log} h hending := by
    obtain ⟨hcourse, hfits, -⟩ := h
    cases stage with
    | unclaimed => cases hstage
    | ready done | during done phase =>
      exact ⟨done, courseOf_step hcourse rfl, ⟨fun _ => rfl, hfits.2.2⟩, trivial⟩
    | off done signalled =>
      cases signalled with
      | false => exact ⟨done, courseOf_step hcourse rfl, ⟨fun _ => rfl, hfits.2⟩, trivial⟩
      | true =>
        rw [hfits.1 rfl] at hending
        cases hending
    | ending | closed =>
      rw [show object.ending = true from hfits] at hending
      cases hending

theorem Leads.bind (hx : Leads g K x L) (hf : ∀ a, Leads g (L a) (f a) M) : Leads g K (x >>= f) M :=
  Act.Holds.bind hx hf

theorem Leads.pure {a : α} (h : ∀ object log, K object log → L a object log) :
    Leads g K (pure a : Prog σ α) L :=
  Act.Holds.pure fun s hs => h s.world.self s.log hs

theorem Leads.after (h : Leads g K x L) (hafter : ∀ a object log, L a object log → L₁ a object log) :
    Leads g K x L₁ :=
  Act.Holds.after h fun a s hs => hafter a s.world.self s.log hs

theorem Leads.before (h : Leads g K x L) (hbefore : ∀ object log, K₁ object log → K object log) :
    Leads g K₁ x L :=
  Act.Holds.before h fun s hs => hbefore s.world.self s.log hs

/-- What is known before may be used to show where it leads. -/
theorem Leads.of_and {p : Prop} (h : p → Leads g K x L) :
    Leads g (fun object log => p ∧ K object log) x L :=
  fun s hs => h (And.left hs) s (And.right hs)

theorem Leads.of_exists {ι : Type} {J : ι → Self → List Event → Prop} (h : ∀ i, Leads g (J i) x L) :
    Leads g (fun object log => ∃ i, J i object log) x L :=
  fun s hs => Exists.elim hs fun i => h i s

/-- From either of two places. -/
theorem Leads.or (h : Leads g K x L) (h₁ : Leads g K₁ x L) :
    Leads g (fun object log => K object log ∨ K₁ object log) x L :=
  fun s hs => Or.elim hs (h s) (h₁ s)

theorem Leads.ite {c : Prop} [Decidable c] {y : Prog σ α} (hx : c → Leads g K x L)
    (hy : ¬ c → Leads g K y L) : Leads g K (if c then x else y) L :=
  Act.Holds.ite hx hy

theorem leads_died (h : ∀ object log, K object log → Courses g object log) :
    Leads g K (Act.raise .died : Prog σ α) L :=
  Act.Holds.raise fun s hs => h s.world.self s.log hs

theorem leads_emit {e : Event} {M : Unit → Self → List Event → Prop}
    (h : ∀ object log, K object log → M () object (log ++ [e])) : Leads g K (Act.emit e : Prog σ Unit) M :=
  Act.Holds.emit fun s hs => h s.world.self s.log hs

theorem leads_get : Leads g K (get : Prog σ Self) fun a object log => K object log ∧ a = object := by
  refine Act.Holds.call (fun s a world hs heq => ?_) fun s e world hs heq => ?_
  · cases heq
    exact ⟨hs, rfl⟩
  · cases heq

theorem leads_modify {change : Self → Self} {M : Unit → Self → List Event → Prop}
    (h : ∀ object log, K object log → M () (change object) log) :
    Leads g K (modify change : Prog σ Unit) M := by
  refine Act.Holds.call (fun s a world hs heq => ?_) fun s e world hs heq => ?_
  · cases heq
    exact h _ _ hs
  · cases heq

theorem leads_plain {q : σ → Option α × σ} (h : ∀ object log, K object log → Courses g object log) :
    Leads g K (plain q) fun _ => K := by
  refine Act.Holds.call (fun s a world hs heq => ?_) fun s e world hs heq => ?_
  · split at heq
    · cases heq
      exact hs
    · cases heq
  · split at heq
    · cases heq
    · cases heq
      exact h _ _ hs

theorem leads_signals (h : Steady g K) : Leads g K (signals w) fun _ => K := by
  have harrived : Leads g K (arrived w) fun yes object log =>
      K object log ∧ (yes = true → object.ending = false) := by
    refine Act.Holds.call (fun s a world hs heq => ?_) fun s e world hs heq => ?_
    · cases heq
      refine ⟨hs, fun hyes => ?_⟩
      rw [Bool.and_eq_true, Bool.not_eq_true'] at hyes
      exact hyes.2
    · cases heq
  refine harrived.bind fun yes => Leads.ite (fun hyes => ?_) fun _ => .pure fun _ _ hs => hs.1
  refine Leads.bind (leads_modify (M := fun _ object log => Interrupted g object (log ++ [.signalled]))
    fun object log hs => h.signalled hs.1 (hs.2 hyes)) fun _ => ?_
  refine Leads.bind (leads_emit (M := fun _ => Interrupted g) fun _ _ hs => hs) fun _ => ?_
  exact Act.Holds.raise fun _ hs => hs

theorem leads_ask {q : σ → Option α × σ} (h : Steady g K) : Leads g K (ask w q) fun _ => K := by
  refine (leads_signals h).bind fun _ => (leads_plain fun _ _ => h.live).bind fun a => ?_
  exact (leads_signals h).bind fun _ => .pure fun _ _ hs => hs

/-- A call that is seen leads on as it is seen. -/
theorem leads_does {q : σ → Option α × σ} {event : α → Event} (h : Steady g K)
    (h' : ∀ a, Steady g (L a))
    (hevent : ∀ a object log, K object log → L a object (log ++ [event a])) :
    Leads g K (does w q event) L := by
  refine (leads_signals h).bind fun _ => (leads_plain fun _ _ => h.live).bind fun a => ?_
  refine Leads.bind (leads_emit (M := fun _ => L a) (hevent a)) fun _ => ?_
  exact (leads_signals (h' a)).bind fun _ => .pure fun _ _ hs => hs

end Leads

/-! ## What keeps the stage -/

section Stands
variable {g : Given} {stage stage' : Stage} {C D : Option String → Bool → Prop} {object : Self}
  {log : List Event}

/-- The fields that a stage is about. -/
structure SameStanding (before after : Self) : Prop where
  killReason : after.killReason = before.killReason
  ending : after.ending = before.ending
  mainStarted : after.mainStarted = before.mainStarted

theorem Stands.moved {object' : Self} (h : Stands g stage C object log)
    (hsame : SameStanding object object') : Stands g stage C object' log := by
  obtain ⟨hcourse, hfits, hC⟩ := h
  refine ⟨hcourse, ?_, ?_⟩
  · cases stage <;> simpa only [Fits, hsame.killReason, hsame.ending, hsame.mainStarted] using hfits
  · rwa [hsame.killReason, hsame.mainStarted]

/-- An event that the stage takes. -/
theorem Stands.step {e : Event} (h : Stands g stage C object log) (hnext : stage.next g e = some stage')
    (hfits : Fits g object stage → Fits g object stage') : Stands g stage' C object (log ++ [e]) :=
  ⟨courseOf_step h.course hnext, hfits h.fits, h.known⟩

theorem Stands.weaken (h : Stands g stage C object log) (hD : ∀ reason started, C reason started →
    D reason started) : Stands g stage D object log :=
  ⟨h.course, h.fits, hD _ _ h.known⟩

theorem Stage.next_reported (h : stage.reports = true) (r : Report) :
    stage.next g (.reported r) = some stage := by
  cases stage with
  | unclaimed | closed => cases h
  | off done signalled => cases signalled <;> rfl
  | ending done outcome synced => cases synced <;> rfl
  | _ => rfl

end Stands

section Keep
variable {g : Given} {σ α : Type} {w : World σ} {stage : Stage} {C : Option String → Bool → Prop}

theorem stands_modify {change : Self → Self} (h : ∀ object, SameStanding object (change object)) :
    Leads g (Stands g stage C) (modify change : Prog σ Unit) fun _ => Stands g stage C :=
  leads_modify fun object _ hs => hs.moved (h object)

theorem stands_get : Leads g (Stands g stage C) (get : Prog σ Self) fun _ => Stands g stage C :=
  leads_get.after fun _ _ _ hs => hs.1

variable (hstage : stage.reports = true)
include hstage

theorem stands_ask (q : σ → Option α × σ) :
    Leads g (Stands g stage C) (ask w q) fun _ => Stands g stage C :=
  leads_ask (Stands.steady (Stage.claimed_of_reports hstage))

/-- A section that writes leads where its write does. -/
theorem stands_locked {stage' : Stage} {f : JobState → Option JobState} {event : JobState → Event}
    (hstage' : stage'.claimed = true)
    (hevent : ∀ found written, f found = some written → stage.next g (event written) = some stage')
    (hfits : ∀ object, Fits g object stage → Fits g object stage') :
    Leads g (Stands g stage C) (locked w f event) fun written =>
      Stands g (written.elim stage fun _ => stage') C := by
  unfold locked
  refine (stands_ask hstage _).bind fun found => ?_
  cases hfound : f found with
  | none => exact .pure fun _ _ hs => hs
  | some written =>
    refine Leads.bind (leads_does (L := fun _ => Stands g stage' C) (Stands.steady (Stage.claimed_of_reports hstage))
      (fun _ => Stands.steady hstage') fun _ object _ hs => ?_) fun _ => ?_
    · exact hs.step (hevent found written hfound) (hfits object)
    · exact .pure fun _ _ hs => hs

theorem stands_updateState (r : Report) :
    Leads g (Stands g stage C) (updateState w r) fun _ => Stands g stage C := by
  unfold updateState
  refine Leads.bind (stands_locked hstage (Stage.claimed_of_reports hstage) (fun _ _ _ => Stage.next_reported hstage r)
    fun _ => id) fun written => ?_
  cases written <;> exact .pure fun _ _ hs => hs

theorem stands_stopRequested :
    Leads g (Stands g stage C) (stopRequested w) fun _ => Stands g stage C := by
  unfold stopRequested
  refine (stands_ask hstage _).bind fun found => ?_
  cases found <;> exact .pure fun _ _ hs => hs

theorem stands_standDownIfReplaced (proc : Option Nat) (force : Bool) :
    Leads g (Stands g stage C) (standDownIfReplaced w proc force) fun _ => Stands g stage C := by
  unfold standDownIfReplaced
  refine (stands_ask hstage _).bind fun now => stands_get.bind fun object => ?_
  refine Leads.ite (fun _ => .pure fun _ _ hs => hs) fun _ => ?_
  refine Leads.bind (stands_modify fun _ => ⟨rfl, rfl, rfl⟩) fun _ => ?_
  refine (stands_ask hstage _).bind fun other => ?_
  have hdied {β : Type} : Leads g (Stands g stage C) (Act.raise .died : Prog σ β)
      fun _ => Stands g stage C := leads_died fun _ _ => (Stands.steady (Stage.claimed_of_reports hstage)).live
  refine Leads.ite (fun _ => ?_) fun _ => .pure fun _ _ hs => hs
  cases proc with
  | none => exact hdied
  | some pid => exact (stands_ask hstage _).bind fun _ => hdied

theorem stands_publishEstimatedEta (estimate : Option ℚ) (elapsedS : Seconds) :
    Leads g (Stands g stage C) (publishEstimatedEta w estimate elapsedS) fun _ => Stands g stage C := by
  unfold publishEstimatedEta
  refine stands_get.bind fun object => Leads.ite (fun _ => .pure fun _ _ hs => hs) fun _ => ?_
  cases estimate with
  | none => exact Leads.bind (stands_modify fun _ => ⟨rfl, rfl, rfl⟩) fun _ => stands_updateState hstage _
  | some estimate =>
    refine (stands_ask hstage _).bind fun eta => ?_
    cases eta with
    | none => exact .pure fun _ _ hs => hs
    | some eta =>
      exact Leads.bind (stands_modify fun _ => ⟨rfl, rfl, rfl⟩) fun _ => stands_updateState hstage _

theorem stands_recordProgress (command : String) (elapsedS : Seconds) :
    Leads g (Stands g stage C) (recordProgress w command elapsedS) fun _ => Stands g stage C := by
  unfold recordProgress
  refine (stands_ask hstage _).bind fun polled => ?_
  cases polled with
  | error message => exact stands_updateState hstage _
  | ok percent =>
    have heta : Leads g (Stands g stage C) (impliedEta w percent elapsedS) fun _ => Stands g stage C :=
      Leads.ite (fun _ => stands_ask hstage _) fun _ => .pure fun _ _ hs => hs
    refine heta.bind fun eta => Leads.ite (fun _ => ?_) fun _ => stands_updateState hstage _
    exact Leads.bind (stands_modify fun _ => ⟨rfl, rfl, rfl⟩) fun _ => stands_updateState hstage _

theorem stands_recordUtil (sample : Option ℚ) :
    Leads g (Stands g stage C) (recordUtil w sample) fun _ => Stands g stage C := by
  unfold recordUtil
  refine (stands_ask hstage _).bind fun found => ?_
  cases found with
  | none => exact leads_died fun _ _ => (Stands.steady (Stage.claimed_of_reports hstage)).live
  | some state => exact stands_updateState hstage _

theorem stands_polls (p : Watched) (t : Seconds) (timers : Timers) :
    Leads g (Stands g stage C) (polls w g p t timers) fun _ => Stands g stage C := by
  unfold polls
  split
  · exact .pure fun _ _ hs => hs
  · refine Leads.ite (fun _ => ?_) fun _ => .pure fun _ _ hs => hs
    exact (stands_recordProgress hstage _ _).bind fun _ => .pure fun _ _ hs => hs

theorem stands_samples (p : Watched) (t : Seconds) (timers : Timers) :
    Leads g (Stands g stage C) (samples w g p t timers) fun _ => Stands g stage C := by
  unfold samples
  refine Leads.ite (fun _ => ?_) fun _ => .pure fun _ _ hs => hs
  refine (stands_ask hstage _).bind fun sample => (stands_recordUtil hstage sample).bind fun _ => ?_
  exact .pure fun _ _ hs => hs

theorem stands_phaseEnds (pid : Nat) :
    Leads g (Stands g stage C) (phaseEnds w pid) fun _ => Stands g stage C := by
  unfold phaseEnds
  have hforgets : Leads g (Stands g stage C) (forgets w) fun _ => Stands g stage C :=
    Leads.bind (stands_modify fun _ => ⟨rfl, rfl, rfl⟩) fun _ => stands_updateState hstage _
  refine stands_get.bind fun object => Leads.ite (fun _ => ?_) fun _ => hforgets
  exact (stands_ask hstage _).bind fun _ => hforgets

end Keep

/-! ## A phase -/

section Phases
variable {g : Given} {σ : Type} {w : World σ} {stage : Stage} {C : Option String → Bool → Prop}
  {done : List Phase} {phase : Phase}

/-- From a stage that may be stopped, it is. -/
theorem leads_stops {α : Type} {reason : String} {signalled : Bool} {rest : Prog σ α}
    {L : α → Self → List Event → Prop}
    (hnext : stage.next g (.stops reason) = some (.off done signalled))
    (hfits : ∀ object, Fits g object stage →
      Fits g { object with killReason := some reason } (.off done signalled))
    (hrest : Leads g (Stands g (.off done signalled) Asked) rest L) :
    Leads g (Stands g stage C)
      (do modify fun self => { self with killReason := some reason }
          Act.emit (.stops reason)
          rest) L := by
  refine Leads.bind (leads_modify (M := fun _ object log =>
    Stands g (.off done signalled) Asked object (log ++ [.stops reason])) fun object log hs => ?_)
    fun _ => ?_
  · exact ⟨courseOf_step hs.course hnext, hfits object hs.fits, rfl⟩
  · exact Leads.bind (leads_emit (M := fun _ => Stands g (.off done signalled) Asked) fun _ _ => id)
      fun _ => hrest

/-- **What comes of watching a phase**: it has left, or was stopped. -/
def Left (g : Given) (done : List Phase) (phase : Phase) (C : Option String → Bool → Prop)
    (object : Self) (log : List Event) : Prop :=
  Stands g (.during done phase) C object log ∨ Stands g (.off done false) Asked object log

theorem leads_stopPhase (p : Watched) (reason : String) :
    Leads g (Stands g (.during done phase) C) (stopPhase w p reason) fun answer =>
      answer.elim (fun _ => Left g done phase C) fun _ => Stands g (.during done phase) C := by
  have hnext : (Stage.during done phase).next g (.stops reason) = some (.off done false) := rfl
  have hkill : Leads g (Stands g (.during done phase) C) (kill w p.pid reason)
      fun _ => Stands g (.off done false) Asked :=
    leads_stops hnext (fun _ hfits => ⟨fun h => Bool.noConfusion h, hfits.2.2⟩) (stands_ask rfl _)
  exact hkill.bind fun _ => (stands_ask rfl _).bind fun code => .pure fun _ _ hs => .inr hs

theorem stands_refreshes (p : Watched) (t : Seconds) (timers : Timers) :
    Leads g (Stands g (.during done phase) C) (refreshes w g p t timers)
      fun _ => Stands g (.during done phase) C := by
  have hreread : Leads g (Stands g (.during done phase) C) (rereadLiveFields w g)
      fun _ => Stands g (.during done phase) C := by
    unfold rereadLiveFields
    refine (stands_ask rfl _).bind fun found => ?_
    cases found with
    | none => exact leads_emit fun _ _ hs => hs.step rfl id
    | some state =>
      exact Leads.bind (stands_modify fun _ => ⟨rfl, rfl, rfl⟩) fun _ =>
        leads_emit fun _ _ hs => hs.step rfl id
  unfold refreshes
  refine Leads.ite (fun _ => ?_) fun _ => .pure fun _ _ hs => hs
  refine hreread.bind fun _ => stands_get.bind fun object => ?_
  exact (stands_publishEstimatedEta rfl _ _).bind fun _ => .pure fun _ _ hs => hs

/-- **What one turn of the monitor comes to.** -/
theorem leads_monitorTurn (p : Watched) (timers : Timers) :
    Leads g (Stands g (.during done phase) C) (monitorTurn w g p timers) fun answer =>
      answer.elim (fun _ => Left g done phase C) fun _ => Stands g (.during done phase) C := by
  unfold monitorTurn
  refine (stands_ask rfl _).bind fun polled => ?_
  cases polled with
  | some _ => exact (stands_ask rfl _).bind fun code => .pure fun _ _ hs => .inl hs
  | none =>
    have hsteady : Steady g (Stands g (.during done phase) C) := Stands.steady rfl
    refine (stands_ask rfl _).bind fun _ => ?_
    refine Leads.bind (leads_does (L := fun _ => Stands g (.during done phase) C) hsteady
      (fun _ => hsteady) fun t _ _ hs => hs.step rfl id) fun t => ?_
    refine (stands_standDownIfReplaced rfl _ _).bind fun _ => (stands_stopRequested rfl).bind ?_
    intro requested
    cases requested with
    | some reason => exact leads_stopPhase p reason
    | none =>
      refine (stands_refreshes p t timers).bind fun timers => stands_get.bind fun object => ?_
      refine Leads.ite (fun _ => leads_stopPhase p "timeout") fun _ => ?_
      refine (stands_polls rfl p t timers).bind fun timers => ?_
      exact (stands_samples rfl p t timers).bind fun timers => .pure fun _ _ hs => hs

theorem leads_monitor (fuel pid : Nat) (jobStart : Seconds) :
    Leads g (Stands g (.during done phase) C) (monitor w g fuel pid phase jobStart)
      fun _ => Left g done phase C := by
  unfold monitor
  have hsteady : Steady g (Stands g (.during done phase) C) := Stands.steady rfl
  refine (stands_updateState rfl _).bind fun _ => (stands_ask rfl _).bind fun phaseStart => ?_
  refine stands_get.bind fun object => (stands_publishEstimatedEta rfl _ _).bind fun _ => ?_
  refine Act.Holds.forever (K := fun _ => On (Stands g (.during done phase) C)) (fun timers => ?_)
    (fun _ _ hs => hsteady.live hs) fuel _
  refine Act.Holds.after (leads_monitorTurn _ timers) fun answer s hs => ?_
  cases answer <;> exact hs

/-- **What comes of a phase**: all is well, or no other is started. -/
def PhaseOver (g : Given) (done : List Phase) (phase : Phase) (C : Option String → Bool → Prop)
    (code : Int) (object : Self) (log : List Event) : Prop :=
  (Stands g (.ready (done ++ [phase])) (fun reason started => code = 0 ∧ C reason started) object log) ∨
    Stands g (.off done false) (fun reason _ => code ≠ 0 ∨ reason.isSome = true) object log

theorem Left.exited {object : Self} {log : List Event} (h : Left g done phase C object log) (code : Int) :
    PhaseOver g done phase C code object (log ++ [.exited phase code]) := by
  rcases h with ⟨hcourse, hfits, hC⟩ | ⟨hcourse, hfits, hasked⟩
  · by_cases hcode : code = 0
    · refine .inl ⟨courseOf_step hcourse ?_, ⟨hfits.1, hfits.2.1, fun hstarted => ?_⟩, hcode, hC⟩
      · rw [Stage.next, if_neg (not_not.mpr rfl), if_pos hcode]
      · exact (hfits.2.2 hstarted).trans (List.prefix_append _ _)
    · refine .inr ⟨courseOf_step hcourse ?_, ⟨fun h => Bool.noConfusion h, hfits.2.2⟩, .inl hcode⟩
      rw [Stage.next, if_neg (not_not.mpr rfl), if_neg hcode]
  · exact .inr ⟨courseOf_step hcourse rfl, hfits, .inr hasked⟩

theorem leads_runPhase (hplan : done ++ [phase] <+: plan g) (fuel : Nat) (command : String)
    (jobStart : Seconds) :
    Leads g (Stands g (.ready done) C) (runPhase w g fuel phase command jobStart)
      (PhaseOver g done phase C) := by
  unfold runPhase
  refine Leads.bind (leads_does (L := fun _ => Stands g (.during done phase) C) (Stands.steady rfl)
    (fun _ => Stands.steady rfl) fun pid _ _ hs => hs.step (if_pos hplan) id) fun pid => ?_
  refine Leads.bind (stands_modify fun _ => ⟨rfl, rfl, rfl⟩) fun _ => ?_
  refine (leads_monitor fuel pid jobStart).bind fun code => ?_
  refine Leads.bind (leads_emit (M := fun _ => PhaseOver g done phase C code)
    fun _ _ hs => Left.exited hs code) fun _ => ?_
  refine Leads.bind (L := fun _ => PhaseOver g done phase C code) ?_ fun _ => .pure fun _ _ hs => hs
  refine Leads.or ?_ ?_
  · exact (stands_phaseEnds rfl pid).after fun _ _ _ => .inl
  · exact (stands_phaseEnds rfl pid).after fun _ _ _ => .inr

end Phases

/-! ## The end -/

section End
variable {g : Given} {σ : Type} {w : World σ} {stage : Stage} {C : Option String → Bool → Prop}
  {done : List Phase} {outcome : Outcome}

theorem Stands.courses {object : Self} {log : List Event} (h : Stands g stage C object log) :
    Courses g object log := by
  rw [Courses, h.course]
  rfl

/-- Nothing comes in any more. -/
structure Ending (g : Given) (object : Self) (log : List Event) : Prop where
  courses : Courses g object log
  ending : object.ending = true

theorem Ending.steady : Steady g (Ending g) where
  live h := h.courses
  signalled h hending := by
    rw [h.ending] at hending
    cases hending

/-- **The final sync**: an attempt still counts as a success only where it was one, and its outputs are
up. -/
theorem leads_syncs (hran : outcome.status = .succeeded → outcome.ran = true) :
    Leads g (Stands g (.ending done outcome false) C) (syncs w outcome) fun r object log =>
      ∃ synced, (r.1.status = .succeeded → synced = true) ∧
        Stands g (.ending done r.1 synced) C object log := by
  unfold syncs
  refine Leads.ite (fun hsyncs => ?_) fun hnot => ?_
  · refine Leads.bind (leads_does
      (L := fun problem => Stands g (.ending done (afterSync outcome problem) true) C)
      (Stands.steady rfl) (fun _ => Stands.steady rfl) fun problem _ _ hs => ?_) fun problem => ?_
    · exact hs.step (if_pos hsyncs) id
    · cases problem with
      | none => exact .pure fun _ _ hs => ⟨true, fun _ => rfl, hs⟩
      | some problem =>
        refine .pure fun _ _ hs => ⟨true, fun _ => rfl, ?_⟩
        have hblamed : (blame outcome problem.reason []).1 = afterSync outcome (some problem) := rfl
        rwa [hblamed]
  · exact .pure fun _ _ hs => ⟨false, fun hsucceeded => absurd (hran hsucceeded) hnot, hs⟩

theorem status_nextAttempt {state written : JobState} {ran : Bool}
    (h : nextAttempt state ran = some written) : written.status = .queued := by
  unfold nextAttempt at h
  split at h
  · cases h
  · obtain rfl := Option.some.inj h
    rfl

theorem status_endedAs {state : JobState} (h : (endedAs outcome state).status = .succeeded) :
    outcome.status = .succeeded := by
  unfold endedAs at h
  split at h
  · cases h
  · exact h

/-- The write that ends an attempt, wherever it comes from. -/
theorem stands_ended {synced : Bool} {f : JobState → Option JobState}
    (hstatus : ∀ found written, f found = some written → written.status = .succeeded →
      outcome.status = .succeeded ∧ synced = true) :
    Leads g (Stands g (.ending done outcome synced) C) (locked w f .ended) fun written =>
      Stands g (written.elim (.ending done outcome synced) fun _ => .closed) C := by
  refine stands_locked rfl rfl (fun found written hf => ?_) fun _ => id
  have hmay := hstatus found written hf
  cases synced <;> exact if_pos hmay

theorem leads_finishes {synced : Bool} {outcome' : Outcome} (problems : List String)
    (hsynced : outcome'.status = .succeeded → outcome.status = .succeeded ∧ synced = true) :
    Leads g (Stands g (.ending done outcome synced) C) (finishes w outcome' problems)
      fun _ => Ending g := by
  have hclosedruled : Leads g (Stands g (.ending done outcome synced) C) (overruled w outcome')
      fun r object log => (r.status = .succeeded → outcome'.status = .succeeded) ∧
        Stands g (.ending done outcome synced) C object log := by
    unfold overruled
    refine Leads.ite (fun _ => ?_) fun _ => .pure fun _ _ hs => ⟨id, hs⟩
    refine (stands_ask rfl _).bind fun found => ?_
    cases found with
    | none => exact .pure fun _ _ hs => ⟨id, hs⟩
    | some state => exact .pure fun _ _ hs => ⟨status_endedAs, hs⟩
  unfold finishes
  refine hclosedruled.bind fun r => Leads.of_and fun hr => ?_
  refine (stands_ask rfl _).bind fun now => Leads.bind (stands_ended fun found written hf hs => ?_) ?_
  · have hwritten := (finish_eq_some (by simp [Field.ofClaim]) hf).2.1
    exact hsynced (hr (hwritten ▸ hs))
  · intro written
    refine .pure fun object log hs => ⟨hs.courses, ?_⟩
    cases written with
    | none => exact hs.fits
    | some written => exact hs.fits

theorem leads_ends {synced : Bool} (coming : Bool) (problems : List String)
    (hsynced : outcome.status = .succeeded → synced = true) :
    Leads g (Stands g (.ending done outcome synced) C) (ends w outcome coming problems)
      fun _ => Ending g := by
  unfold ends
  have hfinishes : Leads g (Stands g (.ending done outcome synced) C) (finishes w outcome problems)
      fun _ => Ending g :=
    leads_finishes problems fun hs => ⟨hs, hsynced hs⟩
  refine (stands_standDownIfReplaced rfl _ _).bind fun _ => ?_
  refine Leads.ite (fun _ => ?_) fun _ => hfinishes
  refine Leads.bind (stands_ended fun found written hf hs => ?_) fun written => ?_
  · rw [status_nextAttempt hf] at hs
    cases hs
  · cases written with
    | none => exact hfinishes
    | some written => exact .pure fun _ _ hs => ⟨hs.courses, hs.fits⟩

/-- **The end, once entered, is gone through.** -/
theorem leads_finalize (hstage : stage.reports = true)
    (hnext : stage.next g (.finalizing outcome) = some (.ending done outcome false))
    (hran : outcome.status = .succeeded → outcome.ran = true) :
    Leads g (Stands g stage C) (finalize w outcome) fun _ => Courses g := by
  unfold finalize
  refine (stands_standDownIfReplaced hstage _ _).bind fun _ => ?_
  refine Leads.bind (leads_modify (M := fun _ object log =>
    Stands g (.ending done outcome false) Any object (log ++ [.finalizing outcome]))
    fun object log hs => ⟨courseOf_step hs.course hnext, rfl, trivial⟩) fun _ => ?_
  refine Leads.bind (leads_emit (M := fun _ => Stands g (.ending done outcome false) Any)
    fun _ _ => id) fun _ => ?_
  refine (stands_updateState rfl _).bind fun _ => (leads_syncs hran).bind fun r => ?_
  refine Leads.of_exists fun synced => Leads.of_and fun hsynced => ?_
  have hcoming : Leads g (Stands g (.ending done r.1 synced) Any) (comingBack w r.1)
      fun _ => Stands g (.ending done r.1 synced) Any := by
    unfold comingBack
    refine Leads.ite (fun _ => ?_) fun _ => .pure fun _ _ hs => hs
    refine (stands_ask rfl _).bind fun found => ?_
    cases found <;> exact .pure fun _ _ hs => hs
  refine hcoming.bind fun coming => (stands_ask rfl _).bind fun bytes => ?_
  refine (stands_updateState rfl _).bind fun _ => (stands_ask rfl _).bind fun mirror => ?_
  refine (leads_ends coming r.2 hsynced).bind fun written => ?_
  have hasks {q : σ → Option Unit × σ} : Leads g (Ending g) (ask w q) fun _ => Ending g :=
    leads_ask Ending.steady
  refine Leads.bind (L := fun _ => Ending g) ?_ fun _ => Leads.bind (L := fun _ => Ending g) ?_ fun _ =>
    .pure fun _ _ hs => hs.courses
  · exact Leads.ite (fun _ => hasks) fun _ => .pure fun _ _ hs => hs
  · exact Leads.ite (fun _ => .pure fun _ _ hs => hs) fun _ => hasks

end End

/-! ## The whole attempt -/

section Run
variable {g : Given} {σ : Type} {w : World σ} {stage : Stage} {C : Option String → Bool → Prop}
  {done : List Phase} {phase : Phase} {object : Self} {log : List Event} {outcome : Outcome}
  {code : Int} {failureReason : Option String} {signalled : Bool}

theorem status_classify {reason : Option String} {started : Bool}
    (h : (classify reason code failureReason started).status = .succeeded) :
    reason = none ∧ code = 0 := by
  unfold classify at h
  split at h
  · split at h <;> cases h
  · split at h
    · next hcode => exact ⟨rfl, hcode⟩
    · cases h

theorem ran_classify {reason : Option String} {started : Bool} :
    (classify reason code failureReason started).ran = started := by
  unfold classify
  split
  · split <;> rfl
  · split <;> rfl

/-- From where no phase is started any more, an attempt ends as anything but a success. -/
theorem next_off (hfits : Fits g object (.off done signalled)) (hstatus : outcome.status ≠ .succeeded)
    (hran : outcome.ran = object.mainStarted) :
    (Stage.off done signalled).next g (.finalizing outcome) = some (.ending done outcome false) := by
  have hmay : MayEnd g done outcome :=
    ⟨fun h => absurd h hstatus, fun h => hfits.2 (hran ▸ h)⟩
  cases signalled <;> exact if_pos ⟨hstatus, hmay⟩

/-- An attempt that has not come to `main` may fail of this. -/
theorem leads_failedBeforeMain (reason : String) :
    Leads g (Stands g (.ready done) C) (finalize w (failedBeforeMain reason)) fun _ => Courses g := by
  have hmay : MayEnd g done (failedBeforeMain reason) :=
    ⟨(fun h => by cases h), fun h => Bool.noConfusion h⟩
  have hnext : (Stage.ready done).next g (.finalizing (failedBeforeMain reason))
      = some (.ending done (failedBeforeMain reason) false) := by rw [Stage.next, if_pos hmay]
  exact leads_finalize rfl hnext fun h => by cases h

theorem leads_finalizeClassified (done : List Phase) (hstage : stage.reports = true)
    (hends : ∀ object, Fits g object stage → C object.killReason object.mainStarted →
      ∀ outcome, outcome = classify object.killReason code failureReason object.mainStarted →
        stage.next g (.finalizing outcome) = some (.ending done outcome false) ∧
          (outcome.status = .succeeded → outcome.ran = true)) :
    Leads g (Stands g stage C) (finalizeClassified w code failureReason) fun _ => Courses g := by
  unfold finalizeClassified
  refine leads_get.bind fun object => ?_
  refine Leads.before (Leads.of_and fun h : Fits g object stage ∧ C object.killReason object.mainStarted =>
    ?_) fun object' log hs => ⟨hs.2 ▸ ⟨hs.1.fits, hs.1.known⟩, hs.1⟩
  have hmay := hends object h.1 h.2 _ rfl
  exact leads_finalize hstage hmay.1 hmay.2

/-- What was asked of an attempt, or the code of its phase, ends it. -/
theorem leads_finalizeOff :
    Leads g (Stands g (.off done signalled) fun reason _ => code ≠ 0 ∨ reason.isSome = true)
      (finalizeClassified w code failureReason) fun _ => Courses g := by
  refine leads_finalizeClassified done rfl ?_
  rintro object hfits hill outcome rfl
  have hstatus : (classify object.killReason code failureReason object.mainStarted).status ≠ .succeeded := by
    intro h
    obtain ⟨hreason, hcode⟩ := status_classify h
    rcases hill with hill | hill
    · exact hill hcode
    · rw [hreason] at hill
      cases hill
  exact ⟨next_off hfits hstatus ran_classify, fun h => absurd h hstatus⟩

/-- **All phases over, each with 0.** -/
theorem leads_finalizeReady :
    Leads g (Stands g (.ready (plan g)) fun _ started => code = 0 ∧ started = true)
      (finalizeClassified w code failureReason) fun _ => Courses g := by
  refine leads_finalizeClassified (plan g) rfl ?_
  rintro object - ⟨-, hstarted⟩ outcome rfl
  have hran : (classify object.killReason code failureReason object.mainStarted).ran = true := by
    rw [ran_classify, hstarted]
  exact ⟨if_pos ⟨fun _ => ⟨rfl, hran⟩, fun _ => List.prefix_append _ _⟩, fun _ => hran⟩

/-- Here still, where nothing has ended the attempt. -/
def Unless (g : Given) (K : Self → List Event → Prop) : Option Int → Self → List Event → Prop
  | none => K
  | some _ => Courses g

theorem leads_stoppedBefore :
    Leads g (Stands g (.ready done) C) (stoppedBefore w) (Unless g (Stands g (.ready done) C)) := by
  unfold stoppedBefore
  refine (stands_stopRequested rfl).bind fun requested => ?_
  cases requested with
  | none => exact .pure fun _ _ hs => hs
  | some reason =>
    have hnext : (Stage.ready done).next g (.stops reason) = some (.off done false) := rfl
    refine leads_stops hnext (fun _ hfits => ⟨fun h => Bool.noConfusion h, hfits.2.2⟩) ?_
    refine Leads.bind (Leads.before leads_finalizeOff fun _ _ hs => hs.weaken fun _ _ => .inr) fun code =>
      .pure fun _ _ hs => hs

theorem PhaseOver.of_well (h : PhaseOver g done phase C code object log) (hcode : code = 0)
    (hreason : object.killReason = none) : Stands g (.ready (done ++ [phase])) C object log := by
  rcases h with h | h
  · exact h.weaken fun _ _ => And.right
  · rcases h.known with hill | hill
    · exact absurd hcode hill
    · rw [hreason] at hill
      cases hill

theorem PhaseOver.of_ill (h : PhaseOver g done phase C code object log)
    (hill : code ≠ 0 ∨ object.killReason.isSome = true) :
    Stands g (.off done false) (fun reason _ => code ≠ 0 ∨ reason.isSome = true) object log := by
  rcases h with h | h
  · rcases hill with hill | hill
    · exact absurd h.known.1 hill
    · rw [h.fits.1] at hill
      cases hill
  · exact h

/-- **A phase before `main`**, or what ends the attempt instead. -/
theorem leads_prepares (hplan : done ++ [phase] <+: plan g) (fuel : Nat) (command failure : String)
    (jobStart : Seconds) :
    Leads g (Stands g (.ready done) C) (prepares w g fuel phase command failure jobStart)
      (Unless g (Stands g (.ready (done ++ [phase])) C)) := by
  unfold prepares
  refine leads_stoppedBefore.bind fun stopped => ?_
  cases stopped with
  | some code => exact .pure fun _ _ hs => hs
  | none =>
    refine (leads_runPhase hplan fuel command jobStart).bind fun code => leads_get.bind fun object => ?_
    refine Leads.ite (fun hill => ?_) fun hwell => ?_
    · rw [Bool.or_eq_true, decide_eq_true_eq] at hill
      refine Leads.bind (Leads.before leads_finalizeOff fun _ _ hs => hs.1.of_ill (hs.2 ▸ hill)) fun code =>
        .pure fun _ _ hs => hs
    · rw [Bool.or_eq_true, decide_eq_true_eq, not_or, not_not, Option.not_isSome_iff_eq_none] at hwell
      exact .pure fun _ _ hs => hs.1.of_well hwell.1 (hs.2 ▸ hwell.2)

theorem leads_runSetup (fuel : Nat) (jobStart : Seconds) :
    Leads g (Stands g (.ready []) C) (runSetup w g fuel jobStart)
      (Unless g (Stands g (.ready (setupPhases g)) C)) := by
  unfold runSetup
  cases hsetup : g.spec.setup.filter fun text => text ≠ "" with
  | none =>
    have hphases : setupPhases g = [] := by rw [setupPhases, hsetup]; rfl
    rw [hphases]
    exact leads_stoppedBefore
  | some command =>
    have hphases : setupPhases g = [.setup] := by rw [setupPhases, hsetup]; rfl
    have hplan : [] ++ [.setup] <+: plan g := by
      rw [plan, beforeMain, hphases, List.append_assoc]
      exact List.prefix_append _ _
    rw [hphases]
    exact leads_prepares hplan fuel command "setup" jobStart

theorem leads_runPreflight (fuel : Nat) (jobStart : Seconds) :
    Leads g (Stands g (.ready (setupPhases g)) C) (runPreflight w g fuel jobStart)
      (Unless g (Stands g (.ready (beforeMain g)) C)) := by
  unfold runPreflight
  refine Leads.ite (fun hcheck => ?_) fun hnot => ?_
  · have hbefore : beforeMain g = setupPhases g ++ [.preflight] := by
      rw [beforeMain, preflightPhases, if_pos hcheck]
    rw [hbefore]
    refine leads_prepares ?_ fuel _ "gpu-preflight" jobStart
    rw [← hbefore]
    exact List.prefix_append _ _
  · have hbefore : beforeMain g = setupPhases g := by
      rw [beforeMain, preflightPhases, if_neg hnot, List.append_nil]
    rw [hbefore]
    exact .pure fun _ _ hs => hs

theorem leads_runMain (fuel : Nat) (jobStart : Seconds) :
    Leads g (Stands g (.ready (beforeMain g)) C) (runMain w g fuel jobStart) fun _ => Courses g := by
  unfold runMain
  refine leads_stoppedBefore.bind fun stopped => ?_
  cases stopped with
  | some code => exact .pure fun _ _ hs => hs
  | none =>
    refine Leads.bind (leads_modify (M := fun _ =>
      Stands g (.ready (beforeMain g)) fun _ started => started = true) fun object log hs => ?_) fun _ => ?_
    · exact ⟨hs.course, ⟨hs.fits.1, hs.fits.2.1, fun _ => List.prefix_rfl⟩, rfl⟩
    · refine (stands_updateState rfl _).bind fun _ => (stands_ask rfl _).bind fun _ => ?_
      refine (leads_runPhase List.prefix_rfl fuel _ jobStart).bind fun code => ?_
      exact Leads.or leads_finalizeReady leads_finalizeOff

theorem leads_runPhases (fuel : Nat) (jobStart : Seconds) (gpuError : Option String) :
    Leads g (Stands g (.ready []) C) (runPhases w g fuel jobStart gpuError) fun _ => Courses g := by
  unfold runPhases
  cases gpuError with
  | some _ => exact leads_failedBeforeMain "gpu-assert"
  | none =>
    have hcaptures : Leads g (Stands g (.ready []) C) (captureOutputBaseline w g)
        fun _ => Stands g (.ready []) C :=
      Leads.ite (fun _ => .pure fun _ _ hs => hs) fun _ => stands_ask rfl _
    refine hcaptures.bind fun _ => (leads_runSetup fuel jobStart).bind fun ended => ?_
    cases ended with
    | some code => exact .pure fun _ _ hs => hs
    | none =>
      refine (leads_runPreflight fuel jobStart).bind fun ended => ?_
      cases ended with
      | some code => exact .pure fun _ _ hs => hs
      | none =>
        have hsync : Leads g (Stands g (.ready (beforeMain g)) C) (syncPreflight w g)
            fun _ => Stands g (.ready (beforeMain g)) C :=
          Leads.ite (fun _ => (stands_updateState rfl _).bind fun _ => stands_ask rfl _)
            fun _ => .pure fun _ _ hs => hs
        refine hsync.bind fun failed => ?_
        cases failed with
        | some _ => exact leads_failedBeforeMain "sync-preflight"
        | none => exact leads_runMain fuel jobStart

theorem leads_runClaimed (fuel : Nat) (jobStart : Seconds) (gpuError : Option String) :
    Leads g (Stands g (.ready []) C) (runClaimed w g fuel jobStart gpuError) fun _ => Courses g := by
  unfold runClaimed
  refine (stands_ask rfl _).bind fun lost => ?_
  cases lost with
  | some _ => exact leads_failedBeforeMain "checkout-lost"
  | none => exact (stands_ask rfl _).bind fun _ => leads_runPhases fuel jobStart gpuError

/-- **Left by a signal, an attempt is ended all the same.** -/
theorem leads_finalizeTerminated :
    Leads g (Interrupted g) (finalizeTerminated w) fun _ => Courses g := by
  unfold finalizeTerminated
  refine Leads.of_exists fun done => ?_
  have hkills : Leads g (Stands g (.off done true) Any) (killsCurrent w)
      fun _ => Stands g (.off done true) Any := by
    unfold killsCurrent kill
    refine stands_get.bind fun object => ?_
    cases object.current with
    | none => exact .pure fun _ _ hs => hs
    | some pid =>
      have hnext : (Stage.off done true).next g (.stops "terminated") = some (.off done true) := rfl
      have hkill : Leads g (Stands g (.off done true) Any) (kill w pid "terminated")
          fun _ => Stands g (.off done true) Asked :=
        leads_stops hnext (fun _ => id) (stands_ask rfl _)
      exact hkill.bind fun _ => (stands_ask rfl _).after fun _ _ _ hs => hs.weaken fun _ _ _ => trivial
  refine hkills.bind fun _ => (stands_stopRequested rfl).bind fun requested => ?_
  refine leads_get.bind fun object => ?_
  refine Leads.before (Leads.of_and fun h : Fits g object (.off done true) => ?_)
    fun object' log hs => ⟨hs.2 ▸ hs.1.fits, hs.1⟩
  have hstatus : (terminatedOutcome requested object.mainStarted).status ≠ .succeeded := by
    unfold terminatedOutcome
    split_ifs <;> exact Status.noConfusion
  have hran : (terminatedOutcome requested object.mainStarted).ran = object.mainStarted := by
    unfold terminatedOutcome
    split_ifs <;> rfl
  exact leads_finalize rfl (next_off h hstatus hran) fun h => absurd h hstatus

theorem leads_claims :
    Leads g (Stands g .unclaimed Any) (claims w g) fun claimed =>
      if claimed then Stands g (.ready []) Any else Courses g := by
  unfold claims
  refine Leads.bind (leads_plain fun _ _ hs => hs.courses) fun now => ?_
  refine Leads.bind (leads_plain fun _ _ hs => hs.courses) fun found => ?_
  split
  · exact .pure fun _ _ hs => hs.courses
  · refine Leads.bind (leads_plain fun _ _ hs => hs.courses) fun _ => ?_
    refine Leads.bind (leads_emit (M := fun _ => Stands g (.ready []) Any) fun object log hs => ?_)
      fun _ => .pure fun _ _ hs => hs
    refine ⟨courseOf_step hs.course rfl, ⟨hs.fits.1, hs.fits.2.1, fun hstarted => ?_⟩, trivial⟩
    rw [hs.fits.2.2] at hstarted
    cases hstarted

/-- What is left of what runs inside of the handlers. -/
def Attempted (g : Given) : Except Exn Int → Self → List Event → Prop
  | .ok _ => Courses g
  | .error e => Thrown g e

theorem leads_run (fuel : Nat) :
    Leads g (Stands g .unclaimed Any) (run w g fuel) fun _ => Courses g := by
  unfold run
  refine Leads.bind (leads_plain fun _ _ hs => hs.courses) fun replaced => ?_
  refine Leads.ite (fun _ => .pure fun _ _ hs => hs.courses) fun _ => leads_claims.bind fun claimed => ?_
  refine Leads.ite (fun hclaimed => ?_) fun hnot => ?_
  · rw [if_pos hclaimed]
    refine Leads.bind (leads_plain fun _ _ hs => hs.courses) fun jobStart => ?_
    refine Leads.bind (leads_plain fun _ _ hs => hs.courses) fun gpuError => ?_
    refine Leads.bind (leads_plain fun _ _ hs => hs.courses) fun _ => ?_
    have hattempt : Leads g (Stands g (.ready []) Any)
        (Act.attempt (runClaimed w g fuel jobStart gpuError)) (Attempted g) :=
      Act.Holds.attempt (leads_runClaimed fuel jobStart gpuError)
    refine hattempt.bind fun ended => ?_
    cases ended with
    | ok code => exact .pure fun _ _ hs => hs
    | error e =>
      cases e with
      | terminated => exact leads_finalizeTerminated
      | died => exact leads_died fun _ _ hs => hs
  · rw [if_neg hnot]
    exact .pure fun _ _ hs => hs

/-- **Whatever its machine answers and wherever a signal comes in, a runner keeps to the course.** -/
theorem run_course (w : World σ) (g : Given) (fuel : Nat) (state : JobState) (world : σ) :
    (courseOf g (run w g fuel (start g state world)).2.log).isSome = true := by
  have hleads := leads_run (w := w) (g := g) fuel (start g state world)
    ⟨rfl, ⟨rfl, rfl, rfl⟩, trivial⟩
  rcases h : run w g fuel (start g state world) with ⟨code | e | _, s⟩
  · rw [h] at hleads
    exact hleads
  · rw [h] at hleads
    cases e with
    | terminated =>
      obtain ⟨done, hdone⟩ := hleads
      exact hdone.courses
    | died => exact hleads
  · rw [h] at hleads
    exact hleads

/-- **A record that a runner has left, wherever it was left, is of a disciplined attempt.** -/
theorem run_disciplined (w : World σ) (g : Given) (fuel : Nat) (state : JobState) (world : σ) :
    Disciplined g (run w g fuel (start g state world)).2.log :=
  disciplined_of_course (run_course w g fuel state world)

/-- A machine on which all goes well, over the file of the job. -/
def wellRun : World JobState where
  signalled s := (false, s)
  replaced s := (some false, s)
  now s := (some 0, s)
  utcNow s := (some "", s)
  utcIn _ s := (some none, s)
  sleep _ s := (some (), s)
  lockState s := (some s, s)
  writeState written _ := (some (), written)
  readState s := (some (some s), s)
  verifyAssigned s := (some none, s)
  buildEnv s := (some (), s)
  restore s := (some none, s)
  ensureJobLayout s := (some (), s)
  captureOutputBaseline s := (some (), s)
  spawn _ _ s := (some 1, s)
  poll _ s := (some (some 0), s)
  wait _ s := (some 0, s)
  waitBriefly _ s := (some (), s)
  stop _ s := (some (), s)
  kill _ s := (some (), s)
  stopLeftovers _ s := (some (), s)
  sample s := (some none, s)
  progress _ s := (some (.ok 0), s)
  preflight s := (some none, s)
  startSync s := (some (), s)
  finalSync s := (some none, s)
  cleanupWorkdir _ s := (some 0, s)
  mirror s := (some false, s)
  putState s := (some (), s)
  settleSecrets s := (some (), s)

/-- A job with a setup, on a card. -/
def wellGiven : Given where
  spec := { jobId := "a", command := "train", setup := some "uv sync" }
  assigned := ["GPU-0"]
  attempt := 1
  isolation := "cgroup"
  who := { pid := 7 }
  deps := { preflightCommand := "true" }

-- three phases, each to a 0, and then the write
example :
    let state := JobState.initial wellGiven.spec.toJobSpec
    let ended := (run wellRun wellGiven 1 (start wellGiven state state)).2
    exits ended.log = zeros [.setup, .preflight, .main] ∧ ended.world.world.status = .succeeded := by
  decide +kernel

end Run

end Gpuc.Host.Attempt
