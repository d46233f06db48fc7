import Gpuc.Control.Provision

/-!
# What renting leaves in the log

The specifications of the parts of an attempt, one a function: what each adds to the log, and how it
then ends. Bringing a pod up adds nothing (`quiet_bringUp`), so what an offer leaves in the log is its
create, and the cleanup. `Unended` names each way for `_abandon` to leave a pod that is not confirmed
gone.
-/

set_option autoImplicit false

namespace Gpuc.Control

open Gpuc.Basis Gpuc.Basis.Act

variable {σ Offer Transport Entry : Type} {w : World σ Offer Transport Entry}

/-! ## What adds nothing -/

theorem quiet_progress : Quiet (progress w) :=
  (quiet_call _).bind fun _ => quiet_call _

theorem quiet_ceiling (deadline : ℚ) : Quiet (ceiling w deadline) :=
  (quiet_call _).bind fun _ => (quiet_raise _).ite (quiet_pure _)

theorem quiet_safeLogs (podId : String) : Quiet (safeLogs w podId) := by
  refine (quiet_call _).attempt.bind fun answer => ?_
  cases answer with
  | ok text => exact quiet_pure _
  | error e => exact (quiet_pure _).ite (quiet_raise _)

theorem quiet_pollFailure (e : Exn) : Quiet (pollFailure w e) :=
  (quiet_raise _).ite quiet_progress

theorem quiet_checkLogs (podId : String) (nextLogCheck : ℚ) : Quiet (checkLogs w podId nextLogCheck) := by
  refine (quiet_call _).bind fun _ => Quiet.ite ?_ (quiet_pure _)
  refine (quiet_call _).bind fun _ => (quiet_safeLogs podId).bind fun _ => ?_
  exact (quiet_raise _).ite (quiet_pure _)

theorem quiet_lookAtPod (podId : String) (deadline : ℚ) (seen : Option (PodStatus × Bool) × ℚ) :
    Quiet (lookAtPod w podId deadline seen) := by
  refine (quiet_call _).attempt.bind fun answer => ?_
  match answer with
  | .error e =>
    refine Quiet.ite (quiet_raise _) ?_
    exact (quiet_pollFailure e).bind fun _ => (quiet_ceiling deadline).bind fun _ =>
      (quiet_call _).bind fun _ => quiet_pure _
  | .ok none => exact quiet_raise _
  | .ok (some current) =>
    have hnote : Quiet (noteState w seen.1 (current.status, current.sshDirect.isSome)) :=
      (quiet_pure _).ite quiet_progress
    refine hnote.bind fun _ => Quiet.ite ?_ (Quiet.ite ?_ ?_)
    · exact (quiet_safeLogs podId).bind fun _ => quiet_raise _
    · exact quiet_pure _
    · exact (quiet_checkLogs podId seen.2).bind fun _ => (quiet_ceiling deadline).bind fun _ =>
        (quiet_call _).bind fun _ => quiet_pure _

theorem quiet_reportWait (nextReport : ℚ) : Quiet (reportWait w nextReport) :=
  (quiet_call _).bind fun _ => Quiet.ite
    ((quiet_call _).bind fun _ => quiet_progress.bind fun _ => quiet_pure _) (quiet_pure _)

theorem quiet_trySsh (transport : Transport) (deadline : ℚ) (wait : ℚ × ℚ) :
    Quiet (trySsh w transport deadline wait) := by
  have hanswers : Quiet (sshAnswers w transport) :=
    (quiet_call _).bind fun _ => quiet_progress.ite (quiet_raise _)
  refine hanswers.attempt.bind fun answer => ?_
  cases answer with
  | ok => exact quiet_pure _
  | error e =>
    refine Quiet.ite (quiet_raise _) (Quiet.ite (quiet_raise _) ?_)
    exact (quiet_reportWait _).bind fun _ => (quiet_ceiling deadline).bind fun _ =>
      (quiet_call _).bind fun _ => quiet_pure _

/-- Bringing a pod up creates no pod, and ends none. -/
theorem quiet_bringUp (fuel : Nat) (name : String) (pod : Pod) (deadline : ℚ) :
    Quiet (bringUp w fuel name pod deadline) := by
  have hdirect : Quiet (waitForSshDirect w fuel pod deadline) :=
    (quiet_call _).bind fun _ => quiet_forever (quiet_lookAtPod pod.id deadline) fuel _
  refine hdirect.bind fun pod => quiet_progress.bind fun _ => ?_
  cases addressFor name pod w.providerName with
  | none => exact quiet_raise _
  | some address =>
    refine (quiet_call _).bind fun transport => ?_
    refine (quiet_forever (quiet_trySsh transport deadline) fuel _).bind fun _ => ?_
    refine (quiet_call _).bind fun probed => Quiet.ite (quiet_raise _) ?_
    refine quiet_progress.bind fun _ => (quiet_call _).bind fun entry => (quiet_call _).bind fun _ => ?_
    exact (quiet_call _).bind fun entry => (quiet_call _).bind fun _ => quiet_progress.bind fun _ =>
      quiet_pure _

/-! ## Calls -/

theorem ends_progress : Ends (progress w) :=
  (ends_call _).bind fun _ => ends_call _

section Sequence
variable {α β : Type} {f : σ → Except Exn α × σ} {next : α → Prog σ β} {s : Logged σ Event}
  {Q : Outcome Exn β → List Event → Prop}

/-- After a call, the run goes on with its answer, or ends with what it raised. -/
theorem call_bind_emits (hreturned : ∀ a s', Act.call f s = (.returned a, s') → Emits (next a) s' Q)
    (hraised : ∀ e s', Act.call f s = (.raised e, s') → Q (.raised e) []) :
    Emits (Act.call f >>= next) s Q := by
  refine (quiet_call f).emits_nil.bind_cases ?_ ?_ fun _ h => absurd h (ends_call f s)
  · rintro a s' _ hcall rfl
    exact hreturned a s' hcall
  · rintro e s' _ hcall rfl
    exact hraised e s' hcall

theorem call_attempt_emits {next : Except Exn α → Prog σ β}
    (hok : ∀ a s', Act.call f s = (.returned a, s') → Emits (next (.ok a)) s' Q)
    (herror : ∀ e s', Act.call f s = (.raised e, s') → Emits (next (.error e)) s' Q) :
    Emits (Act.attempt (Act.call f) >>= next) s Q := by
  refine (quiet_call f).emits_nil.bind_attempt ?_ ?_ fun _ h => absurd h (ends_call f s)
  · rintro a s' _ hcall rfl
    exact hok a s' hcall
  · rintro e s' _ hcall rfl
    exact herror e s' hcall

theorem progress_bind_emits {next : Unit → Prog σ β}
    (hreturned : ∀ s', progress w s = (.returned (), s') → Emits (next ()) s' Q)
    (hraised : ∀ e s', progress w s = (.raised e, s') → Q (.raised e) []) :
    Emits (progress w >>= next) s Q := by
  refine quiet_progress.emits_nil.bind_cases ?_ ?_ fun _ h => absurd h (ends_progress s)
  · rintro a s' _ hprogress rfl
    exact hreturned s' hprogress
  · rintro e s' _ hprogress rfl
    exact hraised e s' hprogress

end Sequence

/-! ## Terminating -/

/-- An action that has confirmed the end of a pod, or else has raised with nothing in the log. -/
def Confirming (podId : String) (outcome : Outcome Exn Unit) (events : List Event) : Prop :=
  outcome = .returned () ∧ events = [.confirmed podId] ∨ (∃ e, outcome = .raised e) ∧ events = []

theorem Confirming.raised {podId : String} (e : Exn) : Confirming podId (.raised e) [] :=
  .inr ⟨⟨e, rfl⟩, rfl⟩

theorem confirmBy_emits (podId : String) (n : Nat) (s : Logged σ Event) :
    Emits (confirmBy w podId n) s (Confirming podId) := by
  induction n generalizing s with
  | zero => exact Emits.raise (.raised _)
  | succ n ih =>
    have hwait : ∀ s, Emits (do Act.call (w.sleep 5); confirmBy w podId n) s (Confirming podId) :=
      fun s => call_bind_emits (fun _ s' _ => ih s') fun e _ _ => .raised e
    refine call_attempt_emits (fun pod s' _ => ?_) fun e s' _ => ?_
    · dsimp only
      split
      · exact Emits.emit (.inl ⟨rfl, rfl⟩)
      · exact hwait s'
    · dsimp only
      split
      · exact Emits.raise (.raised e)
      · exact progress_bind_emits (fun s' _ => hwait s') fun e _ _ => .raised e

theorem quiet_terminateBy (podId : String) (n : Nat) : Quiet (terminateBy w podId n) := by
  induction n with
  | zero => exact quiet_pure ()
  | succ n ih =>
    refine (quiet_call _).attempt.bind fun answer => ?_
    cases answer with
    | ok => exact quiet_pure ()
    | error e =>
      refine Quiet.ite (quiet_raise _) (Quiet.ite (quiet_raise _) ?_)
      exact quiet_progress.bind fun _ => (quiet_call _).bind fun _ => ih

theorem ends_terminateBy (podId : String) (n : Nat) : Ends (terminateBy w podId n) := by
  induction n with
  | zero => exact ends_pure ()
  | succ n ih =>
    refine (ends_call _).attempt.bind fun answer => ?_
    cases answer with
    | ok => exact ends_pure ()
    | error e =>
      refine Ends.ite (ends_raise _) (Ends.ite (ends_raise _) ?_)
      exact ends_progress.bind fun _ => (ends_call _).bind fun _ => ih

/-- **`terminate_confirmed` returns with the pod confirmed gone, or raises.** -/
theorem terminateConfirmed_emits (podId : String) (s : Logged σ Event) :
    Emits (terminateConfirmed w podId) s (Confirming podId) := by
  refine (quiet_terminateBy podId _).emits_nil.bind_cases ?_ ?_ fun _ h =>
    absurd h (ends_terminateBy podId _ s)
  · rintro _ s' _ - rfl
    exact confirmBy_emits podId _ s'
  · rintro e _ _ - rfl
    exact .raised e

/-- The ways for `_abandon` to leave a pod that is not confirmed gone, and how each leaves. -/
inductive Unended (w : World σ Offer Transport Entry) (podId : String) (s : Logged σ Event) :
    Outcome Exn Bool → Prop
  /-- It could not say that it terminates. -/
  | unreported {e : Exn} {s₁ : Logged σ Event} (hreport : progress w s = (.raised e, s₁)) :
      Unended w podId s (.raised e)
  /-- The provider did not end the pod. -/
  | unconfirmed {e : Exn} {s₁ s₂ s₃ : Logged σ Event} (hreport : progress w s = (.returned (), s₁))
      (hterminate : terminateConfirmed w podId s₁ = (.raised e, s₂)) (he : e.isProvider)
      (hwarned : progress w s₂ = (.returned (), s₃)) : Unended w podId s (.returned false)
  /-- The provider did not end the pod, and there was no warning of it. -/
  | unwarned {e e' : Exn} {s₁ s₂ s₃ : Logged σ Event} (hreport : progress w s = (.returned (), s₁))
      (hterminate : terminateConfirmed w podId s₁ = (.raised e, s₂)) (he : e.isProvider)
      (hwarned : progress w s₂ = (.raised e', s₃)) : Unended w podId s (.raised e')
  /-- The terminate was cut short by what no handler names. -/
  | cut {e : Exn} {s₁ s₂ : Logged σ Event} (hreport : progress w s = (.returned (), s₁))
      (hterminate : terminateConfirmed w podId s₁ = (.raised e, s₂)) (he : ¬ e.isProvider) :
      Unended w podId s (.raised e)

/-- **`_abandon` has the pod confirmed gone, or leaves it unended with nothing in the log.** -/
theorem abandon_emits (name podId : String) (s : Logged σ Event) :
    Emits (abandon w name podId) s fun outcome events =>
      events = [.confirmed podId] ∧ (outcome = .returned true ∨ ∃ e, outcome = .raised e) ∨
        events = [] ∧ Unended w podId s outcome := by
  refine progress_bind_emits (fun s₁ hreport => ?_) fun e s₁ hreport => .inr ⟨rfl, .unreported hreport⟩
  refine (terminateConfirmed_emits podId s₁).bind_attempt ?_ ?_ ?_
  · rintro _ s₂ events - (⟨-, rfl⟩ | ⟨⟨e, he⟩, -⟩)
    · refine progress_bind_emits (fun s₃ _ => call_bind_emits (fun _ s₄ _ => ?_) fun e _ _ => ?_) fun e _ _ => ?_
      · exact Emits.pure (.inl ⟨rfl, .inl rfl⟩)
      all_goals exact .inl ⟨rfl, .inr ⟨e, rfl⟩⟩
    · cases he
  · rintro e s₂ events hterminate (⟨he, -⟩ | ⟨-, rfl⟩)
    · cases he
    · dsimp only
      split
      · next he =>
        refine progress_bind_emits (fun s₃ hwarned => ?_) fun e' s₃ hwarned => ?_
        · exact Emits.pure (.inr ⟨rfl, .unconfirmed hreport hterminate he hwarned⟩)
        · exact .inr ⟨rfl, .unwarned hreport hterminate he hwarned⟩
      · next he => exact Emits.raise (.inr ⟨rfl, .cut hreport hterminate he⟩)
  · rintro events - (⟨h, -⟩ | ⟨⟨e, h⟩, -⟩) <;> cases h

/-- How a pod is given up, by what follows a failure. -/
inductive GivenUp (w : World σ Offer Transport Entry) (podId : String) (s : Logged σ Event) :
    Outcome Exn Unit → List Event → Prop
  | gone : GivenUp w podId s (.returned ()) [.confirmed podId]
  /-- It is gone, and what comes after that raised. -/
  | goneRaised (e : Exn) : GivenUp w podId s (.raised e) [.confirmed podId]
  | billed (h : Unended w podId s (.returned false)) : GivenUp w podId s (.returned ()) [.billed podId]
  | unended {e : Exn} (h : Unended w podId s (.raised e)) : GivenUp w podId s (.raised e) []

theorem abandonOrBill_emits (name podId : String) (s : Logged σ Event) :
    Emits (abandonOrBill w name podId) s (GivenUp w podId s) := by
  refine (abandon_emits name podId s).bind_cases ?_ ?_ ?_
  · rintro ended s' events - (⟨rfl, hended | ⟨e, he⟩⟩ | ⟨rfl, hunended⟩)
    · cases hended
      exact Emits.pure .gone
    · cases he
    · cases hunended with
      | unconfirmed hreport hterminate he hwarned =>
        exact Emits.emit (.billed (.unconfirmed hreport hterminate he hwarned))
  · rintro e s' events - (⟨rfl, -⟩ | ⟨rfl, hunended⟩)
    · exact .goneRaised e
    · exact .unended hunended
  · rintro events - (⟨-, h | ⟨e, h⟩⟩ | ⟨-, h⟩) <;> cases h

/-! ## Looking for a pod that was made anyway -/

/-- No create is among the events. -/
def NoCreate (events : List Event) : Prop :=
  ∀ name creation, .created name creation ∉ events

@[simp] theorem noCreate_nil : NoCreate [] := fun _ _ => List.not_mem_nil

@[simp] theorem noCreate_append {events events' : List Event} :
    NoCreate (events ++ events') ↔ NoCreate events ∧ NoCreate events' := by
  simp [NoCreate, not_or, forall_and]

@[simp] theorem noCreate_listed (pods : List Pod) : NoCreate [.listed pods] := by simp [NoCreate]

@[simp] theorem noCreate_confirmed (podId : String) : NoCreate [.confirmed podId] := by simp [NoCreate]

@[simp] theorem noCreate_billed (text : String) : NoCreate [.billed text] := by simp [NoCreate]

theorem GivenUp.noCreate {podId : String} {s : Logged σ Event} {outcome : Outcome Exn Unit}
    {events : List Event} (h : GivenUp w podId s outcome events) : NoCreate events := by
  cases h <;> simp

/-- Each pod has been confirmed gone, or billed. -/
theorem abandonAll_emits (name : String) (pods : List Pod) (s : Logged σ Event) :
    Emits (abandonAll w name pods) s fun outcome events =>
      NoCreate events ∧ (∀ ps, .listed ps ∉ events) ∧ (outcome = .returned () →
        ∀ pod ∈ pods, .confirmed pod.id ∈ events ∨ .billed pod.id ∈ events) := by
  induction pods generalizing s with
  | nil => exact Emits.pure ⟨noCreate_nil, by simp, by simp⟩
  | cons pod rest ih =>
    refine (abandonOrBill_emits name pod.id s).bind_cases ?_ ?_ ?_
    · intro _ s' events _ hgiven
      refine (ih s').imp ?_
      rintro outcome events' ⟨hcreate, hlisted, hall⟩
      refine ⟨noCreate_append.mpr ⟨hgiven.noCreate, hcreate⟩, ?_, ?_⟩
      · intro ps hps
        rcases List.mem_append.mp hps with hps | hps
        · cases hgiven <;> simp at hps
        · exact hlisted ps hps
      · intro hreturned pod' hpod'
        rcases List.mem_cons.mp hpod' with rfl | hpod'
        · cases hgiven with
          | gone => exact .inl (by simp)
          | billed => exact .inr (by simp)
        · simp only [List.mem_append]
          exact (hall hreturned pod' hpod').imp .inr .inr
    · intro e s' events _ hgiven
      refine ⟨hgiven.noCreate, ?_, nofun⟩
      intro ps hps
      cases hgiven <;> simp at hps
    · intro events _ hgiven
      cases hgiven

/-- What a sweep that is left has seen: with the end of every live pod that a listing had under the
name, or each of them billed, or the name. -/
def Swept (w : World σ Offer Transport Entry) (name : String) (listed : Bool) (outcome : Outcome Exn Bool)
    (events : List Event) : Prop :=
  NoCreate events ∧
  (outcome = .returned true → (listed ∨ ∃ pods, .listed pods ∈ events) ∧
    ∀ pods, .listed pods ∈ events → ∀ pod ∈ w.liveUnder name pods, .confirmed pod.id ∈ events) ∧
  (outcome = .returned false → .billed (unknownId name) ∈ events ∨
    (∃ pods, .listed pods ∈ events ∧ w.liveUnder name pods ≠ []) ∧
    ∀ pods, .listed pods ∈ events → ∀ pod ∈ w.liveUnder name pods,
      .confirmed pod.id ∈ events ∨ .billed pod.id ∈ events)

theorem Swept.raised {name : String} {listed : Bool} {events : List Event} (h : NoCreate events) (e : Exn) :
    Swept w name listed (.raised e) events :=
  ⟨h, nofun, nofun⟩

theorem listOurs_emits (s : Logged σ Event) :
    Emits (listOurs w) s fun outcome events =>
      (∃ pods, events = [.listed pods] ∧ outcome = .returned
        (pods.filter fun pod => w.namePrefix.toList.isPrefixOf pod.name.toList)) ∨
      events = [] ∧ ∃ e, outcome = .raised e := by
  refine call_bind_emits (fun pods s' _ => ?_) fun e _ _ => .inr ⟨rfl, e, rfl⟩
  exact Emits.bind (Emits.emit (Emits.pure (.inl ⟨pods, rfl, rfl⟩)))

/-- The filter of a listing keeps every pod under a name of ours. -/
theorem liveUnder_ours {name : String} (hname : w.namePrefix.toList.isPrefixOf name.toList)
    (pods : List Pod) :
    w.liveUnder name (pods.filter fun pod => w.namePrefix.toList.isPrefixOf pod.name.toList) =
      w.liveUnder name pods := by
  unfold World.liveUnder
  rw [List.filter_filter]
  refine List.filter_congr fun pod _ => ?_
  by_cases hpod : pod.name = name
  · subst hpod
    simp [hname]
  · simp [hpod]

theorem mem_billing {log : List Event} {text : String} : text ∈ billing log ↔ .billed text ∈ log := by
  unfold billing
  rw [List.mem_filterMap]
  constructor
  · rintro ⟨event, hevent, heq⟩
    cases event with
    | billed text' =>
      cases heq
      exact hevent
    | created _ _ | listed _ | confirmed _ => cases heq
  · intro h
    exact ⟨_, h, rfl⟩

theorem Swept.listed {name : String} {listed : Bool} {pods : List Pod} {outcome : Outcome Exn Bool}
    {events : List Event} (hnone : w.liveUnder name pods = []) (h : Swept w name true outcome events) :
    Swept w name listed outcome ([.listed pods] ++ events) := by
  obtain ⟨hcreate, htrue, hfalse⟩ := h
  refine ⟨noCreate_append.mpr ⟨noCreate_listed pods, hcreate⟩, fun ho => ?_, fun ho => ?_⟩
  · refine ⟨.inr ⟨pods, by simp⟩, fun ps hps pod hpod => ?_⟩
    rcases List.mem_append.mp hps with hps | hps
    · cases List.mem_singleton.mp hps
      rw [hnone] at hpod
      exact absurd hpod List.not_mem_nil
    · exact List.mem_append_right _ ((htrue ho).2 ps hps pod hpod)
  · refine (hfalse ho).imp (List.mem_append_right _) ?_
    rintro ⟨⟨ps, hps, hlive⟩, hall⟩
    refine ⟨⟨ps, List.mem_append_right _ hps, hlive⟩, fun ps hps pod hpod => ?_⟩
    rcases List.mem_append.mp hps with hps | hps
    · cases List.mem_singleton.mp hps
      rw [hnone] at hpod
      exact absurd hpod List.not_mem_nil
    · exact (hall ps hps pod hpod).imp (List.mem_append_right _) (List.mem_append_right _)

/-- What a sweep answers once it has given up the pods it found, and what it has seen by then. -/
theorem swept_found {name : String} {listed : Bool} {pods : List Pod} {events log log' : List Event}
    (hfound : ¬ (w.liveUnder name pods).isEmpty) (hcreate : NoCreate events)
    (hlisted : ∀ ps, .listed ps ∉ events)
    (hall : ∀ pod ∈ w.liveUnder name pods, .confirmed pod.id ∈ events ∨ .billed pod.id ∈ events)
    (hlog : log' = log ++ events) :
    Swept w name listed
      (.returned (!(w.liveUnder name pods).any fun pod => pod.id ∈ billing log'))
      ([.listed pods] ++ (events ++ [])) := by
  have hpods : ∀ ps, .listed ps ∈ [Event.listed pods] ++ (events ++ []) → ps = pods := by
    intro ps hps
    rw [List.append_nil] at hps
    rcases List.mem_append.mp hps with hps | hps
    · cases List.mem_singleton.mp hps
      rfl
    · exact absurd hps (hlisted ps)
  refine ⟨?_, fun ho => ⟨.inr ⟨pods, by simp⟩, ?_⟩, fun _ => .inr ⟨⟨pods, by simp, ?_⟩, ?_⟩⟩
  · rw [List.append_nil]
    exact noCreate_append.mpr ⟨noCreate_listed pods, hcreate⟩
  · intro ps hps pod hpod
    cases hpods ps hps
    have hunbilled : pod.id ∉ billing log' := by
      intro hbilled
      have hany : ((w.liveUnder name pods).any fun pod => pod.id ∈ billing log') = true :=
        List.any_eq_true.mpr ⟨pod, hpod, by simpa using hbilled⟩
      rw [hany] at ho
      cases ho
    rcases hall pod hpod with hconfirmed | hbilled
    · simp [hconfirmed]
    · refine absurd (mem_billing.mpr ?_) hunbilled
      rw [hlog]
      exact List.mem_append_right _ hbilled
  · simpa [List.isEmpty_iff] using hfound
  · intro ps hps pod hpod
    cases hpods ps hps
    simpa using hall pod hpod

/-- **A sweep sees every live pod that it finds ended or billed, and bills the name if it was shown no
listing.** -/
theorem sweepPolls_emits {name : String} (hname : w.namePrefix.toList.isPrefixOf name.toList) (n : Nat)
    (first listed : Bool) (s : Logged σ Event) :
    Emits (sweepPolls w name n first listed) s (Swept w name listed) := by
  induction n generalizing first listed s with
  | zero =>
    have hraised : ∀ e : Exn, Swept w name listed (.raised e) [] := Swept.raised noCreate_nil
    cases listed with
    | true =>
      refine progress_bind_emits (fun s' _ => ?_) fun e _ _ => hraised e
      exact Emits.pure ⟨noCreate_nil, fun _ => ⟨.inl rfl, fun pods hpods => by simp at hpods⟩, nofun⟩
    | false =>
      refine progress_bind_emits (fun s' _ => ?_) fun e _ _ => hraised e
      refine Emits.bind (Emits.emit (Emits.pure ?_))
      exact ⟨noCreate_billed _, nofun, fun _ => .inl (by simp)⟩
  | succ n ih =>
    have hquiet : Quiet (pauseBefore w first) := (quiet_pure _).ite (quiet_call _)
    have hends : Ends (pauseBefore w first) := (ends_pure _).ite (ends_call _)
    have hraised : ∀ e : Exn, Swept w name listed (.raised e) [] := Swept.raised noCreate_nil
    refine hquiet.emits_nil.bind_cases ?_ ?_ fun _ h => absurd h (hends s)
    swap
    · rintro e _ _ - rfl
      exact hraised e
    rintro _ s₁ _ - rfl
    refine (listOurs_emits s₁).bind_attempt ?_ ?_ ?_
    · rintro ours s₂ events - (⟨pods, rfl, hours⟩ | ⟨-, e, he⟩)
      · cases hours
        dsimp only
        rw [liveUnder_ours hname]
        split
        · next hfound =>
          rw [List.isEmpty_iff] at hfound
          exact (ih false true s₂).imp fun outcome events h => h.listed hfound
        · next hfound =>
          refine (abandonAll_emits name (w.liveUnder name pods) s₂).logged.bind_cases ?_ ?_ ?_
          · rintro _ s₃ events hs₃ ⟨⟨hcreate, hlisted, hall⟩, hlog⟩
            rw [hs₃] at hlog
            exact Emits.readLog (Emits.pure (swept_found hfound hcreate hlisted (hall rfl) hlog))
          · rintro e s₃ events - ⟨⟨hcreate, -, -⟩, -⟩
            have hall : NoCreate ([.listed pods] ++ events) :=
              noCreate_append.mpr ⟨noCreate_listed pods, hcreate⟩
            exact .raised hall e
          · rintro events - ⟨⟨hcreate, -, -⟩, -⟩
            have hall : NoCreate ([.listed pods] ++ events) :=
              noCreate_append.mpr ⟨noCreate_listed pods, hcreate⟩
            exact ⟨hall, nofun, nofun⟩
      · cases he
    · rintro e s₂ events - (⟨pods, -, he⟩ | ⟨rfl, e', he⟩)
      · cases he
      · dsimp only
        split
        · exact progress_bind_emits (fun s₃ _ => ih false listed s₃) fun e _ _ => hraised e
        · exact Emits.raise (hraised e)
    · rintro events - (⟨pods, -, h⟩ | ⟨-, e, h⟩) <;> cases h

theorem sweepFailedCreate_emits {name : String} (hname : w.namePrefix.toList.isPrefixOf name.toList)
    (s : Logged σ Event) : Emits (sweepFailedCreate w name) s (Swept w name false) :=
  progress_bind_emits (fun s' _ => sweepPolls_emits hname 6 true false s') fun e _ _ =>
    .raised noCreate_nil e

/-! ## A run -/

section Run
variable {fuel : Nat} {deadline : ℚ}

theorem podName_ours (token : String) : w.namePrefix.toList.isPrefixOf (podName w token).toList := by
  rw [List.isPrefixOf_iff_prefix]
  unfold podName
  rw [String.append_assoc, String.append_assoc, String.toList_append]
  exact List.prefix_append _ _

/-- An offer's create, from the state its try starts in, was answered so. -/
def Bought (w : World σ Offer Transport Entry) (offer : Offer) (s : Logged σ Event) (name : String)
    (creation : Creation) (s' : Logged σ Event) : Prop :=
  ∃ token s₁ s₂, Act.call w.token s = (.returned token, s₁) ∧ progress w s₁ = (.returned (), s₂) ∧
    name = podName w token ∧ create w offer name s₂ = (.returned creation, s')

/-- The offers of a run that are tried, and the states their tries start in. -/
inductive Tried (w : World σ Offer Transport Entry) (fuel : Nat) (deadline : ℚ) :
    List Offer → Logged σ Event → Offer → Logged σ Event → Prop
  | first {offer : Offer} {rest : List Offer} {s s₁ : Logged σ Event} {now : ℚ}
      (hnow : Act.call w.now s = (.returned now, s₁)) (hleft : ¬ deadline ≤ now) :
      Tried w fuel deadline (offer :: rest) s offer s₁
  | skipped {offer tried : Offer} {rest : List Offer} {s s₁ s' : Logged σ Event} {now : ℚ}
      (hnow : Act.call w.now s = (.returned now, s₁)) (hpassed : deadline ≤ now)
      (htried : Tried w fuel deadline rest s₁ tried s') :
      Tried w fuel deadline (offer :: rest) s tried s'
  | next {offer tried : Offer} {rest : List Offer} {s s₁ s₂ s₃ s' : Logged σ Event} {now : ℚ} {e : Exn}
      (hnow : Act.call w.now s = (.returned now, s₁)) (hleft : ¬ deadline ≤ now)
      (hfailed : tryOffer w fuel offer deadline s₁ = (.raised e, s₂)) (he : e.goesOn)
      (hreport : progress w s₂ = (.returned (), s₃)) (htried : Tried w fuel deadline rest s₃ tried s') :
      Tried w fuel deadline (offer :: rest) s tried s'

/-- **The rule of the offers.** An invariant of the log that each offer keeps when the attempt goes on
from it gives what holds where the attempt is left, if each offer gives that too. -/
theorem tryOffers_rule {I : List Event → Prop} {Q : Outcome Exn Entry → List Event → Prop}
    (hstop : ∀ e log, I log → Q (.raised e) log) {offers : List Offer} {s : Logged σ Event}
    (hstart : I s.log)
    (hstep : ∀ offer s₁, Tried w fuel deadline offers s offer s₁ → I s₁.log →
      Emits (tryOffer w fuel offer deadline) s₁ fun outcome events =>
        (∀ e, outcome = .raised e → e.goesOn → I (s₁.log ++ events)) ∧
        (∀ e, outcome = .raised e → ∀ e', Q (.raised e') (s₁.log ++ events)) ∧
        ((∀ e, outcome ≠ .raised e) → Q outcome (s₁.log ++ events))) :
    Q (tryOffers w fuel deadline offers s).1 (tryOffers w fuel deadline offers s).2.log := by
  suffices h : Emits (tryOffers w fuel deadline offers) s fun outcome events =>
      Q outcome (s.log ++ events) by
    obtain ⟨events, hlog, hq⟩ := h
    rw [hlog]
    exact hq
  induction offers generalizing s with
  | nil =>
    refine Emits.readLog (Emits.raise ?_)
    rw [List.append_nil]
    exact hstop _ _ hstart
  | cons offer rest ih =>
    refine call_bind_emits (fun now s₁ hnow => ?_) fun e _ _ => ?_
    swap
    · rw [List.append_nil]
      exact hstop e _ hstart
    have hs₁ : s₁.log = s.log := by rw [← quiet_call w.now s, hnow]
    split
    · next hpassed =>
      rw [← hs₁]
      exact ih (hs₁ ▸ hstart) fun offer s₂ htried => hstep offer s₂ (.skipped hnow hpassed htried)
    · next hleft =>
      rw [← hs₁]
      have hoffer := hstep offer s₁ (.first hnow hleft) (hs₁ ▸ hstart)
      refine hoffer.logged.bind_attempt ?_ ?_ ?_
      · rintro entry s₂ events - ⟨⟨-, -, hq⟩, -⟩
        refine Emits.pure ?_
        rw [List.append_nil]
        exact hq nofun
      · rintro e s₂ events hfailed ⟨⟨hgoesOn, hq, -⟩, hs₂⟩
        rw [hfailed] at hs₂
        dsimp only at hs₂ ⊢
        have hleave : ∀ e', Q (.raised e') (s₁.log ++ (events ++ [])) := by
          rw [List.append_nil]
          exact hq e rfl
        split
        · exact Emits.raise (hleave _)
        · next hrecoverable =>
          split
          · exact Emits.readLog (Emits.raise (hleave _))
          · next habort =>
            have he : e.goesOn := by
              unfold Exn.goesOn
              simp only [Bool.not_eq_true', Bool.not_eq_false] at hrecoverable
              simp [hrecoverable, habort]
            refine progress_bind_emits (fun s₃ hreport => ?_) fun e' _ _ => hleave e'
            have hs₃ : s₃.log = s₁.log ++ events := by
              rw [← hs₂, ← quiet_progress (w := w) s₂, hreport]
            have hrest := ih (s := s₃) (hs₃ ▸ hgoesOn e rfl he) fun offer s₄ htried =>
              hstep offer s₄ (.next hnow hleft hfailed he hreport htried)
            refine hrest.imp fun outcome events' hq => ?_
            rw [hs₃, List.append_assoc] at hq
            exact hq
      · rintro events - ⟨⟨-, -, hq⟩, -⟩
        exact hq nofun

/-- A try of an offer, from its create on. -/
theorem tryOffer_emits {offer : Offer} {s : Logged σ Event} {Q : Outcome Exn Entry → List Event → Prop}
    (hraised : ∀ e, Q (.raised e) [])
    (hbought : ∀ name creation s', Bought w offer s name creation s' →
      w.namePrefix.toList.isPrefixOf name.toList →
      Emits (afterCreate w fuel name creation deadline) s' fun outcome events =>
        Q outcome (.created name creation :: events)) :
    Emits (tryOffer w fuel offer deadline) s Q := by
  refine call_bind_emits (fun token s₁ htoken => ?_) fun e _ _ => hraised e
  refine progress_bind_emits (fun s₂ hreport => ?_) fun e _ _ => hraised e
  rcases hcreate : create w offer (podName w token) s₂ with ⟨creation | _ | _, s₃⟩
  · have hs₃ : s₃.log = s₂.log ++ [.created (podName w token) creation] := by
      unfold create at hcreate
      cases hcreate
      rfl
    obtain ⟨events, hlog, hq⟩ := hbought _ creation s₃ ⟨token, s₁, s₂, htoken, hreport, rfl, hcreate⟩
      (podName_ours token)
    refine ⟨.created (podName w token) creation :: events, ?_, ?_⟩
    · rw [bind_returned hcreate, hlog, hs₃, List.append_assoc, List.singleton_append]
    · rw [bind_returned hcreate]
      exact hq
  all_goals
    unfold create at hcreate
    cases hcreate

end Run

end Gpuc.Control
