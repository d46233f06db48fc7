import Gpuc.Laws.Control.Rental.Attempt
import Gpuc.Laws.Control.RunPod.Exchange
import Gpuc.Laws.Control.RunPod.Shape
import Gpuc.Laws.Control.Teardown

/-!
# When the RunPod client fails only as ProviderError

A method raises something else exactly when its exchange with the API can come to an answer that it has
no use for (`onlyProvider_iff`): for `get` a body that describes no pod, for `list` one that lists none,
for `terminate` one that is not decoded, and for `create`, which has handlers of its own, an exception
that is no `ValueError` or an infinite number of cards. `terminate_confirmed` and `rental_state` are as
good as the calls they make (`terminateConfirmed_iff`, `rentalState_iff`).

A terminate that is answered with a page lets a `ValueError` through (`page_escapes`).
-/

set_option autoImplicit false

namespace Gpuc.Control.RunPod

open Gpuc.Basis

/-! ## The methods -/

section Methods
variable {σ : Type} (api : Api σ) (lib : Library)

/-- **Every answer that the exchange can come to is one the method can use.** -/
def Meets (request : Request) (usable : Except Foreign Json → Prop) (s : σ) : Prop :=
  ∀ answer s', Answers api lib request s answer s' → usable answer

/-- A body is decoded, and has a shape. -/
def Decoded (shaped : Json → Prop) (answer : Except Foreign Json) : Prop :=
  ∃ payload, answer = .ok payload ∧ shaped payload

/-- What a create takes, or tells as a `ProviderError`. -/
def Creatable (answer : Except Foreign Json) : Prop :=
  answer = .error .value ∨ Decoded (fun payload => ¬ Infinite payload) answer

/-- It raises nothing but a `ProviderError`. -/
def OnlyProvider {α : Type} (answer : Except Failure α) : Prop :=
  ∀ e, answer = .error e → e.isProvider = true

variable {api lib} {s : σ}

theorem onlyProvider_ok {α : Type} (a : α) : OnlyProvider (.ok a) := nofun

theorem onlyProvider_error {α : Type} {e : Failure} :
    OnlyProvider (.error e : Except Failure α) ↔ e.isProvider = true :=
  ⟨fun h => h e rfl, fun h e' he => by cases he; exact h⟩

theorem not_onlyProvider_foreign {α : Type} {e : Foreign} :
    ¬ OnlyProvider (.error (.foreign e) : Except Failure α) :=
  fun h => nomatch h _ rfl

/-- **A method that makes something of the answer fails only so exactly when each answer the exchange
can come to is one that it does so for**, if it does for a `ProviderError`. -/
theorem onlyProvider_iff {α : Type} {request : Request} {finish : Except Failure Json → Except Failure α}
    {usable : Except Foreign Json → Prop}
    (hrefuses : ∀ e, e.isProvider = true → OnlyProvider (finish (.error e)))
    (hanswer : ∀ answer, OnlyProvider (finish (answer.mapError .foreign)) ↔ usable answer) :
    OnlyProvider (finish (json api lib request s).1) ↔ Meets api lib request usable s := by
  constructor
  · intro h answer s' hanswers
    rw [json_eq hanswers] at h
    exact (hanswer answer).mp h
  · intro h
    rcases answers_or_refuses api lib request s with
      ⟨answer, s', hanswers⟩ | ⟨e, hjson, he⟩
    · rw [json_eq hanswers]
      exact (hanswer answer).mpr (h answer s' hanswers)
    · rw [hjson]
      exact hrefuses e he

/-- What reads a decoded body. -/
theorem onlyProvider_mapError {α : Type} {x : Except Foreign α} :
    OnlyProvider (x.mapError Failure.foreign) ↔ ∃ a, x = .ok a := by
  cases x with
  | error e => exact ⟨fun h => absurd h not_onlyProvider_foreign, fun ⟨_, h⟩ => nomatch h⟩
  | ok a => exact ⟨fun _ => ⟨a, rfl⟩, fun _ => onlyProvider_ok a⟩

theorem not_decoded_error {shaped : Json → Prop} {e : Foreign} : ¬ Decoded shaped (.error e) :=
  fun ⟨_, h, _⟩ => nomatch h

theorem decoded_ok {shaped : Json → Prop} {payload : Json} :
    Decoded shaped (.ok payload) ↔ shaped payload :=
  ⟨fun ⟨_, h, hshaped⟩ => by cases h; exact hshaped, fun h => ⟨payload, rfl, h⟩⟩

variable (lib) in
/-- What `get` makes of an answer. -/
def gotten : Except Failure Json → Except Failure (Option ApiPod)
  | .ok payload => ((podFromApi lib payload).mapError .foreign).map some
  | .error .podNotFound => .ok none
  | .error e => .error e

theorem get_eq {podId : String} :
    (get api lib podId s).1 = gotten lib (json api lib (getRequest podId) s).1 := by
  unfold get
  rcases json api lib (getRequest podId) s with ⟨e | payload, s'⟩
  · cases e <;> rfl
  · rfl

/-- **`get` fails only as `ProviderError` exactly when every answer describes a pod.** -/
theorem get_onlyProvider {podId : String} : OnlyProvider (get api lib podId s).1 ↔
    Meets api lib (getRequest podId) (Decoded (PodShaped lib)) s := by
  rw [get_eq]
  refine onlyProvider_iff (fun e he => ?_) fun answer => ?_
  · cases e with
    | podNotFound => exact onlyProvider_ok none
    | _ => exact onlyProvider_error.mpr he
  · cases answer with
    | error e => exact ⟨fun h => absurd h not_onlyProvider_foreign, fun h => absurd h not_decoded_error⟩
    | ok payload =>
      rw [decoded_ok, ← exists_podFromApi]
      show OnlyProvider (((podFromApi lib payload).mapError Failure.foreign).map some) ↔ _
      cases hpod : podFromApi lib payload with
      | error e => exact iff_of_false not_onlyProvider_foreign not_exists_ok
      | ok pod => exact iff_of_true (onlyProvider_ok (some pod)) ⟨pod, rfl⟩

variable (lib) in
/-- What `list` makes of an answer. -/
def listed : Except Failure Json → Except Failure (List ApiPod)
  | .ok payload => (podsFromApi lib payload).mapError .foreign
  | .error e => .error e

theorem list_eq : (list api lib s).1 = listed lib (json api lib listRequest s).1 := by
  unfold list
  rcases json api lib listRequest s with ⟨e | payload, s'⟩ <;> rfl

/-- **`list` fails only so exactly when every answer lists pods.** -/
theorem list_onlyProvider : OnlyProvider (list api lib s).1 ↔
    Meets api lib listRequest (Decoded (ListShaped lib)) s := by
  rw [list_eq]
  refine onlyProvider_iff (fun e he => onlyProvider_error.mpr he) fun answer => ?_
  cases answer with
  | error e => exact ⟨fun h => absurd h not_onlyProvider_foreign, fun h => absurd h not_decoded_error⟩
  | ok payload =>
    rw [decoded_ok, ← exists_podsFromApi]
    exact onlyProvider_mapError

/-- What `terminate` makes of an answer. -/
def ended : Except Failure Json → Except Failure Unit
  | .ok _ => .ok ()
  | .error .podNotFound => .ok ()
  | .error (.runPod status) => if status ≠ 409 then .error (.runPod status) else .ok ()
  | .error e => .error e

theorem terminate_eq {podId : String} :
    (terminate api lib podId s).1 = ended (json api lib (terminateRequest podId) s).1 := by
  unfold terminate
  rcases json api lib (terminateRequest podId) s with ⟨e | payload, s'⟩
  · cases e with
    | runPod status =>
      by_cases hending : status = 409
      · simp [ended, hending]
      · simp [ended, hending]
    | _ => rfl
  · rfl

/-- **`terminate` fails only so exactly when every answer is decoded**, whatever it says. -/
theorem terminate_onlyProvider {podId : String} : OnlyProvider (terminate api lib podId s).1 ↔
    Meets api lib (terminateRequest podId) (Decoded fun _ => True) s := by
  rw [terminate_eq]
  refine onlyProvider_iff (fun e he => ?_) fun answer => ?_
  · cases e with
    | podNotFound => exact onlyProvider_ok ()
    | runPod status =>
      dsimp only [ended]
      split
      · exact onlyProvider_error.mpr rfl
      · exact onlyProvider_ok ()
    | _ => exact onlyProvider_error.mpr he
  · cases answer with
    | error e => exact ⟨fun h => absurd h not_onlyProvider_foreign, fun h => absurd h not_decoded_error⟩
    | ok payload => exact ⟨fun _ => decoded_ok.mpr trivial, fun _ => onlyProvider_ok ()⟩

variable (lib) in
/-- What `create` makes of an answer. -/
def created : Except Failure Json → Except Failure ApiPod
  | .error .podNotFound => .error .createRefused
  | .error (.runPod status) =>
    if 400 ≤ status ∧ status < 500 then .error .createRefused else .error (.runPod status)
  | .error (.foreign .value) => .error .provider
  | .error e => .error e
  | .ok payload =>
    match podFromApi lib payload with
    | .ok pod => .ok pod
    | .error .attribute | .error .key | .error .type | .error .value => .error .provider
    | .error e => .error (.foreign e)

theorem create_eq {namePrefix : String} {wanted : Wanted}
    (hnamed : namePrefix.toList.isPrefixOf wanted.name.toList = true) :
    (create api lib namePrefix wanted s).1 =
      created lib (json api lib (createRequest wanted) s).1 := by
  unfold create
  rw [if_neg (by simpa using hnamed)]
  rcases json api lib (createRequest wanted) s with ⟨e | payload, s'⟩
  · cases e with
    | runPod status =>
      by_cases hrefused : 400 ≤ status ∧ status < 500
      · simp [created, hrefused]
      · simp [created, hrefused]
    | foreign e => cases e <;> rfl
    | _ => rfl
  · dsimp only [created]
    rcases podFromApi lib payload with e | pod
    · cases e <;> rfl
    · rfl

theorem created_foreign {e : Foreign} (hvalue : e ≠ .value) :
    created lib (.error (.foreign e)) = .error (.foreign e) := by
  cases e with
  | value => exact absurd rfl hvalue
  | _ => rfl

theorem creatable_ok {payload : Json} : Creatable (.ok payload) ↔ ¬ Infinite payload := by
  constructor
  · rintro (h | h)
    · cases h
    · exact decoded_ok.mp h
  · exact fun h => .inr (decoded_ok.mpr h)

/-- **`create` fails only so exactly when every answer is one that it takes, or a `ValueError`.** -/
theorem create_onlyProvider {namePrefix : String} {wanted : Wanted} :
    OnlyProvider (create api lib namePrefix wanted s).1 ↔
      (namePrefix.toList.isPrefixOf wanted.name.toList = true →
        Meets api lib (createRequest wanted) Creatable s) := by
  by_cases hnamed : namePrefix.toList.isPrefixOf wanted.name.toList = true
  swap
  · refine iff_of_true ?_ fun h => absurd h hnamed
    rw [create, if_pos (by rw [Bool.eq_false_iff.mpr hnamed]; rfl)]
    exact onlyProvider_error.mpr rfl
  rw [create_eq hnamed, forall_prop_of_true hnamed]
  refine onlyProvider_iff (fun e he => ?_) fun answer => ?_
  · cases e with
    | runPod status =>
      dsimp only [created]
      split
      · exact onlyProvider_error.mpr rfl
      · exact onlyProvider_error.mpr rfl
    | foreign e => cases he
    | _ => exact onlyProvider_error.mpr rfl
  · cases answer with
    | error e =>
      by_cases hvalue : e = .value
      · subst hvalue
        exact ⟨fun _ => .inl rfl, fun _ => onlyProvider_error.mpr rfl⟩
      · show OnlyProvider (created lib (.error (.foreign e))) ↔ _
        rw [created_foreign hvalue]
        refine ⟨fun h => absurd h not_onlyProvider_foreign, fun h => ?_⟩
        rcases h with h | h
        · exact absurd (Except.error.inj h) hvalue
        · exact absurd h not_decoded_error
    | ok payload =>
      rw [creatable_ok, ← @podFromApi_overflows lib]
      cases hpod : podFromApi lib payload with
      | ok pod =>
        have hmade : created lib (.ok payload) = .ok pod := by
          dsimp only [created]
          rw [hpod]
        exact iff_of_true (hmade ▸ onlyProvider_ok pod) fun h => by cases h
      | error e =>
        rcases podFromApi_raises hpod with htold | rfl
        · have hcreated : created lib (.ok payload) = .error .provider := by
            dsimp only [created]
            rw [hpod]
            cases e <;> first | rfl | cases htold
          refine ⟨fun _ h => ?_, fun _ => hcreated ▸ onlyProvider_error.mpr rfl⟩
          cases h
          cases htold
        · have hcreated : created lib (.ok payload) = .error (.foreign .overflow) := by
            dsimp only [created]
            rw [hpod]
          exact ⟨fun h => absurd (hcreated ▸ h) not_onlyProvider_foreign, fun h => absurd rfl h⟩

end Methods

/-! ## Ending a pod, and asking for one -/

section Callers
variable {σ Offer Transport Entry : Type} (api : Api σ) (lib : Library)
  (w : World σ Offer Transport Entry) (reported : σ → σ) (slept : ℚ → σ → σ) (podId : String)

/-- The states in which `terminate_confirmed` calls `terminate`, with so many attempts left. -/
inductive Terminates : Nat → σ → σ → Prop
  | here {n : Nat} {s : σ} : Terminates (n + 1) s s
  | again {n : Nat} {s s₁ s' : σ} {e : Failure} (hfails : terminate api lib podId s = (.error e, s₁))
      (he : e.isProvider = true) (hleft : n ≠ 0)
      (hrest : Terminates n (slept 5 (reported s₁)) s') : Terminates (n + 1) s s'

/-- The state in which its terminates are over, and none failed for good. -/
inductive Terminated : Nat → σ → σ → Prop
  | none {s : σ} : Terminated 0 s s
  | first {n : Nat} {s s' : σ} (hends : terminate api lib podId s = (.ok (), s')) :
      Terminated (n + 1) s s'
  | later {n : Nat} {s s₁ s' : σ} {e : Failure} (hfails : terminate api lib podId s = (.error e, s₁))
      (he : e.isProvider = true) (hleft : n ≠ 0)
      (hrest : Terminated n (slept 5 (reported s₁)) s') : Terminated (n + 1) s s'

/-- The states in which it asks for the pod, with so many polls left. -/
inductive Polls : Nat → σ → σ → Prop
  | here {n : Nat} {s : σ} : Polls (n + 1) s s
  | unread {n : Nat} {s s₁ s' : σ} {e : Failure} (hfails : get api lib podId s = (.error e, s₁))
      (he : e.isProvider = true) (hrest : Polls n (slept 5 (reported s₁)) s') : Polls (n + 1) s s'
  | stays {n : Nat} {s s₁ s' : σ} {pod : Option ApiPod} (hget : get api lib podId s = (.ok pod, s₁))
      (hthere : w.isGone (pod.map ApiPod.toPod) = false) (hrest : Polls n (slept 5 s₁) s') :
      Polls (n + 1) s s'

/-- **Every call that `terminate_confirmed` makes is answered with what it can use.** -/
structure CallsMeet (s : σ) : Prop where
  terminates : ∀ s', Terminates api lib reported slept podId w.terminateAttempts s s' →
    Meets api lib (terminateRequest podId) (Decoded fun _ => True) s'
  polls : ∀ s₁ s', Terminated api lib reported slept podId w.terminateAttempts s s₁ →
    Polls api lib w reported slept podId w.confirmPolls s₁ s' →
      Meets api lib (getRequest podId) (Decoded (PodShaped lib)) s'

/-- **The provider said that the pod is gone**, after a terminate. -/
def SaysGone (s : σ) : Prop :=
  ∃ s₁ s₂ s₃ pod, Terminated api lib reported slept podId w.terminateAttempts s s₁ ∧
    Polls api lib w reported slept podId w.confirmPolls s₁ s₂ ∧
    get api lib podId s₂ = (.ok pod, s₃) ∧ w.isGone (pod.map ApiPod.toPod) = true

/-- **It returns after the provider said so, or raises a `ProviderError`.** -/
def EndsOrRefuses (s : σ) : Prop :=
  (terminateConfirmed (world api lib w reported slept) podId { world := s, log := [] }).1 =
      .returned () ∧ SaysGone api lib w reported slept podId s ∨
    (terminateConfirmed (world api lib w reported slept) podId { world := s, log := [] }).1 =
      .raised .provider

variable {api lib w reported slept podId} {s s₁ : σ} {log : List Event} {n : Nat}

theorem exn_isProvider (e : Failure) : e.exn.isProvider = e.isProvider := by
  cases e <;> rfl

/-- The waits around the calls are no calls of the client. -/
theorem progress_world :
    progress (world api lib w reported slept) { world := s, log } =
      (.returned (), { world := reported s, log }) := rfl

theorem sleep_world {t : ℚ} :
    Act.call ((world api lib w reported slept).sleep t) { world := s, log } =
      (.returned (), ({ world := slept t s, log } : Logged σ Event)) := rfl

theorem get_raised {e : Failure} (hfails : get api lib podId s = (.error e, s₁)) :
    Act.call ((world api lib w reported slept).get podId) { world := s, log } =
      (.raised e.exn, ({ world := s₁, log } : Logged σ Event)) := by
  simp [Act.call, world, hfails, seen, Except.mapError, Except.map]

theorem get_returned {pod : Option ApiPod} (hget : get api lib podId s = (.ok pod, s₁)) :
    Act.call ((world api lib w reported slept).get podId) { world := s, log } =
      (.returned (pod.map ApiPod.toPod), ({ world := s₁, log } : Logged σ Event)) := by
  simp [Act.call, world, hget, seen, Except.mapError, Except.map]

theorem terminate_raised {e : Failure} (hfails : terminate api lib podId s = (.error e, s₁)) :
    Act.call ((world api lib w reported slept).terminate podId) { world := s, log } =
      (.raised e.exn, ({ world := s₁, log } : Logged σ Event)) := by
  simp [Act.call, world, hfails, seen, Except.mapError, Except.map]

theorem terminate_returned (hends : terminate api lib podId s = (.ok (), s₁)) :
    Act.call ((world api lib w reported slept).terminate podId) { world := s, log } =
      (.returned (), ({ world := s₁, log } : Logged σ Event)) := by
  simp [Act.call, world, hends, seen, Except.mapError, Except.map]

/-! One poll. -/

theorem confirmBy_foreign {e : Foreign} (hfails : get api lib podId s = (.error (.foreign e), s₁)) :
    confirmBy (world api lib w reported slept) podId (n + 1) { world := s, log } =
      (.raised .exception, { world := s₁, log }) := by
  rw [confirmBy, Act.bind_returned (Act.attempt_raised (get_raised hfails))]
  rfl

theorem confirmBy_unread {e : Failure} (hfails : get api lib podId s = (.error e, s₁))
    (he : e.isProvider = true) :
    confirmBy (world api lib w reported slept) podId (n + 1) { world := s, log } =
      confirmBy (world api lib w reported slept) podId n { world := slept 5 (reported s₁), log } := by
  rw [confirmBy, Act.bind_returned (Act.attempt_raised (get_raised hfails))]
  dsimp only
  rw [exn_isProvider, he]
  rfl

theorem confirmBy_gone {pod : Option ApiPod} (hget : get api lib podId s = (.ok pod, s₁))
    (hgone : w.isGone (pod.map ApiPod.toPod) = true) :
    confirmBy (world api lib w reported slept) podId (n + 1) { world := s, log } =
      (.returned (), { world := s₁, log := log ++ [.confirmed podId] }) := by
  rw [confirmBy, Act.bind_returned (Act.attempt_returned (get_returned hget))]
  show (if w.isGone _ = true then _ else _ : Prog σ Unit) _ = _
  rw [if_pos hgone]
  rfl

theorem confirmBy_stays {pod : Option ApiPod} (hget : get api lib podId s = (.ok pod, s₁))
    (hthere : w.isGone (pod.map ApiPod.toPod) = false) :
    confirmBy (world api lib w reported slept) podId (n + 1) { world := s, log } =
      confirmBy (world api lib w reported slept) podId n { world := slept 5 s₁, log } := by
  rw [confirmBy, Act.bind_returned (Act.attempt_returned (get_returned hget))]
  show (if w.isGone _ = true then _ else _ : Prog σ Unit) _ = _
  rw [if_neg (by rw [hthere]; decide)]
  rfl

/-! One terminate. -/

theorem terminateBy_foreign {e : Foreign}
    (hfails : terminate api lib podId s = (.error (.foreign e), s₁)) :
    terminateBy (world api lib w reported slept) podId (n + 1) { world := s, log } =
      (.raised .exception, { world := s₁, log }) := by
  rw [terminateBy, Act.bind_returned (Act.attempt_raised (terminate_raised hfails))]
  rfl

theorem terminateBy_returned (hends : terminate api lib podId s = (.ok (), s₁)) :
    terminateBy (world api lib w reported slept) podId (n + 1) { world := s, log } =
      (.returned (), { world := s₁, log }) := by
  rw [terminateBy, Act.bind_returned (Act.attempt_returned (terminate_returned hends))]
  rfl

theorem terminateBy_again {e : Failure} (hfails : terminate api lib podId s = (.error e, s₁))
    (he : e.isProvider = true) (hleft : n ≠ 0) :
    terminateBy (world api lib w reported slept) podId (n + 1) { world := s, log } =
      terminateBy (world api lib w reported slept) podId n
        { world := slept 5 (reported s₁), log } := by
  rw [terminateBy, Act.bind_returned (Act.attempt_raised (terminate_raised hfails))]
  dsimp only
  rw [exn_isProvider, he, if_neg (by decide), if_neg hleft]
  rfl

theorem terminateBy_last {e : Failure} (hfails : terminate api lib podId s = (.error e, s₁))
    (he : e.isProvider = true) :
    terminateBy (world api lib w reported slept) podId 1 { world := s, log } =
      (.raised .provider, { world := s₁, log }) := by
  rw [terminateBy, Act.bind_returned (Act.attempt_raised (terminate_raised hfails))]
  dsimp only
  rw [exn_isProvider, he]
  rfl

/-! The runs. -/

theorem exists_foreign {α : Type} {answer : Except Failure α} (h : ¬ OnlyProvider answer) :
    ∃ e, answer = .error (.foreign e) := by
  unfold OnlyProvider at h
  push Not at h
  obtain ⟨e, rfl, he⟩ := h
  cases e with
  | foreign e => exact ⟨e, rfl⟩
  | _ => exact absurd rfl he

/-- What a poll lets through, the run does. -/
theorem confirmBy_escapes (w : World σ Offer Transport Entry) (log : List Event) {s' : σ} {e : Foreign}
    (h : Polls api lib w reported slept podId n s s')
    (hforeign : (get api lib podId s').1 = .error (.foreign e)) :
    (confirmBy (world api lib w reported slept) podId n { world := s, log }).1 = .raised .exception := by
  induction h with
  | @here n s =>
    rcases hget : get api lib podId s with ⟨answer, s₁⟩
    rw [hget] at hforeign
    dsimp only at hforeign
    subst hforeign
    rw [confirmBy_foreign hget]
  | unread hfails he _ ih =>
    rw [confirmBy_unread hfails he]
    exact ih hforeign
  | stays hget hthere _ ih =>
    rw [confirmBy_stays hget hthere]
    exact ih hforeign

theorem confirmBy_cases (w : World σ Offer Transport Entry) (log : List Event)
    (hmeets : ∀ s', Polls api lib w reported slept podId n s s' → OnlyProvider (get api lib podId s').1) :
    (confirmBy (world api lib w reported slept) podId n { world := s, log }).1 = .raised .provider ∨
      (confirmBy (world api lib w reported slept) podId n { world := s, log }).1 = .returned () ∧
        ∃ s₂ s₃ pod, Polls api lib w reported slept podId n s s₂ ∧
          get api lib podId s₂ = (.ok pod, s₃) ∧ w.isGone (pod.map ApiPod.toPod) = true := by
  induction n generalizing s with
  | zero => exact .inl rfl
  | succ n ih =>
    rcases hget : get api lib podId s with ⟨e | pod, s₁⟩
    · have he : e.isProvider = true := hmeets s .here e (by rw [hget])
      rw [confirmBy_unread hget he]
      rcases ih fun s' h => hmeets s' (.unread hget he h) with h | ⟨h, s₂, s₃, pod, hpolls, hrest⟩
      · exact .inl h
      · exact .inr ⟨h, s₂, s₃, pod, .unread hget he hpolls, hrest⟩
    · cases hgone : w.isGone (pod.map ApiPod.toPod) with
      | true =>
        rw [confirmBy_gone hget hgone]
        exact .inr ⟨rfl, s, s₁, pod, .here, hget, hgone⟩
      | false =>
        rw [confirmBy_stays hget hgone]
        rcases ih fun s' h => hmeets s' (.stays hget hgone h) with h | ⟨h, s₂, s₃, pod', hpolls, hrest⟩
        · exact .inl h
        · exact .inr ⟨h, s₂, s₃, pod', .stays hget hgone hpolls, hrest⟩

/-- What a terminate lets through, the run does. -/
theorem terminateBy_escapes (w : World σ Offer Transport Entry) (log : List Event) {s' : σ} {e : Foreign}
    (h : Terminates api lib reported slept podId n s s')
    (hforeign : (terminate api lib podId s').1 = .error (.foreign e)) :
    (terminateBy (world api lib w reported slept) podId n { world := s, log }).1 =
      .raised .exception := by
  induction h with
  | @here n s =>
    rcases hterminate : terminate api lib podId s with ⟨answer, s₁⟩
    rw [hterminate] at hforeign
    dsimp only at hforeign
    subst hforeign
    rw [terminateBy_foreign hterminate]
  | again hfails he hleft _ ih =>
    rw [terminateBy_again hfails he hleft]
    exact ih hforeign

theorem terminateBy_terminated (h : Terminated api lib reported slept podId n s s₁) :
    terminateBy (world api lib w reported slept) podId n { world := s, log } =
      (.returned (), { world := s₁, log }) := by
  induction h with
  | none => rfl
  | first hends => exact terminateBy_returned hends
  | later hfails he hleft _ ih =>
    rw [terminateBy_again hfails he hleft]
    exact ih

theorem terminateBy_cases (w : World σ Offer Transport Entry) (log : List Event)
    (hmeets : ∀ s', Terminates api lib reported slept podId n s s' →
      OnlyProvider (terminate api lib podId s').1) :
    (terminateBy (world api lib w reported slept) podId n { world := s, log }).1 = .raised .provider ∨
      ∃ s₁, Terminated api lib reported slept podId n s s₁ := by
  induction n generalizing s with
  | zero => exact .inr ⟨s, .none⟩
  | succ n ih =>
    rcases hterminate : terminate api lib podId s with ⟨e | ⟨⟩, s₁⟩
    · have he : e.isProvider = true := hmeets s .here e (by rw [hterminate])
      by_cases hleft : n = 0
      · subst hleft
        rw [terminateBy_last hterminate he]
        exact .inl rfl
      · rw [terminateBy_again hterminate he hleft]
        rcases ih fun s' h => hmeets s' (.again hterminate he hleft h) with h | ⟨s₂, h⟩
        · exact .inl h
        · exact .inr ⟨s₂, .later hterminate he hleft h⟩
    · exact .inr ⟨s₁, .first hterminate⟩

theorem terminateConfirmed_eq : terminateConfirmed (world api lib w reported slept) podId = (do
    terminateBy (world api lib w reported slept) podId w.terminateAttempts
    confirmBy (world api lib w reported slept) podId w.confirmPolls) := rfl

/-- **`terminate_confirmed` keeps its word exactly when every call it makes is answered with what it can
use.** -/
theorem terminateConfirmed_iff :
    EndsOrRefuses api lib w reported slept podId s ↔ CallsMeet api lib w reported slept podId s := by
  constructor
  · intro h
    have hcaught : (terminateConfirmed (world api lib w reported slept) podId
        { world := s, log := [] }).1 ≠ .raised .exception := by
      intro hraised
      rcases h with ⟨h, -⟩ | h <;> rw [hraised] at h <;> cases h
    refine ⟨fun s' hcall => terminate_onlyProvider.mp ?_, fun s₁ s' hends hcall =>
      get_onlyProvider.mp ?_⟩
    · by_contra hescapes
      obtain ⟨e, he⟩ := exists_foreign hescapes
      have hrun := terminateBy_escapes w [] hcall he
      rcases hby : terminateBy (world api lib w reported slept) podId w.terminateAttempts
        { world := s, log := [] } with ⟨outcome, s₂⟩
      rw [hby] at hrun
      dsimp only at hrun
      subst hrun
      refine hcaught ?_
      rw [terminateConfirmed_eq, Act.bind_raised hby]
    · by_contra hescapes
      obtain ⟨e, he⟩ := exists_foreign hescapes
      refine hcaught ?_
      rw [terminateConfirmed_eq, Act.bind_returned (terminateBy_terminated hends)]
      exact confirmBy_escapes w [] hcall he
  · intro h
    rcases terminateBy_cases w [] fun s' hcall =>
      terminate_onlyProvider.mpr (h.terminates s' hcall) with hraised | ⟨s₁, hends⟩
    · rcases hby : terminateBy (world api lib w reported slept) podId w.terminateAttempts
        { world := s, log := [] } with ⟨outcome, s₂⟩
      rw [hby] at hraised
      dsimp only at hraised
      subst hraised
      right
      rw [terminateConfirmed_eq, Act.bind_raised hby]
    · unfold EndsOrRefuses
      rw [terminateConfirmed_eq, Act.bind_returned (terminateBy_terminated hends)]
      rcases confirmBy_cases w [] fun s' hcall =>
        get_onlyProvider.mpr (h.polls s₁ s' hends hcall) with hraised | ⟨hreturned, hsaid⟩
      · exact .inr hraised
      · obtain ⟨s₂, s₃, pod, hpolls, hget, hgone⟩ := hsaid
        exact .inl ⟨hreturned, s₁, s₂, s₃, pod, hends, hpolls, hget, hgone⟩

theorem readPod_raised {e : Failure} {heard : List Teardown.Heard}
    (hfails : get api lib podId s = (.error e, s₁)) :
    Teardown.readPod (world api lib w reported slept) podId { world := s, log := heard } =
      (.raised (.raised e.exn), { world := s₁, log := heard }) := by
  refine Act.bind_raised ?_
  simp [Teardown.callOf, Act.call, world, hfails, seen, Except.mapError, Except.map]

theorem readPod_returned {pod : Option ApiPod} {heard : List Teardown.Heard}
    (hget : get api lib podId s = (.ok pod, s₁)) :
    Teardown.readPod (world api lib w reported slept) podId { world := s, log := heard } =
      (.returned (pod.map ApiPod.toPod),
        { world := s₁, log := heard ++ [.read podId (pod.map ApiPod.toPod)] }) := by
  have hcall : Teardown.callOf ((world api lib w reported slept).get podId)
      { world := s, log := heard } =
        (.returned (pod.map ApiPod.toPod), ({ world := s₁, log := heard } : Logged σ Teardown.Heard)) := by
    simp [Teardown.callOf, Act.call, world, hget, seen, Except.mapError, Except.map]
  rw [Teardown.readPod, Act.bind_returned hcall]
  rfl

/-- **`rental_state` yields an answer exactly when the call it makes, of a rented host, is answered with
what it can use.** -/
theorem rentalState_iff {entry : HostEntry} {heard : List Teardown.Heard} :
    (∃ state, (Teardown.rentalState (world api lib w reported slept) entry
        { world := s, log := heard }).1 = .returned state) ↔
      ∀ rental, entry.rental = some rental →
        Meets api lib (getRequest rental.podId) (Decoded (PodShaped lib)) s := by
  unfold Teardown.rentalState
  cases hrental : entry.rental with
  | none => exact ⟨fun _ => nofun, fun _ => ⟨_, rfl⟩⟩
  | some rental =>
    have hone : (∀ rental', some rental = some rental' →
        Meets api lib (getRequest rental'.podId) (Decoded (PodShaped lib)) s) ↔
          OnlyProvider (get api lib rental.podId s).1 := by
      rw [get_onlyProvider]
      exact ⟨fun h => h rental rfl, fun h rental' hrental' => by cases hrental'; exact h⟩
    rw [hone]
    dsimp only
    rcases hget : get api lib rental.podId s with ⟨e | pod, s₁⟩
    · rw [Act.bind_returned (Act.attempt_raised (readPod_raised hget)), onlyProvider_error]
      dsimp only
      rw [exn_isProvider]
      cases e.isProvider with
      | false => exact ⟨fun ⟨_, h⟩ => (nomatch h), nofun⟩
      | true => exact ⟨fun _ => rfl, fun _ => ⟨_, rfl⟩⟩
    · rw [Act.bind_returned (Act.attempt_returned (readPod_returned hget))]
      refine iff_of_true ?_ (onlyProvider_ok pod)
      cases pod with
      | none => exact ⟨_, rfl⟩
      | some pod =>
        dsimp only [Option.map_some]
        split
        · exact ⟨_, rfl⟩
        · split
          · exact ⟨_, rfl⟩
          · exact ⟨_, rfl⟩

/-- **When the client fails only as `ProviderError`.** Each method does exactly where every answer that its
exchange with the API can come to is one it can use; so do the two that call it. -/
theorem fails_only_as_provider_iff (api : Api σ) (lib : Library) (w : World σ Offer Transport Entry)
    (reported : σ → σ) (slept : ℚ → σ → σ) (s : σ) :
    (∀ podId, OnlyProvider (get api lib podId s).1 ↔
      Meets api lib (getRequest podId) (Decoded (PodShaped lib)) s) ∧
    (OnlyProvider (list api lib s).1 ↔ Meets api lib listRequest (Decoded (ListShaped lib)) s) ∧
    (∀ podId, OnlyProvider (terminate api lib podId s).1 ↔
      Meets api lib (terminateRequest podId) (Decoded fun _ => True) s) ∧
    (∀ namePrefix wanted, OnlyProvider (create api lib namePrefix wanted s).1 ↔
      (namePrefix.toList.isPrefixOf wanted.name.toList = true →
        Meets api lib (createRequest wanted) Creatable s)) ∧
    (∀ podId, EndsOrRefuses api lib w reported slept podId s ↔
      CallsMeet api lib w reported slept podId s) ∧
    ∀ entry heard, (∃ state, (Teardown.rentalState (world api lib w reported slept) entry
        { world := s, log := heard }).1 = .returned state) ↔
      ∀ rental, entry.rental = some rental →
        Meets api lib (getRequest rental.podId) (Decoded (PodShaped lib)) s :=
  ⟨fun _ => get_onlyProvider, list_onlyProvider, fun _ => terminate_onlyProvider,
    fun _ _ => create_onlyProvider, fun _ => terminateConfirmed_iff, fun _ _ => rentalState_iff⟩

end Callers

/-! ## An answer that is no JSON -/

/-- A terminate is answered 200, with a page. -/
def pageOnTerminate : Api Bool where
  urlopen request s :=
    if request.method = "POST" then (.answered { raw := .ok (.text "ok".toList) }, s)
    else (.httpError 404 none (.ok ()), s)
  sleep _ s := (.ok (), s)

def plainLibrary : Library where
  toPydantic := Teardown.intsOnly
  texts := plainTexts
  intText _ := none
  floatField
    | .float x => some x
    | _ => none
  floatField_float _ := rfl
  fromisoformat _ := none
  tooDeep _ := false

/-- **The terminate of a pod that is answered with a page instead of JSON raises a `ValueError`**, out of
`terminate_confirmed` too. -/
theorem page_escapes :
    ¬ OnlyProvider (terminate pageOnTerminate plainLibrary "p" false).1 ∧
      ¬ EndsOrRefuses pageOnTerminate plainLibrary Teardown.onePod id (fun _ s => s) "p" false := by
  have hterminate : terminate pageOnTerminate plainLibrary "p" false =
      (.error (.foreign .value), false) := rfl
  constructor
  · rw [hterminate]
    exact not_onlyProvider_foreign
  · have hraised : (terminateConfirmed (world pageOnTerminate plainLibrary Teardown.onePod id
        fun _ s => s) "p" { world := false, log := [] }).1 = .raised .exception := rfl
    rintro (⟨h, -⟩ | h)
    · rw [hraised] at h
      cases h
    · rw [hraised] at h
      cases h

end Gpuc.Control.RunPod
