import Gpuc.Control.Teardown
import Gpuc.Laws.Control.Rental.Attempt

/-!
# A plain terminate ends nothing that may be working

What the command has heard when it ends a pod is in the log in front of the call. The law
(`terminate_justified`): without `force`, in front of a `terminate_confirmed` the provider has said that
the pod is stopped, terminated or missing, or else the host that is registered for this pod has answered
with no job queued, running or with outputs pending; and in front of a `forget_host` the provider has
said that the pod is gone, which removes no entry but one that names it.

A job is a row with a string for an id. A row that has another id is skipped, whatever it says of the
job, and a host that has nothing but such rows passes for idle (`numbered_job_ended`).
-/

set_option autoImplicit false

namespace Gpuc.Control.Teardown

open Gpuc.Basis Gpuc.Basis.Act

/-! ## What was heard -/

/-- A row that says its job is neither queued nor running, and no output of it is pending. -/
structure IdleRow (entry : Dict String Json) : Prop where
  queued : (entry.get? "status").getD (.str "queued") ≠ .str "queued"
  running : (entry.get? "status").getD (.str "queued") ≠ .str "running"
  uploaded : ∀ value, entry.get? "outputs_pending" = some value → value.truthy = false

/-- A row with a string for an id. -/
def HasId (entry : Dict String Json) : Prop := ∃ jobId, entry.get? "job_id" = some (.str jobId)

/-- **An answer with no job queued, none running and none whose outputs are not confirmed uploaded**,
among the rows that count as jobs. -/
def IdleAnswer (counts : Dict String Json → Prop) (payload : Dict String Json) : Prop :=
  ∀ rows, payload.get? "jobs" = some (.arr rows) → ∀ row ∈ rows, ∀ entry, row.members = some entry →
    counts entry → IdleRow entry

/-- The provider has said this of a pod. -/
def Said (podId : String) (answer : Option Pod) (log : List Heard) : Prop :=
  .read podId answer ∈ log ∨
    ∃ pods pod, answer = some pod ∧ .listed pods ∈ log ∧ pod ∈ pods ∧ pod.id = podId

section Law
variable {σ Offer Transport Entry : Type} (w : World σ Offer Transport Entry) (hosts : Hosts σ)
  (py : Pydantic) (counts : Dict String Json → Prop) (registry : Registry)

/-- **The provider has said that the pod is dead**: stopped, terminated or missing. -/
def SaidDead (podId : String) (log : List Heard) : Prop :=
  ∃ answer, Said podId answer log ∧ answer.all w.isDead = true

/-- **The provider has said that the pod is gone.** -/
def SaidGone (podId : String) (log : List Heard) : Prop :=
  (∃ answer, Said podId answer log ∧ w.isGone answer = true) ∨
    .provider (.confirmed podId) ∈ log

/-- **The host registered for the pod has answered that it is idle.** -/
def SaidIdle (podId : String) (log : List Heard) : Prop :=
  ∃ entry payload, .answered entry payload ∈ log ∧ entry ∈ registry.hosts.values ∧
    entry.podId = some podId ∧ IdleAnswer counts payload

/-- The registry stays as it is, or loses the one entry, which names the pod. -/
def RemovesOnly (name podId : String) (before after : StateDir) : Prop :=
  after.hosts = before.hosts ∨
    ∃ read entry, readRegistry py before.hosts = some read ∧
      read.registry.hosts.get? name = some entry ∧ entry.podId = some podId ∧
      after.hosts = saveRegistry py { read.registry with hosts := read.registry.hosts.erase name }
        read.skipped

/-- **Each pod was ended for a reason, and each entry forgotten for one.** -/
structure Justified (log : List Heard) : Prop where
  ended : ∀ before podId after, log = before ++ .terminating podId :: after →
    SaidDead w podId before ∨ SaidIdle counts registry podId before
  forgotten : ∀ before name podId dir dir' after,
    log = before ++ .forgot name podId dir dir' :: after →
      SaidGone w podId before ∧ RemovesOnly py name podId dir dir'

end Law

section Rules
variable {σ Offer Transport Entry : Type} {w : World σ Offer Transport Entry} {hosts : Hosts σ}
  {py : Pydantic} {counts : Dict String Json → Prop} {registry : Registry} {podId : String}
  {log more : List Heard}

theorem Said.append {answer : Option Pod} (h : Said podId answer log) :
    Said podId answer (log ++ more) := by
  rcases h with h | ⟨pods, pod, hpod, hlisted, hmem, hid⟩
  · exact .inl (List.mem_append_left _ h)
  · exact .inr ⟨pods, pod, hpod, List.mem_append_left _ hlisted, hmem, hid⟩

theorem SaidDead.append (h : SaidDead w podId log) : SaidDead w podId (log ++ more) := by
  obtain ⟨answer, hsaid, hdead⟩ := h
  exact ⟨answer, hsaid.append, hdead⟩

theorem SaidIdle.append (h : SaidIdle counts registry podId log) :
    SaidIdle counts registry podId (log ++ more) := by
  obtain ⟨entry, payload, hanswered, hrest⟩ := h
  exact ⟨entry, payload, List.mem_append_left _ hanswered, hrest⟩

theorem justified_nil : Justified w py counts registry [] where
  ended before podId after h := by simp at h
  forgotten before name podId dir dir' after h := by simp at h

/-- Where the last event of a log stands in a part of it. -/
theorem snoc_eq_split {α : Type} {xs before after : List α} {x y : α}
    (h : xs ++ [x] = before ++ y :: after) :
    xs = before ∧ x = y ∨ ∃ after', xs = before ++ y :: after' := by
  rcases List.eq_nil_or_concat after with rfl | ⟨after', last, rfl⟩
  · have h' := List.append_inj' h rfl
    exact .inl ⟨h'.1, List.singleton_inj.mp h'.2⟩
  · right
    rw [List.concat_eq_append, ← List.cons_append, ← List.append_assoc] at h
    exact ⟨after', (List.append_inj' h rfl).1⟩

/-- One more event is in order, if its own reason is. -/
theorem Justified.snoc (hlog : Justified w py counts registry log) {event : Heard}
    (hended : ∀ podId, event = .terminating podId →
      SaidDead w podId log ∨ SaidIdle counts registry podId log)
    (hforgotten : ∀ name podId dir dir', event = .forgot name podId dir dir' →
      SaidGone w podId log ∧ RemovesOnly py name podId dir dir') :
    Justified w py counts registry (log ++ [event]) where
  ended before podId after h := by
    rcases snoc_eq_split h with ⟨rfl, hevent⟩ | ⟨after', h⟩
    · exact hended podId hevent
    · exact hlog.ended before podId after' h
  forgotten before name podId dir dir' after h := by
    rcases snoc_eq_split h with ⟨rfl, hevent⟩ | ⟨after', h⟩
    · exact hforgotten name podId dir dir' hevent
    · exact hlog.forgotten before name podId dir dir' after' h

/-! ## The questions -/

/-- The command is in order, and something else holds of the log as well. -/
abbrev InOrder (w : World σ Offer Transport Entry) (py : Pydantic) (counts : Dict String Json → Prop)
    (registry : Registry) (P : List Heard → Prop) (log : List Heard) : Prop :=
  Justified w py counts registry log ∧ P log

/-- What is heard later does not take it back. -/
def Stable (P : List Heard → Prop) : Prop := ∀ log more, P log → P (log ++ more)

variable {P : List Heard → Prop}

theorem callOf_triple {α : Type} {f : σ → Except Exn α × σ} :
    Triple (InOrder w py counts registry P) (callOf f) (InOrder w py counts registry P)
      fun _ log => InOrder w py counts registry P log :=
  Triple.call fun _ h => ⟨h, fun _ => h⟩

/-- Something was done that needs a reason. -/
def Heard.acts : Heard → Bool
  | .terminating _ | .forgot _ _ _ _ => true
  | .listed _ | .read _ _ | .answered _ _ | .provider _ => false

/-- An event that needs no reason. -/
theorem emit_triple (hP : Stable P) {event : Heard} (hplain : event.acts = false) :
    Triple (InOrder w py counts registry P) (emit event : Cmd σ Unit) (InOrder w py counts registry P)
      fun _ log => InOrder w py counts registry P log ∧ event ∈ log := by
  refine Triple.emit fun log h => ?_
  have hsnoc : Justified w py counts registry (log ++ [event]) := h.1.snoc
    (fun podId h => by rw [h] at hplain; cases hplain)
    fun name podId dir dir' h => by rw [h] at hplain; cases hplain
  have horder : InOrder w py counts registry P (log ++ [event]) := ⟨hsnoc, hP _ _ h.2⟩
  exact ⟨horder, horder, List.mem_append_right _ (List.mem_singleton_self _)⟩

theorem readPod_triple (hP : Stable P) (podId : String) :
    Triple (InOrder w py counts registry P) (readPod w podId) (InOrder w py counts registry P)
      fun answer log => InOrder w py counts registry P log ∧ Said podId answer log := by
  refine callOf_triple.bind fun pod => (emit_triple hP rfl).bind fun _ => ?_
  exact Triple.pure fun log h => ⟨h.1, h.1, .inl h.2⟩

/-- What is known of the pod that a name stands for. -/
structure Known (registry : Registry) (target : Target) (log : List Heard) : Prop where
  entry : ∀ entry, target.entry = some entry →
    entry ∈ registry.hosts.values ∧ entry.podId = some target.podId
  pod : ∀ pod, target.pod = some pod → Said target.podId (some pod) log

theorem stable_known (registry : Registry) (target : Target) : Stable (Known registry target) :=
  fun _ _ h => ⟨h.entry, fun pod hpod => (h.pod pod hpod).append⟩

theorem resolve_triple (target : String) :
    Triple (InOrder w py counts registry fun _ => True) (resolve w target registry)
      (InOrder w py counts registry fun _ => True)
      fun found log => InOrder w py counts registry (Known registry found) log := by
  unfold resolve
  cases hentry : registry.hosts.get? target with
  | some entry =>
    dsimp only
    cases hrental : entry.rental with
    | none => exact Triple.raise fun _ h => h
    | some rental =>
      refine Triple.pure fun log h => ⟨h, h.1, ?_, nofun⟩
      intro entry' hentry'
      cases hentry'
      refine ⟨Dict.mem_values.mpr ⟨target, hentry⟩, ?_⟩
      rw [HostEntry.podId, hrental]
      rfl
  | none =>
    refine (Triple.bind (Q := fun pod log => InOrder w py counts registry
      (fun log => Said pod.id (some pod) log) log) ?_ fun pod => ?_)
    · refine callOf_triple.bind fun pods =>
        (emit_triple (fun _ _ h => h) rfl).bind fun _ => ?_
      dsimp only
      split
      · next pod hfind =>
        refine Triple.pure fun log h => ⟨h.1, h.1.1, .inr ⟨pods, pod, rfl, h.2, ?_, rfl⟩⟩
        exact (List.mem_filter.mp (List.mem_of_find?_eq_some hfind)).1
      · exact Triple.raise fun _ h => h.1
    · refine Triple.pure fun log h => ⟨⟨h.1, trivial⟩, h.1, ?_, ?_⟩
      · intro entry hfound
        have hfind : registry.hosts.values.find? (fun entry => entry.podId = some pod.id) = some entry :=
          hfound
        exact ⟨List.mem_of_find?_eq_some hfind, by simpa using List.find?_some hfind⟩
      · intro pod' hpod'
        cases hpod'
        exact h.2

/-- What an answer to the question says, of the pod of the entry that was asked. -/
def Told (w : World σ Offer Transport Entry) (entry : HostEntry) (podId : String) :
    Asked → List Heard → Prop
  | .gone pod, log => w.isGone pod = true ∧ Said podId pod log
  | .unaskable pod, log => ∀ known, pod = some known → Said podId (some known) log
  | .answered payload pod, log =>
    (∀ known, pod = some known → Said podId (some known) log) ∧ .answered entry payload ∈ log

theorem rentalState_triple (hP : Stable P) {entry : HostEntry} (hpod : entry.podId = some podId) :
    Triple (InOrder w py counts registry P) (rentalState w entry) (InOrder w py counts registry P)
      fun state log => InOrder w py counts registry P log ∧
        match state with
        | .inl asked => Told w entry podId asked log
        | .inr pod => ∀ known, pod = some known → Said podId (some known) log := by
  unfold rentalState
  cases hrental : entry.rental with
  | none =>
    rw [HostEntry.podId, hrental] at hpod
    cases hpod
  | some rental =>
    have hid : rental.podId = podId := by
      rw [HostEntry.podId, hrental] at hpod
      exact Option.some.inj hpod
    refine (Triple.attempt (Q := fun answer log => InOrder w py counts registry P log ∧
      ∀ pod, answer = .ok pod → Said podId pod log) ?_ ?_).bind fun answer => ?_
    · refine (readPod_triple hP rental.podId).imp (fun _ h => h) (fun _ h => h) fun pod log h => ?_
      refine ⟨h.1, fun pod' hpod' => ?_⟩
      cases hpod'
      exact hid ▸ h.2
    · exact fun e log h => ⟨h, fun pod h => nomatch h⟩
    · rcases answer with e | pod
      · cases e with
        | raised e =>
          dsimp only
          refine Triple.ite (fun _ => Triple.pure fun log h => ⟨h.1, h.1, nofun⟩) fun _ => ?_
          exact Triple.raise fun _ h => h.1
        | refused => exact Triple.raise fun _ h => h.1
        | notFound => exact Triple.raise fun _ h => h.1
        | failed => exact Triple.raise fun _ h => h.1
      · cases pod with
        | none => exact Triple.pure fun log h => ⟨h.1, h.1, rfl, h.2 none rfl⟩
        | some pod =>
          have hsaid : ∀ {log}, (∀ pod', Except.ok (some pod) = (Except.ok pod' : Except Stop _) →
              Said podId pod' log) → ∀ known, some pod = some known → Said podId (some known) log := by
            intro log h known hknown
            exact hknown ▸ h (some pod) rfl
          dsimp only
          refine Triple.ite (fun hgone => Triple.pure fun log h => ⟨h.1, h.1, hgone, h.2 _ rfl⟩) fun _ => ?_
          refine Triple.ite (fun _ => Triple.pure fun log h => ⟨h.1, h.1, hsaid h.2⟩) fun _ => ?_
          exact Triple.pure fun log h => ⟨h.1, h.1, hsaid h.2⟩

theorem ask_triple (hP : Stable P) {entry : HostEntry} (hpod : entry.podId = some podId) :
    Triple (InOrder w py counts registry P) (ask w hosts entry) (InOrder w py counts registry P)
      fun asked log => InOrder w py counts registry P log ∧ Told w entry podId asked log := by
  refine (rentalState_triple hP hpod).bind fun state => ?_
  cases state with
  | inl asked => exact Triple.pure fun log h => ⟨h.1, h⟩
  | inr pod =>
    have hstable : Stable fun log => P log ∧ ∀ known, pod = some known → Said podId (some known) log :=
      fun log more h => ⟨hP log more h.1, fun known hknown => (h.2 known hknown).append⟩
    have hcall : Triple (InOrder w py counts registry P |> fun I log => I log ∧
        ∀ known, pod = some known → Said podId (some known) log) (callOf (hosts.status entry))
        (InOrder w py counts registry P) fun _ log => InOrder w py counts registry (fun log => P log ∧
          ∀ known, pod = some known → Said podId (some known) log) log :=
      callOf_triple.imp (fun log h => ⟨h.1.1, h.1.2, h.2⟩) (fun log h => ⟨h.1, h.2.1⟩) fun _ log h => h
    refine hcall.bind fun answer => ?_
    split
    · exact Triple.pure fun log h => ⟨⟨h.1, h.2.1⟩, ⟨h.1, h.2.1⟩, h.2.2⟩
    · next payload _ =>
      refine ((emit_triple hstable rfl).imp (fun log h => h) (fun log h => ⟨h.1, h.2.1⟩)
        fun _ log h => h).bind fun _ => ?_
      exact Triple.pure fun log h => ⟨⟨h.1.1, h.1.2.1⟩, ⟨h.1.1, h.1.2.1⟩, h.1.2.2, h.2⟩

/-! ## What the host is doing -/

/-- What a view of the host says. -/
structure Viewed (w : World σ Offer Transport Entry) (entry : HostEntry) (podId : String)
    (view : HostView) (log : List Heard) : Prop where
  pod : ∀ known, view.pod = some known → Said podId (some known) log
  gone : view.state = .gone → w.isGone view.pod = true ∧ Said podId view.pod log
  answered : view.state = .answered → ∃ payload, .answered entry payload ∈ log ∧
    jobViews payload = .ok view.jobs

theorem gather_triple (hP : Stable P) {entry : HostEntry} (hpod : entry.podId = some podId) :
    Triple (InOrder w py counts registry P) (gather w hosts entry) (InOrder w py counts registry P)
      fun view log => InOrder w py counts registry P log ∧ Viewed w entry podId view log := by
  refine (ask_triple hP hpod).bind fun asked => ?_
  cases asked with
  | gone pod =>
    refine Triple.pure fun log h => ⟨h.1, h.1, ?_, fun _ => h.2, nofun⟩
    intro known hknown
    rw [← hknown]
    exact h.2.2
  | unaskable pod => exact Triple.pure fun log h => ⟨h.1, h.1, h.2, nofun, nofun⟩
  | answered payload pod =>
    have hcall : Triple (fun log => InOrder w py counts registry P log ∧
        Told w entry podId (.answered payload pod) log) (callOf (hosts.rest payload))
        (InOrder w py counts registry P) fun _ log => InOrder w py counts registry P log ∧
          Told w entry podId (.answered payload pod) log :=
      Triple.call fun log h => ⟨h.1, fun _ => h⟩
    refine hcall.bind fun _ => ?_
    cases hviews : jobViews payload with
    | error e => exact Triple.raise fun log h => h.1
    | ok jobs =>
      exact Triple.pure fun log h => ⟨h.1, h.1, h.2.1, nofun, fun _ => ⟨payload, h.2.2, hviews⟩⟩

theorem is_of_status {view : JobView} {status : String} (h : view.status = .str status) :
    view.is status = true := by
  rw [JobView.is, h]
  exact decide_eq_true rfl

/-- **An answer with no job queued, running or with outputs at risk is an idle one.** -/
theorem idleAnswer_of_jobViews {payload : Dict String Json} {jobs : JobViews}
    (hviews : jobViews payload = .ok jobs) (hqueued : jobs.queued = []) (hrunning : jobs.running = [])
    (hrisk : jobs.outputsAtRisk = []) : IdleAnswer HasId payload := by
  rintro rows hrows row hrow entry hentry ⟨jobId, hid⟩
  have htrue : (Json.arr rows).truthy = true := by
    cases rows with
    | nil => exact absurd hrow List.not_mem_nil
    | cons => rfl
  unfold jobViews at hviews
  rw [hrows, Option.filter_some, if_pos htrue] at hviews
  obtain rfl := Except.ok.inj hviews
  let view : JobView :=
    { jobId
      name := (entry.get? "name").getD (.str "")
      status := (entry.get? "status").getD (.str "queued")
      outputsPending := ((entry.get? "outputs_pending").map Json.truthy).getD false }
  have hview : view ∈ rows.filterMap jobView := by
    refine List.mem_filterMap.mpr ⟨row, hrow, ?_⟩
    unfold jobView
    simp only [hentry, Option.bind_eq_bind, Option.bind_some, hid, view]
  have hnotQueued : view.is "queued" = false :=
    Bool.eq_false_iff.mpr (List.filter_eq_nil_iff.mp hqueued view hview)
  have hnotRunning : view.is "running" = false :=
    Bool.eq_false_iff.mpr (List.filter_eq_nil_iff.mp hrunning view hview)
  refine ⟨fun hstatus => ?_, fun hstatus => ?_, fun value hvalue => ?_⟩
  · have his : view.is "queued" = true := is_of_status hstatus
    rw [hnotQueued] at his
    cases his
  · have his : view.is "running" = true := is_of_status hstatus
    rw [hnotRunning] at his
    cases his
  · have hfinished : (!view.is "running" && !view.is "queued") = true := by
      rw [hnotQueued, hnotRunning]
      rfl
    have hpending : view.outputsPending = false := Bool.eq_false_iff.mpr
      (List.filter_eq_nil_iff.mp hrisk view (List.mem_filter.mpr ⟨hview, hfinished⟩))
    have hvalue' : view.outputsPending = value.truthy := by
      show ((entry.get? "outputs_pending").map Json.truthy).getD false = _
      rw [hvalue]
      rfl
    rw [← hvalue', hpending]

/-- What an inspection has found, of a target. -/
structure Inspected (w : World σ Offer Transport Entry) (counts : Dict String Json → Prop)
    (registry : Registry) (target : Target) (result : Termination) (log : List Heard) : Prop where
  podId : result.target.podId = target.podId
  entry : result.target.entry = target.entry
  pod : ∀ known, result.target.pod = some known → Said target.podId (some known) log
  dead : result.nothingCanRun = true → SaidDead w target.podId log ∨
    ∃ known, result.target.pod = some known ∧ w.isGone (some known) = true
  idle : result.checked = true → result.busy = false → SaidIdle counts registry target.podId log

/-- A pod that a provider has called dead is one that it has said is. -/
theorem saidDead_of_any {pod : Option Pod} (hsaid : ∀ known, pod = some known → Said podId (some known) log)
    (hdead : pod.any w.isDead = true) : SaidDead w podId log := by
  obtain ⟨known, hknown, hdead⟩ := (Option.any_eq_true _ _).mp hdead
  exact ⟨some known, hsaid known hknown, hdead⟩

theorem inspect_triple (target : Target) :
    Triple (InOrder w py HasId registry (Known registry target)) (inspect w hosts target)
      (InOrder w py HasId registry (Known registry target))
      fun result log => InOrder w py HasId registry (Known registry target) log ∧
        Inspected w HasId registry target result log := by
  refine Triple.of_before fun log hbefore => ?_
  unfold inspect
  cases hentry : target.entry with
  | none =>
    refine Triple.pure fun log h => ⟨h, h, rfl, rfl, h.2.pod, ?_, nofun⟩
    exact fun hdead => .inl (saidDead_of_any h.2.pod hdead)
  | some entry =>
    obtain ⟨hregistered, hpod⟩ := hbefore.2.entry entry hentry
    refine (gather_triple (stable_known registry target) hpod).bind fun view => ?_
    have hsaid : ∀ {log}, Known registry target log → Viewed w entry target.podId view log →
        ∀ known, view.pod.or target.pod = some known → Said target.podId (some known) log := by
      intro log hknown hview known hor
      cases hviewed : view.pod with
      | none =>
        rw [hviewed, Option.none_or] at hor
        exact hknown.pod known hor
      | some pod =>
        rw [hviewed, Option.some_or] at hor
        cases hor
        exact hview.pod _ hviewed
    dsimp only
    split
    · next hanswered =>
      refine Triple.pure fun log h => ⟨h.1, h.1, rfl, hentry.symm ▸ rfl, hsaid h.1.2 h.2, nofun, ?_⟩
      intro _ hbusy
      obtain ⟨payload, hpayload, hviews⟩ := h.2.answered hanswered
      simp only [Termination.busy, Bool.or_eq_false_iff, Bool.not_eq_false', List.isEmpty_iff] at hbusy
      exact ⟨entry, payload, hpayload, hregistered, hpod,
        idleAnswer_of_jobViews hviews hbusy.1.2 hbusy.1.1 hbusy.2⟩
    · refine Triple.pure fun log h => ⟨h.1, h.1, rfl, hentry.symm ▸ rfl, hsaid h.1.2 h.2, ?_, nofun⟩
      intro hdead
      rcases Bool.or_eq_true_iff.mp hdead with hgone | hdead
      · obtain ⟨hgone, hsaidGone⟩ := h.2.gone (of_decide_eq_true hgone)
        cases hviewed : view.pod with
        | none =>
          rw [hviewed] at hsaidGone
          exact .inl ⟨none, hsaidGone, rfl⟩
        | some pod =>
          rw [hviewed] at hgone
          exact .inr ⟨pod, by simp, hgone⟩
      · exact .inl (saidDead_of_any (hsaid h.1.2 h.2) hdead)

/-! ## The command -/

/-- Why a plain terminate goes on. -/
structure Decided (w : World σ Offer Transport Entry) (registry : Registry) (target : Target)
    (result : Termination) (log : List Heard) : Prop where
  podId : result.target.podId = target.podId
  entry : result.target.entry = target.entry
  pod : ∀ known, result.target.pod = some known → Said target.podId (some known) log
  reason : SaidDead w target.podId log ∨ SaidIdle HasId registry target.podId log ∨
    ∃ known, result.target.pod = some known ∧ w.isGone (some known) = true

theorem examine_triple (target : Target) :
    Triple (InOrder w py HasId registry (Known registry target)) (examine w hosts false target)
      (Justified w py HasId registry)
      fun result log => InOrder w py HasId registry (Decided w registry target result) log := by
  unfold examine
  rw [if_neg (by decide)]
  refine ((inspect_triple target).imp (fun _ h => h) (fun _ h => h.1) fun _ _ h => h).bind fun result => ?_
  refine Triple.ite (fun _ => Triple.raise fun _ h => h.1.1) fun hgo => Triple.pure fun log h => ?_
  refine ⟨h.1.1, h.1.1, h.2.podId, h.2.entry, h.2.pod, ?_⟩
  simp only [Bool.and_eq_true, Bool.not_eq_true', Bool.or_eq_true, not_and, not_or,
    Bool.not_eq_false, Bool.not_eq_true] at hgo
  cases hdead : result.nothingCanRun with
  | true =>
    rcases h.2.dead hdead with hsaid | hgone
    · exact .inl hsaid
    · exact .inr (.inr hgone)
  | false =>
    obtain ⟨hbusy, hchecked⟩ := hgo hdead
    exact .inr (.inl (h.2.idle hchecked hbusy))

theorem stable_decided (target : Target) (result : Termination) :
    Stable (Decided w registry target result) := by
  refine fun log more h => ⟨h.podId, h.entry, fun pod hpod => (h.pod pod hpod).append, ?_⟩
  rcases h.reason with hdead | hidle | hgone
  · exact .inl hdead.append
  · exact .inr (.inl hidle.append)
  · exact .inr (.inr hgone)

/-- What a terminate knows of the pod before it ends it. -/
theorem knownPod_triple {target : Target} {result : Termination} :
    Triple (InOrder w py HasId registry (Decided w registry target result)) (knownPod w result.target)
      (Justified w py HasId registry)
      fun pod log => InOrder w py HasId registry (fun log => Decided w registry target result log ∧
        Said target.podId pod log ∧ ∀ known, result.target.pod = some known → pod = some known) log := by
  unfold knownPod
  cases hpod : result.target.pod with
  | some pod =>
    refine Triple.pure fun log h => ⟨h.1, h.1, h.2, h.2.pod pod hpod, ?_⟩
    exact fun known hknown => hknown
  | none =>
    refine (readPod_triple (stable_decided target result) result.target.podId).imp (fun _ h => h)
      (fun _ h => h.1) fun pod log h => ⟨h.1.1, h.1.2, ?_, nofun⟩
    rw [← h.1.2.podId]
    exact h.2

/-- **Forgetting an entry removes it only where it names the pod.** -/
theorem forgetHost_removesOnly (locked : Bool) (dir : StateDir) (name podId : String) :
    RemovesOnly py name podId dir (forgetHost py locked dir name (some podId)).2 := by
  unfold forgetHost
  cases locked with
  | true => exact .inl rfl
  | false =>
    cases hread : readRegistry py dir.hosts with
    | none => exact .inl rfl
    | some read =>
      cases hparsed : read.unreadable with
      | true =>
        left
        simp [hparsed, StateDir.setAside]
      | false =>
        cases hentry : read.registry.hosts.get? name with
        | none => exact .inl (by simp [hparsed, hentry])
        | some entry =>
          by_cases hpod : entry.podId = some podId
          · exact .inr ⟨read, entry, hread, hentry, hpod, by simp [hparsed, hentry, hpod]⟩
          · exact .inl (by simp [hparsed, hentry, hpod])

theorem forget_triple (target : Target) (hgone : ∀ log, P log → SaidGone w target.podId log) :
    Triple (InOrder w py counts registry P) (forget hosts py target) (Justified w py counts registry)
      fun _ log => Justified w py counts registry log := by
  unfold forget
  cases target.entry with
  | none => exact Triple.pure fun log h => ⟨h.1, h.1⟩
  | some entry =>
    intro s hs
    have hsnoc : ∀ after, RemovesOnly py entry.name target.podId (hosts.stateDir s.world) after →
        Justified w py counts registry
          (s.log ++ [.forgot entry.name target.podId (hosts.stateDir s.world) after]) := by
      intro after hafter
      refine hs.1.snoc (fun podId h => nomatch h) fun name podId dir dir' h => ?_
      cases h
      exact ⟨hgone s.log hs.2, hafter⟩
    have hremoves := @forgetHost_removesOnly py (hosts.locked s.world) (hosts.stateDir s.world)
      entry.name target.podId
    have hlog : (forgetEntry hosts py entry.name target.podId s).2.log = s.log ++
        [.forgot entry.name target.podId (hosts.stateDir s.world)
          (forgetHost py (hosts.locked s.world) (hosts.stateDir s.world) entry.name
            (some target.podId)).2] := by
      unfold forgetEntry
      dsimp only
      split <;> rfl
    rw [hlog]
    exact ⟨hsnoc _ hremoves, fun _ _ => hsnoc _ hremoves⟩

/-- **Ending a pod for a reason leaves the provider's word that it is gone**, where it returns. -/
theorem endPod_triple (hP : Stable P)
    (hreason : ∀ log, P log → SaidDead w podId log ∨ SaidIdle counts registry podId log) :
    Triple (InOrder w py counts registry P) (endPod w podId) (Justified w py counts registry)
      fun _ log => InOrder w py counts registry (fun log => P log ∧ SaidGone w podId log) log := by
  have hstart : Triple (InOrder w py counts registry P) (emit (.terminating podId) : Cmd σ Unit)
      (Justified w py counts registry) fun _ log => InOrder w py counts registry P log := by
    refine Triple.emit fun log h => ?_
    have hsnoc : Justified w py counts registry (log ++ [.terminating podId]) :=
      h.1.snoc (fun podId' hevent => by cases hevent; exact hreason log h.2)
        fun _ _ _ _ hevent => nomatch hevent
    exact ⟨hsnoc, hsnoc, hP _ _ h.2⟩
  have hconfirm : Triple (InOrder w py counts registry P)
      (Act.embed Heard.provider Stop.raised (terminateConfirmed w podId))
      (Justified w py counts registry)
      fun _ log => InOrder w py counts registry (fun log => P log ∧ SaidGone w podId log) log := by
    refine Triple.embed (fun world => terminateConfirmed_emits podId _) ?_
    intro log h outcome events hconfirming
    rcases hconfirming with ⟨rfl, rfl⟩ | ⟨⟨e, rfl⟩, rfl⟩
    · have hsnoc : Justified w py counts registry (log ++ [.provider (.confirmed podId)]) :=
        h.1.snoc (fun _ hevent => nomatch hevent) fun _ _ _ _ hevent => nomatch hevent
      refine ⟨hsnoc, fun _ _ => ⟨hsnoc, hP _ _ h.2, .inr ?_⟩⟩
      exact List.mem_append_right _ (List.mem_singleton_self _)
    · rw [List.map_nil, List.append_nil]
      exact ⟨h.1, fun _ houtcome => nomatch houtcome⟩
  refine hstart.bind fun _ => ?_
  refine (Triple.attempt (Q := fun answer log => Justified w py counts registry log ∧
    (answer = .ok () → P log ∧ SaidGone w podId log)) ?_ ?_).bind fun answer => ?_
  · exact hconfirm.imp (fun _ h => h) (fun _ h => h) fun _ log h => ⟨h.1, fun _ => h.2⟩
  · exact fun e log h => ⟨h, nofun⟩
  · rcases answer with e | ⟨⟩
    · cases e with
      | raised e =>
        exact Triple.ite (fun _ => Triple.raise fun _ h => h.1) fun _ => Triple.raise fun _ h => h.1
      | refused => exact Triple.raise fun _ h => h.1
      | notFound => exact Triple.raise fun _ h => h.1
      | failed => exact Triple.raise fun _ h => h.1
    · exact Triple.pure fun log h => ⟨h.1, h.1, h.2 rfl⟩

theorem report_triple : Triple (InOrder w py counts registry P) (callOf w.report)
    (Justified w py counts registry) fun _ log => InOrder w py counts registry P log :=
  callOf_triple.imp (fun _ h => h) (fun _ h => h.1) fun _ _ h => h

/-- What a terminate does once it knows the pod. -/
theorem endKnown_triple {target : Target} {result : Termination} {pod : Option Pod} :
    Triple
      (InOrder w py HasId registry (fun log => Decided w registry target result log ∧
        Said target.podId pod log ∧ ∀ known, result.target.pod = some known → pod = some known))
      (do
        let result := { result with target := { result.target with pod } }
        if w.isGone pod then
          let forgotten ← forget hosts py result.target
          return { result with forgotten }
        else
          callOf w.report
          endPod w result.target.podId
          callOf w.report
          let forgotten ← forget hosts py result.target
          return { result with terminated := true, forgotten } : Cmd σ Termination)
      (Justified w py HasId registry) fun _ log => Justified w py HasId registry log := by
  have hstable : Stable fun log => Decided w registry target result log ∧
      Said target.podId pod log ∧ ∀ known, result.target.pod = some known → pod = some known :=
    fun log more h => ⟨stable_decided target result log more h.1, h.2.1.append, h.2.2⟩
  have hforget {P : List Heard → Prop}
      (hgone : ∀ log, P log → SaidGone w result.target.podId log) {final : Bool → Termination} :
      Triple (InOrder w py HasId registry P)
        (do
          let forgotten ← forget hosts py { result.target with pod }
          return final forgotten : Cmd σ Termination)
        (Justified w py HasId registry) fun _ log => Justified w py HasId registry log :=
    (forget_triple { result.target with pod } hgone).bind fun _ =>
      Triple.pure fun _ h => ⟨h, h⟩
  refine Triple.ite (fun hgone => hforget fun log h => ?_) fun hstays => ?_
  · rw [h.1.podId]
    exact .inl ⟨pod, h.2.1, hgone⟩
  · refine report_triple.bind fun _ => (endPod_triple hstable fun log h => ?_).bind fun _ =>
      report_triple.bind fun _ => hforget fun log h => h.2
    rw [h.1.podId]
    rcases h.1.reason with hdead | hidle | ⟨known, hknown, hgone⟩
    · exact .inl hdead
    · exact .inr hidle
    · rw [h.2.2 known hknown] at hstays
      exact absurd hgone hstays

theorem terminate_triple (target : String) :
    Triple (InOrder w py HasId registry fun _ => True) (terminate w hosts py false target registry)
      (Justified w py HasId registry) fun _ log => Justified w py HasId registry log := by
  refine ((resolve_triple target).imp (fun _ h => h) (fun _ h => h.1) fun _ _ h => h).bind
    fun resolved => (examine_triple resolved).bind fun result => ?_
  refine knownPod_triple.bind fun pod => ?_
  refine Triple.ite (fun _ => report_triple.bind fun _ => endKnown_triple) fun _ => endKnown_triple

/-- **A plain terminate ends nothing that may be working.** Whatever the provider, the hosts and the
registry answer, a pod is ended only after the provider said that it is dead or the host registered for
it answered that it is idle, and an entry is forgotten only after the provider said that its pod is
gone. -/
theorem terminate_justified (world : σ) (target : String) :
    Justified w py HasId registry
      (terminate w hosts py false target registry { world, log := [] }).2.log :=
  (terminate_triple target { world, log := [] } ⟨justified_nil, trivial⟩).1

end Rules

/-! ## A row that is skipped -/

def runningPod : Pod := { id := "p", name := "gpuc-p", status := .running }

/-- An account of one pod, which runs until it is terminated. -/
def onePod : World Bool Unit Unit Unit where
  providerName := "runpod"
  namePrefix := "gpuc-"
  brokenHost _ := false
  confirmPolls := 1
  offers ended := (.ok [], ended)
  create _ _ ended := ({ answer := .error .createRefused }, ended)
  get _ ended := (.ok (if ended then none else some runningPod), ended)
  logs _ ended := (.ok "", ended)
  terminate _ _ := (.ok (), true)
  list ended := (.ok (if ended then [] else [runningPod]), ended)
  ensureSshKey ended := (.ok (), ended)
  now ended := (.ok 0, ended)
  sleep _ ended := (.ok (), ended)
  report ended := (.ok (), ended)
  hint := ""
  token ended := (.ok "", ended)
  publicKeyPath ended := (.ok (), ended)
  forgetHost _ _ ended := (.ok (), ended)
  register _ ended := (.ok (), ended)
  transportFactory _ ended := (.ok (), ended)
  run _ ended := (.ok { returncode := 0, text := "" }, ended)
  probe _ _ ended := (.ok { gpuInfo := [] }, ended)
  connect _ _ ended := (.ok (), ended)
  bootstrap _ _ ended := (.ok (), ended)

def numberedRow : Dict String Json :=
  Dict.ofList [("job_id", .int 7), ("status", .str "running")]

def numberedAnswer : Dict String Json :=
  Dict.ofList [("jobs", .arr [.obj [("job_id", .int 7), ("status", .str "running")]])]

/-- A host whose one job has a number for an id. -/
def numbering : Hosts Bool where
  status _ ended :=
    (.ok (some (.obj [("jobs", .arr [.obj [("job_id", .int 7), ("status", .str "running")]])])), ended)
  rest _ ended := (.ok (), ended)
  stateDir _ := { hosts := .missing }
  putStateDir _ ended := ended
  locked _ := false

def rented : HostEntry := { name := "h", rental := some { podId := "p" } }

def oneHost : Registry := { hosts := Dict.ofList [("h", rented)] }

/-- An integer, as it is. -/
def intOnly : Json → Option Int
  | .int n => some n
  | _ => none

theorem intOnly_int (n : Int) : intOnly (.int n) = some n := rfl

def intsOnly : Pydantic where
  toInt := intOnly
  toInt_int := intOnly_int
  dumpAny value := value

theorem terminate_numbered :
    (terminate onePod numbering intsOnly false "h" oneHost { world := false, log := [] }).2.log =
      [.read "p" (some runningPod), .answered rented numberedAnswer, .terminating "p",
        .provider (.confirmed "p"), .forgot "h" "p" { hosts := .missing } { hosts := .missing }] := rfl

/-- **A host whose one job has a number for an id is ended while it runs that job**: neither has the
provider said that its pod is dead, nor the host that nothing runs. -/
theorem numbered_job_ended :
    ¬ Justified onePod intsOnly (fun _ => True) oneHost
      (terminate onePod numbering intsOnly false "h" oneHost { world := false, log := [] }).2.log := by
  intro h
  rw [terminate_numbered] at h
  rcases h.ended [.read "p" (some runningPod), .answered rented numberedAnswer] "p" _ rfl with
    ⟨answer, hsaid, hdead⟩ | ⟨entry, payload, hanswered, -, -, hidle⟩
  · rcases hsaid with hread | ⟨pods, pod, -, hlisted, -⟩
    · simp only [List.mem_cons, Heard.read.injEq, reduceCtorEq, List.not_mem_nil, or_false,
        true_and] at hread
      subst hread
      exact absurd hdead (by decide)
    · simp at hlisted
  · simp only [List.mem_cons, Heard.answered.injEq, reduceCtorEq, List.not_mem_nil, or_false,
      false_or] at hanswered
    obtain ⟨rfl, rfl⟩ := hanswered
    refine (hidle [.obj [("job_id", .int 7), ("status", .str "running")]] rfl _
      (List.mem_singleton_self _) numberedRow rfl trivial).running ?_
    rfl

end Gpuc.Control.Teardown
