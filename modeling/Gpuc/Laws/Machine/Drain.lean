import Gpuc.Laws.Machine.Accounts

/-!
# A rental that ends itself

A drain is decided on from the dispatcher's own account and one listing of the queue, and the host is
ended some minutes later. What holds in between, `Settled`, is about every job on disk: while the
dispatcher drains, all of them are over.

The law (`terminates_idle`): in every run none of whose steps leads a drain over live work (`risksWork`),
a dispatcher that comes to the terminate call leaves no job behind that is queued or running. A step does
when it decides to drain while a job runs that `running` does not name, its runner having been started by
another dispatcher, and when it accepts a job during a drain; nothing in the code prevents either
(`ends_under_work`).
-/

set_option autoImplicit false

namespace Gpuc.Host

open Gpuc.Basis

/-- Does a job run, as the disk has it? -/
def anyRunning (jobs : Jobs) : Bool := jobs.values.any fun dir => dir.state.status = .running

/-- **The step leads a drain over live work**: it decides to drain while a job runs, or accepts a job
during a drain. -/
def risksWork (h : Host) (label : Label) : Bool :=
  match label, h.dispatcher with
  | .dispatcher (.checks now), some d => decide (d.idleEnough h.jobs now) && anyRunning h.jobs
  | .enqueue _, some d => d.stage.drains
  | _, _ => false

theorem not_running_of_none {jobs : Jobs} (hnone : anyRunning jobs = false) {jobId : JobId}
    {dir : JobDir} (hdir : jobs.get? jobId = some dir) : dir.state.status ≠ .running := by
  intro hrunning
  have hmem : dir ∈ jobs.values := Dict.mem_values.mpr ⟨jobId, hdir⟩
  have hsome : anyRunning jobs = true := List.any_eq_true.mpr ⟨dir, hmem, by simpa using hrunning⟩
  rw [hnone] at hsome
  cases hsome

/-- **While the dispatcher drains, every job is over.** -/
structure Settled (h : Host) : Prop where
  lawful : h.Lawful
  ended : ∀ d, h.dispatcher = some d → d.stage.drains = true → ∀ jobId dir,
    h.jobs.get? jobId = some dir → dir.state.finished = true

section
variable {stamp : String → Option Seconds} {h h' : Host} {label : Label} {d d' : Dispatcher}

theorem Settled.fresh (boot : Boot) : Settled (.fresh boot) where
  lawful := fresh_lawful boot
  ended _ hd := nomatch hd

/-- A job that neither waits nor runs is over. -/
theorem finished_of_idle {state : JobState} (hlawful : state.Lawful) (hqueued : state.status ≠ .queued)
    (hrunning : state.status ≠ .running) : state.finished = true := by
  unfold JobState.finished
  cases hstatus : state.status with
  | queued => exact absurd hstatus hqueued
  | running => exact absurd hstatus hrunning
  | other text => exact absurd hstatus (hlawful.known text)
  | succeeded | failed | cancelled => rfl

/-- A dispatcher decides to drain on an empty queue, and goes on with a drain. -/
theorem Turn.into_drain {act : DispatcherAct} (hturn : Turn stamp h d act d')
    (hdrains : d'.stage.drains = true) :
    (∃ now, act = .checks now ∧ d.idleEnough h.jobs now) ∨ d.stage.drains = true := by
  have hplain : ∀ {stage : Stage}, stage.plain = true → stage.drains = true → False := by
    intro stage hplain hdrains
    cases stage <;> simp_all [Stage.plain, Stage.drains]
  cases hturn with
  | serves hserves => exact absurd hdrains (hplain hserves.plain)
  | adopts _ _ hstage => exact absurd hdrains (hplain hstage)
  | plans _ _ _ _ _ _ hstage => exact absurd hdrains (hplain hstage)
  | drains hact hidle => exact .inl ⟨_, hact, hidle⟩
  | drainsOn hwas _ => exact .inr hwas
  | begins | lists | rereads | takes => cases hdrains

/-- **What is over stays over**, and nothing new comes under a drain. -/
theorem stays_over (hlawful : h.Lawful) (hstep : h.step stamp label = some h')
    (hover : ∀ jobId dir, h.jobs.get? jobId = some dir → dir.state.finished = true)
    (hnew : ∀ spec, label ≠ .enqueue spec) {jobId : JobId} {dir' : JobDir}
    (hdir' : h'.jobs.get? jobId = some dir') : dir'.state.finished = true := by
  cases step_arrives hlawful hstep hdir' with
  | kept dir _ hdir _ hshifts =>
    have hdone := hover jobId dir hdir
    have hsame := hshifts.finished hdone
    rw [JobState.finished, hsame]
    exact hdone
  | accepted spec hlabel => exact absurd hlabel (hnew spec)
  | claimed r dir written hclaim hid =>
    have hdone := hover r.jobId dir hclaim.hasDir
    rw [JobState.finished, hclaim.state.1] at hdone
    cases hdone

/-- **Every step that leads no drain over live work keeps this.** -/
theorem Settled.step (hsettled : Settled h) (hsafe : risksWork h label = false)
    (hstep : h.step stamp label = some h') : Settled h' := by
  refine ⟨step_lawful hsettled.lawful hstep, fun d' hd' hdrains jobId dir' hdir' => ?_⟩
  rcases step_dispatcher hstep hd' with ⟨d, act, hd, rfl, hact⟩ | ⟨hd, -⟩ | ⟨-, -, -, -, -, rfl⟩
  · by_cases hspawn : ∃ starttime, act = .spawns starttime
    · obtain ⟨starttime, rfl⟩ := hspawn
      obtain ⟨_, _, _, _, -, rfl⟩ := spawns_eq_some hact
      obtain rfl := Option.some.inj hd'
      cases hdrains
    · have hturn := (Dispatcher.step_cases (fun starttime heq => hspawn ⟨starttime, heq⟩) hact).2 d' hd'
      refine stays_over hsettled.lawful hstep (fun jobId dir hdir => ?_) nofun hdir'
      rcases hturn.into_drain hdrains with ⟨now, rfl, hidle⟩ | hwas
      · have hnone : anyRunning h.jobs = false := by
          simpa [risksWork, hd, hidle] using hsafe
        refine finished_of_idle (hsettled.lawful jobId dir hdir) (fun hqueued => ?_)
          (not_running_of_none hnone hdir)
        have hlisted : (⟨dir.state.priority, jobId, dir.state.attempt⟩ : QueueEntry) ∈ listQueued h.jobs :=
          mem_listQueued.mpr ⟨dir, hdir, hqueued, rfl, rfl⟩
        rw [hidle.2.1] at hlisted
        exact absurd hlisted List.not_mem_nil
      · exact hsettled.ended d hd hwas jobId dir hdir
  · refine stays_over hsettled.lawful hstep (hsettled.ended d' hd hdrains) (fun spec heq => ?_) hdir'
    simp [risksWork, heq, hd, hdrains] at hsafe
  · cases hdrains

end

/-- **A rental does not end itself under accepted work**, in a run of which no step leads a drain over
live work. -/
theorem terminates_idle (stamp : String → Option Seconds) {boot : Boot} {labels : List Label}
    {h next : Host} (hrun : (Host.machine stamp).run (.fresh boot) labels = some h)
    (hsafe : ∀ p ∈ (Host.machine stamp).trace (.fresh boot) labels, risksWork p.1 p.2 = false)
    {succeeds : Bool} {now : Seconds}
    (hcall : (Host.machine stamp).step h (.dispatcher (.terminates succeeds now)) = some next)
    {jobId : JobId} {dir : JobDir} (hdir : h.jobs.get? jobId = some dir) :
    dir.state.status ≠ .queued ∧ dir.state.status ≠ .running := by
  have hsettled : Settled h :=
    Machine.run_invariant_of (C := fun h label => risksWork h label = false)
      (fun _ _ _ hsettled hsafe hstep => hsettled.step hsafe hstep) (.fresh boot) hsafe hrun
  obtain ⟨d, hd, hact⟩ := Option.bind_eq_some_iff.mp hcall
  have hdrains : d.stage.drains = true := by
    change d.terminates h succeeds now = some next at hact
    unfold Dispatcher.terminates at hact
    split at hact
    · next hstage => rw [hstage]; rfl
    · cases hact
  have hdone := hsettled.ended d hd hdrains jobId dir hdir
  refine ⟨fun hstatus => ?_, fun hstatus => ?_⟩
  · rw [JobState.finished, hstatus] at hdone
    cases hdone
  · rw [JobState.finished, hstatus] at hdone
    cases hdone

/-! ## Runs of a rental -/

/-- A pass of a rental that ends itself as soon as it is idle, with nothing to launch. -/
def idlePass : List Label :=
  [.dispatcher (.begins { ephemeral := true, idleMinutes := 0 } (some [])), .dispatcher .reaps,
    .dispatcher (.plans [] 0), .dispatcher (.acts "10:00"), .dispatcher (.checks 0)]

/-- From the decision to the call. -/
def drainOn : List Label := [.dispatcher .marks, .dispatcher .retries, .dispatcher .mirrors]

/-- The call can be made, and the job has this status. -/
def endsWith (jobId : JobId) (status : Status) (h : Host) : Bool :=
  (h.step (fun _ => none) (.dispatcher (.terminates true 0))).isSome &&
    (h.jobs.get? jobId).any fun dir => dir.state.status = status

theorem endsWith_iff {jobId : JobId} {status : Status} {h : Host} : endsWith jobId status h = true ↔
    (∃ next, (Host.machine fun _ => none).step h (.dispatcher (.terminates true 0)) = some next) ∧
      ∃ dir, h.jobs.get? jobId = some dir ∧ dir.state.status = status := by
  rw [endsWith, Bool.and_eq_true, Option.isSome_iff_exists, Option.any_eq_true]
  simp only [decide_eq_true_eq]
  rfl

/-- A job is cancelled before any dispatcher sees it. -/
def cancelledFirst : List Label :=
  [.enqueue { jobId := "a" }, .command "a" (.cancel "09:59"), .starts, .dispatcher .adopts,
    .dispatcher .adopts] ++ idlePass ++ drainOn

theorem terminates_idle_cancelled :
    ∃ h dir, (Host.machine fun _ => none).run (.fresh ⟨none, none⟩) cancelledFirst = some h ∧
      h.jobs.get? "a" = some dir ∧ dir.state.status ≠ .queued ∧ dir.state.status ≠ .running := by
  have hends : ((Host.machine fun _ => none).run (.fresh ⟨none, none⟩) cancelledFirst).any
      (endsWith "a" .cancelled) = true := by decide +kernel
  have hsafe : ((Host.machine fun _ => none).trace (.fresh ⟨none, none⟩) cancelledFirst).all
      (fun p => risksWork p.1 p.2 = false) = true := by decide +kernel
  obtain ⟨h, hrun, hthere⟩ := (Option.any_eq_true _ _).mp hends
  obtain ⟨⟨next, hcall⟩, dir, hdir, -⟩ := endsWith_iff.mp hthere
  exact ⟨h, dir, hrun, hdir, terminates_idle (fun _ => none) hrun
    (fun p hp => of_decide_eq_true (List.all_eq_true.mp hsafe p hp)) hcall hdir⟩

/-- A job is accepted between the decision to drain and the call. -/
def acceptedLate : List Label :=
  [.starts, .dispatcher .adopts] ++ idlePass ++ [.enqueue { jobId := "a" }] ++ drainOn

/-- A runner of a dispatcher that was killed claims its job once the next dispatcher has read it. -/
def claimedLate : List Label :=
  [.enqueue { jobId := "a", gpus := 0 }, .starts, .dispatcher .adopts, .dispatcher .adopts,
    .dispatcher (.begins {} (some [])), .dispatcher .reaps, .dispatcher (.plans [] 0),
    .dispatcher (.acts "10:00"), .dispatcher (.spawns none), .killed, .starts, .dispatcher .adopts,
    .dispatcher .adopts, .runner 2 (.claims "none" "10:01")] ++ idlePass ++ drainOn

/-- **A rental ends itself under a queued job, and under a running one.** -/
theorem ends_under_work :
    (∃ h next dir, (Host.machine fun _ => none).run (.fresh ⟨none, none⟩) acceptedLate = some h ∧
        (Host.machine fun _ => none).step h (.dispatcher (.terminates true 0)) = some next ∧
        h.jobs.get? "a" = some dir ∧ dir.state.status = .queued) ∧
      ∃ h next dir, (Host.machine fun _ => none).run (.fresh ⟨none, none⟩) claimedLate = some h ∧
        (Host.machine fun _ => none).step h (.dispatcher (.terminates true 0)) = some next ∧
        h.jobs.get? "a" = some dir ∧ dir.state.status = .running := by
  have hqueued : ((Host.machine fun _ => none).run (.fresh ⟨none, none⟩) acceptedLate).any
      (endsWith "a" .queued) = true := by decide +kernel
  have hrunning : ((Host.machine fun _ => none).run (.fresh ⟨none, none⟩) claimedLate).any
      (endsWith "a" .running) = true := by decide +kernel
  constructor
  · obtain ⟨h, hrun, hends⟩ := (Option.any_eq_true _ _).mp hqueued
    obtain ⟨⟨next, hcall⟩, dir, hdir, hstatus⟩ := endsWith_iff.mp hends
    exact ⟨h, next, dir, hrun, hcall, hdir, hstatus⟩
  · obtain ⟨h, hrun, hends⟩ := (Option.any_eq_true _ _).mp hrunning
    obtain ⟨⟨next, hcall⟩, dir, hdir, hstatus⟩ := endsWith_iff.mp hends
    exact ⟨h, next, dir, hrun, hcall, hdir, hstatus⟩

end Gpuc.Host
