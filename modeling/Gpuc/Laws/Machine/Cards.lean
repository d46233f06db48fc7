import Gpuc.Laws.Machine.Accounts

/-!
# Which job has which card

A job has a card (`Takes`) while it runs on it, and while a runner that was given it may still claim the
job. Nothing but a spawn makes a job have a card (`takes_back`), and a spawn is apart from every card
the dispatcher can see taken: what its pass planned on is off its own account, and the claims on disk
are read once more before it.

What it cannot see is a runner that a dispatcher before it started and that has not claimed yet. The
law (`cards_exclusive`) is of the runs in which no launch goes onto such a runner's card
(`launchesOntoArriving`); `two_runners_one_card` is a run in which one does.
-/

set_option autoImplicit false

namespace Gpuc.Host

open Gpuc.Basis

def RunnerStage.isStarted : RunnerStage → Bool
  | .started => true
  | _ => false

/-- The runner has not claimed, and its job is still queued at its attempt. -/
def Host.arriving (h : Host) (r : RunnerProcess) : Bool :=
  r.stage.isStarted && (h.jobs.get? r.jobId).any fun dir =>
    dir.state.status = .queued ∧ dir.state.attempt = r.attempt

/-- **The step is a launch that goes on**, its cards being on no claim, onto a card of a runner that
another dispatcher started for another job and that may still claim it. -/
def launchesOntoArriving (h : Host) (label : Label) : Bool :=
  match label, h.dispatcher with
  | .dispatcher (.acts _), some d =>
    match d.stage with
    | .loop (.launching (.launch jobId gpus _ :: _)) =>
      gpus.all (fun uuid => uuid ∉ claimedGpus h.jobs) && h.runners.any fun r =>
        h.arriving r && r.parent ≠ d.pid && r.jobId ≠ jobId &&
          gpus.any fun uuid => uuid ∈ r.assigned
    | _ => false
  | _, _ => false

/-- The job runs on the card. -/
def RunsOn (h : Host) (jobId : JobId) (card : Uuid) : Prop :=
  ∃ dir, h.jobs.get? jobId = some dir ∧ dir.state.status = .running ∧ card ∈ dir.state.gpus

instance (h : Host) (jobId : JobId) (card : Uuid) : Decidable (RunsOn h jobId card) :=
  decidable_of_iff ((h.jobs.get? jobId).any fun dir =>
    dir.state.status = .running ∧ card ∈ dir.state.gpus) (by
      simp [RunsOn, Option.any_eq_true])

/-- **The job has the card**: it runs on it, or a runner that was given it may claim the job. -/
def Takes (h : Host) (jobId : JobId) (card : Uuid) : Prop :=
  RunsOn h jobId card ∨
    ∃ r ∈ h.runners, h.arriving r = true ∧ r.jobId = jobId ∧ card ∈ r.assigned

section
variable {stamp : String → Option Seconds} {h h' : Host} {label : Label} {d d' : Dispatcher}

theorem arriving_iff {r : RunnerProcess} : h.arriving r = true ↔ r.stage = .started ∧
    ∃ dir, h.jobs.get? r.jobId = some dir ∧ dir.state.status = .queued ∧
      dir.state.attempt = r.attempt := by
  have hstage : r.stage.isStarted = true ↔ r.stage = .started := by
    cases r.stage <;> simp [RunnerStage.isStarted]
  unfold Host.arriving
  rw [Bool.and_eq_true, hstage]
  cases h.jobs.get? r.jobId <;> simp

theorem mem_claimedGpus {jobs : Jobs} {card : Uuid} :
    card ∈ claimedGpus jobs ↔ ∃ jobId dir, jobs.get? jobId = some dir ∧
      dir.state.status = .running ∧ card ∈ dir.state.gpus := by
  rw [claimedGpus, List.mem_flatMap]
  constructor
  · rintro ⟨dir, hdir, hcard⟩
    obtain ⟨jobId, hget⟩ := Dict.mem_values.mp hdir
    split at hcard
    · next hrunning => exact ⟨jobId, dir, hget, hrunning, hcard⟩
    · exact absurd hcard List.not_mem_nil
  · rintro ⟨jobId, dir, hget, hrunning, hcard⟩
    exact ⟨dir, Dict.mem_values.mpr ⟨jobId, hget⟩, by rw [if_pos hrunning]; exact hcard⟩

/-- A card a job runs on after a step it had before: it ran on it, or its runner claims it. -/
theorem runsOn_back (hlawful : h.Lawful) (hstep : h.step stamp label = some h') {jobId : JobId}
    {card : Uuid} (hruns : RunsOn h' jobId card) : Takes h jobId card := by
  obtain ⟨dir', hdir', hrunning, hcard⟩ := hruns
  cases step_arrives hlawful hstep hdir' with
  | kept dir _ hdir _ hshifts =>
    obtain ⟨hwas, hgpus, -⟩ := hshifts.running hrunning
    exact .inl ⟨dir, hdir, hwas, hgpus ▸ hcard⟩
  | accepted spec => cases hrunning
  | claimed r dir written hclaim hid =>
    obtain ⟨hqueued, hattempt, -, -, -, -, hgpus, -⟩ := hclaim.state
    exact .inr ⟨r, hclaim.isRunner,
      arriving_iff.mpr ⟨hclaim.isStarted, dir, hclaim.hasDir, hqueued, hattempt⟩, hid, hgpus ▸ hcard⟩

/-- A runner that may claim after a step might before: no attempt it could wait for comes again. -/
theorem arriving_back (hsound : Sound h) (hstep : h.step stamp label = some h')
    {r : RunnerProcess} (hr : r ∈ h.runners) {stage : RunnerStage}
    (hstage : stage = .started → r.stage = .started)
    (harriving : h'.arriving { r with stage := stage } = true) : h.arriving r = true := by
  obtain ⟨hstarted, dir', hdir', hqueued, hattempt⟩ := arriving_iff.mp harriving
  obtain ⟨known, hknown, hle⟩ := hsound.runners.known r hr
  refine arriving_iff.mpr ⟨hstage hstarted, ?_⟩
  cases step_arrives hsound.lawful hstep hdir' with
  | kept dir _ hdir _ hshifts =>
    obtain rfl := Option.some.inj (hdir.symm.trans hknown)
    rcases hshifts.queued hqueued with ⟨hwas, hsame⟩ | ⟨-, hnext⟩
    · exact ⟨dir, hdir, hwas, hsame ▸ hattempt⟩
    · have hlate : dir'.state.attempt = r.attempt := hattempt
      omega
  | accepted spec _ _ hnew => exact absurd (Dict.mem_keys.mpr ⟨known, hknown⟩) hnew
  | claimed r' dir written hclaim _ =>
    have hrunning : written.status = .running := hclaim.state.2.2.1
    rw [show written.status = .queued from hqueued] at hrunning
    cases hrunning

/-- **Nothing but a spawn gives a job a card.** -/
theorem takes_back (hsound : Sound h) (hstep : h.step stamp label = some h') {jobId : JobId}
    {card : Uuid} (htakes : Takes h' jobId card) :
    Takes h jobId card ∨ ∃ d starttime gpus attempt todo, h.dispatcher = some d ∧
      label = .dispatcher (.spawns starttime) ∧ d.stage = .spawning jobId gpus attempt todo ∧
      card ∈ gpus := by
  rcases htakes with hruns | ⟨r', hr', harriving, rfl, hcard⟩
  · exact .inl (runsOn_back hsound.lawful hstep hruns)
  · rcases step_runners hstep hr' with ⟨r, hr, stage, rfl, hstage⟩ | ⟨d, starttime, todo, hd, hlabel, hstage, -⟩
    · exact .inl (.inr ⟨r, hr, arriving_back hsound hstep hr hstage harriving, rfl, hcard⟩)
    · exact .inr ⟨d, starttime, r'.assigned, r'.attempt, todo, hd, hlabel, hstage, hcard⟩

/-- A dispatcher about to spawn has just read the claims. -/
theorem Turn.spawning {act : DispatcherAct} (hturn : Turn stamp h d act d') {jobId : JobId} {gpus : List Uuid} {attempt : Nat}
    {todo : List Act} (hstage : d'.stage = .spawning jobId gpus attempt todo) :
    (∃ now, act = .acts now) ∧ d.stage = .loop (.launching (.launch jobId gpus attempt :: todo)) ∧
      ∀ c ∈ gpus, c ∉ claimedGpus h.jobs := by
  cases hturn with
  | serves hserves =>
    have hplain := hserves.plain
    rw [hstage] at hplain
    cases hplain
  | @adopts _ _ stage _ _ hplain =>
    change stage = _ at hstage
    rw [hstage] at hplain
    cases hplain
  | plans _ _ _ _ _ _ hplain =>
    rw [hstage] at hplain
    cases hplain
  | rereads hact hwas hfree =>
    cases hstage
    exact ⟨⟨_, hact⟩, hwas, hfree⟩
  | @drainsOn stage _ hdrains =>
    change stage = _ at hstage
    rw [hstage] at hdrains
    cases hdrains
  | begins | lists | drains _ _ | takes _ _ => cases hstage

/-- **A launch that goes on is apart from every other job's cards**, unless one of its cards is under a
runner it cannot see. -/
theorem launch_apart (haccounts : Accounts h d) (hd : h.dispatcher = some d) {now : String}
    {jobId : JobId} {gpus : List Uuid} {attempt : Nat} {todo : List Act}
    (hstage : d.stage = .loop (.launching (.launch jobId gpus attempt :: todo)))
    (hfree : ∀ c ∈ gpus, c ∉ claimedGpus h.jobs)
    (hapart : launchesOntoArriving h (.dispatcher (.acts now)) = false) {other : JobId} {card : Uuid}
    (htakes : Takes h other card) (hcard : card ∈ gpus) : other = jobId := by
  rcases htakes with ⟨dir, hdir, hrunning, hon⟩ | ⟨r, hr, harriving, rfl, hassigned⟩
  · exact absurd (mem_claimedGpus.mpr ⟨other, dir, hdir, hrunning, hon⟩) (hfree card hcard)
  · by_contra hne
    by_cases hparent : r.parent = d.pid
    · obtain ⟨entry, hentry, -, hgpus⟩ := haccounts.own r hr hparent
      have hpending := haccounts.pendingFree (.launch jobId gpus attempt)
        (by rw [hstage]; exact List.mem_cons_self) entry (Dict.mem_values.mpr ⟨r.jobId, hentry⟩)
      exact hpending hcard (hgpus ▸ hassigned)
    · have hall : gpus.all (fun uuid => uuid ∉ claimedGpus h.jobs) = true := by
        simpa using hfree
      have hany : gpus.any (fun uuid => uuid ∈ r.assigned) = true := by
        simpa using ⟨card, hcard, hassigned⟩
      have honto : launchesOntoArriving h (.dispatcher (.acts now)) = true := by
        simp only [launchesOntoArriving, hd, hstage, hall, Bool.true_and]
        exact List.any_eq_true.mpr ⟨r, hr, by simp [harriving, hparent, hne, hany]⟩
      rw [honto] at hapart
      cases hapart

/-- **Every card is of one job**, also the cards of a runner about to be spawned. -/
structure Exclusive (h : Host) : Prop where
  sound : Sound h
  one : ∀ jobId other card, Takes h jobId card → Takes h other card → jobId = other
  spawning : ∀ d jobId gpus attempt todo, h.dispatcher = some d →
    d.stage = .spawning jobId gpus attempt todo →
    ∀ other card, Takes h other card → card ∈ gpus → other = jobId

theorem Exclusive.step (hexclusive : Exclusive h) (hapart : launchesOntoArriving h label = false)
    (hstep : h.step stamp label = some h') : Exclusive h' := by
  have hsound := hexclusive.sound
  refine ⟨hsound.step hstep, fun jobId other card hjob hother => ?_, ?_⟩
  · rcases takes_back hsound hstep hjob with hjob | ⟨d, _, gpus, _, _, hd, hlabel, hstage, hcard⟩
    · rcases takes_back hsound hstep hother with hother | ⟨d, _, _, _, _, hd, -, hstage, hcard⟩
      · exact hexclusive.one jobId other card hjob hother
      · exact hexclusive.spawning d other _ _ _ hd hstage jobId card hjob hcard
    · rcases takes_back hsound hstep hother with hother | ⟨d', _, _, _, _, hd', -, hstage', hcard'⟩
      · exact (hexclusive.spawning d jobId gpus _ _ hd hstage other card hother hcard).symm
      · obtain rfl := Option.some.inj (hd.symm.trans hd')
        rw [hstage] at hstage'
        cases hstage'
        rfl
  · intro d' jobId gpus attempt todo hd' hstage' other card hother hcard
    rcases step_dispatcher hstep hd' with ⟨d, act, hd, rfl, hact⟩ | ⟨hd, hnot⟩ | ⟨-, -, -, -, -, rfl⟩
    · by_cases hspawn : ∃ starttime, act = .spawns starttime
      · obtain ⟨starttime, rfl⟩ := hspawn
        obtain ⟨_, _, _, _, -, rfl⟩ := spawns_eq_some hact
        obtain rfl := Option.some.inj hd'
        cases hstage'
      · have hno : ∀ starttime, act ≠ .spawns starttime := fun starttime heq =>
          hspawn ⟨starttime, heq⟩
        obtain ⟨hquiet, hturns⟩ := Dispatcher.step_cases hno hact
        obtain ⟨⟨now, rfl⟩, hstage, hfree⟩ := (hturns d' hd').spawning hstage'
        have htakes : Takes h other card := by
          rcases takes_back hsound hstep hother with hother | ⟨_, starttime, _, _, _, _, hlabel, _⟩
          · exact hother
          · exact absurd (Label.dispatcher.inj hlabel) (hno starttime)
        exact launch_apart (hsound.accounts d hd) hd hstage hfree hapart htakes hcard
    · have htakes : Takes h other card := by
        rcases takes_back hsound hstep hother with hother | ⟨_, starttime, _, _, _, _, hlabel, _⟩
        · exact hother
        · exact absurd hlabel (hnot _)
      exact hexclusive.spawning d' jobId gpus attempt todo hd hstage' other card htakes hcard
    · cases hstage'

end

theorem Exclusive.fresh (boot : Boot) : Exclusive (.fresh boot) where
  sound := .fresh boot
  one jobId other card hjob _ := by
    rcases hjob with ⟨_, hdir, _⟩ | ⟨_, hr, _⟩
    · cases hdir
    · exact absurd hr List.not_mem_nil
  spawning _ _ _ _ _ hd := nomatch hd

/-- **No card is held by two jobs**, in a run of which no launch goes onto the card of a runner that
another dispatcher started and that may still claim another job. -/
theorem cards_exclusive (stamp : String → Option Seconds) {boot : Boot} {labels : List Label}
    {h : Host} (hrun : (Host.machine stamp).run (.fresh boot) labels = some h)
    (hapart : ∀ p ∈ (Host.machine stamp).trace (.fresh boot) labels,
      launchesOntoArriving p.1 p.2 = false)
    {jobId other : JobId} {card : Uuid} (hjob : RunsOn h jobId card) (hother : RunsOn h other card) :
    jobId = other := by
  have hexclusive : Exclusive h :=
    Machine.run_invariant_of (C := fun h label => launchesOntoArriving h label = false)
      (fun _ _ _ hexclusive hapart hstep => hexclusive.step hapart hstep) (.fresh boot) hapart hrun
  exact hexclusive.one jobId other card (.inl hjob) (.inl hother)

/-! ## Two runs with a takeover -/

/-- One pass on a host of these cards, up to its launches. -/
def passTo (cards : List Gpu) : List Label :=
  [.dispatcher (.begins {} (some cards)), .dispatcher .reaps, .dispatcher (.plans [] 0)]

/-- The next launch of a pass. -/
def launchNext : List Label := [.dispatcher (.acts "10:00"), .dispatcher (.spawns none)]

/-- A dispatcher starts a runner for `a` on the host's first card, is killed before the runner claims,
and the next one finds `a` queued. -/
def takeover (cards : List Gpu) : List Label :=
  [.enqueue { jobId := "a" }, .starts, .dispatcher .adopts, .dispatcher .adopts] ++ passTo cards ++
    launchNext ++ [.killed, .starts, .dispatcher .adopts, .dispatcher .adopts]

/-- Then `b` comes, ahead of `a` in the queue, and is given the host's one card; both runners claim. -/
def lateRunner : List Label :=
  takeover [⟨some 0, "GPU-0"⟩] ++ [.enqueue { jobId := "b", priority := 10 }] ++
    passTo [⟨some 0, "GPU-0"⟩] ++ launchNext ++
    [.runner 2 (.claims "none" "10:01"), .runner 4 (.claims "none" "10:02")]

/-- **Two jobs run on one card.** -/
theorem two_runners_one_card :
    ∃ h, (Host.machine fun _ => none).run (.fresh ⟨some "boot", some "1"⟩) lateRunner = some h ∧
      RunsOn h "a" "GPU-0" ∧ RunsOn h "b" "GPU-0" := by
  have hboth : ((Host.machine fun _ => none).run (.fresh ⟨some "boot", some "1"⟩) lateRunner).any
      (fun h => decide (RunsOn h "a" "GPU-0" ∧ RunsOn h "b" "GPU-0")) = true := by decide +kernel
  obtain ⟨h, hrun, hruns⟩ := (Option.any_eq_true _ _).mp hboth
  exact ⟨h, hrun, of_decide_eq_true hruns⟩

/-- On a host of two cards the second dispatcher gives `a` its first runner's card once more and `b` the
other one; the first runner claims `a`, and the second finds it taken. -/
def lateRunnerApart : List Label :=
  takeover [⟨some 0, "GPU-0"⟩, ⟨some 1, "GPU-1"⟩] ++ [.enqueue { jobId := "b" }] ++
    passTo [⟨some 0, "GPU-0"⟩, ⟨some 1, "GPU-1"⟩] ++ launchNext ++ launchNext ++
    [.runner 2 (.claims "none" "10:01"), .runner 4 (.claims "none" "10:02"),
      .runner 5 (.claims "none" "10:03")]

theorem cards_exclusive_lateRunnerApart :
    ∃ h, (Host.machine fun _ => none).run (.fresh ⟨some "boot", some "1"⟩) lateRunnerApart = some h ∧
      RunsOn h "a" "GPU-0" ∧ RunsOn h "b" "GPU-1" ∧ ¬ RunsOn h "b" "GPU-0" := by
  have hboth : ((Host.machine fun _ => none).run (.fresh ⟨some "boot", some "1"⟩)
      lateRunnerApart).any
        (fun h => decide (RunsOn h "a" "GPU-0" ∧ RunsOn h "b" "GPU-1")) = true := by decide +kernel
  have hapart : ((Host.machine fun _ => none).trace (.fresh ⟨some "boot", some "1"⟩)
      lateRunnerApart).all (fun p => launchesOntoArriving p.1 p.2 = false) = true := by
    decide +kernel
  obtain ⟨h, hrun, hruns⟩ := (Option.any_eq_true _ _).mp hboth
  obtain ⟨ha, hb⟩ := of_decide_eq_true hruns
  refine ⟨h, hrun, ha, hb, fun hother => ?_⟩
  have hsame := cards_exclusive (fun _ => none) hrun
    (fun p hp => of_decide_eq_true (List.all_eq_true.mp hapart p hp)) ha hother
  exact absurd hsame (by decide)

end Gpuc.Host
