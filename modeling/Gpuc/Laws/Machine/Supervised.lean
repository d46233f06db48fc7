import Gpuc.Laws.Machine.Cards

/-!
# Every running job is supervised

A dispatcher notices the death of a runner, and escalates a stop of it, for the jobs in `running` alone.
Between two of its reads a running job may be on its way there: among the ids still to be adopted, taken
out by the reap and not yet settled, about to be ended, or queued when the pass listed it and about to be
given a runner of its own (`Stage.minds`).

The law (`supervised`): in every run none of whose steps loses sight of a job (`losesSight`), each running
job is in `running` whenever a pass is over. Only a runner that another dispatcher started can be lost
sight of, and by one of four steps: its claim of a job the pass is past, and what becomes of a job it
claimed after the listing, when the plan does not launch it, the launch finds its cards claimed, or its
runner cannot be spawned (`unsupervised_after_takeover`).
-/

set_option autoImplicit false

namespace Gpuc.Host

open Gpuc.Basis

/-! ## What a dispatcher minds -/

/-- The act starts a runner for the job. -/
def Act.launches (jobId : JobId) : Act → Bool
  | .launch j _ _ => j = jobId
  | .fail .. => false

/-- What is left of the loop comes to the job. -/
def Loop.minds (queued : List QueueEntry) (jobId : JobId) : Loop → Prop
  | .adopting todo => jobId ∈ todo
  | .dropping _ .launches => jobId ∈ queued.map QueueEntry.jobId
  | .launching todo => todo.any (Act.launches jobId) = true
  | .reaping _ | .dropping _ .preempts | .preempting _ => False

/-- The pass comes to a job that runs, its runner being from another boot or not. -/
def Stage.minds (queued : List QueueEntry) (jobId : JobId) (otherBoot : Bool) : Stage → Prop
  | .loop l => l.minds queued jobId
  | .requeueing j todo => (j = jobId ∧ otherBoot = true) ∨ jobId ∈ todo
  | .settling j _ _ => j = jobId
  | .ending j _ expect _ l => (j = jobId ∧ expect = .running) ∨ l.minds queued jobId
  | .spawning j _ _ todo => j = jobId ∨ todo.any (Act.launches jobId) = true
  | .idle | .checking | .marking | .retrying | .mirroring | .terminating => False

/-- **The dispatcher has the job in sight**: it is in `running`, or the pass comes to it. -/
def Dispatcher.minds (d : Dispatcher) (jobId : JobId) (otherBoot : Bool) : Prop :=
  jobId ∈ d.running.keys ∨ d.stage.minds d.queued jobId otherBoot

instance (queued : List QueueEntry) (jobId : JobId) (l : Loop) : Decidable (l.minds queued jobId) :=
  match l with
  | .adopting todo => inferInstanceAs (Decidable (jobId ∈ todo))
  | .dropping _ .launches => inferInstanceAs (Decidable (jobId ∈ queued.map QueueEntry.jobId))
  | .launching todo => inferInstanceAs (Decidable (todo.any (Act.launches jobId) = true))
  | .reaping _ | .dropping _ .preempts | .preempting _ => inferInstanceAs (Decidable False)

instance (queued : List QueueEntry) (jobId : JobId) (otherBoot : Bool) (stage : Stage) :
    Decidable (stage.minds queued jobId otherBoot) :=
  match stage with
  | .loop l => inferInstanceAs (Decidable (l.minds queued jobId))
  | .requeueing j todo => inferInstanceAs (Decidable ((j = jobId ∧ otherBoot = true) ∨ jobId ∈ todo))
  | .settling j _ _ => inferInstanceAs (Decidable (j = jobId))
  | .ending j _ expect _ l =>
    inferInstanceAs (Decidable ((j = jobId ∧ expect = .running) ∨ l.minds queued jobId))
  | .spawning j _ _ todo =>
    inferInstanceAs (Decidable (j = jobId ∨ todo.any (Act.launches jobId) = true))
  | .idle | .checking | .marking | .retrying | .mirroring | .terminating =>
    inferInstanceAs (Decidable False)

instance (d : Dispatcher) (jobId : JobId) (otherBoot : Bool) : Decidable (d.minds jobId otherBoot) :=
  inferInstanceAs (Decidable (_ ∨ _))

/-- The disk has the job as running. -/
def runsNow (jobs : Jobs) (jobId : JobId) : Bool :=
  (jobs.get? jobId).any fun dir => dir.state.status = .running

/-- **The step loses sight of a job.** A runner that another dispatcher started claims a job this one does
not have in sight; or a job such a runner has claimed is not launched by the plan, is not for a card of
its launch being claimed, or has no runner spawned for it. -/
def losesSight (stamp : String → Option Seconds) (h : Host) (label : Label) : Bool :=
  match label, h.dispatcher with
  | .runner pid (.claims _ _), some d =>
    h.runners.any fun r => r.who.pid = pid && r.parent ≠ d.pid && h.arriving r &&
      !decide (d.minds r.jobId (fromAnotherBoot h.boot r.who.bootId r.who.initStart))
  | .dispatcher (.plans inUse now), some d =>
    match d.stage with
    | .loop (.dropping [] .launches) =>
      (d.queued.map QueueEntry.jobId).any fun jobId =>
        runsNow h.jobs jobId && !decide (jobId ∈ d.running.keys) &&
          !(d.launchReady stamp h.jobs inUse now).any (Act.launches jobId)
    | _ => false
  | .dispatcher (.acts _), some d =>
    match d.stage with
    | .loop (.launching (.launch jobId gpus _ :: _)) =>
      runsNow h.jobs jobId && gpus.any fun uuid => uuid ∈ claimedGpus h.jobs
    | _ => false
  | .dispatcher .cannotSpawn, some d =>
    match d.stage with
    | .spawning jobId _ _ _ => runsNow h.jobs jobId
    | _ => false
  | _, _ => false

/-- Every running job is in sight. -/
def Watched (h : Host) (d : Dispatcher) : Prop :=
  ∀ jobId dir, h.jobs.get? jobId = some dir → dir.state.status = .running →
    d.minds jobId (fromAnotherBoot h.boot dir.state.runnerBootId dir.state.runnerInitStart)

section
variable {stamp : String → Option Seconds} {h h' : Host} {label : Label} {d d' : Dispatcher}
  {jobId : JobId} {otherBoot : Bool}

theorem runsNow_of {dir : JobDir} (hdir : h.jobs.get? jobId = some dir)
    (hrunning : dir.state.status = .running) : runsNow h.jobs jobId = true := by
  simp [runsNow, hdir, hrunning]

/-! ## One turn of the dispatcher -/

/-- **A step that starts no runner keeps the watch** if it keeps each job that runs on in sight. -/
theorem Watched.turn (hwatched : Watched h d) (hquiet : Quiet h h')
    (hminds : ∀ jobId dir dir', h.jobs.get? jobId = some dir → dir.state.status = .running →
      h'.jobs.get? jobId = some dir' → dir'.state.status = .running →
        d.minds jobId (fromAnotherBoot h.boot dir.state.runnerBootId dir.state.runnerInitStart) →
          d'.minds jobId (fromAnotherBoot h.boot dir.state.runnerBootId dir.state.runnerInitStart)) :
    Watched h' d' := by
  intro jobId dir' hdir' hrunning'
  obtain ⟨dir, hdir, -, hshifts⟩ := hquiet.keeps.back jobId dir' hdir'
  obtain ⟨hrunning, -, -, hboot, hinit⟩ := hshifts.running hrunning'
  rw [hquiet.boot, hboot, hinit]
  exact hminds jobId dir dir' hdir hrunning hdir' hrunning' (hwatched jobId dir hdir hrunning)

/-- A stage that comes to nothing leaves what is in `running`. -/
theorem minds_key (hstage : ¬ d.stage.minds d.queued jobId otherBoot) (hminds : d.minds jobId otherBoot) :
    jobId ∈ d.running.keys :=
  hminds.resolve_right hstage

/-- A turn that writes no job. -/
theorem goes_eq {d₁ : Dispatcher} (hstep : some (h.goes d₁) = some h') (hd' : h'.dispatcher = some d') :
    d' = d₁ := by
  obtain rfl := Option.some.inj hstep
  exact (Option.some.inj hd').symm

theorem adopts_minds (hstep : d.adopts h = some h') (hd' : h'.dispatcher = some d') {dir : JobDir}
    (hdir : h.jobs.get? jobId = some dir) (hrunning : dir.state.status = .running)
    (hminds : d.minds jobId (fromAnotherBoot h.boot dir.state.runnerBootId dir.state.runnerInitStart)) :
    d'.minds jobId (fromAnotherBoot h.boot dir.state.runnerBootId dir.state.runnerInitStart) := by
  unfold Dispatcher.adopts at hstep
  split at hstep
  · next hstage =>
    have hkey := minds_key (by simp [hstage, Stage.minds, Loop.minds]) hminds
    obtain rfl := goes_eq hstep hd'
    exact .inl hkey
  · next j todo hstage =>
    -- it has the job at hand, or comes to it later, or has it already
    have hwhere : jobId ∈ d.running.keys ∨ j = jobId ∨ jobId ∈ todo := by
      rcases hminds with hkey | hmem
      · exact .inl hkey
      · rw [hstage] at hmem
        exact .inr ((List.mem_cons.mp hmem).imp_left Eq.symm)
    split at hstep
    · next hnone =>
      obtain rfl := goes_eq hstep hd'
      rcases hwhere with hkey | rfl | hmem
      · exact .inl hkey
      · rw [hdir] at hnone
        cases hnone
      · exact .inr hmem
    · next spec state hsome =>
      split_ifs at hstep with hskip hboot halive
      · obtain rfl := goes_eq hstep hd'
        rcases hwhere with hkey | rfl | hmem
        · exact .inl hkey
        · obtain rfl := Option.some.inj (hdir.symm.trans hsome)
          exact .inl (hskip.resolve_left fun hnot => hnot hrunning)
        · exact .inr hmem
      · obtain rfl := goes_eq hstep hd'
        rcases hwhere with hkey | rfl | hmem
        · exact .inl hkey
        · obtain rfl := Option.some.inj (hdir.symm.trans hsome)
          exact .inr (.inl ⟨rfl, hboot⟩)
        · exact .inr (.inr hmem)
      · obtain rfl := goes_eq hstep hd'
        rcases hwhere with hkey | rfl | hmem
        · exact .inl (Dict.mem_keys_set.mpr (.inr hkey))
        · exact .inl (Dict.mem_keys_set.mpr (.inl rfl))
        · exact .inr hmem
      · obtain rfl := goes_eq hstep hd'
        rcases hwhere with hkey | rfl | hmem
        · exact .inl hkey
        · exact .inr (.inl ⟨rfl, rfl⟩)
        · exact .inr (.inr hmem)
  · cases hstep

/-- A job from another boot that runs is queued again or ended. -/
theorem requeueAfterRestart_runs {state : JobState} {boot : Boot} (hrunning : state.status = .running)
    (hboot : fromAnotherBoot boot state.runnerBootId state.runnerInitStart = true) :
    (∃ written, requeueAfterRestart state boot = .again written ∧ written.status = .queued) ∨
      ∃ outcome, requeueAfterRestart state boot = .ends outcome := by
  unfold requeueAfterRestart
  rw [if_neg (by simp [hrunning, hboot])]
  split_ifs
  · exact .inl ⟨_, rfl, rfl⟩
  · exact .inl ⟨_, rfl, rfl⟩
  · exact .inr ⟨_, rfl⟩
  · exact .inr ⟨_, rfl⟩

theorem requeues_minds (hstep : d.requeues h = some h') (hd' : h'.dispatcher = some d')
    {dir dir' : JobDir} (hdir : h.jobs.get? jobId = some dir) (hrunning : dir.state.status = .running)
    (hdir' : h'.jobs.get? jobId = some dir') (hrunning' : dir'.state.status = .running)
    (hminds : d.minds jobId (fromAnotherBoot h.boot dir.state.runnerBootId dir.state.runnerInitStart)) :
    d'.minds jobId (fromAnotherBoot h.boot dir.state.runnerBootId dir.state.runnerInitStart) := by
  unfold Dispatcher.requeues at hstep
  split at hstep
  · next j todo hstage =>
    have hwhere : jobId ∈ d.running.keys ∨ (j = jobId ∧
        fromAnotherBoot h.boot dir.state.runnerBootId dir.state.runnerInitStart = true) ∨
          jobId ∈ todo := by
      rcases hminds with hkey | hmem
      · exact .inl hkey
      · rw [hstage] at hmem
        exact .inr hmem
    split at hstep
    · next hnone =>
      obtain rfl := goes_eq hstep hd'
      rcases hwhere with hkey | ⟨rfl, -⟩ | hmem
      · exact .inl hkey
      · rw [hdir] at hnone
        cases hnone
      · exact .inr hmem
    · next found hsome =>
      split at hstep
      · next hleaves =>
        obtain rfl := goes_eq hstep hd'
        rcases hwhere with hkey | ⟨rfl, hboot⟩ | hmem
        · exact .inl hkey
        · obtain rfl := Option.some.inj (hdir.symm.trans hsome)
          rcases requeueAfterRestart_runs hrunning hboot with ⟨_, hagain, -⟩ | ⟨_, hends⟩
          · rw [hleaves] at hagain
            cases hagain
          · rw [hleaves] at hends
            cases hends
        · exact .inr hmem
      · next written hagain =>
        obtain rfl := Option.some.inj hstep
        obtain rfl := Option.some.inj hd'
        rcases hwhere with hkey | ⟨rfl, hboot⟩ | hmem
        · exact .inl hkey
        · obtain rfl := Option.some.inj (hdir.symm.trans hsome)
          rcases requeueAfterRestart_runs hrunning hboot with ⟨_, hagain', hqueued⟩ | ⟨_, hends⟩
          · obtain rfl := Requeue.again.inj (hagain.symm.trans hagain')
            simp only [Host.goes, Host.write, Dict.get?_set, if_true, Option.some.injEq] at hdir'
            rw [← hdir', hqueued] at hrunning'
            cases hrunning'
          · rw [hagain] at hends
            cases hends
        · exact .inr hmem
      · obtain rfl := goes_eq hstep hd'
        rcases hwhere with hkey | ⟨rfl, -⟩ | hmem
        · exact .inl hkey
        · exact .inr (.inl ⟨rfl, rfl⟩)
        · exact .inr (.inr hmem)
  · cases hstep

theorem reaps_minds (hstep : d.reaps h = some h') (hd' : h'.dispatcher = some d')
    (hminds : d.minds jobId otherBoot) : d'.minds jobId otherBoot := by
  unfold Dispatcher.reaps at hstep
  split at hstep
  · next hstage =>
    have hkey := minds_key (by simp [hstage, Stage.minds, Loop.minds]) hminds
    split at hstep
    · obtain rfl := goes_eq hstep hd'
      exact .inl hkey
    · obtain rfl := goes_eq hstep hd'
      exact .inl hkey
  · next j todo hstage =>
    have hkey := minds_key (by simp [hstage, Stage.minds, Loop.minds]) hminds
    split at hstep
    · obtain rfl := goes_eq hstep hd'
      exact .inl hkey
    · split at hstep
      · obtain rfl := goes_eq hstep hd'
        exact .inl hkey
      · obtain rfl := goes_eq hstep hd'
        by_cases hsame : j = jobId
        · exact .inr hsame
        · exact .inl (Dict.mem_keys_erase.mpr ⟨Ne.symm hsame, hkey⟩)
  · cases hstep

theorem settles_minds (hstep : d.settles h = some h') (hd' : h'.dispatcher = some d') {dir : JobDir}
    (hdir : h.jobs.get? jobId = some dir) (hrunning : dir.state.status = .running)
    (hminds : d.minds jobId otherBoot) : d'.minds jobId otherBoot := by
  unfold Dispatcher.settles at hstep
  split at hstep
  · next j entry todo hstage =>
    have hwhere : jobId ∈ d.running.keys ∨ j = jobId := by
      rcases hminds with hkey | hmem
      · exact .inl hkey
      · rw [hstage] at hmem
        exact .inr hmem
    split at hstep
    · next hnone =>
      obtain rfl := goes_eq hstep hd'
      rcases hwhere with hkey | rfl
      · exact .inl hkey
      · rw [hdir] at hnone
        cases hnone
    · next spec state hsome =>
      have hstill : j = jobId → state.status = .running := by
        rintro rfl
        obtain rfl := Option.some.inj (hdir.symm.trans hsome)
        exact hrunning
      split_ifs at hstep with hdone hqueued hlater hother
      · obtain rfl := goes_eq hstep hd'
        refine .inl (hwhere.resolve_right fun hsame => ?_)
        rw [JobState.finished, hstill hsame] at hdone
        cases hdone
      · obtain rfl := goes_eq hstep hd'
        refine .inl (hwhere.resolve_right fun hsame => ?_)
        rw [hstill hsame] at hqueued
        cases hqueued
      · obtain rfl := goes_eq hstep hd'
        refine .inl (hwhere.resolve_right fun hsame => ?_)
        rw [hstill hsame] at hqueued
        cases hqueued
      · obtain rfl := goes_eq hstep hd'
        exact .inl (Dict.mem_keys_set.mpr (hwhere.symm.imp_left Eq.symm))
      · obtain rfl := goes_eq hstep hd'
        rcases hwhere with hkey | hsame
        · exact .inl hkey
        · exact .inr (.inl ⟨hsame, rfl⟩)
  · cases hstep

/-- A `finish` of a job that is running leaves the others in sight, and the job too if it runs on. -/
theorem failIn_minds {j : JobId} {outcome : Outcome} {expect : Expect} {forget : Bool} {now : String}
    {next : Loop} {dir dir' : JobDir} (hdir : h.jobs.get? jobId = some dir)
    (hrunning : dir.state.status = .running)
    (hdir' : (d.failIn h j outcome expect forget now next).jobs.get? jobId = some dir')
    (hrunning' : dir'.state.status = .running)
    (hd' : (d.failIn h j outcome expect forget now next).dispatcher = some d')
    (hminds : jobId ∈ d.running.keys ∨ (j = jobId ∧ expect = .running) ∨ next.minds d.queued jobId) :
    d'.minds jobId otherBoot := by
  -- a `finish` that is written ends the job
  have hlost : j = jobId → finish dir.state outcome now expect.status forget = none := by
    rintro rfl
    cases hfinish : finish dir.state outcome now expect.status forget with
    | none => rfl
    | some written =>
      have hwritten : written.status = .running := by
        simp only [Dispatcher.failIn, Host.goes, Host.change, hdir, hfinish, Host.write, Dict.get?_set,
          if_true, Option.some.injEq] at hdir'
        rw [← hdir'] at hrunning'
        exact hrunning'
      obtain ⟨-, hended, -⟩ := finish_eq_some (fun f hf => absurd hf List.not_mem_nil) hfinish
      have hdone := outcome.isFinished
      rw [← hended, hwritten] at hdone
      cases hdone
  have hnext : jobId ∈ d.running.keys ∨ next.minds d.queued jobId := by
    rcases hminds with hkey | ⟨hsame, rfl⟩ | hnext
    · exact .inl hkey
    · have hnone := hlost hsame
      rw [finish, if_neg (by simp [hrunning, Expect.status])] at hnone
      cases hnone
    · exact .inr hnext
  obtain rfl := Option.some.inj hd'
  split
  · next hwritten =>
    have hne : j ≠ jobId := by
      rintro rfl
      simp [hdir, hlost rfl] at hwritten
    refine hnext.imp_right fun hloop => ?_
    cases next with
    | dropping todo walk =>
      cases walk with
      | launches =>
        obtain ⟨entry, hentry, hid⟩ := List.mem_map.mp hloop
        refine List.mem_map.mpr ⟨entry, List.mem_filter.mpr ⟨hentry, ?_⟩, hid⟩
        rw [hid]
        simpa using Ne.symm hne
      | preempts => exact hloop
    | adopting _ | reaping _ | launching _ | preempting _ => exact hloop
  · exact hnext

theorem plans_minds {inUse : List Uuid} {now : Seconds} (hd : h.dispatcher = some d)
    (hsafe : losesSight stamp h (.dispatcher (.plans inUse now)) = false)
    (hstep : d.plans stamp h inUse now = some h') (hd' : h'.dispatcher = some d') {dir : JobDir}
    (hdir : h.jobs.get? jobId = some dir) (hrunning : dir.state.status = .running)
    (hminds : d.minds jobId otherBoot) : d'.minds jobId otherBoot := by
  unfold Dispatcher.plans at hstep
  split at hstep
  · next hstage =>
    obtain rfl := goes_eq hstep hd'
    rcases hminds with hkey | hlisted
    · exact .inl hkey
    · rw [hstage] at hlisted
      by_cases hkey : jobId ∈ d.running.keys
      · exact .inl hkey
      · simp only [losesSight, hd, hstage, List.any_eq_false] at hsafe
        have hlaunched := hsafe jobId hlisted
        rw [runsNow_of hdir hrunning] at hlaunched
        exact .inr (by simpa [hkey, Stage.minds, Loop.minds] using hlaunched)
  · next hstage =>
    have hkey := minds_key (by simp [hstage, Stage.minds, Loop.minds]) hminds
    obtain rfl := goes_eq hstep hd'
    exact .inl hkey
  · cases hstep

theorem acts_minds {now : String} (hd : h.dispatcher = some d)
    (hsafe : losesSight stamp h (.dispatcher (.acts now)) = false)
    (hstep : d.acts stamp h now = some h') (hd' : h'.dispatcher = some d') {dir dir' : JobDir}
    (hdir : h.jobs.get? jobId = some dir) (hrunning : dir.state.status = .running)
    (hdir' : h'.jobs.get? jobId = some dir') (hrunning' : dir'.state.status = .running)
    (hminds : d.minds jobId otherBoot) : d'.minds jobId otherBoot := by
  unfold Dispatcher.acts at hstep
  split at hstep
  · next hstage =>
    have hkey := minds_key (by simp [hstage, Stage.minds, Loop.minds]) hminds
    split at hstep
    · obtain rfl := goes_eq hstep hd'
      exact .inl hkey
    · obtain rfl := goes_eq hstep hd'
      exact .inl hkey
  · next j reason todo hstage =>
    obtain rfl := Option.some.inj hstep
    refine failIn_minds hdir hrunning hdir' hrunning' hd' ?_
    rcases hminds with hkey | hmem
    · exact .inl hkey
    · rw [hstage] at hmem
      exact .inr (.inr (by simpa [Stage.minds, Loop.minds, Act.launches] using hmem))
  · next j gpus attempt todo hstage =>
    have hwhere : jobId ∈ d.running.keys ∨ j = jobId ∨ todo.any (Act.launches jobId) = true := by
      rcases hminds with hkey | hmem
      · exact .inl hkey
      · rw [hstage] at hmem
        exact .inr (by simpa [Stage.minds, Loop.minds, Act.launches] using hmem)
    split at hstep
    · next hclaimed =>
      obtain rfl := goes_eq hstep hd'
      rcases hwhere with hkey | rfl | htodo
      · exact .inl hkey
      · have hany : gpus.any (fun uuid => uuid ∈ claimedGpus h.jobs) = true := by simpa using hclaimed
        simp [losesSight, hd, hstage, runsNow_of hdir hrunning, hany] at hsafe
      · exact .inr htodo
    · obtain rfl := goes_eq hstep hd'
      exact hwhere
  · cases hstep

theorem cannotSpawn_minds (hd : h.dispatcher = some d)
    (hsafe : losesSight stamp h (.dispatcher .cannotSpawn) = false)
    (hstep : d.cannotSpawn h = some h') (hd' : h'.dispatcher = some d') {dir : JobDir}
    (hdir : h.jobs.get? jobId = some dir) (hrunning : dir.state.status = .running)
    (hminds : d.minds jobId otherBoot) : d'.minds jobId otherBoot := by
  unfold Dispatcher.cannotSpawn at hstep
  split at hstep
  · next j gpus attempt todo hstage =>
    obtain rfl := goes_eq hstep hd'
    rcases hminds with hkey | hmem
    · exact .inl hkey
    · rw [hstage] at hmem
      rcases hmem with rfl | htodo
      · simp [losesSight, hd, hstage, runsNow_of hdir hrunning] at hsafe
      · exact .inr (.inr htodo)
  · cases hstep

theorem preempts_minds (hstep : d.preempts h = some h') (hd' : h'.dispatcher = some d')
    (hminds : d.minds jobId otherBoot) : d'.minds jobId otherBoot := by
  unfold Dispatcher.preempts at hstep
  split at hstep
  · next hstage =>
    have hkey := minds_key (by simp [hstage, Stage.minds, Loop.minds]) hminds
    obtain rfl := goes_eq hstep hd'
    exact .inl hkey
  · next hstage =>
    have hkey := minds_key (by simp [hstage, Stage.minds, Loop.minds]) hminds
    split at hstep
    · obtain rfl := goes_eq hstep hd'
      exact .inl hkey
    · split at hstep
      · obtain rfl := goes_eq hstep hd'
        exact .inl hkey
      · obtain rfl := Option.some.inj hstep
        obtain rfl := Option.some.inj hd'
        exact .inl hkey
  · cases hstep

theorem checks_minds {now : Seconds} (hstep : d.checks h now = some h') (hd' : h'.dispatcher = some d')
    (hminds : d.minds jobId otherBoot) : d'.minds jobId otherBoot := by
  unfold Dispatcher.checks at hstep
  split at hstep
  · next hstage =>
    have hkey := minds_key (by simp [hstage, Stage.minds]) hminds
    split_ifs at hstep
    · obtain rfl := goes_eq hstep hd'
      exact .inl hkey
    · obtain rfl := goes_eq hstep hd'
      exact .inl hkey
    · obtain rfl := goes_eq hstep hd'
      exact .inl hkey
  · cases hstep

/-- **Every turn but a spawn keeps what is in sight**, in a run that loses sight of nothing. -/
theorem step_minds {act : DispatcherAct} (hd : h.dispatcher = some d)
    (hsafe : losesSight stamp h (.dispatcher act) = false)
    (hspawn : ∀ starttime, act ≠ .spawns starttime) (hstep : d.step stamp h act = some h')
    (hd' : h'.dispatcher = some d') {dir dir' : JobDir} (hdir : h.jobs.get? jobId = some dir)
    (hrunning : dir.state.status = .running) (hdir' : h'.jobs.get? jobId = some dir')
    (hrunning' : dir'.state.status = .running)
    (hminds : d.minds jobId (fromAnotherBoot h.boot dir.state.runnerBootId dir.state.runnerInitStart)) :
    d'.minds jobId (fromAnotherBoot h.boot dir.state.runnerBootId dir.state.runnerInitStart) := by
  cases act with
  | spawns starttime => exact absurd rfl (hspawn starttime)
  | adopts => exact adopts_minds hstep hd' hdir hrunning hminds
  | requeues => exact requeues_minds hstep hd' hdir hrunning hdir' hrunning' hminds
  | reaps => exact reaps_minds hstep hd' hminds
  | settles => exact settles_minds hstep hd' hdir hrunning hminds
  | plans inUse now => exact plans_minds hd hsafe hstep hd' hdir hrunning hminds
  | acts now => exact acts_minds hd hsafe hstep hd' hdir hrunning hdir' hrunning' hminds
  | cannotSpawn => exact cannotSpawn_minds hd hsafe hstep hd' hdir hrunning hminds
  | preempts => exact preempts_minds hstep hd' hminds
  | checks now => exact checks_minds hstep hd' hminds
  | finishes now =>
    change d.finishes h now = some h' at hstep
    unfold Dispatcher.finishes at hstep
    split at hstep
    · next hstage =>
      obtain rfl := Option.some.inj hstep
      refine failIn_minds hdir hrunning hdir' hrunning' hd' (hminds.imp_right fun hmem => ?_)
      rw [hstage] at hmem
      exact hmem
    · cases hstep
  | drops now =>
    change d.drops h now = some h' at hstep
    unfold Dispatcher.drops at hstep
    split at hstep
    · next j todo walk hstage =>
      obtain rfl := Option.some.inj hstep
      refine failIn_minds hdir hrunning hdir' hrunning' hd' (hminds.imp_right fun hmem => .inr ?_)
      rw [hstage] at hmem
      cases walk <;> exact hmem
    · cases hstep
  | begins config table =>
    change d.begins h config table = some h' at hstep
    unfold Dispatcher.begins at hstep
    split at hstep
    · next hstage =>
      have hkey := minds_key (by simp [hstage, Stage.minds]) hminds
      obtain rfl := goes_eq hstep hd'
      exact .inl hkey
    · cases hstep
  | marks =>
    change d.marks h = some h' at hstep
    unfold Dispatcher.marks at hstep
    split at hstep
    · next hstage =>
      have hkey := minds_key (by simp [hstage, Stage.minds]) hminds
      obtain rfl := Option.some.inj hstep
      obtain rfl := Option.some.inj hd'
      exact .inl hkey
    · cases hstep
  | retries =>
    change d.retries h = some h' at hstep
    unfold Dispatcher.retries at hstep
    split at hstep
    · next hstage =>
      have hkey := minds_key (by simp [hstage, Stage.minds]) hminds
      obtain rfl := goes_eq hstep hd'
      exact .inl hkey
    · cases hstep
  | mirrors =>
    change d.mirrors h = some h' at hstep
    unfold Dispatcher.mirrors at hstep
    split at hstep
    · next hstage =>
      have hkey := minds_key (by simp [hstage, Stage.minds]) hminds
      obtain rfl := goes_eq hstep hd'
      exact .inl hkey
    · cases hstep
  | terminates succeeds now =>
    change d.terminates h succeeds now = some h' at hstep
    unfold Dispatcher.terminates at hstep
    split at hstep
    · next hstage =>
      have hkey := minds_key (by simp [hstage, Stage.minds]) hminds
      split at hstep
      · obtain rfl := Option.some.inj hstep
        cases hd'
      · obtain rfl := Option.some.inj hstep
        obtain rfl := Option.some.inj hd'
        exact .inl hkey
    · cases hstep

/-- A spawn puts its job in `running`. -/
theorem Watched.spawns (hwatched : Watched h d) {starttime : Option String}
    (hstep : d.spawns h starttime = some h') (hd' : h'.dispatcher = some d') : Watched h' d' := by
  obtain ⟨j, gpus, attempt, todo, hstage, rfl⟩ := spawns_eq_some hstep
  obtain rfl := Option.some.inj hd'
  intro jobId dir hdir hrunning
  rcases hwatched jobId dir hdir hrunning with hkey | hmem
  · exact .inl (Dict.mem_keys_set.mpr (.inr hkey))
  · rw [hstage] at hmem
    rcases hmem with rfl | htodo
    · exact .inl (Dict.mem_keys_set.mpr (.inl rfl))
    · exact .inr htodo

/-! ## Along a run -/

/-- The boot changes with a reboot alone. -/
theorem step_boot (hstep : h.step stamp label = some h') :
    h'.boot = h.boot ∨ h'.dispatcher = none := by
  cases label with
  | enqueue spec =>
    simp only [Host.step] at hstep
    split at hstep
    · cases hstep
    · obtain rfl := Option.some.inj hstep
      exact .inl rfl
  | command jobId c =>
    obtain rfl := Option.some.inj hstep
    exact .inl (change_runners h jobId (h.runCommand jobId c)).2.1
  | runner pid act =>
    obtain ⟨_, _, _, _, _, _, _, _, rfl⟩ := runnerStep_eq_some hstep
    exact .inl rfl
  | exits pid =>
    obtain rfl := Option.some.inj hstep
    exact .inl rfl
  | starts =>
    simp only [Host.step] at hstep
    split at hstep
    · cases hstep
    · obtain rfl := Option.some.inj hstep
      exact .inl rfl
  | killed | reboots _ =>
    obtain rfl := Option.some.inj hstep
    exact .inr rfl
  | dispatcher act =>
    obtain ⟨d, -, hact⟩ := Option.bind_eq_some_iff.mp hstep
    by_cases hspawn : ∃ starttime, act = .spawns starttime
    · obtain ⟨starttime, rfl⟩ := hspawn
      obtain ⟨_, _, _, _, -, rfl⟩ := spawns_eq_some hact
      exact .inl rfl
    · exact .inl (Dispatcher.step_cases (fun starttime heq => hspawn ⟨starttime, heq⟩) hact).1.boot

/-- The boot a claim records is its runner's. -/
theorem claim_boot {state written : JobState} {attempt : Nat} {spec : Option JobSpec}
    {assigned : List Uuid} {isolation now : String} {who : Identity}
    (hclaim : claim state attempt spec (claimFields assigned isolation now who) = some written) :
    written.runnerBootId = who.bootId ∧ written.runnerInitStart = who.initStart := by
  unfold claim at hclaim
  split at hclaim
  · cases hclaim
  · obtain rfl := Option.some.inj hclaim
    exact ⟨rfl, rfl⟩

/-- **Every running job is in sight of the dispatcher**, which accounts for its runners. -/
structure Supervised (h : Host) : Prop where
  sound : Sound h
  watched : ∀ d, h.dispatcher = some d → Watched h d

theorem Supervised.fresh (boot : Boot) : Supervised (.fresh boot) where
  sound := .fresh boot
  watched _ hd := nomatch hd

/-- **What another process does leaves every running job in sight**, if no claim is lost sight of. -/
theorem Supervised.others (hsupervised : Supervised h) (hsafe : losesSight stamp h label = false)
    (hstep : h.step stamp label = some h') (hd : h.dispatcher = some d)
    (hd' : h'.dispatcher = some d) : Watched h' d := by
  intro jobId dir' hdir' hrunning'
  have hsound := hsupervised.sound
  have hwatched := hsupervised.watched d hd
  have hboot : h'.boot = h.boot := by
    rcases step_boot hstep with hboot | hnone
    · exact hboot
    · rw [hnone] at hd'
      cases hd'
  rw [hboot]
  cases step_arrives hsound.lawful hstep hdir' with
  | kept dir _ hdir _ hshifts =>
    obtain ⟨hrunning, -, -, hbootId, hinit⟩ := hshifts.running hrunning'
    rw [hbootId, hinit]
    exact hwatched jobId dir hdir hrunning
  | accepted => cases hrunning'
  | claimed r dir written hclaim hid =>
    subst hid
    obtain ⟨isolation, now, rfl, hwritten⟩ := hclaim.isClaim
    obtain ⟨hbootId, hinit⟩ := claim_boot hwritten
    rw [hbootId, hinit]
    by_cases hparent : r.parent = d.pid
    · obtain ⟨entry, hentry, -⟩ := (hsound.accounts d hd).own r hclaim.isRunner hparent
      exact .inl (Dict.mem_keys.mpr ⟨entry, hentry⟩)
    · obtain ⟨hqueued, hattempt, -⟩ := hclaim.state
      have harriving : h.arriving r = true :=
        arriving_iff.mpr ⟨hclaim.isStarted, dir, hclaim.hasDir, hqueued, hattempt⟩
      simp only [losesSight, hd, List.any_eq_false] at hsafe
      simpa [hparent, harriving] using hsafe r hclaim.isRunner

theorem Supervised.step (hsupervised : Supervised h) (hsafe : losesSight stamp h label = false)
    (hstep : h.step stamp label = some h') : Supervised h' := by
  refine ⟨hsupervised.sound.step hstep, fun d' hd' => ?_⟩
  rcases step_dispatcher hstep hd' with ⟨d, act, hd, rfl, hact⟩ | ⟨hd, -⟩ | ⟨-, -, -, -, hjobs, rfl⟩
  · have hwatched := hsupervised.watched d hd
    by_cases hspawn : ∃ starttime, act = .spawns starttime
    · obtain ⟨starttime, rfl⟩ := hspawn
      exact hwatched.spawns hact hd'
    · have hno : ∀ starttime, act ≠ .spawns starttime := fun starttime heq => hspawn ⟨starttime, heq⟩
      refine hwatched.turn (Dispatcher.step_cases hno hact).1 ?_
      intro jobId dir dir' hdir hrunning hdir' hrunning' hminds
      exact step_minds hd hsafe hno hact hd' hdir hrunning hdir' hrunning' hminds
  · exact hsupervised.others hsafe hstep hd hd'
  · -- a dispatcher that starts has every job still to adopt
    intro jobId dir hdir _
    refine .inr (mem_sortedBy.mpr (Dict.mem_keys.mpr ⟨dir, ?_⟩))
    rw [← hjobs]
    exact hdir

end

/-- **Every running job is supervised**: in a run that loses sight of none, a pass that is over has each of
them in `running`. -/
theorem supervised (stamp : String → Option Seconds) {boot : Boot} {labels : List Label} {h : Host}
    (hrun : (Host.machine stamp).run (.fresh boot) labels = some h)
    (hsafe : ∀ p ∈ (Host.machine stamp).trace (.fresh boot) labels, losesSight stamp p.1 p.2 = false)
    {d : Dispatcher} (hd : h.dispatcher = some d) (hidle : d.stage = .idle) {jobId : JobId}
    {dir : JobDir} (hdir : h.jobs.get? jobId = some dir) (hrunning : dir.state.status = .running) :
    jobId ∈ d.running.keys := by
  have hsupervised : Supervised h :=
    Machine.run_invariant_of (C := fun h label => losesSight stamp h label = false)
      (fun _ _ _ hsupervised hsafe hstep => hsupervised.step hsafe hstep) (.fresh boot) hsafe hrun
  refine minds_key ?_ (hsupervised.watched d hd jobId dir hdir hrunning)
  rw [hidle]
  exact id

/-! ## Runs with a takeover -/

/-- A pass is over, and the job runs under a live runner of this boot. -/
def runsAtRest (jobId : JobId) (h : Host) : Bool :=
  h.dispatcher.any (fun d => match d.stage with | .idle => true | _ => false) &&
    (h.jobs.get? jobId).any fun dir => dir.state.status = .running ∧
      fromAnotherBoot h.boot dir.state.runnerBootId dir.state.runnerInitStart = false ∧
      dir.state.runnerAlive h.boot h.processes = true

/-- The job is in `running`. -/
def inRunning (jobId : JobId) (h : Host) : Bool := h.dispatcher.any fun d => jobId ∈ d.running.keys

/-- The end of a pass with nothing more to launch. -/
def restOfPass : List Label := [.dispatcher (.acts "10:00"), .dispatcher (.checks 0)]

/-- A dispatcher's runner claims `a` once the next dispatcher has read it as queued. -/
def claimsPastAdoption : List Label :=
  takeover [⟨some 0, "GPU-0"⟩] ++ [.runner 2 (.claims "none" "10:01")]

/-- **A pass that began with a running job ends without it in `running`.** -/
theorem unsupervised_after_takeover :
    ∃ h last, (Host.machine fun _ => none).run (.fresh ⟨some "boot", some "1"⟩) claimsPastAdoption
        = some h ∧
      (Host.machine fun _ => none).run h (passTo [⟨some 0, "GPU-0"⟩] ++ restOfPass) = some last ∧
      runsAtRest "a" h = true ∧ runsAtRest "a" last = true ∧ inRunning "a" last = false := by
  have hbegins : ((Host.machine fun _ => none).run (.fresh ⟨some "boot", some "1"⟩)
      claimsPastAdoption).any (fun h => runsAtRest "a" h &&
        ((Host.machine fun _ => none).run h (passTo [⟨some 0, "GPU-0"⟩] ++ restOfPass)).any
          fun last => runsAtRest "a" last && !inRunning "a" last) = true := by decide +kernel
  obtain ⟨h, hrun, hboth⟩ := (Option.any_eq_true _ _).mp hbegins
  obtain ⟨hruns, hpass⟩ := Bool.and_eq_true_iff.mp hboth
  obtain ⟨last, hlast, hends⟩ := (Option.any_eq_true _ _).mp hpass
  obtain ⟨hstill, hnot⟩ := Bool.and_eq_true_iff.mp hends
  exact ⟨h, last, hrun, hlast, hruns, hstill, by simpa using hnot⟩

/-- On a host of two cards the second dispatcher has started a runner of its own for `a` when the first
one's claims it. -/
def claimsAfterLaunch : List Label := lateRunnerApart ++ restOfPass

theorem supervised_after_launch :
    ∃ h d, (Host.machine fun _ => none).run (.fresh ⟨some "boot", some "1"⟩) claimsAfterLaunch = some h ∧
      h.dispatcher = some d ∧ runsAtRest "a" h = true ∧ "a" ∈ d.running.keys := by
  have hends : ((Host.machine fun _ => none).run (.fresh ⟨some "boot", some "1"⟩) claimsAfterLaunch).any
      (runsAtRest "a") = true := by decide +kernel
  have hsafe : ((Host.machine fun _ => none).trace (.fresh ⟨some "boot", some "1"⟩)
      claimsAfterLaunch).all (fun p => losesSight (fun _ => none) p.1 p.2 = false) = true := by
    decide +kernel
  obtain ⟨h, hrun, hrest⟩ := (Option.any_eq_true _ _).mp hends
  obtain ⟨hidle, hruns⟩ := Bool.and_eq_true_iff.mp hrest
  obtain ⟨d, hd, hstage⟩ := (Option.any_eq_true _ _).mp hidle
  obtain ⟨dir, hdir, hrunning⟩ := (Option.any_eq_true _ _).mp hruns
  have hidle : d.stage = .idle := by
    revert hstage
    cases d.stage <;> simp
  exact ⟨h, d, hrun, hd, hrest, supervised (fun _ => none) hrun
    (fun p hp => of_decide_eq_true (List.all_eq_true.mp hsafe p hp)) hd hidle hdir
    (of_decide_eq_true hrunning).1⟩

end Gpuc.Host
