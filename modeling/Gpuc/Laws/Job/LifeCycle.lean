import Gpuc.Basis.Run
import Gpuc.Host.Runner
import Gpuc.Host.Settable

/-!
# The life cycle of a job

Three processes write one job's state, each write a section under the job's lock. `Op` is every such
section, with all it is given from outside, and `Life` is the state between sections: the job's own,
and the outcomes a restart's first section has decided on and not yet written. What a section can do is
said once (`Moves`), and every law of a run is drawn from that.

The law (`lifeCycle`): from the state a job is enqueued with, over every list of sections, a finished
status stays, the attempt goes up by one with each return to the queue and never otherwise, each
attempt is claimed at most once, an intent stands on a running job only, and a job is queued again for
a restart of its host at most `maxRestarts` times.

What it does not establish: which sections a process comes to take. `Gpuc.Laws.Job.Cancel` is about
the processes.
-/

set_option autoImplicit false

namespace Gpuc.Host

open Gpuc.Basis

/-! ## Every section -/

/-- **A section under the job's lock**, with what it is given. -/
inductive Op where
  /-- A runner's claim, for the attempt it was started for. -/
  | claim (attempt : Nat) (spec : Option JobSpec) (assigned : List Uuid) (isolation now : String)
    (who : Identity)
  | cancel (now : String)
  | preempt (draining : Bool) (jobs : Jobs) (jobId : JobId) (priority : Option Int)
  | nextAttempt (ran : Bool)
  /-- The section of `requeue_after_restart` that decides. -/
  | requeue (boot : Boot)
  /-- The one that ends the job as one of the decisions still to be written says. -/
  | requeueEnds (i : Nat) (now : String)
  | finish (outcome : Outcome) (now : String) (expect : Expect) (forget : Bool)
    (problems : Option (List String))
  | apply (shown : Shown) (jobId : JobId) (elapsed : Option ℚ) (patch : List Setting)
  | report (r : Report)
  | recordUpload (dest : String) (output okAt error : Option String)
  | clearOutputUploads

/-- A job between two sections: its state, and the restarts decided on and not yet written. -/
structure Life where
  state : JobState
  requeues : List Outcome := []

namespace Life

/-- The section writes the state, or nothing. -/
def write (life : Life) (written : Option JobState) : Life :=
  { life with state := written.getD life.state }

/-- **What a section does.** -/
def step (life : Life) : Op → Life
  | .claim attempt spec assigned isolation now who =>
    life.write (claim life.state attempt spec (claimFields assigned isolation now who))
  | .cancel now => { life with state := (cancel life.state now).2 }
  | .preempt draining jobs jobId priority =>
    life.write (preempt draining jobs jobId priority life.state).toOption
  | .nextAttempt ran => life.write (nextAttempt life.state ran)
  | .requeue boot =>
    match requeueAfterRestart life.state boot with
    | .leaves => life
    | .again written => { life with state := written }
    | .ends outcome => { life with requeues := life.requeues ++ [outcome] }
  | .requeueEnds i now =>
    match life.requeues[i]? with
    | none => life
    | some outcome =>
      { life.write (Host.finish life.state outcome now .running true) with
        requeues := life.requeues.eraseIdx i }
  | .finish outcome now expect forget problems =>
    life.write (Host.finish life.state outcome now expect.status forget
      (problems.toList.map Field.problems))
  | .apply shown jobId elapsed patch =>
    life.write (Host.apply shown jobId elapsed patch life.state).toOption
  | .report r => { life with state := updateState life.state r.fields }
  | .recordUpload dest output okAt error =>
    { life with state := Host.recordUpload life.state dest output okAt error }
  | .clearOutputUploads => { life with state := Host.clearOutputUploads life.state }

/-- The job as it is enqueued. -/
def initial (spec : JobSpec) : Life where
  state := .initial spec

/-- Sections in any order. -/
def machine : Machine Life Op where
  step life op := some (life.step op)

end Life

/-! ## What a section can do -/

/-- What has held of every state of a job. -/
structure JobState.Lawful (state : JobState) : Prop where
  known : ∀ text, state.status ≠ .other text
  intent : state.intent ≠ none → state.status = .running
  restarts : state.restarts ≤ maxRestarts

/-- What a section other than a claim makes of the life cycle. -/
inductive Shifts (s s' : JobState) : Prop where
  | stays (h : SameLife s s')
  | asks (intent : Intent) (hs : s.status = .running)
    (hcancel : intent = .preempt → s.intent ≠ some .cancel)
    (h : SameLife { s with intent := some intent } s')
  | ends (hs : s.finished = false) (hs' : s'.finished = true) (hintent : s'.intent = none)
    (hattempt : s'.attempt = s.attempt) (hrestarts : s'.restarts = s.restarts)
  | returns (hs : s.status = .running) (hs' : s'.status = .queued) (hintent : s'.intent = none)
    (hcancel : s.intent ≠ some .cancel) (hattempt : s'.attempt = s.attempt + 1)
    (hrestarts : s'.restarts = s.restarts ∨
      (s'.restarts = s.restarts + 1 ∧ s.restarts < maxRestarts))

/-- **What a section makes of the life cycle.** -/
inductive Moves (s s' : JobState) : Prop where
  | starts (hs : s.status = .queued) (hs' : s'.status = .running) (hintent : s'.intent = s.intent)
    (hattempt : s'.attempt = s.attempt) (hrestarts : s'.restarts = s.restarts)
  | shifts (h : Shifts s s')

theorem claim_eq_some {state written : JobState} {attempt : Nat} {spec : Option JobSpec}
    {assigned : List Uuid} {isolation now : String} {who : Identity}
    (h : claim state attempt spec (claimFields assigned isolation now who) = some written) :
    state.status = .queued ∧ state.attempt = attempt ∧ written.status = .running ∧
      written.intent = state.intent ∧ written.attempt = state.attempt ∧
      written.restarts = state.restarts ∧ written.gpus = assigned ∧
      written.runnerPid = some who.pid := by
  unfold claim at h
  split at h
  · cases h
  · next hcas =>
    rw [not_or, not_not, not_not] at hcas
    obtain rfl := Option.some.inj h
    refine ⟨hcas.1, hcas.2, ?_⟩
    cases spec with
    | none => simp [claimFields, JobState.set]
    | some spec => by_cases hlive : state.liveMaxRuntime = true <;>
        simp [claimFields, JobState.set, hlive]

theorem finish_shifts {state written : JobState} {outcome : Outcome} {now : String}
    {expect : Expect} {forget : Bool} {problems : Option (List String)}
    (h : finish state outcome now expect.status forget (problems.toList.map Field.problems)
      = some written) : Shifts state written := by
  have hextra : ∀ f ∈ problems.toList.map Field.problems, f.ofClaim = false := by
    intro f hf
    obtain ⟨value, -, rfl⟩ := List.mem_map.mp hf
    rfl
  obtain ⟨hstatus, hended, hintent, hattempt, hrestarts⟩ := finish_eq_some hextra h
  refine .ends ?_ ?_ hintent hattempt hrestarts
  · rw [JobState.finished, hstatus]
    cases expect <;> rfl
  · rw [JobState.finished, hended]
    exact outcome.isFinished

theorem cancel_shifts {state : JobState} (hknown : ∀ text, state.status ≠ .other text)
    (now : String) : Shifts state (cancel state now).2 := by
  unfold cancel
  split
  · exact .stays (SameLife.refl state)
  · next hlive =>
    have hlive' : state.finished = false := by simpa using hlive
    split
    · exact .ends hlive' rfl rfl rfl rfl
    · next hqueued =>
      have hrunning : state.status = .running := by
        rw [JobState.finished] at hlive
        cases hstatus : state.status with
        | queued => exact absurd hstatus hqueued
        | running => rfl
        | other text => exact absurd hstatus (hknown text)
        | _ => rw [hstatus] at hlive; exact absurd rfl hlive
      exact .asks .cancel hrunning (fun h => nomatch h) (SameLife.refl _)

theorem preempt_eq_ok {state written : JobState} {draining : Bool} {jobs : Jobs} {jobId : JobId}
    {priority : Option Int} (h : preempt draining jobs jobId priority state = .ok written) :
    state.status = .running ∧ state.intent ≠ some .cancel ∧
      written = { state with intent := some .preempt, priority := priority.getD state.priority } := by
  unfold preempt at h
  split at h
  · cases h
  · split at h
    · cases h
    · split at h
      · cases h
      · next hrunning =>
        split at h
        · cases h
        · next hcancel =>
          split at h
          · cases h
          · simp only at h
            split at h
            · cases h
            · exact ⟨not_not.mp hrunning, hcancel, (Except.ok.inj h).symm⟩

theorem requeue_shifts {state written : JobState} {boot : Boot}
    (h : requeueAfterRestart state boot = .again written) : Shifts state written := by
  unfold requeueAfterRestart at h
  split at h
  · cases h
  · next hrunning =>
    have hstatus : state.status = .running := not_not.mp fun hne => hrunning (.inl hne)
    split at h
    · next hpreempt =>
      obtain rfl := Requeue.again.inj h
      exact .returns hstatus rfl rfl (by simp [hpreempt]) rfl (.inl rfl)
    · split at h
      · next hcounts =>
        obtain rfl := Requeue.again.inj h
        exact .returns hstatus rfl rfl hcounts.1 rfl (.inr ⟨rfl, hcounts.2⟩)
      · split at h <;> cases h

theorem eq_ok_of_toOption {ε α : Type} {x : Except ε α} {a : α} (h : x.toOption = some a) :
    x = .ok a := by
  cases x with
  | error e => cases h
  | ok b =>
    obtain rfl := Option.some.inj h
    rfl

theorem preempt_shifts {state written : JobState} {draining : Bool} {jobs : Jobs} {jobId : JobId}
    {priority : Option Int} (h : preempt draining jobs jobId priority state = .ok written) :
    Shifts state written := by
  obtain ⟨hrunning, hcancel, rfl⟩ := preempt_eq_ok h
  exact .asks .preempt hrunning (fun _ => hcancel) ⟨rfl, rfl, rfl, rfl, rfl, rfl, rfl, rfl⟩

theorem nextAttempt_shifts {state written : JobState} {ran : Bool}
    (h : nextAttempt state ran = some written) : Shifts state written := by
  unfold nextAttempt at h
  split at h
  · cases h
  · next hcas =>
    rw [not_or, not_not, not_not] at hcas
    obtain rfl := Option.some.inj h
    exact .returns hcas.1 rfl rfl (by simp [hcas.2]) rfl (.inl rfl)

theorem Shifts.refl (state : JobState) : Shifts state state := .stays (SameLife.refl state)

/-- **Every section moves a lawful job so.** -/
theorem Life.step_moves (life : Life) (hlawful : life.state.Lawful) (op : Op) :
    Moves life.state (life.step op).state := by
  have hwrite : ∀ written : Option JobState, (∀ s, written = some s → Moves life.state s) →
      Moves life.state (life.write written).state := by
    intro written h
    cases written with
    | none => exact .shifts (.refl _)
    | some s => exact h s rfl
  cases op with
  | claim attempt spec assigned isolation now who =>
    refine hwrite _ fun s hs => ?_
    obtain ⟨hqueued, -, hrunning, hintent, hattempt, hrestarts, -⟩ := claim_eq_some hs
    exact .starts hqueued hrunning hintent hattempt hrestarts
  | cancel now => exact .shifts (cancel_shifts hlawful.known now)
  | preempt draining jobs jobId priority =>
    refine hwrite _ fun s hs => .shifts ?_
    exact preempt_shifts (eq_ok_of_toOption hs)
  | nextAttempt ran => exact hwrite _ fun s hs => .shifts (nextAttempt_shifts hs)
  | requeue boot =>
    show Moves life.state
      (match requeueAfterRestart life.state boot with
        | .leaves => life
        | .again written => { life with state := written }
        | .ends outcome => { life with requeues := life.requeues ++ [outcome] }).state
    cases hrequeue : requeueAfterRestart life.state boot with
    | again written => exact .shifts (requeue_shifts hrequeue)
    | leaves | ends _ => exact .shifts (.refl _)
  | requeueEnds i now =>
    show Moves life.state
      (match life.requeues[i]? with
        | none => life
        | some outcome =>
          { life.write (Host.finish life.state outcome now .running true) with
            requeues := life.requeues.eraseIdx i }).state
    cases life.requeues[i]? with
    | none => exact .shifts (.refl _)
    | some outcome =>
      exact hwrite _ fun s hs => .shifts (@finish_shifts _ _ _ _ .running _ none hs)
  | finish outcome now expect forget problems =>
    exact hwrite _ fun s hs => .shifts (finish_shifts hs)
  | apply shown jobId elapsed patch =>
    refine hwrite _ fun s hs => .shifts (.stays ?_)
    exact apply_sameLife (eq_ok_of_toOption hs)
  | report r => exact .shifts (.stays (updateState_sameLife life.state r))
  | recordUpload dest output okAt error =>
    exact .shifts (.stays ⟨rfl, rfl, rfl, rfl, rfl, rfl, rfl, rfl⟩)
  | clearOutputUploads => exact .shifts (.stays ⟨rfl, rfl, rfl, rfl, rfl, rfl, rfl, rfl⟩)

/-! ## What a move keeps -/

namespace Shifts
variable {s s' : JobState} (h : Shifts s s')
include h

theorem lawful (hs : s.Lawful) : s'.Lawful := by
  cases h with
  | stays h =>
    exact ⟨fun text => h.status ▸ hs.known text, fun hne => h.status ▸ hs.intent (h.intent ▸ hne),
      h.restarts ▸ hs.restarts⟩
  | asks intent hrunning _ h =>
    have hrunning' : s'.status = .running := h.status.trans hrunning
    exact ⟨fun text => by rw [hrunning']; exact Status.noConfusion, fun _ => hrunning',
      h.restarts ▸ hs.restarts⟩
  | ends _ hs' hintent _ hrestarts =>
    refine ⟨fun text htext => ?_, fun hne => absurd hintent hne, hrestarts ▸ hs.restarts⟩
    rw [JobState.finished, htext] at hs'
    cases hs'
  | returns _ hs' hintent _ _ hrestarts =>
    refine ⟨fun text => by rw [hs']; exact Status.noConfusion, fun hne => absurd hintent hne, ?_⟩
    have hle := hs.restarts
    rcases hrestarts with heq | ⟨heq, hlt⟩ <;> omega

/-- A finished status stays. -/
theorem finished (hs : s.finished = true) : s'.status = s.status := by
  cases h with
  | stays h => exact h.status
  | asks _ hrunning => rw [JobState.finished, hrunning] at hs; cases hs
  | ends hlive => rw [hlive] at hs; cases hs
  | returns hrunning => rw [JobState.finished, hrunning] at hs; cases hs

/-- The attempt goes up by one with a return to the queue, and never otherwise. -/
theorem attempt : s'.attempt
    = s.attempt + if s.status = .running ∧ s'.status = .queued then 1 else 0 := by
  cases h with
  | stays h =>
    rw [if_neg fun hmove => ?_]
    · exact h.attempt
    · rw [h.status, hmove.1] at hmove
      exact absurd hmove.2 Status.noConfusion
  | asks _ hrunning _ h => simpa [h.status, hrunning] using h.attempt
  | ends _ hs' _ hattempt =>
    rw [if_neg fun hmove => ?_]
    · exact hattempt
    · rw [JobState.finished, hmove.2] at hs'
      cases hs'
  | returns hrunning hs' _ _ hattempt => simpa [hrunning, hs'] using hattempt

/-- **Only a claim starts a job**, so a job that runs has run on under the same claim. -/
theorem running (hs' : s'.status = .running) :
    s.status = .running ∧ s'.gpus = s.gpus ∧ s'.runnerPid = s.runnerPid ∧
      s'.runnerBootId = s.runnerBootId ∧ s'.runnerInitStart = s.runnerInitStart := by
  cases h with
  | stays h =>
    exact ⟨h.status ▸ hs', h.gpus, h.runnerPid, h.runnerBootId, h.runnerInitStart⟩
  | asks _ hrunning _ h => exact ⟨hrunning, h.gpus, h.runnerPid, h.runnerBootId, h.runnerInitStart⟩
  | ends _ hdone => rw [JobState.finished, hs'] at hdone; cases hdone
  | returns _ hqueued => rw [hs'] at hqueued; cases hqueued

/-- A job that is queued was so before at this attempt, or has come back for it. -/
theorem queued (hs' : s'.status = .queued) :
    (s.status = .queued ∧ s'.attempt = s.attempt) ∨
      (s.status = .running ∧ s'.attempt = s.attempt + 1) := by
  cases h with
  | stays h => exact .inl ⟨h.status ▸ hs', h.attempt⟩
  | asks _ hrunning _ h => rw [h.status, hrunning] at hs'; cases hs'
  | ends _ hdone => rw [JobState.finished, hs'] at hdone; cases hdone
  | returns hrunning _ _ _ hattempt => exact .inr ⟨hrunning, hattempt⟩

end Shifts

namespace Moves
variable {s s' : JobState} (h : Moves s s')
include h

theorem lawful (hs : s.Lawful) : s'.Lawful := by
  cases h with
  | starts hqueued hs' hintent _ hrestarts =>
    exact ⟨fun text => by rw [hs']; exact Status.noConfusion, fun _ => hs',
      hrestarts ▸ hs.restarts⟩
  | shifts h => exact h.lawful hs

/-- A finished status stays. -/
theorem finished (hs : s.finished = true) : s'.status = s.status := by
  cases h with
  | starts hqueued => rw [JobState.finished, hqueued] at hs; cases hs
  | shifts h => exact h.finished hs

/-- **The attempt goes up by one with a return to the queue, and never otherwise.** -/
theorem attempt : s'.attempt
    = s.attempt + if s.status = .running ∧ s'.status = .queued then 1 else 0 := by
  cases h with
  | starts hqueued hs' _ hattempt => simpa [hqueued] using hattempt
  | shifts h => exact h.attempt

/-- An attempt that is over is not queued again: the job is at a later one, or has left the queue. -/
theorem stays {n : Nat} (hs : n < s.attempt ∨ (s.attempt = n ∧ s.status ≠ .queued)) :
    n < s'.attempt ∨ (s'.attempt = n ∧ s'.status ≠ .queued) := by
  have hattempt := h.attempt
  by_cases hqueued : s'.status = .queued
  · cases h with
    | starts _ hs' => rw [hs'] at hqueued; cases hqueued
    | shifts h =>
      rcases h.queued hqueued with ⟨hstill, hsame⟩ | ⟨_, hnext⟩
      · exact .inl (hs.elim (fun hlt => by omega) fun hout => absurd hstill hout.2)
      · exact .inl (by omega)
  · rw [if_neg fun hmove => hqueued hmove.2] at hattempt
    exact hs.imp (fun hlt => by omega) fun hout => ⟨hattempt.trans hout.1, hqueued⟩

end Moves

namespace Life

theorem initial_lawful (spec : JobSpec) : (initial spec).state.Lawful :=
  ⟨fun _ => Status.noConfusion, fun h => absurd rfl h, Nat.zero_le _⟩

theorem step_lawful {life next : Life} (op : Op) (h : life.state.Lawful)
    (hstep : machine.step life op = some next) : next.state.Lawful := by
  obtain rfl := Option.some.inj hstep
  exact (life.step_moves h op).lawful h

theorem run_lawful {spec : JobSpec} {ops : List Op} {life : Life}
    (hrun : machine.run (initial spec) ops = some life) : life.state.Lawful :=
  Machine.run_invariant (I := fun life => life.state.Lawful)
    (fun _ op _ h hstep => step_lawful op h hstep) (initial_lawful spec) hrun

/-- **A finished status is never changed again.** -/
theorem run_finished {life last : Life} {ops : List Op} (hlawful : life.state.Lawful)
    (hdone : life.state.finished = true) (hrun : machine.run life ops = some last) :
    last.state.status = life.state.status := by
  have hkept : last.state.Lawful ∧ last.state.status = life.state.status := by
    refine Machine.run_invariant
      (I := fun next => next.state.Lawful ∧ next.state.status = life.state.status)
      (fun mid op next ⟨hmid, hstatus⟩ hstep => ⟨step_lawful op hmid hstep, ?_⟩)
      ⟨hlawful, rfl⟩ hrun
    obtain rfl := Option.some.inj hstep
    have hdone' : mid.state.finished = true := by rw [JobState.finished, hstatus]; exact hdone
    exact ((mid.step_moves hmid op).finished hdone').trans hstatus
  exact hkept.2

/-- The section is a claim for this attempt, and takes the job. -/
def claims (n : Nat) (p : Life × Op) : Bool :=
  match p.2 with
  | .claim attempt spec assigned isolation now who =>
    attempt = n ∧
      (claim p.1.state attempt spec (claimFields assigned isolation now who)).isSome = true
  | _ => false

theorem claims_eq {n : Nat} {life : Life} {op : Op} (h : claims n (life, op) = true) :
    life.state.status = .queued ∧ life.state.attempt = n ∧
      (life.step op).state.status = .running ∧ (life.step op).state.attempt = n := by
  cases op with
  | claim attempt spec assigned isolation now who =>
    obtain ⟨rfl, hsome⟩ := of_decide_eq_true h
    obtain ⟨written, hwritten⟩ := Option.isSome_iff_exists.mp hsome
    obtain ⟨hqueued, hattempt, hrunning, -, hsame, -⟩ := claim_eq_some hwritten
    have hstep : (life.step (.claim attempt spec assigned isolation now who)).state = written := by
      show (life.write _).state = written
      rw [hwritten]
      rfl
    rw [hstep]
    exact ⟨hqueued, hattempt, hrunning, hsame.trans hattempt⟩
  | _ => cases h

/-- **Each attempt is claimed once at most.** -/
theorem claims_once (spec : JobSpec) (ops : List Op) (n : Nat) :
    (machine.trace (initial spec) ops).countP (claims n) ≤ 1 := by
  refine Machine.trace_once (I := fun life => life.state.Lawful)
    (S := fun life => n < life.state.attempt ∨
      (life.state.attempt = n ∧ life.state.status ≠ .queued))
    (fun _ op _ h hstep => step_lawful op h hstep) (fun life op next h hstep => ?_)
    (fun life op _ hclaim => ?_) (fun life op next _ hclaim hstep => ?_) (initial_lawful spec)
  · obtain rfl := Option.some.inj hstep
    exact (life.step_moves h.1 op).stays h.2
  · obtain ⟨hqueued, hattempt, -⟩ := claims_eq hclaim
    rintro (hlt | ⟨-, hout⟩)
    · omega
    · exact hout hqueued
  · obtain rfl := Option.some.inj hstep
    obtain ⟨-, -, hrunning, hattempt⟩ := claims_eq hclaim
    exact .inr ⟨hattempt, by rw [hrunning]; exact Status.noConfusion⟩

end Life

/-- **The life cycle of a job is a compare-and-set machine.** -/
theorem lifeCycle (spec : JobSpec) :
    (∀ ops rest life last, Life.machine.run (.initial spec) ops = some life →
      Life.machine.run life rest = some last → life.state.finished = true →
      last.state.status = life.state.status) ∧
    (∀ ops op life next, Life.machine.run (.initial spec) ops = some life →
      Life.machine.step life op = some next →
      next.state.attempt = life.state.attempt
        + if life.state.status = .running ∧ next.state.status = .queued then 1 else 0) ∧
    (∀ ops n, (Life.machine.trace (.initial spec) ops).countP (Life.claims n) ≤ 1) ∧
    (∀ ops life, Life.machine.run (.initial spec) ops = some life →
      (life.state.intent ≠ none → life.state.status = .running) ∧
        life.state.restarts ≤ maxRestarts) := by
  refine ⟨fun ops rest life last hrun hrest hdone => ?_, fun ops op life next hrun hstep => ?_,
    Life.claims_once spec, fun ops life hrun => ?_⟩
  · exact Life.run_finished (Life.run_lawful hrun) hdone hrest
  · obtain rfl := Option.some.inj hstep
    exact (life.step_moves (Life.run_lawful hrun) op).attempt
  · have hlawful := Life.run_lawful hrun
    exact ⟨hlawful.intent, hlawful.restarts⟩

/-- A job claimed and ended, under a cancel and a second claim that come too late. -/
theorem lifeCycle_lateCancel :
    ∃ last, Life.machine.run (.initial { jobId := "a" })
      ([.claim 1 none ["g0"] "none" "10:00" { pid := 7 },
          .finish { status := .succeeded, exitCode := 0 } "10:05" .running false (some [])] ++
        [.cancel "10:06", .claim 1 none ["g0"] "none" "10:07" { pid := 8 }]) = some last ∧
      last.state.status = .succeeded :=
  ⟨_, rfl, (lifeCycle { jobId := "a" }).1
    [.claim 1 none ["g0"] "none" "10:00" { pid := 7 },
      .finish { status := .succeeded, exitCode := 0 } "10:05" .running false (some [])]
    [.cancel "10:06", .claim 1 none ["g0"] "none" "10:07" { pid := 8 }] _ _ rfl rfl rfl⟩

end Gpuc.Host
