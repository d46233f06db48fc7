import Gpuc.Laws.Machine.Step

/-!
# A cancel is not lost

Once `cancel` has answered, `cancelled`, `cancelling` or a finished job's own status, the job has left
the queue or is asked to stop for good (`Stopping`): every write that could queue it again is a compare-and-set that refuses one
being cancelled, a preempt refuses it too, and what a process read before the cancel decides only what
it then tries.

The law (`cancel_kept`) is of any run of a host: whatever its runners, dispatchers and reboots do after
the answer, and whatever they had begun before, the job is never queued again and no claim of it
succeeds.
-/

set_option autoImplicit false

namespace Gpuc.Host

open Gpuc.Basis

/-- The job is over, or runs with a cancel standing against it. -/
def Stopping (state : JobState) : Prop :=
  state.finished = true ∨ (state.status = .running ∧ state.intent = some .cancel)

theorem Stopping.not_queued {state : JobState} (h : Stopping state) : state.status ≠ .queued := by
  intro hqueued
  rcases h with hdone | ⟨hrunning, -⟩
  · rw [JobState.finished, hqueued] at hdone
    cases hdone
  · rw [hrunning] at hqueued
    cases hqueued

/-- A cancel leaves the job stopping, also when it finds it over. -/
theorem cancel_stopping {state : JobState} (hlawful : state.Lawful) (now : String) :
    Stopping (cancel state now).2 := by
  unfold cancel
  split
  · next hdone => exact .inl hdone
  · next hlive =>
    split
    · exact .inl rfl
    · next hqueued =>
      refine .inr ⟨?_, rfl⟩
      show state.status = .running
      cases hstatus : state.status with
      | queued => exact absurd hstatus hqueued
      | running => rfl
      | other text => exact absurd hstatus (hlawful.known text)
      | _ => rw [JobState.finished, hstatus] at hlive; exact absurd rfl hlive

/-- **No section takes a stopping job back.** -/
theorem Moves.stopping {s s' : JobState} (h : Moves s s') (hs : Stopping s) : Stopping s' := by
  cases h with
  | starts hqueued => exact absurd hqueued hs.not_queued
  | shifts h =>
    cases h with
    | stays h =>
      rcases hs with hdone | ⟨hrunning, hintent⟩
      · exact .inl (by rw [JobState.finished, h.status]; exact hdone)
      · exact .inr ⟨h.status.trans hrunning, h.intent.trans hintent⟩
    | asks intent hrunning hcancel h =>
      rcases hs with hdone | ⟨-, hintent⟩
      · rw [JobState.finished, hrunning] at hdone
        cases hdone
      · cases intent with
        | cancel => exact .inr ⟨h.status.trans hrunning, h.intent⟩
        | preempt => exact absurd hintent (hcancel rfl)
    | ends _ hdone => exact .inl hdone
    | returns hrunning _ _ hcancel =>
      rcases hs with hdone | ⟨-, hintent⟩
      · rw [JobState.finished, hrunning] at hdone
        cases hdone
      · exact absurd hintent hcancel

/-- The host has the job, and it is stopping. -/
structure Stops (jobId : JobId) (h : Host) : Prop where
  lawful : h.Lawful
  stopping : ∃ dir, h.jobs.get? jobId = some dir ∧ Stopping dir.state

section
variable {stamp : String → Option Seconds} {jobId : JobId} {h h' : Host} {label : Label}

theorem Stops.not_queued (hstops : Stops jobId h) {dir : JobDir}
    (hdir : h.jobs.get? jobId = some dir) : dir.state.status ≠ .queued := by
  obtain ⟨was, hwas, hstopping⟩ := hstops.stopping
  obtain rfl := Option.some.inj (hwas.symm.trans hdir)
  exact hstopping.not_queued

theorem Stops.step (hstops : Stops jobId h) (hstep : h.step stamp label = some h') :
    Stops jobId h' := by
  refine ⟨step_lawful hstops.lawful hstep, ?_⟩
  obtain ⟨dir, hdir, hstopping⟩ := hstops.stopping
  obtain ⟨dir', hdir'⟩ :=
    Dict.mem_keys.mp (step_keys hstops.lawful hstep (Dict.mem_keys.mpr ⟨dir, hdir⟩))
  have hmoves := (step_arrives hstops.lawful hstep hdir').moves hdir
  exact ⟨dir', hdir', hmoves.stopping hstopping⟩

/-- No claim of it succeeds. -/
theorem Stops.not_claimed (hstops : Stops jobId h) {r : RunnerProcess} {dir : JobDir}
    {written : JobState} (hclaim : Claims h label r dir written) : r.jobId ≠ jobId := by
  rintro rfl
  exact hstops.not_queued hclaim.hasDir hclaim.state.1

end

theorem run_lawful {stamp : String → Option Seconds} {boot : Boot} {labels : List Label} {h : Host}
    (hrun : (Host.machine stamp).run (.fresh boot) labels = some h) : h.Lawful :=
  Machine.run_invariant (fun _ _ _ hlawful hstep => step_lawful hlawful hstep) (fresh_lawful boot)
    hrun

/-- **A cancel is never lost**, whatever it answered: no later state is queued, and no later claim takes
the job. -/
theorem cancel_kept (stamp : String → Option Seconds) {boot : Boot} {jobId : JobId} {now : String}
    {before after : List Label} {h last : Host} {dir : JobDir}
    (hbefore : (Host.machine stamp).run (.fresh boot) before = some h)
    (hdir : h.jobs.get? jobId = some dir)
    (hafter : (Host.machine stamp).run h (.command jobId (.cancel now) :: after) = some last) :
    (∀ dir', last.jobs.get? jobId = some dir' → dir'.state.status ≠ .queued) ∧
      ∀ next, (Host.machine stamp).step h (.command jobId (.cancel now)) = some next →
        ∀ p ∈ (Host.machine stamp).trace next after,
          ∀ r dir' written, Claims p.1 p.2 r dir' written → r.jobId ≠ jobId := by
  have hlawful := run_lawful hbefore
  have hfirst : ∀ next, (Host.machine stamp).step h (.command jobId (.cancel now)) = some next →
      Stops jobId next := by
    intro next hstep
    have hnext : h.step stamp (.command jobId (.cancel now)) = some next := hstep
    refine ⟨step_lawful hlawful hnext, ?_⟩
    obtain rfl := Option.some.inj hstep
    refine ⟨{ dir with state := (cancel dir.state now).2 }, ?_, ?_⟩
    · simp [Host.change, hdir, Host.runCommand, Host.write]
    · exact cancel_stopping (hlawful jobId dir hdir) now
  refine ⟨fun dir' hdir' => ?_, fun next hstep p hp r dir' written hclaim => ?_⟩
  · obtain ⟨next, hstep, hrest⟩ := Machine.run_cons.mp hafter
    have hlast : Stops jobId last :=
      Machine.run_invariant (fun _ _ _ hstops hstep => hstops.step hstep) (hfirst next hstep) hrest
    exact hlast.not_queued hdir'
  · have hthere : Stops jobId p.1 :=
      Machine.trace_invariant (fun _ _ _ hstops hstep => hstops.step hstep) (hfirst next hstep) p hp
    exact hthere.not_claimed hclaim

/-- A job on the one card is preempted for a better one, and its runner has read that it is coming
back. -/
def comingBackRun : List Label :=
  [.enqueue { jobId := "a" }, .starts, .dispatcher .adopts, .dispatcher .adopts,
    .dispatcher (.begins {} (some [⟨some 0, "GPU-0"⟩])), .dispatcher .reaps,
    .dispatcher (.plans [] 0), .dispatcher (.acts "10:00"), .dispatcher (.spawns none),
    .runner 2 (.claims "none" "10:01"), .enqueue { jobId := "b", priority := 10 },
    .command "a" (.preempt none), .runner 2 .polls, .runner 2 (.phaseEnds 143 none),
    .runner 2 (.settles none)]

/-- What its runner does next. -/
def endRun : List Label :=
  [.runner 2 .requeues, .runner 2 .overrules, .runner 2 (.finishes "10:05")]

/-- The cancel that lands in between ends the job. -/
theorem cancel_kept_comingBack :
    ∃ h last, (Host.machine fun _ => none).run (.fresh ⟨none, none⟩) comingBackRun = some h ∧
      (Host.machine fun _ => none).run h (.command "a" (.cancel "10:04") :: endRun) = some last ∧
      ∀ dir, last.jobs.get? "a" = some dir → dir.state.status ≠ .queued :=
  ⟨_, _, rfl, rfl, (@cancel_kept (fun _ => none) ⟨none, none⟩ "a" "10:04" comingBackRun endRun _ _ _
    rfl rfl rfl).1⟩

end Gpuc.Host
