import Gpuc.Snakemake.Executor

/-!
# A restarted controller runs a job once

What a controller does with a job that an earlier one submitted depends on the answers about the ids in
its markers: it adopts the one it judges, or cancels those that are pending and submits again.

The law (`runs_once_iff`): no earlier gpuc job of the job is left pending beside the one it now has,
exactly when the ids that are pending are at most the one adopted, or else each is named in the answer
of the cancel that comes before the submit, with no error. A cancel that fails is logged and the submit
follows, and a job that is adopted leaves the others as they are (`runs_twice`).

What it does not establish: that a job whose cancel was confirmed has stopped. The host has marked it.
-/

set_option autoImplicit false

namespace Gpuc.Snakemake

open Gpuc.Basis

/-- The job is known to have ended, or to be on no host. -/
def Earlier.Over (earlier : Earlier) (jobId : GpucId) : Prop :=
  (outcome (earlier.about jobId)).pending = false

instance (earlier : Earlier) (jobId : GpucId) : Decidable (earlier.Over jobId) :=
  inferInstanceAs (Decidable (_ = false))

/-- A cancel's answer has the job, with no error. -/
def Confirms (process : Process) (jobId : GpucId) : Prop :=
  ∃ document rows, gpuc [0, 1, 4] process = .ok document ∧
    rowsOf (document.get? "jobs") = some rows ∧
    ∃ row ∈ rows, row.get? "job_id" = some (.str jobId) ∧
      (row.get? "error" = none ∨ row.get? "error" = some .null)

/-- A cancel of the job was asked for on the way, and confirmed. -/
def RunResult.Confirmed (result : RunResult) (w : World) (jobId : GpucId) : Prop :=
  jobId ∈ result.cancelled ∧ Confirms (w.cancel result.cancelled) jobId

/-- **The job does not run twice**: beside the gpuc job it now has, each earlier one is over or its
cancel was confirmed. -/
structure RunsOnce (w : World) (earlier : Earlier) (job : Job) (result : RunResult) : Prop where
  submitted : ∀ answer, result.ran = .submitted answer → ∀ jobId ∈ job.externalJobIds,
    earlier.Over jobId ∨ result.Confirmed w jobId
  adopted : ∀ jobId standing, result.ran = .adopted jobId standing →
    ∀ other ∈ job.externalJobIds, other ≠ jobId → earlier.Over other ∨ result.Confirmed w other

/-- The submit is answered with the new job. -/
def World.Submits (w : World) : Prop :=
  ∃ process answer, w.submit = some process ∧ gpuc [0] process = .ok answer

/-- The earlier job that is judged is taken over with no other pending, or given up with the cancel of
all that are pending confirmed, if anything is submitted after that. -/
def Clear (w : World) (earlier : Earlier) (job : Job) : Prop :=
  let ids := sortedBy id job.externalJobIds
  job.isGroup = false → earlier.failure.isNone → ∀ standing jobId,
    earlier.chosen ids = some (standing, jobId) →
      if (w.unlike jobId).isNone then ∀ other ∈ earlier.pending ids, other = jobId
      else cancelIds w (earlier.pending ids) = true → w.Submits →
        ∀ other ∈ earlier.pending ids, Confirms (w.cancel (earlier.pending ids)) other

section Job
variable {w : World} {earlier : Earlier} {job : Job}

theorem mem_pending {ids : List GpucId} {jobId : GpucId} :
    jobId ∈ earlier.pending ids ↔ jobId ∈ ids ∧ ¬ earlier.Over jobId := by
  simp [Earlier.pending, Earlier.Over]

/-- With none to judge, none is pending. -/
theorem over_of_chosen_none {ids : List GpucId} (h : earlier.chosen ids = none) {jobId : GpucId}
    (hjob : jobId ∈ ids) : earlier.Over jobId := by
  unfold Earlier.chosen at h
  rw [List.findSome?_eq_none_iff] at h
  have hother : ∀ standing ∈ [Standing.succeeded, .live, .unaskable],
      outcome (earlier.about jobId) ≠ standing := by
    intro standing hstanding heq
    have hnone := h standing hstanding
    rw [Option.map_eq_none_iff, List.find?_eq_none] at hnone
    exact hnone jobId hjob (by simpa using heq)
  unfold Earlier.Over
  cases hstanding : outcome (earlier.about jobId) with
  | succeeded | failed | gone => rfl
  | live => exact absurd hstanding (hother .live (by simp))
  | unaskable => exact absurd hstanding (hother .unaskable (by simp))

/-- A job that is neither taken over nor submitted runs beside no other. -/
theorem runsOnce_of_neither {result : RunResult}
    (hsubmitted : ∀ answer, result.ran ≠ .submitted answer)
    (hadopted : ∀ jobId standing, result.ran ≠ .adopted jobId standing) :
    RunsOnce w earlier job result :=
  ⟨fun answer h => absurd h (hsubmitted answer), fun jobId standing h =>
    absurd h (hadopted jobId standing)⟩

/-- With every earlier job over, whatever becomes of this one is its one run. -/
theorem runsOnce_of_over {result : RunResult}
    (h : ∀ jobId ∈ job.externalJobIds, earlier.Over jobId) : RunsOnce w earlier job result :=
  ⟨fun _ _ jobId hjob => .inl (h jobId hjob), fun _ _ _ jobId hjob _ => .inl (h jobId hjob)⟩

/-- Nothing is cancelled for a job that is taken over, so it is to be the only one pending. -/
theorem adopted_once_iff {jobId : GpucId} {standing : Standing} :
    RunsOnce w earlier job { ran := .adopted jobId standing } ↔
      ∀ other ∈ job.externalJobIds, ¬ earlier.Over other → other = jobId := by
  constructor
  · intro h other hother hpending
    by_contra hne
    obtain hover | ⟨hcancelled, -⟩ := h.adopted jobId standing rfl other hother hne
    · exact hpending hover
    · exact absurd hcancelled List.not_mem_nil
  · intro h
    refine ⟨nofun, fun _ _ hran other hother hne => .inl ?_⟩
    cases hran
    by_contra hpending
    exact hne (h other hother hpending)

/-- What is submitted after a cancel of all that are pending is the one run where that cancel was
confirmed. -/
theorem submitted_once_iff {ran : Ran} (hran : ∀ jobId standing, ran ≠ .adopted jobId standing)
    {pending : List GpucId}
    (hpending : ∀ {jobId}, jobId ∈ pending ↔ jobId ∈ job.externalJobIds ∧ ¬ earlier.Over jobId) :
    RunsOnce w earlier job { ran, cancelled := pending } ↔
      ((∃ answer, ran = .submitted answer) → ∀ other ∈ pending, Confirms (w.cancel pending) other) := by
  constructor
  · rintro h ⟨answer, hanswer⟩ other hother
    obtain ⟨hjob, hnot⟩ := hpending.mp hother
    obtain hover | ⟨-, hconfirmed⟩ := h.submitted answer hanswer other hjob
    · exact absurd hover hnot
    · exact hconfirmed
  · intro h
    refine ⟨fun answer hanswer jobId hjob => ?_, fun jobId standing heq =>
      absurd heq (hran jobId standing)⟩
    by_cases hover : earlier.Over jobId
    · exact .inl hover
    · have hmem := hpending.mpr ⟨hjob, hover⟩
      exact .inr ⟨hmem, h ⟨answer, hanswer⟩ jobId hmem⟩

theorem submit_ne_adopted (jobId : GpucId) (standing : Standing) : submit w ≠ .adopted jobId standing := by
  unfold submit
  split
  · nofun
  · split <;> nofun

theorem submit_submitted_iff : (∃ answer, submit w = .submitted answer) ↔ w.Submits := by
  unfold submit World.Submits
  cases w.submit with
  | none => simp
  | some process =>
    cases hgpuc : gpuc [0] process with
    | error error => simp [hgpuc]
    | ok answer => simp [hgpuc]

/-- **One job is run once exactly when the way is clear.** -/
theorem runJob_once_iff : RunsOnce w earlier job (runJob w earlier job) ↔ Clear w earlier job := by
  have hmem : ∀ {jobId}, jobId ∈ sortedBy id job.externalJobIds ↔ jobId ∈ job.externalJobIds :=
    mem_sortedBy
  unfold runJob Clear
  generalize sortedBy id job.externalJobIds = ids at hmem
  simp only
  split
  · next hgroup =>
    exact iff_of_true (runsOnce_of_neither nofun nofun) (by simp [hgroup])
  next hgroup =>
  split
  · next hids =>
    subst hids
    refine iff_of_true (runsOnce_of_over fun jobId hjob => absurd (hmem.mpr hjob) List.not_mem_nil) ?_
    intro _ _ standing jobId hchosen
    cases hchosen
  next hids =>
  cases hfailure : earlier.failure with
  | some error => exact iff_of_true (runsOnce_of_neither nofun nofun) (by simp)
  | none =>
    cases hchosen : earlier.chosen ids with
    | none =>
      exact iff_of_true
        (runsOnce_of_over fun jobId hjob => over_of_chosen_none hchosen (hmem.mpr hjob)) (by simp)
    | some choice =>
      obtain ⟨standing, jobId⟩ := choice
      have hpending : ∀ {other}, other ∈ earlier.pending ids ↔
          other ∈ job.externalJobIds ∧ ¬ earlier.Over other := by
        intro other
        rw [mem_pending, hmem]
      have hclear : ∀ {P : GpucId → Prop}, (job.isGroup = false → (none : Option GpucError).isNone →
          ∀ s j, some (standing, jobId) = some (s, j) → P j) ↔ P jobId := by
        intro P
        constructor
        · exact fun h => h (by simpa using hgroup) rfl standing jobId rfl
        · rintro h - - s j hj
          cases hj
          exact h
      rw [hclear]
      cases hunlike : w.unlike jobId with
      | none =>
        simp only [hunlike, Option.isNone_none, if_true]
        rw [adopted_once_iff]
        simp only [hpending, and_imp]
      | some why =>
        simp only [hunlike, Option.isNone_some, Bool.false_eq_true, if_false]
        split
        · next hcancel =>
          rw [submitted_once_iff submit_ne_adopted hpending, submit_submitted_iff]
          exact ⟨fun h _ => h, fun h => h hcancel⟩
        · next hcancel => exact iff_of_true (runsOnce_of_neither nofun nofun) fun h => absurd h hcancel

end Job

/-- What the earlier jobs' statuses are, where gpuc could be asked about the batch and its answer could
be read. -/
def asked (w : World) (batch : List Job) : Option Earlier :=
  earlierJobs ((batch.filter fun j => !j.isGroup).flatMap Job.externalJobIds) w.status

theorem runJobs_of_asked {w : World} {batch : List Job} {job : Job} {earlier : Earlier}
    (h : asked w batch = some earlier) : runJobs w batch job = runJob w earlier job := by
  rw [asked] at h
  rw [runJobs, h]

/-- **A restarted controller runs a job once exactly when the way is clear.** -/
theorem runs_once_iff (w : World) (batch : List Job) (job : Job) :
    (∀ earlier, asked w batch = some earlier → RunsOnce w earlier job (runJobs w batch job)) ↔
      ∀ earlier, asked w batch = some earlier → Clear w earlier job := by
  refine forall₂_congr fun earlier hasked => ?_
  rw [runJobs_of_asked hasked]
  exact runJob_once_iff

/-! ## Two at once -/

/-- `gpuc status` says this job runs on a host. -/
def live (jobId : GpucId) : Json :=
  .obj [("job_id", .str jobId), ("status", .str "running"), ("host", .str "box")]

/-- `gpuc status` says these jobs run, and a submit goes well. -/
def around (jobIds : List GpucId) (cancel : Process) (unlike : Option String) : World where
  status _ := .exited 0 (some (.obj [("jobs", .arr (jobIds.map live))])) ""
  cancel _ := cancel
  unlike _ := unlike
  submit := some (.exited 0 (some (.obj [("job_id", .str "new")])) "")

/-- **A job may run twice, either way.** Its rule has changed, `gpuc cancel` of the one that runs fails,
and the job is submitted again; or two of them run, and one is adopted beside the other. -/
theorem runs_twice :
    (∃ w batch job earlier answer, asked w batch = some earlier ∧
      (runJobs w batch job).ran = .submitted answer ∧ ¬ RunsOnce w earlier job (runJobs w batch job)) ∧
    ∃ w batch job earlier jobId, asked w batch = some earlier ∧
      (runJobs w batch job).ran = .adopted jobId .live ∧
      ¬ RunsOnce w earlier job (runJobs w batch job) := by
  constructor
  · let w := around ["a"] (.exited 1 none "no route to the host") (some "the rule has changed")
    let job : Job := { externalJobIds := ["a"] }
    refine ⟨w, [job], job, _, _, rfl, rfl, ?_⟩
    intro h
    obtain hover | ⟨-, document, -, hdocument, -⟩ := h.submitted _ rfl "a" (by decide)
    · exact absurd hover (by decide +kernel)
    · cases hdocument
  · let w := around ["a", "b"] (.exited 0 (some (.obj [])) "") none
    let job : Job := { externalJobIds := ["a", "b"] }
    refine ⟨w, [job], job, _, _, rfl, rfl, ?_⟩
    intro h
    obtain hover | ⟨hcancelled, -⟩ := h.adopted _ _ rfl "b" (by decide) (by decide)
    · exact absurd hover (by decide +kernel)
    · exact absurd hcancelled (by decide)

end Gpuc.Snakemake
