import Gpuc.Laws.Job.LifeCycle

/-!
# The limit in force

A job's wall-clock limit stands in its state, beside a flag that says whether it is the one meant: a
state written by an earlier build never carried it, and there the spec's is. The flag goes up with a
claim that copies the spec's limit and with a patch that names one, and every attempt carries the two
together.

The law (`limit_in_force`): over the sections of `Life` in any order, the limit in force is the last
one an accepted patch named, a null included, and where there was none the one that was in force before
(which is the spec's, in a state as enqueued or as an earlier build left it). A section writes what it
read under the lock, so a claim that makes a spec's limit live is never the later of two writes that
overlap.

What it does not establish: when the runner looks. It reads the state on a timer.
-/

set_option autoImplicit false

namespace Gpuc.Host

open Gpuc.Basis

/-! ## What leaves the limit alone -/

/-- **Two states agree on the limit**: its value, and whether it is the one meant. -/
structure SameLimit (before after : JobState) : Prop where
  value : after.maxRuntimeMin = before.maxRuntimeMin
  live : after.liveMaxRuntime = before.liveMaxRuntime

theorem SameLimit.refl (state : JobState) : SameLimit state state := ⟨rfl, rfl⟩

theorem SameLimit.trans {a b c : JobState} (hab : SameLimit a b) (hbc : SameLimit b c) :
    SameLimit a c :=
  ⟨hbc.value.trans hab.value, hbc.live.trans hab.live⟩

theorem SameLimit.maxRuntime {before after : JobState} (h : SameLimit before after)
    (spec : Option JobSpec) : after.maxRuntime spec = before.maxRuntime spec := by
  unfold JobState.maxRuntime
  rw [h.value, h.live]

/-- The two fields the limit is made of. -/
def Field.ofLimit : Field → Bool
  | .maxRuntimeMin _ | .liveMaxRuntime _ => true
  | _ => false

theorem set_sameLimit (state : JobState) {f : Field} (h : f.ofLimit = false) :
    SameLimit state (state.set f) := by
  cases f with
  | maxRuntimeMin _ | liveMaxRuntime _ => exact absurd h (by simp [Field.ofLimit])
  | _ => exact ⟨rfl, rfl⟩

theorem applyFields_sameLimit (state : JobState) (fs : List Field)
    (h : ∀ f ∈ fs, f.ofLimit = false) : SameLimit state (applyFields state fs) := by
  induction fs generalizing state with
  | nil => exact SameLimit.refl state
  | cons f fs ih =>
    apply (set_sameLimit state (h f List.mem_cons_self)).trans
    apply ih
    intro g hg
    exact h g (List.mem_cons_of_mem f hg)

/-- No caller of `update_state` names the limit. -/
theorem Report.fields_ofLimit (r : Report) : ∀ f ∈ r.fields, f.ofLimit = false := by
  cases r with
  | progress percent eta => cases eta <;> simp [Report.fields, Field.ofLimit]
  | _ => simp [Report.fields, Field.ofLimit]

theorem claimFields_ofLimit (assigned : List Uuid) (isolation now : String) (who : Identity) :
    ∀ f ∈ claimFields assigned isolation now who, f.ofLimit = false := by
  simp [claimFields, Field.ofLimit]

/-- **A claim with the job's spec keeps the limit in force**: where it copies the spec's, the spec's
was in force. -/
theorem claim_maxRuntime {state written : JobState} {attempt : Nat} {read : Option JobSpec}
    {spec : JobSpec} {fields : List Field} (hread : ∀ s, read = some s → s = spec)
    (hfields : ∀ f ∈ fields, f.ofLimit = false)
    (h : claim state attempt read fields = some written) :
    written.maxRuntime (some spec) = state.maxRuntime (some spec) := by
  unfold claim at h
  split at h
  · cases h
  · obtain rfl := Option.some.inj h
    rw [(applyFields_sameLimit _ _ hfields).maxRuntime]
    cases read with
    | none => rfl
    | some s =>
      obtain rfl := hread s rfl
      by_cases hlive : state.liveMaxRuntime = true
      · simp [hlive]
      · simp [JobState.maxRuntime, hlive]

theorem cancel_sameLimit (state : JobState) (now : String) :
    SameLimit state (cancel state now).2 := by
  unfold cancel
  split
  · exact SameLimit.refl state
  · split <;> exact ⟨rfl, rfl⟩

theorem finish_sameLimit {state written : JobState} {outcome : Outcome} {now : String}
    {expect : Status} {forget : Bool} {extra : List Field}
    (hextra : ∀ f ∈ extra, f.ofLimit = false)
    (h : finish state outcome now expect forget extra = some written) :
    SameLimit state written := by
  unfold finish at h
  split at h
  · cases h
  · obtain rfl := Option.some.inj h
    apply SameLimit.trans _ (applyFields_sameLimit _ extra hextra)
    cases forget <;> exact ⟨rfl, rfl⟩

/-- The next attempt carries the limit, and whether it is the one meant. -/
theorem writeQueuedAgain_sameLimit (state : JobState) (ran : Bool) (restarts : Option Nat) :
    SameLimit state (writeQueuedAgain state ran restarts) := ⟨rfl, rfl⟩

theorem nextAttempt_sameLimit {state written : JobState} {ran : Bool}
    (h : nextAttempt state ran = some written) : SameLimit state written := by
  unfold nextAttempt at h
  split at h
  · cases h
  · obtain rfl := Option.some.inj h
    exact writeQueuedAgain_sameLimit state _ none

theorem requeue_sameLimit {state written : JobState} {boot : Boot}
    (h : requeueAfterRestart state boot = .again written) : SameLimit state written := by
  unfold requeueAfterRestart at h
  split at h
  · cases h
  · split at h
    · obtain rfl := Requeue.again.inj h
      exact writeQueuedAgain_sameLimit state _ none
    · split at h
      · obtain rfl := Requeue.again.inj h
        exact writeQueuedAgain_sameLimit state _ _
      · split at h <;> cases h

/-! ## What a patch sets -/

/-- The limit a setting names. -/
def Setting.limit : Setting → Option (Option ℚ)
  | .maxRuntimeMin value => some value
  | .priority _ | .estimatedRuntimeMin _ => none

/-- **The limit a patch names**, if it names one. -/
def patchedLimit (patch : List Setting) : Option (Option ℚ) :=
  (patch.filterMap Setting.limit).getLast?

theorem patchedLimit_cons (setting : Setting) (patch : List Setting) (value : Option ℚ) :
    (patchedLimit (setting :: patch)).getD value
      = (patchedLimit patch).getD (setting.limit.getD value) := by
  unfold patchedLimit
  cases setting with
  | priority _ | estimatedRuntimeMin _ => rfl
  | maxRuntimeMin limit =>
    show (List.getLast? (limit :: patch.filterMap Setting.limit)).getD value = _
    rw [List.getLast?_cons]
    rfl

/-- Does the patch name a limit? -/
theorem any_limit (patch : List Setting) :
    (patch.any fun
      | .maxRuntimeMin _ => true
      | .priority _ | .estimatedRuntimeMin _ => false) = (patchedLimit patch).isSome := by
  rw [patchedLimit, Bool.eq_iff_iff, List.any_eq_true, List.getLast?_isSome]
  constructor
  · rintro ⟨setting, hmem, hlimit⟩ hnil
    cases setting with
    | priority _ | estimatedRuntimeMin _ => cases hlimit
    | maxRuntimeMin value =>
      have hin := List.mem_filterMap.mpr ⟨_, hmem, (rfl : Setting.limit _ = some value)⟩
      rw [hnil] at hin
      cases hin
  · intro hne
    obtain ⟨value, hin⟩ := List.exists_mem_of_ne_nil _ hne
    obtain ⟨setting, hmem, hlimit⟩ := List.mem_filterMap.mp hin
    refine ⟨setting, hmem, ?_⟩
    cases setting with
    | priority _ | estimatedRuntimeMin _ => cases hlimit
    | maxRuntimeMin _ => rfl

theorem applySettings_limit (state : JobState) (patch : List Setting) :
    (applyFields state (patch.map Setting.field)).maxRuntimeMin
        = (patchedLimit patch).getD state.maxRuntimeMin
      ∧ (applyFields state (patch.map Setting.field)).liveMaxRuntime = state.liveMaxRuntime := by
  induction patch generalizing state with
  | nil => exact ⟨rfl, rfl⟩
  | cons setting patch ih =>
    obtain ⟨hvalue, hlive⟩ := ih (state.set setting.field)
    rw [patchedLimit_cons, List.map_cons, applyFields_cons]
    cases setting <;> exact ⟨hvalue, hlive⟩

/-- **A patch that is accepted sets the limit it names**, and one that names none leaves it. -/
theorem apply_maxRuntime {shown : Shown} {jobId : JobId} {elapsed : Option ℚ}
    {patch : List Setting} {state written : JobState} (spec : Option JobSpec)
    (h : apply shown jobId elapsed patch state = .ok written) :
    written.maxRuntime spec = (patchedLimit patch).getD (state.maxRuntime spec) := by
  unfold apply at h
  split at h
  · cases h
  · obtain rfl := Except.ok.inj h
    obtain ⟨hvalue, hlive⟩ := applySettings_limit state patch
    have hnamed := any_limit patch
    split
    · next hlimit =>
      obtain ⟨value, hset⟩ := Option.isSome_iff_exists.mp (hnamed.symm.trans hlimit)
      rw [hset] at hvalue
      rw [hset, applyFields, List.foldl_append]
      exact hvalue
    · next hlimit =>
      have hnone : patchedLimit patch = none := by
        apply Option.not_isSome_iff_eq_none.mp
        intro hsome
        exact hlimit (hnamed.trans hsome)
      rw [hnone] at hvalue
      rw [hnone, List.append_nil]
      exact SameLimit.maxRuntime ⟨hvalue, hlive⟩ spec

/-! ## Over a run -/

namespace Life

/-- Does the section read this spec, where it reads one? -/
def readsSpec (spec : JobSpec) : Op → Prop
  | .claim _ read _ _ _ _ => ∀ s, read = some s → s = spec
  | _ => True

/-- The limit an accepted patch names. -/
def setsLimit : Life × Op → Option (Option ℚ)
  | (life, .apply shown jobId elapsed patch) =>
    match Host.apply shown jobId elapsed patch life.state with
    | .ok _ => patchedLimit patch
    | .error _ => none
  | _ => none

/-- **The last limit somebody set** in a run. -/
def lastLimit (life : Life) (ops : List Op) : Option (Option ℚ) :=
  ((machine.trace life ops).filterMap setsLimit).getLast?

theorem write_maxRuntime (life : Life) (spec : Option JobSpec) {written : Option JobState}
    (h : ∀ s, written = some s → s.maxRuntime spec = life.state.maxRuntime spec) :
    (life.write written).state.maxRuntime spec = life.state.maxRuntime spec := by
  cases written with
  | none => rfl
  | some s => exact h s rfl

/-- **What a section makes of the limit in force.** -/
theorem step_maxRuntime (life : Life) {spec : JobSpec} {op : Op} (hspec : readsSpec spec op) :
    (life.step op).state.maxRuntime (some spec)
      = (setsLimit (life, op)).getD (life.state.maxRuntime (some spec)) := by
  cases op with
  | claim attempt read assigned isolation now who =>
    apply write_maxRuntime
    intro s hs
    exact claim_maxRuntime hspec (claimFields_ofLimit assigned isolation now who) hs
  | cancel now => exact (cancel_sameLimit life.state now).maxRuntime _
  | preempt draining jobs jobId priority =>
    apply write_maxRuntime
    intro s hs
    obtain ⟨-, -, rfl⟩ := preempt_eq_ok (eq_ok_of_toOption hs)
    rfl
  | nextAttempt ran =>
    apply write_maxRuntime
    intro s hs
    exact (nextAttempt_sameLimit hs).maxRuntime _
  | requeue boot =>
    rw [step]
    cases hrequeue : requeueAfterRestart life.state boot with
    | again written => exact (requeue_sameLimit hrequeue).maxRuntime _
    | leaves | ends _ => rfl
  | requeueEnds i now =>
    rw [step]
    cases life.requeues[i]? with
    | none => rfl
    | some outcome =>
      apply write_maxRuntime
      intro s hs
      exact (finish_sameLimit (by simp) hs).maxRuntime _
  | finish outcome now expect forget problems =>
    apply write_maxRuntime
    intro s hs
    apply SameLimit.maxRuntime
    apply finish_sameLimit _ hs
    intro f hf
    obtain ⟨value, -, rfl⟩ := List.mem_map.mp hf
    rfl
  | apply shown jobId elapsed patch =>
    rw [step, setsLimit]
    cases happly : Host.apply shown jobId elapsed patch life.state with
    | error _ => rfl
    | ok written => exact apply_maxRuntime (some spec) happly
  | report r =>
    exact (applyFields_sameLimit life.state r.fields r.fields_ofLimit).maxRuntime _
  | recordUpload dest output okAt error => exact SameLimit.maxRuntime ⟨rfl, rfl⟩ _
  | clearOutputUploads => exact SameLimit.maxRuntime ⟨rfl, rfl⟩ _

theorem lastLimit_cons (life : Life) (op : Op) (ops : List Op) (value : Option ℚ) :
    (lastLimit life (op :: ops)).getD value
      = (lastLimit (life.step op) ops).getD ((setsLimit (life, op)).getD value) := by
  show (List.getLast? (((life, op) :: machine.trace (life.step op) ops).filterMap setsLimit)).getD
    value = _
  rw [List.filterMap_cons]
  cases setsLimit (life, op) with
  | none => rfl
  | some limit =>
    rw [List.getLast?_cons]
    rfl

theorem run_maxRuntime {spec : JobSpec} {ops : List Op} (hspec : ∀ op ∈ ops, readsSpec spec op)
    {life last : Life} (hrun : machine.run life ops = some last) :
    last.state.maxRuntime (some spec)
      = (lastLimit life ops).getD (life.state.maxRuntime (some spec)) := by
  induction ops generalizing life with
  | nil =>
    obtain rfl := Option.some.inj hrun
    rfl
  | cons op ops ih =>
    obtain ⟨next, hstep, hrest⟩ := Machine.run_cons.mp hrun
    obtain rfl := Option.some.inj hstep
    rw [ih (fun o ho => hspec o (List.mem_cons_of_mem op ho)) hrest, lastLimit_cons,
      step_maxRuntime life (hspec op List.mem_cons_self)]

/-- **The limit in force is the last one somebody set.** It is whatever was in force before, where
nobody has set one; and that is the spec's limit in a state as it is enqueued, or one an earlier build
wrote. -/
theorem limit_in_force {spec : JobSpec} {ops : List Op}
    (hspec : ∀ op ∈ ops, readsSpec spec op) {life last : Life}
    (hrun : machine.run life ops = some last) :
    last.state.maxRuntime (some spec)
        = (lastLimit life ops).getD (life.state.maxRuntime (some spec))
      ∧ ((life.state.liveMaxRuntime = true → life.state.maxRuntimeMin = spec.maxRuntimeMin) →
        last.state.maxRuntime (some spec) = (lastLimit life ops).getD spec.maxRuntimeMin) := by
  refine ⟨run_maxRuntime hspec hrun, fun hinit => ?_⟩
  rw [run_maxRuntime hspec hrun]
  unfold JobState.maxRuntime
  split
  · next hlive => rw [hinit hlive]
  · rfl

/-- A job as an earlier build queued it. -/
def queuedEarlier : Life where
  state := { ran := false }

/-- The job has an hour to run: it is claimed, given half an hour more and then no limit at all, and
queued again for a restart of its host. -/
def unlimited : List Op :=
  [.claim 1 (some { jobId := "j", maxRuntimeMin := some 60 }) ["g0"] "pgid" "now"
      { pid := 7, bootId := some "first" },
    .apply ⟨fun _ => "", fun _ => ""⟩ "j" (some 600) [.maxRuntimeMin (some 90)],
    .apply ⟨fun _ => "", fun _ => ""⟩ "j" (some 700) [.maxRuntimeMin none],
    .requeue ⟨some "second", none⟩]

theorem limit_in_force_unlimited :
    ∃ last, machine.run queuedEarlier unlimited = some last ∧
      last.state.maxRuntime (some { jobId := "j", maxRuntimeMin := some 60 }) = none := by
  have hspec : ∀ op ∈ unlimited, readsSpec { jobId := "j", maxRuntimeMin := some 60 } op := by
    simp [unlimited, readsSpec]
  have hrun : ∃ last, machine.run queuedEarlier unlimited = some last := ⟨_, rfl⟩
  obtain ⟨last, hlast⟩ := hrun
  refine ⟨last, hlast, ?_⟩
  rw [(limit_in_force hspec hlast).2 (fun hlive => by cases hlive)]
  decide +kernel

end Life

end Gpuc.Host
