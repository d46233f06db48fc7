import Gpuc.Host.Uploads
import Gpuc.Laws.Control.Templates
import Gpuc.Laws.Job.LifeCycle

/-!
# What the upload records vouch for

A record that stands says that an upload succeeded, and a reader of it deletes the only copy. It may, of a
job that does not run, if the last upload there succeeded and began after the last moment one of the
job's processes could write (`Tracked.Safe`).

The law (`uploads_vouch`): in every run of a job whose steps meet the condition (`Orderly`), whenever the
job does not run, every output that is on record as uploaded is safe at every destination. The condition
is about what a drain and a restart may do to a later attempt: a success that a drain records of a queued
job is kept through the claim, and an attempt that ends before `main` clears no record, though its setup
has run (`stale_after_drain`).

The invariant (`Vouched`) follows the runner: before a process of the attempt has run, what stands is
safe; while one may write, nothing is known; past the clear, what stands was recorded by the final pass.
-/

set_option autoImplicit false

namespace Gpuc.Host

open Gpuc.Basis

/-! ## Records -/

/-- What a record is kept under. -/
def Upload.key (u : Upload) : String × Option String := (u.dest, u.output)

theorem Upload.isFor_iff {u : Upload} {dest : String} {output : Option String} :
    u.isFor dest output = true ↔ u.key = (dest, output) := by
  simp [Upload.isFor, Upload.key]

@[simp] theorem Upload.note_key (u : Upload) (okAt error : Option String) :
    (u.note okAt error).key = u.key := by
  unfold Upload.note
  split <;> rfl

/-- **A note of one destination is of that alone.** -/
theorem mem_noteUpload {dest : String} {output okAt error : Option String} {us : List Upload}
    (hkeys : (us.map Upload.key).Nodup) {v : Upload}
    (hv : v ∈ noteUpload dest output okAt error us) :
    (v ∈ us ∧ v.key ≠ (dest, output)) ∨
      (v.key = (dest, output) ∧ ∃ u : Upload, v = u.note okAt error) := by
  induction us with
  | nil =>
    obtain rfl := List.mem_singleton.mp hv
    exact .inr ⟨Upload.note_key _ _ _, _, rfl⟩
  | cons u us ih =>
    rw [List.map_cons, List.nodup_cons] at hkeys
    unfold noteUpload at hv
    split at hv
    · next hfor =>
      rw [Upload.isFor_iff] at hfor
      rcases List.mem_cons.mp hv with rfl | hv
      · exact .inr ⟨(Upload.note_key _ _ _).trans hfor, u, rfl⟩
      · refine .inl ⟨List.mem_cons_of_mem u hv, fun heq => hkeys.1 ?_⟩
        rw [hfor, ← heq]
        exact List.mem_map_of_mem hv
    · next hfor =>
      rcases List.mem_cons.mp hv with rfl | hv
      · exact .inl ⟨List.mem_cons_self, fun heq => hfor (Upload.isFor_iff.mpr heq)⟩
      · exact (ih hkeys.2 hv).imp_left fun h => ⟨List.mem_cons_of_mem u h.1, h.2⟩

theorem noteUpload_keys (dest : String) (output okAt error : Option String) (us : List Upload) :
    (noteUpload dest output okAt error us).map Upload.key =
      if (dest, output) ∈ us.map Upload.key then us.map Upload.key
      else us.map Upload.key ++ [(dest, output)] := by
  induction us with
  | nil =>
    rw [noteUpload, List.map_singleton, Upload.note_key]
    rfl
  | cons u us ih =>
    unfold noteUpload
    split
    · next hfor =>
      rw [Upload.isFor_iff] at hfor
      simp [hfor]
    · next hfor =>
      rw [Upload.isFor_iff] at hfor
      rw [List.map_cons, ih, List.map_cons]
      by_cases hmem : (dest, output) ∈ us.map Upload.key
      · simp [hmem]
      · simp [hmem, Ne.symm hfor]

theorem noteUpload_nodup {dest : String} {output okAt error : Option String} {us : List Upload}
    (hkeys : (us.map Upload.key).Nodup) :
    ((noteUpload dest output okAt error us).map Upload.key).Nodup := by
  rw [noteUpload_keys]
  split
  · exact hkeys
  · next hmem => exact List.nodup_append.mpr ⟨hkeys, by simp, by simpa using hmem⟩

/-- No field of a write is the records. -/
theorem applyFields_uploads (state : JobState) (fields : List Field) :
    (applyFields state fields).uploads = state.uploads := by
  induction fields generalizing state with
  | nil => rfl
  | cons field fields ih =>
    rw [applyFields_cons, ih]
    cases field <;> rfl

theorem claim_uploads {state written : JobState} {attempt : Nat} {spec : Option JobSpec}
    {fields : List Field} (h : claim state attempt spec fields = some written) :
    written.uploads = state.uploads := by
  unfold claim at h
  split at h
  · cases h
  · obtain rfl := Option.some.inj h
    rw [applyFields_uploads]
    cases spec with
    | none => rfl
    | some spec =>
      dsimp only
      split <;> rfl

/-- What ends a job keeps the records, or forgets every output's success. -/
theorem finish_uploads {state written : JobState} {outcome : Outcome} {now : String} {expect : Status}
    {forget : Bool} {extra : List Field}
    (h : finish state outcome now expect forget extra = some written) :
    written.uploads = if forget then state.forgetOutputUploads.uploads else state.uploads := by
  unfold finish at h
  split at h
  · cases h
  · obtain rfl := Option.some.inj h
    rw [applyFields_uploads]
    cases forget <;> rfl

theorem cancel_uploads (state : JobState) (now : String) : (cancel state now).2.uploads = state.uploads := by
  unfold cancel
  split
  · rfl
  · split <;> rfl

theorem apply_uploads {shown : Shown} {jobId : JobId} {elapsed : Option ℚ} {patch : List Setting}
    {state written : JobState} (h : Host.apply shown jobId elapsed patch state = .ok written) :
    written.uploads = state.uploads := by
  unfold Host.apply at h
  split at h
  · cases h
  · obtain rfl := Except.ok.inj h
    exact applyFields_uploads _ _

theorem forget_keys (state : JobState) :
    state.forgetOutputUploads.uploads.map Upload.key = state.uploads.map Upload.key := by
  unfold JobState.forgetOutputUploads
  rw [List.map_map]
  refine List.map_congr_left fun u _ => ?_
  rw [Function.comp_apply]
  split <;> rfl

/-- No success of an output is left. -/
theorem forget_stands {state : JobState} {u : Upload} (hu : u ∈ state.forgetOutputUploads.uploads)
    (houtput : u.output.isSome) : u.stands = false := by
  obtain ⟨v, -, rfl⟩ := List.mem_map.mp hu
  by_cases hv : v.output.isSome
  · rw [if_pos hv]
    rfl
  · rw [if_neg hv] at houtput
    exact absurd houtput hv

/-- Every place a declared output goes to is asked about. -/
theorem mem_wantedUploads {fields : Fields} {spec : JobSpec} {wanted : List (String × String)}
    (h : wantedUploads fields spec = .ok wanted) {output : Output} (houtput : output ∈ spec.outputs)
    {destinations : List Destination}
    (hdestinations : destinationsOf fields output spec.jobId = .ok destinations)
    {destination : Destination} (hdestination : destination ∈ destinations) :
    (output.path, destination.uri) ∈ wanted := by
  obtain ⟨each, heach, hflat⟩ := bind_eq_ok h
  obtain rfl := Except.ok.inj hflat
  obtain ⟨pairs, hpairs, hfound⟩ := mem_mapM_eq_ok heach houtput
  rw [hdestinations] at hfound
  obtain rfl := Except.ok.inj hfound
  exact List.mem_flatten_of_mem hpairs (List.mem_map_of_mem hdestination)

/-! ## Safe outputs -/

namespace Tracked

/-- What became of the last upload of an output to a destination. -/
def lastOf (done : List Recorded) (dest output : String) : Option Recorded :=
  done.find? fun r => r.upload.dest = dest ∧ r.upload.output = output

/-- **The destination has the job's last files**: the last upload there succeeded, and began after the
last moment one of the job's processes could write. -/
def Safe (t : Tracked) (dest output : String) : Prop :=
  ∃ r, lastOf t.done dest output = some r ∧ r.ok = true ∧ t.wrote < r.upload.began

/-- Every output whose record stands is safe. -/
def AllSafe (t : Tracked) : Prop :=
  ∀ u ∈ t.state.uploads, ∀ output, u.output = some output → u.stands = true → t.Safe u.dest output

/-- **What the records of a job say, they vouch for**, whenever it does not run. -/
def Vouches (t : Tracked) (fields : Fields) (spec : JobSpec) : Prop :=
  t.state.status ≠ .running → t.state.ran = true → outputsUploaded fields t.state spec = .ok true →
    ∀ output ∈ spec.outputs, ∀ destinations, destinationsOf fields output spec.jobId = .ok destinations →
      ∀ destination ∈ destinations, t.Safe destination.uri output.path

/-- **The condition on a step.** No attempt is claimed with a drain's upload in flight; an attempt that
ends before `main`, when a process of it has run, finds no output's success on record; and a restart that
was decided on does not end a later attempt. -/
def Orderly (t : Tracked) : Step → Prop
  | .claim .. => t.state.status = .queued → t.drains = []
  | .ends .. => t.runner = some (.before true) →
      ∀ u ∈ t.state.uploads, u.output.isSome → u.stands = false
  | .restartEnds .. => t.runner = none
  | _ => True

instance (t : Tracked) (label : Step) : Decidable (t.Orderly label) := by
  cases label <;> unfold Orderly <;> infer_instance

/-- What holds of a job all along a run. -/
structure Vouched (t : Tracked) : Prop where
  keys : (t.state.uploads.map Upload.key).Nodup
  moments : t.wrote ≤ t.moment
  runs : t.runner.isSome → t.state.status = .running
  idle : t.state.status = .running → t.drains = []
  drains : ∀ upload ∈ t.drains, t.wrote < upload.began
  safe : t.state.status ≠ .running ∨ t.runner = some (.before false) ∨
    (∃ upload, t.runner = some (.final upload)) → t.AllSafe
  pass : ∀ upload, t.runner = some (.final (some upload)) → t.wrote < upload.began

section Steps
variable {t t' : Tracked}

theorem initial_vouched (spec : JobSpec) : (initial spec).Vouched where
  keys := List.nodup_nil
  moments := Nat.le_refl 0
  runs := nofun
  idle _ := rfl
  drains _ h := absurd h List.not_mem_nil
  safe _ _ h := absurd h List.not_mem_nil
  pass _ := nofun

/-- A section that leaves the records, the uploads and the processes alone keeps what holds, if a job
that starts to run has no drain's upload in flight and a job that stops had been safe. -/
theorem Vouched.section (h : t.Vouched) (huploads : t'.state.uploads = t.state.uploads)
    (hdone : t'.done = t.done) (hwrote : t'.wrote = t.wrote) (hmoment : t.moment ≤ t'.moment)
    (hdrains : t'.drains = t.drains) (hruns : t'.runner.isSome → t'.state.status = .running)
    (hidle : t'.state.status = .running → t.state.status = .running ∨ t.drains = [])
    (hsafe : t'.state.status ≠ .running ∨ t'.runner = some (.before false) ∨
      (∃ upload, t'.runner = some (.final upload)) → t.AllSafe)
    (hpass : ∀ upload, t'.runner = some (.final (some upload)) → t.wrote < upload.began) :
    t'.Vouched where
  keys := by rw [huploads]; exact h.keys
  moments := by rw [hwrote]; exact h.moments.trans hmoment
  runs := hruns
  idle hrunning := by
    rw [hdrains]
    exact (hidle hrunning).elim h.idle id
  drains := by rw [hdrains, hwrote]; exact h.drains
  safe hcase u hu output houtput hstands := by
    rw [huploads] at hu
    obtain ⟨r, hr, hok, hbegan⟩ := hsafe hcase u hu output houtput hstands
    exact ⟨r, by rw [hdone]; exact hr, hok, hwrote ▸ hbegan⟩
  pass := by rw [hwrote]; exact hpass

/-- A job whose records have no success of an output is safe. -/
theorem allSafe_of_none (hnone : ∀ u ∈ t.state.uploads, u.output.isSome → u.stands = false) :
    t.AllSafe := by
  intro u hu output houtput hstands
  rw [hnone u hu (by simp [houtput])] at hstands
  cases hstands

/-- An upload to one destination is not the last to another. -/
theorem lastOf_of_ne {upload : InFlight} {ok : Bool} {done : List Recorded} {v : Upload} {output : String}
    (houtput : v.output = some output) (hne : v.key ≠ (upload.dest, some upload.output)) :
    lastOf (⟨upload, ok⟩ :: done) v.dest output = lastOf done v.dest output := by
  refine List.find?_cons_of_neg fun hsame => ?_
  obtain ⟨hdest, hout⟩ : upload.dest = v.dest ∧ upload.output = output := of_decide_eq_true hsame
  exact hne (by simp [Upload.key, houtput, hdest, hout])

/-- **What an upload that began late enough records is safe, and no other output is less so.** -/
theorem record_allSafe (hkeys : (t.state.uploads.map Upload.key).Nodup) {upload : InFlight}
    (hbegan : t.wrote < upload.began) (hsafe : t.AllSafe) (answer : Answer) :
    (t.record upload answer).AllSafe := by
  cases answer with
  | skipped => exact hsafe
  | ok stamp =>
    intro v hv output houtput hstands
    rcases mem_noteUpload hkeys hv with ⟨hmem, hne⟩ | ⟨hkey, -⟩
    · obtain ⟨r, hr, hok, hlate⟩ := hsafe v hmem output houtput hstands
      exact ⟨r, (lastOf_of_ne houtput hne).trans hr, hok, hlate⟩
    · obtain ⟨hdest, hout⟩ := Prod.mk.inj hkey
      rw [houtput] at hout
      refine ⟨⟨upload, true⟩, ?_, rfl, hbegan⟩
      exact List.find?_cons_of_pos (by simp [hdest, Option.some.inj hout])
  | failed error htext =>
    intro v hv output houtput hstands
    rcases mem_noteUpload hkeys hv with ⟨hmem, hne⟩ | ⟨-, u, rfl⟩
    · obtain ⟨r, hr, hok, hlate⟩ := hsafe v hmem output houtput hstands
      exact ⟨r, (lastOf_of_ne houtput hne).trans hr, hok, hlate⟩
    · simp [Upload.note, Upload.stands, present, htext] at hstands

theorem record_keys (hkeys : (t.state.uploads.map Upload.key).Nodup) (upload : InFlight)
    (answer : Answer) : ((t.record upload answer).state.uploads.map Upload.key).Nodup := by
  cases answer with
  | skipped => exact hkeys
  | ok | failed => exact noteUpload_nodup hkeys

/-- A section that leaves no success of an output on record keeps what holds. -/
theorem Vouched.cleared (h : t.Vouched) (hkeys : (t'.state.uploads.map Upload.key).Nodup)
    (hnone : ∀ u ∈ t'.state.uploads, u.output.isSome → u.stands = false)
    (hwrote : t'.wrote = t.wrote) (hmoment : t'.moment = t.moment) (hdrains : t'.drains = t.drains)
    (hruns : t'.runner.isSome → t'.state.status = .running)
    (hidle : t'.state.status = .running → t.state.status = .running)
    (hpass : ∀ upload, t'.runner ≠ some (.final (some upload))) : t'.Vouched where
  keys := hkeys
  moments := by rw [hwrote, hmoment]; exact h.moments
  runs := hruns
  idle hrunning := by rw [hdrains]; exact h.idle (hidle hrunning)
  drains := by rw [hdrains, hwrote]; exact h.drains
  safe _ := allSafe_of_none hnone
  pass upload hupload := absurd hupload (hpass upload)

/-- An upload that ends keeps what holds, if it began late enough where that matters. -/
theorem Vouched.recorded (h : t.Vouched) (upload : InFlight) (answer : Answer)
    (runner : Option SyncStage) (drains : List InFlight) (hdrains : ∀ u ∈ drains, u ∈ t.drains)
    (hruns : runner.isSome → t.state.status = .running)
    (hsafe : t.state.status ≠ .running ∨ runner = some (.before false) ∨
      (∃ upload, runner = some (.final upload)) → t.AllSafe ∧ t.wrote < upload.began)
    (hpass : ∀ upload, runner ≠ some (.final (some upload))) :
    { t.record upload answer with runner, drains }.Vouched := by
  have hstatus : (t.record upload answer).state.status = t.state.status := by cases answer <;> rfl
  have hwrote : (t.record upload answer).wrote = t.wrote := by cases answer <;> rfl
  have hmoment : (t.record upload answer).moment = t.moment := by cases answer <;> rfl
  refine ⟨record_keys h.keys upload answer, ?_, ?_, ?_, ?_, ?_, ?_⟩
  · rw [hwrote, hmoment]
    exact h.moments
  · rw [hstatus]
    exact hruns
  · rw [hstatus]
    intro hrunning
    have hnil := h.idle hrunning
    exact List.eq_nil_iff_forall_not_mem.mpr fun u hu => by simpa [hnil] using hdrains u hu
  · rw [hwrote]
    exact fun u hu => h.drains u (hdrains u hu)
  · rw [hstatus]
    intro hcase
    obtain ⟨hall, hbegan⟩ := hsafe hcase
    exact record_allSafe h.keys hbegan hall answer
  · exact fun u hu => absurd hu (hpass u)

/-- The runner's own upload ends. -/
theorem Vouched.uploaded (h : t.Vouched) (upload : InFlight) (answer : Answer) (runner : SyncStage)
    (hrunning : t.state.status = .running)
    (hsafe : t.state.status ≠ .running ∨ some runner = some (.before false) ∨
      (∃ upload, some runner = some (.final upload)) → t.AllSafe ∧ t.wrote < upload.began)
    (hpass : ∀ upload, runner ≠ .final (some upload)) :
    { t.record upload answer with runner := some runner }.Vouched := by
  have hdrains : (t.record upload answer).drains = t.drains := by cases answer <;> rfl
  have hrecorded := h.recorded upload answer (some runner) t.drains (fun _ hu => hu) (fun _ => hrunning)
    hsafe (fun upload hfinal => hpass upload (Option.some.inj hfinal))
  rw [← hdrains] at hrecorded
  exact hrecorded

/-- In the middle of an attempt nothing is known to be safe. -/
theorem middle {status : Status} {runner : Option SyncStage} (hrunning : status = .running)
    (hbefore : runner ≠ some (.before false)) (hfinal : ∀ upload, runner ≠ some (.final upload)) :
    ¬ (status ≠ .running ∨ runner = some (.before false) ∨
      ∃ upload, runner = some (.final upload)) := by
  rintro (hnot | hrunner | ⟨upload, hrunner⟩)
  · exact hnot hrunning
  · exact hbefore hrunner
  · exact hfinal upload hrunner

/-- While a process of the job runs, nothing is known to be safe. -/
theorem works_vouched (h : t.Vouched) (hrunning : t.state.status = .running) {runner : Option SyncStage}
    (hbefore : runner ≠ some (.before false)) (hfinal : ∀ upload, runner ≠ some (.final upload)) :
    (t.works runner).Vouched where
  keys := h.keys
  moments := Nat.le_refl _
  runs _ := hrunning
  idle := h.idle
  drains upload hupload := by
    have hnil : t.drains = [] := h.idle hrunning
    rw [works, hnil] at hupload
    exact absurd hupload List.not_mem_nil
  safe hcase := absurd hcase (middle hrunning hbefore hfinal)
  pass upload hupload := absurd hupload (hfinal _)

/-! ## Every step -/

theorem claim_vouched (h : t.Vouched) {attempt : Nat} {spec : Option JobSpec} {assigned : List Uuid}
    {isolation now : String} {who : Identity}
    (ho : t.Orderly (.claim attempt spec assigned isolation now who))
    (hstep : t.step (.claim attempt spec assigned isolation now who) = some t') : t'.Vouched := by
  simp only [step] at hstep
  split at hstep
  · next state hclaim =>
    obtain rfl := Option.some.inj hstep
    obtain ⟨hqueued, -, hrunning, -⟩ := claim_eq_some hclaim
    refine h.section (claim_uploads hclaim) rfl rfl (Nat.le_refl _) rfl (fun _ => hrunning)
      (fun _ => .inr (ho hqueued)) (fun _ => h.safe (.inl ?_)) nofun
    rw [hqueued]
    nofun
  · obtain rfl := Option.some.inj hstep
    exact h

theorem runner_vouched (h : t.Vouched) {label : Step}
    (hlabel : label = .works ∨ label = .mainStarts ∨ label = .mainStops ∨ label = .clears ∨
      label = .killed)
    (hstep : t.step label = some t') : t'.Vouched := by
  rcases hlabel with rfl | rfl | rfl | rfl | rfl
  · simp only [step] at hstep
    split at hstep
    · next hrunner =>
      obtain rfl := Option.some.inj hstep
      exact works_vouched h (h.runs (by simp [hrunner])) (by simp) (by simp)
    · next hrunner =>
      obtain rfl := Option.some.inj hstep
      exact works_vouched h (h.runs (by simp [hrunner])) (by simp) (by simp)
    · split at hstep
      · next hrunning =>
        obtain rfl := Option.some.inj hstep
        exact works_vouched h hrunning (by simp) (by simp)
      · cases hstep
    all_goals cases hstep
  · simp only [step] at hstep
    split at hstep
    · next hrunner =>
      obtain rfl := Option.some.inj hstep
      have hstatus := (updateState_sameLife t.state .mainStarted).status
      have hrunning := h.runs (by simp [hrunner])
      refine h.section (applyFields_uploads _ _) rfl rfl (Nat.le_refl _) rfl
        (fun _ => hstatus.trans hrunning) (fun _ => .inl hrunning) (fun hcase => ?_) nofun
      exact absurd hcase (middle (hstatus.trans hrunning) (by simp) (by simp))
    · cases hstep
  · simp only [step] at hstep
    split at hstep
    · next hrunner =>
      obtain rfl := Option.some.inj hstep
      have hrunning := h.runs (by simp [hrunner])
      refine h.section rfl rfl rfl (Nat.le_refl _) rfl
        (fun _ => hrunning) (fun _ => .inl hrunning) (fun hcase => ?_) nofun
      exact absurd hcase (middle hrunning (by simp) (by simp))
    · cases hstep
  · simp only [step] at hstep
    split at hstep
    · next hrunner =>
      obtain rfl := Option.some.inj hstep
      have hrunning := h.runs (by simp [hrunner])
      refine h.cleared ?_ (fun u hu => forget_stands hu) rfl rfl rfl (fun _ => hrunning)
        (fun _ => hrunning) nofun
      exact (forget_keys t.state).symm ▸ h.keys
    · cases hstep
  · simp only [step] at hstep
    split at hstep
    · next hrunner =>
      obtain rfl := Option.some.inj hstep
      have hrunning := h.runs hrunner
      exact h.section rfl rfl rfl (Nat.le_refl _) rfl nofun (fun _ => .inl hrunning)
        (fun hcase => absurd hcase (middle hrunning nofun nofun)) nofun
    · cases hstep

theorem upload_vouched (h : t.Vouched) {label : Step}
    (hlabel : (∃ dest output, label = .uploadBegins dest output) ∨ ∃ answer, label = .uploadEnds answer)
    (hstep : t.step label = some t') : t'.Vouched := by
  rcases hlabel with ⟨dest, output, rfl⟩ | ⟨answer, rfl⟩
  · simp only [step] at hstep
    split at hstep
    · next hrunner =>
      obtain rfl := Option.some.inj hstep
      have hrunning := h.runs (by simp [hrunner])
      exact h.section rfl rfl rfl (Nat.le_succ _) rfl (fun _ => hrunning) (fun _ => .inl hrunning)
        (fun hcase => absurd hcase (middle hrunning (by simp) (by simp))) (by simp)
    · next hrunner =>
      obtain rfl := Option.some.inj hstep
      have hrunning := h.runs (by simp [hrunner])
      exact h.section rfl rfl rfl (Nat.le_succ _) rfl (fun _ => hrunning) (fun _ => .inl hrunning)
        (fun hcase => absurd hcase (middle hrunning (by simp) (by simp))) (by simp)
    · next hrunner =>
      obtain rfl := Option.some.inj hstep
      have hrunning := h.runs (by simp [hrunner])
      refine h.section rfl rfl rfl (Nat.le_succ _) rfl (fun _ => hrunning) (fun _ => .inl hrunning)
        (fun _ => h.safe (.inr (.inr ⟨none, hrunner⟩))) fun upload hupload => ?_
      cases hupload
      exact Nat.lt_succ_of_le h.moments
    · cases hstep
  · simp only [step] at hstep
    split at hstep
    · next upload hrunner =>
      obtain rfl := Option.some.inj hstep
      have hrunning := h.runs (by simp [hrunner])
      exact h.uploaded upload answer (.main none) hrunning
        (fun hcase => absurd hcase (middle hrunning (by simp) (by simp))) nofun
    · next upload hrunner =>
      obtain rfl := Option.some.inj hstep
      have hrunning := h.runs (by simp [hrunner])
      exact h.uploaded upload answer (.over none) hrunning
        (fun hcase => absurd hcase (middle hrunning (by simp) (by simp))) nofun
    · next upload hrunner =>
      obtain rfl := Option.some.inj hstep
      have hrunning := h.runs (by simp [hrunner])
      exact h.uploaded upload answer (.final none) hrunning
        (fun _ => ⟨h.safe (.inr (.inr ⟨_, hrunner⟩)), h.pass upload hrunner⟩) nofun
    · cases hstep

/-- A runner that is past its final pass, or makes none, has the job safe, in an orderly run. -/
theorem settled_safe (h : t.Vouched) {runner : SyncStage} (hrunner : t.runner = some runner)
    (hsettled : runner.settled = true)
    (ho : t.runner = some (.before true) →
      ∀ u ∈ t.state.uploads, u.output.isSome → u.stands = false) : t.AllSafe := by
  match runner, hsettled with
  | .before false, _ => exact h.safe (.inr (.inl hrunner))
  | .before true, _ => exact allSafe_of_none (ho hrunner)
  | .final none, _ => exact h.safe (.inr (.inr ⟨none, hrunner⟩))

theorem ends_vouched (h : t.Vouched) {outcome : Outcome} {now : String} {problems : List String}
    (ho : t.Orderly (.ends outcome now problems))
    (hstep : t.step (.ends outcome now problems) = some t') : t'.Vouched := by
  simp only [step] at hstep
  split at hstep
  · next runner hfilter =>
    obtain ⟨hrunner, hsettled⟩ := Option.filter_eq_some_iff.mp hfilter
    have hrunning := h.runs (by simp [hrunner])
    split at hstep
    · obtain rfl := Option.some.inj hstep
      cases hfinish : finish t.state outcome now .running false [.problems problems] with
      | none =>
        unfold finish at hfinish
        rw [if_neg (by simp [hrunning])] at hfinish
        cases hfinish
      | some written =>
        have hstopped : written.status ≠ .running := by
          intro hstill
          obtain ⟨-, hended, -⟩ := finish_eq_some (by simp [Field.ofClaim]) hfinish
          have hdone := outcome.isFinished
          rw [← hended, hstill] at hdone
          cases hdone
        exact h.section (finish_uploads hfinish) rfl rfl (Nat.le_refl _) rfl
          (fun hsome => by cases hsome) (fun hstill => absurd hstill hstopped)
          (fun _ => settled_safe h hrunner hsettled ho) fun _ heq => by cases heq
    · cases hstep
  · cases hstep

theorem writeQueuedAgain_vouched (h : t.Vouched) (ran : Bool) (restarts : Option Nat) :
    { t with state := writeQueuedAgain t.state ran restarts, runner := none }.Vouched :=
  h.cleared List.nodup_nil (fun _ hu => absurd hu List.not_mem_nil) rfl rfl rfl nofun nofun nofun

theorem nextAttempt_vouched (h : t.Vouched) (hstep : t.step .nextAttempt = some t') : t'.Vouched := by
  simp only [step] at hstep
  split at hstep
  · next runner hfilter =>
    split at hstep
    · next written hnext =>
      obtain rfl := Option.some.inj hstep
      unfold Host.nextAttempt at hnext
      split at hnext
      · cases hnext
      · obtain rfl := Option.some.inj hnext
        exact writeQueuedAgain_vouched h _ none
    · obtain rfl := Option.some.inj hstep
      exact h
  · cases hstep

/-- A job that no runner has may be ended with every success forgotten. -/
theorem forgets_vouched (h : t.Vouched) (hrunner : t.runner = none) {outcome : Outcome} {now : String}
    {expect : Expect} (requeues : List Outcome) :
    { t.write (finish t.state outcome now expect.status true) with requeues }.Vouched := by
  cases hfinish : finish t.state outcome now expect.status true with
  | none =>
    exact h.section rfl rfl rfl (Nat.le_refl _) rfl h.runs .inl h.safe h.pass
  | some written =>
    obtain ⟨-, hended, -⟩ := finish_eq_some (fun f hf => absurd hf List.not_mem_nil) hfinish
    have hstopped : written.status ≠ .running := by
      intro hstill
      have hdone := outcome.isFinished
      rw [← hended, hstill] at hdone
      cases hdone
    have huploads := finish_uploads hfinish
    rw [if_pos rfl] at huploads
    refine h.cleared ?_ ?_ rfl rfl rfl ?_ (fun hstill => absurd hstill hstopped) ?_
    · change (written.uploads.map Upload.key).Nodup
      rw [huploads, forget_keys]
      exact h.keys
    · intro u hu
      change u ∈ written.uploads at hu
      rw [huploads] at hu
      exact forget_stands hu
    · intro hsome
      change t.runner.isSome at hsome
      rw [hrunner] at hsome
      cases hsome
    · intro upload hupload
      change t.runner = _ at hupload
      rw [hrunner] at hupload
      cases hupload

theorem failQueued_vouched (h : t.Vouched) {reason now : String}
    (hstep : t.step (.failQueued reason now) = some t') : t'.Vouched := by
  obtain rfl := Option.some.inj hstep
  cases hfinish : finish t.state { status := .failed, reason := some reason, ran := false } now .queued with
  | none => exact h
  | some written =>
    obtain ⟨hqueued, hended, -⟩ := finish_eq_some (fun f hf => absurd hf List.not_mem_nil) hfinish
    have hstill : t.state.status ≠ .running := by
      rw [hqueued]
      nofun
    have hnone : t.runner = none := by
      by_contra hsome
      exact hstill (h.runs (Option.isSome_iff_ne_none.mpr hsome))
    refine h.section (finish_uploads hfinish) rfl rfl (Nat.le_refl _) rfl ?_ ?_ (fun _ => h.safe (.inl hstill)) ?_
    · intro hsome
      change t.runner.isSome at hsome
      rw [hnone] at hsome
      cases hsome
    · intro hrunning
      change written.status = _ at hrunning
      rw [hended] at hrunning
      cases hrunning
    · exact h.pass

theorem restart_vouched (h : t.Vouched) {boot : Boot} (hstep : t.step (.restart boot) = some t') :
    t'.Vouched := by
  simp only [step] at hstep
  split at hstep
  · cases hstep
  · next hrunner =>
    have hnone : t.runner = none := by simpa using hrunner
    split at hstep
    · obtain rfl := Option.some.inj hstep
      exact h
    · next state hagain =>
      obtain rfl := Option.some.inj hstep
      have hfresh : ∃ ran restarts, state = writeQueuedAgain t.state ran restarts := by
        unfold requeueAfterRestart at hagain
        split at hagain
        · cases hagain
        · split at hagain
          · exact ⟨_, _, (Requeue.again.inj hagain).symm⟩
          · split at hagain
            · exact ⟨_, _, (Requeue.again.inj hagain).symm⟩
            · split at hagain <;> cases hagain
      obtain ⟨ran, restarts, rfl⟩ := hfresh
      have hwritten := writeQueuedAgain_vouched h ran restarts
      rw [← hnone] at hwritten
      exact hwritten
    · obtain rfl := Option.some.inj hstep
      exact h.section rfl rfl rfl (Nat.le_refl _) rfl h.runs .inl h.safe h.pass

theorem drain_vouched (h : t.Vouched) {label : Step}
    (hlabel : (∃ dest output, label = .drainBegins dest output) ∨
      ∃ i answer, label = .drainEnds i answer)
    (hstep : t.step label = some t') : t'.Vouched := by
  rcases hlabel with ⟨dest, output, rfl⟩ | ⟨i, answer, rfl⟩
  · simp only [step] at hstep
    split at hstep
    · cases hstep
    · next hidle =>
      obtain rfl := Option.some.inj hstep
      refine ⟨h.keys, h.moments.trans (Nat.le_succ _), h.runs, fun hrunning => absurd hrunning hidle, ?_,
        h.safe, h.pass⟩
      intro upload hupload
      rcases List.mem_append.mp hupload with hupload | hupload
      · exact h.drains upload hupload
      · obtain rfl := List.mem_singleton.mp hupload
        exact Nat.lt_succ_of_le h.moments
  · simp only [step] at hstep
    split at hstep
    · next upload hupload =>
      obtain rfl := Option.some.inj hstep
      have hmem : upload ∈ t.drains := List.mem_of_getElem? hupload
      have hidle : t.state.status ≠ .running := by
        intro hrunning
        rw [h.idle hrunning] at hmem
        exact absurd hmem List.not_mem_nil
      have hnone : t.runner = none := by
        by_contra hsome
        exact hidle (h.runs (Option.isSome_iff_ne_none.mpr hsome))
      have hrunner : (t.record upload answer).runner = none := by cases answer <;> exact hnone
      have hrecorded := h.recorded upload answer none (t.drains.eraseIdx i)
        (fun u hu => List.mem_of_mem_eraseIdx hu) nofun
        (fun _ => ⟨h.safe (.inl hidle), h.drains upload hmem⟩) nofun
      rw [← hrunner] at hrecorded
      exact hrecorded
    · cases hstep

/-- What others ask of the job, and what is reported of it, touches no record of an output. -/
theorem request_vouched (h : t.Vouched) {state : JobState} (huploads : state.uploads = t.state.uploads)
    (hstatus : state.status = t.state.status) : { t with state }.Vouched := by
  refine h.section huploads rfl rfl (Nat.le_refl _) rfl (fun hsome => hstatus.trans (h.runs hsome))
    (fun hrunning => .inl (hstatus ▸ hrunning)) ?_ h.pass
  rw [hstatus]
  exact h.safe

theorem cancel_vouched (h : t.Vouched) (now : String) : { t with state := (cancel t.state now).2 }.Vouched := by
  by_cases hqueued : t.state.status = .queued
  · have hstill : t.state.status ≠ .running := by
      rw [hqueued]
      nofun
    have hcancelled : (cancel t.state now).2.status ≠ .running := by
      simp [cancel, JobState.finished, hqueued, Status.finished]
    refine h.section (cancel_uploads t.state now) rfl rfl (Nat.le_refl _) rfl
      (fun hsome => absurd (h.runs hsome) hstill) (fun hrunning => absurd hrunning hcancelled)
      (fun _ => h.safe (.inl hstill)) h.pass
  · refine request_vouched h (cancel_uploads t.state now) ?_
    unfold cancel
    split
    · rfl
    · rfl

theorem mirrors_vouched (h : t.Vouched) (dest : String) (okAt error : Option String) :
    { t with state := recordUpload t.state dest none okAt error }.Vouched := by
  refine ⟨noteUpload_nodup h.keys, h.moments, h.runs, h.idle, h.drains, fun hcase => ?_, h.pass⟩
  intro u hu output houtput hstands
  rcases mem_noteUpload h.keys hu with ⟨hmem, -⟩ | ⟨hkey, -⟩
  · exact h.safe hcase u hmem output houtput hstands
  · rw [Upload.key, houtput] at hkey
    cases hkey

/-- **Every orderly step keeps what the records vouch for.** -/
theorem step_vouched (h : t.Vouched) {label : Step} (ho : t.Orderly label)
    (hstep : t.step label = some t') : t'.Vouched := by
  cases label with
  | claim => exact claim_vouched h ho hstep
  | works => exact runner_vouched h (by simp) hstep
  | mainStarts => exact runner_vouched h (by simp) hstep
  | mainStops => exact runner_vouched h (by simp) hstep
  | clears => exact runner_vouched h (by simp) hstep
  | killed => exact runner_vouched h (by simp) hstep
  | uploadBegins dest output => exact upload_vouched h (.inl ⟨dest, output, rfl⟩) hstep
  | uploadEnds answer => exact upload_vouched h (.inr ⟨answer, rfl⟩) hstep
  | nextAttempt => exact nextAttempt_vouched h hstep
  | ends => exact ends_vouched h ho hstep
  | runnerDied now expect =>
    simp only [step] at hstep
    split at hstep
    · cases hstep
    · next hrunner =>
      obtain rfl := Option.some.inj hstep
      exact forgets_vouched h (by simpa using hrunner) t.requeues
  | failQueued => exact failQueued_vouched h hstep
  | restart => exact restart_vouched h hstep
  | restartEnds i now =>
    simp only [step] at hstep
    split at hstep
    · obtain rfl := Option.some.inj hstep
      exact @forgets_vouched _ h ho _ _ .running _
    · cases hstep
  | drainBegins dest output => exact drain_vouched h (.inl ⟨dest, output, rfl⟩) hstep
  | drainEnds i answer => exact drain_vouched h (.inr ⟨i, answer, rfl⟩) hstep
  | cancel now =>
    obtain rfl := Option.some.inj hstep
    exact cancel_vouched h now
  | preempt draining jobs jobId priority =>
    obtain rfl := Option.some.inj hstep
    cases hpreempt : preempt draining jobs jobId priority t.state with
    | error why => exact h
    | ok written =>
      obtain ⟨-, -, rfl⟩ := preempt_eq_ok hpreempt
      exact request_vouched h rfl rfl
  | apply shown jobId elapsed patch =>
    obtain rfl := Option.some.inj hstep
    cases happly : Host.apply shown jobId elapsed patch t.state with
    | error why => exact h
    | ok written => exact request_vouched h (apply_uploads happly) (apply_sameLife happly).status
  | report r =>
    obtain rfl := Option.some.inj hstep
    exact request_vouched h (applyFields_uploads _ _) (updateState_sameLife t.state r).status
  | mirrors dest okAt error =>
    obtain rfl := Option.some.inj hstep
    exact mirrors_vouched h dest okAt error

end Steps

/-! ## The law -/

/-- A job whose records are safe vouches for its outputs. -/
theorem Vouched.vouches {t : Tracked} (h : t.Vouched) (fields : Fields) (spec : JobSpec) :
    t.Vouches fields spec := by
  intro hidle _ huploaded output houtput destinations hdestinations destination hdestination
  obtain ⟨wanted, hwanted, hall⟩ := bind_eq_ok huploaded
  have hpair := mem_wantedUploads hwanted houtput hdestinations hdestination
  have hany := List.all_eq_true.mp (Except.ok.inj hall) _ hpair
  obtain ⟨u, hu, hfound⟩ := List.any_eq_true.mp hany
  obtain ⟨hout, hdest, hstands⟩ := of_decide_eq_true hfound
  have hsafe := h.safe (.inl hidle) u hu output.path hout hstands
  rw [hdest] at hsafe
  exact hsafe

/-- **The law of the records.** In a run of orderly steps, what is on record as uploaded of a job that
does not run has its last files at every destination. -/
theorem uploads_vouch (fields : Fields) (spec : JobSpec) (steps : List Step) (t : Tracked)
    (hrun : machine.run (initial spec) steps = some t)
    (horderly : ∀ p ∈ machine.trace (initial spec) steps, p.1.Orderly p.2) : t.Vouches fields spec :=
  (Machine.run_invariant_of (C := Orderly) (fun _ _ _ h ho hstep => step_vouched h ho hstep)
    (initial_vouched spec) horderly hrun).vouches fields spec

/-- A job with one output, that goes to one place. -/
def oneOutput : JobSpec where
  jobId := "a"
  outputs := [{ path := "out", s3 := some "s3://b" }]

/-- An attempt with its final pass. -/
def finalPass : List Step :=
  [.claim 1 none [] "none" "1" { pid := 1 }, .works, .mainStarts, .works, .mainStops, .clears,
    .uploadBegins "s3://b" "out", .uploadEnds (.ok "2"),
    .ends { status := .succeeded, ran := true } "3" []]

theorem uploads_vouch_final_pass :
    ∃ t, machine.run (initial oneOutput) finalPass = some t ∧ t.Safe "s3://b" "out" := by
  have hends : (machine.run (initial oneOutput) finalPass).map (fun t =>
      (t.state.status, t.state.ran, (outputsUploaded Control.jobIdOnly t.state oneOutput).toOption)) =
      some (.succeeded, true, some true) := by decide +kernel
  obtain ⟨t, hrun, hat⟩ := Option.map_eq_some_iff.mp hends
  obtain ⟨hstatus, hran, huploaded⟩ : t.state.status = .succeeded ∧ t.state.ran = true ∧
      (outputsUploaded Control.jobIdOnly t.state oneOutput).toOption = some true := by simpa using hat
  have hvouches := uploads_vouch Control.jobIdOnly oneOutput finalPass t hrun (by decide +kernel)
  refine ⟨t, hrun, hvouches (by simp [hstatus]) hran (toOption_eq_some huploaded)
    { path := "out", s3 := some "s3://b" } (by simp [oneOutput]) [.s3 "s3://b"] ?_ (.s3 "s3://b") (by simp)⟩
  decide +kernel

/-- Another job is queued. -/
def another : Jobs :=
  .ofList [("b", { spec := some { jobId := "b" }, state := .initial { jobId := "b" } })]

/-- A preempted job's output goes up in a drain; the host stays up, and the next attempt fails in its
setup. -/
def drainedBetween : List Step :=
  [.claim 1 none [] "none" "1" { pid := 1 }, .works, .mainStarts, .works,
    .preempt false another "a" (some 60), .mainStops, .clears, .nextAttempt,
    .drainBegins "s3://b" "out", .drainEnds 0 (.ok "2"),
    .claim 2 none [] "none" "3" { pid := 2 }, .works,
    .ends { status := .failed, reason := some "setup-exit-1", ran := false } "4" []]

/-- **A success from before the setup is kept.** -/
theorem stale_after_drain :
    ∃ t, machine.run (initial oneOutput) drainedBetween = some t ∧
      ¬ t.Vouches Control.jobIdOnly oneOutput := by
  have hends : (machine.run (initial oneOutput) drainedBetween).map (fun t =>
      (t.state.status, t.state.ran, (outputsUploaded Control.jobIdOnly t.state oneOutput).toOption,
        lastOf t.done "s3://b" "out", t.wrote)) =
      some (.failed, true, some true, some ⟨⟨"s3://b", "out", 3⟩, true⟩, 4) := by decide +kernel
  obtain ⟨t, hrun, hat⟩ := Option.map_eq_some_iff.mp hends
  obtain ⟨hstatus, hran, huploaded, hlast, hwrote⟩ : t.state.status = .failed ∧ t.state.ran = true ∧
      (outputsUploaded Control.jobIdOnly t.state oneOutput).toOption = some true ∧
      lastOf t.done "s3://b" "out" = some ⟨⟨"s3://b", "out", 3⟩, true⟩ ∧ t.wrote = 4 := by
    simpa using hat
  refine ⟨t, hrun, fun hvouches => ?_⟩
  obtain ⟨r, hr, -, hlate⟩ := hvouches (by simp [hstatus]) hran (toOption_eq_some huploaded)
    { path := "out", s3 := some "s3://b" } (by simp [oneOutput]) [.s3 "s3://b"] (by decide +kernel)
    (.s3 "s3://b") (by simp)
  obtain rfl : r = ⟨⟨"s3://b", "out", 3⟩, true⟩ := Option.some.inj (hr.symm.trans hlast)
  rw [hwrote] at hlate
  exact absurd hlate (by decide)

end Tracked

end Gpuc.Host
