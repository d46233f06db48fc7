import Gpuc.Snakemake.InFlight

/-!
# An accepted job is in flight until its end was reported

The law (`tracked_iff`): in a run whose steps all meet a condition, every gpuc job that was accepted and
whose end was not reported is in flight, where `cancel` names it, and nothing else is; and the first step
that does not meet it breaks this. The condition (`Meets`) is that nothing but an `OSError` is raised
while a record is written, and nothing at all while one is removed.

The executor does not see to either. The fingerprint of a record goes through `json.dumps` with sorted
keys, which raises a `TypeError` for a config whose mapping has keys of two kinds (`recordable_iff`): the
submit was accepted, and the id is lost (`unsorted_config_lost`). A record that cannot be removed raises
out of the report of an end, after the job was taken out.

gpuc gives each submit an id of its own (`OwnIds`).
-/

set_option autoImplicit false

namespace Gpuc.Snakemake

open Gpuc.Basis

/-! ## What can be recorded -/

/-- **Nothing but an `OSError` is raised while the record is written.** -/
structure Recorded (parts : Parts) (files : RecordFiles) : Prop where
  script : parts.script ≠ none → parts.script ≠ some "" → ∀ e, files.script ≠ .raised e
  config : ¬ parts.config.Unwritable
  params : ∀ p ∈ parts.params, ¬ p.2.Unwritable
  write : ∀ e, files.write ≠ .raised e

/-- The directory cannot be made, which is logged, or the record raises nothing that is not. -/
def Recordable (parts : Parts) (files : RecordFiles) : Prop :=
  files.mkdir = .osError ∨ files.mkdir = .done () ∧ Recorded parts files

theorem optText_writable (text : Option String) : ¬ (optText text).Unwritable := by
  intro h
  cases text <;> cases h

theorem texts_writable (texts : List String) : ¬ (Object.arr (texts.map .str)).Unwritable := by
  intro h
  cases h with
  | item hv h =>
    obtain ⟨text, -, rfl⟩ := List.mem_map.mp hv
    cases h

/-- A mapping whose keys are strings is written exactly when its values are. -/
theorem unwritable_obj {pairs : List (String × Object)} :
    (Object.obj (pairs.map fun p => (.str p.1, p.2))).Unwritable ↔ ∃ p ∈ pairs, p.2.Unwritable := by
  constructor
  · intro h
    cases h with
    | mixed h =>
      refine absurd (.inr (.inr ?_)) h
      intro key hkey
      simp only [List.map_map, List.mem_map, Function.comp_apply] at hkey
      obtain ⟨p, -, rfl⟩ := hkey
      rfl
    | key hitem h =>
      obtain ⟨p, -, hp⟩ := List.mem_map.mp hitem
      cases hp
      cases h
    | member hitem h =>
      obtain ⟨p, hp, heq⟩ := List.mem_map.mp hitem
      cases heq
      exact ⟨p, hp, h⟩
  · rintro ⟨p, hp, h⟩
    exact .member (List.mem_map.mpr ⟨p, hp, rfl⟩) h

/-- What is hashed is written exactly when the config and each of the params are. -/
theorem toObject_unwritable {parts : Parts} {bytes : Option String} :
    (parts.toObject bytes).Unwritable ↔
      parts.config.Unwritable ∨ ∃ p ∈ parts.params, p.2.Unwritable := by
  have hshape : parts.toObject bytes = .obj (([("config", parts.config), ("code", optText parts.code),
      ("script", .arr [optText parts.script, optText bytes]), ("shellcmd", optText parts.shellcmd),
      ("params", .obj (parts.params.map fun p => (.str p.1, p.2))),
      ("input", .arr ((sortedBy id parts.input).map .str)),
      ("output", .arr ((sortedBy id parts.output).map .str))] : List (String × Object)).map
        fun p => (.str p.1, p.2)) := rfl
  have hscript : ¬ (Object.arr [optText parts.script, optText bytes]).Unwritable := by
    intro h
    cases h with
    | item hv h =>
      rcases List.mem_cons.mp hv with rfl | hv
      · exact optText_writable _ h
      · rw [List.mem_singleton.mp hv] at h
        exact optText_writable _ h
  rw [hshape, unwritable_obj]
  simp [optText_writable, texts_writable, hscript, unwritable_obj]

theorem scriptBytes_iff {parts : Parts} {read : FileOp String} :
    (∃ bytes, parts.scriptBytes read = .ok bytes) ↔
      (parts.script ≠ none → parts.script ≠ some "" → ∀ e, read ≠ .raised e) := by
  unfold Parts.scriptBytes
  split
  · next hnone => exact ⟨fun _ hsome => absurd hnone hsome, fun _ => ⟨none, rfl⟩⟩
  · next hempty => exact ⟨fun _ _ hsome => absurd hempty hsome, fun _ => ⟨none, rfl⟩⟩
  · next path hempty hpath =>
    have hscript : parts.script ≠ none ∧ parts.script ≠ some "" := by
      refine ⟨by rw [hpath]; nofun, fun h => hempty ?_⟩
      rw [hpath] at h
      exact Option.some.inj h
    cases read with
    | done digest => exact ⟨fun _ _ _ e => nofun, fun _ => ⟨_, rfl⟩⟩
    | osError => exact ⟨fun _ _ _ e => nofun, fun _ => ⟨_, rfl⟩⟩
    | raised e =>
      exact ⟨fun ⟨_, hread⟩ => (nomatch hread), fun hno => absurd rfl (hno hscript.1 hscript.2 e)⟩

/-- **A fingerprint is made exactly when the script raises nothing but an `OSError`, and the config and
the params are written as JSON.** -/
theorem fingerprint_iff {h : Hashing} {parts : Parts} {read : FileOp String} :
    (∃ print, fingerprint h parts read = .ok print) ↔
      (parts.script ≠ none → parts.script ≠ some "" → ∀ e, read ≠ .raised e) ∧
        ¬ parts.config.Unwritable ∧ ∀ p ∈ parts.params, ¬ p.2.Unwritable := by
  have hwrites : ∀ bytes, (∃ print, (do
      let document ← (parts.toObject bytes).toJson h.texts
      let encoded ← Json.dumps h.texts none document
      pure (h.sha256 encoded) : Except Raised String) = .ok print) ↔
        ¬ parts.config.Unwritable ∧ ∀ p ∈ parts.params, ¬ p.2.Unwritable := by
    intro bytes
    have hobject : (¬ parts.config.Unwritable ∧ ∀ p ∈ parts.params, ¬ p.2.Unwritable) ↔
        ¬ (parts.toObject bytes).Unwritable := by
      rw [toObject_unwritable, not_or]
      simp
    rw [hobject, ← Object.exists_toJson h.texts]
    constructor
    · rintro ⟨print, hprint⟩
      obtain ⟨document, hdocument, -⟩ := bind_eq_ok hprint
      exact ⟨document, hdocument⟩
    · rintro ⟨document, hdocument⟩
      have hshort := Object.hasLongInt_toJson hdocument
      rw [hdocument]
      refine ⟨h.sha256 (Json.encode h.texts none 0 document), ?_⟩
      show (Json.dumps h.texts none document >>= _) = _
      rw [Json.dumps, hshort]
      rfl
  unfold fingerprint
  rw [exists_bind_ok, ← scriptBytes_iff]
  constructor
  · rintro ⟨bytes, hbytes, hprint⟩
    exact ⟨⟨bytes, hbytes⟩, (hwrites bytes).mp hprint⟩
  · rintro ⟨⟨bytes, hbytes⟩, hwritable⟩
    exact ⟨bytes, hbytes, (hwrites bytes).mpr hwritable⟩

/-- **A record is written, or its failure logged, exactly when it is recordable.** -/
theorem exists_written {write : FileOp Unit} {print : String} :
    (∃ result, (match write with
      | .done () => pure (some print)
      | .osError => pure none
      | .raised e => .error e : Except Raised (Option String)) = .ok result) ↔
      ∀ e, write ≠ .raised e := by
  cases write with
  | done u => exact iff_of_true ⟨_, rfl⟩ fun e => by simp
  | osError => exact iff_of_true ⟨_, rfl⟩ fun e => by simp
  | raised e => exact iff_of_false not_exists_ok fun hno => hno e rfl

theorem recordable_iff {h : Hashing} {parts : Parts} {files : RecordFiles} :
    (∃ print, writeRecord h parts files = .ok print) ↔ Recordable parts files := by
  unfold writeRecord Recordable
  cases files.mkdir with
  | osError => simp
  | raised e => simp
  | done u =>
    rw [exists_bind_ok]
    constructor
    · rintro ⟨print, hprint, hwrite⟩
      obtain ⟨hscript, hconfig, hparams⟩ := fingerprint_iff.mp ⟨print, hprint⟩
      exact .inr ⟨rfl, hscript, hconfig, hparams, exists_written.mp hwrite⟩
    · rintro (hmkdir | ⟨-, hrecorded⟩)
      · cases hmkdir
      · obtain ⟨print, hprint⟩ := fingerprint_iff.mpr
          ⟨hrecorded.script, hrecorded.config, hrecorded.params⟩
        exact ⟨print, hprint, exists_written.mpr hrecorded.write⟩

/-! ## What is owed -/

/-- The job was accepted, and its end was not reported since. -/
def Owed : List Event → GpucId → Prop
  | [], _ => False
  | .accepted other :: events, jobId => other = jobId ∨ Owed events jobId
  | .reported other :: events, jobId => other ≠ jobId ∧ Owed events jobId

theorem accepted_of_owed {events : List Event} {jobId : GpucId} (h : Owed events jobId) :
    .accepted jobId ∈ events := by
  induction events with
  | nil => exact h.elim
  | cons event events ih =>
    cases event with
    | accepted other =>
      rcases h with rfl | h
      · exact List.mem_cons_self
      · exact List.mem_cons_of_mem _ (ih h)
    | reported other => exact List.mem_cons_of_mem _ (ih h.2)

namespace Executor

/-- **Every gpuc job that was accepted is in flight until its end was reported**, where `cancel` names
it, once `run_job` has returned or raised; and none that is in flight has ended. -/
structure TrackedToTheEnd (e : Executor) : Prop where
  inFlight : ∀ jobId, Owed e.events jobId → e.main.window ≠ some jobId →
    jobId ∈ e.inFlight.keys ∧ jobId ∈ e.cancel
  owed : ∀ jobId ∈ e.inFlight.keys, Owed e.events jobId

/-- gpuc answers a submit with an id that it has given to no other, and no id is empty. -/
def OwnIds (e : Executor) : Label → Prop
  | .runJob w earlier job _ _ _ _ =>
    (∀ answer jobId, (Snakemake.runJob w earlier job).ran = .submitted answer →
      answer.get? "job_id" = some (.str jobId) → jobId ≠ "" ∧ .accepted jobId ∉ e.events) ∧
    ∀ jobId standing, (Snakemake.runJob w earlier job).ran = .adopted jobId standing → jobId ≠ ""
  | .writeRecord _ | .track _ | .poll _ _ _ => True

/-- The record of a job that is in flight is removed, or there is none. -/
def Removes (e : Executor) (jobId : GpucId) (unlink : FileOp Unit) : Prop :=
  jobId ∈ e.inFlight.keys → unlink = .done ()

/-- **What a step has to meet**: the record of an accepted job raises nothing but an `OSError` while it
is written, and nothing while it is removed. -/
def Meets (e : Executor) : Label → Prop
  | .runJob w earlier job _ _ unlink _ =>
    ∀ jobId, (Snakemake.runJob w earlier job).ran = .adopted jobId .succeeded → e.Removes jobId unlink
  | .writeRecord files =>
    ∀ jobId number parts, e.main = .recording jobId number parts → Recordable parts files
  | .track _ => True
  | .poll info row unlink =>
    (outcome (polledRow row)).pending = false →
      ∀ jobId, info.externalJobId = some jobId → e.Removes jobId unlink

/-- **What is true between the steps**: in flight are the jobs that are owed, but for the one that
`run_job` has not come to yet. -/
structure Consistent (e : Executor) : Prop where
  keys : ∀ jobId, jobId ∈ e.inFlight.keys ↔ Owed e.events jobId ∧ e.main.window ≠ some jobId
  named : ∀ jobId info, e.inFlight.get? jobId = some info →
    info.externalJobId = some jobId ∧ jobId ≠ ""
  window : ∀ jobId, e.main.window = some jobId → Owed e.events jobId ∧ jobId ≠ "" ∧
    ∀ info ∈ e.active, info.externalJobId ≠ some jobId
  active : ∀ info ∈ e.active, ∃ jobId, info.externalJobId = some jobId ∧ jobId ≠ "" ∧
    .accepted jobId ∈ e.events

theorem consistent_initial : Consistent {} where
  keys _ := ⟨fun h => absurd h List.not_mem_nil, fun h => h.1.elim⟩
  named _ _ h := by cases h
  window _ h := by cases h
  active _ h := absurd h List.not_mem_nil

variable {e e' : Executor} {h : Hashing}

/-- Between the steps, every accepted job is tracked. -/
theorem Consistent.tracked (hc : e.Consistent) : e.TrackedToTheEnd := by
  refine ⟨fun jobId howed hwindow => ?_, fun jobId hkey => ((hc.keys jobId).mp hkey).1⟩
  have hkey := (hc.keys jobId).mpr ⟨howed, hwindow⟩
  obtain ⟨info, hinfo⟩ := Dict.mem_keys.mp hkey
  obtain ⟨hid, hne⟩ := hc.named jobId info hinfo
  refine ⟨hkey, List.mem_filter.mpr ⟨List.mem_filterMap.mpr ⟨info, ?_, hid⟩, decide_eq_true hne⟩⟩
  exact Dict.mem_values.mpr ⟨jobId, hinfo⟩

/-! ## The steps -/

section Settled
variable {e : Executor} {job : ℕ} {jobId : GpucId}

theorem settled_done (hname : jobId ≠ "") : e.settled ⟨job, some jobId⟩ (.done ()) =
    ({ e with inFlight := e.inFlight.erase jobId }, true) := by
  unfold settled
  simp

theorem settled_left {unlink : FileOp Unit} (hname : jobId ≠ "") (hleft : unlink ≠ .done ()) :
    e.settled ⟨job, some jobId⟩ unlink = ({ e with inFlight := e.inFlight.erase jobId }, false) := by
  unfold settled
  cases unlink with
  | done u => exact absurd rfl hleft
  | osError => simp
  | raised e => simp

end Settled

/-- **What a report of an end does**: the job is taken out, and its end is reported unless removing its
record raised. A job that no gpuc job was submitted for is in flight under no id. -/
theorem reportEnd_spec (e : Executor) (info : JobInfo) (unlink : FileOp Unit) :
    (∃ jobId, info.externalJobId = some jobId ∧ (jobId ≠ "" → unlink = .done ()) ∧
      e.reportEnd info unlink =
        { e with inFlight := e.inFlight.erase jobId, events := .reported jobId :: e.events }) ∨
    (∃ jobId, info.externalJobId = some jobId ∧ unlink ≠ .done () ∧
      e.reportEnd info unlink = { e with inFlight := e.inFlight.erase jobId }) ∨
    (info.externalJobId = none ∧ e.reportEnd info unlink =
      { e with inFlight := e.inFlight.erase "" }) := by
  obtain ⟨job, externalJobId⟩ := info
  cases externalJobId with
  | none => exact .inr (.inr ⟨rfl, rfl⟩)
  | some jobId =>
    by_cases hempty : jobId = ""
    · subst hempty
      exact .inl ⟨"", rfl, fun hne => absurd rfl hne, rfl⟩
    · unfold reportEnd
      by_cases hleft : unlink = .done ()
      · rw [hleft, settled_done hempty]
        exact .inl ⟨jobId, rfl, fun _ => rfl, rfl⟩
      · rw [settled_left hempty hleft]
        exact .inr (.inl ⟨jobId, rfl, hleft, rfl⟩)

/-- A report of an end, of a job that `run_job` is not at, leaves what is true between the steps, if the
record is removed. -/
theorem Consistent.reportEnd (hc : e.Consistent) {info : JobInfo} {unlink : FileOp Unit}
    (hid : ∀ jobId, info.externalJobId = some jobId → e.main.window ≠ some jobId ∧ e.Removes jobId unlink) :
    (e.reportEnd info unlink).Consistent := by
  have hempty : "" ∉ e.inFlight.keys := by
    intro hkey
    obtain ⟨info, hinfo⟩ := Dict.mem_keys.mp hkey
    exact (hc.named "" info hinfo).2 rfl
  rcases e.reportEnd_spec info unlink with
    ⟨jobId, hjob, -, heq⟩ | ⟨jobId, hjob, hunlink, heq⟩ | ⟨-, heq⟩
  · have hwindow := (hid jobId hjob).1
    rw [heq]
    refine ⟨?_, ?_, ?_, ?_⟩
    · intro other
      show other ∈ (e.inFlight.erase jobId).keys ↔ (jobId ≠ other ∧ Owed e.events other) ∧ _
      rw [Dict.mem_keys_erase, hc.keys, ne_comm, and_assoc]
    · intro other info hinfo
      rw [Dict.get?_erase] at hinfo
      split at hinfo
      · cases hinfo
      · exact hc.named other info hinfo
    · intro other hother
      obtain ⟨howed, hrest⟩ := hc.window other hother
      refine ⟨⟨?_, howed⟩, hrest⟩
      rintro rfl
      exact hwindow hother
    · intro info hinfo
      obtain ⟨other, hother, hne, haccepted⟩ := hc.active info hinfo
      exact ⟨other, hother, hne, List.mem_cons_of_mem _ haccepted⟩
  · have hkey : jobId ∉ e.inFlight.keys := fun hkey => hunlink ((hid jobId hjob).2 hkey)
    rw [heq, Dict.erase_eq_self hkey]
    exact hc
  · rw [heq, Dict.erase_eq_self hempty]
    exact hc

/-- **A record that cannot be removed loses its job**: it is out of flight, and its end was not reported. -/
theorem Consistent.lost (hc : e.Consistent) {info : JobInfo} {unlink : FileOp Unit} {jobId : GpucId}
    (hjob : info.externalJobId = some jobId) (hkept : ¬ e.Removes jobId unlink) :
    ¬ (e.reportEnd info unlink).TrackedToTheEnd := by
  intro htracked
  unfold Removes at hkept
  rw [Classical.not_imp] at hkept
  obtain ⟨hkey, hunlink⟩ := hkept
  obtain ⟨howed, hwindow⟩ := (hc.keys jobId).mp hkey
  have hne : jobId ≠ "" := by
    obtain ⟨info, hinfo⟩ := Dict.mem_keys.mp hkey
    exact (hc.named jobId info hinfo).2
  rcases e.reportEnd_spec info unlink with
    ⟨other, hother, hdone, -⟩ | ⟨other, hother, -, heq⟩ | ⟨hnone, -⟩
  · rw [hjob] at hother
    cases hother
    exact hunlink (hdone hne)
  · rw [hjob] at hother
    cases hother
    rw [heq] at htracked
    have hin := (htracked.inFlight jobId howed hwindow).1
    exact (Dict.mem_keys_erase.mp hin).1 rfl
  · rw [hjob] at hnone
    cases hnone

/-- A job that is asked about no more. -/
theorem Consistent.drop (hc : e.Consistent) (info : JobInfo) :
    Consistent { e with active := e.active.erase info } where
  keys := hc.keys
  named := hc.named
  window jobId hjob := by
    obtain ⟨howed, hne, hactive⟩ := hc.window jobId hjob
    exact ⟨howed, hne, fun other hother => hactive other (List.mem_of_mem_erase hother)⟩
  active other hother := hc.active other (List.mem_of_mem_erase hother)

/-- **The end of `run_job` puts the job that is owed in flight.** -/
theorem track_consistent {jobId : GpucId} {job : ℕ} {returns : Bool} (hne : jobId ≠ "")
    (howed : Owed e.events jobId)
    (hkeys : ∀ other, other ≠ jobId → (other ∈ e.inFlight.keys ↔ Owed e.events other))
    (hnamed : ∀ other info, e.inFlight.get? other = some info →
      info.externalJobId = some other ∧ other ≠ "")
    (hactive : ∀ info ∈ e.active, ∃ other, info.externalJobId = some other ∧ other ≠ "" ∧
      .accepted other ∈ e.events) :
    (e.track jobId job returns).Consistent := by
  have htracked : Consistent
      { e with inFlight := e.inFlight.set jobId ⟨job, some jobId⟩, main := .idle } := by
    refine ⟨?_, ?_, nofun, hactive⟩
    · intro other
      rw [Dict.mem_keys_set]
      by_cases hother : other = jobId
      · subst hother
        exact ⟨fun _ => ⟨howed, nofun⟩, fun _ => .inl rfl⟩
      · exact ⟨fun h => ⟨(hkeys other hother).mp (h.resolve_left hother), nofun⟩,
          fun h => .inr ((hkeys other hother).mpr h.1)⟩
    · intro other info hinfo
      rw [Dict.get?_set] at hinfo
      split at hinfo
      · next hother =>
        subst hother
        cases hinfo
        exact ⟨rfl, hne⟩
      · exact hnamed other info hinfo
  unfold Executor.track reportJobSubmission
  dsimp only
  split
  · refine ⟨htracked.keys, htracked.named, nofun, ?_⟩
    intro info hinfo
    rcases List.mem_append.mp hinfo with hinfo | hinfo
    · exact hactive info hinfo
    · rw [List.mem_singleton.mp hinfo]
      exact ⟨jobId, rfl, hne, accepted_of_owed howed⟩
  · exact htracked

theorem keys_of_window (hc : e.Consistent) {jobId other : GpucId}
    (hwindow : ∀ held, e.main.window = some held → held = jobId) (hother : other ≠ jobId) :
    other ∈ e.inFlight.keys ↔ Owed e.events other := by
  rw [hc.keys, and_iff_left_iff_imp]
  exact fun _ hheld => hother (hwindow other hheld)

/-- **`run_job` leaves what is true between the steps**, if the record of a job it adopts as succeeded
is removed. -/
theorem Consistent.runJob (hc : e.Consistent) (hidle : e.main = .idle) {job : ℕ} {parts : Parts}
    {ran : Ran} {unlink : FileOp Unit} {returns : Bool}
    (hsubmitted : ∀ answer jobId, ran = .submitted answer → answer.get? "job_id" = some (.str jobId) →
      jobId ≠ "" ∧ .accepted jobId ∉ e.events)
    (hadopted : ∀ jobId standing, ran = .adopted jobId standing → jobId ≠ "")
    (hmeets : ∀ jobId, ran = .adopted jobId .succeeded → e.Removes jobId unlink) :
    (e.runJob job parts ran unlink returns).Consistent := by
  have hnone : ∀ jobId, e.main.window ≠ some jobId := by
    intro jobId
    rw [hidle]
    nofun
  have hfailed : (e.reportJobError { job } unlink).Consistent :=
    hc.reportEnd fun jobId hjob => nomatch hjob
  have htaken : ∀ jobId, jobId ≠ "" →
      ({ e with events := .accepted jobId :: e.events }.track jobId job returns).Consistent := by
    intro jobId hne
    refine track_consistent hne (.inl rfl) ?_ hc.named ?_
    · intro other hother
      rw [keys_of_window hc (fun held hheld => absurd hheld (hnone held)) hother]
      exact ⟨.inr, fun howed => howed.resolve_left (Ne.symm hother)⟩
    · intro info hinfo
      obtain ⟨other, hother, hne, haccepted⟩ := hc.active info hinfo
      exact ⟨other, hother, hne, List.mem_cons_of_mem _ haccepted⟩
  cases ran with
  | grouped => exact hfailed
  | unanswered error => exact hfailed
  | submitFailed => exact hfailed
  | raised => exact hc
  | adopted jobId standing =>
    have hne := hadopted jobId standing rfl
    cases standing with
    | succeeded =>
      refine hc.reportEnd fun other hother => ?_
      cases hother
      exact ⟨hnone jobId, hmeets jobId rfl⟩
    | failed => exact htaken jobId hne
    | gone => exact htaken jobId hne
    | live => exact htaken jobId hne
    | unaskable => exact htaken jobId hne
  | submitted answer =>
    unfold Executor.runJob
    dsimp only
    split
    · next jobId hanswer =>
      obtain ⟨hne, hfresh⟩ := hsubmitted answer jobId rfl hanswer
      have hunowed : ¬ Owed e.events jobId := fun howed => hfresh (accepted_of_owed howed)
      refine ⟨?_, hc.named, ?_, ?_⟩
      · intro other
        show other ∈ e.inFlight.keys ↔ (jobId = other ∨ Owed e.events other) ∧ some jobId ≠ some other
        rw [hc.keys, and_iff_left (hnone other), ne_eq, Option.some.injEq]
        by_cases hother : jobId = other
        · subst hother
          exact ⟨fun howed => absurd howed hunowed, fun h => absurd rfl h.2⟩
        · exact ⟨fun howed => ⟨.inr howed, hother⟩, fun h => h.1.resolve_left hother⟩
      · intro other hother
        cases hother
        refine ⟨.inl rfl, hne, fun info hinfo hjob => ?_⟩
        obtain ⟨other, hother, -, haccepted⟩ := hc.active info hinfo
        rw [hjob] at hother
        cases hother
        exact hfresh haccepted
      · intro info hinfo
        obtain ⟨other, hother, hne, haccepted⟩ := hc.active info hinfo
        exact ⟨other, hother, hne, List.mem_cons_of_mem _ haccepted⟩
    · exact hc

theorem Consistent.checkActive (hc : e.Consistent) {info : JobInfo} (hactive : info ∈ e.active)
    {row : Option Answer} {unlink : FileOp Unit}
    (hmeets : (outcome (polledRow row)).pending = false →
      ∀ jobId, info.externalJobId = some jobId → e.Removes jobId unlink) :
    (e.checkActive info row unlink).Consistent := by
  have hreported : (outcome (polledRow row)).pending = false →
      (Executor.reportEnd { e with active := e.active.erase info } info unlink).Consistent := by
    intro hended
    refine (hc.drop info).reportEnd fun jobId hjob => ⟨fun hwindow => ?_, hmeets hended jobId hjob⟩
    exact (hc.window jobId hwindow).2.2 info hactive hjob
  unfold Executor.checkActive
  cases hrow : outcome (polledRow row) with
  | unaskable => exact hc
  | live => exact hc
  | succeeded => exact hreported (by rw [hrow]; rfl)
  | gone => exact hreported (by rw [hrow]; rfl)
  | failed => exact hreported (by rw [hrow]; rfl)

section Cases
variable {w : World} {earlier : Earlier} {job : Job} {number : ℕ} {parts : Parts}
  {unlink : FileOp Unit} {returns : Bool} {files : RecordFiles} {info : JobInfo} {row : Option Answer}

theorem step_runJob :
    step h e (.runJob w earlier job number parts unlink returns) = some e' ↔ e.main = .idle ∧
      e.runJob number parts (Snakemake.runJob w earlier job).ran unlink returns = e' := by
  cases hmain : e.main <;> simp [step, hmain]

theorem step_writeRecord :
    step h e (.writeRecord files) = some e' ↔
      ∃ jobId number parts, e.main = .recording jobId number parts ∧
        (Recordable parts files ∧ { e with main := .tracking jobId number } = e' ∨
          ¬ Recordable parts files ∧ { e with main := .idle } = e') := by
  cases hmain : e.main with
  | idle => simp [step, hmain]
  | tracking jobId number => simp [step, hmain]
  | recording jobId number parts =>
    cases hrecord : Snakemake.writeRecord h parts files with
    | ok print =>
      have hrecordable := recordable_iff.mp ⟨print, hrecord⟩
      simp [step, hmain, hrecord, hrecordable]
    | error raised =>
      have hunrecorded : ¬ Recordable parts files := by
        intro hrecordable
        obtain ⟨print, hprint⟩ := (recordable_iff (h := h)).mpr hrecordable
        rw [hrecord] at hprint
        cases hprint
      simp [step, hmain, hrecord, hunrecorded]

theorem step_track :
    step h e (.track returns) = some e' ↔
      ∃ jobId number, e.main = .tracking jobId number ∧ e.track jobId number returns = e' := by
  cases hmain : e.main <;> simp [step, hmain]

theorem step_poll :
    step h e (.poll info row unlink) = some e' ↔
      info ∈ e.active ∧ e.checkActive info row unlink = e' := by
  by_cases hactive : info ∈ e.active <;> simp [step, hactive]

end Cases

/-- **A step that meets the condition leaves what is true between the steps.** -/
theorem step_consistent {label : Label} (hc : e.Consistent) (hown : e.OwnIds label)
    (hmeets : e.Meets label) (hstep : step h e label = some e') : e'.Consistent := by
  cases label with
  | runJob w earlier job number parts unlink returns =>
    obtain ⟨hidle, rfl⟩ := step_runJob.mp hstep
    exact hc.runJob hidle hown.1 hown.2 hmeets
  | writeRecord files =>
    obtain ⟨jobId, number, parts, hmain, ⟨-, rfl⟩ | ⟨hunrecorded, -⟩⟩ := step_writeRecord.mp hstep
    · have hwindow : e.main.window = some jobId := by rw [hmain]; rfl
      refine ⟨?_, hc.named, ?_, hc.active⟩
      · intro other
        rw [hc.keys, hwindow]
        rfl
      · intro other hother
        exact hc.window other (hwindow.trans hother)
    · exact absurd (hmeets jobId number parts hmain) hunrecorded
  | track returns =>
    obtain ⟨jobId, number, hmain, rfl⟩ := step_track.mp hstep
    have hwindow : e.main.window = some jobId := by rw [hmain]; rfl
    obtain ⟨howed, hne, -⟩ := hc.window jobId hwindow
    refine track_consistent hne howed ?_ hc.named hc.active
    intro other hother
    refine keys_of_window hc (fun held hheld => ?_) hother
    rw [hwindow] at hheld
    exact (Option.some.inj hheld).symm
  | poll info row unlink =>
    obtain ⟨hactive, rfl⟩ := step_poll.mp hstep
    exact hc.checkActive hactive hmeets

/-- **A step that does not meet it loses a job.** -/
theorem step_lost {label : Label} (hc : e.Consistent) (hmeets : ¬ e.Meets label)
    (hstep : step h e label = some e') : ¬ e'.TrackedToTheEnd := by
  cases label with
  | runJob w earlier job number parts unlink returns =>
    obtain ⟨-, rfl⟩ := step_runJob.mp hstep
    unfold Meets at hmeets
    push Not at hmeets
    obtain ⟨jobId, hran, hkept⟩ := hmeets
    rw [hran]
    exact hc.lost rfl hkept
  | writeRecord files =>
    obtain ⟨jobId, number, parts, hmain, ⟨hrecordable, -⟩ | ⟨-, rfl⟩⟩ := step_writeRecord.mp hstep
    · refine absurd (fun jobId' number' parts' hmain' => ?_) hmeets
      rw [hmain] at hmain'
      cases hmain'
      exact hrecordable
    · -- the id is neither where `run_job` is nor in flight
      have hwindow : e.main.window = some jobId := by rw [hmain]; rfl
      obtain ⟨howed, -, -⟩ := hc.window jobId hwindow
      intro htracked
      have hkey := (htracked.inFlight jobId howed nofun).1
      exact ((hc.keys jobId).mp hkey).2 hwindow
  | track returns => exact absurd trivial hmeets
  | poll info row unlink =>
    obtain ⟨-, rfl⟩ := step_poll.mp hstep
    unfold Meets at hmeets
    push Not at hmeets
    obtain ⟨hended, jobId, hjob, hkept⟩ := hmeets
    have hlost := (hc.drop info).lost hjob hkept
    unfold Executor.checkActive
    cases hrow : outcome (polledRow row) with
    | unaskable => rw [hrow] at hended; cases hended
    | live => rw [hrow] at hended; cases hended
    | succeeded => exact hlost
    | gone => exact hlost
    | failed => exact hlost

/-! ## Every run -/

/-- **In a run whose steps all meet the condition, every accepted job is in flight until its end was
reported, and no other is; and a step that follows keeps it so exactly when it meets the condition.** -/
theorem tracked_iff {labels : List Label}
    (hown : ∀ p ∈ (machine h).trace {} labels, p.1.OwnIds p.2)
    (hmeets : ∀ p ∈ (machine h).trace {} labels, p.1.Meets p.2)
    (hrun : (machine h).run {} labels = some e) :
    e.TrackedToTheEnd ∧ ∀ label e', e.OwnIds label → (machine h).step e label = some e' →
      (e'.TrackedToTheEnd ↔ e.Meets label) := by
  have hc : e.Consistent := by
    refine Machine.run_invariant_of (C := fun e label => e.OwnIds label ∧ e.Meets label) ?_
      consistent_initial (fun p hp => ⟨hown p hp, hmeets p hp⟩) hrun
    exact fun e label e' hc hmet hstep => step_consistent hc hmet.1 hmet.2 hstep
  refine ⟨hc.tracked, fun label e' hown hstep => ⟨fun htracked => ?_, fun hmet => ?_⟩⟩
  · by_contra hunmet
    exact step_lost hc hunmet hstep htracked
  · exact (step_consistent hc hown hmet hstep).tracked

/-! ## A config that is not sorted -/

/-- gpuc answers the submit with an id. -/
def accepting : World where
  status _ := .notStarted ""
  cancel _ := .notStarted ""
  unlike _ := none
  submit := some (.exited 0 (some (.obj [("job_id", .str "j1")])) "")

/-- A job of a workflow whose config is a mapping with these keys. -/
def submitted (keys : List Key) : Label :=
  .runJob accepting {} {} 0 { config := .obj (keys.map fun key => (key, .null)) } (.done ()) true

/-- Its record, where nothing fails at the files. -/
def recorded : Label := .writeRecord { mkdir := .done (), script := .done "", write := .done () }

/-- The state after the accepted submit. -/
def afterSubmit (keys : List Key) : Executor where
  main := .recording "j1" 0 { config := .obj (keys.map fun key => (key, .null)) }
  events := [.accepted "j1"]

theorem step_submitted (h : Hashing) (keys : List Key) :
    (machine h).step {} (submitted keys) = some (afterSubmit keys) := rfl

theorem recordable_recorded {keys : List Key} :
    Recordable { config := .obj (keys.map fun key => (key, .null)) }
      { mkdir := .done (), script := .done "", write := .done () } ↔
        Key.Sorts keys ∧ ∀ key ∈ keys, ¬ key.Unwritable := by
  have hkeys : (keys.map fun key => (key, Object.null)).map Prod.fst = keys := by
    simp [Function.comp_def]
  have hconfig : (Object.obj (keys.map fun key => (key, .null))).Unwritable ↔
      ¬ Key.Sorts keys ∨ ∃ key ∈ keys, key.Unwritable := by
    constructor
    · intro h
      cases h with
      | mixed h => exact .inl (hkeys ▸ h)
      | key hitem h =>
        obtain ⟨key, hkey, heq⟩ := List.mem_map.mp hitem
        cases heq
        exact .inr ⟨_, hkey, h⟩
      | member hitem h =>
        obtain ⟨key, -, heq⟩ := List.mem_map.mp hitem
        cases heq
        cases h
    · rintro (h | ⟨key, hkey, h⟩)
      · exact .mixed (by rwa [hkeys])
      · exact .key (List.mem_map.mpr ⟨key, hkey, rfl⟩) h
  constructor
  · rintro (hmkdir | ⟨-, hrecorded⟩)
    · cases hmkdir
    · have hwritable := hrecorded.config
      rw [hconfig, not_or, Classical.not_not] at hwritable
      exact ⟨hwritable.1, fun key hkey h => hwritable.2 ⟨key, hkey, h⟩⟩
  · rintro ⟨hsorts, hwritable⟩
    refine .inr ⟨rfl, fun hsome => absurd rfl hsome, ?_, nofun, fun e => nofun⟩
    rw [hconfig, not_or, Classical.not_not]
    exact ⟨hsorts, fun ⟨key, hkey, h⟩ => hwritable key hkey h⟩

theorem ownIds_submitted (keys : List Key) : OwnIds {} (submitted keys) := by
  refine ⟨fun answer jobId hran hanswer => ?_, fun jobId standing hran => nomatch hran⟩
  cases hran
  cases hanswer
  exact ⟨by decide, List.not_mem_nil⟩

/-- The record is written, if the keys are sorted. -/
theorem step_recorded (h : Hashing) {keys : List Key} (hsorts : Key.Sorts keys)
    (hwritable : ∀ key ∈ keys, ¬ key.Unwritable) :
    (machine h).step (afterSubmit keys) recorded =
      some { afterSubmit keys with main := .tracking "j1" 0 } := by
  show step h (afterSubmit keys) (.writeRecord _) = some _
  exact step_writeRecord.mpr
    ⟨"j1", 0, _, rfl, .inl ⟨recordable_recorded.mpr ⟨hsorts, hwritable⟩, rfl⟩⟩

/-- `run_job` raises, if they are not. -/
theorem step_unrecorded (h : Hashing) {keys : List Key} (hmixed : ¬ Key.Sorts keys) :
    (machine h).step (afterSubmit keys) recorded = some { afterSubmit keys with main := .idle } := by
  show step h (afterSubmit keys) (.writeRecord _) = some _
  refine step_writeRecord.mpr ⟨"j1", 0, _, rfl, .inr ⟨?_, rfl⟩⟩
  exact fun hrecordable => hmixed (recordable_recorded.mp hrecordable).1

def plainHashing : Hashing := { texts := plainTexts, sha256 := String.ofList }

/-- **The job of a workflow whose config has keys of two kinds is accepted and lost.** -/
theorem unsorted_config_lost : ¬ ∀ (h : Hashing) (labels : List Label) (e : Executor),
    (∀ p ∈ (machine h).trace {} labels, p.1.OwnIds p.2) →
      (machine h).run {} labels = some e → e.TrackedToTheEnd := by
  intro hall
  have hstep := @step_unrecorded plainHashing [.int 1, .str "a"] (by decide)
  have hown : ∀ p ∈ (machine plainHashing).trace {} [submitted [.int 1, .str "a"], recorded],
      p.1.OwnIds p.2 := by
    intro p hp
    simp only [Machine.trace, step_submitted, hstep, List.mem_cons, List.not_mem_nil, or_false] at hp
    rcases hp with rfl | rfl
    · exact ownIds_submitted _
    · trivial
  have htracked := hall plainHashing _ _ hown
    (Machine.run_cons.mpr ⟨_, step_submitted _ _, Machine.run_cons.mpr ⟨_, hstep, rfl⟩⟩)
  exact absurd (htracked.inFlight "j1" (.inl rfl) fun hended => by cases hended).1 List.not_mem_nil

/-- The job of one whose keys are strings is in flight when `run_job` has returned. -/
theorem tracked_iff_sorted : ∃ e, (machine plainHashing).run {}
    [submitted [.str "b", .str "a"], recorded, .track true] = some e ∧ e.TrackedToTheEnd ∧
      e.main = .idle ∧ e.cancel = ["j1"] := by
  have hsorts : Key.Sorts [.str "b", .str "a"] := by decide
  have hwritable : ∀ key ∈ [Key.str "b", .str "a"], ¬ key.Unwritable := by
    intro key hkey h
    cases h with
    | other => simp at hkey
    | int _ => simp at hkey
  have hstep := step_recorded plainHashing hsorts hwritable
  have htrack : (machine plainHashing).step
      { afterSubmit [.str "b", .str "a"] with main := .tracking "j1" 0 } (.track true) =
        some (Executor.track { afterSubmit [.str "b", .str "a"] with main := .tracking "j1" 0 } "j1" 0 true) :=
    rfl
  have hrun : (machine plainHashing).run {}
      [submitted [.str "b", .str "a"], recorded, .track true] = some _ :=
    Machine.run_cons.mpr ⟨_, step_submitted _ _, Machine.run_cons.mpr ⟨_, hstep,
      Machine.run_cons.mpr ⟨_, htrack, rfl⟩⟩⟩
  have htrace : ∀ p ∈ (machine plainHashing).trace {}
      [submitted [.str "b", .str "a"], recorded, .track true], p.1.OwnIds p.2 ∧ p.1.Meets p.2 := by
    intro p hp
    simp only [Machine.trace, step_submitted, hstep, htrack, List.mem_cons, List.not_mem_nil,
      or_false] at hp
    rcases hp with rfl | rfl | rfl
    · exact ⟨ownIds_submitted _, fun jobId hran => by cases hran⟩
    · refine ⟨trivial, fun jobId number parts hmain => ?_⟩
      cases hmain
      exact recordable_recorded.mpr ⟨hsorts, hwritable⟩
    · exact ⟨trivial, trivial⟩
  exact ⟨_, hrun, (tracked_iff (fun p hp => (htrace p hp).1) (fun p hp => (htrace p hp).2) hrun).1,
    rfl, rfl⟩

end Executor

end Gpuc.Snakemake
