import Gpuc.Host.Documents

/-!
# What takes a reader of a document down

A coercion of a field to a number raises `OverflowError` for an integer too large for a float
(`TooLarge`), and one to a text raises `ValueError` for a value that cannot be written (`Unwritable`);
neither raises anything else, and no other coercion raises at all. So a reader that catches nothing
answers exactly when no field is either (`HostConfig.fromDict_ok`, `JobState.fromDict_ok`), and the
reader of a spec, whose `ValueError` is caught, lets something through exactly when it comes to a
number that is too large before it refuses the spec for another reason (`JobSpec.fromDict_escapes`).
-/

set_option autoImplicit false

namespace Gpuc.Host.Documents

open Gpuc.Basis

/-! ## Fields that raise -/

section Fields
variable (d : Json) (key : String)

/-- The field is an integer too large for a float. -/
def TooLarge : Prop :=
  ∃ n, (fieldsOf d).get? key = some (.int n) ∧ Float64.overflow ≤ n.natAbs

/-- One of the field's items is. -/
def TooLargeItem : Prop := ∃ n, .int n ∈ asList d key ∧ Float64.overflow ≤ n.natAbs

/-- The field holds an integer too long to be written. -/
def Unwritable : Prop := ∃ value, (fieldsOf d).get? key = some value ∧ Json.LongInt value

/-- One of the field's items does. -/
def UnwritableItem : Prop := ∃ item ∈ asList d key, Json.LongInt item

/-- One of the field's values does. -/
def UnwritableMember : Prop :=
  ∃ pairs, (fieldsOf d).get? key = some (.obj pairs) ∧
    ∃ k value, (Dict.ofList pairs).get? k = some value ∧ Json.LongInt value

end Fields

section Coercions
variable {t : Texts} {d : Json} {key : String}

theorem given_eq_none : given d key = none ↔
    (fieldsOf d).get? key = none ∨ (fieldsOf d).get? key = some .null := by
  unfold given
  cases (fieldsOf d).get? key with
  | none => simp
  | some value => cases value <;> simp

theorem given_eq_some {value : Json} : given d key = some value ↔
    (fieldsOf d).get? key = some value ∧ value ≠ .null := by
  unfold given
  cases (fieldsOf d).get? key with
  | none => simp
  | some other => cases other <;> simp +contextual [eq_comm]

theorem orDefault_failsWhen (default' : Float64) (x : Except Raised Float64) :
    FailsWhen (orDefault default' x) .overflowError (x = .error .overflowError) :=
  match x with
  | .ok x => (FailsWhen.of_ok x).congr (by simp)
  | .error .typeError => (FailsWhen.of_ok default').congr (by simp)
  | .error (.valueError _) => (FailsWhen.of_ok default').congr (by simp)
  | .error .overflowError => ⟨fun _ => rfl, fun h => absurd rfl h⟩

/-- **`as_float` raises for an integer too large, and nothing but the overflow.** -/
theorem asFloat_failsWhen (t : Texts) (d : Json) (key : String) (default' : Float64) :
    FailsWhen (asFloat t d key default') .overflowError (TooLarge d key) := by
  have hlarge : TooLarge d key ↔ ∃ value, given d key = some value ∧
      value.toFloat t = .error .overflowError := by
    constructor
    · rintro ⟨n, hget, hn⟩
      exact ⟨.int n, given_eq_some.mpr ⟨hget, by simp⟩, Json.toFloat_overflows.mpr ⟨n, rfl, hn⟩⟩
    · rintro ⟨value, hgiven, hraised⟩
      obtain ⟨n, rfl, hn⟩ := Json.toFloat_overflows.mp hraised
      exact ⟨n, (given_eq_some.mp hgiven).1, hn⟩
  refine FailsWhen.congr ?_ hlarge.symm
  unfold asFloat
  cases given d key with
  | none => exact (FailsWhen.of_ok default').congr (by simp)
  | some value =>
    simp only [Option.some.injEq, exists_eq_left']
    cases value with
    | bool b => exact (FailsWhen.of_ok default').congr (by simp [Json.toFloat])
    | _ => exact orDefault_failsWhen default' _

variable (t : Texts) (d : Json) (key : String)

theorem asOptFloat_failsWhen :
    FailsWhen (asOptFloat t d key) .overflowError (TooLarge d key) := by
  unfold asOptFloat
  cases hgiven : given d key with
  | none =>
    refine (FailsWhen.of_ok none).congr ⟨fun h => h.elim, ?_⟩
    rintro ⟨n, hget, -⟩
    rcases given_eq_none.mp hgiven with h | h <;> rw [h] at hget <;> cases hget
  | some value => exact (asFloat_failsWhen t d key .nan).map _

theorem asInt_failsWhen (default' : Int) :
    FailsWhen (asInt t d key default') .overflowError (TooLarge d key) :=
  (asFloat_failsWhen t d key _).map _

theorem asOptInt_failsWhen : FailsWhen (asOptInt t d key) .overflowError (TooLarge d key) :=
  (asOptFloat_failsWhen t d key).map _

/-- What is given of a field is written unless the field cannot be. -/
theorem unwritable_iff : Unwritable d key ↔ ∃ value, given d key = some value ∧ Json.LongInt value := by
  constructor
  · rintro ⟨value, hget, hlong⟩
    exact ⟨value, given_eq_some.mpr ⟨hget, fun hnull => by rw [hnull] at hlong; cases hlong⟩, hlong⟩
  · rintro ⟨value, hgiven, hlong⟩
    exact ⟨value, (given_eq_some.mp hgiven).1, hlong⟩

theorem asStr_failsWhen (default' : String) :
    FailsWhen (asStr t d key default') Json.limitError (Unwritable d key) := by
  refine FailsWhen.congr ?_ (unwritable_iff d key).symm
  unfold asStr
  cases given d key with
  | none => exact (FailsWhen.of_ok default').congr (by simp)
  | some value => exact (Json.text_failsWhen t value).congr (by simp)

theorem asOptStr_failsWhen : FailsWhen (asOptStr t d key) Json.limitError (Unwritable d key) := by
  refine FailsWhen.congr ?_ (unwritable_iff d key).symm
  unfold asOptStr
  cases given d key with
  | none => exact (FailsWhen.of_ok none).congr (by simp)
  | some value => exact ((Json.text_failsWhen t value).map some).congr (by simp)

theorem asStrList_failsWhen :
    FailsWhen (asStrList t d key) Json.limitError (UnwritableItem d key) :=
  .mapM fun item _ => Json.text_failsWhen t item

theorem asOptStrList_failsWhen :
    FailsWhen (asOptStrList t d key) Json.limitError (UnwritableItem d key) := by
  unfold asOptStrList
  split
  · next hnull =>
    have hitems : asList d key = [] := by rw [asList, hnull]
    refine (FailsWhen.of_ok none).congr ⟨fun h => h.elim, fun ⟨item, hitem, _⟩ => ?_⟩
    rw [hitems] at hitem
    exact absurd hitem List.not_mem_nil
  · exact (asStrList_failsWhen t d key).map some

theorem asOptFloatList_failsWhen :
    FailsWhen (asOptFloatList t d key) .overflowError (TooLargeItem d key) := by
  have hitem : ∀ item, TooLarge (.obj [(key, item)]) key
      ↔ ∃ n, item = .int n ∧ Float64.overflow ≤ n.natAbs := by
    intro item
    have hget : (fieldsOf (.obj [(key, item)])).get? key = some item := by
      show (Dict.ofList [(key, item)]).get? key = some item
      rw [Dict.get?_ofList (by exact List.nodup_singleton key)]
      exact List.mem_cons_self
    simp only [TooLarge, hget, Option.some.injEq]
  refine (FailsWhen.mapM fun item _ => asOptFloat_failsWhen t (.obj [(key, item)]) key).congr ?_
  simp only [hitem, TooLargeItem]
  constructor
  · rintro ⟨item, hmem, n, rfl, hn⟩
    exact ⟨n, hmem, hn⟩
  · rintro ⟨n, hmem, hn⟩
    exact ⟨_, hmem, n, rfl, hn⟩

theorem asStrDict_failsWhen :
    FailsWhen (asStrDict t d key) Json.limitError (UnwritableMember d key) := by
  unfold asStrDict
  split
  · next pairs hpairs =>
    refine ((FailsWhen.mapM fun e _ => (Json.text_failsWhen t e.2).map _).map Dict.ofList).congr ?_
    constructor
    · rintro ⟨⟨k, value⟩, he, hlong⟩
      exact ⟨pairs, hpairs, k, value, Dict.get?_eq_some.mpr he, hlong⟩
    · rintro ⟨pairs', hpairs', k, value, hget, hlong⟩
      rw [hpairs] at hpairs'
      cases hpairs'
      exact ⟨(k, value), Dict.get?_eq_some.mp hget, hlong⟩
  · next hother =>
    exact (FailsWhen.of_ok Dict.empty).congr
      ⟨fun h => h.elim, fun ⟨pairs, hpairs, _⟩ => hother pairs hpairs⟩

end Coercions

/-! ## `config.json` and `state.json` -/

/-- A step that succeeds when one thing holds, and one after it that does when another holds. -/
theorem ok_bind {α β : Type} {e : Raised} {P Q : Prop} {x : Except Raised α}
    {f : α → Except Raised β} (hx : FailsWhen x e P) (hf : ∀ a, (∃ b, f a = .ok b) ↔ Q) :
    (∃ b, (x >>= f) = .ok b) ↔ ¬ P ∧ Q := by
  rw [exists_bind_ok, ← hx.exists_ok]
  exact ⟨fun ⟨a, ha, hb⟩ => ⟨⟨a, ha⟩, (hf a).mp hb⟩, fun ⟨⟨a, ha⟩, hQ⟩ => ⟨a, ha, (hf a).mpr hQ⟩⟩

/-- What `HostConfig.from_dict` cannot do without. -/
structure ConfigFits (d : Json) : Prop where
  numbers : ∀ key ∈ ["schema_version", "idle_minutes", "retention_days", "workdir_days"],
    ¬ TooLarge d key
  texts : ∀ key ∈ ["host", "s3_prefix", "created_at", "pkg_commit"], ¬ Unwritable d key
  lists : ∀ key ∈ ["gpus", "shared_gpus"], ¬ UnwritableItem d key
  env : ¬ UnwritableMember d "env"

/-- **A configuration is read exactly when its numbers fit a float and its texts can be written.** -/
theorem HostConfig.fromDict_ok (t : Texts) (d : Json) :
    (∃ config, HostConfig.fromDict t d = .ok config) ↔ ConfigFits d := by
  have hread : (∃ config, HostConfig.fromDict t d = .ok config) ↔ _ :=
    ok_bind (asInt_failsWhen t d "schema_version" _) fun _ =>
    ok_bind (asStr_failsWhen t d "host" _) fun _ =>
    ok_bind (asOptStrList_failsWhen t d "gpus") fun _ =>
    ok_bind (asStrList_failsWhen t d "shared_gpus") fun _ =>
    ok_bind (asFloat_failsWhen t d "idle_minutes" _) fun _ =>
    ok_bind (asOptStr_failsWhen t d "s3_prefix") fun _ =>
    ok_bind (asOptStr_failsWhen t d "created_at") fun _ =>
    ok_bind (asOptFloat_failsWhen t d "retention_days") fun _ =>
    ok_bind (asOptFloat_failsWhen t d "workdir_days") fun _ =>
    ok_bind (asStrDict_failsWhen t d "env") fun _ =>
    ok_bind (asOptStr_failsWhen t d "pkg_commit") fun _ => ⟨fun _ => trivial, fun _ => ⟨_, rfl⟩⟩
  rw [hread]
  constructor
  · rintro ⟨hversion, hhost, hgpus, hshared, hidle, hprefix, hcreated, hretention, hworkdir, henv,
      hcommit, -⟩
    exact ⟨by simp [*], by simp [*], by simp [*], henv⟩
  · rintro ⟨hnumbers, htexts, hlists, henv⟩
    simp only [List.forall_mem_cons, List.not_mem_nil, false_imp_iff, implies_true, and_true]
      at hnumbers htexts hlists
    tauto

/-- A record of an upload that cannot be read: one with a destination is read to the end. -/
def UnwritableUpload (t : Texts) (u : Json) : Prop :=
  Unwritable u "to" ∨
    (∃ to', asOptStr t u "to" = .ok (some to') ∧ to' ≠ "") ∧
      ∃ key ∈ ["output", "ok_at", "error"], Unwritable u key

theorem Upload.fromDict_failsWhen (t : Texts) (u : Json) :
    FailsWhen (Upload.fromDict t u) Json.limitError (UnwritableUpload t u) := by
  have hto := asOptStr_failsWhen t u "to"
  unfold Upload.fromDict UnwritableUpload
  by_cases hunwritable : Unwritable u "to"
  · rw [hto.error hunwritable]
    exact ⟨fun _ => rfl, fun h => absurd (.inl hunwritable) h⟩
  · obtain ⟨found, hfound⟩ := hto.ok hunwritable
    have hgiven : (∃ to', asOptStr t u "to" = .ok (some to') ∧ to' ≠ "")
        ↔ ∃ to', (found.filter fun text => text ≠ "") = some to' := by
      rw [hfound]
      simp [Option.filter_eq_some_iff]
    rw [hgiven, hfound]
    dsimp only [bind, Except.bind]
    cases found.filter fun text => text ≠ "" with
    | none => exact (FailsWhen.of_ok none).congr (by simp [hunwritable])
    | some text =>
      have hrest := (asOptStr_failsWhen t u "output").bind fun output =>
        (asOptStr_failsWhen t u "ok_at").bind fun okAt =>
          (asOptStr_failsWhen t u "error").map fun error =>
            some (Upload.mk text output okAt error)
      exact hrest.congr (by simp [hunwritable])

/-- What `JobState.from_dict` cannot do without. -/
structure StateFits (t : Texts) (d : Json) : Prop where
  numbers : ∀ key ∈ ["attempt", "priority", "estimated_runtime_min", "max_runtime_min", "exit_code",
    "pgid", "runner_pid", "util_sum", "util_samples", "progress_pct", "workdir_bytes", "kept_bytes",
    "restarts"], ¬ TooLarge d key
  samples : ¬ TooLargeItem d "util_recent"
  texts : ∀ key ∈ ["intent", "status", "reason", "started_at", "ended_at", "phase", "isolation",
    "cgroup_unit", "runner_boot_id", "runner_init_start", "runner_starttime", "progress_error", "eta",
    "checkout_removed_at"], ¬ Unwritable d key
  lists : ∀ key ∈ ["problems", "gpus"], ¬ UnwritableItem d key
  uploads : ∀ u ∈ asList d "uploads", ¬ UnwritableUpload t u

/-- **A state is read exactly when its numbers fit a float and its texts can be written.** -/
theorem JobState.fromDict_ok (t : Texts) (d : Json) :
    (∃ state, JobState.fromDict t d = .ok state) ↔ StateFits t d := by
  have hread : (∃ state, JobState.fromDict t d = .ok state) ↔ _ :=
    ok_bind (asOptStr_failsWhen t d "intent") fun _ =>
    ok_bind (asStr_failsWhen t d "status" _) fun _ =>
    ok_bind (asInt_failsWhen t d "attempt" _) fun _ =>
    ok_bind (asInt_failsWhen t d "priority" _) fun _ =>
    ok_bind (asOptFloat_failsWhen t d "estimated_runtime_min") fun _ =>
    ok_bind (asOptFloat_failsWhen t d "max_runtime_min") fun _ =>
    ok_bind (asOptStr_failsWhen t d "reason") fun _ =>
    ok_bind (asStrList_failsWhen t d "problems") fun _ =>
    ok_bind (asOptInt_failsWhen t d "exit_code") fun _ =>
    ok_bind (asStrList_failsWhen t d "gpus") fun _ =>
    ok_bind (asOptStr_failsWhen t d "started_at") fun _ =>
    ok_bind (asOptStr_failsWhen t d "ended_at") fun _ =>
    ok_bind (asOptStr_failsWhen t d "phase") fun _ =>
    ok_bind (asOptInt_failsWhen t d "pgid") fun _ =>
    ok_bind (asOptStr_failsWhen t d "isolation") fun _ =>
    ok_bind (asOptStr_failsWhen t d "cgroup_unit") fun _ =>
    ok_bind (asOptInt_failsWhen t d "runner_pid") fun _ =>
    ok_bind (asOptStr_failsWhen t d "runner_boot_id") fun _ =>
    ok_bind (asOptStr_failsWhen t d "runner_init_start") fun _ =>
    ok_bind (asOptStr_failsWhen t d "runner_starttime") fun _ =>
    ok_bind (asOptFloatList_failsWhen t d "util_recent") fun _ =>
    ok_bind (asFloat_failsWhen t d "util_sum" _) fun _ =>
    ok_bind (asInt_failsWhen t d "util_samples" _) fun _ =>
    ok_bind (asOptFloat_failsWhen t d "progress_pct") fun _ =>
    ok_bind (asOptStr_failsWhen t d "progress_error") fun _ =>
    ok_bind (asOptStr_failsWhen t d "eta") fun _ =>
    ok_bind (.mapM fun u _ => Upload.fromDict_failsWhen t u) fun _ =>
    ok_bind (asOptInt_failsWhen t d "workdir_bytes") fun _ =>
    ok_bind (asOptStr_failsWhen t d "checkout_removed_at") fun _ =>
    ok_bind (asOptInt_failsWhen t d "kept_bytes") fun _ =>
    ok_bind (asInt_failsWhen t d "restarts" _) fun _ => ⟨fun _ => trivial, fun _ => ⟨_, rfl⟩⟩
  rw [hread]
  constructor
  · rintro ⟨hintent, hstatus, hattempt, hpriority, hestimated, hmax, hreason, hproblems, hexit, hgpus,
      hstarted, hended, hphase, hpgid, hisolation, hunit, hpid, hboot, hinit, hstart, hrecent, hsum,
      hsamples, hpct, herror, heta, huploads, hbytes, hremoved, hkept, hrestarts, -⟩
    exact ⟨by simp [*], hrecent, by simp [*], by simp [*],
      fun u hu hunwritable => huploads ⟨u, hu, hunwritable⟩⟩
  · rintro ⟨hnumbers, hrecent, htexts, hlists, huploads⟩
    simp only [List.forall_mem_cons, List.not_mem_nil, false_imp_iff, implies_true, and_true]
      at hnumbers htexts hlists
    have hreadable : ¬ ∃ u ∈ asList d "uploads", UnwritableUpload t u :=
      fun ⟨u, hu, hunwritable⟩ => huploads u hu hunwritable
    simp only [hnumbers, hrecent, htexts, hlists, hreadable, not_false_eq_true, and_self]

/-! ## `spec.json` -/

/-- Something other than a `ValueError` is raised. -/
def Escapes {α : Type} (x : Except Raised α) : Prop :=
  ∃ raised, x = .error raised ∧ ∀ message, raised ≠ .valueError message

section Escapes
variable {α β : Type} {x : Except Raised α} {f : α → Except Raised β} {P Q : Prop}

theorem not_escapes_ok (a : α) : ¬ Escapes (.ok a : Except Raised α) := fun ⟨_, h, _⟩ => nomatch h

theorem not_escapes_valueError (message : String) :
    ¬ Escapes (.error (.valueError message) : Except Raised α) := fun ⟨_, h, hother⟩ => by
  cases h
  exact hother message rfl

theorem escapes_bind : Escapes (x >>= f) ↔ Escapes x ∨ ∃ a, x = .ok a ∧ Escapes (f a) := by
  cases x with
  | error raised => exact ⟨fun ⟨e, h, hother⟩ => .inl ⟨e, by cases h; rfl, hother⟩,
      fun h => h.elim (fun ⟨e, h, hother⟩ => ⟨e, by cases h; rfl, hother⟩) fun ⟨_, h, _⟩ => nomatch h⟩
  | ok a =>
    refine ⟨fun h => .inr ⟨a, rfl, h⟩, fun h => h.elim (fun h => absurd h (not_escapes_ok a)) ?_⟩
    rintro ⟨b, hb, h⟩
    cases hb
    exact h

/-- After a text, what escapes is what escapes once the text has been written. -/
theorem escapes_text (hx : FailsWhen x Json.limitError P) (hf : ∀ a, Escapes (f a) ↔ Q) :
    Escapes (x >>= f) ↔ ¬ P ∧ Q := by
  by_cases hP : P
  · rw [hx.error hP]
    exact ⟨fun h => absurd h (not_escapes_valueError _), fun h => absurd hP h.1⟩
  · obtain ⟨a, rfl⟩ := hx.ok hP
    exact (hf a).trans ⟨fun hQ => ⟨hP, hQ⟩, And.right⟩

/-- A number escapes by itself when it is too large. -/
theorem escapes_number (hx : FailsWhen x .overflowError P) (hf : ∀ a, Escapes (f a) ↔ Q) :
    Escapes (x >>= f) ↔ P ∨ Q := by
  by_cases hP : P
  · rw [hx.error hP]
    exact ⟨fun _ => .inl hP, fun _ => ⟨.overflowError, rfl, fun _ h => nomatch h⟩⟩
  · obtain ⟨a, rfl⟩ := hx.ok hP
    exact (hf a).trans ⟨.inr, fun h => h.resolve_left hP⟩

end Escapes

theorem Output.fromDict_failsWhen (t : Texts) (o : Json) :
    FailsWhen (Output.fromDict t o) Json.limitError
      (∃ key ∈ ["path", "s3", "hf", "hf_path"], Unwritable o key) := by
  have hread := (asStr_failsWhen t o "path" "").bind fun path =>
    (asOptStr_failsWhen t o "s3").bind fun s3 =>
      (asOptStr_failsWhen t o "hf").bind fun hf =>
        (asOptStr_failsWhen t o "hf_path").map fun hfPath =>
          Output.mk path s3 hf hfPath (asBool o "hf_create")
  exact hread.congr (by simp)

/-- The spec has nothing to run. -/
def NoCommand (t : Texts) (d : Json) : Prop :=
  ∀ command, asStr t d "command" = .ok command → command = ""

/-- **The spec is refused before its other numbers are read**: it has nothing to run, asks for fewer
than no cards, or cannot be written. -/
def Refused (t : Texts) (d : Json) : Prop :=
  NoCommand t d ∨ (∃ gpus, asInt t d "gpus" 1 = .ok gpus ∧ gpus < 0) ∨
    (∃ key ∈ ["job_id", "name", "setup", "python"], Unwritable d key) ∨
      UnwritableMember d "env" ∨ UnwritableItem d "secrets" ∨
        ∃ o ∈ asList d "outputs", ∃ key ∈ ["path", "s3", "hf", "hf_path"], Unwritable o key

/-- **No number that is too large is come to**: each stands behind something the spec is refused for. -/
structure SpecFits (t : Texts) (d : Json) : Prop where
  gpus : TooLarge d "gpus" → NoCommand t d
  numbers : ∀ key ∈ ["sync_interval_s", "priority", "max_runtime_min", "estimated_runtime_min"],
    TooLarge d key → Refused t d
  interval : TooLarge d "progress_interval_s" → Refused t d ∨ Unwritable d "progress_command"

theorem normalizeCleanup_not_escapes (t : Texts) (value : Option Json) :
    ¬ Escapes (normalizeCleanup t value) := by
  unfold normalizeCleanup
  cases value with
  | none => exact not_escapes_ok _
  | some value =>
    rw [escapes_text (Json.text_failsWhen t value) (Q := False)]
    · exact fun h => h.2
    · intro text
      split
      · exact iff_false_intro (not_escapes_ok _)
      · exact iff_false_intro (not_escapes_valueError _)

theorem pollingInterval_failsWhen (t : Texts) (d : Json) :
    FailsWhen (pollingInterval t d) .overflowError (TooLarge d "progress_interval_s") :=
  (asFloat_failsWhen t d "progress_interval_s" _).map _

/-- The numbers that are read once the spec is not refused. -/
def LaterTooLarge (d : Json) : Prop :=
  (∃ key ∈ ["sync_interval_s", "priority", "max_runtime_min", "estimated_runtime_min"],
    TooLarge d key) ∨ (¬ Unwritable d "progress_command" ∧ TooLarge d "progress_interval_s")

/-- **What escapes the reader of a spec.** -/
theorem JobSpec.fromDict_escapes (t : Texts) (newJobId : String) (d : Json) :
    Escapes (JobSpec.fromDict t newJobId d) ↔
      ¬ NoCommand t d ∧ (TooLarge d "gpus" ∨ ¬ Refused t d ∧ LaterTooLarge d) := by
  have hcommand := asStr_failsWhen t d "command" ""
  unfold JobSpec.fromDict
  by_cases hnone : NoCommand t d
  · -- nothing to run: the command cannot be written, or is empty
    refine ⟨fun h => ?_, fun h => absurd hnone h.1⟩
    rcases escapes_bind.mp h with hescapes | ⟨command, hread, hescapes⟩
    · obtain ⟨raised, hraised, hother⟩ := hescapes
      obtain ⟨-, rfl⟩ := hcommand.eq_error.mp hraised
      exact absurd rfl (hother _)
    · rw [if_pos (hnone command hread)] at hescapes
      exact absurd hescapes (not_escapes_valueError _)
  · obtain ⟨command, hread, hne⟩ : ∃ command, asStr t d "command" = .ok command ∧ command ≠ "" := by
      simpa [NoCommand] using hnone
    rw [hread]
    show Escapes (if command = "" then _ else _) ↔ _
    rw [if_neg hne]
    by_cases hgpus : TooLarge d "gpus"
    · refine ⟨fun _ => ⟨hnone, .inl hgpus⟩, fun _ => ?_⟩
      refine ⟨.overflowError, ?_, fun _ h => nomatch h⟩
      show (asInt t d "gpus" 1 >>= _) = _
      rw [(asInt_failsWhen t d "gpus" 1).error hgpus]
      rfl
    · obtain ⟨gpus, hgot⟩ := (asInt_failsWhen t d "gpus" 1).ok hgpus
      show Escapes (asInt t d "gpus" 1 >>= _) ↔ _
      rw [hgot]
      show Escapes (if gpus < 0 then _ else _) ↔ _
      by_cases hnegative : gpus < 0
      · rw [if_pos hnegative]
        have hrefused : Refused t d := .inr (.inl ⟨gpus, hgot, hnegative⟩)
        exact ⟨fun h => absurd h (not_escapes_valueError _),
          fun h => absurd hrefused (h.2.resolve_left hgpus).1⟩
      · rw [if_neg hnegative]
        refine (escapes_text (asStr_failsWhen t d "job_id" "") fun _ =>
          escapes_text (asStr_failsWhen t d "name" "") fun _ =>
          escapes_text (asOptStr_failsWhen t d "setup") fun _ =>
          escapes_text (asStr_failsWhen t d "python" defaultPython) fun _ =>
          escapes_text (asStrDict_failsWhen t d "env") fun _ =>
          escapes_text (asStrList_failsWhen t d "secrets") fun _ =>
          escapes_text (.mapM fun o _ => Output.fromDict_failsWhen t o) fun _ =>
          escapes_number (asInt_failsWhen t d "sync_interval_s" _) fun _ =>
          escapes_number (asInt_failsWhen t d "priority" _) fun _ =>
          escapes_number (asOptFloat_failsWhen t d "max_runtime_min") fun _ =>
          escapes_number (asOptFloat_failsWhen t d "estimated_runtime_min") fun _ =>
          escapes_text (asOptStr_failsWhen t d "progress_command") fun _ =>
          escapes_number (pollingInterval_failsWhen t d) (Q := False) fun _ =>
            iff_false_intro fun h => ?_).trans ?_
        · rcases escapes_bind.mp h with h | ⟨_, -, h⟩
          · exact normalizeCleanup_not_escapes t _ h
          · exact ((escapes_text (asOptStr_failsWhen t d "requeued_from")
              fun _ => iff_false_intro (not_escapes_ok _)).mp h).2
        have hcount : ¬ ∃ gpus, asInt t d "gpus" 1 = .ok gpus ∧ gpus < 0 := by
          rintro ⟨other, hother, hless⟩
          rw [hgot] at hother
          cases hother
          exact hnegative hless
        simp only [hnone, hgpus, hcount, Refused, LaterTooLarge, List.exists_mem_cons_iff,
          List.not_mem_nil, false_and, exists_false, or_false, false_or, not_or, not_false_eq_true,
          true_and, and_assoc, or_assoc]

theorem NoCommand.refused {t : Texts} {d : Json} (h : NoCommand t d) : Refused t d := .inl h

/-- **A spec is read, or refused as a `ValueError`, exactly when no number that is too large is come
to.** -/
theorem SpecFits.iff_not_escapes (t : Texts) (newJobId : String) (d : Json) :
    SpecFits t d ↔ ¬ Escapes (JobSpec.fromDict t newJobId d) := by
  rw [JobSpec.fromDict_escapes]
  constructor
  · rintro fits ⟨hcommand, hgpus | ⟨hread, hlater⟩⟩
    · exact hcommand (fits.gpus hgpus)
    · rcases hlater with ⟨key, hkey, hlarge⟩ | ⟨hwritten, hlarge⟩
      · exact hread (fits.numbers key hkey hlarge)
      · exact (fits.interval hlarge).elim hread hwritten
  · intro hkept
    refine ⟨fun hgpus => ?_, fun key hkey hlarge => ?_, fun hlarge => ?_⟩
    · by_contra hcommand
      exact hkept ⟨hcommand, .inl hgpus⟩
    · by_contra hread
      exact hkept ⟨fun h => hread h.refused, .inr ⟨hread, .inl ⟨key, hkey, hlarge⟩⟩⟩
    · by_contra hread
      rw [not_or] at hread
      exact hkept ⟨fun h => hread.1 h.refused, .inr ⟨hread.1, .inr ⟨hread.2, hlarge⟩⟩⟩

/-! ## The queue -/

/-- What two parts of a queue come to together. -/
def Requests.append (front back : Requests) : Requests :=
  { requests := front.requests ++ back.requests
    badSpecs := front.badSpecs ++ back.badSpecs }

theorem Requests.append_assoc (a b c : Requests) :
    (a.append b).append c = a.append (b.append c) := by
  simp only [Requests.append, List.append_assoc]

section Queue
variable {t : Texts} {newJobId : String} {config : HostConfig} {running : List JobId}
  {document : JobId → Except String Json}

/-- A queue is read entry by entry. -/
theorem readRequests_cons (entry : QueueEntry) (entries : List QueueEntry) :
    readRequests t newJobId config running document (entry :: entries) =
      readRequests t newJobId config running document [entry] >>= fun own =>
        (own.append ·) <$> readRequests t newJobId config running document entries := by
  rw [readRequests, readRequests]
  by_cases hrunning : entry.jobId ∈ running
  · rw [if_pos hrunning, if_pos hrunning]
    exact (id_map _).symm
  · rw [if_neg hrunning, if_neg hrunning]
    cases document entry.jobId with
    | error _ => rfl
    | ok d =>
      dsimp only
      cases JobSpec.fromDict t newJobId d with
      | ok spec => rfl
      | error raised => cases raised <;> rfl

/-- What is read of the entries in front is read whatever stands behind them. -/
theorem readRequests_append (front back : List QueueEntry) :
    readRequests t newJobId config running document (front ++ back) =
      readRequests t newJobId config running document front >>= fun own =>
        (own.append ·) <$> readRequests t newJobId config running document back := by
  induction front with
  | nil => exact (id_map _).symm
  | cons entry entries ih =>
    rw [List.cons_append, readRequests_cons, readRequests_cons entry entries, ih]
    cases readRequests t newJobId config running document [entry] with
    | error _ => rfl
    | ok own =>
      cases readRequests t newJobId config running document entries with
      | error _ => rfl
      | ok rest =>
        cases readRequests t newJobId config running document back with
        | error _ => rfl
        | ok last => exact congrArg Except.ok (own.append_assoc rest last).symm

/-- **An entry whose document lets nothing through costs its own job, at most.** -/
theorem readRequests_own {entry : QueueEntry}
    (hentry : ∀ d, document entry.jobId = .ok d → ¬ Escapes (JobSpec.fromDict t newJobId d)) :
    ∃ own, readRequests t newJobId config running document [entry] = .ok own ∧
      (own.badSpecs = [] ∨ own.requests = [] ∧ own.badSpecs = [entry.jobId]) := by
  rw [readRequests]
  by_cases hrunning : entry.jobId ∈ running
  · rw [if_pos hrunning]
    exact ⟨_, rfl, .inl rfl⟩
  · rw [if_neg hrunning]
    cases hdocument : document entry.jobId with
    | error _ => exact ⟨_, rfl, .inr ⟨rfl, rfl⟩⟩
    | ok d =>
      dsimp only
      cases hspec : JobSpec.fromDict t newJobId d with
      | ok spec => exact ⟨_, rfl, .inl rfl⟩
      | error raised =>
        cases raised with
        | valueError _ => exact ⟨_, rfl, .inr ⟨rfl, rfl⟩⟩
        | _ => exact absurd ⟨_, hspec, fun _ h => nomatch h⟩ (hentry d hdocument)

end Queue

/-! ## Any document -/

/-- **The document takes no reader down**: a configuration and a state are read of it, a spec is or is
refused with a `ValueError`, and in a queue it costs its own job at most, what is read of the others
being what is read without it. -/
structure ReadsSafely (t : Texts) (newJobId : String) (d : Json) : Prop where
  config : ∃ config, HostConfig.fromDict t d = .ok config
  state : ∃ state, JobState.fromDict t d = .ok state
  spec : ∀ raised, JobSpec.fromDict t newJobId d = .error raised →
    ∃ message, raised = .valueError message
  queue : ∀ config running document front entry back a b,
    document entry.jobId = .ok d →
    readRequests t newJobId config running document front = .ok a →
    readRequests t newJobId config running document back = .ok b →
    ∃ own : Requests, (own.badSpecs = [] ∨ own.requests = [] ∧ own.badSpecs = [entry.jobId]) ∧
      readRequests t newJobId config running document (front ++ entry :: back)
        = .ok (a.append (own.append b))

theorem not_escapes_iff {α : Type} {x : Except Raised α} :
    ¬ Escapes x ↔ ∀ raised, x = .error raised → ∃ message, raised = .valueError message := by
  constructor
  · intro hkept raised hraised
    by_contra hother
    exact hkept ⟨raised, hraised, fun message h => hother ⟨message, h⟩⟩
  · rintro hvalue ⟨raised, hraised, hother⟩
    obtain ⟨message, h⟩ := hvalue raised hraised
    exact hother message h

/-- **A document takes no reader down exactly when no reader comes to a number too large for a float,
or to a text of a configuration or a state that cannot be written.** -/
theorem readsSafely_iff (t : Texts) (newJobId : String) (d : Json) :
    ReadsSafely t newJobId d ↔ ConfigFits d ∧ StateFits t d ∧ SpecFits t d := by
  constructor
  · rintro ⟨hconfig, hstate, hspec, -⟩
    exact ⟨(HostConfig.fromDict_ok t d).mp hconfig, (JobState.fromDict_ok t d).mp hstate,
      (SpecFits.iff_not_escapes t newJobId d).mpr (not_escapes_iff.mpr hspec)⟩
  · rintro ⟨hconfig, hstate, hspec⟩
    have hkept := (SpecFits.iff_not_escapes t newJobId d).mp hspec
    refine ⟨(HostConfig.fromDict_ok t d).mpr hconfig, (JobState.fromDict_ok t d).mpr hstate,
      not_escapes_iff.mp hkept, ?_⟩
    intro config running document front entry back a b hdocument hfront hback
    obtain ⟨own, hown, honly⟩ : ∃ own,
        readRequests t newJobId config running document [entry] = .ok own ∧ _ :=
      readRequests_own fun other hother => by
        rw [hdocument] at hother
        cases hother
        exact hkept
    refine ⟨own, honly, ?_⟩
    rw [readRequests_append, readRequests_cons, hfront, hown, hback]
    rfl

/-- A job's document with a priority of four hundred digits. -/
def hugePriority : Json := .obj [("command", .str "true"), ("priority", .int (10 ^ 400))]

theorem hugePriority_tooLarge : TooLarge hugePriority "priority" :=
  ⟨10 ^ 400, rfl, by decide +kernel⟩

/-- **A priority of four hundred digits takes down the reader of a state and the reader of a spec, and
so the pass over any queue the job stands in.** -/
theorem hugePriority_fails :
    JobState.fromDict plainTexts hugePriority = .error .overflowError ∧
    JobSpec.fromDict plainTexts "j" hugePriority = .error .overflowError ∧
    (∀ config entry, readRequests plainTexts "j" config [] (fun _ => .ok hugePriority) [entry]
      = .error .overflowError) ∧
    ¬ ReadsSafely plainTexts "j" hugePriority := by
  have hpriority : asInt plainTexts hugePriority "priority" 50 = .error .overflowError :=
    (asInt_failsWhen plainTexts hugePriority "priority" 50).error hugePriority_tooLarge
  have hstate : JobState.fromDict plainTexts hugePriority = .error .overflowError := by
    show (asInt plainTexts hugePriority "priority" 50 >>= _) = _
    rw [hpriority]
    rfl
  have hspec : JobSpec.fromDict plainTexts "j" hugePriority = .error .overflowError := by
    show (asInt plainTexts hugePriority "priority" 50 >>= _) = _
    rw [hpriority]
    rfl
  refine ⟨hstate, hspec, fun config entry => ?_, fun safe => ?_⟩
  · rw [readRequests, if_neg List.not_mem_nil]
    dsimp only
    rw [hspec]
    rfl
  · obtain ⟨message, h⟩ := safe.spec _ hspec
    cases h

end Gpuc.Host.Documents
