import Gpuc.Laws.Job.Merged

/-!
# What a file keeps of a state and of a spec

A state is written field by field and read field by field, the two apart. One whose fields a reader can
answer (`JobState.Keeps`) is read as it was written (`JobState.fromDict_toDict`), and what a reader
answers of any document is such a state (`JobState.keeps_of_fromDict`): so reading a file, changing a
field and writing it changes no other. The same of a spec (`JobSpec.Keeps`).

A spec has more that its reader does not answer than a state has: no interpreter, fewer cards than none,
a polling interval that is not positive and a policy that is none are each read as something else, or
refused (`unreadable_specs`).
-/

set_option autoImplicit false

namespace Gpuc.Host.Documents

open Gpuc.Basis

variable {t : Texts}

/-! ## Numbers -/

/-- **The floats are binary64**: those that are spelled, and those that stand in the document. -/
structure BinaryFloats (t : Texts) (d : Json) : Prop where
  spelled : ∀ s x, t.toFloat s = some x → x.Binary64
  held : ∀ k x, (fieldsOf d).get? k = some (.float x) → x.Binary64

section Numbers
variable {d : Json} {k : String}

theorem BinaryFloats.at (hd : BinaryFloats t d) (k : String) : BinaryAt t d k := by
  intro value x hvalue hx
  cases value with
  | int n => exact .inl ⟨n, rfl⟩
  | float y =>
    obtain rfl := Except.ok.inj hx
    exact .inr (hd.held k y hvalue)
  | str s =>
    rw [Json.toFloat] at hx
    split at hx
    · next y hy =>
      obtain rfl := Except.ok.inj hx
      exact .inr (hd.spelled s y hy)
    · cases hx
  | bool b =>
    obtain rfl := Except.ok.inj hx
    refine .inr ⟨if b then 1 else 0, 0, ?_, by decide, ?_⟩
    · cases b <;> decide
    · cases b <;> simp
  | null | arr _ | obj _ => cases hx

theorem representable_asOptInt (hd : BinaryAt t d k) {n : Int}
    (h : asOptInt t d k = .ok (some n)) : Representable n := by
  obtain ⟨x, hread, hn⟩ := map_eq_ok h
  obtain ⟨y, rfl, hn⟩ := Option.bind_eq_some_iff.mp hn
  have hnumber := asOptFloat_ne_nan hread
  unfold asOptFloat at hread
  split at hread
  · cases hread
  · obtain ⟨parsed, hparsed, hy⟩ := map_eq_ok hread
    split at hy
    · cases hy
    · obtain rfl := Option.some.inj hy
      rcases asFloat_eq_ok hparsed with rfl | ⟨value, hvalue, hfloat⟩
      · exact absurd rfl hnumber
      · exact representable_toInt hd hvalue hfloat hn

theorem asOptInt_written {n : Option Int} (h : (fieldsOf d).get? k = some (orNull .int n))
    (hn : ∀ m, n = some m → Representable m) : asOptInt t d k = .ok n := by
  cases n with
  | none =>
    rw [asOptInt, asOptFloat, given_eq_none.mpr (.inr h)]
    rfl
  | some n =>
    have hgiven : given d k = some (.int n) := given_eq_some.mpr ⟨h, fun heq => by cases heq⟩
    have hread : asFloat t d k .nan = .ok (.finite n) := by
      rw [asFloat, hgiven]
      show orDefault _ (Json.toFloat t (.int n)) = _
      rw [Json.toFloat, hn n rfl]
      rfl
    have hoptional : asOptFloat t d k = .ok (some (.finite n)) := by
      rw [asOptFloat, hgiven]
      show (do
        let parsed ← asFloat t d k .nan
        pure (if parsed = Float64.nan then none else some parsed)) = _
      rw [hread]
      rfl
    rw [asOptInt, hoptional]
    exact congrArg Except.ok (Float64.toInt_intCast n)

end Numbers

/-! ## What was written is read -/

section Written
variable {d : Json} {k : String}

theorem asBool_written {b : Bool} (h : (fieldsOf d).get? k = some (.bool b)) (default' : Bool) :
    asBool d k default' = b := by
  rw [asBool, given_eq_some.mpr ⟨h, nofun⟩]
  rfl

/-- A list is read item by item. -/
theorem mapM_written {α β : Type} {dump : α → Json} {read : Json → Except Raised β} {made : α → β}
    {items : List α} (hitem : ∀ item ∈ items, read (dump item) = .ok (made item)) :
    (items.map dump).mapM read = .ok (items.map made) := by
  induction items with
  | nil => rfl
  | cons item items ih =>
    rw [List.forall_mem_cons] at hitem
    rw [List.map_cons, List.mapM_cons, hitem.1, ih hitem.2]
    rfl

theorem asOptFloatList_written {xs : List (Option Float64)}
    (h : (fieldsOf d).get? k = some (.arr (xs.map (orNull .float)))) (hxs : ∀ x ∈ xs, x ≠ some .nan) :
    asOptFloatList t d k = .ok xs := by
  have hitem : ∀ x ∈ xs, asOptFloat t (.obj [(k, orNull .float x)]) k = .ok (id x) := by
    intro x hx
    apply asOptFloat_written _ (hxs x hx)
    show (Dict.ofList [(k, orNull Json.float x)]).get? k = _
    exact (Dict.get?_ofList (by exact List.nodup_singleton k)).mpr List.mem_cons_self
  have hread : (xs.map (orNull Json.float)).mapM (fun item => asOptFloat t (.obj [(k, item)]) k)
      = .ok (xs.map id) := mapM_written hitem
  rw [List.map_id] at hread
  rw [asOptFloatList, asList, h]
  exact hread

theorem asOptFloatList_ne_nan {xs : List (Option Float64)} (h : asOptFloatList t d k = .ok xs) :
    ∀ x ∈ xs, x ≠ some .nan := by
  intro x hx
  obtain ⟨item, -, hitem⟩ := exists_of_mem_mapM h hx
  exact asOptFloat_ne_nan hitem

/-- **A document holds the fields of a record**, in whatever order, and others maybe. -/
def Holds (d : Json) (pairs : List (String × Json)) : Prop :=
  ∀ e ∈ pairs, (fieldsOf d).get? e.1 = some e.2

/-- A record that was written does. -/
theorem holds_ofList {pairs : List (String × Json)} (hnodup : (pairs.map Prod.fst).Nodup) :
    Holds (.ofDict (.ofList pairs)) pairs := by
  intro e he
  rw [fieldsOf_ofDict]
  exact (Dict.get?_ofList hnodup).mpr he

end Written

/-! ## `state.json` -/

theorem Upload.nodup_pairs (u : Upload) : (u.pairs.map Prod.fst).Nodup :=
  show ["to", "output", "ok_at", "error"].Nodup by decide

/-- An upload with a destination is read as it was written. -/
theorem Upload.fromDict_holds {d : Json} {u : Upload} (hu : u.to' ≠ "") (h : Holds d u.pairs) :
    Upload.fromDict t d = .ok (some u) := by
  simp only [Holds, Upload.pairs, List.forall_mem_cons, List.not_mem_nil, false_imp_iff, implies_true,
    and_true] at h
  obtain ⟨hto, houtput, hok, herror⟩ := h
  have hsome : (some u.to').filter (fun text => text ≠ "") = some u.to' :=
    Option.filter_eq_some_iff.mpr ⟨rfl, decide_eq_true hu⟩
  have hwritten : asOptStr t d "to" = .ok (some u.to') := asOptStr_written hto
  unfold Upload.fromDict
  rw [hwritten, asOptStr_written houtput, asOptStr_written hok, asOptStr_written herror]
  simp only [bind, Except.bind, hsome]
  rfl

/-- What is read of an upload has a destination. -/
theorem Upload.to'_ne_of_fromDict {d : Json} {u : Upload} (h : Upload.fromDict t d = .ok (some u)) :
    u.to' ≠ "" := by
  unfold Upload.fromDict at h
  obtain ⟨to', -, h⟩ := bind_eq_ok h
  split at h
  · cases h
  · next text htext =>
    obtain ⟨output, -, h⟩ := bind_eq_ok h
    obtain ⟨okAt, -, h⟩ := bind_eq_ok h
    obtain ⟨error, -, h⟩ := bind_eq_ok h
    obtain rfl := Option.some.inj (Except.ok.inj h)
    exact of_decide_eq_true (Option.filter_eq_some_iff.mp htext).2

/-- **A state that its reader answers**: the status is some text and the intent is one there is; the
integers are floats too, and no number is missing where one is given; every upload has a destination. -/
structure JobState.Keeps (state : JobState) : Prop where
  status : state.status ≠ ""
  intent : ∀ text, state.intent = some text → text ∈ intents
  integers : ∀ n ∈ [state.attempt, state.priority, state.utilSamples, state.restarts], Representable n
  optional : ∀ n ∈ [state.exitCode, state.pgid, state.runnerPid, state.workdirBytes, state.keptBytes],
    ∀ m, n = some m → Representable m
  numbers : ∀ x ∈ [state.estimatedRuntimeMin, state.maxRuntimeMin, state.progressPct], x ≠ some .nan
  samples : ∀ x ∈ state.utilRecent, x ≠ some .nan
  uploads : ∀ u ∈ state.uploads, u.to' ≠ ""

theorem JobState.nodup_pairs (state : JobState) : (state.pairs.map Prod.fst).Nodup :=
  show ["status", "intent", "attempt", "priority", "estimated_runtime_min", "max_runtime_min",
    "live_max_runtime", "reason", "problems", "exit_code", "gpus", "started_at", "ended_at", "phase",
    "pgid", "isolation", "cgroup_unit", "runner_pid", "runner_boot_id", "runner_init_start",
    "runner_starttime", "util_recent", "util_sum", "util_samples", "progress_pct", "progress_error",
    "eta", "uploads", "workdir_bytes", "outputs_lost", "ran", "checkout_removed_at", "kept_bytes",
    "restarts"].Nodup by decide

theorem orElse_ne (text : String) {other : String} (h : other ≠ "") : orElse text other ≠ "" := by
  unfold orElse
  split
  · exact h
  · assumption

theorem orElse_of_ne {text other : String} (h : text ≠ "") : orElse text other = text := if_neg h

/-- The fields that are written as they are given, and may be numbers of another type. -/
def settingFields : List String := ["priority", "estimated_runtime_min", "max_runtime_min"]

/-- **A state that its reader answers is read of any document that holds its fields**, and of whose
settings the same is read. -/
theorem JobState.fromDict_reads {d : Json} {state : JobState} (hkeeps : state.Keeps)
    (h : ∀ e ∈ state.pairs, e.1 ∉ settingFields → (fieldsOf d).get? e.1 = some e.2)
    (hpriority : asInt t d "priority" 50 = .ok state.priority)
    (hestimated : asOptFloat t d "estimated_runtime_min" = .ok state.estimatedRuntimeMin)
    (hmax : asOptFloat t d "max_runtime_min" = .ok state.maxRuntimeMin) :
    JobState.fromDict t d = .ok state := by
  simp only [JobState.pairs, List.forall_mem_cons] at h
  simp only [settingFields, List.mem_cons, List.not_mem_nil, String.reduceEq, or_self, or_true, true_or,
    not_true_eq_false, not_false_eq_true, true_imp_iff, false_imp_iff, implies_true, true_and,
    and_true] at h
  obtain ⟨hstatus, hintent, hattempt, hlive, hreason, hproblems, hexit, hgpus, hstarted, hended, hphase,
    hpgid, hisolation, hunit, hpid, hboot, hinit, hstarttime, hrecent, hsum, hsamples, hpct, herror, heta,
    huploads, hbytes, hlost, hran, hremoved, hkept, hrestarts⟩ := h
  have hintegers := hkeeps.integers
  have hoptional := hkeeps.optional
  have hnumbers := hkeeps.numbers
  simp only [List.forall_mem_cons, List.not_mem_nil, false_imp_iff, implies_true, and_true]
    at hintegers hoptional hnumbers
  have hread : (asList d "uploads").mapM (Upload.fromDict t) = .ok (state.uploads.map some) := by
    rw [asList, huploads]
    exact mapM_written fun u hu => Upload.fromDict_holds (hkeeps.uploads u hu) (holds_ofList u.nodup_pairs)
  have hknown : state.intent.filter (fun text => text ∈ intents) = state.intent := by
    cases hi : state.intent with
    | none => rfl
    | some text => exact Option.filter_eq_some_iff.mpr ⟨rfl, decide_eq_true (hkeeps.intent text hi)⟩
  unfold JobState.fromDict
  rw [asOptStr_written hintent, asStr_written hstatus, asInt_written hattempt hintegers.1,
    hpriority, hestimated, hmax, asOptStr_written hreason, asStrList_written hproblems,
    asOptInt_written hexit hoptional.1, asStrList_written hgpus, asOptStr_written hstarted,
    asOptStr_written hended, asOptStr_written hphase, asOptInt_written hpgid hoptional.2.1,
    asOptStr_written hisolation, asOptStr_written hunit, asOptInt_written hpid hoptional.2.2.1,
    asOptStr_written hboot, asOptStr_written hinit, asOptStr_written hstarttime,
    asOptFloatList_written hrecent hkeeps.samples, asFloat_written hsum,
    asInt_written hsamples hintegers.2.2.1, asOptFloat_written hpct hnumbers.2.2,
    asOptStr_written herror, asOptStr_written heta, hread,
    asOptInt_written hbytes hoptional.2.2.2.1, asOptStr_written hremoved,
    asOptInt_written hkept hoptional.2.2.2.2, asInt_written hrestarts hintegers.2.2.2,
    asBool_written hlive, asBool_written hlost, asBool_written hran]
  simp only [pure, Except.pure, bind, Except.bind, hknown, orElse_of_ne hkeeps.status,
    List.filterMap_map, Function.comp_def, id_eq, List.filterMap_some]

/-- **So it is of what is written of it.** -/
theorem JobState.fromDict_holds {d : Json} {state : JobState} (hkeeps : state.Keeps)
    (h : Holds d state.pairs) : JobState.fromDict t d = .ok state := by
  have hintegers := hkeeps.integers
  have hnumbers := hkeeps.numbers
  simp only [List.forall_mem_cons, List.not_mem_nil, false_imp_iff, implies_true, and_true]
    at hintegers hnumbers
  refine JobState.fromDict_reads hkeeps (fun e he _ => h e he) ?_ ?_ ?_
  · exact asInt_written (h ("priority", .int state.priority) (by simp [JobState.pairs])) hintegers.2.1 50
  · exact asOptFloat_written (h ("estimated_runtime_min", orNull .float state.estimatedRuntimeMin)
      (by simp [JobState.pairs])) hnumbers.1
  · exact asOptFloat_written (h ("max_runtime_min", orNull .float state.maxRuntimeMin)
      (by simp [JobState.pairs])) hnumbers.2.1

/-- **What is read of a document is a state its reader answers.** -/
theorem JobState.keeps_of_fromDict {d : Json} {state : JobState} (hd : BinaryFloats t d)
    (h : JobState.fromDict t d = .ok state) : state.Keeps := by
  unfold JobState.fromDict at h
  obtain ⟨intent, -, h⟩ := bind_eq_ok h
  obtain ⟨status, -, h⟩ := bind_eq_ok h
  obtain ⟨attempt, hattempt, h⟩ := bind_eq_ok h
  obtain ⟨priority, hpriority, h⟩ := bind_eq_ok h
  obtain ⟨estimatedRuntimeMin, hestimated, h⟩ := bind_eq_ok h
  obtain ⟨maxRuntimeMin, hmax, h⟩ := bind_eq_ok h
  obtain ⟨reason, -, h⟩ := bind_eq_ok h
  obtain ⟨problems, -, h⟩ := bind_eq_ok h
  obtain ⟨exitCode, hexit, h⟩ := bind_eq_ok h
  obtain ⟨gpus, -, h⟩ := bind_eq_ok h
  obtain ⟨startedAt, -, h⟩ := bind_eq_ok h
  obtain ⟨endedAt, -, h⟩ := bind_eq_ok h
  obtain ⟨phase, -, h⟩ := bind_eq_ok h
  obtain ⟨pgid, hpgid, h⟩ := bind_eq_ok h
  obtain ⟨isolation, -, h⟩ := bind_eq_ok h
  obtain ⟨cgroupUnit, -, h⟩ := bind_eq_ok h
  obtain ⟨runnerPid, hpid, h⟩ := bind_eq_ok h
  obtain ⟨runnerBootId, -, h⟩ := bind_eq_ok h
  obtain ⟨runnerInitStart, -, h⟩ := bind_eq_ok h
  obtain ⟨runnerStarttime, -, h⟩ := bind_eq_ok h
  obtain ⟨utilRecent, hrecent, h⟩ := bind_eq_ok h
  obtain ⟨utilSum, -, h⟩ := bind_eq_ok h
  obtain ⟨utilSamples, hsamples, h⟩ := bind_eq_ok h
  obtain ⟨progressPct, hpct, h⟩ := bind_eq_ok h
  obtain ⟨progressError, -, h⟩ := bind_eq_ok h
  obtain ⟨eta, -, h⟩ := bind_eq_ok h
  obtain ⟨uploads, huploads, h⟩ := bind_eq_ok h
  obtain ⟨workdirBytes, hbytes, h⟩ := bind_eq_ok h
  obtain ⟨checkoutRemovedAt, -, h⟩ := bind_eq_ok h
  obtain ⟨keptBytes, hkept, h⟩ := bind_eq_ok h
  obtain ⟨restarts, hrestarts, h⟩ := bind_eq_ok h
  obtain rfl := Except.ok.inj h
  have hinteger : ∀ {k default' n}, default'.natAbs < 2 ^ 53 → asInt t d k default' = .ok n →
      Representable n :=
    fun hdefault hn => representable_asInt (hd.at _) (representable_of_small hdefault) hn
  have hoptional : ∀ {k n}, asOptInt t d k = .ok n → ∀ m, n = some m → Representable m := by
    rintro k _ hn m rfl
    exact representable_asOptInt (hd.at k) hn
  exact
    { status := orElse_ne status (by decide)
      intent := fun text htext => of_decide_eq_true (Option.filter_eq_some_iff.mp htext).2
      integers := by
        simp only [List.forall_mem_cons, List.not_mem_nil, false_imp_iff, implies_true, and_true]
        exact ⟨hinteger (by decide) hattempt, hinteger (by decide) hpriority,
          hinteger (by decide) hsamples, hinteger (by decide) hrestarts⟩
      optional := by
        simp only [List.forall_mem_cons, List.not_mem_nil, false_imp_iff, implies_true, and_true]
        exact ⟨hoptional hexit, hoptional hpgid, hoptional hpid, hoptional hbytes, hoptional hkept⟩
      numbers := by
        simp only [List.forall_mem_cons, List.not_mem_nil, false_imp_iff, implies_true, and_true]
        exact ⟨asOptFloat_ne_nan hestimated, asOptFloat_ne_nan hmax, asOptFloat_ne_nan hpct⟩
      samples := asOptFloatList_ne_nan hrecent
      uploads := fun u hu => by
        obtain ⟨read, hread, hsome⟩ := List.mem_filterMap.mp hu
        obtain rfl : read = some u := hsome
        obtain ⟨item, -, hitem⟩ := exists_of_mem_mapM huploads hread
        exact Upload.to'_ne_of_fromDict hitem }

/-! ## `spec.json` -/

theorem Output.nodup_pairs (output : Output) : (output.pairs.map Prod.fst).Nodup :=
  show ["path", "s3", "hf", "hf_path", "hf_create"].Nodup by decide

/-- An output is read as it was written. -/
theorem Output.fromDict_holds {d : Json} {output : Output} (h : Holds d output.pairs) :
    Output.fromDict t d = .ok output := by
  simp only [Holds, Output.pairs, List.forall_mem_cons, List.not_mem_nil, false_imp_iff, implies_true,
    and_true] at h
  obtain ⟨hpath, hs3, hhf, hhfPath, hcreate⟩ := h
  unfold Output.fromDict
  rw [asStr_written hpath, asOptStr_written hs3, asOptStr_written hhf, asOptStr_written hhfPath,
    asBool_written hcreate]
  rfl

/-- **A spec that its reader answers**: there is a job, a command and an interpreter, no fewer cards
than none, an interval to wait and a policy there is; the integers are floats too, and no number is
missing where one is given. -/
structure JobSpec.Keeps (spec : JobSpec) : Prop where
  jobId : spec.jobId ≠ ""
  command : spec.command ≠ ""
  python : spec.python ≠ ""
  gpus : 0 ≤ spec.gpus
  interval : positive spec.progressIntervalS = true
  cleanup : spec.cleanup ∈ cleanupPolicies
  integers : ∀ n ∈ [spec.gpus, spec.syncIntervalS, spec.priority], Representable n
  numbers : ∀ x ∈ [spec.maxRuntimeMin, spec.estimatedRuntimeMin], x ≠ some .nan

theorem JobSpec.nodup_pairs (spec : JobSpec) : (spec.pairs.map Prod.fst).Nodup :=
  show ["job_id", "command", "name", "setup", "python", "gpus", "use_shared", "env", "secrets",
    "outputs", "sync_interval_s", "priority", "max_runtime_min", "estimated_runtime_min",
    "progress_command", "progress_interval_s", "auto_preempt", "cleanup", "requeued_from"].Nodup by
    decide

/-- **A spec that its reader answers is read as it was written.** -/
theorem JobSpec.fromDict_holds {d : Json} {spec : JobSpec} (newJobId : String) (hkeeps : spec.Keeps)
    (h : Holds d spec.pairs) : JobSpec.fromDict t newJobId d = .ok spec := by
  simp only [Holds, JobSpec.pairs, List.forall_mem_cons, List.not_mem_nil, false_imp_iff, implies_true,
    and_true] at h
  obtain ⟨hjobId, hcommand, hname, hsetup, hpython, hgpus, hshared, henv, hsecrets, houtputs, hsync,
    hpriority, hmax, hestimated, hprogress, hinterval, hpreempt, hcleanup, hrequeued⟩ := h
  have hintegers := hkeeps.integers
  have hnumbers := hkeeps.numbers
  simp only [List.forall_mem_cons, List.not_mem_nil, false_imp_iff, implies_true, and_true]
    at hintegers hnumbers
  have hread : (asList d "outputs").mapM (Output.fromDict t) = .ok (spec.outputs.map id) := by
    rw [asList, houtputs]
    exact mapM_written fun output _ => Output.fromDict_holds (holds_ofList output.nodup_pairs)
  have hpolling : pollingInterval t d = .ok spec.progressIntervalS := by
    rw [pollingInterval, asFloat_written hinterval]
    exact congrArg Except.ok (if_pos hkeeps.interval)
  have hpolicy : normalizeCleanup t (given d "cleanup") = .ok spec.cleanup := by
    rw [given_eq_some.mpr ⟨hcleanup, fun heq => by cases heq⟩]
    exact if_pos hkeeps.cleanup
  unfold JobSpec.fromDict
  rw [asStr_written hcommand, asInt_written hgpus hintegers.1, asStr_written hjobId,
    asStr_written hname, asOptStr_written hsetup, asStr_written hpython, asStrDict_written henv,
    asStrList_written hsecrets, hread, asInt_written hsync hintegers.2.1,
    asInt_written hpriority hintegers.2.2, asOptFloat_written hmax hnumbers.1,
    asOptFloat_written hestimated hnumbers.2, asOptStr_written hprogress, hpolling, hpolicy,
    asOptStr_written hrequeued, asBool_written hshared, asBool_written hpreempt]
  simp only [pure, Except.pure, bind, Except.bind, if_neg hkeeps.command,
    if_neg (not_lt.mpr hkeeps.gpus), orElse_of_ne hkeeps.jobId, orElse_of_ne hkeeps.python, List.map_id]

/-- An interval that was read is one to wait. -/
theorem pollingInterval_positive {d : Json} {interval : Float64}
    (h : pollingInterval t d = .ok interval) : positive interval = true := by
  obtain ⟨x, -, hx⟩ := map_eq_ok h
  split at hx
  · next hpositive => exact hx ▸ hpositive
  · exact hx ▸ (by decide +kernel)

/-- A policy that was read is one there is. -/
theorem normalizeCleanup_mem {value : Option Json} {policy : String}
    (h : normalizeCleanup t value = .ok policy) : policy ∈ cleanupPolicies := by
  unfold normalizeCleanup at h
  split at h
  · exact Except.ok.inj h ▸ List.mem_cons_self
  · obtain ⟨text, -, h⟩ := bind_eq_ok h
    split at h
    · next hmem => exact Except.ok.inj h ▸ hmem
    · cases h

/-- **What is read of a document that names its job is a spec its reader answers.** -/
theorem JobSpec.keeps_of_fromDict {d : Json} {newJobId : String} {spec : JobSpec}
    (hd : BinaryFloats t d) (hnamed : asStr t d "job_id" ≠ .ok "")
    (h : JobSpec.fromDict t newJobId d = .ok spec) : spec.Keeps := by
  unfold JobSpec.fromDict at h
  obtain ⟨command, -, h⟩ := bind_eq_ok h
  by_cases hcommand : command = ""
  · rw [if_pos hcommand] at h
    cases h
  rw [if_neg hcommand] at h
  obtain ⟨gpus, hgpus, h⟩ := bind_eq_ok h
  by_cases hnegative : gpus < 0
  · rw [if_pos hnegative] at h
    cases h
  rw [if_neg hnegative] at h
  obtain ⟨jobId, hjobId, h⟩ := bind_eq_ok h
  obtain ⟨name, -, h⟩ := bind_eq_ok h
  obtain ⟨setup, -, h⟩ := bind_eq_ok h
  obtain ⟨python, -, h⟩ := bind_eq_ok h
  obtain ⟨env, -, h⟩ := bind_eq_ok h
  obtain ⟨secrets, -, h⟩ := bind_eq_ok h
  obtain ⟨outputs, -, h⟩ := bind_eq_ok h
  obtain ⟨syncIntervalS, hsync, h⟩ := bind_eq_ok h
  obtain ⟨priority, hpriority, h⟩ := bind_eq_ok h
  obtain ⟨maxRuntimeMin, hmax, h⟩ := bind_eq_ok h
  obtain ⟨estimatedRuntimeMin, hestimated, h⟩ := bind_eq_ok h
  obtain ⟨progressCommand, -, h⟩ := bind_eq_ok h
  obtain ⟨progressIntervalS, hinterval, h⟩ := bind_eq_ok h
  obtain ⟨cleanup, hcleanup, h⟩ := bind_eq_ok h
  obtain ⟨requeuedFrom, -, h⟩ := bind_eq_ok h
  obtain rfl := Except.ok.inj h
  have hinteger : ∀ {k default' n}, default'.natAbs < 2 ^ 53 → asInt t d k default' = .ok n →
      Representable n :=
    fun hdefault hn => representable_asInt (hd.at _) (representable_of_small hdefault) hn
  have hgiven : jobId ≠ "" := fun hempty => hnamed (hempty ▸ hjobId)
  exact
    { jobId := by
        show orElse jobId newJobId ≠ ""
        rwa [orElse_of_ne hgiven]
      command := hcommand
      python := orElse_ne python (by decide)
      gpus := not_lt.mp hnegative
      interval := pollingInterval_positive hinterval
      cleanup := normalizeCleanup_mem hcleanup
      integers := by
        simp only [List.forall_mem_cons, List.not_mem_nil, false_imp_iff, implies_true, and_true]
        exact ⟨hinteger (by decide) hgpus, hinteger (by decide) hsync, hinteger (by decide) hpriority⟩
      numbers := by
        simp only [List.forall_mem_cons, List.not_mem_nil, false_imp_iff, implies_true, and_true]
        exact ⟨asOptFloat_ne_nan hmax, asOptFloat_ne_nan hestimated⟩ }

/-! ## Files -/

theorem JobState.fromDict_toDict {state : JobState} (hkeeps : state.Keeps) :
    JobState.fromDict t (.ofDict state.toDict) = .ok state :=
  JobState.fromDict_holds hkeeps (holds_ofList state.nodup_pairs)

theorem JobSpec.fromDict_toDict {spec : JobSpec} (newJobId : String) (hkeeps : spec.Keeps) :
    JobSpec.fromDict t newJobId (.ofDict spec.toDict) = .ok spec :=
  JobSpec.fromDict_holds newJobId hkeeps (holds_ofList spec.nodup_pairs)

/-- **A state and a spec survive their files**: what a reader answers is read as it was written, and what
is read of a document is such, whatever else stood in the document. -/
structure Survives (t : Texts) : Prop where
  state : ∀ state : JobState, state.Keeps → JobState.fromDict t (.ofDict state.toDict) = .ok state
  spec : ∀ (spec : JobSpec) newJobId, spec.Keeps →
    JobSpec.fromDict t newJobId (.ofDict spec.toDict) = .ok spec
  stateAgain : ∀ d state, BinaryFloats t d → JobState.fromDict t d = .ok state →
    JobState.fromDict t (.ofDict state.toDict) = .ok state
  specAgain : ∀ d spec newJobId other, BinaryFloats t d → asStr t d "job_id" ≠ .ok "" →
    JobSpec.fromDict t newJobId d = .ok spec →
    JobSpec.fromDict t other (.ofDict spec.toDict) = .ok spec

theorem files_survive (t : Texts) : Survives t where
  state _ hkeeps := JobState.fromDict_toDict hkeeps
  spec _ newJobId hkeeps := JobSpec.fromDict_toDict newJobId hkeeps
  stateAgain _ _ hd h := JobState.fromDict_toDict (JobState.keeps_of_fromDict hd h)
  specAgain _ _ _ other hd hnamed h :=
    JobSpec.fromDict_toDict other (JobSpec.keeps_of_fromDict hd hnamed h)

/-- A spec that runs one command. -/
def echo : JobSpec :=
  { jobId := "j", command := "echo", name := "", setup := none, python := defaultPython, gpus := 1
    useShared := false, env := .empty, secrets := [], outputs := [], syncIntervalS := 180
    priority := 50, maxRuntimeMin := none, estimatedRuntimeMin := none, progressCommand := none
    progressIntervalS := defaultIntervalS, autoPreempt := false, cleanup := "on_success"
    requeuedFrom := none }

theorem echo_keeps : echo.Keeps where
  jobId := by decide
  command := by decide
  python := by decide
  gpus := by decide
  interval := by decide +kernel
  cleanup := by decide
  integers := by
    have hsmall : ∀ n ∈ [echo.gpus, echo.syncIntervalS, echo.priority], n.natAbs < 2 ^ 53 := by decide
    exact fun n hn => representable_of_small (hsmall n hn)
  numbers := by decide

theorem files_survive_echo : JobSpec.fromDict plainTexts "new" (.ofDict echo.toDict) = .ok echo :=
  (files_survive plainTexts).spec echo "new" echo_keeps

/-- A spec that is written, and read. -/
def echoed (spec : JobSpec) : Except Raised JobSpec :=
  JobSpec.fromDict plainTexts "new" (.ofDict spec.toDict)

/-- **Specs of the declared types that are not read as they were written.** -/
theorem unreadable_specs :
    (echoed { echo with python := "" }).toOption.map JobSpec.python = some defaultPython ∧
    (echoed { echo with progressIntervalS := .finite 0 }).toOption.map JobSpec.progressIntervalS
      = some defaultIntervalS ∧
    (echoed { echo with gpus := -1 }).isOk = false ∧
    (echoed { echo with cleanup := "sometimes" }).isOk = false := by
  refine ⟨?_, ?_, ?_, ?_⟩
  · decide +kernel
  · decide +kernel
  · decide +kernel
  · decide +kernel

end Gpuc.Host.Documents
