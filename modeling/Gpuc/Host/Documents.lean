import Gpuc.Basis.Convert
import Gpuc.Host.Plan
import Gpuc.Host.Queue

/-!
# The readers of the host's documents

`config.json`, `spec.json` and `state.json` are read field by field, each field through a coercion that
makes of any value one of the field's type, or the field's default. What a coercion does not catch it
raises, so each reader answers a record or what was raised on the way: the fields are read in the
order the record is built.

A record here has every field its reader sets. The dispatcher's reading of the queue (`readRequests`)
catches what a spec's reader raises, if it is a `ValueError`.
-/

set_option autoImplicit false

namespace Gpuc.Host.Documents

open Gpuc.Basis

/-! ## The coercions -/

/-- `except (TypeError, ValueError)`: the default in place of what these two leave. -/
def orDefault (default' : Float64) : Except Raised Float64 → Except Raised Float64
  | .ok x => .ok x
  | .error .typeError | .error (.valueError _) => .ok default'
  | .error .overflowError => .error .overflowError

section Coercions
variable (t : Texts) (d : Json) (key : String)

/-- `fields_of`: the mapping, or an empty one. -/
def fieldsOf : Dict String Json := d.members.getD .empty

/-- The value of a key, if there is one that is not null. -/
def given : Option Json :=
  match (fieldsOf d).get? key with
  | none | some .null => none
  | some value => some value

/-- `as_float`: an unusable value means the default, as a bool does. -/
def asFloat (default' : Float64) : Except Raised Float64 :=
  match given d key with
  | none | some (.bool _) => .ok default'
  | some value => orDefault default' (value.toFloat t)

/-- `as_opt_float`. -/
def asOptFloat : Except Raised (Option Float64) :=
  match given d key with
  | none => .ok none
  | some _ => do
    let parsed ← asFloat t d key .nan
    pure (if parsed = .nan then none else some parsed)

/-- `as_int`. -/
def asInt (default' : Int) : Except Raised Int := do
  let value ← asFloat t d key (.finite default')
  pure (value.toInt.getD default')

/-- `as_opt_int`. -/
def asOptInt : Except Raised (Option Int) := do
  let value ← asOptFloat t d key
  pure (value.bind Float64.toInt)

/-- `as_str`. -/
def asStr (default' : String := "") : Except Raised String :=
  match given d key with
  | none => .ok default'
  | some value => value.text t

/-- `as_opt_str`. -/
def asOptStr : Except Raised (Option String) :=
  match given d key with
  | none => .ok none
  | some value => do
    let text ← value.text t
    pure (some text)

/-- `as_bool`. -/
def asBool (default' : Bool := false) : Bool := (given d key).elim default' Json.truthy

/-- `as_list`. -/
def asList : List Json :=
  match (fieldsOf d).get? key with
  | some (.arr items) => items
  | _ => []

/-- `as_str_list`. -/
def asStrList : Except Raised (List String) := (asList d key).mapM (Json.text t)

/-- `as_opt_str_list`: nothing only for an explicit null. -/
def asOptStrList : Except Raised (Option (List String)) :=
  match (fieldsOf d).get? key with
  | some .null => .ok none
  | _ => do
    let texts ← asStrList t d key
    pure (some texts)

/-- `as_opt_float_list`. -/
def asOptFloatList : Except Raised (List (Option Float64)) :=
  (asList d key).mapM fun item => asOptFloat t (.obj [(key, item)]) key

/-- `as_str_dict`. -/
def asStrDict : Except Raised (Dict String String) :=
  match (fieldsOf d).get? key with
  | some (.obj pairs) => do
    let texts ← (Dict.ofList pairs).entries.mapM fun e => do
      let text ← e.2.text t
      pure (e.1, text)
    pure (Dict.ofList texts)
  | _ => .ok .empty

end Coercions

/-- `text or other`. -/
def orElse (text other : String) : String := if text = "" then other else text

/-! ## `config.json` -/

/-- `SCHEMA_VERSION`. -/
def schemaVersion : Int := 1

structure HostConfig where
  schemaVersion : Int
  host : String
  gpus : Option (List String)
  sharedGpus : List String
  provider : Option (Dict String Json)
  idleMinutes : Float64
  s3Prefix : Option String
  createdAt : Option String
  retentionDays : Option Float64
  workdirDays : Option Float64
  env : Dict String String
  pkgCommit : Option String

/-- **`HostConfig.from_dict`**. -/
def HostConfig.fromDict (t : Texts) (d : Json) : Except Raised HostConfig := do
  let version ← asInt t d "schema_version" Documents.schemaVersion
  let host ← asStr t d "host" "local"
  let gpus ← asOptStrList t d "gpus"
  let sharedGpus ← asStrList t d "shared_gpus"
  let idleMinutes ← asFloat t d "idle_minutes" (.finite 15)
  let s3Prefix ← asOptStr t d "s3_prefix"
  let createdAt ← asOptStr t d "created_at"
  let retentionDays ← asOptFloat t d "retention_days"
  let workdirDays ← asOptFloat t d "workdir_days"
  let env ← asStrDict t d "env"
  let pkgCommit ← asOptStr t d "pkg_commit"
  pure
    { schemaVersion := version
      host := orElse host "local"
      gpus := gpus
      sharedGpus := sharedGpus
      provider := ((fieldsOf d).get? "provider").bind Json.members
      idleMinutes := idleMinutes
      s3Prefix := s3Prefix
      createdAt := createdAt
      retentionDays := retentionDays
      workdirDays := workdirDays
      env := env
      pkgCommit := pkgCommit }

/-- `may_borrow`. -/
def HostConfig.mayBorrow (config : HostConfig) (useShared : Bool) : Bool :=
  useShared && config.sharedGpus ≠ []

/-- A value, or null. -/
def orNull {α : Type} (dump : α → Json) (value : Option α) : Json := value.elim .null dump

/-- `HostConfig.to_dict`. -/
def HostConfig.toDict (config : HostConfig) : Dict String Json :=
  .ofList
    [("schema_version", .int config.schemaVersion),
      ("host", .str config.host),
      ("gpus", orNull (fun gpus => .arr (gpus.map .str)) config.gpus),
      ("shared_gpus", .arr (config.sharedGpus.map .str)),
      ("provider", orNull .ofDict config.provider),
      ("idle_minutes", .float config.idleMinutes),
      ("s3_prefix", orNull .str config.s3Prefix),
      ("created_at", orNull .str config.createdAt),
      ("retention_days", orNull .float config.retentionDays),
      ("workdir_days", orNull .float config.workdirDays),
      ("env", .ofDict (config.env.map .str)),
      ("pkg_commit", orNull .str config.pkgCommit)]

/-- A dictionary with another's values over its own. -/
def update (d patch : Dict String Json) : Dict String Json := .ofList (d.entries ++ patch.entries)

/-- **`merged_config`**: the patch's keys replaced, the known ones normalised, the others kept. -/
def mergedConfig (t : Texts) (existing : Json) (patch : Dict String Json) :
    Except Raised (Dict String Json) := do
  let merged := update (fieldsOf existing) patch
  let config ← HostConfig.fromDict t (.ofDict merged)
  pure (update merged config.toDict)

/-! ## `state.json` -/

structure Upload where
  to' : String
  output : Option String
  okAt : Option String
  error : Option String

/-- `Upload.from_dict`: a record with no destination is none. -/
def Upload.fromDict (t : Texts) (d : Json) : Except Raised (Option Upload) := do
  let to' ← asOptStr t d "to"
  match to'.filter fun text => text ≠ "" with
  | none => pure none
  | some to' =>
    let output ← asOptStr t d "output"
    let okAt ← asOptStr t d "ok_at"
    let error ← asOptStr t d "error"
    pure (some { to' := to', output := output, okAt := okAt, error := error })

structure JobState where
  status : String
  intent : Option String
  attempt : Int
  priority : Int
  estimatedRuntimeMin : Option Float64
  maxRuntimeMin : Option Float64
  liveMaxRuntime : Bool
  reason : Option String
  problems : List String
  exitCode : Option Int
  gpus : List String
  startedAt : Option String
  endedAt : Option String
  phase : Option String
  pgid : Option Int
  isolation : Option String
  cgroupUnit : Option String
  runnerPid : Option Int
  runnerBootId : Option String
  runnerInitStart : Option String
  runnerStarttime : Option String
  utilRecent : List (Option Float64)
  utilSum : Float64
  utilSamples : Int
  progressPct : Option Float64
  progressError : Option String
  eta : Option String
  uploads : List Upload
  workdirBytes : Option Int
  outputsLost : Bool
  ran : Bool
  checkoutRemovedAt : Option String
  keptBytes : Option Int
  restarts : Int

/-- An upload's fields, in order. -/
def Upload.pairs (u : Upload) : List (String × Json) :=
  [("to", .str u.to'),
    ("output", orNull .str u.output),
    ("ok_at", orNull .str u.okAt),
    ("error", orNull .str u.error)]

/-- A list of texts, as it is written. -/
def ofTexts (texts : List String) : Json := .arr (texts.map .str)

/-- A state's fields, in order. -/
def JobState.pairs (state : JobState) : List (String × Json) :=
  [("status", .str state.status),
    ("intent", orNull .str state.intent),
    ("attempt", .int state.attempt),
    ("priority", .int state.priority),
    ("estimated_runtime_min", orNull .float state.estimatedRuntimeMin),
    ("max_runtime_min", orNull .float state.maxRuntimeMin),
    ("live_max_runtime", .bool state.liveMaxRuntime),
    ("reason", orNull .str state.reason),
    ("problems", ofTexts state.problems),
    ("exit_code", orNull .int state.exitCode),
    ("gpus", ofTexts state.gpus),
    ("started_at", orNull .str state.startedAt),
    ("ended_at", orNull .str state.endedAt),
    ("phase", orNull .str state.phase),
    ("pgid", orNull .int state.pgid),
    ("isolation", orNull .str state.isolation),
    ("cgroup_unit", orNull .str state.cgroupUnit),
    ("runner_pid", orNull .int state.runnerPid),
    ("runner_boot_id", orNull .str state.runnerBootId),
    ("runner_init_start", orNull .str state.runnerInitStart),
    ("runner_starttime", orNull .str state.runnerStarttime),
    ("util_recent", .arr (state.utilRecent.map (orNull .float))),
    ("util_sum", .float state.utilSum),
    ("util_samples", .int state.utilSamples),
    ("progress_pct", orNull .float state.progressPct),
    ("progress_error", orNull .str state.progressError),
    ("eta", orNull .str state.eta),
    ("uploads", .arr (state.uploads.map fun u => .ofDict (.ofList u.pairs))),
    ("workdir_bytes", orNull .int state.workdirBytes),
    ("outputs_lost", .bool state.outputsLost),
    ("ran", .bool state.ran),
    ("checkout_removed_at", orNull .str state.checkoutRemovedAt),
    ("kept_bytes", orNull .int state.keptBytes),
    ("restarts", .int state.restarts)]

/-- `JobState.to_dict`. -/
def JobState.toDict (state : JobState) : Dict String Json := .ofList state.pairs

/-- `INTENTS`. -/
def intents : List String := ["cancel", "preempt"]

/-- **`JobState.from_dict`**. -/
def JobState.fromDict (t : Texts) (d : Json) : Except Raised JobState := do
  let intent ← asOptStr t d "intent"
  let status ← asStr t d "status" "queued"
  let attempt ← asInt t d "attempt" 1
  let priority ← asInt t d "priority" 50
  let estimatedRuntimeMin ← asOptFloat t d "estimated_runtime_min"
  let maxRuntimeMin ← asOptFloat t d "max_runtime_min"
  let reason ← asOptStr t d "reason"
  let problems ← asStrList t d "problems"
  let exitCode ← asOptInt t d "exit_code"
  let gpus ← asStrList t d "gpus"
  let startedAt ← asOptStr t d "started_at"
  let endedAt ← asOptStr t d "ended_at"
  let phase ← asOptStr t d "phase"
  let pgid ← asOptInt t d "pgid"
  let isolation ← asOptStr t d "isolation"
  let cgroupUnit ← asOptStr t d "cgroup_unit"
  let runnerPid ← asOptInt t d "runner_pid"
  let runnerBootId ← asOptStr t d "runner_boot_id"
  let runnerInitStart ← asOptStr t d "runner_init_start"
  let runnerStarttime ← asOptStr t d "runner_starttime"
  let utilRecent ← asOptFloatList t d "util_recent"
  let utilSum ← asFloat t d "util_sum" (.finite 0)
  let utilSamples ← asInt t d "util_samples" 0
  let progressPct ← asOptFloat t d "progress_pct"
  let progressError ← asOptStr t d "progress_error"
  let eta ← asOptStr t d "eta"
  let uploads ← (asList d "uploads").mapM (Upload.fromDict t)
  let workdirBytes ← asOptInt t d "workdir_bytes"
  let checkoutRemovedAt ← asOptStr t d "checkout_removed_at"
  let keptBytes ← asOptInt t d "kept_bytes"
  let restarts ← asInt t d "restarts" 0
  pure
    { status := orElse status "queued"
      intent := intent.filter fun text => text ∈ intents
      attempt := attempt
      priority := priority
      estimatedRuntimeMin := estimatedRuntimeMin
      maxRuntimeMin := maxRuntimeMin
      liveMaxRuntime := asBool d "live_max_runtime"
      reason := reason
      problems := problems
      exitCode := exitCode
      gpus := gpus
      startedAt := startedAt
      endedAt := endedAt
      phase := phase
      pgid := pgid
      isolation := isolation
      cgroupUnit := cgroupUnit
      runnerPid := runnerPid
      runnerBootId := runnerBootId
      runnerInitStart := runnerInitStart
      runnerStarttime := runnerStarttime
      utilRecent := utilRecent
      utilSum := utilSum
      utilSamples := utilSamples
      progressPct := progressPct
      progressError := progressError
      eta := eta
      uploads := uploads.filterMap id
      workdirBytes := workdirBytes
      outputsLost := asBool d "outputs_lost"
      ran := asBool d "ran" true
      checkoutRemovedAt := checkoutRemovedAt
      keptBytes := keptBytes
      restarts := restarts }

/-! ## `spec.json` -/

structure Output where
  path : String
  s3 : Option String
  hf : Option String
  hfPath : Option String
  hfCreate : Bool

/-- `Output.from_dict`. -/
def Output.fromDict (t : Texts) (d : Json) : Except Raised Output := do
  let path ← asStr t d "path"
  let s3 ← asOptStr t d "s3"
  let hf ← asOptStr t d "hf"
  let hfPath ← asOptStr t d "hf_path"
  pure { path := path, s3 := s3, hf := hf, hfPath := hfPath, hfCreate := asBool d "hf_create" }

/-- `CLEANUP_POLICIES`, the default first. -/
def cleanupPolicies : List String := ["on_success", "always", "never"]

/-- `normalize_cleanup`. -/
def normalizeCleanup (t : Texts) (value : Option Json) : Except Raised String :=
  match value with
  | none => .ok "on_success"
  | some value => do
    let text ← value.text t
    if text ∈ cleanupPolicies then pure text
    else
      let policies := ", ".intercalate cleanupPolicies
      throw (.valueError s!"cleanup must be one of {policies}, got {t.quote text}")

/-- `progress.DEFAULT_INTERVAL_S`. -/
def defaultIntervalS : Float64 := .finite 60

/-- Is the float more than zero? -/
def positive : Float64 → Bool
  | .finite q => 0 < q
  | .infinite negative => !negative
  | .nan => false

/-- `_polling_interval`. -/
def pollingInterval (t : Texts) (d : Json) : Except Raised Float64 := do
  let interval ← asFloat t d "progress_interval_s" defaultIntervalS
  pure (if positive interval then interval else defaultIntervalS)

/-- `DEFAULT_PYTHON`. -/
def defaultPython : String := "uv run --no-sync python"

structure JobSpec where
  jobId : String
  command : String
  name : String
  setup : Option String
  python : String
  gpus : Int
  useShared : Bool
  env : Dict String String
  secrets : List String
  outputs : List Output
  syncIntervalS : Int
  priority : Int
  maxRuntimeMin : Option Float64
  estimatedRuntimeMin : Option Float64
  progressCommand : Option String
  progressIntervalS : Float64
  autoPreempt : Bool
  cleanup : String
  requeuedFrom : Option String

/-- What is said of a spec with nothing to run. -/
def needsCommand : Raised := .valueError "a job spec needs a \x60command\x60"

/-- What is said of a spec that asks for fewer than no cards. -/
def fewerThanNone (gpus : Int) : Raised :=
  .valueError s!"a job spec cannot ask for fewer than no GPUs, got \x60gpus: {gpus}\x60"

/-- **`JobSpec.from_dict`**; `newJobId` is the id of a spec that names none. -/
def JobSpec.fromDict (t : Texts) (newJobId : String) (d : Json) : Except Raised JobSpec := do
  let command ← asStr t d "command"
  if command = "" then throw needsCommand
  let gpus ← asInt t d "gpus" 1
  if gpus < 0 then throw (fewerThanNone gpus)
  let jobId ← asStr t d "job_id"
  let name ← asStr t d "name"
  let setup ← asOptStr t d "setup"
  let python ← asStr t d "python" defaultPython
  let env ← asStrDict t d "env"
  let secrets ← asStrList t d "secrets"
  let outputs ← (asList d "outputs").mapM (Output.fromDict t)
  let syncIntervalS ← asInt t d "sync_interval_s" 180
  let priority ← asInt t d "priority" 50
  let maxRuntimeMin ← asOptFloat t d "max_runtime_min"
  let estimatedRuntimeMin ← asOptFloat t d "estimated_runtime_min"
  let progressCommand ← asOptStr t d "progress_command"
  let progressIntervalS ← pollingInterval t d
  let cleanup ← normalizeCleanup t (given d "cleanup")
  let requeuedFrom ← asOptStr t d "requeued_from"
  pure
    { jobId := orElse jobId newJobId
      command := command
      name := name
      setup := setup
      python := orElse python defaultPython
      gpus := gpus
      useShared := asBool d "use_shared"
      env := env
      secrets := secrets
      outputs := outputs
      syncIntervalS := syncIntervalS
      priority := priority
      maxRuntimeMin := maxRuntimeMin
      estimatedRuntimeMin := estimatedRuntimeMin
      progressCommand := progressCommand
      progressIntervalS := progressIntervalS
      autoPreempt := asBool d "auto_preempt"
      cleanup := cleanup
      requeuedFrom := requeuedFrom }

/-- An output's fields, in order. -/
def Output.pairs (output : Output) : List (String × Json) :=
  [("path", .str output.path),
    ("s3", orNull .str output.s3),
    ("hf", orNull .str output.hf),
    ("hf_path", orNull .str output.hfPath),
    ("hf_create", .bool output.hfCreate)]

/-- A spec's fields, in order. -/
def JobSpec.pairs (spec : JobSpec) : List (String × Json) :=
  [("job_id", .str spec.jobId),
    ("command", .str spec.command),
    ("name", .str spec.name),
    ("setup", orNull .str spec.setup),
    ("python", .str spec.python),
    ("gpus", .int spec.gpus),
    ("use_shared", .bool spec.useShared),
    ("env", .ofDict (spec.env.map .str)),
    ("secrets", ofTexts spec.secrets),
    ("outputs", .arr (spec.outputs.map fun output => .ofDict (.ofList output.pairs))),
    ("sync_interval_s", .int spec.syncIntervalS),
    ("priority", .int spec.priority),
    ("max_runtime_min", orNull .float spec.maxRuntimeMin),
    ("estimated_runtime_min", orNull .float spec.estimatedRuntimeMin),
    ("progress_command", orNull .str spec.progressCommand),
    ("progress_interval_s", .float spec.progressIntervalS),
    ("auto_preempt", .bool spec.autoPreempt),
    ("cleanup", .str spec.cleanup),
    ("requeued_from", orNull .str spec.requeuedFrom)]

/-- `JobSpec.to_dict`. -/
def JobSpec.toDict (spec : JobSpec) : Dict String Json := .ofList spec.pairs

/-! ## The queue -/

/-- What reading the queue comes to: the requests, and the jobs failed as `bad-spec`. -/
structure Requests where
  requests : List (QueueEntry × Request) := []
  badSpecs : List JobId := []

/-- **`_requests`**: every queued job with no runner yet. `document` is what `read_json` answers of its
spec, or the `RuntimeError` it raises. -/
def readRequests (t : Texts) (newJobId : String) (config : HostConfig) (running : List JobId)
    (document : JobId → Except String Json) : List QueueEntry → Except Raised Requests
  | [] => pure {}
  | entry :: entries => do
    if entry.jobId ∈ running then readRequests t newJobId config running document entries
    else
      let dropped := do
        let rest ← readRequests t newJobId config running document entries
        pure { rest with badSpecs := entry.jobId :: rest.badSpecs }
      match document entry.jobId with
      | .error _ => dropped
      | .ok d =>
        match JobSpec.fromDict t newJobId d with
        | .error (.valueError _) => dropped
        | .error raised => throw raised
        | .ok spec => do
          let rest ← readRequests t newJobId config running document entries
          let request : Request :=
            { jobId := entry.jobId
              gpus := spec.gpus.toNat
              borrows := config.mayBorrow spec.useShared
              priority := entry.priority
              fills := spec.autoPreempt }
          pure { rest with requests := (entry, request) :: rest.requests }

end Gpuc.Host.Documents
