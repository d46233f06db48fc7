import Gpuc.Basis.Object
import Gpuc.Basis.Run
import Gpuc.Snakemake.Executor

/-!
# The gpuc jobs in flight

The executor has the gpuc jobs it is waiting for in `in_flight`: what Ctrl-C cancels. `run_job` puts one
there after the submit was accepted and the record of what it runs was written, the record with a
fingerprint of the workflow's own data; whatever reports a job's end takes it out first.

Two threads share the executor. Snakemake's calls `run_job`, whose steps are `runJob` up to the accepted
submit, `writeRecord` and `track`; the other asks gpuc about the active jobs and reports those that have
ended (`poll`), at any time in between. What happens at the files, and whether Snakemake's own
`report_job_submission` returns, is in the labels. Its reports of an end return.
-/

set_option autoImplicit false

namespace Gpuc.Snakemake

open Gpuc.Basis

/-! ## The record of a job -/

/-- What an operation on a file came to. -/
inductive FileOp (α : Type) where
  | done (a : α)
  | osError
  /-- Another exception: a path with a null character is a `ValueError`. -/
  | raised (e : Raised)

/-- What a run of a job depends on besides its input files. -/
structure Parts where
  config : Object := .null
  /-- `rule.shellcmd or rule.run_func_src or rule.wrapper`. -/
  code : Option String := none
  script : Option String := none
  shellcmd : Option String := none
  params : List (String × Object) := []
  input : List String := []
  output : List String := []

def optText : Option String → Object
  | none => .null
  | some text => .str text

/-- The mapping that is hashed, with the digest of the script. -/
def Parts.toObject (parts : Parts) (scriptBytes : Option String) : Object :=
  .obj
    [(.str "config", parts.config),
      (.str "code", optText parts.code),
      (.str "script", .arr [optText parts.script, optText scriptBytes]),
      (.str "shellcmd", optText parts.shellcmd),
      (.str "params", .obj (parts.params.map fun p => (.str p.1, p.2))),
      (.str "input", .arr ((sortedBy id parts.input).map .str)),
      (.str "output", .arr ((sortedBy id parts.output).map .str))]

/-- What is outside a record: how texts are written and hashed. -/
structure Hashing where
  texts : Texts
  sha256 : Text → String

/-- The digest of the script, if there is one and it can be read. -/
def Parts.scriptBytes (parts : Parts) (read : FileOp String) : Except Raised (Option String) :=
  match parts.script with
  | none | some "" => .ok none
  | some _ =>
    match read with
    | .done digest => .ok (some digest)
    | .osError => .ok none
    | .raised e => .error e

/-- **`fingerprint`**. -/
def fingerprint (h : Hashing) (parts : Parts) (read : FileOp String) : Except Raised String := do
  let scriptBytes ← parts.scriptBytes read
  let document ← (parts.toObject scriptBytes).toJson h.texts
  let encoded ← Json.dumps h.texts none document
  pure (h.sha256 encoded)

/-- What happens at the files while a record is written. -/
structure RecordFiles where
  mkdir : FileOp Unit
  script : FileOp String
  write : FileOp Unit

/-- **`write_record`**: the fingerprint that was recorded, and nothing where an `OSError` was logged. -/
def writeRecord (h : Hashing) (parts : Parts) (files : RecordFiles) : Except Raised (Option String) :=
  match files.mkdir with
  | .osError => .ok none
  | .raised e => .error e
  | .done () => do
    let print ← fingerprint h parts files.script
    match files.write with
    | .done () => pure (some print)
    | .osError => pure none
    | .raised e => .error e

/-! ## The executor -/

/-- A submitted job. -/
structure JobInfo where
  job : ℕ
  externalJobId : Option GpucId := none
  deriving DecidableEq

/-- Where `run_job` is. -/
inductive Main where
  | idle
  /-- The submit was answered with an id, and its record is about to be written. -/
  | recording (jobId : GpucId) (job : ℕ) (parts : Parts)
  /-- The record was written, or could not be. -/
  | tracking (jobId : GpucId) (job : ℕ)

/-- The id that was accepted and is not in flight yet. -/
def Main.window : Main → Option GpucId
  | .idle => none
  | .recording jobId _ _ | .tracking jobId _ => some jobId

/-- What has happened to a gpuc job. -/
inductive Event where
  /-- Its submit was answered, or it was taken over. -/
  | accepted (jobId : GpucId)
  /-- Its success or error was reported. -/
  | reported (jobId : GpucId)
  deriving DecidableEq

/-- `Executor`, with what has happened, the latest first. -/
structure Executor where
  inFlight : Dict GpucId JobInfo := .empty
  /-- The jobs that gpuc is asked about. -/
  active : List JobInfo := []
  main : Main := .idle
  events : List Event := []

namespace Executor

/-- **`settled`**, and whether it returned: the record of a job is removed once the job is out. -/
def settled (e : Executor) (info : JobInfo) (unlink : FileOp Unit) : Executor × Bool :=
  let out := { e with inFlight := e.inFlight.erase (info.externalJobId.getD "") }
  match info.externalJobId with
  | none | some "" => (out, true)
  | some _ =>
    match unlink with
    | .done () => (out, true)
    | .osError | .raised _ => (out, false)

/-- What both reports of an end do. -/
def reportEnd (e : Executor) (info : JobInfo) (unlink : FileOp Unit) : Executor :=
  match e.settled info unlink, info.externalJobId with
  | (out, true), some jobId => { out with events := .reported jobId :: out.events }
  | (out, _), _ => out

/-- `report_job_success`. -/
def reportJobSuccess (e : Executor) (info : JobInfo) (unlink : FileOp Unit) : Executor :=
  e.reportEnd info unlink

/-- `report_job_error`. -/
def reportJobError (e : Executor) (info : JobInfo) (unlink : FileOp Unit) : Executor :=
  e.reportEnd info unlink

/-- `report_job_submission`, if Snakemake's own returns. -/
def reportJobSubmission (e : Executor) (info : JobInfo) (returns : Bool) : Executor :=
  if returns then { e with active := e.active ++ [info] } else e

/-- The end of `run_job` and of `adopt`: the id is in flight, and the submission is reported. -/
def track (e : Executor) (jobId : GpucId) (job : ℕ) (returns : Bool) : Executor :=
  let info := { job, externalJobId := some jobId }
  { e with inFlight := e.inFlight.set jobId info, main := .idle }.reportJobSubmission info returns

/-- **`run_job`**, up to the accepted submit where there is one. An answer without an id raises; one
that is no string is none that gpuc prints. -/
def runJob (e : Executor) (job : ℕ) (parts : Parts) (ran : Ran) (unlink : FileOp Unit)
    (returns : Bool) : Executor :=
  match ran with
  | .grouped | .unanswered _ | .submitFailed => e.reportJobError { job } unlink
  | .adopted jobId .succeeded => e.reportJobSuccess { job, externalJobId := some jobId } unlink
  | .adopted jobId _ => { e with events := .accepted jobId :: e.events }.track jobId job returns
  | .submitted answer =>
    match answer.get? "job_id" with
    | some (.str jobId) =>
      { e with main := .recording jobId job parts, events := .accepted jobId :: e.events }
    | _ => e
  | .raised => e

/-- What is judged of a row of the answer, or of none. -/
def polledRow (row : Option Answer) : Answer :=
  (row.filter fun row => !row.entries.isEmpty).getD
    (Dict.ofList [("error", .str "gpuc status did not mention it")])

/-- `check_active_jobs`, of one job: it stays active, or its end is reported. -/
def checkActive (e : Executor) (info : JobInfo) (row : Option Answer) (unlink : FileOp Unit) :
    Executor :=
  match outcome (polledRow row) with
  | .unaskable | .live => e
  | .succeeded => { e with active := e.active.erase info }.reportJobSuccess info unlink
  | .gone | .failed => { e with active := e.active.erase info }.reportJobError info unlink

/-- **`cancel`**: the ids it names. -/
def cancel (e : Executor) : List GpucId :=
  (e.inFlight.values.filterMap JobInfo.externalJobId).filter (· ≠ "")

/-- One step of either thread. -/
inductive Label where
  | runJob (w : World) (earlier : Earlier) (job : Job) (number : ℕ) (parts : Parts)
      (unlink : FileOp Unit) (returns : Bool)
  | writeRecord (files : RecordFiles)
  | track (returns : Bool)
  | poll (info : JobInfo) (row : Option Answer) (unlink : FileOp Unit)

/-- **A step**, where it is the turn of its thread's function. -/
def step (h : Hashing) (e : Executor) : Label → Option Executor
  | .runJob w earlier job number parts unlink returns =>
    match e.main with
    | .idle =>
      some (e.runJob number parts (Snakemake.runJob w earlier job).ran unlink returns)
    | .recording _ _ _ | .tracking _ _ => none
  | .writeRecord files =>
    match e.main with
    | .recording jobId number parts =>
      match Snakemake.writeRecord h parts files with
      | .ok _ => some { e with main := .tracking jobId number }
      | .error _ => some { e with main := .idle }
    | .idle | .tracking _ _ => none
  | .track returns =>
    match e.main with
    | .tracking jobId number => some (e.track jobId number returns)
    | .idle | .recording _ _ _ => none
  | .poll info row unlink =>
    if info ∈ e.active then some (e.checkActive info row unlink) else none

def machine (h : Hashing) : Machine Executor Label := ⟨step h⟩

end Executor

end Gpuc.Snakemake
