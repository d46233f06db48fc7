import Mathlib.Data.String.Basic
import Gpuc.Basis.Json

/-!
# The Snakemake executor

`snakemake --executor gpuc` runs each job as one gpuc job, through the `gpuc` command. A controller that
restarts finds in the incomplete markers the gpuc ids an earlier one submitted for a job, asks gpuc
about them once, and adopts one, or cancels what is still live and submits the job again.

What the commands do is the parameter `World`: each is run as a process, whose document is parsed JSON,
or none. An answer is a row of such a document. A row or an error list of another type than gpuc prints
raises, and `raised` is what the controller's caller sees of that.
-/

set_option autoImplicit false

namespace Gpuc.Snakemake

open Gpuc.Basis

/-- A gpuc job's id. -/
abbrev GpucId := String

/-- One job of `gpuc status --json`. -/
abbrev Answer := Dict String Json

/-! ## Running gpuc -/

/-- What became of one run of the command. -/
inductive Process where
  | notStarted (message : String)
  /-- It exited, with the document on its standard output, if that parses. -/
  | exited (code : Int) (document : Option Json) (stderr : String)

inductive GpucError where
  | notStarted (message : String)
  | noDocument (code : Int) (stderr : String)
  /-- The document is an error. -/
  | error (error : Json)
  | failed (code : Int) (stderr : String)

/-- **`Executor.gpuc`**: the document a run printed. `okCodes` are the exits that still carry the whole
answer. -/
def gpuc (okCodes : List Int) : Process → Except GpucError Answer
  | .notStarted message => .error (.notStarted message)
  | .exited code document stderr =>
    match document.bind Json.members with
    | none => .error (.noDocument code stderr)
    | some document =>
      match document.get? "error" with
      | some error => .error (.error error)
      | none => if code ∈ okCodes then .ok document else .error (.failed code stderr)

/-- The rows of a document, and nothing where reading them raises. -/
def rowsOf (value : Option Json) : Option (List Answer) :=
  match value.filter Json.truthy with
  | none => some []
  | some (.arr items) => items.mapM Json.members
  | some _ => none

/-- The key a row goes under: a list or an object is no key, and raises. -/
def rowKey (row : Answer) : Option (Option (GpucId × Answer)) :=
  match row.get? "job_id" with
  | some (.str jobId) => some (some (jobId, row))
  | some (.arr _) | some (.obj _) => none
  | _ => some none

/-! ## What gpuc says of the earlier jobs -/

/-- `outcome`: where one job of an answer stands. -/
inductive Standing where
  | succeeded
  | failed
  | gone
  | live
  | unaskable
  deriving DecidableEq

/-- It may still run, as far as gpuc knows. -/
def Standing.pending : Standing → Bool
  | .live | .unaskable => true
  | .succeeded | .failed | .gone => false

/-- **`outcome`**: unaskable while its host could not be asked, gone for any other error. -/
def outcome (answer : Answer) : Standing :=
  match answer.get? "error" with
  | none | some .null =>
    match answer.get? "status" with
    | some (.str "succeeded") => .succeeded
    | some (.str "failed") | some (.str "cancelled") => .failed
    | _ => .live
  | some _ =>
    match answer.get? "host_state" with
    | some (.str "unaskable") => .unaskable
    | _ => .gone

/-- What stands for a job the answer does not have. -/
def unmentioned : Answer :=
  Dict.ofList [("error", .str "gpuc status did not mention it"), ("host_state", .str "unaskable")]

/-- What has been asked of gpuc about earlier jobs, or why it could not be. -/
structure Earlier where
  answers : Dict GpucId Answer := Dict.empty
  failure : Option GpucError := none

/-- **`earlier_jobs`**: one `gpuc status` for every id the markers of these jobs hold. -/
def earlierJobs (ids : List GpucId) (status : List GpucId → Process) : Option Earlier :=
  let ids := sortedBy id ids.eraseDups
  if ids = [] then some {}
  else
    match gpuc [0, 1, 4] (status ids) with
    | .error error => some { failure := some error }
    | .ok document => do
      let rows ← rowsOf (document.get? "jobs")
      let keyed ← rows.mapM rowKey
      return { answers := Dict.ofList (keyed.filterMap id) }

/-- The answer there is about one id. -/
def Earlier.about (earlier : Earlier) (jobId : GpucId) : Answer :=
  ((earlier.answers.get? jobId).filter fun answer => !answer.entries.isEmpty).getD unmentioned

/-- The one to judge: a succeeded one, else a live one, else one that could not be asked about. -/
def Earlier.chosen (earlier : Earlier) (ids : List GpucId) : Option (Standing × GpucId) :=
  [.succeeded, .live, .unaskable].findSome? fun standing =>
    (ids.find? fun jobId => outcome (earlier.about jobId) = standing).map (standing, ·)

/-- Those that are live, or could not be asked about. -/
def Earlier.pending (earlier : Earlier) (ids : List GpucId) : List GpucId :=
  ids.filter fun jobId => (outcome (earlier.about jobId)).pending

/-! ## Running one job -/

/-- What the controller finds around it while it runs one job. -/
structure World where
  status : List GpucId → Process
  cancel : List GpucId → Process
  /-- Why an earlier gpuc job is not this job's run, or nothing if it is. -/
  unlike : GpucId → Option String
  /-- The submit, and nothing where the job could not be made into a spec. -/
  submit : Option Process

/-- A Snakemake job, with the gpuc ids its incomplete markers hold. -/
structure Job where
  isGroup : Bool := false
  externalJobIds : List GpucId := []

/-- What became of the job. -/
inductive Ran where
  /-- A group: refused. -/
  | grouped
  /-- gpuc could not be asked about the earlier jobs: the job has failed, for a restart to settle. -/
  | unanswered (error : GpucError)
  /-- An earlier gpuc job was taken over. -/
  | adopted (jobId : GpucId) (standing : Standing)
  /-- A gpuc job was submitted, with this answer. -/
  | submitted (answer : Answer)
  | submitFailed
  /-- An exception that nothing here catches. -/
  | raised

/-- What became of the job, and the ids that were named to `gpuc cancel` on the way. -/
structure RunResult where
  ran : Ran
  cancelled : List GpucId := []

/-- **`cancel_ids`**: a cancel that fails is logged, and that is all. What is answered is whether
nothing was raised. -/
def cancelIds (w : World) (ids : List GpucId) : Bool :=
  if ids = [] then true
  else
    match gpuc [0, 1, 4] (w.cancel ids) with
    | .error _ => true
    | .ok document =>
      match (document.get? "errors").filter Json.truthy with
      | none | some (.arr _) | some (.obj _) | some (.str _) => true
      | some _ => false

/-- The submit at the end of `run_job`. -/
def submit (w : World) : Ran :=
  match w.submit with
  | none => .submitFailed
  | some process =>
    match gpuc [0] process with
    | .error _ => .submitFailed
    | .ok answer => .submitted answer

/-- **`run_job`**, `adopt` included, with what was asked about the earlier jobs of its batch. -/
def runJob (w : World) (earlier : Earlier) (job : Job) : RunResult :=
  let ids := sortedBy id job.externalJobIds
  if job.isGroup then { ran := .grouped }
  else if ids = [] then { ran := submit w }
  else
    match earlier.failure with
    | some error => { ran := .unanswered error }
    | none =>
      match earlier.chosen ids with
      | none => { ran := submit w }
      | some (standing, jobId) =>
        match w.unlike jobId with
        | none => { ran := .adopted jobId standing }
        | some _ =>
          let pending := earlier.pending ids
          if cancelIds w pending then { ran := submit w, cancelled := pending }
          else { ran := .raised, cancelled := pending }

/-- **`run_jobs`**, of one job of a batch: gpuc is asked about the whole batch first. -/
def runJobs (w : World) (batch : List Job) (job : Job) : RunResult :=
  match earlierJobs ((batch.filter fun j => !j.isGroup).flatMap Job.externalJobIds) w.status with
  | none => { ran := .raised }
  | some earlier => runJob w earlier job

end Gpuc.Snakemake
