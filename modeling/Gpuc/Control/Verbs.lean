import Gpuc.Control.Locate
import Gpuc.Control.Wait
import Gpuc.Host.Patch

/-!
# A verb on jobs

`job_verbs` runs one command of the host on jobs: each host is asked once, about every job placed on it,
and says what it did with each. What a verb changed of a job's spec is put in the mirrored spec too.
`preempt` and `set` go through it, and `set` then checks that the host named every field it was given.

What comes from outside is in `Outside`: what each host answers the verb, what the mirror holds of jobs
whose host is gone, and where the queue is asked about afterwards. How a value is written is of a document
that has been read, which holds no integer too long to be written.
-/

set_option autoImplicit false

namespace Gpuc.Control.Verbs

open Gpuc.Basis
open Gpuc.Host.Documents (update patchError Formats)
open Gpuc.Control.Locate
open Gpuc.Control.Wait (Mirror Source readMirror)

/-- What a verb did to one job, or why it did not. -/
structure Done where
  jobId : String
  host : Option String
  /-- The host's own words for what it did. -/
  fields : Dict String Json := Dict.empty
  source : Source := .host
  error : Option String := none
  missing : Bool := false
  warnings : List String := []

/-- **What comes from outside.** -/
structure Outside where
  /-- `str(value)` and `json.dumps(value)`. -/
  text : Json → String
  dumps : Json → String
  /-- What asking a host for the verb comes to. -/
  reply : String → Asked
  /-- What S3 holds of a job's state. -/
  mirror : String → Mirror
  /-- `queue_placement` of a job, by the host's status afterwards, or what reading that raises. -/
  placement : String → String → Except Failure (Dict String Json)

/-! ## The mirrored specs -/

/-- The specs in the bucket: what reading each comes to, and why each cannot be written, if so. -/
structure Specs where
  read : String → Except String (Dict String Json)
  refused : String → Option String

/-- A spec, written. -/
def Specs.put (specs : Specs) (jobId : String) (document : Dict String Json) : Specs :=
  { specs with read := fun id => if id = jobId then .ok document else specs.read id }

/-- **`mirror_spec_fields`**: a change made to a job's spec on the host, in its mirrored spec too, or
why not. -/
def mirrorSpecFields (jobId : String) (fields : Dict String Json) (specs : Specs) :
    Specs × Option String :=
  let names := ", ".intercalate fields.keys
  let warning (why : String) := s!"the host has the new {names}, but its mirrored spec still has the " ++
    "old values, " ++
    s!"so \x60gpuc requeue {jobId}\x60 would not carry it: {why}"
  match specs.read jobId, specs.refused jobId with
  | .error why, _ | .ok _, some why => (specs, some (warning why))
  | .ok document, none => (specs.put jobId (update document fields), none)

/-! ## What one host says -/

section Verb
variable (o : Outside) (verb : String)

/-- What a document says of a job: the last entry for it. -/
def entryOf (jobs : List Json) (jobId : String) : Option (Dict String Json) :=
  (Dict.ofList (jobs.filterMap fun job =>
    match job.members, idOf job with
    | some fields, some id => some (id, fields)
    | _, _ => none)).get? jobId

/-- The first characters of a text. -/
def firstChars (n : Nat) (text : String) : String := String.ofList (text.toList.take n)

def isTrue (entry : Dict String Json) (key : String) : Bool := (entry.get? key).any Json.truthy

/-- The verdict of a host's document on one job. -/
def verdict (host : String) (payload : Dict String Json) (jobs : List Json) (jobId : String) : Done :=
  let answer := (entryOf jobs jobId).getD Dict.empty
  let error := o.text ((answer.get? "error").getD .null)
  if isTrue answer "missing" then
    { jobId, host := some host, missing := true
      error := some (s!"host {host} has no job {jobId}: {error}; " ++
        "check the id with \x60gpuc status --all\x60") }
  else if isTrue answer "error" then
    { jobId, host := some host, error := some s!"host {host} did not {verb} {jobId}: {error}" }
  else if !isTrue answer "status" then
    let said := firstChars 200 (o.dumps (.ofDict (if answer.entries = [] then payload else answer)))
    { jobId, host := some host, error := some s!"host {host} did not say what it did with {jobId}: {said}" }
  else
    { jobId, host := some host, fields := (answer.erase "job_id").erase "warning"
      warnings := if isTrue answer "warning" then [o.text ((answer.get? "warning").getD .null)] else [] }

/-- **`_verdicts`**: what one host said it did with each of these jobs. -/
def verdicts (host : String) (jobIds : List String) : Except Failure (List Done) :=
  match o.reply host with
  | .answered payload =>
    (Asked.answered payload).jobs.map fun jobs => jobIds.map (verdict o verb host payload jobs)
  | .unaskable reason | .gone reason =>
    .ok (jobIds.map fun jobId =>
      { jobId, host := some host
        error := some s!"job {jobId} is on host {host}, which could not be asked: {reason}" })

/-! ## `job_verbs` -/

/-- Why the host could not be asked, if it was asked and could not. -/
def trouble (location : Location) : Option Asked :=
  location.asked.filter fun
    | .answered _ => false
    | .unaskable _ | .gone _ => true

/-- `ended_on_gone_host`: what the mirror says a job ended as, as the answer or as the reason the verb
is refused. -/
def endedOnGoneHost (endedIsAnswer : Bool) (jobId host reason : String) : Done :=
  let mirrored := readMirror jobId (o.mirror jobId)
  match mirrored.view with
  | none =>
    { jobId, host := some host
      error := some (s!"job {jobId} was on host {host}, which is gone ({reason}), and " ++ mirrored.lost) }
  | some view =>
    let status := view.status.text
    if endedIsAnswer then
      { jobId, host := some host, fields := .ofList [("status", .str status)], source := .mirror }
    else
      { jobId, host := some host, source := .mirror
        error := some (s!"cannot {verb} job {jobId}: it ended {status} on host {host}, " ++
          s!"which is gone ({reason}); read from the S3 mirror at {mirrored.uri}") }

/-- What becomes of a job by its place alone, or the host to ask. -/
def triage (endedIsAnswer : Bool) (jobId : String) : Placed → Done ⊕ String
  | .unlocated reason missing => .inl { jobId, host := none, error := some reason, missing }
  | .location location =>
    let unasked (reason : String) : Done ⊕ String :=
      .inl { jobId, host := some location.host
             error := some (s!"job {jobId} is on host {location.host}, which could not be asked: " ++
               reason) }
    match trouble location, location.entry with
    | some (.gone reason), _ => .inl (endedOnGoneHost o verb endedIsAnswer jobId location.host reason)
    | some (.unaskable reason), _ => unasked reason
    | some (.answered _), _ | none, none => unasked ""
    | none, some _ => .inr location.host

/-- `on_host`: the jobs each host is asked about. -/
def onHost (endedIsAnswer : Bool) (placed : Dict String Placed) : Dict String (List String) :=
  .grouped (placed.entries.filterMap fun e =>
    match triage o verb endedIsAnswer e.1 e.2 with
    | .inl _ => none
    | .inr host => some (host, e.1))

/-- The jobs whose place alone decides. -/
def byPlace (endedIsAnswer : Bool) (placed : Dict String Placed) : List Done :=
  placed.entries.filterMap fun e =>
    match triage o verb endedIsAnswer e.1 e.2 with
    | .inl done => some done
    | .inr _ => none

/-- The host has done what it was asked: `changed`. -/
def Done.Carried (job : Done) : Prop := job.error = none ∧ job.source = .host

instance (job : Done) : Decidable job.Carried := inferInstanceAs (Decidable (_ ∧ _))

/-- The specs that a verb changed, mirrored one after the other, and the warnings. -/
def mirrorAll (fields : Dict String Json) : List Done → Specs → List Done × Specs
  | [], specs => ([], specs)
  | job :: rest, specs =>
    if job.Carried then
      let (specs, warning) := mirrorSpecFields job.jobId fields specs
      let (rest, specs) := mirrorAll fields rest specs
      ({ job with warnings := job.warnings ++ warning.toList } :: rest, specs)
    else
      let (rest, specs) := mirrorAll fields rest specs
      (job :: rest, specs)

/-- The results and the specs once the changes are mirrored, where there is a bucket and a change. -/
def mirrorIf (fields : Dict String Json) (specs : Option Specs) (done : List Done) :
    List Done × Option Specs :=
  match specs with
  | none => (done, none)
  | some specs =>
    if fields.entries = [] then (done, some specs)
    else
      let (done, specs) := mirrorAll fields done specs
      (done, some specs)

/-- Did the host answer? A session is kept with one that did. -/
def answers (host : String) : Bool :=
  match o.reply host with
  | .answered _ => true
  | .unaskable _ | .gone _ => false

/-- What a verb came to: each job's result, the hosts a session is held with, and the mirrored specs. -/
structure Outcome where
  done : List Done
  sessions : List String
  specs : Option Specs

/-- One job's result, out of all of them. -/
def doneOf (done : List Done) (jobId : String) : Except Failure Done :=
  match (Dict.ofList (done.map fun job => (job.jobId, job))).get? jobId with
  | some job => .ok job
  | none => .error (.key jobId)

/-- **`job_verbs`**, of jobs that have been placed: what became of each, in the order asked. -/
def jobVerbs (mirror : Dict String Json) (endedIsAnswer : Bool) (placed : Dict String Placed)
    (specs : Option Specs) : Except Failure Outcome := do
  let onHost := onHost o verb endedIsAnswer placed
  let said ← onHost.entries.mapM fun e => verdicts o verb e.1 e.2
  let (done, specs) := mirrorIf mirror specs (byPlace o verb endedIsAnswer placed ++ said.flatten)
  let done ← placed.keys.mapM (doneOf done)
  pure { done, sessions := onHost.keys.filter (answers o), specs }

end Verb

/-! ## The commands -/

/-- Why a command stops. -/
inductive Stopped where
  /-- The patch is one that no job could take: nobody is asked. -/
  | usage (error : String)
  | raised (raised : Raised)
  | failed (failure : Failure)
  deriving DecidableEq

section Command
variable (o : Outside) (t : Texts) (formats : Formats) (now : Nat)

/-- `check_patch`: before any host is asked. -/
def checkPatch (patch : Dict String Json) : Except Stopped Unit :=
  match patchError t formats now patch with
  | .error raised => .error (.raised raised)
  | .ok (some error) => .error (.usage error)
  | .ok none => .ok ()

/-- **`preempt_jobs`.** -/
def preemptJobs (priority : Option Int) (placed : Dict String Placed) (specs : Option Specs) :
    Except Stopped Outcome := do
  let patch := Dict.ofList ((priority.map fun n => ("priority", Json.int n)).toList)
  let () ← if priority.isSome then checkPatch t formats now patch else .ok ()
  (jobVerbs o "preempt" patch false placed specs).mapError .failed

/-- The fields of a patch that a host did not confirm. -/
def unsaid (patch : Dict String Json) (fields : Dict String Json) : List String :=
  (patch.entries.filter fun e => !((fields.get? e.1).getD (.str "absent")).same e.2).map Prod.fst

/-- A result that does not name every field as it was set is none. -/
def confirm (patch : Dict String Json) (job : Done) : Done :=
  if job.error.isSome then job
  else
    let missed := unsaid patch job.fields
    if missed = [] then job
    else
      let host := job.host.getD "None"
      let names := ", ".intercalate missed
      let said := firstChars 200 (o.dumps (.ofDict job.fields))
      { job with
        error := some s!"host {host} did not confirm {names} for {job.jobId}: {said}"
        fields := Dict.empty }

/-- Where a job whose priority moved now sits in its host's queue. -/
def replace (sessions : List String) (job : Done) : Except Failure Done :=
  match job.error, job.host with
  | none, some host =>
    if host ∈ sessions then
      (o.placement host job.jobId).map fun placement =>
        { job with fields := update job.fields placement }
    else .ok job
  | _, _ => .ok job

/-- **`set_jobs`**: each job all or nothing. -/
def setJobs (patch : Dict String Json) (placed : Dict String Placed) (specs : Option Specs) :
    Except Stopped Outcome := do
  checkPatch t formats now patch
  let outcome ← (jobVerbs o "set" patch false placed specs).mapError .failed
  let done := outcome.done.map (confirm o patch)
  let done ← if "priority" ∈ patch.keys then (done.mapM (replace o outcome.sessions)).mapError .failed
    else .ok done
  pure { outcome with done }

end Command

end Gpuc.Control.Verbs
