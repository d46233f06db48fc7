import Mathlib.Data.List.Infix
import Gpuc.Host.Destinations
import Gpuc.Host.EnvFile

/-!
# What a submit checks and ships

Before a host is involved: `{job_id}` is filled into the output destinations, and a spec whose
destinations would not carry the id is refused; and the secrets the spec names are read from the
submitter's environment into the env file that the host will parse.
-/

set_option autoImplicit false

namespace Gpuc.Control

open Gpuc.Basis Gpuc.Host

/-- Why a submit is refused here. -/
inductive SubmitError where
  /-- A kept output's path is not strictly inside the workdir. -/
  | keptPath (path : String)
  /-- A destination has a placeholder this does not know. -/
  | placeholder (path key template : String) (error : FormatError)
  /-- A destination does not include the job id. -/
  | noJobId (path key destination jobId : String)
  /-- Secrets that are not set in the environment. -/
  | secretsNotSet (names : List Text)
  /-- A secret the env file cannot hold. -/
  | secretHasNewline (name : Text)
  deriving DecidableEq

/-- How a check fails: with a refusal, or with whatever formatting a template raised besides. -/
abbrev Checked := Except (SubmitError ⊕ FormatError)

/-! ## The destinations -/

/-- The parts of a posix path: empty ones and `.` go. -/
def pathParts (path : String) : List Text :=
  (path.toList.splitOn '/').filter fun part => part ≠ [] ∧ part ≠ ['.']

/-- `check_kept_path`, of an output that is kept: it has to name something strictly inside the
workdir. -/
def checkKeptPath (output : Output) : Checked Unit :=
  if output.kept ∧ (pathParts output.path = [] ∨ output.path.toList.head? = some '/' ∨
      "..".toList ∈ pathParts output.path) then
    .error (.inl (.keptPath output.path))
  else .ok ()

/-- `_expand`: a template that does not format is refused, if what it raises is one of the three
classes that are caught. -/
def expand (fields : Fields) (output : Output) (key : String) (template : Option String)
    (jobId : JobId) : Checked (Option String) :=
  match present template with
  | none => .ok template
  | some text =>
    match fields.format text jobId with
    | .ok expanded => .ok (some expanded)
    | .error .other => .error (.inr .other)
    | .error error => .error (.inl (.placeholder output.path key text error))

/-- Does the text include the job id? -/
def carries (jobId : JobId) (text : String) : Bool := jobId.toList <:+: text.toList

/-- A destination that is there has to include the job id, or what it lies in has to. -/
def checkCarries (output : Output) (key : String) (destination within : Option String)
    (jobId : JobId) : Checked Unit :=
  match present destination with
  | none => .ok ()
  | some text =>
    if carries jobId text ∨ carries jobId (within.getD "") then .ok ()
    else .error (.inl (.noJobId output.path key text jobId))

/-- One output's destinations, expanded and checked. -/
def expandOutput (fields : Fields) (jobId : JobId) (output : Output) : Checked Output := do
  checkKeptPath output
  let s3 ← expand fields output "s3" output.s3 jobId
  let hf ← expand fields output "hf" output.hf jobId
  let hfPath ← expand fields output "hf_path" output.hfPath jobId
  checkCarries output "s3" s3 none jobId
  checkCarries output "hf_path" hfPath hf jobId
  return { output with s3, hf, hfPath }

/-- **`expand_job_id`**: every output in order, the first that is refused ends it. -/
def expandJobId (fields : Fields) (spec : JobSpec) : Checked JobSpec := do
  let outputs ← spec.outputs.mapM (expandOutput fields spec.jobId)
  return { spec with outputs }

/-! ## The secrets -/

/-- **`gather_secrets`**: the env file of these names. -/
def gatherSecrets (names : List Text) (environ : Dict Text Text) : Except SubmitError Text :=
  let missing := names.filter fun name => ((environ.get? name).getD []).isEmpty
  if missing ≠ [] then .error (.secretsNotSet missing)
  else
    match names.find? fun name => '\n' ∈ (environ.get? name).getD [] with
    | some name => .error (.secretHasNewline name)
    | none => .ok (names.flatMap fun name => name ++ '=' :: (environ.get? name).getD [] ++ ['\n'])

end Gpuc.Control
