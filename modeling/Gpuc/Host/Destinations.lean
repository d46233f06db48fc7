import Gpuc.Basis.Format
import Gpuc.Host.Jobs

/-!
# Where a job's outputs go

The destinations a spec's `outputs:` entry names, with `{job_id}` expanded on the host, each time they
are asked for: by an upload, by the preflight, and by whoever asks whether every output is safe. What a
replacement field of a template prints is Python's (`Fields`); a job id is the only argument.
-/

set_option autoImplicit false

namespace Gpuc.Host

open Gpuc.Basis

/-- **What `str.format` puts for a replacement field**, when the job id is the only argument. An index,
a conversion, a format and the name alone print the id's own characters, quotes and padding; an
attribute may print anything. -/
structure Fields where
  value : Text → Text → Except FormatError Text
  jobId : ∀ jobId, value jobId "job_id".toList = .ok jobId
  plain : ∀ {jobId text printed : Text}, Format.Plain jobId → '.' ∉ text →
    value jobId text = .ok printed → Format.Plain printed

/-- **An id as `new_job_id` makes one**: the date, the time, and three bytes in hex. -/
def NewJobId (jobId : JobId) : Prop :=
  ∃ date time token : Text, jobId.toList = date ++ '-' :: (time ++ '-' :: token) ∧
    date.length = 8 ∧ time.length = 6 ∧ token.length = 6 ∧
    (∀ c ∈ date ++ time, c.isDigit = true) ∧
    ∀ c ∈ token, (c.isDigit || ('a' ≤ c && c ≤ 'f')) = true

/-- `template.format(job_id=job_id)`. -/
def Fields.format (fields : Fields) (template : String) (jobId : JobId) :
    Except FormatError String :=
  (Basis.format (fields.value jobId.toList) template.toList).map String.ofList

/-- A value a test of it takes for one: there, and not empty. -/
def present (value : Option String) : Option String := value.filter (· ≠ "")

/-- No destination: what the job writes here stays on the host, in the workdir. -/
def Output.kept (output : Output) : Bool := (present output.s3).isNone && (present output.hf).isNone

/-- One place files can be put. -/
inductive Destination where
  | s3 (uri : String)
  | huggingFace (repo path : String)
  deriving DecidableEq

/-- Text without the slashes at its end. -/
def rstripSlash (s : String) : String := String.ofList (s.toList.rdropWhile (· = '/'))

/-- Text without the slashes at its ends. -/
def stripSlash (s : String) : String :=
  String.ofList ((s.toList.dropWhile (· = '/')).rdropWhile (· = '/'))

/-- The place as a destination is built: an S3 one without the slashes at its end, a path in a repo
without those at its ends. -/
def Destination.ofS3 (uri : String) : Destination := .s3 (rstripSlash uri)

def Destination.ofHf (repo path : String) : Destination := .huggingFace repo (stripSlash path)

/-- The key every record of an upload to it is stored under. -/
def Destination.uri : Destination → String
  | .s3 uri => uri
  | .huggingFace repo path => if path = "" then "hf://" ++ repo else "hf://" ++ repo ++ "/" ++ path

/-- The S3 destination an entry names, if it names one. -/
def s3Of (fields : Fields) (output : Output) (jobId : JobId) :
    Except FormatError (List Destination) :=
  match present output.s3 with
  | none => .ok []
  | some s3 => do
    let uri ← fields.format s3 jobId
    return [.ofS3 uri]

/-- The Hugging Face destination an entry names: the path in the repo is the job id by default. -/
def hfOf (fields : Fields) (output : Output) (jobId : JobId) :
    Except FormatError (List Destination) :=
  match present output.hf with
  | none => .ok []
  | some hf => do
    let repo ← fields.format hf jobId
    let path ← fields.format ((present output.hfPath).getD jobId) jobId
    return [.ofHf repo path]

/-- **The destinations one entry names**, `{job_id}` expanded. -/
def destinationsOf (fields : Fields) (output : Output) (jobId : JobId) :
    Except FormatError (List Destination) := do
  let s3 ← s3Of fields output jobId
  let hf ← hfOf fields output jobId
  return s3 ++ hf

/-- `baseline.output_key`: the path an output's files are looked for under. -/
def outputKey (fields : Fields) (output : Output) (jobId : JobId) : Except FormatError String :=
  fields.format output.path jobId

end Gpuc.Host
