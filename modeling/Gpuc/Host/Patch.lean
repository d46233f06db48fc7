import Gpuc.Basis.Rounding
import Gpuc.Host.Documents

/-!
# A patch of a job's settings, as it arrives

`gpuc set` sends a JSON object to a host. `patch_error` says why no job could take it, before any job is
looked at, and `apply` changes every field of it on one job or none of them. Both work on the values
as they arrived: an integer of any size, a float that is no number, a list. What they do not catch they
raise, and so do the readers of the job's files.

`Gpuc.Host.Settable` is of the same section under the lock, in a life cycle: over settings that have
been accepted, and over what the life of a job turns on.
-/

set_option autoImplicit false

namespace Gpuc.Host.Documents

open Gpuc.Basis

/-! ## Dates -/

/-- Microseconds from the first date to past the last. -/
def dates : Nat := 3652059 * 86400 * 10 ^ 6

/-- `timedelta(seconds=...)`, in microseconds. -/
def timedelta (seconds : ℚ) : Int := seconds.num.sign * halfEven (seconds.num.natAbs * 10 ^ 6) seconds.den

/-- `utc_in`: the date so many seconds from now, in microseconds from the first one; nothing when that is
no date. -/
def utcIn (now : Nat) : Float64 → Option Int
  | .finite seconds =>
    let date := now + timedelta seconds
    if 0 ≤ date ∧ date < dates then some date else none
  | .infinite _ | .nan => none

/-- How a number is printed, in general and to whole ones, and which date a stamp names. -/
structure Formats where
  general : Float64 → String
  whole : Float64 → String
  parseTime : String → Option Int

/-! ## The table -/

/-- What a setting's numbers are. -/
inductive Kind where
  | int
  | float
  deriving DecidableEq

/-- Where and when a job is asked to change. -/
structure Asked where
  texts : Texts
  formats : Formats
  now : Nat
  jobId : String

/-- A setting: its field, what it may be, and in which statuses. -/
structure Settable where
  field : String
  kind : Kind
  statuses : List String
  clearable : Bool
  stateCheck : Option (Asked → Json → JobState → Except Raised (Option String)) := none

/-- `0 <= value <= 99` and `value == int(value)`. -/
def upTo99 (value : Json) : Bool :=
  value.number.any fun
    | .finite q => 0 ≤ q && q ≤ 99 && q = (q.num.tdiv q.den : Int)
    | .infinite _ | .nan => false

/-- `0.0 < value < math.inf`. -/
def positiveFinite (value : Json) : Bool :=
  value.number.any fun
    | .finite q => 0 < q
    | .infinite _ | .nan => false

/-- `value * 60.0`. -/
def seconds (t : Texts) (value : Json) : Except Raised Float64 := do
  let minutes ← value.toFloat t
  pure (minutes.mul (.finite 60))

section Values
variable (t : Texts) (formats : Formats) (now : Nat) (s : Settable) (value : Json)

/-- What is said of a value, with the value quoted. -/
def quoted (what : String) : Except Raised (Option String) := do
  let text ← value.repr t
  pure (some s!"{s.field} must be {what}, got {text}")

/-- Why so many minutes from now are no end time. -/
def endTimeError : Except Raised (Option String) := do
  let seconds ← seconds t value
  let minutes ← value.toFloat t
  pure (if (utcIn now seconds).isNone then
    some s!"{s.field} of {formats.general minutes} minutes is too far away to be an end time"
  else none)

/-- **`value_error`**: why the value is not one the field can hold at all. -/
def Settable.valueError : Except Raised (Option String) :=
  match value with
  | .null => pure (if s.clearable then none else some s!"{s.field} cannot be cleared")
  | .bool _ | .str _ | .arr _ | .obj _ => quoted t s value "a number"
  | .int _ | .float _ =>
    match s.kind with
    | .int =>
      if upTo99 value then pure none else quoted t s value "0-99 (lower dispatches first)"
    | .float =>
      if positiveFinite value then endTimeError t formats now s value
      else quoted t s value "a positive number of minutes"

end Values

/-- `seconds / 60.0`. -/
def perMinute : Float64 → Float64
  | .finite seconds => .round (seconds / 60)
  | .infinite negative => .infinite negative
  | .nan => .nan

/-- `parse_time`: nothing when it is missing. -/
def parseTime (formats : Formats) (stamp : Option String) : Option Int :=
  (stamp.filter fun text => text ≠ "").bind formats.parseTime

/-- `_max_runtime_check`: why a running job may not take this limit. -/
def maxRuntimeCheck (asked : Asked) (minutes : Json) (state : JobState) :
    Except Raised (Option String) :=
  if state.status ≠ "running" then pure none
  else if state.liveMaxRuntime = false then
    pure (some (s!"job {asked.jobId} was started by a gpuc build that reads max_runtime_min only at "
      ++ "start, so it keeps the limit it has; \x60gpuc preempt\x60 runs it again from the "
      ++ "start under this build, which would honour a new one"))
  else
    match minutes, parseTime asked.formats state.startedAt with
    | .null, _ | _, none => pure none
    | minutes, some started => do
      let limit ← seconds asked.texts minutes
      let shown ← minutes.toFloat asked.texts
      let elapsed := Float64.round (((asked.now - started : Int) : ℚ) / 10 ^ 6)
      pure (if limit.le elapsed then
        some (s!"job {asked.jobId} has been running {asked.formats.whole (perMinute elapsed)} min, "
          ++ s!"so a limit of {asked.formats.general shown} min would end it at once as \x60timeout\x60; "
          ++ "\x60gpuc cancel\x60 stops it")
      else none)

/-- `FIELDS`. -/
def settables : List Settable :=
  [{ field := "priority", kind := .int, statuses := ["queued"], clearable := false },
    { field := "estimated_runtime_min", kind := .float, statuses := ["queued", "running"]
      clearable := true },
    { field := "max_runtime_min", kind := .float, statuses := ["queued", "running"], clearable := true
      stateCheck := some maxRuntimeCheck }]

/-- `BY_FIELD.get`. -/
def settableOf (name : String) : Option Settable := settables.find? fun s => s.field = name

/-! ## Whatever the job -/

/-- What is said of a patch's first name or value that is none, if one is. -/
def entriesError (t : Texts) (formats : Formats) (now : Nat) :
    List (String × Json) → Except Raised (Option String)
  | [] => pure none
  | (name, value) :: rest =>
    match settableOf name with
    | none =>
      let names := ", ".intercalate (settables.map Settable.field)
      pure (some s!"{name} is not something \x60set\x60 changes; it takes {names}")
    | some s => do
      match ← s.valueError t formats now value with
      | some error => pure (some error)
      | none => entriesError t formats now rest

/-- **`patch_error`**: why the patch could not apply to any job. -/
def patchError (t : Texts) (formats : Formats) (now : Nat) (patch : Dict String Json) :
    Except Raised (Option String) :=
  if patch.entries = [] then pure (some "nothing to set") else entriesError t formats now patch.entries

/-! ## On one job -/

/-- The job's files as they are found: is there a directory, what reading the spec and the state comes
to, and whether the lock is taken and the state is replaced. A text is of an error that is caught. -/
structure JobFiles where
  isDir : Bool
  spec : Except String Json
  lock : Except String Unit
  state : Except String Json
  replace : Except String Unit

/-- What `apply` answers: why nothing was changed, or what the job has now. -/
inductive Answer where
  | refused (error : String) (missing : Bool)
  | changed (status : String) (fields : List (String × Json)) (warning : Option String)

/-- What leaves `apply`: what a conversion raises, or the name of a setting that is none. -/
inductive Fault where
  | raised (raised : Raised)
  | keyError (name : String)

/-- `_wrong_status`. -/
def wrongStatus (jobId : String) (s : Settable) (state : JobState) : String :=
  let wanted := " or ".intercalate s.statuses
  if state.status ∈ ["succeeded", "failed", "cancelled"] then
    s!"job {jobId} has already {state.status}, so its {s.field} cannot change"
  else
    s!"job {jobId} is {state.status}, and {s.field} is changed only on a {wanted} job"

/-- Why the job, as it stands, does not take one of the settings. -/
def refusal (asked : Asked) (state : JobState) : List (String × Json) → Except Fault (Option String)
  | [] => pure none
  | (name, value) :: rest =>
    match settableOf name with
    | none => throw (.keyError name)
    | some s =>
      if state.status ∉ s.statuses then pure (some (wrongStatus asked.jobId s state))
      else
        match s.stateCheck with
        | none => refusal asked state rest
        | some check => do
          match ← (check asked value state).mapError .raised with
          | some error => pure (some error)
          | none => refusal asked state rest

/-- The attribute a setting is written over, as a value. -/
def fieldAs (patch : Dict String Json) (name : String) (own : Option Float64) : Option Float64 :=
  match patch.get? name with
  | some value => value.number
  | none => own

/-- `_outlives_its_limit`. -/
def outlivesItsLimit (formats : Formats) (estimate limit : Option Float64) : Option String :=
  match estimate, limit with
  | some estimate, some limit =>
    if estimate.le limit then none
    else
      some (s!"estimated_runtime_min ({formats.general estimate}) is longer than this job's "
        ++ s!"max_runtime_min ({formats.general limit}), so it expects to be killed as "
        ++ "\x60timeout\x60 before it finishes")
  | _, _ => none

/-- What the patch writes: its own fields, and with a limit that it is the one meant. -/
def written (patch : Dict String Json) : Dict String Json :=
  if (patch.get? "max_runtime_min").isSome then patch.set "live_max_runtime" (.bool true) else patch

/-- `read_spec`, a spec that cannot be read being none. -/
def specOf (t : Texts) (newJobId : String) : Except String Json → Except Raised (Option JobSpec)
  | .error _ => pure none
  | .ok d =>
    match JobSpec.fromDict t newJobId d with
    | .ok spec => pure (some spec)
    | .error (.valueError _) => pure none
    | .error raised => throw raised

/-- What is answered of the job as it stands now. -/
def changedAnswer (asked : Asked) (spec : Option JobSpec) (state : JobState) (patch : Dict String Json) :
    Answer :=
  let limit :=
    if state.liveMaxRuntime || (patch.get? "max_runtime_min").isSome then
      fieldAs patch "max_runtime_min" state.maxRuntimeMin
    else spec.bind JobSpec.maxRuntimeMin
  .changed state.status patch.entries
    (outlivesItsLimit asked.formats
      (fieldAs patch "estimated_runtime_min" state.estimatedRuntimeMin) limit)

/-- What is said of a job whose lock or state is not to be had. -/
def couldNotChange (jobId error : String) : Answer :=
  .refused s!"could not change job {jobId}: {error}" false

/-- The section under the job's lock, over the state that is read there: what it answers, and what the
state file holds then. -/
def applyLocked (asked : Asked) (spec : Option JobSpec) (patch : Dict String Json)
    (replace : Except String Unit) (d : Json) : Except Fault (Answer × Json) := do
  let state ← (JobState.fromDict asked.texts d).mapError Fault.raised
  match ← refusal asked state patch.entries with
  | some error => pure (.refused error false, d)
  | none =>
    match replace with
    | .error error => pure (couldNotChange asked.jobId error, d)
    | .ok () =>
      pure (changedAnswer asked spec state patch, .ofDict (update state.toDict (written patch)))

/-- **`apply`**: every field of the patch is changed on one job, or none of them; with what it answers,
what the state file holds then. -/
def apply (asked : Asked) (newJobId : String) (patch : Dict String Json) (files : JobFiles) :
    Except Fault (Answer × Except String Json) :=
  if files.isDir = false then
    pure (.refused s!"no job {asked.jobId} on this host" true, files.state)
  else do
    let spec ← (specOf asked.texts newJobId files.spec).mapError Fault.raised
    match files.lock, files.state with
    | .error error, _ | .ok (), .error error => pure (couldNotChange asked.jobId error, files.state)
    | .ok (), .ok d => do
      let (answer, d') ← applyLocked asked spec patch files.replace d
      pure (answer, .ok d')

end Gpuc.Host.Documents
