import Gpuc.Host.Jobs

/-!
# The settings of a job that may change after submit

Each is a field of the spec whose live copy is the job's state. `apply` is one section under the job's
lock: it checks every setting of a patch against the state it reads, and writes all of them or none.
How a number is printed in a refusal is a parameter (`Shown`); the answer's texts are otherwise the
source's.
-/

set_option autoImplicit false

namespace Gpuc.Host

/-- How a refusal prints a number of minutes: as given, and rounded to whole ones. -/
structure Shown where
  general : ℚ → String
  whole : ℚ → String

/-- One key of a patch, with its value. -/
inductive Setting where
  | priority (value : Int)
  | estimatedRuntimeMin (value : Option ℚ)
  | maxRuntimeMin (value : Option ℚ)
  deriving DecidableEq

namespace Setting

/-- The field's name. -/
def name : Setting → String
  | .priority _ => "priority"
  | .estimatedRuntimeMin _ => "estimated_runtime_min"
  | .maxRuntimeMin _ => "max_runtime_min"

/-- The job statuses it may be changed in. -/
def statuses : Setting → List Status
  | .priority _ => [.queued]
  | .estimatedRuntimeMin _ | .maxRuntimeMin _ => [.queued, .running]

/-- The field it sets. -/
def field : Setting → Field
  | .priority value => .priority value
  | .estimatedRuntimeMin value => .estimatedRuntimeMin value
  | .maxRuntimeMin value => .maxRuntimeMin value

end Setting

/-- `_max_runtime_check`: why a running job may not take this limit. `elapsed` is how many seconds ago
it started, if its state says when. -/
def maxRuntimeCheck (shown : Shown) (jobId : JobId) (minutes elapsed : Option ℚ)
    (state : JobState) : Option String :=
  if state.status ≠ .running then none
  else if state.liveMaxRuntime = false then
    some (s!"job {jobId} was started by a gpuc build that reads max_runtime_min only at "
      ++ "start, so it keeps the limit it has; `gpuc preempt` runs it again from the "
      ++ "start under this build, which would honour a new one")
  else
    match minutes, elapsed with
    | some minutes, some elapsed =>
      if minutes * 60 ≤ elapsed then
        some (s!"job {jobId} has been running {shown.whole (elapsed / 60)} min, so a limit of "
          ++ s!"{shown.general minutes} min would end it at once as `timeout`; "
          ++ "`gpuc cancel` stops it")
      else none
    | _, _ => none

/-- The check a setting has of its own. -/
def Setting.stateCheck (shown : Shown) (jobId : JobId) (elapsed : Option ℚ) (state : JobState) :
    Setting → Option String
  | .priority _ | .estimatedRuntimeMin _ => none
  | .maxRuntimeMin value => maxRuntimeCheck shown jobId value elapsed state

/-- `_wrong_status`. -/
def wrongStatus (jobId : JobId) (setting : Setting) (state : JobState) : String :=
  let wanted := " or ".intercalate (setting.statuses.map Status.text)
  if state.finished then
    s!"job {jobId} has already {state.status.text}, so its {setting.name} cannot change"
  else
    s!"job {jobId} is {state.status.text}, and {setting.name} is changed only on a {wanted} job"

/-- Why one of the settings of a patch may not be made, the first of them that may not. -/
def refusal (shown : Shown) (jobId : JobId) (elapsed : Option ℚ) (state : JobState) :
    List Setting → Option String
  | [] => none
  | setting :: rest =>
    if state.status ∉ setting.statuses then some (wrongStatus jobId setting state)
    else
      match setting.stateCheck shown jobId elapsed state with
      | some error => some error
      | none => refusal shown jobId elapsed state rest

/-- **Change every field of the patch on one job, or none of them.** A new limit is the one in force. -/
def apply (shown : Shown) (jobId : JobId) (elapsed : Option ℚ) (patch : List Setting)
    (state : JobState) : Except String JobState :=
  match refusal shown jobId elapsed state patch with
  | some error => .error error
  | none =>
    let limit := patch.any fun
      | .maxRuntimeMin _ => true
      | .priority _ | .estimatedRuntimeMin _ => false
    .ok (applyFields state
      (patch.map Setting.field ++ if limit then [.liveMaxRuntime true] else []))

/-- A patch writes no status and no claim. -/
theorem Setting.field_ofClaim (setting : Setting) : setting.field.ofClaim = false := by
  cases setting <;> rfl

/-- **A change of settings keeps the life cycle.** -/
theorem apply_sameLife {shown : Shown} {jobId : JobId} {elapsed : Option ℚ}
    {patch : List Setting} {state written : JobState}
    (h : apply shown jobId elapsed patch state = .ok written) : SameLife state written := by
  unfold apply at h
  split at h
  · cases h
  · obtain rfl := Except.ok.inj h
    refine applyFields_sameLife state _ fun f hf => ?_
    rcases List.mem_append.mp hf with hf | hf
    · obtain ⟨setting, -, rfl⟩ := List.mem_map.mp hf
      exact setting.field_ofClaim
    · split at hf
      · rw [List.mem_singleton.mp hf]
        rfl
      · exact absurd hf List.not_mem_nil

end Gpuc.Host
