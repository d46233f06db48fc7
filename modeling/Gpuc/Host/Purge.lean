import Gpuc.Basis.Rounding
import Gpuc.Host.Documents
import Gpuc.Host.Fetch
import Gpuc.Host.Uploads

/-!
# What a purge takes, and what it says it would take

`purge` deletes whole job dirs, and then sweeps the workdirs of the jobs that stay. Each job is judged
by itself: `mayDelete` is asked about its state, its spec, its upload records and what is on the disk
under its outputs. With `dry_run` nothing is deleted, so the sweep finds the dirs of the purged jobs as
well, and what it says of them is left out.

A `Site` is a host as these commands find it. Deleting is on its tree, where links are followed as the
system follows them; the time and the size that a directory has of its own are left as they were. What
the sweep deletes is in `Gpuc.Host.Cleanup`: nothing is looked at after it, so that here it is what
removing each workdir raises. What a delete frees and what a dead submit left in `incoming/` are not
modelled.
-/

set_option autoImplicit false

namespace Gpuc.Host

open Gpuc.Basis

/-! ## Looking and deleting -/

namespace Filesystem
variable (fs : Filesystem)

/-- `exists`. -/
def present (path : FilePath) : Bool := (fs.kindOf path).isSome

/-- Does `lstat` raise `FileNotFoundError`? -/
def lstatAbsent (path : FilePath) : Bool :=
  absent fs.tree.entry (fs.steps + path.length) [] path.dropLast ||
    match fs.follow path.dropLast, path.getLast? with
    | some parent, some name =>
      name ≠ ".." && fs.tree.entry parent = some .directory && (fs.tree.entry (parent ++ [name])).isNone
    | _, _ => false

/-- What `lstat` finds. -/
def lstatKind (path : FilePath) : Option (Kind Stat) :=
  if path.getLast? = some ".." then fs.kindOf path else fs.lkindOf path

/-- **`has_new_content`**: did this output path gain or change anything at all? Every way of not knowing
counts. -/
def newContent (root : FilePath) (entries : Entries) : Bool :=
  if fs.lstatAbsent root then false
  else
    match fs.lstatKind root with
    | none | some (.link _ _) => true
    | some (.file _) =>
      let name := root.getLast?.getD ""
      (unchanged (fun _ => fs.stat root) (.ofList [(name, (entries.get? name).getD [])])).isEmpty
    | some .directory =>
      let under := ((fs.nodeAt root).map fun node => node.entries []).getD []
      let links := under.any fun e => match e.2 with
        | .link _ _ => true
        | .file _ | .directory => false
      let files := under.countP fun e => match e.2 with
        | .file _ => true
        | .link _ _ | .directory => false
      links || (unchanged (fun name => fs.stat (Cleanup.join root name)) entries).length < files

/-- Where a path is deleted: its last name is not followed. -/
def target (path : FilePath) : Option FilePath :=
  match fs.follow path.dropLast, path.getLast? with
  | some parent, some name => some (parent ++ [name])
  | _, _ => none

/-- The files without what stands at a path, or under it. -/
def remove (path : FilePath) : Filesystem :=
  match fs.target path with
  | none => fs
  | some real =>
    { fs with
      tree := (fs.tree.modify (fun _ => none) real).getD (.directory [])
      proper := by
        cases hleft : fs.tree.modify (fun _ => none) real with
        | none => exact .directory List.nodup_nil nofun
        | some left => exact fs.proper.modify (fun _ _ _ hnone => by cases hnone) hleft }

/-- `rmtree`, which refuses a link. -/
def rmtree (path : FilePath) : Except String Filesystem :=
  if fs.isSymlink path then .error "Cannot call rmtree on a symbolic link" else .ok (fs.remove path)

/-- `unlink`, of what is no directory. -/
def unlink (path : FilePath) : Filesystem :=
  match fs.lkindOf path with
  | some (.file _) | some (.link _ _) => fs.remove path
  | some .directory | none => fs

end Filesystem

namespace Purge

open Cleanup (join)

/-- What a command stops at, as it catches neither. -/
inductive Fault where
  | raised (raised : Raised)
  | format (error : FormatError)
  deriving DecidableEq

/-- How documents, templates and times are read, and an age is written. -/
structure Reader where
  texts : Texts
  fields : Fields
  /-- What `new_job_id` makes for a spec that has none. -/
  newJobId : String
  parseTime : String → Option Int
  oneDecimal : Float64 → String

/-- **A host, as these commands find it.** -/
structure Site where
  fs : Filesystem
  /-- What reading a file as JSON comes to: nothing where it is none. -/
  content : FilePath → Except Raised (Option Json)
  home : FilePath
  scratch : Option FilePath

/-! ## The paths of a job -/

namespace Site
variable (s : Site) (id : String)

def jobsDir : FilePath := s.home ++ ["jobs"]

def jobDir : FilePath := s.jobsDir ++ [id]

/-- A workdir in the job dir stays the answer where there is scratch. -/
def workdir : FilePath :=
  let inJobDir := s.jobDir id ++ ["workdir"]
  match s.scratch with
  | none => inJobDir
  | some scratch => if s.fs.present inJobDir then inJobDir else scratch ++ [id]

def partialWorkdir : FilePath := (s.workdir id).dropLast ++ [s!".{id}.partial"]

def checkoutArchive : FilePath := s.jobDir id ++ ["checkout.tar.gz"]

def specFile : FilePath := s.jobDir id ++ ["spec.json"]

def stateFile : FilePath := s.jobDir id ++ ["state.json"]

def outputsBaselineFile : FilePath := s.jobDir id ++ ["outputs_baseline.json"]

def jobEnvFile : FilePath := s.home ++ ["secrets", s!"{id}.env"]

/-- `list_job_ids`. -/
def listJobIds : List String :=
  match s.fs.nodeAt s.jobsDir with
  | some (.directory children) =>
    sortedBy (fun id => id) ((children.map Prod.fst).filter fun id => s.fs.isDir (s.jobDir id))
  | some (.file _) | some (.link _ _) | none => []

/-! ## What a job's files hold -/

/-- `read_json`, with nothing for the `RuntimeError` it raises. -/
def readJson (path : FilePath) : Except Raised (Option Json) :=
  match s.fs.follow path with
  | none => .ok none
  | some real => if s.fs.isFile path then s.content real else .ok none

end Site

section Reads
variable (r : Reader) (s : Site) (id : String)

/-- `read_state`. -/
def readState : Except Raised (Option Documents.JobState) := do
  match ← s.readJson (s.stateFile id) with
  | none => pure none
  | some d => some <$> Documents.JobState.fromDict r.texts d

/-- `read_spec`. -/
def readSpec : Except Raised (Option Documents.JobSpec) := do
  match ← s.readJson (s.specFile id) with
  | none => pure none
  | some d => some <$> Documents.JobSpec.fromDict r.texts r.newJobId d

/-- The spec, where a `ValueError` is caught too. -/
def readableSpec : Except Raised (Option Documents.JobSpec) :=
  match readSpec r s id with
  | .error (.valueError _) => .ok none
  | spec => spec

/-- The integer that a value equals, if it does one. -/
def integerOf (value : Json) : Option Int :=
  match value.number with
  | some (.finite q) => if q.den = 1 then some q.num else none
  | some (.infinite _) | some .nan | none => none

/-- A recorded size and time, to compare: what no list of integers equals is an empty one. -/
def recordedOf : Json → Except Raised (List Int)
  | .arr items => .ok ((items.mapM integerOf).getD [])
  | .str _ | .obj _ => .ok []
  | .null | .bool _ | .int _ | .float _ => .error .typeError

/-- `baseline.read`, of a document. -/
def baselineOf (d : Json) : Except Raised Baseline :=
  match d.members with
  | none => .ok .empty
  | some document => do
    let found := document.entries.filterMap fun e => e.2.members.map (e.1, ·)
    let found ← found.mapM fun e => do
      let entries ← e.2.entries.mapM fun entry => (entry.1, ·) <$> recordedOf entry.2
      pure (e.1, Dict.ofList entries)
    pure (.ofList found)

/-- `baseline.read`. -/
def readBaseline : Except Raised Baseline := do
  match ← s.readJson (s.outputsBaselineFile id) with
  | none => pure .empty
  | some d => baselineOf d

/-- `has_checkout`. -/
def hasCheckout : Except Raised Bool := do
  if s.fs.isDir (s.workdir id) then
    match ← readState r s id with
    | none => pure true
    | some state => pure state.checkoutRemovedAt.isNone
  else pure (s.fs.isFile (s.checkoutArchive id))

/-- `host_s3_prefix`, which catches what cannot be read. -/
def hostS3Prefix : Except Raised (Option String) :=
  let config := do
    match ← s.readJson (s.home ++ ["config.json"]) with
    | none => pure none
    | some d => return present (← Documents.HostConfig.fromDict r.texts d).s3Prefix
  match config with
  | .error (.valueError _) => .ok none
  | target => target

end Reads

/-! ## What a job's records say -/

/-- `FINISHED_STATUSES`. -/
def finishedStatuses : List String := ["succeeded", "failed", "cancelled"]

def finished (state : Documents.JobState) : Bool := state.status ∈ finishedStatuses

/-- The record of the job's log and state being mirrored. -/
def mirrorOf (state : Documents.JobState) : Option Documents.Upload :=
  state.uploads.find? fun u => u.output.isNone

/-- Is the record of this job somewhere other than this host? -/
def mirrored (state : Documents.JobState) : Bool :=
  (mirrorOf state).any fun u => u.okAt.isSome && u.error.isNone

/-- A declared output, and a record of an upload, as the question about them takes them. -/
def asOutput (output : Documents.Output) : Output :=
  { path := output.path, s3 := output.s3, hf := output.hf, hfPath := output.hfPath }

def asUpload (u : Documents.Upload) : Upload :=
  { dest := u.to', output := u.output, okAt := u.okAt, error := u.error }

/-- `should_remove`. -/
def shouldRemove (policy status : String) : Bool :=
  status ∈ finishedStatuses && (policy = "always" || policy = "on_success" && status = "succeeded")

section Ask
variable (r : Reader) (s : Site) (id : String)

/-- **`outputs_uploaded`.** -/
def outputsUploaded (spec : Documents.JobSpec) (state : Documents.JobState) : Except FormatError Bool :=
  Host.outputsUploaded r.fields { uploads := state.uploads.map asUpload }
    { jobId := spec.jobId, outputs := spec.outputs.map asOutput }

/-- What `_written_outputs` says of one output: nothing, or its path, or that it cannot be told. -/
def written (kept : Bool) (found : Baseline) (output : Documents.Output) :
    Except Fault (Option (Option String)) :=
  if (asOutput output).kept ≠ kept then .ok none
  else
    match outputKey r.fields (asOutput output) id with
    | .error .other => .error (.format .other)
    | .error _ => .ok (some none)
    | .ok key =>
      let new := s.fs.newContent (join (s.workdir id) key) ((found.get? key).getD .empty)
      .ok (if new then some (some key) else none)

/-- Is there an output to upload that holds anything? The first one answers. -/
def anyWritten (found : Baseline) : List Documents.Output → Except Fault Bool
  | [] => .ok false
  | output :: rest => do
    match ← written r s id false found output with
    | some _ => pure true
    | none => anyWritten found rest

/-- **`kept_outputs`**, of a spec and a state at hand. -/
def keptOutputs (spec : Documents.JobSpec) (state : Documents.JobState) :
    Except Fault (List String) := do
  if !state.ran then pure []
  else
    let found ← (readBaseline s id).mapError .raised
    let written ← spec.outputs.mapM (written r s id true found)
    pure (written.filterMap Option.join)

/-- **`outputs_pending`.** -/
def outputsPending (spec : Documents.JobSpec) (state : Documents.JobState) :
    Except Fault (Option String) := do
  if spec.outputs.isEmpty || !state.ran then pure none
  else if ← (outputsUploaded r spec state).mapError .format then pure none
  else if !s.fs.isDir (s.workdir id) then pure none
  else
    let found ← (readBaseline s id).mapError .raised
    if ← anyWritten r s id found spec.outputs then
      let detail := if state.outputsLost then " (the drain gave up: outputs_lost)" else ""
      pure (some s!"outputs not confirmed uploaded{detail}")
    else pure none

end Ask

/-! ## May it be deleted? -/

/-- What the caller can vouch for. -/
structure Evidence where
  /-- The dispatcher sweeps on its own horizon. -/
  automatic : Bool := false
  /-- The job's own `cleanup:` policy, applied as it ends. -/
  policy : Bool := false
  force : Bool := false
  /-- The ids whose mirror the caller listed itself. -/
  verified : Option (List String) := none
  deriving DecidableEq

inductive What where
  | workdir
  | jobDir
  deriving DecidableEq

/-- **What a purge is asked for.** The purge and the sweep after it each read the clock, unless they are
given a time. -/
structure Query where
  olderThanDays : Float64
  only : Option (List String) := none
  evidence : Evidence := {}
  purgeMoment : Int
  sweepMoment : Int

/-- What a sweep is asked for. -/
structure CleanQuery where
  allFinished : Bool := false
  olderThanDays : Option Float64 := none
  only : Option (List String) := none
  evidence : Evidence := {}
  moment : Int

structure Skipped where
  jobId : String
  why : String
  deriving DecidableEq

structure Candidate where
  jobId : String
  status : String
  endedAt : Option String
  ageDays : Option Float64
  mirroredAt : Option String
  mirror : Option String
  /-- Purged without a confirmed mirror or confirmed outputs, because the caller forced it. -/
  forced : Bool := false
  deriving DecidableEq

/-- `Candidate.of`. -/
def Candidate.of (state : Documents.JobState) (jobId : String) (ageDays : Option Float64)
    (forced : Bool) : Candidate :=
  let mirror := if mirrored state then mirrorOf state else none
  { jobId, status := state.status, endedAt := state.endedAt, ageDays
    mirroredAt := mirror.bind fun u => u.okAt, mirror := mirror.map fun u => u.to', forced }

section Judge
variable (r : Reader) (s : Site) (id : String)

/-- `_not_backed_up`. -/
def notBackedUp : Option String → String
  | none => "not backed up: no s3_prefix on this host"
  | some _ => "not backed up: final upload failed"

/-- Why the record of the job is not known to be elsewhere. -/
def unmirrored (state : Documents.JobState) (evidence : Evidence) : Except Raised (List String) := do
  if !mirrored state then return [notBackedUp (← hostS3Prefix r s)]
  else
    match evidence.verified with
    | none => pure []
    | some ids => pure (if id ∈ ids then [] else ["not backed up: the mirror has no log for it"])

/-- Why a job dir is kept: its record, its outputs to upload, and those that stay here. -/
def jobDirReasons (spec : Documents.JobSpec) (state : Documents.JobState) (evidence : Evidence) :
    Except Fault (List String) := do
  let record ← (unmirrored r s id state evidence).mapError .raised
  let pending ← outputsPending r s id spec state
  let kept ← keptOutputs r s id spec state
  let names := ", ".intercalate kept
  pure (record ++ pending.toList ++ if kept = [] then [] else [s!"keeps outputs on this host: {names}"])

/-- **`may_delete`**: why this job's workdir or dir may not be deleted, if it may not. -/
def mayDelete (state : Documents.JobState) (what : What) (evidence : Evidence) :
    Except Fault (Option String) := do
  if !finished state then pure (some s!"status {state.status}")
  else if what = .workdir ∧ !(evidence.automatic || evidence.policy) then pure none
  else
    match ← (readableSpec r s id).mapError .raised, what with
    | none, _ => pure (some "no readable spec.json")
    | some spec, .workdir =>
      if evidence.policy && !shouldRemove spec.cleanup state.status then
        pure (some s!"cleanup: {spec.cleanup}")
      else if evidence.automatic && spec.cleanup = "never" then pure (some "cleanup: never")
      else outputsPending r s id spec state
    | some spec, .jobDir =>
      let reasons ← jobDirReasons r s id spec state evidence
      pure (if reasons = [] ∨ evidence.force then none else some ("; ".intercalate reasons))

/-- `(moment - ended).total_seconds() / 86400.0`. -/
def ageOf (moment : Int) (ended : Int) : Float64 :=
  match Float64.round (((moment - ended : Int) : ℚ) / 10 ^ 6) with
  | .finite seconds => .round (seconds / 86400)
  | .infinite negative => .infinite negative
  | .nan => .nan

/-- `_finished_age`: a finished job's state and its age, or why it is no candidate. -/
def finishedAge (moment : Int) : Except Raised (Skipped ⊕ Documents.JobState × Option Float64) := do
  match ← readState r s id with
  | none => pure (.inl ⟨id, "no readable state.json"⟩)
  | some state =>
    if !finished state then pure (.inl ⟨id, s!"status {state.status}"⟩)
    else
      let ended := (Host.present state.endedAt).bind r.parseTime
      pure (.inr (state, ended.map (ageOf moment)))

/-- `_too_young`. -/
def tooYoung (ageDays : Option Float64) (olderThanDays : Float64) : Option Skipped :=
  match ageDays with
  | none => some ⟨id, "finished but records no usable ended_at"⟩
  | some age =>
    let shown := r.oneDecimal age
    if age.le olderThanDays && !olderThanDays.le age then some ⟨id, s!"only {shown} days old"⟩ else none

/-- What a command makes of one job. -/
inductive Verdict where
  | passed
  | skipped (skipped : Skipped)
  | picked (candidate : Candidate)

/-- Why a sweep does not select a job of this age, if it does not. -/
def unselected (q : CleanQuery) (ageDays : Option Float64) : Option Skipped :=
  match q.olderThanDays with
  | some days => tooYoung r id ageDays days
  | none => if q.allFinished then none else some ⟨id, "no selection given"⟩

/-- `candidates`, of one job. -/
def sweepVerdict (q : CleanQuery) : Except Fault Verdict := do
  if q.only.any (fun ids => id ∉ ids) then pure .passed
  else if !(← (hasCheckout r s id).mapError .raised) then
    if q.only.isNone then pure .passed
    else if s.fs.isDir (s.workdir id) then
      pure (.skipped ⟨id, "checkout already gone; only kept outputs remain"⟩)
    else pure (.skipped ⟨id, "workdir already gone"⟩)
  else
    match ← (finishedAge r s id q.moment).mapError .raised with
    | .inl skipped => pure (.skipped skipped)
    | .inr (state, ageDays) =>
      match unselected r id q ageDays with
      | some skipped => pure (.skipped skipped)
      | none =>
        match ← mayDelete r s id state .workdir q.evidence with
        | some why => pure (.skipped ⟨id, why⟩)
        | none => pure (.picked (.of state id ageDays false))

/-- `purge_candidates`, of one job. -/
def purgeVerdict (q : Query) : Except Fault Verdict := do
  if q.only.any (fun ids => id ∉ ids) then pure .passed
  else
    match ← (finishedAge r s id q.purgeMoment).mapError .raised with
    | .inl skipped => pure (.skipped skipped)
    | .inr (state, ageDays) =>
      match if q.only.isNone then tooYoung r id ageDays q.olderThanDays else none with
      | some skipped => pure (.skipped skipped)
      | none =>
        match ← mayDelete r s id state .jobDir q.evidence with
        | some why => pure (.skipped ⟨id, why⟩)
        | none =>
          -- forced: without the waiver it would have been refused, on the same listing
          let unforced : Evidence := { verified := q.evidence.verified }
          if q.evidence.force then
            let why ← mayDelete r s id state .jobDir unforced
            pure (.picked (.of state id ageDays why.isSome))
          else pure (.picked (.of state id ageDays false))

end Judge

def Verdict.picked? : Verdict → Option Candidate
  | .picked candidate => some candidate
  | .passed | .skipped _ => none

def Verdict.skipped? : Verdict → Option Skipped
  | .skipped reason => some reason
  | .passed | .picked _ => none

/-! ## The commands -/

section Command
variable (r : Reader) (s : Site)

/-- **`candidates`**. -/
def candidates (q : CleanQuery) : Except Fault (List Candidate × List Skipped) := do
  let verdicts ← s.listJobIds.mapM fun id => sweepVerdict r s id q
  pure (verdicts.filterMap Verdict.picked?, verdicts.filterMap Verdict.skipped?)

/-- **`purge_candidates`**. -/
def purgeCandidates (q : Query) : Except Fault (List Candidate × List Skipped) := do
  let verdicts ← s.listJobIds.mapM fun id => purgeVerdict r s id q
  pure (verdicts.filterMap Verdict.picked?, verdicts.filterMap Verdict.skipped?)

structure CleanResult where
  dryRun : Bool
  removed : List Candidate := []
  skipped : List Skipped := []
  purged : List Candidate := []
  purgeSkipped : List Skipped := []
  errors : List String := []
  s3Prefix : Option String

/-- **`clean`**. What removing a workdir raises, where it does, is `raises`. -/
def clean (raises : String → Option String) (dryRun : Bool) (q : CleanQuery) :
    Except Fault CleanResult := do
  let (picked, skipped) ← candidates r s q
  let s3Prefix ← (hostS3Prefix r s).mapError .raised
  if dryRun then pure { dryRun, skipped, s3Prefix, removed := picked }
  else
    pure { dryRun, skipped, s3Prefix
           removed := picked.filter fun candidate => (raises candidate.jobId).isNone
           errors := picked.filterMap fun candidate => (raises candidate.jobId).map fun e =>
             s!"{candidate.jobId}: could not remove workdir: {e}" }

/-- The trees at these paths, one after the other, where they are directories. -/
def rmtrees : List FilePath → Filesystem → Filesystem × Option String
  | [], fs => (fs, none)
  | path :: rest, fs =>
    if fs.isDir path then
      match fs.rmtree path with
      | .error e => (fs, some e)
      | .ok fs => rmtrees rest fs
    else rmtrees rest fs

/-- **`remove_job_dir`**: the job's workdir, what was unpacked of one, its dir and its secrets. -/
def removeJobDir (id : String) : Site × Option String :=
  match rmtrees [s.workdir id, s.partialWorkdir id, s.jobDir id] s.fs with
  | (fs, some e) => ({ s with fs }, some e)
  | (fs, none) => ({ s with fs := fs.unlink (s.jobEnvFile id) }, none)

/-- The candidates of a purge, one after the other: what went, and what could not. -/
def removeJobDirs : List Candidate → Site → List Candidate × List String × Site
  | [], s => ([], [], s)
  | candidate :: rest, s =>
    match removeJobDir s candidate.jobId with
    | (s, some e) =>
      let (purged, errors, s) := removeJobDirs rest s
      (purged, s!"{candidate.jobId}: could not remove the job dir: {e}" :: errors, s)
    | (s, none) =>
      let (purged, errors, s) := removeJobDirs rest s
      (candidate :: purged, errors, s)

/-- **`purge_job_dirs`**, and the host as it is afterwards. -/
def purgeJobDirs (dryRun : Bool) (q : Query) : Except Fault (CleanResult × Site) := do
  let (picked, purgeSkipped) ← purgeCandidates r s q
  let s3Prefix ← (hostS3Prefix r s).mapError .raised
  if dryRun then pure ({ dryRun, purgeSkipped, s3Prefix, purged := picked }, s)
  else
    let (purged, errors, s) := removeJobDirs picked s
    pure ({ dryRun, purgeSkipped, s3Prefix, purged, errors }, s)

/-- The sweep of the jobs that stay: named ids replace the age gate here too. -/
def Query.sweep (q : Query) : CleanQuery :=
  { allFinished := q.only.isSome
    olderThanDays := if q.only.isSome then none else some q.olderThanDays
    only := q.only, evidence := q.evidence, moment := q.sweepMoment }

/-- **`purge`**. -/
def purge (raises : String → Option String) (dryRun : Bool) (q : Query) : Except Fault CleanResult := do
  let (result, s) ← purgeJobDirs r s dryRun q
  let purgedIds := result.purged.map Candidate.jobId
  let sweep ← clean r s raises dryRun q.sweep
  pure { result with
    removed := sweep.removed.filter fun candidate => candidate.jobId ∉ purgedIds
    skipped := sweep.skipped.filter fun skipped => skipped.jobId ∉ purgedIds
    errors := result.errors ++ sweep.errors }

end Command

end Purge

end Gpuc.Host
