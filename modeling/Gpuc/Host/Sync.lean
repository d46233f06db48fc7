import Mathlib.Data.String.Basic
import Gpuc.Basis.Dict
import Gpuc.Basis.Glob
import Gpuc.Basis.Sorted
import Gpuc.Host.Destinations

/-!
# The upload of one output

What of an output goes to its destinations, and what each record then says. Two scans decide what is left
out: the files that came with the checkout and are as they were (`unchanged`, against the baseline taken
before `setup`), and those written too lately (`recentlyModified`). Both are passed on as names, each an
`--exclude` argument of the upload's command.

`Tree` is a directory as the scans and the upload see it. A path is relative to the output, as text. What
`stat` says of a file holds for the whole of one upload, and reading it fails for none; an upload command
is what it answers.
-/

set_option autoImplicit false

namespace Gpuc.Host

open Gpuc.Basis

/-! ## What is there -/

/-- What `stat` says of a path. -/
structure Stat where
  size : Nat
  mtimeNs : Int
  /-- The same time in seconds, as a float has it. -/
  mtime : ℚ
  deriving DecidableEq

/-- A regular file under the output, or a link to one. -/
structure OutputFile where
  path : String
  stat : Stat
  /-- It is under a linked directory, which an upload follows and `rglob` does not. -/
  beyondLink : Bool := false
  deriving DecidableEq

/-- **A directory.** -/
structure Tree where
  files : List OutputFile
  /-- `stat` of any path under it. -/
  statOf : String → Option Stat
  found : ∀ f ∈ files, statOf f.path = some f.stat
  /-- Something in it is a link. -/
  links : Bool
  linked : ∀ f ∈ files, f.beyondLink = true → links = true
  /-- How much in it is neither a file nor a directory. -/
  special : Nat := 0
  /-- The walk could not read all of it. -/
  unreadable : Bool := false

/-- What the output's path is. -/
inductive Local where
  | missing
  | file (name : String) (stat : Stat) (link : Bool)
  | dir (tree : Tree) (link : Bool)

def Local.exists : Local → Bool
  | .missing => false
  | .file .. | .dir .. => true

/-- `stat` of a path under it. -/
def Local.statOf : Local → String → Option Stat
  | .missing, _ | .file .., _ => none
  | .dir tree _, path => tree.statOf path

/-! ## The baseline -/

/-- The size and the time of each file that came with the checkout. -/
abbrev Entries := Dict String (List Int)

/-- `MAX_TRACKED`. -/
def maxTracked : Nat := 500

def tooMany (entries : Entries) : Bool := maxTracked < entries.entries.length

/-- Is it as it was recorded? -/
def Stat.sameAs (info : Stat) (recorded : List Int) : Bool := [(info.size : Int), info.mtimeNs] = recorded

/-- **The recorded paths that are as the job found them.** -/
def unchanged (statOf : String → Option Stat) (entries : Entries) : List String :=
  sortedBy id <| (entries.entries.filter fun (name, recorded) =>
    (statOf name).any fun info => info.sameAs recorded).map Prod.fst

/-- Did the output gain or change anything at all? Every way of not knowing counts. -/
def hasNewContent (here : Local) (entries : Entries) : Bool :=
  match here with
  | .missing => false
  | .file name stat link =>
    link || (unchanged (fun path => if path = name then some stat else none)
      (Dict.ofList [(name, (entries.get? name).getD [])])).isEmpty
  | .dir tree link =>
    link || tree.links || tree.unreadable ||
      (unchanged tree.statOf entries).length < tree.files.length + tree.special

/-! ## Files in flight -/

/-- `MAX_EXCLUDES`. -/
def maxExcludes : Nat := 200

/-- The files a walk finds that were written in the last `minAge` seconds. -/
def recentlyModified (here : Local) (now minAge : ℚ) : List String :=
  match here with
  | .missing | .file .. => []
  | .dir tree _ =>
    sortedBy id <| (tree.files.filter fun f =>
      f.beyondLink = false ∧ now - minAge < f.stat.mtime).map OutputFile.path

inductive SyncKind where
  | plain
  | missingOutput
  | tooManyRecentFiles
  deriving DecidableEq

/-- `SyncError`, and the two kinds of it a caller tells apart. -/
structure SyncError where
  kind : SyncKind := .plain
  text : String
  deriving DecidableEq

/-- `_in_flight`. `printed` is how a float is printed. -/
def inFlight (printed : ℚ → String) (root : String) (here : Local) (now minAge : ℚ) :
    Except SyncError (List String) :=
  let names := recentlyModified here now minAge
  if maxExcludes < names.length then
    .error
      { kind := .tooManyRecentFiles
        text := s!"{names.length} files under {root} were modified in the last {printed minAge}s "
          ++ s!"(cap {maxExcludes}); skipping this sync tick" }
  else .ok names

/-! ## The command -/

/-- `_excludes`. -/
def excludes (names : List String) : List String := names.flatMap fun name => ["--exclude", name]

/-- `upload_dir`'s command, for the tool that was found. -/
def uploadArgv (binary dir : String) (exclude : List String) : Destination → List String
  | .s3 uri => [binary, "s3", "sync", dir, uri, "--only-show-errors"] ++ excludes exclude
  | .huggingFace repo path => [binary, "upload", repo, dir, path] ++ excludes exclude

/-- The machine an upload runs on: where it looks for each tool, and what a command answers, its exit
code and its output. -/
structure Uploader where
  host : String
  findBinary : String → Option String
  run : List String → Except SyncError (Int × String)

/-- What a destination is uploaded to with, and where bootstrap puts it. -/
def Destination.tool : Destination → String × String
  | .s3 _ => ("aws", ".local/aws-cli/v2/current/bin/aws")
  | .huggingFace .. => ("hf", ".local/bin/hf")

/-- The last ten lines of what a command printed. -/
def tail (output : String) : String :=
  let lines := Text.splitLines (Text.strip output.toList)
  "\n".intercalate ((lines.drop (lines.length - 10)).map String.ofList)

/-- **`upload_dir`.** -/
def Uploader.uploadDir (u : Uploader) (dir : String) (exclude : List String) (destination : Destination) :
    Except SyncError Unit :=
  let (name, bundled) := destination.tool
  match u.findBinary name with
  | none =>
    .error { text := s!"`{name}` CLI not found (looked in ~/{bundled} and PATH) on host {u.host}; cannot "
      ++ s!"upload {dir} to {destination.uri}" }
  | some binary =>
    let argv := uploadArgv binary dir exclude destination
    match u.run argv with
    | .error e => .error e
    | .ok (code, output) =>
      if code = 0 then .ok ()
      else
        let command := " ".intercalate argv
        let ending := tail output
        .error { text := s!"\x60{command}\x60 on host {u.host} exited {code}\n{ending}" }

/-! ## One output -/

/-- What became of one destination, and what the upload was told to leave out. -/
structure Attempt where
  destination : Destination
  exclude : List String
  result : Except SyncError Unit

/-- One destination's turn. -/
def attempt (u : Uploader) (root : String) (here : Local) (entries : Entries) (exclude : List String)
    (destination : Destination) : Attempt where
  destination := destination
  exclude := exclude
  result :=
    if here.exists = false then
      .error { kind := .missingOutput, text := s!"output path does not exist: {root}" }
    else if entries.entries ≠ [] ∧ hasNewContent here entries = false then
      .error
        { kind := .missingOutput
          text := s!"nothing new under {root}: every file there was already in the checkout" }
    else u.uploadDir root exclude destination

/-- What goes in the record of the destination. -/
def Attempt.record (path : String) (recordMissing : Bool) (stamp : String) (state : JobState)
    (a : Attempt) : JobState :=
  match a.result with
  | .ok () => recordUpload state a.destination.uri (some path) (some stamp) none
  | .error e =>
    if recordMissing ∨ e.kind ≠ .missingOutput then
      recordUpload state a.destination.uri (some path) none (some e.text)
    else state

/-- Why an upload of an output was not made at all. -/
inductive NotSynced where
  | template (e : FormatError)
  | sync (e : SyncError)

/-- The excludes of one upload, and what each destination makes of it. -/
def syncOutput (fields : Fields) (printed : ℚ → String) (u : Uploader) (workdir : String → String × Local)
    (output : Output) (jobId : JobId) (now minAge : ℚ) (entries : Entries) :
    Except NotSynced (List Attempt) := do
  let key ← (outputKey fields output jobId).mapError .template
  let (root, here) := workdir key
  let same := if tooMany entries then [] else unchanged here.statOf entries
  let late ← (inFlight printed root here now minAge).mapError .sync
  let destinations ← (destinationsOf fields output jobId).mapError .template
  return destinations.map (attempt u root here entries (same ++ late))

/-- `_combined`: the kind stays when every failure is of that kind. -/
def combined (errors : List SyncError) : Option SyncError :=
  match errors with
  | [] => none
  | e :: rest =>
    some
      { kind := if rest.all fun e' => e'.kind = e.kind then e.kind else .plain
        text := "; ".intercalate (errors.map SyncError.text) }

/-- What `sync_output` ends with, once every destination had its turn. -/
def raised (attempts : List Attempt) : Option SyncError :=
  combined <| attempts.filterMap fun a =>
    match a.result with
    | .ok () => none
    | .error e => some e

end Gpuc.Host
