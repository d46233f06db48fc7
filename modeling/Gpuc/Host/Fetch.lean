import Mathlib.Algebra.GroupWithZero.Nat
import Mathlib.Data.List.Lex
import Gpuc.Host.Cleanup
import Gpuc.Host.Sync

/-!
# The outputs baseline, and what a fetch would copy

Two walks of one directory, made at different times. Before a job's setup the host scans what is under
each output path (`scan`), for no more files than it is willing to name; a fetch later walks the same
path and lists what it finds there, less the files that are as the scan had them (`listing`).

A `Filesystem` is the files of a host as the calls of the system show them: what a path leads to, links
followed, and what `stat` says there. Neither walk follows a link to a directory. No read fails; what a
path is printed as in a refusal is a parameter.
-/

set_option autoImplicit false

namespace Gpuc.Host

open Gpuc.Basis
open Cleanup (partsOf join)

/-- A path of names, as text. -/
def slashed (path : FilePath) : String := "/".intercalate path

/-- **The files of a host.** -/
structure Filesystem where
  tree : FileTree Stat
  proper : tree.Proper
  /-- What `stat` says of a directory. -/
  directoryStat : FilePath → Stat
  /-- How many names of link targets one call goes through. -/
  steps : Nat

namespace Filesystem

variable (fs : Filesystem)

/-- Where a path leads, links followed. -/
def follow (path : FilePath) : Option FilePath :=
  walk fs.tree.entry (fs.steps + path.length) [] path

/-- What a path leads to. -/
def kindOf (path : FilePath) : Option (Kind Stat) :=
  match fs.follow path with
  | none => none
  | some real => fs.tree.entry real

/-- The tree under what a path leads to. -/
def nodeAt (path : FilePath) : Option (FileTree Stat) :=
  match fs.follow path with
  | none => none
  | some real => fs.tree.get real

def isDir (path : FilePath) : Bool :=
  match fs.kindOf path with
  | some .directory => true
  | some (.file _) | some (.link _ _) | none => false

def isFile (path : FilePath) : Bool :=
  match fs.kindOf path with
  | some (.file _) => true
  | some .directory | some (.link _ _) | none => false

def stat (path : FilePath) : Option Stat :=
  match fs.follow path with
  | none => none
  | some real =>
    match fs.tree.entry real with
    | some (.file info) => some info
    | some .directory => some (fs.directoryStat real)
    | some (.link _ _) | none => none

/-- What stands at a path itself, no link at its end followed. -/
def lkindOf (path : FilePath) : Option (Kind Stat) :=
  match path.getLast? with
  | none => some .directory
  | some name =>
    match fs.follow path.dropLast with
    | none => none
    | some parent => fs.tree.entry (parent ++ [name])

/-- `lstat(path).st_size`: a link holds its target's text. -/
def lsize (path : FilePath) : Option Nat :=
  match fs.lkindOf path with
  | none => none
  | some (.file info) => some info.size
  | some (.link absolute target) =>
    some ((if absolute then "/" ++ slashed target else slashed target).utf8ByteSize)
  | some .directory => (fs.follow path).map fun real => (fs.directoryStat real).size

def isSymlink (path : FilePath) : Bool :=
  match fs.lkindOf path with
  | some (.link _ _) => true
  | some (.file _) | some .directory | none => false

/-- `path.rglob("*")`, as paths under it: everything there, no link followed. -/
def rglob (path : FilePath) : List FilePath :=
  match fs.nodeAt path with
  | some node => (node.entries []).map Prod.fst
  | none => []

/-! ## The walk of a fetch -/

mutual
/-- `os.walk`, for what `walk` takes from it: of each directory its files in order, then the links in it
to directories, then what is under the directories in it. -/
def walkDir (root here : FilePath) : FileTree Stat → List FilePath
  | .file _ | .link _ _ => []
  | .directory children =>
    let linksToDir := fun (child : String × FileTree Stat) =>
      fs.isDir (root ++ here ++ [child.1])
    let names := children.filter fun child =>
      match child.2 with
      | .file _ => true
      | .link _ _ => !linksToDir child
      | .directory _ => false
    let dirs := children.filter fun child =>
      match child.2 with
      | .file _ | .directory _ => false
      | .link _ _ => linksToDir child
    ((sortedBy id (names.map Prod.fst)) ++ sortedBy id (dirs.map Prod.fst)).map (fun name => here ++ [name])
      ++ walkChildren root here children
def walkChildren (root here : FilePath) : List (String × FileTree Stat) → List FilePath
  | [] => []
  | (name, child) :: children =>
    walkDir root (here ++ [name]) child ++ walkChildren root here children
end

/-- `base` of a path to list: the directory its files are named from. -/
def base (root : FilePath) : FilePath := if fs.isDir root then root else root.dropLast

/-- **`walk`**: every file and link under `root`, or `root` itself if it is a file, as paths under its
base. -/
def walkFiles (root : FilePath) : List FilePath :=
  if fs.isDir root then
    match fs.nodeAt root with
    | some node => fs.walkDir root [] node
    | none => []
  else root.getLast?.toList.map fun name => [name]

/-! ## The baseline -/

/-- `_stat`. -/
def recorded (info : Stat) : List Int := [(info.size : Int), info.mtimeNs]

/-- The loop of `scan`, which stops once there is one too many. -/
def scanFrom (root : FilePath) : Entries → List FilePath → Entries
  | entries, [] => entries
  | entries, path :: paths =>
    if fs.isFile (root ++ path) then
      match fs.stat (root ++ path) with
      | none => scanFrom root entries paths
      | some info =>
        let entries := entries.set (slashed path) (recorded info)
        if tooMany entries then entries else scanFrom root entries paths
    else scanFrom root entries paths

/-- **`baseline.scan`.** -/
def scan (root : FilePath) : Entries :=
  if fs.isDir root then fs.scanFrom root .empty (sortedBy id (fs.rglob root))
  else if fs.isFile root then
    match root.getLast?, fs.stat root with
    | some name, some info => .ofList [(name, recorded info)]
    | _, _ => .empty
  else .empty

end Filesystem

/-- What was under each output path. -/
abbrev Baseline := Dict String Entries

/-- **`capture`**: every output of the spec, under its key. What `read` gives back later is this. -/
def capture (fields : Fields) (fs : Filesystem) (workdir : FilePath) (outputs : List Output)
    (jobId : JobId) : Except FormatError Baseline :=
  outputs.foldlM (fun found output => do
    let key ← outputKey fields output jobId
    return found.set key (fs.scan (join workdir key))) .empty

/-! ## The listing -/

/-- Why there is nothing to list. -/
inductive NotFetchable where
  | absolute (rel : String)
  | outside (rel : String)
  | workdirGone
  | unresolved (path : String) (e : FormatError)
  | noOutputs
  /-- No refusal of the listing's own: what a template's field raised. -/
  | raised (e : FormatError)

/-- How a refusal prints a text and an exception. -/
structure Quoted where
  text : String → String
  error : FormatError → String

def NotFetchable.message (quoted : Quoted) : NotFetchable → String
  | .absolute rel =>
    let rel := quoted.text rel
    s!"{rel}: give a path relative to the job's workdir"
  | .outside rel =>
    let rel := quoted.text rel
    s!"{rel} is not inside the job's workdir"
  | .workdirGone =>
    "its workdir is gone: the sweep or `gpuc clean` removed it once the job ended"
  | .unresolved path e =>
    let path := quoted.text path
    let error := quoted.error e
    s!"output {path} cannot be resolved ({error}); name what to fetch with --path"
  | .noOutputs => "its spec declares no `outputs:`; name what to fetch with --path"
  | .raised e => quoted.error e

/-- A file to copy, by its path from the workdir. -/
structure Listed where
  path : String
  bytes : Nat
  deriving DecidableEq

structure Listing where
  workdir : String
  files : List Listed
  bytes : Nat
  missing : List String

/-- A path to list, as it was given, where it is, and what came with the checkout there. -/
structure Root where
  rel : String
  root : FilePath
  entries : Entries

/-- `inside`: the path in the workdir, or why not. -/
def inside (fs : Filesystem) (workdir : FilePath) (rel : String) : Except NotFetchable FilePath :=
  if rel.toList.head? = some '/' then .error (.absolute rel)
  else
    let target := join workdir rel
    let resolve := fun path : FilePath => realPath fs.tree.entry (fs.steps + path.length) [] path
    if resolve workdir <+: resolve target then .ok target else .error (.outside rel)

/-- Where an output is looked for. -/
def outputRoot (fields : Fields) (fs : Filesystem) (workdir : FilePath) (jobId : JobId)
    (found : Baseline) (output : Output) : Except NotFetchable Root := do
  let key ← (outputKey fields output jobId).mapError fun
    | .other => .raised .other
    | e => .unresolved output.path e
  let root ← inside fs workdir key
  return ⟨key, root, (found.get? key).getD .empty⟩

/-- Is there nothing at the path at all? -/
def Root.missing (fs : Filesystem) (r : Root) : Bool := (fs.stat r.root).isNone && !fs.isSymlink r.root

/-- **What the listing has of one path**: the files the walk finds, less those that are as they came. -/
def Root.files (fs : Filesystem) (workdir : FilePath) (r : Root) : List Listed :=
  if r.missing fs then []
  else
    let base := fs.base r.root
    let preexisting := unchanged (fun name => fs.stat (join base name)) r.entries
    (fs.walkFiles r.root).filterMap fun path =>
      if slashed path ∈ preexisting then none
      else
        (fs.lsize (base ++ path)).map fun bytes =>
          ⟨slashed ((base ++ path).drop workdir.length), bytes⟩

/-- The paths to list: those that are named, or the spec's outputs. -/
def rootsOf (fields : Fields) (fs : Filesystem) (workdir : FilePath) (outputs : List Output)
    (jobId : JobId) (found : Baseline) (wanted : List String) : Except NotFetchable (List Root) :=
  if wanted ≠ [] then
    wanted.mapM fun rel => do
      let root ← inside fs workdir rel
      return ⟨rel, root, .empty⟩
  else if outputs ≠ [] then outputs.mapM (outputRoot fields fs workdir jobId found)
  else .error .noOutputs

/-- **`listing`**: the files to copy, relative to the workdir, with their sizes. -/
def listing (fields : Fields) (fs : Filesystem) (workdir : FilePath) (outputs : List Output)
    (jobId : JobId) (found : Baseline) (wanted : List String) : Except NotFetchable Listing :=
  if fs.isDir workdir = false then .error .workdirGone
  else do
    let roots ← rootsOf fields fs workdir outputs jobId found wanted
    let files := roots.flatMap (Root.files fs workdir)
    let unique := (Dict.ofList (files.map fun f => (f.path, f))).values
    return {
      workdir := "/" ++ slashed workdir
      files := unique
      bytes := (unique.map Listed.bytes).sum
      missing := (roots.filter (Root.missing fs)).map Root.rel }

/-! ## What an upload leaves out -/

/-- `sync_output`'s excludes: what came with the checkout, unless that is too much to name, and what is
in flight. -/
def leftOut (here : Local) (entries : Entries) (now minAge : ℚ) : List String :=
  (if tooMany entries then [] else unchanged here.statOf entries) ++ recentlyModified here now minAge

end Gpuc.Host
