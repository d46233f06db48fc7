import Gpuc.Control.Connect

/-!
# A registered host, as it is reported

`gpuc host list --json` prints a document for each host of the registry: the entry as it is dumped, the
host's own config flattened beside it, and what is computed from the two. `gpuc host add --json` and
`gpuc host set --json` print the same, with what the command did to the host.

The commit of the build this machine has is an argument, as `installed_commit` and `git` give it.
-/

set_option autoImplicit false

namespace Gpuc.Control

open Gpuc.Basis Gpuc.Host.Documents Gpuc.Control.Remote

/-! ## Which build a host runs -/

/-- `DIRTY`. -/
def dirtyMark : Text := "-dirty".toList

/-- `str.partition`: what stands before a separator, the separator if it is there, and the rest. -/
def partitionAt (separator : Text) : Text → Text × Text × Text
  | [] => ([], [], [])
  | c :: cs =>
    if separator <+: c :: cs then ([], separator, (c :: cs).drop separator.length)
    else
      let (before, found, after) := partitionAt separator cs
      (c :: before, found, after)

/-- `is_other_build`: a host that names no commit runs another build, and nothing is claimed where this
machine knows none. -/
def isOtherBuild (recorded current : Option String) : Bool :=
  let recorded := (recorded.getD "").toList
  let current := (current.getD "").toList
  if current = [] then false
  else if recorded = [] then true
  else
    let (recordedBase, recordedDirty, recordedTag) := partitionAt dirtyMark recorded
    let (currentBase, currentDirty, currentTag) := partitionAt dirtyMark current
    if recordedDirty ≠ currentDirty ∨ recordedTag ≠ currentTag then true
    else !(currentBase.isPrefixOf recordedBase || recordedBase.isPrefixOf currentBase)

/-- `short`: a commit as it is named in a message. -/
def shortCommit (commit : Option String) : String :=
  match commit.getD "" with
  | "" => "unknown"
  | commit =>
    let (base, dirty, tag) := partitionAt dirtyMark commit.toList
    String.ofList (base.take 12 ++ dirty ++ tag)

/-- `shipped_commit_note`: what can be said of a host's build without asking the host. -/
def shippedCommitNote (name : String) (recorded current : Option String) : Option String :=
  if recorded.isNone || !isOtherBuild recorded current then none
  else some (s!"host {name} was last seen running gpuc " ++ shortCommit recorded
    ++ " and this machine has " ++ shortCommit current
    ++ s!"; run gpuc host bootstrap {name} (\x60gpuc status\x60 asks the host itself)")

/-! ## What an address says -/

/-- The persistent root, without a trailing slash. -/
def HostEntry.root (entry : HostEntry) : Option String :=
  match entry.persistentRoot with
  | none | some "" => none
  | some root => some (orElse (String.ofList (root.toList.rdropWhile (· = '/'))) "/")

/-- `remote_home`. -/
def HostEntry.remoteHome (entry : HostEntry) : String :=
  match entry.gpucHome with
  | none | some "" => entry.root.elim "$HOME/.gpuc" (· ++ "/gpuc")
  | some home => home

def HostEntry.kind (entry : HostEntry) : String :=
  if entry.rental.isSome then "rental"
  else match entry.ssh with
    | none | some "" => "local"
    | some _ => "ssh"

/-! ## The documents -/

/-- The object of a key, or an empty one. -/
def innerOf (document : Dict String Json) (key : String) : Dict String Json :=
  ((document.get? key).bind Json.members).getD .empty

section Documents
variable (py : Pydantic) (t : Texts) (localCommit : Option String)

/-- **`host_document`**: one registered host as `gpuc host list --json` reports it. -/
def hostDocument (entry : HostEntry) : Except Raised (Dict String Json) := do
  let document := fieldsOf (entry.dump py)
  let held ← HostConfig.fromDict t (.ofDict entry.cache.config)
  let config := held.toDict.erase "schema_version"
  let names := Json.ofDict (.ofList (held.env.keys.map fun name => (name, .str "<set>")))
  let cache := innerOf document "cache"
  let cache := cache.set "config" (.ofDict ((innerOf cache "config").set "env" names))
  let stale := shippedCommitNote entry.name held.pkgCommit localCommit
  pure <| update (update document config) <| .ofList
    [("kind", .str entry.kind),
      ("pod_id", optStr entry.podId),
      ("env", names),
      ("cache", .ofDict cache),
      ("cache_dir", optStr (held.env.get? "UV_CACHE_DIR")),
      ("config_seen_at", optStr entry.cache.readAt),
      ("remote_home", .str entry.remoteHome),
      ("ephemeral", .bool entry.rental.isSome),
      ("warnings", .arr (stale.toList.map .str))]

/-- One completed connect: the entry to register, and what it cost the host. -/
structure Connection where
  entry : HostEntry
  home : String
  /-- The host already had a config, and it was taken as it was. -/
  adopted : Bool := false
  /-- A line for each field that was written to the host's own config. -/
  changes : List String := []

/-- **`connection_document`**: the host as it now is, and what the command did to get there. -/
def connectionDocument (entry : HostEntry) (connection : Connection) (warnings : List String) :
    Except Raised (Dict String Json) := do
  let document ← hostDocument py t localCommit entry
  pure <| update document <| .ofList
    [("adopted", .bool connection.adopted),
      ("config_path", .str (connection.home ++ "/config.json")),
      ("changes", .arr (connection.changes.map .str)),
      ("warnings", .arr (asList (.ofDict document) "warnings" ++ warnings.map .str))]

end Documents

end Gpuc.Control
