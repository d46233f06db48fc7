import Mathlib.Logic.Function.Basic
import Gpuc.Basis.Run
import Gpuc.Control.Registry
import Gpuc.Control.Remote
import Gpuc.Host.Cards

/-!
# Changing a host's config from more than one machine

`gpuc host set` and `gpuc host add` judge a change on one read of the host's `config.json`, and what
writes it (`write_config`) merges the change into a second read, puts the document beside the file and
renames it over. A session that has shipped a build writes the commit the same way, judged on nothing.

`Client.decide` is all a machine does up to its write. The machines of a `World` take its steps in any
order, each with the file as it finds it: the file is what `read_config` makes of it, and a temporary
file is called by the process that writes it, whose id another machine's process may share.
-/

set_option autoImplicit false

namespace Gpuc.Control.Connect

open Gpuc.Basis Gpuc.Host.Documents Gpuc.Control.Remote
open Gpuc.Host (Gpu Uuid resolve)

/-! ## What a change reports -/

/-- `NOT_DRIFT`. -/
def notDrift : List String := ["schema_version", "pkg_commit", "created_at"]

section Drift
variable (t : Texts)

/-- `_show`. -/
def showValue (key : String) : Json → Except Raised String
  | .null => .ok (if key = "gpus" then "all" else "none")
  | .arr items => do
    let texts ← items.mapM (Json.text t)
    pure (orElse (",".intercalate texts) "none")
  | .obj pairs => do
    let texts ← (Dict.ofList pairs).sorted.entries.mapM fun e => do
      let text ← e.2.text t
      pure (e.1 ++ "=" ++ text)
    pure (orElse (" ".intercalate texts) "none")
  | value => value.text t

/-- Do two readings of a key differ? -/
def differs : Option Json → Option Json → Bool
  | none, none => false
  | some v, some w => !v.same w
  | none, some _ | some _, none => true

/-- The names that two environments differ in. -/
def envDrift (theirs ours : Json) : List String :=
  let theirsEnv := fieldsOf theirs
  let oursEnv := fieldsOf ours
  sortedBy id <| (theirsEnv.keys ++ oursEnv.keys).dedup.filter fun k =>
    differs (theirsEnv.get? k) (oursEnv.get? k)

/-- The line for one key, if there is anything to say of it. -/
def driftLine (key : String) (theirs ours : Json) : Except Raised (Option String) :=
  if theirs.same ours then .ok none
  else if key = "env" then
    let names := envDrift theirs ours
    .ok (if names = [] then none else some ("env differs in " ++ ", ".intercalate names))
  else do
    let before ← showValue t key theirs
    let after ← showValue t key ours
    pure (some s!"{key} {before} -> {after}")

/-- `config_drift`. -/
def configDrift (existing : Dict String Json) (incoming : HostConfig) (keys : List String) :
    Except Raised (List String) := do
  let lines ← incoming.toDict.entries.mapM fun e =>
    match existing.get? e.1 with
    | some theirs =>
      if e.1 ∈ notDrift ∨ e.1 ∉ keys then .ok none else driftLine t e.1 theirs e.2
    | none => .ok none
  pure lines.reduceOption

/-- **`config_changes`**: a line for each key that the patch changes on a host. -/
def configChanges (existing patch : Dict String Json) : Except Raised (List String) := do
  let held ← HostConfig.fromDict t (.ofDict existing)
  let base := Dict.ofList (patch.keys.map fun key => (key, (held.toDict.get? key).getD .null))
  let after ← HostConfig.fromDict t (.ofDict (update existing patch))
  configDrift t base after patch.keys

end Drift

/-! ## The environment -/

/-- The keys of `MANAGED_ENV` that are sticky. -/
def stickyKeys : List String := ["UV_CACHE_DIR", "HF_HOME", "GPUC_DATA_DIR", "GPUC_SCRATCH_DIR"]

/-- `sticky_env`. -/
def stickyEnv (theirs : Dict String String) (env : Dict String Json) : Dict String Json :=
  stickyKeys.foldl (fun env key =>
    match theirs.get? key with
    | some value => env.setDefault key (.str value)
    | none => env) env

/-- `_with_env`: the `env` that a patch asks for, against the one the host has. -/
def withEnv (t : Texts) (existing patch : Dict String Json)
    (envUpdates : Dict String (Option String)) : Except Raised (Dict String Json) := do
  let config ← HostConfig.fromDict t (.ofDict existing)
  if envUpdates.entries.isEmpty && !decide ("env" ∈ patch.keys) then pure patch
  else do
    let env ← match patch.get? "env" with
      | none => pure (config.env.map .str)
      | some (.obj pairs) => pure (Dict.ofList pairs)
      | some _ => .error .typeError
    let env := envUpdates.entries.foldl (fun env e =>
      match e.2 with
      | none => env.erase e.1
      | some value => env.set e.1 (.str value)) (stickyEnv config.env env)
    pure (patch.set "env" (.ofDict (env.filter fun _ value => !value.same (.str ""))))

/-! ## The checks -/

/-- `table_of`: an index below zero is no entry's. -/
def tableOf (info : Dict String GpuInfo) : List Gpu :=
  info.entries.map fun e => { index := e.2.index.bind Int.toNat?, uuid := e.1 }

/-- `owned_entries`. -/
def ownedEntries (owned : Option (List String)) (shared : List String) (table : List Gpu) :
    List String :=
  owned.getD (resolve none table shared).owned

/-- `describe_owned`. -/
def describeOwned : Option (List String) → String
  | none => "all"
  | some owned => orElse (", ".intercalate owned) "none"

/-- `_cards`: the cards that entries name, an entry that names none as it is typed. -/
def cards (entries : List String) (table : List Gpu) : List String :=
  let named := resolve (some entries) table []
  named.owned ++ named.missing

/-- What a step raises, as its failure. -/
def raising {α : Type} : Except Raised α → Except Failure α := .mapError .raised

section Checks
variable (t : Texts) (name : String) (table : List Gpu)

/-- `_refuse_overlapping_gpus`. -/
def refuseOverlappingGpus (existing patch : Dict String Json) (force : Bool) : Except Failure Unit :=
  match force, patch.get? "gpus" with
  | true, _ | _, none => .ok ()
  | false, some wanted => do
    let held ← raising (HostConfig.fromDict t (.ofDict existing))
    let asked ← match wanted with
      | .null => do
        let after ← raising (HostConfig.fromDict t (.ofDict (update existing patch)))
        pure (some (ownedEntries none after.sharedGpus table, "all"))
      | .arr items => do
        let texts ← raising (items.mapM (Json.text t))
        pure (some (texts, ",".intercalate (sortedBy id texts)))
      | _ => pure none
    match asked with
    | none => .ok ()
    | some (wanted, named) =>
      let mine := cards wanted table
      let theirs := ownedEntries held.gpus held.sharedGpus table
      let shared := theirs.filter fun item => (cards [item] table).any (· ∈ mine)
      let all := cards theirs table
      if shared.isEmpty || (all.all (· ∈ mine) && mine.all (· ∈ all)) then .ok ()
      else
        let owned := describeOwned held.gpus
        let shares := ", ".intercalate shared
        .error (.refused
          (s!"host {name} is already configured with GPUs {owned}, and "
            ++ s!"--gpus {named} shares {shares} with that list without matching it.\n"
            ++ "That is the one difference that can hand one card to two jobs, so it is refused "
            ++ "rather than warned about: drop --gpus to adopt what the host has, name a disjoint "
            ++ "set to reassign it, or pass --force if you are sure."))

/-- What a document names twice among the cards of a table. -/
def namedTwice (document : Dict String Json) : Except Raised (List String) := do
  let config ← HostConfig.fromDict t (.ofDict document)
  pure (resolve config.gpus table config.sharedGpus).duplicates

/-- `_refuse_shared_overlap`: judged on the result, the patch over what the host holds. -/
def refuseSharedOverlap (existing patch : Dict String Json) : Except Failure Unit :=
  if patch.entries.isEmpty then .ok ()
  else do
    let config ← raising (HostConfig.fromDict t (.ofDict (update existing patch)))
    let both ← raising (namedTwice t table (update existing patch))
    if both.isEmpty then .ok ()
    else
      let twice := ", ".intercalate both
      let owned := describeOwned config.gpus
      let shared := ", ".intercalate config.sharedGpus
      .error (.refused
        (s!"host {name} would have {twice} named twice, in both --gpus and "
          ++ "--shared-gpus or as an index and its own UUID, and a card is either ours to hand "
          ++ "out or somebody else's to borrow, and one card once.\n"
          ++ s!"Owned: {owned}. Shared: {shared}."))

end Checks

/-! ## One machine's change -/

/-- `first_config`, given the mirror, the time and the provider's block. -/
def firstConfig (name : String) (s3Prefix : Option String) (createdAt : String) (provider : Json)
    (overrides : Dict String Json) : Dict String Json :=
  update
    (.ofList
      [("host", .str name),
        ("gpus", .null),
        ("workdir_days", .float (.finite 1)),
        ("s3_prefix", orNull .str s3Prefix),
        ("created_at", .str createdAt),
        ("provider", provider)])
    overrides

/-- What a machine is asked to do. -/
inductive Change where
  /-- `push_config`. -/
  | set (fields : Dict String Json) (envUpdates : Dict String (Option String))
  /-- `connect_host`: `first` is what a host without a config is given, under the fields. -/
  | add (fields : Dict String Json) (envUpdates : Dict String (Option String)) (force : Bool)
      (first : Dict String Json → Dict String Json) (beforeWrite : HostEntry → Option String)
  /-- A session's `write_config`, after a re-ship. -/
  | reship (commit : Option String)

/-- A control machine's process, with its entry for the host. -/
structure Client where
  pid : Nat
  entry : HostEntry
  change : Change

def Client.table (c : Client) : List Gpu := tableOf c.entry.cache.gpuInfo

/-- **What a machine is about to do**: the document it was judged on, if it was judged, the patch, and
whether there is anything to write. -/
structure Decision where
  seen : Option (Dict String Json)
  patch : Dict String Json
  writes : Bool

section Decide
variable (t : Texts) (path : String)

/-- `_apply`, up to its write. -/
def apply (entry : HostEntry) (table : List Gpu) (existing patch : Dict String Json)
    (envUpdates : Dict String (Option String)) : Except Failure Decision := do
  let patch ← raising (withEnv t existing patch envUpdates)
  refuseSharedOverlap t entry.name table existing patch
  let changes ← raising (configChanges t existing patch)
  pure
    { seen := some existing
      patch := patch
      writes := !patch.entries.isEmpty && (!changes.isEmpty || existing.entries.isEmpty) }

/-- `_read`: the document, or an empty one for a host that has none. -/
def readOrRefuse (name : String) : HostConfigRead → Except Failure (Dict String Json)
  | .document fields => .ok fields
  | .missing => .ok .empty
  | .unreadable reason => .error (refuseUnreadable path name reason)

/-- The name a host calls itself, or the one it was asked for under. -/
def ownName (existing : Dict String Json) (name : String) : Except Raised String :=
  match existing.get? "host" with
  | some value => if value.truthy then (value.text t).map (orElse · name) else .ok name
  | none => .ok name

/-- **All a machine does before its write**, on the file as it reads it. -/
def Client.decide (c : Client) (file : HostConfigRead) : Except Failure Decision :=
  match c.change with
  | .reship commit =>
    .ok { seen := none, patch := Dict.empty.set "pkg_commit" (orNull .str commit), writes := true }
  | .set fields envUpdates => do
    let existing ← readOrRefuse path c.entry.name file
    apply t c.entry c.table existing fields envUpdates
  | .add fields envUpdates force first beforeWrite => do
    let existing ← readOrRefuse path c.entry.name file
    if existing.entries.isEmpty then
      match fields.get? "gpus", c.table with
      | some (.arr _), _ | _, _ :: _ => apply t c.entry c.table existing (first fields) envUpdates
      | _, [] =>
        let name := c.entry.name
        .error (.refused
          (s!"{name} reports no GPUs (nvidia-smi is missing there, or found no "
            ++ "cards), so there is nothing for it to own by default. Pass --gpus '' to "
            ++ "register it with none, or fix nvidia-smi on it and add it again."))
    else do
      refuseOverlappingGpus t c.entry.name c.table existing fields force
      let name ← raising (ownName t existing c.entry.name)
      let entry := { c.entry with name := name }
      match beforeWrite entry with
      | some reason => .error (.refused reason)
      | none => apply t entry c.table existing fields envUpdates

/-- `write_config` up to the document it puts: what it read, merged. -/
def mergeRead (read : HostConfigRead) (patch : Dict String Json) :
    Except Failure (Dict String Json) :=
  match read with
  | .unreadable reason =>
    .error (.refused
      (s!"the host's own config could not be read, so it was left alone: {reason}\n"
        ++ s!"Check that {path} is readable and holds JSON; delete it to start that host again."))
  | .missing => raising (mergedConfig t (.ofDict .empty) patch)
  | .document existing => raising (mergedConfig t (.ofDict existing) patch)

end Decide

/-! ## Several machines -/

/-- How far a machine is. -/
inductive Stage where
  | idle
  | decided (decision : Decision)
  /-- It has read the file to write it, and merged. -/
  | merged (decision : Decision) (document : Dict String Json)
  /-- Its temporary file is there. -/
  | placed (decision : Decision) (document : Dict String Json)
  | finished (decision : Decision)
  | failed (failure : Failure)

inductive Move where
  | decide
  | merge
  | put
  | rename
  /-- The transport lets it down. -/
  | fail (reason : String)
  deriving DecidableEq

/-- **The host's file and the temporary ones, and how far each machine is.** -/
structure World (ι : Type) where
  file : HostConfigRead
  temps : Nat → Option (Dict String Json)
  stage : ι → Stage

section World
variable {ι : Type} [DecidableEq ι]

def World.enter (w : World ι) (i : ι) (stage : Stage) : World ι :=
  { w with stage := Function.update w.stage i stage }

/-- A temporary file written, or taken away. -/
def World.setTemp (w : World ι) (pid : Nat) (temp : Option (Dict String Json)) : World ι :=
  { w with temps := Function.update w.temps pid temp }

variable (t : Texts) (path : String) (clients : ι → Client)

/-- **One machine's next step.** -/
def step (w : World ι) (a : ι × Move) : Option (World ι) :=
  let i := a.1
  let pid := (clients i).pid
  match w.stage i, a.2 with
  | .idle, .decide =>
    some (w.enter i
      (match (clients i).decide t path w.file with
        | .ok decision => if decision.writes then .decided decision else .finished decision
        | .error failure => .failed failure))
  | .decided decision, .merge =>
    some (w.enter i
      (match mergeRead t path w.file decision.patch with
        | .ok document => .merged decision document
        | .error failure => .failed failure))
  | .merged decision document, .put =>
    some ((w.setTemp pid (some document)).enter i (.placed decision document))
  | .placed decision _, .rename =>
    match w.temps pid with
    | some document =>
      some ({ w.setTemp pid none with file := .document document }.enter i (.finished decision))
    | none => some (w.enter i (.failed (.refused "mv: cannot stat the temporary file")))
  | .placed _ _, .fail reason => some ((w.setTemp pid none).enter i (.failed (.refused reason)))
  | .idle, .fail reason | .decided _, .fail reason | .merged _ _, .fail reason =>
    some (w.enter i (.failed (.refused reason)))
  | _, _ => none

/-- The machines with their steps in any order. -/
def machine : Machine (World ι) (ι × Move) where
  step := step t path clients

/-- Nothing has begun: no machine has read anything. -/
def World.Fresh (w : World ι) : Prop := ∀ i, w.stage i = .idle

end World

end Gpuc.Control.Connect
