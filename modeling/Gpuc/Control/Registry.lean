import Mathlib.Data.Finset.Erase
import Mathlib.Data.Finset.Insert
import Mathlib.Data.String.Basic
import Gpuc.Basis.Json

/-!
# The host registry

`hosts.json` on the control machine: one entry a host, read one at a time, so that an entry this build
cannot read costs its own host only and is written back as it stood.

The models are pydantic's, read tolerantly: an unknown key is ignored, and a `null` for a field that
may not be null is the field's default. What pydantic itself decides is a parameter (`Pydantic`): which
JSON values it takes for an integer, and how it dumps a value of no declared type. The file is its
parsed document, since the text of a document reads back as it. A lock held elsewhere for too long is
the argument `locked`.
-/

set_option autoImplicit false

namespace Gpuc.Control

open Gpuc.Basis

/-- **What the models take from pydantic.** An integer validates as itself. -/
structure Pydantic where
  /-- The values taken for an `int`, and as which. -/
  toInt : Json → Option Int
  toInt_int : ∀ n, toInt (.int n) = some n
  /-- `model_dump(mode="json")` of a value declared `Any`. -/
  dumpAny : Json → Json

/-! ## The models -/

structure GpuInfo where
  name : String := ""
  vramMib : Option Int := none
  index : Option Int := none
  deriving DecidableEq

/-- What this machine last read off a host, and when it read it. -/
structure HostCache where
  readAt : Option String := none
  python : Option String := none
  uv : Option String := none
  gpuInfo : Dict String GpuInfo := Dict.empty
  driverVersion : Option String := none
  /-- The host's `config.json`, verbatim, as last read. -/
  config : Dict String Json := Dict.empty

/-- The pod behind an address. -/
structure Rental where
  provider : String := "runpod"
  podId : String := ""
  deriving DecidableEq

/-- How to reach one host, plus what this machine last saw on it. -/
structure HostEntry where
  name : String := ""
  ssh : Option String := none
  port : Int := 22
  gpucHome : Option String := none
  persistentRoot : Option String := none
  rental : Option Rental := none
  bootstrappedAt : Option String := none
  cache : HostCache := {}

def HostEntry.podId (entry : HostEntry) : Option String := entry.rental.map Rental.podId

/-! ## Reading the models -/

section Validate

/-- A `str` field. -/
def strField (default : String) : Option Json → Option String
  | none => some default
  | some (.str s) => some s
  | some _ => none

/-- A `str | None` field. -/
def optStrField : Option Json → Option (Option String)
  | none | some .null => some none
  | some (.str s) => some (some s)
  | some _ => none

/-- `_null_means_default`: a `null` for a field that may not be null is not there. -/
def dropNull : Option Json → Option Json
  | some .null => none
  | value => value

variable (py : Pydantic)

/-- An `int` field. -/
def intField (default : Int) : Option Json → Option Int
  | none => some default
  | some value => py.toInt value

/-- An `int | None` field. -/
def optIntField : Option Json → Option (Option Int)
  | none | some .null => some none
  | some value => (py.toInt value).map some

def GpuInfo.validate (value : Json) : Option GpuInfo := do
  let fields ← value.members
  let name ← strField "" (fields.get? "name")
  let vramMib ← optIntField py (fields.get? "vram_mib")
  let index ← optIntField py (fields.get? "index")
  return { name, vramMib, index }

/-- A `dict[str, GpuInfo]` field: every value has to validate. -/
def gpuInfoField : Option Json → Option (Dict String GpuInfo)
  | none => some Dict.empty
  | some value => do
    let infos ← value.members
    infos.traverse fun _ info => GpuInfo.validate py info

/-- A `dict[str, Any]` field. -/
def anyDictField : Option Json → Option (Dict String Json)
  | none => some Dict.empty
  | some value => value.members

def HostCache.validate (value : Json) : Option HostCache := do
  let fields ← value.members
  let readAt ← optStrField (fields.get? "read_at")
  let python ← optStrField (fields.get? "python")
  let uv ← optStrField (fields.get? "uv")
  let gpuInfo ← gpuInfoField py (dropNull (fields.get? "gpu_info"))
  let driverVersion ← optStrField (fields.get? "driver_version")
  let config ← anyDictField (dropNull (fields.get? "config"))
  return { readAt, python, uv, gpuInfo, driverVersion, config }

def Rental.validate (value : Json) : Option Rental := do
  let fields ← value.members
  let provider ← strField "runpod" (dropNull (fields.get? "provider"))
  let podId ← strField "" (dropNull (fields.get? "pod_id"))
  return { provider, podId }

/-- `_refuse_an_earlier_builds_rental`: a top-level `pod_id` and no `rental`. -/
def earlierBuildsRental (fields : Dict String Json) : Bool :=
  ((fields.get? "pod_id").any Json.truthy) && (dropNull (fields.get? "rental")).isNone

def rentalField : Option Json → Option (Option Rental)
  | none | some .null => some none
  | some value => (Rental.validate value).map some

def cacheField : Option Json → Option HostCache
  | none => some {}
  | some value => HostCache.validate py value

/-- **`HostEntry.model_validate`**, with nothing for an entry that does not validate. -/
def HostEntry.validate (value : Json) : Option HostEntry := do
  let fields ← value.members
  if earlierBuildsRental fields then none
  else
    let name ← strField "" (dropNull (fields.get? "name"))
    let ssh ← optStrField (fields.get? "ssh")
    let port ← intField py 22 (dropNull (fields.get? "port"))
    let gpucHome ← optStrField (fields.get? "gpuc_home")
    let persistentRoot ← optStrField (fields.get? "persistent_root")
    let rental ← rentalField (fields.get? "rental")
    let bootstrappedAt ← optStrField (fields.get? "bootstrapped_at")
    let cache ← cacheField py (dropNull (fields.get? "cache"))
    return { name, ssh, port, gpucHome, persistentRoot, rental, bootstrappedAt, cache }

end Validate

/-! ## Dumping the models -/

section Dump

def optStr : Option String → Json
  | none => .null
  | some s => .str s

def optInt : Option Int → Json
  | none => .null
  | some n => .int n

def GpuInfo.dump (info : GpuInfo) : Json :=
  .obj [("name", .str info.name), ("vram_mib", optInt info.vramMib), ("index", optInt info.index)]

def Rental.dump (rental : Rental) : Json :=
  .obj [("provider", .str rental.provider), ("pod_id", .str rental.podId)]

def rentalJson : Option Rental → Json
  | none => .null
  | some rental => rental.dump

variable (py : Pydantic)

def HostCache.dump (cache : HostCache) : Json :=
  .obj [("read_at", optStr cache.readAt), ("python", optStr cache.python), ("uv", optStr cache.uv),
    ("gpu_info", .ofDict (cache.gpuInfo.map GpuInfo.dump)),
    ("driver_version", optStr cache.driverVersion),
    ("config", .ofDict (cache.config.map py.dumpAny))]

/-- **`model_dump(mode="json")`** of an entry. -/
def HostEntry.dump (entry : HostEntry) : Json :=
  .obj [("name", .str entry.name), ("ssh", optStr entry.ssh), ("port", .int entry.port),
    ("gpuc_home", optStr entry.gpucHome), ("persistent_root", optStr entry.persistentRoot),
    ("rental", rentalJson entry.rental), ("bootstrapped_at", optStr entry.bootstrappedAt),
    ("cache", entry.cache.dump py)]

end Dump

/-! ## The registry and its file -/

structure Registry where
  /-- The shape of `hosts.json`. -/
  schemaVersion : Int := 1
  hosts : Dict String HostEntry := Dict.empty

/-- `Registry.put`: under the name the entry itself carries. -/
def Registry.put (registry : Registry) (entry : HostEntry) : Registry :=
  { registry with hosts := registry.hosts.set entry.name entry }

/-- What a read reports about the file, or about an entry in it. -/
inductive RegistryError where
  | notReadable
  | notAnObject
  | noHosts
  /-- The entry under this name did not validate. -/
  | skipped (name : String)
  deriving DecidableEq

/-- What one read of `hosts.json` produced, including what it could not read. -/
structure RegistryRead where
  registry : Registry := {}
  errors : List RegistryError := []
  /-- The file itself could not be parsed, so the registry is empty because nothing is known. -/
  unreadable : Bool := false
  /-- Host entries that did not validate, kept verbatim so that a later write puts them back. -/
  skipped : Dict String Json := Dict.empty

/-- `hosts.json` as it lies on the disk. -/
inductive HostsFile where
  | missing
  /-- No readable text, or no JSON. -/
  | garbled
  | document (doc : Json)

/-- The state directory, as far as the registry has a part in it. -/
structure StateDir where
  hosts : HostsFile
  /-- `hosts.json.bak`. -/
  backup : Option HostsFile := none
  /-- The hosts with a file of pinned host keys. -/
  pinned : Finset String := ∅

/-- `_unreadable`: the answer about a registry that cannot be parsed. The copy set aside is
`StateDir.setAside`. -/
def RegistryRead.unparsed (error : RegistryError) : RegistryRead where
  unreadable := true
  errors := [error]

def StateDir.setAside (dir : StateDir) : StateDir := { dir with backup := some dir.hosts }

section Read
variable (py : Pydantic)

/-- An entry as the registry holds it: one with no name has its key for one. -/
def readEntry (key : String) (raw : Json) : Option HostEntry :=
  (HostEntry.validate py raw).map fun entry =>
    if entry.name = "" then { entry with name := key } else entry

/-- The entries one at a time, in the order of their keys. -/
def readHosts (schemaVersion : Int) (hosts : Dict String Json) : RegistryRead :=
  let skipped := hosts.sorted.filter fun _ raw => (HostEntry.validate py raw).isNone
  { registry := { schemaVersion, hosts := hosts.sorted.filterMap (readEntry py) }
    errors := skipped.keys.map .skipped
    skipped }

/-- **`read_registry`**: the file parsed as far as it parses, and nothing where the document's own
`schema_version` does not validate, which raises. -/
def readRegistry : HostsFile → Option RegistryRead
  | .missing => some {}
  | .garbled => some (.unparsed .notReadable)
  | .document doc =>
    match doc.members with
    | none => some (.unparsed .notAnObject)
    | some document =>
      match (document.get? "hosts").bind Json.members with
      | none => some (.unparsed .noHosts)
      | some hosts =>
        (intField py 1 (dropNull (document.get? "schema_version"))).map fun schemaVersion =>
          readHosts py schemaVersion hosts

/-- **`save_registry`**: the registry as a document, with every entry put back that this build could
not parse. -/
def saveRegistry (registry : Registry) (keep : Dict String Json) : HostsFile :=
  .document (.obj [("schema_version", .int registry.schemaVersion),
    ("hosts", .ofDict ((registry.hosts.map (HostEntry.dump py)).setDefaults keep))])

/-! ## The writes -/

inductive RegistryFailure where
  /-- Another process has held the lock for too long. -/
  | locked
  /-- Replacing the file would drop every host it still holds. -/
  | unreadable (errors : List RegistryError)
  /-- The registry's own document does not validate. -/
  | invalid
  deriving DecidableEq

/-- **`registry_transaction`**: read, modify and write under the lock. -/
def registryTransaction {α : Type} (locked : Bool) (dir : StateDir)
    (body : Registry → Registry × α) : Except RegistryFailure α × StateDir :=
  if locked then (.error .locked, dir)
  else
    match readRegistry py dir.hosts with
    | none => (.error .invalid, dir)
    | some read =>
      if read.unreadable then (.error (.unreadable read.errors), dir.setAside)
      else
        let (registry, answer) := body read.registry
        (.ok answer, { dir with hosts := saveRegistry py registry read.skipped })

/-- What a host just said about itself. -/
structure CacheChanges where
  config : Option (Dict String Json) := none
  python : Option String := none
  uv : Option String := none
  gpuInfo : Option (Dict String GpuInfo) := none
  driverVersion : Option String := none
  bootstrappedAt : Option String := none

/-- A copy carrying what a probe or a bootstrap just found; what was not found is left alone. -/
def HostEntry.withCache (entry : HostEntry) (changes : CacheChanges) (now : String) : HostEntry :=
  { entry with cache := { entry.cache with
      python := changes.python.or entry.cache.python
      uv := changes.uv.or entry.cache.uv
      driverVersion := changes.driverVersion.or entry.cache.driverVersion
      gpuInfo := match changes.gpuInfo with
        | none => entry.cache.gpuInfo
        | some found => found.entries.foldl (fun d e => d.set e.1 e.2) entry.cache.gpuInfo
      readAt := some now } }

/-- A copy whose cache holds the config, stamped with when it was read. -/
def HostEntry.withConfig (entry : HostEntry) (config : Dict String Json) (now : String) : HostEntry :=
  { entry with cache := { entry.cache with config, readAt := some now } }

/-- What a host said, in its entry. -/
def HostEntry.updated (entry : HostEntry) (changes : CacheChanges) (now : String) : HostEntry :=
  let cached := entry.withCache changes now
  let configured := match changes.config with
    | none => cached
    | some config => cached.withConfig config now
  { configured with bootstrappedAt := changes.bootstrappedAt.or configured.bootstrappedAt }

/-- **`update_cache`**: only these fields, into the entry as it is now. Nothing is the host that was
removed meanwhile; the file is written all the same. -/
def updateCache (locked : Bool) (dir : StateDir) (name : String) (changes : CacheChanges)
    (now : String) : Except RegistryFailure (Option HostEntry) × StateDir :=
  registryTransaction py locked dir fun registry =>
    match registry.hosts.get? name with
    | none => (registry, none)
    | some current =>
      let updated := current.updated changes now
      (registry.put updated, some updated)

/-- **`forget_host`**: every local trace of one host goes, if the entry is the pod's. -/
def forgetHost (locked : Bool) (dir : StateDir) (name : String) (podId : Option String) :
    Except RegistryFailure Bool × StateDir :=
  if locked then (.ok false, dir)
  else
    match readRegistry py dir.hosts with
    | none => (.error .invalid, dir)
    | some read =>
      if read.unreadable then (.ok false, dir.setAside)
      else
        match read.registry.hosts.get? name with
        | none => (.ok false, dir)
        | some entry =>
          if podId ≠ none ∧ entry.podId ≠ podId then (.ok false, dir)
          else
            let registry := { read.registry with hosts := read.registry.hosts.erase name }
            (.ok true, { dir with
              hosts := saveRegistry py registry read.skipped
              pinned := dir.pinned.erase name })

end Read

end Gpuc.Control
