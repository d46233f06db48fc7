import Gpuc.Control.Registry

/-!
# A write of the registry touches one host

What a write leaves under a key is what the document it writes reads back as (`entryAt_save`): an entry
that validates comes back as its dump reads (`HostEntry.reread`), one that does not as it stood.

The law (`registry_write_frame`): a write about one host touches no other exactly when the entry under
its key carries that key for a name, and the cached configs of the others are dumped as they stand.
An entry is read under its key and written under its name, so one whose name is another host's
overwrites that host (`update_overwrites_another`).

What it does not establish: that the text on the disk parses. The file is its document, and a document
reads back from its text.
-/

set_option autoImplicit false

namespace Gpuc.Control

open Gpuc.Basis

variable (py : Pydantic)

/-! ## What the file says of a host -/

/-- What one raw entry is read as: an entry, or itself where it does not validate. -/
def entryOf (key : String) (raw : Json) : HostEntry ⊕ Json :=
  match readEntry py key raw with
  | some entry => .inl entry
  | none => .inr raw

/-- **What the file says of a host**, as far as this build reads it. -/
def entryAt (file : HostsFile) (key : String) : Option (HostEntry ⊕ Json) :=
  (readRegistry py file).bind fun read =>
    ((read.registry.hosts.get? key).map .inl).or ((read.skipped.get? key).map .inr)

/-- No other host's entry is changed, added or removed. -/
def TouchesOnly (name : String) (before after : HostsFile) : Prop :=
  ∀ key, key ≠ name → entryAt py after key = entryAt py before key

/-- The file cannot be parsed. -/
def Unparsed (file : HostsFile) : Prop :=
  ∀ read, readRegistry py file = some read → read.unreadable = true

/-- An entry as it reads back from its dump. -/
def HostEntry.reread (key : String) (entry : HostEntry) : HostEntry :=
  { entry with
    name := if entry.name = "" then key else entry.name
    cache := { entry.cache with config := entry.cache.config.map py.dumpAny } }

/-! ## Dumping and reading back -/

section Fields

@[simp] theorem optStrField_optStr (s : Option String) : optStrField (some (optStr s)) = some s := by
  cases s <;> rfl

@[simp] theorem optIntField_optInt (n : Option Int) :
    optIntField py (some (optInt n)) = some n := by
  cases n with
  | none => rfl
  | some n => simp [optIntField, optInt, py.toInt_int]

@[simp] theorem dropNull_str (s : String) : dropNull (some (.str s)) = some (.str s) := rfl

theorem GpuInfo.validate_dump (info : GpuInfo) : GpuInfo.validate py info.dump = some info := by
  have hget : ∀ k, (Dict.ofList [("name", Json.str info.name), ("vram_mib", optInt info.vramMib),
      ("index", optInt info.index)]).get? k = _ := Dict.get?_ofList_eq (by simp)
  simp [GpuInfo.validate, GpuInfo.dump, hget, List.lookup_cons, strField]

theorem Rental.validate_dump (rental : Rental) : Rental.validate rental.dump = some rental := by
  have hget : ∀ k, (Dict.ofList [("provider", Json.str rental.provider),
      ("pod_id", Json.str rental.podId)]).get? k = _ := Dict.get?_ofList_eq (by simp)
  simp [Rental.validate, Rental.dump, hget, List.lookup_cons, strField, dropNull]

@[simp] theorem rentalField_rentalJson (rental : Option Rental) :
    rentalField (some (rentalJson rental)) = some rental := by
  cases rental with
  | none => rfl
  | some rental => simpa [rentalField, rentalJson, Rental.dump] using Rental.validate_dump rental

/-- A cache reads back from its dump, but for what the dump makes of the config. -/
theorem HostCache.validate_dump (cache : HostCache) :
    HostCache.validate py (cache.dump py)
      = some { cache with config := cache.config.map py.dumpAny } := by
  have hget : ∀ k, (Dict.ofList [("read_at", optStr cache.readAt), ("python", optStr cache.python),
      ("uv", optStr cache.uv), ("gpu_info", Json.ofDict (cache.gpuInfo.map GpuInfo.dump)),
      ("driver_version", optStr cache.driverVersion),
      ("config", Json.ofDict (cache.config.map py.dumpAny))]).get? k = _ :=
    Dict.get?_ofList_eq (by simp)
  have hinfo : (cache.gpuInfo.map GpuInfo.dump).traverse (fun _ info => GpuInfo.validate py info)
      = some cache.gpuInfo :=
    Dict.traverse_map _ fun _ info => GpuInfo.validate_dump py info
  have hdict : ∀ d, dropNull (some (Json.ofDict d)) = some (Json.ofDict d) := fun _ => rfl
  simp [HostCache.validate, HostCache.dump, hget, List.lookup_cons, hdict, gpuInfoField,
    anyDictField, hinfo]

/-- **An entry reads back from its dump**, but for what the dump makes of its cached config. -/
theorem HostEntry.validate_dump (entry : HostEntry) :
    HostEntry.validate py (entry.dump py)
      = some { entry with
          cache := { entry.cache with config := entry.cache.config.map py.dumpAny } } := by
  have hget : ∀ k, (Dict.ofList [("name", Json.str entry.name), ("ssh", optStr entry.ssh),
      ("port", Json.int entry.port), ("gpuc_home", optStr entry.gpucHome),
      ("persistent_root", optStr entry.persistentRoot), ("rental", rentalJson entry.rental),
      ("bootstrapped_at", optStr entry.bootstrappedAt), ("cache", entry.cache.dump py)]).get? k = _ :=
    Dict.get?_ofList_eq (by simp)
  have hcache : cacheField py (dropNull (some (entry.cache.dump py)))
      = some { entry.cache with config := entry.cache.config.map py.dumpAny } :=
    HostCache.validate_dump py entry.cache
  have hrental : dropNull (some (Json.int entry.port)) = some (.int entry.port) := rfl
  simp [HostEntry.validate, HostEntry.dump, hget, List.lookup_cons, earlierBuildsRental, strField,
    intField, dropNull_str, hrental, py.toInt_int, hcache]

end Fields

theorem readEntry_dump (key : String) (entry : HostEntry) :
    readEntry py key (entry.dump py) = some (entry.reread py key) := by
  rw [readEntry, HostEntry.validate_dump]
  by_cases hname : entry.name = "" <;> simp [HostEntry.reread, hname]

theorem isNone_readEntry {key : String} {raw : Json} :
    (HostEntry.validate py raw).isNone = (readEntry py key raw).isNone := by
  rw [readEntry, Option.isNone_map]

/-- An entry is held under the empty name only where its key is empty. -/
theorem readEntry_named {key : String} {raw : Json} {entry : HostEntry}
    (h : readEntry py key raw = some entry) (hname : entry.name = "") : key = "" := by
  obtain ⟨found, -, rfl⟩ := Option.map_eq_some_iff.mp h
  by_cases hempty : found.name = ""
  · rwa [if_pos hempty] at hname
  · rw [if_neg hempty] at hname
    exact absurd hname hempty

/-! ## Reading -/

/-- **A read sorts the raw entries of one document**: each is held, or kept aside as it stood. -/
theorem readRegistry_sorts {file : HostsFile} {read : RegistryRead}
    (h : readRegistry py file = some read) : ∃ hosts : Dict String Json,
      (∀ key, read.registry.hosts.get? key = (hosts.get? key).bind (readEntry py key)) ∧
      (∀ key, read.skipped.get? key
        = (hosts.get? key).filter fun raw => (readEntry py key raw).isNone) ∧
      (read.unreadable = true → hosts = Dict.empty) := by
  unfold readRegistry at h
  split at h
  · obtain rfl := Option.some.inj h
    exact ⟨Dict.empty, fun _ => rfl, fun _ => rfl, fun _ => rfl⟩
  · obtain rfl := Option.some.inj h
    exact ⟨Dict.empty, fun _ => rfl, fun _ => rfl, fun _ => rfl⟩
  · split at h
    · obtain rfl := Option.some.inj h
      exact ⟨Dict.empty, fun _ => rfl, fun _ => rfl, fun _ => rfl⟩
    · split at h
      · obtain rfl := Option.some.inj h
        exact ⟨Dict.empty, fun _ => rfl, fun _ => rfl, fun _ => rfl⟩
      · next hosts _ =>
        obtain ⟨schemaVersion, -, rfl⟩ := Option.map_eq_some_iff.mp h
        refine ⟨hosts, fun key => by simp [readHosts], fun key => ?_, fun hunreadable => by cases hunreadable⟩
        rw [readHosts, Dict.get?_filter, Dict.get?_sorted]
        exact congrArg (Option.filter · (hosts.get? key)) (funext fun _ => isNone_readEntry py)

/-- A registry that is written reads back, each entry from its dump. -/
theorem readRegistry_save (registry : Registry) (keep : Dict String Json) :
    readRegistry py (saveRegistry py registry keep)
      = some (readHosts py registry.schemaVersion
          ((registry.hosts.map (HostEntry.dump py)).setDefaults keep)) := by
  have hget : ∀ k, (Dict.ofList [("schema_version", Json.int registry.schemaVersion),
      ("hosts", .ofDict ((registry.hosts.map (HostEntry.dump py)).setDefaults keep))]).get? k = _ :=
    Dict.get?_ofList_eq (by simp)
  have hversion : dropNull (some (Json.int registry.schemaVersion))
      = some (.int registry.schemaVersion) := rfl
  simp [readRegistry, saveRegistry, hget, List.lookup_cons, hversion, intField, py.toInt_int]

theorem entryAt_of_read {file : HostsFile} {read : RegistryRead}
    (h : readRegistry py file = some read) (key : String) :
    entryAt py file key
      = ((read.registry.hosts.get? key).map .inl).or ((read.skipped.get? key).map .inr) := by
  rw [entryAt, h]
  rfl

/-- What a written registry says of a host: its entry as its dump reads back, or what was kept. -/
theorem entryAt_save (registry : Registry) (keep : Dict String Json) (key : String) :
    entryAt py (saveRegistry py registry keep) key
      = match registry.hosts.get? key with
        | some entry => some (.inl (entry.reread py key))
        | none => (keep.get? key).map (entryOf py key) := by
  rw [entryAt_of_read py (readRegistry_save py registry keep)]
  have hfilter : ∀ (raw : Option Json), ((raw.bind (readEntry py key)).map Sum.inl).or
      ((raw.filter fun raw => (HostEntry.validate py raw).isNone).map Sum.inr)
        = raw.map (entryOf py key) := by
    rintro (_ | raw)
    · rfl
    · cases hentry : readEntry py key raw with
      | some entry => simp [entryOf, hentry]
      | none => simp [entryOf, hentry, @isNone_readEntry py key]
  simp only [readHosts, Dict.get?_filterMap, Dict.get?_filter, Dict.get?_sorted]
  rw [hfilter, Dict.get?_setDefaults, Dict.get?_map]
  cases registry.hosts.get? key with
  | none => rfl
  | some entry => simp [entryOf, readEntry_dump]

/-- **A write that leaves a host's entry in the registry leaves it in the file**, but for what the dump
makes of its cached config. -/
theorem entryAt_kept {file : HostsFile} {read : RegistryRead}
    (h : readRegistry py file = some read) {registry : Registry} {key : String}
    (hkeep : registry.hosts.get? key = read.registry.hosts.get? key) :
    entryAt py (saveRegistry py registry read.skipped) key
      = (entryAt py file key).map (Sum.map (HostEntry.reread py key) id) := by
  obtain ⟨hosts, hread, hskipped, -⟩ := readRegistry_sorts py h
  rw [entryAt_save, hkeep, entryAt_of_read py h, hread, hskipped]
  cases hraw : hosts.get? key with
  | none => rfl
  | some raw =>
    cases hentry : readEntry py key raw with
    | some entry => simp [hentry]
    | none => simp [Option.filter, hentry, entryOf]

/-- A host the file has an entry for is in the registry that is read. -/
theorem entryAt_inl {file : HostsFile} {key : String} {entry : HostEntry}
    (h : entryAt py file key = some (.inl entry)) : ∃ read, readRegistry py file = some read ∧
      read.unreadable = false ∧ read.registry.hosts.get? key = some entry := by
  obtain ⟨read, hread, hentry⟩ := Option.bind_eq_some_iff.mp h
  obtain ⟨hosts, hheld, -, hunread⟩ := readRegistry_sorts py hread
  have hget : read.registry.hosts.get? key = some entry := by
    cases hheld : read.registry.hosts.get? key with
    | some found => simpa [hheld] using hentry
    | none => simp [hheld] at hentry
  refine ⟨read, hread, ?_, hget⟩
  cases hparsed : read.unreadable with
  | false => rfl
  | true =>
    rw [hheld, hunread hparsed] at hget
    cases hget

/-! ## Writing -/

section Write
variable {locked : Bool} {dir : StateDir} {name : String}

/-- The registry `update_cache` writes back. -/
def updatedRegistry (registry : Registry) (name : String) (changes : CacheChanges) (now : String) :
    Registry :=
  match registry.hosts.get? name with
  | none => registry
  | some current => registry.put (current.updated changes now)

theorem HostEntry.updated_name (entry : HostEntry) (changes : CacheChanges) (now : String) :
    (entry.updated changes now).name = entry.name := by
  unfold HostEntry.updated
  cases changes.config <;> rfl

theorem HostEntry.updated_readAt (entry : HostEntry) (changes : CacheChanges) (now : String) :
    (entry.updated changes now).cache.readAt = some now := by
  unfold HostEntry.updated
  cases changes.config <;> rfl

/-- **An update leaves the file alone, or writes the registry it read with the one entry put.** -/
theorem updateCache_hosts (changes : CacheChanges) (now : String) :
    (updateCache py locked dir name changes now).2.hosts = dir.hosts ∨
      ∃ read, readRegistry py dir.hosts = some read ∧ read.unreadable = false ∧
        (updateCache py locked dir name changes now).2.hosts
          = saveRegistry py (updatedRegistry read.registry name changes now) read.skipped := by
  unfold updateCache registryTransaction
  cases locked with
  | true => exact .inl rfl
  | false =>
    cases hread : readRegistry py dir.hosts with
    | none => exact .inl rfl
    | some read =>
      cases hparsed : read.unreadable with
      | true =>
        left
        simp [hparsed, StateDir.setAside]
      | false =>
        refine .inr ⟨read, rfl, hparsed, ?_⟩
        simp only [hparsed, updatedRegistry]
        cases read.registry.hosts.get? name <;> rfl

/-- With the lock to be had and a file that parses, an update writes. -/
theorem updateCache_saves {read : RegistryRead} (hread : readRegistry py dir.hosts = some read)
    (hparsed : read.unreadable = false) (changes : CacheChanges) (now : String) :
    (updateCache py false dir name changes now).2.hosts
      = saveRegistry py (updatedRegistry read.registry name changes now) read.skipped := by
  simp only [updateCache, registryTransaction, hread, hparsed, updatedRegistry]
  cases read.registry.hosts.get? name <;> rfl

/-- **Forgetting leaves the file alone, or writes the registry it read with the one entry gone.** -/
theorem forgetHost_hosts (podId : Option String) :
    (forgetHost py locked dir name podId).2.hosts = dir.hosts ∨
      ∃ read, readRegistry py dir.hosts = some read ∧ read.unreadable = false ∧
        (forgetHost py locked dir name podId).2.hosts
          = saveRegistry py { read.registry with hosts := read.registry.hosts.erase name }
              read.skipped := by
  unfold forgetHost
  cases locked with
  | true => exact .inl rfl
  | false =>
    cases hread : readRegistry py dir.hosts with
    | none => exact .inl rfl
    | some read =>
      cases hparsed : read.unreadable with
      | true =>
        left
        simp [hparsed, StateDir.setAside]
      | false =>
        cases hentry : read.registry.hosts.get? name with
        | none => exact .inl (by simp [hparsed, hentry])
        | some entry =>
          by_cases hpod : podId ≠ none ∧ entry.podId ≠ podId
          · exact .inl (by simp [hparsed, hentry, hpod])
          · exact .inr ⟨read, rfl, hparsed, by simp [hparsed, hentry, hpod]⟩

end Write

/-! ## The frame -/

/-- The entry under the key, if it validates, has the key for a name. -/
def OwnName (file : HostsFile) (name : String) : Prop :=
  ∀ entry, entryAt py file name = some (.inl entry) → entry.name = name

/-- No other host's cached config holds a value that the dump changes. -/
def ConfigsKept (file : HostsFile) (name : String) : Prop :=
  ∀ key, key ≠ name → ∀ entry, entryAt py file key = some (.inl entry) →
    ∀ v ∈ entry.cache.config.values, py.dumpAny v = v

/-- **A registry write touches one host**: neither write has an effect on another's entry, and neither
writes over a file that cannot be parsed. -/
structure RegistryFrame (dir : StateDir) (name : String) : Prop where
  update : ∀ locked changes now,
    TouchesOnly py name dir.hosts (updateCache py locked dir name changes now).2.hosts
  forget : ∀ locked podId,
    TouchesOnly py name dir.hosts (forgetHost py locked dir name podId).2.hosts
  unparsed : Unparsed py dir.hosts →
    (∀ locked changes now, (updateCache py locked dir name changes now).2.hosts = dir.hosts) ∧
      ∀ locked podId, (forgetHost py locked dir name podId).2.hosts = dir.hosts

section Frame
variable {file : HostsFile} {name : String} {read : RegistryRead}

/-- **An entry reads back as it was held** exactly when its config is dumped as it stands. -/
theorem reread_eq {key : String} {entry : HostEntry} (h : entryAt py file key = some (.inl entry)) :
    entry.reread py key = entry ↔ ∀ v ∈ entry.cache.config.values, py.dumpAny v = v := by
  obtain ⟨read, hread, -, hheld⟩ := entryAt_inl py h
  obtain ⟨hosts, hsorts, -, -⟩ := readRegistry_sorts py hread
  rw [hsorts] at hheld
  obtain ⟨raw, -, hentry⟩ := Option.bind_eq_some_iff.mp hheld
  have hname : (if entry.name = "" then key else entry.name) = entry.name := by
    by_cases hempty : entry.name = ""
    · rw [if_pos hempty, readEntry_named py hentry hempty, hempty]
    · rw [if_neg hempty]
  rw [← Dict.map_eq_self]
  constructor
  · intro hsame
    exact congrArg (fun e => e.cache.config) hsame
  · intro hconfig
    unfold HostEntry.reread
    rw [hname, hconfig]

/-- A write that leaves the other entries in the registry, and finds their configs dumped as they
stand, touches one host. -/
theorem touchesOnly_save (hread : readRegistry py file = some read) {registry : Registry}
    (hkeep : ∀ key, key ≠ name → registry.hosts.get? key = read.registry.hosts.get? key)
    (hconfigs : ConfigsKept py file name) :
    TouchesOnly py name file (saveRegistry py registry read.skipped) := by
  intro key hkey
  rw [entryAt_kept py hread (hkeep key hkey)]
  cases hentry : entryAt py file key with
  | none => rfl
  | some found =>
    cases found with
    | inr raw => rfl
    | inl entry =>
      have hsame := (reread_eq py hentry).mpr (hconfigs key hkey entry hentry)
      simp [hsame]

end Frame

variable {dir : StateDir} {name : String}

/-- An entry with its own name is put back under its key. -/
theorem updatedRegistry_keeps {read : RegistryRead} (hread : readRegistry py dir.hosts = some read)
    (hown : OwnName py dir.hosts name) (changes : CacheChanges) (now : String) {key : String}
    (hkey : key ≠ name) :
    (updatedRegistry read.registry name changes now).hosts.get? key
      = read.registry.hosts.get? key := by
  unfold updatedRegistry
  cases hcurrent : read.registry.hosts.get? name with
  | none => rfl
  | some current =>
    have hname : current.name = name := hown current (by
      rw [entryAt_of_read py hread, hcurrent]
      rfl)
    simp only [Registry.put, HostEntry.updated_name, hname, Dict.get?_set, if_neg hkey]

/-- An update of an entry whose name is another host's writes that host's entry, whatever stood
there. -/
theorem ownName_of_update {changes : CacheChanges}
    (h : ∀ now, TouchesOnly py name dir.hosts (updateCache py false dir name changes now).2.hosts) :
    OwnName py dir.hosts name := by
  intro entry hentry
  by_contra hname
  obtain ⟨read, hread, hparsed, hheld⟩ := entryAt_inl py hentry
  -- what is read back carries the time of the write, so no two writes can both have changed nothing
  have hwrites : ∀ now, entryAt py dir.hosts entry.name
      = some (.inl ((entry.updated changes now).reread py entry.name)) := by
    intro now
    rw [← h now entry.name hname, updateCache_saves py hread hparsed, entryAt_save, updatedRegistry,
      hheld]
    simp [Registry.put, HostEntry.updated_name]
  have htwice := (hwrites "0").symm.trans (hwrites "1")
  have hreadAt := congrArg (fun e => e.cache.readAt) (Sum.inl.inj (Option.some.inj htwice))
  simp [HostEntry.reread, HostEntry.updated_readAt] at hreadAt

/-- **A write of the registry touches one host** exactly when the entry under the host's key has that
key for a name, and the cached configs of the others are dumped as they stand. -/
theorem registry_write_frame (py : Pydantic) (dir : StateDir) (name : String) :
    RegistryFrame py dir name ↔ OwnName py dir.hosts name ∧ ConfigsKept py dir.hosts name := by
  constructor
  · intro h
    have hown : OwnName py dir.hosts name := ownName_of_update py (h.update false {})
    refine ⟨hown, fun key hkey entry hentry => ?_⟩
    obtain ⟨read, hread, hparsed, -⟩ := entryAt_inl py hentry
    have hafter := h.update false {} "" key hkey
    rw [updateCache_saves py hread hparsed,
      entryAt_kept py hread (updatedRegistry_keeps py hread hown {} "" hkey), hentry] at hafter
    exact (reread_eq py hentry).mp (Sum.inl.inj (Option.some.inj hafter))
  · rintro ⟨hown, hconfigs⟩
    refine ⟨fun locked changes now => ?_, fun locked podId => ?_, fun hunparsed => ⟨?_, ?_⟩⟩
    · rcases @updateCache_hosts py locked dir name changes now with
        hsame | ⟨read, hread, -, hsaved⟩
      · rw [hsame]
        intro key _
        rfl
      · rw [hsaved]
        exact touchesOnly_save py hread
          (fun key hkey => updatedRegistry_keeps py hread hown changes now hkey) hconfigs
    · rcases @forgetHost_hosts py locked dir name podId with
        hsame | ⟨read, hread, -, hsaved⟩
      · rw [hsame]
        intro key _
        rfl
      · rw [hsaved]
        refine touchesOnly_save py hread (fun key hkey => ?_) hconfigs
        rw [Dict.get?_erase, if_neg hkey]
    · intro locked changes now
      refine (updateCache_hosts py changes now).resolve_right ?_
      rintro ⟨read, hread, hparsed, -⟩
      rw [hunparsed read hread] at hparsed
      cases hparsed
    · intro locked podId
      refine (forgetHost_hosts py podId).resolve_right ?_
      rintro ⟨read, hread, hparsed, -⟩
      rw [hunparsed read hread] at hparsed
      cases hparsed

/-- pydantic on the values of the file below: an integer is one, and a float that is no number is
dumped as `null`. -/
def plainPydantic : Pydantic where
  toInt
    | .int n => some n
    | _ => none
  toInt_int := fun _ => rfl
  dumpAny
    | .float .nan | .float (.infinite _) => .null
    | value => value

/-- Host `a` was copied from `b`, and its address was changed, but not its name. -/
def copiedEntry : StateDir where
  hosts := .document (.obj [("schema_version", .int 1), ("hosts", .obj
    [("a", .obj [("name", .str "b"), ("ssh", .str "me@other")]),
      ("b", .obj [("name", .str "b"), ("ssh", .str "me@box")])])])

/-- The address the file has for a host. -/
def addressAt (file : HostsFile) (key : String) : Option (Option String) :=
  (entryAt plainPydantic file key).map (Sum.elim HostEntry.ssh fun _ => none)

/-- **A probe of one host overwrites another's address**: what `a` said is put under `b`. -/
theorem update_overwrites_another :
    addressAt copiedEntry.hosts "b" = some (some "me@box") ∧
      addressAt (updateCache plainPydantic false copiedEntry "a" {} "now").2.hosts "b"
        = some (some "me@other") ∧
      ¬ RegistryFrame plainPydantic copiedEntry "a" := by
  have hbefore : addressAt copiedEntry.hosts "b" = some (some "me@box") := by decide +kernel
  have hafter : addressAt (updateCache plainPydantic false copiedEntry "a" {} "now").2.hosts "b"
      = some (some "me@other") := by decide +kernel
  refine ⟨hbefore, hafter, fun h => ?_⟩
  have hsame : addressAt (updateCache plainPydantic false copiedEntry "a" {} "now").2.hosts "b"
      = addressAt copiedEntry.hosts "b" :=
    congrArg _ (h.update false {} "now" "b" (by decide))
  rw [hbefore, hafter] at hsame
  exact absurd hsame (by decide)

end Gpuc.Control
