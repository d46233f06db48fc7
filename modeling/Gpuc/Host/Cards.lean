import Mathlib.Data.List.Nodup
import Gpuc.Host.Jobs

/-!
# The cards of a host

`resolve` reads the entries of a host's configuration, nvidia-smi indices or UUIDs, against the table
the driver reports. Whatever the entries and the table, each card comes out once, and one that is
owned is not also shared (`resolve_nodup`).
-/

set_option autoImplicit false

namespace Gpuc.Host

/-- One row of the driver's table. -/
structure Gpu where
  index : Option Nat
  uuid : Uuid
  deriving DecidableEq

/-- **What a host's owned and shared entries name against one table.** -/
structure Resolution where
  owned : List Uuid := []
  shared : List Uuid := []
  missing : List String := []
  sharedMissing : List String := []
  duplicates : List String := []

/-- `entry.isdigit()`. -/
def isDigits (entry : String) : Bool := entry.toList ≠ [] && entry.toList.all Char.isDigit

/-- The card an entry names, if the table has it. Of two rows of one index the later counts. -/
def lookupCard (table : List Gpu) (entry : String) : Option Uuid :=
  if isDigits entry then
    (table.reverse.find? fun gpu => gpu.index.map toString = some entry).map Gpu.uuid
  else if entry ∈ table.map Gpu.uuid then some entry
  else none

/-- What one list of entries has named so far. -/
structure Named where
  found : List Uuid := []
  missing : List String := []
  duplicates : List String := []

/-- One entry: a card not named before, in this list or among `others`, or why it names none. -/
def Named.read (table : List Gpu) (others : List Uuid) (named : Named) (entry : String) : Named :=
  match lookupCard table entry with
  | none => { named with missing := named.missing ++ [entry] }
  | some uuid =>
    if uuid ∈ others ∨ uuid ∈ named.found then
      { named with duplicates := named.duplicates ++ [entry] }
    else { named with found := named.found ++ [uuid] }

/-- Every entry of a list in turn. -/
def readEntries (table : List Gpu) (others : List Uuid) (entries : List String) : Named :=
  entries.foldl (Named.read table others) {}

/-- **Entries against the table.** No owned entries at all own every card that no shared entry names. -/
def resolve (owned : Option (List String)) (table : List Gpu) (shared : List String) : Resolution :=
  let entries := owned.getD <|
    (table.map Gpu.uuid).filter fun uuid => some uuid ∉ shared.map (lookupCard table)
  let ours := readEntries table [] entries
  let theirs := readEntries table ours.found shared
  { owned := ours.found
    shared := theirs.found
    missing := ours.missing
    sharedMissing := theirs.missing
    duplicates := ours.duplicates ++ theirs.duplicates }

/-- `describe_table`. -/
def describeTable (table : List Gpu) : String :=
  if table = [] then "(no GPUs)"
  else
    ", ".intercalate (table.map fun gpu =>
      let index := (gpu.index.map toString).getD "None"
      s!"{index}={gpu.uuid}")

/-- **`_verify_assigned`**: why a runner cannot have the cards it was assigned, against what the driver
reports or the error it answers. -/
def verifyAssigned (assigned : List Uuid) (asks : Int) (table : Except String (List Gpu)) :
    Option String :=
  if assigned = [] then
    if asks = 0 then none else some "no GPUs assigned to a job that asks for some"
  else
    match table with
    | .error error => some error
    | .ok table =>
      let cards := resolve (some assigned) table []
      let reports := describeTable table
      if cards.missing ≠ [] then
        let missing := ", ".intercalate cards.missing
        some s!"assigned GPUs not present on this host: {missing}; nvidia-smi reports: {reports}"
      else if cards.duplicates ≠ [] then
        let duplicates := ", ".intercalate cards.duplicates
        some s!"assigned GPUs name one card twice: {duplicates}; nvidia-smi reports: {reports}"
      else none

section
variable {table : List Gpu} {others : List Uuid}

theorem read_found {named : Named} (h : (others ++ named.found).Nodup) (entry : String) :
    (others ++ (named.read table others entry).found).Nodup := by
  unfold Named.read
  split
  · exact h
  · next uuid _ =>
    split
    · exact h
    · next hnew =>
      rw [not_or] at hnew
      rw [← List.append_assoc]
      refine h.append (List.nodup_singleton uuid) fun c hc hlast => ?_
      rw [List.mem_singleton.mp hlast] at hc
      exact (List.mem_append.mp hc).elim hnew.1 hnew.2

/-- Reading a list of entries names no card twice, nor one of the others. -/
theorem readEntries_found (entries : List String) (h : others.Nodup) :
    (others ++ (readEntries table others entries).found).Nodup := by
  have hfrom : ∀ named : Named, (others ++ named.found).Nodup →
      (others ++ (entries.foldl (Named.read table others) named).found).Nodup := by
    induction entries with
    | nil => exact fun _ hnamed => hnamed
    | cons entry entries ih => exact fun named hnamed => ih _ (read_found hnamed entry)
  exact hfrom {} (by simpa using h)

end

/-- **Each card comes out once, and an owned one is not also shared.** -/
theorem resolve_nodup (owned : Option (List String)) (table : List Gpu) (shared : List String) :
    ((resolve owned table shared).owned ++ (resolve owned table shared).shared).Nodup := by
  apply readEntries_found
  exact @readEntries_found table [] _ List.nodup_nil

end Gpuc.Host
