import Mathlib.Data.List.Perm.Subperm
import Gpuc.Host.Purge
import Gpuc.Laws.Job.Fetched

/-!
# Whether an output has anything new

`has_new_content` compares no sets: it counts the files under the output and the names of the baseline
that are as they were recorded, and says there is something new where the files are more. That is right
for a baseline whose names each lead to a file of its own under the output (`newContent_iff`): the names
then stand for as many different files, and as many as there are is all of them.

A scan names each file once, by its path (`apart_of_scan`), so that after a full one the answer is
whether a file is there that was not, or not with that size and time (`newContent_finds`). Two names for
one file are counted twice, and hide another (`twice_named_hides`).
-/

set_option autoImplicit false

namespace Gpuc.Host

open Gpuc.Basis
open Cleanup (partsOf join)

/-! ## What is there -/

/-- The files under a path, each by its path there. -/
def Filesystem.filesUnder (fs : Filesystem) (root : FilePath) : List (FilePath × Stat) :=
  match fs.nodeAt root with
  | none => []
  | some node => (node.entries []).filterMap fun
    | (path, .file info) => some (path, info)
    | (_, .link _ _) | (_, .directory) => none

/-- What is still there of a baseline are files. -/
def RegularNames (fs : Filesystem) (root : FilePath) (entries : Entries) : Prop :=
  ∀ name ∈ entries.keys, ∀ info, fs.stat (join root name) = some info →
    fs.isFile (join root name) = true

section
variable {fs : Filesystem} {path : FilePath}

theorem stat_of_file {real : FilePath} {info : Stat} (hfollow : fs.follow path = some real)
    (hentry : fs.tree.entry real = some (.file info)) : fs.stat path = some info := by
  rw [Filesystem.stat, hfollow]
  dsimp only
  rw [hentry]

/-- What `lstat` finds is not absent. -/
theorem lstatAbsent_of_directory (h : fs.lstatKind path = some .directory) :
    fs.lstatAbsent path = false := by
  rw [Filesystem.lstatKind] at h
  rw [Filesystem.lstatAbsent, Bool.or_eq_false_iff]
  split at h
  · next hup =>
    obtain ⟨above, rfl⟩ := List.getLast?_eq_some_iff.mp hup
    obtain ⟨real, hfollow⟩ : ∃ real, fs.follow (above ++ [".."]) = some real := by
      apply Option.ne_none_iff_exists'.mp
      intro hnone
      rw [Filesystem.kindOf, hnone] at h
      cases h
    obtain ⟨mid, _, hmid, -⟩ := walk_split hfollow
    rw [List.dropLast_concat]
    refine ⟨absent_of_walk hmid, ?_⟩
    rw [hup]
    cases fs.follow above <;> rfl
  · next hup =>
    rcases List.eq_nil_or_concat path with rfl | ⟨above, name, rfl⟩
    · have hnil : ∀ steps, absent fs.tree.entry steps [] [] = false := by
        intro steps
        cases steps <;> rfl
      exact ⟨hnil _, by cases fs.follow ([] : FilePath).dropLast <;> rfl⟩
    · rw [List.concat_eq_append] at h ⊢
      rw [Filesystem.lkindOf, List.getLast?_concat, List.dropLast_concat] at h
      rw [List.getLast?_concat, List.dropLast_concat, List.length_append]
      cases hfollow : fs.follow above with
      | none =>
        rw [hfollow] at h
        cases h
      | some parent =>
        rw [hfollow] at h
        refine ⟨absent_of_walk (walk_mono hfollow 1), ?_⟩
        simp [show fs.tree.entry (parent ++ [name]) = some .directory from h]

end

/-! ## A baseline of a directory -/

namespace PlainDir

variable {fs : Filesystem} {root : FilePath} (d : PlainDir fs root) {path : FilePath} {info : Stat}
  {entries : Entries}

theorem filesUnder_eq : fs.filesUnder root = d.files := by
  rw [Filesystem.filesUnder, d.nodeAt]
  rfl

/-- A path of names is at its place under it, or at none. -/
theorem of_follow (hnames : ∀ name ∈ path, name ≠ "..") {real : FilePath}
    (h : fs.follow (root ++ path) = some real) :
    d.tree.entry path ≠ none ∧ real = d.real ++ path := by
  rw [Filesystem.follow] at h
  obtain ⟨mid, more, hmid, hon⟩ := walk_split h
  have hreal : mid = d.real := by
    have htoo := walk_mono d.follow path.length
    rw [Nat.add_assoc, ← List.length_append] at htoo
    exact Option.some.inj (hmid.symm.trans htoo)
  subst hreal
  exact walk_stays d.node d.noLinks hnames hon

/-- **The names each lead to a place of their own under the directory.** -/
structure Apart (d : PlainDir fs root) (entries : Entries) : Prop where
  inside : ∀ name ∈ entries.keys, ∀ real, fs.follow (join root name) = some real → d.real <+: real
  apart : ∀ name ∈ entries.keys, ∀ other ∈ entries.keys, ∀ real,
    fs.follow (join root name) = some real → fs.follow (join root other) = some real → name = other

/-- **A name of the baseline leads to the file, and has the size and the time it has.** -/
def Recorded (d : PlainDir fs root) (entries : Entries) (path : FilePath) (info : Stat) : Prop :=
  ∃ name record, entries.get? name = some record ∧
    fs.follow (join root name) = some (d.real ++ path) ∧ info.sameAs record = true

/-- The names that are as recorded. -/
def same (fs : Filesystem) (root : FilePath) (entries : Entries) : List String :=
  unchanged (fun name => fs.stat (join root name)) entries

theorem nodup_same : (same fs root entries).Nodup :=
  nodup_sortedBy.mpr (entries.nodup.sublist (List.filter_sublist.map Prod.fst))

/-- A name that is as recorded leads to a file under the directory. -/
theorem file_of_mem_same (hregular : RegularNames fs root entries) (hapart : d.Apart entries)
    {name : String} (hname : name ∈ same fs root entries) :
    ∃ path info record, (path, info) ∈ d.files ∧ fs.follow (join root name) = some (d.real ++ path) ∧
      entries.get? name = some record ∧ info.sameAs record = true := by
  obtain ⟨record, info, hget, hstat, hsame⟩ := mem_unchanged.mp hname
  have hkey : name ∈ entries.keys := Dict.mem_keys.mpr ⟨record, hget⟩
  obtain ⟨real, info', hfollow, hentry, hstat'⟩ := exists_of_isFile (hregular name hkey info hstat)
  obtain rfl := Option.some.inj (hstat'.symm.trans hstat)
  obtain ⟨path, rfl⟩ := hapart.inside name hkey real hfollow
  rw [d.entry_append] at hentry
  exact ⟨path, info', record, d.mem_files.mpr hentry, hfollow, hget, hsame⟩

/-- And a file that is recorded is what one of them leads to. -/
theorem mem_same_of_recorded (hfile : (path, info) ∈ d.files) (h : d.Recorded entries path info) :
    ∃ name ∈ same fs root entries, fs.follow (join root name) = some (d.real ++ path) := by
  obtain ⟨name, record, hget, hfollow, hsame⟩ := h
  have hentry : fs.tree.entry (d.real ++ path) = some (.file info) :=
    (d.entry_append path).trans (d.mem_files.mp hfile)
  exact ⟨name, mem_unchanged.mpr ⟨record, info, hget, stat_of_file hfollow hentry, hsame⟩, hfollow⟩

/-- Where the files are. -/
def places : List FilePath := d.files.map fun file => d.real ++ file.1

theorem nodup_places : d.places.Nodup := by
  refine d.nodup_files.map_on fun one hone other hother heq => ?_
  obtain ⟨path, info⟩ := one
  obtain ⟨path', info'⟩ := other
  obtain rfl : path = path' := List.append_cancel_left heq
  have hinfo := (d.mem_files.mp hone).symm.trans (d.mem_files.mp hother)
  rw [Kind.file.inj (Option.some.inj hinfo)]

/-- **As many names as files are as recorded exactly when every file is.** -/
theorem length_same_iff (hregular : RegularNames fs root entries) (hapart : d.Apart entries) :
    d.files.length ≤ (same fs root entries).length ↔
      ∀ path info, (path, info) ∈ d.files → d.Recorded entries path info := by
  let lead := fun name => (fs.follow (join root name)).getD []
  have hlead : ∀ {name real}, fs.follow (join root name) = some real → lead name = real := by
    intro name real hfollow
    show (fs.follow (join root name)).getD [] = real
    rw [hfollow, Option.getD_some]
  have hsub : (same fs root entries).map lead ⊆ d.places := by
    intro real hreal
    obtain ⟨name, hname, rfl⟩ := List.mem_map.mp hreal
    obtain ⟨path, info, record, hfile, hfollow, -, -⟩ := d.file_of_mem_same hregular hapart hname
    exact List.mem_map.mpr ⟨(path, info), hfile, (hlead hfollow).symm⟩
  have hnodup : ((same fs root entries).map lead).Nodup := by
    refine nodup_same.map_on fun name hname other hother heq => ?_
    obtain ⟨path, _, record, -, hfollow, hget, -⟩ := d.file_of_mem_same hregular hapart hname
    obtain ⟨path', _, record', -, hfollow', hget', -⟩ := d.file_of_mem_same hregular hapart hother
    rw [hlead hfollow, hlead hfollow'] at heq
    rw [← heq] at hfollow'
    exact hapart.apart name (Dict.mem_keys.mpr ⟨record, hget⟩) other (Dict.mem_keys.mpr ⟨record', hget'⟩)
      _ hfollow hfollow'
  have hplaces : d.places.length = d.files.length := List.length_map _
  constructor
  · intro hle path info hfile
    have hperm := (hnodup.subperm hsub).perm_of_length_le (by simpa [hplaces] using hle)
    have hmem : d.real ++ path ∈ (same fs root entries).map lead :=
      hperm.mem_iff.mpr (List.mem_map.mpr ⟨(path, info), hfile, rfl⟩)
    obtain ⟨name, hname, hto⟩ := List.mem_map.mp hmem
    obtain ⟨path', info', record, hfile', hfollow, hget, hsame⟩ :=
      d.file_of_mem_same hregular hapart hname
    rw [hlead hfollow] at hto
    obtain rfl : path' = path := List.append_cancel_left hto
    have hinfo := (d.mem_files.mp hfile').symm.trans (d.mem_files.mp hfile)
    obtain rfl := Kind.file.inj (Option.some.inj hinfo)
    exact ⟨name, record, hget, hfollow, hsame⟩
  · intro hall
    have hback : d.places ⊆ (same fs root entries).map lead := by
      intro real hreal
      obtain ⟨⟨path, info⟩, hfile, rfl⟩ := List.mem_map.mp hreal
      obtain ⟨name, hname, hfollow⟩ := d.mem_same_of_recorded hfile (hall path info hfile)
      exact List.mem_map.mpr ⟨name, hname, hlead hfollow⟩
    have hle := (d.nodup_places.subperm hback).length_le
    rwa [hplaces, List.length_map] at hle

theorem any_link_eq_false : ((d.tree.entries []).any fun e => match e.2 with
    | .link _ _ => true
    | .file _ | .directory => false) = false := by
  apply List.any_eq_false.mpr
  rintro ⟨path, kind⟩ hmem
  obtain ⟨rest, -, -, hkind⟩ := (FileTree.mem_entries d.proper).mp hmem
  cases kind with
  | file | directory => exact Bool.false_ne_true
  | link absolute target => exact absurd hkind (d.noLinks rest absolute target)

theorem countP_file : ((d.tree.entries []).countP fun e => match e.2 with
    | .file _ => true
    | .link _ _ | .directory => false) = d.files.length := by
  rw [files, List.length_filterMap_eq_countP]
  apply List.countP_congr
  rintro ⟨path, kind⟩ -
  cases kind <;> simp

/-- In a directory without links, only the counts decide. -/
theorem newContent_eq (hroot : fs.lstatKind root = some .directory) :
    fs.newContent root entries = decide ((same fs root entries).length < d.files.length) := by
  rw [Filesystem.newContent, lstatAbsent_of_directory hroot, hroot, d.nodeAt]
  have hboth := congrArg₂ (fun links files => links || decide ((same fs root entries).length < files))
    d.any_link_eq_false d.countP_file
  exact hboth.trans (Bool.false_or _)

/-- **Nothing is new exactly when every file there is recorded**, under a baseline that names each place
once. -/
theorem newContent_iff (hroot : fs.lstatKind root = some .directory)
    (hregular : RegularNames fs root entries) (hapart : d.Apart entries) :
    fs.newContent root entries = false ↔
      ∀ path info, (path, info) ∈ d.files → d.Recorded entries path info := by
  rw [d.newContent_eq hroot, decide_eq_false_iff_not, Nat.not_lt]
  exact d.length_same_iff hregular hapart

end PlainDir

/-! ## A baseline of a scan -/

/-- The names are texts of paths, as a scan writes them. -/
def ScanNames (entries : Entries) : Prop :=
  ∀ name ∈ entries.keys, ∃ path, (∀ part ∈ path, IsName part ∧ part ≠ "..") ∧ name = slashed path

/-- **The scan was not cut short**: every file that was there is recorded. -/
def CapturedInFull (before : Filesystem) (root : FilePath) : Prop :=
  ∀ path info, (path, info) ∈ before.filesUnder root →
    slashed path ∈ (before.scan root).keys

/-- There was nothing, or a directory without links. -/
def WasPlain (before : Filesystem) (root : FilePath) : Prop :=
  before.nodeAt root = none ∨ Nonempty (PlainDir before root)

section
variable {before : Filesystem} {root : FilePath}

theorem scan_of_nothing (h : before.nodeAt root = none) : before.scan root = .empty := by
  have hkind : before.kindOf root = none := by
    rw [Filesystem.nodeAt] at h
    rw [Filesystem.kindOf]
    cases hfollow : before.follow root with
    | none => rfl
    | some real =>
      rw [hfollow] at h
      show (before.tree.get real).map FileTree.kind = none
      rw [show before.tree.get real = none from h]
      rfl
  rw [Filesystem.scan, Filesystem.isDir, Filesystem.isFile, hkind]
  rfl

theorem scanNames_scan (h : WasPlain before root) : ScanNames (before.scan root) := by
  intro name hname
  rcases h with hnothing | ⟨⟨b⟩⟩
  · rw [scan_of_nothing hnothing] at hname
    cases hname
  · obtain ⟨record, hget⟩ := Dict.mem_keys.mp hname
    obtain ⟨path, info, hfile, heq, -⟩ := b.scan_recorded hget
    have hentry := b.mem_files.mp hfile
    refine ⟨path, fun part hpart => b.names path ?_ part hpart, heq⟩
    rw [show (FileTree.directory b.children).entry path = _ from hentry]
    exact nofun

/-- What a scan records under a file's path is that file. -/
theorem scan_get?_iff (h : WasPlain before root) {path : FilePath} (hnames : ∀ part ∈ path, IsName part)
    {record : List Int} : (before.scan root).get? (slashed path) = some record →
      ∃ info, (path, info) ∈ before.filesUnder root ∧ record = Filesystem.recorded info := by
  intro hget
  rcases h with hnothing | ⟨⟨b⟩⟩
  · rw [scan_of_nothing hnothing] at hget
    cases hget
  · obtain ⟨other, info, hfile, heq, hrecord⟩ := b.scan_recorded hget
    obtain rfl := slashed_inj hnames (b.isName_of_mem_files hfile) heq
    exact ⟨info, b.filesUnder_eq ▸ hfile, hrecord⟩

theorem capturedInFull_of_few (h : WasPlain before root) (hfew : tooMany (before.scan root) = false) :
    CapturedInFull before root := by
  intro path info hfile
  rcases h with hnothing | ⟨⟨b⟩⟩
  · rw [Filesystem.filesUnder, hnothing] at hfile
    cases hfile
  · rw [b.filesUnder_eq] at hfile
    exact Dict.mem_keys.mpr ⟨_, b.scan_all hfew hfile⟩

theorem filesUnder_unique (h : WasPlain before root) {path : FilePath} {info other : Stat}
    (hinfo : (path, info) ∈ before.filesUnder root) (hother : (path, other) ∈ before.filesUnder root) :
    info = other := by
  rcases h with hnothing | ⟨⟨b⟩⟩
  · rw [Filesystem.filesUnder, hnothing] at hinfo
    cases hinfo
  · rw [b.filesUnder_eq] at hinfo hother
    have heq := (b.mem_files.mp hinfo).symm.trans (b.mem_files.mp hother)
    exact Kind.file.inj (Option.some.inj heq)

end

namespace PlainDir

variable {fs : Filesystem} {root : FilePath} (d : PlainDir fs root) {entries : Entries}

/-- **Such names each lead to a place of their own.** -/
theorem apart_of_scanNames (h : ScanNames entries) : d.Apart entries := by
  have hlead : ∀ name ∈ entries.keys, ∀ real, fs.follow (join root name) = some real →
      ∃ path, (∀ part ∈ path, IsName part) ∧ name = slashed path ∧ real = d.real ++ path := by
    intro name hname real hfollow
    obtain ⟨path, hpath, rfl⟩ := h name hname
    rw [join_slashed fun part hpart => (hpath part hpart).1] at hfollow
    exact ⟨path, fun part hpart => (hpath part hpart).1, rfl,
      (d.of_follow (fun part hpart => (hpath part hpart).2) hfollow).2⟩
  constructor
  · intro name hname real hfollow
    obtain ⟨path, -, -, rfl⟩ := hlead name hname real hfollow
    exact List.prefix_append d.real path
  · intro name hname other hother real hfollow hfollow'
    obtain ⟨path, -, rfl, rfl⟩ := hlead name hname real hfollow
    obtain ⟨path', -, rfl, heq⟩ := hlead other hother _ hfollow'
    rw [List.append_cancel_left heq]

/-- A file is recorded under its own path then. -/
theorem recorded_iff (h : ScanNames entries) {path : FilePath} {info : Stat}
    (hfile : (path, info) ∈ d.files) : d.Recorded entries path info ↔
      ∃ record, entries.get? (slashed path) = some record ∧ info.sameAs record = true := by
  have hnames := d.isName_of_mem_files hfile
  constructor
  · intro ⟨name, record, hget, hfollow, hsame⟩
    obtain ⟨other, hother, rfl⟩ := h name (Dict.mem_keys.mpr ⟨record, hget⟩)
    rw [join_slashed fun part hpart => (hother part hpart).1] at hfollow
    have hreal := (d.of_follow (fun part hpart => (hother part hpart).2) hfollow).2
    obtain rfl := List.append_cancel_left hreal
    exact ⟨record, hget, hsame⟩
  · intro ⟨record, hget, hsame⟩
    refine ⟨slashed path, record, hget, ?_, hsame⟩
    rw [join_slashed hnames]
    exact d.follow_append (by rw [d.mem_files.mp hfile]; nofun)

end PlainDir

/-! ## The law -/

/-- **A new result is never missed**: where nothing is said to be new, every file there is in the
baseline as it is now, when no two names of the baseline lead to one file and none leads out of the
directory. And after a scan that was not cut short, something is new exactly when a file is there that
was not, or not with that size and time. -/
theorem newContent_finds {fs : Filesystem} {root : FilePath} (d : PlainDir fs root)
    (hroot : fs.lstatKind root = some .directory) :
    (∀ entries, RegularNames fs root entries → d.Apart entries → fs.newContent root entries = false →
      ∀ path info, (path, info) ∈ d.files → d.Recorded entries path info) ∧
    ∀ before : Filesystem, WasPlain before root → CapturedInFull before root →
      RegularNames fs root (before.scan root) →
        (fs.newContent root (before.scan root) = true ↔
          ∃ path info, (path, info) ∈ d.files ∧ ∀ was, (path, was) ∈ before.filesUnder root →
            Filesystem.recorded was ≠ Filesystem.recorded info) := by
  refine ⟨fun entries hregular hapart => (d.newContent_iff hroot hregular hapart).mp, ?_⟩
  intro before hwas hfull hregular
  have hscan := scanNames_scan hwas
  have hrecorded : ∀ path info, (path, info) ∈ d.files →
      (d.Recorded (before.scan root) path info ↔
        ∃ was, (path, was) ∈ before.filesUnder root ∧
          Filesystem.recorded was = Filesystem.recorded info) := by
    intro path info hfile
    rw [d.recorded_iff hscan hfile]
    constructor
    · intro ⟨record, hget, hsame⟩
      obtain ⟨was, hmem, rfl⟩ := scan_get?_iff hwas (d.isName_of_mem_files hfile) hget
      exact ⟨was, hmem, (of_decide_eq_true hsame).symm⟩
    · intro ⟨was, hmem, heq⟩
      obtain ⟨record, hget⟩ := Dict.mem_keys.mp (hfull path was hmem)
      obtain ⟨was', hmem', rfl⟩ := scan_get?_iff hwas (d.isName_of_mem_files hfile) hget
      obtain rfl := filesUnder_unique hwas hmem hmem'
      exact ⟨_, hget, decide_eq_true heq.symm⟩
  have hiff := d.newContent_iff hroot hregular (d.apart_of_scanNames hscan)
  rw [← Bool.not_eq_false, hiff]
  push Not
  constructor
  · intro ⟨path, info, hfile, hnot⟩
    refine ⟨path, info, hfile, fun was hmem heq => hnot ?_⟩
    exact (hrecorded path info hfile).mpr ⟨was, hmem, heq⟩
  · intro ⟨path, info, hfile, hnew⟩
    refine ⟨path, info, hfile, fun hrec => ?_⟩
    obtain ⟨was, hmem, heq⟩ := (hrecorded path info hfile).mp hrec
    exact hnew was hmem heq

/-- The first of two files under two names, and the other under none. -/
def twice : Entries :=
  .ofList [(numbered 0, Filesystem.recorded madeAt), ("./" ++ numbered 0, Filesystem.recorded madeAt)]

/-- What each of them leads to. -/
theorem follow_twice {name : String} (h : name ∈ twice.keys) :
    (crowded 2).follow (join ["w", "out"] name) = some ["w", "out", numbered 0] := by
  have hkeys : twice.keys = [numbered 0, "./" ++ numbered 0] := by decide +kernel
  rw [hkeys] at h
  rcases List.mem_pair.mp h with rfl | rfl <;> decide +kernel

theorem regularNames_of_follow {fs : Filesystem} {root : FilePath} {entries : Entries}
    (h : ∀ name ∈ entries.keys, ∃ real info, fs.follow (join root name) = some real ∧
      fs.tree.entry real = some (.file info)) : RegularNames fs root entries := by
  intro name hname _ _
  obtain ⟨real, info, hfollow, hentry⟩ := h name hname
  rw [Filesystem.isFile, Filesystem.kindOf, hfollow]
  dsimp only
  rw [hentry]

theorem entry_crowded {n i : Nat} (h : i < n) :
    (crowded n).tree.entry ["w", "out", numbered i] = some (.file madeAt) := by
  have hfile := (crowdedOut n).mem_files.mp (mem_files_crowded.mpr ⟨i, h, rfl, rfl⟩)
  exact ((crowdedOut n).entry_append [numbered i]).trans hfile

/-- **A file that is named twice hides another**: both names are as recorded, and as many as the files
there. -/
theorem twice_named_hides :
    (crowded 2).lstatKind ["w", "out"] = some .directory ∧
      RegularNames (crowded 2) ["w", "out"] twice ∧
      (crowded 2).newContent ["w", "out"] twice = false ∧
      ([numbered 1], madeAt) ∈ (crowdedOut 2).files ∧
      ¬ (crowdedOut 2).Recorded twice [numbered 1] madeAt := by
  refine ⟨rfl, ?_, by decide +kernel, ?_, ?_⟩
  · exact regularNames_of_follow fun name hname =>
      ⟨_, madeAt, follow_twice hname, entry_crowded (by decide)⟩
  · exact mem_files_crowded.mpr ⟨1, by decide, rfl, rfl⟩
  · intro ⟨name, record, hget, hfollow, _⟩
    rw [follow_twice (Dict.mem_keys.mpr ⟨record, hget⟩)] at hfollow
    exact absurd (Option.some.inj hfollow) (by decide +kernel)

/-- A checkout with one file there, to which the job has added one: the output has something new, and a
baseline under which it had nothing would record both. -/
theorem newContent_finds_added :
    ((crowded 2).newContent ["w", "out"] ((crowded 2).scan ["w", "out"]) = false →
      ∀ path info, (path, info) ∈ (crowdedOut 2).files →
        (crowdedOut 2).Recorded ((crowded 2).scan ["w", "out"]) path info) ∧
    ((crowded 2).newContent ["w", "out"] ((crowded 1).scan ["w", "out"]) = true ↔
      ∃ path info, (path, info) ∈ (crowdedOut 2).files ∧
        ∀ was, (path, was) ∈ (crowded 1).filesUnder ["w", "out"] →
          Filesystem.recorded was ≠ Filesystem.recorded info) := by
  have hplain : ∀ n, WasPlain (crowded n) ["w", "out"] := fun n => .inr ⟨crowdedOut n⟩
  have hregular : ∀ n ≤ 2, RegularNames (crowded 2) ["w", "out"] ((crowded n).scan ["w", "out"]) := by
    intro n hn
    apply regularNames_of_follow
    intro name hname
    obtain ⟨record, hget⟩ := Dict.mem_keys.mp hname
    obtain ⟨path, info, hfile, rfl, -⟩ := (crowdedOut n).scan_recorded hget
    obtain ⟨i, hi, rfl, -⟩ := mem_files_crowded.mp hfile
    have hnow : ([numbered i], madeAt) ∈ (crowdedOut 2).files :=
      mem_files_crowded.mpr ⟨i, by omega, rfl, rfl⟩
    refine ⟨["w", "out", numbered i], madeAt, ?_, entry_crowded (by omega)⟩
    rw [join_slashed ((crowdedOut 2).isName_of_mem_files hnow)]
    exact (crowdedOut 2).follow_append (by rw [(crowdedOut 2).mem_files.mp hnow]; nofun)
  have hfew : tooMany ((crowded 1).scan ["w", "out"]) = false := by
    rw [Bool.eq_false_iff, ne_eq, (crowdedOut 1).tooMany_scan, length_files_crowded]
    decide
  obtain ⟨hrecorded, hfinds⟩ := newContent_finds (crowdedOut 2) rfl
  exact ⟨hrecorded _ (hregular 2 le_rfl)
      ((crowdedOut 2).apart_of_scanNames (scanNames_scan (hplain 2))),
    hfinds (crowded 1) (hplain 1) (capturedInFull_of_few (hplain 1) hfew) (hregular 1 (by decide))⟩

end Gpuc.Host
