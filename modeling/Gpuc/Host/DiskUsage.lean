import Mathlib.Algebra.BigOperators.Group.List.Basic
import Mathlib.Algebra.GroupWithZero.Nat
import Gpuc.Basis.FileTree

/-!
# What a tree takes on disk, and what deleting it would give back

`Disk`: names, and the inodes they are names of, as they stand while one walk goes over them. One walk
measures both figures, `dirSize` and `reclaimableBytes`; where they part is a file with names elsewhere,
and one whose extents another file has too, which is what the kernel says when asked of a file
(`sharedExtentBytes`).
-/

set_option autoImplicit false

namespace Gpuc.Host.DiskUsage

open Gpuc.Basis

/-- A run of a file's bytes, as FIEMAP tells of it. -/
structure Extent where
  logical : Nat
  physical : Nat
  length : Nat
  /-- `FIEMAP_EXTENT_SHARED`. -/
  shared : Bool
  /-- `FIEMAP_EXTENT_LAST`. -/
  last : Bool
  deriving DecidableEq

structure Inode where
  nlink : Nat
  blocks : Nat
  /-- `S_ISREG`. -/
  regular : Bool
  extents : List Extent

/-- The bytes of a file's blocks, which `stat` counts by 512. -/
def Inode.bytes (inode : Inode) : Nat := inode.blocks * 512

structure Key where
  dev : Nat
  ino : Nat
  deriving DecidableEq

/-! ## What the kernel says of a file's extents -/

/-- `_FIEMAP_BATCH`. -/
def fiemapBatch : Nat := 128

/-- How often the kernel is asked of one file. -/
def fiemapRounds : Nat := 64

/-- What is known after some of the extents of one answer. -/
structure Mapped where
  shared : Nat
  start : Nat
  done : Bool

def Mapped.reads (mapped : Mapped) (extent : Extent) : Mapped where
  shared := if extent.shared then mapped.shared + extent.length else mapped.shared
  start := extent.logical + extent.length
  done := mapped.done || extent.last || extent.logical + extent.length ≤ mapped.start

/-- The loop of `shared_extent_bytes`, over what the ioctl fills in when asked from an offset on, or
raises. -/
def sharedFrom (fiemap : Nat → Option (List Extent)) : Nat → Nat → Nat → Nat
  | 0, _, shared => shared
  | rounds + 1, start, shared =>
    match fiemap start with
    | none => 0
    | some [] => shared
    | some (extent :: extents) =>
      let mapped := (extent :: extents).foldl Mapped.reads ⟨shared, start, false⟩
      if mapped.done then mapped.shared else sharedFrom fiemap rounds mapped.start mapped.shared

/-- What the kernel answers: the first extents that reach past the offset. -/
def Inode.fiemap (inode : Inode) (start : Nat) : List Extent :=
  (inode.extents.filter fun extent => start < extent.logical + extent.length).take fiemapBatch

/-! ## The walk -/

/-- **Names and inodes**, and what of them a process may see. -/
structure Disk (α : Type) where
  tree : FileTree α
  key : FilePath → Key
  inode : Key → Inode
  /-- `lstat` answers. -/
  answers : FilePath → Bool
  /-- `os.scandir` answers. -/
  lists : FilePath → Bool
  /-- The file can be opened. -/
  opens : FilePath → Bool
  /-- Its filesystem has FIEMAP. -/
  maps : FilePath → Bool

/-- `entry.is_dir(follow_symlinks=False)`. -/
def isDir {α : Type} : Kind α → Bool
  | .directory => true
  | .file _ | .link _ _ => false

namespace Disk
variable {α : Type} (d : Disk α)

/-- What a name is a name of. -/
def inodeAt (path : FilePath) : Inode := d.inode (d.key path)

/-- `shared_extent_bytes`. -/
def sharedExtentBytes (path : FilePath) : Nat :=
  if d.opens path then
    sharedFrom (fun start => if d.maps path then some ((d.inodeAt path).fiemap start) else none)
      fiemapRounds 0 0
  else 0

/-- `os.scandir`, and nothing where it raises. -/
def scandir (here : FilePath) : FileTree α → List (String × FileTree α)
  | .directory children => if d.lists here then children else []
  | .file _ | .link _ _ => []

end Disk

/-- The locals of `_walk_size`, of which `shared` is by inode the bytes, the links found in the tree, and
the links the filesystem has. -/
structure Tally where
  total : Nat := 0
  seen : List Key := []
  shared : Dict Key (Nat × Nat × Nat) := Dict.empty

namespace Disk
variable {α : Type} (d : Disk α)

/-- **One entry of the walk.** -/
def note (reclaimableOnly : Bool) (tally : Tally) (entry : FilePath × Kind α) : Tally :=
  let key := d.key entry.1
  let info := d.inodeAt entry.1
  if d.answers entry.1 = false then tally
  else if isDir entry.2 then { tally with total := tally.total + info.bytes }
  else if info.nlink ≤ 1 then
    let shared :=
      if reclaimableOnly && info.bytes != 0 && info.regular then d.sharedExtentBytes entry.1 else 0
    { tally with total := tally.total + (info.bytes - min info.bytes shared) }
  else if reclaimableOnly = false then
    if key ∈ tally.seen then tally
    else { tally with total := tally.total + info.bytes, seen := key :: tally.seen }
  else
    let (bytes, found, _) := (tally.shared.get? key).getD (info.bytes, 0, info.nlink)
    { tally with shared := tally.shared.set key (bytes, found + 1, info.nlink) }

/-- The directories among the entries of one, which go onto the stack. -/
def descends (here : FilePath) (children : List (String × FileTree α)) : List (FilePath × FileTree α) :=
  children.filterMap fun child =>
    if d.answers (here ++ [child.1]) && isDir child.2.kind then some (here ++ [child.1], child.2)
    else none

theorem descends_sizeOf_le (here : FilePath) (children : List (String × FileTree α)) :
    ((d.descends here children).map fun item => sizeOf item.2).sum ≤ sizeOf children := by
  induction children with
  | nil => exact Nat.zero_le _
  | cons child children ih =>
    have hchild : sizeOf child.2 ≤ sizeOf child := by
      rw [Prod.mk.sizeOf_spec]
      omega
    rw [List.cons.sizeOf_spec, descends, List.filterMap_cons]
    split
    · exact ih.trans (by omega)
    · next item hitem =>
      obtain rfl := Option.some.inj (Option.ite_none_right_eq_some.mp hitem).2
      rw [List.map_cons, List.sum_cons]
      exact Nat.add_le_add (hchild.trans (Nat.le_add_left _ _)) ih

theorem descends_scandir_sizeOf_lt (here : FilePath) (node : FileTree α) :
    ((d.descends here (d.scandir here node)).map fun item => sizeOf item.2).sum < sizeOf node := by
  have hpos : 0 < sizeOf node := by
    cases node with
    | file content => rw [FileTree.file.sizeOf_spec]; omega
    | link absolute target => rw [FileTree.link.sizeOf_spec]; omega
    | directory children => rw [FileTree.directory.sizeOf_spec]; omega
  cases node with
  | file | link => exact hpos
  | directory children =>
    rw [scandir]
    split
    · have := d.descends_sizeOf_le here children
      rw [FileTree.directory.sizeOf_spec]
      omega
    · exact hpos

/-- **The walk**, the top of its stack first. `late` says of each look at the clock whether the deadline
has passed. -/
def walk (reclaimableOnly : Bool) (late : Nat → Bool) (looks : Nat) :
    List (FilePath × FileTree α) → Tally → Option Tally
  | [], tally => some tally
  | (here, node) :: stack, tally =>
    if late looks then none
    else
      let children := d.scandir here node
      walk reclaimableOnly late (looks + 1) ((d.descends here children).reverse ++ stack)
        ((children.map fun child => (here ++ [child.1], child.2.kind)).foldl (d.note reclaimableOnly) tally)
termination_by stack => (stack.map fun item => sizeOf item.2).sum
decreasing_by
  have := d.descends_scandir_sizeOf_lt here node
  simp only [List.map_append, List.sum_append, List.map_reverse, List.sum_reverse, List.map_cons,
    List.sum_cons]
  omega

/-- `_walk_size`. Nothing is found under a root that is not there. -/
def walkSize (root : FilePath) (reclaimableOnly : Bool) (late : Nat → Bool) : Option Nat :=
  match d.tree.get root with
  | none => if late 0 then none else some 0
  | some node =>
    (d.walk reclaimableOnly late 0 [(root, node)] {}).map fun tally =>
      tally.total + (tally.shared.values.map fun (bytes, found, nlink) =>
          if nlink ≤ found then bytes else 0).sum
        + if d.answers root then (d.inodeAt root).bytes else 0

def dirSize (root : FilePath) : Nat := (d.walkSize root false fun _ => false).getD 0

/-- `dir_size_within`, by what the clock says at each look. -/
def dirSizeWithin (root : FilePath) (late : Nat → Bool) : Option Nat := d.walkSize root false late

def reclaimableBytes (root : FilePath) : Nat := (d.walkSize root true fun _ => false).getD 0

end Disk

end Gpuc.Host.DiskUsage
