import Gpuc.Basis.FileTree

/-!
# Removing a workdir

A sweep takes a finished job's checkout: all of the workdir where the job keeps no outputs, and
otherwise everything but the kept paths and what leads to them. The kept paths are those that the spec
names and, where the workdir has them, what these resolve to (`keptPaths`); what is deleted is
decided child by child, by comparing paths (`removeAround`).

A `Disk` is the whole tree that the host sees, the workdir in it at its resolved path, and whether the
job has an archive of its checkout. What the sweep measures, and what it writes to the job's state,
is not modelled.
-/

set_option autoImplicit false

namespace Gpuc.Host.Cleanup

open Gpuc.Basis

variable {α : Type}

/-! ## Paths -/

/-- The parts of a posix path: empty ones and `.` go. -/
def partsOf (path : String) : FilePath :=
  ((path.toList.splitOn '/').filter fun part => part ≠ [] ∧ part ≠ ['.']).map String.ofList

/-- `root / path`: an absolute path stands for itself. -/
def join (root : FilePath) (path : String) : FilePath :=
  if path.toList.head? = some '/' then partsOf path else root ++ partsOf path

/-- `kept_paths`: each kept output as the spec names it, and where it really is. -/
def keptPaths (steps : Nat) (tree : FileTree α) (root : FilePath) (kept : List String) :
    List FilePath :=
  kept.flatMap fun path =>
    let named := join root path
    let real := realPath tree.entry steps [] named
    if root <+: real then [named, real] else [named]

/-! ## The sweep -/

section Sweep
variable (keep : List FilePath)

/-- A path in `keep` is the child's, or is under it. -/
def leadsToKept (child : FilePath) : Bool := keep.any fun path => child <+: path

mutual
/-- What is left of one child of a directory. -/
def leaveChild (child : FilePath) : FileTree α → Option (FileTree α)
  | .file content => if child ∈ keep then some (.file content) else none
  | .link absolute target =>
    if child ∈ keep then some (.link absolute target)
    else if leadsToKept keep child then some (.link absolute target)
    else none
  | .directory children =>
    if child ∈ keep then some (.directory children)
    else if leadsToKept keep child then some (.directory (removeAround child children))
    else none
/-- **`_remove_around`**, of the children of a directory. -/
def removeAround (directory : FilePath) : List (String × FileTree α) → List (String × FileTree α)
  | [] => []
  | (name, child) :: children =>
    match leaveChild (directory ++ [name]) child with
    | none => removeAround directory children
    | some left => (name, left) :: removeAround directory children
end

/-- The workdir, swept. -/
def sweep (root : FilePath) : FileTree α → Option (FileTree α)
  | .directory children => some (.directory (removeAround keep root children))
  | .file content => some (.file content)
  | .link absolute target => some (.link absolute target)

variable {keep}

/-- A directory is swept child by child. -/
theorem removeAround_eq (directory : FilePath) (children : List (String × FileTree α)) :
    removeAround keep directory children =
      FileTree.mapChildren (fun name => leaveChild keep (directory ++ [name])) children := by
  induction children with
  | nil => rfl
  | cons child children ih =>
    obtain ⟨name, child⟩ := child
    rw [removeAround, ih, FileTree.mapChildren, FileTree.mapChildren, List.filterMap_cons]
    cases leaveChild keep (directory ++ [name]) child with
    | none => rfl
    | some left => rfl

theorem leaveChild_proper {tree left : FileTree α} {child : FilePath} (h : tree.Proper)
    (hleft : leaveChild keep child tree = some left) : left.Proper := by
  induction h generalizing child left with
  | file content =>
    rw [leaveChild] at hleft
    split at hleft
    · obtain rfl := Option.some.inj hleft
      exact .file content
    · cases hleft
  | link absolute target =>
    rw [leaveChild] at hleft
    split at hleft
    · obtain rfl := Option.some.inj hleft
      exact .link absolute target
    · split at hleft
      · obtain rfl := Option.some.inj hleft
        exact .link absolute target
      · cases hleft
  | directory hnames hchildren ih =>
    rw [leaveChild] at hleft
    split at hleft
    · obtain rfl := Option.some.inj hleft
      exact .directory hnames hchildren
    · split at hleft
      · obtain rfl := Option.some.inj hleft
        rw [removeAround_eq]
        exact FileTree.proper_mapChildren hnames fun child hchild left hleft => ih child hchild hleft
      · cases hleft

theorem sweep_proper (root : FilePath) {tree left : FileTree α} (h : tree.Proper)
    (hleft : sweep keep root tree = some left) : left.Proper := by
  cases h with
  | file content =>
    obtain rfl := Option.some.inj hleft
    exact .file content
  | link absolute target =>
    obtain rfl := Option.some.inj hleft
    exact .link absolute target
  | directory hnames hchildren =>
    obtain rfl := Option.some.inj hleft
    rw [removeAround_eq]
    exact FileTree.proper_mapChildren hnames fun child hchild left hleft =>
      leaveChild_proper (hchildren child hchild) hleft

end Sweep

/-- `is_dir`, of the resolved workdir. -/
def isDir (tree : FileTree α) (root : FilePath) : Bool :=
  match tree.entry root with
  | some .directory => true
  | none | some (.file _) | some (.link _ _) => false

/-- What is left of the tree: nothing of the workdir where no output is kept. -/
def removeTree (steps : Nat) (tree : FileTree α) (root : FilePath) (kept : List String) :
    Option (FileTree α) :=
  if isDir tree root then
    let keep := keptPaths steps tree root kept
    if keep = [] then tree.modify (fun _ => none) root else tree.modify (sweep keep root) root
  else some tree

theorem removeTree_proper {steps : Nat} {tree left : FileTree α} {root : FilePath}
    {kept : List String} (h : tree.Proper) (hleft : removeTree steps tree root kept = some left) :
    left.Proper := by
  unfold removeTree at hleft
  dsimp only at hleft
  split at hleft
  · split at hleft
    · exact h.modify (fun _ _ _ hnone => by cases hnone) hleft
    · exact h.modify (fun _ _ => sweep_proper root) hleft
  · obtain rfl := Option.some.inj hleft
    exact h

/-- **What a sweep finds**: the tree that the host sees, whether the job has an archive of its checkout
beside its spec, and whether its state says that the checkout has been removed. -/
structure Disk (α : Type) where
  tree : FileTree α
  proper : tree.Proper
  archive : Bool
  removed : Bool

/-- `has_checkout`. -/
def hasCheckout (root : FilePath) (disk : Disk α) : Bool :=
  if isDir disk.tree root then !disk.removed else disk.archive

/-- **`remove_workdir`**, of the workdir at its resolved path and the outputs that are kept. -/
def removeWorkdir (steps : Nat) (root : FilePath) (kept : List String) (disk : Disk α) : Disk α :=
  if hasCheckout root disk then
    { tree := (removeTree steps disk.tree root kept).getD (.directory [])
      proper := by
        cases hleft : removeTree steps disk.tree root kept with
        | none => exact .directory List.nodup_nil nofun
        | some left => exact removeTree_proper disk.proper hleft
      archive := false
      removed := disk.removed || isDir disk.tree root && !kept.isEmpty }
  else disk

end Gpuc.Host.Cleanup
