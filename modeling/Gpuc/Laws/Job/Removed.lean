import Gpuc.Host.Purge

/-!
# What a delete leaves

A delete takes what stands at one path, with everything under it, and leaves every other entry as it
was (`entry_remove`). Paths are followed by the entries that lead along them, so that a path sees a
delete elsewhere through the entries on its way and the one at its end, and through no others
(`follow_of_keeps`). Whether an output has anything new, it sees by the entries under it as well, and by
those on the way to the names of the baseline (`newContent_of_keeps`).
-/

set_option autoImplicit false

namespace Gpuc.Host.Filesystem

open Gpuc.Basis
open Cleanup (join)

/-! ## Fewer entries -/

/-- **What is left of these files**: entries have gone, and nothing else is different. -/
structure Leaves (before after : Filesystem) : Prop where
  entry : ∀ p, after.tree.entry p = before.tree.entry p ∨ after.tree.entry p = none
  steps : after.steps = before.steps
  directoryStat : after.directoryStat = before.directoryStat

section Leaves
variable {before middle after : Filesystem} {path real p : FilePath}

theorem Leaves.refl (fs : Filesystem) : Leaves fs fs := ⟨fun _ => .inl rfl, rfl, rfl⟩

theorem Leaves.trans (h : Leaves before middle) (h' : Leaves middle after) : Leaves before after where
  entry p := by
    rcases h'.entry p with heq | hgone
    · rw [heq]
      exact h.entry p
    · exact .inr hgone
  steps := h'.steps.trans h.steps
  directoryStat := h'.directoryStat.trans h.directoryStat

/-- What is still there was there. -/
theorem Leaves.entry_eq (h : Leaves before after) (hthere : after.tree.entry p ≠ none) :
    after.tree.entry p = before.tree.entry p :=
  (h.entry p).resolve_right hthere

/-- A path that still leads somewhere led there. -/
theorem Leaves.follow_eq_some (h : Leaves before after) (hfollow : after.follow path = some real) :
    before.follow path = some real := by
  rw [follow, h.steps] at hfollow
  exact (walk_of_sub h.entry hfollow).1

theorem Leaves.kindOf_eq_some (h : Leaves before after) {kind : Kind Stat}
    (hkind : after.kindOf path = some kind) : before.kindOf path = some kind := by
  unfold kindOf at hkind ⊢
  cases hfollow : after.follow path with
  | none =>
    rw [hfollow] at hkind
    cases hkind
  | some real =>
    rw [hfollow] at hkind
    rw [h.follow_eq_some hfollow]
    dsimp only at hkind ⊢
    rw [← h.entry_eq (by rw [hkind]; exact Option.some_ne_none kind), hkind]

theorem isDir_iff {fs : Filesystem} : fs.isDir path = true ↔ fs.kindOf path = some .directory := by
  unfold isDir
  split <;> simp_all

theorem Leaves.isDir (h : Leaves before after) (hdir : after.isDir path = true) :
    before.isDir path = true :=
  isDir_iff.mpr (h.kindOf_eq_some (isDir_iff.mp hdir))

theorem Leaves.target_eq_some (h : Leaves before after) (htarget : after.target path = some real) :
    before.target path = some real := by
  unfold target at htarget ⊢
  split at htarget
  · next hparent hname =>
    rw [h.follow_eq_some hparent, hname]
    exact htarget
  · cases htarget

end Leaves

/-! ## Deleting -/

section Remove
variable {fs : Filesystem} {path p : FilePath}

theorem remove_of_target_eq_none (h : fs.target path = none) : fs.remove path = fs := by
  unfold remove
  split
  · rfl
  · next hreal =>
    rw [h] at hreal
    cases hreal

theorem tree_remove {real : FilePath} (h : fs.target path = some real) :
    (fs.remove path).tree = (fs.tree.modify (fun _ => none) real).getD (.directory []) := by
  unfold remove
  split
  · next hnone =>
    rw [h] at hnone
    cases hnone
  · next hreal =>
    obtain rfl := Option.some.inj (h.symm.trans hreal)
    rfl

/-- What is deleted has a name. -/
theorem ne_nil_of_target {real : FilePath} (h : fs.target path = some real) : real ≠ [] := by
  unfold target at h
  split at h
  · obtain rfl := Option.some.inj h
    simp
  · cases h

theorem entry_modify {tree : FileTree Stat} {real : FilePath} (hne : real ≠ []) :
    ((tree.modify (fun _ => none) real).getD (.directory [])).entry p
      = FileTree.entryIn (tree.modify (fun _ => none) real) p := by
  cases real with
  | nil => exact absurd rfl hne
  | cons name real => cases tree <;> rfl

/-- **Elsewhere a delete leaves everything.** -/
theorem entry_remove (h : ∀ real, fs.target path = some real → ¬ real <+: p) :
    (fs.remove path).tree.entry p = fs.tree.entry p := by
  cases htarget : fs.target path with
  | none => rw [remove_of_target_eq_none htarget]
  | some real =>
    rw [tree_remove htarget, entry_modify (ne_nil_of_target htarget)]
    exact FileTree.entryIn_modify_of_not_prefix fs.proper (h real htarget)

theorem steps_remove : (fs.remove path).steps = fs.steps := by
  unfold remove
  split <;> rfl

theorem directoryStat_remove : (fs.remove path).directoryStat = fs.directoryStat := by
  unfold remove
  split <;> rfl

theorem leaves_remove : Leaves fs (fs.remove path) where
  entry p := by
    by_cases hgone : ∃ real, fs.target path = some real ∧ real <+: p
    · obtain ⟨real, htarget, below, rfl⟩ := hgone
      right
      rw [tree_remove htarget, entry_modify (ne_nil_of_target htarget)]
      cases hnode : fs.tree.get real with
      | none => exact FileTree.entryIn_modify_append_of_none fs.proper hnode below
      | some node =>
        rw [FileTree.entryIn_modify_append fs.proper hnode]
        rfl
    · exact .inl (entry_remove fun real htarget hunder => hgone ⟨real, htarget, hunder⟩)
  steps := steps_remove
  directoryStat := directoryStat_remove

end Remove

/-! ## What a path sees -/

section Sees
variable (fs : Filesystem) (path p : FilePath)

/-- **An entry that following a path sees**: one on its way, or the one it leads to. -/
def Sees : Prop :=
  p ∈ lookups fs.tree.entry (fs.steps + path.length) [] path ∨ fs.follow path = some p

/-- An entry that is seen where no link at the end is followed. -/
def SeesItself : Prop :=
  p ∈ lookups fs.tree.entry (fs.steps + path.length) [] path.dropLast ∨
    fs.follow path.dropLast = some p ∨ fs.target path = some p

/-- **An entry that is seen where an output is compared with what was recorded of it.** -/
def SeesContent (entries : Entries) : Prop :=
  fs.SeesItself path p ∨ fs.Sees path p ∨ (∃ real, fs.follow path = some real ∧ real <+: p) ∨
    ∃ name ∈ entries.keys, fs.Sees (join path name) p

end Sees

/-- These entries are what they were. -/
def Keeps (before after : Filesystem) (seen : FilePath → Prop) : Prop :=
  ∀ p, seen p → after.tree.entry p = before.tree.entry p

theorem Keeps.mono {before after : Filesystem} {seen more : FilePath → Prop}
    (h : Keeps before after more) (hsub : ∀ p, seen p → more p) : Keeps before after seen :=
  fun p hp => h p (hsub p hp)

section Keeps
variable {before after : Filesystem} {path : FilePath} (h : Leaves before after)
include h

theorem follow_of_keeps (hkeeps : Keeps before after (before.Sees path)) :
    after.follow path = before.follow path := by
  rw [follow, h.steps, follow]
  exact walk_congr fun p hp => hkeeps p (.inl hp)

theorem kindOf_of_keeps (hkeeps : Keeps before after (before.Sees path)) :
    after.kindOf path = before.kindOf path := by
  rw [kindOf, follow_of_keeps h hkeeps, kindOf]
  cases hfollow : before.follow path with
  | none => rfl
  | some real => exact hkeeps real (.inr hfollow)

theorem isDir_of_keeps (hkeeps : Keeps before after (before.Sees path)) :
    after.isDir path = before.isDir path := by
  rw [isDir, kindOf_of_keeps h hkeeps, isDir]

theorem isFile_of_keeps (hkeeps : Keeps before after (before.Sees path)) :
    after.isFile path = before.isFile path := by
  rw [isFile, kindOf_of_keeps h hkeeps, isFile]

theorem present_of_keeps (hkeeps : Keeps before after (before.Sees path)) :
    after.present path = before.present path := by
  rw [present, kindOf_of_keeps h hkeeps, present]

theorem stat_of_keeps (hkeeps : Keeps before after (before.Sees path)) :
    after.stat path = before.stat path := by
  rw [stat, follow_of_keeps h hkeeps, stat, h.directoryStat]
  cases hfollow : before.follow path with
  | none => rfl
  | some real =>
    dsimp only
    rw [hkeeps real (.inr hfollow)]

/-- Its directory is seen on the way to what stands at a path. -/
theorem follow_dropLast_of_keeps (hkeeps : Keeps before after (before.SeesItself path)) :
    after.follow path.dropLast = before.follow path.dropLast := by
  refine follow_of_keeps h fun p hp => hkeeps p (hp.imp (fun hp => ?_) .inl)
  have hmore := lookups_mono hp (path.length - path.dropLast.length)
  have hlength : path.dropLast.length ≤ path.length := by simp
  rwa [Nat.add_assoc, Nat.add_sub_cancel' hlength] at hmore

theorem lkindOf_of_keeps (hkeeps : Keeps before after (before.SeesItself path)) :
    after.lkindOf path = before.lkindOf path := by
  rw [lkindOf, follow_dropLast_of_keeps h hkeeps, lkindOf]
  cases hname : path.getLast? with
  | none => rfl
  | some name =>
    cases hparent : before.follow path.dropLast with
    | none => rfl
    | some parent =>
      refine hkeeps (parent ++ [name]) (.inr (.inr ?_))
      rw [target, hparent, hname]

theorem lstatAbsent_of_keeps (hkeeps : Keeps before after (before.SeesItself path)) :
    after.lstatAbsent path = before.lstatAbsent path := by
  have habsent : absent after.tree.entry (before.steps + path.length) [] path.dropLast
      = absent before.tree.entry (before.steps + path.length) [] path.dropLast :=
    absent_congr fun p hp => hkeeps p (.inl hp)
  rw [lstatAbsent, h.steps, habsent, follow_dropLast_of_keeps h hkeeps, lstatAbsent]
  congr 1
  cases hparent : before.follow path.dropLast with
  | none => rfl
  | some parent =>
    cases hname : path.getLast? with
    | none => rfl
    | some name =>
      have htarget : before.target path = some (parent ++ [name]) := by
        rw [target, hparent, hname]
      dsimp only
      rw [hkeeps parent (.inr (.inl hparent)), hkeeps _ (.inr (.inr htarget))]

omit h in
/-- Under an entry there are the same ones. -/
theorem entries_perm {real : FilePath} {node node' : FileTree Stat}
    (hkeeps : Keeps before after (real <+: ·)) (hnode : before.tree.get real = some node)
    (hnode' : after.tree.get real = some node') : (node'.entries []).Perm (node.entries []) := by
  have hproper := before.proper.of_get hnode
  have hproper' := after.proper.of_get hnode'
  refine (List.perm_ext_iff_of_nodup (.of_map _ (FileTree.nodup_entries hproper' []))
    (.of_map _ (FileTree.nodup_entries hproper []))).mpr fun e => ?_
  obtain ⟨path, kind⟩ := e
  have hsame : ∀ below, node'.entry below = node.entry below := by
    intro below
    have hentry := hkeeps (real ++ below) (List.prefix_append _ _)
    rwa [FileTree.entry, FileTree.entry, FileTree.get_append hnode, FileTree.get_append hnode'] at hentry
  rw [FileTree.mem_entries hproper', FileTree.mem_entries hproper]
  simp only [hsame]

theorem under_perm (hsees : Keeps before after (before.Sees path))
    (hunder : ∀ real, before.follow path = some real → Keeps before after (real <+: ·)) :
    (((after.nodeAt path).map fun node => node.entries []).getD []).Perm
      (((before.nodeAt path).map fun node => node.entries []).getD []) := by
  rw [nodeAt, follow_of_keeps h hsees, nodeAt]
  cases hfollow : before.follow path with
  | none => exact .refl _
  | some real =>
    have hentry := hsees real (.inr hfollow)
    unfold FileTree.entry at hentry
    dsimp only
    cases hnode : before.tree.get real with
    | none =>
      rw [hnode, Option.map_none, Option.map_eq_none_iff] at hentry
      rw [hentry]
    | some node =>
      rw [hnode, Option.map_some, Option.map_eq_some_iff] at hentry
      obtain ⟨node', hnode', -⟩ := hentry
      rw [hnode']
      exact entries_perm (hunder real hfollow) hnode hnode'

end Keeps

theorem unchanged_congr {statOf statOf' : String → Option Stat} {entries : Entries}
    (h : ∀ name ∈ entries.keys, statOf' name = statOf name) :
    unchanged statOf' entries = unchanged statOf entries := by
  refine congrArg (fun es => sortedBy id (List.map Prod.fst es)) (List.filter_congr fun e he => ?_)
  obtain ⟨name, recorded⟩ := e
  dsimp only
  rw [h name (List.mem_map_of_mem he)]

/-- **Whether there is anything new is seen by the entries it is asked of.** -/
theorem newContent_of_keeps {before after : Filesystem} (root : FilePath) (entries : Entries)
    (h : Leaves before after)
    (hkeeps : Keeps before after fun p => before.SeesContent root p entries) :
    after.newContent root entries = before.newContent root entries := by
  have hitself : Keeps before after (before.SeesItself root) := hkeeps.mono fun p => .inl
  have hsees : Keeps before after (before.Sees root) := hkeeps.mono fun p hp => .inr (.inl hp)
  have hunder : ∀ real, before.follow root = some real → Keeps before after (real <+: ·) :=
    fun real hfollow => hkeeps.mono fun p hp => .inr (.inr (.inl ⟨real, hfollow, hp⟩))
  have hnames : ∀ name ∈ entries.keys, after.stat (join root name) = before.stat (join root name) :=
    fun name hname => stat_of_keeps h <| hkeeps.mono fun p hp => .inr (.inr (.inr ⟨name, hname, hp⟩))
  have hkind : after.lstatKind root = before.lstatKind root := by
    rw [lstatKind, kindOf_of_keeps h hsees, lkindOf_of_keeps h hitself, lstatKind]
  rw [newContent, lstatAbsent_of_keeps h hitself, hkind, newContent]
  split
  · rfl
  · split
    · rfl
    · rfl
    · dsimp only
      rw [stat_of_keeps h hsees]
    · have hperm := under_perm h hsees hunder
      dsimp only
      rw [hperm.any_eq, hperm.countP_eq, unchanged_congr hnames]

end Gpuc.Host.Filesystem
