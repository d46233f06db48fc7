import Gpuc.Basis.Held
import Gpuc.Host.DiskUsage

/-!
# What deleting a tree gives back

A filesystem holds each directory, each inode once however many names it has, and each extent once
however many files have it (`used`). `reclaimable_bytes` finds what of it goes with a tree from that
tree alone: by the links found there and the links there are, and by what the kernel says of extents.
-/

set_option autoImplicit false

namespace Gpuc.Host.DiskUsage

open Gpuc.Basis

/-! ## Asking the kernel of one file -/

/-- A file's extents lie one behind the other, and only the last is marked as that. -/
structure Laid (extents : List Extent) : Prop where
  ordered : extents.Pairwise fun a b => a.logical + a.length ≤ b.logical ∧ a.last = false
  positive : ∀ extent ∈ extents, 0 < extent.length

instance (extents : List Extent) : Decidable (Laid extents) :=
  decidable_of_iff (extents.Pairwise (fun a b => a.logical + a.length ≤ b.logical ∧ a.last = false) ∧
      ∀ extent ∈ extents, 0 < extent.length) ⟨fun h => ⟨h.1, h.2⟩, fun h => ⟨h.ordered, h.positive⟩⟩

/-- The bytes of the extents that another file has too. -/
def sharedBytes (extents : List Extent) : Nat :=
  ((extents.filter Extent.shared).map Extent.length).sum

theorem sharedBytes_cons (extent : Extent) (extents : List Extent) :
    sharedBytes (extent :: extents) =
      (if extent.shared then extent.length else 0) + sharedBytes extents := by
  cases hshared : extent.shared <;> simp [sharedBytes, hshared]

theorem sharedBytes_append (read rest : List Extent) :
    sharedBytes (read ++ rest) = sharedBytes read + sharedBytes rest := by
  simp [sharedBytes]

theorem Laid.of_cons {extent : Extent} {extents : List Extent} (h : Laid (extent :: extents)) :
    Laid extents :=
  ⟨(List.pairwise_cons.mp h.ordered).2, fun e he => h.positive e (List.mem_cons_of_mem _ he)⟩

/-- What is known after one answer. -/
theorem reads_batch {batch : List Extent} (mapped : Mapped) (h : Laid batch)
    (hahead : ∀ extent ∈ batch, mapped.start ≤ extent.logical) :
    (batch.foldl Mapped.reads mapped).shared = mapped.shared + sharedBytes batch ∧
      ((batch.foldl Mapped.reads mapped).done = true →
        mapped.done = true ∨ ∃ extent ∈ batch, extent.last = true) ∧
      mapped.start ≤ (batch.foldl Mapped.reads mapped).start ∧
      (∀ extent ∈ batch, extent.logical + extent.length ≤ (batch.foldl Mapped.reads mapped).start) ∧
      ∀ limit, mapped.start ≤ limit → (∀ extent ∈ batch, extent.logical + extent.length ≤ limit) →
        (batch.foldl Mapped.reads mapped).start ≤ limit := by
  induction batch generalizing mapped with
  | nil => exact ⟨rfl, .inl, le_rfl, fun _ h => absurd h List.not_mem_nil, fun _ hle _ => hle⟩
  | cons extent batch ih =>
    have hstart := hahead extent List.mem_cons_self
    have hpositive := h.positive extent List.mem_cons_self
    have hordered := (List.pairwise_cons.mp h.ordered).1
    obtain ⟨hshared, hdone, hmono, hread, hlimit⟩ :=
      ih (mapped.reads extent) h.of_cons fun e he => (hordered e he).1
    rw [List.foldl_cons]
    refine ⟨?_, fun hd => ?_, ?_, fun e he => ?_, fun limit hle hall => ?_⟩
    · rw [hshared, sharedBytes_cons, ← Nat.add_assoc, Mapped.reads]
      split
      · rfl
      · rw [Nat.add_zero]
    · obtain hd | ⟨e, he, hlast⟩ := hdone hd
      · simp only [Mapped.reads, Bool.or_eq_true, decide_eq_true_eq] at hd
        obtain (hd | hd) | hd := hd
        · exact .inl hd
        · exact .inr ⟨extent, List.mem_cons_self, hd⟩
        · omega
      · exact .inr ⟨e, List.mem_cons_of_mem _ he, hlast⟩
    · exact le_trans (by simp only [Mapped.reads]; omega) hmono
    · obtain rfl | he := List.mem_cons.mp he
      · exact hmono
      · exact hread e he
    · exact hlimit limit (hall extent List.mem_cons_self) fun e he => hall e (List.mem_cons_of_mem _ he)

/-- The kernel goes on where it was left. -/
theorem fiemap_from {inode : Inode} {read rest : List Extent} {start : Nat}
    (hextents : inode.extents = read ++ rest) (hlaid : Laid inode.extents)
    (hread : ∀ extent ∈ read, extent.logical + extent.length ≤ start)
    (hrest : ∀ extent ∈ rest, start ≤ extent.logical) :
    inode.fiemap start = rest.take fiemapBatch := by
  have hnone : read.filter (fun extent => start < extent.logical + extent.length) = [] := by
    refine List.filter_eq_nil_iff.mpr fun extent hextent => ?_
    have := hread extent hextent
    simpa using this
  have hall : rest.filter (fun extent => start < extent.logical + extent.length) = rest := by
    refine List.filter_eq_self.mpr fun extent hextent => ?_
    have hstart := hrest extent hextent
    have hpositive := hlaid.positive extent (hextents ▸ List.mem_append_right read hextent)
    simp only [decide_eq_true_eq]
    omega
  rw [Inode.fiemap, hextents, List.filter_append, hnone, hall, List.nil_append]

/-- **So much of the sharing is found in so many rounds**: all of it in a file of no more extents than
these rounds answer, and never more. -/
theorem sharedFrom_fiemap {inode : Inode} (hlaid : Laid inode.extents) (rounds : Nat)
    (read rest : List Extent) (start shared : Nat) (hextents : inode.extents = read ++ rest)
    (hread : ∀ extent ∈ read, extent.logical + extent.length ≤ start)
    (hrest : ∀ extent ∈ rest, start ≤ extent.logical) :
    sharedFrom (fun start => some (inode.fiemap start)) rounds start shared =
      shared + sharedBytes (rest.take (fiemapBatch * rounds)) := by
  induction rounds generalizing read rest start shared with
  | zero => simp [sharedFrom, sharedBytes]
  | succ rounds ih =>
    have hbatch := fiemap_from hextents hlaid hread hrest
    obtain hnil | ⟨extent, extents, hcons⟩ :
        rest.take fiemapBatch = [] ∨ ∃ extent extents, rest.take fiemapBatch = extent :: extents := by
      cases rest.take fiemapBatch with
      | nil => exact .inl rfl
      | cons extent extents => exact .inr ⟨extent, extents, rfl⟩
    · obtain rfl : rest = [] := by
        cases rest with
        | nil => rfl
        | cons extent rest => cases hnil
      simp only [sharedFrom, hbatch]
      rfl
    · have hsub : Laid rest := by
        refine ⟨?_, fun e he => hlaid.positive e (hextents ▸ List.mem_append_right read he)⟩
        have hordered := hlaid.ordered
        rw [hextents] at hordered
        exact (List.pairwise_append.mp hordered).2.1
      have hsplit : rest.take fiemapBatch ++ rest.drop fiemapBatch = rest := List.take_append_drop _ _
      have hacross : ∀ e ∈ rest.take fiemapBatch, ∀ e' ∈ rest.drop fiemapBatch,
          e.logical + e.length ≤ e'.logical ∧ e.last = false := by
        have hordered := hsub.ordered
        rw [← hsplit] at hordered
        exact (List.pairwise_append.mp hordered).2.2
      have hlaidBatch : Laid (rest.take fiemapBatch) :=
        ⟨hsub.ordered.sublist (List.take_sublist _ _),
          fun e he => hsub.positive e (List.mem_of_mem_take he)⟩
      obtain ⟨hshared, hdone, hmono, hend, hlimit⟩ :=
        reads_batch ⟨shared, start, false⟩ hlaidBatch
          fun e he => hrest e (List.mem_of_mem_take he)
      have htake : rest.take (fiemapBatch * (rounds + 1)) =
          rest.take fiemapBatch ++ (rest.drop fiemapBatch).take (fiemapBatch * rounds) := by
        rw [Nat.mul_succ, Nat.add_comm, List.take_add]
      simp only [sharedFrom, hbatch, hcons]
      rw [← hcons, htake, sharedBytes_append]
      split
      · next h =>
        -- The last extent is in this answer, so that none is left.
        obtain hfalse | ⟨e, he, hlast⟩ := hdone h
        · cases hfalse
        · have hnone : rest.drop fiemapBatch = [] := by
            refine List.eq_nil_iff_forall_not_mem.mpr fun e' he' => ?_
            rw [(hacross e he e' he').2] at hlast
            cases hlast
          rw [hshared, hnone, List.take_nil]
          rfl
      · rw [ih (read ++ rest.take fiemapBatch) (rest.drop fiemapBatch) _ _, hshared,
          Nat.add_assoc]
        · rw [List.append_assoc, hsplit, hextents]
        · intro e he
          obtain he | he := List.mem_append.mp he
          · exact (hread e he).trans hmono
          · exact hend e he
        · exact fun e he => hlimit _ (hrest e (List.mem_of_mem_drop he)) fun e' he' => (hacross e' he' e he).1

variable {α : Type} {d : Disk α}

/-- **`shared_extent_bytes` is right** of a file that can be asked, and says that nothing is shared of
one that cannot. -/
theorem sharedExtentBytes_eq {path : FilePath} (hlaid : Laid (d.inodeAt path).extents)
    (hasked : sharedBytes (d.inodeAt path).extents ≠ 0 → d.opens path = true ∧ d.maps path = true ∧
      (d.inodeAt path).extents.length ≤ fiemapBatch * fiemapRounds) :
    d.sharedExtentBytes path = sharedBytes (d.inodeAt path).extents := by
  have hall := sharedFrom_fiemap hlaid fiemapRounds [] _ 0 0 (List.nil_append _).symm
    (fun _ h => absurd h List.not_mem_nil) fun _ _ => Nat.zero_le _
  rw [Nat.zero_add] at hall
  rw [Disk.sharedExtentBytes]
  by_cases hzero : sharedBytes (d.inodeAt path).extents = 0
  · have hle : sharedBytes ((d.inodeAt path).extents.take (fiemapBatch * fiemapRounds)) = 0 := by
      rw [← List.take_append_drop (fiemapBatch * fiemapRounds) (d.inodeAt path).extents,
        sharedBytes_append] at hzero
      omega
    rw [hzero]
    cases d.opens path with
    | false => rfl
    | true =>
      cases d.maps path with
      | false => rfl
      | true => exact hall.trans hle
  · obtain ⟨hopens, hmaps, hlength⟩ := hasked hzero
    simp only [hopens, hmaps, if_true]
    rw [hall, List.take_of_length_le hlength]

/-! ## What the walk comes by -/

namespace Disk

mutual
/-- The entries a walk of a tree comes by: not what is in a directory that cannot be listed, nor what
`lstat` says nothing of. -/
def seesIn (d : Disk α) (here : FilePath) : FileTree α → List (FilePath × Kind α)
  | .directory children => if d.lists here then d.seesOf here children else []
  | .file _ | .link _ _ => []
def seesOf (d : Disk α) (here : FilePath) : List (String × FileTree α) → List (FilePath × Kind α)
  | [] => []
  | (name, child) :: children =>
    if d.answers (here ++ [name]) then
      (here ++ [name], child.kind) :: (d.seesIn (here ++ [name]) child ++ d.seesOf here children)
    else d.seesOf here children
end

mutual
theorem seesIn_sublist (d : Disk α) (here : FilePath) :
    (tree : FileTree α) → (d.seesIn here tree).Sublist (tree.entries here)
  | .directory children => by
    rw [seesIn, FileTree.entries]
    split
    · exact seesOf_sublist d here children
    · exact List.nil_sublist _
  | .file _ | .link _ _ => List.nil_sublist _
theorem seesOf_sublist (d : Disk α) (here : FilePath) :
    (children : List (String × FileTree α)) →
      (d.seesOf here children).Sublist (FileTree.entriesOf here children)
  | [] => List.nil_sublist _
  | (name, child) :: children => by
    have hchild := seesIn_sublist d (here ++ [name]) child
    have hchildren := seesOf_sublist d here children
    rw [seesOf, FileTree.entriesOf]
    split
    · exact (hchild.append hchildren).cons_cons _
    · exact (List.nil_sublist _).append hchildren |>.cons _
end

mutual
theorem answers_of_seesIn (d : Disk α) (here : FilePath) :
    (tree : FileTree α) → ∀ entry ∈ d.seesIn here tree, d.answers entry.1 = true
  | .directory children, entry, h => by
    rw [seesIn] at h
    split at h
    · exact answers_of_seesOf d here children entry h
    · cases h
  | .file _, _, h | .link _ _, _, h => absurd h List.not_mem_nil
theorem answers_of_seesOf (d : Disk α) (here : FilePath) :
    (children : List (String × FileTree α)) → ∀ entry ∈ d.seesOf here children, d.answers entry.1 = true
  | [], _, h => absurd h List.not_mem_nil
  | (name, child) :: children, entry, h => by
    rw [seesOf] at h
    split at h
    · next hanswers =>
      obtain rfl | h := List.mem_cons.mp h
      · exact hanswers
      · obtain h | h := List.mem_append.mp h
        · exact answers_of_seesIn d (here ++ [name]) child entry h
        · exact answers_of_seesOf d here children entry h
    · exact answers_of_seesOf d here children entry h
end

/-- Every call under a tree is answered. -/
def Legible (d : Disk α) (root : FilePath) (tree : FileTree α) : Prop :=
  ∀ entry ∈ (root, tree.kind) :: tree.entries root, d.answers entry.1 = true ∧ d.lists entry.1 = true

mutual
theorem seesIn_eq (d : Disk α) (here : FilePath) : (tree : FileTree α) → d.Legible here tree →
    d.seesIn here tree = tree.entries here
  | .directory children, h => by
    rw [seesIn, FileTree.entries, if_pos (h _ List.mem_cons_self).2,
      seesOf_eq d here children fun entry hentry => h entry (List.mem_cons_of_mem _ hentry)]
  | .file _, _ | .link _ _, _ => rfl
theorem seesOf_eq (d : Disk α) (here : FilePath) : (children : List (String × FileTree α)) →
    (∀ entry ∈ FileTree.entriesOf here children, d.answers entry.1 = true ∧ d.lists entry.1 = true) →
    d.seesOf here children = FileTree.entriesOf here children
  | [], _ => rfl
  | (name, child) :: children, h => by
    rw [FileTree.entriesOf] at h
    have hchild : d.Legible (here ++ [name]) child := fun entry hentry => by
      obtain rfl | hentry := List.mem_cons.mp hentry
      · exact h _ List.mem_cons_self
      · exact h _ (List.mem_cons_of_mem _ (List.mem_append_left _ hentry))
    rw [seesOf, FileTree.entriesOf, if_pos (h _ List.mem_cons_self).1, seesIn_eq d _ child hchild,
      seesOf_eq d here children fun entry hentry =>
        h entry (List.mem_cons_of_mem _ (List.mem_append_right _ hentry))]
end

variable {reclaimableOnly : Bool} {late : Nat → Bool}

theorem note_of_not_answers {tally : Tally} {entry : FilePath × Kind α} (h : d.answers entry.1 = false) :
    d.note reclaimableOnly tally entry = tally := if_pos h

/-- What a directory is noted for, and then what is on the stack for it. -/
theorem perm_seesOf (here : FilePath) (children : List (String × FileTree α)) :
    (d.seesOf here children).Perm
      (((children.map fun child => (here ++ [child.1], child.2.kind)).filter fun entry => d.answers entry.1)
        ++ (d.descends here children).flatMap fun item => d.seesIn item.1 item.2) := by
  induction children with
  | nil => exact .nil
  | cons child children ih =>
    obtain ⟨name, child⟩ := child
    rw [seesOf, descends, List.map_cons, List.filter_cons, List.filterMap_cons]
    cases hanswers : d.answers (here ++ [name]) with
    | false => simpa [hanswers, descends] using ih
    | true =>
      have hrest := (ih.append_left (d.seesIn (here ++ [name]) child)).trans
        (List.perm_append_comm_assoc _ _ _)
      cases child with
      | file content => simpa [isDir, FileTree.kind, seesIn, descends] using hrest
      | link absolute target => simpa [isDir, FileTree.kind, seesIn, descends] using hrest
      | directory grandchildren => simpa [isDir, FileTree.kind, descends] using hrest

theorem foldl_note_filter (reclaimableOnly : Bool) (entries : List (FilePath × Kind α)) (tally : Tally) :
    entries.foldl (d.note reclaimableOnly) tally =
      (entries.filter fun entry => d.answers entry.1).foldl (d.note reclaimableOnly) tally := by
  induction entries generalizing tally with
  | nil => rfl
  | cons entry entries ih =>
    rw [List.filter_cons]
    cases hanswers : d.answers entry.1 with
    | false => rw [List.foldl_cons, note_of_not_answers hanswers, ih]; rfl
    | true => rw [List.foldl_cons, ih]; rfl

theorem walk_cons {looks : Nat} (h : late looks = false) {here : FilePath} {node : FileTree α}
    {stack : List (FilePath × FileTree α)} {tally : Tally} :
    d.walk reclaimableOnly late looks ((here, node) :: stack) tally =
      d.walk reclaimableOnly late (looks + 1) ((d.descends here (d.scandir here node)).reverse ++ stack)
        (((d.scandir here node).map fun child => (here ++ [child.1], child.2.kind)).foldl
          (d.note reclaimableOnly) tally) := by
  rw [walk, if_neg (by simp [h])]

variable (d reclaimableOnly) in
/-- **The walk notes each entry once**, in some order. -/
theorem walk_eq (looks : Nat) (stack : List (FilePath × FileTree α)) (tally : Tally) :
    ∃ entries : List (FilePath × Kind α),
      entries.Perm (stack.flatMap fun item => d.seesIn item.1 item.2) ∧
      d.walk reclaimableOnly (fun _ => false) looks stack tally =
        some (entries.foldl (d.note reclaimableOnly) tally) := by
  induction looks, stack, tally using walk.induct d reclaimableOnly (fun _ => false) with
  | case1 looks tally => exact ⟨[], .nil, by rw [walk]; rfl⟩
  | case2 looks here node stack tally hlate => cases hlate
  | case3 looks here node stack tally hlate children ih =>
    obtain ⟨entries, hperm, hwalk⟩ := ih
    refine ⟨((children.map fun child => (here ++ [child.1], child.2.kind)).filter fun entry =>
        d.answers entry.1) ++ entries, ?_, ?_⟩
    · rw [List.flatMap_append] at hperm
      have hnode : d.seesIn here node = d.seesOf here children := by
        cases node with
        | file | link => rfl
        | directory grandchildren =>
          rw [seesIn]
          show _ = d.seesOf here (d.scandir here (.directory grandchildren))
          rw [scandir]
          split <;> rfl
      rw [List.flatMap_cons, hnode]
      refine ((hperm.append_left _).trans ?_).trans ((perm_seesOf here children).symm.append_right _)
      rw [← List.append_assoc]
      exact ((List.Perm.flatMap_right _ (List.reverse_perm _)).append_left _).append_right _
    · rw [walk_cons rfl, List.foldl_append, ← foldl_note_filter]
      exact hwalk

variable (d reclaimableOnly late) in
/-- The deadline ends a walk or makes no difference to it. -/
theorem walk_late (looks : Nat) (stack : List (FilePath × FileTree α)) (tally : Tally) :
    d.walk reclaimableOnly late looks stack tally = none ∨
      d.walk reclaimableOnly late looks stack tally =
        d.walk reclaimableOnly (fun _ => false) looks stack tally := by
  induction looks, stack, tally using walk.induct d reclaimableOnly late with
  | case1 looks tally => exact .inr (by rw [walk, walk])
  | case2 looks here node stack tally hlate => exact .inl (by rw [walk, if_pos hlate])
  | case3 looks here node stack tally hlate children ih =>
    rw [walk_cons (Bool.not_eq_true _ ▸ hlate), walk_cons rfl]
    exact ih

/-! ## What the walk adds up -/

variable (d) in
/-- What of a file with no other name is counted. -/
def countedAlone (reclaimableOnly : Bool) (path : FilePath) : Nat :=
  let bytes := (d.inodeAt path).bytes
  bytes - min bytes
    (if reclaimableOnly && bytes != 0 && (d.inodeAt path).regular then d.sharedExtentBytes path else 0)

variable (d) in
/-- What is counted of an entry on sight. -/
def onSight (reclaimableOnly : Bool) (entry : FilePath × Kind α) : Nat :=
  if isDir entry.2 then (d.inodeAt entry.1).bytes
  else if (d.inodeAt entry.1).nlink ≤ 1 then d.countedAlone reclaimableOnly entry.1
  else 0

variable (d) in
/-- The inodes the names of files are names of. -/
def files (entries : List (FilePath × Kind α)) : List Key :=
  (entries.filter fun entry => !isDir entry.2).map fun entry => d.key entry.1

variable (d) in
/-- Those of files that have other names. -/
def linked (entries : List (FilePath × Kind α)) : List Key :=
  (d.files entries).filter fun key => 1 < (d.inode key).nlink

theorem linked_append (entries more : List (FilePath × Kind α)) :
    d.linked (entries ++ more) = d.linked entries ++ d.linked more := by
  simp [linked, files]

theorem linked_singleton (entry : FilePath × Kind α) :
    d.linked [entry] =
      if isDir entry.2 = false ∧ 1 < (d.inodeAt entry.1).nlink then [d.key entry.1] else [] := by
  cases hdir : isDir entry.2 with
  | true => simp [linked, files, hdir]
  | false =>
    by_cases hlinks : 1 < (d.inodeAt entry.1).nlink
    · rw [if_pos ⟨rfl, hlinks⟩]
      rw [inodeAt] at hlinks
      simp [linked, files, hdir, hlinks]
    · rw [if_neg fun h => hlinks h.2]
      rw [inodeAt] at hlinks
      simp [linked, files, hdir, hlinks]

/-- An entry counted on sight. -/
theorem note_onSight {tally : Tally} {entry : FilePath × Kind α} (hanswers : d.answers entry.1 = true)
    (h : ¬(isDir entry.2 = false ∧ 1 < (d.inodeAt entry.1).nlink)) :
    d.note reclaimableOnly tally entry =
      { tally with total := tally.total + d.onSight reclaimableOnly entry } := by
  cases hdir : isDir entry.2 with
  | true => simp [note, onSight, hanswers, hdir]
  | false =>
    have hlinks : (d.inodeAt entry.1).nlink ≤ 1 := Nat.le_of_not_lt fun hlt => h ⟨hdir, hlt⟩
    simp [note, onSight, countedAlone, hanswers, hdir, hlinks]

/-- What the walk knows of the inodes it has come by more than one name of. -/
theorem foldl_note_reclaimable {entries : List (FilePath × Kind α)}
    (h : ∀ entry ∈ entries, d.answers entry.1 = true) :
    (entries.foldl (d.note true) {}).total = (entries.map (d.onSight true)).sum ∧
      ∀ key, (entries.foldl (d.note true) {}).shared.get? key =
        if key ∈ d.linked entries then
          some ((d.inode key).bytes, (d.linked entries).count key, (d.inode key).nlink)
        else none := by
  induction entries using List.reverseRecOn with
  | nil => exact ⟨rfl, fun _ => rfl⟩
  | append_singleton entries entry ih =>
    obtain ⟨htotal, hshared⟩ := ih fun e he => h e (List.mem_append_left _ he)
    have hanswers := h entry (List.mem_append_right _ (List.mem_singleton_self _))
    rw [List.foldl_append, List.foldl_cons, List.foldl_nil, List.map_append, List.sum_append,
      linked_append, linked_singleton, ← htotal]
    by_cases hlinked : isDir entry.2 = false ∧ 1 < (d.inodeAt entry.1).nlink
    · rw [if_pos hlinked]
      obtain ⟨hdir, hlinks⟩ := hlinked
      refine ⟨?_, fun key => ?_⟩
      · simp [note, onSight, hanswers, hdir, Nat.not_le_of_lt hlinks]
      · simp only [note, hanswers, hdir, Nat.not_le_of_lt hlinks, Bool.true_eq_false, Bool.false_eq_true,
          if_false, Dict.get?_set, hshared, List.mem_append, List.mem_singleton, List.count_append]
        by_cases hkey : key = d.key entry.1
        · subst hkey
          by_cases hmem : d.key entry.1 ∈ d.linked entries
          · simp [hmem, inodeAt]
          · simp [hmem, inodeAt, List.count_eq_zero_of_not_mem hmem]
        · have hcount : [d.key entry.1].count key = 0 :=
            List.count_eq_zero_of_not_mem fun hmem => hkey (List.mem_singleton.mp hmem)
          simp [hkey, hcount]
    · rw [if_neg hlinked, note_onSight hanswers hlinked]
      exact ⟨by simp, fun key => by simpa using hshared key⟩

/-- And where each inode is counted once. -/
theorem foldl_note_all {entries : List (FilePath × Kind α)}
    (h : ∀ entry ∈ entries, d.answers entry.1 = true) :
    (entries.foldl (d.note false) {}).total = (entries.map (d.onSight false)).sum +
        ∑ key ∈ (d.linked entries).toFinset, (d.inode key).bytes ∧
      (entries.foldl (d.note false) {}).shared = Dict.empty ∧
      ∀ key, key ∈ (entries.foldl (d.note false) {}).seen ↔ key ∈ d.linked entries := by
  induction entries using List.reverseRecOn with
  | nil => exact ⟨rfl, rfl, fun _ => Iff.rfl⟩
  | append_singleton entries entry ih =>
    obtain ⟨htotal, hshared, hseen⟩ := ih fun e he => h e (List.mem_append_left _ he)
    have hanswers := h entry (List.mem_append_right _ (List.mem_singleton_self _))
    rw [List.foldl_append, List.foldl_cons, List.foldl_nil, List.map_append, List.sum_append,
      linked_append, linked_singleton]
    by_cases hlinked : isDir entry.2 = false ∧ 1 < (d.inodeAt entry.1).nlink
    · rw [if_pos hlinked]
      obtain ⟨hdir, hlinks⟩ := hlinked
      have hzero : d.onSight false entry = 0 := by simp [onSight, hdir, Nat.not_le_of_lt hlinks]
      by_cases hmem : d.key entry.1 ∈ d.linked entries
      · have hnote : d.note false (entries.foldl (d.note false) {}) entry =
            entries.foldl (d.note false) {} := by
          simp [note, hanswers, hdir, Nat.not_le_of_lt hlinks, (hseen _).mpr hmem]
        have hsame : (d.linked entries ++ [d.key entry.1]).toFinset = (d.linked entries).toFinset := by
          ext key
          simp only [List.mem_toFinset, List.mem_append, List.mem_singleton, or_iff_left_iff_imp]
          exact fun heq => heq ▸ hmem
        rw [hnote, hsame]
        refine ⟨by simp [htotal, hzero], hshared, fun key => ?_⟩
        rw [hseen, ← List.mem_toFinset, ← hsame, List.mem_toFinset]
      · have hnew : (d.linked entries ++ [d.key entry.1]).toFinset =
            insert (d.key entry.1) (d.linked entries).toFinset := by
          ext key
          simp [or_comm]
        rw [hnew, Finset.sum_insert (by simpa using hmem)]
        have hunseen : d.key entry.1 ∉ (entries.foldl (d.note false) {}).seen := by rwa [hseen]
        have hnote : d.note false (entries.foldl (d.note false) {}) entry =
            { entries.foldl (d.note false) {} with
              total := (entries.foldl (d.note false) {}).total + (d.inode (d.key entry.1)).bytes
              seen := d.key entry.1 :: (entries.foldl (d.note false) {}).seen } := by
          simp [note, hanswers, hdir, Nat.not_le_of_lt hlinks, hunseen]
          rfl
        rw [hnote]
        refine ⟨?_, hshared, fun key => ?_⟩
        · simp only [htotal, hzero, List.map_cons, List.map_nil, List.sum_cons, List.sum_nil]
          omega
        · simp [hseen, or_comm]
    · rw [if_neg hlinked, note_onSight hanswers hlinked, List.append_nil]
      refine ⟨?_, hshared, hseen⟩
      simp only [htotal, List.map_cons, List.map_nil, List.sum_cons, List.sum_nil]
      omega

/-! ## The figures -/

variable {root : FilePath} {node : FileTree α}

/-- What is added up over a dictionary is added up over its keys. -/
theorem sum_values {κ β : Type} [DecidableEq κ] (dict : Dict κ β) {f : β → Nat} {g : κ → Nat}
    (h : ∀ key value, dict.get? key = some value → f value = g key) :
    (dict.values.map f).sum = ∑ key ∈ dict.keys.toFinset, g key := by
  rw [List.sum_toFinset g dict.nodup_keys, Dict.values, Dict.keys, List.map_map, List.map_map]
  refine congrArg List.sum (List.map_congr_left fun entry hentry => ?_)
  exact h entry.1 entry.2 (Dict.get?_eq_some.mpr hentry)

variable (d root) in
/-- The root's own blocks. -/
def rootBytes : Nat := if d.answers root then (d.inodeAt root).bytes else 0

/-- The walk of a root that is there. -/
theorem walkSize_eq (hnode : d.tree.get root = some node) (reclaimableOnly : Bool) :
    ∃ entries : List (FilePath × Kind α), entries.Perm (d.seesIn root node) ∧
      d.walkSize root reclaimableOnly (fun _ => false) =
        some ((entries.foldl (d.note reclaimableOnly) {}).total
          + ((entries.foldl (d.note reclaimableOnly) {}).shared.values.map fun found =>
              if found.2.2 ≤ found.2.1 then found.1 else 0).sum
          + d.rootBytes root) := by
  obtain ⟨entries, hperm, hwalk⟩ := walk_eq d reclaimableOnly 0 [(root, node)] {}
  refine ⟨entries, by simpa using hperm, ?_⟩
  simp only [walkSize, hnode, hwalk, Option.map_some]
  rfl

/-- **What deleting a tree would give back**, as the code has it. -/
theorem reclaimableBytes_eq (hnode : d.tree.get root = some node) :
    d.reclaimableBytes root = ((d.seesIn root node).map (d.onSight true)).sum
      + (∑ key ∈ (d.linked (d.seesIn root node)).toFinset,
          if (d.inode key).nlink ≤ (d.linked (d.seesIn root node)).count key then (d.inode key).bytes else 0)
      + d.rootBytes root := by
  obtain ⟨entries, hperm, hsize⟩ := walkSize_eq hnode true
  obtain ⟨htotal, hshared⟩ := foldl_note_reclaimable fun entry hentry =>
    answers_of_seesIn d root node entry (hperm.mem_iff.mp hentry)
  have hlinked : (d.linked entries).Perm (d.linked (d.seesIn root node)) :=
    ((hperm.filter _).map _).filter _
  have hkeys : (entries.foldl (d.note true) {}).shared.keys.toFinset =
      (d.linked (d.seesIn root node)).toFinset := by
    ext key
    rw [List.mem_toFinset, List.mem_toFinset, Dict.mem_keys, hshared, ← hlinked.mem_iff]
    simp
  rw [reclaimableBytes, hsize, Option.getD_some, htotal, (hperm.map _).sum_eq,
    sum_values _ (g := fun key =>
      if (d.inode key).nlink ≤ (d.linked (d.seesIn root node)).count key then (d.inode key).bytes else 0),
    hkeys]
  intro key value hvalue
  rw [hshared] at hvalue
  obtain ⟨_, hvalue⟩ := Option.ite_none_right_eq_some.mp hvalue
  rw [← Option.some.inj hvalue, hlinked.count_eq]

/-- **What a tree takes on disk**, as the code has it. -/
theorem dirSize_eq (hnode : d.tree.get root = some node) :
    d.dirSize root = ((d.seesIn root node).map (d.onSight false)).sum
      + (∑ key ∈ (d.linked (d.seesIn root node)).toFinset, (d.inode key).bytes) + d.rootBytes root := by
  obtain ⟨entries, hperm, hsize⟩ := walkSize_eq hnode false
  obtain ⟨htotal, hshared, _⟩ := foldl_note_all fun entry hentry =>
    answers_of_seesIn d root node entry (hperm.mem_iff.mp hentry)
  have hlinked : (d.linked entries).Perm (d.linked (d.seesIn root node)) :=
    ((hperm.filter _).map _).filter _
  rw [dirSize, hsize, Option.getD_some, htotal, hshared, (hperm.map _).sum_eq,
    List.toFinset_eq_of_perm _ _ hlinked]
  rfl

theorem onSight_le (entry : FilePath × Kind α) : d.onSight true entry ≤ d.onSight false entry := by
  rw [onSight, onSight]
  split
  · exact le_rfl
  · split
    · simp only [countedAlone, Bool.false_and, Bool.false_eq_true, if_false, Nat.min_zero, Nat.sub_zero]
      exact Nat.sub_le _ _
    · exact le_rfl

/-- **No more is ever said to be given back than the tree takes.** -/
theorem reclaimableBytes_le_dirSize (hnode : d.tree.get root = some node) :
    d.reclaimableBytes root ≤ d.dirSize root := by
  rw [reclaimableBytes_eq hnode, dirSize_eq hnode]
  refine Nat.add_le_add_right (Nat.add_le_add ?_ (Finset.sum_le_sum fun key _ => ?_)) _
  · exact List.sum_le_sum fun entry _ => onSight_le entry
  · split
    · exact le_rfl
    · exact Nat.zero_le _

/-- **A deadline withholds the figure and never changes it.** -/
theorem dirSizeWithin_eq (hnode : d.tree.get root = some node) :
    d.dirSizeWithin root late = none ∨ d.dirSizeWithin root late = some (d.dirSize root) := by
  obtain ⟨entries, _, hsize⟩ := walkSize_eq hnode false
  refine (walk_late d false late 0 [(root, node)] {}).imp
    (fun hlate => ?_) fun hsame => ?_
  · simp only [dirSizeWithin, walkSize, hnode, hlate, Option.map_none]
  · rw [dirSize, hsize, Option.getD_some, ← hsize]
    simp only [dirSizeWithin, walkSize, hnode, hsame]

/-! ## Removing trees -/

end Disk

/-- The names there are. -/
def namesIn : Option (FileTree α) → List (FilePath × Kind α)
  | none => []
  | some tree => ([], tree.kind) :: tree.entries []

/-- Every name in a tree is gone that is or is under one of these. -/
def removed (roots : List FilePath) (tree : Option (FileTree α)) : Option (FileTree α) :=
  roots.foldl (fun tree root => tree.bind (FileTree.modify (fun _ => none) root)) tree

theorem mem_namesIn {tree : FileTree α} (h : tree.Proper) {path : FilePath} {kind : Kind α} :
    (path, kind) ∈ namesIn (some tree) ↔ tree.entry path = some kind := by
  rw [namesIn, List.mem_cons, FileTree.mem_entries h]
  constructor
  · rintro (heq | ⟨rest, _, rfl, hentry⟩)
    · obtain ⟨rfl, rfl⟩ := Prod.mk.inj heq
      rfl
    · exact hentry
  · intro hentry
    cases path with
    | nil => exact .inl (Prod.ext rfl (Option.some.inj hentry).symm)
    | cons name path => exact .inr ⟨name :: path, List.cons_ne_nil _ _, rfl, hentry⟩

theorem nodup_namesIn {tree : FileTree α} (h : tree.Proper) : (namesIn (some tree)).Nodup := by
  refine List.nodup_cons.mpr ⟨fun hmem => ?_, List.Nodup.of_map _ (FileTree.nodup_entries h [])⟩
  obtain ⟨rest, hrest, heq, _⟩ := (FileTree.mem_entries h).mp hmem
  exact hrest heq.symm

/-- What is gone with one root. -/
theorem perm_under {tree node : FileTree α} (h : tree.Proper) {root : FilePath}
    (hnode : tree.get root = some node) :
    ((namesIn (some tree)).filter fun entry => root.isPrefixOf entry.1).Perm
      ((root, node.kind) :: node.entries root) := by
  have hproper := h.of_get hnode
  have hnodup : ((root, node.kind) :: node.entries root).Nodup := by
    refine List.nodup_cons.mpr ⟨fun hmem => ?_, List.Nodup.of_map _ (FileTree.nodup_entries hproper root)⟩
    obtain ⟨rest, hrest, heq, _⟩ := (FileTree.mem_entries hproper).mp hmem
    exact hrest (List.self_eq_append_right.mp heq)
  refine (List.perm_ext_iff_of_nodup ((nodup_namesIn h).filter _) hnodup).mpr ?_
  rintro ⟨path, kind⟩
  rw [List.mem_filter, mem_namesIn h, List.mem_cons, FileTree.mem_entries hproper]
  constructor
  · rintro ⟨hentry, hunder⟩
    obtain ⟨rest, rfl⟩ := List.isPrefixOf_iff_prefix.mp hunder
    rw [FileTree.entry, FileTree.get_append hnode] at hentry
    cases rest with
    | nil =>
      rw [List.append_nil]
      exact .inl (Prod.ext rfl (Option.some.inj hentry).symm)
    | cons name rest => exact .inr ⟨name :: rest, List.cons_ne_nil _ _, rfl, hentry⟩
  · rintro (heq | ⟨rest, _, rfl, hentry⟩)
    · obtain ⟨rfl, rfl⟩ := Prod.mk.inj heq
      exact ⟨by rw [FileTree.entry, hnode]; rfl, List.isPrefixOf_iff_prefix.mpr List.prefix_rfl⟩
    · refine ⟨?_, List.isPrefixOf_iff_prefix.mpr (List.prefix_append _ _)⟩
      rw [FileTree.entry, FileTree.get_append hnode]
      exact hentry

theorem entryIn_removed {tree : FileTree α} (h : tree.Proper) (root path : FilePath) :
    FileTree.entryIn (tree.modify (fun _ => none) root) path =
      if root.isPrefixOf path then none else tree.entry path := by
  split
  · next hunder =>
    obtain ⟨rest, rfl⟩ := List.isPrefixOf_iff_prefix.mp hunder
    cases hnode : tree.get root with
    | none => exact FileTree.entryIn_modify_append_of_none h hnode rest
    | some node => exact FileTree.entryIn_modify_append h hnode rest
  · next hunder =>
    exact FileTree.entryIn_modify_of_not_prefix h (fun hprefixed =>
      hunder (List.isPrefixOf_iff_prefix.mpr hprefixed))

/-- **What is left is what is under none of the roots.** -/
theorem perm_removed {roots : List FilePath} {tree : Option (FileTree α)}
    (h : ∀ t, tree = some t → t.Proper) :
    (namesIn (removed roots tree)).Perm
      ((namesIn tree).filter fun entry => roots.all fun root => !root.isPrefixOf entry.1) := by
  induction roots generalizing tree with
  | nil => exact .of_eq (List.filter_eq_self.mpr fun _ _ => rfl).symm
  | cons root roots ih =>
    have hafter : ∀ t, tree.bind (FileTree.modify (fun _ => none) root) = some t → t.Proper := by
      intro t ht
      obtain ⟨before, rfl, hmodify⟩ := Option.bind_eq_some_iff.mp ht
      exact FileTree.Proper.modify (h before rfl) (fun _ _ _ hnone => by cases hnone) hmodify
    have hone : (namesIn (tree.bind (FileTree.modify (fun _ => none) root))).Perm
        ((namesIn tree).filter fun entry => !root.isPrefixOf entry.1) := by
      cases tree with
      | none => exact .nil
      | some tree =>
        have hproper := h tree rfl
        have hmem : ∀ path kind, (path, kind) ∈ namesIn (tree.modify (fun _ => none) root) ↔
            FileTree.entryIn (tree.modify (fun _ => none) root) path = some kind := by
          intro path kind
          cases hmodify : tree.modify (fun _ => none) root with
          | none => simp [namesIn, FileTree.entryIn]
          | some left => exact mem_namesIn (hafter left hmodify)
        refine (List.perm_ext_iff_of_nodup ?_ ((nodup_namesIn hproper).filter _)).mpr ?_
        · rw [Option.bind_some]
          cases hmodify : tree.modify (fun _ => none) root with
          | none => exact List.nodup_nil
          | some left => exact nodup_namesIn (hafter left hmodify)
        · rintro ⟨path, kind⟩
          rw [Option.bind_some, hmem, entryIn_removed hproper, List.mem_filter, mem_namesIn hproper]
          cases root.isPrefixOf path <;> simp
    rw [removed, List.foldl_cons]
    refine (ih hafter).trans ((hone.filter _).trans (.of_eq ?_))
    rw [List.filter_filter]
    refine List.filter_congr fun entry _ => ?_
    rw [List.all_cons, Bool.and_comm]

/-! ## What a filesystem holds -/

/-- An extent, for all the files that have it. -/
def Extent.here (extent : Extent) : Nat × Nat := (extent.physical, extent.length)

namespace Disk

variable (d) in
/-- The blocks of the directories among some names. -/
def directoryBytes (entries : List (FilePath × Kind α)) : Nat :=
  ((entries.filter fun entry => isDir entry.2).map fun entry => (d.inodeAt entry.1).bytes).sum

variable (d) in
/-- What an inode holds beside its extents. -/
def ownBytes (key : Key) : Nat := (d.inode key).bytes - ((d.inode key).extents.map Extent.length).sum

variable (d) in
/-- The extents of an inode. -/
def extentsOf (key : Key) : Multiset (Nat × Nat) := ((d.inode key).extents.map Extent.here : List _)

variable (d) in
/-- The extents some inodes refer to. -/
def pool (keys : Finset Key) : Multiset (Nat × Nat) := keys.val.bind d.extentsOf

variable (d) in
/-- **What is in use on the disk** for some names: each directory, each inode once, and each extent
once. -/
def used (entries : List (FilePath × Kind α)) : Nat :=
  d.directoryBytes entries + held d.ownBytes (d.files entries : Multiset Key)
    + held Prod.snd (d.pool (d.files entries : Multiset Key).toFinset)

variable (d) in
/-- The names on the disk. -/
def names : List (FilePath × Kind α) := namesIn (some d.tree)

variable (d) in
/-- The inodes they are names of, as often as that. -/
def inodes : Multiset Key := (d.files d.names : Multiset Key)

variable (d) in
/-- **A filesystem in order**: an inode's links are its names, an extent is marked as shared where it is,
and it is of a regular file, whose blocks hold it. -/
structure Sound : Prop where
  proper : d.tree.Proper
  counted : ∀ key ∈ d.inodes, (d.inode key).nlink = d.inodes.count key
  laid : ∀ key ∈ d.inodes, Laid (d.inode key).extents
  within : ∀ key ∈ d.inodes, ((d.inode key).extents.map Extent.length).sum ≤ (d.inode key).bytes
  regular : ∀ key ∈ d.inodes, (d.inode key).regular = false → (d.inode key).extents = []
  flagged : ∀ key ∈ d.inodes, ∀ extent ∈ (d.inode key).extents,
    extent.shared = true ↔ (d.pool d.inodes.toFinset).count extent.here ≠ 1

variable (d) in
/-- Where a file under the root shares extents, it has one name and can be asked of them all. -/
def Asked (root : FilePath) (node : FileTree α) : Prop :=
  ∀ entry ∈ node.entries root, isDir entry.2 = false → sharedBytes (d.inodeAt entry.1).extents ≠ 0 →
    (d.inodeAt entry.1).nlink ≤ 1 ∧ d.opens entry.1 = true ∧ d.maps entry.1 = true ∧
      (d.inodeAt entry.1).extents.length ≤ fiemapBatch * fiemapRounds

theorem files_perm {entries other : List (FilePath × Kind α)} (h : entries.Perm other) :
    (d.files entries).Perm (d.files other) := (h.filter _).map _

@[simp] theorem files_append (gone left : List (FilePath × Kind α)) :
    d.files (gone ++ left) = d.files gone ++ d.files left := by
  simp [files]

theorem used_perm {entries other : List (FilePath × Kind α)} (h : entries.Perm other) :
    d.used entries = d.used other := by
  have hfiles : (d.files entries : Multiset Key) = d.files other := Multiset.coe_eq_coe.mpr (files_perm h)
  rw [used, used, hfiles, directoryBytes, directoryBytes, ((h.filter _).map _).sum_eq]

theorem pool_union {some other : Finset Key} (h : Disjoint some other) :
    d.pool (some ∪ other) = d.pool some + d.pool other := by
  rw [← Finset.disjUnion_eq_union some other h, pool, Finset.disjUnion_val, Multiset.add_bind]
  rfl

variable (d) in
/-- The inodes that go with some of all names. -/
def gone (part all : List (FilePath × Kind α)) : Finset Key :=
  freed (d.files part : Multiset Key) (d.files all)

/-- **What is given back** when some names go: directories, inodes and extents. -/
theorem used_append (part left : List (FilePath × Kind α)) :
    d.used (part ++ left) = d.used left + (d.directoryBytes part
      + ∑ key ∈ d.gone part (part ++ left), d.ownBytes key
      + ∑ extent ∈ freed (d.pool (d.gone part (part ++ left)))
          (d.pool (d.files (part ++ left) : Multiset Key).toFinset), extent.2) := by
  have hfiles : (d.files (part ++ left) : Multiset Key) = (d.files part : Multiset Key) + d.files left := by
    rw [files_append, Multiset.coe_add]
  have hgone : d.gone part (part ++ left) =
      (d.files part : Multiset Key).toFinset \ (d.files left : Multiset Key).toFinset := by
    rw [gone, hfiles, freed_add]
  have hunion : (d.files (part ++ left) : Multiset Key).toFinset =
      d.gone part (part ++ left) ∪ (d.files left : Multiset Key).toFinset := by
    rw [hgone, hfiles, Multiset.toFinset_add, Finset.sdiff_union_self_eq_union]
  have hapart : Disjoint (d.gone part (part ++ left)) (d.files left : Multiset Key).toFinset :=
    hgone ▸ Finset.sdiff_disjoint
  have hpool := pool_union (d := d) hapart
  rw [used, hunion, hpool, held_add, used]
  rw [hfiles, held_add, ← hfiles, directoryBytes, List.filter_append, List.map_append, List.sum_append]
  simp only [directoryBytes, gone]
  omega

variable (d) in
/-- What an inode's extents hold that no other has. -/
def unsharedBytes (key : Key) : Nat :=
  (((d.inode key).extents.filter fun extent => !extent.shared).map Extent.length).sum

variable (d) in
/-- What goes with an inode as far as it can be told from that. -/
def gives (key : Key) : Nat := d.ownBytes key + d.unsharedBytes key

theorem sharedBytes_add_unshared (extents : List Extent) :
    sharedBytes extents + ((extents.filter fun extent => !extent.shared).map Extent.length).sum =
      (extents.map Extent.length).sum := by
  induction extents with
  | nil => rfl
  | cons extent extents ih =>
    rw [sharedBytes_cons]
    cases hshared : extent.shared
    all_goals
      simp [hshared]
      omega

theorem sum_unshared (h : d.Sound) {keys : Finset Key} (hkeys : keys ⊆ d.inodes.toFinset) :
    ∑ key ∈ keys, d.unsharedBytes key =
      ((lone (d.pool keys) (d.pool d.inodes.toFinset)).map Prod.snd).sum := by
  have hpool : d.pool keys = keys.val.bind d.extentsOf := rfl
  rw [lone, hpool, Multiset.filter_bind, Multiset.map_bind, Multiset.sum_bind]
  refine congrArg Multiset.sum (Multiset.map_congr rfl fun key hkey => ?_)
  have hmem : key ∈ d.inodes := Multiset.mem_toFinset.mp (hkeys hkey)
  rw [extentsOf, Multiset.filter_coe, Multiset.map_coe, Multiset.sum_coe, List.filter_map, List.map_map]
  have hfilter : (d.inode key).extents.filter (fun extent => !extent.shared) =
      (d.inode key).extents.filter
        ((fun extent => decide ((d.pool d.inodes.toFinset).count extent = 1)) ∘ Extent.here) := by
    refine List.filter_congr fun extent hextent => ?_
    have hflagged := h.flagged key hmem extent hextent
    cases hshared : extent.shared with
    | true => simpa [hshared] using hflagged
    | false => simpa [hshared] using hflagged
  rw [unsharedBytes, hfilter]
  rfl

/-! ## The figure and what it stands for -/

variable (d) in
/-- The inodes all whose links are among some names. -/
def wholly (entries : List (FilePath × Kind α)) : Finset Key :=
  (d.files entries).toFinset.filter fun key => (d.inode key).nlink ≤ (d.files entries).count key

theorem mem_wholly {entries : List (FilePath × Kind α)} {key : Key} :
    key ∈ d.wholly entries ↔
      key ∈ d.files entries ∧ (d.inode key).nlink ≤ (d.files entries).count key := by
  rw [wholly, Finset.mem_filter, List.mem_toFinset]

/-- A file's share of the figure is what it gives, where the kernel can be asked. -/
theorem countedAlone_eq (h : d.Sound) {path : FilePath} (hmem : d.key path ∈ d.inodes)
    (hasked : sharedBytes (d.inodeAt path).extents ≠ 0 → d.opens path = true ∧ d.maps path = true ∧
      (d.inodeAt path).extents.length ≤ fiemapBatch * fiemapRounds) :
    d.countedAlone true path = d.gives (d.key path) := by
  have hwithin : ((d.inodeAt path).extents.map Extent.length).sum ≤ (d.inodeAt path).bytes :=
    h.within _ hmem
  have hsplit := sharedBytes_add_unshared (d.inodeAt path).extents
  have hgives : d.gives (d.key path) =
      (d.inodeAt path).bytes - ((d.inodeAt path).extents.map Extent.length).sum
        + (((d.inodeAt path).extents.filter fun extent => !extent.shared).map Extent.length).sum := rfl
  rw [countedAlone, hgives, Bool.true_and]
  split
  · rw [sharedExtentBytes_eq (h.laid _ hmem) hasked]
    omega
  · next hask =>
    cases hregular : (d.inodeAt path).regular with
    | false =>
      have hnone : (d.inodeAt path).extents = [] := h.regular _ hmem hregular
      simp [hnone]
    | true =>
      have hzero : (d.inodeAt path).bytes = 0 := by simpa [hregular] using hask
      omega

/-- And where all its links go and nothing of it is shared. -/
theorem gives_of_unshared (h : d.Sound) {key : Key} (hmem : key ∈ d.inodes)
    (hshared : sharedBytes (d.inode key).extents = 0) :
    d.gives key = (d.inode key).bytes := by
  have hwithin := h.within key hmem
  have hsplit := sharedBytes_add_unshared (d.inode key).extents
  rw [gives, ownBytes, unsharedBytes]
  omega

/-- What is counted on sight, by what it is of. -/
theorem sum_onSight {reclaimableOnly : Bool} {entries : List (FilePath × Kind α)} (value : Key → Nat)
    (h : ∀ entry ∈ entries, isDir entry.2 = false → (d.inodeAt entry.1).nlink ≤ 1 →
      d.countedAlone reclaimableOnly entry.1 = value (d.key entry.1)) :
    (entries.map (d.onSight reclaimableOnly)).sum = d.directoryBytes entries +
      (((d.files entries).filter fun key => (d.inode key).nlink ≤ 1).map value).sum := by
  induction entries with
  | nil => rfl
  | cons entry entries ih =>
    have hrest := ih fun e he => h e (List.mem_cons_of_mem _ he)
    rw [List.map_cons, List.sum_cons, hrest]
    cases hdir : isDir entry.2 with
    | true =>
      simp [onSight, directoryBytes, files, hdir]
      omega
    | false =>
      by_cases hone : (d.inodeAt entry.1).nlink ≤ 1
      · have hvalue := h entry List.mem_cons_self hdir hone
        have hkey : (d.inode (d.key entry.1)).nlink ≤ 1 := hone
        simp [onSight, directoryBytes, files, hdir, hone, hkey, hvalue]
        omega
      · have hkey : ¬(d.inode (d.key entry.1)).nlink ≤ 1 := hone
        simp [onSight, directoryBytes, files, hdir, hone, hkey]

/-- Some of the names under a root. -/
structure Among (d : Disk α) (root : FilePath) (node : FileTree α) (entries : List (FilePath × Kind α)) :
    Prop where
  sublist : entries.Sublist (node.entries root)
  counted : ∀ key ∈ d.inodes, (d.inode key).nlink = d.inodes.count key
  below : (d.files (node.entries root) : Multiset Key) ≤ d.inodes

namespace Among
variable {root : FilePath} {node : FileTree α} {entries : List (FilePath × Kind α)}

theorem files_sublist (hs : d.Among root node entries) :
    (d.files entries).Sublist (d.files (node.entries root)) := (hs.sublist.filter _).map _

theorem mem_inodes (hs : d.Among root node entries) {key : Key} (h : key ∈ d.files entries) :
    key ∈ d.inodes :=
  Multiset.mem_of_le hs.below (Multiset.mem_coe.mpr (hs.files_sublist.subset h))

theorem count_le (hs : d.Among root node entries) (key : Key) :
    (d.files entries).count key ≤ d.inodes.count key := by
  have hle := Multiset.count_le_of_le key hs.below
  rw [Multiset.coe_count] at hle
  exact (hs.files_sublist.count_le key).trans hle

/-- A file with one name is come by once. -/
theorem nodup_single (hs : d.Among root node entries) :
    ((d.files entries).filter fun key => (d.inode key).nlink ≤ 1).Nodup := by
  refine List.nodup_iff_count_le_one.mpr fun key => ?_
  by_cases hmem : key ∈ (d.files entries).filter fun key => (d.inode key).nlink ≤ 1
  · obtain ⟨hfile, hone⟩ := List.mem_filter.mp hmem
    have hcount := hs.counted key (hs.mem_inodes hfile)
    rw [decide_eq_true_eq] at hone
    exact (((List.filter_sublist).count_le key).trans (hs.count_le key)).trans (hcount ▸ hone)
  · exact (List.count_eq_zero_of_not_mem hmem).le.trans (Nat.zero_le 1)

theorem wholly_subset (hs : d.Among root node entries) :
    d.wholly entries ⊆ freed (d.files (node.entries root) : Multiset Key) d.inodes := by
  intro key hkey
  obtain ⟨hfile, hlinks⟩ := mem_wholly.mp hkey
  rw [mem_freed, Multiset.mem_coe, Multiset.coe_count, ← hs.counted key (hs.mem_inodes hfile)]
  exact ⟨hs.files_sublist.subset hfile, hlinks.trans (hs.files_sublist.count_le key)⟩

/-- **The figure is what the files give all whose links are there.** -/
theorem sum_wholly (h : d.Sound) (hs : d.Among root node entries) (hasked : d.Asked root node) :
    (entries.map (d.onSight true)).sum + (∑ key ∈ (d.linked entries).toFinset,
        if (d.inode key).nlink ≤ (d.linked entries).count key then (d.inode key).bytes else 0) =
      d.directoryBytes entries + ∑ key ∈ d.wholly entries, d.gives key := by
  have hsingle : (d.wholly entries).filter (fun key => (d.inode key).nlink ≤ 1) =
      ((d.files entries).filter fun key => (d.inode key).nlink ≤ 1).toFinset := by
    ext key
    rw [Finset.mem_filter, mem_wholly, List.mem_toFinset, List.mem_filter, decide_eq_true_eq]
    refine ⟨fun hk => ⟨hk.1.1, hk.2⟩, fun hk => ⟨⟨hk.1, ?_⟩, hk.2⟩⟩
    exact hk.2.trans (List.count_pos_iff.mpr hk.1)
  have hlinked : ∀ key, 1 < (d.inode key).nlink →
      (d.linked entries).count key = (d.files entries).count key := fun key hkey =>
    List.count_filter (by simpa using hkey)
  have hmany : ∑ key ∈ (d.wholly entries).filter (fun key => ¬(d.inode key).nlink ≤ 1), d.gives key =
      ∑ key ∈ (d.linked entries).toFinset,
        if (d.inode key).nlink ≤ (d.linked entries).count key then (d.inode key).bytes else 0 := by
    rw [← Finset.sum_filter]
    have hsame : (d.wholly entries).filter (fun key => ¬(d.inode key).nlink ≤ 1) =
        (d.linked entries).toFinset.filter fun key =>
          (d.inode key).nlink ≤ (d.linked entries).count key := by
      ext key
      rw [Finset.mem_filter, Finset.mem_filter, mem_wholly, List.mem_toFinset, linked, List.mem_filter,
        decide_eq_true_eq, not_le]
      constructor
      · rintro ⟨⟨hfile, hle⟩, hlt⟩
        exact ⟨⟨hfile, hlt⟩, (hlinked key hlt).symm ▸ hle⟩
      · rintro ⟨⟨hfile, hlt⟩, hle⟩
        exact ⟨⟨hfile, hlinked key hlt ▸ hle⟩, hlt⟩
    rw [hsame]
    refine Finset.sum_congr rfl fun key hkey => ?_
    obtain ⟨hfile, hlt⟩ := List.mem_filter.mp (List.mem_toFinset.mp (Finset.mem_filter.mp hkey).1)
    refine gives_of_unshared h (hs.mem_inodes hfile) ?_
    obtain ⟨entry, hentry, rfl⟩ := List.mem_map.mp hfile
    obtain ⟨hentry, hdir⟩ := List.mem_filter.mp hentry
    by_contra hshared
    have hone := (hasked entry (hs.sublist.subset hentry) (by simpa using hdir) hshared).1
    exact absurd (of_decide_eq_true hlt) (Nat.not_lt_of_le hone)
  have hgives : ∀ entry ∈ entries, isDir entry.2 = false → (d.inodeAt entry.1).nlink ≤ 1 →
      d.countedAlone true entry.1 = d.gives (d.key entry.1) := fun entry hentry hdir _ =>
    countedAlone_eq h (hs.mem_inodes (List.mem_map_of_mem (List.mem_filter.mpr ⟨hentry, by simpa using hdir⟩)))
      fun hshared => (hasked entry (hs.sublist.subset hentry) hdir hshared).2
  rw [sum_onSight d.gives hgives, ← hmany, ← List.sum_toFinset d.gives hs.nodup_single, ← hsingle,
    Nat.add_assoc, Finset.sum_filter_add_sum_filter_not]

end Among

/-! ## What is given back -/

variable {root : FilePath}

variable (d) in
/-- The names that are a root or under it. -/
def under (root : FilePath) : List (FilePath × Kind α) :=
  d.names.filter fun entry => root.isPrefixOf entry.1

/-- The root itself is a directory among the names under it. -/
theorem under_root (h : d.Sound) {children : List (String × FileTree α)}
    (hnode : d.tree.get root = some (.directory children)) :
    (d.files (d.under root) : Multiset Key) = d.files (FileTree.entries root (.directory children)) ∧
      d.directoryBytes (d.under root) = (d.inodeAt root).bytes
        + d.directoryBytes (FileTree.entries root (.directory children)) := by
  have hunder : (d.under root).Perm
      ((root, .directory) :: FileTree.entries root (.directory children)) := perm_under h.proper hnode
  have hfiles := files_perm (d := d) hunder
  have hroot : d.files ((root, .directory) :: FileTree.entries root (.directory children)) =
      d.files (FileTree.entries root (.directory children)) := rfl
  exact ⟨Multiset.coe_eq_coe.mpr (hroot ▸ hfiles), ((hunder.filter _).map _).sum_eq⟩

/-- The walk of a directory, as it stands to the names there are. -/
theorem among_seesIn (h : d.Sound) {children : List (String × FileTree α)}
    (hnode : d.tree.get root = some (.directory children)) :
    d.Among root (.directory children) (d.seesIn root (.directory children)) where
  sublist := seesIn_sublist d root _
  counted := h.counted
  below := by
    rw [← (under_root h hnode).1]
    exact Multiset.coe_le.mpr ((List.filter_sublist.filter _).map _).subperm

/-- **The figure of one root**, by what is under it. -/
theorem reclaimableBytes_under (h : d.Sound) {children : List (String × FileTree α)}
    (hnode : d.tree.get root = some (.directory children)) (hasked : d.Asked root (.directory children)) :
    d.reclaimableBytes root ≤ d.directoryBytes (d.under root)
        + ∑ key ∈ d.gone (d.under root) d.names, d.gives key ∧
      (d.Legible root (.directory children) → d.reclaimableBytes root = d.directoryBytes (d.under root)
        + ∑ key ∈ d.gone (d.under root) d.names, d.gives key) := by
  have hs := among_seesIn h hnode
  obtain ⟨hfiles, hbytes⟩ := under_root h hnode
  have hgone : d.gone (d.under root) d.names =
      freed (d.files (FileTree.entries root (.directory children)) : Multiset Key) d.inodes := by
    rw [gone, hfiles]
    rfl
  have hsub : d.directoryBytes (d.seesIn root (.directory children)) ≤
      d.directoryBytes (FileTree.entries root (.directory children)) :=
    ((hs.sublist.filter _).map _).sum_le_sum fun _ _ => Nat.zero_le _
  have hroot : d.rootBytes root ≤ (d.inodeAt root).bytes := by
    rw [rootBytes]
    split
    · exact le_rfl
    · exact Nat.zero_le _
  have hsum : ∑ key ∈ d.wholly (d.seesIn root (.directory children)), d.gives key ≤
      ∑ key ∈ d.gone (d.under root) d.names, d.gives key :=
    hgone ▸ Finset.sum_le_sum_of_subset hs.wholly_subset
  rw [reclaimableBytes_eq hnode, hs.sum_wholly h hasked, hbytes]
  refine ⟨by omega, fun hlegible => ?_⟩
  have hsees := seesIn_eq d root _ hlegible
  have hall : d.wholly (FileTree.entries root (.directory children)) = d.gone (d.under root) d.names := by
    rw [hsees] at hs
    refine (hgone ▸ hs.wholly_subset).antisymm fun key hkey => ?_
    rw [hgone] at hkey
    obtain ⟨hmem, hle⟩ := mem_freed.mp hkey
    exact mem_wholly.mpr ⟨hmem, (hs.counted key (hs.mem_inodes hmem)).le.trans (by simpa using hle)⟩
  rw [hsees, hall, rootBytes, if_pos (hlegible _ List.mem_cons_self).1]
  omega

theorem pool_le {some whole : Finset Key} (h : some ⊆ whole) : d.pool some ≤ d.pool whole := by
  rw [← Finset.union_sdiff_of_subset h, pool_union Finset.disjoint_sdiff]
  exact Multiset.le_add_right _ _

theorem gone_subset {part all : List (FilePath × Kind α)} (h : part.Sublist all) :
    d.gone part all ⊆ (d.files all : Multiset Key).toFinset := by
  intro key hkey
  have hmem := Multiset.mem_coe.mp (mem_freed.mp hkey).1
  exact Multiset.mem_toFinset.mpr (Multiset.mem_coe.mpr (((h.filter _).map _).subset hmem))

/-- No root is under another. -/
def Apart (roots : List FilePath) : Prop :=
  roots.Pairwise fun root other => ¬root <+: other ∧ ¬other <+: root

variable (d) in
/-- The names that are under one of the roots. -/
def underAny (roots : List FilePath) : List (FilePath × Kind α) :=
  d.names.filter fun entry => roots.any fun root => root.isPrefixOf entry.1

/-- What is under roots that are apart is under one of them each. -/
theorem perm_underAny {roots : List FilePath} (h : Apart roots) :
    (d.underAny roots).Perm (roots.flatMap d.under) := by
  induction roots with
  | nil => exact .of_eq (List.filter_eq_nil_iff.mpr fun _ _ => Bool.false_ne_true)
  | cons root roots ih =>
    obtain ⟨hroot, hroots⟩ := List.pairwise_cons.mp h
    have hsplit := (List.filter_append_perm (fun entry => root.isPrefixOf entry.1)
      (d.underAny (root :: roots))).symm
    have hunder : (d.underAny (root :: roots)).filter (fun entry => root.isPrefixOf entry.1) =
        d.under root := by
      rw [underAny, List.filter_filter]
      refine List.filter_congr fun entry _ => ?_
      rw [List.any_cons]
      cases root.isPrefixOf entry.1 <;> rfl
    have hrest : (d.underAny (root :: roots)).filter (fun entry => !root.isPrefixOf entry.1) =
        d.underAny roots := by
      rw [underAny, List.filter_filter]
      refine List.filter_congr fun entry _ => ?_
      rw [List.any_cons]
      cases hprefixed : root.isPrefixOf entry.1 with
      | false => rfl
      | true =>
        -- Two roots that one name is under would be one under the other.
        symm
        refine List.any_eq_false.mpr fun other hother hunder => ?_
        obtain hle | hle := List.prefix_or_prefix_of_prefix
          (List.isPrefixOf_iff_prefix.mp hprefixed) (List.isPrefixOf_iff_prefix.mp hunder)
        · exact (hroot other hother).1 hle
        · exact (hroot other hother).2 hle
    rw [hunder, hrest] at hsplit
    exact hsplit.trans ((ih hroots).append_left _)

variable (d) in
/-- What the files under a root share, they share with a file that is not. -/
def SharesOutside (root : FilePath) : Prop :=
  ∀ entry ∈ d.under root, isDir entry.2 = false →
    ∀ extent ∈ (d.inodeAt entry.1).extents, extent.shared = true →
      ∃ other ∈ d.names, ¬root <+: other.1 ∧ isDir other.2 = false ∧
        extent.here ∈ d.extentsOf (d.key other.1)

variable (d) in
/-- **What the figures of some roots promise.** -/
structure Promises (roots : List FilePath) : Prop where
  /-- Together they promise no more than deleting them all gives back. -/
  neverMore : d.used (namesIn (removed roots (some d.tree))) + (roots.map d.reclaimableBytes).sum ≤
    d.used d.names
  /-- One promises what deleting it gives back, to the byte. -/
  exact : ∀ root tree, roots = [root] → d.tree.get root = some tree → d.Legible root tree →
    d.SharesOutside root →
    d.used (namesIn (removed [root] (some d.tree))) + d.reclaimableBytes root = d.used d.names
  /-- And never more than it takes, whoever else has it. -/
  withinDu : ∀ root ∈ roots, d.reclaimableBytes root ≤ d.dirSize root
  du : ∀ root ∈ roots, ∀ tree, d.tree.get root = some tree → d.Legible root tree →
    d.dirSize root = d.directoryBytes (d.under root)
      + held (fun key => (d.inode key).bytes) (d.files (d.under root) : Multiset Key)
  timed : ∀ root ∈ roots, ∀ late,
    d.dirSizeWithin root late = none ∨ d.dirSizeWithin root late = some (d.dirSize root)

/-- What some names give back, where they are all the names under some roots. -/
theorem used_names (part left : List (FilePath × Kind α)) (hnames : d.names.Perm (part ++ left)) :
    d.used d.names = d.used left + (d.directoryBytes part
      + ∑ key ∈ d.gone part d.names, d.ownBytes key
      + ∑ extent ∈ freed (d.pool (d.gone part d.names)) (d.pool d.inodes.toFinset), extent.2) := by
  have hfiles : (d.files (part ++ left) : Multiset Key) = d.files d.names :=
    Multiset.coe_eq_coe.mpr (files_perm hnames.symm)
  have happend := used_append (d := d) part left
  rw [gone, hfiles] at happend
  rw [used_perm hnames, happend]
  rfl

theorem neverMore (h : d.Sound) {roots : List FilePath} (hapart : Apart roots)
    (hroots : ∀ root ∈ roots, ∃ children, d.tree.get root = some (.directory children) ∧
      d.Asked root (.directory children)) :
    d.used (namesIn (removed roots (some d.tree))) + (roots.map d.reclaimableBytes).sum ≤
      d.used d.names := by
  have hleft : (namesIn (removed roots (some d.tree))).Perm
      (d.names.filter fun entry => !roots.any fun root => root.isPrefixOf entry.1) := by
    refine (perm_removed fun t ht => Option.some.inj ht ▸ h.proper).trans (.of_eq ?_)
    exact List.filter_congr fun entry _ => List.not_any_eq_all_not.symm
  have hnames : d.names.Perm (d.underAny roots ++
      d.names.filter fun entry => !roots.any fun root => root.isPrefixOf entry.1) :=
    (List.filter_append_perm _ _).symm
  have hparts := perm_underAny (d := d) hapart
  have hfigures : (roots.map d.reclaimableBytes).sum ≤ (roots.map fun root =>
      d.directoryBytes (d.under root) + ∑ key ∈ d.gone (d.under root) d.names, d.gives key).sum :=
    List.sum_le_sum fun root hroot => by
      obtain ⟨children, hnode, hasked⟩ := hroots root hroot
      exact (reclaimableBytes_under h hnode hasked).1
  have hfiles : (d.files (d.underAny roots) : Multiset Key) =
      (roots.map fun root => (d.files (d.under root) : Multiset Key)).sum := by
    rw [Multiset.coe_eq_coe.mpr (files_perm hparts)]
    clear hparts hfigures hroots hleft hnames hapart
    induction roots with
    | nil => rfl
    | cons root roots ih => rw [List.flatMap_cons, files_append, List.map_cons, List.sum_cons, ← ih,
        Multiset.coe_add]
  have hdirectories : d.directoryBytes (d.underAny roots) =
      (roots.map fun root => d.directoryBytes (d.under root)).sum := by
    rw [directoryBytes, ((hparts.filter _).map _).sum_eq]
    clear hparts hfigures hroots hleft hnames hapart hfiles
    induction roots with
    | nil => rfl
    | cons root roots ih => rw [List.flatMap_cons, List.filter_append, List.map_append, List.sum_append,
        List.map_cons, List.sum_cons, ← ih, directoryBytes]
  have hgone : (roots.map fun root => ∑ key ∈ d.gone (d.under root) d.names, d.gives key).sum ≤
      ∑ key ∈ d.gone (d.underAny roots) d.names, d.gives key := by
    have hle : (roots.map fun root => (d.files (d.under root) : Multiset Key)).sum ≤ d.inodes := by
      rw [← hfiles]
      exact Multiset.coe_le.mpr ((List.filter_sublist.filter _).map _).subperm
    have hsum := sum_freed_le d.gives hle
    rw [List.map_map, ← hfiles] at hsum
    exact hsum
  have hsub : d.gone (d.underAny roots) d.names ⊆ d.inodes.toFinset := gone_subset List.filter_sublist
  have hlone := lone_le_freed Prod.snd (pool_le (d := d) hsub)
  have hgives : ∑ key ∈ d.gone (d.underAny roots) d.names, d.gives key =
      ∑ key ∈ d.gone (d.underAny roots) d.names, d.ownBytes key
        + ((lone (d.pool (d.gone (d.underAny roots) d.names)) (d.pool d.inodes.toFinset)).map Prod.snd).sum := by
    rw [← sum_unshared h hsub, ← Finset.sum_add_distrib]
    rfl
  rw [List.sum_map_add] at hfigures
  rw [used_perm hleft, used_names _ _ hnames, hdirectories]
  omega

/-- **One root's figure is exact.** -/
theorem exact_of_outside (h : d.Sound) {children : List (String × FileTree α)}
    (hnode : d.tree.get root = some (.directory children)) (hasked : d.Asked root (.directory children))
    (hlegible : d.Legible root (.directory children)) (hshares : d.SharesOutside root) :
    d.used (namesIn (removed [root] (some d.tree))) + d.reclaimableBytes root = d.used d.names := by
  have hleft : (namesIn (removed [root] (some d.tree))).Perm
      (d.names.filter fun entry => !root.isPrefixOf entry.1) := by
    refine (perm_removed fun t ht => Option.some.inj ht ▸ h.proper).trans (.of_eq ?_)
    exact List.filter_congr fun entry _ => Bool.and_true _
  have hnames : d.names.Perm (d.under root ++ d.names.filter fun entry => !root.isPrefixOf entry.1) :=
    (List.filter_append_perm _ _).symm
  have hsub : d.gone (d.under root) d.names ⊆ d.inodes.toFinset := gone_subset List.filter_sublist
  have hpool : d.pool d.inodes.toFinset = d.pool (d.gone (d.under root) d.names)
      + d.pool (d.inodes.toFinset \ d.gone (d.under root) d.names) := by
    rw [← pool_union Finset.disjoint_sdiff, Finset.union_sdiff_of_subset hsub]
  have hfiles : (d.files d.names : Multiset Key) = (d.files (d.under root) : Multiset Key)
      + d.files (d.names.filter fun entry => !root.isPrefixOf entry.1) := by
    rw [Multiset.coe_eq_coe.mpr (files_perm hnames), files_append, Multiset.coe_add]
  have hstays : ∀ extent ∈ d.pool (d.gone (d.under root) d.names),
      (d.pool d.inodes.toFinset).count extent ≠ 1 →
      extent ∈ d.pool (d.inodes.toFinset \ d.gone (d.under root) d.names) := by
    intro here hhere hcount
    obtain ⟨key, hkey, hmem⟩ := Multiset.mem_bind.mp hhere
    obtain ⟨extent, hextent, rfl⟩ := List.mem_map.mp (Multiset.mem_coe.mp hmem)
    have hshared := (h.flagged key (Multiset.mem_toFinset.mp (hsub hkey)) extent hextent).mpr hcount
    obtain ⟨entry, hentry, rfl⟩ := List.mem_map.mp (Multiset.mem_coe.mp (mem_freed.mp hkey).1)
    obtain ⟨hentry, hdir⟩ := List.mem_filter.mp hentry
    obtain ⟨other, hother, hout, hotherDir, hhas⟩ :=
      hshares entry hentry (by simpa using hdir) extent hextent hshared
    have hleftKey : d.key other.1 ∈ d.files (d.names.filter fun entry => !root.isPrefixOf entry.1) := by
      refine List.mem_map.mpr ⟨other, List.mem_filter.mpr
        ⟨List.mem_filter.mpr ⟨hother, ?_⟩, by simpa using hotherDir⟩, rfl⟩
      rw [Bool.not_eq_true', ← Bool.not_eq_true, List.isPrefixOf_iff_prefix]
      exact hout
    refine Multiset.mem_bind.mpr
      ⟨d.key other.1, Finset.mem_val.mpr (Finset.mem_sdiff.mpr ⟨?_, fun hgone => ?_⟩), hhas⟩
    · rw [Multiset.mem_toFinset, inodes, hfiles]
      exact Multiset.mem_add.mpr (.inr hleftKey)
    · rw [gone, hfiles] at hgone
      exact (mem_freed_add.mp hgone).2 hleftKey
  rw [hpool] at hstays
  have hlone := lone_eq_freed Prod.snd hstays
  rw [← hpool, ← sum_unshared h hsub] at hlone
  have hgives : ∑ key ∈ d.gone (d.under root) d.names, d.gives key =
      ∑ key ∈ d.gone (d.under root) d.names, d.ownBytes key
        + ∑ key ∈ d.gone (d.under root) d.names, d.unsharedBytes key := Finset.sum_add_distrib
  rw [used_perm hleft, used_names _ _ hnames, (reclaimableBytes_under h hnode hasked).2 hlegible]
  omega

/-- **`dir_size` is what `du` prints**: each inode once. -/
theorem dirSize_du (h : d.Sound) {children : List (String × FileTree α)}
    (hnode : d.tree.get root = some (.directory children))
    (hlegible : d.Legible root (.directory children)) :
    d.dirSize root = d.directoryBytes (d.under root)
      + held (fun key => (d.inode key).bytes) (d.files (d.under root) : Multiset Key) := by
  have hs := among_seesIn h hnode
  have hunder := under_root h hnode
  have hvalue : ∀ entry ∈ d.seesIn root (.directory children), isDir entry.2 = false →
      (d.inodeAt entry.1).nlink ≤ 1 →
      d.countedAlone false entry.1 = (d.inode (d.key entry.1)).bytes := by
    intro entry _ _ _
    simp only [countedAlone, Bool.false_and, Bool.false_eq_true, if_false, Nat.min_zero, Nat.sub_zero]
    rfl
  have hsingle := List.sum_toFinset (fun key => (d.inode key).bytes) hs.nodup_single
  have hsplit := Finset.sum_filter_add_sum_filter_not
    (d.files (d.seesIn root (.directory children))).toFinset (fun key => (d.inode key).nlink ≤ 1)
    fun key => (d.inode key).bytes
  have hfew : (d.files (d.seesIn root (.directory children))).toFinset.filter
      (fun key => (d.inode key).nlink ≤ 1) =
      ((d.files (d.seesIn root (.directory children))).filter fun key => (d.inode key).nlink ≤ 1).toFinset := by
    ext key
    simp
  have hmany : (d.files (d.seesIn root (.directory children))).toFinset.filter
      (fun key => ¬(d.inode key).nlink ≤ 1) = (d.linked (d.seesIn root (.directory children))).toFinset := by
    ext key
    simp [linked]
  have hheld : held (fun key => (d.inode key).bytes) (d.files (d.under root) : Multiset Key) =
      ∑ key ∈ (d.files (d.seesIn root (.directory children))).toFinset, (d.inode key).bytes := by
    rw [held, hunder.1, seesIn_eq d root _ hlegible]
    rfl
  rw [hfew, hmany] at hsplit
  rw [dirSize_eq hnode, sum_onSight (fun key => (d.inode key).bytes) hvalue, hheld, hunder.2, ← hsplit,
    hsingle, rootBytes, if_pos (hlegible _ List.mem_cons_self).1, seesIn_eq d root _ hlegible]
  omega

end Disk

/-- A cache, and two workdirs made from it: a file of one has a second name in the cache, and one of the
other shares an extent with a file there. -/
def shares : Disk Unit where
  tree := .directory
    [("cache", .directory [("wheel", .file ()), ("index", .file ())]),
      ("one", .directory [("wheel", .file ()), ("log", .file ())]),
      ("two", .directory [("index", .file ())])]
  key path := ⟨1, if path.getLast? = some "wheel" then 1
    else if path = ["cache", "index"] then 2
    else if path = ["two", "index"] then 3
    else if path = ["one", "log"] then 4
    else 5 + path.length⟩
  inode key := match key.ino with
    | 1 => ⟨2, 8, true, [⟨0, 0, 4096, false, true⟩]⟩
    | 2 => ⟨1, 16, true, [⟨0, 4096, 4096, true, false⟩, ⟨4096, 8192, 4096, false, true⟩]⟩
    | 3 => ⟨1, 16, true, [⟨0, 4096, 4096, true, false⟩, ⟨4096, 12288, 4096, false, true⟩]⟩
    | 4 => ⟨1, 8, true, [⟨0, 16384, 4096, false, true⟩]⟩
    | _ => ⟨2, 8, false, []⟩
  answers _ := true
  lists _ := true
  opens _ := true
  maps _ := true

theorem shares_sound : shares.Sound where
  proper := by simp [shares]
  counted := by decide
  laid := by decide
  within := by decide
  regular := by decide
  flagged := by decide

end Gpuc.Host.DiskUsage
