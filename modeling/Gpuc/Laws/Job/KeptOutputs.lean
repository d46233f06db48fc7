import Gpuc.Host.Cleanup

/-!
# What a sweep leaves of the kept outputs

What stays of the workdir is read off the paths alone (`Stays`): what is on the way to a kept path, and
what is inside one (`entry_removeTree`). A kept output is still there when everything that its own
resolution looks up stays, and a link on the way that is neither on the way to its name nor to where it
ends is not among that: `keepsOutputs_iff`.
-/

set_option autoImplicit false

namespace Gpuc.Host.Cleanup

open Gpuc.Basis Gpuc.Basis.FileTree

variable {α : Type} {keep : List FilePath}

/-! ## What stays -/

def isFile : Kind α → Bool
  | .file _ => true
  | .link _ _ | .directory => false

/-- A path is inside a kept one that is no higher than the child, or it leads to a kept one. -/
def StaysFrom (keep : List FilePath) (child path : FilePath) (kind : Kind α) : Prop :=
  (∃ k ∈ keep, child <+: k ∧ k <+: path) ∨ (isFile kind = false ∧ ∃ k ∈ keep, path <+: k)

instance (child path : FilePath) (kind : Kind α) : Decidable (StaysFrom keep child path kind) :=
  inferInstanceAs (Decidable (_ ∨ _))

theorem leadsToKept_iff {child : FilePath} :
    leadsToKept keep child = true ↔ ∃ k ∈ keep, child <+: k := by
  simp [leadsToKept]

theorem staysFrom_of_mem {child path : FilePath} {kind : Kind α} (h : child ∈ keep)
    (hpath : child <+: path) : StaysFrom keep child path kind :=
  .inl ⟨child, h, List.prefix_rfl, hpath⟩

/-- What stays is on the way to a kept path, or behind the start of one. -/
theorem StaysFrom.leads {child path : FilePath} {kind : Kind α} (h : StaysFrom keep child path kind)
    (hpath : child <+: path) : leadsToKept keep child = true := by
  rw [leadsToKept_iff]
  rcases h with ⟨k, hk, hchild, -⟩ | ⟨-, k, hk, hunder⟩
  · exact ⟨k, hk, hchild⟩
  · exact ⟨k, hk, hpath.trans hunder⟩

/-- A directory that is not kept itself stays as its children do. -/
theorem staysFrom_child {child path : FilePath} {name : String} {kind : Kind α} (h : child ∉ keep)
    (hpath : child ++ [name] <+: path) :
    StaysFrom keep child path kind ↔ StaysFrom keep (child ++ [name]) path kind := by
  refine or_congr_left (exists_congr fun k => and_congr_right fun hk => ?_)
  constructor
  · rintro ⟨hchild, hunder⟩
    refine ⟨?_, hunder⟩
    refine List.prefix_of_prefix_length_le hpath hunder ?_
    have hne : k ≠ child := fun heq => h (heq ▸ hk)
    have hlt : child.length < k.length :=
      lt_of_le_of_ne hchild.length_le fun heq => hne (hchild.eq_of_length heq).symm
    rw [List.length_append]
    exact hlt
  · rintro ⟨hchild, hunder⟩
    exact ⟨(List.prefix_append child [name]).trans hchild, hunder⟩

/-- What is kept whole stays as it is. -/
theorem filter_staysFrom_of_mem {child : FilePath} (h : child ∈ keep) (below : FilePath)
    (entry : Option (Kind α)) :
    entry = entry.filter fun kind => StaysFrom keep child (child ++ below) kind := by
  cases entry with
  | none => rfl
  | some kind =>
    have hstays : StaysFrom keep child (child ++ below) kind :=
      staysFrom_of_mem h (List.prefix_append child below)
    rw [Option.filter_some, if_pos (decide_eq_true hstays)]

/-- A link or a directory that leads to a kept path stays. -/
theorem filter_staysFrom_of_leads {child : FilePath} {kind : Kind α}
    (h : leadsToKept keep child = true) (hkind : isFile kind = false) :
    some kind = (some kind).filter fun kind => StaysFrom keep child (child ++ []) kind := by
  have hstays : StaysFrom keep child (child ++ []) kind := by
    rw [List.append_nil]
    exact .inr ⟨hkind, leadsToKept_iff.mp h⟩
  rw [Option.filter_some, if_pos (decide_eq_true hstays)]

/-- What leads to no kept path goes, with everything under it. -/
theorem filter_staysFrom_of_not_leads {child : FilePath} (h : ¬ leadsToKept keep child = true)
    (below : FilePath) (entry : Option (Kind α)) :
    none = entry.filter fun kind => StaysFrom keep child (child ++ below) kind := by
  cases entry with
  | none => rfl
  | some kind =>
    have hgoes : ¬ StaysFrom keep child (child ++ below) kind :=
      fun hstays => h (hstays.leads (List.prefix_append child below))
    rw [Option.filter_some, if_neg (by simpa using hgoes)]

/-- **What is left of a child.** -/
theorem entryIn_leaveChild {tree : FileTree α} (h : tree.Proper) (child below : FilePath) :
    entryIn (leaveChild keep child tree) below =
      (tree.entry below).filter fun kind => StaysFrom keep child (child ++ below) kind := by
  induction h generalizing child below with
  | file content =>
    rw [leaveChild]
    split
    · next hkept => exact filter_staysFrom_of_mem hkept below _
    · next hout =>
      cases below with
      | cons => rfl
      | nil =>
        have hgoes : ¬ StaysFrom keep child (child ++ []) (Kind.file content) := by
          rintro (⟨k, hk, hchild, hunder⟩ | ⟨hfile, -⟩)
          · rw [List.append_nil] at hunder
            exact hout (hchild.eq_of_length (hchild.length_le.antisymm hunder.length_le) ▸ hk)
          · cases hfile
        show none = Option.filter _ (some (Kind.file content))
        rw [Option.filter_some, if_neg (by simpa using hgoes)]
  | link absolute target =>
    rw [leaveChild]
    split
    · next hkept => exact filter_staysFrom_of_mem hkept below _
    · split
      · next hleads =>
        cases below with
        | cons => rfl
        | nil => exact filter_staysFrom_of_leads hleads rfl
      · next hleads => exact filter_staysFrom_of_not_leads hleads below _
  | directory hnames hchildren ih =>
    rw [leaveChild]
    split
    · next hkept => exact filter_staysFrom_of_mem hkept below _
    · next hout =>
      split
      · next hleads =>
        cases below with
        | nil => exact filter_staysFrom_of_leads hleads rfl
        | cons name rest =>
          show entry (.directory (removeAround keep child _)) (name :: rest) = _
          rw [removeAround_eq, entry_cons, entry_cons, lookup_mapChildren hnames]
          rename_i children
          cases hlookup : children.lookup name with
          | none => rfl
          | some tree =>
            have hget : Dict.get? ⟨children, hnames⟩ name = some tree := hlookup
            show entryIn (leaveChild keep (child ++ [name]) tree) rest = (tree.entry rest).filter _
            rw [ih (name, tree) (Dict.get?_eq_some.mp hget)]
            refine congrArg (fun p => Option.filter p _) (funext fun kind => ?_)
            rw [List.append_assoc, List.singleton_append]
            have hpath : child ++ [name] <+: child ++ name :: rest :=
              (List.prefix_append_right_inj child).mpr (List.prefix_append [name] rest)
            exact decide_eq_decide.mpr (staysFrom_child hout hpath).symm
      · next hleads => exact filter_staysFrom_of_not_leads hleads below _

/-- The path is below the directory. -/
def Below (root path : FilePath) : Prop := root <+: path ∧ root ≠ path

/-- **What stays of the workdir**: what is inside a kept path, and every link and directory that leads
to one. -/
def Stays (keep : List FilePath) (root path : FilePath) (kind : Kind α) : Prop :=
  (∃ k ∈ keep, Below root k ∧ k <+: path) ∨ (isFile kind = false ∧ ∃ k ∈ keep, path <+: k)

instance (root path : FilePath) : Decidable (Below root path) := inferInstanceAs (Decidable (_ ∧ _))

instance (root path : FilePath) (kind : Kind α) : Decidable (Stays keep root path kind) :=
  inferInstanceAs (Decidable (_ ∨ _))

section Tree
variable {root path : FilePath}

theorem below_iff : Below root path ↔ ∃ name rest, path = root ++ name :: rest := by
  constructor
  · rintro ⟨⟨rest, rfl⟩, hne⟩
    cases rest with
    | nil => exact absurd (List.append_nil root).symm hne
    | cons name rest => exact ⟨name, rest, rfl⟩
  · rintro ⟨name, rest, rfl⟩
    exact ⟨List.prefix_append _ _, fun h => by simp at h⟩

theorem staysFrom_first {name : String} {rest : FilePath} {kind : Kind α} :
    StaysFrom keep (root ++ [name]) (root ++ name :: rest) kind ↔
      Stays keep root (root ++ name :: rest) kind := by
  refine or_congr_left (exists_congr fun k => and_congr_right fun _ => and_congr_left fun hunder => ?_)
  have hfirst : root ++ [name] <+: root ++ name :: rest :=
    (List.prefix_append_right_inj root).mpr (List.prefix_append [name] rest)
  constructor
  · intro h
    refine ⟨(List.prefix_append root [name]).trans h, fun heq => ?_⟩
    have hlength := h.length_le
    rw [← heq, List.length_append, List.length_singleton] at hlength
    omega
  · rintro ⟨hroot, hne⟩
    refine List.prefix_of_prefix_length_le hfirst hunder ?_
    have hlt : root.length < k.length :=
      lt_of_le_of_ne hroot.length_le fun heq => hne (hroot.eq_of_length heq)
    rw [List.length_append]
    exact hlt

/-- What is left of the workdir. -/
theorem entryIn_sweep {children : List (String × FileTree α)}
    (h : Proper (.directory children)) (name : String) (rest : FilePath) :
    entryIn (sweep keep root (.directory children)) (name :: rest) =
      (entry (.directory children) (name :: rest)).filter fun kind =>
        Stays keep root (root ++ name :: rest) kind := by
  cases h with
  | directory hnames hchildren =>
    show entry (.directory (removeAround keep root children)) (name :: rest) = _
    rw [removeAround_eq, entry_cons, entry_cons, lookup_mapChildren hnames]
    cases hlookup : children.lookup name with
    | none => rfl
    | some tree =>
      have hget : Dict.get? ⟨children, hnames⟩ name = some tree := hlookup
      show entryIn (leaveChild keep (root ++ [name]) tree) rest = (tree.entry rest).filter _
      rw [entryIn_leaveChild (hchildren (name, tree) (Dict.get?_eq_some.mp hget))]
      refine congrArg (fun p => Option.filter p _) (funext fun kind => ?_)
      rw [List.append_assoc, List.singleton_append]
      exact decide_eq_decide.mpr staysFrom_first

theorem get_of_isDir {tree : FileTree α} (h : isDir tree root = true) :
    ∃ children, tree.get root = some (.directory children) := by
  unfold isDir entry at h
  cases hget : tree.get root with
  | none =>
    rw [hget] at h
    cases h
  | some node =>
    rw [hget] at h
    cases node with
    | directory children => exact ⟨children, rfl⟩
    | file | link => cases h

variable {steps : Nat} {kept : List String} {tree : FileTree α}

/-- Outside the workdir nothing is touched. -/
theorem entryIn_removeTree_of_not_prefix (h : tree.Proper) (hpath : ¬ root <+: path) :
    entryIn (removeTree steps tree root kept) path = tree.entry path := by
  unfold removeTree
  dsimp only
  split
  · split
    · exact entryIn_modify_of_not_prefix h hpath
    · exact entryIn_modify_of_not_prefix h hpath
  · rfl

/-- **What a sweep around the kept paths leaves.** -/
theorem entryIn_removeTree (h : tree.Proper) (hdir : isDir tree root = true)
    (hkeep : keptPaths steps tree root kept ≠ []) :
    entryIn (removeTree steps tree root kept) path =
      if Below root path then
        (tree.entry path).filter fun kind =>
          Stays (keptPaths steps tree root kept) root path kind
      else tree.entry path := by
  obtain ⟨children, hget⟩ := get_of_isDir hdir
  have hproper := h.of_get hget
  by_cases hroot : root <+: path
  · obtain ⟨below, rfl⟩ := hroot
    unfold removeTree
    dsimp only
    rw [if_pos hdir, if_neg hkeep, entryIn_modify_append h hget]
    cases below with
    | nil =>
      have hnot : ¬ Below root (root ++ []) := fun hbelow => hbelow.2 (List.append_nil root).symm
      rw [if_neg hnot, List.append_nil, entry, hget]
      rfl
    | cons name rest =>
      rw [if_pos (below_iff.mpr ⟨name, rest, rfl⟩), entryIn_sweep hproper]
      refine congrArg (Option.filter _) ?_
      rw [entry, entry, get_append hget]
  · have hnot : ¬ Below root path := fun hbelow => hroot hbelow.1
    rw [if_neg hnot]
    exact entryIn_removeTree_of_not_prefix h hroot

/-- Only a workdir that is the root of the tree takes the tree with it. -/
theorem removeTree_eq_none (h : removeTree steps tree root kept = none) :
    root = [] ∧ keptPaths steps tree root kept = [] := by
  unfold removeTree at h
  dsimp only at h
  have hroot : ∀ {f : FileTree α → Option (FileTree α)}, tree.modify f root = none → root = [] := by
    intro f hnone
    cases root with
    | nil => rfl
    | cons name path => cases tree <;> cases hnone
  split at h
  · split at h
    · next hkeep => exact ⟨hroot h, hkeep⟩
    · obtain rfl := hroot h
      cases tree <;> cases h
  · cases h

end Tree

/-! ## The kept outputs -/

section Outputs
variable {root : FilePath} {steps : Nat} {kept : List String} {disk : Disk α}

theorem mem_keptPaths {tree : FileTree α} {path : String} {k : FilePath} (hpath : path ∈ kept)
    (hk : k = join root path ∨
      k = realPath tree.entry steps [] (join root path) ∧ root <+: k) :
    k ∈ keptPaths steps tree root kept := by
  refine List.mem_flatMap.mpr ⟨path, hpath, ?_⟩
  dsimp only
  rcases hk with rfl | ⟨rfl, hroot⟩
  · split <;> exact List.mem_cons_self
  · rw [if_pos hroot]
    exact List.mem_cons_of_mem _ (List.mem_singleton_self _)

/-- **The kept outputs survive the sweep**: each path, read as the spec names it, leads where it led, to
the same contents; and nothing outside the workdir is touched. -/
structure KeepsOutputs (steps : Nat) (root : FilePath) (kept : List String) (disk : Disk α) : Prop where
  reached : ∀ path ∈ kept, ∀ real, walk disk.tree.entry steps [] (join root path) = some real →
    walk (removeWorkdir steps root kept disk).tree.entry steps [] (join root path) = some real ∧
      ∀ below, (removeWorkdir steps root kept disk).tree.entry (real ++ below)
        = disk.tree.entry (real ++ below)
  outside : ∀ path, ¬ root <+: path →
    (removeWorkdir steps root kept disk).tree.entry path = disk.tree.entry path

/-- Whatever the resolution of a path looks up in the workdir is on the way to a kept path, or inside
one. -/
def OnTheWay (steps : Nat) (root : FilePath) (kept : List String) (tree : FileTree α)
    (path : FilePath) : Prop :=
  ∀ p ∈ lookups tree.entry steps [] path, Below root p →
    ∃ k ∈ keptPaths steps tree root kept, Below root k ∧ (k <+: p ∨ p <+: k)

/-- The sweep has nothing to take. -/
def NothingToTake (steps : Nat) (root : FilePath) (kept : List String) (tree : FileTree α) : Prop :=
  ∀ path kind, Below root path → tree.entry path = some kind →
    Stays (keptPaths steps tree root kept) root path kind

theorem removeWorkdir_outside {path : FilePath} (hpath : ¬ root <+: path) :
    (removeWorkdir steps root kept disk).tree.entry path = disk.tree.entry path := by
  unfold removeWorkdir
  split
  · have houtside : entryIn (removeTree steps disk.tree root kept) path = disk.tree.entry path :=
      entryIn_removeTree_of_not_prefix disk.proper hpath
    show ((removeTree steps disk.tree root kept).getD _).entry path = _
    cases hleft : removeTree steps disk.tree root kept with
    | none =>
      rw [(removeTree_eq_none hleft).1] at hpath
      exact absurd List.nil_prefix hpath
    | some left =>
      rw [hleft] at houtside
      exact houtside
  · rfl

/-- **What a sweep leaves on the disk**, where there is a checkout to take. -/
theorem entry_removeWorkdir (hcheckout : hasCheckout root disk = true)
    (hdir : isDir disk.tree root = true) (hkept : kept ≠ []) (path : FilePath) :
    (removeWorkdir steps root kept disk).tree.entry path =
      if Below root path then
        (disk.tree.entry path).filter fun kind =>
          Stays (keptPaths steps disk.tree root kept) root path kind
      else disk.tree.entry path := by
  have hkeep : keptPaths steps disk.tree root kept ≠ [] := by
    obtain ⟨first, rest, rfl⟩ := List.exists_cons_of_ne_nil hkept
    exact List.ne_nil_of_mem (mem_keptPaths List.mem_cons_self (.inl rfl))
  rw [← entryIn_removeTree disk.proper hdir hkeep]
  unfold removeWorkdir
  rw [if_pos hcheckout]
  show ((removeTree steps disk.tree root kept).getD _).entry path = _
  cases hleft : removeTree steps disk.tree root kept with
  | none => exact absurd (removeTree_eq_none hleft).2 hkeep
  | some left => rfl

/-- Where there is no checkout, or no workdir, the tree is left alone. -/
theorem entry_removeWorkdir_of_not
    (h : ¬ (hasCheckout root disk = true ∧ isDir disk.tree root = true)) (path : FilePath) :
    (removeWorkdir steps root kept disk).tree.entry path = disk.tree.entry path := by
  unfold removeWorkdir
  split
  · next hcheckout =>
    have hdir : ¬ isDir disk.tree root = true := fun hdir => h ⟨hcheckout, hdir⟩
    show ((removeTree steps disk.tree root kept).getD _).entry path = _
    rw [removeTree, if_neg hdir]
    rfl
  · rfl

/-- What stays is there, whatever it is. -/
theorem entry_removeWorkdir_of_stays (hcheckout : hasCheckout root disk = true)
    (hdir : isDir disk.tree root = true) (hkept : kept ≠ []) {path : FilePath}
    (h : ∀ kind, Below root path → disk.tree.entry path = some kind →
      Stays (keptPaths steps disk.tree root kept) root path kind) :
    (removeWorkdir steps root kept disk).tree.entry path = disk.tree.entry path := by
  rw [entry_removeWorkdir hcheckout hdir hkept]
  split
  · next hbelow =>
    cases hentry : disk.tree.entry path with
    | none => rfl
    | some kind => rw [Option.filter_some, if_pos (decide_eq_true (h kind hbelow hentry))]
  · rfl

/-- What is there after the sweep has stayed. -/
theorem stays_of_entry_eq (hcheckout : hasCheckout root disk = true)
    (hdir : isDir disk.tree root = true) (hkept : kept ≠ []) {path : FilePath} {kind : Kind α}
    (hbelow : Below root path) (hentry : disk.tree.entry path = some kind)
    (h : (removeWorkdir steps root kept disk).tree.entry path = disk.tree.entry path) :
    Stays (keptPaths steps disk.tree root kept) root path kind := by
  rw [entry_removeWorkdir hcheckout hdir hkept, if_pos hbelow, hentry] at h
  exact of_decide_eq_true (Option.filter_eq_some_iff.mp h).2

variable {path : String} {real : FilePath}

/-- Where a kept path really is, if that is in the workdir, is kept with all that is in it. -/
theorem stays_of_real (hpath : path ∈ kept)
    (hwalk : walk disk.tree.entry steps [] (join root path) = some real) (hreal : Below root real)
    {p : FilePath} (hunder : real <+: p) (kind : Kind α) :
    Stays (keptPaths steps disk.tree root kept) root p kind := by
  have hresolved : realPath disk.tree.entry steps [] (join root path) = real := realPath_of_walk hwalk
  exact .inl ⟨real, mem_keptPaths hpath (.inr ⟨hresolved.symm, hreal.1⟩), hreal, hunder⟩

/-- What a kept path's resolution looks up stays, if it is on the way. -/
theorem stays_of_onTheWay (hpath : path ∈ kept)
    (hwalk : walk disk.tree.entry steps [] (join root path) = some real)
    (h : OnTheWay steps root kept disk.tree (join root path)) {p : FilePath}
    (hp : p ∈ lookups disk.tree.entry steps [] (join root path)) {kind : Kind α}
    (hbelow : Below root p) (hentry : disk.tree.entry p = some kind) :
    Stays (keptPaths steps disk.tree root kept) root p kind := by
  cases kind with
  | file content =>
    -- a file is where the path ends
    obtain rfl := (lookups_found hwalk p hp).2 content hentry
    exact stays_of_real hpath hwalk hbelow List.prefix_rfl _
  | link | directory =>
    obtain ⟨k, hk, hroot, hunder | hover⟩ := h p hp hbelow
    · exact .inl ⟨k, hk, hroot, hunder⟩
    · exact .inr ⟨rfl, k, hk, hover⟩

end Outputs

/-- **The kept outputs survive the sweep exactly when each one's resolution stays on the way to kept
paths, and none of them is the workdir itself or a directory above it**, unless there is nothing to
take. -/
theorem keepsOutputs_iff (steps : Nat) (root : FilePath) (kept : List String) (disk : Disk α) :
    KeepsOutputs steps root kept disk ↔
      (hasCheckout root disk = true → isDir disk.tree root = true →
        ∀ path ∈ kept, ∀ real, walk disk.tree.entry steps [] (join root path) = some real →
          OnTheWay steps root kept disk.tree (join root path) ∧
            (real <+: root → NothingToTake steps root kept disk.tree)) := by
  constructor
  · intro h hcheckout hdir path hpath real hwalk
    have hkept : kept ≠ [] := List.ne_nil_of_mem hpath
    obtain ⟨hreached, hsame⟩ := h.reached path hpath real hwalk
    have hsub : ∀ p, (removeWorkdir steps root kept disk).tree.entry p = disk.tree.entry p ∨
        (removeWorkdir steps root kept disk).tree.entry p = none := by
      intro p
      rw [entry_removeWorkdir hcheckout hdir hkept]
      split
      · cases disk.tree.entry p with
        | none => exact .inl rfl
        | some kind =>
          rw [Option.filter_some]
          split
          · exact .inl rfl
          · exact .inr rfl
      · exact .inl rfl
    constructor
    · intro p hp hbelow
      obtain ⟨kind, hentry⟩ := Option.ne_none_iff_exists'.mp (lookups_found hwalk p hp).1
      have hstays := stays_of_entry_eq hcheckout hdir hkept hbelow hentry
        ((walk_of_sub hsub hreached).2 p hp)
      rcases hstays with ⟨k, hk, hroot, hunder⟩ | ⟨-, k, hk, hover⟩
      · exact ⟨k, hk, hroot, .inl hunder⟩
      · obtain ⟨name, rest, rfl⟩ := below_iff.mp hbelow
        obtain ⟨more, rfl⟩ := hover
        refine ⟨_, hk, below_iff.mpr ⟨name, rest ++ more, ?_⟩, .inr (List.prefix_append _ _)⟩
        rw [List.append_assoc, List.cons_append]
    · intro habove p kind hbelow hentry
      obtain ⟨below, rfl⟩ := habove.trans hbelow.1
      exact stays_of_entry_eq hcheckout hdir hkept hbelow hentry (hsame below)
  · intro h
    refine ⟨fun path hpath real hwalk => ?_, fun path => removeWorkdir_outside⟩
    by_cases htaken : hasCheckout root disk = true ∧ isDir disk.tree root = true
    · obtain ⟨hcheckout, hdir⟩ := htaken
      have hkept : kept ≠ [] := List.ne_nil_of_mem hpath
      obtain ⟨hway, habove⟩ := h hcheckout hdir path hpath real hwalk
      constructor
      · rw [← hwalk]
        exact walk_congr fun p hp => entry_removeWorkdir_of_stays hcheckout hdir hkept
          fun kind hbelow hentry => stays_of_onTheWay hpath hwalk hway hp hbelow hentry
      · intro below
        refine entry_removeWorkdir_of_stays hcheckout hdir hkept fun kind hbelow hentry => ?_
        -- the workdir and where the path ends are both on the way to what is in it
        rcases List.prefix_or_prefix_of_prefix hbelow.1 (List.prefix_append real below)
          with hunder | hover
        · by_cases hroot : root = real
          · exact habove (hroot ▸ List.prefix_rfl) _ kind hbelow hentry
          · exact stays_of_real hpath hwalk ⟨hunder, hroot⟩ (List.prefix_append real below) kind
        · exact habove hover _ kind hbelow hentry
    · have hleft : ∀ p, (removeWorkdir steps root kept disk).tree.entry p = disk.tree.entry p :=
        entry_removeWorkdir_of_not htaken
      refine ⟨?_, fun below => hleft _⟩
      rw [← hwalk]
      exact walk_congr fun p _ => hleft p

/-- A workdir whose kept output is a link to a link. -/
def chained : Disk String where
  tree := .directory [("workdir", .directory
    [("results", .link false ["runs", "latest"]),
      ("runs", .directory [("latest", .link false ["..", "real"])]),
      ("real", .directory [("model", .file "weights")])])]
  proper := by simp
  archive := false
  removed := false

/-- **A link that a kept link leads to is swept, and the kept output leads nowhere.** -/
theorem chained_lost :
    walk chained.tree.entry 8 [] (join ["workdir"] "results") = some ["workdir", "real"] ∧
    walk (removeWorkdir 8 ["workdir"] ["results"] chained).tree.entry 8 [] (join ["workdir"] "results")
      = none ∧
    ¬ KeepsOutputs 8 ["workdir"] ["results"] chained := by
  have hbefore : walk chained.tree.entry 8 [] (join ["workdir"] "results")
      = some ["workdir", "real"] := by decide +kernel
  have hafter : walk (removeWorkdir 8 ["workdir"] ["results"] chained).tree.entry 8 []
      (join ["workdir"] "results") = none := by decide +kernel
  refine ⟨hbefore, hafter, fun h => ?_⟩
  have hreached := (h.reached "results" (List.mem_singleton_self _) _ hbefore).1
  rw [hafter] at hreached
  cases hreached

end Gpuc.Host.Cleanup
