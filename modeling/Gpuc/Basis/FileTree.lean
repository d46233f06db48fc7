import Mathlib.Data.List.Infix
import Gpuc.Basis.Dict

/-!
# A tree of files, directories and symbolic links

A path is the names from the root down, and names an entry without following a link (`entry`). What a
process reaches by a path is in `walk`: a link on the way stands for its target, read in the directory
it is in, and `..` for the directory above. A walk sees the tree by the entries it looks up and by
nothing else (`walk_congr`), and where entries only go missing it reaches what it did or nothing
(`walk_of_sub`).

The entries under a tree are listed once each (`mem_entries`, `nodup_entries`).

A tree is changed at a path (`modify`): under it the tree is what became of the node there
(`entryIn_modify_append`), and elsewhere what it was (`entryIn_modify_of_not_prefix`).
-/

set_option autoImplicit false

namespace Gpuc.Basis

variable {α : Type}

/-- The names from the root down. -/
abbrev FilePath := List String

/-- What stands at a path: a file, a link with its target, or a directory. -/
inductive Kind (α : Type) where
  | file (content : α)
  | link (absolute : Bool) (target : FilePath)
  | directory
  deriving DecidableEq

inductive FileTree (α : Type) where
  | file (content : α)
  | link (absolute : Bool) (target : FilePath)
  | directory (children : List (String × FileTree α))

namespace FileTree

def kind : FileTree α → Kind α
  | .file content => .file content
  | .link absolute target => .link absolute target
  | .directory _ => .directory

/-- What stands under a tree at a path, no link followed. -/
def get : FilePath → FileTree α → Option (FileTree α)
  | [], tree => some tree
  | name :: path, .directory children => (children.lookup name).bind (get path)
  | _ :: _, .file _ | _ :: _, .link _ _ => none

def entry (tree : FileTree α) (path : FilePath) : Option (Kind α) := (tree.get path).map kind

/-- The same of a tree that may be gone. -/
def entryIn (tree : Option (FileTree α)) (path : FilePath) : Option (Kind α) :=
  tree.bind fun tree => tree.entry path

/-- The names in a directory are distinct. -/
inductive Proper : FileTree α → Prop
  | file (content : α) : Proper (.file content)
  | link (absolute : Bool) (target : FilePath) : Proper (.link absolute target)
  | directory {children : List (String × FileTree α)} (hnames : (children.map Prod.fst).Nodup)
      (hchildren : ∀ child ∈ children, Proper child.2) : Proper (.directory children)

@[simp] theorem proper_file (content : α) : Proper (.file content) := .file content

@[simp] theorem proper_link (absolute : Bool) (target : FilePath) :
    Proper (.link absolute target : FileTree α) := .link absolute target

@[simp] theorem proper_directory {children : List (String × FileTree α)} :
    Proper (.directory children) ↔
      (children.map Prod.fst).Nodup ∧ ∀ child ∈ children, Proper child.2 := by
  refine ⟨fun h => ?_, fun h => .directory h.1 h.2⟩
  cases h with
  | directory hnames hchildren => exact ⟨hnames, hchildren⟩

/-! ## Everything under a tree -/

mutual
/-- Every entry under a tree, by its path, no link followed. -/
def entries (here : FilePath) : FileTree α → List (FilePath × Kind α)
  | .file _ | .link _ _ => []
  | .directory children => entriesOf here children
def entriesOf (here : FilePath) : List (String × FileTree α) → List (FilePath × Kind α)
  | [] => []
  | (name, child) :: children =>
    (here ++ [name], child.kind) :: (entries (here ++ [name]) child ++ entriesOf here children)
end

theorem entriesOf_eq (here : FilePath) (children : List (String × FileTree α)) :
    entriesOf here children = children.flatMap fun child =>
      (here ++ [child.1], child.2.kind) :: entries (here ++ [child.1]) child.2 := by
  induction children with
  | nil => rfl
  | cons child children ih =>
    obtain ⟨name, child⟩ := child
    rw [entriesOf, ih]
    rfl

/-! ## Changing a tree -/

/-- Every child through a function that may drop it. -/
def mapChildren (f : String → FileTree α → Option (FileTree α))
    (children : List (String × FileTree α)) : List (String × FileTree α) :=
  children.filterMap fun child => (f child.1 child.2).map (child.1, ·)

/-- **The tree with what stands at a path changed**, or gone. -/
def modify (f : FileTree α → Option (FileTree α)) : FilePath → FileTree α → Option (FileTree α)
  | [], tree => f tree
  | name :: path, .directory children =>
    some (.directory (mapChildren
      (fun other child => if other = name then modify f path child else some child) children))
  | _ :: _, tree => some tree

section Modify
variable {children : List (String × FileTree α)} {f : String → FileTree α → Option (FileTree α)}

theorem lookup_mapChildren (hnames : (children.map Prod.fst).Nodup) (name : String) :
    (mapChildren f children).lookup name = (children.lookup name).bind (f name) :=
  Dict.get?_filterMap ⟨children, hnames⟩ f name

theorem proper_mapChildren (hnames : (children.map Prod.fst).Nodup)
    (hchildren : ∀ child ∈ children, ∀ left, f child.1 child.2 = some left → Proper left) :
    Proper (.directory (mapChildren f children)) := by
  refine .directory (Dict.filterMap ⟨children, hnames⟩ f).nodup fun left hleft => ?_
  obtain ⟨child, hchild, heq⟩ := List.mem_filterMap.mp hleft
  obtain ⟨tree, htree, rfl⟩ := Option.map_eq_some_iff.mp heq
  exact hchildren child hchild tree htree

theorem Proper.of_lookup {name : String} {child : FileTree α}
    (h : Proper (.directory children)) (hchild : children.lookup name = some child) :
    Proper child := by
  cases h with
  | directory hnames hchildren =>
    have hget : Dict.get? ⟨children, hnames⟩ name = some child := hchild
    exact hchildren (name, child) (Dict.get?_eq_some.mp hget)

variable {tree : FileTree α} {g : FileTree α → Option (FileTree α)} {path : FilePath}

theorem Proper.modify (h : Proper tree)
    (hg : ∀ before after, Proper before → g before = some after → Proper after) {after : FileTree α}
    (hafter : tree.modify g path = some after) : Proper after := by
  induction path generalizing tree after with
  | nil => exact hg tree after h hafter
  | cons name path ih =>
    cases h with
    | file | link =>
      obtain rfl := Option.some.inj hafter
      constructor
    | directory hnames hchildren =>
      obtain rfl := Option.some.inj hafter
      refine proper_mapChildren hnames fun child hchild left hleft => ?_
      split at hleft
      · exact ih (hchildren child hchild) hleft
      · obtain rfl := Option.some.inj hleft
        exact hchildren child hchild

theorem get_append {node : FileTree α} (h : tree.get path = some node) (below : FilePath) :
    tree.get (path ++ below) = node.get below := by
  induction path generalizing tree with
  | nil =>
    obtain rfl := Option.some.inj h
    rfl
  | cons name path ih =>
    cases tree with
    | file | link => cases h
    | directory children =>
      rw [get, Option.bind_eq_some_iff] at h
      obtain ⟨child, hchild, h⟩ := h
      rw [List.cons_append, get, hchild]
      exact ih h

theorem entry_cons (name : String) (path : FilePath) :
    entry (.directory children) (name :: path) = entryIn (children.lookup name) path := by
  rw [entry, get]
  cases children.lookup name with
  | none => rfl
  | some child => rfl

/-- A name stands in a directory as it is among its children. -/
theorem entry_child (children : List (String × FileTree α)) (name : String) :
    entry (.directory children) [name] ≠ none ↔ name ∈ children.map Prod.fst := by
  rw [entry_cons, entryIn, List.mem_map]
  cases hchild : children.lookup name with
  | none =>
    rw [List.lookup_eq_none_iff] at hchild
    refine ⟨fun h => absurd rfl h, ?_⟩
    rintro ⟨child, hmem, rfl⟩
    simpa using hchild child hmem
  | some child =>
    obtain ⟨front, back, rfl, -⟩ := List.lookup_eq_some_iff.mp hchild
    exact ⟨fun _ => ⟨(name, child), by simp, rfl⟩, fun _ => Option.some_ne_none child.kind⟩

/-- What leads to an entry is there. -/
theorem entry_of_append {path rest : FilePath} (h : tree.entry (path ++ rest) ≠ none) :
    tree.entry path ≠ none := by
  induction path generalizing tree with
  | nil => exact nofun
  | cons name path ih =>
    cases tree with
    | file | link => exact absurd rfl h
    | directory children =>
      rw [List.cons_append, entry_cons] at h
      rw [entry_cons]
      cases hchild : children.lookup name with
      | none =>
        rw [hchild] at h
        exact absurd rfl h
      | some child =>
        rw [hchild] at h
        exact ih h

/-- **An entry is listed exactly when it is there.** -/
theorem mem_entries (h : Proper tree) {here path : FilePath} {kind : Kind α} :
    (path, kind) ∈ entries here tree ↔
      ∃ rest, rest ≠ [] ∧ path = here ++ rest ∧ tree.entry rest = some kind := by
  induction h generalizing here path with
  | file | link =>
    constructor
    · intro hmem
      cases hmem
    · intro ⟨rest, hne, _, hentry⟩
      cases rest with
      | nil => exact absurd rfl hne
      | cons => cases hentry
  | directory hnames hchildren ih =>
    rename_i children
    rw [entries, entriesOf_eq, List.mem_flatMap]
    constructor
    · intro ⟨⟨name, child⟩, hchild, hmem⟩
      have hlookup : children.lookup name = some child :=
        Dict.get?_eq_some (d := ⟨children, hnames⟩).mpr hchild
      rcases List.mem_cons.mp hmem with heq | hmem
      · obtain ⟨rfl, rfl⟩ := Prod.mk.inj heq
        refine ⟨[name], List.cons_ne_nil _ _, rfl, ?_⟩
        rw [entry_cons, hlookup]
        rfl
      · obtain ⟨rest, -, rfl, hentry⟩ := (ih _ hchild).mp hmem
        refine ⟨name :: rest, List.cons_ne_nil _ _, by simp, ?_⟩
        rw [entry_cons, hlookup]
        exact hentry
    · intro ⟨rest, hne, hpath, hentry⟩
      cases rest with
      | nil => exact absurd rfl hne
      | cons name rest =>
        rw [entry_cons] at hentry
        obtain ⟨child, hlookup, hentry⟩ := Option.bind_eq_some_iff.mp hentry
        have hchild := Dict.get?_eq_some (d := ⟨children, hnames⟩).mp hlookup
        refine ⟨(name, child), hchild, ?_⟩
        cases rest with
        | nil =>
          obtain rfl := Option.some.inj hentry
          exact hpath ▸ List.mem_cons_self
        | cons next rest =>
          apply List.mem_cons_of_mem
          exact (ih _ hchild).mpr ⟨next :: rest, List.cons_ne_nil _ _, by simp [hpath], hentry⟩

/-- **Once each.** -/
theorem nodup_entries (h : Proper tree) (here : FilePath) : ((entries here tree).map Prod.fst).Nodup := by
  induction h generalizing here with
  | file | link => exact List.nodup_nil
  | directory hnames hchildren ih =>
    rename_i children
    have hunder : ∀ child ∈ children, ∀ path ∈ ((here ++ [child.1], child.2.kind) ::
        entries (here ++ [child.1]) child.2).map Prod.fst, (here ++ [child.1]) <+: path := by
      intro child hchild path hpath
      rcases List.mem_cons.mp hpath with rfl | hpath
      · exact List.prefix_rfl
      · obtain ⟨⟨path, kind⟩, hmem, rfl⟩ := List.mem_map.mp hpath
        obtain ⟨rest, -, rfl, -⟩ := (mem_entries (hchildren child hchild)).mp hmem
        exact List.prefix_append _ _
    rw [entries, entriesOf_eq, List.map_flatMap]
    refine List.nodup_flatMap.mpr ⟨fun child hchild => ?_, ?_⟩
    · rw [List.map_cons, List.nodup_cons]
      refine ⟨fun hmem => ?_, ih child hchild _⟩
      obtain ⟨⟨path, kind⟩, hmem, hpath⟩ := List.mem_map.mp hmem
      obtain ⟨rest, hne, heq, -⟩ := (mem_entries (hchildren child hchild)).mp hmem
      exact hne (List.append_right_eq_self.mp (heq.symm.trans hpath))
    · refine (List.pairwise_map.mp hnames).imp_of_mem fun {one other} hone hother hne path h₁ h₂ => ?_
      have hsame := List.prefix_of_prefix_length_le (hunder one hone path h₁) (hunder other hother path h₂)
        (by simp)
      have heq := List.IsPrefix.eq_of_length hsame (by simp)
      exact hne (List.singleton_inj.mp (List.append_cancel_left heq))

theorem Proper.of_get {node : FileTree α} (h : Proper tree) (hnode : tree.get path = some node) :
    Proper node := by
  induction path generalizing tree with
  | nil =>
    obtain rfl := Option.some.inj hnode
    exact h
  | cons name path ih =>
    cases tree with
    | file | link => cases hnode
    | directory children =>
      rw [get, Option.bind_eq_some_iff] at hnode
      obtain ⟨child, hchild, hnode⟩ := hnode
      exact ih (h.of_lookup hchild) hnode

/-- **Under the path, the tree is what became of the node there.** -/
theorem entryIn_modify_append {node : FileTree α} (h : Proper tree) (hnode : tree.get path = some node)
    (below : FilePath) : entryIn (tree.modify g path) (path ++ below) = entryIn (g node) below := by
  induction path generalizing tree with
  | nil =>
    obtain rfl := Option.some.inj hnode
    rfl
  | cons name path ih =>
    cases tree with
    | file | link => cases hnode
    | directory children =>
      rw [get, Option.bind_eq_some_iff] at hnode
      obtain ⟨child, hchild, hnode⟩ := hnode
      have hnames : (children.map Prod.fst).Nodup := by
        cases h
        assumption
      show entry (.directory (mapChildren _ children)) (name :: (path ++ below)) = _
      rw [entry_cons, lookup_mapChildren hnames, hchild]
      show entryIn (if name = name then child.modify g path else some child) _ = _
      rw [if_pos rfl]
      exact ih (h.of_lookup hchild) hnode

/-- Where nothing stood, nothing stands. -/
theorem entryIn_modify_append_of_none (h : Proper tree) (hnone : tree.get path = none)
    (below : FilePath) : entryIn (tree.modify g path) (path ++ below) = none := by
  induction path generalizing tree with
  | nil => cases hnone
  | cons name path ih =>
    cases h with
    | file | link => rfl
    | directory hnames hchildren =>
      rename_i children
      show entry (.directory (mapChildren _ children)) (name :: (path ++ below)) = _
      rw [entry_cons, lookup_mapChildren hnames]
      cases hchild : children.lookup name with
      | none => rfl
      | some child =>
        rw [get, hchild] at hnone
        show entryIn (if name = name then child.modify g path else some child) _ = _
        rw [if_pos rfl]
        exact ih ((Proper.directory hnames hchildren).of_lookup hchild) hnone

/-- **Elsewhere it is what it was.** -/
theorem entryIn_modify_of_not_prefix (h : Proper tree) {other : FilePath} (hother : ¬ path <+: other) :
    entryIn (tree.modify g path) other = tree.entry other := by
  induction path generalizing tree other with
  | nil => exact absurd List.nil_prefix hother
  | cons name path ih =>
    cases h with
    | file | link => rfl
    | directory hnames hchildren =>
      rename_i children
      cases other with
      | nil => rfl
      | cons other rest =>
        show entry (.directory (mapChildren _ children)) (other :: rest) = _
        rw [entry_cons, entry_cons, lookup_mapChildren hnames]
        cases hchild : children.lookup other with
        | none => rfl
        | some child =>
          show entryIn (if other = name then child.modify g path else some child) rest = _
          split
          · next heq =>
            subst heq
            have hrest : ¬ path <+: rest := fun hprefix =>
              hother (List.cons_prefix_cons.mpr ⟨rfl, hprefix⟩)
            exact ih ((Proper.directory hnames hchildren).of_lookup hchild) hrest
          · rfl

end Modify

end FileTree

/-! ## Walking a path -/

/-- **Where a path leads**, from a directory, in a number of steps: a link on the way stands for its
target. -/
def walk (entry : FilePath → Option (Kind α)) : Nat → FilePath → FilePath → Option FilePath
  | _, here, [] => some here
  | 0, _, _ :: _ => none
  | steps + 1, here, name :: rest =>
    if name = ".." then walk entry steps here.dropLast rest
    else
      match entry (here ++ [name]) with
      | none => none
      | some (.file _) => if rest = [] then some (here ++ [name]) else none
      | some (.link absolute target) =>
        walk entry steps (if absolute then [] else here) (target ++ rest)
      | some .directory => walk entry steps (here ++ [name]) rest

/-- Does the walk end where there is no entry? -/
def absent (entry : FilePath → Option (Kind α)) : Nat → FilePath → FilePath → Bool
  | _, _, [] => false
  | 0, _, _ :: _ => false
  | steps + 1, here, name :: rest =>
    if name = ".." then absent entry steps here.dropLast rest
    else
      match entry (here ++ [name]) with
      | none => true
      | some (.file _) => false
      | some (.link absolute target) =>
        absent entry steps (if absolute then [] else here) (target ++ rest)
      | some .directory => absent entry steps (here ++ [name]) rest

/-- The paths of the entries that the walk looks up. -/
def lookups (entry : FilePath → Option (Kind α)) : Nat → FilePath → FilePath → List FilePath
  | _, _, [] => []
  | 0, _, _ :: _ => []
  | steps + 1, here, name :: rest =>
    if name = ".." then lookups entry steps here.dropLast rest
    else
      (here ++ [name]) ::
        match entry (here ++ [name]) with
        | none | some (.file _) => []
        | some (.link absolute target) =>
          lookups entry steps (if absolute then [] else here) (target ++ rest)
        | some .directory => lookups entry steps (here ++ [name]) rest

/-- **The path with its links resolved**, whether or not there is anything there. -/
def realPath (entry : FilePath → Option (Kind α)) : Nat → FilePath → FilePath → FilePath
  | _, here, [] => here
  | 0, here, name :: rest => here ++ name :: rest
  | steps + 1, here, name :: rest =>
    if name = ".." then realPath entry steps here.dropLast rest
    else
      match entry (here ++ [name]) with
      | some (.link absolute target) =>
        realPath entry steps (if absolute then [] else here) (target ++ rest)
      | none | some (.file _) | some .directory => realPath entry steps (here ++ [name]) rest

section Walk
variable {before after : FilePath → Option (Kind α)} {steps : Nat} {here path : FilePath}

/-- **A walk sees the tree by the entries it looks up.** -/
theorem walk_congr (h : ∀ p ∈ lookups before steps here path, after p = before p) :
    walk after steps here path = walk before steps here path := by
  induction steps generalizing here path with
  | zero => cases path <;> rfl
  | succ steps ih =>
    cases path with
    | nil => rfl
    | cons name rest =>
      unfold lookups at h
      unfold walk
      by_cases hup : name = ".."
      · rw [if_pos hup] at h ⊢
        rw [if_pos hup]
        exact ih h
      · rw [if_neg hup] at h ⊢
        rw [if_neg hup, (List.forall_mem_cons.mp h).1]
        replace h := (List.forall_mem_cons.mp h).2
        cases hentry : before (here ++ [name]) with
        | none => rfl
        | some kind =>
          rw [hentry] at h
          cases kind with
          | file => rfl
          | link => exact ih h
          | directory => exact ih h

/-- And where it ends is seen by the same entries. -/
theorem absent_congr (h : ∀ p ∈ lookups before steps here path, after p = before p) :
    absent after steps here path = absent before steps here path := by
  induction steps generalizing here path with
  | zero => cases path <;> rfl
  | succ steps ih =>
    cases path with
    | nil => rfl
    | cons name rest =>
      unfold lookups at h
      unfold absent
      by_cases hup : name = ".."
      · rw [if_pos hup] at h ⊢
        rw [if_pos hup]
        exact ih h
      · rw [if_neg hup] at h ⊢
        rw [if_neg hup, (List.forall_mem_cons.mp h).1]
        replace h := (List.forall_mem_cons.mp h).2
        cases hentry : before (here ++ [name]) with
        | none => rfl
        | some kind =>
          rw [hentry] at h
          cases kind with
          | file => rfl
          | link => exact ih h
          | directory => exact ih h

/-- More steps look up what fewer did. -/
theorem lookups_mono {p : FilePath} (h : p ∈ lookups before steps here path) (more : Nat) :
    p ∈ lookups before (steps + more) here path := by
  induction steps generalizing here path with
  | zero => cases path <;> exact absurd h List.not_mem_nil
  | succ steps ih =>
    cases path with
    | nil => exact absurd h List.not_mem_nil
    | cons name rest =>
      rw [Nat.succ_add]
      unfold lookups at h ⊢
      by_cases hup : name = ".."
      · rw [if_pos hup] at h ⊢
        exact ih h
      · rw [if_neg hup, List.mem_cons] at h ⊢
        refine h.imp id fun h => ?_
        cases hentry : before (here ++ [name]) with
        | none =>
          rw [hentry] at h
          exact absurd h List.not_mem_nil
        | some kind =>
          rw [hentry] at h
          cases kind with
          | file => exact absurd h List.not_mem_nil
          | link => exact ih h
          | directory => exact ih h

/-- Where a path leads is where it resolves to. -/
theorem realPath_of_walk {real : FilePath} (h : walk before steps here path = some real) :
    realPath before steps here path = real := by
  induction steps generalizing here path with
  | zero =>
    cases path with
    | nil => exact Option.some.inj h
    | cons => cases h
  | succ steps ih =>
    cases path with
    | nil => exact Option.some.inj h
    | cons name rest =>
      unfold walk at h
      unfold realPath
      by_cases hup : name = ".."
      · rw [if_pos hup] at h ⊢
        exact ih h
      · rw [if_neg hup] at h ⊢
        cases hentry : before (here ++ [name]) with
        | none =>
          rw [hentry] at h
          cases h
        | some kind =>
          rw [hentry] at h
          cases kind with
          | file =>
            replace h : (if rest = [] then some (here ++ [name]) else none) = some real := h
            split at h
            · next hlast =>
              subst hlast
              obtain rfl := Option.some.inj h
              cases steps <;> rfl
            · cases h
          | link => exact ih h
          | directory => exact ih h

/-- A walk that gets somewhere finds everything it looks up, and a file only at its end. -/
theorem lookups_found {real : FilePath} (h : walk before steps here path = some real) :
    ∀ p ∈ lookups before steps here path,
      before p ≠ none ∧ ∀ content, before p = some (.file content) → p = real := by
  induction steps generalizing here path with
  | zero => cases path <;> exact nofun
  | succ steps ih =>
    cases path with
    | nil => exact nofun
    | cons name rest =>
      unfold walk at h
      unfold lookups
      by_cases hup : name = ".."
      · rw [if_pos hup] at h ⊢
        exact ih h
      · rw [if_neg hup] at h ⊢
        cases hentry : before (here ++ [name]) with
        | none =>
          rw [hentry] at h
          cases h
        | some kind =>
          rw [hentry] at h
          have hfirst : before (here ++ [name]) ≠ none := by
            rw [hentry]
            nofun
          cases kind with
          | file =>
            replace h : (if rest = [] then some (here ++ [name]) else none) = some real := h
            split at h
            · exact List.forall_mem_cons.mpr ⟨⟨hfirst, fun _ _ => Option.some.inj h⟩, nofun⟩
            · cases h
          | link =>
            refine List.forall_mem_cons.mpr ⟨⟨hfirst, fun content hfile => ?_⟩, ih h⟩
            rw [hentry] at hfile
            cases hfile
          | directory =>
            refine List.forall_mem_cons.mpr ⟨⟨hfirst, fun content hfile => ?_⟩, ih h⟩
            rw [hentry] at hfile
            cases hfile

/-- More steps lead where fewer did. -/
theorem walk_mono {real : FilePath} (h : walk before steps here path = some real) (more : Nat) :
    walk before (steps + more) here path = some real := by
  induction steps generalizing here path with
  | zero =>
    cases path with
    | nil => cases more <;> exact h
    | cons => cases h
  | succ steps ih =>
    cases path with
    | nil =>
      rw [Nat.succ_add]
      exact h
    | cons name rest =>
      rw [Nat.succ_add]
      unfold walk at h ⊢
      by_cases hup : name = ".."
      · rw [if_pos hup] at h ⊢
        exact ih h
      · rw [if_neg hup] at h ⊢
        cases hentry : before (here ++ [name]) with
        | none =>
          rw [hentry] at h
          cases h
        | some kind =>
          rw [hentry] at h
          cases kind with
          | file => exact h
          | link => exact ih h
          | directory => exact ih h

/-- **A walk goes on from where one has led**, unless that is a file. -/
theorem walk_append {mid real below : FilePath} {more : Nat}
    (h : walk before steps here path = some mid)
    (hmid : ∀ content, before mid ≠ some (.file content))
    (hon : walk before more mid below = some real) :
    walk before (steps + more) here (path ++ below) = some real := by
  induction steps generalizing here path with
  | zero =>
    cases path with
    | nil =>
      obtain rfl := Option.some.inj h
      rw [Nat.zero_add]
      exact hon
    | cons => cases h
  | succ steps ih =>
    cases path with
    | nil =>
      have hhere : here = mid := Option.some.inj h
      rw [hhere, List.nil_append, Nat.add_comm]
      exact walk_mono hon _
    | cons name rest =>
      rw [Nat.succ_add, List.cons_append]
      unfold walk at h ⊢
      by_cases hup : name = ".."
      · rw [if_pos hup] at h ⊢
        exact ih h
      · rw [if_neg hup] at h ⊢
        cases hentry : before (here ++ [name]) with
        | none =>
          rw [hentry] at h
          cases h
        | some kind =>
          rw [hentry] at h
          cases kind with
          | file content =>
            replace h : (if rest = [] then some (here ++ [name]) else none) = some mid := h
            split at h
            · exact absurd (Option.some.inj h ▸ hentry) (hmid content)
            · cases h
          | link absolute target =>
            show walk before (steps + more) _ (target ++ (rest ++ below)) = some real
            rw [← List.append_assoc]
            exact ih h
          | directory => exact ih h

/-- **A walk that gets somewhere got to what is on its way.** -/
theorem walk_split {real below : FilePath} (h : walk before steps here (path ++ below) = some real) :
    ∃ mid more, walk before steps here path = some mid ∧ walk before more mid below = some real := by
  induction steps generalizing here path with
  | zero =>
    cases path with
    | nil => exact ⟨here, 0, rfl, h⟩
    | cons => cases h
  | succ steps ih =>
    cases path with
    | nil => exact ⟨here, steps + 1, rfl, h⟩
    | cons name rest =>
      rw [List.cons_append] at h
      unfold walk at h
      by_cases hup : name = ".."
      · rw [if_pos hup] at h
        obtain ⟨mid, more, hmid, hon⟩ := ih h
        exact ⟨mid, more, by rwa [walk, if_pos hup], hon⟩
      · rw [if_neg hup] at h
        cases hentry : before (here ++ [name]) with
        | none =>
          rw [hentry] at h
          cases h
        | some kind =>
          rw [hentry] at h
          cases kind with
          | file content =>
            replace h : (if rest ++ below = [] then some (here ++ [name]) else none) = some real := h
            split at h
            · next hlast =>
              obtain ⟨rfl, rfl⟩ := List.append_eq_nil_iff.mp hlast
              refine ⟨here ++ [name], 0, ?_, h⟩
              rw [walk, if_neg hup, hentry]
              exact if_pos rfl
            · cases h
          | link absolute target =>
            replace h : walk before steps _ (target ++ (rest ++ below)) = some real := h
            rw [← List.append_assoc] at h
            obtain ⟨mid, more, hmid, hon⟩ := ih h
            exact ⟨mid, more, by rwa [walk, if_neg hup, hentry], hon⟩
          | directory =>
            obtain ⟨mid, more, hmid, hon⟩ := ih h
            exact ⟨mid, more, by rwa [walk, if_neg hup, hentry], hon⟩

/-- What a walk gets to is not absent. -/
theorem absent_of_walk {real : FilePath} (h : walk before steps here path = some real) :
    absent before steps here path = false := by
  induction steps generalizing here path with
  | zero => cases path <;> rfl
  | succ steps ih =>
    cases path with
    | nil => rfl
    | cons name rest =>
      unfold walk at h
      unfold absent
      by_cases hup : name = ".."
      · rw [if_pos hup] at h ⊢
        exact ih h
      · rw [if_neg hup] at h ⊢
        cases hentry : before (here ++ [name]) with
        | none =>
          rw [hentry] at h
          cases h
        | some kind =>
          rw [hentry] at h
          cases kind with
          | file => rfl
          | link => exact ih h
          | directory => exact ih h

/-- **Down a tree without links, a walk leads where its names say.** -/
theorem walk_below {tree node : FileTree α} (hnode : tree.get here = some node)
    (hlinks : ∀ p absolute target, node.entry p ≠ some (.link absolute target))
    (hnames : ∀ name ∈ path, name ≠ "..") (hentry : node.entry path ≠ none) :
    walk tree.entry path.length here path = some (here ++ path) := by
  induction path generalizing here node with
  | nil =>
    rw [List.append_nil]
    rfl
  | cons name rest ih =>
    cases node with
    | file | link => exact absurd rfl hentry
    | directory children =>
      rw [FileTree.entry_cons] at hentry
      cases hchild : children.lookup name with
      | none =>
        rw [hchild] at hentry
        exact absurd rfl hentry
      | some child =>
        rw [hchild] at hentry
        have hget : tree.get (here ++ [name]) = some child := by
          rw [FileTree.get_append hnode, FileTree.get, hchild]
          rfl
        have hkind : tree.entry (here ++ [name]) = some child.kind := by
          rw [FileTree.entry, hget]
          rfl
        have hbelow : ∀ p absolute target, child.entry p ≠ some (.link absolute target) := by
          intro p absolute target hlink
          apply hlinks (name :: p) absolute target
          rw [FileTree.entry_cons, hchild]
          exact hlink
        rw [List.length_cons, walk, if_neg (hnames name List.mem_cons_self), hkind]
        have hrest := ih hget hbelow (fun n hn => hnames n (List.mem_cons_of_mem name hn)) hentry
        rw [List.append_assoc, List.singleton_append] at hrest
        cases child with
        | link absolute target => exact absurd rfl (hbelow [] absolute target)
        | directory => exact hrest
        | file content =>
          cases rest with
          | nil => rfl
          | cons => exact absurd rfl hentry

/-- And nowhere else. -/
theorem walk_stays {tree node : FileTree α} (hnode : tree.get here = some node)
    (hlinks : ∀ p absolute target, node.entry p ≠ some (.link absolute target))
    (hnames : ∀ name ∈ path, name ≠ "..") {real : FilePath}
    (h : walk tree.entry steps here path = some real) :
    node.entry path ≠ none ∧ real = here ++ path := by
  induction path generalizing here node steps with
  | nil =>
    have hhere : here = real := by
      cases steps <;> exact Option.some.inj h
    exact ⟨nofun, by rw [hhere, List.append_nil]⟩
  | cons name rest ih =>
    cases steps with
    | zero => cases h
    | succ steps =>
      rw [walk, if_neg (hnames name List.mem_cons_self)] at h
      have hentry : tree.entry (here ++ [name]) = node.entry [name] := by
        rw [FileTree.entry, FileTree.get_append hnode, FileTree.entry]
      rw [hentry] at h
      cases node with
      | file | link => cases h
      | directory children =>
        rw [FileTree.entry_cons] at h
        rw [FileTree.entry_cons]
        cases hchild : children.lookup name with
        | none =>
          rw [hchild] at h
          cases h
        | some child =>
          rw [hchild] at h
          have hget : tree.get (here ++ [name]) = some child := by
            rw [FileTree.get_append hnode, FileTree.get, hchild]
            rfl
          have hbelow : ∀ p absolute target, child.entry p ≠ some (.link absolute target) := by
            intro p absolute target hlink
            apply hlinks (name :: p) absolute target
            rw [FileTree.entry_cons, hchild]
            exact hlink
          have hrest := fun n hn => hnames n (List.mem_cons_of_mem name hn)
          cases child with
          | link absolute target => exact absurd rfl (hbelow [] absolute target)
          | directory =>
            obtain ⟨hthere, hreal⟩ := ih hget hbelow hrest h
            exact ⟨hthere, by rw [hreal, List.append_assoc, List.singleton_append]⟩
          | file content =>
            replace h : (if rest = [] then some (here ++ [name]) else none) = some real := h
            split at h
            · next hlast =>
              subst hlast
              exact ⟨nofun, (Option.some.inj h).symm⟩
            · cases h

/-- **Where entries only go missing, a walk that still gets somewhere got there before**, and nothing
it looks up has gone. -/
theorem walk_of_sub (hsub : ∀ p, after p = before p ∨ after p = none) {real : FilePath}
    (h : walk after steps here path = some real) :
    walk before steps here path = some real ∧
      ∀ p ∈ lookups before steps here path, after p = before p := by
  induction steps generalizing here path with
  | zero =>
    cases path with
    | nil => exact ⟨h, nofun⟩
    | cons => cases h
  | succ steps ih =>
    cases path with
    | nil => exact ⟨h, nofun⟩
    | cons name rest =>
      unfold walk at h ⊢
      unfold lookups
      by_cases hup : name = ".."
      · rw [if_pos hup] at h ⊢
        rw [if_pos hup]
        exact ih h
      · rw [if_neg hup] at h ⊢
        rw [if_neg hup]
        rcases hsub (here ++ [name]) with hkept | hgone
        · rw [hkept] at h
          cases hentry : before (here ++ [name]) with
          | none =>
            rw [hentry] at h
            cases h
          | some kind =>
            rw [hentry] at h
            cases kind with
            | file => exact ⟨h, List.forall_mem_cons.mpr ⟨hkept, nofun⟩⟩
            | link =>
              obtain ⟨hwalk, hlookups⟩ := ih h
              exact ⟨hwalk, List.forall_mem_cons.mpr ⟨hkept, hlookups⟩⟩
            | directory =>
              obtain ⟨hwalk, hlookups⟩ := ih h
              exact ⟨hwalk, List.forall_mem_cons.mpr ⟨hkept, hlookups⟩⟩
        · rw [hgone] at h
          cases h

end Walk

end Gpuc.Basis
