import Gpuc.Host.Fetch
import Gpuc.Laws.Job.Handed

/-!
# A fetch and an upload of one output

Both take what is under the output's path less what came with the checkout, and both read the baseline
for that. The upload reads it only when it has no more files than can be named, and then passes their
names on; the fetch reads it always.

The law (`listing_agrees_iff`), for a directory without links: what the listing has of an output is
exactly what the upload does not leave out, once nothing is in flight, when the baseline is one the
upload reads or nothing in it is as it was. The two differ where the checkout came with more than
`maxTracked` files (`crowded_differs`): the first of them, as many as the scan took, are uploaded and not
fetched.

The names here are what the upload is told to leave out, compared as they stand; what a tool makes of
one that is a pattern is for `handed_iff`.
-/

set_option autoImplicit false

namespace Gpuc.Host

open Gpuc.Basis
open Cleanup (partsOf join)

/-! ## Paths and their texts -/

/-- The name of an entry of a directory. -/
structure IsName (name : String) : Prop where
  nonempty : name.toList ≠ []
  notHere : name.toList ≠ ['.']
  plain : '/' ∉ name.toList

theorem notMem_of_mem_splitOn {a : Char} {text piece : List Char} (h : piece ∈ text.splitOn a) :
    a ∉ piece := by
  induction text generalizing piece with
  | nil =>
    rw [List.splitOn_nil, List.mem_singleton] at h
    rw [h]
    exact List.not_mem_nil
  | cons c text ih =>
    rw [List.splitOn_cons_eq_if_modifyHead] at h
    split at h
    · rcases List.mem_cons.mp h with rfl | h
      · exact List.not_mem_nil
      · exact ih h
    · next hne =>
      cases hsplit : text.splitOn a with
      | nil => exact absurd hsplit (List.splitOn_ne_nil a text)
      | cons first rest =>
        rw [hsplit, List.modifyHead_cons] at h
        rcases List.mem_cons.mp h with rfl | h
        · intro hmem
          rcases List.mem_cons.mp hmem with rfl | hmem
          · exact hne (beq_self_eq_true a)
          · exact ih (hsplit ▸ List.mem_cons_self) hmem
        · exact ih (hsplit ▸ List.mem_cons_of_mem _ h)

/-- **The parts of a path are names.** -/
theorem isName_of_mem_partsOf {path name : String} (h : name ∈ partsOf path) : IsName name := by
  obtain ⟨piece, hpiece, rfl⟩ := List.mem_map.mp h
  obtain ⟨hsplit, hkept⟩ := List.mem_filter.mp hpiece
  obtain ⟨hne, hdot⟩ := of_decide_eq_true hkept
  constructor
  · rwa [String.toList_ofList]
  · rwa [String.toList_ofList]
  · rw [String.toList_ofList]
    exact notMem_of_mem_splitOn hsplit

/-- **A path of names is read back from its text.** -/
theorem partsOf_slashed {path : FilePath} (h : ∀ name ∈ path, IsName name) :
    partsOf (slashed path) = path := by
  have htext : (slashed path).toList = ['/'].intercalate (path.map String.toList) :=
    String.toList_intercalate
  unfold partsOf
  rw [htext]
  cases path with
  | nil => rfl
  | cons first rest =>
    have hplain : ∀ piece ∈ (first :: rest).map String.toList, '/' ∉ piece := by
      intro piece hpiece
      obtain ⟨name, hname, rfl⟩ := List.mem_map.mp hpiece
      exact (h name hname).plain
    rw [List.splitOn_intercalate '/' hplain (by simp), List.filter_eq_self.mpr, List.map_map]
    · exact List.map_id'' (fun name => String.ofList_toList) _
    · intro piece hpiece
      obtain ⟨name, hname, rfl⟩ := List.mem_map.mp hpiece
      exact decide_eq_true ⟨(h name hname).nonempty, (h name hname).notHere⟩

theorem slashed_inj {path other : FilePath} (hpath : ∀ name ∈ path, IsName name)
    (hother : ∀ name ∈ other, IsName name) (h : slashed path = slashed other) : path = other := by
  rw [← partsOf_slashed hpath, h, partsOf_slashed hother]

/-- A path of names is a relative one. -/
theorem join_slashed {path : FilePath} (h : ∀ name ∈ path, IsName name) (root : FilePath) :
    join root (slashed path) = root ++ path := by
  have hrelative : (slashed path).toList.head? ≠ some '/' := by
    have htext : (slashed path).toList = ['/'].intercalate (path.map String.toList) :=
      String.toList_intercalate
    rw [htext]
    cases path with
    | nil => exact nofun
    | cons first rest =>
      have hfirst := h first List.mem_cons_self
      cases hchars : first.toList with
      | nil => exact absurd hchars hfirst.nonempty
      | cons c chars =>
        have hc : c ≠ '/' := by
          intro heq
          apply hfirst.plain
          rw [hchars, heq]
          exact List.mem_cons_self
        cases rest <;> simpa [List.intercalate, hchars] using hc
  rw [join, if_neg hrelative, partsOf_slashed h]

/-! ## The two walks -/

namespace Filesystem

variable {fs : Filesystem} {root : FilePath}

theorem walkChildren_eq (here : FilePath) (children : List (String × FileTree Stat)) :
    fs.walkChildren root here children =
      children.flatMap fun child => fs.walkDir root (here ++ [child.1]) child.2 := by
  induction children with
  | nil => rfl
  | cons child children ih =>
    obtain ⟨name, child⟩ := child
    rw [walkChildren, ih]
    rfl

/-- **The walk finds everything that is no directory**, each link included. -/
theorem mem_walkDir {node : FileTree Stat} (h : node.Proper) {here path : FilePath} :
    path ∈ fs.walkDir root here node ↔
      ∃ rest kind, rest ≠ [] ∧ path = here ++ rest ∧ node.entry rest = some kind ∧
        kind ≠ .directory := by
  induction h generalizing here path with
  | file | link =>
    constructor
    · intro hmem
      cases hmem
    · intro ⟨rest, _, hne, _, hentry, _⟩
      cases rest with
      | nil => exact absurd rfl hne
      | cons => cases hentry
  | directory hnames hchildren ih =>
    rename_i children
    rw [walkDir, walkChildren_eq, List.mem_append, List.mem_map, List.mem_flatMap]
    have hlookup : ∀ child ∈ children, children.lookup child.1 = some child.2 := by
      intro child hchild
      exact Dict.get?_eq_some (d := ⟨children, hnames⟩).mpr hchild
    constructor
    · rintro (⟨name, hname, rfl⟩ | ⟨child, hchild, hmem⟩)
      · rw [List.mem_append, mem_sortedBy, mem_sortedBy] at hname
        obtain ⟨child, hchild, rfl, hkind⟩ : ∃ child ∈ children, child.1 = name ∧
            child.2.kind ≠ .directory := by
          rcases hname with hname | hname
          all_goals
            obtain ⟨child, hkept, rfl⟩ := List.mem_map.mp hname
            obtain ⟨hchild, hkind⟩ := List.mem_filter.mp hkept
            refine ⟨child, hchild, rfl, fun hdir => ?_⟩
            obtain ⟨name, node⟩ := child
            cases node with
            | file | link => cases hdir
            | directory => cases hkind
        refine ⟨[child.1], child.2.kind, List.cons_ne_nil _ _, rfl, ?_, hkind⟩
        rw [FileTree.entry_cons, hlookup child hchild]
        rfl
      · obtain ⟨rest, kind, -, rfl, hentry, hkind⟩ := (ih child hchild).mp hmem
        refine ⟨child.1 :: rest, kind, List.cons_ne_nil _ _, by simp, ?_, hkind⟩
        rw [FileTree.entry_cons, hlookup child hchild]
        exact hentry
    · intro ⟨rest, kind, hne, hpath, hentry, hkind⟩
      cases rest with
      | nil => exact absurd rfl hne
      | cons name rest =>
        rw [FileTree.entry_cons] at hentry
        obtain ⟨node, hnode, hentry⟩ := Option.bind_eq_some_iff.mp hentry
        have hchild := Dict.get?_eq_some (d := ⟨children, hnames⟩).mp hnode
        cases rest with
        | nil =>
          obtain rfl := Option.some.inj hentry
          refine .inl ⟨name, ?_, hpath.symm⟩
          rw [List.mem_append, mem_sortedBy, mem_sortedBy, List.mem_map, List.mem_map]
          cases node with
          | directory => exact absurd rfl hkind
          | file content => exact .inl ⟨_, List.mem_filter.mpr ⟨hchild, rfl⟩, rfl⟩
          | link absolute target =>
            cases hto : fs.isDir (root ++ here ++ [name]) with
            | false =>
              refine .inl ⟨_, List.mem_filter.mpr ⟨hchild, ?_⟩, rfl⟩
              show (!fs.isDir (root ++ here ++ [name])) = true
              rw [hto]
              rfl
            | true => exact .inr ⟨_, List.mem_filter.mpr ⟨hchild, hto⟩, rfl⟩
        | cons next rest =>
          refine .inr ⟨(name, node), hchild, (ih _ hchild).mpr ?_⟩
          exact ⟨next :: rest, kind, List.cons_ne_nil _ _, by simp [hpath], hentry, hkind⟩

end Filesystem

/-! ## A directory without links -/

/-- **What an output's path leads to**, where that is a directory with no link under it. -/
structure PlainDir (fs : Filesystem) (root : FilePath) where
  real : FilePath
  children : List (String × FileTree Stat)
  follow : fs.follow root = some real
  node : fs.tree.get real = some (.directory children)
  noLinks : ∀ path absolute target,
    (FileTree.directory children).entry path ≠ some (.link absolute target)
  names : ∀ path, (FileTree.directory children).entry path ≠ none → ∀ name ∈ path,
    IsName name ∧ name ≠ ".."

namespace PlainDir

variable {fs : Filesystem} {root : FilePath} (d : PlainDir fs root) {path : FilePath} {info : Stat}

/-- The directory, as a tree. -/
def tree : FileTree Stat := .directory d.children

theorem proper : d.tree.Proper := fs.proper.of_get d.node

include d in
theorem isDir : fs.isDir root = true := by
  have hkind : fs.kindOf root = some .directory := by
    rw [Filesystem.kindOf, d.follow]
    show fs.tree.entry d.real = _
    rw [FileTree.entry, d.node]
    rfl
  rw [Filesystem.isDir, hkind]

theorem nodeAt : fs.nodeAt root = some d.tree := by
  rw [Filesystem.nodeAt, d.follow]
  exact d.node

/-- **A path under it leads to where it says.** -/
theorem follow_append (hentry : d.tree.entry path ≠ none) :
    fs.follow (root ++ path) = some (d.real ++ path) := by
  rw [Filesystem.follow, List.length_append, ← Nat.add_assoc]
  refine walk_append d.follow ?_ (walk_below d.node d.noLinks ?_ hentry)
  · intro content hfile
    rw [FileTree.entry, d.node] at hfile
    cases hfile
  · intro name hname
    exact (d.names path hentry name hname).2

theorem entry_append (path : FilePath) :
    fs.tree.entry (d.real ++ path) = d.tree.entry path := by
  rw [FileTree.entry, FileTree.entry, FileTree.get_append d.node]
  rfl

theorem stat_append (hentry : d.tree.entry path = some (.file info)) :
    fs.stat (root ++ path) = some info := by
  rw [Filesystem.stat, d.follow_append (by simp [hentry])]
  dsimp only
  rw [d.entry_append, hentry]

theorem isFile_append {kind : Kind Stat} (hentry : d.tree.entry path = some kind) :
    fs.isFile (root ++ path) = true ↔ ∃ info, kind = .file info := by
  have hkind : fs.kindOf (root ++ path) = some kind := by
    rw [Filesystem.kindOf, d.follow_append (by simp [hentry])]
    exact (d.entry_append path).trans hentry
  rw [Filesystem.isFile, hkind]
  cases kind <;> simp

theorem lsize_append (hentry : d.tree.entry path = some (.file info)) :
    fs.lsize (root ++ path) = some info.size := by
  rcases List.eq_nil_or_concat path with rfl | ⟨path, name, rfl⟩
  · cases hentry
  · rw [List.concat_eq_append] at hentry ⊢
    have hparent : d.tree.entry path ≠ none :=
      FileTree.entry_of_append (by simp [hentry] : d.tree.entry (path ++ [name]) ≠ none)
    have hkind : fs.lkindOf (root ++ (path ++ [name])) = some (.file info) := by
      rw [Filesystem.lkindOf, ← List.append_assoc, List.getLast?_concat, List.dropLast_concat,
        d.follow_append hparent]
      dsimp only
      rw [List.append_assoc, d.entry_append, hentry]
    rw [Filesystem.lsize, hkind]

/-! ### Its files -/

/-- The files in it. -/
def files : List (FilePath × Stat) :=
  (d.tree.entries []).filterMap fun
    | (path, .file info) => some (path, info)
    | (_, .link _ _) | (_, .directory) => none

theorem mem_files : (path, info) ∈ d.files ↔ d.tree.entry path = some (.file info) := by
  have hentries : (path, Kind.file info) ∈ d.tree.entries [] ↔
      d.tree.entry path = some (.file info) := by
    rw [FileTree.mem_entries d.proper]
    constructor
    · intro ⟨rest, _, hpath, hentry⟩
      rwa [hpath, List.nil_append]
    · intro hentry
      refine ⟨path, ?_, rfl, hentry⟩
      rintro rfl
      cases hentry
  rw [← hentries, files, List.mem_filterMap]
  constructor
  · intro ⟨⟨found, kind⟩, hmem, hfile⟩
    cases kind with
    | file content =>
      obtain ⟨rfl, rfl⟩ := Prod.mk.inj (Option.some.inj hfile)
      exact hmem
    | link | directory => cases hfile
  · intro hmem
    exact ⟨_, hmem, rfl⟩

theorem nodup_files : d.files.Nodup := by
  apply List.Nodup.filterMap _ (FileTree.nodup_entries d.proper []).of_map
  intro ⟨path, kind⟩ ⟨path', kind'⟩ file hfile hfile'
  cases kind with
  | link | directory => cases hfile
  | file info =>
    cases kind' with
    | link | directory => cases hfile'
    | file info' =>
      obtain rfl := Option.some.inj hfile
      obtain ⟨rfl, rfl⟩ := Prod.mk.inj (Option.some.inj hfile')
      rfl

theorem isName_of_mem_files (hfile : (path, info) ∈ d.files) : ∀ name ∈ path, IsName name := by
  intro name hname
  have hentry := d.mem_files.mp hfile
  exact (d.names path (by rw [show (FileTree.directory d.children).entry path = _ from hentry]; simp)
    name hname).1

theorem stat_slashed (hfile : (path, info) ∈ d.files) :
    fs.stat (join root (slashed path)) = some info := by
  rw [join_slashed (d.isName_of_mem_files hfile)]
  exact d.stat_append (d.mem_files.mp hfile)

/-- **The directory as an upload sees it.** -/
def upload : Tree where
  files := d.files.map fun file => { path := slashed file.1, stat := file.2 }
  statOf name := fs.stat (join root name)
  found f hf := by
    obtain ⟨⟨path, info⟩, hfile, rfl⟩ := List.mem_map.mp hf
    exact d.stat_slashed hfile
  links := false
  linked f hf hbeyond := by
    obtain ⟨file, _, rfl⟩ := List.mem_map.mp hf
    cases hbeyond

theorem statOf_upload (hfile : (path, info) ∈ d.files) :
    d.upload.statOf (slashed path) = some info :=
  d.stat_slashed hfile

theorem mem_upload {f : OutputFile} :
    f ∈ d.upload.files ↔ ∃ path info, (path, info) ∈ d.files ∧ f = { path := slashed path, stat := info } := by
  rw [upload, List.mem_map]
  constructor
  · intro ⟨⟨path, info⟩, hfile, heq⟩
    exact ⟨path, info, hfile, heq.symm⟩
  · intro ⟨path, info, hfile, heq⟩
    exact ⟨(path, info), hfile, heq.symm⟩

/-- **The fetch walks the same files.** -/
theorem mem_walkFiles : path ∈ fs.walkFiles root ↔ ∃ info, (path, info) ∈ d.files := by
  rw [Filesystem.walkFiles, if_pos d.isDir, d.nodeAt]
  dsimp only
  rw [Filesystem.mem_walkDir d.proper]
  constructor
  · intro ⟨rest, kind, _, hpath, hentry, hkind⟩
    rw [List.nil_append] at hpath
    subst hpath
    cases kind with
    | file info => exact ⟨info, d.mem_files.mpr hentry⟩
    | link absolute target => exact absurd hentry (d.noLinks path absolute target)
    | directory => exact absurd rfl hkind
  · intro ⟨info, hfile⟩
    have hentry := d.mem_files.mp hfile
    refine ⟨path, .file info, ?_, rfl, hentry, nofun⟩
    rintro rfl
    cases hentry

end PlainDir

/-! ## What each takes -/

/-- The path of a file of an output, from the workdir. -/
def underKey (key path : String) : String := slashed (partsOf key ++ partsOf path)

/-- **What is listed is exactly what is not left out.** -/
def Agrees (listed : List Listed) (key : String) (tree : Tree) (excluded : List String) : Prop :=
  ∀ path, path ∈ listed.map Listed.path ↔
    ∃ f ∈ tree.files, f.path ∉ excluded ∧ path = underKey key f.path

section
variable {fs : Filesystem} {workdir : FilePath} {r : Root} {now minAge : ℚ} {link : Bool}

/-- The files of an output are told apart by their paths from the workdir. -/
theorem underKey_inj {root : FilePath} (d : PlainDir fs root) {key : String} {f g : OutputFile}
    (hf : f ∈ d.upload.files) (hg : g ∈ d.upload.files)
    (h : underKey key f.path = underKey key g.path) : f.path = g.path := by
  obtain ⟨p, info, hp, rfl⟩ := d.mem_upload.mp hf
  obtain ⟨q, info', hq, rfl⟩ := d.mem_upload.mp hg
  have hpnames := d.isName_of_mem_files hp
  have hqnames := d.isName_of_mem_files hq
  have hunder : ∀ rest : FilePath, (∀ name ∈ rest, IsName name) →
      ∀ name ∈ partsOf key ++ rest, IsName name := by
    intro rest hrest name hname
    exact (List.mem_append.mp hname).elim isName_of_mem_partsOf (hrest name)
  rw [underKey, underKey, partsOf_slashed hpnames, partsOf_slashed hqnames] at h
  exact congrArg slashed
    (List.append_cancel_left (slashed_inj (hunder p hpnames) (hunder q hqnames) h))

/-- **What the listing has of an output.** -/
theorem mem_rootFiles (hroot : r.root = workdir ++ partsOf r.rel) (d : PlainDir fs r.root)
    {path : String} : path ∈ (r.files fs workdir).map Listed.path ↔
      ∃ f ∈ d.upload.files, f.path ∉ unchanged d.upload.statOf r.entries ∧
        path = underKey r.rel f.path := by
  have hthere : r.missing fs = false := by
    have hstat : (fs.stat r.root).isSome = true := by
      rw [Filesystem.stat, d.follow]
      dsimp only
      rw [FileTree.entry, d.node]
      rfl
    rw [Root.missing, Option.isNone_eq_false_iff.mpr hstat, Bool.false_and]
  have hfrom : ∀ rest, (r.root ++ rest).drop workdir.length = partsOf r.rel ++ rest := by
    intro rest
    rw [hroot, List.append_assoc, List.drop_left]
  rw [Root.files, hthere, if_neg Bool.false_ne_true]
  dsimp only
  rw [Filesystem.base, if_pos d.isDir, List.mem_map]
  constructor
  · rintro ⟨f, hf, hpath⟩
    obtain ⟨rest, hwalked, hlisted⟩ := List.mem_filterMap.mp hf
    obtain ⟨info, hfile⟩ := d.mem_walkFiles.mp hwalked
    split at hlisted
    · cases hlisted
    · next hnew =>
      rw [d.lsize_append (d.mem_files.mp hfile)] at hlisted
      obtain rfl := Option.some.inj hlisted
      refine ⟨_, d.mem_upload.mpr ⟨rest, info, hfile, rfl⟩, hnew, ?_⟩
      rw [← hpath, underKey, partsOf_slashed (d.isName_of_mem_files hfile), hfrom]
  · rintro ⟨f, hf, hnew, hpath⟩
    obtain ⟨rest, info, hfile, rfl⟩ := d.mem_upload.mp hf
    refine ⟨⟨path, info.size⟩, ?_, rfl⟩
    refine List.mem_filterMap.mpr ⟨rest, d.mem_walkFiles.mpr ⟨info, hfile⟩, ?_⟩
    refine (if_neg hnew).trans ?_
    rw [d.lsize_append (d.mem_files.mp hfile), hfrom, hpath, underKey,
      partsOf_slashed (d.isName_of_mem_files hfile)]
    rfl

/-- **The two agree exactly when the upload reads the baseline too, or has nothing to leave out.** -/
theorem agrees_iff (hroot : r.root = workdir ++ partsOf r.rel) (d : PlainDir fs r.root)
    (hquiet : recentlyModified (.dir d.upload link) now minAge = []) :
    Agrees (r.files fs workdir) r.rel d.upload (leftOut (.dir d.upload link) r.entries now minAge) ↔
      (tooMany r.entries = true →
        ∀ f ∈ d.upload.files, f.path ∉ unchanged d.upload.statOf r.entries) := by
  have hleft : leftOut (.dir d.upload link) r.entries now minAge
      = if tooMany r.entries then [] else unchanged d.upload.statOf r.entries := by
    rw [leftOut, hquiet, List.append_nil]
    rfl
  rw [hleft]
  constructor
  · intro hagrees hmany f hf
    rw [if_pos hmany] at hagrees
    obtain ⟨g, hg, hnew, hpath⟩ := (mem_rootFiles hroot d).mp
      ((hagrees (underKey r.rel f.path)).mpr ⟨f, hf, List.not_mem_nil, rfl⟩)
    rwa [underKey_inj d hf hg hpath]
  · intro hsame path
    rw [mem_rootFiles hroot d]
    cases hmany : tooMany r.entries with
    | false => rfl
    | true =>
      constructor
      · intro ⟨f, hf, _, hpath⟩
        exact ⟨f, hf, List.not_mem_nil, hpath⟩
      · intro ⟨f, hf, _, hpath⟩
        exact ⟨f, hf, hsame hmany f hf, hpath⟩

/-- What every destination of an upload is told to leave out. -/
theorem syncOutput_leftOut {fields : Fields} {printed : ℚ → String} {u : Uploader}
    {place : String → String × Local} {output : Output} {jobId : JobId} {entries : Entries}
    {attempts : List Attempt} {key : String} (hkey : outputKey fields output jobId = .ok key)
    (h : syncOutput fields printed u place output jobId now minAge entries = .ok attempts) :
    ∀ a ∈ attempts, a.exclude = leftOut (place key).2 entries now minAge := by
  obtain ⟨key', hkey', h⟩ := bind_eq_ok h
  obtain rfl := Except.ok.inj (hkey.symm.trans (mapError_eq_ok hkey'))
  obtain ⟨late, hlate, h⟩ := bind_eq_ok h
  obtain ⟨destinations, -, h⟩ := bind_eq_ok h
  obtain rfl := Except.ok.inj h
  intro a ha
  obtain ⟨destination, -, rfl⟩ := List.mem_map.mp ha
  have hflight := mapError_eq_ok hlate
  unfold inFlight at hflight
  dsimp only at hflight
  split at hflight
  · cases hflight
  · obtain rfl := Except.ok.inj hflight
    rfl

end

/-! ## The baseline of a job, and its listing -/

section
variable {fields : Fields} {fs : Filesystem} {workdir : FilePath} {outputs : List Output}
  {jobId : JobId} {found : Baseline} {output : Output} {key : String}

/-- **The baseline has the scan of every output.** -/
theorem capture_get? (h : capture fields fs workdir outputs jobId = .ok found)
    (houtput : output ∈ outputs) (hkey : outputKey fields output jobId = .ok key) :
    found.get? key = some (fs.scan (join workdir key)) := by
  have hfold : ∀ (outputs : List Output) (start : Baseline),
      outputs.foldlM (fun found output => do
        let key ← outputKey fields output jobId
        return found.set key (fs.scan (join workdir key))) start = .ok found →
      (output ∈ outputs ∨ start.get? key = some (fs.scan (join workdir key))) →
      found.get? key = some (fs.scan (join workdir key)) := by
    intro outputs
    induction outputs with
    | nil =>
      intro start hend hmem
      obtain rfl := Except.ok.inj hend
      exact hmem.resolve_left List.not_mem_nil
    | cons first rest ih =>
      intro start hend hmem
      rw [List.foldlM_cons] at hend
      obtain ⟨next, hfirst, hrest⟩ := bind_eq_ok hend
      obtain ⟨firstKey, hfirstKey, hset⟩ := bind_eq_ok hfirst
      obtain rfl := Except.ok.inj hset
      apply ih _ hrest
      rw [Dict.get?_set]
      rcases hmem with hmem | hstart
      · rcases List.mem_cons.mp hmem with rfl | hmem
        · obtain rfl := Except.ok.inj (hkey.symm.trans hfirstKey)
          exact .inr (if_pos rfl)
        · exact .inl hmem
      · right
        split
        · next heq => rw [heq]
        · exact hstart
  exact hfold outputs .empty h (.inl houtput)

/-- Where an output that can be listed is, and with what baseline. -/
theorem outputRoot_eq_ok {r : Root} (hkey : outputKey fields output jobId = .ok key)
    (h : outputRoot fields fs workdir jobId found output = .ok r) :
    r = ⟨key, workdir ++ partsOf key, (found.get? key).getD .empty⟩ ∧
      join workdir key = workdir ++ partsOf key := by
  obtain ⟨key', hkey', h⟩ := bind_eq_ok h
  obtain rfl := Except.ok.inj (hkey.symm.trans (mapError_eq_ok hkey'))
  obtain ⟨root, hroot, h⟩ := bind_eq_ok h
  obtain rfl := Except.ok.inj h
  unfold inside at hroot
  split at hroot
  · cases hroot
  · next hrelative =>
    have hjoin : join workdir key = workdir ++ partsOf key := if_neg hrelative
    dsimp only at hroot
    split at hroot
    · obtain rfl := Except.ok.inj hroot
      rw [hjoin]
      exact ⟨rfl, rfl⟩
    · cases hroot

/-- A file for each path that comes up. -/
theorem mem_values_ofList {files : List Listed} {path : String} :
    path ∈ ((Dict.ofList (files.map fun f => (f.path, f))).values).map Listed.path ↔
      path ∈ files.map Listed.path := by
  constructor
  · intro h
    obtain ⟨f, hf, rfl⟩ := List.mem_map.mp h
    obtain ⟨k, hk⟩ := Dict.mem_values.mp hf
    obtain ⟨g, hg, heq⟩ := List.mem_map.mp (Dict.mem_of_get?_ofList hk)
    obtain ⟨-, rfl⟩ := Prod.mk.inj heq
    exact List.mem_map.mpr ⟨g, hg, rfl⟩
  · intro h
    obtain ⟨f, hf, rfl⟩ := List.mem_map.mp h
    cases hget : (Dict.ofList (files.map fun f => (f.path, f))).get? f.path with
    | some g =>
      obtain ⟨g', -, heq⟩ := List.mem_map.mp (Dict.mem_of_get?_ofList hget)
      obtain ⟨hpath, rfl⟩ := Prod.mk.inj heq
      exact List.mem_map.mpr ⟨g', Dict.mem_values.mpr ⟨_, hget⟩, hpath⟩
    | none =>
      rw [Dict.get?_ofList_eq_lookup, List.lookup_eq_none_iff] at hget
      have hmem : (f.path, f) ∈ (files.map fun f => (f.path, f)).reverse :=
        List.mem_reverse.mpr (List.mem_map.mpr ⟨f, hf, rfl⟩)
      exact absurd (hget _ hmem) (by simp)

/-- **With no path named, the listing is what it has of each output**, each path once. -/
theorem listing_eq_ok {l : Listing} (h : listing fields fs workdir outputs jobId found [] = .ok l) :
    ∃ roots, outputs.mapM (outputRoot fields fs workdir jobId found) = .ok roots ∧
      ∀ path, path ∈ l.files.map Listed.path ↔
        ∃ r ∈ roots, path ∈ (r.files fs workdir).map Listed.path := by
  unfold listing at h
  split at h
  · cases h
  · obtain ⟨roots, hroots, h⟩ := bind_eq_ok h
    unfold rootsOf at hroots
    rw [if_neg (not_not.mpr rfl)] at hroots
    split at hroots
    · obtain rfl := Except.ok.inj h
      refine ⟨roots, hroots, fun path => ?_⟩
      rw [mem_values_ofList, List.map_flatMap, List.mem_flatMap]
    · cases hroots

end

/-! ## The scan -/

section
variable {fs : Filesystem} {root : FilePath} {entries : Entries} {paths : List FilePath}

/-- A file is at what its path leads to. -/
theorem exists_of_isFile {path : FilePath} (h : fs.isFile path = true) :
    ∃ real info, fs.follow path = some real ∧ fs.tree.entry real = some (.file info) ∧
      fs.stat path = some info := by
  rw [Filesystem.isFile, Filesystem.kindOf] at h
  rw [Filesystem.stat]
  cases hfollow : fs.follow path with
  | none =>
    rw [hfollow] at h
    cases h
  | some real =>
    rw [hfollow] at h
    dsimp only at h ⊢
    cases hentry : fs.tree.entry real with
    | none =>
      rw [hentry] at h
      cases h
    | some kind =>
      rw [hentry] at h
      cases kind with
      | file info => exact ⟨real, info, rfl, hentry, rfl⟩
      | link | directory => cases h

theorem stat_of_isFile {path : FilePath} (h : fs.isFile path = true) :
    ∃ info, fs.stat path = some info := by
  obtain ⟨_, info, -, -, hstat⟩ := exists_of_isFile h
  exact ⟨info, hstat⟩

/-- The loop goes on from a file with that file recorded, unless there is one too many. -/
theorem scanFrom_file {path : FilePath} {info : Stat} (hfile : fs.isFile (root ++ path) = true)
    (hstat : fs.stat (root ++ path) = some info) :
    fs.scanFrom root entries (path :: paths) =
      if tooMany (entries.set (slashed path) (Filesystem.recorded info)) then
        entries.set (slashed path) (Filesystem.recorded info)
      else fs.scanFrom root (entries.set (slashed path) (Filesystem.recorded info)) paths := by
  rw [Filesystem.scanFrom, if_pos hfile, hstat]

theorem scanFrom_other {path : FilePath} (hfile : fs.isFile (root ++ path) = false) :
    fs.scanFrom root entries (path :: paths) = fs.scanFrom root entries paths := by
  rw [Filesystem.scanFrom, if_neg (by simp [hfile])]

/-- **The scan has one too many exactly when there are.** -/
theorem tooMany_scanFrom (hnames : ∀ path ∈ paths, ∀ name ∈ path, IsName name) (hnodup : paths.Nodup)
    (hfresh : ∀ path ∈ paths, slashed path ∉ entries.keys) (hfew : tooMany entries = false) :
    tooMany (fs.scanFrom root entries paths) = true ↔
      maxTracked < entries.entries.length + paths.countP fun path => fs.isFile (root ++ path) := by
  induction paths generalizing entries with
  | nil =>
    rw [List.countP_nil, Nat.add_zero]
    exact decide_eq_true_iff
  | cons path paths ih =>
    have hnames' := fun p hp => hnames p (List.mem_cons_of_mem path hp)
    obtain ⟨hnot, hnodup'⟩ := List.nodup_cons.mp hnodup
    cases hfile : fs.isFile (root ++ path) with
    | false =>
      rw [scanFrom_other hfile, List.countP_cons_of_neg (by simp [hfile])]
      exact ih hnames' hnodup' (fun p hp => hfresh p (List.mem_cons_of_mem path hp)) hfew
    | true =>
      obtain ⟨info, hstat⟩ := stat_of_isFile hfile
      have hnew := hfresh path List.mem_cons_self
      have hlength : (entries.set (slashed path) (Filesystem.recorded info)).entries.length
          = entries.entries.length + 1 := by
        simp [Dict.set, hnew]
      have hcount : (path :: paths).countP (fun path => fs.isFile (root ++ path))
          = (paths.countP fun path => fs.isFile (root ++ path)) + 1 :=
        List.countP_cons_of_pos hfile
      rw [scanFrom_file hfile hstat, hcount]
      split
      · next hmany =>
        have hover : maxTracked < entries.entries.length + 1 := by
          simpa [tooMany, hlength] using hmany
        exact iff_of_true hmany (by omega)
      · next hmany =>
        rw [ih hnames' hnodup' ?_ (by simpa using hmany), hlength]
        · omega
        · intro p hp hmem
          rcases Dict.mem_keys_set.mp hmem with heq | hmem
          · have hsame := slashed_inj (hnames' p hp) (hnames path List.mem_cons_self) heq
            exact hnot (hsame ▸ hp)
          · exact hfresh p (List.mem_cons_of_mem path hp) hmem

/-- What it records is what `stat` says of a file there. -/
theorem scanFrom_recorded {name : String} {record : List Int}
    (h : (fs.scanFrom root entries paths).get? name = some record) :
    entries.get? name = some record ∨ ∃ path ∈ paths, ∃ info, fs.isFile (root ++ path) = true ∧
      fs.stat (root ++ path) = some info ∧ name = slashed path ∧
        record = Filesystem.recorded info := by
  induction paths generalizing entries with
  | nil => exact .inl h
  | cons path paths ih =>
    cases hfile : fs.isFile (root ++ path) with
    | false =>
      rw [scanFrom_other hfile] at h
      rcases ih h with h | ⟨p, hp, hrest⟩
      · exact .inl h
      · exact .inr ⟨p, List.mem_cons_of_mem path hp, hrest⟩
    | true =>
      obtain ⟨info, hstat⟩ := stat_of_isFile hfile
      rw [scanFrom_file hfile hstat] at h
      have hset : (entries.set (slashed path) (Filesystem.recorded info)).get? name = some record →
          entries.get? name = some record ∨ name = slashed path ∧ record = Filesystem.recorded info := by
        intro hget
        rw [Dict.get?_set] at hget
        split at hget
        · next heq => exact .inr ⟨heq, (Option.some.inj hget).symm⟩
        · exact .inl hget
      have hhere : name = slashed path ∧ record = Filesystem.recorded info →
          ∃ p ∈ path :: paths, ∃ info, fs.isFile (root ++ p) = true ∧
            fs.stat (root ++ p) = some info ∧ name = slashed p ∧
              record = Filesystem.recorded info := by
        intro hpath
        exact ⟨path, List.mem_cons_self, info, hfile, hstat, hpath⟩
      split at h
      · exact (hset h).imp_right hhere
      · rcases ih h with h | ⟨p, hp, hrest⟩
        · exact (hset h).imp_right hhere
        · exact .inr ⟨p, List.mem_cons_of_mem path hp, hrest⟩

/-- What is recorded stays, under a name that does not come again. -/
theorem scanFrom_kept {name : String} {record : List Int} (hnot : ∀ path ∈ paths, slashed path ≠ name)
    (hget : entries.get? name = some record) :
    (fs.scanFrom root entries paths).get? name = some record := by
  induction paths generalizing entries with
  | nil => exact hget
  | cons path paths ih =>
    obtain ⟨hne, hnot⟩ := List.forall_mem_cons.mp hnot
    cases hfile : fs.isFile (root ++ path) with
    | false =>
      rw [scanFrom_other hfile]
      exact ih hnot hget
    | true =>
      obtain ⟨info, hstat⟩ := stat_of_isFile hfile
      have hset : (entries.set (slashed path) (Filesystem.recorded info)).get? name = some record := by
        rw [Dict.get?_set, if_neg (Ne.symm hne)]
        exact hget
      rw [scanFrom_file hfile hstat]
      split
      · exact hset
      · exact ih hnot hset

/-- **A scan that was not cut short has every file.** -/
theorem scanFrom_all (hnames : ∀ path ∈ paths, ∀ name ∈ path, IsName name) (hnodup : paths.Nodup)
    (hfull : tooMany (fs.scanFrom root entries paths) = false) {path : FilePath} (hpath : path ∈ paths)
    (hfile : fs.isFile (root ++ path) = true) {info : Stat} (hstat : fs.stat (root ++ path) = some info) :
    (fs.scanFrom root entries paths).get? (slashed path) = some (Filesystem.recorded info) := by
  induction paths generalizing entries with
  | nil => cases hpath
  | cons first paths ih =>
    have hnames' := fun p hp => hnames p (List.mem_cons_of_mem first hp)
    obtain ⟨hnot, hnodup'⟩ := List.nodup_cons.mp hnodup
    rcases List.mem_cons.mp hpath with rfl | hpath
    · rw [scanFrom_file hfile hstat] at hfull ⊢
      split
      · exact (Dict.get?_set ..).trans (if_pos rfl)
      · refine scanFrom_kept (fun p hp heq => hnot ?_) ((Dict.get?_set ..).trans (if_pos rfl))
        rwa [← slashed_inj (hnames' p hp) (hnames path List.mem_cons_self) heq]
    · cases hfirst : fs.isFile (root ++ first) with
      | false =>
        rw [scanFrom_other hfirst] at hfull ⊢
        exact ih hnames' hnodup' hfull hpath
      | true =>
        obtain ⟨other, hother⟩ := stat_of_isFile hfirst
        rw [scanFrom_file hfirst hother] at hfull ⊢
        split at hfull
        · next hmany =>
          rw [hmany] at hfull
          cases hfull
        · next hmany =>
          rw [if_neg hmany]
          exact ih hnames' hnodup' hfull hpath

end

namespace PlainDir

variable {fs : Filesystem} {root : FilePath} (d : PlainDir fs root)

theorem scan_eq : fs.scan root
    = fs.scanFrom root .empty (sortedBy id ((d.tree.entries []).map Prod.fst)) := by
  rw [Filesystem.scan, if_pos d.isDir, Filesystem.rglob, d.nodeAt]

/-- **The baseline is too long for an upload to read exactly when the directory had more files than are
tracked.** -/
theorem tooMany_scan : tooMany (fs.scan root) = true ↔ maxTracked < d.files.length := by
  have hentry : ∀ path ∈ (d.tree.entries []).map Prod.fst, d.tree.entry path ≠ none := by
    intro path hpath
    obtain ⟨⟨path, kind⟩, hmem, rfl⟩ := List.mem_map.mp hpath
    obtain ⟨rest, -, hrest, hkind⟩ := (FileTree.mem_entries d.proper).mp hmem
    rw [hrest, List.nil_append, hkind]
    exact nofun
  have hcount : ((d.tree.entries []).map Prod.fst).countP (fun path => fs.isFile (root ++ path))
      = d.files.length := by
    rw [files, List.length_filterMap_eq_countP, List.countP_map]
    apply List.countP_congr
    intro ⟨path, kind⟩ hmem
    obtain ⟨rest, -, hrest, hkind⟩ := (FileTree.mem_entries d.proper).mp hmem
    rw [List.nil_append] at hrest
    subst hrest
    show fs.isFile (root ++ path) = true ↔ _
    rw [d.isFile_append hkind]
    cases kind <;> simp
  rw [d.scan_eq, tooMany_scanFrom, (sortedBy_perm id _).countP_eq, hcount]
  · show maxTracked < 0 + d.files.length ↔ _
    rw [Nat.zero_add]
  · intro path hpath name hname
    exact (d.names path (hentry path (mem_sortedBy.mp hpath)) name hname).1
  · exact nodup_sortedBy.mpr (FileTree.nodup_entries d.proper [])
  · intro path _
    exact List.not_mem_nil
  · rfl

/-- What the baseline records is a file that was there. -/
theorem scan_recorded {name : String} {record : List Int}
    (h : (fs.scan root).get? name = some record) :
    ∃ path info, (path, info) ∈ d.files ∧ name = slashed path ∧
      record = Filesystem.recorded info := by
  rw [d.scan_eq] at h
  rcases scanFrom_recorded h with h | ⟨path, hpath, info, hfile, hstat, hname, hrecord⟩
  · cases h
  · obtain ⟨⟨path, kind⟩, hmem, rfl⟩ := List.mem_map.mp (mem_sortedBy.mp hpath)
    obtain ⟨rest, -, hrest, hkind⟩ := (FileTree.mem_entries d.proper).mp hmem
    rw [List.nil_append] at hrest
    subst hrest
    obtain ⟨info', rfl⟩ := (d.isFile_append hkind).mp hfile
    obtain rfl := Option.some.inj ((d.stat_append hkind).symm.trans hstat)
    exact ⟨path, info', d.mem_files.mpr hkind, hname, hrecord⟩

/-- And all of them, where there were no more than are tracked. -/
theorem scan_all (hfull : tooMany (fs.scan root) = false) {path : FilePath} {info : Stat}
    (hfile : (path, info) ∈ d.files) :
    (fs.scan root).get? (slashed path) = some (Filesystem.recorded info) := by
  have hentry := d.mem_files.mp hfile
  rw [d.scan_eq] at hfull ⊢
  refine scanFrom_all ?_ (nodup_sortedBy.mpr (FileTree.nodup_entries d.proper [])) hfull ?_
    ((d.isFile_append hentry).mpr ⟨info, rfl⟩) (d.stat_append hentry)
  · intro path hpath name hname
    obtain ⟨⟨path, kind⟩, hmem, rfl⟩ := List.mem_map.mp (mem_sortedBy.mp hpath)
    obtain ⟨rest, -, hrest, hkind⟩ := (FileTree.mem_entries d.proper).mp hmem
    rw [List.nil_append] at hrest
    subst hrest
    exact (d.names path (by rw [show (FileTree.directory d.children).entry path = _ from hkind]; simp)
      name hname).1
  · have hne : path ≠ [] := by
      rintro rfl
      cases hentry
    exact mem_sortedBy.mpr (List.mem_map.mpr
      ⟨(path, .file info), (FileTree.mem_entries d.proper).mpr ⟨path, hne, rfl, hentry⟩, rfl⟩)

end PlainDir

/-! ## The law -/

/-- **A fetch and an upload of one output**, after anything the job did: what the listing has of the
output is what the upload does not leave out exactly when the upload reads the baseline, or nothing in
it is as it was. -/
theorem listing_agrees_iff {fields : Fields} {before after : Filesystem} {workdir : FilePath}
    {outputs : List Output} {jobId : JobId} {found : Baseline} {l : Listing}
    (hcapture : capture fields before workdir outputs jobId = .ok found)
    (hlisting : listing fields after workdir outputs jobId found [] = .ok l)
    {output : Output} (houtput : output ∈ outputs) {key : String}
    (hkey : outputKey fields output jobId = .ok key) (d : PlainDir after (workdir ++ partsOf key))
    {link : Bool} {now minAge : ℚ} (hquiet : recentlyModified (.dir d.upload link) now minAge = []) :
    ∃ r : Root, outputRoot fields after workdir jobId found output = .ok r ∧
      r = ⟨key, workdir ++ partsOf key, before.scan (workdir ++ partsOf key)⟩ ∧
      (∀ path, path ∈ l.files.map Listed.path ↔ ∃ output ∈ outputs, ∃ r,
        outputRoot fields after workdir jobId found output = .ok r ∧
          path ∈ (r.files after workdir).map Listed.path) ∧
      (∀ printed u place attempts, (place key).2 = .dir d.upload link →
        syncOutput fields printed u place output jobId now minAge r.entries = .ok attempts →
        ∀ a ∈ attempts, a.exclude = leftOut (.dir d.upload link) r.entries now minAge) ∧
      (Agrees (r.files after workdir) key d.upload (leftOut (.dir d.upload link) r.entries now minAge) ↔
        (tooMany r.entries = true →
          ∀ f ∈ d.upload.files, f.path ∉ unchanged d.upload.statOf r.entries)) := by
  obtain ⟨roots, hroots, hfiles⟩ := listing_eq_ok hlisting
  obtain ⟨r, -, hr⟩ := mem_mapM_eq_ok hroots houtput
  obtain ⟨heq, hjoin⟩ := outputRoot_eq_ok hkey hr
  rw [capture_get? hcapture houtput hkey, hjoin, Option.getD_some] at heq
  refine ⟨r, hr, heq, fun path => ?_, fun printed u place attempts hplace hsync a ha => ?_, ?_⟩
  · rw [hfiles]
    constructor
    · intro ⟨r, hmem, hpath⟩
      obtain ⟨output, houtput, hr⟩ := exists_of_mem_mapM hroots hmem
      exact ⟨output, houtput, r, hr, hpath⟩
    · intro ⟨output, houtput, r, hr, hpath⟩
      obtain ⟨r', hmem, hr'⟩ := mem_mapM_eq_ok hroots houtput
      obtain rfl := Except.ok.inj (hr.symm.trans hr')
      exact ⟨r, hmem, hpath⟩
  · rw [← hplace]
    exact syncOutput_leftOut hkey hsync a ha
  · subst heq
    exact agrees_iff (r := ⟨key, _, _⟩) rfl d hquiet

/-! ## A directory of many files -/

/-- The names of its files: no two alike. -/
def numbered (i : Nat) : String := String.ofList (List.replicate (i + 1) 'a')

/-- When each of them was made. -/
def madeAt : Stat := { size := 1, mtimeNs := 5000000000, mtime := 5 }

def results (n : Nat) : List (String × FileTree Stat) :=
  (List.range n).map fun i => (numbered i, .file madeAt)

theorem numbered_inj {i j : Nat} (h : numbered i = numbered j) : i = j := by
  have hlength := congrArg (fun s => s.toList.length) h
  simpa [numbered] using hlength

theorem nodup_results (n : Nat) : ((results n).map Prod.fst).Nodup := by
  rw [results, List.map_map]
  exact List.nodup_range.map fun i j h => numbered_inj h

theorem isName_numbered (i : Nat) : IsName (numbered i) where
  nonempty := by simp [numbered]
  notHere := by simp [numbered, List.replicate_succ]
  plain := by simp [numbered]

/-- What is in the directory. -/
theorem entry_results {n : Nat} {path : FilePath} {kind : Kind Stat}
    (h : (FileTree.directory (results n)).entry path = some kind) :
    (path = [] ∧ kind = .directory) ∨ ∃ i < n, path = [numbered i] ∧ kind = .file madeAt := by
  cases path with
  | nil => exact .inl ⟨rfl, (Option.some.inj h).symm⟩
  | cons name rest =>
    rw [FileTree.entry_cons] at h
    obtain ⟨node, hnode, h⟩ := Option.bind_eq_some_iff.mp h
    have hmem := Dict.get?_eq_some (d := ⟨results n, nodup_results n⟩).mp hnode
    obtain ⟨i, hi, heq⟩ := List.mem_map.mp hmem
    obtain ⟨rfl, rfl⟩ := Prod.mk.inj heq
    cases rest with
    | nil => exact .inr ⟨i, List.mem_range.mp hi, rfl, (Option.some.inj h).symm⟩
    | cons => cases h

/-- A host with a workdir `w`, and `n` files in the directory `out` there. -/
def crowded (n : Nat) : Filesystem where
  tree := .directory [("w", .directory [("out", .directory (results n))])]
  proper := by
    have hfiles : ∀ child ∈ results n, child.2.Proper := by
      intro child hchild
      obtain ⟨i, -, rfl⟩ := List.mem_map.mp hchild
      exact .file madeAt
    simpa using ⟨nodup_results n, fun name node hmem => hfiles (name, node) hmem⟩
  directoryStat _ := madeAt
  steps := 0

def crowdedOut (n : Nat) : PlainDir (crowded n) ["w", "out"] where
  real := ["w", "out"]
  children := results n
  follow := rfl
  node := rfl
  noLinks path absolute target hlink := by
    rcases entry_results hlink with ⟨-, hkind⟩ | ⟨_, _, -, hkind⟩ <;> cases hkind
  names path hentry name hname := by
    obtain ⟨kind, hkind⟩ := Option.ne_none_iff_exists'.mp hentry
    rcases entry_results hkind with ⟨rfl, -⟩ | ⟨i, -, rfl, -⟩
    · exact absurd hname List.not_mem_nil
    · obtain rfl := List.mem_singleton.mp hname
      refine ⟨isName_numbered i, fun hup => ?_⟩
      have hchars := congrArg String.toList hup
      simp [numbered, List.replicate_succ] at hchars

/-- The spec's one output. -/
def toOut : Output := { path := "out" }

theorem outputKey_toOut : outputKey Control.jobIdOnly toOut "j" = .ok "out" := by decide +kernel

theorem partsOf_out : partsOf "out" = ["out"] := by decide +kernel

theorem capture_crowded (n : Nat) :
    ∃ found, capture Control.jobIdOnly (crowded n) ["w"] [toOut] "j" = .ok found := by
  rw [capture, List.foldlM_cons, outputKey_toOut]
  exact ⟨_, rfl⟩

theorem listing_crowded (n : Nat) (found : Baseline) :
    ∃ l, listing Control.jobIdOnly (crowded n) ["w"] [toOut] "j" found [] = .ok l := by
  have hinside : inside (crowded n) ["w"] "out" = .ok ["w", "out"] := by
    have hrelative : "out".toList.head? ≠ some '/' := by decide +kernel
    have hjoin : join ["w"] "out" = ["w", "out"] := by decide +kernel
    rw [inside, if_neg hrelative, hjoin]
    exact if_pos (List.prefix_append ["w"] ["out"])
  have hroots : ∃ roots, rootsOf Control.jobIdOnly (crowded n) ["w"] [toOut] "j" found [] = .ok roots := by
    rw [rootsOf, if_neg (not_not.mpr rfl), if_pos (List.cons_ne_nil _ _)]
    apply exists_mapM_ok.mpr
    intro output houtput
    obtain rfl := List.mem_singleton.mp houtput
    rw [outputRoot, outputKey_toOut]
    exact exists_bind_ok.mpr ⟨"out", rfl, exists_bind_ok.mpr ⟨_, hinside, _, rfl⟩⟩
  obtain ⟨roots, hroots⟩ := hroots
  have hdir : (crowded n).isDir ["w"] = true := rfl
  rw [listing, hdir, if_neg (by decide), hroots]
  exact ⟨_, rfl⟩

theorem mem_files_crowded {n : Nat} {path : FilePath} {info : Stat} :
    (path, info) ∈ (crowdedOut n).files ↔ ∃ i < n, path = [numbered i] ∧ info = madeAt := by
  rw [PlainDir.mem_files]
  constructor
  · intro hentry
    rcases entry_results hentry with ⟨-, hkind⟩ | ⟨i, hi, hpath, hkind⟩
    · cases hkind
    · exact ⟨i, hi, hpath, Kind.file.inj hkind⟩
  · intro ⟨i, hi, hpath, hinfo⟩
    subst hpath hinfo
    have hmem : (numbered i, FileTree.file madeAt) ∈ results n :=
      List.mem_map.mpr ⟨i, List.mem_range.mpr hi, rfl⟩
    show FileTree.entry (.directory (results n)) [numbered i] = _
    rw [FileTree.entry_cons,
      show (results n).lookup (numbered i) = some (.file madeAt) from
        Dict.get?_eq_some (d := ⟨results n, nodup_results n⟩).mpr hmem]
    rfl

/-- Its files: one for each number. -/
theorem length_files_crowded (n : Nat) : (crowdedOut n).files.length = n := by
  have hperm : (crowdedOut n).files.Perm ((List.range n).map fun i => ([numbered i], madeAt)) := by
    refine (List.perm_ext_iff_of_nodup ?_ ?_).mpr ?_
    · exact (crowdedOut n).nodup_files
    · refine List.nodup_range.map fun i j h => ?_
      exact numbered_inj (List.singleton_inj.mp (Prod.mk.inj h).1)
    · intro ⟨path, info⟩
      rw [mem_files_crowded, List.mem_map]
      constructor
      · intro ⟨i, hi, hpath, hinfo⟩
        exact ⟨i, List.mem_range.mpr hi, by rw [hpath, hinfo]⟩
      · intro ⟨i, hi, heq⟩
        obtain ⟨rfl, rfl⟩ := Prod.mk.inj heq
        exact ⟨i, List.mem_range.mp hi, rfl, rfl⟩
  rw [hperm.length_eq, List.length_map, List.length_range]

/-- At the hundredth second nothing there is in flight. -/
theorem quiet_crowded (n : Nat) :
    recentlyModified (.dir (crowdedOut n).upload false) 100 10 = [] := by
  have hnone : (crowdedOut n).upload.files.filter (fun f =>
      f.beyondLink = false ∧ 100 - 10 < f.stat.mtime) = [] := by
    apply List.filter_eq_nil_iff.mpr
    intro f hf hlate
    obtain ⟨path, info, hfile, rfl⟩ := (crowdedOut n).mem_upload.mp hf
    obtain ⟨i, -, -, rfl⟩ := mem_files_crowded.mp hfile
    have hlate' := (of_decide_eq_true hlate).2
    exact absurd hlate' (by decide +kernel : ¬ (100 - 10 : ℚ) < madeAt.mtime)
  rw [recentlyModified, hnone]
  rfl

/-- A file is uploaded and not fetched, where the checkout came with too many. -/
theorem crowded_missed {n m : Nat} (hn : maxTracked < n) (hm : n ≤ m) : ∃ found l,
    capture Control.jobIdOnly (crowded n) ["w"] [toOut] "j" = .ok found ∧
      listing Control.jobIdOnly (crowded m) ["w"] [toOut] "j" found [] = .ok l ∧
      ∃ entries, found.get? "out" = some entries ∧ ∃ f ∈ (crowdedOut m).upload.files,
        f.path ∉ leftOut (.dir (crowdedOut m).upload false) entries 100 10 ∧
          underKey "out" f.path ∉ l.files.map Listed.path := by
  obtain ⟨found, hcapture⟩ := capture_crowded n
  obtain ⟨l, hlisting⟩ := listing_crowded m found
  have hget := capture_get? hcapture (List.mem_singleton_self toOut) outputKey_toOut
  have hjoin : join ["w"] "out" = ["w", "out"] := by decide +kernel
  rw [hjoin] at hget
  have hmany : tooMany ((crowded n).scan ["w", "out"]) = true := by
    rw [(crowdedOut n).tooMany_scan, length_files_crowded]
    exact hn
  refine ⟨found, l, hcapture, hlisting, _, hget, ?_⟩
  -- the scan took a file, and the job has left it as it was
  obtain ⟨i, hi, hentry⟩ : ∃ i < n, ((crowded n).scan ["w", "out"]).get? (slashed [numbered i])
      = some (Filesystem.recorded madeAt) := by
    have hsome : ((crowded n).scan ["w", "out"]).entries ≠ [] := by
      intro hnil
      rw [tooMany, hnil] at hmany
      cases hmany
    obtain ⟨⟨name, record⟩, hmem⟩ := List.exists_mem_of_ne_nil _ hsome
    have hread := Dict.get?_eq_some.mpr hmem
    obtain ⟨path, info, hfile, rfl, rfl⟩ := (crowdedOut n).scan_recorded hread
    obtain ⟨i, hi, rfl, rfl⟩ := mem_files_crowded.mp hfile
    exact ⟨i, hi, hread⟩
  have hnow : ([numbered i], madeAt) ∈ (crowdedOut m).files :=
    mem_files_crowded.mpr ⟨i, by omega, rfl, rfl⟩
  have hf := (crowdedOut m).mem_upload.mpr ⟨_, _, hnow, rfl⟩
  have hstat := (crowdedOut m).statOf_upload hnow
  have hkept : madeAt.sameAs (Filesystem.recorded madeAt) = true := by decide +kernel
  have hsame : slashed [numbered i] ∈
      unchanged (crowdedOut m).upload.statOf ((crowded n).scan ["w", "out"]) :=
    mem_unchanged.mpr ⟨_, madeAt, hentry, hstat, hkept⟩
  refine ⟨_, hf, ?_, fun hlisted => ?_⟩
  · rw [leftOut, hmany, if_pos rfl, quiet_crowded m]
    exact List.not_mem_nil
  · obtain ⟨roots, hroots, hfiles⟩ := listing_eq_ok hlisting
    obtain ⟨r, hr, hpath⟩ := (hfiles _).mp hlisted
    obtain ⟨output, houtput, hr⟩ := exists_of_mem_mapM hroots hr
    obtain rfl := List.mem_singleton.mp houtput
    obtain ⟨rfl, -⟩ := outputRoot_eq_ok outputKey_toOut hr
    rw [partsOf_out, hget, Option.getD_some] at hpath
    obtain ⟨g, hg, hnew, heq⟩ := (mem_rootFiles (by rw [partsOf_out]) (crowdedOut m)).mp hpath
    exact hnew (underKey_inj (crowdedOut m) hf hg heq ▸ hsame)

/-- **What is fetched and what is uploaded differ** for a checkout with one file more than are tracked,
to which the job has added one: nothing is in flight, and a file that the upload takes is not listed. -/
theorem crowded_differs : ∃ found l,
    capture Control.jobIdOnly (crowded 501) ["w"] [toOut] "j" = .ok found ∧
      listing Control.jobIdOnly (crowded 502) ["w"] [toOut] "j" found [] = .ok l ∧
      recentlyModified (.dir (crowdedOut 502).upload false) 100 10 = [] ∧
      ∃ entries, found.get? "out" = some entries ∧ ∃ f ∈ (crowdedOut 502).upload.files,
        f.path ∉ leftOut (.dir (crowdedOut 502).upload false) entries 100 10 ∧
          underKey "out" f.path ∉ l.files.map Listed.path := by
  obtain ⟨found, l, hcapture, hlisting, hmissed⟩ :=
    crowded_missed (show maxTracked < 501 by decide) (show 501 ≤ 502 by decide)
  exact ⟨found, l, hcapture, hlisting, quiet_crowded 502, hmissed⟩

/-- A checkout with one file there, to which the job has added one. -/
theorem listing_agrees_iff_one : ∃ found l r,
    capture Control.jobIdOnly (crowded 1) ["w"] [toOut] "j" = .ok found ∧
      listing Control.jobIdOnly (crowded 2) ["w"] [toOut] "j" found [] = .ok l ∧
      outputRoot Control.jobIdOnly (crowded 2) ["w"] "j" found toOut = .ok r ∧
      Agrees (r.files (crowded 2) ["w"]) "out" (crowdedOut 2).upload
        (leftOut (.dir (crowdedOut 2).upload false) r.entries 100 10) := by
  obtain ⟨found, hcapture⟩ := capture_crowded 1
  obtain ⟨l, hlisting⟩ := listing_crowded 2 found
  have hlaw : ∀ root, ["w"] ++ partsOf "out" = root → ∀ d : PlainDir (crowded 2) root,
      recentlyModified (.dir d.upload false) 100 10 = [] →
      (tooMany ((crowded 1).scan root) = false) →
      ∃ r, outputRoot Control.jobIdOnly (crowded 2) ["w"] "j" found toOut = .ok r ∧
        Agrees (r.files (crowded 2) ["w"]) "out" d.upload
          (leftOut (.dir d.upload false) r.entries 100 10) := by
    rintro root rfl d hquiet hfew
    obtain ⟨r, hr, heq, -, -, hagrees⟩ := listing_agrees_iff hcapture hlisting
      (List.mem_singleton_self toOut) outputKey_toOut d hquiet
    refine ⟨r, hr, hagrees.mpr fun hmany => ?_⟩
    rw [heq, hfew] at hmany
    cases hmany
  have hfew : tooMany ((crowded 1).scan ["w", "out"]) = false := by
    rw [Bool.eq_false_iff, ne_eq, (crowdedOut 1).tooMany_scan, length_files_crowded]
    decide
  obtain ⟨r, hr, hagrees⟩ :=
    hlaw ["w", "out"] (by rw [partsOf_out]; rfl) (crowdedOut 2) (quiet_crowded 2) hfew
  exact ⟨found, l, r, hcapture, hlisting, hr, hagrees⟩

end Gpuc.Host
