import Gpuc.Basis.Fallible
import Gpuc.Basis.Sorted
import Gpuc.Laws.Job.Removed

/-!
# What a dry run says

A purge deletes job dirs and then judges the workdirs of the jobs that stay on what is left; a dry run
judges them with everything still there. The two say the same of a job when nothing it is judged by goes
with another (`sweepVerdict_of_keeps`), so that the report of a real run is that of the dry run before it
wherever no purged job's paths lead into what a job that stays is judged by: `purge_dry_run`.
-/

set_option autoImplicit false

namespace Gpuc.Host.Purge

open Gpuc.Basis Filesystem
open Cleanup (join)

/-! ## What a job is judged by -/

section Watches
variable (r : Reader) (s : Site) (id : String)

/-- The paths that are looked at whatever is found there. -/
def Site.watched : List FilePath :=
  [s.jobsDir, s.jobDir id, s.jobDir id ++ ["workdir"], s.workdir id, s.checkoutArchive id,
   s.specFile id, s.stateFile id, s.outputsBaselineFile id]

/-- An output that may be compared with what was recorded of it. -/
def Compares (root : FilePath) (entries : Entries) : Prop :=
  ∃ spec found output key, readableSpec r s id = .ok (some spec) ∧ readBaseline s id = .ok found ∧
    output ∈ spec.outputs ∧ outputKey r.fields (asOutput output) id = .ok key ∧
    root = join (s.workdir id) key ∧ entries = (found.get? key).getD .empty

/-- **An entry that a job is judged by**: how it is listed, what its files are and where they are, and
what its outputs hold. -/
def Watches (p : FilePath) : Prop :=
  s.fs.target (s.jobDir id) = some p ∨ (∃ path ∈ s.watched id, s.fs.Sees path p) ∨
    ∃ root entries, Compares r s id root entries ∧ s.fs.SeesContent root p entries

end Watches

/-! ## What a purge deletes -/

namespace Site
variable (s : Site) (id : String)

/-- Where the workdir of a job may be. -/
def workdirs : List FilePath :=
  (s.jobDir id ++ ["workdir"]) :: s.scratch.toList.map fun scratch => scratch ++ [id]

/-- Everything that is deleted with a job. -/
def leftovers : List FilePath :=
  s.workdirs id ++ (s.workdirs id).map (fun dir => dir.dropLast ++ [s!".{id}.partial"]) ++
    [s.jobDir id, s.jobEnvFile id]

/-- **An entry that is deleted with a job.** -/
def Deletes (p : FilePath) : Prop :=
  ∃ path ∈ s.leftovers id, ∃ real, s.fs.target path = some real ∧ real <+: p

/-- **What is left of this host**: some of its files. -/
structure Shrinks (before after : Site) : Prop where
  leaves : Leaves before.fs after.fs
  content : after.content = before.content
  home : after.home = before.home
  scratch : after.scratch = before.scratch

end Site

section Shrinks
variable {s s' s'' : Site}

theorem Site.Shrinks.refl (s : Site) : Site.Shrinks s s := ⟨.refl s.fs, rfl, rfl, rfl⟩

theorem Site.Shrinks.trans (h : Site.Shrinks s s') (h' : Site.Shrinks s' s'') : Site.Shrinks s s'' where
  leaves := h.leaves.trans h'.leaves
  content := h'.content.trans h.content
  home := h'.home.trans h.home
  scratch := h'.scratch.trans h.scratch

theorem workdir_mem (s : Site) (id : String) : s.workdir id ∈ s.workdirs id := by
  unfold Site.workdir Site.workdirs
  cases s.scratch with
  | none => exact List.mem_cons_self
  | some scratch =>
    dsimp only
    split
    · exact List.mem_cons_self
    · exact List.mem_cons_of_mem _ List.mem_cons_self

/-- What is removed as a tree is among what goes with a job. -/
theorem mem_leftovers {path : FilePath} {id : String}
    (h : path ∈ [s.workdir id, s.partialWorkdir id, s.jobDir id]) : path ∈ s.leftovers id := by
  unfold Site.leftovers
  simp only [List.mem_cons, List.not_mem_nil, or_false] at h
  rcases h with rfl | rfl | rfl
  · exact List.mem_append_left _ (List.mem_append_left _ (workdir_mem s id))
  · exact List.mem_append_left _ (List.mem_append_right _ (List.mem_map_of_mem (workdir_mem s id)))
  · exact List.mem_append_right _ List.mem_cons_self

theorem Site.Shrinks.jobDir_eq (h : Site.Shrinks s s') (id : String) : s'.jobDir id = s.jobDir id := by
  rw [Site.jobDir, Site.jobsDir, h.home, Site.jobDir, Site.jobsDir]

theorem Site.Shrinks.stateFile_eq (h : Site.Shrinks s s') (id : String) :
    s'.stateFile id = s.stateFile id := by
  rw [Site.stateFile, h.jobDir_eq, Site.stateFile]

theorem Site.Shrinks.specFile_eq (h : Site.Shrinks s s') (id : String) :
    s'.specFile id = s.specFile id := by
  rw [Site.specFile, h.jobDir_eq, Site.specFile]

theorem Site.Shrinks.outputsBaselineFile_eq (h : Site.Shrinks s s') (id : String) :
    s'.outputsBaselineFile id = s.outputsBaselineFile id := by
  rw [Site.outputsBaselineFile, h.jobDir_eq, Site.outputsBaselineFile]

theorem Site.Shrinks.checkoutArchive_eq (h : Site.Shrinks s s') (id : String) :
    s'.checkoutArchive id = s.checkoutArchive id := by
  rw [Site.checkoutArchive, h.jobDir_eq, Site.checkoutArchive]

theorem Site.Shrinks.leftovers_eq (h : Site.Shrinks s s') (id : String) :
    s'.leftovers id = s.leftovers id := by
  simp only [Site.leftovers, Site.workdirs, Site.jobEnvFile, h.jobDir_eq, h.home, h.scratch]

/-- What a job's paths lead to in what is left, they led to. -/
theorem Site.Shrinks.deletes (h : Site.Shrinks s s') {id : String} {p : FilePath}
    (hdeletes : s'.Deletes id p) : s.Deletes id p := by
  obtain ⟨path, hpath, real, htarget, hp⟩ := hdeletes
  rw [h.leftovers_eq] at hpath
  exact ⟨path, hpath, real, h.leaves.target_eq_some htarget, hp⟩

theorem rmtree_eq_ok {fs fs' : Filesystem} {path : FilePath} (h : fs.rmtree path = .ok fs') :
    fs' = fs.remove path := by
  unfold rmtree at h
  split at h
  · cases h
  · exact (Except.ok.inj h).symm

theorem leaves_rmtrees (paths : List FilePath) (fs : Filesystem) : Leaves fs (rmtrees paths fs).1 := by
  induction paths generalizing fs with
  | nil => exact .refl fs
  | cons path paths ih =>
    rw [rmtrees]
    split
    · cases hrm : fs.rmtree path with
      | error e => exact .refl fs
      | ok fs' =>
        obtain rfl := rmtree_eq_ok hrm
        exact leaves_remove.trans (ih _)
    · exact ih fs

/-- Elsewhere the trees that go leave everything. -/
theorem entry_rmtrees {p : FilePath} (paths : List FilePath) (fs : Filesystem)
    (h : ∀ path ∈ paths, ∀ real, fs.target path = some real → ¬ real <+: p) :
    (rmtrees paths fs).1.tree.entry p = fs.tree.entry p := by
  induction paths generalizing fs with
  | nil => rfl
  | cons path paths ih =>
    have hrest := List.forall_mem_cons.mp h
    rw [rmtrees]
    split
    · cases hrm : fs.rmtree path with
      | error e => rfl
      | ok fs' =>
        obtain rfl := rmtree_eq_ok hrm
        refine (ih _ fun other hother real htarget => ?_).trans (entry_remove hrest.1)
        exact hrest.2 other hother real (leaves_remove.target_eq_some htarget)
    · exact ih fs hrest.2

theorem leaves_unlink {fs : Filesystem} {path : FilePath} : Leaves fs (fs.unlink path) := by
  unfold unlink
  split
  · exact leaves_remove
  · exact leaves_remove
  · exact .refl fs
  · exact .refl fs

theorem entry_unlink {fs : Filesystem} {path p : FilePath}
    (h : ∀ real, fs.target path = some real → ¬ real <+: p) :
    (fs.unlink path).tree.entry p = fs.tree.entry p := by
  unfold unlink
  split
  · exact entry_remove h
  · exact entry_remove h
  · rfl
  · rfl

/-- **Removing a job dir takes nothing but what goes with the job.** -/
theorem shrinks_removeJobDir (s : Site) (id : String) : Site.Shrinks s (removeJobDir s id).1 := by
  have hleaves := leaves_rmtrees [s.workdir id, s.partialWorkdir id, s.jobDir id] s.fs
  unfold removeJobDir
  split
  · next hrm =>
    rw [hrm] at hleaves
    exact ⟨hleaves, rfl, rfl, rfl⟩
  · next hrm =>
    rw [hrm] at hleaves
    exact ⟨hleaves.trans leaves_unlink, rfl, rfl, rfl⟩

theorem entry_removeJobDir {id : String} {p : FilePath} (h : ¬ s.Deletes id p) :
    (removeJobDir s id).1.fs.tree.entry p = s.fs.tree.entry p := by
  have hafter : ∀ path ∈ s.leftovers id, ∀ real, s.fs.target path = some real → ¬ real <+: p :=
    fun path hpath real htarget hp => h ⟨path, hpath, real, htarget, hp⟩
  have hleaves := leaves_rmtrees [s.workdir id, s.partialWorkdir id, s.jobDir id] s.fs
  have hentry := entry_rmtrees (p := p) [s.workdir id, s.partialWorkdir id, s.jobDir id] s.fs
    fun path hpath => hafter path (mem_leftovers hpath)
  unfold removeJobDir
  split
  · next hrm =>
    rw [hrm] at hentry
    exact hentry
  · next hrm =>
    rw [hrm] at hentry hleaves
    refine (entry_unlink fun real htarget => ?_).trans hentry
    refine hafter (s.jobEnvFile id) ?_ real (hleaves.target_eq_some htarget)
    exact List.mem_append_right _ (List.mem_cons_of_mem _ List.mem_cons_self)

end Shrinks

/-! ## Judging what is left -/

section Judged
variable {r : Reader} {s s' : Site} {id : String} (h : Site.Shrinks s s')
include h

theorem readJson_of_keeps {path : FilePath} (hkeeps : Keeps s.fs s'.fs (s.fs.Sees path)) :
    s'.readJson path = s.readJson path := by
  rw [Site.readJson, follow_of_keeps h.leaves hkeeps, isFile_of_keeps h.leaves hkeeps, h.content,
    Site.readJson]

variable (hkeeps : Keeps s.fs s'.fs (Watches r s id))
include hkeeps

omit h in
/-- A path that is looked at is seen. -/
theorem keeps_watched (path : FilePath) (hpath : path ∈ s.watched id) :
    Keeps s.fs s'.fs (s.fs.Sees path) :=
  hkeeps.mono fun _ hp => .inr (.inl ⟨path, hpath, hp⟩)

theorem workdir_of_keeps : s'.workdir id = s.workdir id := by
  have hsees := keeps_watched hkeeps (s.jobDir id ++ ["workdir"]) (by simp [Site.watched])
  rw [Site.workdir, h.jobDir_eq, h.scratch, present_of_keeps h.leaves hsees, Site.workdir]

theorem readState_of_keeps : readState r s' id = readState r s id := by
  have hsees := keeps_watched hkeeps (s.stateFile id) (by simp [Site.watched])
  rw [readState, h.stateFile_eq, readJson_of_keeps h hsees, readState]

theorem readableSpec_of_keeps : readableSpec r s' id = readableSpec r s id := by
  have hsees := keeps_watched hkeeps (s.specFile id) (by simp [Site.watched])
  rw [readableSpec, readSpec, h.specFile_eq, readJson_of_keeps h hsees, readableSpec, readSpec]

theorem readBaseline_of_keeps : readBaseline s' id = readBaseline s id := by
  have hsees := keeps_watched hkeeps (s.outputsBaselineFile id) (by simp [Site.watched])
  rw [readBaseline, h.outputsBaselineFile_eq, readJson_of_keeps h hsees, readBaseline]

theorem isDir_workdir_of_keeps : s'.fs.isDir (s'.workdir id) = s.fs.isDir (s.workdir id) := by
  have hsees := keeps_watched hkeeps (s.workdir id) (by simp [Site.watched])
  rw [workdir_of_keeps h hkeeps, isDir_of_keeps h.leaves hsees]

theorem hasCheckout_of_keeps : hasCheckout r s' id = hasCheckout r s id := by
  have hsees := keeps_watched hkeeps (s.checkoutArchive id) (by simp [Site.watched])
  unfold hasCheckout
  rw [isDir_workdir_of_keeps h hkeeps, readState_of_keeps h hkeeps, h.checkoutArchive_eq,
    isFile_of_keeps h.leaves hsees]

theorem written_of_keeps {spec : Documents.JobSpec} {found : Baseline} {output : Documents.Output}
    (hspec : readableSpec r s id = .ok (some spec)) (hfound : readBaseline s id = .ok found)
    (houtput : output ∈ spec.outputs) (kept : Bool) :
    written r s' id kept found output = written r s id kept found output := by
  rw [written, written, workdir_of_keeps h hkeeps]
  split
  · rfl
  · cases hkey : outputKey r.fields (asOutput output) id with
    | error e => cases e <;> rfl
    | ok key =>
      have hcontent := newContent_of_keeps (join (s.workdir id) key)
        ((found.get? key).getD .empty) h.leaves <| hkeeps.mono fun p hp =>
          .inr (.inr ⟨_, _, ⟨spec, found, output, key, hspec, hfound, houtput, hkey, rfl, rfl⟩, hp⟩)
      dsimp only
      rw [hcontent]

theorem anyWritten_of_keeps {spec : Documents.JobSpec} {found : Baseline}
    (hspec : readableSpec r s id = .ok (some spec)) (hfound : readBaseline s id = .ok found)
    {outputs : List Documents.Output} (hsub : ∀ output ∈ outputs, output ∈ spec.outputs) :
    anyWritten r s' id found outputs = anyWritten r s id found outputs := by
  induction outputs with
  | nil => rfl
  | cons output outputs ih =>
    rw [List.forall_mem_cons] at hsub
    rw [anyWritten, written_of_keeps h hkeeps hspec hfound hsub.1, ih hsub.2, anyWritten]

theorem outputsPending_of_keeps {spec : Documents.JobSpec} (state : Documents.JobState)
    (hspec : readableSpec r s id = .ok (some spec)) :
    outputsPending r s' id spec state = outputsPending r s id spec state := by
  rw [outputsPending, outputsPending, isDir_workdir_of_keeps h hkeeps, readBaseline_of_keeps h hkeeps]
  cases hfound : readBaseline s id with
  | error e => rfl
  | ok found =>
    have hany := anyWritten_of_keeps h hkeeps hspec hfound fun _ hmem => hmem
    simp only [Except.mapError, bind, Except.bind, hany]

theorem mayDelete_of_keeps (state : Documents.JobState) (evidence : Evidence) :
    mayDelete r s' id state .workdir evidence = mayDelete r s id state .workdir evidence := by
  rw [mayDelete, mayDelete, readableSpec_of_keeps h hkeeps]
  cases hspec : readableSpec r s id with
  | error e => rfl
  | ok spec =>
    cases spec with
    | none => rfl
    | some spec =>
      have hpending := outputsPending_of_keeps h hkeeps state hspec
      simp only [Except.mapError, bind, Except.bind, hpending]

theorem finishedAge_of_keeps (moment : Int) : finishedAge r s' id moment = finishedAge r s id moment := by
  rw [finishedAge, readState_of_keeps h hkeeps, finishedAge]

/-- **A sweep says the same of a job, when everything it is judged by is still there.** -/
theorem sweepVerdict_of_keeps (q : CleanQuery) : sweepVerdict r s' id q = sweepVerdict r s id q := by
  rw [sweepVerdict, hasCheckout_of_keeps h hkeeps, isDir_workdir_of_keeps h hkeeps,
    finishedAge_of_keeps h hkeeps, sweepVerdict]
  simp only [mayDelete_of_keeps h hkeeps]

end Judged

/-! ## Which jobs there are -/

section Listed
variable {r : Reader} {s s' : Site} {id : String}

/-- **A job is listed by its entry in the directory of the jobs**, where it leads to a directory. -/
theorem mem_listJobIds : id ∈ s.listJobIds ↔
    (∃ real, s.fs.target (s.jobDir id) = some real ∧ s.fs.tree.entry real ≠ none) ∧
      s.fs.isDir (s.jobDir id) = true := by
  have htarget : s.fs.target (s.jobDir id) = (s.fs.follow s.jobsDir).map (· ++ [id]) := by
    rw [target, Site.jobDir, List.dropLast_concat, List.getLast?_concat]
    cases s.fs.follow s.jobsDir <;> rfl
  rw [htarget, Site.listJobIds, nodeAt]
  cases hjobs : s.fs.follow s.jobsDir with
  | none => simp
  | some jobs =>
    have hthere : (∃ real, (some jobs).map (· ++ [id]) = some real ∧ s.fs.tree.entry real ≠ none) ↔
        s.fs.tree.entry (jobs ++ [id]) ≠ none := by simp
    rw [hthere]
    dsimp only
    cases hnode : s.fs.tree.get jobs with
    | none =>
      have hnone : s.fs.tree.entry (jobs ++ [id]) = none := by
        by_contra hentry
        exact FileTree.entry_of_append hentry (by rw [FileTree.entry, hnode, Option.map_none])
      simp [hnone]
    | some node =>
      rw [FileTree.entry, FileTree.get_append hnode]
      cases node with
      | file | link => simp [FileTree.get]
      | directory children =>
        have hlisted := FileTree.entry_child children id
        rw [FileTree.entry] at hlisted
        simp [hlisted]

theorem listJobIds_pairwise (s : Site) : s.listJobIds.Pairwise (· ≤ ·) := by
  unfold Site.listJobIds
  split
  · exact sortedBy_pairwise _ _
  all_goals exact List.Pairwise.nil

theorem listJobIds_nodup (s : Site) : s.listJobIds.Nodup := by
  unfold Site.listJobIds
  split
  · next children hnode =>
    unfold nodeAt at hnode
    split at hnode
    · cases hnode
    · have hproper := s.fs.proper.of_get hnode
      exact nodup_sortedBy.mpr ((FileTree.proper_directory.mp hproper).1.filter _)
  all_goals exact List.nodup_nil

/-- A job that is still listed was. -/
theorem Site.Shrinks.listed (h : Site.Shrinks s s') (hid : id ∈ s'.listJobIds) : id ∈ s.listJobIds := by
  obtain ⟨⟨real, htarget, hthere⟩, hdir⟩ := mem_listJobIds.mp hid
  rw [h.jobDir_eq] at htarget hdir
  refine mem_listJobIds.mpr ⟨⟨real, h.leaves.target_eq_some htarget, ?_⟩, h.leaves.isDir hdir⟩
  rwa [← h.leaves.entry_eq hthere]

/-- A job that is judged by what is still there is still listed. -/
theorem listed_of_keeps (h : Site.Shrinks s s') (hkeeps : Keeps s.fs s'.fs (Watches r s id))
    (hid : id ∈ s.listJobIds) : id ∈ s'.listJobIds := by
  have hjobs := keeps_watched hkeeps s.jobsDir (by simp [Site.watched])
  have hdir := keeps_watched hkeeps (s.jobDir id) (by simp [Site.watched])
  obtain ⟨⟨real, htarget, hthere⟩, hisDir⟩ := mem_listJobIds.mp hid
  rw [mem_listJobIds, h.jobDir_eq, isDir_of_keeps h.leaves hdir]
  refine ⟨⟨real, ?_, ?_⟩, hisDir⟩
  · rw [← htarget, target, target, Site.jobDir, List.dropLast_concat,
      follow_of_keeps h.leaves hjobs]
  · rwa [hkeeps real (.inl htarget)]

end Listed

/-! ## A job that a purge picks -/

section Picked
variable {r : Reader} {s : Site} {id : String}

theorem jobId_of_finishedAge {moment : Int} {skipped : Skipped}
    (h : finishedAge r s id moment = .ok (.inl skipped)) : skipped.jobId = id := by
  unfold finishedAge at h
  obtain ⟨state, -, h⟩ := bind_eq_ok h
  split at h
  · obtain rfl := Sum.inl.inj (Except.ok.inj h)
    rfl
  · split at h
    · obtain rfl := Sum.inl.inj (Except.ok.inj h)
      rfl
    · cases h

/-- A finished job is one at any time. -/
theorem finishedAge_of_finished {moment : Int} {state : Documents.JobState} {age : Option Float64}
    (h : finishedAge r s id moment = .ok (.inr (state, age))) :
    readState r s id = .ok (some state) ∧ finished state = true ∧
      ∀ other, ∃ age', finishedAge r s id other = .ok (.inr (state, age')) := by
  unfold finishedAge at h
  obtain ⟨found, hread, h⟩ := bind_eq_ok h
  split at h
  · cases h
  · next found =>
    split at h
    · cases h
    · next hfinished =>
      obtain ⟨rfl, -⟩ := Prod.ext_iff.mp (Sum.inr.inj (Except.ok.inj h))
      rw [Bool.not_eq_true'] at hfinished
      refine ⟨hread, by simpa using hfinished, fun other => ?_⟩
      unfold finishedAge
      rw [hread]
      exact ⟨_, if_neg (by simpa using hfinished)⟩

theorem jobId_of_tooYoung {age : Option Float64} {days : Float64} {skipped : Skipped}
    (h : tooYoung r id age days = some skipped) : skipped.jobId = id := by
  unfold tooYoung at h
  split at h
  · obtain rfl := Option.some.inj h
    rfl
  · dsimp only at h
    split at h
    · obtain rfl := Option.some.inj h
      rfl
    · cases h

theorem jobId_of_unselected {q : CleanQuery} {age : Option Float64} {skipped : Skipped}
    (h : unselected r id q age = some skipped) : skipped.jobId = id := by
  unfold unselected at h
  split at h
  · exact jobId_of_tooYoung h
  · split at h
    · cases h
    · obtain rfl := Option.some.inj h
      rfl

/-- The job a verdict is on. -/
def Verdict.IsOn (id : String) : Verdict → Prop
  | .passed => True
  | .skipped reason => reason.jobId = id
  | .picked candidate => candidate.jobId = id

theorem sweepVerdict_isOn {q : CleanQuery} {verdict : Verdict}
    (h : sweepVerdict r s id q = .ok verdict) : verdict.IsOn id := by
  unfold sweepVerdict at h
  split at h
  · obtain rfl := Except.ok.inj h
    trivial
  · obtain ⟨checkout, -, h⟩ := bind_eq_ok h
    split at h
    · split at h
      · obtain rfl := Except.ok.inj h
        trivial
      · split at h
        all_goals
          obtain rfl := Except.ok.inj h
          exact rfl
    · obtain ⟨aged, haged, h⟩ := bind_eq_ok h
      split at h
      · next skipped =>
        obtain rfl := Except.ok.inj h
        exact jobId_of_finishedAge (mapError_eq_ok haged)
      · split at h
        · next hselected =>
          obtain rfl := Except.ok.inj h
          exact jobId_of_unselected hselected
        · obtain ⟨why, -, h⟩ := bind_eq_ok h
          split at h
          all_goals
            obtain rfl := Except.ok.inj h
            exact rfl

/-- What a purge picks is a finished job that may go, dir and all. -/
theorem purgeVerdict_picked {q : Query} {candidate : Candidate}
    (h : purgeVerdict r s id q = .ok (.picked candidate)) :
    candidate.jobId = id ∧ ∃ state age, finishedAge r s id q.purgeMoment = .ok (.inr (state, age)) ∧
      mayDelete r s id state .jobDir q.evidence = .ok none := by
  unfold purgeVerdict at h
  split at h
  · cases h
  · obtain ⟨aged, haged, h⟩ := bind_eq_ok h
    split at h
    · cases h
    · next state age =>
      split at h
      · cases h
      · obtain ⟨why, hmay, h⟩ := bind_eq_ok h
        split at h
        · cases h
        · refine ⟨?_, state, age, mapError_eq_ok haged, hmay⟩
          dsimp only at h
          split at h
          · obtain ⟨unforced, -, h⟩ := bind_eq_ok h
            obtain rfl := Verdict.picked.inj (Except.ok.inj h)
            rfl
          · obtain rfl := Verdict.picked.inj (Except.ok.inj h)
            rfl

/-- A job dir that may go leaves nothing unanswered about the workdir in it. -/
theorem mayDelete_workdir_of_jobDir {state : Documents.JobState} {evidence : Evidence}
    (hfinished : finished state = true) (h : mayDelete r s id state .jobDir evidence = .ok none) :
    ∃ why, mayDelete r s id state .workdir evidence = .ok why := by
  unfold mayDelete at h ⊢
  rw [hfinished] at h ⊢
  simp only [Bool.not_true, Bool.false_eq_true, if_false, reduceCtorEq, false_and] at h
  obtain ⟨spec, hspec, h⟩ := bind_eq_ok h
  rw [if_neg (by simp)]
  split
  · exact ⟨_, rfl⟩
  · rw [hspec]
    cases spec with
    | none => cases h
    | some spec =>
      obtain ⟨reasons, hreasons, -⟩ := bind_eq_ok h
      unfold jobDirReasons at hreasons
      obtain ⟨record, -, hreasons⟩ := bind_eq_ok hreasons
      obtain ⟨pending, hpending, -⟩ := bind_eq_ok hreasons
      refine exists_bind_ok.mpr ⟨_, rfl, ?_⟩
      dsimp only
      split
      · exact ⟨_, rfl⟩
      · split
        · exact ⟨_, rfl⟩
        · exact ⟨pending, hpending⟩

theorem hasCheckout_of_readState {state : Documents.JobState}
    (h : readState r s id = .ok (some state)) : ∃ there, hasCheckout r s id = .ok there := by
  unfold hasCheckout
  split
  · rw [h]
    exact ⟨_, rfl⟩
  · exact ⟨_, rfl⟩

/-- **The sweep has an answer for every job that the purge picks**, so that a dry run, which asks it of
them too, stops nowhere else. -/
theorem sweepVerdict_of_picked {q : Query} {candidate : Candidate}
    (h : purgeVerdict r s id q = .ok (.picked candidate)) :
    ∃ verdict, sweepVerdict r s id q.sweep = .ok verdict := by
  obtain ⟨-, state, age, haged, hmay⟩ := purgeVerdict_picked h
  obtain ⟨hread, hfinished, hages⟩ := finishedAge_of_finished haged
  obtain ⟨there, hcheckout⟩ := hasCheckout_of_readState hread
  obtain ⟨age', haged'⟩ := hages q.sweep.moment
  obtain ⟨why, hwhy⟩ := mayDelete_workdir_of_jobDir hfinished hmay
  unfold sweepVerdict
  split
  · exact ⟨_, rfl⟩
  · rw [hcheckout]
    refine exists_bind_ok.mpr ⟨there, rfl, ?_⟩
    split
    · split
      · exact ⟨_, rfl⟩
      · split <;> exact ⟨_, rfl⟩
    · rw [haged']
      refine exists_bind_ok.mpr ⟨_, rfl, ?_⟩
      dsimp only
      split
      · exact ⟨_, rfl⟩
      · refine exists_bind_ok.mpr ⟨why, hwhy, ?_⟩
        split <;> exact ⟨_, rfl⟩

end Picked

/-! ## The two runs -/

section Runs
variable {r : Reader} {s s' : Site}

theorem snd_removeJobDirs_cons (candidate : Candidate) (rest : List Candidate) (s : Site) :
    (removeJobDirs (candidate :: rest) s).2.2
      = (removeJobDirs rest (removeJobDir s candidate.jobId).1).2.2 := by
  rw [removeJobDirs]
  split
  all_goals
    next hrm => rw [hrm]

theorem shrinks_removeJobDirs (picked : List Candidate) (s : Site) :
    Site.Shrinks s (removeJobDirs picked s).2.2 := by
  induction picked generalizing s with
  | nil => exact .refl s
  | cons candidate rest ih =>
    rw [snd_removeJobDirs_cons]
    exact (shrinks_removeJobDir s candidate.jobId).trans (ih _)

/-- Removing job dirs leaves what goes with none of the jobs. -/
theorem entry_removeJobDirs {p : FilePath} (picked : List Candidate) (s : Site)
    (h : ∀ candidate ∈ picked, ¬ s.Deletes candidate.jobId p) :
    (removeJobDirs picked s).2.2.fs.tree.entry p = s.fs.tree.entry p := by
  induction picked generalizing s with
  | nil => rfl
  | cons candidate rest ih =>
    rw [List.forall_mem_cons] at h
    rw [snd_removeJobDirs_cons]
    refine (ih _ fun other hother hdeletes => ?_).trans (entry_removeJobDir h.1)
    exact h.2 other hother ((shrinks_removeJobDir s candidate.jobId).deletes hdeletes)

/-- Where nothing could not be removed, everything was. -/
theorem fst_removeJobDirs {picked : List Candidate} {s : Site}
    (h : (removeJobDirs picked s).2.1 = []) : (removeJobDirs picked s).1 = picked := by
  induction picked generalizing s with
  | nil => rfl
  | cons candidate rest ih =>
    rw [removeJobDirs] at h ⊢
    split at h
    · cases h
    · exact congrArg (candidate :: ·) (ih h)

theorem filterMap_verdicts {α : Type} {q : CleanQuery} {ids : List String} {verdicts : List Verdict}
    (f : Verdict → Option α)
    (h : List.Forall₂ (fun id verdict => sweepVerdict r s id q = .ok verdict) ids verdicts) :
    verdicts.filterMap f = ids.filterMap fun id => (sweepVerdict r s id q).toOption.bind f := by
  induction h with
  | nil => rfl
  | cons hverdict _ ih =>
    rw [List.filterMap_cons, List.filterMap_cons, hverdict, ih]
    rfl

/-- What a sweep says, job by job. -/
theorem candidates_eq {q : CleanQuery} {picked : List Candidate} {skipped : List Skipped}
    (h : candidates r s q = .ok (picked, skipped)) :
    (∀ id ∈ s.listJobIds, ∃ verdict, sweepVerdict r s id q = .ok verdict) ∧
      picked = s.listJobIds.filterMap (fun id => (sweepVerdict r s id q).toOption.bind Verdict.picked?) ∧
      skipped
        = s.listJobIds.filterMap fun id => (sweepVerdict r s id q).toOption.bind Verdict.skipped? := by
  unfold candidates at h
  obtain ⟨verdicts, hverdicts, h⟩ := bind_eq_ok h
  obtain ⟨rfl, rfl⟩ := Prod.ext_iff.mp (Except.ok.inj h)
  exact ⟨exists_mapM_ok.mp ⟨verdicts, hverdicts⟩, filterMap_verdicts _ (mapM_eq_ok hverdicts),
    filterMap_verdicts _ (mapM_eq_ok hverdicts)⟩

theorem exists_candidates {q : CleanQuery}
    (h : ∀ id ∈ s.listJobIds, ∃ verdict, sweepVerdict r s id q = .ok verdict) :
    ∃ picked skipped, candidates r s q = .ok (picked, skipped) := by
  obtain ⟨verdicts, hverdicts⟩ := exists_mapM_ok.mpr h
  refine ⟨verdicts.filterMap Verdict.picked?, verdicts.filterMap Verdict.skipped?, ?_⟩
  rw [candidates, hverdicts]
  rfl

/-- The jobs that stay are listed as they were. -/
theorem stays_eq {ids : List String} (h : Site.Shrinks s s')
    (hkeeps : ∀ id ∈ s.listJobIds, id ∉ ids → Keeps s.fs s'.fs (Watches r s id)) :
    s'.listJobIds.filter (· ∉ ids) = s.listJobIds.filter (· ∉ ids) := by
  have hperm : (s'.listJobIds.filter (· ∉ ids)).Perm (s.listJobIds.filter (· ∉ ids)) := by
    refine (List.perm_ext_iff_of_nodup ((listJobIds_nodup s').filter _)
      ((listJobIds_nodup s).filter _)).mpr fun id => ?_
    rw [List.mem_filter, List.mem_filter]
    refine and_congr_left fun hstays => ⟨h.listed, fun hid => ?_⟩
    exact listed_of_keeps h (hkeeps id hid (of_decide_eq_true hstays)) hid
  exact hperm.eq_of_pairwise (fun _ _ _ _ hab hba => le_antisymm hab hba)
    ((listJobIds_pairwise s').filter _) ((listJobIds_pairwise s).filter _)

/-- **The jobs that stay are judged as they were**, where all that they are judged by does. -/
theorem swept_of_keeps {α : Type} (q : CleanQuery) {ids : List String} (f : Verdict → Option α)
    (jobId : α → String) (hf : ∀ {id verdict found}, verdict.IsOn id → f verdict = some found →
      jobId found = id)
    (h : Site.Shrinks s s')
    (hkeeps : ∀ id ∈ s.listJobIds, id ∉ ids → Keeps s.fs s'.fs (Watches r s id)) :
    (s'.listJobIds.filterMap fun id => (sweepVerdict r s' id q).toOption.bind f).filter
        (fun found => jobId found ∉ ids)
      = (s.listJobIds.filterMap fun id => (sweepVerdict r s id q).toOption.bind f).filter
        fun found => jobId found ∉ ids := by
  have hstays : ∀ t : Site,
      (t.listJobIds.filterMap fun id => (sweepVerdict r t id q).toOption.bind f).filter
          (fun found => jobId found ∉ ids)
        = (t.listJobIds.filter (· ∉ ids)).filterMap fun id =>
          (sweepVerdict r t id q).toOption.bind f := by
    intro t
    rw [List.filter_filterMap, List.filterMap_filter]
    refine List.filterMap_congr fun id _ => ?_
    cases hfound : (sweepVerdict r t id q).toOption.bind f with
    | none => split <;> rfl
    | some found =>
      obtain ⟨verdict, hverdict, hfound⟩ := Option.bind_eq_some_iff.mp hfound
      have hid := hf (sweepVerdict_isOn (toOption_eq_some hverdict)) hfound
      rw [Option.filter_some, hid]
  rw [hstays s', hstays s, stays_eq h hkeeps]
  refine List.filterMap_congr fun id hid => ?_
  obtain ⟨hlisted, hstaying⟩ := List.mem_filter.mp hid
  rw [sweepVerdict_of_keeps h (hkeeps id hlisted (of_decide_eq_true hstaying))]

/-- The jobs whose dirs a purge picks. -/
def takenIds (r : Reader) (s : Site) (q : Query) : List String :=
  match purgeCandidates r s q with
  | .ok (picked, _) => picked.map Candidate.jobId
  | .error _ => []

/-- **Nothing that a job which stays is judged by goes with another.** -/
def Apart (r : Reader) (s : Site) (q : Query) : Prop :=
  ∀ id ∈ s.listJobIds, id ∉ takenIds r s q →
    ∀ other ∈ takenIds r s q, ∀ p, Watches r s id p → ¬ s.Deletes other p

theorem exists_of_taken {q : Query} {picked : List Candidate} {skipped : List Skipped}
    (h : purgeCandidates r s q = .ok (picked, skipped)) {candidate : Candidate}
    (hpicked : candidate ∈ picked) :
    purgeVerdict r s candidate.jobId q = .ok (.picked candidate) := by
  unfold purgeCandidates at h
  obtain ⟨verdicts, hverdicts, h⟩ := bind_eq_ok h
  obtain ⟨rfl, -⟩ := Prod.ext_iff.mp (Except.ok.inj h)
  obtain ⟨verdict, hverdict, hfound⟩ := List.mem_filterMap.mp hpicked
  cases verdict with
  | passed | skipped => cases hfound
  | picked found =>
    obtain rfl := Option.some.inj hfound
    obtain ⟨id, -, hid⟩ := exists_of_mem_mapM hverdicts hverdict
    rwa [(purgeVerdict_picked hid).1]

/-- What a run reports that stopped at nothing. -/
def reportOf (dryRun : Bool) (s3Prefix : Option String) (purged : List Candidate × List Skipped)
    (swept : List Candidate × List Skipped) : CleanResult :=
  let ids := purged.1.map Candidate.jobId
  { dryRun, s3Prefix, purged := purged.1, purgeSkipped := purged.2
    removed := swept.1.filter fun candidate => candidate.jobId ∉ ids
    skipped := swept.2.filter fun skipped => skipped.jobId ∉ ids }

/-- A dry run sweeps the host as it is. -/
theorem purge_dry {q : Query} (raises : String → Option String) {s3Prefix : Option String}
    {purged swept : List Candidate × List Skipped} (hpurged : purgeCandidates r s q = .ok purged)
    (hroot : hostS3Prefix r s = .ok s3Prefix) (hswept : candidates r s q.sweep = .ok swept) :
    purge r s raises true q = .ok (reportOf true s3Prefix purged swept) := by
  rw [purge, purgeJobDirs, hpurged, hroot]
  simp only [clean, hswept, hroot, Except.mapError, bind, Except.bind, pure, Except.pure, if_true]
  rfl

/-- A real run that could remove everything sweeps what is left. -/
theorem purge_real {q : Query} {raises : String → Option String} {report : CleanResult}
    (h : purge r s raises false q = .ok report) (herrors : report.errors = []) :
    ∃ s3Prefix purged swept, purgeCandidates r s q = .ok purged ∧ hostS3Prefix r s = .ok s3Prefix ∧
      candidates r (removeJobDirs purged.1 s).2.2 q.sweep = .ok swept ∧
      report = reportOf false s3Prefix purged swept := by
  unfold purge at h
  obtain ⟨result, hresult, h⟩ := bind_eq_ok h
  obtain ⟨sweep, hsweep, h⟩ := bind_eq_ok h
  obtain rfl := Except.ok.inj h
  unfold purgeJobDirs at hresult
  obtain ⟨purged, hpurged, hresult⟩ := bind_eq_ok hresult
  obtain ⟨s3Prefix, hroot, hresult⟩ := bind_eq_ok hresult
  rw [if_neg Bool.false_ne_true] at hresult
  obtain rfl := Except.ok.inj hresult
  unfold clean at hsweep
  obtain ⟨swept, hswept, hsweep⟩ := bind_eq_ok hsweep
  obtain ⟨s3Prefix', -, hsweep⟩ := bind_eq_ok hsweep
  rw [if_neg Bool.false_ne_true] at hsweep
  obtain rfl := Except.ok.inj hsweep
  obtain ⟨hpurgeErrors, hsweepErrors⟩ := List.append_eq_nil_iff.mp herrors
  have hremoved : swept.1.filter (fun candidate => (raises candidate.jobId).isNone) = swept.1 := by
    refine List.filter_eq_self.mpr fun candidate hcandidate => ?_
    have hnone := List.filterMap_eq_nil_iff.mp hsweepErrors candidate hcandidate
    rwa [Option.map_eq_none_iff, ← Option.isNone_iff_eq_none] at hnone
  have hall := fst_removeJobDirs hpurgeErrors
  refine ⟨s3Prefix, purged, swept, hpurged, mapError_eq_ok hroot, hswept, ?_⟩
  dsimp only at hpurgeErrors hsweepErrors ⊢
  rw [hremoved, hsweepErrors, hpurgeErrors, hall]
  rfl

/-- A host with two finished jobs, of which the first is mirrored. -/
def twoJobs : Site where
  fs :=
    { tree := .directory [("jobs", .directory
        [("a", .directory [("spec.json", .file ⟨0, 0, 0⟩), ("state.json", .file ⟨0, 0, 0⟩)]),
         ("b", .directory [("spec.json", .file ⟨0, 0, 0⟩), ("state.json", .file ⟨0, 0, 0⟩),
           ("workdir", .directory [])])])]
      proper := by simp
      directoryStat := fun _ => ⟨0, 0, 0⟩
      steps := 40 }
  content path :=
    if path.getLast? = some "spec.json" then .ok (some (.obj [("command", .str "true")]))
    else if path = ["jobs", "a", "state.json"] then
      .ok (some (.obj [("status", .str "failed"), ("ended_at", .str "then"),
        ("uploads", .arr [.obj [("to", .str "s3://b/a"), ("ok_at", .str "then")]])]))
    else .ok (some (.obj [("status", .str "failed"), ("ended_at", .str "then")]))
  home := []
  scratch := none

/-- A host whose clock nothing is read by, and where every field is the job's id. -/
def clockless : Reader where
  texts := plainTexts
  fields :=
    { value := fun jobId _ => .ok jobId
      jobId := fun _ => rfl
      plain := fun hplain _ hprinted => Except.ok.inj hprinted ▸ hplain }
  newJobId := "c"
  parseTime _ := none
  oneDecimal _ := "0.0"

/-- Both of them, by name. -/
def both : Query where
  olderThanDays := .finite 1
  only := some ["a", "b"]
  purgeMoment := 0
  sweepMoment := 0

def listedAs (id : String) (mirroredAt mirror : Option String) : Candidate :=
  { jobId := id, status := "failed", endedAt := some "then", ageDays := none, mirroredAt, mirror }

/-- The first goes, dir and all, and the second loses its workdir. -/
def bothReport : CleanResult :=
  reportOf false none
    ([listedAs "a" (some "then") (some "s3://b/a")],
      [⟨"b", "not backed up: no s3_prefix on this host"⟩])
    ([listedAs "b" none none], [])

theorem purge_both : purge clockless twoJobs (fun _ => none) false both = .ok bothReport := by
  rfl

theorem taken_both : takenIds clockless twoJobs both = ["a"] := by rfl

theorem deletes_a {p : FilePath} (h : twoJobs.Deletes "a" p) : ["jobs", "a"] <+: p := by
  have hall : ∀ path ∈ twoJobs.leftovers "a",
      (twoJobs.fs.target path).all (fun real => ["jobs", "a"].isPrefixOf real) = true := by decide
  obtain ⟨path, hpath, real, htarget, hp⟩ := h
  have hreal := hall path hpath
  rw [htarget, Option.all_some, List.isPrefixOf_iff_prefix] at hreal
  exact hreal.trans hp

theorem watches_b {p : FilePath} (h : Watches clockless twoJobs "b" p) : ¬ ["jobs", "a"] <+: p := by
  have htarget : twoJobs.fs.target (twoJobs.jobDir "b") = some ["jobs", "b"] := by decide
  have hway : ∀ path ∈ twoJobs.watched "b",
      ∀ p ∈ lookups twoJobs.fs.tree.entry (twoJobs.fs.steps + path.length) [] path,
        ¬ ["jobs", "a"] <+: p := by decide
  have hend : ∀ path ∈ twoJobs.watched "b",
      (twoJobs.fs.follow path).all (fun p => !(List.isPrefixOf ["jobs", "a"] p)) = true := by decide
  have hspec : ∃ spec, readableSpec clockless twoJobs "b" = .ok (some spec) ∧ spec.outputs = [] :=
    ⟨_, rfl, rfl⟩
  rcases h with hp | ⟨path, hpath, hp | hp⟩ | ⟨root, entries, hcompares, -⟩
  · rw [htarget] at hp
    obtain rfl := Option.some.inj hp
    decide
  · exact hway path hpath p hp
  · have hnot := hend path hpath
    rw [hp, Option.all_some, Bool.not_eq_true', Bool.eq_false_iff, ne_eq,
      List.isPrefixOf_iff_prefix] at hnot
    exact hnot
  · obtain ⟨spec, _, output, _, hread, -, houtput, -⟩ := hcompares
    obtain ⟨spec', hread', hnone⟩ := hspec
    obtain rfl := Option.some.inj (Except.ok.inj (hread.symm.trans hread'))
    rw [hnone] at houtput
    exact absurd houtput List.not_mem_nil

theorem apart_both : Apart clockless twoJobs both := by
  have hlisted : twoJobs.listJobIds = ["a", "b"] := by decide
  intro id hid hstays other hother p hwatches hdeletes
  rw [taken_both] at hstays hother
  obtain rfl := List.mem_singleton.mp hother
  rw [hlisted, List.mem_cons] at hid
  rcases hid with rfl | hid
  · exact absurd List.mem_cons_self hstays
  · obtain rfl := List.mem_singleton.mp hid
    exact watches_b hwatches (deletes_a hdeletes)

end Runs

end Gpuc.Host.Purge
