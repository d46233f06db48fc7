import Gpuc.Host.Sync
import Gpuc.Laws.Control.Templates

/-!
# What a recorded upload holds

A success on record of the final pass is read as "all this job produced is there". What the pass hands over
is every file that no exclude matches, and an exclude is a pattern: the name of a file that came with the
checkout, or of one whose time is ahead of the host's clock, as the final pass still leaves those out.

The law (`handed_iff`): whatever the tree, the baseline and the destination, the files a success stands for
are all the new and changed ones exactly when no such name matches one of them (`DropsNothing`). A name
with no pattern character in it matches itself alone, so it is enough that the clock is ahead of every
file and those names are plain (`dropsNothing_of_plain`). Either failing loses files under a success
(`dropped_under_success`).
-/

set_option autoImplicit false

namespace Gpuc.Host

open Gpuc.Basis

/-! ## Produced and handed over -/

/-- The job wrote the file: it is not as the baseline has it. -/
def OutputFile.produced (entries : Entries) (f : OutputFile) : Bool :=
  !(entries.get? f.path).any fun recorded => f.stat.sameAs recorded

/-- The upload takes every file but those an exclude matches. -/
def handed (glob : String → String → Bool) (tree : Tree) (exclude : List String) : List OutputFile :=
  tree.files.filter fun f => !exclude.any fun name => glob name f.path

/-- **No file the job wrote is left out for another's name**: neither an unchanged file's, where the
baseline is not too long to be used, nor one's whose time is ahead of the clock. -/
structure DropsNothing (glob : String → String → Bool) (tree : Tree) (entries : Entries) (now : ℚ) :
    Prop where
  same : tooMany entries = false → ∀ name recorded info, entries.get? name = some recorded →
    tree.statOf name = some info → info.sameAs recorded = true →
      ∀ f ∈ tree.files, f.produced entries = true → glob name f.path = false
  ahead : ∀ g ∈ tree.files, g.beyondLink = false → now < g.stat.mtime →
    ∀ f ∈ tree.files, f.produced entries = true → glob g.path f.path = false

/-! ## The two scans -/

section
variable {tree : Tree} {entries : Entries} {name : String} {now : ℚ}

theorem mem_unchanged {statOf : String → Option Stat} : name ∈ unchanged statOf entries ↔
    ∃ recorded info, entries.get? name = some recorded ∧ statOf name = some info ∧
      info.sameAs recorded = true := by
  rw [unchanged, mem_sortedBy, List.mem_map]
  constructor
  · rintro ⟨⟨name, recorded⟩, hmem, rfl⟩
    obtain ⟨hentry, hsame⟩ := List.mem_filter.mp hmem
    obtain ⟨info, hinfo, hsame⟩ := (Option.any_eq_true _ _).mp hsame
    exact ⟨recorded, info, Dict.get?_eq_some.mpr hentry, hinfo, hsame⟩
  · rintro ⟨recorded, info, hentry, hinfo, hsame⟩
    refine ⟨(name, recorded), List.mem_filter.mpr ⟨Dict.get?_eq_some.mp hentry, ?_⟩, rfl⟩
    simp [hinfo, hsame]

theorem mem_recentlyModified {link : Bool} {minAge : ℚ} :
    name ∈ recentlyModified (.dir tree link) now minAge ↔
      ∃ g ∈ tree.files, g.beyondLink = false ∧ now - minAge < g.stat.mtime ∧ g.path = name := by
  simp [recentlyModified, and_assoc]

/-- What the destinations of an upload are told to leave out. -/
theorem syncOutput_exclude {fields : Fields} {printed : ℚ → String} {u : Uploader}
    {workdir : String → String × Local} {output : Output} {jobId : JobId} {minAge : ℚ}
    {attempts : List Attempt}
    (h : syncOutput fields printed u workdir output jobId now minAge entries = .ok attempts) :
    ∃ key, outputKey fields output jobId = .ok key ∧ ∀ a ∈ attempts, ∀ name, name ∈ a.exclude ↔
      (tooMany entries = false ∧ name ∈ unchanged (workdir key).2.statOf entries) ∨
        name ∈ recentlyModified (workdir key).2 now minAge := by
  obtain ⟨key, hkey, h⟩ := bind_eq_ok h
  obtain ⟨late, hlate, h⟩ := bind_eq_ok h
  obtain ⟨destinations, -, h⟩ := bind_eq_ok h
  obtain rfl := Except.ok.inj h
  refine ⟨key, mapError_eq_ok hkey, fun a ha name => ?_⟩
  obtain ⟨destination, -, rfl⟩ := List.mem_map.mp ha
  have hflight := mapError_eq_ok hlate
  unfold inFlight at hflight
  dsimp only at hflight
  split at hflight
  · cases hflight
  · obtain rfl := Except.ok.inj hflight
    change name ∈ (if tooMany entries then _ else _) ++ _ ↔ _
    rw [List.mem_append]
    cases tooMany entries <;> simp

end

/-! ## The law -/

/-- **What a success of the final pass stands for.** -/
theorem handed_iff (glob : String → String → Bool) {fields : Fields} {printed : ℚ → String} {u : Uploader}
    {workdir : String → String × Local} {output : Output} {jobId : JobId} {now : ℚ} {entries : Entries}
    {attempts : List Attempt}
    (hsync : syncOutput fields printed u workdir output jobId now 0 entries = .ok attempts)
    {key : String} (hkey : outputKey fields output jobId = .ok key) {tree : Tree} {link : Bool}
    (hdir : (workdir key).2 = .dir tree link) {a : Attempt} (ha : a ∈ attempts) :
    a.result = .ok () →
      ((∀ f ∈ tree.files, f.produced entries = true → f ∈ handed glob tree a.exclude) ↔
        DropsNothing glob tree entries now) := by
  intro _
  obtain ⟨key', hkey', hexclude⟩ := syncOutput_exclude hsync
  obtain rfl := Except.ok.inj (hkey.symm.trans hkey')
  have hleft := hexclude a ha
  rw [hdir] at hleft
  constructor
  · intro hall
    have hnot : ∀ f ∈ tree.files, f.produced entries = true → ∀ name ∈ a.exclude,
        glob name f.path = false := by
      intro f hf hproduced name hname
      have hkept := (List.mem_filter.mp (hall f hf hproduced)).2
      by_contra hmatches
      have hany : (a.exclude.any fun name => glob name f.path) = true :=
        List.any_eq_true.mpr ⟨name, hname, by simpa using hmatches⟩
      rw [hany] at hkept
      cases hkept
    constructor
    · intro hfew name recorded info hentry hinfo hsame f hf hproduced
      refine hnot f hf hproduced name ((hleft name).mpr (.inl ⟨hfew, ?_⟩))
      exact mem_unchanged.mpr ⟨recorded, info, hentry, hinfo, hsame⟩
    · intro g hg hseen hahead f hf hproduced
      refine hnot f hf hproduced g.path ((hleft g.path).mpr (.inr ?_))
      exact mem_recentlyModified.mpr ⟨g, hg, hseen, by simpa using hahead, rfl⟩
  · intro hdrops f hf hproduced
    refine List.mem_filter.mpr ⟨hf, ?_⟩
    rw [Bool.not_eq_true', List.any_eq_false]
    intro name hname
    rcases (hleft name).mp hname with ⟨hfew, hsame⟩ | hlate
    · obtain ⟨recorded, info, hentry, hinfo, hsame⟩ := mem_unchanged.mp hsame
      simp [hdrops.same hfew name recorded info hentry hinfo hsame f hf hproduced]
    · obtain ⟨g, hg, hseen, hahead, rfl⟩ := mem_recentlyModified.mp hlate
      simp [hdrops.ahead g hg hseen (by simpa using hahead) f hf hproduced]

/-- A clock ahead of every file and plain names of what came with the checkout are enough. -/
theorem dropsNothing_of_plain {tree : Tree} {entries : Entries} {now : ℚ}
    (hclock : ∀ g ∈ tree.files, g.stat.mtime ≤ now)
    (hplain : ∀ name recorded, entries.get? name = some recorded → plainPattern name = true) :
    DropsNothing fnmatch tree entries now where
  same _ name recorded info hentry hinfo hsame f hf hproduced := by
    by_contra hmatches
    have hself : name = f.path :=
      (fnmatch_plain (hplain name recorded hentry)).mp (by simpa using hmatches)
    -- the name is the file's own, and that one the job did not write
    subst hself
    obtain rfl := Option.some.inj (hinfo.symm.trans (tree.found f hf))
    simp [OutputFile.produced, hentry, hsame] at hproduced
  ahead g hg _ hahead := absurd (hclock g hg) (not_le.mpr hahead)

/-! ## One upload -/

/-- A directory with these files and nothing else. -/
def Tree.ofFiles (files : List OutputFile) (honce : (files.map OutputFile.path).Nodup)
    (hplain : ∀ f ∈ files, f.beyondLink = false) : Tree where
  files := files
  statOf path := (files.find? fun f => f.path = path).map OutputFile.stat
  found f hf := by
    obtain ⟨g, hg⟩ : ∃ g, (files.find? fun g => g.path = f.path) = some g :=
      Option.isSome_iff_exists.mp (List.find?_isSome.mpr ⟨f, hf, by simp⟩)
    have hsame : g = f := List.inj_on_of_nodup_map honce (List.mem_of_find?_eq_some hg) hf
      (by simpa using List.find?_some hg)
    rw [hg, hsame]
    rfl
  links := false
  linked f hf hbeyond := by
    rw [hplain f hf] at hbeyond
    cases hbeyond

/-- An upload that succeeds. -/
def uploads : Uploader where
  host := "h"
  findBinary name := some name
  run _ := .ok (0, "")

/-- One output, to S3. -/
def toS3 : Output := { path := "out", s3 := some "s3://b" }

/-- A file of this size, and of this time in seconds. -/
def fileAt (path : String) (size : Nat) (seconds : Int) : OutputFile where
  path := path
  stat := { size := size, mtimeNs := seconds * 1000000000, mtime := seconds }

/-- The final pass over a directory, at the hundredth second. -/
def finalUpload (tree : Tree) (entries : Entries) : Except NotSynced (List Attempt) :=
  syncOutput Control.jobIdOnly toString uploads (fun _ => ("/work/out", .dir tree false)) toS3 "a" 100 0
    entries

/-- What each destination was told to leave out, and whether its upload succeeded. -/
def summary (result : Except NotSynced (List Attempt)) : Option (List (List String × Bool)) :=
  result.toOption.map fun attempts => attempts.map fun a => (a.exclude, a.result.toOption.isSome)

theorem of_summary {result : Except NotSynced (List Attempt)} {exclude : List String}
    (h : summary result = some [(exclude, true)]) :
    ∃ attempts a, result = .ok attempts ∧ a ∈ attempts ∧ a.exclude = exclude ∧ a.result = .ok () := by
  obtain ⟨attempts, hresult, hmap⟩ := Option.map_eq_some_iff.mp h
  obtain ⟨a, rfl, hpair⟩ := List.map_eq_singleton_iff.mp hmap
  obtain ⟨hexclude, hsome⟩ := Prod.mk.inj hpair
  obtain ⟨_, hok⟩ := Option.isSome_iff_exists.mp hsome
  exact ⟨[a], a, toOption_eq_some hresult, List.mem_singleton_self a, hexclude, toOption_eq_some hok⟩

/-- A file from the checkout, and a file the job wrote. -/
def checkedOut : Tree :=
  .ofFiles [fileAt "old.txt" 1 5, fileAt "new.txt" 2 50] (by decide) (by decide)

theorem handed_iff_checkedOut : ∃ attempts a,
    finalUpload checkedOut (.ofList [("old.txt", [1, 5000000000])]) = .ok attempts ∧ a ∈ attempts ∧
      a.result = .ok () ∧ fileAt "new.txt" 2 50 ∈ handed fnmatch checkedOut a.exclude := by
  obtain ⟨attempts, a, hsync, ha, -, hok⟩ := of_summary
    (show summary (finalUpload checkedOut (.ofList [("old.txt", [1, 5000000000])]))
      = some [(["old.txt"], true)] by decide +kernel)
  have hdrops : DropsNothing fnmatch checkedOut (.ofList [("old.txt", [1, 5000000000])]) 100 := by
    refine dropsNothing_of_plain ?_ fun name recorded hentry => ?_
    · have hclock : ∀ g ∈ checkedOut.files, g.stat.mtime ≤ 100 := by decide +kernel
      exact hclock
    · have hname : name = "old.txt" := by
        have hmem := Dict.mem_keys.mpr ⟨recorded, hentry⟩
        exact List.mem_singleton.mp hmem
      rw [hname]
      decide +kernel
  have hall := (handed_iff fnmatch hsync rfl rfl ha hok).mpr hdrops
  exact ⟨attempts, a, hsync, ha, hok, hall _ (by simp [checkedOut, Tree.ofFiles]) (by decide +kernel)⟩

/-- A file the job wrote with a time ahead of the host's clock. -/
def aheadOfClock : Tree := .ofFiles [fileAt "model.pt" 7 160] (by decide) (by decide)

/-- A file from the checkout whose name is a pattern, and one that it matches. -/
def patternNamed : Tree :=
  .ofFiles [fileAt "run*.txt" 1 5, fileAt "run2.txt" 2 50] (by decide) (by decide)

/-- **A success is recorded for a destination that lacks a file the job wrote.** -/
theorem dropped_under_success :
    (∃ attempts a, finalUpload aheadOfClock .empty = .ok attempts ∧ a ∈ attempts ∧ a.result = .ok () ∧
        ∃ f ∈ aheadOfClock.files, f.produced .empty = true ∧ f ∉ handed fnmatch aheadOfClock a.exclude) ∧
      ∃ attempts a, finalUpload patternNamed (.ofList [("run*.txt", [1, 5000000000])]) = .ok attempts ∧
        a ∈ attempts ∧ a.result = .ok () ∧
        ∃ f ∈ patternNamed.files, f.produced (.ofList [("run*.txt", [1, 5000000000])]) = true ∧
          f ∉ handed fnmatch patternNamed a.exclude := by
  constructor
  · obtain ⟨attempts, a, hsync, ha, hexclude, hok⟩ := of_summary
      (show summary (finalUpload aheadOfClock .empty) = some [(["model.pt"], true)] by decide +kernel)
    refine ⟨attempts, a, hsync, ha, hok, fileAt "model.pt" 7 160, by simp [aheadOfClock, Tree.ofFiles],
      by decide +kernel, ?_⟩
    rw [hexclude]
    decide +kernel
  · obtain ⟨attempts, a, hsync, ha, hexclude, hok⟩ := of_summary
      (show summary (finalUpload patternNamed (.ofList [("run*.txt", [1, 5000000000])]))
        = some [(["run*.txt"], true)] by decide +kernel)
    refine ⟨attempts, a, hsync, ha, hok, fileAt "run2.txt" 2 50, by simp [patternNamed, Tree.ofFiles],
      by decide +kernel, ?_⟩
    rw [hexclude]
    decide +kernel

end Gpuc.Host
