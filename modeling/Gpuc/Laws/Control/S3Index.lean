import Gpuc.Control.S3Index

/-!
# The two readers of the job index

A listing of the mirror has every key, or the first `keysMax` of them, however the service cuts it into
pages (`listKeys_eq`). What `all` has of an id is the last listed entry of the mirror that carries it,
and else the local one; what `get` has is the local file of that name, and else the object.

They agree exactly when each local entry carries the id it is stored under, what the listing has of an id
is what `get` reads, and none of the newest ids is left out (`readersAgree_iff`). So they differ for a job
that is in both with different entries (`not_agree_of_different`): a listing has the mirror's, and the
job by itself the local one.
-/

set_option autoImplicit false

namespace Gpuc.Control.S3Index

open Gpuc.Basis

/-! ## A listing -/

namespace Bucket
variable {b : Bucket} {start : String} {limit : Nat}

/-- No listing fails. -/
def Answers (b : Bucket) : Prop := ∀ place, ∃ n, b.room place = .ok n

section Step
variable {steps : Nat} {keys contents : List String} {token : Option Nat}

theorem listKeysFrom_last (hmore : keys.length < limit)
    (hpage : b.listObjects start (min 1000 (limit - keys.length)) token = .ok ⟨contents, none⟩) :
    b.listKeysFrom start limit (steps + 1) keys token = .ok (keys ++ contents) := by
  rw [listKeysFrom, if_pos hmore, hpage]
  rfl

theorem listKeysFrom_next {next : Nat} (hmore : keys.length < limit)
    (hpage : b.listObjects start (min 1000 (limit - keys.length)) token = .ok ⟨contents, some next⟩) :
    b.listKeysFrom start limit (steps + 1) keys token =
      b.listKeysFrom start limit steps (keys ++ contents) (some next) := by
  rw [listKeysFrom, if_pos hmore, hpage]
  rfl

end Step

/-- The loop goes on from a page with a front of the listing, to one that is long enough. -/
theorem listKeysFrom_eq (h : b.Answers) {steps place : Nat} {token : Option Nat}
    (htoken : token.getD 0 = place) (hplace : place ≤ (b.under start).length)
    (hsteps : limit ≤ place + steps) :
    ∃ n, b.listKeysFrom start limit steps ((b.under start).take place) token
        = .ok ((b.under start).take n) ∧ (limit ≤ n ∨ (b.under start).length ≤ n) := by
  have hlength : ((b.under start).take place).length = place := by
    rw [List.length_take]
    omega
  induction steps generalizing place token with
  | zero => exact ⟨place, rfl, .inl hsteps⟩
  | succ steps ih =>
    by_cases hmore : ((b.under start).take place).length < limit
    · obtain ⟨room, hroom⟩ := h place
      have hpos := b.room_pos place room hroom
      let taken := min (min 1000 (limit - place)) room
      let contents := ((b.under start).drop place).take taken
      have hpage : b.listObjects start (min 1000 (limit - ((b.under start).take place).length)) token
          = .ok ⟨contents, if place + contents.length < (b.under start).length then
            some (place + contents.length) else none⟩ := by
        rw [hlength, listObjects, htoken, hroom]
        rfl
      have hcontents : contents.length = min taken ((b.under start).length - place) := by
        rw [List.length_take, List.length_drop]
      have hkeys : (b.under start).take place ++ contents = (b.under start).take (place + taken) :=
        List.take_add.symm
      have htaken : 0 < taken := by
        show 0 < min (min 1000 (limit - place)) room
        omega
      by_cases hlong : place + contents.length < (b.under start).length
      · rw [if_pos hlong] at hpage
        have heq : place + contents.length = place + taken := by omega
        rw [listKeysFrom_next hmore hpage, hkeys, heq]
        exact ih rfl (by omega) (by omega) (by rw [List.length_take]; omega)
      · rw [if_neg hlong] at hpage
        rw [listKeysFrom_last hmore hpage, hkeys]
        exact ⟨place + taken, rfl, .inr (by omega)⟩
    · rw [listKeysFrom, if_neg hmore]
      exact ⟨place, rfl, .inl (by omega)⟩

/-- **A listing has every key**, up to its limit, in however many pages. -/
theorem listKeys_eq (h : b.Answers) : b.listKeys start limit = .ok ((b.under start).take limit) := by
  obtain ⟨n, hkeys, hn⟩ := @listKeysFrom_eq b start limit h limit 0 none rfl (Nat.zero_le _) (by omega)
  rw [List.take_zero] at hkeys
  rw [listKeys, hkeys]
  show Except.ok (((b.under start).take n).take limit) = _
  rw [List.take_take]
  rcases hn with hn | hn
  · rw [Nat.min_eq_left hn]
  · rcases le_total limit n with hle | hle
    · rw [Nat.min_eq_left hle]
    · rw [Nat.min_eq_right hle, List.take_of_length_le hn, List.take_of_length_le (hn.trans hle)]

variable (b) in
/-- The newest keys of the mirror. -/
def newest : List String := newestOf listLimit (b.under (indexPrefix ++ "/"))

variable (b) in
/-- **What a listing has of the mirror**: the entries of the newest keys that it follows. -/
def fetched : List IndexEntry :=
  (newestOf listLimit ((b.under (indexPrefix ++ "/")).take keysMax)).filterMap b.indexAt

theorem listIndex_eq (h : b.Answers) :
    b.listIndex listLimit = .ok (sortedBy IndexEntry.jobId b.fetched) := by
  rw [listIndex, listKeys_eq h]
  rfl

/-- The last listed entry that carries an id. -/
def lastUnder (entries : List IndexEntry) (jobId : String) : Option IndexEntry :=
  (entries.filter fun entry => entry.jobId = jobId).getLast?

theorem lastUnder_jobId {entries : List IndexEntry} {jobId : String} {entry : IndexEntry}
    (h : lastUnder entries jobId = some entry) : entry.jobId = jobId :=
  of_decide_eq_true (List.mem_filter.mp (List.mem_of_getLast? h)).2

theorem lastUnder_eq_none {entries : List IndexEntry} {jobId : String} :
    lastUnder entries jobId = none ↔ ∀ entry ∈ entries, entry.jobId ≠ jobId := by
  rw [lastUnder, List.getLast?_eq_none_iff, List.filter_eq_nil_iff]
  simp

end Bucket

/-! ## What the two readers have -/

namespace JobIndex
variable {j : JobIndex}

/-- No listing of the mirror fails. -/
def Answers (j : JobIndex) : Prop := ∀ b, j.s3 = some b → b.Answers

/-- What is listed of the mirror, if there is one. -/
def mirrored (j : JobIndex) : List IndexEntry := (j.s3.map Bucket.fetched).getD []

theorem mirrored_eq {b : Bucket} (hs3 : j.s3 = some b) : j.mirrored = b.fetched := by
  rw [mirrored, hs3, Option.map_some, Option.getD_some]

/-- **`all` has the last listed entry of the mirror that carries an id, and else the last local one.** -/
theorem get?_all (h : j.Answers) (jobId : String) :
    j.all.1.get? jobId =
      (Bucket.lastUnder j.mirrored jobId).or (Bucket.lastUnder j.localIndex.list jobId) := by
  rw [all]
  cases hs3 : j.s3 with
  | none =>
    show (Dict.keyed IndexEntry.jobId j.localIndex.list).get? jobId = _
    rw [Dict.get?_keyed, mirrored, hs3]
    rfl
  | some b =>
    dsimp only
    rw [b.listIndex_eq (h b hs3)]
    dsimp only
    rw [Dict.get?_updated, Dict.get?_keyed, Dict.get?_keyed, filter_sortedBy, mirrored_eq hs3,
      Bucket.lastUnder, Bucket.lastUnder]

theorem complete_all (h : j.Answers) : j.all.2 = none := by
  rw [all]
  cases hs3 : j.s3 with
  | none => rfl
  | some b =>
    dsimp only
    rw [b.listIndex_eq (h b hs3)]

theorem mem_keys_all (h : j.Answers) {jobId : String} : jobId ∈ j.all.1.keys ↔
    (∃ entry ∈ j.mirrored, entry.jobId = jobId) ∨
      ∃ entry ∈ j.localIndex.list, entry.jobId = jobId := by
  have hnone : ∀ entries, Bucket.lastUnder entries jobId ≠ none ↔
      ∃ entry ∈ entries, entry.jobId = jobId := by
    intro entries
    rw [ne_eq, Bucket.lastUnder_eq_none]
    simp
  rw [← hnone, ← hnone, ← not_iff_not, ← Dict.get?_eq_none, get?_all h]
  simp

theorem mem_list {entry : IndexEntry} : entry ∈ j.localIndex.list ↔
    ∃ name ∈ j.localIndex.names, j.localIndex.get (stem name) = some entry := by
  rw [LocalIndex.list, List.mem_filterMap]
  simp

/-- **The two readers agree**: what `all` has of an id is what `get` has, and `all` has every id of the
local index that is read and every one of the newest of the mirror. -/
structure ReadersAgree (j : JobIndex) : Prop where
  same : ∀ jobId entry, j.all.1.get? jobId = some entry → j.get jobId = some entry
  localIds : ∀ name ∈ j.localIndex.names, j.localIndex.get (stem name) ≠ none → stem name ∈ j.all.1.keys
  newest : ∀ b, j.s3 = some b → ∀ jobId, indexKey jobId ∈ b.newest → b.getIndex jobId ≠ none →
    jobId ∈ j.all.1.keys

/-- **What the two stores hold is told apart by its ids.** -/
structure Consistent (j : JobIndex) : Prop where
  /-- A local entry carries the id it is stored under. -/
  own : ∀ name ∈ j.localIndex.names, ∀ entry, j.localIndex.get (stem name) = some entry →
    entry.jobId = stem name
  /-- What is listed of an id, in the end, is the local entry of it, or the object of it where there is
  no local one. -/
  listed : ∀ b, j.s3 = some b → ∀ jobId entry, Bucket.lastUnder b.fetched jobId = some entry →
    j.localIndex.get jobId = some entry ∨
      j.localIndex.get jobId = none ∧ b.getIndex jobId = some entry
  /-- Each of the newest ids that is not local is carried by something listed. -/
  carried : ∀ b, j.s3 = some b → ∀ jobId, indexKey jobId ∈ b.newest → b.getIndex jobId ≠ none →
    (∃ name ∈ j.localIndex.names, stem name = jobId ∧ j.localIndex.get jobId ≠ none) ∨
      ∃ entry ∈ b.fetched, entry.jobId = jobId

theorem get_eq_some {jobId : String} {entry : IndexEntry} : j.get jobId = some entry ↔
    j.localIndex.get jobId = some entry ∨
      j.localIndex.get jobId = none ∧ ∃ b, j.s3 = some b ∧ b.getIndex jobId = some entry := by
  rw [get]
  cases hlocal : j.localIndex.get jobId with
  | some found => simp
  | none => simp [Option.bind_eq_some_iff]

/-- Local entries that carry their own ids are the ones under them. -/
theorem lastUnder_list (hown : ∀ name ∈ j.localIndex.names, ∀ entry,
      j.localIndex.get (stem name) = some entry → entry.jobId = stem name) {jobId : String}
    {entry : IndexEntry} (h : Bucket.lastUnder j.localIndex.list jobId = some entry) :
    j.localIndex.get jobId = some entry := by
  have hid := Bucket.lastUnder_jobId h
  obtain ⟨name, hname, hget⟩ := mem_list.mp (List.mem_filter.mp (List.mem_of_getLast? h)).1
  rw [← hown name hname entry hget, hid] at hget
  exact hget

/-- **The two readers agree exactly when the two stores are consistent.** -/
theorem readersAgree_iff (h : j.Answers) : ReadersAgree j ↔ Consistent j := by
  constructor
  · intro ⟨hsame, hlocal, hnewest⟩
    have hown : ∀ name ∈ j.localIndex.names, ∀ entry, j.localIndex.get (stem name) = some entry →
        entry.jobId = stem name := by
      intro name hname entry hget
      obtain ⟨found, hfound⟩ := Dict.mem_keys.mp (hlocal name hname (by rw [hget]; nofun))
      have hread := hsame _ _ hfound
      rw [get_eq_some, hget] at hread
      obtain rfl : entry = found := by simpa using hread
      -- what `all` has of an id carries that id
      rw [get?_all h, Option.or_eq_some_iff] at hfound
      rcases hfound with hfound | ⟨-, hfound⟩ <;> exact Bucket.lastUnder_jobId hfound
    refine ⟨hown, fun b hs3 jobId entry hlast => ?_, fun b hs3 jobId hkey hget => ?_⟩
    · have hall : j.all.1.get? jobId = some entry := by
        rw [get?_all h, mirrored_eq hs3, hlast, Option.some_or]
      refine (get_eq_some.mp (hsame jobId entry hall)).imp_right fun ⟨hnone, b', hs3', hread⟩ => ?_
      obtain rfl := Option.some.inj (hs3.symm.trans hs3')
      exact ⟨hnone, hread⟩
    · rcases (mem_keys_all h).mp (hnewest b hs3 jobId hkey hget) with hentry | ⟨entry, hentry, hid⟩
      · exact .inr (mirrored_eq hs3 ▸ hentry)
      · obtain ⟨name, hname, hread⟩ := mem_list.mp hentry
        have hstem := (hown name hname entry hread).symm.trans hid
        exact .inl ⟨name, hname, hstem, by rw [← hstem, hread]; nofun⟩
  · intro ⟨hown, hlisted, hcarried⟩
    refine ⟨fun jobId entry hall => ?_, fun name hname hget => ?_, fun b hs3 jobId hkey hget => ?_⟩
    · rw [get?_all h, Option.or_eq_some_iff] at hall
      rw [get_eq_some]
      rcases hall with hlast | ⟨-, hlast⟩
      · cases hs3 : j.s3 with
        | none =>
          rw [mirrored, hs3] at hlast
          cases hlast
        | some b =>
          rw [mirrored_eq hs3] at hlast
          refine (hlisted b hs3 jobId entry hlast).imp_right fun ⟨hnone, hread⟩ => ?_
          exact ⟨hnone, b, rfl, hread⟩
      · exact .inl (lastUnder_list hown hlast)
    · obtain ⟨entry, hentry⟩ := Option.ne_none_iff_exists'.mp hget
      exact (mem_keys_all h).mpr
        (.inr ⟨entry, mem_list.mpr ⟨name, hname, hentry⟩, hown name hname entry hentry⟩)
    · rcases hcarried b hs3 jobId hkey hget with ⟨name, hname, rfl, hlocal⟩ | hentry
      · obtain ⟨entry, hentry⟩ := Option.ne_none_iff_exists'.mp hlocal
        exact (mem_keys_all h).mpr
          (.inr ⟨entry, mem_list.mpr ⟨name, hname, hentry⟩, hown name hname entry hentry⟩)
      · exact (mem_keys_all h).mpr (.inl (mirrored_eq hs3 ▸ hentry))

/-- A job that is in both with different entries is read as either. -/
theorem not_agree_of_different (h : j.Answers) {b : Bucket} (hs3 : j.s3 = some b) {jobId : String}
    {entry other : IndexEntry} (hlocal : j.localIndex.get jobId = some entry)
    (hlisted : Bucket.lastUnder b.fetched jobId = some other) (hne : entry ≠ other) :
    ¬ ReadersAgree j := by
  intro hagree
  have hall : j.all.1.get? jobId = some other := by
    rw [get?_all h, mirrored_eq hs3, hlisted, Option.some_or]
  have hget := hagree.same jobId other hall
  rw [get_eq_some, hlocal] at hget
  exact hne (by simpa using hget)

/-! ## A job in both -/

/-- What is stored of a job. -/
def stored (jobId host : String) : Json := .obj [("job_id", .str jobId), ("host", .str host)]

/-- A mirror of one job. -/
def oneObject (host : String) : Bucket where
  name := "bkt"
  keys := ["gpuc/index/j1.json"]
  object key := if key = "gpuc/index/j1.json" then some (stored "j1" host) else none
  room _ := .ok 1000
  room_pos _ _ h := Except.ok.inj h ▸ by decide

/-- An index of one job, on one host by the local file and on another, or the same, by the object. -/
def inBoth (here there : String) : JobIndex where
  localIndex :=
    { names := ["j1.json"]
      file := fun name => if name = "j1.json" then some (stored "j1" here) else none }
  s3 := some (oneObject there)

theorem answers_inBoth (here there : String) : (inBoth here there).Answers := by
  intro b hb place
  obtain rfl := Option.some.inj hb
  exact ⟨1000, rfl⟩

/-- What is listed, where no key is beyond the listing. -/
theorem fetched_of_few {b : Bucket} (h : (b.under (indexPrefix ++ "/")).length ≤ keysMax) :
    b.fetched = b.newest.filterMap b.indexAt := by
  rw [Bucket.fetched, List.take_of_length_le h, Bucket.newest]

theorem validate_stored (jobId host : String) : IndexEntry.validate (stored jobId host)
    = some { jobId := jobId, host := host } := rfl

theorem local_inBoth {here there jobId : String} : (inBoth here there).localIndex.get jobId =
    if jobId = "j1" then some { jobId := "j1", host := here } else none := by
  show ((if jobId ++ ".json" = "j1.json" then some (stored "j1" here) else none).bind _) = _
  have hkey : jobId ++ ".json" = "j1.json" ↔ jobId = "j1" := by
    constructor
    · intro heq
      have hchars := congrArg String.toList heq
      rw [String.toList_append, show "j1.json".toList = "j1".toList ++ ".json".toList from by decide] at hchars
      exact String.toList_inj.mp (List.append_cancel_right hchars)
    · rintro rfl
      decide
  by_cases h : jobId = "j1"
  · rw [if_pos (hkey.mpr h), if_pos h]
    exact validate_stored "j1" here
  · rw [if_neg (fun heq => h (hkey.mp heq)), if_neg h]
    rfl

theorem newest_oneObject (host : String) : (oneObject host).newest = ["gpuc/index/j1.json"] := by
  have hkeys : Bucket.newestOf listLimit (["gpuc/index/j1.json"].filter fun key =>
      (indexPrefix ++ "/").toList <+: key.toList) = ["gpuc/index/j1.json"] := by decide +kernel
  exact hkeys

theorem fetched_oneObject (host : String) :
    (oneObject host).fetched = [{ jobId := "j1", host := host }] := by
  have hfew : ((oneObject host).under (indexPrefix ++ "/")).length ≤ keysMax :=
    (List.length_filter_le _ _).trans (by decide : 1 ≤ keysMax)
  rw [fetched_of_few hfew, newest_oneObject]
  rfl

/-- **A listing has the mirror's entry of a job that this machine has submitted elsewhere.** -/
theorem mirrored_over_local : ¬ ReadersAgree (inBoth "box" "rig") := by
  have hlisted : Bucket.lastUnder (oneObject "rig").fetched "j1"
      = some { jobId := "j1", host := "rig" } := by
    rw [fetched_oneObject]
    rfl
  exact not_agree_of_different (answers_inBoth "box" "rig") rfl (local_inBoth.trans (if_pos rfl)) hlisted
    (by decide)

/-- And of one that is in both alike, either. -/
theorem readersAgree_iff_alike : ReadersAgree (inBoth "box" "box") := by
  refine (readersAgree_iff (answers_inBoth "box" "box")).mpr ⟨?_, ?_, ?_⟩
  · intro name hname entry hget
    obtain rfl := List.mem_singleton.mp hname
    have hstem : stem "j1.json" = "j1" := by decide +kernel
    rw [hstem, local_inBoth, if_pos rfl] at hget
    rw [hstem, ← Option.some.inj hget]
  · intro b hs3 jobId entry hlast
    obtain rfl := Option.some.inj hs3
    have hid := Bucket.lastUnder_jobId hlast
    have hmem := (List.mem_filter.mp (List.mem_of_getLast? hlast)).1
    rw [fetched_oneObject] at hmem
    obtain rfl := List.mem_singleton.mp hmem
    obtain rfl : "j1" = jobId := hid
    exact .inl (local_inBoth.trans (if_pos rfl))
  · intro b hs3 jobId hkey _
    obtain rfl := Option.some.inj hs3
    rw [newest_oneObject, List.mem_singleton] at hkey
    refine .inr ⟨{ jobId := "j1", host := "box" }, ?_, ?_⟩
    · rw [fetched_oneObject]
      exact List.mem_singleton_self _
    · have hchars := congrArg String.toList hkey
      rw [indexKey, String.toList_append, String.toList_append,
        show "gpuc/index/j1.json".toList = (indexPrefix ++ "/").toList ++ "j1".toList ++ ".json".toList
          from by decide +kernel] at hchars
      exact (String.toList_inj.mp (List.append_cancel_left (List.append_cancel_right hchars))).symm

end JobIndex

end Gpuc.Control.S3Index
