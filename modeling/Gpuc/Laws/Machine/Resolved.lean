import Mathlib.Data.List.Induction
import Mathlib.Data.List.Pairwise
import Gpuc.Host.Cards

/-!
# What the entries of a host's cards come to

`resolve` accounts for each entry once: it names a card, or it names one that is named already, or there
is no such card (`resolve_partitions`). A card is owned when an owned entry names it, and shared when a
shared one does and no owned one; what comes out is read again as it is.

A UUID is told from an index by not being digits, which the UUID of no card is (`Table`).
-/

set_option autoImplicit false

namespace Gpuc.Host

/-- The UUIDs of cards, which are all that `parse_table` makes rows of. -/
def isCardUuid (uuid : Uuid) : Bool := "GPU-".toList.isPrefixOf uuid.toList

/-- **A driver's table of cards**: no UUID and no index twice. -/
structure Table where
  rows : List Gpu
  uuids : (rows.map Gpu.uuid).Nodup
  indices : (rows.filterMap Gpu.index).Nodup
  cards : ∀ gpu ∈ rows, isCardUuid gpu.uuid

/-! ## One list of entries -/

section Entries
variable {table : List Gpu} {others : List Uuid} {entries : List String}

theorem readEntries_append (entry : String) :
    readEntries table others (entries ++ [entry]) = (readEntries table others entries).read table others entry := by
  rw [readEntries, List.foldl_append]
  rfl

/-- What is said of no card is what names none. -/
theorem readEntries_missing :
    (readEntries table others entries).missing = entries.filter fun e => lookupCard table e = none := by
  induction entries using List.reverseRecOn with
  | nil => rfl
  | append_singleton entries entry ih =>
    rw [readEntries_append, List.filter_append, ← ih, Named.read]
    cases hcard : lookupCard table entry with
    | none => simp [hcard]
    | some uuid =>
      dsimp only
      split <;> simp [hcard]

/-- **The cards that are found are the ones an entry names**, the others apart. -/
theorem mem_readEntries {c : Uuid} :
    c ∈ (readEntries table others entries).found ↔
      c ∉ others ∧ ∃ e ∈ entries, lookupCard table e = some c := by
  induction entries using List.reverseRecOn with
  | nil => simp [readEntries]
  | append_singleton entries entry ih =>
    rw [readEntries_append, Named.read]
    simp only [List.mem_append, List.mem_singleton]
    cases hcard : lookupCard table entry with
    | none =>
      dsimp only
      rw [ih]
      constructor
      · rintro ⟨hother, e, he, hc⟩
        exact ⟨hother, e, .inl he, hc⟩
      · rintro ⟨hother, e, he | rfl, hc⟩
        · exact ⟨hother, e, he, hc⟩
        · rw [hcard] at hc
          cases hc
    | some uuid =>
      dsimp only
      have hfound : c ∈ (readEntries table others entries).found →
          c ∉ others ∧ ∃ e, (e ∈ entries ∨ e = entry) ∧ lookupCard table e = some c := by
        intro hc
        obtain ⟨hother, e, he, hname⟩ := ih.mp hc
        exact ⟨hother, e, .inl he, hname⟩
      split
      · next hnamed =>
        refine ⟨hfound, ?_⟩
        rintro ⟨hother, e, he | rfl, hc⟩
        · exact ih.mpr ⟨hother, e, he, hc⟩
        · rw [hcard] at hc
          obtain rfl := Option.some.inj hc
          exact hnamed.resolve_left hother
      · next hnew =>
        rw [not_or] at hnew
        rw [List.mem_append, List.mem_singleton]
        constructor
        · rintro (hc | rfl)
          · exact hfound hc
          · exact ⟨hnew.1, entry, .inr rfl, hcard⟩
        · rintro ⟨hother, e, he | rfl, hc⟩
          · exact .inl (ih.mpr ⟨hother, e, he, hc⟩)
          · rw [hcard] at hc
            exact .inr (Option.some.inj hc).symm

/-- **The entries, each accounted for once**: by a card it names, by there being none, or by one that is
named already. -/
structure Accounted (table : List Gpu) (others : List Uuid) (entries : List String) (found : List Uuid)
    (missing duplicates : List String) : Prop where
  once : ∃ naming : List String, (naming ++ missing ++ duplicates).Perm entries ∧
    naming.map (lookupCard table) = found.map some
  none : ∀ e ∈ missing, lookupCard table e = none
  again : ∀ e ∈ duplicates, ∃ c, lookupCard table e = some c ∧ (c ∈ others ∨ c ∈ found)

/-- A part of one more entry, wherever it stands. -/
theorem perm_snoc {front back entries : List String} (h : (front ++ back).Perm entries) (entry : String) :
    (front ++ [entry] ++ back).Perm (entries ++ [entry]) := by
  have hlast : (front ++ [entry] ++ back).Perm (front ++ back ++ [entry]) := by
    rw [List.append_assoc, List.append_assoc]
    exact List.perm_append_comm.append_left front
  exact hlast.trans (h.append_right [entry])

theorem readEntries_accounted :
    Accounted table others entries (readEntries table others entries).found
      (readEntries table others entries).missing (readEntries table others entries).duplicates := by
  induction entries using List.reverseRecOn with
  | nil => exact ⟨⟨[], .nil, rfl⟩, nofun, nofun⟩
  | append_singleton entries entry ih =>
    obtain ⟨⟨naming, hperm, hnaming⟩, hnone, hagain⟩ := ih
    rw [readEntries_append, Named.read]
    cases hcard : lookupCard table entry with
    | none =>
      refine ⟨⟨naming, ?_, hnaming⟩, ?_, hagain⟩
      · rw [← List.append_assoc]
        exact perm_snoc hperm entry
      · intro e he
        rcases List.mem_append.mp he with he | he
        · exact hnone e he
        · rwa [List.mem_singleton.mp he]
    | some uuid =>
      dsimp only
      split
      · next hnamed =>
        refine ⟨⟨naming, ?_, hnaming⟩, hnone, ?_⟩
        · rw [← List.append_assoc]
          exact hperm.append_right [entry]
        · intro e he
          rcases List.mem_append.mp he with he | he
          · exact hagain e he
          · exact ⟨uuid, List.mem_singleton.mp he ▸ hcard, hnamed⟩
      · refine ⟨⟨naming ++ [entry], ?_, ?_⟩, hnone, fun e he => ?_⟩
        · rw [List.append_assoc (naming ++ [entry])]
          rw [List.append_assoc naming] at hperm
          exact perm_snoc hperm entry
        · rw [List.map_append, List.map_append, hnaming, List.map_singleton, hcard, List.map_singleton]
        · obtain ⟨c, hc, hnamed⟩ := hagain e he
          exact ⟨c, hc, hnamed.imp_right (List.mem_append_left _)⟩

end Entries

/-! ## Cards of a table -/

theorem not_isDigits_of_isCardUuid {uuid : Uuid} (h : isCardUuid uuid) : isDigits uuid = false := by
  obtain ⟨rest, hrest⟩ := List.isPrefixOf_iff_prefix.mp h
  unfold isDigits
  rw [← hrest]
  rfl

section Cards
variable (table : Table)

/-- Its cards' UUIDs. -/
def Table.known : List Uuid := table.rows.map Gpu.uuid

/-- A card's own UUID names it. -/
theorem lookupCard_uuid {c : Uuid} (hc : c ∈ table.known) : lookupCard table.rows c = some c := by
  obtain ⟨gpu, hgpu, rfl⟩ := List.mem_map.mp hc
  rw [lookupCard, if_neg (by rw [not_isDigits_of_isCardUuid (table.cards gpu hgpu)]; exact Bool.false_ne_true)]
  exact if_pos hc

/-- What an entry names is a card of the table. -/
theorem lookupCard_known {entry : String} {c : Uuid} (h : lookupCard table.rows entry = some c) :
    c ∈ table.known := by
  unfold lookupCard at h
  split at h
  · obtain ⟨gpu, hfound, rfl⟩ := Option.map_eq_some_iff.mp h
    exact List.mem_map_of_mem (List.mem_reverse.mp (List.mem_of_find?_eq_some hfound))
  · split at h
    · next hmem => exact Option.some.inj h ▸ hmem
    · cases h

/-- **UUIDs of the table, none twice, are read as they are.** -/
theorem readEntries_uuids {others uuids : List Uuid} (hnodup : (others ++ uuids).Nodup)
    (hknown : ∀ c ∈ uuids, c ∈ table.known) :
    readEntries table.rows others uuids = { found := uuids } := by
  induction uuids using List.reverseRecOn with
  | nil => rfl
  | append_singleton uuids c ih =>
    rw [← List.append_assoc] at hnodup
    obtain ⟨hfront, -, hdisjoint⟩ := List.nodup_append.mp hnodup
    have hnew : c ∉ others ++ uuids := fun hc => hdisjoint c hc c (List.mem_singleton_self c) rfl
    rw [List.mem_append] at hnew
    rw [readEntries_append, ih hfront fun d hd => hknown d (List.mem_append_left _ hd), Named.read,
      lookupCard_uuid table (hknown c (List.mem_append_right _ (List.mem_singleton_self c)))]
    exact if_neg hnew

/-- What a resolution makes of UUIDs of the table. -/
theorem resolve_uuids {owned shared : List Uuid} (hnodup : (owned ++ shared).Nodup)
    (hknown : ∀ c ∈ owned ++ shared, c ∈ table.known) :
    resolve (some owned) table.rows shared = { owned := owned, shared := shared } := by
  have hours : readEntries table.rows [] owned = { found := owned } :=
    readEntries_uuids table (List.nodup_append.mp hnodup).1 fun c hc =>
      hknown c (List.mem_append_left _ hc)
  have htheirs : readEntries table.rows owned shared = { found := shared } :=
    readEntries_uuids table hnodup fun c hc => hknown c (List.mem_append_right _ hc)
  rw [resolve, Option.getD_some, hours, htheirs]
  rfl

/-- **An entry names a card**: by its index, as it is written, or by its UUID. -/
def Names (entry : String) (c : Uuid) : Prop :=
  ∃ gpu ∈ table.rows, gpu.uuid = c ∧ (gpu.index.map toString = some entry ∨ entry = c)

theorem isDigits_toString (n : Nat) : isDigits (toString n) = true := by
  have hlist : (toString n).toList = Nat.toDigits 10 n := Nat.toList_repr
  have hne : (toString n).toList ≠ [] := by
    intro hnil
    exact Nat.repr_ne_empty (String.toList_inj.mp (hnil.trans rfl))
  have hall : (toString n).toList.all Char.isDigit = true := by
    rw [List.all_eq_true, hlist]
    intro c hc
    exact Nat.isDigit_of_mem_toDigits (by decide) (by decide) hc
  rw [isDigits, hall, decide_eq_true hne]
  rfl

/-- Two numbers are not written alike. -/
theorem toString_injective {m n : Nat} (h : toString m = toString n) : m = n := by
  have hdigits : Nat.toDigits 10 m = Nat.toDigits 10 n := by
    rw [← Nat.toList_repr, ← Nat.toList_repr]
    exact congrArg String.toList h
  have hread := congrArg (Nat.ofDigitChars 10 · 0) hdigits
  simpa using hread

/-- A row is told by its index. -/
theorem eq_of_index {gpu gpu' : Gpu} {n : Nat} (hgpu : gpu ∈ table.rows) (hgpu' : gpu' ∈ table.rows)
    (hn : gpu.index = some n) (hn' : gpu'.index = some n) : gpu = gpu' := by
  by_contra hne
  have hsymm : Std.Symm fun a b : Gpu => ∀ i, a.index = some i → ∀ j, b.index = some j → i ≠ j :=
    ⟨fun _ _ h i hi j hj => (h j hj i hi).symm⟩
  exact (List.pairwise_filterMap.mp table.indices).forall hgpu hgpu' hne n hn n hn' rfl

/-- **The card that is looked up is the one the entry names.** -/
theorem lookupCard_eq_some {entry : String} {c : Uuid} :
    lookupCard table.rows entry = some c ↔ Names table entry c := by
  constructor
  · intro h
    unfold lookupCard at h
    split at h
    · obtain ⟨gpu, hfound, rfl⟩ := Option.map_eq_some_iff.mp h
      have hspelled : gpu.index.map toString = some entry := by simpa using List.find?_some hfound
      exact ⟨gpu, List.mem_reverse.mp (List.mem_of_find?_eq_some hfound), rfl, .inl hspelled⟩
    · split at h
      · next hmem =>
        obtain rfl := Option.some.inj h
        obtain ⟨gpu, hgpu, huuid⟩ := List.mem_map.mp hmem
        exact ⟨gpu, hgpu, huuid, .inr rfl⟩
      · cases h
  · rintro ⟨gpu, hgpu, rfl, hspelled | rfl⟩
    · obtain ⟨n, hn, rfl⟩ := Option.map_eq_some_iff.mp hspelled
      have hsome : (table.rows.reverse.find? fun row => row.index.map toString = some (toString n)).isSome := by
        apply List.find?_isSome.mpr
        exact ⟨gpu, List.mem_reverse.mpr hgpu, decide_eq_true hspelled⟩
      obtain ⟨found, hfound⟩ := Option.isSome_iff_exists.mp hsome
      have hindex : found.index.map toString = some (toString n) := by
        simpa using List.find?_some hfound
      obtain ⟨m, hm, hsame⟩ := Option.map_eq_some_iff.mp hindex
      obtain rfl : m = n := toString_injective hsame
      have hrow : found = gpu :=
        eq_of_index table (List.mem_reverse.mp (List.mem_of_find?_eq_some hfound)) hgpu hm hn
      rw [lookupCard, if_pos (isDigits_toString m), hfound, hrow]
      rfl
    · exact lookupCard_uuid table (List.mem_map_of_mem hgpu)

end Cards

/-- **A resolution partitions what it is given.** -/
structure Partitions (table : Table) (owned : Option (List String)) (shared : List String)
    (r : Resolution) : Prop where
  /-- Cards of the table, none twice, nor in both lists. -/
  distinct : (r.owned ++ r.shared).Nodup
  known : ∀ c ∈ r.owned ++ r.shared, c ∈ table.known
  /-- Each entry is accounted for once; where no entries are given, the owned cards are their own. -/
  accounted : ∃ ofOwned ofShared, r.duplicates = ofOwned ++ ofShared ∧
    Accounted table.rows [] (owned.getD r.owned) r.owned r.missing ofOwned ∧
    Accounted table.rows r.owned shared r.shared r.sharedMissing ofShared
  ours : ∀ entries, owned = some entries → ∀ c, c ∈ r.owned ↔ ∃ e ∈ entries, Names table e c
  theirs : ∀ entries, owned = some entries → ∀ c,
    c ∈ r.shared ↔ (∃ e ∈ shared, Names table e c) ∧ ¬ ∃ e ∈ entries, Names table e c
  /-- With no entries to own by, every card is owned that is not shared. -/
  everything : owned = none → r.missing = [] ∧ (r.owned ++ r.shared).Perm table.known ∧
    ∀ c, c ∈ r.shared ↔ ∃ e ∈ shared, Names table e c
  /-- What comes out is read again as it is. -/
  again : resolve (some r.owned) table.rows r.shared = { owned := r.owned, shared := r.shared }

section Partition
variable (table : Table) (shared : List String)

/-- The UUIDs owned when no entries are given. -/
def Table.unshared : List Uuid :=
  table.known.filter fun uuid => some uuid ∉ shared.map (lookupCard table.rows)

theorem mem_unshared {c : Uuid} :
    c ∈ table.unshared shared ↔ c ∈ table.known ∧ ¬ ∃ e ∈ shared, Names table e c := by
  rw [Table.unshared, List.mem_filter, decide_eq_true_iff, List.mem_map]
  simp only [lookupCard_eq_some]

/-- They are read as they are. -/
theorem readEntries_unshared :
    readEntries table.rows [] (table.unshared shared) = { found := table.unshared shared } := by
  apply readEntries_uuids table
  · exact table.uuids.filter _
  · intro c hc
    exact ((mem_unshared table shared).mp hc).1

theorem resolve_known {owned : Option (List String)} {c : Uuid}
    (hc : c ∈ (resolve owned table.rows shared).owned ++ (resolve owned table.rows shared).shared) :
    c ∈ table.known := by
  rcases List.mem_append.mp hc with hc | hc
  · obtain ⟨-, e, -, hname⟩ := mem_readEntries.mp hc
    exact lookupCard_known table hname
  · obtain ⟨-, e, -, hname⟩ := mem_readEntries.mp hc
    exact lookupCard_known table hname

end Partition

/-! ## The runner's check -/

section Runner
variable {table : Table} {assigned : List Uuid}

/-- None of the cards is named twice when no entry is a duplicate. -/
theorem duplicates_eq_nil (hnames : ∀ e ∈ assigned, ∃ c, Names table e c) :
    (readEntries table.rows [] assigned).duplicates = [] ↔
      (assigned.map (lookupCard table.rows)).Nodup := by
  obtain ⟨⟨naming, hperm, hnaming⟩, hnone, hagain⟩ :=
    @readEntries_accounted table.rows [] assigned
  have hmissing : (readEntries table.rows [] assigned).missing = [] := by
    rw [readEntries_missing, List.filter_eq_nil_iff]
    intro e he
    obtain ⟨c, hc⟩ := hnames e he
    rw [(lookupCard_eq_some table).mpr hc]
    simp
  rw [hmissing, List.append_nil] at hperm
  have hlooked := hperm.map (lookupCard table.rows)
  rw [List.map_append, hnaming] at hlooked
  rw [← hlooked.nodup_iff]
  constructor
  · intro hnil
    have hfound := @readEntries_found table.rows [] assigned List.nodup_nil
    rw [hnil, List.map_nil, List.append_nil]
    exact hfound.map (Option.some_injective _)
  · intro hnodup
    by_contra hsome
    obtain ⟨e, he⟩ := List.exists_mem_of_ne_nil _ hsome
    obtain ⟨c, hc, hnamed⟩ := hagain e he
    have hfound : some c ∈ (readEntries table.rows [] assigned).found.map some :=
      List.mem_map_of_mem (hnamed.resolve_left List.not_mem_nil)
    exact (List.nodup_append.mp hnodup).2.2 _ hfound _ (List.mem_map_of_mem he) hc.symm

/-- **A runner takes its cards exactly when each is there and none is named twice.** -/
theorem verifyAssigned_eq_none (hsome : assigned ≠ []) (asks : Int) :
    verifyAssigned assigned asks (.ok table.rows) = none ↔
      (∀ e ∈ assigned, ∃ c, Names table e c) ∧ (assigned.map (lookupCard table.rows)).Nodup := by
  have hmissing : (resolve (some assigned) table.rows []).missing = [] ↔
      ∀ e ∈ assigned, ∃ c, Names table e c := by
    show (readEntries table.rows [] assigned).missing = [] ↔ _
    rw [readEntries_missing, List.filter_eq_nil_iff]
    simp only [decide_eq_true_eq, ← lookupCard_eq_some, ← Option.ne_none_iff_exists', ne_eq]
  have hduplicates : (resolve (some assigned) table.rows []).duplicates =
      (readEntries table.rows [] assigned).duplicates := List.append_nil _
  rw [verifyAssigned, if_neg hsome]
  dsimp only
  split
  · next hgone =>
    exact iff_of_false nofun fun h => hgone (hmissing.mpr h.1)
  · next hthere =>
    rw [ne_eq, not_not, hmissing] at hthere
    rw [and_iff_right hthere, ← duplicates_eq_nil hthere, ← hduplicates]
    split
    · next htwice => exact iff_of_false nofun htwice
    · next honce => exact iff_of_true rfl (not_not.mp honce)

/-- So it takes any of the cards that came out of a resolution. -/
theorem verifyAssigned_resolved {owned : Option (List String)} {shared : List String}
    (hnodup : assigned.Nodup) (hsome : assigned ≠ []) (asks : Int)
    (hcards : ∀ c ∈ assigned, c ∈ (resolve owned table.rows shared).owned ++
      (resolve owned table.rows shared).shared) :
    verifyAssigned assigned asks (.ok table.rows) = none := by
  have hlookup : ∀ c ∈ assigned, lookupCard table.rows c = some c := fun c hc =>
    lookupCard_uuid table (resolve_known table shared (hcards c hc))
  apply (verifyAssigned_eq_none hsome asks).mpr
  constructor
  · exact fun c hc => ⟨c, (lookupCard_eq_some table).mp (hlookup c hc)⟩
  · rw [List.map_congr_left hlookup]
    exact hnodup.map (Option.some_injective _)

end Runner

end Gpuc.Host
