import Mathlib.Data.List.Induction
import Mathlib.Data.List.Nodup
import Gpuc.Basis.Sorted

/-!
# Dictionaries in insertion order

A dictionary whose entries come out in the order their keys first went in: a write to a key that is
there keeps its place, a key taken out and put back goes to the end. No key occurs twice, and the type
says so.

The laws: what a key reads after each operation (`get?_set`, `get?_erase`, `get?_filter`,
`get?_setDefault`), and that the keys and values are those of the entries read (`mem_keys`,
`mem_values`).
-/

set_option autoImplicit false

namespace Gpuc.Basis

/-- **A dictionary**: its entries in order, no key twice. -/
@[ext]
structure Dict (κ : Type) (α : Type) where
  entries : List (κ × α)
  nodup : (entries.map Prod.fst).Nodup

namespace Dict

variable {κ α : Type}

/-- The dictionary with nothing in it. -/
def empty : Dict κ α := ⟨[], List.nodup_nil⟩

def keys (d : Dict κ α) : List κ := d.entries.map Prod.fst

def values (d : Dict κ α) : List α := d.entries.map Prod.snd

/-- The entries a test keeps. -/
def filter (d : Dict κ α) (p : κ → α → Bool) : Dict κ α where
  entries := d.entries.filter fun e => p e.1 e.2
  nodup := (List.filter_sublist.map Prod.fst).nodup d.nodup

theorem nodup_keys (d : Dict κ α) : d.keys.Nodup := d.nodup

variable [DecidableEq κ]

def get? (d : Dict κ α) (k : κ) : Option α := d.entries.lookup k

/-- **Reading is having the entry.** -/
theorem get?_eq_some {d : Dict κ α} {k : κ} {v : α} : d.get? k = some v ↔ (k, v) ∈ d.entries := by
  obtain ⟨entries, hnodup⟩ := d
  show entries.lookup k = some v ↔ (k, v) ∈ entries
  induction entries with
  | nil => simp
  | cons e es ih =>
    obtain ⟨j, w⟩ := e
    rw [List.map_cons] at hnodup
    obtain ⟨hnot, hrest⟩ := List.nodup_cons.mp hnodup
    rw [List.lookup_cons, List.mem_cons, Prod.mk.injEq]
    by_cases hkj : k = j
    · subst hkj
      have hout : (k, v) ∉ es := fun h => hnot (List.mem_map.mpr ⟨(k, v), h, rfl⟩)
      simp [hout, eq_comm]
    · rw [beq_false_of_ne hkj, ih hrest]
      simp [hkj]

theorem ext_get? {o o' : Option α} (h : ∀ v, o = some v ↔ o' = some v) : o = o' :=
  Option.ext h

theorem mem_keys {d : Dict κ α} {k : κ} : k ∈ d.keys ↔ ∃ v, d.get? k = some v := by
  simp [keys, get?_eq_some]

theorem mem_values {d : Dict κ α} {v : α} : v ∈ d.values ↔ ∃ k, d.get? k = some v := by
  simp [values, get?_eq_some]

theorem get?_eq_none {d : Dict κ α} {k : κ} : d.get? k = none ↔ k ∉ d.keys := by
  rw [mem_keys, Option.eq_none_iff_forall_ne_some, not_exists]

@[simp] theorem get?_empty (k : κ) : (empty : Dict κ α).get? k = none := rfl

/-! ## Writing -/

/-- Write a key: in place if it is there, at the end if not. -/
def set (d : Dict κ α) (k : κ) (v : α) : Dict κ α where
  entries :=
    if k ∈ d.keys then d.entries.map fun e => if e.1 = k then (k, v) else e
    else d.entries ++ [(k, v)]
  nodup := by
    split
    · have hkeys : (d.entries.map fun e => if e.1 = k then (k, v) else e).map Prod.fst
          = d.entries.map Prod.fst := by
        rw [List.map_map]
        refine List.map_congr_left fun e _ => ?_
        by_cases hk : e.1 = k <;> simp [hk]
      rw [hkeys]
      exact d.nodup
    · next hout =>
      rw [List.map_append]
      refine d.nodup.append (List.nodup_singleton k) fun j hj hk => hout ?_
      rwa [show j = k from List.mem_singleton.mp hk] at hj

/-- Take a key out. -/
def erase (d : Dict κ α) (k : κ) : Dict κ α := d.filter fun j _ => j ≠ k

/-- Write a key that is not there. -/
def setDefault (d : Dict κ α) (k : κ) (v : α) : Dict κ α :=
  if k ∈ d.keys then d else d.set k v

/-- The dictionary of a list of pairs, a later pair over an earlier one of the same key. -/
def ofList (es : List (κ × α)) : Dict κ α :=
  es.foldl (fun d e => d.set e.1 e.2) empty

@[simp] theorem get?_set (d : Dict κ α) (k : κ) (v : α) (j : κ) :
    (d.set k v).get? j = if j = k then some v else d.get? j := by
  refine ext_get? fun w => ?_
  rw [get?_eq_some]
  unfold set
  by_cases hin : k ∈ d.keys
  · obtain ⟨u, hu⟩ := mem_keys.mp hin
    rw [get?_eq_some] at hu
    simp only [hin, if_true, List.mem_map]
    by_cases hj : j = k
    · subst hj
      rw [if_pos rfl]
      constructor
      · rintro ⟨e, -, he⟩
        split at he
        · exact congrArg some (Prod.mk.inj he).2
        · next hne => exact absurd (congrArg Prod.fst he) hne
      · intro h
        exact ⟨(j, u), hu, by simp [Option.some.inj h]⟩
    · rw [if_neg hj, get?_eq_some]
      constructor
      · rintro ⟨e, he, heq⟩
        split at heq
        · exact absurd (congrArg Prod.fst heq).symm hj
        · exact heq ▸ he
      · intro h
        exact ⟨(j, w), h, by simp [hj]⟩
  · simp only [hin, if_false, List.mem_append, List.mem_singleton, Prod.mk.injEq]
    by_cases hj : j = k
    · subst hj
      have hout : (j, w) ∉ d.entries := fun h => hin (mem_keys.mpr ⟨w, get?_eq_some.mpr h⟩)
      simp [hout, eq_comm]
    · simp [hj, get?_eq_some]

@[simp] theorem get?_filter (d : Dict κ α) (p : κ → α → Bool) (j : κ) :
    (d.filter p).get? j = (d.get? j).filter (p j) := by
  refine ext_get? fun w => ?_
  rw [get?_eq_some, Option.filter_eq_some_iff, get?_eq_some]
  simp [filter]

@[simp] theorem get?_erase (d : Dict κ α) (k j : κ) :
    (d.erase k).get? j = if j = k then none else d.get? j := by
  rw [erase, get?_filter]
  by_cases hj : j = k
  · cases d.get? j <;> simp [hj, Option.filter]
  · cases d.get? j <;> simp [hj, Option.filter]

@[simp] theorem get?_setDefault (d : Dict κ α) (k : κ) (v : α) (j : κ) :
    (d.setDefault k v).get? j = if j = k then some ((d.get? k).getD v) else d.get? j := by
  unfold setDefault
  split
  · next hin =>
    obtain ⟨u, hu⟩ := mem_keys.mp hin
    by_cases hj : j = k
    · subst hj; simp [hu]
    · simp [hj]
  · next hout =>
    rw [get?_set, get?_eq_none.mpr hout]
    rfl

theorem mem_keys_set {d : Dict κ α} {k j : κ} {v : α} : j ∈ (d.set k v).keys ↔ j = k ∨ j ∈ d.keys := by
  rw [mem_keys, mem_keys]
  by_cases hj : j = k <;> simp [hj]

/-- What is not there is not taken out. -/
theorem erase_eq_self {d : Dict κ α} {k : κ} (hk : k ∉ d.keys) : d.erase k = d := by
  obtain ⟨entries, hnodup⟩ := d
  have hentries : entries.filter (fun e => decide (e.1 ≠ k)) = entries := by
    refine List.filter_eq_self.mpr fun e he => decide_eq_true ?_
    rintro rfl
    exact hk (List.mem_map_of_mem he)
  simp only [erase, filter, hentries]

theorem mem_keys_erase {d : Dict κ α} {k j : κ} : j ∈ (d.erase k).keys ↔ j ≠ k ∧ j ∈ d.keys := by
  rw [mem_keys, mem_keys]
  by_cases hj : j = k <;> simp [hj]

theorem mem_keys_filter {d : Dict κ α} {p : κ → α → Bool} {j : κ} :
    j ∈ (d.filter p).keys ↔ ∃ v, d.get? j = some v ∧ p j v = true := by
  simp only [mem_keys, get?_filter, Option.filter_eq_some_iff]

theorem mem_keys_setDefault {d : Dict κ α} {k j : κ} {v : α} :
    j ∈ (d.setDefault k v).keys ↔ j = k ∨ j ∈ d.keys := by
  rw [mem_keys, mem_keys]
  by_cases hj : j = k <;> simp [hj]

/-! ## The entries a write leaves -/

/-- A key that is not there goes to the end. -/
theorem values_set {d : Dict κ α} {k : κ} (hk : k ∉ d.keys) (v : α) :
    (d.set k v).values = d.values ++ [v] := by
  simp [set, values, hk]

/-- What a test keeps once a key has gone to the end. -/
theorem values_filter_set {d : Dict κ α} {k : κ} (hk : k ∉ d.keys) (v : α) (p : κ → α → Bool) :
    ((d.set k v).filter p).values = (d.filter p).values ++ if p k v then [v] else [] := by
  cases hp : p k v <;> simp [filter, set, values, hk, hp]

/-- A key is taken out before or after a test. -/
theorem filter_erase (d : Dict κ α) (k : κ) (p : κ → α → Bool) :
    (d.erase k).filter p = (d.filter p).erase k := by
  simp only [erase, filter, List.filter_filter, Bool.and_comm]

/-- A key taken out is the only entry gone. -/
theorem values_erase {d : Dict κ α} {k : κ} {v : α} (h : d.get? k = some v) :
    d.values.Perm (v :: (d.erase k).values) := by
  obtain ⟨entries, hnodup⟩ := d
  replace h : (k, v) ∈ entries := get?_eq_some.mp h
  show (entries.map Prod.snd).Perm
    (v :: (entries.filter fun e => decide (e.1 ≠ k)).map Prod.snd)
  have hperm : entries.Perm ((k, v) :: entries.filter fun e => decide (e.1 ≠ k)) := by
    refine (List.perm_ext_iff_of_nodup (List.Nodup.of_map _ hnodup)
      (List.nodup_cons.mpr ⟨by simp, (List.Nodup.of_map _ hnodup).filter _⟩)).mpr fun e => ?_
    rw [List.mem_cons, List.mem_filter]
    constructor
    · intro he
      by_cases hk : e.1 = k
      · exact .inl (List.inj_on_of_nodup_map hnodup he h hk)
      · exact .inr ⟨he, by simpa using hk⟩
    · rintro (rfl | he)
      · exact h
      · exact he.1
  exact hperm.map Prod.snd

/-! ## The dictionary of a list of pairs -/

/-- **A key reads the last pair with it.** -/
theorem get?_ofList_eq_lookup (es : List (κ × α)) (k : κ) :
    (ofList es).get? k = es.reverse.lookup k := by
  induction es using List.reverseRecOn with
  | nil => rfl
  | append_singleton es e ih =>
    rw [ofList, List.foldl_append, List.reverse_append, List.reverse_singleton,
      List.singleton_append, List.lookup_cons, List.foldl_cons, List.foldl_nil, get?_set]
    by_cases hk : k = e.1
    · rw [if_pos hk, hk, beq_self_eq_true]
    · rw [if_neg hk, beq_false_of_ne hk]
      exact ih

theorem mem_of_get?_ofList {es : List (κ × α)} {k : κ} {v : α} (h : (ofList es).get? k = some v) :
    (k, v) ∈ es := by
  rw [get?_ofList_eq_lookup, List.lookup_eq_some_iff] at h
  obtain ⟨l, l', hsplit, -⟩ := h
  rw [← List.mem_reverse, hsplit]
  exact List.mem_append_right _ List.mem_cons_self

theorem mem_keys_ofList {es : List (κ × α)} {k : κ} : k ∈ (ofList es).keys ↔ k ∈ es.map Prod.fst := by
  induction es using List.reverseRecOn with
  | nil => exact Iff.rfl
  | append_singleton es e ih =>
    rw [ofList, List.foldl_append, ← ofList, List.foldl_cons, List.foldl_nil, mem_keys_set, ih,
      List.map_append, List.mem_append, or_comm, List.map_singleton, List.mem_singleton]

/-- **Pairs that agree on every key are read as they stand.** -/
theorem get?_ofList_agree {es : List (κ × α)}
    (hagree : ∀ k v w, (k, v) ∈ es → (k, w) ∈ es → v = w) {k : κ} {v : α} :
    (ofList es).get? k = some v ↔ (k, v) ∈ es := by
  refine ⟨mem_of_get?_ofList, fun h => ?_⟩
  cases hget : (ofList es).get? k with
  | some w => rw [hagree k v w h (mem_of_get?_ofList hget)]
  | none =>
    rw [get?_ofList_eq_lookup, List.lookup_eq_none_iff] at hget
    exact absurd (hget (k, v) (List.mem_reverse.mpr h)) (by simp)

/-- A dictionary of pairs with distinct keys reads each of them. -/
theorem get?_ofList {es : List (κ × α)} (hnodup : (es.map Prod.fst).Nodup) {k : κ} {v : α} :
    (ofList es).get? k = some v ↔ (k, v) ∈ es :=
  get?_ofList_agree fun _ _ _ hv hw =>
    congrArg Prod.snd (List.inj_on_of_nodup_map hnodup hv hw rfl)

/-- **A dictionary is the one of its own entries.** -/
@[simp] theorem ofList_entries (d : Dict κ α) : ofList d.entries = d := by
  have hfold : ∀ (es : List (κ × α)) (d : Dict κ α) (hnodup : ((d.entries ++ es).map Prod.fst).Nodup),
      es.foldl (fun d e => d.set e.1 e.2) d = ⟨d.entries ++ es, hnodup⟩ := by
    intro es
    induction es with
    | nil => intro d _; simp
    | cons e es ih =>
      intro d hnodup
      have hout : e.1 ∉ d.keys := by
        rw [List.map_append, List.map_cons] at hnodup
        intro hin
        exact (List.nodup_append.mp hnodup).2.2 e.1 hin e.1 List.mem_cons_self rfl
      have hset : (d.set e.1 e.2).entries = d.entries ++ [e] := by
        simp [set, hout]
      have hnodup' : (((d.set e.1 e.2).entries ++ es).map Prod.fst).Nodup := by
        rwa [hset, List.append_assoc, List.singleton_append]
      rw [List.foldl_cons, ih _ hnodup']
      simp [hset]
  exact hfold d.entries empty (by simpa [empty] using d.nodup)

/-- A dictionary of pairs with distinct keys is looked up in the pairs. -/
theorem get?_ofList_eq {es : List (κ × α)} (hnodup : (es.map Prod.fst).Nodup) (k : κ) :
    (ofList es).get? k = es.lookup k :=
  congrArg (get? · k) (ofList_entries ⟨es, hnodup⟩)

/-! ## Whole dictionaries -/

/-- Every value through a function that may drop its entry. -/
def filterMap {β : Type} (d : Dict κ α) (f : κ → α → Option β) : Dict κ β where
  entries := d.entries.filterMap fun e => (f e.1 e.2).map (e.1, ·)
  nodup := by
    refine List.Nodup.sublist ?_ d.nodup
    induction d.entries with
    | nil => exact .refl _
    | cons e es ih =>
      rw [List.filterMap_cons]
      cases f e.1 e.2 with
      | none => exact ih.cons _
      | some w => exact ih.cons_cons _

/-- Every value through a function, or nothing if it has no value for one of them. -/
def traverse {β : Type} (d : Dict κ α) (f : κ → α → Option β) : Option (Dict κ β) :=
  if d.entries.all fun e => (f e.1 e.2).isSome then some (d.filterMap f) else none

def map {β : Type} (d : Dict κ α) (f : α → β) : Dict κ β where
  entries := d.entries.map fun e => (e.1, f e.2)
  nodup := by
    rw [List.map_map]
    exact d.nodup

/-- The same entries with their keys in order. -/
def sorted [LinearOrder κ] (d : Dict κ α) : Dict κ α where
  entries := sortedBy Prod.fst d.entries
  nodup := ((sortedBy_perm Prod.fst d.entries).map Prod.fst).nodup_iff.mpr d.nodup

/-- The entries of another dictionary, where there is none yet. -/
def setDefaults (d e : Dict κ α) : Dict κ α :=
  e.entries.foldl (fun d p => d.setDefault p.1 p.2) d

@[simp] theorem get?_filterMap {β : Type} (d : Dict κ α) (f : κ → α → Option β) (k : κ) :
    (d.filterMap f).get? k = (d.get? k).bind (f k) := by
  refine ext_get? fun w => ?_
  rw [get?_eq_some, Option.bind_eq_some_iff]
  simp only [filterMap, List.mem_filterMap, Option.map_eq_some_iff, Prod.mk.injEq, Prod.exists,
    get?_eq_some]
  constructor
  · rintro ⟨j, v, hmem, w', hw, rfl, rfl⟩
    exact ⟨v, hmem, hw⟩
  · rintro ⟨v, hmem, hw⟩
    exact ⟨k, v, hmem, w, hw, rfl, rfl⟩

@[simp] theorem keys_map {β : Type} (d : Dict κ α) (f : α → β) : (d.map f).keys = d.keys :=
  List.map_map ..

@[simp] theorem get?_map {β : Type} (d : Dict κ α) (f : α → β) (k : κ) :
    (d.map f).get? k = (d.get? k).map f := by
  refine ext_get? fun w => ?_
  simp only [get?_eq_some, Option.map_eq_some_iff, map, List.mem_map, Prod.mk.injEq, Prod.exists]
  constructor
  · rintro ⟨j, v, hmem, rfl, rfl⟩
    exact ⟨v, hmem, rfl⟩
  · rintro ⟨v, hmem, rfl⟩
    exact ⟨k, v, hmem, rfl, rfl⟩

/-- The dictionary of pairs whose values went through a function. -/
theorem ofList_map {β : Type} (es : List (κ × α)) (f : α → β) :
    ofList (es.map fun e => (e.1, f e.2)) = (ofList es).map f := by
  have hset : ∀ (d : Dict κ α) (k : κ) (v : α), (d.map f).set k (f v) = (d.set k v).map f := by
    intro d k v
    have hkeys : (d.map f).keys = d.keys := by
      show (d.entries.map _).map Prod.fst = d.entries.map Prod.fst
      rw [List.map_map]
      rfl
    apply Dict.ext
    show (if k ∈ (d.map f).keys then _ else _) = List.map _ (if k ∈ d.keys then _ else _)
    rw [hkeys]
    by_cases hk : k ∈ d.keys
    · rw [if_pos hk, if_pos hk]
      show List.map _ (List.map _ d.entries) = _
      rw [List.map_map, List.map_map]
      refine List.map_congr_left fun e _ => ?_
      by_cases he : e.1 = k <;> simp [he]
    · rw [if_neg hk, if_neg hk, List.map_append]
      rfl
  have hfold : ∀ d : Dict κ α, (es.map fun e => (e.1, f e.2)).foldl (fun d e => d.set e.1 e.2) (d.map f)
      = (es.foldl (fun d e => d.set e.1 e.2) d).map f := by
    induction es with
    | nil => exact fun _ => rfl
    | cons e es ih =>
      intro d
      rw [List.map_cons, List.foldl_cons, List.foldl_cons, ← ih (d.set e.1 e.2), ← hset]
  exact hfold empty

omit [DecidableEq κ] in
/-- A function is undone value by value. -/
theorem traverse_map {β : Type} (d : Dict κ α) {g : α → β} {f : κ → β → Option α}
    (h : ∀ k v, f k (g v) = some v) : (d.map g).traverse f = some d := by
  have hall : ((d.map g).entries.all fun e => (f e.1 e.2).isSome) = true := by
    simp [map, h]
  have hentries : ((d.map g).filterMap f).entries = d.entries := by
    simp [map, filterMap, List.filterMap_map, h]
  rw [traverse, if_pos hall]
  exact congrArg some (Dict.ext hentries)

omit [DecidableEq κ] in
/-- A function leaves a dictionary alone exactly when it leaves each value. -/
theorem map_eq_self {d : Dict κ α} {f : α → α} : d.map f = d ↔ ∀ v ∈ d.values, f v = v := by
  have hid : (d.map f).entries = d.entries ↔ d.entries.map (fun e => (e.1, f e.2)) = d.entries.map id := by
    rw [List.map_id, map]
  rw [Dict.ext_iff, hid, List.map_inj_left, values, List.forall_mem_map]
  exact forall₂_congr fun e _ => ⟨congrArg Prod.snd, fun h => Prod.ext rfl h⟩

@[simp] theorem get?_sorted [LinearOrder κ] (d : Dict κ α) (k : κ) :
    d.sorted.get? k = d.get? k := by
  refine ext_get? fun v => ?_
  rw [get?_eq_some, get?_eq_some]
  exact mem_sortedBy

@[simp] theorem get?_setDefaults (d e : Dict κ α) (k : κ) :
    (d.setDefaults e).get? k = (d.get? k).or (e.get? k) := by
  obtain ⟨entries, hnodup⟩ := e
  show (entries.foldl (fun d p => d.setDefault p.1 p.2) d).get? k = (d.get? k).or (entries.lookup k)
  clear hnodup
  induction entries generalizing d with
  | nil => simp
  | cons p ps ih =>
    obtain ⟨j, v⟩ := p
    rw [List.foldl_cons, ih, get?_setDefault, List.lookup_cons]
    by_cases hk : k = j
    · subst hk
      cases hget : d.get? k <;> simp
    · rw [if_neg hk, beq_false_of_ne hk]

/-! ## Groups -/

/-- The values of each key, in order, under the keys in the order they first come. -/
def grouped (es : List (κ × α)) : Dict κ (List α) :=
  es.foldl (fun d e => d.set e.1 ((d.get? e.1).getD [] ++ [e.2])) empty

/-- **A key's group is its values**, and there is none for a key without any. -/
theorem get?_grouped (es : List (κ × α)) (k : κ) :
    (grouped es).get? k =
      if (es.filter fun e => e.1 = k) = [] then none
      else some ((es.filter fun e => e.1 = k).map Prod.snd) := by
  have hfold : ∀ (es : List (κ × α)) (d : Dict κ (List α)),
      (es.foldl (fun d e => d.set e.1 ((d.get? e.1).getD [] ++ [e.2])) d).get? k =
        match (es.filter fun e => e.1 = k).map Prod.snd with
        | [] => d.get? k
        | more => some ((d.get? k).getD [] ++ more) := by
    intro es
    induction es with
    | nil => exact fun _ => rfl
    | cons e es ih =>
      intro d
      rw [List.foldl_cons, ih]
      by_cases hk : e.1 = k
      · subst hk
        cases hmore : (es.filter fun e' => e'.1 = e.1).map Prod.snd <;> simp [hmore]
      · have hne : k ≠ e.1 := fun h => hk h.symm
        simp [hk, hne]
  rw [grouped, hfold]
  cases es.filter fun e => e.1 = k <;> simp

theorem mem_grouped {es : List (κ × α)} {k : κ} {v : α} :
    (∃ vs, (grouped es).get? k = some vs ∧ v ∈ vs) ↔ (k, v) ∈ es := by
  rw [get?_grouped]
  have hmem : v ∈ (es.filter fun e => e.1 = k).map Prod.snd ↔ (k, v) ∈ es := by
    simp
  by_cases hnil : (es.filter fun e => e.1 = k) = []
  · rw [if_pos hnil, ← hmem, hnil]
    simp
  · rw [if_neg hnil, ← hmem]
    simp

/-- No group is empty. -/
theorem exists_mem_of_grouped {es : List (κ × α)} {k : κ} {vs : List α}
    (h : (grouped es).get? k = some vs) : ∃ v, v ∈ vs := by
  rw [get?_grouped] at h
  obtain ⟨hne, heq⟩ := Option.ite_none_left_eq_some.mp h
  obtain rfl := Option.some.inj heq
  obtain ⟨e, hmem⟩ := List.exists_mem_of_ne_nil _ hne
  exact ⟨e.2, List.mem_map_of_mem hmem⟩

/-! ## A list under its own keys -/

/-- Each element under its key, a later one over an earlier one of the same key. -/
def keyed (key : α → κ) (xs : List α) : Dict κ α := ofList (xs.map fun x => (key x, x))

/-- **A key reads the last element with it.** -/
theorem get?_keyed (key : α → κ) (xs : List α) (k : κ) :
    (keyed key xs).get? k = (xs.filter fun x => key x = k).getLast? := by
  induction xs using List.reverseRecOn with
  | nil => rfl
  | append_singleton xs x ih =>
    have hlast : keyed key (xs ++ [x]) = (keyed key xs).set (key x) x := by
      rw [keyed, List.map_append, ofList, List.foldl_append]
      rfl
    rw [hlast, get?_set, ih, List.filter_append]
    by_cases hk : k = key x
    · subst hk
      simp
    · have hne : key x ≠ k := fun h => hk h.symm
      simp [hk, hne]

theorem mem_keys_keyed {key : α → κ} {xs : List α} {k : κ} :
    k ∈ (keyed key xs).keys ↔ ∃ x ∈ xs, key x = k := by
  rw [keyed, mem_keys_ofList, List.map_map, List.mem_map]
  rfl

/-- `update`: the entries of another dictionary, put over what there is. -/
def updated (d e : Dict κ α) : Dict κ α := ofList (d.entries ++ e.entries)

@[simp] theorem get?_updated (d e : Dict κ α) (k : κ) :
    (d.updated e).get? k = (e.get? k).or (d.get? k) := by
  have hread : ∀ d : Dict κ α, d.entries.reverse.lookup k = d.get? k := by
    intro d
    rw [← get?_ofList_eq_lookup, ofList_entries]
  rw [updated, get?_ofList_eq_lookup, List.reverse_append, List.lookup_append, hread, hread]

end Dict

end Gpuc.Basis
