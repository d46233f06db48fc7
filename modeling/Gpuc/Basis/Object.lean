import Mathlib.Data.String.Basic
import Mathlib.Order.WithBot
import Gpuc.Basis.Encode

/-!
# Objects of a dynamic language, written as JSON

What a program hands the encoder need not be a document: a mapping may have keys of any type, and a
value may be an object that the encoder is not taught. `toJson` is what `dumps(..., sort_keys=True,
default=str)` makes of it on the way to a text. The keys of a mapping are sorted, which raises for keys
that do not compare, and then written as strings, which raises for one that is no scalar; an object the
encoder does not know is written by its `str`, which may raise.

The law: an object is written exactly when it is not `Unwritable`, by what stands somewhere in it
(`exists_toJson`). Of float keys that are no numbers the order is not the interpreter's.
-/

set_option autoImplicit false

namespace Gpuc.Basis

open Json (intText floatText limitError maxStrDigits)

/-- The key of a mapping. -/
inductive Key where
  | null
  | bool (b : Bool)
  | int (n : Int)
  | float (x : Float64)
  | str (s : String)
  /-- A tuple, or an object of another class. -/
  | other
  deriving DecidableEq

namespace Key

/-- What a key compares with: the keys of its own kind. -/
inductive Kind where
  | null
  | number
  | text
  | other
  deriving DecidableEq

def kind : Key → Kind
  | .null => .null
  | .bool _ | .int _ | .float _ => .number
  | .str _ => .text
  | .other => .other

/-- The place of a number among numbers. -/
def rank : Key → WithBot (WithTop ℚ)
  | .bool b => (((if b then 1 else 0 : ℚ) : WithTop ℚ) : WithBot (WithTop ℚ))
  | .int n => (((n : ℚ) : WithTop ℚ) : WithBot (WithTop ℚ))
  | .float (.finite q) => ((q : WithTop ℚ) : WithBot (WithTop ℚ))
  | .float (.infinite true) => ⊥
  | .float (.infinite false) | .float .nan => ((⊤ : WithTop ℚ) : WithBot (WithTop ℚ))
  | .null | .str _ | .other => ⊥

/-- The characters of a string, and none of another key. -/
def letters : Key → String
  | .str s => s
  | _ => ""

/-- A key as the encoder writes it. -/
def text (t : Texts) : Key → Except Raised String
  | .null => .ok "null"
  | .bool b => .ok (if b then "true" else "false")
  | .int n => intText n
  | .float x => .ok (String.ofList (floatText t x))
  | .str s => .ok s
  | .other => .error .typeError

/-- **Keys that are sorted without raising**: at most one, or all numbers, or all strings. -/
def Sorts (keys : List Key) : Prop :=
  keys.length ≤ 1 ∨ (∀ key ∈ keys, key.kind = .number) ∨ ∀ key ∈ keys, key.kind = .text

instance (keys : List Key) : Decidable (Sorts keys) := inferInstanceAs (Decidable (_ ∨ _ ∨ _))

/-- `sorted(mapping.items())`. -/
def sortItems {α : Type} (items : List (Key × α)) : Except Raised (List (Key × α)) :=
  if Sorts (items.map Prod.fst) then
    .ok (sortedBy (fun item => item.1.letters) (sortedBy (fun item => item.1.rank) items))
  else .error .typeError

/-- A key that is not written: of no scalar type, or an integer with too many digits. -/
inductive Unwritable : Key → Prop
  | other : Unwritable .other
  | int {n : Int} : 10 ^ maxStrDigits ≤ n.natAbs → Unwritable (.int n)

theorem exists_text {t : Texts} {key : Key} : (∃ s, key.text t = .ok s) ↔ ¬ key.Unwritable := by
  cases key with
  | int n =>
    show (∃ s, intText n = .ok s) ↔ _
    rw [intText]
    by_cases h : 10 ^ maxStrDigits ≤ n.natAbs
    · rw [if_pos h]
      exact iff_of_false not_exists_ok fun hwritable => hwritable (.int h)
    · rw [if_neg h]
      refine ⟨fun _ hlong => ?_, fun _ => ⟨_, rfl⟩⟩
      cases hlong
      contradiction
  | other => exact iff_of_false not_exists_ok fun hwritable => hwritable .other
  | _ =>
    refine ⟨fun _ h => ?_, fun _ => ⟨_, rfl⟩⟩
    cases h

end Key

/-- **A value that is handed to the encoder.** -/
inductive Object where
  | null
  | bool (b : Bool)
  | int (n : Int)
  | float (x : Float64)
  | str (s : String)
  /-- A list or a tuple. -/
  | arr (items : List Object)
  /-- A mapping, its items in their own order. -/
  | obj (items : List (Key × Object))
  /-- An object of another class, with what its `str` gives or raises. -/
  | other (str : Except Raised String)

namespace Object

mutual
/-- **A value as the encoder takes it**, with the keys in order. -/
def toJson (t : Texts) : Object → Except Raised Json
  | .null => .ok .null
  | .bool b => .ok (.bool b)
  | .int n => do
    let _ ← intText n
    pure (.int n)
  | .float x => .ok (.float x)
  | .str s => .ok (.str s)
  | .arr items => do
    let items ← (jsonItems t items).mapM id
    pure (.arr items)
  | .obj items => do
    let items ← Key.sortItems (jsonMembers t items)
    let pairs ← items.mapM fun item => do
      let key ← item.1.text t
      let value ← item.2
      pure (key, value)
    pure (.obj pairs)
  | .other text => do
    let text ← text
    pure (.str text)
def jsonItems (t : Texts) : List Object → List (Except Raised Json)
  | [] => []
  | v :: vs => toJson t v :: jsonItems t vs
def jsonMembers (t : Texts) : List (Key × Object) → List (Key × Except Raised Json)
  | [] => []
  | (key, v) :: items => (key, toJson t v) :: jsonMembers t items
end

/-- **What keeps an object from being written**, wherever it stands in it. -/
inductive Unwritable : Object → Prop
  | int {n : Int} : 10 ^ maxStrDigits ≤ n.natAbs → Unwritable (.int n)
  | other {e : Raised} : Unwritable (.other (.error e))
  | item {items : List Object} {v : Object} : v ∈ items → Unwritable v → Unwritable (.arr items)
  | mixed {items : List (Key × Object)} : ¬ Key.Sorts (items.map Prod.fst) → Unwritable (.obj items)
  | key {items : List (Key × Object)} {key : Key} {v : Object} :
      (key, v) ∈ items → key.Unwritable → Unwritable (.obj items)
  | member {items : List (Key × Object)} {key : Key} {v : Object} :
      (key, v) ∈ items → Unwritable v → Unwritable (.obj items)

theorem jsonItems_eq (t : Texts) (items : List Object) : jsonItems t items = items.map (toJson t) := by
  induction items with
  | nil => rfl
  | cons v vs ih => rw [jsonItems, ih, List.map_cons]

theorem jsonMembers_eq (t : Texts) (items : List (Key × Object)) :
    jsonMembers t items = items.map fun item => (item.1, toJson t item.2) := by
  induction items with
  | nil => rfl
  | cons item items ih =>
    obtain ⟨key, v⟩ := item
    rw [jsonMembers, ih, List.map_cons]

/-- What is sorted is what there was, in another order. -/
theorem sortItems_ok {α : Type} {items : List (Key × α)} (h : Key.Sorts (items.map Prod.fst)) :
    ∃ sorted, Key.sortItems items = .ok sorted ∧ sorted.Perm items :=
  ⟨_, if_pos h, (sortedBy_perm _ _).trans (sortedBy_perm _ _)⟩

/-- **An object is written exactly when nothing in it keeps it from being.** -/
theorem exists_toJson (t : Texts) (v : Object) : (∃ w, toJson t v = .ok w) ↔ ¬ Unwritable v := by
  -- over the size of the value, for the values of a mapping are in its items
  induction hsize : sizeOf v using Nat.strongRecOn generalizing v with
  | _ size ih =>
  subst hsize
  cases v with
  | int n =>
    rw [toJson, exists_bind_ok, intText]
    by_cases h : 10 ^ maxStrDigits ≤ n.natAbs
    · rw [if_pos h]
      exact iff_of_false not_exists_ok_and fun hwritable => hwritable (.int h)
    · rw [if_neg h]
      refine ⟨fun _ hlong => ?_, fun _ => ⟨_, rfl, _, rfl⟩⟩
      cases hlong
      contradiction
  | other str =>
    rw [toJson, exists_bind_ok]
    cases str with
    | error e => exact iff_of_false not_exists_ok_and fun hwritable => hwritable .other
    | ok text =>
      refine ⟨fun _ h => ?_, fun _ => ⟨_, rfl, _, rfl⟩⟩
      cases h
  | arr items =>
    have hitems : ∀ v ∈ items, (∃ w, toJson t v = .ok w) ↔ ¬ Unwritable v := fun v hv => by
      refine ih _ ?_ v rfl
      have := List.sizeOf_lt_of_mem hv
      simp only [arr.sizeOf_spec]
      omega
    rw [toJson, exists_bind_ok, jsonItems_eq, List.mapM_map]
    constructor
    · rintro ⟨ws, hws, -⟩ hunwritable
      cases hunwritable with
      | item hv h => exact (hitems _ hv).mp (exists_mapM_ok.mp ⟨ws, hws⟩ _ hv) h
    · intro hwritable
      obtain ⟨ws, hws⟩ := exists_mapM_ok.mpr fun v hv =>
        (hitems v hv).mpr fun h => hwritable (.item hv h)
      exact ⟨ws, hws, _, rfl⟩
  | obj items =>
    have hmembers : ∀ item ∈ items, (∃ w, toJson t item.2 = .ok w) ↔ ¬ Unwritable item.2 :=
      fun item hitem => by
        refine ih _ ?_ item.2 rfl
        obtain ⟨key, v⟩ := item
        have := List.sizeOf_lt_of_mem hitem
        simp only [obj.sizeOf_spec, Prod.mk.sizeOf_spec] at this ⊢
        omega
    have hkeys : (jsonMembers t items).map Prod.fst = items.map Prod.fst := by
      rw [jsonMembers_eq, List.map_map]
      rfl
    rw [toJson, exists_bind_ok]
    by_cases hsorts : Key.Sorts (items.map Prod.fst)
    · obtain ⟨sorted, hsorted, hperm⟩ := sortItems_ok (hkeys ▸ hsorts)
      have hmem : ∀ item, item ∈ sorted ↔ ∃ key v, (key, v) ∈ items ∧ (key, toJson t v) = item := by
        intro item
        rw [hperm.mem_iff, jsonMembers_eq, List.mem_map]
        exact Prod.exists
      rw [hsorted]
      constructor
      · rintro ⟨_, hok, w, hw⟩ hunwritable
        cases hok
        obtain ⟨pairs, hpairs, -⟩ := bind_eq_ok hw
        have hall := exists_mapM_ok.mp ⟨pairs, hpairs⟩
        cases hunwritable with
        | mixed hmixed => exact hmixed hsorts
        | key hitem hkey =>
          obtain ⟨pair, hpair⟩ := hall _ ((hmem _).mpr ⟨_, _, hitem, rfl⟩)
          obtain ⟨text, htext, -⟩ := bind_eq_ok hpair
          exact Key.exists_text.mp ⟨text, htext⟩ hkey
        | member hitem hv =>
          obtain ⟨pair, hpair⟩ := hall _ ((hmem _).mpr ⟨_, _, hitem, rfl⟩)
          obtain ⟨text, -, hrest⟩ := bind_eq_ok hpair
          obtain ⟨w, hw, -⟩ := bind_eq_ok hrest
          exact (hmembers _ hitem).mp ⟨w, hw⟩ hv
      · intro hwritable
        have hall : ∀ item ∈ sorted, ∃ pair, (do
            let key ← item.1.text t
            let value ← item.2
            pure (key, value) : Except Raised (String × Json)) = .ok pair := by
          intro item hitem
          obtain ⟨key, v, hv, rfl⟩ := (hmem item).mp hitem
          obtain ⟨text, htext⟩ := (Key.exists_text (t := t)).mpr fun h => hwritable (.key hv h)
          obtain ⟨w, hw⟩ := (hmembers _ hv).mpr fun h => hwritable (.member hv h)
          exact exists_bind_ok.mpr ⟨text, htext, exists_bind_ok.mpr ⟨w, hw, _, rfl⟩⟩
        obtain ⟨pairs, hpairs⟩ := exists_mapM_ok.mpr hall
        exact ⟨sorted, rfl, exists_bind_ok.mpr ⟨pairs, hpairs, _, rfl⟩⟩
    · rw [Key.sortItems, hkeys, if_neg hsorts]
      exact iff_of_false not_exists_ok_and fun hwritable => hwritable (.mixed hsorts)
  | _ =>
    refine ⟨fun _ h => ?_, fun _ => ?_⟩
    · cases h
    · rw [toJson]
      exact ⟨_, rfl⟩

/-- What the encoder takes has no integer that it would not write. -/
theorem hasLongInt_toJson {t : Texts} {v : Object} {w : Json} (h : toJson t v = .ok w) :
    Json.hasLongInt w = false := by
  induction hsize : sizeOf v using Nat.strongRecOn generalizing v w with
  | _ size ih =>
  subst hsize
  cases v with
  | int n =>
    rw [toJson, intText] at h
    split at h
    · cases h
    · next hshort =>
      obtain rfl := Except.ok.inj h
      rw [Json.hasLongInt, decide_eq_false_iff_not]
      exact hshort
  | other text =>
    rw [toJson] at h
    obtain ⟨s, -, h⟩ := bind_eq_ok h
    cases h
    rfl
  | arr items =>
    rw [toJson, jsonItems_eq, List.mapM_map] at h
    obtain ⟨ws, hws, h⟩ := bind_eq_ok h
    cases h
    rw [Json.hasLongInt, Json.hasLongItem_eq, List.any_eq_false]
    intro w hw
    obtain ⟨v, hv, hread⟩ := exists_of_mem_mapM hws hw
    refine Bool.eq_false_iff.mp (ih _ ?_ hread rfl)
    have := List.sizeOf_lt_of_mem hv
    simp only [arr.sizeOf_spec]
    omega
  | obj items =>
    rw [toJson] at h
    obtain ⟨sorted, hsorted, h⟩ := bind_eq_ok h
    obtain ⟨pairs, hpairs, h⟩ := bind_eq_ok h
    cases h
    rw [Json.hasLongInt, Json.hasLongMember_eq, List.any_eq_false]
    intro pair hpair
    obtain ⟨item, hitem, hread⟩ := exists_of_mem_mapM hpairs hpair
    obtain ⟨text, -, hread⟩ := bind_eq_ok hread
    obtain ⟨w, hw, hread⟩ := bind_eq_ok hread
    cases hread
    have hmem : item ∈ jsonMembers t items := by
      unfold Key.sortItems at hsorted
      split at hsorted
      · cases hsorted
        exact mem_sortedBy.mp (mem_sortedBy.mp hitem)
      · cases hsorted
    rw [jsonMembers_eq] at hmem
    obtain ⟨⟨key, v⟩, hv, rfl⟩ := List.mem_map.mp hmem
    refine Bool.eq_false_iff.mp (ih _ ?_ hw rfl)
    have := List.sizeOf_lt_of_mem hv
    simp only [obj.sizeOf_spec, Prod.mk.sizeOf_spec] at this ⊢
    omega
  | _ =>
    rw [toJson] at h
    cases h
    rfl

end Object

end Gpuc.Basis
