import Gpuc.Basis.Fallible
import Gpuc.Basis.Float64

/-!
# Conversions of a dynamic language

`float`, `int` and `str` of a document's value, with the exceptions they raise. An integer too large
for a float raises, and so does the text of an integer with more digits than the interpreter writes,
anywhere inside what is written. How a float is written, how a string is quoted inside a list, and
which float a string spells are parameters (`Texts`): none of the three raises anything else.

The laws: `toFloat` raises `overflowError` for the integers that are too large and nothing else
(`toFloat_overflows`), and `text` raises `valueError` where a `LongInt` is written and nothing
otherwise (`text_failsWhen`).
-/

set_option autoImplicit false

namespace Gpuc.Basis

/-- What a conversion raises, by the class of the exception. -/
inductive Raised where
  | typeError
  | valueError (message : String)
  | overflowError
  deriving DecidableEq

/-- How the interpreter writes and reads the parts of a document. -/
structure Texts where
  /-- A float, as it is written. -/
  ofFloat : Float64 → String
  /-- A string inside a list or a dictionary. -/
  quote : String → String
  /-- The float a string spells, if it spells one. -/
  toFloat : String → Option Float64

/-- How a document's parts are written, without the escapes of a quoted string. -/
def plainTexts : Texts :=
  { ofFloat := fun
      | .finite q => toString q
      | .infinite negative => if negative then "-inf" else "inf"
      | .nan => "nan"
    quote := fun s => "'" ++ s ++ "'"
    toFloat := fun _ => none }

namespace Json

/-! ## `float` -/

/-- `float(value)`. -/
def toFloat (t : Texts) : Json → Except Raised Float64
  | .bool b => .ok (.finite (if b then 1 else 0))
  | .int n =>
    match Float64.ofInt n with
    | some x => .ok x
    | none => .error .overflowError
  | .float x => .ok x
  | .str s =>
    match t.toFloat s with
    | some x => .ok x
    | none => .error (.valueError s!"could not convert string to float: {t.quote s}")
  | .null | .arr _ | .obj _ => .error .typeError

/-- **`float` overflows for an integer half a step past the largest float, and for nothing else.** -/
theorem toFloat_overflows {t : Texts} {v : Json} :
    v.toFloat t = .error .overflowError ↔ ∃ n, v = .int n ∧ Float64.overflow ≤ n.natAbs := by
  cases v with
  | int n =>
    show (match Float64.ofInt n with | some x => _ | none => _) = _ ↔ _
    cases hfloat : Float64.ofInt n with
    | none => exact ⟨fun _ => ⟨n, rfl, Float64.ofInt_eq_none.mp hfloat⟩, fun _ => rfl⟩
    | some x =>
      refine ⟨fun h => (nomatch h), fun ⟨m, hm, hlarge⟩ => ?_⟩
      cases hm
      rw [Float64.ofInt_eq_none.mpr hlarge] at hfloat
      cases hfloat
  | str s =>
    refine ⟨fun h => ?_, fun ⟨n, hn, _⟩ => (nomatch hn)⟩
    replace h : (match t.toFloat s with | some x => _ | none => _) = _ := h
    cases hspelled : t.toFloat s <;> rw [hspelled] at h <;> cases h
  | _ => exact ⟨fun h => (nomatch h), fun ⟨n, hn, _⟩ => (nomatch hn)⟩

/-! ## `str` -/

/-- The most digits of an integer that are written. -/
def maxStrDigits : Nat := 4300

/-- What the interpreter says of an integer with more. -/
def limitError : Raised :=
  .valueError ("Exceeds the limit (4300 digits) for integer string conversion; "
    ++ "use sys.set_int_max_str_digits() to increase the limit")

/-- An integer, written. -/
def intText (n : Int) : Except Raised String :=
  if 10 ^ maxStrDigits ≤ n.natAbs then .error limitError else .ok (toString n)

mutual
/-- **A value as it is written inside another**: `repr(value)`. -/
def repr (t : Texts) : Json → Except Raised String
  | .null => .ok "None"
  | .bool b => .ok (if b then "True" else "False")
  | .int n => intText n
  | .float x => .ok (t.ofFloat x)
  | .str s => .ok (t.quote s)
  | .arr items => do
    let texts ← (reprItems t items).mapM id
    pure ("[" ++ ", ".intercalate texts ++ "]")
  | .obj pairs => do
    let texts ← (Dict.ofList (reprPairs t pairs)).entries.mapM fun e => do
      let text ← e.2
      pure (t.quote e.1 ++ ": " ++ text)
    pure ("\x7b" ++ ", ".intercalate texts ++ "\x7d")
def reprItems (t : Texts) : List Json → List (Except Raised String)
  | [] => []
  | v :: vs => repr t v :: reprItems t vs
def reprPairs (t : Texts) : List (String × Json) → List (String × Except Raised String)
  | [] => []
  | (k, v) :: ps => (k, repr t v) :: reprPairs t ps
end

/-- `str(value)`. -/
def text (t : Texts) : Json → Except Raised String
  | .str s => .ok s
  | v => repr t v

/-- **There is an integer in the value with more digits than are written.** -/
inductive LongInt : Json → Prop
  | int {n : Int} : 10 ^ maxStrDigits ≤ n.natAbs → LongInt (.int n)
  | item {items : List Json} {v : Json} : v ∈ items → LongInt v → LongInt (.arr items)
  | member {pairs : List (String × Json)} {k : String} {v : Json} :
      (Dict.ofList pairs).get? k = some v → LongInt v → LongInt (.obj pairs)

theorem reprItems_eq (t : Texts) (items : List Json) : reprItems t items = items.map (repr t) := by
  induction items with
  | nil => rfl
  | cons v vs ih => rw [reprItems, ih, List.map_cons]

theorem reprPairs_eq (t : Texts) (pairs : List (String × Json)) :
    reprPairs t pairs = pairs.map fun p => (p.1, repr t p.2) := by
  induction pairs with
  | nil => rfl
  | cons p ps ih =>
    obtain ⟨k, v⟩ := p
    rw [reprPairs, ih, List.map_cons]

/-- A value is written, unless it has an integer that is not. -/
theorem repr_failsWhen (t : Texts) (v : Json) : FailsWhen (repr t v) limitError (LongInt v) := by
  -- over the size of the value: what is in a dictionary is in the pairs it is read from
  induction hsize : sizeOf v using Nat.strongRecOn generalizing v with
  | _ size ih =>
  subst hsize
  cases v with
  | int n =>
    rw [repr, intText]
    by_cases h : 10 ^ maxStrDigits ≤ n.natAbs
    · exact ⟨fun _ => if_pos h, fun hshort => absurd (.int h) hshort⟩
    · refine ⟨fun hlong => ?_, fun _ => ⟨_, if_neg h⟩⟩
      cases hlong
      contradiction
  | arr items =>
    have hitems : ∀ v ∈ items, FailsWhen (repr t v) limitError (LongInt v) := fun v hv => by
      refine ih _ ?_ v rfl
      have := List.sizeOf_lt_of_mem hv
      simp only [arr.sizeOf_spec]
      omega
    have hlong : LongInt (.arr items) ↔ ∃ v ∈ items, LongInt v :=
      ⟨fun h => by cases h with | item hv h => exact ⟨_, hv, h⟩, fun ⟨v, hv, h⟩ => .item hv h⟩
    rw [repr, reprItems_eq, List.mapM_map]
    exact ((FailsWhen.mapM hitems).map _).congr hlong.symm
  | obj pairs =>
    have hmembers : ∀ e ∈ (Dict.ofList pairs).entries, FailsWhen (do
        let text ← repr t e.2
        pure (t.quote e.1 ++ ": " ++ text)) limitError (LongInt e.2) := fun e he => by
      refine (ih _ ?_ e.2 rfl).map _
      have := List.sizeOf_lt_of_mem (Dict.mem_of_get?_ofList (Dict.get?_eq_some.mpr he))
      simp only [obj.sizeOf_spec, Prod.mk.sizeOf_spec] at this ⊢
      omega
    have hlong : LongInt (.obj pairs) ↔ ∃ e ∈ (Dict.ofList pairs).entries, LongInt e.2 := by
      constructor
      · intro h
        cases h with
        | member hget h => exact ⟨_, Dict.get?_eq_some.mp hget, h⟩
      · rintro ⟨⟨k, v⟩, he, h⟩
        exact .member (Dict.get?_eq_some.mpr he) h
    rw [repr, reprPairs_eq, Dict.ofList_map]
    show FailsWhen ((((Dict.ofList pairs).entries.map _).mapM _) >>= _) _ _
    rw [List.mapM_map]
    exact ((FailsWhen.mapM hmembers).map _).congr hlong.symm
  | _ => exact (FailsWhen.of_ok _).congr ⟨fun h => h.elim, fun h => by cases h⟩

/-- **A value has no text exactly when there is an integer in it that is too long**, and what is raised
is a `ValueError`. -/
theorem text_failsWhen (t : Texts) (v : Json) : FailsWhen (v.text t) limitError (LongInt v) := by
  cases v with
  | str s => exact (FailsWhen.of_ok s).congr ⟨fun h => h.elim, fun h => by cases h⟩
  | _ => exact repr_failsWhen t _

end Json

end Gpuc.Basis
