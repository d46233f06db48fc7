import Mathlib.Data.Rat.Defs
import Gpuc.Basis.Dict

/-!
# JSON documents

A document as a dynamic language reads it: integers of any size, floats that may be infinite or no
number, strings, arrays, and objects with their pairs in the order of the text. An object is read as a
dictionary (`Json.members`), a later pair over an earlier one of the same key.
-/

set_option autoImplicit false

namespace Gpuc.Basis

/-- A float: the number it stands for, or none. -/
inductive Float64 where
  | finite (q : ℚ)
  | infinite (negative : Bool)
  | nan
  deriving DecidableEq

inductive Json where
  | null
  | bool (b : Bool)
  | int (n : Int)
  | float (x : Float64)
  | str (s : String)
  | arr (items : List Json)
  | obj (pairs : List (String × Json))

namespace Json

/-- An object as a dictionary, and nothing for what is not one. -/
def members : Json → Option (Dict String Json)
  | .obj pairs => some (Dict.ofList pairs)
  | .null | .bool _ | .int _ | .float _ | .str _ | .arr _ => none

/-- A dictionary as an object. -/
def ofDict (d : Dict String Json) : Json := .obj d.entries

/-- What a test of the value answers: nothing, zero and the empty are false. -/
def truthy : Json → Bool
  | .null => false
  | .bool b => b
  | .int n => n ≠ 0
  | .float x => x ≠ .finite 0
  | .str s => s ≠ ""
  | .arr items => !items.isEmpty
  | .obj pairs => !pairs.isEmpty

/-! ## Equality -/

/-- The number a value stands for, if it stands for one: a truth value is zero or one. -/
def number : Json → Option Float64
  | .bool b => some (.finite (if b then 1 else 0))
  | .int n => some (.finite n)
  | .float x => some x
  | .null | .str _ | .arr _ | .obj _ => none

mutual
/-- **Are two values equal?** Numbers are by what they stand for, and what is no number equals nothing;
dictionaries are by their keys. -/
def same : Json → Json → Bool
  | .null, w => match w with
    | .null => true
    | _ => false
  | .str s, w => match w with
    | .str s' => s = s'
    | _ => false
  | .arr items, w => match w with
    | .arr items' => sameItems items items'
    | _ => false
  | .obj pairs, w => match w with
    | .obj pairs' =>
      let tests := Dict.ofList (sameMembers pairs)
      let d := Dict.ofList pairs'
      tests.entries.length = d.entries.length &&
        tests.entries.all fun e => (d.get? e.1).any e.2
    | _ => false
  | .bool b, w => w.number = some (.finite (if b then 1 else 0))
  | .int n, w => w.number = some (.finite n)
  | .float x, w => x ≠ .nan && w.number = some x
def sameItems : List Json → List Json → Bool
  | [], [] => true
  | v :: vs, w :: ws => same v w && sameItems vs ws
  | _, _ => false
def sameMembers : List (String × Json) → List (String × (Json → Bool))
  | [] => []
  | (k, v) :: ps => (k, same v) :: sameMembers ps
end

@[simp] theorem members_obj (pairs : List (String × Json)) :
    (obj pairs).members = some (Dict.ofList pairs) := rfl

@[simp] theorem members_ofDict (d : Dict String Json) : (ofDict d).members = some d := by
  simp [members, ofDict]

end Json

end Gpuc.Basis
