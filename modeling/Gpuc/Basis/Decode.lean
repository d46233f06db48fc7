import Mathlib.Data.List.Infix
import Gpuc.Basis.Convert
import Gpuc.Basis.Text

/-!
# Reading JSON

The decoder of a JSON text, as the interpreter's own library has it: a value is scanned from the
front of a text (`rawDecode`) and the rest is left, or the whole text is one value (`loads`). It reads
`NaN` and the infinities, and raises for an integer with more digits than are converted, which is no
error of the text. Half of a surrogate pair, which is no character, is read as the replacement
character; how deeply a value is nested is not limited.

The laws: a scan that succeeds leaves an end of its text (`scan_spec`), of an object or an array the
one behind its closing bracket (`rawDecode_closes`), and it never runs out of steps
(`rawDecode_ne_outOfSteps`).
-/

set_option autoImplicit false

namespace Gpuc.Basis.Json

/-- Why a text is not read. -/
inductive DecodeError where
  /-- `JSONDecodeError`. -/
  | invalid
  /-- The `ValueError` of an integer with too many digits. -/
  | tooLong
  /-- The scan was cut short: it never is (`rawDecode_ne_outOfSteps`). -/
  | outOfSteps
  deriving DecidableEq

/-- The white space of JSON. -/
def isWhite (c : Char) : Bool := c = ' ' || c = '\t' || c = '\n' || c = '\r'

def skipWhite (s : Text) : Text := s.dropWhile isWhite

/-! ## Strings -/

def hexDigit (c : Char) : Option Nat :=
  if c.isDigit then some (c.toNat - '0'.toNat)
  else if 'a' ≤ c ∧ c ≤ 'f' then some (c.toNat - 'a'.toNat + 10)
  else if 'A' ≤ c ∧ c ≤ 'F' then some (c.toNat - 'A'.toNat + 10)
  else none

def hexDigits (a b c d : Char) : Option Nat := do
  let a ← hexDigit a
  let b ← hexDigit b
  let c ← hexDigit c
  let d ← hexDigit d
  pure (((a * 16 + b) * 16 + c) * 16 + d)

/-- What a character behind a backslash stands for. -/
def escape : Char → Option Nat
  | '\x22' => some 0x22
  | '\\' => some 0x5c
  | '/' => some 0x2f
  | 'b' => some 0x08
  | 'f' => some 0x0c
  | 'n' => some 0x0a
  | 'r' => some 0x0d
  | 't' => some 0x09
  | _ => none

/-- **A string, behind its first quote**: the units it is written with, and what is left. -/
def scanString : Text → Except DecodeError (List Nat × Text)
  | [] => .error .invalid
  | '\x22' :: cs => .ok ([], cs)
  | '\\' :: 'u' :: a :: b :: c :: d :: cs =>
    match hexDigits a b c d with
    | none => .error .invalid
    | some unit => (fun (units, rest) => (unit :: units, rest)) <$> scanString cs
  | '\\' :: c :: cs =>
    match escape c with
    | none => .error .invalid
    | some unit => (fun (units, rest) => (unit :: units, rest)) <$> scanString cs
  | c :: cs =>
    if c.toNat < 0x20 ∨ c = '\\' then .error .invalid
    else (fun (units, rest) => (c.toNat :: units, rest)) <$> scanString cs

/-- The two halves of a surrogate pair are one character. -/
def ofUnits : List Nat → List Char
  | high :: low :: units =>
    if 0xd800 ≤ high ∧ high < 0xdc00 ∧ 0xdc00 ≤ low ∧ low < 0xe000 then
      .ofNat (0x10000 + (high - 0xd800) * 0x400 + (low - 0xdc00)) :: ofUnits units
    else single high :: ofUnits (low :: units)
  | [unit] => [single unit]
  | [] => []
where
  single (unit : Nat) : Char := if unit.isValidChar then .ofNat unit else .ofNat 0xfffd

/-! ## Numbers -/

/-- A minus, if there is one. -/
def takeMinus : Text → Text × Text
  | '-' :: cs => (['-'], cs)
  | cs => ([], cs)

/-- The digits of a whole part: a zero, or what does not begin with one. -/
def takeWhole : Text → Option (Text × Text)
  | '0' :: cs => some (['0'], cs)
  | c :: cs => if c.isDigit then some ((c :: cs).span Char.isDigit) else none
  | [] => none

/-- A point and the digits behind it, if there is one. -/
def takeFraction : Text → Text × Text
  | '.' :: c :: cs =>
    if c.isDigit then
      let (digits, rest) := (c :: cs).span Char.isDigit
      ('.' :: digits, rest)
    else ([], '.' :: c :: cs)
  | s => ([], s)

/-- The sign of an exponent, if there is one. -/
def takeSign : Text → Text × Text
  | '+' :: cs => (['+'], cs)
  | '-' :: cs => (['-'], cs)
  | cs => ([], cs)

/-- An exponent, if there are digits in it. -/
def takeExponent : Text → Text × Text
  | [] => ([], [])
  | e :: cs =>
    let signed := takeSign cs
    let (digits, rest) := signed.2.span Char.isDigit
    if (e = 'e' ∨ e = 'E') ∧ digits ≠ [] then (e :: signed.1 ++ digits, rest) else ([], e :: cs)

/-- The number that digits spell. -/
def ofDigits (digits : Text) : Nat :=
  digits.foldl (fun n c => 10 * n + (c.toNat - '0'.toNat)) 0

/-- **A number**: an integer without a fraction and an exponent, a float with either. -/
def scanNumber (t : Texts) (s : Text) : Except DecodeError (Json × Text) :=
  let (minus, cs) := takeMinus s
  match takeWhole cs with
  | none => .error .invalid
  | some (whole, cs) =>
    let (fraction, cs) := takeFraction cs
    let (exponent, rest) := takeExponent cs
    if fraction = [] ∧ exponent = [] then
      if maxStrDigits < whole.length then .error .tooLong
      else .ok (.int (if minus = [] then ofDigits whole else -ofDigits whole), rest)
    else
      let numeral := String.ofList (minus ++ whole ++ fraction ++ exponent)
      .ok (.float ((t.toFloat numeral).getD .nan), rest)

/-! ## Values -/

/-- The words that stand for a value. -/
def scanWord : Text → Option (Json × Text)
  | 'n' :: 'u' :: 'l' :: 'l' :: rest => some (.null, rest)
  | 't' :: 'r' :: 'u' :: 'e' :: rest => some (.bool true, rest)
  | 'f' :: 'a' :: 'l' :: 's' :: 'e' :: rest => some (.bool false, rest)
  | 'N' :: 'a' :: 'N' :: rest => some (.float .nan, rest)
  | 'I' :: 'n' :: 'f' :: 'i' :: 'n' :: 'i' :: 't' :: 'y' :: rest => some (.float (.infinite false), rest)
  | '-' :: 'I' :: 'n' :: 'f' :: 'i' :: 'n' :: 'i' :: 't' :: 'y' :: rest =>
    some (.float (.infinite true), rest)
  | _ => none

section Scan
variable (t : Texts)

mutual
/-- **`scan_once`**: the value a text begins with, and what is left. -/
def scanOnce : Nat → Text → Except DecodeError (Json × Text)
  | 0, _ => .error .outOfSteps
  | steps + 1, s =>
    match s with
    | '\x22' :: cs => do
      let (units, rest) ← scanString cs
      pure (.str (.ofList (ofUnits units)), rest)
    | '\x7b' :: cs =>
      match skipWhite cs with
      | '\x7d' :: rest => .ok (.obj [], rest)
      | cs => do
        let (pairs, rest) ← scanPairs steps cs
        pure (.obj pairs, rest)
    | '[' :: cs =>
      match skipWhite cs with
      | ']' :: rest => .ok (.arr [], rest)
      | cs => do
        let (items, rest) ← scanItems steps cs
        pure (.arr items, rest)
    | cs =>
      match scanWord cs with
      | some scanned => .ok scanned
      | none => scanNumber t cs
/-- The pairs of an object, up to its closing bracket. -/
def scanPairs : Nat → Text → Except DecodeError (List (String × Json) × Text)
  | 0, _ => .error .outOfSteps
  | steps + 1, s =>
    match s with
    | '\x22' :: cs => do
      let (units, rest) ← scanString cs
      match skipWhite rest with
      | ':' :: cs => do
        let (value, rest) ← scanOnce steps (skipWhite cs)
        let pair := (String.ofList (ofUnits units), value)
        match skipWhite rest with
        | '\x7d' :: rest => pure ([pair], rest)
        | ',' :: cs => do
          let (pairs, rest) ← scanPairs steps (skipWhite cs)
          pure (pair :: pairs, rest)
        | _ => throw .invalid
      | _ => throw .invalid
    | _ => throw .invalid
/-- The items of an array, up to its closing bracket. -/
def scanItems : Nat → Text → Except DecodeError (List Json × Text)
  | 0, _ => .error .outOfSteps
  | steps + 1, s => do
    let (value, rest) ← scanOnce steps s
    match skipWhite rest with
    | ']' :: rest => pure ([value], rest)
    | ',' :: cs => do
      let (items, rest) ← scanItems steps (skipWhite cs)
      pure (value :: items, rest)
    | _ => throw .invalid
end

/-- The steps that a text is scanned in, at most. -/
def stepsFor (s : Text) : Nat := 2 * s.length + 1

/-- **`JSONDecoder.raw_decode`**, from the front of a text. -/
def rawDecode (s : Text) : Except DecodeError (Json × Text) := scanOnce t (stepsFor s) s

/-- **`json.loads`**: the whole text is one value. -/
def loads (s : Text) : Except DecodeError Json := do
  let (value, rest) ← rawDecode t (skipWhite s)
  if skipWhite rest = [] then pure value else throw .invalid

end Scan

/-! ## What is left of a text -/

theorem skipWhite_suffix (s : Text) : skipWhite s <:+ s := List.dropWhile_suffix _

/-- A string ends with a quote. -/
theorem scanString_closes {s rest : Text} {units : List Nat}
    (h : scanString s = .ok (units, rest)) : '\x22' :: rest <:+ s := by
  fun_induction scanString s generalizing units with
  | case1 | case3 | case5 | case7 => cases h
  | case2 cs =>
    obtain ⟨-, rfl⟩ := Prod.mk.inj (Except.ok.inj h)
    exact List.suffix_rfl
  | case4 a b c d cs unit hunit ih =>
    obtain ⟨⟨units', rest'⟩, hscan, heq⟩ := map_eq_ok h
    obtain ⟨-, rfl⟩ := Prod.mk.inj heq
    exact (ih hscan).trans ⟨['\\', 'u', a, b, c, d], rfl⟩
  | case6 c cs _ unit hunit ih =>
    obtain ⟨⟨units', rest'⟩, hscan, heq⟩ := map_eq_ok h
    obtain ⟨-, rfl⟩ := Prod.mk.inj heq
    exact (ih hscan).trans ⟨['\\', c], rfl⟩
  | case8 c cs _ _ _ hplain ih =>
    obtain ⟨⟨units', rest'⟩, hscan, heq⟩ := map_eq_ok h
    obtain ⟨-, rfl⟩ := Prod.mk.inj heq
    exact (ih hscan).trans (List.suffix_cons c cs)

theorem span_suffix (s : Text) : (s.span Char.isDigit).2 <:+ s := by
  rw [List.span_eq_takeWhile_dropWhile]
  exact List.dropWhile_suffix _

/-- The whole part of a number has a digit. -/
theorem takeWhole_shorter {s whole rest : Text} (h : takeWhole s = some (whole, rest)) :
    rest <:+ s ∧ rest.length < s.length := by
  unfold takeWhole at h
  split at h
  · next cs =>
    obtain ⟨-, rfl⟩ := Prod.mk.inj (Option.some.inj h)
    exact ⟨List.suffix_cons _ _, Nat.lt_succ_self _⟩
  · next c cs _ =>
    split at h
    · next hdigit =>
      rw [List.span_eq_takeWhile_dropWhile, List.dropWhile_cons_of_pos hdigit] at h
      obtain ⟨-, rfl⟩ := Prod.mk.inj (Option.some.inj h)
      have hsuffix : cs.dropWhile Char.isDigit <:+ cs := List.dropWhile_suffix _
      exact ⟨hsuffix.trans (List.suffix_cons c cs), Nat.lt_succ_of_le hsuffix.length_le⟩
    · cases h
  · cases h

theorem takeFraction_suffix (s : Text) : (takeFraction s).2 <:+ s := by
  unfold takeFraction
  split
  · next c cs =>
    split
    · exact (span_suffix (c :: cs)).trans (List.suffix_cons '.' (c :: cs))
    · exact List.suffix_rfl
  · exact List.suffix_rfl

theorem takeSign_suffix (s : Text) : (takeSign s).2 <:+ s := by
  unfold takeSign
  split
  · exact List.suffix_cons _ _
  · exact List.suffix_cons _ _
  · exact List.suffix_rfl

theorem takeExponent_suffix (s : Text) : (takeExponent s).2 <:+ s := by
  unfold takeExponent
  split
  · exact List.suffix_rfl
  · next e cs =>
    dsimp only
    split
    · exact ((span_suffix _).trans (takeSign_suffix cs)).trans (List.suffix_cons e cs)
    · exact List.suffix_rfl

/-- A value that is neither an array nor an object. -/
def IsScalar : Json → Prop
  | .arr _ | .obj _ => False
  | .null | .bool _ | .int _ | .float _ | .str _ => True

theorem takeMinus_suffix (s : Text) : (takeMinus s).2 <:+ s := by
  unfold takeMinus
  split
  · exact List.suffix_cons _ _
  · exact List.suffix_rfl

/-- What is left is a later end of the text. -/
def Shorter (rest s : Text) : Prop := rest <:+ s ∧ rest.length < s.length

theorem Shorter.of_cons {c : Char} {rest s : Text} (h : c :: rest <:+ s) : Shorter rest s :=
  ⟨(List.suffix_cons c rest).trans h, Nat.lt_of_succ_le h.length_le⟩

theorem Shorter.trans_suffix {rest s u : Text} (h : Shorter rest s) (hu : s <:+ u) :
    Shorter rest u :=
  ⟨h.1.trans hu, h.2.trans_le hu.length_le⟩

theorem Shorter.append (word : Text) (hword : word ≠ []) (rest : Text) :
    Shorter rest (word ++ rest) := by
  refine ⟨List.suffix_append word rest, ?_⟩
  have hpos := List.length_pos_iff.mpr hword
  rw [List.length_append]
  omega

theorem scanWord_spec {s rest : Text} {v : Json} (h : scanWord s = some (v, rest)) :
    Shorter rest s ∧ IsScalar v := by
  unfold scanWord at h
  split at h
  · cases h
    exact ⟨.append ['n', 'u', 'l', 'l'] (by simp) rest, trivial⟩
  · cases h
    exact ⟨.append ['t', 'r', 'u', 'e'] (by simp) rest, trivial⟩
  · cases h
    exact ⟨.append ['f', 'a', 'l', 's', 'e'] (by simp) rest, trivial⟩
  · cases h
    exact ⟨.append ['N', 'a', 'N'] (by simp) rest, trivial⟩
  · cases h
    exact ⟨.append ['I', 'n', 'f', 'i', 'n', 'i', 't', 'y'] (by simp) rest, trivial⟩
  · cases h
    exact ⟨.append ['-', 'I', 'n', 'f', 'i', 'n', 'i', 't', 'y'] (by simp) rest, trivial⟩
  · cases h

/-- A number has a digit, and is neither an array nor an object. -/
theorem scanNumber_spec {t : Texts} {s rest : Text} {v : Json}
    (h : scanNumber t s = .ok (v, rest)) : Shorter rest s ∧ IsScalar v := by
  unfold scanNumber at h
  dsimp only at h
  split at h
  · cases h
  · next whole cs hwhole =>
    obtain ⟨hsuffix, hlength⟩ := takeWhole_shorter hwhole
    have hrest : Shorter (takeExponent (takeFraction cs).2).2 s := by
      have hend := (takeExponent_suffix _).trans (takeFraction_suffix cs)
      have hminus := takeMinus_suffix s
      refine ⟨(hend.trans hsuffix).trans hminus, ?_⟩
      exact (hend.length_le.trans_lt hlength).trans_le hminus.length_le
    split at h
    · split at h
      · cases h
      · obtain ⟨rfl, rfl⟩ := Prod.mk.inj (Except.ok.inj h)
        exact ⟨hrest, trivial⟩
    · obtain ⟨rfl, rfl⟩ := Prod.mk.inj (Except.ok.inj h)
      exact ⟨hrest, trivial⟩

/-! ## What a scan leaves -/

/-- **What a scan of a value leaves**: of an object or an array, what is behind its closing bracket. -/
def Scanned (s : Text) : Json → Text → Prop
  | .obj _, rest => s.head? = some '\x7b' ∧ '\x7d' :: rest <:+ s
  | .arr _, rest => s.head? = some '[' ∧ ']' :: rest <:+ s
  | _, rest => s.head? ≠ some '\x7b' ∧ s.head? ≠ some '[' ∧ Shorter rest s

theorem Scanned.shorter {s rest : Text} {v : Json} (h : Scanned s v rest) : Shorter rest s := by
  cases v with
  | obj | arr => exact .of_cons h.2
  | _ => exact h.2.2

theorem Scanned.of_scalar {s rest : Text} {v : Json} (hobject : s.head? ≠ some '\x7b')
    (harray : s.head? ≠ some '[') (h : Shorter rest s ∧ IsScalar v) : Scanned s v rest := by
  cases v with
  | obj | arr => exact h.2.elim
  | _ => exact ⟨hobject, harray, h.1⟩

variable {t : Texts}

/-- A scan leaves the end of its text, whichever of the three it is. -/
theorem scan_spec (steps : Nat) :
    (∀ {s v rest}, scanOnce t steps s = .ok (v, rest) → Scanned s v rest) ∧
    (∀ {s pairs rest}, scanPairs t steps s = .ok (pairs, rest) → '\x7d' :: rest <:+ s) ∧
    (∀ {s items rest}, scanItems t steps s = .ok (items, rest) → ']' :: rest <:+ s) := by
  induction steps with
  | zero => exact ⟨nofun, nofun, nofun⟩
  | succ steps ih =>
    obtain ⟨hvalue, hpairs, hitems⟩ := ih
    refine ⟨fun {s v rest} h => ?_, fun {s pairs rest} h => ?_, fun {s items rest} h => ?_⟩
    · unfold scanOnce at h
      split at h
      · next cs =>
        obtain ⟨⟨units, rest'⟩, hstring, h⟩ := bind_eq_ok h
        obtain ⟨rfl, rfl⟩ := Prod.mk.inj (Except.ok.inj h)
        refine .of_scalar (by simp) (by simp) ⟨.of_cons (c := '\x22') ?_, trivial⟩
        exact (scanString_closes hstring).trans (List.suffix_cons _ cs)
      · next cs =>
        split at h
        · next behind hclose =>
          obtain ⟨rfl, rfl⟩ := Prod.mk.inj (Except.ok.inj h)
          refine ⟨rfl, ?_⟩
          rw [← hclose]
          exact (skipWhite_suffix cs).trans (List.suffix_cons _ cs)
        · obtain ⟨⟨pairs, rest'⟩, hread, h⟩ := bind_eq_ok h
          obtain ⟨rfl, rfl⟩ := Prod.mk.inj (Except.ok.inj h)
          exact ⟨rfl, ((hpairs hread).trans (skipWhite_suffix cs)).trans (List.suffix_cons _ cs)⟩
      · next cs =>
        split at h
        · next behind hclose =>
          obtain ⟨rfl, rfl⟩ := Prod.mk.inj (Except.ok.inj h)
          refine ⟨rfl, ?_⟩
          rw [← hclose]
          exact (skipWhite_suffix cs).trans (List.suffix_cons _ cs)
        · obtain ⟨⟨items, rest'⟩, hread, h⟩ := bind_eq_ok h
          obtain ⟨rfl, rfl⟩ := Prod.mk.inj (Except.ok.inj h)
          exact ⟨rfl, ((hitems hread).trans (skipWhite_suffix cs)).trans (List.suffix_cons _ cs)⟩
      · next hobject harray =>
        refine .of_scalar ?_ ?_ ?_
        · exact fun hhead => hobject _ (List.cons_head?_tail hhead).symm
        · exact fun hhead => harray _ (List.cons_head?_tail hhead).symm
        · split at h
          · next scanned hword => exact scanWord_spec (hword.trans (congrArg some (Except.ok.inj h)))
          · exact scanNumber_spec h
    · unfold scanPairs at h
      split at h
      · next cs =>
        obtain ⟨⟨units, afterKey⟩, hkey, h⟩ := bind_eq_ok h
        replace hkey := (Shorter.of_cons (scanString_closes hkey)).1
        dsimp only at h
        split at h
        · next afterColon hcolon =>
          obtain ⟨⟨value, afterValue⟩, hread, h⟩ := bind_eq_ok h
          have hcolon : afterColon <:+ cs := by
            refine (List.suffix_cons ':' afterColon).trans ?_
            rw [← hcolon]
            exact (skipWhite_suffix _).trans hkey
          have hvalue : skipWhite afterValue <:+ '\x22' :: cs :=
            (((skipWhite_suffix _).trans (hvalue hread).shorter.1).trans
              ((skipWhite_suffix _).trans hcolon)).trans (List.suffix_cons _ cs)
          dsimp only at h
          split at h
          · next behind hclose =>
            obtain ⟨-, rfl⟩ := Prod.mk.inj (Except.ok.inj h)
            rwa [hclose] at hvalue
          · next behind hcomma =>
            obtain ⟨⟨pairs', rest'⟩, hmore, h⟩ := bind_eq_ok h
            obtain ⟨-, rfl⟩ := Prod.mk.inj (Except.ok.inj h)
            rw [hcomma] at hvalue
            have hbehind := (List.suffix_cons ',' behind).trans hvalue
            exact ((hpairs hmore).trans (skipWhite_suffix _)).trans hbehind
          · cases h
        · cases h
      · cases h
    · unfold scanItems at h
      obtain ⟨⟨value, afterValue⟩, hread, h⟩ := bind_eq_ok h
      have hvalue : skipWhite afterValue <:+ s :=
        (skipWhite_suffix _).trans (hvalue hread).shorter.1
      dsimp only at h
      split at h
      · next behind hclose =>
        obtain ⟨-, rfl⟩ := Prod.mk.inj (Except.ok.inj h)
        rwa [hclose] at hvalue
      · next behind hcomma =>
        obtain ⟨⟨items', rest'⟩, hmore, h⟩ := bind_eq_ok h
        obtain ⟨-, rfl⟩ := Prod.mk.inj (Except.ok.inj h)
        rw [hcomma] at hvalue
        have hbehind := (List.suffix_cons ',' behind).trans hvalue
        exact ((hitems hmore).trans (skipWhite_suffix _)).trans hbehind
      · cases h

/-! ## The steps are enough -/

theorem scanString_ne_outOfSteps (s : Text) : scanString s ≠ .error .outOfSteps := by
  fun_induction scanString s with
  | case1 | case2 | case3 | case5 | case7 => nofun
  | case4 _ _ _ _ _ _ _ ih | case6 _ _ _ _ _ ih | case8 _ _ _ _ _ _ ih =>
    exact fun h => ih (map_eq_error h)

theorem scanNumber_ne_outOfSteps (t : Texts) (s : Text) :
    scanNumber t s ≠ .error .outOfSteps := by
  unfold scanNumber
  dsimp only
  repeat' split
  all_goals nofun

/-- **No scan runs out of steps**: each of them takes a character, or hands its text on once. -/
theorem scan_ne_outOfSteps (steps : Nat) :
    (∀ {s}, 2 * s.length + 1 ≤ steps → scanOnce t steps s ≠ .error .outOfSteps) ∧
    (∀ {s}, 2 * s.length + 2 ≤ steps → scanPairs t steps s ≠ .error .outOfSteps) ∧
    (∀ {s}, 2 * s.length + 2 ≤ steps → scanItems t steps s ≠ .error .outOfSteps) := by
  induction steps with
  | zero => exact ⟨fun h => absurd h (by omega), fun h => absurd h (by omega),
      fun h => absurd h (by omega)⟩
  | succ steps ih =>
    obtain ⟨hvalue, hpairs, hitems⟩ := ih
    refine ⟨fun {s} hsteps h => ?_, fun {s} hsteps h => ?_, fun {s} hsteps h => ?_⟩
    · unfold scanOnce at h
      split at h
      · next cs =>
        rcases bind_eq_error.mp h with hstring | ⟨_, -, h⟩
        · exact scanString_ne_outOfSteps cs hstring
        · cases h
      · next cs =>
        have hwhite := (skipWhite_suffix cs).length_le
        rw [List.length_cons] at hsteps
        split at h
        · cases h
        · rcases bind_eq_error.mp h with hread | ⟨_, -, h⟩
          · exact hpairs (by omega) hread
          · cases h
      · next cs =>
        have hwhite := (skipWhite_suffix cs).length_le
        rw [List.length_cons] at hsteps
        split at h
        · cases h
        · rcases bind_eq_error.mp h with hread | ⟨_, -, h⟩
          · exact hitems (by omega) hread
          · cases h
      · split at h
        · cases h
        · exact scanNumber_ne_outOfSteps t _ h
    · unfold scanPairs at h
      split at h
      · next cs =>
        rw [List.length_cons] at hsteps
        rcases bind_eq_error.mp h with hkey | ⟨⟨units, afterKey⟩, hkey, h⟩
        · exact scanString_ne_outOfSteps cs hkey
        · have hkey := (Shorter.of_cons (scanString_closes hkey)).2
          have hcolon := (skipWhite_suffix afterKey).length_le
          dsimp only at h
          split at h
          · next afterColon heq =>
            rw [heq, List.length_cons] at hcolon
            have hwhite := (skipWhite_suffix afterColon).length_le
            rcases bind_eq_error.mp h with hread | ⟨⟨value, afterValue⟩, hread, h⟩
            · exact hvalue (by omega) hread
            · have hshorter := ((scan_spec steps).1 hread).shorter.2
              have hcomma := (skipWhite_suffix afterValue).length_le
              dsimp only at h
              split at h
              · cases h
              · next behind heq =>
                rw [heq, List.length_cons] at hcomma
                have hbehind := (skipWhite_suffix behind).length_le
                rcases bind_eq_error.mp h with hmore | ⟨_, -, h⟩
                · exact hpairs (by omega) hmore
                · cases h
              · cases h
          · cases h
      · cases h
    · unfold scanItems at h
      rcases bind_eq_error.mp h with hread | ⟨⟨value, rest⟩, hread, h⟩
      · exact hvalue (by omega) hread
      · have hshorter := ((scan_spec steps).1 hread).shorter.2
        have hcomma := (skipWhite_suffix rest).length_le
        dsimp only at h
        split at h
        · cases h
        · next behind heq =>
          rw [heq, List.length_cons] at hcomma
          have hbehind := (skipWhite_suffix behind).length_le
          rcases bind_eq_error.mp h with hmore | ⟨_, -, h⟩
          · exact hitems (by omega) hmore
          · cases h
        · cases h

theorem rawDecode_ne_outOfSteps (s : Text) : rawDecode t s ≠ .error .outOfSteps :=
  (scan_ne_outOfSteps (stepsFor s)).1 le_rfl

theorem rawDecode_scanned {s rest : Text} {v : Json} (h : rawDecode t s = .ok (v, rest)) :
    Scanned s v rest := (scan_spec (stepsFor s)).1 h

/-- **What is left behind an object or an array is behind its closing bracket.** -/
theorem rawDecode_closes {s rest : Text} {v : Json} (h : rawDecode t s = .ok (v, rest))
    (hopen : s.head? = some '\x7b' ∨ s.head? = some '[') :
    ∃ close, (close = '\x7d' ∨ close = ']') ∧ close :: rest <:+ s := by
  have hscanned := rawDecode_scanned h
  cases v with
  | obj => exact ⟨_, .inl rfl, hscanned.2⟩
  | arr => exact ⟨_, .inr rfl, hscanned.2⟩
  | _ => exact (hopen.elim hscanned.1 hscanned.2.1).elim

end Gpuc.Basis.Json
