import Gpuc.Basis.Decode

/-!
# Writing JSON

The encoder of a value, as the interpreter's own library has it (`dumps`): on one line, or indented,
with every character that is not printable ASCII written as an escape. An integer with more digits than
are converted is not written. A float is written by `Texts.ofFloat`; what is assumed of that is said of
the floats that are written (`ReadsFloat`).

The law: what is written is read back, whatever is behind it (`rawDecode_encode`).
-/

set_option autoImplicit false

namespace Gpuc.Basis.Json

/-! ## Strings -/

/-- Four digits of a unit. -/
def hexText (unit : Nat) : Text :=
  [Nat.digitChar (unit / 4096), Nat.digitChar (unit / 256 % 16), Nat.digitChar (unit / 16 % 16),
    Nat.digitChar (unit % 16)]

/-- The units of a character: one, or a surrogate pair. -/
def unitsOf (c : Char) : List Nat :=
  if c.toNat < 0x10000 then [c.toNat]
  else [0xd800 + (c.toNat - 0x10000) / 0x400, 0xdc00 + (c.toNat - 0x10000) % 0x400]

/-- The escapes of one letter. -/
def shortEscape : Char → Option Char
  | '\\' => some '\\'
  | '\x22' => some '\x22'
  | '\n' => some 'n'
  | '\r' => some 'r'
  | '\t' => some 't'
  | '\x0c' => some 'f'
  | '\x08' => some 'b'
  | _ => none

/-- A character inside a string. -/
def escaped (c : Char) : Text :=
  match shortEscape c with
  | some letter => ['\\', letter]
  | none =>
    if 0x20 ≤ c.toNat ∧ c.toNat < 0x7f then [c]
    else (unitsOf c).flatMap fun unit => '\\' :: 'u' :: hexText unit

/-- `encode_basestring_ascii`. -/
def quoted (s : Text) : Text := '\x22' :: (s.flatMap escaped ++ ['\x22'])

/-! ## Values -/

/-- What one level of an indented text is indented by. -/
structure Indent where
  text : Text
  white : ∀ c ∈ text, isWhite c = true

/-- The line break in front of what is on a level, if the text is indented. -/
def newline (indent : Option Indent) (level : Nat) : Text :=
  match indent with
  | none => []
  | some indent => '\n' :: (List.replicate level indent.text).flatten

def itemSeparator (indent : Option Indent) (level : Nat) : Text :=
  match indent with
  | none => [',', ' ']
  | some _ => ',' :: newline indent level

section Encode
variable (t : Texts)

def floatText : Float64 → Text
  | .finite q => (t.ofFloat (.finite q)).toList
  | .infinite false => ['I', 'n', 'f', 'i', 'n', 'i', 't', 'y']
  | .infinite true => ['-', 'I', 'n', 'f', 'i', 'n', 'i', 't', 'y']
  | .nan => ['N', 'a', 'N']

variable (indent : Option Indent)

mutual
/-- **`_iterencode`**, of what is on a level. -/
def encode (level : Nat) : Json → Text
  | .null => ['n', 'u', 'l', 'l']
  | .bool true => ['t', 'r', 'u', 'e']
  | .bool false => ['f', 'a', 'l', 's', 'e']
  | .int n => (toString n).toList
  | .float x => floatText t x
  | .str s => quoted s.toList
  | .arr [] => ['[', ']']
  | .arr (v :: vs) =>
    '[' :: (newline indent (level + 1) ++ (encode (level + 1) v ++
      (encodeItems (level + 1) vs ++ (newline indent level ++ [']']))))
  | .obj [] => ['\x7b', '\x7d']
  | .obj ((key, v) :: pairs) =>
    '\x7b' :: (newline indent (level + 1) ++ (quoted key.toList ++ (':' :: ' ' ::
      (encode (level + 1) v ++ (encodePairs (level + 1) pairs ++ (newline indent level ++ ['\x7d']))))))
/-- The items behind the first. -/
def encodeItems (level : Nat) : List Json → Text
  | [] => []
  | v :: vs => itemSeparator indent level ++ (encode level v ++ encodeItems level vs)
/-- The pairs behind the first. -/
def encodePairs (level : Nat) : List (String × Json) → Text
  | [] => []
  | (key, v) :: pairs =>
    itemSeparator indent level ++ (quoted key.toList ++ (':' :: ' ' ::
      (encode level v ++ encodePairs level pairs)))
end

end Encode

mutual
/-- Is there an integer in it with more digits than are written? -/
def hasLongInt : Json → Bool
  | .null | .bool _ | .float _ | .str _ => false
  | .int n => 10 ^ maxStrDigits ≤ n.natAbs
  | .arr items => hasLongItem items
  | .obj pairs => hasLongMember pairs
def hasLongItem : List Json → Bool
  | [] => false
  | v :: vs => hasLongInt v || hasLongItem vs
def hasLongMember : List (String × Json) → Bool
  | [] => false
  | (_, v) :: pairs => hasLongInt v || hasLongMember pairs
end

/-- **`json.dumps`**. -/
def dumps (t : Texts) (indent : Option Indent) (v : Json) : Except Raised Text :=
  if hasLongInt v then .error limitError else .ok (encode t indent 0 v)

mutual
/-- The floats in a value that are numbers. -/
def floats : Json → List ℚ
  | .null | .bool _ | .int _ | .str _ => []
  | .float (.finite q) => [q]
  | .float (.infinite _) | .float .nan => []
  | .arr items => floatsOfItems items
  | .obj pairs => floatsOfPairs pairs
def floatsOfItems : List Json → List ℚ
  | [] => []
  | v :: vs => floats v ++ floatsOfItems vs
def floatsOfPairs : List (String × Json) → List ℚ
  | [] => []
  | (_, v) :: pairs => floats v ++ floatsOfPairs pairs
end

/-! ## Reading a string back -/

theorem hexDigit_digitChar : ∀ n < 16, hexDigit (Nat.digitChar n) = some n := by decide

theorem hexDigits_hexText {unit : Nat} (h : unit < 0x10000) :
    hexDigits (Nat.digitChar (unit / 4096)) (Nat.digitChar (unit / 256 % 16))
      (Nat.digitChar (unit / 16 % 16)) (Nat.digitChar (unit % 16)) = some unit := by
  rw [hexDigits, hexDigit_digitChar _ (by omega), hexDigit_digitChar _ (by omega),
    hexDigit_digitChar _ (by omega), hexDigit_digitChar _ (by omega)]
  refine congrArg some ?_
  omega

theorem scanString_unit {unit : Nat} (h : unit < 0x10000) (s : Text) :
    scanString ('\\' :: 'u' :: (hexText unit ++ s))
      = (fun (units, rest) => (unit :: units, rest)) <$> scanString s := by
  show scanString ('\\' :: 'u' :: Nat.digitChar (unit / 4096) :: Nat.digitChar (unit / 256 % 16) ::
    Nat.digitChar (unit / 16 % 16) :: Nat.digitChar (unit % 16) :: s) = _
  rw [scanString, hexDigits_hexText h]

/-- The units of a string. -/
theorem scanString_units {units : List Nat} (h : ∀ unit ∈ units, unit < 0x10000) (s : Text) :
    scanString ((units.flatMap fun unit => '\\' :: 'u' :: hexText unit) ++ s)
      = (fun (more, rest) => (units ++ more, rest)) <$> scanString s := by
  induction units with
  | nil =>
    show scanString s = _
    cases scanString s <;> rfl
  | cons unit units ih =>
    obtain ⟨hunit, hunits⟩ := List.forall_mem_cons.mp h
    rw [List.flatMap_cons, List.append_assoc, List.cons_append, List.cons_append,
      scanString_unit hunit, ih hunits]
    cases scanString s <;> rfl

theorem unitsOf_lt (c : Char) : ∀ unit ∈ unitsOf c, unit < 0x10000 := by
  have hvalid : c.toNat < 0x110000 := by
    rcases c.valid with h | h
    · exact h.trans (by decide)
    · exact h.2
  intro unit hunit
  rw [unitsOf] at hunit
  generalize c.toNat = n at hvalid hunit
  split at hunit
  · rwa [List.mem_singleton.mp hunit]
  · rcases List.mem_pair.mp hunit with hhigh | hlow
    · omega
    · omega

/-- A character is its one unit or its surrogate pair, whatever is behind it. -/
theorem ofUnits_unitsOf (c : Char) (units : List Nat) :
    ofUnits (unitsOf c ++ units) = c :: ofUnits units := by
  have hvalid : c.toNat.isValidChar := c.valid
  rw [unitsOf]
  split
  · next hone =>
    have hsingle : ofUnits.single c.toNat = c := by
      rw [ofUnits.single, if_pos hvalid, Char.ofNat_toNat]
    cases units with
    | nil =>
      show [ofUnits.single c.toNat] = _
      rw [hsingle]
      rfl
    | cons low units =>
      rw [List.singleton_append, ofUnits, if_neg, hsingle]
      rintro ⟨hhigh, hhigh', -, -⟩
      rcases hvalid with h | h <;> omega
  · next hpair =>
    have hhalves : ∀ n, 0x10000 ≤ n → n < 0x110000 →
        (0xd800 ≤ 0xd800 + (n - 0x10000) / 0x400 ∧ 0xd800 + (n - 0x10000) / 0x400 < 0xdc00 ∧
          0xdc00 ≤ 0xdc00 + (n - 0x10000) % 0x400 ∧ 0xdc00 + (n - 0x10000) % 0x400 < 0xe000) ∧
        0x10000 + (0xd800 + (n - 0x10000) / 0x400 - 0xd800) * 0x400
          + (0xdc00 + (n - 0x10000) % 0x400 - 0xdc00) = n := by
      intro n hlow hhigh
      omega
    have hlarge : c.toNat < 0x110000 := (hvalid.resolve_left fun hlow => hpair (hlow.trans (by omega))).2
    obtain ⟨hrange, hvalue⟩ := hhalves c.toNat (not_lt.mp hpair) hlarge
    rw [List.cons_append, List.singleton_append, ofUnits, if_pos hrange, hvalue, Char.ofNat_toNat]

theorem scanString_short {c letter : Char} (h : shortEscape c = some letter) (s : Text) :
    scanString ('\\' :: letter :: s) = (fun (units, rest) => (c.toNat :: units, rest)) <$> scanString s := by
  unfold shortEscape at h
  split at h <;> cases h <;> rfl

/-- **A character that is written is read as its units.** -/
theorem scanString_escaped (c : Char) (s : Text) :
    scanString (escaped c ++ s) = (fun (more, rest) => (unitsOf c ++ more, rest)) <$> scanString s := by
  rw [escaped]
  cases hshort : shortEscape c with
  | some letter =>
    have hone : unitsOf c = [c.toNat] := by
      unfold shortEscape at hshort
      split at hshort <;> first | rfl | cases hshort
    rw [hone]
    exact scanString_short hshort s
  | none =>
    dsimp only
    split
    · next hplain =>
      have hquote : c ≠ '\x22' := by
        rintro rfl
        cases hshort
      have hslash : c ≠ '\\' := by
        rintro rfl
        cases hshort
      rw [unitsOf, if_pos (by omega), List.singleton_append]
      rw [scanString.eq_5 _ _ (by simpa using hquote) (by simp [hslash]) (by simp [hslash]), if_neg]
      · rfl
      · rintro (hlow | hbackslash)
        · omega
        · exact hslash hbackslash
    · exact scanString_units (unitsOf_lt c) s

/-- **A string that is written is read back.** -/
theorem scanString_quoted (s rest : Text) : ∃ units,
    scanString (s.flatMap escaped ++ '\x22' :: rest) = .ok (units, rest) ∧ ofUnits units = s := by
  induction s with
  | nil => exact ⟨[], rfl, rfl⟩
  | cons c s ih =>
    obtain ⟨units, hscan, hunits⟩ := ih
    refine ⟨unitsOf c ++ units, ?_, by rw [ofUnits_unitsOf, hunits]⟩
    rw [List.flatMap_cons, List.append_assoc, scanString_escaped, hscan]
    rfl

/-! ## Reading a number back -/

/-- **The parts of a number**, as JSON has them. -/
structure IsNumeral (minus whole fraction exponent : Text) : Prop where
  minus : minus = [] ∨ minus = ['-']
  whole : whole = ['0'] ∨ ∃ c cs, whole = c :: cs ∧ c ≠ '0' ∧ ∀ d ∈ c :: cs, d.isDigit = true
  fraction : fraction = [] ∨ ∃ c cs, fraction = '.' :: c :: cs ∧ ∀ d ∈ c :: cs, d.isDigit = true
  exponent : exponent = [] ∨ ∃ e sign digits, exponent = e :: (sign ++ digits) ∧ (e = 'e' ∨ e = 'E') ∧
    (sign = [] ∨ sign = ['+'] ∨ sign = ['-']) ∧ digits ≠ [] ∧ ∀ d ∈ digits, d.isDigit = true

/-- The text does not go on with the number in front of it. -/
def EndsNumber (s : Text) : Prop :=
  ∀ c, s.head? = some c → c.isDigit = false ∧ c ≠ '.' ∧ c ≠ 'e' ∧ c ≠ 'E'

theorem span_digits {digits rest : Text} (h : ∀ d ∈ digits, d.isDigit = true)
    (hrest : ∀ c, rest.head? = some c → c.isDigit = false) :
    (digits ++ rest).span Char.isDigit = (digits, rest) := by
  rw [List.span_eq_takeWhile_dropWhile, List.takeWhile_append_of_pos h, List.dropWhile_append_of_pos h]
  cases rest with
  | nil => simp
  | cons c cs =>
    have hc := hrest c rfl
    rw [List.takeWhile_cons_of_neg (by simp [hc]), List.dropWhile_cons_of_neg (by simp [hc]),
      List.append_nil]

section Numeral
variable {minus whole fraction exponent rest : Text}

theorem takeExponent_append (h : IsNumeral minus whole fraction exponent) (hrest : EndsNumber rest) :
    takeExponent (exponent ++ rest) = (exponent, rest) := by
  rcases h.exponent with rfl | ⟨e, sign, digits, rfl, he, hsign, hne, hdigits⟩
  · cases rest with
    | nil => rfl
    | cons c cs =>
      obtain ⟨-, -, hlower, hupper⟩ := hrest c rfl
      rw [List.nil_append, takeExponent]
      exact if_neg fun hexponent => hexponent.1.elim hlower hupper
  · obtain ⟨d, ds, rfl⟩ := List.exists_cons_of_ne_nil hne
    have htaken : takeSign (sign ++ (d :: ds ++ rest)) = (sign, d :: ds ++ rest) := by
      have hd := hdigits d List.mem_cons_self
      rcases hsign with rfl | rfl | rfl
      · rw [List.nil_append, List.cons_append]
        unfold takeSign
        split
        · next heq =>
          obtain rfl := (List.cons.inj heq).1
          exact absurd hd (by decide)
        · next heq =>
          obtain rfl := (List.cons.inj heq).1
          exact absurd hd (by decide)
        · rfl
      · rfl
      · rfl
    have hspan := span_digits hdigits fun c hc => (hrest c hc).1
    rw [List.cons_append, List.append_assoc, takeExponent]
    dsimp only
    rw [htaken]
    dsimp only
    rw [hspan]
    exact if_pos ⟨he, List.cons_ne_nil d ds⟩

theorem takeFraction_append (h : IsNumeral minus whole fraction exponent) (hrest : EndsNumber rest) :
    takeFraction (fraction ++ (exponent ++ rest)) = (fraction, exponent ++ rest) := by
  have hnext : ∀ c, (exponent ++ rest).head? = some c → c.isDigit = false ∧ c ≠ '.' := by
    intro c hc
    rcases h.exponent with rfl | ⟨e, sign, digits, rfl, he, -, -, -⟩
    · exact ⟨(hrest c hc).1, (hrest c hc).2.1⟩
    · obtain rfl := Option.some.inj hc
      rcases he with rfl | rfl <;> decide
  rcases h.fraction with rfl | ⟨c, cs, rfl, hdigits⟩
  · rw [List.nil_append]
    unfold takeFraction
    split
    · next heq =>
      exact absurd rfl (hnext '.' (by rw [heq]; rfl)).2
    · rfl
  · rw [List.cons_append, List.cons_append, takeFraction, if_pos (hdigits c List.mem_cons_self)]
    have hspan := span_digits hdigits fun c hc => (hnext c hc).1
    rw [List.cons_append] at hspan
    rw [hspan]

theorem takeWhole_append (h : IsNumeral minus whole fraction exponent) (hrest : EndsNumber rest) :
    takeWhole (whole ++ (fraction ++ (exponent ++ rest)))
      = some (whole, fraction ++ (exponent ++ rest)) := by
  rcases h.whole with rfl | ⟨c, cs, rfl, hzero, hdigits⟩
  · rfl
  · have hnext : ∀ c, (fraction ++ (exponent ++ rest)).head? = some c → c.isDigit = false := by
      intro d hd
      rcases h.fraction with rfl | ⟨_, _, rfl, -⟩
      · rcases h.exponent with rfl | ⟨e, sign, digits, rfl, he, -, -, -⟩
        · exact (hrest d hd).1
        · obtain rfl := Option.some.inj hd
          rcases he with rfl | rfl <;> decide
      · obtain rfl := Option.some.inj hd
        decide
    have hspan := span_digits hdigits hnext
    rw [List.cons_append] at hspan ⊢
    unfold takeWhole
    split
    · next heq => exact absurd (List.cons.inj heq).1 hzero
    · next heq =>
      obtain ⟨rfl, rfl⟩ := List.cons.inj heq
      rw [if_pos (hdigits c List.mem_cons_self), hspan]
    · next heq => cases heq

/-- A number begins with a minus or a digit. -/
theorem IsNumeral.head (h : IsNumeral minus whole fraction exponent) :
    ∃ c cs, minus ++ whole = c :: cs ∧ (c = '-' ∨ c.isDigit = true) ∧
      (c = '-' → ∃ d ds, cs = d :: ds ∧ d.isDigit = true) := by
  have hwhole : ∃ c cs, whole = c :: cs ∧ c.isDigit = true := by
    rcases h.whole with rfl | ⟨c, cs, rfl, -, hdigits⟩
    · exact ⟨'0', [], rfl, by decide⟩
    · exact ⟨c, cs, rfl, hdigits c List.mem_cons_self⟩
  obtain ⟨c, cs, rfl, hc⟩ := hwhole
  rcases h.minus with rfl | rfl
  · refine ⟨c, cs, rfl, .inr hc, ?_⟩
    rintro rfl
    exact absurd hc (by decide)
  · exact ⟨'-', c :: cs, rfl, .inl rfl, fun _ => ⟨c, cs, rfl, hc⟩⟩

theorem takeMinus_append (h : IsNumeral minus whole fraction exponent) (more : Text) :
    takeMinus (minus ++ (whole ++ more)) = (minus, whole ++ more) := by
  rcases h.minus with rfl | rfl
  · obtain ⟨c, cs, heq, hc, hdigit⟩ := h.head
    rw [List.nil_append] at heq ⊢
    rw [heq, List.cons_append]
    unfold takeMinus
    split
    · next hminus =>
      -- a whole part begins with no minus
      obtain ⟨rfl, -⟩ := List.cons.inj hminus
      rcases h.whole with rfl | ⟨_, _, rfl, -, hdigits⟩
      · cases heq
      · obtain rfl := (List.cons.inj heq).1
        exact absurd (hdigits '-' List.mem_cons_self) (by decide)
    · rfl
  · rfl

/-- **A number is read for what its parts say**, up to what does not go on with it. -/
theorem scanNumber_append (t : Texts) (h : IsNumeral minus whole fraction exponent)
    (hrest : EndsNumber rest) :
    scanNumber t (minus ++ (whole ++ (fraction ++ (exponent ++ rest)))) =
      if fraction = [] ∧ exponent = [] then
        if maxStrDigits < whole.length then .error .tooLong
        else .ok (.int (if minus = [] then ofDigits whole else -ofDigits whole), rest)
      else
        .ok (.float ((t.toFloat (.ofList (minus ++ whole ++ fraction ++ exponent))).getD .nan), rest) := by
  rw [scanNumber, takeMinus_append h]
  dsimp only
  rw [takeWhole_append h hrest]
  dsimp only
  rw [takeFraction_append h hrest]
  dsimp only
  rw [takeExponent_append h hrest]

end Numeral

/-- **A float is written as a number that is read as it**: with a fraction or an exponent. -/
def ReadsFloat (t : Texts) (q : ℚ) : Prop :=
  (∃ minus whole fraction exponent, IsNumeral minus whole fraction exponent ∧
    ¬ (fraction = [] ∧ exponent = []) ∧
    (t.ofFloat (.finite q)).toList = minus ++ (whole ++ (fraction ++ exponent))) ∧
  t.toFloat (t.ofFloat (.finite q)) = some (.finite q)

/-- No integer but zero begins with a zero. -/
theorem toDigits_head {m : Nat} (h : m ≠ 0) : ∃ c cs, Nat.toDigits 10 m = c :: cs ∧ c ≠ '0' := by
  induction m using Nat.strongRecOn with
  | ind m ih =>
    rw [Nat.toDigits_eq_if (by decide)]
    split
    · next hlt =>
      have hdigit : ∀ n < 10, n ≠ 0 → Nat.digitChar n ≠ '0' := by decide
      exact ⟨_, [], rfl, hdigit m hlt h⟩
    · next hge =>
      obtain ⟨c, cs, heq, hc⟩ := ih (m / 10) (by omega) (by omega)
      exact ⟨c, cs ++ [Nat.digitChar (m % 10)], by rw [heq, List.cons_append], hc⟩

/-- **An integer is written as a number**: its sign and its digits. -/
theorem isNumeral_int (n : Int) : ∃ minus, (toString n).toList = minus ++ Nat.toDigits 10 n.natAbs ∧
    IsNumeral minus (Nat.toDigits 10 n.natAbs) [] [] ∧
      n = if minus = [] then (n.natAbs : Int) else -n.natAbs := by
  have hwhole : ∀ m : Nat, Nat.toDigits 10 m = ['0'] ∨ ∃ c cs, Nat.toDigits 10 m = c :: cs ∧ c ≠ '0' ∧
      ∀ d ∈ c :: cs, d.isDigit = true := by
    intro m
    by_cases hzero : m = 0
    · exact .inl (hzero ▸ Nat.toDigits_zero 10)
    · obtain ⟨c, cs, heq, hc⟩ := toDigits_head hzero
      refine .inr ⟨c, cs, heq, hc, fun d hd => ?_⟩
      rw [← heq] at hd
      exact Nat.isDigit_of_mem_toDigits (by decide) (by decide) hd
  cases n with
  | ofNat m =>
    refine ⟨[], ?_, ⟨.inl rfl, hwhole m, .inl rfl, .inl rfl⟩, rfl⟩
    exact Nat.toList_repr
  | negSucc m =>
    refine ⟨['-'], ?_, ⟨.inr rfl, hwhole (m + 1), .inl rfl, .inl rfl⟩, rfl⟩
    show ("-" ++ (m + 1).repr).toList = _
    rw [String.toList_append, Nat.toList_repr]
    rfl

theorem ofDigits_toDigits (m : Nat) : ofDigits (Nat.toDigits 10 m) = m := Nat.ofDigitChars_ten_toDigits

/-! ## Reading a value back -/

section Rules
variable {t : Texts} {steps : Nat} {s r cs rest : Text} {v : Json} {items : List Json}
  {pairs : List (String × Json)} {key units : List Nat}

theorem skipWhite_append {blank : Text} (h : ∀ c ∈ blank, isWhite c = true) :
    skipWhite (blank ++ s) = skipWhite s := List.dropWhile_append_of_pos h

theorem skipWhite_cons {c : Char} (h : isWhite c = false) : skipWhite (c :: cs) = c :: cs :=
  List.dropWhile_cons_of_neg (by simp [h])

theorem scanOnce_str (h : scanString cs = .ok (units, rest)) :
    scanOnce t (steps + 1) ('\x22' :: cs) = .ok (.str (.ofList (ofUnits units)), rest) := by
  show (scanString cs >>= _) = _
  rw [h]
  rfl

theorem scanOnce_bracket (cs : Text) : scanOnce t (steps + 1) ('[' :: cs) = (match skipWhite cs with
    | ']' :: rest => .ok (.arr [], rest)
    | cs => (fun (items, rest) => (.arr items, rest)) <$> scanItems t steps cs) := rfl

theorem scanOnce_items (hopen : ∀ r, skipWhite cs ≠ ']' :: r)
    (h : scanItems t steps (skipWhite cs) = .ok (items, rest)) :
    scanOnce t (steps + 1) ('[' :: cs) = .ok (.arr items, rest) := by
  rw [scanOnce_bracket]
  split
  · next hclose => exact absurd hclose (hopen _)
  · rw [h]
    rfl

theorem scanOnce_brace (cs : Text) : scanOnce t (steps + 1) ('\x7b' :: cs) = (match skipWhite cs with
    | '\x7d' :: rest => .ok (.obj [], rest)
    | cs => (fun (pairs, rest) => (.obj pairs, rest)) <$> scanPairs t steps cs) := rfl

theorem scanOnce_pairs (hopen : ∀ r, skipWhite cs ≠ '\x7d' :: r)
    (h : scanPairs t steps (skipWhite cs) = .ok (pairs, rest)) :
    scanOnce t (steps + 1) ('\x7b' :: cs) = .ok (.obj pairs, rest) := by
  rw [scanOnce_brace]
  split
  · next hclose => exact absurd hclose (hopen _)
  · rw [h]
    rfl

theorem scanOnce_number {c : Char} (hc : c = '-' ∨ c.isDigit = true)
    (hminus : c = '-' → ∃ d ds, cs = d :: ds ∧ d.isDigit = true) :
    scanOnce t (steps + 1) (c :: cs) = scanNumber t (c :: cs) := by
  have hother : ∀ other : Char, other ≠ '-' → other.isDigit = false → c ≠ other := by
    rintro other hne hdigit rfl
    rcases hc with rfl | hc
    · exact hne rfl
    · rw [hdigit] at hc
      cases hc
  have hword : scanWord (c :: cs) = none := by
    unfold scanWord
    split
    · next heq => exact absurd (List.cons.inj heq).1 (hother _ (by decide) (by decide))
    · next heq => exact absurd (List.cons.inj heq).1 (hother _ (by decide) (by decide))
    · next heq => exact absurd (List.cons.inj heq).1 (hother _ (by decide) (by decide))
    · next heq => exact absurd (List.cons.inj heq).1 (hother _ (by decide) (by decide))
    · next heq => exact absurd (List.cons.inj heq).1 (hother _ (by decide) (by decide))
    · next heq =>
      obtain ⟨rfl, rfl⟩ := List.cons.inj heq
      obtain ⟨d, ds, heq, hd⟩ := hminus rfl
      obtain ⟨rfl, -⟩ := List.cons.inj heq
      exact absurd hd (by decide)
    · rfl
  unfold scanOnce
  split
  · next heq => exact absurd (List.cons.inj heq).1 (hother _ (by decide) (by decide))
  · next heq => exact absurd (List.cons.inj heq).1 (hother _ (by decide) (by decide))
  · next heq => exact absurd (List.cons.inj heq).1 (hother _ (by decide) (by decide))
  · rw [hword]

theorem scanItems_eq (h : scanOnce t steps s = .ok (v, r)) :
    scanItems t (steps + 1) s = (match skipWhite r with
      | ']' :: rest => .ok ([v], rest)
      | ',' :: cs => (fun (items, rest) => (v :: items, rest)) <$> scanItems t steps (skipWhite cs)
      | _ => .error .invalid) := by
  rw [scanItems, h]
  rfl

theorem scanItems_last (hvalue : scanOnce t steps s = .ok (v, r)) (hclose : skipWhite r = ']' :: rest) :
    scanItems t (steps + 1) s = .ok ([v], rest) := by
  rw [scanItems_eq hvalue, hclose]
  rfl

theorem scanItems_more (hvalue : scanOnce t steps s = .ok (v, r)) (hcomma : skipWhite r = ',' :: cs)
    (hmore : scanItems t steps (skipWhite cs) = .ok (items, rest)) :
    scanItems t (steps + 1) s = .ok (v :: items, rest) := by
  rw [scanItems_eq hvalue, hcomma]
  show _ <$> scanItems t steps (skipWhite cs) = _
  rw [hmore]
  rfl

/-- The pair that a text of pairs begins with: its key, and its value behind the colon. -/
structure FirstPair (t : Texts) (steps : Nat) (s : Text) (pair : String × Json) (r : Text) : Prop where
  split : ∃ cs units afterKey afterColon, s = '\x22' :: cs ∧ scanString cs = .ok (units, afterKey) ∧
    pair.1 = .ofList (ofUnits units) ∧ skipWhite afterKey = ':' :: afterColon ∧
      scanOnce t steps (skipWhite afterColon) = .ok (pair.2, r)

theorem scanPairs_key {units : List Nat} {afterKey : Text} (h : scanString cs = .ok (units, afterKey)) :
    scanPairs t (steps + 1) ('\x22' :: cs) = (match skipWhite afterKey with
      | ':' :: behind => do
        let value ← scanOnce t steps (skipWhite behind)
        match skipWhite value.2 with
        | '\x7d' :: rest => pure ([(String.ofList (ofUnits units), value.1)], rest)
        | ',' :: cs =>
          (fun (pairs, rest) => ((String.ofList (ofUnits units), value.1) :: pairs, rest)) <$>
            scanPairs t steps (skipWhite cs)
        | _ => throw .invalid
      | _ => throw .invalid) := by
  show (scanString cs >>= _) = _
  rw [h]
  rfl

theorem scanPairs_eq {pair : String × Json} (h : FirstPair t steps s pair r) :
    scanPairs t (steps + 1) s = (match skipWhite r with
      | '\x7d' :: rest => .ok ([pair], rest)
      | ',' :: cs => (fun (pairs, rest) => (pair :: pairs, rest)) <$> scanPairs t steps (skipWhite cs)
      | _ => .error .invalid) := by
  obtain ⟨key, value⟩ := pair
  obtain ⟨cs, units, afterKey, afterColon, rfl, hkey, rfl, hcolon, hvalue⟩ := h.split
  rw [scanPairs_key hkey, hcolon]
  show (scanOnce t steps (skipWhite afterColon) >>= _) = _
  rw [hvalue]
  rfl

theorem scanPairs_last {pair : String × Json} (h : FirstPair t steps s pair r)
    (hclose : skipWhite r = '\x7d' :: rest) : scanPairs t (steps + 1) s = .ok ([pair], rest) := by
  rw [scanPairs_eq h, hclose]
  rfl

theorem scanPairs_more {pair : String × Json} (h : FirstPair t steps s pair r)
    (hcomma : skipWhite r = ',' :: cs)
    (hmore : scanPairs t steps (skipWhite cs) = .ok (pairs, rest)) :
    scanPairs t (steps + 1) s = .ok (pair :: pairs, rest) := by
  rw [scanPairs_eq h, hcomma]
  show _ <$> scanPairs t steps (skipWhite cs) = _
  rw [hmore]
  rfl

end Rules

/-! ### What is written -/

/-- The value is written, and its floats as numbers that are read as them. -/
structure Printable (t : Texts) (v : Json) : Prop where
  short : hasLongInt v = false
  floats : ∀ q ∈ floats v, ReadsFloat t q

section Printable
variable {t : Texts}

theorem hasLongItem_eq (items : List Json) : hasLongItem items = items.any hasLongInt := by
  induction items with
  | nil => rfl
  | cons v vs ih => rw [hasLongItem, ih, List.any_cons]

theorem hasLongMember_eq (pairs : List (String × Json)) :
    hasLongMember pairs = pairs.any fun pair => hasLongInt pair.2 := by
  induction pairs with
  | nil => rfl
  | cons pair pairs ih => rw [hasLongMember, ih, List.any_cons]

theorem floatsOfItems_eq (items : List Json) : floatsOfItems items = items.flatMap floats := by
  induction items with
  | nil => rfl
  | cons v vs ih => rw [floatsOfItems, ih, List.flatMap_cons]

theorem floatsOfPairs_eq (pairs : List (String × Json)) :
    floatsOfPairs pairs = pairs.flatMap fun pair => floats pair.2 := by
  induction pairs with
  | nil => rfl
  | cons pair pairs ih => rw [floatsOfPairs, ih, List.flatMap_cons]

theorem Printable.item {items : List Json} (h : Printable t (.arr items)) : ∀ v ∈ items, Printable t v := by
  intro v hv
  refine ⟨?_, fun q hq => h.floats q ?_⟩
  · have hshort : hasLongItem items = false := h.short
    rw [hasLongItem_eq, List.any_eq_false] at hshort
    exact Bool.eq_false_iff.mpr (hshort v hv)
  · show q ∈ floatsOfItems items
    rw [floatsOfItems_eq]
    exact List.mem_flatMap.mpr ⟨v, hv, hq⟩

theorem Printable.member {pairs : List (String × Json)} (h : Printable t (.obj pairs)) :
    ∀ pair ∈ pairs, Printable t pair.2 := by
  intro pair hpair
  refine ⟨?_, fun q hq => h.floats q ?_⟩
  · have hshort : hasLongMember pairs = false := h.short
    rw [hasLongMember_eq, List.any_eq_false] at hshort
    exact Bool.eq_false_iff.mpr (hshort pair hpair)
  · show q ∈ floatsOfPairs pairs
    rw [floatsOfPairs_eq]
    exact List.mem_flatMap.mpr ⟨pair, hpair, hq⟩

/-- An object is printable when what is in it is. -/
theorem Printable.of_members {pairs : List (String × Json)} (h : ∀ pair ∈ pairs, Printable t pair.2) :
    Printable t (.obj pairs) := by
  constructor
  · show hasLongMember pairs = false
    rw [hasLongMember_eq, List.any_eq_false]
    exact fun pair hpair => Bool.eq_false_iff.mp (h pair hpair).short
  · intro q hq
    replace hq : q ∈ floatsOfPairs pairs := hq
    rw [floatsOfPairs_eq] at hq
    obtain ⟨pair, hpair, hq⟩ := List.mem_flatMap.mp hq
    exact (h pair hpair).floats q hq

variable (indent : Option Indent)

theorem newline_white (level : Nat) : ∀ c ∈ newline indent level, isWhite c = true := by
  cases indent with
  | none => exact nofun
  | some indent =>
    intro c hc
    rcases List.mem_cons.mp hc with rfl | hc
    · rfl
    · obtain ⟨one, hone, hc⟩ := List.mem_flatten.mp hc
      exact indent.white c (List.eq_of_mem_replicate hone ▸ hc)

/-- A separator is a comma and white space. -/
theorem itemSeparator_eq (level : Nat) : ∃ blank, itemSeparator indent level = ',' :: blank ∧
    blank ≠ [] ∧ ∀ c ∈ blank, isWhite c = true := by
  cases indent with
  | none => exact ⟨[' '], rfl, by decide, List.all_eq_true.mp (by decide)⟩
  | some indent => exact ⟨newline (some indent) level, rfl, nofun, newline_white _ level⟩

/-- **No value begins with white space or a closing bracket.** -/
theorem encode_head (level : Nat) {v : Json} (h : Printable t v) :
    ∃ c cs, encode t indent level v = c :: cs ∧ isWhite c = false ∧ c ≠ ']' := by
  have hnumber : ∀ {minus whole : Text} {fraction exponent : Text} (more : Text),
      IsNumeral minus whole fraction exponent →
      ∃ c cs, minus ++ (whole ++ more) = c :: cs ∧ isWhite c = false ∧ c ≠ ']' := by
    intro minus whole fraction exponent more hnumeral
    obtain ⟨c, cs, heq, hc, -⟩ := hnumeral.head
    refine ⟨c, cs ++ more, by rw [← List.append_assoc, heq, List.cons_append], ?_, ?_⟩
    · rw [isWhite, Bool.eq_false_iff]
      intro hwhite
      simp only [Bool.or_eq_true, decide_eq_true_eq] at hwhite
      rcases hwhite with ((rfl | rfl) | rfl) | rfl <;> exact absurd hc (by decide)
    · rintro rfl
      exact absurd hc (by decide)
  match v with
  | .null => exact ⟨_, _, by rw [encode], by decide, by decide⟩
  | .bool true => exact ⟨_, _, by rw [encode], by decide, by decide⟩
  | .bool false => exact ⟨_, _, by rw [encode], by decide, by decide⟩
  | .int n =>
    obtain ⟨minus, heq, hnumeral, -⟩ := isNumeral_int n
    have hhead := hnumber [] hnumeral
    rw [List.append_nil] at hhead
    rw [encode, heq]
    exact hhead
  | .float (.finite q) =>
    obtain ⟨minus, whole, fraction, exponent, hnumeral, -, heq⟩ := (h.floats q List.mem_cons_self).1
    rw [encode, floatText, heq]
    exact hnumber _ hnumeral
  | .float (.infinite true) => exact ⟨_, _, by rw [encode, floatText], by decide, by decide⟩
  | .float (.infinite false) => exact ⟨_, _, by rw [encode, floatText], by decide, by decide⟩
  | .float .nan => exact ⟨_, _, by rw [encode, floatText], by decide, by decide⟩
  | .str s => exact ⟨_, _, by rw [encode, quoted], by decide, by decide⟩
  | .arr [] | .arr (_ :: _) => exact ⟨_, _, by rw [encode], by decide, by decide⟩
  | .obj [] | .obj (_ :: _) => exact ⟨_, _, by rw [encode], by decide, by decide⟩

/-- White space, a comma or a closing bracket ends a number. -/
theorem endsNumber_cons {c : Char} (h : isWhite c = true ∨ c = ',' ∨ c = ']' ∨ c = '\x7d') (s : Text) :
    EndsNumber (c :: s) := by
  intro d hd
  obtain rfl := Option.some.inj hd
  rcases h with h | rfl | rfl | rfl
  · simp only [isWhite, Bool.or_eq_true, decide_eq_true_eq] at h
    rcases h with ((rfl | rfl) | rfl) | rfl <;> decide
  · decide
  · decide
  · decide

/-- So does what is behind a value in an array or an object. -/
theorem endsNumber_close (level : Nat) {close : Char} (hclose : close = ']' ∨ close = '\x7d')
    (rest : Text) : EndsNumber (newline indent level ++ close :: rest) := by
  cases hblank : newline indent level with
  | nil => exact endsNumber_cons (.inr (.inr hclose)) rest
  | cons c cs =>
    have hwhite := newline_white indent level c (hblank ▸ List.mem_cons_self)
    exact endsNumber_cons (.inl hwhite) _

end Printable

/-! ### The law -/

section ReadBack
variable {t : Texts} (indent : Option Indent)

/-- A value that is no array and no object. -/
theorem scanOnce_scalar {v : Json} (h : Printable t v) (hscalar : IsScalar v) (level steps : Nat)
    {rest : Text} (hrest : EndsNumber rest) :
    scanOnce t (steps + 1) (encode t indent level v ++ rest) = .ok (v, rest) := by
  match v with
  | .null | .bool true | .bool false | .float (.infinite true) | .float (.infinite false)
  | .float .nan => rfl
  | .int n =>
    obtain ⟨minus, heq, hnumeral, hn⟩ := isNumeral_int n
    obtain ⟨c, cs, hhead, hc, hminus⟩ := hnumeral.head
    have hshort : (Nat.toDigits 10 n.natAbs).length ≤ maxStrDigits := by
      have hlong := h.short
      rw [hasLongInt, decide_eq_false_iff_not, not_le] at hlong
      exact (Nat.length_toDigits_le_iff (by decide) (by decide)).mpr hlong
    have htext : encode t indent level (.int n) ++ rest = c :: (cs ++ rest) := by
      rw [encode, heq, hhead, List.cons_append]
    have hdigit : c = '-' → ∃ d ds, cs ++ rest = d :: ds ∧ d.isDigit = true := by
      intro heq
      obtain ⟨d, ds, rfl, hd⟩ := hminus heq
      exact ⟨d, ds ++ rest, rfl, hd⟩
    have hscan := scanNumber_append t hnumeral hrest
    rw [List.nil_append, List.nil_append, ← List.append_assoc, hhead, List.cons_append,
      if_pos ⟨rfl, rfl⟩, if_neg (not_lt.mpr hshort), ofDigits_toDigits, ← hn] at hscan
    rw [htext, scanOnce_number hc hdigit, hscan]
  | .float (.finite q) =>
    obtain ⟨⟨minus, whole, fraction, exponent, hnumeral, hfloat, heq⟩, hread⟩ :=
      h.floats q List.mem_cons_self
    obtain ⟨c, cs, hhead, hc, hminus⟩ := hnumeral.head
    have htext : encode t indent level (.float (.finite q)) ++ rest
        = c :: (cs ++ (fraction ++ (exponent ++ rest))) := by
      rw [encode, floatText, heq, ← List.append_assoc, hhead]
      simp
    have hdigit : c = '-' →
        ∃ d ds, cs ++ (fraction ++ (exponent ++ rest)) = d :: ds ∧ d.isDigit = true := by
      intro heq
      obtain ⟨d, ds, rfl, hd⟩ := hminus heq
      exact ⟨d, _, rfl, hd⟩
    have hnumber : String.ofList (minus ++ whole ++ fraction ++ exponent) = t.ofFloat (.finite q) := by
      rw [List.append_assoc, List.append_assoc, ← heq, String.ofList_toList]
    have hscan := scanNumber_append t hnumeral hrest
    rw [hnumber, hread, if_neg hfloat, ← List.append_assoc, hhead, List.cons_append] at hscan
    rw [htext, scanOnce_number hc hdigit, hscan]
    rfl
  | .str s =>
    obtain ⟨units, hscan, hunits⟩ := scanString_quoted s.toList rest
    have htext : encode t indent level (.str s) ++ rest
        = '\x22' :: (s.toList.flatMap escaped ++ '\x22' :: rest) := by
      rw [encode, quoted, List.cons_append, List.append_assoc]
      rfl
    rw [htext, scanOnce_str hscan, hunits, String.ofList_toList]

/-- The white space in front of a value. -/
theorem skipWhite_encode {v : Json} (h : Printable t v) (level : Nat) {blank : Text}
    (hblank : ∀ c ∈ blank, isWhite c = true) (s : Text) :
    skipWhite (blank ++ (encode t indent level v ++ s)) = encode t indent level v ++ s := by
  obtain ⟨c, cs, heq, hc, -⟩ := encode_head indent level h
  rw [skipWhite_append hblank, heq, List.cons_append, skipWhite_cons hc]

theorem skipWhite_close (level : Nat) {close : Char} (hclose : isWhite close = false) (rest : Text) :
    skipWhite (newline indent level ++ close :: rest) = close :: rest := by
  rw [skipWhite_append (newline_white indent level), skipWhite_cons hclose]

/-- **Every value, every list of items and every list of pairs that is written is read back**, in as many
steps as its text allows. -/
theorem scan_encode (steps : Nat) :
    (∀ {v : Json} {level : Nat} {rest : Text}, Printable t v →
      2 * (encode t indent level v).length + 1 ≤ steps → (IsScalar v → EndsNumber rest) →
        scanOnce t steps (encode t indent level v ++ rest) = .ok (v, rest)) ∧
    (∀ {v : Json} {vs : List Json} {level close : Nat} {rest : Text}, (∀ w ∈ v :: vs, Printable t w) →
      2 * (encode t indent level v ++ encodeItems t indent level vs).length + 2 ≤ steps →
        scanItems t steps (encode t indent level v ++ (encodeItems t indent level vs ++
          (newline indent close ++ ']' :: rest))) = .ok (v :: vs, rest)) ∧
    (∀ {key : String} {v : Json} {pairs : List (String × Json)} {level close : Nat} {rest : Text},
      (∀ pair ∈ (key, v) :: pairs, Printable t pair.2) →
      2 * (encode t indent level v ++ encodePairs t indent level pairs).length + 2 ≤ steps →
        scanPairs t steps (quoted key.toList ++ (':' :: ' ' :: (encode t indent level v ++
          (encodePairs t indent level pairs ++ (newline indent close ++ '\x7d' :: rest)))))
            = .ok ((key, v) :: pairs, rest)) := by
  induction steps with
  | zero => exact ⟨fun _ h => absurd h (by omega), fun _ h => absurd h (by omega),
      fun _ h => absurd h (by omega)⟩
  | succ steps ih =>
    obtain ⟨hvalue, hitems, hpairs⟩ := ih
    refine ⟨fun {v level rest} hv hsteps hrest => ?_, fun {v vs level close rest} hall hsteps => ?_,
      fun {key v pairs level close rest} hall hsteps => ?_⟩
    · match v with
      | .null | .bool _ | .int _ | .float _ | .str _ =>
        exact scanOnce_scalar indent hv trivial level steps (hrest trivial)
      | .arr [] | .obj [] => rfl
      | .arr (v :: vs) =>
        have htext : encode t indent level (.arr (v :: vs)) ++ rest =
            '[' :: (newline indent (level + 1) ++ (encode t indent (level + 1) v ++
              (encodeItems t indent (level + 1) vs ++ (newline indent level ++ ']' :: rest)))) := by
          rw [encode]
          simp
        have hskip := fun s => skipWhite_encode indent (hv.item v List.mem_cons_self) (level + 1)
          (newline_white indent (level + 1)) s
        rw [htext]
        apply scanOnce_items
        · intro r hclose
          obtain ⟨c, cs, heq, -, hc⟩ := encode_head indent (level + 1) (hv.item v List.mem_cons_self)
          rw [hskip, heq] at hclose
          exact hc (List.cons.inj hclose).1
        · rw [hskip]
          apply hitems hv.item
          rw [encode] at hsteps
          simp only [List.length_cons, List.length_append] at hsteps ⊢
          omega
      | .obj ((key, v) :: pairs) =>
        have htext : encode t indent level (.obj ((key, v) :: pairs)) ++ rest =
            '\x7b' :: (newline indent (level + 1) ++ (quoted key.toList ++ (':' :: ' ' ::
              (encode t indent (level + 1) v ++ (encodePairs t indent (level + 1) pairs ++
                (newline indent level ++ '\x7d' :: rest)))))) := by
          rw [encode]
          simp
        have hskip : ∀ s, skipWhite (newline indent (level + 1) ++ (quoted key.toList ++ s))
            = quoted key.toList ++ s := by
          intro s
          rw [skipWhite_append (newline_white indent (level + 1)), quoted, List.cons_append,
            skipWhite_cons (by decide)]
        rw [htext]
        apply scanOnce_pairs
        · intro r hclose
          rw [hskip, quoted, List.cons_append] at hclose
          exact absurd (List.cons.inj hclose).1 (by decide)
        · rw [hskip]
          apply hpairs hv.member
          rw [encode] at hsteps
          simp only [List.length_cons, List.length_append] at hsteps ⊢
          omega
    · obtain ⟨hv, hvs⟩ := List.forall_mem_cons.mp hall
      rw [List.length_append] at hsteps
      cases vs with
      | nil =>
        rw [encodeItems, List.nil_append]
        exact scanItems_last (hvalue hv (by omega) fun _ => endsNumber_close indent close (.inl rfl) rest)
          (skipWhite_close indent close (by decide) rest)
      | cons w ws =>
        obtain ⟨blank, hsep, hne, hblank⟩ := itemSeparator_eq indent level
        have hpos := List.length_pos_iff.mpr hne
        rw [encodeItems, hsep] at hsteps ⊢
        simp only [List.length_cons, List.length_append] at hsteps
        rw [List.cons_append, List.cons_append, List.append_assoc, List.append_assoc]
        refine scanItems_more (hvalue hv (by omega) fun _ => endsNumber_cons (.inr (.inl rfl)) _)
          (skipWhite_cons (by decide)) ?_
        rw [skipWhite_encode indent (hvs w List.mem_cons_self) level hblank]
        apply hitems hvs
        rw [List.length_append]
        omega
    · obtain ⟨hv, hvs⟩ := List.forall_mem_cons.mp hall
      replace hv : Printable t v := hv
      rw [List.length_append] at hsteps
      have hfirst : ∀ {r}, (IsScalar v → EndsNumber r) →
          FirstPair t steps (quoted key.toList ++ (':' :: ' ' :: (encode t indent level v ++ r)))
            (key, v) r := by
        intro r hr
        obtain ⟨units, hscan, hunits⟩ :=
          scanString_quoted key.toList (':' :: ' ' :: (encode t indent level v ++ r))
        refine ⟨_, units, _, ' ' :: (encode t indent level v ++ r), ?_, hscan, ?_,
          skipWhite_cons (by decide), ?_⟩
        · rw [quoted, List.cons_append, List.append_assoc]
          rfl
        · rw [hunits, String.ofList_toList]
        · have hskip := @skipWhite_encode t indent v hv level [' '] (List.all_eq_true.mp (by decide)) r
          rw [List.singleton_append] at hskip
          rw [hskip]
          exact hvalue hv (by omega) hr
      cases pairs with
      | nil =>
        rw [encodePairs, List.nil_append]
        exact scanPairs_last (hfirst fun _ => endsNumber_close indent close (.inr rfl) rest)
          (skipWhite_close indent close (by decide) rest)
      | cons pair pairs =>
        obtain ⟨key', w⟩ := pair
        obtain ⟨blank, hsep, hne, hblank⟩ := itemSeparator_eq indent level
        have hpos := List.length_pos_iff.mpr hne
        rw [encodePairs, hsep] at hsteps ⊢
        simp only [List.length_cons, List.length_append] at hsteps
        have hassoc : ',' :: blank ++ (quoted key'.toList ++ (':' :: ' ' :: (encode t indent level w ++
              encodePairs t indent level pairs))) ++ (newline indent close ++ '\x7d' :: rest)
            = ',' :: (blank ++ (quoted key'.toList ++ (':' :: ' ' :: (encode t indent level w ++
              (encodePairs t indent level pairs ++ (newline indent close ++ '\x7d' :: rest)))))) := by
          simp
        rw [hassoc]
        refine scanPairs_more (hfirst fun _ => endsNumber_cons (.inr (.inl rfl)) _)
          (skipWhite_cons (by decide)) ?_
        have hskip : ∀ s, skipWhite (blank ++ (quoted key'.toList ++ s)) = quoted key'.toList ++ s := by
          intro s
          rw [skipWhite_append hblank, quoted, List.cons_append, skipWhite_cons (by decide)]
        rw [hskip]
        apply hpairs hvs
        rw [List.length_append]
        omega

/-- **What is written is read back**, whatever is behind it, unless a number is. -/
theorem rawDecode_encode {v : Json} (h : Printable t v) (level : Nat) {rest : Text}
    (hrest : IsScalar v → EndsNumber rest) :
    rawDecode t (encode t indent level v ++ rest) = .ok (v, rest) := by
  apply (scan_encode indent _).1 h _ hrest
  rw [stepsFor, List.length_append]
  omega

/-- **A document that is written is loaded again**, with white space behind it. -/
theorem loads_encode {v : Json} (h : Printable t v) {blank : Text}
    (hblank : ∀ c ∈ blank, isWhite c = true) : loads t (encode t indent 0 v ++ blank) = .ok v := by
  have hfront : skipWhite (encode t indent 0 v ++ blank) = encode t indent 0 v ++ blank :=
    @skipWhite_encode t indent v h 0 [] nofun blank
  have hrest : skipWhite blank = [] := List.dropWhile_eq_nil_iff.mpr hblank
  have hends : EndsNumber blank := by
    cases blank with
    | nil => exact nofun
    | cons c cs => exact endsNumber_cons (.inl (hblank c List.mem_cons_self)) cs
  rw [loads, hfront, rawDecode_encode indent h 0 fun _ => hends]
  exact if_pos hrest

end ReadBack

end Gpuc.Basis.Json
