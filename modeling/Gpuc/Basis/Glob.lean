import Gpuc.Basis.Text

/-!
# Shell patterns

A pattern as `fnmatch` reads it: `*` stands for any text, `?` for one character, `[seq]` for one of some
characters and ranges of them, `[!seq]` for one of the others, and anything else for itself. A bracket
that is not closed is a character. A slash is a character like any other.

The law (`fnmatch_plain`): a pattern with none of the three openers matches one text, itself. One with an
opener need not match itself at all.
-/

set_option autoImplicit false

namespace Gpuc.Basis

/-- One piece of a pattern. -/
inductive Piece where
  | char (c : Char)
  | one
  | many
  | oneOf (negated : Bool) (ranges : List (Char × Char))
  deriving DecidableEq

namespace Piece

/-- The ranges of a bracket, a character alone being one. -/
def ranges : Text → List (Char × Char)
  | a :: '-' :: b :: rest => (a, b) :: ranges rest
  | a :: rest => (a, a) :: ranges rest
  | [] => []

/-- What stands between an opened bracket and the one that closes it, and what comes after. A bracket
that would close it at once is one of its characters. -/
def bracket (rest : Text) : Option (Text × Text) :=
  let lead := match rest with
    | '!' :: ']' :: _ => 2
    | '!' :: _ | ']' :: _ => 1
    | _ => 0
  let body := (rest.drop lead).takeWhile (· ≠ ']')
  match (rest.drop lead).dropWhile (· ≠ ']') with
  | [] => none
  | _ :: after => some (rest.take lead ++ body, after)

/-- The piece a bracket is. -/
def ofBracket : Text → Piece
  | '!' :: stuff => .oneOf true (ranges stuff)
  | stuff => .oneOf false (ranges stuff)

/-- The first pieces of a pattern, as many as it has characters at most. -/
def upTo : Nat → Text → List Piece
  | 0, _ | _, [] => []
  | n + 1, c :: rest =>
    if c = '*' then .many :: upTo n rest
    else if c = '?' then .one :: upTo n rest
    else if c = '[' then
      match bracket rest with
      | none => .char c :: upTo n rest
      | some (stuff, after) => ofBracket stuff :: upTo n after
    else .char c :: upTo n rest

/-- **The pieces of a pattern**. -/
def ofPattern (pattern : Text) : List Piece := upTo pattern.length pattern

/-- The piece stands for this character. -/
def takes : Piece → Char → Bool
  | .char c, x => c = x
  | .one, _ => true
  | .many, _ => false
  | .oneOf negated ranges, x => (ranges.any fun (a, b) => a ≤ x && x ≤ b) != negated

/-- The pieces stand for the whole text, in order. -/
def all : List Piece → Text → Bool
  | [], text => text.isEmpty
  | .many :: pieces, text => text.tails.any (all pieces)
  | piece :: pieces, text =>
    match text with
    | [] => false
    | x :: rest => piece.takes x && all pieces rest

end Piece

/-- **Does the pattern match the text?** -/
def fnmatch (pattern text : String) : Bool := Piece.all (Piece.ofPattern pattern.toList) text.toList

/-- No character of it opens anything. -/
def plainPattern (pattern : String) : Bool :=
  pattern.toList.all fun c => c ≠ '*' && c ≠ '?' && c ≠ '['

namespace Piece

theorem ofPattern_plain {pattern : Text}
    (hplain : ∀ c ∈ pattern, c ≠ '*' ∧ c ≠ '?' ∧ c ≠ '[') : ofPattern pattern = pattern.map .char := by
  unfold ofPattern
  induction pattern with
  | nil => rfl
  | cons c rest ih =>
    obtain ⟨hstar, hone, hopens⟩ := hplain c List.mem_cons_self
    rw [List.length_cons, upTo, if_neg hstar, if_neg hone, if_neg hopens,
      ih fun x hx => hplain x (List.mem_cons_of_mem c hx), List.map_cons]

/-- Characters stand for themselves. -/
theorem all_chars {pattern text : Text} : all (pattern.map .char) text = true ↔ pattern = text := by
  induction pattern generalizing text with
  | nil => cases text <;> simp [all]
  | cons c pattern ih =>
    cases text with
    | nil => simp [all]
    | cons x text => simp [all, takes, ih]

end Piece

/-- **A plain pattern matches itself and nothing else.** -/
theorem fnmatch_plain {pattern text : String} (hplain : plainPattern pattern = true) :
    fnmatch pattern text = true ↔ pattern = text := by
  have hchars : ∀ c ∈ pattern.toList, c ≠ '*' ∧ c ≠ '?' ∧ c ≠ '[' := by
    intro c hc
    have hthis := List.all_eq_true.mp hplain c hc
    simpa [and_assoc] using hthis
  rw [fnmatch, Piece.ofPattern_plain hchars, Piece.all_chars, String.toList_inj]

example : fnmatch "run*.txt" "run2.txt" = true := by decide +kernel

example : fnmatch "ckpt-[0-9].pt" "ckpt-[0-9].pt" = false := by decide +kernel

end Gpuc.Basis
