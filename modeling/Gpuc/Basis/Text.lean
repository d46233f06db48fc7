import Mathlib.Data.List.DropRight

/-!
# Strings as a dynamic language splits and strips them

A string is its list of characters. White space and line breaks are Unicode's, as `str.isspace` and
`str.splitlines` have them: a line ends at a form feed, a separator or a next-line character too.

The laws: a line with no break in it is split off whole (`splitLines_append`), no line that is split
off has a break in it (`noBreak_of_mem_splitLines`), and what is stripped is a sublist
(`strip_sublist`), so that a chain of operations that only drop characters is the identity exactly when
each of them is.
-/

set_option autoImplicit false

namespace Gpuc.Basis

/-- A string is its list of characters. -/
abbrev Text := List Char

namespace Text

/-- `str.isspace`, of one character. -/
def isSpace (c : Char) : Bool :=
  let n := c.toNat
  (0x9 ≤ n && n ≤ 0xd) || (0x1c ≤ n && n ≤ 0x20) || n = 0x85 || n = 0xa0 || n = 0x1680 ||
    (0x2000 ≤ n && n ≤ 0x200a) || n = 0x2028 || n = 0x2029 || n = 0x202f || n = 0x205f || n = 0x3000

/-- The characters `str.splitlines` ends a line at. -/
def isBreak (c : Char) : Bool :=
  let n := c.toNat
  (0xa ≤ n && n ≤ 0xd) || (0x1c ≤ n && n ≤ 0x1e) || n = 0x85 || n = 0x2028 || n = 0x2029

def lstrip (s : Text) : Text := s.dropWhile isSpace

def rstrip (s : Text) : Text := s.rdropWhile isSpace

/-- `str.strip`. -/
def strip (s : Text) : Text := rstrip (lstrip s)

/-- `str.splitlines`: the last line needs no break, and a carriage return with a newline is one. -/
def splitLines : Text → List Text
  | [] => []
  | '\r' :: '\n' :: cs => [] :: splitLines cs
  | c :: cs =>
    if isBreak c then [] :: splitLines cs
    else
      match splitLines cs with
      | [] => [[c]]
      | line :: lines => (c :: line) :: lines

/-- `str.splitlines(keepends=True)`: each line with its break. -/
def splitLinesKeep : Text → List Text
  | [] => []
  | '\r' :: '\n' :: cs => ['\r', '\n'] :: splitLinesKeep cs
  | c :: cs =>
    if isBreak c then [c] :: splitLinesKeep cs
    else
      match splitLinesKeep cs with
      | [] => [[c]]
      | line :: lines => (c :: line) :: lines

/-- Is what comes behind a text at the beginning of a line, but for white space? It says first whether
the text itself is. -/
def atLine : Bool → Text → Bool
  | fresh, [] => fresh
  | fresh, c :: cs => atLine (isBreak c || (fresh && isSpace c)) cs

/-! ## Stripping -/

theorem lstrip_sublist (s : Text) : (lstrip s).Sublist s := List.dropWhile_sublist _

theorem rstrip_sublist (s : Text) : (rstrip s).Sublist s := (List.rdropWhile_prefix _ s).sublist

theorem strip_sublist (s : Text) : (strip s).Sublist s :=
  (rstrip_sublist _).trans (lstrip_sublist s)

/-- Text that loses nothing to stripping loses nothing at either end. -/
theorem strip_eq_self {s : Text} (h : strip s = s) : lstrip s = s ∧ rstrip s = s := by
  have hleft : lstrip s = s := by
    refine (lstrip_sublist s).antisymm ?_
    have hboth := rstrip_sublist (lstrip s)
    rwa [← strip, h] at hboth
  rw [strip, hleft] at h
  exact ⟨hleft, h⟩

/-- A character that is no white space keeps the stripping of its two sides apart. -/
theorem strip_append_cons {s t : Text} {c : Char} (hc : isSpace c = false) :
    strip (s ++ c :: t) = lstrip s ++ c :: rstrip t := by
  have hleft : lstrip (s ++ c :: t) = lstrip s ++ c :: t := by
    induction s with
    | nil => simp [lstrip, hc]
    | cons d s ih =>
      unfold lstrip at ih ⊢
      rw [List.cons_append, List.dropWhile_cons, List.dropWhile_cons]
      split
      · exact ih
      · rfl
  have hright : ∀ u : Text, rstrip (u ++ c :: t) = u ++ c :: rstrip t := by
    intro u
    clear hleft
    induction t using List.reverseRecOn with
    | nil => simp [rstrip, List.rdropWhile_concat_neg, hc]
    | append_singleton t d ih =>
      unfold rstrip at ih ⊢
      rw [← List.cons_append, ← List.append_assoc, List.rdropWhile_concat, List.rdropWhile_concat]
      split
      · exact ih
      · simp
  rw [strip, hleft, hright]

/-! ## Splitting into lines -/

/-- **No line that is split off has a break in it.** -/
theorem noBreak_of_mem_splitLines {s line : Text} (h : line ∈ splitLines s) :
    ∀ c ∈ line, isBreak c = false := by
  fun_induction splitLines s generalizing line with
  | case1 => exact absurd h List.not_mem_nil
  | case2 cs ih =>
    rcases List.mem_cons.mp h with rfl | h
    · exact nofun
    · exact ih h
  | case3 c cs _ hbreak ih =>
    rcases List.mem_cons.mp h with rfl | h
    · exact nofun
    · exact ih h
  | case4 c cs _ hbreak hnil ih =>
    rw [List.mem_singleton.mp h]
    simpa using hbreak
  | case5 c cs _ hbreak line' lines hlines ih =>
    rw [hlines] at ih
    rcases List.mem_cons.mp h with rfl | h
    · exact List.forall_mem_cons.mpr ⟨by simpa using hbreak, ih List.mem_cons_self⟩
    · exact ih (List.mem_cons_of_mem _ h)

/-- The lines with their breaks are the text. -/
theorem flatten_splitLinesKeep (s : Text) : (splitLinesKeep s).flatten = s := by
  fun_induction splitLinesKeep s with
  | case1 => rfl
  | case2 cs ih => simp [ih]
  | case3 c cs _ _ ih => simp [ih]
  | case4 c cs _ _ hnil ih =>
    rw [hnil] at ih
    simp [← ih]
  | case5 c cs _ _ line lines hlines ih =>
    rw [hlines] at ih
    simpa using ih

theorem splitLines_newline (rest : Text) : splitLines ('\n' :: rest) = [] :: splitLines rest := by
  rw [splitLines.eq_3 _ _ (by rintro _ h; cases h)]
  rfl

/-- **A line with no break in it is split off whole.** -/
theorem splitLines_append {line : Text} (h : ∀ c ∈ line, isBreak c = false) (rest : Text) :
    splitLines (line ++ '\n' :: rest) = line :: splitLines rest := by
  induction line with
  | nil => exact splitLines_newline rest
  | cons c line ih =>
    obtain ⟨hc, hline⟩ := List.forall_mem_cons.mp h
    have hreturn : c ≠ '\r' := by
      rintro rfl
      exact absurd hc (by decide)
    rw [List.cons_append, splitLines.eq_3 _ _ (by rintro _ rfl; exact absurd rfl hreturn), ih hline]
    simp [hc]

/-! ## The beginning of a line -/

theorem isSpace_of_isBreak {c : Char} (h : isBreak c = true) : isSpace c = true := by
  simp only [isBreak, isSpace, Bool.or_eq_true, Bool.and_eq_true, decide_eq_true_eq] at h ⊢
  omega

theorem isBreak_of_not_isSpace {c : Char} (h : isSpace c = false) : isBreak c = false := by
  rw [Bool.eq_false_iff]
  intro hbreak
  rw [isSpace_of_isBreak hbreak] at h
  cases h

theorem atLine_append (fresh : Bool) (s u : Text) :
    atLine fresh (s ++ u) = atLine (atLine fresh s) u := by
  induction s generalizing fresh with
  | nil => rfl
  | cons c cs ih => exact ih _

/-- Behind something on the same line, only a line break begins a line. -/
theorem atLine_false {s : Text} (h : ∀ c ∈ s, isBreak c = false) : atLine false s = false := by
  induction s with
  | nil => rfl
  | cons c cs ih =>
    obtain ⟨hc, hcs⟩ := List.forall_mem_cons.mp h
    rw [atLine, hc]
    exact ih hcs

end Text

end Gpuc.Basis
