import Gpuc.Basis.Encode
import Gpuc.Laws.Control.Config

/-!
# The host's answer, in whatever surrounds it

A line is tried when it begins with a bracket behind its white space (`mem_openings_iff`). Of a document
that `json.dumps` has written, the lines that are tried each begin a document inside it
(`begins_encode`): a string has no line break in it, and what is written is read back up to its own end.
So no nested part ends behind the document, and the document is the answer where nothing in front of it
reaches into it and nothing behind it is one (`parseLastJson_finds`).
-/

set_option autoImplicit false

namespace Gpuc.Control.Remote

open Gpuc.Basis Gpuc.Basis.Json
open Gpuc.Basis.Text (atLine atLine_append atLine_false)

/-! ## The lines that are tried -/

theorem opens_iff {s : Text} : opens s = true ↔ ∃ c cs, s = c :: cs ∧ (c = '\x7b' ∨ c = '[') := by
  cases s with
  | nil => exact ⟨fun h => absurd h (by decide), fun ⟨_, _, h, _⟩ => nomatch h⟩
  | cons c cs => simp [opens]

/-- The ends of a text that begin at a line, the text itself coming behind something on its first line
or not. -/
def Begins (fresh : Bool) (text s : Text) : Prop :=
  opens s = true ∧ ∃ front, text = front ++ s ∧ atLine fresh front = true

theorem not_begins_nil {fresh : Bool} {s : Text} : ¬ Begins fresh [] s := by
  intro ⟨hopens, front, heq, _⟩
  obtain ⟨-, rfl⟩ := List.append_eq_nil_iff.mp heq.symm
  exact absurd hopens (by decide)

/-- One character on: the whole text, or an end of what is behind the character. -/
theorem begins_cons {fresh : Bool} {c : Char} {cs s : Text} :
    Begins fresh (c :: cs) s ↔
      fresh = true ∧ opens (c :: cs) = true ∧ s = c :: cs ∨
        Begins (Text.isBreak c || (fresh && Text.isSpace c)) cs s := by
  constructor
  · intro ⟨hopens, front, heq, hfresh⟩
    cases front with
    | nil =>
      obtain rfl : c :: cs = s := heq
      exact .inl ⟨hfresh, hopens, rfl⟩
    | cons d front =>
      obtain ⟨rfl, rfl⟩ := List.cons.inj heq
      exact .inr ⟨hopens, front, rfl, hfresh⟩
  · rintro (⟨hfresh, hopens, rfl⟩ | ⟨hopens, front, rfl, hfresh⟩)
    · exact ⟨hopens, [], rfl, hfresh⟩
    · exact ⟨hopens, c :: front, rfl, hfresh⟩

theorem not_opens_of_space {c : Char} (h : Text.isSpace c = true) (cs : Text) : opens (c :: cs) = false := by
  rw [Bool.eq_false_iff]
  intro hopens
  obtain ⟨_, _, heq, hbracket⟩ := opens_iff.mp hopens
  obtain ⟨rfl, -⟩ := List.cons.inj heq
  rcases hbracket with rfl | rfl <;> exact absurd h (by decide)

/-- **What is tried are the ends of the text that open a bracket at the beginning of a line**, behind the
white space there. -/
theorem mem_openings_iff {text s : Text} : s ∈ openings text ↔ Begins true text s := by
  have hboth : (s ∈ openingsOf (Text.splitLinesKeep text) ↔ Begins true text s) ∧
      (s ∈ openingsOf (Text.splitLinesKeep text).tail ↔ Begins false text s) := by
    fun_induction Text.splitLinesKeep text with
    | case1 => exact ⟨iff_of_false List.not_mem_nil not_begins_nil,
        iff_of_false List.not_mem_nil not_begins_nil⟩
    | case2 cs ih =>
      have hnext : ∀ fresh, Begins fresh ('\r' :: '\n' :: cs) s ↔ Begins true cs s := by
        intro fresh
        rw [begins_cons, begins_cons]
        simp [not_opens_of_space, show Text.isBreak '\n' = true from rfl,
          show Text.isSpace '\r' = true from rfl, show Text.isSpace '\n' = true from rfl]
      rw [hnext, hnext]
      exact ⟨ih.1, ih.1⟩
    | case3 c cs _ hbreak ih =>
      have hspace := Text.isSpace_of_isBreak hbreak
      have hnext : ∀ fresh, Begins fresh (c :: cs) s ↔ Begins true cs s := by
        intro fresh
        rw [begins_cons, hbreak, not_opens_of_space hspace]
        simp
      have hblank : Text.lstrip [c] = [] := List.dropWhile_cons_of_pos hspace
      rw [hnext, hnext]
      refine ⟨?_, ih.1⟩
      rw [openingsOf, hblank]
      exact ih.1
    | case4 c cs _ hbreak hnil ih =>
      obtain rfl : cs = [] := by
        rw [← Text.flatten_splitLinesKeep cs, hnil]
        rfl
      rw [Bool.not_eq_true] at hbreak
      rw [begins_cons, begins_cons, hbreak]
      simp only [not_begins_nil, or_false]
      refine ⟨?_, iff_of_false List.not_mem_nil (by simp)⟩
      rw [openingsOf]
      by_cases hspace : Text.isSpace c = true
      · rw [show Text.lstrip [c] = [] from List.dropWhile_cons_of_pos hspace, not_opens_of_space hspace]
        simp [openingsOf, show opens [] = false from rfl]
      · rw [show Text.lstrip [c] = [c] from List.dropWhile_cons_of_neg hspace]
        by_cases hopens : opens [c] = true
        · simp [openingsOf, hopens]
        · simp [openingsOf, hopens]
    | case5 c cs _ hbreak line lines hlines ih =>
      rw [hlines] at ih
      rw [Bool.not_eq_true] at hbreak
      rw [begins_cons, begins_cons, hbreak]
      have htext : line ++ lines.flatten = cs := by
        rw [← Text.flatten_splitLinesKeep cs, hlines, List.flatten_cons]
      refine ⟨?_, by simpa using ih.2⟩
      by_cases hspace : Text.isSpace c = true
      · rw [openingsOf, show Text.lstrip (c :: line) = Text.lstrip line from
          List.dropWhile_cons_of_pos hspace, not_opens_of_space hspace, hspace]
        simpa [openingsOf] using ih.1
      · rw [openingsOf, show Text.lstrip (c :: line) = c :: line from List.dropWhile_cons_of_neg hspace,
          List.cons_append, htext]
        have hsame : opens (c :: line) = opens (c :: cs) := rfl
        rw [Bool.not_eq_true] at hspace
        rw [hsame, hspace]
        by_cases hopens : opens (c :: cs) = true
        · simpa [hopens, eq_comm] using or_congr_right ih.2
        · simpa [hopens] using ih.2
  exact hboth.1

/-! ## Inside a document that is written -/

section Inside
variable {t : Texts} {indent : Option Indent}

/-- What is written of an array or an object. -/
def IsWritten (t : Texts) (indent : Option Indent) (s : Text) : Prop :=
  ∃ level v, Printable t v ∧ ¬ IsScalar v ∧ s = encode t indent level v

/-- **Every line that a text is tried at begins a document that is written**, and ends in the text. -/
def Nests (t : Texts) (indent : Option Indent) (fresh : Bool) (text : Text) : Prop :=
  ∀ s, Begins fresh text s → ∃ written more, IsWritten t indent written ∧ s = written ++ more

theorem Nests.append {fresh : Bool} {text more : Text} (h : Nests t indent fresh text)
    (hmore : Nests t indent (atLine fresh text) more) : Nests t indent fresh (text ++ more) := by
  intro s ⟨hopens, front, heq, hfresh⟩
  rcases List.append_eq_append_iff.mp heq with ⟨between, rfl, rfl⟩ | ⟨between, rfl, rfl⟩
  · rw [atLine_append] at hfresh
    exact hmore s ⟨hopens, between, rfl, hfresh⟩
  · cases between with
    | nil =>
      rw [List.append_nil] at hmore
      exact hmore more ⟨hopens, [], rfl, hfresh⟩
    | cons c between =>
      obtain ⟨written, rest, hwritten, heq⟩ := h (c :: between) ⟨hopens, front, rfl, hfresh⟩
      exact ⟨written, rest ++ more, hwritten, by rw [heq, List.append_assoc]⟩

/-- A text without brackets. -/
theorem nests_of_plain {fresh : Bool} {text : Text} (h : ∀ c ∈ text, c ≠ '\x7b' ∧ c ≠ '[') :
    Nests t indent fresh text := by
  intro s ⟨hopens, front, heq, _⟩
  obtain ⟨c, cs, rfl, hbracket⟩ := opens_iff.mp hopens
  have hc := h c (heq ▸ List.mem_append_right front List.mem_cons_self)
  exact (hbracket.elim hc.1 hc.2).elim

/-- A text of which that is seen. -/
theorem nests_of_word {fresh : Bool} {text : Text} (h : (text.all fun c => c ≠ '\x7b' ∧ c ≠ '[') = true) :
    Nests t indent fresh text :=
  nests_of_plain fun c hc => of_decide_eq_true (List.all_eq_true.mp h c hc)

theorem nests_of_white {fresh : Bool} {text : Text} (h : ∀ c ∈ text, isWhite c = true) :
    Nests t indent fresh text := by
  apply nests_of_plain
  intro c hc
  constructor <;> rintro rfl <;> exact absurd (h _ hc) (by decide)

/-- A text of one line, in which nothing but its first character could begin a line. -/
theorem nests_of_line {fresh : Bool} {c : Char} {cs : Text} (hopens : c ≠ '\x7b' ∧ c ≠ '[')
    (hspace : Text.isSpace c = false) (h : ∀ d ∈ cs, Text.isBreak d = false) :
    Nests t indent fresh (c :: cs) := by
  intro s hbegins
  have hbreak := Text.isBreak_of_not_isSpace hspace
  rcases begins_cons.mp hbegins with ⟨-, hfirst, -⟩ | ⟨-, front, rfl, hfresh⟩
  · obtain ⟨_, _, heq, hbracket⟩ := opens_iff.mp hfirst
    obtain ⟨rfl, -⟩ := List.cons.inj heq
    exact (hbracket.elim hopens.1 hopens.2).elim
  · rw [hspace, Bool.and_false, hbreak, Bool.or_false,
      atLine_false fun d hd => h d (List.mem_append_left _ hd)] at hfresh
    cases hfresh

theorem noBreak_hexText {unit : Nat} (h : unit < 0x10000) : ∀ c ∈ hexText unit, Text.isBreak c = false := by
  have hdigit : ∀ n < 16, Text.isBreak (Nat.digitChar n) = false := by decide
  intro c hc
  simp only [hexText, List.mem_cons, List.not_mem_nil, or_false] at hc
  rcases hc with rfl | rfl | rfl | rfl <;> exact hdigit _ (by omega)

/-- **No line break is written inside a string.** -/
theorem noBreak_escaped (c : Char) : ∀ d ∈ escaped c, Text.isBreak d = false := by
  intro d hd
  rw [escaped] at hd
  cases hshort : shortEscape c with
  | some letter =>
    rw [hshort] at hd
    have hletter : Text.isBreak letter = false := by
      unfold shortEscape at hshort
      split at hshort <;> cases hshort <;> rfl
    rcases List.mem_pair.mp hd with rfl | rfl
    · rfl
    · exact hletter
  | none =>
    rw [hshort] at hd
    dsimp only at hd
    split at hd
    · next hplain =>
      rw [List.mem_singleton.mp hd, Bool.eq_false_iff]
      intro hbreak
      simp only [Text.isBreak, Bool.or_eq_true, Bool.and_eq_true, decide_eq_true_eq] at hbreak
      omega
    · obtain ⟨unit, hunit, hd⟩ := List.mem_flatMap.mp hd
      rcases List.mem_cons.mp hd with rfl | hd
      · rfl
      · rcases List.mem_cons.mp hd with rfl | hd
        · rfl
        · exact noBreak_hexText (unitsOf_lt c unit hunit) d hd

theorem nests_quoted (fresh : Bool) (s : Text) : Nests t indent fresh (quoted s) := by
  refine nests_of_line (by decide) rfl fun d hd => ?_
  rcases List.mem_append.mp hd with hd | hd
  · obtain ⟨c, -, hd⟩ := List.mem_flatMap.mp hd
    exact noBreak_escaped c d hd
  · rw [List.mem_singleton.mp hd]
    rfl

/-- The characters of a number. -/
theorem nests_numeral {fresh : Bool} {minus whole fraction exponent : Text}
    (h : IsNumeral minus whole fraction exponent) :
    Nests t indent fresh (minus ++ (whole ++ (fraction ++ exponent))) := by
  have hdigits : ∀ {digits : Text}, (∀ d ∈ digits, d.isDigit = true) →
      ∀ d ∈ digits, d ≠ '\x7b' ∧ d ≠ '[' := by
    intro digits hall d hd
    constructor <;> rintro rfl <;> exact absurd (hall _ hd) (by decide)
  apply nests_of_plain
  intro c hc
  simp only [List.mem_append] at hc
  rcases hc with hc | hc | hc | hc
  · rcases h.minus with rfl | rfl
    · cases hc
    · rw [List.mem_singleton.mp hc]
      decide
  · rcases h.whole with rfl | ⟨_, _, rfl, -, hwhole⟩
    · rw [List.mem_singleton.mp hc]
      decide
    · exact hdigits hwhole c hc
  · rcases h.fraction with rfl | ⟨_, _, rfl, hfraction⟩
    · cases hc
    · rcases List.mem_cons.mp hc with rfl | hc
      · decide
      · exact hdigits hfraction c hc
  · rcases h.exponent with rfl | ⟨e, sign, digits, rfl, he, hsign, -, hexponent⟩
    · cases hc
    · rcases List.mem_cons.mp hc with rfl | hc
      · rcases he with rfl | rfl <;> decide
      · rcases List.mem_append.mp hc with hc | hc
        · rcases hsign with rfl | rfl | rfl
          · cases hc
          · rw [List.mem_singleton.mp hc]
            decide
          · rw [List.mem_singleton.mp hc]
            decide
        · exact hdigits hexponent c hc

theorem nests_scalar {v : Json} (h : Printable t v) (hscalar : IsScalar v) (level : Nat) (fresh : Bool) :
    Nests t indent fresh (encode t indent level v) := by
  match v with
  | .null | .bool true | .bool false =>
    rw [encode]
    exact nests_of_word (by decide)
  | .float (.infinite true) | .float (.infinite false) | .float .nan =>
    rw [encode, floatText]
    exact nests_of_word (by decide)
  | .int n =>
    obtain ⟨minus, heq, hnumeral, -⟩ := isNumeral_int n
    have hnests := @nests_numeral t indent fresh _ _ _ _ hnumeral
    rw [List.append_nil, List.append_nil] at hnests
    rw [encode, heq]
    exact hnests
  | .float (.finite q) =>
    obtain ⟨minus, whole, fraction, exponent, hnumeral, -, heq⟩ := (h.floats q List.mem_cons_self).1
    rw [encode, floatText, heq]
    exact nests_numeral hnumeral
  | .str s => exact nests_quoted fresh s.toList

/-- A document with brackets around what nests. -/
theorem nests_brackets {v : Json} {level : Nat} {opening : Char} {inner : Text} {fresh : Bool}
    (hv : Printable t v) (hscalar : ¬ IsScalar v) (heq : encode t indent level v = opening :: inner)
    (hopening : Text.isSpace opening = false) (h : Nests t indent false inner) :
    Nests t indent fresh (encode t indent level v) := by
  intro s hbegins
  rw [heq] at hbegins
  have hbreak := Text.isBreak_of_not_isSpace hopening
  rcases begins_cons.mp hbegins with ⟨-, -, rfl⟩ | hinner
  · exact ⟨_, [], ⟨level, v, hv, hscalar, heq.symm⟩, (List.append_nil _).symm⟩
  · rw [hopening, Bool.and_false, hbreak, Bool.or_false] at hinner
    exact h s hinner

theorem nests_separator (level : Nat) (fresh : Bool) :
    Nests t indent fresh (itemSeparator indent level) := by
  obtain ⟨blank, heq, -, hblank⟩ := itemSeparator_eq indent level
  rw [heq]
  apply nests_of_plain
  intro c hc
  rcases List.mem_cons.mp hc with rfl | hc
  · decide
  · constructor <;> rintro rfl <;> exact absurd (hblank _ hc) (by decide)

mutual
/-- **Inside a document that is written, only documents begin a line.** -/
theorem nests_encode : ∀ (v : Json) (level : Nat) (fresh : Bool), Printable t v →
    Nests t indent fresh (encode t indent level v)
  | .null, level, fresh, h | .bool _, level, fresh, h | .int _, level, fresh, h
  | .float _, level, fresh, h | .str _, level, fresh, h => nests_scalar h trivial level fresh
  | .arr [], level, fresh, h =>
    nests_brackets h id (by rw [encode]) rfl (nests_of_word (by decide))
  | .obj [], level, fresh, h =>
    nests_brackets h id (by rw [encode]) rfl (nests_of_word (by decide))
  | .arr (v :: vs), level, fresh, h => by
    refine nests_brackets h id (by rw [encode]) rfl ?_
    refine (nests_of_white (newline_white indent _)).append ?_
    refine (nests_encode v (level + 1) _ (h.item v List.mem_cons_self)).append ?_
    refine (nests_items vs (level + 1) _ fun w hw => h.item w (List.mem_cons_of_mem v hw)).append ?_
    exact (nests_of_white (newline_white indent _)).append (nests_of_word (by decide))
  | .obj ((key, v) :: pairs), level, fresh, h => by
    refine nests_brackets h id (by rw [encode]) rfl ?_
    refine (nests_of_white (newline_white indent _)).append ?_
    refine (nests_quoted _ key.toList).append ?_
    refine (@nests_of_word t indent _ [':', ' '] (by decide)).append ?_
    refine (nests_encode v (level + 1) _ (h.member (key, v) List.mem_cons_self)).append ?_
    refine (nests_pairs pairs (level + 1) _ fun w hw => h.member w (List.mem_cons_of_mem _ hw)).append ?_
    exact (nests_of_white (newline_white indent _)).append (nests_of_word (by decide))
theorem nests_items : ∀ (vs : List Json) (level : Nat) (fresh : Bool), (∀ v ∈ vs, Printable t v) →
    Nests t indent fresh (encodeItems t indent level vs)
  | [], _, _, _ => nests_of_plain nofun
  | v :: vs, level, fresh, h => by
    rw [encodeItems]
    refine (nests_separator level fresh).append ?_
    refine (nests_encode v level _ (h v List.mem_cons_self)).append ?_
    exact nests_items vs level _ fun w hw => h w (List.mem_cons_of_mem v hw)
theorem nests_pairs : ∀ (pairs : List (String × Json)) (level : Nat) (fresh : Bool),
    (∀ pair ∈ pairs, Printable t pair.2) → Nests t indent fresh (encodePairs t indent level pairs)
  | [], _, _, _ => nests_of_plain nofun
  | (key, v) :: pairs, level, fresh, h => by
    rw [encodePairs]
    refine (nests_separator level fresh).append ?_
    refine (nests_quoted _ key.toList).append ?_
    refine (@nests_of_word t indent _ [':', ' '] (by decide)).append ?_
    refine (nests_encode v level _ (h (key, v) List.mem_cons_self)).append ?_
    exact nests_pairs pairs level _ fun w hw => h w (List.mem_cons_of_mem _ hw)
end

end Inside

/-! ## The law -/

/-- No line in front of the document begins one that reaches into it. -/
def NoneReaches (t : Texts) (text document : Text) : Prop :=
  ∀ s ∈ openings text, document.length < s.length → ∀ w rest, rawDecode t s = .ok (w, rest) →
    document.length ≤ rest.length

/-- No line behind it begins a document. -/
def NoneBehind (t : Texts) (text behind : Text) : Prop :=
  ∀ s ∈ openings text, s.length ≤ behind.length → ∀ w rest, rawDecode t s ≠ .ok (w, rest)

/-- A line inside what is written begins a document that ends in it. -/
theorem ends_inside {t : Texts} {indent : Option Indent} {v : Json} (hv : Printable t v)
    {before after inner : Text} (hline : Text.atLine true before = true)
    (hinner : inner ++ after ∈ openings (before ++ (encode t indent 0 v ++ after)))
    (hsuffix : inner <:+ encode t indent 0 v) (hne : inner ≠ []) :
    ∃ w more, rawDecode t (inner ++ after) = .ok (w, more ++ after) := by
  obtain ⟨front, hfront⟩ := hsuffix
  obtain ⟨hopens, whole, hwhole, hfresh⟩ := mem_openings_iff.mp hinner
  obtain rfl : whole = before ++ front := by
    rw [← hfront, List.append_assoc, ← List.append_assoc before] at hwhole
    exact (List.append_cancel_right hwhole).symm
  rw [atLine_append, hline] at hfresh
  have hbegins : Begins true (encode t indent 0 v) inner := by
    refine ⟨?_, front, hfront.symm, hfresh⟩
    obtain ⟨c, cs, rfl⟩ := List.exists_cons_of_ne_nil hne
    exact hopens
  obtain ⟨written, more, ⟨level, w, hw, hscalar, rfl⟩, rfl⟩ := nests_encode v 0 true hv inner hbegins
  refine ⟨w, more, ?_⟩
  rw [List.append_assoc]
  exact rawDecode_encode indent hw level fun hscalar' => absurd hscalar' hscalar

/-- **The document that was printed is the answer**, whatever is in front of it and behind it, so long
as no line in front begins a document that reaches into it and no line behind begins one. -/
theorem parseLastJson_finds {t : Texts} {indent : Option Indent} {v : Json}
    {printed before after : Text} (hdocument : ¬ IsScalar v) (hfloats : ∀ q ∈ floats v, ReadsFloat t q)
    (hprinted : dumps t indent v = .ok printed) (hline : Text.atLine true before = true)
    (hreadable : Readable t (before ++ (printed ++ after)))
    (hbefore : NoneReaches t (before ++ (printed ++ after)) (printed ++ after))
    (hafter : NoneBehind t (before ++ (printed ++ after)) after) :
    parseLastJson t (before ++ (printed ++ after)) = .ok (some v) := by
  have hv : Printable t v := by
    refine ⟨?_, hfloats⟩
    rw [dumps] at hprinted
    split at hprinted
    · cases hprinted
    · next hlong => exact Bool.not_eq_true _ ▸ hlong
  obtain rfl : encode t indent 0 v = printed := by
    rw [dumps, if_neg (by rw [hv.short]; exact Bool.false_ne_true)] at hprinted
    exact Except.ok.inj hprinted
  obtain ⟨opening, inner, hopening, -, -⟩ := encode_head indent 0 hv
  have hread := @rawDecode_encode t indent v hv 0 after fun hscalar => absurd hscalar hdocument
  have hopens : opens (encode t indent 0 v ++ after) = true := by
    rw [opens, hopening]
    have hscanned := rawDecode_scanned hread
    rw [hopening] at hscanned
    cases v with
    | obj => exact decide_eq_true (.inl hscanned.1)
    | arr => exact decide_eq_true (.inr hscanned.1)
    | _ => exact absurd trivial hdocument
  refine parseLastJson_eq_some.mpr ⟨hreadable, encode t indent 0 v ++ after, ?_, after, hread, ?_⟩
  · exact mem_openings_iff.mpr ⟨hopens, before, rfl, hline⟩
  · intro s hs w rest hw
    have hpos : 0 < (encode t indent 0 v).length := by
      rw [hopening]
      exact Nat.succ_pos _
    rcases lt_or_ge (encode t indent 0 v ++ after).length s.length with hfront | hwithin
    · have hends := hbefore s hs hfront w rest hw
      rw [List.length_append] at hends
      exact .inl (by omega)
    · have hlong : after.length < s.length := by
        by_contra hbehind
        exact hafter s hs (not_lt.mp hbehind) w rest hw
      have hsuffix : s <:+ encode t indent 0 v ++ after :=
        List.suffix_of_suffix_length_le (mem_openings hs).1 (List.suffix_append _ _) hwithin
      obtain ⟨part, rfl⟩ : after <:+ s :=
        List.suffix_of_suffix_length_le (List.suffix_append _ after) hsuffix hlong.le
      have hpart : part <:+ encode t indent 0 v := by
        obtain ⟨front, hfront⟩ := hsuffix
        rw [← List.append_assoc] at hfront
        exact ⟨front, List.append_cancel_right hfront⟩
      have hne : part ≠ [] := by
        rintro rfl
        exact absurd hlong (lt_irrefl _)
      obtain ⟨w', more, hread'⟩ := ends_inside hv hline hs hpart hne
      rw [hread'] at hw
      obtain ⟨-, rfl⟩ := Prod.mk.inj (Except.ok.inj hw)
      rw [List.length_append]
      rcases Nat.eq_zero_or_pos more.length with hnone | hsome
      · exact .inr ⟨by omega, hwithin⟩
      · exact .inl (by omega)

theorem white_twoSpaces : ∀ c ∈ [' ', ' '], isWhite c = true := List.all_eq_true.mp (by decide)

/-- Two spaces a level. -/
def twoSpaces : Indent := ⟨[' ', ' '], white_twoSpaces⟩

/-- Texts in which one float is written, and read, as the interpreter does. -/
def pricedTexts : Texts :=
  { plainTexts with
    ofFloat := fun x => if x = .finite (3 / 2) then "1.5" else plainTexts.ofFloat x
    toFloat := fun s => if s = "1.5" then some (.finite (3 / 2)) else none }

theorem readsFloat_price : ReadsFloat pricedTexts (3 / 2) := by
  refine ⟨⟨[], ['1'], ['.', '5'], [], ⟨.inl rfl, ?_, ?_, .inl rfl⟩, nofun, by decide +kernel⟩,
    by decide +kernel⟩
  · exact .inr ⟨'1', [], rfl, by decide, List.all_eq_true.mp (by decide)⟩
  · exact .inr ⟨'5', [], rfl, List.all_eq_true.mp (by decide)⟩

/-- A report. In front of it stand a log line and an earlier document, and behind it a farewell. -/
def report : Json :=
  .obj [("jobs", .arr [.obj [("id", .str "a"), ("gpus", .int 2)], .obj []]),
    ("price", .float (.finite (3 / 2)))]

def greeting : Text := "[INFO] ready\n\x7b\x22jobs\x22: [1]\x7d\n  ".toList

def farewell : Text := "\n[bye\n".toList

theorem parseLastJson_finds_report : parseLastJson pricedTexts
    (greeting ++ (encode pricedTexts (some twoSpaces) 0 report ++ farewell)) = .ok (some report) := by
  have hrun : ((openings (greeting ++ (encode pricedTexts (some twoSpaces) 0 report ++ farewell))).all
      fun s => match rawDecode pricedTexts s with
        | .ok (_, rest) => farewell.length < s.length ∧
          ((encode pricedTexts (some twoSpaces) 0 report ++ farewell).length < s.length →
            (encode pricedTexts (some twoSpaces) 0 report ++ farewell).length ≤ rest.length)
        | .error error => error ≠ .tooLong) = true := by decide +kernel
  rw [List.all_eq_true] at hrun
  have hfloats : ∀ q ∈ floats report, ReadsFloat pricedTexts q := by
    intro q hq
    obtain rfl : q = 3 / 2 := List.mem_singleton.mp hq
    exact readsFloat_price
  refine @parseLastJson_finds pricedTexts (some twoSpaces) report _ greeting farewell id hfloats ?_ ?_ ?_
    ?_ ?_
  · exact if_neg (by decide +kernel)
  · decide +kernel
  · intro s hs hlong
    have hs := hrun s hs
    rw [hlong] at hs
    exact absurd rfl (of_decide_eq_true hs)
  · intro s hs hfront w rest hread
    have hs := hrun s hs
    rw [hread] at hs
    exact (of_decide_eq_true hs).2 hfront
  · intro s hs hbehind w rest hread
    have hs := hrun s hs
    rw [hread] at hs
    exact absurd (of_decide_eq_true hs).1 (not_lt.mpr hbehind)

end Gpuc.Control.Remote
