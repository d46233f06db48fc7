import Gpuc.Basis.Fallible
import Gpuc.Basis.Text

/-!
# Format strings

`str.format` of a template: braces open and close replacement fields, a brace that is doubled is one.
What a field is replaced by is the parameter `value`, given the text between its braces; where a field
ends is not. A field's text is a name with indexes, a conversion after `!`, and a format after `:`,
which may have fields of its own (`Mark.next`).

The laws: a template formats exactly when it is a sequence of plain characters, doubled braces and
closed fields, and to what those print (`format_eq_ok`). So text with no brace formats to itself
(`format_plain`), and no other text does, as long as what is put for a field has none
(`plain_of_format_self`).
-/

set_option autoImplicit false

namespace Gpuc.Basis

/-- What `str.format` raises, by the class of the exception. -/
inductive FormatError where
  /-- No argument of this name. -/
  | key (name : Text)
  /-- No argument at this position. -/
  | index
  /-- The template is no format string, or a format or conversion is not known. -/
  | value (message : String)
  /-- Anything else, as an attribute the value does not have. -/
  | other
  deriving DecidableEq

namespace Format

/-- Where in a replacement field a character stands. -/
inductive Mark where
  | name
  /-- Between the brackets of an index. -/
  | bracket
  /-- After the `!`. -/
  | conversion
  /-- After the conversion. -/
  | converted
  /-- In the format, inside this many braces of its own. -/
  | spec (depth : Nat)
  deriving DecidableEq

/-- What the next character of a field does: it ends the field, or leaves another mark. -/
inductive Step where
  | ends
  | goes (mark : Mark)
  | fails (message : String)
  deriving DecidableEq

/-- **One character of a replacement field.** -/
def Mark.next : Mark → Char → Step
  | .name, '}' => .ends
  | .name, ':' => .goes (.spec 0)
  | .name, '!' => .goes .conversion
  | .name, '[' => .goes .bracket
  | .name, '{' => .fails "unexpected '\x7b' in field name"
  | .name, _ => .goes .name
  | .bracket, ']' => .goes .name
  | .bracket, _ => .goes .bracket
  | .conversion, _ => .goes .converted
  | .converted, '}' => .ends
  | .converted, ':' => .goes (.spec 0)
  | .converted, _ => .fails "expected ':' after conversion specifier"
  | .spec 0, '}' => .ends
  | .spec (depth + 1), '}' => .goes (.spec depth)
  | .spec depth, '{' => .goes (.spec (depth + 1))
  | .spec depth, _ => .goes (.spec depth)

/-- What is missing when the template ends inside a field. -/
def Mark.unclosed : Mark → String
  | .name | .bracket => "expected '\x7d' before end of string"
  | .conversion => "end of string while looking for conversion specifier"
  | .converted | .spec _ => "unmatched '\x7b' in format spec"

variable (value : Text → Except FormatError Text)

/-- The template from here on: outside any field, or inside one whose text so far is given, last
character first. -/
def scan : Option (Mark × Text) → Text → Except FormatError Text
  | none, [] => .ok []
  | none, '{' :: '{' :: cs => do
    let rest ← scan none cs
    return '{' :: rest
  | none, '}' :: '}' :: cs => do
    let rest ← scan none cs
    return '}' :: rest
  | none, ['{'] => .error (.value "Single '\x7b' encountered in format string")
  | none, '{' :: cs => scan (some (.name, [])) cs
  | none, '}' :: _ => .error (.value "Single '\x7d' encountered in format string")
  | none, c :: cs => do
    let rest ← scan none cs
    return c :: rest
  | some (mark, _), [] => .error (.value mark.unclosed)
  | some (mark, text), c :: cs =>
    match mark.next c with
    | .ends => do
      let printed ← value text.reverse
      let rest ← scan none cs
      return printed ++ rest
    | .goes mark => scan (some (mark, c :: text)) cs
    | .fails message => .error (.value message)

end Format

/-- **`template.format(...)`**, with what a field is replaced by as a function of its text. -/
def format (value : Text → Except FormatError Text) (template : Text) : Except FormatError Text :=
  Format.scan value none template

namespace Format

/-! ## What a template is made of -/

/-- A brace of either kind. -/
def isBrace (c : Char) : Bool := c = '{' || c = '}'

/-- A plain character, a doubled brace, or a replacement field. -/
inductive Piece where
  | char (c : Char)
  | doubled (c : Char)
  | field (text : Text)

/-- The mark a field's text leaves, if it stays inside the field. -/
def through : Mark → Text → Option Mark
  | mark, [] => some mark
  | mark, c :: cs =>
    match mark.next c with
    | .goes mark => through mark cs
    | .ends | .fails _ => none

/-- The next closing brace after the text ends the field, and none before it does. -/
def Closed (mark : Mark) (text : Text) : Prop :=
  ∃ last, through mark text = some last ∧ last.next '}' = .ends

namespace Piece

def Lawful : Piece → Prop
  | .char c => isBrace c = false
  | .doubled c => isBrace c = true
  | .field text => Closed .name text

def written : Piece → Text
  | .char c => [c]
  | .doubled c => [c, c]
  | .field text => '{' :: text ++ ['}']

def printed (value : Text → Except FormatError Text) : Piece → Except FormatError Text
  | .char c | .doubled c => .ok [c]
  | .field text => value text

end Piece

/-- **The template is these pieces, and they print this.** -/
inductive Reads (value : Text → Except FormatError Text) : List Piece → Text → Text → Prop where
  | nil : Reads value [] [] []
  | cons {p : Piece} {ps : List Piece} {template printed rest : Text} (hlawful : p.Lawful)
    (hprinted : p.printed value = .ok printed) (hrest : Reads value ps template rest) :
    Reads value (p :: ps) (p.written ++ template) (printed ++ rest)

variable {value : Text → Except FormatError Text}

/-- What a scan that succeeds has read: pieces outside a field, the rest of the field and then pieces
inside one. -/
def Read (value : Text → Except FormatError Text) (out : Text) :
    Option (Mark × Text) → Text → Prop
  | none, cs => ∃ ps, Reads value ps cs out
  | some (mark, text), cs => ∃ more template ps printed rest,
      cs = more ++ '}' :: template ∧ Closed mark more ∧ value (text.reverse ++ more) = .ok printed ∧
        Reads value ps template rest ∧ out = printed ++ rest

theorem eq_of_ends {mark : Mark} {c : Char} (h : mark.next c = .ends) : c = '}' := by
  unfold Mark.next at h
  split at h <;> first | rfl | cases h

theorem read_of_scan {within : Option (Mark × Text)} {cs out : Text}
    (h : scan value within cs = .ok out) : Read value out within cs := by
  fun_induction scan value within cs generalizing out with
  | case1 =>
    obtain rfl := Except.ok.inj h
    exact ⟨[], .nil⟩
  | case2 cs ih =>
    obtain ⟨rest, hrest, hout⟩ := bind_eq_ok h
    obtain rfl := Except.ok.inj hout
    obtain ⟨ps, hps⟩ := ih hrest
    exact ⟨.doubled '{' :: ps, .cons (p := .doubled '{') rfl rfl hps⟩
  | case3 cs ih =>
    obtain ⟨rest, hrest, hout⟩ := bind_eq_ok h
    obtain rfl := Except.ok.inj hout
    obtain ⟨ps, hps⟩ := ih hrest
    exact ⟨.doubled '}' :: ps, .cons (p := .doubled '}') rfl rfl hps⟩
  | case4 => cases h
  | case5 cs hdoubled hlast ih =>
    obtain ⟨more, template, ps, printed, rest, rfl, hclosed, hvalue, hps, rfl⟩ := ih h
    refine ⟨.field more :: ps, ?_⟩
    have hreads := Reads.cons (p := .field more) hclosed hvalue hps
    simpa [Piece.written] using hreads
  | case6 => cases h
  | case7 c cs hopen hclose hlast hopened hclosed ih =>
    obtain ⟨rest, hrest, hout⟩ := bind_eq_ok h
    obtain rfl := Except.ok.inj hout
    obtain ⟨ps, hps⟩ := ih hrest
    refine ⟨.char c :: ps, .cons (p := .char c) ?_ rfl hps⟩
    have hplain : c ≠ '{' ∧ c ≠ '}' := ⟨hopened, hclosed⟩
    simp [Piece.Lawful, isBrace, hplain]
  | case8 => cases h
  | case9 mark text c cs hends ih =>
    obtain ⟨printed, hvalue, h⟩ := bind_eq_ok h
    obtain ⟨rest, hrest, hout⟩ := bind_eq_ok h
    obtain rfl := Except.ok.inj hout
    obtain rfl := eq_of_ends hends
    obtain ⟨ps, hps⟩ := ih hrest
    exact ⟨[], cs, ps, printed, rest, rfl, ⟨mark, rfl, hends⟩, by rwa [List.append_nil], hps, rfl⟩
  | case10 mark text c cs later hgoes ih =>
    obtain ⟨more, template, ps, printed, rest, rfl, ⟨last, hlast, hends⟩, hvalue, hps, rfl⟩ := ih h
    refine ⟨c :: more, template, ps, printed, rest, rfl, ⟨last, ?_, hends⟩, ?_, hps, rfl⟩
    · rw [through, hgoes]
      exact hlast
    · rwa [List.reverse_cons, List.append_assoc, List.singleton_append] at hvalue
  | case11 => cases h

/-- A plain character stands for itself. -/
theorem scan_char {c : Char} (hopen : c ≠ '{') (hclose : c ≠ '}') (cs : Text) :
    scan value none (c :: cs) = do
      let rest ← scan value none cs
      return c :: rest := by
  rw [scan]
  · rintro cs rfl
    exact absurd rfl hopen
  · rintro cs rfl
    exact absurd rfl hclose
  · rintro rfl
    exact absurd rfl hopen
  · rintro rfl
    exact absurd rfl hopen
  · rintro rfl
    exact absurd rfl hclose

/-- A brace that is not doubled opens a field. -/
theorem scan_open {text template : Text} (h : Closed .name text) :
    scan value none ('{' :: (text ++ '}' :: template))
      = scan value (some (.name, [])) (text ++ '}' :: template) := by
  cases text with
  | nil => rfl
  | cons c text =>
    have hc : c ≠ '{' := by
      rintro rfl
      obtain ⟨last, hlast, -⟩ := h
      cases hlast
    rw [List.cons_append, scan]
    · rintro cs hcs
      exact absurd (List.cons.inj hcs).1 hc
    · rintro ⟨⟩

/-- Inside a field, its text is read to the brace that closes it. -/
theorem scan_closed {mark : Mark} {more : Text} (h : Closed mark more) (text template : Text) :
    scan value (some (mark, text)) (more ++ '}' :: template)
      = do
        let printed ← value (text.reverse ++ more)
        let rest ← scan value none template
        return printed ++ rest := by
  obtain ⟨last, hthrough, hends⟩ := h
  induction more generalizing mark text with
  | nil =>
    obtain rfl := Option.some.inj hthrough
    simp [scan, hends]
  | cons c more ih =>
    rw [through] at hthrough
    split at hthrough
    · next later hgoes =>
      rw [List.cons_append, scan, hgoes]
      simpa using ih (c :: text) hthrough
    · cases hthrough
    · cases hthrough

/-- **A template formats exactly when it is made of lawful pieces**, to what they print. -/
theorem format_eq_ok {template out : Text} :
    format value template = .ok out ↔ ∃ ps, Reads value ps template out := by
  refine ⟨@read_of_scan value none template out, ?_⟩
  rintro ⟨ps, h⟩
  unfold format
  induction h with
  | nil => rfl
  | @cons p ps template printed rest hlawful hprinted _ ih =>
    cases p with
    | char c =>
      obtain rfl := Except.ok.inj hprinted
      have hplain : c ≠ '{' ∧ c ≠ '}' := by simpa [Piece.Lawful, isBrace] using hlawful
      rw [Piece.written, List.singleton_append, scan_char hplain.1 hplain.2, ih]
      rfl
    | doubled c =>
      obtain rfl := Except.ok.inj hprinted
      have hbrace : c = '{' ∨ c = '}' := by simpa [Piece.Lawful, isBrace] using hlawful
      rcases hbrace with rfl | rfl
      · simp [Piece.written, scan, ih]
      · simp [Piece.written, scan, ih]
    | field text =>
      have hvalue : value text = .ok printed := hprinted
      have hwritten : Piece.written (.field text) ++ template = '{' :: (text ++ '}' :: template) := by
        simp [Piece.written]
      rw [hwritten, scan_open hlawful, scan_closed hlawful, List.reverse_nil, List.nil_append, hvalue,
        ih]
      rfl

/-! ## Formatting what has been formatted -/

/-- How many braces there are. -/
def braces (text : Text) : Nat := text.countP isBrace

/-- No brace of either kind. -/
def Plain (text : Text) : Prop := ∀ c ∈ text, isBrace c = false

instance (text : Text) : Decidable (Plain text) := inferInstanceAs (Decidable (∀ c ∈ text, _))

theorem plain_iff {text : Text} : Plain text ↔ braces text = 0 := by
  simp [Plain, braces, List.countP_eq_zero]

/-- **Text with no brace formats to itself.** -/
theorem format_plain {text : Text} (h : Plain text) : format value text = .ok text := by
  refine format_eq_ok.mpr ⟨text.map .char, ?_⟩
  induction text with
  | nil => exact .nil
  | cons c text ih =>
    obtain ⟨hc, htext⟩ := List.forall_mem_cons.mp h
    exact .cons (p := .char c) hc rfl (ih htext)

/-- **Formatting halves the braces**, where what is put for a field has none. -/
theorem Reads.braces_le {ps : List Piece} {template out : Text} (h : Reads value ps template out)
    (hplain : ∀ text, .field text ∈ ps → ∀ printed, value text = .ok printed → Plain printed) :
    2 * braces out ≤ braces template := by
  induction h with
  | nil => exact le_refl 0
  | @cons p ps template printed rest hlawful hprinted _ ih =>
    have hrest := ih fun text htext => hplain text (List.mem_cons_of_mem _ htext)
    have hpiece : 2 * braces printed ≤ braces p.written := by
      cases p with
      | char c =>
        obtain rfl := Except.ok.inj hprinted
        have hc : isBrace c = false := hlawful
        simp [braces, Piece.written, hc]
      | doubled c =>
        obtain rfl := Except.ok.inj hprinted
        have hc : isBrace c = true := hlawful
        simp [braces, Piece.written, hc]
      | field text =>
        have hnone := plain_iff.mp (hplain text List.mem_cons_self printed hprinted)
        omega
    simp only [braces, List.countP_append] at hrest hpiece ⊢
    omega

/-- Each piece stands in the template. -/
theorem Reads.written_mem {ps : List Piece} {template out : Text} (h : Reads value ps template out)
    {p : Piece} (hp : p ∈ ps) : p.written <:+: template := by
  induction h with
  | nil => exact absurd hp List.not_mem_nil
  | cons hlawful hprinted _ ih =>
    rcases List.mem_cons.mp hp with rfl | hp
    · exact (List.prefix_append _ _).isInfix
    · exact (ih hp).trans (List.suffix_append _ _).isInfix

/-- **Text that formats to itself has no brace**, where what is put for its fields has none. -/
theorem plain_of_format_self {text : Text} (h : format value text = .ok text)
    (hplain : ∀ field, ('{' :: field ++ ['}']) <:+: text → ∀ printed, value field = .ok printed →
      Plain printed) : Plain text := by
  obtain ⟨ps, hreads⟩ := format_eq_ok.mp h
  have hle := hreads.braces_le fun field hfield printed hprinted =>
    hplain field (hreads.written_mem hfield) printed hprinted
  rw [plain_iff]
  omega

/-! ## Templates by their pieces -/

/-- The template is lawful pieces, and each of its fields has a value. -/
def Template (value : Text → Except FormatError Text) (template : Text) : Prop :=
  ∃ ps : List Piece, template = ps.flatMap Piece.written ∧
    ∀ p ∈ ps, p.Lawful ∧ ∃ printed, p.printed value = .ok printed

/-- The template has no doubled brace, and no field that prints a brace. -/
def Unbraced (value : Text → Except FormatError Text) (template : Text) : Prop :=
  ∃ ps : List Piece, template = ps.flatMap Piece.written ∧
    ∀ p ∈ ps, p.Lawful ∧ (∀ c, p ≠ .doubled c) ∧
      ∃ printed, p.printed value = .ok printed ∧ Plain printed

theorem Reads.written {ps : List Piece} {template out : Text} (h : Reads value ps template out) :
    template = ps.flatMap Piece.written := by
  induction h with
  | nil => rfl
  | cons _ _ _ ih => rw [List.flatMap_cons, ← ih]

theorem Reads.mem {ps : List Piece} {template out : Text} (h : Reads value ps template out)
    {p : Piece} (hp : p ∈ ps) : p.Lawful ∧ ∃ printed, p.printed value = .ok printed ∧
      ∀ c ∈ printed, c ∈ out := by
  induction h with
  | nil => exact absurd hp List.not_mem_nil
  | cons hlawful hprinted _ ih =>
    rcases List.mem_cons.mp hp with rfl | hp
    · exact ⟨hlawful, _, hprinted, fun c hc => List.mem_append_left _ hc⟩
    · obtain ⟨hlawful, printed, hprinted, hsub⟩ := ih hp
      exact ⟨hlawful, printed, hprinted, fun c hc => List.mem_append_right _ (hsub c hc)⟩

/-- Lawful pieces whose fields have values read as what those print. -/
theorem exists_reads (P : Text → Prop) (hnil : P []) (happend : ∀ a b, P a → P b → P (a ++ b))
    {ps : List Piece}
    (h : ∀ p ∈ ps, p.Lawful ∧ ∃ printed, p.printed value = .ok printed ∧ P printed) :
    ∃ out, Reads value ps (ps.flatMap Piece.written) out ∧ P out := by
  induction ps with
  | nil => exact ⟨[], .nil, hnil⟩
  | cons p ps ih =>
    obtain ⟨⟨hlawful, printed, hprinted, hp⟩, hps⟩ := List.forall_mem_cons.mp h
    obtain ⟨out, hreads, hout⟩ := ih hps
    exact ⟨printed ++ out, .cons hlawful hprinted hreads, happend _ _ hp hout⟩

/-- **A template formats exactly when its pieces are lawful and its fields have values.** -/
theorem exists_format {template : Text} :
    (∃ out, format value template = .ok out) ↔ Template value template := by
  constructor
  · rintro ⟨out, h⟩
    obtain ⟨ps, hreads⟩ := format_eq_ok.mp h
    refine ⟨ps, hreads.written, fun p hp => ?_⟩
    obtain ⟨hlawful, printed, hprinted, -⟩ := hreads.mem hp
    exact ⟨hlawful, printed, hprinted⟩
  · rintro ⟨ps, rfl, hps⟩
    obtain ⟨out, hreads, -⟩ := exists_reads (fun _ => True) trivial (fun _ _ _ _ => trivial)
      fun p hp => ⟨(hps p hp).1, (hps p hp).2.imp fun _ h => ⟨h, trivial⟩⟩
    exact ⟨out, format_eq_ok.mpr ⟨ps, hreads⟩⟩

/-- **What a template formats to has no brace** exactly when none of its pieces prints one. -/
theorem plain_iff_unbraced {template out : Text} (h : format value template = .ok out) :
    Plain out ↔ Unbraced value template := by
  constructor
  · intro hplain
    obtain ⟨ps, hreads⟩ := format_eq_ok.mp h
    refine ⟨ps, hreads.written, fun p hp => ?_⟩
    obtain ⟨hlawful, printed, hprinted, hsub⟩ := hreads.mem hp
    have hprintedPlain : Plain printed := fun c hc => hplain c (hsub c hc)
    refine ⟨hlawful, ?_, printed, hprinted, hprintedPlain⟩
    rintro c rfl
    obtain rfl := Except.ok.inj hprinted
    have hbrace : isBrace c = true := hlawful
    rw [hprintedPlain c (List.mem_singleton_self c)] at hbrace
    cases hbrace
  · rintro ⟨ps, rfl, hps⟩
    obtain ⟨out', hreads, hout⟩ := exists_reads Plain (by simp [Plain])
      (fun a b ha hb c hc => (List.mem_append.mp hc).elim (ha c) (hb c))
      fun p hp => ⟨(hps p hp).1, (hps p hp).2.2⟩
    rw [format_eq_ok.mpr ⟨ps, hreads⟩] at h
    rwa [← Except.ok.inj h]

end Format

end Gpuc.Basis
