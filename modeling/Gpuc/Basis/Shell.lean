import Mathlib.Data.List.Forall2
import Gpuc.Basis.Text

/-!
# One command line, as a POSIX shell reads it

`read` is what a shell makes of a line that is one simple command: the variables it assigns first, and
the words after. It is partial: an operator, a pattern, a command substitution or an open quote is not
read here. Inside double quotes a variable stands for its value.

`quote` writes one word. What is written for any list of words is read back as these words
(`read_join`), and by a shell that is given the line as one word of another (`read_quote`).
-/

set_option autoImplicit false

namespace Gpuc.Basis.Shell

/-- A letter or the underscore, of ASCII. -/
def startsName (c : Char) : Bool := c.isAlpha || c = '_'

def inName (c : Char) : Bool := c.isAlphanum || c = '_'

def isName : Text → Bool
  | [] => false
  | c :: cs => startsName c && cs.all inName

/-- What a word may have in it without a quote: nothing here is an operator, a pattern, a quote or an
expansion anywhere in a word. -/
def isPlain (c : Char) : Bool := c.isAlphanum || "_@%+=:,./-".toList.contains c

/-- A word as far as it is read. -/
structure Word where
  text : Text := []
  /-- All of it so far stands without a quote. -/
  bare : Bool := true
  /-- The variable it assigns. -/
  assigns : Option Text := none
  deriving DecidableEq

/-- A character that stands without a quote: the first `=` after a name is an assignment's. -/
def Word.takes (word : Word) (c : Char) : Word :=
  if c = '=' ∧ word.bare = true ∧ word.assigns = none ∧ isName word.text = true then
    { word with text := [], assigns := some word.text }
  else { word with text := word.text ++ [c] }

/-- Text that does not. -/
def Word.holds (word : Word) (text : Text) : Word :=
  { word with text := word.text ++ text, bare := false }

inductive Mode where
  | between
  | bare (word : Word)
  /-- After a backslash. -/
  | escaped (word : Word)
  | single (word : Word)
  | double (word : Word)
  | doubleEscaped (word : Word)
  /-- After a dollar sign in double quotes, with the name so far. -/
  | dollar (word : Word) (name : Text)
  deriving DecidableEq

structure State where
  words : List Word := []
  mode : Mode := .between
  deriving DecidableEq

section Reading
variable (env : Text → Text)

/-- One character in a word without quotes. -/
def State.bare (s : State) (word : Word) (c : Char) : Option State :=
  if c = ' ' ∨ c = '\t' then some { words := s.words ++ [word], mode := .between }
  else if c = '\'' then some { s with mode := .single (word.holds []) }
  else if c = '\x22' then some { s with mode := .double (word.holds []) }
  else if c = '\\' then some { s with mode := .escaped word }
  else if isPlain c then some { s with mode := .bare (word.takes c) }
  else none

/-- One character in double quotes. -/
def State.double (s : State) (word : Word) (c : Char) : Option State :=
  if c = '\x22' then some { s with mode := .bare word }
  else if c = '\\' then some { s with mode := .doubleEscaped word }
  else if c = '$' then some { s with mode := .dollar word [] }
  else if c = '\x60' then none
  else some { s with mode := .double (word.holds [c]) }

def State.step (s : State) (c : Char) : Option State :=
  match s.mode with
  | .between => if c = ' ' ∨ c = '\t' then some s else s.bare {} c
  | .bare word => s.bare word c
  | .escaped word => if c = '\n' then none else some { s with mode := .bare (word.holds [c]) }
  | .single word =>
    if c = '\'' then some { s with mode := .bare word } else some { s with mode := .single (word.holds [c]) }
  | .double word => s.double word c
  | .doubleEscaped word =>
    if c = '$' ∨ c = '\x60' ∨ c = '\x22' ∨ c = '\\' then some { s with mode := .double (word.holds [c]) }
    else if c = '\n' then some { s with mode := .double word }
    else some { s with mode := .double (word.holds ['\\', c]) }
  | .dollar word name =>
    if name = [] then if startsName c then some { s with mode := .dollar word [c] } else none
    else if inName c then some { s with mode := .dollar word (name ++ [c]) }
    else s.double (word.holds (env name)) c

def State.finish (s : State) : Option (List Word) :=
  match s.mode with
  | .between => some s.words
  | .bare word => some (s.words ++ [word])
  | .escaped _ | .single _ | .double _ | .doubleEscaped _ | .dollar _ _ => none

/-- The word as an argument. -/
def Word.whole (word : Word) : Text := word.assigns.elim word.text (· ++ '=' :: word.text)

/-- **A simple command**: what it assigns, and the words after. -/
structure Command where
  assignments : List (Text × Text)
  argv : List Text
  deriving DecidableEq

/-- The words that assign come first; a later one is an argument like any other. -/
def command : List Word → Command
  | [] => ⟨[], []⟩
  | word :: words =>
    match word.assigns with
    | some name =>
      let rest := command words
      { rest with assignments := (name, word.text) :: rest.assignments }
    | none => ⟨[], (word :: words).map Word.whole⟩

/-- The words that begin another kind of command, where they come first and stand without a quote. -/
def reserved : List Text :=
  ["if", "then", "else", "elif", "fi", "do", "done", "case", "esac", "while", "until", "for", "in",
    "select", "function", "time", "coproc"].map String.toList

def isReserved (words : List Word) : Bool :=
  match words with
  | [] => false
  | word :: _ => word.bare && reserved.contains word.whole

def readWords (s : State) (line : Text) : Option State := line.foldlM (State.step env) s

/-- **What the shell makes of a line.** -/
def read (line : Text) : Option Command :=
  ((readWords env {} line).bind State.finish).bind fun words =>
    if isReserved words then none else some (command words)

end Reading

/-! ## Writing -/

/-- `shlex.quote`. -/
def quote (s : Text) : Text :=
  if s = [] then "''".toList
  else if s.all isPlain then s
  else '\'' :: (s.flatMap fun c => if c = '\'' then "'\x22'\x22'".toList else [c]) ++ ['\'']

/-- `" ".join`. -/
def spaced (pieces : List Text) : Text := List.intercalate [' '] pieces

/-- `shlex.join`. -/
def join (words : List Text) : Text := spaced (words.map quote)

/-- A text in double quotes, as it is. -/
def inDouble (s : Text) : Text := '\x22' :: s ++ ['\x22']

/-- What a variable's assignment is written as. -/
def assignment (name value : Text) : Text := name ++ '=' :: inDouble value

/-! ## One piece of a line -/

variable {env : Text → Text}

@[simp] theorem whole_takes (word : Word) (c : Char) : (word.takes c).whole = word.whole ++ [c] := by
  unfold Word.takes
  split
  · next h =>
    obtain ⟨rfl, _, hassigns, _⟩ := h
    simp [Word.whole, hassigns]
  · cases hassigns : word.assigns <;> simp [Word.whole, hassigns]

@[simp] theorem whole_holds (word : Word) (text : Text) : (word.holds text).whole = word.whole ++ text := by
  cases hassigns : word.assigns <;> simp [Word.holds, Word.whole, hassigns]

theorem readWords_cons (s : State) (c : Char) (line : Text) :
    readWords env s (c :: line) = (s.step env c).bind fun s => readWords env s line := rfl

theorem readWords_append (s : State) (line more : Text) :
    readWords env s (line ++ more) = (readWords env s line).bind fun s => readWords env s more :=
  List.foldlM_append

variable (env) in
/-- **A piece of a line that is read as one word.** -/
def Reads (piece : Text) (word : Word) : Prop :=
  ∀ words, readWords env ⟨words, .between⟩ piece = some ⟨words, .bare word⟩

theorem isPlain_facts {c : Char} (h : isPlain c = true) :
    c ≠ ' ' ∧ c ≠ '\t' ∧ c ≠ '\'' ∧ c ≠ '\x22' ∧ c ≠ '\\' := by
  refine ⟨?_, ?_, ?_, ?_, ?_⟩
  all_goals
    rintro rfl
    exact absurd h (by decide)

/-- Plain text goes on with a word. -/
theorem readWords_plain {s : Text} (h : ∀ c ∈ s, isPlain c = true) (words : List Word) (word : Word) :
    readWords env ⟨words, .bare word⟩ s = some ⟨words, .bare (s.foldl Word.takes word)⟩ := by
  induction s generalizing word with
  | nil => rfl
  | cons c s ih =>
    obtain ⟨hspace, htab, hsingle, hdouble, hback⟩ := isPlain_facts (h c List.mem_cons_self)
    have hstep : State.step env ⟨words, .bare word⟩ c = some ⟨words, .bare (word.takes c)⟩ := by
      simp [State.step, State.bare, hspace, htab, hsingle, hdouble, hback, h c List.mem_cons_self]
    rw [readWords_cons, hstep]
    exact ih (fun c hc => h c (List.mem_cons_of_mem _ hc)) _

/-- And begins one. -/
theorem reads_plain {s : Text} (hs : s ≠ []) (h : ∀ c ∈ s, isPlain c = true) :
    Reads env s (s.foldl Word.takes {}) := by
  intro words
  cases s with
  | nil => exact absurd rfl hs
  | cons c s =>
    obtain ⟨hspace, htab, hsingle, hdouble, hback⟩ := isPlain_facts (h c List.mem_cons_self)
    have hstep : State.step env ⟨words, .between⟩ c = some ⟨words, .bare (Word.takes {} c)⟩ := by
      simp [State.step, State.bare, hspace, htab, hsingle, hdouble, hback, h c List.mem_cons_self]
    rw [readWords_cons, hstep]
    exact readWords_plain (fun c hc => h c (List.mem_cons_of_mem _ hc)) _ _

theorem whole_foldl_takes (s : Text) (word : Word) : (s.foldl Word.takes word).whole = word.whole ++ s := by
  induction s generalizing word with
  | nil => simp
  | cons c s ih => rw [List.foldl_cons, ih, whole_takes, List.append_assoc, List.singleton_append]

/-- What stands in single quotes, with each single quote taken out of them. -/
theorem readWords_single (s : Text) (word : Word) :
    ∃ after : Word, after.whole = word.whole ++ s ∧ ∀ words, readWords env ⟨words, .single word⟩
      (s.flatMap (fun c => if c = '\'' then "'\x22'\x22'".toList else [c]) ++ ['\'']) =
        some ⟨words, .bare after⟩ := by
  induction s generalizing word with
  | nil => exact ⟨word, by simp, fun _ => rfl⟩
  | cons c s ih =>
    simp only [List.flatMap_cons, List.append_assoc]
    by_cases hc : c = '\''
    · -- Out of the single quotes, in double quotes, and into single quotes again.
      subst hc
      obtain ⟨after, hwhole, hread⟩ := ih (((word.holds []).holds ['\'']).holds [])
      refine ⟨after, by simpa using hwhole, fun words => ?_⟩
      rw [if_pos rfl, readWords_append]
      exact hread words
    · obtain ⟨after, hwhole, hread⟩ := ih (word.holds [c])
      refine ⟨after, by simpa using hwhole, fun words => ?_⟩
      have hstep : readWords env ⟨words, .single word⟩ [c] = some ⟨words, .single (word.holds [c])⟩ := by
        simp [readWords, State.step, hc]
      rw [if_neg hc, readWords_append, hstep]
      exact hread words

/-- **What is quoted is read as one word, and is that.** -/
theorem reads_quote (s : Text) : ∃ word : Word, word.whole = s ∧ Reads env (quote s) word := by
  unfold quote
  split
  · next hs => exact ⟨⟨[], false, none⟩, hs.symm, fun words => rfl⟩
  · next hs =>
    split
    · next hplain =>
      exact ⟨_, by rw [whole_foldl_takes]; rfl, reads_plain hs (List.all_eq_true.mp hplain)⟩
    · obtain ⟨after, hwhole, hread⟩ := readWords_single s (Word.holds {} [])
      refine ⟨after, hwhole, fun words => ?_⟩
      rw [List.cons_append, readWords_cons]
      exact hread words

/-- A character that means itself in double quotes. -/
def isLiteral (c : Char) : Bool := c != '\x22' && c != '\\' && c != '$' && c != '\x60'

/-- Text of such characters. -/
def Literal (s : Text) : Prop := s.all isLiteral = true

theorem readWords_double {s : Text} (h : Literal s) (words : List Word) (word : Word)
    (hword : word.bare = false) :
    readWords env ⟨words, .double word⟩ (s ++ ['\x22']) =
      some ⟨words, .bare { word with text := word.text ++ s }⟩ := by
  induction s generalizing word with
  | nil => rw [List.append_nil]; rfl
  | cons c s ih =>
    rw [Literal, List.all_cons, Bool.and_eq_true] at h
    have hc := h.1
    simp only [isLiteral, Bool.and_eq_true, bne_iff_ne] at hc
    obtain ⟨⟨⟨hdouble, hback⟩, hdollar⟩, htick⟩ := hc
    have hstep : State.step env ⟨words, .double word⟩ c = some ⟨words, .double (word.holds [c])⟩ := by
      simp [State.step, State.double, hdouble, hback, hdollar, htick]
    rw [List.cons_append, readWords_cons, hstep]
    refine (ih h.2 _ rfl).trans ?_
    simp [Word.holds, hword]

variable (env) in
/-- What a text means in double quotes: itself, or where it begins with a variable, that variable's value
and the rest. -/
inductive Means : Text → Text → Prop
  | literal {s : Text} (h : Literal s) : Means s s
  | named {name rest : Text} (hname : isName name = true) (hrest : Literal rest)
      (hends : rest.head?.any inName = false) : Means ('$' :: (name ++ rest)) (env name ++ rest)

theorem isName_facts {name : Text} (h : isName name = true) :
    name ≠ [] ∧ ∀ c ∈ name, inName c = true ∧ isPlain c = true ∧ c ≠ '=' := by
  cases name with
  | nil => cases h
  | cons c cs =>
    have hall : ∀ d ∈ c :: cs, inName d = true := by
      rw [isName, Bool.and_eq_true] at h
      rintro d (_ | ⟨_, hd⟩)
      · have hstart := h.1
        simp only [startsName, inName, Bool.or_eq_true, Char.isAlphanum] at hstart ⊢
        exact hstart.imp_left .inl
      · exact List.all_eq_true.mp h.2 d hd
    refine ⟨List.cons_ne_nil _ _, fun d hd => ⟨hall d hd, ?_, fun heq => ?_⟩⟩
    · have hin := hall d hd
      simp only [inName, Bool.or_eq_true, decide_eq_true_eq] at hin
      obtain hin | rfl := hin
      · simp [isPlain, hin]
      · decide
    · exact absurd (heq ▸ hall d hd) (by decide)

/-- A name behind a dollar sign is read to its end. -/
theorem readWords_name {name : Text} (h : isName name = true) (words : List Word) (word : Word) :
    readWords env ⟨words, .dollar word []⟩ name = some ⟨words, .dollar word name⟩ := by
  cases name with
  | nil => cases h
  | cons c cs =>
    have hgoes : ∀ (cs before : Text), before ≠ [] → (∀ d ∈ cs, inName d = true) →
        readWords env ⟨words, .dollar word before⟩ cs = some ⟨words, .dollar word (before ++ cs)⟩ := by
      intro cs
      induction cs with
      | nil => intro before _ _; rw [List.append_nil]; rfl
      | cons d cs ih =>
        intro before hbefore hcs
        have hstep : State.step env ⟨words, .dollar word before⟩ d =
            some ⟨words, .dollar word (before ++ [d])⟩ := by
          simp [State.step, hbefore, hcs d List.mem_cons_self]
        rw [readWords_cons, hstep, Option.bind_some,
          ih _ (by simp) fun d hd => hcs d (List.mem_cons_of_mem _ hd),
          List.append_assoc, List.singleton_append]
    rw [isName, Bool.and_eq_true] at h
    have hstep : State.step env ⟨words, .dollar word []⟩ c = some ⟨words, .dollar word [c]⟩ := by
      simp [State.step, h.1]
    rw [readWords_cons, hstep]
    exact hgoes cs [c] (List.cons_ne_nil _ _) (List.all_eq_true.mp h.2)

theorem readWords_means {s value : Text} (h : Means env s value) (words : List Word) (word : Word)
    (hword : word.bare = false) :
    readWords env ⟨words, .double word⟩ (s ++ ['\x22']) =
      some ⟨words, .bare { word with text := word.text ++ value }⟩ := by
  cases h with
  | literal h => exact readWords_double h words word hword
  | @named name rest hname hrest hends =>
    have hnil := (isName_facts hname).1
    -- The first character behind the name is read as one in double quotes.
    obtain ⟨c, cs, hcons, hc⟩ : ∃ c cs, rest ++ ['\x22'] = c :: cs ∧ inName c = false := by
      cases rest with
      | nil => exact ⟨_, _, rfl, by decide⟩
      | cons c cs => exact ⟨c, cs ++ ['\x22'], rfl, hends⟩
    have hstep : State.step env ⟨words, .dollar word name⟩ c =
        State.step env ⟨words, .double (word.holds (env name))⟩ c := by
      simp [State.step, hnil, hc, State.double]
    have hvalue : readWords env ⟨words, .double (word.holds (env name))⟩ (rest ++ ['\x22']) = _ :=
      readWords_double hrest words (word.holds (env name)) rfl
    rw [hcons, readWords_cons, ← hstep, ← readWords_cons, ← hcons] at hvalue
    rw [List.cons_append, List.append_assoc, readWords_cons]
    refine (readWords_append _ _ _).trans ?_
    rw [readWords_name hname, Option.bind_some, hvalue]
    simp [Word.holds, hword]

theorem reads_inDouble {s value : Text} (h : Means env s value) :
    Reads env (inDouble s) ⟨value, false, none⟩ := by
  intro words
  rw [inDouble, List.cons_append, readWords_cons]
  exact readWords_means h words (Word.holds {} []) rfl

theorem foldl_takes {s : Text} (h : ∀ c ∈ s, c ≠ '=') (word : Word) :
    s.foldl Word.takes word = { word with text := word.text ++ s } := by
  induction s generalizing word with
  | nil => simp
  | cons c s ih =>
    have hc : word.takes c = { word with text := word.text ++ [c] } := by
      rw [Word.takes, if_neg fun hassigns => h c List.mem_cons_self hassigns.1]
    rw [List.foldl_cons, hc, ih fun c hc => h c (List.mem_cons_of_mem _ hc)]
    simp

/-- What a variable is assigned. -/
theorem reads_assignment {name text value : Text} (hname : isName name = true) (h : Means env text value) :
    Reads env (assignment name text) ⟨value, false, some name⟩ := by
  intro words
  obtain ⟨hnil, hchars⟩ := isName_facts hname
  have hread : Reads env name _ := reads_plain hnil fun c hc => (hchars c hc).2.1
  rw [foldl_takes fun c hc => (hchars c hc).2.2] at hread
  have hequals : State.step env ⟨words, .bare ⟨name, true, none⟩⟩ '=' =
      some ⟨words, .bare ⟨[], true, some name⟩⟩ := by
    simp [State.step, State.bare, Word.takes, hname, isPlain]
  rw [assignment, readWords_append, hread words, Option.bind_some, readWords_cons]
  simp only [List.nil_append]
  rw [hequals, Option.bind_some, inDouble, List.cons_append, readWords_cons]
  exact readWords_means h words (Word.holds ⟨[], true, some name⟩ []) rfl

/-! ## A whole line -/

/-- **Pieces one blank apart are read as a word each.** -/
theorem readWords_spaced {pieces : List Text} {read : List Word} (h : List.Forall₂ (Reads env) pieces read)
    (words : List Word) :
    (readWords env ⟨words, .between⟩ (spaced pieces)).bind State.finish = some (words ++ read) := by
  induction h generalizing words with
  | nil => rw [List.append_nil]; rfl
  | @cons piece word pieces read hpiece hpieces ih =>
    cases hpieces with
    | nil => rw [spaced, List.intercalate_singleton, hpiece]; rfl
    | @cons next nextWord pieces read hnext hpieces =>
      have hblank : State.step env ⟨words, .bare word⟩ ' ' = some ⟨words ++ [word], .between⟩ := rfl
      rw [spaced, List.intercalate_cons_cons, List.append_assoc, readWords_append, hpiece,
        Option.bind_some, List.singleton_append, readWords_cons, hblank]
      refine (ih (words ++ [word])).trans ?_
      rw [List.append_assoc, List.singleton_append]

theorem forall₂_quote (args : List Text) :
    ∃ words : List Word, words.map Word.whole = args ∧ List.Forall₂ (Reads env) (args.map quote) words := by
  induction args with
  | nil => exact ⟨[], rfl, .nil⟩
  | cons arg args ih =>
    obtain ⟨words, rfl, hwords⟩ := ih
    obtain ⟨word, rfl, hword⟩ := reads_quote arg
    exact ⟨word :: words, rfl, .cons hword hwords⟩

/-- Variables that are assigned, in front of a command. -/
def assignments (values : List (Text × Text)) : List Text := values.map fun value => assignment value.1 value.2

theorem command_assignments (values : List (Text × Text)) (program : Text) (words : List Word) :
    command ((values.map fun value => ⟨value.2, false, some value.1⟩) ++ ⟨program, false, none⟩ :: words) =
      ⟨values, program :: words.map Word.whole⟩ := by
  induction values with
  | nil => rfl
  | cons value values ih => rw [List.map_cons, List.cons_append, command, ih]

/-- What is written of a variable, and what it is then assigned. -/
def Assigns (env : Text → Text) (written read : Text × Text) : Prop :=
  written.1 = read.1 ∧ isName written.1 = true ∧ Means env written.2 read.2

/-- **What is read of a line** that assigns some variables, names a program in quotes and gives it
arguments: these. -/
theorem read_spaced {written values : List (Text × Text)} {text program : Text} (args : List Text)
    (hvalues : List.Forall₂ (Assigns env) written values) (hprogram : Means env text program) :
    read env (spaced (assignments written ++ inDouble text :: args.map quote)) =
      some ⟨values, program :: args⟩ := by
  obtain ⟨words, hwhole, hwords⟩ := forall₂_quote args
  have hassigned : List.Forall₂ (Reads env) (assignments written)
      (values.map fun value => ⟨value.2, false, some value.1⟩) := by
    rw [assignments, List.forall₂_map_left_iff, List.forall₂_map_right_iff]
    exact hvalues.imp fun before value h => h.1 ▸ reads_assignment h.2.1 h.2.2
  have hall := readWords_spaced (List.rel_append hassigned (.cons (reads_inDouble hprogram) hwords)) []
  have hreserved : isReserved ((values.map fun value => ⟨value.2, false, some value.1⟩)
      ++ ⟨program, false, none⟩ :: words) = false := by
    cases values <;> rfl
  rw [read, hall, List.nil_append, Option.bind_some, hreserved, if_neg Bool.false_ne_true,
    command_assignments, hwhole]

/-- **And of a line that is words one by one**, the first of them a program's name: the words. -/
theorem read_join {program : Text} (args : List Text) (hprogram : program ≠ [])
    (hplain : (program.all fun c => isPlain c && c != '=') = true)
    (hreserved : reserved.contains program = false) :
    read env (join (program :: args)) = some ⟨[], program :: args⟩ := by
  obtain ⟨words, rfl, hwords⟩ := forall₂_quote args
  have hchars : ∀ c ∈ program, isPlain c = true ∧ c ≠ '=' := fun c hc => by
    simpa using List.all_eq_true.mp hplain c hc
  have hfirst : Reads env (quote program) ⟨program, true, none⟩ := by
    have hall : program.all isPlain = true := List.all_eq_true.mpr fun c hc => (hchars c hc).1
    have hread : Reads env program _ := reads_plain hprogram fun c hc => (hchars c hc).1
    rw [foldl_takes fun c hc => (hchars c hc).2] at hread
    rw [quote, if_neg hprogram, if_pos hall]
    exact hread
  have hline := readWords_spaced (.cons hfirst hwords) []
  have hnot : isReserved (⟨program, true, none⟩ :: words) = false := by
    rw [isReserved, Word.whole, Option.elim_none, hreserved]
    rfl
  rw [read, join, List.map_cons, hline, List.nil_append, Option.bind_some, hnot, if_neg Bool.false_ne_true]
  rfl

end Gpuc.Basis.Shell
