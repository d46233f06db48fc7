import Mathlib.Data.Int.ConditionallyCompleteOrder
import Mathlib.Data.Prod.Lex
import Mathlib.Order.ConditionallyCompleteLattice.Basic
import Gpuc.Control.Remote

/-!
# A config that cannot be read

What `parse_last_json` tries is the text from each line that opens a bracket on (`openings`), and its
answer is the document of the one that ends last (`parseLastJson_eq_some`). A file that is one object is
its own last document (`last_of_loads`); in a file that is not, a line may begin an object all the same,
and the file may hold the marker of a host without one. `neverWrittenOver_iff` is when none of these
gets a file that is not one object written over.
-/

set_option autoImplicit false

namespace Gpuc.Control.Remote

open Gpuc.Basis Gpuc.Basis.Json Gpuc.Host.Documents

/-! ## Where a document may begin -/

def openingsOf : List Text → List Text
  | [] => []
  | line :: lines =>
    if opens (Text.lstrip line) then
      (Text.lstrip line ++ lines.flatten) :: openingsOf lines
    else openingsOf lines

/-- The text from each line on that opens a bracket, without the white space in front of it. -/
def openings (text : Text) : List Text := openingsOf (Text.splitLinesKeep text)

theorem lstrip_suffix (s : Text) : Text.lstrip s <:+ s := List.dropWhile_suffix _

theorem opens_append {s u : Text} (h : opens s = true) : opens (s ++ u) = true := by
  cases s with
  | nil => exact absurd h (by decide)
  | cons c cs => exact h

theorem mem_openingsOf {lines : List Text} {s : Text} (h : s ∈ openingsOf lines) :
    s <:+ lines.flatten ∧ opens s = true := by
  induction lines with
  | nil => exact absurd h List.not_mem_nil
  | cons line lines ih =>
    have hlater : s ∈ openingsOf lines → s <:+ (line :: lines).flatten ∧ opens s = true := by
      intro hmem
      obtain ⟨hsuffix, hopens⟩ := ih hmem
      exact ⟨hsuffix.trans (List.suffix_append line lines.flatten), hopens⟩
    rw [openingsOf] at h
    split at h
    · next hopens =>
      rcases List.mem_cons.mp h with rfl | hmem
      · obtain ⟨front, hfront⟩ := lstrip_suffix line
        refine ⟨⟨front, ?_⟩, opens_append hopens⟩
        rw [← List.append_assoc, hfront, List.flatten_cons]
      · exact hlater hmem
    · exact hlater h

/-- What could begin a document is an end of the text, and opens a bracket. -/
theorem mem_openings {text s : Text} (h : s ∈ openings text) : s <:+ text ∧ opens s = true := by
  have hmem := mem_openingsOf h
  rwa [Text.flatten_splitLinesKeep] at hmem

theorem lstrip_append (line rest : Text) : Text.lstrip (line ++ rest) =
    if Text.lstrip line = [] then Text.lstrip rest else Text.lstrip line ++ rest := by
  unfold Text.lstrip
  rw [List.dropWhile_append]
  simp only [List.isEmpty_iff]

/-- A text that opens a bracket with its first character is the first of its openings. -/
theorem lstrip_mem_openings {text : Text} (h : opens (Text.lstrip text) = true) :
    Text.lstrip text ∈ openings text := by
  have hlines : ∀ lines : List Text, opens (Text.lstrip lines.flatten) = true →
      Text.lstrip lines.flatten ∈ openingsOf lines := by
    intro lines
    induction lines with
    | nil => exact fun hnil => absurd hnil (by decide)
    | cons line lines ih =>
      rw [List.flatten_cons, lstrip_append, openingsOf]
      split
      · next hblank =>
        intro hopens
        rw [if_neg (by rw [hblank]; decide)]
        exact ih hopens
      · next hline =>
        intro hopens
        obtain ⟨c, cs, hcons⟩ := List.exists_cons_of_ne_nil hline
        rw [hcons] at hopens ⊢
        rw [if_pos (show opens (c :: cs) = true from hopens)]
        exact List.mem_cons_self
  have hall := hlines (Text.splitLinesKeep text)
  rw [Text.flatten_splitLinesKeep] at hall
  exact hall h

/-! ## The one that ends last -/

variable (t : Texts)

/-- One opening, of a text of a length. -/
def tryOpening (length : Nat) (s : Text) (best : Option Best) : Except Raised (Option Best) :=
  match rawDecode t s with
  | .ok (parsed, rest) =>
    let candidate : Best :=
      { ends := length - rest.length, start := length - s.length, document := parsed }
    .ok (if candidate.beats best then some candidate else best)
  | .error .invalid | .error .outOfSteps => .ok best
  | .error .tooLong => .error limitError

def tryOpenings (length : Nat) : List Text → Option Best → Except Raised (Option Best)
  | [], best => .ok best
  | s :: ss, best => tryOpening t length s best >>= tryOpenings length ss

/-- A line is tried by its opening, if it is one. -/
theorem tryLine_eq {text : Text} {offset : Nat} {line rest : Text} {best : Option Best}
    (hrest : text.drop offset = line ++ rest) (hoffset : offset ≤ text.length) :
    tryLine t text offset line best =
      if opens (Text.lstrip line) then
        tryOpening t text.length (Text.lstrip line ++ rest) best
      else .ok best := by
  obtain ⟨front, hfront⟩ := lstrip_suffix line
  have hlength : offset + (line ++ rest).length = text.length := by
    rw [← hrest, List.length_drop]
    omega
  have hline : front.length + (Text.lstrip line).length = line.length := by
    rw [← List.length_append, hfront]
  have hstart : offset + (line.length - (Text.lstrip line).length)
      = text.length - (Text.lstrip line ++ rest).length := by
    rw [List.length_append] at hlength ⊢
    omega
  have hdrop : text.drop (offset + (line.length - (Text.lstrip line).length))
      = Text.lstrip line ++ rest := by
    have hblank : line.length - (Text.lstrip line).length = front.length := by omega
    rw [← List.drop_drop, hrest, hblank]
    conv_lhs => rw [← hfront]
    rw [List.append_assoc, List.drop_left]
  unfold tryLine
  dsimp only
  rw [hdrop, hstart]
  rfl

/-- The lines are tried by their openings. -/
theorem tryLines_eq {text : Text} {offset : Nat} {lines : List Text} {best : Option Best}
    (hrest : text.drop offset = lines.flatten) (hoffset : offset ≤ text.length) :
    tryLines t text offset lines best = tryOpenings t text.length (openingsOf lines) best := by
  induction lines generalizing offset best with
  | nil => rfl
  | cons line lines ih =>
    have hnext : text.drop (offset + line.length) = lines.flatten := by
      rw [← List.drop_drop, hrest, List.flatten_cons, List.drop_left]
    have hlength : offset + line.length ≤ text.length := by
      have h := congrArg List.length hrest
      rw [List.length_drop, List.flatten_cons, List.length_append] at h
      omega
    rw [tryLines, tryLine_eq t hrest hoffset, openingsOf]
    split
    · rw [tryOpenings]
      exact congrArg _ (funext fun best => ih hnext hlength)
    · exact ih hnext hlength

theorem parseLastJson_eq (text : Text) : parseLastJson t text =
    Option.map Best.document <$> tryOpenings t text.length (openings text) none := by
  have hall : text.drop 0 = (Text.splitLinesKeep text).flatten :=
    (Text.flatten_splitLinesKeep text).symm
  rw [parseLastJson, tryLines_eq t hall (Nat.zero_le _)]
  rfl

/-- Where a document ends and begins, in the order of the candidates. -/
def Best.rank (best : Best) : ℕ ×ₗ ℤ := toLex (best.ends, -(best.start : ℤ))

/-- No document comes before any. -/
def rankOf (best : Option Best) : WithBot (ℕ ×ₗ ℤ) := best.map Best.rank

theorem Best.beats_iff {candidate : Best} {best : Option Best} :
    candidate.beats best = true ↔ rankOf best < rankOf (some candidate) := by
  cases best with
  | none => exact ⟨fun _ => WithBot.bot_lt_coe _, fun _ => rfl⟩
  | some best =>
    show decide _ = true ↔ ((best.rank : WithBot (ℕ ×ₗ ℤ)) < candidate.rank)
    rw [WithBot.coe_lt_coe, Best.rank, Best.rank, Prod.Lex.toLex_lt_toLex]
    simp

/-- The document that an opening of a text of a length is, as a candidate. -/
def candidateOf (length : Nat) (s rest : Text) (v : Json) : Best :=
  { ends := length - rest.length, start := length - s.length, document := v }

/-- **What trying some openings comes to**: the greatest of their documents and what there was. -/
structure BestOf (length : Nat) (ss : List Text) (best best' : Option Best) : Prop where
  readable : ∀ s ∈ ss, rawDecode t s ≠ .error .tooLong
  source : best' = best ∨ ∃ s ∈ ss, ∃ v rest, rawDecode t s = .ok (v, rest) ∧
    best' = some (candidateOf length s rest v)
  grows : rankOf best ≤ rankOf best'
  greatest : ∀ s ∈ ss, ∀ v rest, rawDecode t s = .ok (v, rest) →
    rankOf (some (candidateOf length s rest v)) ≤ rankOf best'

variable {t} {length : Nat} {s : Text} {ss : List Text} {best best' best'' : Option Best}

/-- An opening that begins no document changes nothing. -/
theorem BestOf.of_error {e : DecodeError} (hread : rawDecode t s = .error e) (he : e ≠ .tooLong) :
    BestOf t length [s] best best := by
  refine ⟨?_, .inl rfl, le_rfl, ?_⟩
  · intro s' hs'
    obtain rfl := List.mem_singleton.mp hs'
    rw [hread]
    exact fun h => he (Except.error.inj h)
  · intro s' hs' v' rest' hread'
    obtain rfl := List.mem_singleton.mp hs'
    rw [hread] at hread'
    cases hread'

theorem tryOpening_ok (h : tryOpening t length s best = .ok best') :
    BestOf t length [s] best best' := by
  unfold tryOpening at h
  split at h
  · next v rest hread =>
    have hcandidate : ∀ v' rest', rawDecode t s = .ok (v', rest') →
        candidateOf length s rest' v' = candidateOf length s rest v := by
      intro v' rest' hread'
      rw [hread] at hread'
      cases hread'
      rfl
    have hreadable : rawDecode t s ≠ .error .tooLong := by
      rw [hread]
      nofun
    obtain rfl := Except.ok.inj h
    split
    · next hbeats =>
      refine ⟨by simpa using hreadable, .inr ⟨s, List.mem_singleton_self s, v, rest, hread, rfl⟩,
        (Best.beats_iff.mp hbeats).le, ?_⟩
      intro s' hs' v' rest' hread'
      obtain rfl := List.mem_singleton.mp hs'
      rw [hcandidate v' rest' hread']
      rfl
    · next hkept =>
      refine ⟨by simpa using hreadable, .inl rfl, le_rfl, ?_⟩
      intro s' hs' v' rest' hread'
      obtain rfl := List.mem_singleton.mp hs'
      rw [hcandidate v' rest' hread']
      exact not_lt.mp fun hless => hkept (Best.beats_iff.mpr hless)
  · next hread =>
    obtain rfl := Except.ok.inj h
    exact .of_error hread nofun
  · next hread =>
    obtain rfl := Except.ok.inj h
    exact .of_error hread nofun
  · cases h

theorem BestOf.cons (hfirst : BestOf t length [s] best best')
    (hrest : BestOf t length ss best' best'') : BestOf t length (s :: ss) best best'' where
  readable := List.forall_mem_cons.mpr
    ⟨hfirst.readable s (List.mem_singleton_self s), hrest.readable⟩
  source := by
    rcases hrest.source with rfl | ⟨s', hs', hfrom⟩
    · refine hfirst.source.imp_right ?_
      rintro ⟨s', hs', hfrom⟩
      exact ⟨s', List.mem_cons.mpr (.inl (List.mem_singleton.mp hs')), hfrom⟩
    · exact .inr ⟨s', List.mem_cons_of_mem s hs', hfrom⟩
  grows := hfirst.grows.trans hrest.grows
  greatest s' hs' v rest hread := by
    rcases List.mem_cons.mp hs' with rfl | hs'
    · exact (hfirst.greatest s' (List.mem_singleton_self s') v rest hread).trans hrest.grows
    · exact hrest.greatest s' hs' v rest hread

theorem tryOpenings_ok (h : tryOpenings t length ss best = .ok best') :
    BestOf t length ss best best' := by
  induction ss generalizing best with
  | nil =>
    cases h
    exact ⟨nofun, .inl rfl, le_rfl, nofun⟩
  | cons s ss ih =>
    rw [tryOpenings] at h
    obtain ⟨first, hfirst, hrest⟩ := bind_eq_ok h
    exact (tryOpening_ok hfirst).cons (ih hrest)

theorem tryOpening_failsWhen : FailsWhen (tryOpening t length s best) limitError
    (rawDecode t s = .error .tooLong) := by
  unfold tryOpening
  split
  · next hread => exact (FailsWhen.of_ok _).congr (by simp [hread])
  · next hread => exact (FailsWhen.of_ok _).congr (by simp [hread])
  · next hread => exact (FailsWhen.of_ok _).congr (by simp [hread])
  · next hread => exact ⟨fun _ => rfl, fun h => absurd hread h⟩

/-- Trying the openings raises for an integer that is too long, and for nothing else. -/
theorem tryOpenings_failsWhen : FailsWhen (tryOpenings t length ss best) limitError
    (∃ s ∈ ss, rawDecode t s = .error .tooLong) := by
  induction ss generalizing best with
  | nil => exact (FailsWhen.of_ok best).congr (by simp)
  | cons s ss ih =>
    rw [tryOpenings]
    exact (tryOpening_failsWhen.bind fun _ => ih).congr (by simp)

/-- No line of the text begins with an integer that is too long in what it holds. -/
def Readable (t : Texts) (text : Text) : Prop :=
  ∀ s ∈ openings text, rawDecode t s ≠ .error .tooLong

/-- **The document that ends last** of those that a line of the text begins, the longer one of two that
end together. -/
def LastDocument (t : Texts) (text : Text) (v : Json) : Prop :=
  ∃ s ∈ openings text, ∃ rest, rawDecode t s = .ok (v, rest) ∧
    ∀ s' ∈ openings text, ∀ v' rest', rawDecode t s' = .ok (v', rest') →
      rest.length < rest'.length ∨ rest.length = rest'.length ∧ s'.length ≤ s.length

theorem rankOf_le_iff {text : Text} {s s' rest rest' : Text} {v v' : Json}
    (hs : s <:+ text) (hs' : s' <:+ text) (hrest : rest <:+ text) (hrest' : rest' <:+ text) :
    rankOf (some (candidateOf text.length s' rest' v')) ≤
        rankOf (some (candidateOf text.length s rest v)) ↔
      rest.length < rest'.length ∨ rest.length = rest'.length ∧ s'.length ≤ s.length := by
  have hs := hs.length_le
  have hs' := hs'.length_le
  have hrest := hrest.length_le
  have hrest' := hrest'.length_le
  show (((candidateOf text.length s' rest' v').rank : WithBot (ℕ ×ₗ ℤ)) ≤
    (candidateOf text.length s rest v).rank) ↔ _
  rw [WithBot.coe_le_coe, Best.rank, Best.rank, Prod.Lex.toLex_le_toLex]
  simp only [candidateOf]
  omega

theorem rawDecode_suffix {s rest : Text} {v : Json} (h : rawDecode t s = .ok (v, rest)) :
    rest <:+ s := (rawDecode_scanned h).shorter.1

theorem parseLastJson_failsWhen (t : Texts) (text : Text) :
    FailsWhen (parseLastJson t text) limitError (¬ Readable t text) := by
  rw [parseLastJson_eq]
  refine (tryOpenings_failsWhen.map _).congr ?_
  simp only [Readable, not_forall, not_not, exists_prop]

/-- **What `parse_last_json` answers is the last document.** -/
theorem parseLastJson_eq_some {text : Text} {v : Json} :
    parseLastJson t text = .ok (some v) ↔ Readable t text ∧ LastDocument t text v := by
  have hanswer : ∀ v', parseLastJson t text = .ok (some v') → LastDocument t text v' := by
    intro v' h
    rw [parseLastJson_eq] at h
    obtain ⟨best, hbest, hdocument⟩ := map_eq_ok h
    obtain ⟨hreadable, hsource, -, hgreatest⟩ := tryOpenings_ok hbest
    rcases hsource with rfl | ⟨s, hs, v, rest, hread, rfl⟩
    · cases hdocument
    · obtain rfl := Option.some.inj hdocument
      refine ⟨s, hs, rest, hread, fun s' hs' v' rest' hread' => ?_⟩
      have hsuffix := (mem_openings hs).1
      have hsuffix' := (mem_openings hs').1
      exact (rankOf_le_iff hsuffix hsuffix' ((rawDecode_suffix hread).trans hsuffix)
        ((rawDecode_suffix hread').trans hsuffix')).mp (hgreatest s' hs' v' rest' hread')
  constructor
  · intro h
    refine ⟨?_, hanswer v h⟩
    by_contra hreadable
    rw [(parseLastJson_failsWhen t text).error hreadable] at h
    cases h
  · rintro ⟨hreadable, s, hs, rest, hread, hlast⟩
    obtain ⟨answer, hparsed⟩ := (parseLastJson_failsWhen t text).ok (not_not.mpr hreadable)
    rw [hparsed]
    cases answer with
    | none =>
      rw [parseLastJson_eq] at hparsed
      obtain ⟨best, hbest, hnothing⟩ := map_eq_ok hparsed
      obtain rfl := Option.map_eq_none_iff.mp hnothing
      have hgreatest := (tryOpenings_ok hbest).greatest s hs v rest hread
      exact absurd hgreatest (WithBot.not_coe_le_bot _)
    | some v' =>
      -- two last documents begin at one place
      obtain ⟨s', hs', rest', hread', hlast'⟩ := hanswer v' hparsed
      have hone := hlast s' hs' v' rest' hread'
      have hother := hlast' s hs v rest hread
      have hlength : s.length = s'.length := by omega
      obtain rfl : s = s' :=
        (List.suffix_of_suffix_length_le (mem_openings hs).1 (mem_openings hs').1 hlength.le).eq_of_length
          hlength
      rw [hread] at hread'
      cases hread'
      rfl

/-! ## A text that is one object -/

theorem isSpace_of_isWhite {c : Char} (h : isWhite c = true) : Text.isSpace c = true := by
  simp only [isWhite, Bool.or_eq_true, decide_eq_true_eq] at h
  rcases h with ((rfl | rfl) | rfl) | rfl <;> decide

/-- What opens a bracket behind the white space of JSON does so behind all white space. -/
theorem lstrip_of_skipWhite {text : Text} (h : opens (skipWhite text) = true) :
    Text.lstrip text = skipWhite text := by
  induction text with
  | nil => rfl
  | cons c cs ih =>
    unfold skipWhite Text.lstrip at *
    by_cases hwhite : isWhite c = true
    · rw [List.dropWhile_cons_of_pos hwhite] at h ⊢
      rw [List.dropWhile_cons_of_pos (isSpace_of_isWhite hwhite)]
      exact ih h
    · rw [List.dropWhile_cons_of_neg hwhite] at h ⊢
      have hbracket : c = '\x7b' ∨ c = '[' := by simpa [opens] using h
      rw [List.dropWhile_cons_of_neg]
      rcases hbracket with rfl | rfl <;> decide

/-- What begins before the first character that is no white space begins with white space. -/
theorem isSpace_of_lstrip_lt {text : Text} {c : Char} {cs : Text} (hsuffix : c :: cs <:+ text)
    (hlt : (Text.lstrip text).length < (c :: cs).length) : Text.isSpace c = true := by
  induction text with
  | nil => exact absurd hsuffix.length_le (by simp)
  | cons d ds ih =>
    unfold Text.lstrip at hlt ih
    by_cases hspace : Text.isSpace d = true
    · rw [List.dropWhile_cons_of_pos hspace] at hlt
      rcases List.suffix_cons_iff.mp hsuffix with heq | hsuffix
      · cases heq
        exact hspace
      · exact ih hsuffix hlt
    · rw [List.dropWhile_cons_of_neg hspace] at hlt
      exact absurd hsuffix.length_le (not_le.mpr hlt)

/-- **A text that is one object is its own last document.** -/
theorem last_of_loads {text : Text} {pairs : List (String × Json)}
    (h : loads t text = .ok (.obj pairs)) : LastDocument t text (.obj pairs) := by
  rw [loads] at h
  obtain ⟨⟨v, rest⟩, hread, h⟩ := bind_eq_ok h
  dsimp only at h
  split at h
  · next hblank =>
    cases h
    have hscanned := rawDecode_scanned hread
    have hopens : opens (skipWhite text) = true := by
      rw [opens, hscanned.1]
      decide
    have hstrip := lstrip_of_skipWhite hopens
    have hmem : skipWhite text ∈ openings text := by
      rw [← hstrip] at hopens ⊢
      exact lstrip_mem_openings hopens
    refine ⟨_, hmem, rest, hread, fun s' hs' v' rest' hread' => ?_⟩
    obtain ⟨hsuffix, hopens'⟩ := mem_openings hs'
    obtain ⟨close, hclose, hcloses⟩ := rawDecode_closes hread' (by simpa [opens] using hopens')
    have hwhole : rest <:+ text := (rawDecode_suffix hread).trans (skipWhite_suffix text)
    -- a document that ended later would end in the white space behind the object
    have hends : rest.length ≤ rest'.length := by
      by_contra hlater
      have hbehind : close :: rest' <:+ rest :=
        List.suffix_of_suffix_length_le (hcloses.trans hsuffix) hwhole
          (Nat.succ_le_of_lt (not_le.mp hlater))
      have hwhite := List.dropWhile_eq_nil_iff.mp hblank close
        (hbehind.subset List.mem_cons_self)
      rcases hclose with rfl | rfl <;> exact absurd hwhite (by decide)
    rcases hends.lt_or_eq with hlt | heq
    · exact .inl hlt
    · refine .inr ⟨heq, ?_⟩
      by_contra hbefore
      obtain ⟨c, cs, rfl⟩ : ∃ c cs, s' = c :: cs :=
        List.exists_cons_of_ne_nil fun hnil => by
          rw [hnil] at hopens'
          exact absurd hopens' (by decide)
      have hspace := isSpace_of_lstrip_lt hsuffix (by rw [hstrip]; exact not_le.mp hbefore)
      have hbracket : c = '\x7b' ∨ c = '[' := by simpa [opens] using hopens'
      rcases hbracket with rfl | rfl <;> exact absurd hspace (by decide)
  · cases h

/-! ## The file -/

/-- The file's whole content is one object. -/
def OneObject (t : Texts) (text : Text) (pairs : List (String × Json)) : Prop :=
  loads t text = .ok (.obj pairs)

/-- A document that may take the file's place: the patch over nothing where there is no file, and over
the object that the file is. -/
def MayReplace (t : Texts) (file : HostFile) (patch document : Dict String Json) : Prop :=
  (file = none ∧ mergedConfig t (.ofDict .empty) patch = .ok document) ∨
    ∃ text pairs, file = some text ∧ OneObject t text pairs ∧
      mergedConfig t (.ofDict (.ofList pairs)) patch = .ok document

/-- **A file that cannot be read is never written over.** -/
structure NeverWrittenOver (t : Texts) (path : String) (file : HostFile) : Prop where
  writes : ∀ put patch document, writeConfig t path (.ok (cat file)) put patch = .replaced document →
    MayReplace t file patch document
  bootstraps : ∀ name put patch document,
    firstConfigStep t path name (.ok (cat file)) (.ok (cat file)) put patch = .replaced document →
      MayReplace t file patch document
  reported : ∀ text, file = some text → (∀ pairs, ¬ OneObject t text pairs) →
    (∃ reason, readConfig t path (.ok (cat file)) = .ok (.unreadable reason)) ∧
      (∀ put patch, ∃ failure, writeConfig t path (.ok (cat file)) put patch = .left failure) ∧
        ∀ name put patch, ∃ failure,
          firstConfigStep t path name (.ok (cat file)) (.ok (cat file)) put patch = .left failure

/-- **Nothing in the text is taken for a config, or for the answer of a host that has none.** -/
structure Plain (t : Texts) (text : Text) : Prop where
  readable : Readable t text
  noObject : ∀ pairs, ¬ LastDocument t text (.obj pairs)
  noMarker : ¬ noConfig <:+: text

section Reads
variable {path : String} {text : Text}

/-- A file is read as a config when its last document is an object. -/
theorem readConfig_object {pairs : List (String × Json)}
    (h : parseLastJson t text = .ok (some (.obj pairs))) :
    readConfig t path (.ok (cat (some text))) = .ok (.document (.ofList pairs)) := by
  show (parseLastJson t text >>= _) = _
  rw [h]
  rfl

/-- One without an object is no file where it holds the marker, and unreadable where it does not. -/
theorem readConfig_other {answer : Option Json} (h : parseLastJson t text = .ok answer)
    (hother : ∀ pairs, answer ≠ some (.obj pairs)) :
    readConfig t path (.ok (cat (some text))) =
      if noConfig <:+: text then .ok .missing
      else .ok (.unreadable s!"{path} is there but holds no JSON object") := by
  show (parseLastJson t text >>= _) = _
  rw [h]
  match answer with
  | some (.obj pairs) => exact absurd rfl (hother pairs)
  | none | some .null | some (.bool _) | some (.int _) | some (.float _) | some (.str _)
  | some (.arr _) => rfl

/-- **A file is reported unreadable exactly when it is plain.** -/
theorem readConfig_unreadable_iff :
    (∃ reason, readConfig t path (.ok (cat (some text))) = .ok (.unreadable reason)) ↔
      Plain t text := by
  constructor
  · rintro ⟨reason, hread⟩
    have hreadable : Readable t text := by
      by_contra hraises
      replace hread : (parseLastJson t text >>= _) = _ := hread
      rw [(parseLastJson_failsWhen t text).error hraises] at hread
      cases hread
    obtain ⟨answer, hparsed⟩ := (parseLastJson_failsWhen t text).ok (not_not.mpr hreadable)
    have hnone : ∀ pairs, answer ≠ some (.obj pairs) := by
      rintro pairs rfl
      rw [readConfig_object hparsed] at hread
      cases hread
    refine ⟨hreadable, fun pairs hlast => ?_, fun hmarker => ?_⟩
    · have hobject := parseLastJson_eq_some.mpr ⟨hreadable, hlast⟩
      rw [hparsed] at hobject
      exact hnone pairs (Except.ok.inj hobject)
    · rw [readConfig_other hparsed hnone, if_pos hmarker] at hread
      cases hread
  · rintro ⟨hreadable, hobject, hmarker⟩
    obtain ⟨answer, hparsed⟩ := (parseLastJson_failsWhen t text).ok (not_not.mpr hreadable)
    have hnone : ∀ pairs, answer ≠ some (.obj pairs) := by
      rintro pairs rfl
      exact hobject pairs (parseLastJson_eq_some.mp hparsed).2
    rw [readConfig_other hparsed hnone, if_neg hmarker]
    exact ⟨_, rfl⟩

/-- A file that is one object is read as it, if it is read. -/
theorem readConfig_oneObject {pairs : List (String × Json)} {read : HostConfigRead}
    (h : OneObject t text pairs) (hread : readConfig t path (.ok (cat (some text))) = .ok read) :
    read = .document (.ofList pairs) := by
  by_cases hreadable : Readable t text
  · have hparsed := parseLastJson_eq_some.mpr ⟨hreadable, last_of_loads h⟩
    rw [readConfig_object hparsed] at hread
    exact (Except.ok.inj hread).symm
  · have hraised := (parseLastJson_failsWhen t text).error hreadable
    replace hread : (parseLastJson t text >>= _) = _ := hread
    rw [hraised] at hread
    cases hread

end Reads

/-- What is put is the document, if it is put. -/
theorem putConfig_eq_replaced {put : Except String Unit} {document document' : Dict String Json}
    (h : putConfig put document = .replaced document') : document = document' := by
  cases put with
  | error => cases h
  | ok => exact Written.replaced.inj h

section Writes
variable {path name : String} {file : HostFile} {put : Except String Unit}
  {patch document : Dict String Json}

theorem mergedConfig_of_put {existing : Dict String Json}
    (h : (match mergedConfig t (.ofDict existing) patch with
      | .ok document => putConfig put document
      | .error raised => Written.left (some (.raised raised))) = .replaced document) :
    mergedConfig t (.ofDict existing) patch = .ok document := by
  cases hmerged : mergedConfig t (.ofDict existing) patch with
  | error raised =>
    rw [hmerged] at h
    cases h
  | ok document' =>
    rw [hmerged] at h
    exact congrArg Except.ok (putConfig_eq_replaced h)

/-- What a write replaces a file with is what it read, merged. -/
theorem writeConfig_eq_replaced {answer : Except String CommandResult}
    (h : writeConfig t path answer put patch = .replaced document) :
    ∃ existing, mergedConfig t (.ofDict existing) patch = .ok document ∧
      (readConfig t path answer = .ok .missing ∧ existing = .empty ∨
        readConfig t path answer = .ok (.document existing)) := by
  unfold writeConfig at h
  cases hread : readConfig t path answer with
  | error raised =>
    rw [hread] at h
    cases h
  | ok read =>
    rw [hread] at h
    cases read with
    | unreadable reason => cases h
    | missing => exact ⟨.empty, mergedConfig_of_put h, .inl ⟨rfl, rfl⟩⟩
    | document existing => exact ⟨existing, mergedConfig_of_put h, .inr rfl⟩

/-- The first-config step replaces a file only as a write of its config would. -/
theorem firstConfigStep_eq_replaced {decided answer : Except String CommandResult}
    (h : firstConfigStep t path name decided answer put patch = .replaced document) :
    writeConfig t path answer put patch = .replaced document := by
  unfold firstConfigStep at h
  repeat' split at h
  all_goals first | exact h | cases h

theorem readConfig_none : readConfig t path (.ok (cat none)) = .ok .missing := rfl

theorem writeConfig_mayReplace (hfile : ∀ text, file = some text →
      (∃ pairs, OneObject t text pairs) ∨ Plain t text)
    (h : writeConfig t path (.ok (cat file)) put patch = .replaced document) :
    MayReplace t file patch document := by
  obtain ⟨existing, hmerged, hread⟩ := writeConfig_eq_replaced h
  cases file with
  | none =>
    rw [readConfig_none] at hread
    rcases hread with ⟨-, rfl⟩ | hread
    · exact .inl ⟨rfl, hmerged⟩
    · cases hread
  | some text =>
    rcases hfile text rfl with ⟨pairs, hobject⟩ | hplain
    · rcases hread with ⟨hread, -⟩ | hread
      · exact nomatch readConfig_oneObject hobject hread
      · cases readConfig_oneObject hobject hread
        exact .inr ⟨text, pairs, rfl, hobject, hmerged⟩
    · obtain ⟨reason, hunreadable⟩ := readConfig_unreadable_iff.mpr hplain
      rw [hunreadable] at hread
      rcases hread with ⟨hread, -⟩ | hread <;> cases hread

/-- A file that cannot be read is left. -/
theorem writeConfig_unreadable {answer : Except String CommandResult} {reason : String}
    (h : readConfig t path answer = .ok (.unreadable reason)) :
    ∃ failure, writeConfig t path answer put patch = .left failure := by
  rw [writeConfig, h]
  exact ⟨_, rfl⟩

end Writes

/-- A config that somebody broke by hand: a bracket is missing behind its card. -/
def brokenConfig : Text :=
  ("\x7b\n\x22gpus\x22: [\x220\x22,\n"
    ++ "\x22provider\x22:\n\x7b\x22kind\x22: \x22runpod\x22\x7d\n\x7d\n").toList

/-- Whether it refuses a text as no JSON. -/
def isInvalid : Except DecodeError Json → Bool
  | .error .invalid => true
  | _ => false

theorem eq_invalid {read : Except DecodeError Json} (h : isInvalid read = true) :
    read = .error .invalid := by
  unfold isInvalid at h
  split at h
  · rfl
  · cases h

theorem brokenConfig_invalid : loads plainTexts brokenConfig = .error .invalid :=
  eq_invalid (by decide +kernel)

/-- What is left of it: the object inside. -/
def insideBroken : Dict String Json := .ofList [("kind", .str "runpod")]

/-- Whether it read an object with this one text. -/
def isOne (key value : String) : Except Raised HostConfigRead → Bool
  | .ok (.document existing) =>
    match existing.entries with
    | [(key', .str value')] => key' = key ∧ value' = value
    | _ => false
  | _ => false

theorem eq_one {key value : String} {read : Except Raised HostConfigRead}
    (h : isOne key value read = true) : read = .ok (.document (.ofList [(key, .str value)])) := by
  unfold isOne at h
  split at h
  · next existing =>
    split at h
    · next key' value' hentries =>
      obtain ⟨rfl, rfl⟩ := of_decide_eq_true h
      exact congrArg _ (congrArg _ (Dict.ext hentries))
    · cases h
  · cases h

theorem brokenConfig_read :
    readConfig plainTexts "config.json" (.ok (cat (some brokenConfig)))
      = .ok (.document insideBroken) :=
  eq_one (by decide +kernel)

/-- Whether a merge leaves a config that names no card. -/
def namesNoCard : Except Raised (Dict String Json) → Bool
  | .ok document =>
    match document.get? "gpus" with
    | some (.arr []) => true
    | _ => false
  | .error _ => false

theorem exists_namesNoCard {merged : Except Raised (Dict String Json)} (h : namesNoCard merged = true) :
    ∃ document, merged = .ok document ∧ document.get? "gpus" = some (.arr []) := by
  unfold namesNoCard at h
  split at h
  · next document =>
    split at h
    · next hgpus => exact ⟨document, rfl, hgpus⟩
    · cases h
  · cases h

theorem insideBroken_merged : ∃ document,
    mergedConfig plainTexts (.ofDict insideBroken) (.ofList [("idle_minutes", .int 30)])
      = .ok document ∧ document.get? "gpus" = some (.arr []) :=
  exists_namesNoCard (by decide +kernel)

end Gpuc.Control.Remote
