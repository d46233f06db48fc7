import Gpuc.Host.Patch
import Gpuc.Laws.Job.RoundTrip

/-!
# A patch of a job's settings is total, and all or nothing

Why a patch could not apply is said of any patch, unless a value that is come to raises (`Raises`): an
integer with more digits than are written, or one of minutes that is too large for a float. A patch that
is accepted changes every field of it on a job or none, and what it changes is read back as it was given
(`Patched`); unless what the job's files hold raises in a reader (`set_holds_iff`).
-/

set_option autoImplicit false

namespace Gpuc.Host.Documents

open Gpuc.Basis

/-! ## One value -/

section Values
variable {t : Texts} {formats : Formats} {now : Nat} {s : Settable} {value : Json}

/-- **The setting can hold the value**: nothing, where it can be cleared; a whole number up to 99, or
minutes that end at a date. -/
def Accepts (t : Texts) (now : Nat) (s : Settable) (value : Json) : Prop :=
  match value, s.kind with
  | .null, _ => s.clearable = true
  | .int _, .int | .float _, .int => upTo99 value = true
  | .int _, .float | .float _, .float =>
    positiveFinite value = true ∧ ∃ x, seconds t value = .ok x ∧ (utcIn now x).isSome
  | .bool _, _ | .str _, _ | .arr _, _ | .obj _, _ => False

/-- **The value raises** where it is quoted, or where minutes are made seconds. -/
def Raises (s : Settable) (value : Json) : Prop :=
  Json.LongInt value ∨ s.kind = .float ∧ ∃ n, value = .int n ∧ 0 < n ∧ Float64.overflow ≤ n.natAbs

/-- A value that is quoted is refused, or raises. -/
theorem quoted_spec (t : Texts) (s : Settable) (value : Json) (what : String) :
    ((∃ answer, quoted t s value what = .ok answer) ↔ ¬ Json.LongInt value) ∧
      quoted t s value what ≠ .ok none := by
  have hrepr := Json.repr_failsWhen t value
  constructor
  · rw [← hrepr.exists_ok, quoted, exists_bind_ok]
    exact ⟨fun ⟨text, htext, _⟩ => ⟨text, htext⟩, fun ⟨text, htext⟩ => ⟨text, htext, _, rfl⟩⟩
  · intro h
    obtain ⟨text, -, htext⟩ := bind_eq_ok h
    cases htext

theorem not_longInt_float (x : Float64) : ¬ Json.LongInt (.float x) := nofun

theorem longInt_int {n : Int} : Json.LongInt (.int n) ↔ 10 ^ Json.maxStrDigits ≤ n.natAbs := by
  constructor
  · intro h
    cases h with
    | int h => exact h
  · exact .int

/-- What is too long to be written is too large for a float. -/
theorem overflow_le_of_longInt {n : Int} (h : Json.LongInt (.int n)) : Float64.overflow ≤ n.natAbs :=
  le_trans (by decide +kernel) (longInt_int.mp h)

theorem upTo99_int {n : Int} : upTo99 (.int n) = true ↔ 0 ≤ n ∧ n ≤ 99 := by
  have hwhole : (n : ℚ).num.tdiv (n : ℚ).den = n := by simp
  simp only [upTo99, Json.number, Option.any_some, Bool.and_eq_true, decide_eq_true_eq, hwhole,
    and_true]
  exact_mod_cast Iff.rfl

theorem positiveFinite_int {n : Int} : positiveFinite (.int n) = true ↔ 0 < n := by
  simp [positiveFinite, Json.number]

/-- Minutes are made seconds unless they are an integer too large for a float. -/
theorem seconds_failsWhen (t : Texts) (n : Int) :
    FailsWhen (seconds t (.int n)) .overflowError (Float64.overflow ≤ n.natAbs) := by
  have hfloat : FailsWhen ((Json.int n).toFloat t) .overflowError (Float64.overflow ≤ n.natAbs) := by
    rw [Json.toFloat, ← Float64.ofInt_eq_none]
    cases hn : Float64.ofInt n with
    | none => exact ⟨fun _ => rfl, fun h => absurd rfl h⟩
    | some x => exact (FailsWhen.of_ok x).congr (by simp)
  exact hfloat.map _

theorem endTimeError_failsWhen (t : Texts) (formats : Formats) (now : Nat) (s : Settable) (n : Int) :
    FailsWhen (endTimeError t formats now s (.int n)) .overflowError (Float64.overflow ≤ n.natAbs) := by
  have hseconds := seconds_failsWhen t n
  refine ⟨fun hlarge => ?_, fun hfits => ?_⟩
  · rw [endTimeError, hseconds.error hlarge]
    rfl
  · obtain ⟨x, hx⟩ := hseconds.ok hfits
    obtain ⟨y, hy, -⟩ := bind_eq_ok hx
    rw [endTimeError, hx, hy]
    exact ⟨_, rfl⟩

/-- Minutes are accepted when they end at a date. -/
theorem endTimeError_eq_none :
    endTimeError t formats now s value = .ok none ↔
      ∃ x, seconds t value = .ok x ∧ (utcIn now x).isSome = true := by
  cases hseconds : seconds t value with
  | error raised =>
    rw [endTimeError, hseconds]
    exact ⟨nofun, fun ⟨x, hx, _⟩ => nomatch hx⟩
  | ok x =>
    obtain ⟨y, hy, -⟩ := bind_eq_ok hseconds
    rw [endTimeError, hseconds, hy]
    show Except.ok (if (utcIn now x).isNone then _ else none) = Except.ok none ↔ _
    cases hdate : utcIn now x with
    | none => simp [hdate]
    | some date => simp [hdate]

/-- What is no integer raises only where it is quoted. -/
theorem raises_of_ne_int (hvalue : ∀ n, value ≠ .int n) : Raises s value ↔ Json.LongInt value := by
  unfold Raises
  exact ⟨fun h => h.resolve_right fun ⟨_, n, hn, _⟩ => hvalue n hn, .inl⟩

/-- **A value is judged unless it raises.** -/
theorem valueError_answers :
    (∃ answer, s.valueError t formats now value = .ok answer) ↔ ¬ Raises s value := by
  cases value with
  | null =>
    rw [raises_of_ne_int (by simp)]
    exact ⟨fun _ => nofun, fun _ => ⟨_, rfl⟩⟩
  | bool _ | str _ | arr _ | obj _ =>
    rw [raises_of_ne_int (by simp)]
    exact (quoted_spec t s _ _).1
  | float x =>
    rw [raises_of_ne_int (by simp)]
    refine ⟨fun _ => not_longInt_float x, fun hshort => ?_⟩
    unfold Settable.valueError
    cases s.kind with
    | int =>
      dsimp only
      split
      · exact ⟨_, rfl⟩
      · exact (quoted_spec t s _ _).1.mpr hshort
    | float =>
      dsimp only
      split
      · exact ⟨_, rfl⟩
      · exact (quoted_spec t s _ _).1.mpr hshort
  | int n =>
    unfold Settable.valueError Raises
    cases s.kind with
    | int =>
      dsimp only
      split
      · next hwhole =>
        refine ⟨fun _ => ?_, fun _ => ⟨_, rfl⟩⟩
        rintro (hlong | ⟨hkind, -⟩)
        · obtain ⟨hnonneg, hle⟩ := upTo99_int.mp hwhole
          have hlong := overflow_le_of_longInt hlong
          have : (100 : Nat) ≤ Float64.overflow := by decide +kernel
          omega
        · cases hkind
      · rw [(quoted_spec t s _ _).1]
        simp
    | float =>
      dsimp only
      split
      · next hpositive =>
        rw [(endTimeError_failsWhen t formats now s n).exists_ok]
        apply not_congr
        constructor
        · exact fun hlarge => .inr ⟨rfl, n, rfl, positiveFinite_int.mp hpositive, hlarge⟩
        · rintro (hlong | ⟨-, m, hm, -, hlarge⟩)
          · exact overflow_le_of_longInt hlong
          · cases hm
            exact hlarge
      · next hnot =>
        rw [(quoted_spec t s _ _).1]
        apply not_congr
        refine ⟨.inl, fun h => h.resolve_right ?_⟩
        rintro ⟨-, m, hm, hpos, -⟩
        cases hm
        exact hnot (positiveFinite_int.mpr hpos)

/-- **A value is accepted when the setting can hold it.** -/
theorem valueError_eq_none : s.valueError t formats now value = .ok none ↔ Accepts t now s value := by
  have hquoted : ∀ what, quoted t s value what = .ok none ↔ False :=
    fun what => iff_false_intro (quoted_spec t s value what).2
  cases value with
  | null =>
    show Except.ok (if s.clearable then none else _) = Except.ok none ↔ s.clearable = true
    cases s.clearable <;> simp
  | bool _ | str _ | arr _ | obj _ => exact hquoted _
  | int _ | float _ =>
    unfold Settable.valueError Accepts
    cases s.kind with
    | int =>
      dsimp only
      split
      · next hwhole => exact ⟨fun _ => hwhole, fun _ => rfl⟩
      · next hnot => exact (hquoted _).trans (iff_of_false id hnot)
    | float =>
      dsimp only
      split
      · next hpositive => rw [endTimeError_eq_none, and_iff_right hpositive]
      · next hnot => exact (hquoted _).trans (iff_of_false id fun h => hnot h.1)

/-! ## What an accepted value is read as -/

/-- Past the bits of a float there is no date. -/
theorem utcIn_far {q : ℚ} (hq : 2 ^ 53 ≤ q) : utcIn now (.finite q) = none := by
  have hpos : 0 < q := lt_of_lt_of_le (by positivity) hq
  have hnum : 2 ^ 53 * q.den ≤ q.num.natAbs := by
    have hcross : (2 : ℚ) ^ 53 * q.den ≤ q.num.natAbs :=
      calc (2 : ℚ) ^ 53 * q.den ≤ q * q.den := mul_le_mul_of_nonneg_right hq q.den.cast_nonneg
        _ = q.num := Rat.mul_den_eq_num q
        _ = q.num.natAbs := by rw [← Int.cast_natCast, Int.natCast_natAbs, abs_of_pos (Rat.num_pos.mpr hpos)]
    exact_mod_cast hcross
  have hmicros : 2 ^ 53 * 10 ^ 6 ≤ halfEven (q.num.natAbs * 10 ^ 6) q.den := by
    apply le_halfEven q.den_pos
    rw [mul_right_comm]
    exact Nat.mul_le_mul_right _ hnum
  have hdelta : 2 ^ 53 * 10 ^ 6 ≤ timedelta q := by
    rw [timedelta, Int.sign_eq_one_of_pos (Rat.num_pos.mpr hpos), one_mul]
    exact_mod_cast hmicros
  apply if_neg
  rintro ⟨-, hlast⟩
  rw [dates] at hlast
  omega

/-- **Minutes that end at a date are a float.** -/
theorem representable_of_date {n : Int} {x : Float64} (hn : 0 < n) (hx : seconds t (.int n) = .ok x)
    (hdate : (utcIn now x).isSome = true) : Representable n := by
  apply representable_of_small
  by_contra hlarge
  obtain ⟨minutes, hminutes, hproduct⟩ := bind_eq_ok hx
  obtain ⟨q, rfl, hq⟩ := Float64.le_of_ofInt (by omega) (toFloat_int hminutes)
  obtain rfl := Except.ok.inj hproduct
  have hsixty : (2 : ℚ) ^ (53 : Int) ≤ q * 60 := by
    rw [show (2 : ℚ) ^ (53 : Int) = 2 ^ 53 from zpow_natCast 2 53]
    linarith
  rcases Float64.le_round (by decide) hsixty with hround | ⟨y, hround, hy⟩
  · rw [Float64.mul, hround] at hdate
    cases hdate
  · rw [Float64.mul, hround, utcIn_far (by exact_mod_cast hy)] at hdate
    cases hdate

section Reads
variable {d : Json} {k : String}

/-- Accepted minutes are read as they were given. -/
theorem asOptFloat_accepted (hkind : s.kind = .float) (h : Accepts t now s value)
    (hget : (fieldsOf d).get? k = some value) :
    asOptFloat t d k = .ok value.number ∧ value.number ≠ some .nan := by
  unfold Accepts at h
  rw [hkind] at h
  cases value with
  | null =>
    refine ⟨?_, fun heq => by cases heq⟩
    rw [asOptFloat, given_eq_none.mpr (.inr hget)]
    rfl
  | bool _ | str _ | arr _ | obj _ => exact h.elim
  | float x =>
    have hx : some x ≠ some Float64.nan := by
      rintro h'
      obtain rfl := Option.some.inj h'
      exact Bool.false_ne_true h.1
    exact ⟨asOptFloat_written hget hx, hx⟩
  | int n =>
    obtain ⟨hpositive, x, hx, hdate⟩ := h
    have hn := representable_of_date (positiveFinite_int.mp hpositive) hx hdate
    have hgiven : given d k = some (.int n) := given_eq_some.mpr ⟨hget, fun heq => by cases heq⟩
    have hread : asFloat t d k .nan = .ok (.finite n) := by
      rw [asFloat, hgiven]
      show orDefault _ (Json.toFloat t (.int n)) = _
      rw [Json.toFloat, hn]
      rfl
    refine ⟨?_, fun heq => by cases heq⟩
    rw [asOptFloat, hgiven]
    show (do
      let parsed ← asFloat t d k .nan
      pure (if parsed = Float64.nan then none else some parsed)) = _
    rw [hread]
    rfl

/-- So is an accepted whole number. -/
theorem asInt_accepted (hkind : s.kind = .int) (hclear : s.clearable = false)
    (h : Accepts t now s value) (hget : (fieldsOf d).get? k = some value) (default' : Int) :
    ∃ n : Int, asInt t d k default' = .ok n ∧ value.number = some (.finite n) ∧ Representable n := by
  unfold Accepts at h
  rw [hkind] at h
  cases value with
  | null => exact absurd (hclear.symm.trans h) Bool.false_ne_true
  | bool _ | str _ | arr _ | obj _ => exact h.elim
  | int n =>
    have hrange := upTo99_int.mp h
    have hn : Representable n := representable_of_small (by omega)
    exact ⟨n, asInt_written hget hn default', rfl, hn⟩
  | float x =>
    cases x with
    | infinite _ | nan => cases h
    | finite q =>
      simp only [upTo99, Json.number, Option.any_some, Bool.and_eq_true, decide_eq_true_eq] at h
      obtain ⟨⟨hnonneg, hle⟩, hwhole⟩ := h
      generalize q.num.tdiv q.den = n at hwhole
      subst hwhole
      have hrange : 0 ≤ n ∧ n ≤ 99 := by exact_mod_cast And.intro hnonneg hle
      refine ⟨n, ?_, rfl, representable_of_small (by omega)⟩
      rw [asInt, asFloat_written hget]
      exact congrArg (fun o : Option Int => Except.ok (o.getD default')) (Float64.toInt_intCast n)

end Reads

end Values

/-! ## A patch -/

section Patches
variable {t : Texts} {formats : Formats} {now : Nat}

/-- A name and a value that are accepted. -/
def AcceptsEntry (t : Texts) (now : Nat) (e : String × Json) : Prop :=
  ∃ s, settableOf e.1 = some s ∧ Accepts t now s e.2

/-- A value is come to when all before it is accepted. -/
def ComesTo (t : Texts) (now : Nat) (entries : List (String × Json)) (s : Settable) (value : Json) :
    Prop :=
  ∃ front name back, entries = front ++ (name, value) :: back ∧
    (∀ e ∈ front, AcceptsEntry t now e) ∧ settableOf name = some s

/-- **No value that is come to raises.** -/
def EntriesFit (t : Texts) (now : Nat) (entries : List (String × Json)) : Prop :=
  ∀ s value, ComesTo t now entries s value → ¬ Raises s value

/-- The first entry is come to, and the others when it is accepted. -/
theorem entriesFit_cons {name : String} {value : Json} {rest : List (String × Json)} :
    EntriesFit t now ((name, value) :: rest) ↔
      ∀ s, settableOf name = some s →
        ¬ Raises s value ∧ (Accepts t now s value → EntriesFit t now rest) := by
  constructor
  · intro h s hs
    refine ⟨h s value ⟨[], name, rest, rfl, nofun, hs⟩, fun haccepts s' value' hcomes => ?_⟩
    obtain ⟨front, name', back, rfl, hfront, hs'⟩ := hcomes
    refine h s' value' ⟨(name, value) :: front, name', back, rfl, ?_, hs'⟩
    exact List.forall_mem_cons.mpr ⟨⟨s, hs, haccepts⟩, hfront⟩
  · rintro h s' value' ⟨front, name', back, heq, hfront, hs'⟩
    cases front with
    | nil =>
      obtain ⟨hentry, rfl⟩ := List.cons.inj heq
      obtain ⟨rfl, rfl⟩ := Prod.mk.inj hentry
      exact (h s' hs').1
    | cons e front =>
      obtain ⟨rfl, rfl⟩ := List.cons.inj heq
      rw [List.forall_mem_cons] at hfront
      obtain ⟨⟨s, hs, haccepts⟩, hfront⟩ := hfront
      exact (h s hs).2 haccepts s' value' ⟨front, name', back, rfl, hfront, hs'⟩

/-- **The entries are judged unless a value that is come to raises, and accepted when each is.** -/
theorem entriesError_spec (entries : List (String × Json)) :
    ((∃ answer, entriesError t formats now entries = .ok answer) ↔ EntriesFit t now entries) ∧
      (entriesError t formats now entries = .ok none ↔ ∀ e ∈ entries, AcceptsEntry t now e) := by
  induction entries with
  | nil =>
    refine ⟨⟨fun _ s value hcomes => ?_, fun _ => ⟨_, rfl⟩⟩, fun _ => nofun, fun _ => rfl⟩
    obtain ⟨front, name, back, heq, -⟩ := hcomes
    exact absurd heq.symm (by simp)
  | cons e rest ih =>
    obtain ⟨name, value⟩ := e
    rw [entriesFit_cons, List.forall_mem_cons]
    unfold entriesError
    cases hs : settableOf name with
    | none =>
      refine ⟨⟨fun _ => nofun, fun _ => ⟨_, rfl⟩⟩, nofun, ?_⟩
      rintro ⟨⟨s, hs', -⟩, -⟩
      rw [hs] at hs'
      cases hs'
    | some s =>
      have hentry : AcceptsEntry t now (name, value) ↔ Accepts t now s value := by
        unfold AcceptsEntry
        rw [hs]
        simp
      rw [hentry]
      simp only [Option.some.injEq, forall_eq']
      cases hvalue : s.valueError t formats now value with
      | error raised =>
        have hraises : Raises s value := by
          by_contra hnot
          obtain ⟨answer, hanswer⟩ := valueError_answers.mpr hnot
          rw [hvalue] at hanswer
          cases hanswer
        refine ⟨⟨fun h => (nomatch h), fun h => absurd hraises h.1⟩, fun h => (nomatch h), ?_⟩
        rintro ⟨haccepts, -⟩
        have hnone : s.valueError t formats now value = .ok none := valueError_eq_none.mpr haccepts
        rw [hvalue] at hnone
        cases hnone
      | ok answer =>
        have hfits : ¬ Raises s value := valueError_answers.mp ⟨answer, hvalue⟩
        cases answer with
        | some error =>
          have hrefuses : ¬ Accepts t now s value := by
            intro haccepts
            have hnone : s.valueError t formats now value = .ok none := valueError_eq_none.mpr haccepts
            rw [hvalue] at hnone
            cases hnone
          exact ⟨⟨fun _ => ⟨hfits, fun h => absurd h hrefuses⟩, fun _ => ⟨_, rfl⟩⟩, fun h => (nomatch h),
            fun h => absurd h.1 hrefuses⟩
        | none =>
          have haccepts : Accepts t now s value := valueError_eq_none.mp hvalue
          rw [and_iff_right hfits, and_iff_right haccepts]
          exact ⟨ih.1.trans ⟨fun h _ => h, fun h => h haccepts⟩, ih.2⟩

/-- **A patch that is accepted**: there is something in it, and each of its entries is. -/
def AcceptsPatch (t : Texts) (now : Nat) (patch : Dict String Json) : Prop :=
  patch.entries ≠ [] ∧ ∀ e ∈ patch.entries, AcceptsEntry t now e

theorem patchError_answers {patch : Dict String Json} :
    (∃ answer, patchError t formats now patch = .ok answer) ↔ EntriesFit t now patch.entries := by
  unfold patchError
  split
  · next hnil =>
    rw [hnil]
    exact ⟨fun _ => (@entriesError_spec t formats now []).1.mp ⟨_, rfl⟩, fun _ => ⟨_, rfl⟩⟩
  · exact (entriesError_spec _).1

theorem patchError_eq_none {patch : Dict String Json} :
    patchError t formats now patch = .ok none ↔ AcceptsPatch t now patch := by
  unfold patchError AcceptsPatch
  split
  · next hnil => exact iff_of_false (fun h => nomatch h) fun h => h.1 hnil
  · next hne => rw [and_iff_right hne, (entriesError_spec _).2]

end Patches

/-! ## What is read of the file -/

/-- What a state has of a setting. -/
def JobState.setting (state : JobState) : String → Option Float64
  | "priority" => some (.finite state.priority)
  | "estimated_runtime_min" => state.estimatedRuntimeMin
  | "max_runtime_min" => state.maxRuntimeMin
  | _ => none

/-- **A state is another with the patch's fields as they were given**, and the limit the one meant if it
is one of them. -/
structure Patched (patch : Dict String Json) (before after : JobState) : Prop where
  others : after =
    { before with
      priority := after.priority
      estimatedRuntimeMin := after.estimatedRuntimeMin
      maxRuntimeMin := after.maxRuntimeMin
      liveMaxRuntime := after.liveMaxRuntime }
  kept : ∀ name, patch.get? name = none → after.setting name = before.setting name
  given : ∀ name value, patch.get? name = some value → after.setting name = value.number
  live : after.liveMaxRuntime = (before.liveMaxRuntime || (patch.get? "max_runtime_min").isSome)

/-- A state with a patch's fields. -/
def JobState.patched (state : JobState) (patch : Dict String Json) : JobState :=
  { state with
    priority := ((fieldAs patch "priority" none).bind Float64.toInt).getD state.priority
    estimatedRuntimeMin := fieldAs patch "estimated_runtime_min" state.estimatedRuntimeMin
    maxRuntimeMin := fieldAs patch "max_runtime_min" state.maxRuntimeMin
    liveMaxRuntime := state.liveMaxRuntime || (patch.get? "max_runtime_min").isSome }

section Reading
variable {t : Texts} {now : Nat} {patch : Dict String Json} {state : JobState}

/-- A setting is one of three. -/
theorem settableOf_cases {name : String} {s : Settable} (h : settableOf name = some s) :
    name = "priority" ∧ s.kind = .int ∧ s.clearable = false ∨
      name ∈ ["estimated_runtime_min", "max_runtime_min"] ∧ s.kind = .float := by
  unfold settableOf at h
  have hname : s.field = name := by simpa using List.find?_some h
  have hmem := List.mem_of_find?_eq_some h
  simp only [settables, List.mem_cons, List.not_mem_nil, or_false] at hmem
  rcases hmem with rfl | rfl | rfl
  · exact .inl ⟨hname.symm, rfl, rfl⟩
  · exact .inr ⟨hname ▸ List.mem_cons_self, rfl⟩
  · exact .inr ⟨hname ▸ List.mem_cons_of_mem _ List.mem_cons_self, rfl⟩

theorem AcceptsPatch.entry (hpatch : AcceptsPatch t now patch) {name : String} {value : Json}
    (hget : patch.get? name = some value) :
    ∃ s, settableOf name = some s ∧ Accepts t now s value :=
  hpatch.2 (name, value) (Dict.get?_eq_some.mp hget)

/-- What the patch writes, under a name. -/
theorem get?_written (patch : Dict String Json) (k : String) :
    (written patch).get? k =
      if k = "live_max_runtime" ∧ (patch.get? "max_runtime_min").isSome then some (.bool true)
      else patch.get? k := by
  unfold written
  split
  · next hlimit => simp [hlimit]
  · next hlimit => simp [hlimit]

/-- No other name is written. -/
theorem AcceptsPatch.get?_other (hpatch : AcceptsPatch t now patch) {k : String}
    (hk : k ∉ settingFields) : patch.get? k = none := by
  cases hget : patch.get? k with
  | none => rfl
  | some value =>
    obtain ⟨s, hs, -⟩ := hpatch.entry hget
    rcases settableOf_cases hs with ⟨rfl, -⟩ | ⟨hmem, -⟩
    · exact absurd List.mem_cons_self hk
    · exact absurd (List.mem_cons_of_mem _ hmem) hk

theorem fieldAs_some {name : String} {value : Json} (h : patch.get? name = some value)
    (own : Option Float64) : fieldAs patch name own = value.number := by
  rw [fieldAs, h]

theorem fieldAs_none {name : String} (h : patch.get? name = none) (own : Option Float64) :
    fieldAs patch name own = own := by
  rw [fieldAs, h]

/-- The document a patched state is written as. -/
def patchedDocument (state : JobState) (patch : Dict String Json) : Json :=
  .ofDict (update state.toDict (written patch))

theorem get?_toDict {e : String × Json} (he : e ∈ state.pairs) : state.toDict.get? e.1 = some e.2 :=
  (Dict.get?_ofList state.nodup_pairs).mpr he

theorem get?_patchedDocument (k : String) :
    (fieldsOf (patchedDocument state patch)).get? k = ((written patch).get? k).or (state.toDict.get? k) := by
  rw [patchedDocument, fieldsOf_ofDict, get?_update]

/-- The priority of the file. -/
theorem asInt_patchedDocument (hkeeps : state.Keeps) (hpatch : AcceptsPatch t now patch) :
    asInt t (patchedDocument state patch) "priority" 50 = .ok (state.patched patch).priority ∧
      Representable (state.patched patch).priority ∧
      ∀ value, patch.get? "priority" = some value →
        some (.finite (state.patched patch).priority) = value.number := by
  have hget := @get?_patchedDocument patch state "priority"
  rw [get?_written, if_neg (fun h => absurd h.1 (by decide))] at hget
  unfold JobState.patched
  dsimp only
  cases hvalue : patch.get? "priority" with
  | none =>
    have hown : state.toDict.get? "priority" = some (.int state.priority) :=
      @get?_toDict state ("priority", .int state.priority) (by simp [JobState.pairs])
    rw [hvalue, Option.none_or, hown] at hget
    rw [fieldAs_none hvalue]
    have hn : Representable state.priority := hkeeps.integers _ (by simp)
    exact ⟨asInt_written hget hn 50, hn, fun value heq => by cases heq⟩
  | some value =>
    rw [hvalue, Option.some_or] at hget
    obtain ⟨s, hs, haccepts⟩ := hpatch.entry hvalue
    rcases settableOf_cases hs with ⟨-, hkind, hclear⟩ | ⟨hmem, -⟩
    · obtain ⟨n, hread, hnumber, hn⟩ := asInt_accepted hkind hclear haccepts hget 50
      rw [fieldAs_some hvalue, hnumber, Option.bind_some, Float64.toInt_intCast, Option.getD_some]
      refine ⟨hread, hn, fun value' hvalue' => ?_⟩
      obtain rfl := Option.some.inj hvalue'
      exact hnumber.symm
    · exact absurd hmem (by decide)

/-- The minutes of the file. -/
theorem asOptFloat_patchedDocument (hpatch : AcceptsPatch t now patch) {k : String}
    {own : Option Float64} (hk : k ∈ ["estimated_runtime_min", "max_runtime_min"])
    (hown : state.toDict.get? k = some (orNull .float own)) (hnumber : own ≠ some .nan) :
    asOptFloat t (patchedDocument state patch) k = .ok (fieldAs patch k own) ∧
      fieldAs patch k own ≠ some .nan := by
  have hget := @get?_patchedDocument patch state k
  have hlive : k ≠ "live_max_runtime" := by
    rintro rfl
    exact absurd hk (by decide)
  rw [get?_written, if_neg (fun h => hlive h.1)] at hget
  cases hvalue : patch.get? k with
  | none =>
    rw [hvalue, Option.none_or, hown] at hget
    rw [fieldAs_none hvalue]
    exact ⟨asOptFloat_written hget hnumber, hnumber⟩
  | some value =>
    rw [hvalue, Option.some_or] at hget
    rw [fieldAs_some hvalue]
    obtain ⟨s, hs, haccepts⟩ := hpatch.entry hvalue
    rcases settableOf_cases hs with ⟨rfl, -⟩ | ⟨-, hkind⟩
    · exact absurd hk (by decide)
    · exact asOptFloat_accepted hkind haccepts hget

/-- Both of them. -/
theorem minutes_patchedDocument (hkeeps : state.Keeps) (hpatch : AcceptsPatch t now patch) :
    (asOptFloat t (patchedDocument state patch) "estimated_runtime_min"
        = .ok (state.patched patch).estimatedRuntimeMin ∧
      (state.patched patch).estimatedRuntimeMin ≠ some .nan) ∧
    asOptFloat t (patchedDocument state patch) "max_runtime_min"
        = .ok (state.patched patch).maxRuntimeMin ∧
      (state.patched patch).maxRuntimeMin ≠ some .nan := by
  have hnumbers := hkeeps.numbers
  simp only [List.forall_mem_cons, List.not_mem_nil, false_imp_iff, implies_true, and_true] at hnumbers
  have hestimated : state.toDict.get? "estimated_runtime_min"
      = some (orNull .float state.estimatedRuntimeMin) :=
    @get?_toDict state ("estimated_runtime_min", orNull .float state.estimatedRuntimeMin)
      (by simp [JobState.pairs])
  have hmax : state.toDict.get? "max_runtime_min" = some (orNull .float state.maxRuntimeMin) :=
    @get?_toDict state ("max_runtime_min", orNull .float state.maxRuntimeMin) (by simp [JobState.pairs])
  exact ⟨asOptFloat_patchedDocument hpatch (by decide) hestimated hnumbers.1,
    asOptFloat_patchedDocument hpatch (by decide) hmax hnumbers.2.1⟩

/-- A patched state is one that its reader answers. -/
theorem JobState.Keeps.patched (hkeeps : state.Keeps) (hpatch : AcceptsPatch t now patch) :
    (state.patched patch).Keeps := by
  have hnumbers := hkeeps.numbers
  simp only [List.forall_mem_cons, List.not_mem_nil, false_imp_iff, implies_true, and_true] at hnumbers
  obtain ⟨⟨-, hestimated⟩, -, hmax⟩ := minutes_patchedDocument hkeeps hpatch
  exact
    { hkeeps with
      integers := by
        have hintegers := hkeeps.integers
        rw [List.forall_mem_cons, List.forall_mem_cons] at hintegers ⊢
        exact ⟨hintegers.1, (asInt_patchedDocument hkeeps hpatch).2.1, hintegers.2.2⟩
      numbers := by
        simp only [List.forall_mem_cons, List.not_mem_nil, false_imp_iff, implies_true, and_true]
        exact ⟨hestimated, hmax, hnumbers.2.2⟩ }

/-- What a patched state has beside the settings is its own, or that the limit is the one meant. -/
theorem mem_pairs_patched {e : String × Json} (he : e ∈ (state.patched patch).pairs)
    (hother : e.1 ∉ settingFields) :
    e = ("live_max_runtime", .bool (state.liveMaxRuntime || (patch.get? "max_runtime_min").isSome)) ∨
      e ∈ state.pairs ∧ e.1 ≠ "live_max_runtime" := by
  have hsplit : (state.patched patch).pairs = state.pairs.take 3 ++
      [("priority", .int (state.patched patch).priority),
        ("estimated_runtime_min", orNull .float (state.patched patch).estimatedRuntimeMin),
        ("max_runtime_min", orNull .float (state.patched patch).maxRuntimeMin),
        ("live_max_runtime", .bool (state.patched patch).liveMaxRuntime)] ++ state.pairs.drop 7 := rfl
  have hfront : ∀ e ∈ state.pairs.take 3, e.1 ≠ "live_max_runtime" := by
    intro e he
    have hkey : e.1 ∈ ["status", "intent", "attempt"] := List.mem_map_of_mem he
    rintro hlive
    rw [hlive] at hkey
    exact absurd hkey (by decide)
  have hback : ∀ e ∈ state.pairs.drop 7, e.1 ≠ "live_max_runtime" := by
    intro e he hlive
    have hnodup := state.nodup_pairs
    rw [← List.take_append_drop 7 state.pairs, List.map_append] at hnodup
    have hkey : "live_max_runtime" ∈ (state.pairs.take 7).map Prod.fst := by
      show "live_max_runtime" ∈ ["status", "intent", "attempt", "priority", "estimated_runtime_min",
        "max_runtime_min", "live_max_runtime"]
      decide
    exact (List.nodup_append.mp hnodup).2.2 _ hkey _ (hlive ▸ List.mem_map_of_mem he) rfl
  rw [hsplit, List.mem_append, List.mem_append] at he
  rcases he with (he | he) | he
  · exact .inr ⟨List.mem_of_mem_take he, hfront e he⟩
  · simp only [List.mem_cons, List.not_mem_nil, or_false] at he
    rcases he with rfl | rfl | rfl | rfl
    · exact absurd (by decide : "priority" ∈ settingFields) hother
    · exact absurd (by decide : "estimated_runtime_min" ∈ settingFields) hother
    · exact absurd (by decide : "max_runtime_min" ∈ settingFields) hother
    · exact .inl rfl
  · exact .inr ⟨List.mem_of_mem_drop he, hback e he⟩

/-- **What is read of the file is the patched state.** -/
theorem fromDict_patchedDocument (hkeeps : state.Keeps) (hpatch : AcceptsPatch t now patch) :
    JobState.fromDict t (patchedDocument state patch) = .ok (state.patched patch) := by
  obtain ⟨⟨hestimated, -⟩, hmax, -⟩ := minutes_patchedDocument hkeeps hpatch
  refine JobState.fromDict_reads (hkeeps.patched hpatch) (fun e he hother => ?_)
    (asInt_patchedDocument hkeeps hpatch).1 hestimated hmax
  rw [get?_patchedDocument, get?_written, hpatch.get?_other hother]
  rcases mem_pairs_patched he hother with rfl | ⟨hown, hlive⟩
  · have hstate : state.toDict.get? "live_max_runtime" = some (.bool state.liveMaxRuntime) :=
      @get?_toDict state ("live_max_runtime", .bool state.liveMaxRuntime) (by simp [JobState.pairs])
    rw [hstate]
    cases (patch.get? "max_runtime_min").isSome <;> simp
  · rw [if_neg (fun h => hlive h.1), Option.none_or, get?_toDict hown]

/-- **And that is the state with the patch's fields as they were given.** -/
theorem patched_patched (hkeeps : state.Keeps) (hpatch : AcceptsPatch t now patch) :
    Patched patch state (state.patched patch) where
  others := rfl
  kept name hname := by
    unfold JobState.setting
    split
    · unfold JobState.patched
      rw [fieldAs_none hname]
      rfl
    · exact fieldAs_none hname _
    · exact fieldAs_none hname _
    · rfl
  given name value hget := by
    obtain ⟨s, hs, -⟩ := hpatch.entry hget
    rcases settableOf_cases hs with ⟨rfl, -⟩ | ⟨hmem, -⟩
    · exact (asInt_patchedDocument hkeeps hpatch).2.2 value hget
    · simp only [List.mem_cons, List.not_mem_nil, or_false] at hmem
      rcases hmem with rfl | rfl
      · exact fieldAs_some hget _
      · exact fieldAs_some hget _
  live := rfl

end Reading

/-! ## On one job -/

section Job
variable {asked : Asked} {newJobId : String} {now : Nat} {patch : Dict String Json} {files : JobFiles}

/-- Only a limit is checked against a state. -/
theorem stateCheck_cases {name : String} {s : Settable} (h : settableOf name = some s)
    {check : Asked → Json → JobState → Except Raised (Option String)} (hcheck : s.stateCheck = some check) :
    check = maxRuntimeCheck ∧ s.kind = .float := by
  have hmem := List.mem_of_find?_eq_some h
  simp only [settables, List.mem_cons, List.not_mem_nil, or_false] at hmem
  rcases hmem with rfl | rfl | rfl
  · cases hcheck
  · cases hcheck
  · exact ⟨(Option.some.inj hcheck).symm, rfl⟩

/-- The check of a limit that is accepted answers. -/
theorem maxRuntimeCheck_answers {s : Settable} {value : Json} (hkind : s.kind = .float)
    (h : Accepts asked.texts now s value) (state : JobState) :
    ∃ answer, maxRuntimeCheck asked value state = .ok answer := by
  have hnumber : value = .null ∨ ∃ x, seconds asked.texts value = .ok x := by
    unfold Accepts at h
    rw [hkind] at h
    cases value with
    | null => exact .inl rfl
    | bool _ | str _ | arr _ | obj _ => exact h.elim
    | int _ | float _ =>
      obtain ⟨-, x, hx, -⟩ := h
      exact .inr ⟨x, hx⟩
  unfold maxRuntimeCheck
  split
  · exact ⟨_, rfl⟩
  · split
    · exact ⟨_, rfl⟩
    · split
      · exact ⟨_, rfl⟩
      · exact ⟨_, rfl⟩
      · next hnull _ =>
        obtain ⟨x, hx⟩ := hnumber.resolve_left hnull
        obtain ⟨y, hy, -⟩ := bind_eq_ok hx
        rw [hx, hy]
        exact ⟨_, rfl⟩

/-- **Of entries that are accepted it is said whether the job takes them.** -/
theorem refusal_answers {entries : List (String × Json)} (state : JobState)
    (h : ∀ e ∈ entries, AcceptsEntry asked.texts now e) :
    ∃ answer, refusal asked state entries = .ok answer := by
  induction entries with
  | nil => exact ⟨none, rfl⟩
  | cons e rest ih =>
    obtain ⟨name, value⟩ := e
    rw [List.forall_mem_cons] at h
    obtain ⟨⟨s, hs, haccepts⟩, hrest⟩ := h
    unfold refusal
    rw [hs]
    dsimp only
    split
    · exact ⟨_, rfl⟩
    · cases hcheck : s.stateCheck with
      | none => exact ih hrest
      | some check =>
        obtain ⟨rfl, hkind⟩ := stateCheck_cases hs hcheck
        obtain ⟨answer, hanswer⟩ := maxRuntimeCheck_answers hkind haccepts state
        dsimp only
        rw [hanswer]
        cases answer with
        | some error => exact ⟨_, rfl⟩
        | none => exact ih hrest

/-- A spec is read, or is none, unless something else is raised. -/
theorem specOf_answers {t : Texts} {read : Except String Json} :
    (∃ spec, specOf t newJobId read = .ok spec) ↔ ∀ d, read = .ok d → SpecFits t d := by
  cases read with
  | error error => exact ⟨fun _ d hd => (nomatch hd), fun _ => ⟨none, rfl⟩⟩
  | ok d =>
    have hone : (∀ d', Except.ok d = (Except.ok d' : Except String Json) → SpecFits t d') ↔
        SpecFits t d := by
      constructor
      · exact fun h => h d rfl
      · intro h d' hd'
        cases hd'
        exact h
    rw [hone, SpecFits.iff_not_escapes t newJobId d, not_escapes_iff]
    unfold specOf
    dsimp only
    cases JobSpec.fromDict t newJobId d with
    | ok spec => exact ⟨fun _ raised hraised => (nomatch hraised), fun _ => ⟨_, rfl⟩⟩
    | error raised =>
      cases raised with
      | valueError message =>
        refine ⟨fun _ raised hraised => ?_, fun _ => ⟨none, rfl⟩⟩
        cases hraised
        exact ⟨message, rfl⟩
      | typeError | overflowError =>
        refine ⟨fun ⟨spec, h⟩ => (nomatch h), fun h => ?_⟩
        obtain ⟨message, hmessage⟩ := h _ rfl
        cases hmessage

/-- **All or none**: nothing is changed, or the state file holds the state that was read with the
patch's fields as they were given. -/
inductive AllOrNone (t : Texts) (patch : Dict String Json) (files : JobFiles) :
    Answer × Except String Json → Prop
  | refused (error : String) (missing : Bool) :
    AllOrNone t patch files (.refused error missing, files.state)
  | changed {d d' : Json} {before after : JobState} (warning : Option String) :
    files.state = .ok d → JobState.fromDict t d = .ok before → JobState.fromDict t d' = .ok after →
    Patched patch before after →
    AllOrNone t patch files (.changed before.status patch.entries warning, .ok d')

/-- What the job's files hold raises in no reader that comes to it. -/
def FilesFit (t : Texts) (files : JobFiles) : Prop :=
  files.isDir = true →
    (∀ d, files.spec = .ok d → SpecFits t d) ∧
    (files.lock = .ok () → ∀ d, files.state = .ok d → StateFits t d)

/-- The section under the lock answers, where the state is read. -/
theorem applyLocked_answers (spec : Option JobSpec) {d : Json} {before : JobState}
    (hfloats : BinaryFloats asked.texts d) (hpatch : AcceptsPatch asked.texts now patch)
    (hd : files.state = .ok d) (hbefore : JobState.fromDict asked.texts d = .ok before) :
    ∃ answer d', applyLocked asked spec patch files.replace d = .ok (answer, d') ∧
      AllOrNone asked.texts patch files (answer, .ok d') := by
  have hkeeps := JobState.keeps_of_fromDict hfloats hbefore
  have hrefused : ∀ error, AllOrNone asked.texts patch files (.refused error false, .ok d) := by
    intro error
    rw [← hd]
    exact .refused error false
  obtain ⟨answer, hanswer⟩ := refusal_answers before hpatch.2
  unfold applyLocked
  rw [hbefore]
  show ∃ answer d', (refusal asked before patch.entries >>= _) = _ ∧ _
  rw [hanswer]
  cases answer with
  | some error => exact ⟨_, _, rfl, hrefused error⟩
  | none =>
    cases files.replace with
    | error error => exact ⟨couldNotChange asked.jobId error, d, rfl, hrefused _⟩
    | ok _ =>
      exact ⟨changedAnswer asked spec before patch, patchedDocument before patch, rfl,
        .changed _ hd hbefore (fromDict_patchedDocument hkeeps hpatch) (patched_patched hkeeps hpatch)⟩

/-- **A patch that is accepted is answered exactly when no reader of the job's files raises**, and then
all of it is changed or none. -/
theorem apply_answers (hfloats : ∀ d, files.state = .ok d → BinaryFloats asked.texts d)
    (hpatch : AcceptsPatch asked.texts now patch) :
    (∃ outcome, apply asked newJobId patch files = .ok outcome ∧
      AllOrNone asked.texts patch files outcome) ↔ FilesFit asked.texts files := by
  unfold apply FilesFit
  by_cases hdir : files.isDir = false
  · rw [if_pos hdir, hdir]
    exact ⟨fun _ h => absurd h Bool.false_ne_true, fun _ => ⟨_, rfl, .refused _ true⟩⟩
  rw [if_neg hdir, Bool.eq_true_of_not_eq_false hdir]
  constructor
  · rintro ⟨outcome, houtcome, -⟩ -
    obtain ⟨spec, hspec, houtcome⟩ := bind_eq_ok houtcome
    refine ⟨specOf_answers.mp ⟨spec, mapError_eq_ok hspec⟩, fun hlock d hd => ?_⟩
    rw [hlock, hd] at houtcome
    obtain ⟨outcome', happlied, -⟩ := bind_eq_ok houtcome
    obtain ⟨before, hbefore, -⟩ := bind_eq_ok happlied
    exact (JobState.fromDict_ok _ d).mp ⟨before, mapError_eq_ok hbefore⟩
  · intro hfits
    obtain ⟨hspecs, hstates⟩ := hfits rfl
    obtain ⟨spec, hspec⟩ := specOf_answers.mpr hspecs
    rw [hspec]
    cases hlock : files.lock with
    | error error => exact ⟨_, rfl, .refused _ false⟩
    | ok _ =>
      cases hd : files.state with
      | error error =>
        refine ⟨(couldNotChange asked.jobId error, .error error), rfl, ?_⟩
        rw [← hd]
        exact .refused _ false
      | ok d =>
        obtain ⟨before, hbefore⟩ := (JobState.fromDict_ok asked.texts d).mpr (hstates hlock d hd)
        obtain ⟨answer, d', happlied, hall⟩ :=
          applyLocked_answers spec (hfloats d hd) hpatch hd hbefore
        refine ⟨(answer, .ok d'), ?_, hall⟩
        show (applyLocked asked spec patch files.replace d >>= _) = _
        rw [happlied]
        rfl


/-- **What a patch comes to**: why it could not apply to any job is said, or that nothing is the reason;
and if it could, all of it is changed on the job or none. -/
structure SetHolds (asked : Asked) (newJobId : String) (now : Nat) (patch : Dict String Json)
    (files : JobFiles) : Prop where
  total : ∃ answer, patchError asked.texts asked.formats now patch = .ok answer
  allOrNone : patchError asked.texts asked.formats now patch = .ok none →
    ∃ outcome, apply asked newJobId patch files = .ok outcome ∧
      AllOrNone asked.texts patch files outcome

/-- **A patch is judged, and changes all or nothing, exactly when no value that is come to raises**, and
for a patch that is accepted no reader of the job's files does. -/
theorem set_holds_iff (hfloats : ∀ d, files.state = .ok d → BinaryFloats asked.texts d) :
    SetHolds asked newJobId now patch files ↔
      EntriesFit asked.texts now patch.entries ∧
        (AcceptsPatch asked.texts now patch → FilesFit asked.texts files) := by
  constructor
  · rintro ⟨htotal, hall⟩
    refine ⟨patchError_answers.mp htotal, fun hpatch => ?_⟩
    exact (apply_answers hfloats hpatch).mp (hall (patchError_eq_none.mpr hpatch))
  · rintro ⟨hfits, hfiles⟩
    refine ⟨patchError_answers.mpr hfits, fun hnone => ?_⟩
    have hpatch := patchError_eq_none.mp hnone
    exact (apply_answers hfloats hpatch).mpr (hfiles hpatch)

end Job

/-- Numbers are printed as nothing, and no stamp names a date. -/
def plainFormats : Formats :=
  { general := fun _ => ""
    whole := fun _ => ""
    parseTime := fun _ => none }

/-- A job is asked to change, with the first date as the current one. -/
def asking : Asked := { texts := plainTexts, formats := plainFormats, now := 0, jobId := "j" }

/-- A job that is queued, and has no spec to read. -/
def queuedFiles : JobFiles :=
  { isDir := true
    spec := .error "could not read it"
    lock := .ok ()
    state := .ok (.obj [("priority", .int 50)])
    replace := .ok () }

theorem set_holds_iff_priority :
    SetHolds asking "new" 0 (.ofList [("priority", .int 5)]) queuedFiles := by
  have hfloats : ∀ d, queuedFiles.state = .ok d → BinaryFloats asking.texts d := by
    intro d hd
    obtain rfl := Except.ok.inj hd
    refine ⟨nofun, fun k x hget => ?_⟩
    have hmem := Dict.mem_of_get?_ofList hget
    simp at hmem
  have hjudged : (patchError plainTexts plainFormats 0 (.ofList [("priority", .int 5)])).isOk = true := by
    decide +kernel
  have hread : (JobState.fromDict plainTexts (.obj [("priority", .int 50)])).isOk = true := by
    decide +kernel
  apply (set_holds_iff hfloats).mpr
  constructor
  · exact (@patchError_answers plainTexts plainFormats 0 _).mp (exists_of_isOk hjudged)
  · refine fun _ _ => ⟨nofun, fun _ d hd => ?_⟩
    obtain rfl := Except.ok.inj hd
    exact (JobState.fromDict_ok plainTexts _).mp (exists_of_isOk hread)

/-- **A limit of more minutes than there are floats raises.** -/
theorem hugeLimit_raises :
    patchError plainTexts plainFormats 0 (.ofList [("max_runtime_min", .int (10 ^ 309))])
      = .error .overflowError := by
  decide +kernel

end Gpuc.Host.Documents
