import Mathlib.Tactic.Ring
import Gpuc.Basis.Json

/-!
# Integers and binary64

An integer becomes the float nearest to it, of two as near the one whose last bit is zero, and none
when that float would be past the largest; a float becomes the integer it has before the point, and an
infinity or no number becomes none.

`roundNat` rounds a natural to 53 significant bits. The law is where it leaves the format
(`ofInt_eq_none`): at half a step past the largest finite float (`overflow`).
-/

set_option autoImplicit false

namespace Gpuc.Basis

/-! ## Rounding to an even last bit -/

/-- `n / d`, rounded to the nearest, and of two as near to the even one. -/
def halfEven (n d : Nat) : Nat :=
  if 2 * (n % d) < d ∨ (2 * (n % d) = d ∧ n / d % 2 = 0) then n / d else n / d + 1

section HalfEven
variable {n d m : Nat}

/-- What is at least a whole number rounds to at least it. -/
theorem le_halfEven (hd : 0 < d) (h : m * d ≤ n) : m ≤ halfEven n d := by
  have hfloor : m ≤ n / d := (Nat.le_div_iff_mul_le hd).mpr h
  unfold halfEven
  split <;> omega

/-- What is at most a whole number rounds to at most it. -/
theorem halfEven_le (hd : 0 < d) (h : n ≤ m * d) : halfEven n d ≤ m := by
  have hsplit : n / d * d + n % d = n := Nat.div_add_mod' n d
  have hrest : n % d < d := Nat.mod_lt n hd
  unfold halfEven
  rcases Nat.lt_or_ge (n / d) m with hlt | hge
  · split <;> omega
  · -- the quotient is the whole number itself, with nothing left of it
    have hmul : m * d ≤ n / d * d := Nat.mul_le_mul_right d hge
    have hzero : n % d = 0 := by omega
    have hquotient : n / d = m := Nat.eq_of_mul_eq_mul_right hd (by omega)
    rw [if_pos (.inl (by omega))]
    omega

/-- **A number rounds to an even one or past it from half a step below it on.** -/
theorem le_halfEven_iff (hd : 0 < d) (heven : m % 2 = 0) :
    m ≤ halfEven n d ↔ 2 * m * d ≤ 2 * n + d := by
  have hsplit : n / d * d + n % d = n := Nat.div_add_mod' n d
  have hrest : n % d < d := Nat.mod_lt n hd
  rcases Nat.lt_or_ge (n / d) m with hlt | hge
  · rcases Nat.lt_or_ge (n / d + 1) m with hfar | hnear
    · -- more than a step below
      have hmul : (n / d + 2) * d ≤ m * d := Nat.mul_le_mul_right d (by omega)
      have hbelow : halfEven n d < m := by
        unfold halfEven
        split <;> omega
      constructor
      · intro h; omega
      · intro h
        rw [add_mul] at hmul
        have : 2 * m * d = 2 * (m * d) := by ring
        omega
    · -- within the step below
      have hquotient : n / d + 1 = m := by omega
      have hodd : ¬ n / d % 2 = 0 := by omega
      have hmul : m * d = n / d * d + d := by rw [← hquotient]; ring
      have htwice : 2 * m * d = 2 * (m * d) := by ring
      unfold halfEven
      split
      · next h =>
        have hsmall : 2 * (n % d) < d := h.resolve_right fun h => hodd h.2
        constructor
        · intro h; omega
        · intro h; omega
      · next h =>
        have hlarge : ¬ 2 * (n % d) < d := fun hsmall => h (.inl hsmall)
        exact ⟨fun _ => by omega, fun _ => by omega⟩
  · have hmul : m * d ≤ n / d * d := Nat.mul_le_mul_right d hge
    have htwice : 2 * m * d = 2 * (m * d) := by ring
    exact ⟨fun _ => by omega, fun _ => le_halfEven hd (by omega)⟩

end HalfEven

namespace Float64

/-! ## An integer as a float -/

/-- The place of the last of 53 significant bits. -/
def shift (n : Nat) : Nat := n.log2 - 52

/-- **The natural with 53 significant bits that is nearest.** -/
def roundNat (n : Nat) : Nat := halfEven n (2 ^ shift n) * 2 ^ shift n

/-- The float nearest to an integer; none when there is no finite one as large. -/
def ofInt (n : Int) : Option Float64 :=
  let m := roundNat n.natAbs
  if 2 ^ 1024 ≤ m then none else some (.finite (n.sign * m))

/-- Half a step past the largest finite float. -/
def overflow : Nat := 2 ^ 1024 - 2 ^ 970

/-- The integer part of a float. -/
def toInt : Float64 → Option Int
  | .finite q => some (q.num.tdiv q.den)
  | .infinite _ | .nan => none

theorem roundNat_exact {n : Nat} (h : n < 2 ^ 53) : roundNat n = n := by
  have hlog : n.log2 < 53 := by
    rcases Nat.eq_zero_or_pos n with rfl | hpos
    · simp
    · exact (Nat.log2_lt (by omega)).mpr h
  have hshift : shift n = 0 := by unfold shift; omega
  rw [roundNat, hshift, pow_zero, mul_one]
  exact le_antisymm (halfEven_le one_pos (by omega)) (le_halfEven one_pos (by omega))

/-- **Where rounding leaves the format.** -/
theorem two_pow_le_roundNat {n : Nat} : 2 ^ 1024 ≤ roundNat n ↔ 2 ^ 1024 - 2 ^ 970 ≤ n := by
  rcases Nat.eq_zero_or_pos n with rfl | hpos
  · have hzero : roundNat 0 = 0 := roundNat_exact (by omega)
    rw [hzero]
    exact ⟨fun h => by omega, fun h => by omega⟩
  have hpow : ∀ k, 0 < 2 ^ k := fun k => Nat.two_pow_pos k
  have hlog : 2 ^ n.log2 ≤ n := Nat.log2_self_le (by omega)
  have hlog' : n < 2 ^ (n.log2 + 1) := Nat.lt_log2_self
  rcases Nat.lt_trichotomy n.log2 1023 with hsmall | hlast | hlarge
  · -- below half the range the rounding stays within it
    have hlast : 2 ^ (n.log2 + 1) ≤ 2 ^ 1023 := Nat.pow_le_pow_right (by omega) (by omega)
    have hn : n < 2 ^ 1023 := hlog'.trans_le hlast
    have hshift : shift n ≤ 970 := by unfold shift; omega
    have hround : roundNat n ≤ 2 ^ 1023 := by
      have hsplit : 2 ^ (1023 - shift n) * 2 ^ shift n = 2 ^ 1023 := by
        rw [← pow_add]; congr 1; omega
      rw [roundNat, ← hsplit]
      exact Nat.mul_le_mul_right _ (halfEven_le (hpow _) (by rw [hsplit]; omega))
    have hdouble : (2 : Nat) ^ 1024 = 2 * 2 ^ 1023 := pow_succ' 2 1023
    have hhalf : (2 : Nat) ^ 970 < 2 ^ 1023 := Nat.pow_lt_pow_right (by omega) (by omega)
    have hpos' := hpow 1023
    exact ⟨fun h => by omega, fun h => by omega⟩
  · -- in the last binade a step is `2 ^ 971`
    have hshift : shift n = 971 := by unfold shift; omega
    have hsplit : (2 : Nat) ^ 1024 = 2 ^ 53 * 2 ^ 971 := pow_add 2 53 971
    have hstep : (2 : Nat) ^ 971 = 2 * 2 ^ 970 := pow_succ' 2 970
    rw [roundNat, hshift, hsplit, Nat.mul_le_mul_right_iff (hpow 971),
      le_halfEven_iff (hpow 971) (by omega)]
    have hrearrange : 2 * 2 ^ 53 * 2 ^ 971 = 2 * (2 ^ 53 * 2 ^ 971 : Nat) := by ring
    rw [hrearrange, ← hsplit, hstep]
    have hbig : (2 : Nat) ^ 970 < 2 ^ 1024 := Nat.pow_lt_pow_right (by omega) (by omega)
    exact ⟨fun h => by omega, fun h => by omega⟩
  · -- past it everything has left
    have hn : 2 ^ 1024 ≤ n := le_trans (Nat.pow_le_pow_right (by omega) (by omega)) hlog
    have hround : 2 ^ 1024 ≤ roundNat n := by
      have hsplit : 2 ^ 52 * 2 ^ shift n = 2 ^ n.log2 := by
        rw [← pow_add]; congr 1; unfold shift; omega
      have hmant : 2 ^ 52 ≤ halfEven n (2 ^ shift n) := le_halfEven (hpow _) (by rw [hsplit]; omega)
      calc 2 ^ 1024 ≤ 2 ^ n.log2 := Nat.pow_le_pow_right (by omega) (by omega)
        _ = 2 ^ 52 * 2 ^ shift n := hsplit.symm
        _ ≤ roundNat n := Nat.mul_le_mul_right _ hmant
    exact ⟨fun _ => le_trans (Nat.sub_le _ _) hn, fun _ => hround⟩

/-- **An integer is too large for a float** from half a step past the largest one on. -/
theorem ofInt_eq_none {n : Int} : ofInt n = none ↔ overflow ≤ n.natAbs := by
  rw [overflow, ← two_pow_le_roundNat, ofInt]
  by_cases h : 2 ^ 1024 ≤ roundNat n.natAbs
  · exact ⟨fun _ => h, fun _ => if_pos h⟩
  · rw [if_neg h]
    exact ⟨fun hnone => (nomatch hnone), fun hbig => absurd hbig h⟩

/-! ## Integers of the format -/

/-- **A number of the format**: it has 53 significant bits, and is not past the largest. -/
def Binary64 : Float64 → Prop
  | .finite q => ∃ (m e : Int), m.natAbs < 2 ^ 53 ∧ e ≤ 971 ∧ q = m * (2 : ℚ) ^ e
  | .infinite _ | .nan => True

/-- A natural with 53 significant bits is its own rounding. -/
theorem roundNat_mul_pow {m e : Nat} (hm : m < 2 ^ 53) : roundNat (m * 2 ^ e) = m * 2 ^ e := by
  rcases Nat.eq_zero_or_pos m with rfl | hpos
  · rw [zero_mul]
    exact roundNat_exact (Nat.two_pow_pos 53)
  have hne : m * 2 ^ e ≠ 0 := (Nat.mul_pos hpos (Nat.two_pow_pos e)).ne'
  have hshift : shift (m * 2 ^ e) ≤ e := by
    have hlt : m * 2 ^ e < 2 ^ (53 + e) := by
      rw [pow_add]
      exact Nat.mul_lt_mul_of_pos_right hm (Nat.two_pow_pos e)
    have hlog := (Nat.log2_lt hne).mpr hlt
    unfold shift
    omega
  have hsplit : m * 2 ^ (e - shift (m * 2 ^ e)) * 2 ^ shift (m * 2 ^ e) = m * 2 ^ e := by
    rw [mul_assoc, ← pow_add, Nat.sub_add_cancel hshift]
  have hexact : halfEven (m * 2 ^ e) (2 ^ shift (m * 2 ^ e)) = m * 2 ^ (e - shift (m * 2 ^ e)) :=
    le_antisymm (halfEven_le (Nat.two_pow_pos _) hsplit.ge) (le_halfEven (Nat.two_pow_pos _) hsplit.le)
  rw [roundNat, hexact, hsplit]

/-- What a natural rounds to has 53 significant bits. -/
theorem exists_roundNat_eq (n : Nat) : ∃ m e, m < 2 ^ 53 ∧ roundNat n = m * 2 ^ e := by
  rcases Nat.lt_or_ge n (2 ^ 53) with hsmall | hlarge
  · exact ⟨n, 0, hsmall, by rw [roundNat_exact hsmall, pow_zero, mul_one]⟩
  have hlog : 53 ≤ n.log2 := (Nat.le_log2 (by omega)).mpr hlarge
  have hbound : halfEven n (2 ^ shift n) ≤ 2 ^ 53 := by
    apply halfEven_le (Nat.two_pow_pos _)
    have hsplit : 2 ^ 53 * 2 ^ shift n = 2 ^ (n.log2 + 1) := by
      rw [← pow_add]
      congr 1
      unfold shift
      omega
    rw [hsplit]
    exact Nat.lt_log2_self.le
  rcases hbound.lt_or_eq with hlt | heq
  · exact ⟨_, _, hlt, rfl⟩
  · refine ⟨2 ^ 52, shift n + 1, by omega, ?_⟩
    rw [roundNat, heq, ← pow_add, ← pow_add]
    congr 1
    omega

/-- An integer that is a float's stays what it is as one. -/
theorem ofInt_exact {n : Int} {m e : Nat} (hm : m < 2 ^ 53) (hn : n.natAbs = m * 2 ^ e)
    (hfits : n.natAbs < 2 ^ 1024) : ofInt n = some (.finite n) := by
  have hround : roundNat n.natAbs = n.natAbs := by rw [hn, roundNat_mul_pow hm]
  have hsign : (n.sign : ℚ) * (n.natAbs : ℚ) = n := by
    rw [← Int.cast_natCast, ← Int.cast_mul, Int.sign_mul_natAbs]
  unfold ofInt
  rw [hround, if_neg (not_le.mpr hfits), hsign]

/-- So does one of at most 53 bits. -/
theorem ofInt_small {n : Int} (hn : n.natAbs < 2 ^ 53) : ofInt n = some (.finite n) :=
  @ofInt_exact n _ 0 hn (by rw [pow_zero, mul_one])
    (hn.trans (Nat.pow_lt_pow_right (by omega) (by omega)))

@[simp] theorem toInt_intCast (n : Int) : (finite n).toInt = some n := by
  simp [toInt]

/-- **An integer that came of an integer is read again as it is.** -/
theorem ofInt_toInt_ofInt {n k : Int} {x : Float64} (hx : ofInt n = some x) (hk : x.toInt = some k) :
    ofInt k = some (.finite k) := by
  unfold ofInt at hx
  dsimp only at hx
  split at hx
  · cases hx
  · next hfits =>
    obtain rfl := Option.some.inj hx
    obtain ⟨m, e, hm, hround⟩ := exists_roundNat_eq n.natAbs
    have hcast : (n.sign : ℚ) * (roundNat n.natAbs : ℚ) = ((n.sign * roundNat n.natAbs : Int) : ℚ) := by
      push_cast
      rfl
    rw [hcast, toInt_intCast] at hk
    obtain rfl := Option.some.inj hk
    have habs : (n.sign * roundNat n.natAbs : Int).natAbs = roundNat n.natAbs := by
      rcases eq_or_ne n 0 with rfl | hne
      · rw [Int.natAbs_zero, roundNat_exact (Nat.two_pow_pos 53)]
        rfl
      · rw [Int.natAbs_mul, Int.natAbs_sign_of_ne_zero hne, one_mul, Int.natAbs_natCast]
    exact ofInt_exact hm (habs.trans hround) (by rw [habs]; exact not_le.mp hfits)

/-- **An integer that came of a float is read again as it is.** -/
theorem Binary64.ofInt_toInt {x : Float64} {k : Int} (hx : x.Binary64) (hk : x.toInt = some k) :
    ofInt k = some (.finite k) := by
  cases x with
  | infinite | nan => cases hk
  | finite q =>
    obtain ⟨m, e, hm, he, rfl⟩ := hx
    cases e with
    | ofNat e =>
      have hcast : (m : ℚ) * 2 ^ (Int.ofNat e) = ((m * 2 ^ e : Int) : ℚ) := by
        push_cast
        rfl
      rw [hcast, toInt_intCast] at hk
      obtain rfl := Option.some.inj hk
      have habs : (m * 2 ^ e : Int).natAbs = m.natAbs * 2 ^ e := by
        rw [Int.natAbs_mul, Int.natAbs_pow]
        rfl
      refine ofInt_exact hm habs ?_
      have hsplit : (2 : Nat) ^ 1024 = 2 ^ 53 * 2 ^ 971 := pow_add 2 53 971
      rw [habs, hsplit]
      exact Nat.mul_lt_mul_of_lt_of_le hm (Nat.pow_le_pow_right (by omega) (Int.ofNat_le.mp he))
        (Nat.two_pow_pos 971)
    | negSucc e =>
      -- a number with a fraction is below `2 ^ 53`
      generalize hq : (m : ℚ) * 2 ^ (Int.negSucc e) = q at hk
      have hcross : q.num * 2 ^ (e + 1) = m * q.den := by
        have hden : (q.den : ℚ) ≠ 0 := Nat.cast_ne_zero.mpr q.den_nz
        have hfrac : (q.num : ℚ) * 2 ^ (e + 1) = m * q.den := by
          have hpow : (2 : ℚ) ^ (e + 1) ≠ 0 := pow_ne_zero _ two_ne_zero
          have heq : (m : ℚ) / 2 ^ (e + 1) = q.num / q.den := by
            rw [Rat.num_div_den, ← hq, zpow_negSucc, div_eq_mul_inv]
          exact ((div_eq_div_iff hpow hden).mp heq).symm
        exact_mod_cast hfrac
      have hnum : q.num.natAbs ≤ m.natAbs * q.den := by
        have habs := congrArg Int.natAbs hcross
        rw [Int.natAbs_mul, Int.natAbs_mul, Int.natAbs_pow, Int.natAbs_natCast] at habs
        rw [← habs]
        exact Nat.le_mul_of_pos_right _ (Nat.two_pow_pos (e + 1))
      obtain rfl := Option.some.inj hk
      apply ofInt_small
      rw [Int.natAbs_tdiv, Int.natAbs_natCast]
      exact lt_of_le_of_lt (Nat.div_le_of_le_mul (by rwa [mul_comm])) hm

-- unfolding it would evaluate the power
attribute [irreducible] ofInt

end Float64

end Gpuc.Basis
