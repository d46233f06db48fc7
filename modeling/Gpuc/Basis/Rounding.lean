import Mathlib.Data.Int.Log
import Mathlib.Data.Rat.Floor
import Gpuc.Basis.Float64

/-!
# Rounding to binary64

The float nearest to a rational, of two as near the one whose last bit is zero, an infinity past the
largest; and a product of floats, which is the product rounded. A zero has no sign here.

The law is that rounding does not pass a power of two (`le_round`).
-/

set_option autoImplicit false

namespace Gpuc.Basis.Float64

/-- The place of the last bit of a float as large: of 53 significant ones, or of the smallest floats. -/
def place (q : ℚ) : Int := max (Int.log 2 |q| - 52) (-1074)

/-- How many steps of that place it is, rounded. -/
def steps (q : ℚ) : Nat :=
  halfEven (q.num.natAbs * 2 ^ (-place q).toNat) (q.den * 2 ^ (place q).toNat)

/-- **The float nearest to a rational.** -/
def round (q : ℚ) : Float64 :=
  let size : ℚ := steps q * 2 ^ place q
  if 2 ^ 1024 ≤ size then .infinite (q < 0) else .finite (q.num.sign * size)

/-- **The product of two floats**: of an infinity and zero there is none. -/
def mul : Float64 → Float64 → Float64
  | .finite p, .finite q => round (p * q)
  | .infinite negative, .finite q | .finite q, .infinite negative =>
    if q = 0 then .nan else .infinite (negative != decide (q < 0))
  | .infinite negative, .infinite negative' => .infinite (negative != negative')
  | .nan, _ | _, .nan => .nan

/-- Is a float at most another? -/
def le : Float64 → Float64 → Bool
  | .finite p, .finite q => p ≤ q
  | .infinite negative, .finite _ => negative
  | .finite _, .infinite negative => !negative
  | .infinite negative, .infinite negative' => negative || !negative'
  | .nan, _ | _, .nan => false

/-- A power of two, in parts that are no fractions. -/
theorem two_zpow_mul (e : Int) : (2 : ℚ) ^ e * 2 ^ (-e).toNat = 2 ^ e.toNat := by
  rw [← zpow_natCast, ← zpow_natCast, ← zpow_add₀ two_ne_zero]
  congr 1
  omega

/-- A number that is not among the smallest has all its significant bits. -/
theorem le_steps {q : ℚ} (hq : 0 < q) (hplace : place q = Int.log 2 q - 52) : 2 ^ 52 ≤ steps q := by
  have hlog : (2 : ℚ) ^ 52 * 2 ^ place q ≤ q := by
    have hself : (2 : ℚ) ^ Int.log 2 q ≤ q := Int.zpow_log_le_self one_lt_two hq
    have hsum : Int.log 2 q = 52 + place q := by omega
    rw [hsum, zpow_add₀ two_ne_zero] at hself
    exact hself
  have hnum : (q.num.natAbs : ℚ) = q * q.den := by
    rw [Rat.mul_den_eq_num, ← Int.cast_natCast, Int.natCast_natAbs, abs_of_pos (Rat.num_pos.mpr hq)]
  apply le_halfEven (Nat.mul_pos q.den_pos (Nat.two_pow_pos _))
  have hcross : (2 : ℚ) ^ 52 * (q.den * 2 ^ (place q).toNat) ≤ q.num.natAbs * 2 ^ (-place q).toNat :=
    calc (2 : ℚ) ^ 52 * (q.den * 2 ^ (place q).toNat)
        = 2 ^ 52 * 2 ^ place q * (q.den * 2 ^ (-place q).toNat) := by rw [← two_zpow_mul]; ring
      _ ≤ q * (q.den * 2 ^ (-place q).toNat) := by
        apply mul_le_mul_of_nonneg_right hlog
        positivity
      _ = q.num.natAbs * 2 ^ (-place q).toNat := by rw [hnum, mul_assoc]
  exact_mod_cast hcross

/-- **Rounding does not pass a power of two.** -/
theorem le_round {q : ℚ} {k : Int} (hk : -1022 ≤ k) (h : 2 ^ k ≤ q) :
    round q = .infinite false ∨ ∃ x, round q = .finite x ∧ 2 ^ k ≤ x := by
  have hq : 0 < q := lt_of_lt_of_le (zpow_pos two_pos k) h
  have hlog : k ≤ Int.log 2 q := (Int.zpow_le_iff_le_log one_lt_two hq).mp h
  have hplace : place q = Int.log 2 q - 52 := by
    rw [place, abs_of_pos hq]
    omega
  have hsize : (2 : ℚ) ^ k ≤ steps q * 2 ^ place q :=
    calc (2 : ℚ) ^ k ≤ 2 ^ (52 + place q) := zpow_le_zpow_right₀ one_le_two (by omega)
      _ = 2 ^ 52 * 2 ^ place q := zpow_add₀ two_ne_zero 52 _
      _ ≤ steps q * 2 ^ place q := by
        apply mul_le_mul_of_nonneg_right _ (zpow_pos two_pos _).le
        exact_mod_cast le_steps hq hplace
  unfold round
  dsimp only
  split
  · exact .inl (congrArg _ (decide_eq_false (not_lt.mpr hq.le)))
  · refine .inr ⟨_, rfl, ?_⟩
    rw [Int.sign_eq_one_of_pos (Rat.num_pos.mpr hq), Int.cast_one, one_mul]
    exact hsize

/-- An integer past the bits of a float stays past them. -/
theorem le_of_ofInt {n : Int} {x : Float64} (hn : 2 ^ 53 ≤ n) (hx : ofInt n = some x) :
    ∃ q : ℚ, x = .finite q ∧ 2 ^ 53 ≤ q := by
  have habs : 2 ^ 53 ≤ n.natAbs := by omega
  have hlog : 53 ≤ n.natAbs.log2 := (Nat.le_log2 (by omega)).mpr habs
  have hround : 2 ^ 53 ≤ roundNat n.natAbs := by
    have hsplit : 2 ^ 52 * 2 ^ shift n.natAbs = 2 ^ n.natAbs.log2 := by
      rw [← pow_add]
      congr 1
      unfold shift
      omega
    calc 2 ^ 53 ≤ 2 ^ n.natAbs.log2 := Nat.pow_le_pow_right two_pos hlog
      _ = 2 ^ 52 * 2 ^ shift n.natAbs := hsplit.symm
      _ ≤ roundNat n.natAbs := by
        apply Nat.mul_le_mul_right
        apply le_halfEven (Nat.two_pow_pos _)
        rw [hsplit]
        exact Nat.log2_self_le (by omega)
  unfold ofInt at hx
  dsimp only at hx
  split at hx
  · cases hx
  · refine ⟨_, (Option.some.inj hx).symm, ?_⟩
    rw [Int.sign_eq_one_of_pos (by omega), Int.cast_one, one_mul]
    exact_mod_cast hround

/-- What is at least an integer has at least it before the point. -/
theorem le_toInt {q : ℚ} {m k : Int} (hm : 0 ≤ m) (hq : (m : ℚ) ≤ q)
    (hk : (finite q).toInt = some k) : m ≤ k := by
  obtain rfl := Option.some.inj hk
  have hcross : m * q.den ≤ q.num := by
    have hscaled : (m : ℚ) * q.den ≤ q.num :=
      calc (m : ℚ) * q.den ≤ q * q.den := mul_le_mul_of_nonneg_right hq q.den.cast_nonneg
        _ = q.num := Rat.mul_den_eq_num q
    exact_mod_cast hscaled
  have hden : (0 : Int) < q.den := Int.natCast_pos.mpr q.den_pos
  have hnum : 0 ≤ q.num := le_trans (mul_nonneg hm hden.le) hcross
  rw [Int.tdiv_eq_ediv_of_nonneg hnum]
  exact (Int.le_ediv_iff_mul_le hden).mpr hcross

end Gpuc.Basis.Float64
