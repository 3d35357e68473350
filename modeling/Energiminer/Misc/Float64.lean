import Mathlib.Algebra.Order.Field.Power
import Mathlib.Data.Rat.Floor
import Mathlib.Tactic.Linarith
import Mathlib.Tactic.Positivity

/-!
# Finite binary64 numbers

A finite double is an integer of at most 53 bits times a power of two. The operations round the
exact result to nearest, ties to even; the exponent is not bounded, so what would overflow to
infinity is a number above every machine integer instead. `toRat` is the number itself.
-/

namespace Energiminer.Misc

/-- The number `mant * 2 ^ expo`. -/
structure F64 where
  mant : Int
  expo : Int
  bound : mant.natAbs < 2 ^ 53
  deriving DecidableEq

/-- `n / 2 ^ k` to the nearest integer, ties to even. -/
def nearest (n k : Nat) : Nat :=
  let r := n % 2 ^ k
  if 2 ^ k < 2 * r ∨ (2 * r = 2 ^ k ∧ n / 2 ^ k % 2 = 1) then n / 2 ^ k + 1 else n / 2 ^ k

/-- A magnitude rounded to 53 bits: the mantissa and the number of bits it was shifted by. -/
def roundMant (n : Nat) : Nat × Nat :=
  let k := n.log2 - 52
  if nearest n k = 2 ^ 53 then (2 ^ 52, k + 1) else (nearest n k, k)

theorem le_nearest (n k : Nat) : n / 2 ^ k ≤ nearest n k := by
  rw [nearest]
  split <;> omega

theorem nearest_le (n k : Nat) : nearest n k ≤ n / 2 ^ k + 1 := by
  rw [nearest]
  split <;> omega

theorem roundMant_lt (n : Nat) : (roundMant n).1 < 2 ^ 53 := by
  have hn : n < 2 ^ (n.log2 - 52) * 2 ^ 53 := by
    rw [← Nat.pow_add]
    exact Nat.lt_of_lt_of_le Nat.lt_log2_self (Nat.pow_le_pow_right (by decide) (by omega))
  have hq : n / 2 ^ (n.log2 - 52) < 2 ^ 53 := Nat.div_lt_of_lt_mul hn
  have hle := nearest_le n (n.log2 - 52)
  rw [roundMant]
  split
  next => exact (by decide : 2 ^ 52 < 2 ^ 53)
  next hne => exact Nat.lt_of_le_of_ne (Nat.le_trans hle hq) hne

/-- Rounding keeps at least half of a magnitude. -/
theorem le_two_mul_roundMant (n : Nat) : n ≤ 2 * ((roundMant n).1 * 2 ^ (roundMant n).2) := by
  have hpos : 0 < 2 ^ (n.log2 - 52) := Nat.two_pow_pos _
  -- the quotient is not zero, so what is cut off is below it
  have hquot : n ≤ 2 * (n / 2 ^ (n.log2 - 52) * 2 ^ (n.log2 - 52)) := by
    rcases Nat.eq_zero_or_pos n with h0 | h0
    · omega
    · have hle : 2 ^ (n.log2 - 52) ≤ n :=
        Nat.le_trans (Nat.pow_le_pow_right (by decide) (Nat.sub_le _ _))
          (Nat.log2_self_le (by omega))
      have hone := Nat.mul_le_mul_right (2 ^ (n.log2 - 52)) (Nat.div_pos hle hpos)
      have hdiv := Nat.div_add_mod' n (2 ^ (n.log2 - 52))
      have hmod := Nat.mod_lt n hpos
      omega
  have hnear : n ≤ 2 * (nearest n (n.log2 - 52) * 2 ^ (n.log2 - 52)) :=
    Nat.le_trans hquot (Nat.mul_le_mul_left 2 (Nat.mul_le_mul_right _ (le_nearest _ _)))
  rw [roundMant]
  split
  next heq =>
    -- the carry into the 54th bit moves to the exponent
    have hcarry : 2 ^ 52 * 2 ^ (n.log2 - 52 + 1) = 2 ^ 53 * 2 ^ (n.log2 - 52) := by
      rw [Nat.pow_succ 2 (n.log2 - 52)]
      ring
    rw [heq, ← hcarry] at hnear
    exact hnear
  next => exact hnear

namespace F64

/-- The number. -/
def toRat (x : F64) : ℚ := x.mant * 2 ^ x.expo

/-- The double nearest to `± n * 2 ^ e`. -/
def round (negative : Bool) (n : Nat) (e : Int) : F64 where
  mant := if negative then -((roundMant n).1 : Int) else (roundMant n).1
  expo := (roundMant n).2 + e
  bound := by
    have h := roundMant_lt n
    split <;> simpa using h

/-- The conversion of an integer. -/
def ofInt (i : Int) : F64 := round (decide (i < 0)) i.natAbs 0

/-- The product of two doubles. -/
def mul (x y : F64) : F64 :=
  round (decide (x.mant * y.mant < 0)) (x.mant * y.mant).natAbs (x.expo + y.expo)

/-- `x < y`, both brought to the smaller exponent. -/
def lt (x y : F64) : Bool :=
  let e := min x.expo y.expo
  decide (x.mant * 2 ^ (x.expo - e).toNat < y.mant * 2 ^ (y.expo - e).toNat)

/-- The integer part, towards zero. -/
def trunc (x : F64) : Int :=
  if 0 ≤ x.expo then x.mant * 2 ^ x.expo.toNat else x.mant.tdiv (2 ^ (-x.expo).toNat)

/-- The conversion to `uint64_t`, where it is defined. -/
def toUint64 (x : F64) : Option (BitVec 64) :=
  if 0 ≤ x.trunc ∧ x.trunc < 2 ^ 64 then some (BitVec.ofInt 64 x.trunc) else none

theorem zpow_sub_toNat {e m : Int} (h : m ≤ e) : (2 : ℚ) ^ (e - m).toNat * 2 ^ m = 2 ^ e := by
  rw [← zpow_natCast, ← zpow_add₀ (by norm_num), Int.toNat_of_nonneg (by omega)]
  congr 1
  omega

theorem lt_iff (x y : F64) : x.lt y ↔ x.toRat < y.toRat := by
  have hscale : (0 : ℚ) < 2 ^ min x.expo y.expo := by positivity
  rw [lt, decide_eq_true_iff, toRat, toRat, ← zpow_sub_toNat (min_le_left x.expo y.expo),
    ← zpow_sub_toNat (min_le_right x.expo y.expo), ← mul_assoc, ← mul_assoc,
    mul_lt_mul_iff_left₀ hscale]
  exact_mod_cast Iff.rfl

/-- The product of positive doubles is at least half of the exact product. -/
theorem half_mul_le (x y : F64) (hx : 0 < x.mant) (hy : 0 < y.mant) :
    x.toRat * y.toRat ≤ 2 * (x.mul y).toRat := by
  have hprod : 0 < x.mant * y.mant := Int.mul_pos hx hy
  have hle := le_two_mul_roundMant (x.mant * y.mant).natAbs
  have hcast : ((x.mant * y.mant : Int) : ℚ) ≤
      2 * ((roundMant (x.mant * y.mant).natAbs).1 * 2 ^ (roundMant (x.mant * y.mant).natAbs).2) := by
    rw [← Int.natAbs_of_nonneg hprod.le]
    exact_mod_cast hle
  have hscale : (0 : ℚ) < 2 ^ (x.expo + y.expo) := by positivity
  have hneg : ¬ x.mant * y.mant < 0 := not_lt.mpr hprod.le
  calc x.toRat * y.toRat
      = (x.mant * y.mant : Int) * 2 ^ (x.expo + y.expo) := by
        rw [toRat, toRat, zpow_add₀ (by norm_num)]
        push_cast
        ring
    _ ≤ 2 * ((roundMant (x.mant * y.mant).natAbs).1 *
          2 ^ (roundMant (x.mant * y.mant).natAbs).2) * 2 ^ (x.expo + y.expo) :=
        mul_le_mul_of_nonneg_right hcast hscale.le
    _ = 2 * (x.mul y).toRat := by
        rw [toRat, mul, round]
        simp only [hneg, decide_false, Bool.false_eq_true, if_false]
        rw [zpow_add₀ (by norm_num) ((roundMant _).2 : Int), zpow_natCast]
        push_cast
        ring

theorem one_le_trunc (x : F64) (h : 1 ≤ x.toRat) : 1 ≤ x.trunc := by
  have hscale : (0 : ℚ) < 2 ^ x.expo := by positivity
  have hmant : 0 < x.mant := by
    by_contra hle
    have : (x.mant : ℚ) ≤ 0 := by exact_mod_cast not_lt.mp hle
    have := mul_nonpos_of_nonpos_of_nonneg this hscale.le
    rw [toRat] at h
    linarith
  rw [trunc]
  split
  next hexp =>
    have : (0 : Int) < 2 ^ x.expo.toNat := by positivity
    exact Int.mul_pos hmant this
  next hexp =>
    have hge : ((2 ^ (-x.expo).toNat : Int) : ℚ) ≤ x.mant := by
      have hinv : (2 : ℚ) ^ (-x.expo).toNat = (2 ^ x.expo)⁻¹ := by
        rw [← zpow_natCast, Int.toNat_of_nonneg (by omega), zpow_neg]
      push_cast
      rw [hinv, inv_le_iff_one_le_mul₀ hscale]
      exact h
    have hge : (2 ^ (-x.expo).toNat : Int) ≤ x.mant := by exact_mod_cast hge
    rw [Int.tdiv_eq_ediv_of_nonneg hmant.le]
    exact (Int.le_ediv_iff_mul_le (by positivity)).mpr (by simpa using hge)

end F64

end Energiminer.Misc
