import Energiminer.Misc.Float64
import Mathlib.Data.Nat.Sqrt

/-!
# The order of doubles

Rounding to nearest is monotone and depends on the rounded number alone, not on the exponent it is
written with. So a product with a positive double is monotone, and so is the integer part.
-/

namespace Energiminer.Misc

/-- A magnitude after rounding. -/
def rounded (n : Nat) : Nat := nearest n (n.log2 - 52) * 2 ^ (n.log2 - 52)

theorem roundMant_value (n : Nat) : (roundMant n).1 * 2 ^ (roundMant n).2 = rounded n := by
  rw [roundMant, rounded]
  split
  next heq =>
    rw [heq, Nat.pow_succ 2 (n.log2 - 52)]
    ring
  next => rfl

theorem nearest_zero (n : Nat) : nearest n 0 = n := by
  simp [nearest, Nat.mod_one]

/-- What is scaled with its unit is rounded to the same number of units. -/
theorem nearest_two_mul (n k : Nat) : nearest (2 * n) (k + 1) = nearest n k := by
  have hpow : 2 ^ (k + 1) = 2 * 2 ^ k := by rw [Nat.pow_succ, Nat.mul_comm]
  rw [nearest, nearest, hpow, Nat.mul_div_mul_left _ _ (by decide), Nat.mul_mod_mul_left]
  have hless : 2 * 2 ^ k < 2 * (2 * (n % 2 ^ k)) ↔ 2 ^ k < 2 * (n % 2 ^ k) := by omega
  have htie : 2 * (2 * (n % 2 ^ k)) = 2 * 2 ^ k ↔ 2 * (n % 2 ^ k) = 2 ^ k := by omega
  simp only [hless, htie]

theorem nearest_mono {m n : Nat} (k : Nat) (h : m ≤ n) : nearest m k ≤ nearest n k := by
  have hpos := Nat.two_pow_pos k
  have hm := Nat.div_add_mod m (2 ^ k)
  have hn := Nat.div_add_mod n (2 ^ k)
  rcases Nat.lt_or_ge (m / 2 ^ k) (n / 2 ^ k) with hlt | hge
  · exact Nat.le_trans (nearest_le m k) (Nat.le_trans hlt (le_nearest n k))
  · -- in one unit the remainder decides, and a tie goes the same way
    have heq : m / 2 ^ k = n / 2 ^ k := Nat.le_antisymm (Nat.div_le_div_right h) hge
    rw [heq] at hm
    rw [nearest, nearest, heq]
    split
    next hup =>
      rw [if_pos]
      omega
    next => split <;> omega

theorem rounded_two_mul (n : Nat) : rounded (2 * n) = 2 * rounded n := by
  rcases Nat.eq_zero_or_pos n with rfl | hn
  · rfl
  · rw [rounded, rounded, Nat.log2_two_mul hn.ne']
    rcases Nat.lt_or_ge n.log2 52 with hlt | hge
    · rw [show n.log2 + 1 - 52 = 0 by omega, show n.log2 - 52 = 0 by omega, nearest_zero,
        nearest_zero]
      omega
    · rw [show n.log2 + 1 - 52 = n.log2 - 52 + 1 by omega, nearest_two_mul, Nat.pow_succ]
      ring

theorem rounded_mul_two_pow (n j : Nat) : rounded (n * 2 ^ j) = rounded n * 2 ^ j := by
  induction j with
  | zero => rw [Nat.pow_zero, Nat.mul_one, Nat.mul_one]
  | succ j ih =>
    rw [Nat.pow_succ, ← Nat.mul_assoc, Nat.mul_comm _ 2, rounded_two_mul, ih]
    ring

theorem rounded_le (n : Nat) : rounded n ≤ 2 ^ (n.log2 + 1) := by
  have hn : n < 2 ^ (n.log2 + 1) := Nat.lt_log2_self
  rw [rounded]
  rcases Nat.lt_or_ge n.log2 52 with hlt | hge
  · rw [show n.log2 - 52 = 0 by omega, nearest_zero]
    omega
  · have hsplit : 2 ^ (n.log2 + 1) = 2 ^ (n.log2 - 52) * 2 ^ 53 := by
      rw [← Nat.pow_add]
      congr 1
      omega
    have hquot : n / 2 ^ (n.log2 - 52) < 2 ^ 53 := Nat.div_lt_of_lt_mul (hsplit ▸ hn)
    have hnear := nearest_le n (n.log2 - 52)
    rw [hsplit, Nat.mul_comm]
    exact Nat.mul_le_mul_left _ (by omega)

theorem le_rounded {n : Nat} (hn : n ≠ 0) : 2 ^ n.log2 ≤ rounded n := by
  have hle := Nat.log2_self_le hn
  rw [rounded]
  rcases Nat.lt_or_ge n.log2 52 with hlt | hge
  · rw [show n.log2 - 52 = 0 by omega, nearest_zero]
    omega
  · have hsplit : 2 ^ n.log2 = 2 ^ 52 * 2 ^ (n.log2 - 52) := by
      rw [← Nat.pow_add]
      congr 1
      omega
    have hquot : 2 ^ 52 ≤ n / 2 ^ (n.log2 - 52) :=
      (Nat.le_div_iff_mul_le (Nat.two_pow_pos _)).mpr (hsplit ▸ hle)
    have hnear := le_nearest n (n.log2 - 52)
    rw [hsplit]
    exact Nat.mul_le_mul_right _ (by omega)

theorem rounded_mono {m n : Nat} (h : m ≤ n) : rounded m ≤ rounded n := by
  rcases Nat.eq_zero_or_pos m with rfl | hm
  · exact Nat.zero_le _
  · have hlog : m.log2 ≤ n.log2 := by
      rw [Nat.le_log2 (by omega)]
      exact Nat.le_trans (Nat.log2_self_le hm.ne') h
    rcases Nat.lt_or_ge m.log2 n.log2 with hlt | hge
    · calc rounded m ≤ 2 ^ (m.log2 + 1) := rounded_le m
        _ ≤ 2 ^ n.log2 := Nat.pow_le_pow_right (by decide) hlt
        _ ≤ rounded n := le_rounded (by omega)
    · rw [rounded, rounded, Nat.le_antisymm hlog hge]
      exact Nat.mul_le_mul_right _ (nearest_mono _ h)

theorem rounded_of_lt {n : Nat} (h : n < 2 ^ 53) : rounded n = n := by
  have hlog : n.log2 - 52 = 0 := by
    rcases Nat.eq_zero_or_pos n with rfl | hn
    · rfl
    · have hlt := (Nat.log2_lt hn.ne').mpr h
      omega
  rw [rounded, hlog, nearest_zero, Nat.pow_zero, Nat.mul_one]

/-- Rounding takes at most half a unit away. -/
theorem two_mul_le_rounded (n : Nat) : 2 * n ≤ 2 * rounded n + 2 ^ (n.log2 - 52) := by
  rw [rounded]
  generalize n.log2 - 52 = k
  have hdiv := Nat.div_add_mod' n (2 ^ k)
  have hmod := Nat.mod_lt n (Nat.two_pow_pos k)
  rw [nearest]
  split
  next =>
    rw [Nat.add_mul, Nat.one_mul]
    omega
  next => omega

/-- The root of `z`, rounded to nearest, is the largest number `r` with `r - 1 / 2` below it. -/
theorem le_sqrt_nearest {r z : Nat} (h : r * r < z + r) :
    r ≤ if z - Nat.sqrt z * Nat.sqrt z > Nat.sqrt z then Nat.sqrt z + 1 else Nat.sqrt z := by
  have hle := Nat.sqrt_le z
  have hlt := Nat.lt_succ_sqrt z
  generalize Nat.sqrt z = s at hle hlt ⊢
  have hsquare : s.succ * s.succ = s * s + s + (s + 1) := by
    rw [Nat.succ_eq_add_one]
    ring
  rcases Nat.lt_or_ge s r with hsr | hrs
  · obtain ⟨d, rfl⟩ : ∃ d, r = s + 1 + d := ⟨r - (s + 1), by omega⟩
    have hprod : (s + 1 + d) * (s + 1 + d) = s * s + s + d * (2 * s + 1 + d) + (s + 1 + d) := by
      ring
    rcases Nat.eq_zero_or_pos d with rfl | hd
    · rw [if_pos (by omega)]
    · have hmul := Nat.le_mul_of_pos_left (2 * s + 1 + d) hd
      omega
  · split <;> omega

namespace F64
variable {x y c : F64}

theorem toRat_round (n : Nat) (e : Int) : (round false n e).toRat = rounded n * 2 ^ e := by
  rw [toRat, round, ← roundMant_value]
  simp only [Bool.false_eq_true, if_false]
  rw [zpow_add₀ (by norm_num), zpow_natCast]
  push_cast
  ring

/-- Rounding keeps the order, whatever the exponents. -/
theorem toRat_round_mono {m n : Nat} {d e : Int} (h : (m : ℚ) * 2 ^ d ≤ n * 2 ^ e) :
    (round false m d).toRat ≤ (round false n e).toRat := by
  have hscale : (0 : ℚ) < 2 ^ min d e := by positivity
  rw [← zpow_sub_toNat (min_le_left d e), ← zpow_sub_toNat (min_le_right d e), ← mul_assoc,
    ← mul_assoc, mul_le_mul_iff_left₀ hscale] at h
  have hnat : m * 2 ^ (d - min d e).toNat ≤ n * 2 ^ (e - min d e).toNat := by exact_mod_cast h
  have hround := rounded_mono hnat
  rw [rounded_mul_two_pow, rounded_mul_two_pow] at hround
  rw [toRat_round, toRat_round, ← zpow_sub_toNat (min_le_left d e),
    ← zpow_sub_toNat (min_le_right d e), ← mul_assoc, ← mul_assoc, mul_le_mul_iff_left₀ hscale]
  exact_mod_cast hround

theorem mul_of_nonneg (hx : 0 ≤ x.mant) (hc : 0 ≤ c.mant) :
    x.mul c = round false (x.mant * c.mant).natAbs (x.expo + c.expo) := by
  have hneg : ¬ x.mant * c.mant < 0 := not_lt.mpr (Int.mul_nonneg hx hc)
  rw [mul, decide_eq_false hneg]

theorem exact_mul (hx : 0 ≤ x.mant) (hc : 0 ≤ c.mant) :
    ((x.mant * c.mant).natAbs : ℚ) * 2 ^ (x.expo + c.expo) = x.toRat * c.toRat := by
  have habs : (((x.mant * c.mant).natAbs : Int) : ℚ) = x.mant * c.mant := by
    rw [Int.natAbs_of_nonneg (Int.mul_nonneg hx hc)]
    push_cast
    rfl
  rw [Int.cast_natCast] at habs
  rw [habs, toRat, toRat, zpow_add₀ (by norm_num)]
  ring

theorem mul_mono (hx : 0 ≤ x.mant) (hy : 0 ≤ y.mant) (hc : 0 ≤ c.mant) (h : x.toRat ≤ y.toRat) :
    (x.mul c).toRat ≤ (y.mul c).toRat := by
  have hcr : 0 ≤ c.toRat := mul_nonneg (by exact_mod_cast hc) (by positivity)
  rw [mul_of_nonneg hx hc, mul_of_nonneg hy hc]
  apply toRat_round_mono
  rw [exact_mul hx hc, exact_mul hy hc]
  exact mul_le_mul_of_nonneg_right h hcr

theorem trunc_eq_floor (hx : 0 ≤ x.mant) : x.trunc = ⌊x.toRat⌋ := by
  rw [trunc, toRat]
  split
  next hexp =>
    have hcast : (x.mant : ℚ) * 2 ^ x.expo = ((x.mant * 2 ^ x.expo.toNat : Int) : ℚ) := by
      push_cast
      rw [← zpow_natCast, Int.toNat_of_nonneg hexp]
    rw [hcast, Int.floor_intCast]
  next hexp =>
    have hcast : (x.mant : ℚ) * 2 ^ x.expo = (x.mant : ℚ) / ((2 ^ (-x.expo).toNat : Nat) : ℚ) := by
      push_cast
      rw [← zpow_natCast, Int.toNat_of_nonneg (by omega), zpow_neg, div_inv_eq_mul]
    rw [hcast, Rat.floor_intCast_div_natCast, Int.tdiv_eq_ediv_of_nonneg hx]
    push_cast
    rfl

theorem trunc_mono (hx : 0 ≤ x.mant) (hy : 0 ≤ y.mant) (h : x.toRat ≤ y.toRat) :
    x.trunc ≤ y.trunc := by
  rw [trunc_eq_floor hx, trunc_eq_floor hy]
  exact Int.floor_mono h

theorem mant_round_nonneg (n : Nat) (e : Int) : 0 ≤ (round false n e).mant := by
  rw [round]
  exact Int.natCast_nonneg _

theorem mant_nonneg (h : 0 ≤ x.toRat) : 0 ≤ x.mant := by
  have hscale : (0 : ℚ) < 2 ^ x.expo := by positivity
  have hmant := nonneg_of_mul_nonneg_left h hscale
  exact_mod_cast hmant

end F64

end Energiminer.Misc
