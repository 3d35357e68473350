import Energiminer.Misc.Float64
import Energiminer.Primitives.ArithOps

/-!
# Difficulty

`diffToTarget` of `StratumClient.cpp:11-20`. The conversion of a double to `uint64_t` is undefined
from `2 ^ 64` upwards; below that the scaled difficulty is never zero, since `processResponse`
raises a difficulty to `0.0001` first, so the division does not throw.
-/

namespace Energiminer.Stratum
open Misc Primitives

/-- `DIFF1_TARGET`, `0x00000000ffff0000…`. -/
def DIFF1_TARGET : ArithUint256 := ⟨#v[0, 0, 0, 0, 0, 0, 0xffff0000, 0]⟩

/-- `DIFF_MULT`, the double `10e4`. -/
def DIFF_MULT : F64 := ⟨100000, 0, by decide⟩

/-- The double nearest to `0.0001`. -/
def minDifficulty : F64 := ⟨7378697629483821, -66, by decide⟩

/-- `std::max(diff, 0.0001)`. -/
def raiseDifficulty (diff : F64) : F64 := if diff.lt minDifficulty then minDifficulty else diff

/-- Why `diffToTarget` may not give a target. -/
inductive DifficultyFault
  /-- the conversion of the scaled difficulty to `uint64_t` is undefined -/
  | undefinedConversion
  /-- the division throws -/
  | threw (e : Exn)
  deriving DecidableEq

/-- What `diffToTarget` does after the conversion, with the operators of `arith_uint256`. -/
def scaledTarget (mdiff : BitVec 64) : Except Exn ArithUint256 := do
  let target ← DIFF1_TARGET.div (.ofUint64 mdiff)
  pure (target.mulUint32 100000)

/-- `diffToTarget` (`StratumClient.cpp:11-20`). -/
def diffToTarget (diff : F64) : Except DifficultyFault ArithUint256 :=
  match (diff.mul DIFF_MULT).toUint64 with
  | none => .error .undefinedConversion
  | some mdiff => (scaledTarget mdiff).mapError .threw

/-- The scaled difficulty fits 64 bits. -/
def ConvertibleDifficulty (diff : F64) : Prop := (diff.mul DIFF_MULT).trunc < 2 ^ 64

instance (diff : F64) : Decidable (ConvertibleDifficulty diff) := by
  unfold ConvertibleDifficulty; infer_instance

theorem minDifficulty_le_raise (diff : F64) :
    minDifficulty.toRat ≤ (raiseDifficulty diff).toRat := by
  rw [raiseDifficulty]
  split
  next => exact le_refl _
  next h => exact not_lt.mp fun hlt => h ((F64.lt_iff _ _).mpr hlt)

theorem toRat_minDifficulty : minDifficulty.toRat = 7378697629483821 / 2 ^ 66 := by
  norm_num [F64.toRat, minDifficulty]

/-- A raised difficulty, scaled, has a positive integer part. -/
theorem one_le_trunc_scaled (diff : F64) :
    1 ≤ ((raiseDifficulty diff).mul DIFF_MULT).trunc := by
  have hmin := minDifficulty_le_raise diff
  rw [toRat_minDifficulty] at hmin
  have hmant : 0 < (raiseDifficulty diff).mant := by
    by_contra hle
    have hcast : ((raiseDifficulty diff).mant : ℚ) ≤ 0 := by exact_mod_cast not_lt.mp hle
    have hscale : (0 : ℚ) < 2 ^ (raiseDifficulty diff).expo := by positivity
    have hnonpos := mul_nonpos_of_nonpos_of_nonneg hcast hscale.le
    rw [F64.toRat] at hmin
    norm_num at hmin
    linarith
  have hhalf := F64.half_mul_le (raiseDifficulty diff) DIFF_MULT hmant (by decide)
  have hmult : DIFF_MULT.toRat = 100000 := by norm_num [F64.toRat, DIFF_MULT]
  apply F64.one_le_trunc
  rw [hmult] at hhalf
  norm_num at hmin
  linarith

/-- A target is computed exactly for the difficulties whose scaled value fits 64 bits. -/
theorem diffToTarget_raise_ok_iff (diff : F64) :
    (∃ target, diffToTarget (raiseDifficulty diff) = .ok target) ↔
      ConvertibleDifficulty (raiseDifficulty diff) := by
  have hone := one_le_trunc_scaled diff
  rw [diffToTarget, ConvertibleDifficulty, F64.toUint64]
  by_cases hfit : ((raiseDifficulty diff).mul DIFF_MULT).trunc < 2 ^ 64
  · have hrange : 0 ≤ ((raiseDifficulty diff).mul DIFF_MULT).trunc ∧
        ((raiseDifficulty diff).mul DIFF_MULT).trunc < 2 ^ 64 := ⟨by omega, hfit⟩
    have hne : BitVec.ofInt 64 ((raiseDifficulty diff).mul DIFF_MULT).trunc ≠ 0 := by
      intro h
      have htoNat := congrArg BitVec.toNat h
      rw [BitVec.toNat_ofInt] at htoNat
      simp only [BitVec.ofNat_eq_ofNat, BitVec.toNat_ofNat] at htoNat
      omega
    obtain ⟨q, hq⟩ := ArithUint256.div_ofUint64_ok DIFF1_TARGET hne
    rw [if_pos hrange]
    simp only [scaledTarget, hq]
    exact ⟨fun _ => hfit, fun _ => ⟨_, rfl⟩⟩
  · have hrange : ¬ (0 ≤ ((raiseDifficulty diff).mul DIFF_MULT).trunc ∧
        ((raiseDifficulty diff).mul DIFF_MULT).trunc < 2 ^ 64) := fun h => hfit h.2
    rw [if_neg hrange]
    refine ⟨fun h => ?_, fun h => absurd h hfit⟩
    obtain ⟨_, h⟩ := h
    cases h

end Energiminer.Stratum
