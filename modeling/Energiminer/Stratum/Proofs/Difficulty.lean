import Energiminer.Misc.Float64Order
import Energiminer.Primitives.Proofs.ArithOps
import Energiminer.Stratum.Difficulty

/-!
# Targets of difficulties

`diffToTarget` divides `DIFF1_TARGET` by the scaled difficulty and multiplies the quotient by the
scale again, in 256 bits. Nothing overflows, and the target falls as the difficulty rises.
-/

namespace Energiminer.Stratum
open Misc Primitives ArithUint256

theorem toNat_DIFF1_TARGET : DIFF1_TARGET.toNat = 0xffff0000 * 2 ^ 192 := by decide

variable {mdiff mdiff' : BitVec 64} {target target' : ArithUint256}

/-- The division is exact, and the product fits 256 bits. -/
theorem scaledTarget_ok (h : 1 ≤ mdiff.toNat) : ∃ target, scaledTarget mdiff = .ok target ∧
    target.toNat = DIFF1_TARGET.toNat / mdiff.toNat * 100000 := by
  have hne : (ofUint64 mdiff).toNat ≠ 0 := by
    rw [toNat_ofUint64]
    omega
  obtain ⟨q, hq, hquot⟩ := div_ok DIFF1_TARGET (ofUint64 mdiff) hne
  rw [toNat_ofUint64] at hquot
  refine ⟨q.mulUint32 100000, ?_, ?_⟩
  · rw [scaledTarget, hq]
    rfl
  · have hle : q.toNat ≤ DIFF1_TARGET.toNat := hquot ▸ Nat.div_le_self _ _
    rw [toNat_DIFF1_TARGET] at hle
    rw [toNat_mulUint32, ← hquot, show (100000 : BitVec 32).toNat = 100000 from rfl,
      Nat.mod_eq_of_lt (by omega)]

theorem scaledTarget_toNat (h : 1 ≤ mdiff.toNat) (hok : scaledTarget mdiff = .ok target) :
    target.toNat = DIFF1_TARGET.toNat / mdiff.toNat * 100000 := by
  obtain ⟨t, ht, htoNat⟩ := scaledTarget_ok h
  rw [hok] at ht
  cases ht
  exact htoNat

theorem diffToTarget_of_toUint64 {diff : F64} (h : (diff.mul DIFF_MULT).toUint64 = some mdiff)
    (hok : scaledTarget mdiff = .ok target) : diffToTarget diff = .ok target := by
  rw [diffToTarget, h]
  exact congrArg (Except.mapError DifficultyFault.threw) hok

theorem scaledTarget_of_ok {diff : F64} (hok : diffToTarget diff = .ok target) :
    ∃ mdiff, (diff.mul DIFF_MULT).toUint64 = some mdiff ∧ scaledTarget mdiff = .ok target := by
  rw [diffToTarget] at hok
  split at hok
  next => cases hok
  next mdiff hconv => exact ⟨mdiff, hconv, Except.mapError_eq_ok.mp hok⟩

/-- The target of a scaled difficulty `m`: the exact one, rounded down by less than the scale. -/
structure IsTarget (m : Nat) (target : ArithUint256) : Prop where
  toNat_eq : target.toNat = DIFF1_TARGET.toNat / m * 10 ^ 5
  pos : 0 < target.toNat
  le : (target.toNat : ℚ) ≤ DIFF1_TARGET.toNat * 10 ^ 5 / m
  lt : (DIFF1_TARGET.toNat * 10 ^ 5 / m : ℚ) - target.toNat < 10 ^ 5

theorem isTarget (h : 1 ≤ mdiff.toNat) (hok : scaledTarget mdiff = .ok target) :
    IsTarget mdiff.toNat target := by
  have htoNat := scaledTarget_toNat h hok
  have hlt := mdiff.isLt
  have hcast : (0 : ℚ) < mdiff.toNat := by exact_mod_cast h
  -- the quotient is the floor of the exact one
  have hdiv := Nat.div_add_mod DIFF1_TARGET.toNat mdiff.toNat
  have hmod := Nat.mod_lt DIFF1_TARGET.toNat h
  have hlower : DIFF1_TARGET.toNat / mdiff.toNat * mdiff.toNat ≤ DIFF1_TARGET.toNat :=
    Nat.div_mul_le_self _ _
  have hupper : DIFF1_TARGET.toNat < (DIFF1_TARGET.toNat / mdiff.toNat + 1) * mdiff.toNat := by
    rw [Nat.add_mul, Nat.one_mul, Nat.mul_comm]
    omega
  have hlower : ((DIFF1_TARGET.toNat / mdiff.toNat : Nat) : ℚ) * mdiff.toNat ≤
      DIFF1_TARGET.toNat := by exact_mod_cast hlower
  have hupper : (DIFF1_TARGET.toNat : ℚ) <
      ((DIFF1_TARGET.toNat / mdiff.toNat : Nat) + 1) * mdiff.toNat := by exact_mod_cast hupper
  refine ⟨htoNat, ?_, ?_, ?_⟩
  · have hquot : 0 < DIFF1_TARGET.toNat / mdiff.toNat := by
      refine Nat.div_pos ?_ h
      rw [toNat_DIFF1_TARGET]
      omega
    omega
  · rw [htoNat, le_div_iff₀ hcast]
    push_cast
    linarith
  · rw [htoNat, sub_lt_iff_lt_add, div_lt_iff₀ hcast]
    push_cast
    linarith

theorem scaledTarget_antitone (h : 1 ≤ mdiff.toNat) (hle : mdiff.toNat ≤ mdiff'.toNat)
    (hok : scaledTarget mdiff = .ok target) (hok' : scaledTarget mdiff' = .ok target') :
    target'.toNat ≤ target.toNat := by
  rw [scaledTarget_toNat h hok, scaledTarget_toNat (Nat.le_trans h hle) hok']
  exact Nat.mul_le_mul_right _ (Nat.div_le_div_left hle h)

/-! ## Difficulties of the pool -/

theorem raiseDifficulty_mono {diff diff' : F64} (h : diff.toRat ≤ diff'.toRat) :
    (raiseDifficulty diff).toRat ≤ (raiseDifficulty diff').toRat := by
  rw [raiseDifficulty]
  split
  next => exact minDifficulty_le_raise diff'
  next hge =>
    have hlt : ¬ diff'.lt minDifficulty := by
      rw [F64.lt_iff] at hge ⊢
      linarith
    rw [raiseDifficulty, if_neg hlt]
    exact h

theorem mant_raiseDifficulty (diff : F64) : 0 ≤ (raiseDifficulty diff).mant := by
  apply F64.mant_nonneg
  refine le_trans ?_ (minDifficulty_le_raise diff)
  rw [toRat_minDifficulty]
  norm_num

theorem trunc_scaled_mono {diff diff' : F64} (h : diff.toRat ≤ diff'.toRat) :
    ((raiseDifficulty diff).mul DIFF_MULT).trunc ≤
      ((raiseDifficulty diff').mul DIFF_MULT).trunc := by
  have hc : 0 ≤ DIFF_MULT.mant := by decide
  have hx := mant_raiseDifficulty diff
  have hy := mant_raiseDifficulty diff'
  apply F64.trunc_mono
  · rw [F64.mul_of_nonneg hx hc]
    exact F64.mant_round_nonneg _ _
  · rw [F64.mul_of_nonneg hy hc]
    exact F64.mant_round_nonneg _ _
  · exact F64.mul_mono hx hy hc (raiseDifficulty_mono h)

theorem toNat_of_toUint64 {x : F64} (h : x.toUint64 = some mdiff) :
    (mdiff.toNat : Int) = x.trunc := by
  rw [F64.toUint64] at h
  split at h
  next hrange =>
    cases h
    rw [BitVec.toNat_ofInt]
    omega
  next => cases h

/-- A higher difficulty never gives a higher target. -/
theorem diffToTarget_antitone {diff diff' : F64} (h : diff.toRat ≤ diff'.toRat)
    (hok : diffToTarget (raiseDifficulty diff) = .ok target)
    (hok' : diffToTarget (raiseDifficulty diff') = .ok target') : target'.toNat ≤ target.toNat := by
  obtain ⟨m, hm, hscaled⟩ := scaledTarget_of_ok hok
  obtain ⟨m', hm', hscaled'⟩ := scaledTarget_of_ok hok'
  have hone := one_le_trunc_scaled diff
  have hmono := trunc_scaled_mono h
  have htrunc := toNat_of_toUint64 hm
  have htrunc' := toNat_of_toUint64 hm'
  exact scaledTarget_antitone (by omega) (by omega) hscaled hscaled'

/-- Every scaled difficulty of 64 bits but zero has its target, the target does not rise with the
scaled difficulty, and so it does not rise with the difficulty that a pool sets. -/
theorem diffToTarget_correct :
    (∀ mdiff : BitVec 64, 1 ≤ mdiff.toNat → ∃ target, scaledTarget mdiff = .ok target ∧
      IsTarget mdiff.toNat target ∧
      ∀ diff : F64, (diff.mul DIFF_MULT).toUint64 = some mdiff → diffToTarget diff = .ok target) ∧
    (∀ (mdiff mdiff' : BitVec 64) (target target' : ArithUint256), 1 ≤ mdiff.toNat →
      mdiff.toNat ≤ mdiff'.toNat → scaledTarget mdiff = .ok target →
      scaledTarget mdiff' = .ok target' → target'.toNat ≤ target.toNat) ∧
    ∀ (diff diff' : F64) (target target' : ArithUint256), diff.toRat ≤ diff'.toRat →
      diffToTarget (raiseDifficulty diff) = .ok target →
      diffToTarget (raiseDifficulty diff') = .ok target' → target'.toNat ≤ target.toNat := by
  refine ⟨fun mdiff h => ?_, fun _ _ _ _ => scaledTarget_antitone,
    fun _ _ _ _ => diffToTarget_antitone⟩
  obtain ⟨target, hok, _⟩ := scaledTarget_ok h
  exact ⟨target, hok, isTarget h hok, fun diff hconv => diffToTarget_of_toUint64 hconv hok⟩

/-- Difficulty one. -/
theorem diffToTarget_correct_one : ∃ target, scaledTarget 100000 = .ok target ∧
    IsTarget 100000 target :=
  (diffToTarget_correct.1 100000 (by decide)).imp fun _ h => ⟨h.1, h.2.1⟩

end Energiminer.Stratum
