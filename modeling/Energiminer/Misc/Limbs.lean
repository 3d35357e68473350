import Mathlib.Data.Nat.Basic
import Mathlib.Data.BitVec
import Mathlib.Tactic.Ring

/-!
# Numbers in limbs

The number that a sequence of machine words stands for, least significant word first, and the
comparison of two such numbers from the most significant word down.
-/

namespace Energiminer.Misc
variable {w : Nat} {a b : Nat → BitVec w} {n : Nat}

/-- The number whose digits in base `2 ^ w` are `f 0`, …, `f (n - 1)`. -/
def limbValue (f : Nat → BitVec w) : Nat → Nat
  | 0 => 0
  | n + 1 => limbValue f n + 2 ^ (w * n) * (f n).toNat

/-- Compare two numbers of `n` limbs, the highest limb first: `-1`, `0` or `1`. -/
def compareLimbs (a b : Nat → BitVec w) : Nat → Int
  | 0 => 0
  | n + 1 => if a n < b n then -1 else if a n > b n then 1 else compareLimbs a b n

theorem limbValue_lt (f : Nat → BitVec w) (n : Nat) : limbValue f n < 2 ^ (w * n) := by
  induction n with
  | zero => simp [limbValue]
  | succ n ih =>
    have hlimb : (f n).toNat + 1 ≤ 2 ^ w := (f n).isLt
    calc limbValue f n + 2 ^ (w * n) * (f n).toNat
        < 2 ^ (w * n) + 2 ^ (w * n) * (f n).toNat := Nat.add_lt_add_right ih _
      _ = 2 ^ (w * n) * ((f n).toNat + 1) := by ring
      _ ≤ 2 ^ (w * n) * 2 ^ w := Nat.mul_le_mul_left _ hlimb
      _ = 2 ^ (w * (n + 1)) := by rw [← Nat.pow_add, Nat.mul_succ]

/-- The highest limb that differs decides. -/
theorem limbValue_succ_lt (h : a n < b n) : limbValue a (n + 1) < limbValue b (n + 1) := by
  have hlimb : (a n).toNat + 1 ≤ (b n).toNat := BitVec.lt_def.mp h
  calc limbValue a n + 2 ^ (w * n) * (a n).toNat
      < 2 ^ (w * n) + 2 ^ (w * n) * (a n).toNat := Nat.add_lt_add_right (limbValue_lt a n) _
    _ = 2 ^ (w * n) * ((a n).toNat + 1) := by ring
    _ ≤ 2 ^ (w * n) * (b n).toNat := Nat.mul_le_mul_left _ hlimb
    _ ≤ limbValue b n + 2 ^ (w * n) * (b n).toNat := Nat.le_add_left _ _

theorem compareLimbs_eq (a b : Nat → BitVec w) (n : Nat) :
    compareLimbs a b n =
      if limbValue a n < limbValue b n then -1
      else if limbValue b n < limbValue a n then 1 else 0 := by
  induction n with
  | zero => rfl
  | succ n ih =>
    rw [compareLimbs]
    rcases BitVec.lt_trichotomy (a n) (b n) with hlt | heq | hgt
    · rw [if_pos hlt, if_pos (limbValue_succ_lt hlt)]
    · -- equal limbs add the same to both numbers
      have hirr : ¬ a n < b n ∧ ¬ a n > b n := by simp [heq]
      rw [if_neg hirr.1, if_neg hirr.2, ih]
      simp only [limbValue, heq, Nat.add_lt_add_iff_right]
    · have hnot : ¬ limbValue a (n + 1) < limbValue b (n + 1) :=
        Nat.not_lt_of_gt (limbValue_succ_lt hgt)
      rw [if_neg (BitVec.not_lt.mpr (BitVec.le_of_lt hgt)), if_pos hgt, if_neg hnot,
        if_pos (limbValue_succ_lt hgt)]

theorem limbValue_add (f : Nat → BitVec w) (m n : Nat) :
    limbValue f (m + n) = limbValue f m + 2 ^ (w * m) * limbValue (fun i => f (m + i)) n := by
  induction n with
  | zero => simp [limbValue]
  | succ n ih =>
    calc limbValue f (m + n) + 2 ^ (w * (m + n)) * (f (m + n)).toNat
        = limbValue f m + 2 ^ (w * m) * limbValue (fun i => f (m + i)) n +
            2 ^ (w * m) * 2 ^ (w * n) * (f (m + n)).toNat := by
          rw [ih, Nat.mul_add, Nat.pow_add]
      _ = limbValue f m + 2 ^ (w * m) *
            (limbValue (fun i => f (m + i)) n + 2 ^ (w * n) * (f (m + n)).toNat) := by ring

theorem toNat_append_limbs (f : Nat → BitVec w) : (f 1 ++ f 0).toNat = limbValue f 2 := by
  rw [BitVec.toNat_append, Nat.shiftLeft_eq, Nat.mul_comm,
    ← Nat.two_pow_add_eq_or_of_lt (f 0).isLt]
  simp only [limbValue, Nat.mul_zero, Nat.pow_zero, Nat.one_mul, Nat.zero_add, Nat.mul_one]
  exact Nat.add_comm _ _

end Energiminer.Misc
