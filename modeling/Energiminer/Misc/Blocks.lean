import Mathlib.Data.List.Basic

/-!
# Data in blocks

Data that is consumed in blocks of a fixed length, as hash functions do. What is left over after the
whole blocks waits for more data. It makes no difference in which pieces the data comes:
`absorb_append`.
-/

namespace Energiminer.Misc.Blocks
variable {σ α : Type}

/-- The first `k` blocks of length `n` are consumed; the state, and the rest of the data. -/
def absorbN (step : σ → List α → σ) (n : Nat) : Nat → σ → List α → σ × List α
  | 0, s, data => (s, data)
  | k + 1, s, data => absorbN step n k (step s (data.take n)) (data.drop n)

/-- All whole blocks are consumed. -/
def absorb (step : σ → List α → σ) (n : Nat) (s : σ) (data : List α) : σ × List α :=
  absorbN step n (data.length / n) s data

variable {step : σ → List α → σ} {n : Nat}

theorem absorbN_add (j k : Nat) (s : σ) (data : List α) :
    absorbN step n (j + k) s data =
      absorbN step n k (absorbN step n j s data).1 (absorbN step n j s data).2 := by
  induction j generalizing s data with
  | zero => rw [Nat.zero_add, absorbN]
  | succ j ih => rw [Nat.succ_add, absorbN, absorbN, ih]

theorem absorbN_snd (k : Nat) (s : σ) (data : List α) :
    (absorbN step n k s data).2 = data.drop (k * n) := by
  induction k generalizing s data with
  | zero => rw [absorbN, Nat.zero_mul, List.drop_zero]
  | succ k ih => rw [absorbN, ih, List.drop_drop, Nat.succ_mul, Nat.add_comm]

/-- Data that comes later does not change the blocks before it. -/
theorem absorbN_append {k : Nat} {data : List α} (h : k * n ≤ data.length) (s : σ)
    (more : List α) :
    absorbN step n k s (data ++ more) =
      ((absorbN step n k s data).1, (absorbN step n k s data).2 ++ more) := by
  induction k generalizing s data with
  | zero => rfl
  | succ k ih =>
    rw [Nat.succ_mul] at h
    have hle : n ≤ data.length := by omega
    rw [absorbN, absorbN, List.take_append_of_le_length hle, List.drop_append_of_le_length hle]
    apply ih
    rw [List.length_drop]
    omega

theorem absorb_snd (s : σ) (data : List α) :
    (absorb step n s data).2 = data.drop (data.length / n * n) :=
  absorbN_snd _ _ _

theorem length_absorb_snd (s : σ) (data : List α) :
    (absorb step n s data).2.length = data.length % n := by
  rw [absorb_snd, List.length_drop, Nat.mod_eq_sub_div_mul]

theorem absorb_of_lt {data : List α} (h : data.length < n) (s : σ) :
    absorb step n s data = (s, data) := by
  rw [absorb, Nat.div_eq_of_lt h, absorbN]

theorem absorb_of_le (hn : 0 < n) {data : List α} (h : n ≤ data.length) (s : σ) :
    absorb step n s data = absorb step n (step s (data.take n)) (data.drop n) := by
  have hcount : data.length / n = (data.drop n).length / n + 1 := by
    rw [List.length_drop, ← Nat.add_div_right _ hn, Nat.sub_add_cancel h]
  rw [absorb, hcount, absorbN]
  rfl

/-- It makes no difference in which pieces the data comes. -/
theorem absorb_append (s : σ) (data more : List α) :
    absorb step n s (data ++ more) =
      absorb step n (absorb step n s data).1 ((absorb step n s data).2 ++ more) := by
  have hcount : (data ++ more).length / n =
      data.length / n + ((absorb step n s data).2 ++ more).length / n := by
    rw [List.length_append, List.length_append, length_absorb_snd]
    rcases Nat.eq_zero_or_pos n with rfl | hn
    · rw [Nat.div_zero, Nat.div_zero, Nat.div_zero]
    · rw [← Nat.mul_add_div hn, ← Nat.add_assoc, Nat.div_add_mod]
  rw [absorb, hcount, absorbN_add, absorbN_append (Nat.div_mul_le_self _ _)]
  rfl

end Energiminer.Misc.Blocks
