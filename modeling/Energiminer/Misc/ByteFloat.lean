import Mathlib.Data.Nat.Size
import Mathlib.Tactic.Ring

/-!
# Floating-point numbers of base 256

A number is kept as its size in bytes and its three highest bytes, the mantissa, whose top bit is
left to a sign: a mantissa that needs the bit is moved down a byte, and the size is one more. What
is below the mantissa is cut off. Numbers of fewer bytes are padded at the low end.
-/

namespace Energiminer.Misc.ByteFloat
variable {x m s : Nat}

/-- The number of bytes of a number. -/
def byteSize (x : Nat) : Nat := (x.size + 7) / 8

/-- The three highest bytes of a number of `s` bytes. -/
def mantissa (x s : Nat) : Nat := if s ≤ 3 then x * 256 ^ (3 - s) else x / 256 ^ (s - 3)

/-- The number of a mantissa and a size, rounded down. -/
def scaled (m s : Nat) : Nat := if s ≤ 3 then m / 256 ^ (3 - s) else m * 256 ^ (s - 3)

/-- The size for which the top bit of the mantissa is clear. -/
def floatSize (x : Nat) : Nat :=
  if 2 ^ 23 ≤ mantissa x (byteSize x) then byteSize x + 1 else byteSize x

/-- One byte more moves the mantissa down a byte. -/
theorem mantissa_succ (x s : Nat) : mantissa x (s + 1) = mantissa x s / 256 := by
  rw [mantissa, mantissa]
  rcases Nat.lt_trichotomy s 3 with hlt | rfl | hgt
  · rw [if_pos (by omega), if_pos (by omega), show 3 - s = 3 - (s + 1) + 1 by omega, Nat.pow_succ,
      ← Nat.mul_assoc, Nat.mul_div_cancel _ (by decide)]
  · simp
  · rw [if_neg (by omega), if_neg (by omega), show s + 1 - 3 = s - 3 + 1 by omega, Nat.pow_succ,
      Nat.div_div_eq_div_mul]

theorem byteSize_eq_iff (hx : 0 < x) (hs : 0 < s) :
    byteSize x = s ↔ 2 ^ 16 ≤ mantissa x s ∧ mantissa x s < 2 ^ 24 := by
  have hsize : byteSize x = s ↔ 8 * (s - 1) < x.size ∧ x.size ≤ 8 * s := by
    have hpos := Nat.size_pos.mpr hx
    rw [byteSize]
    omega
  have hpow : ∀ n, (2 : Nat) ^ (8 * n) = 256 ^ n := fun n => by rw [Nat.pow_mul]
  rw [hsize, Nat.lt_size, Nat.size_le, hpow, hpow, mantissa]
  split
  next hle =>
    have hsplit : ∀ n, n ≤ 3 → (256 : Nat) ^ n * 256 ^ (3 - n) = 2 ^ 24 := by
      intro n hn
      rw [← Nat.pow_add, Nat.add_sub_cancel' hn]
      rfl
    have hpos : 0 < 256 ^ (3 - s) := Nat.pow_pos (by decide)
    have hlow : (256 : Nat) ^ (s - 1) * 256 ^ (3 - s) = 2 ^ 16 := by
      rw [← Nat.pow_add, show s - 1 + (3 - s) = 2 by omega]
      rfl
    rw [← hsplit s hle, ← hlow, Nat.mul_le_mul_right_iff hpos, Nat.mul_lt_mul_right hpos]
  next hgt =>
    have hpos : 0 < 256 ^ (s - 3) := Nat.pow_pos (by decide)
    have hlow : (2 : Nat) ^ 16 * 256 ^ (s - 3) = 256 ^ (s - 1) := by
      rw [show (2 : Nat) ^ 16 = 256 ^ 2 from rfl, ← Nat.pow_add]
      congr 1
      omega
    have hhigh : (2 : Nat) ^ 24 * 256 ^ (s - 3) = 256 ^ s := by
      rw [show (2 : Nat) ^ 24 = 256 ^ 3 from rfl, ← Nat.pow_add]
      congr 1
      omega
    rw [Nat.le_div_iff_mul_le hpos, Nat.div_lt_iff_lt_mul hpos, hlow, hhigh]

theorem byteSize_pos (hx : 0 < x) : 0 < byteSize x := by
  have hpos := Nat.size_pos.mpr hx
  rw [byteSize]
  omega

theorem byteSize_le {n : Nat} (h : x < 2 ^ (8 * n)) : byteSize x ≤ n := by
  have hsize := Nat.size_le.mpr h
  rw [byteSize]
  omega

theorem mantissa_byteSize_lt (x : Nat) : mantissa x (byteSize x) < 2 ^ 24 := by
  rcases Nat.eq_zero_or_pos x with rfl | hx
  · decide
  · exact ((byteSize_eq_iff hx (byteSize_pos hx)).mp rfl).2

theorem mantissa_floatSize_lt (x : Nat) : mantissa x (floatSize x) < 2 ^ 23 := by
  have hlt := mantissa_byteSize_lt x
  rw [floatSize]
  split
  next =>
    rw [mantissa_succ]
    omega
  next h => exact Nat.not_le.mp h

/-! ## What is cut off -/

theorem scaled_mantissa_of_le (x : Nat) (hs : s ≤ 3) : scaled (mantissa x s) s = x := by
  rw [scaled, mantissa, if_pos hs, if_pos hs, Nat.mul_div_cancel _ (Nat.pow_pos (by decide))]

theorem scaled_mantissa_of_lt (x : Nat) (hs : 3 < s) :
    scaled (mantissa x s) s ≤ x ∧ x - scaled (mantissa x s) s < 256 ^ (s - 3) := by
  have hpos : 0 < 256 ^ (s - 3) := Nat.pow_pos (by decide)
  have hdiv := Nat.div_add_mod x (256 ^ (s - 3))
  have hmod := Nat.mod_lt x hpos
  rw [scaled, mantissa, if_neg (by omega), if_neg (by omega), Nat.mul_comm]
  omega

theorem scaled_mantissa_le (x s : Nat) : scaled (mantissa x s) s ≤ x := by
  rcases Nat.lt_or_ge 3 s with hs | hs
  · exact (scaled_mantissa_of_lt x hs).1
  · exact (scaled_mantissa_of_le x hs).le

/-! ## Stability -/

theorem mantissa_scaled (m : Nat) (hs : 3 ≤ s) : mantissa (scaled m s) s = m := by
  rcases Nat.eq_or_lt_of_le hs with rfl | hlt
  · simp [mantissa, scaled]
  · rw [mantissa, scaled, if_neg (by omega), if_neg (by omega),
      Nat.mul_div_cancel _ (Nat.pow_pos (by decide))]

/-- A byte less has the mantissa a byte higher. -/
theorem mantissa_scaled_succ (m : Nat) (hs : 3 ≤ s) : mantissa (scaled m (s + 1)) s = m * 256 := by
  have hpos : 0 < 256 ^ (s - 3) := Nat.pow_pos (by decide)
  have hscaled : scaled m (s + 1) = m * 256 * 256 ^ (s - 3) := by
    rw [scaled, if_neg (by omega), show s + 1 - 3 = s - 3 + 1 by omega, Nat.pow_succ]
    ring
  rw [hscaled, mantissa]
  split
  next hle => simp [show s = 3 by omega]
  next => rw [Nat.mul_div_cancel _ hpos]

theorem pos_of_mantissa_pos (h : 0 < mantissa x s) : 0 < x := by
  rcases Nat.eq_zero_or_pos x with rfl | hx
  · rw [mantissa] at h
    split at h <;> simp at h
  · exact hx

/-- What is left of a number is kept the same way. -/
theorem floatSize_scaled (x : Nat) :
    floatSize (scaled (mantissa x (floatSize x)) (floatSize x)) = floatSize x ∧
      mantissa (scaled (mantissa x (floatSize x)) (floatSize x)) (floatSize x) =
        mantissa x (floatSize x) := by
  rcases Nat.lt_or_ge 3 (floatSize x) with hlarge | hsmall
  · have hx : 0 < x := by
      rcases Nat.eq_zero_or_pos x with rfl | hx
      · exact absurd hlarge (by decide)
      · exact hx
    have hsize := byteSize_pos hx
    obtain ⟨hge, hlt⟩ := (byteSize_eq_iff hx hsize).mp rfl
    by_cases htop : 2 ^ 23 ≤ mantissa x (byteSize x)
    · -- the mantissa of a byte less is again one that needs the top bit
      have hfloat : floatSize x = byteSize x + 1 := if_pos htop
      rw [hfloat] at hlarge ⊢
      have hm : mantissa (scaled (mantissa x (byteSize x + 1)) (byteSize x + 1)) (byteSize x) =
          mantissa x (byteSize x) / 256 * 256 := by
        rw [mantissa_scaled_succ _ (by omega), mantissa_succ]
      generalize scaled (mantissa x (byteSize x + 1)) (byteSize x + 1) = y at hm ⊢
      have hy : 0 < y := pos_of_mantissa_pos (s := byteSize x) (by omega)
      have hbytes : byteSize y = byteSize x := (byteSize_eq_iff hy hsize).mpr (by omega)
      refine ⟨?_, ?_⟩
      · rw [floatSize, hbytes, if_pos (by omega)]
      · rw [mantissa_succ, mantissa_succ, hm, Nat.mul_div_cancel _ (by decide)]
    · have hfloat : floatSize x = byteSize x := if_neg htop
      rw [hfloat] at hlarge ⊢
      have hm := mantissa_scaled (mantissa x (byteSize x)) hlarge.le
      generalize scaled (mantissa x (byteSize x)) (byteSize x) = y at hm ⊢
      have hy : 0 < y := pos_of_mantissa_pos (s := byteSize x) (by omega)
      have hbytes : byteSize y = byteSize x := (byteSize_eq_iff hy hsize).mpr (by omega)
      refine ⟨?_, hm⟩
      rw [floatSize, hbytes, if_neg (by omega)]
  · rw [scaled_mantissa_of_le x hsmall]
    exact ⟨rfl, rfl⟩

end Energiminer.Misc.ByteFloat
