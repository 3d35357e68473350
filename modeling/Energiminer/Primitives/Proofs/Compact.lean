import Energiminer.Misc.ByteFloat
import Energiminer.Primitives.Proofs.ArithOps
import Mathlib.Data.Nat.Bitwise

/-!
# The compact form of targets

`SetCompact` and `GetCompact` (`arith_uint256.cpp:203-244`) read and write a floating-point number
of base 256, with the size in the upper byte, the sign in bit 23 and the mantissa below it. The
flags say whether the number is negative or does not fit 256 bits; a number that was written is read
with neither, and nothing but its low bytes is lost.
-/

namespace Energiminer.Primitives
open Misc ByteFloat

namespace ArithUint256

/-! ## The fields of a compact number -/

section Masks
variable (x : BitVec 32)

theorem toNat_and_mantissa : (x &&& 0x007fffff).toNat = x.toNat % 2 ^ 23 := by
  rw [BitVec.toNat_and]
  exact Nat.and_two_pow_sub_one_eq_mod x.toNat 23

theorem and_sign_ne_zero : (x &&& 0x00800000) ≠ 0 ↔ x.toNat / 2 ^ 23 % 2 = 1 := by
  rw [ne_eq, ← BitVec.toNat_inj, BitVec.toNat_and]
  have hand := Nat.and_two_pow x.toNat 23
  rw [Nat.testBit_eq_decide_div_mod_eq] at hand
  rw [show ((0x00800000 : BitVec 32)).toNat = 2 ^ 23 from rfl, hand]
  by_cases h : x.toNat / 2 ^ 23 % 2 = 1 <;> simp

theorem and_not_mantissa {x : BitVec 32} (h : x.toNat < 2 ^ 23) : x &&& ~~~0x007fffff = 0 := by
  have hlow : x &&& 0x007fffff = x := by
    apply BitVec.eq_of_toNat_eq
    rw [toNat_and_mantissa, Nat.mod_eq_of_lt h]
  rw [← hlow, BitVec.and_assoc, BitVec.and_not_self]
  exact BitVec.and_zero

theorem compactSize_eq : compactSize x = x.toNat / 2 ^ 24 := by
  rw [compactSize, BitVec.toNat_ushiftRight, Nat.shiftRight_eq_div_pow]

end Masks

/-! ## `SetCompact` -/

/-- The number that the mantissa and the size stand for, rounded down. -/
def compactValue (nCompact : BitVec 32) : Nat :=
  scaled (nCompact &&& 0x007fffff).toNat (compactSize nCompact)

theorem two_pow_eight_mul (n : Nat) : 2 ^ (8 * n) = 256 ^ n := by rw [Nat.pow_mul]

theorem toNat_setCompact (nCompact : BitVec 32) :
    (setCompact nCompact).toNat = compactValue nCompact % 2 ^ 256 := by
  have hmant := (nCompact &&& 0x007fffff).isLt
  rw [setCompact, ← compactSize, compactValue, scaled]
  split
  next hle =>
    have hdiv := Nat.div_le_self (nCompact &&& 0x007fffff).toNat (256 ^ (3 - compactSize nCompact))
    rw [toNat_ofUint64, BitVec.toNat_setWidth, BitVec.toNat_ushiftRight, Nat.shiftRight_eq_div_pow,
      two_pow_eight_mul, Nat.mod_eq_of_lt (b := 2 ^ 64) (by omega), Nat.mod_eq_of_lt (by omega)]
  next hgt =>
    rw [toNat_shiftLeft, toNat_ofUint64, BitVec.toNat_setWidth, two_pow_eight_mul,
      Nat.mod_eq_of_lt (b := 2 ^ 64) (by omega)]

/-- The flag is the one of numbers that need more than 256 bits. -/
theorem compactOverflow_iff (nCompact : BitVec 32) :
    compactOverflow nCompact = true ↔ 2 ^ 256 ≤ compactValue nCompact := by
  have hmant : (nCompact &&& 0x007fffff).toNat < 2 ^ 23 := by
    rw [toNat_and_mantissa]
    exact Nat.mod_lt _ (by decide)
  generalize hx : nCompact &&& 0x007fffff = x at hmant
  have hflag : compactOverflow nCompact = true ↔ compactWord nCompact ≠ 0 ∧
      (34 < compactSize nCompact ∨ (0xff < compactWord nCompact ∧ 33 < compactSize nCompact) ∨
        (0xffff < compactWord nCompact ∧ 32 < compactSize nCompact)) := by
    simp [compactOverflow, or_assoc]
  rw [hflag, compactValue, compactWord, scaled, hx]
  generalize compactSize nCompact = s
  rcases Nat.lt_or_ge 3 s with hlarge | hsmall
  · have hzero : x ≠ 0 ↔ x.toNat ≠ 0 := (BitVec.toNat_inj (y := 0)).not.symm
    have hone : (0xff : BitVec 32) < x ↔ 0xff < x.toNat := BitVec.lt_def
    have htwo : (0xffff : BitVec 32) < x ↔ 0xffff < x.toNat := BitVec.lt_def
    simp only [if_neg (Nat.not_le.mpr hlarge), hzero, hone, htwo]
    -- the mantissa has 23 bits, so the number of bytes decides from 35 on and below 33
    rcases Nat.lt_or_ge 34 s with h35 | h34
    · have hpow : 256 ^ 32 ≤ 256 ^ (s - 3) := Nat.pow_le_pow_right (by decide) (by omega)
      have hmul := Nat.mul_le_mul_left x.toNat hpow
      rcases Nat.eq_zero_or_pos x.toNat with h0 | h0
      · simp [h0]
      · have hle := Nat.le_mul_of_pos_left (256 ^ 32) h0
        omega
    · rcases Nat.lt_or_ge 32 s with h33 | h32
      · obtain rfl | rfl : s = 33 ∨ s = 34 := by omega
        · omega
        · omega
      · have hpow : 256 ^ (s - 3) ≤ 256 ^ 29 := Nat.pow_le_pow_right (by decide) (by omega)
        have hmul := Nat.mul_le_mul hmant.le hpow
        omega
  · have hdiv := Nat.div_le_self x.toNat (256 ^ (3 - s))
    simp only [if_pos hsmall]
    omega

/-! ## `GetCompact` -/

theorem toNat_getLow64 (a : ArithUint256) : a.getLow64.toNat = a.toNat % 2 ^ 64 := by
  have hsplit := limbValue_add (cell a.pn) 2 6
  have hlow : limbValue (cell a.pn) 2 = (cell a.pn 0).toNat + 2 ^ 32 * (cell a.pn 1).toNat := by
    simp [limbValue]
  have h0 := (cell a.pn 0).isLt
  have h1 := (cell a.pn 1).isLt
  have hvalue : a.toNat =
      limbValue (cell a.pn) 2 + 2 ^ 64 * limbValue (fun i => cell a.pn (2 + i)) 6 := hsplit
  rw [hvalue, Nat.add_mul_mod_self_left, hlow, Nat.mod_eq_of_lt (by omega), getLow64,
    BitVec.toNat_or, BitVec.toNat_shiftLeft, BitVec.toNat_setWidth, BitVec.toNat_setWidth,
    Nat.shiftLeft_eq, Nat.mod_eq_of_lt (by omega), Nat.mod_eq_of_lt (by omega),
    Nat.mod_eq_of_lt (by omega), Nat.or_comm, Nat.mul_comm, ← Nat.two_pow_add_eq_or_of_lt h0,
    Nat.add_comm]

variable (a : ArithUint256)

theorem bytes_eq_byteSize : (a.bits + 7) / 8 = byteSize a.toNat := by rw [bits_eq_size, byteSize]

theorem byteSize_toNat_le : byteSize a.toNat ≤ 32 := byteSize_le a.toNat_lt

theorem toNat_compactMantissa :
    (compactMantissa a (byteSize a.toNat)).toNat = mantissa a.toNat (byteSize a.toNat) := by
  have hlt := mantissa_byteSize_lt a.toNat
  rw [compactMantissa]
  rw [mantissa] at hlt ⊢
  split
  next hle =>
    rw [if_pos hle] at hlt
    have hpos : 0 < 256 ^ (3 - byteSize a.toNat) := Nat.pow_pos (by decide)
    have hself := Nat.le_mul_of_pos_right a.toNat hpos
    rw [BitVec.toNat_setWidth, BitVec.toNat_shiftLeft, toNat_getLow64, Nat.shiftLeft_eq,
      two_pow_eight_mul, Nat.mod_eq_of_lt (a := a.toNat) (by omega),
      Nat.mod_mod_of_dvd _ (by decide), Nat.mod_eq_of_lt (by omega)]
  next hgt =>
    rw [if_neg hgt] at hlt
    rw [BitVec.toNat_setWidth, toNat_getLow64, toNat_shiftRight, two_pow_eight_mul,
      Nat.mod_mod_of_dvd _ (by decide), Nat.mod_eq_of_lt (by omega)]

/-- The mantissa and the size of a number, in their fields. -/
def packed : BitVec 32 :=
  BitVec.ofNat 32 (mantissa a.toNat (floatSize a.toNat) + 2 ^ 24 * floatSize a.toNat)

theorem floatSize_toNat_le : floatSize a.toNat ≤ 33 := by
  have hle := a.byteSize_toNat_le
  rw [floatSize]
  split <;> omega

theorem toNat_packed :
    a.packed.toNat = mantissa a.toNat (floatSize a.toNat) + 2 ^ 24 * floatSize a.toNat := by
  have hle := a.floatSize_toNat_le
  have hlt := mantissa_floatSize_lt a.toNat
  rw [packed, BitVec.toNat_ofNat, Nat.mod_eq_of_lt (by omega)]

theorem compactSize_packed : compactSize a.packed = floatSize a.toNat := by
  have hlt := mantissa_floatSize_lt a.toNat
  rw [compactSize_eq, toNat_packed]
  omega

theorem packed_mantissa :
    (a.packed &&& 0x007fffff).toNat = mantissa a.toNat (floatSize a.toNat) := by
  have hlt := mantissa_floatSize_lt a.toNat
  rw [toNat_and_mantissa, toNat_packed]
  omega

theorem packed_sign : a.packed &&& 0x00800000 = 0 := by
  have hlt := mantissa_floatSize_lt a.toNat
  by_contra h
  have hbit := (and_sign_ne_zero a.packed).mp h
  rw [toNat_packed] at hbit
  omega

/-- `GetCompact` packs the size and the mantissa, and its assertions hold. -/
theorem getCompact_eq (fNegative : Bool) :
    a.getCompact fNegative = some (a.packed |||
      if fNegative ∧ (a.packed &&& 0x007fffff) ≠ 0 then 0x00800000 else 0) := by
  have hsigned : (compactMantissa a (byteSize a.toNat) &&& 0x00800000) ≠ 0 ↔
      2 ^ 23 ≤ mantissa a.toNat (byteSize a.toNat) := by
    have hlt := mantissa_byteSize_lt a.toNat
    rw [and_sign_ne_zero, toNat_compactMantissa]
    omega
  have hsize : (if (compactMantissa a (byteSize a.toNat) &&& 0x00800000) ≠ 0 then
      byteSize a.toNat + 1 else byteSize a.toNat) = floatSize a.toNat := by
    simp only [hsigned]
    rfl
  have hmant : (if (compactMantissa a (byteSize a.toNat) &&& 0x00800000) ≠ 0 then
      compactMantissa a (byteSize a.toNat) >>> 8 else compactMantissa a (byteSize a.toNat)).toNat =
        mantissa a.toNat (floatSize a.toNat) := by
    simp only [hsigned, floatSize]
    split
    next =>
      rw [BitVec.toNat_ushiftRight, toNat_compactMantissa, Nat.shiftRight_eq_div_pow, mantissa_succ]
    next => rw [toNat_compactMantissa]
  have hlt := mantissa_floatSize_lt a.toNat
  have hle := a.floatSize_toNat_le
  rw [getCompact, bytes_eq_byteSize]
  dsimp only
  rw [hsize]
  generalize (if (compactMantissa a (byteSize a.toNat) &&& 0x00800000) ≠ 0 then
    compactMantissa a (byteSize a.toNat) >>> 8 else compactMantissa a (byteSize a.toNat)) = x
    at hmant ⊢
  have hpacked : x ||| BitVec.ofNat 32 (floatSize a.toNat) <<< 24 = a.packed := by
    apply BitVec.eq_of_toNat_eq
    rw [toNat_packed, BitVec.toNat_or, hmant, BitVec.toNat_shiftLeft, BitVec.toNat_ofNat,
      Nat.shiftLeft_eq, Nat.mod_eq_of_lt (a := floatSize a.toNat) (by omega),
      Nat.mod_eq_of_lt (by omega), Nat.or_comm, Nat.mul_comm,
      ← Nat.two_pow_add_eq_or_of_lt (by omega), Nat.add_comm]
  rw [and_not_mantissa (hmant ▸ hlt), hpacked]
  simp only [ne_eq, not_true_eq_false, if_false, show floatSize a.toNat < 256 by omega]

/-! ## Round trips -/

/-- What `SetCompact` makes of a number that `GetCompact` wrote. -/
theorem compactValue_packed :
    compactValue a.packed = scaled (mantissa a.toNat (floatSize a.toNat)) (floatSize a.toNat) := by
  rw [compactValue, packed_mantissa, compactSize_packed]

theorem toNat_setCompact_packed : (setCompact a.packed).toNat =
    scaled (mantissa a.toNat (floatSize a.toNat)) (floatSize a.toNat) := by
  have hle := scaled_mantissa_le a.toNat (floatSize a.toNat)
  have hlt := a.toNat_lt
  rw [toNat_setCompact, compactValue_packed, Nat.mod_eq_of_lt (by omega)]

theorem packed_setCompact : (setCompact a.packed).packed = a.packed := by
  obtain ⟨hsize, hmant⟩ := floatSize_scaled a.toNat
  rw [packed, toNat_setCompact_packed, hsize, hmant, packed]

/-- Numbers without a flag are set to their value, the overflow flag is the one of numbers beyond
256 bits, no assertion of `GetCompact` fails, and what it writes is read without a flag, rounded
down to the mantissa, and written the same again. -/
theorem compact_codec :
    (∀ nCompact : BitVec 32, compactNegative nCompact = false → compactOverflow nCompact = false →
      (setCompact nCompact).toNat = compactValue nCompact) ∧
    (∀ nCompact : BitVec 32, compactOverflow nCompact = true ↔ 2 ^ 256 ≤ compactValue nCompact) ∧
    (∀ (x : ArithUint256) (fNegative : Bool), (x.getCompact fNegative).isSome) ∧
    ∀ x : ArithUint256, ∃ nCompact, x.getCompact false = some nCompact ∧
      compactNegative nCompact = false ∧ compactOverflow nCompact = false ∧
      (setCompact nCompact).toNat ≤ x.toNat ∧
      (3 < compactSize nCompact →
        x.toNat - (setCompact nCompact).toNat < 2 ^ (8 * (compactSize nCompact - 3))) ∧
      (compactSize nCompact ≤ 3 → (setCompact nCompact).toNat = x.toNat) ∧
      (setCompact nCompact).getCompact false = some nCompact := by
  have hcompact : ∀ x : ArithUint256, x.getCompact false = some x.packed := by
    intro x
    rw [getCompact_eq]
    simp
  refine ⟨fun n _ hfits => ?_, compactOverflow_iff, fun x fNegative => ?_, fun x => ?_⟩
  · have hlt : ¬ 2 ^ 256 ≤ compactValue n := by
      rw [← compactOverflow_iff, hfits]
      exact Bool.false_ne_true
    rw [toNat_setCompact, Nat.mod_eq_of_lt (Nat.not_le.mp hlt)]
  · rw [getCompact_eq]
    rfl
  · have hle := scaled_mantissa_le x.toNat (floatSize x.toNat)
    refine ⟨x.packed, hcompact x, ?_, ?_, ?_, fun hs => ?_, fun hs => ?_, ?_⟩
    · simp [compactNegative, show x.packed &&& 8388608#32 = 0#32 from x.packed_sign]
    · rw [← Bool.not_eq_true, compactOverflow_iff, compactValue_packed]
      have hlt := x.toNat_lt
      omega
    · rw [toNat_setCompact_packed]
      exact hle
    · rw [compactSize_packed] at hs ⊢
      rw [toNat_setCompact_packed, two_pow_eight_mul]
      exact (scaled_mantissa_of_lt x.toNat hs).2
    · rw [compactSize_packed] at hs
      rw [toNat_setCompact_packed, scaled_mantissa_of_le x.toNat hs]
    · rw [hcompact, packed_setCompact]

/-- The target of difficulty one. -/
theorem compact_codec_difficulty_one :
    (setCompact 0x1d00ffff).toNat = compactValue 0x1d00ffff :=
  compact_codec.1 0x1d00ffff (by decide) (by decide)

end ArithUint256

end Energiminer.Primitives
