import Energiminer.Misc.Limbs
import Energiminer.Primitives.Uint256

/-!
# 256-bit numbers

`arith_uint256` of `primitives/arith_uint256.{h,cpp}`: eight 32-bit limbs, least significant
first. The operators run over the limbs as the source does; `toNat` is the number they stand
for, and the comparison is shown to be the one of the numbers.
-/

namespace Energiminer.Primitives
open Misc

/-- `base_uint<256>::WIDTH`. -/
def WIDTH : Nat := 8

/-- `base_uint<256>::pn`. -/
structure ArithUint256 where
  pn : Vector (BitVec 32) WIDTH
  deriving DecidableEq

namespace ArithUint256

/-- The number the limbs stand for. -/
def toNat (a : ArithUint256) : Nat := limbValue (cell a.pn) WIDTH

/-- The body of the loop of `operator>>=` for limb `i`: `a` is the copy of the old limbs, `k`
and `shift` are the quotient and the remainder of the distance by 32. -/
def shiftRightStep (a : Vector (BitVec 32) WIDTH) (k shift : Nat) (pn : Vector (BitVec 32) WIDTH)
    (i : Nat) : Vector (BitVec 32) WIDTH :=
  let pn := if k + 1 ≤ i ∧ shift ≠ 0 then
      writeCell pn (i - k - 1) (cell pn (i - k - 1) ||| cell a i <<< (32 - shift))
    else pn
  if k ≤ i then writeCell pn (i - k) (cell pn (i - k) ||| cell a i >>> shift) else pn

/-- `operator>>` (`arith_uint256.cpp:37-52`). -/
def shiftRight (a : ArithUint256) (shift : Nat) : ArithUint256 :=
  ⟨(List.range WIDTH).foldl (shiftRightStep a.pn (shift / 32) (shift % 32))
    (Vector.replicate WIDTH 0)⟩

/-- `base_uint::CompareTo` (`arith_uint256.cpp:108-118`). -/
def compareTo (a b : ArithUint256) : Int := compareLimbs (cell a.pn) (cell b.pn) WIDTH

/-- `operator<` (`arith_uint256.h:223`). -/
def lt (a b : ArithUint256) : Bool := compareTo a b < 0

/-- `operator<=` (`arith_uint256.h:225`). -/
def le (a b : ArithUint256) : Bool := compareTo a b ≤ 0

/-- The `uint64_t` at `data()` of a little-endian host (`arith_uint256.h:251`). -/
def dataUint64 (a : ArithUint256) : BitVec 64 := cell a.pn 1 ++ cell a.pn 0

/-- `UintToArith256` (`arith_uint256.cpp:253-259`): limb `x` is `ReadLE32(a.begin() + x * 4)`. -/
def ofUint256 (a : Uint256) : ArithUint256 :=
  ⟨Vector.ofFn fun x => leWord 32 fun j => cell a.data (4 * x.val + j)⟩

theorem lt_iff (a b : ArithUint256) : a.lt b ↔ a.toNat < b.toNat := by
  rw [lt, compareTo, compareLimbs_eq, toNat, toNat]
  split
  · simp_all
  · split <;> simp_all

theorem le_iff (a b : ArithUint256) : a.le b ↔ a.toNat ≤ b.toNat := by
  rw [le, compareTo, compareLimbs_eq, toNat, toNat]
  split
  · simp_all [Nat.le_of_lt]
  · split <;> simp_all

/-- A shift by whole limbs, after the limbs below `n` have been moved. -/
theorem cell_shiftRight_limbs (a : Vector (BitVec 32) WIDTH) (k n j : Nat) (hn : n ≤ WIDTH)
    (hj : j + k < WIDTH) :
    cell ((List.range n).foldl (shiftRightStep a k 0) (Vector.replicate WIDTH 0)) j =
      if j + k < n then cell a (j + k) else 0 := by
  have hj8 : j < WIDTH := Nat.lt_of_le_of_lt (Nat.le_add_right j k) hj
  induction n with
  | zero => simp [cell, hj8]
  | succ n ih =>
    have ih := ih (Nat.le_of_succ_le hn)
    rw [List.range_succ, List.foldl_concat]
    simp only [shiftRightStep, ne_eq, not_true_eq_false, and_false, if_false,
      BitVec.ushiftRight_zero]
    split
    next hk =>
      have hin : n - k < WIDTH := by omega
      rw [cell_writeCell _ _ _ _ hin]
      split
      next heq =>
        -- limb `n` lands in `j`, which was still zero
        have hsum : j + k = n := by omega
        rw [heq, ih, if_neg (by omega), if_pos (by omega), hsum]
        exact BitVec.zero_or
      next hne => 
        have hiff : j + k < n + 1 ↔ j + k < n := by omega
        simp only [ih, hiff]
    next hk => rw [ih, if_neg (by omega), if_neg (by omega)]

/-- The upper 64 bits of a number, as the hosts compute the target of a kernel. -/
theorem dataUint64_shiftRight (a : ArithUint256) :
    (a.shiftRight 192).dataUint64 = cell a.pn 7 ++ cell a.pn 6 := by
  have hlimb : ∀ j, j < 2 → cell (a.shiftRight 192).pn j = cell a.pn (j + 6) := by
    intro j hj
    have h := cell_shiftRight_limbs a.pn 6 WIDTH j (le_refl _) (by unfold WIDTH; omega)
    rw [if_pos (by unfold WIDTH; omega)] at h
    exact h
  rw [dataUint64, hlimb 1 (by decide), hlimb 0 (by decide)]

/-- The number split below its upper 64 bits. -/
theorem toNat_split (a : ArithUint256) :
    ∃ low < 2 ^ 192, a.toNat = low + 2 ^ 192 * (cell a.pn 7 ++ cell a.pn 6).toNat := by
  refine ⟨limbValue (cell a.pn) 6, limbValue_lt _ 6, ?_⟩
  have hsplit := limbValue_add (cell a.pn) 6 2
  rw [← toNat_append_limbs] at hsplit
  exact hsplit

/-- The upper limbs of a number that was read from a hash are the first bytes of the hash. -/
theorem upper_ofUint256 (v : Vector Byte 32) :
    cell (ofUint256 (Uint256.ofH256 v)).pn 7 ++ cell (ofUint256 (Uint256.ofH256 v)).pn 6 =
      beWord 8 (cell v) := by
  have hlimb : ∀ x, x < 8 → cell (ofUint256 (Uint256.ofH256 v)).pn x =
      leWord 32 fun j => cell v (31 - (4 * x + j)) := by
    intro x hx
    simp only [ofUint256, cell_ofFn _ (show x < WIDTH from hx)]
    refine leWord_congr 32 fun j hj => ?_
    simp only [Uint256.ofH256, cell_ofFn _ (show 4 * x + j < 32 by omega)]
  rw [hlimb 7 (by decide), hlimb 6 (by decide), ← leWord_byteOf (_ ++ _)]
  refine leWord_congr 64 fun j hj => (byteOf_append (w := 4) _ _ j).trans ?_
  split
  next h =>
    rw [byteOf_leWord _ _ _ (by omega)]
    congr 1
    omega
  next h =>
    rw [byteOf_leWord _ _ _ (by omega)]
    congr 1
    omega

end ArithUint256

end Energiminer.Primitives
