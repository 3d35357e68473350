import Energiminer.Misc.LimbLoops
import Energiminer.Primitives.ArithOps

/-!
# The arithmetic of 256-bit numbers is that of integers

What each operator of `arith_uint256` leaves in the limbs, as a number: the exact result modulo
`2 ^ 256`, and the quotient of a division. The product is exact as long as the operand is another
number: `operator*=` sets the number to zero before it reads the operand.
-/

namespace Energiminer.Primitives
open Misc

namespace ArithUint256
variable (a b : ArithUint256)

theorem toNat_lt : a.toNat < 2 ^ 256 := limbValue_lt (cell a.pn) WIDTH

theorem testBit_toNat (j : Nat) :
    a.toNat.testBit j = (decide (j < 256) && (cell a.pn (j / 32)).getLsbD (j % 32)) :=
  testBit_limbValue (cell a.pn) WIDTH j

/-! ## Sums and products -/

/-- A loop with a carry over all limbs leaves the weighted sum modulo `2 ^ 256`. -/
theorem toNat_carry {v : Vector (BitVec 32) WIDTH} {f : Nat → Nat}
    {step : Vector (BitVec 32) WIDTH × Nat → Nat → Vector (BitVec 32) WIDTH × Nat}
    (hstep : CarryStep v 0 f step) (hf : ∀ i < WIDTH, f i + 2 ^ 32 ≤ 2 ^ 32 * 2 ^ 32) :
    (ArithUint256.mk ((List.range WIDTH).foldl step (v, 0)).1).toNat =
      weigh 32 f WIDTH % 2 ^ 256 := by
  have hvalue : (ArithUint256.mk ((List.range WIDTH).foldl step (v, 0)).1).toNat +
      2 ^ 256 * ((List.range WIDTH).foldl step (v, 0)).2 = weigh 32 f WIDTH :=
    (carry_loop hstep (Nat.le_refl WIDTH) hf).1
  have hlt := toNat_lt (ArithUint256.mk ((List.range WIDTH).foldl step (v, 0)).1)
  rw [← hvalue, Nat.add_mul_mod_self_left, Nat.mod_eq_of_lt hlt]

theorem toNat_add : (a.add b).toNat = (a.toNat + b.toNat) % 2 ^ 256 := by
  have hstep : CarryStep a.pn 0 (fun i => (cell a.pn i).toNat + (cell b.pn i).toNat)
      (addStep b.pn) := by
    intro u carry i _ _ hu
    simp only [addStep, hu i (le_refl i), Nat.add_zero, Nat.add_assoc]
  rw [add, toNat_carry hstep, weigh_add, ← limbValue_eq_weigh, ← limbValue_eq_weigh]
  · rfl
  · intro i _
    have ha := (cell a.pn i).isLt
    have hb := (cell b.pn i).isLt
    omega

theorem mul_limb_le (x y : BitVec 32) : x.toNat * y.toNat + 2 * 2 ^ 32 ≤ 2 ^ 32 * 2 ^ 32 + 1 := by
  have hle := Nat.mul_le_mul (Nat.le_sub_one_of_lt x.isLt) (Nat.le_sub_one_of_lt y.isLt)
  omega

theorem toNat_mulUint32 (b32 : BitVec 32) :
    (a.mulUint32 b32).toNat = a.toNat * b32.toNat % 2 ^ 256 := by
  have hstep : CarryStep a.pn 0 (fun i => b32.toNat * (cell a.pn i).toNat) (mulStep b32) := by
    intro u carry i _ _ hu
    simp only [mulStep, hu i (le_refl i), Nat.add_zero]
  rw [mulUint32, toNat_carry hstep, weigh_mul, ← limbValue_eq_weigh, Nat.mul_comm]
  · rfl
  · intro i _
    have hle := mul_limb_le b32 (cell a.pn i)
    omega

/-! ## Negation and difference -/

theorem toNat_of_succ_eq_zero {x : BitVec 32} (h : x + 1 = 0) : x.toNat + 1 = 2 ^ 32 := by
  have hadd := congrArg BitVec.toNat h
  simp only [BitVec.toNat_add, BitVec.ofNat_eq_ofNat, BitVec.toNat_ofNat] at hadd
  have hlt := x.isLt
  omega

theorem toNat_succ_of_ne_zero {x : BitVec 32} (h : x + 1 ≠ 0) : (x + 1).toNat = x.toNat + 1 := by
  have hlt : x.toNat + 1 < 2 ^ 32 := by
    by_contra hge
    apply h
    apply BitVec.eq_of_toNat_eq
    have := x.isLt
    simp only [BitVec.toNat_add, BitVec.ofNat_eq_ofNat, BitVec.toNat_ofNat]
    omega
  rw [BitVec.toNat_add]
  exact Nat.mod_eq_of_lt hlt

theorem incrementFrom_modEq (pn : Vector (BitVec 32) WIDTH) (n i : Nat) (h : i + n ≤ WIDTH) :
    limbValue (cell (incrementFrom pn n i)) (i + n) ≡
      limbValue (cell pn) (i + n) + 2 ^ (32 * i) [MOD 2 ^ (32 * (i + n))] := by
  induction n generalizing pn i with
  | zero => exact (Nat.add_mod_right _ _).symm
  | succ n ih =>
    have hi : i < WIDTH := by omega
    have hwrite := limbValue_writeCell pn (cell pn i + 1) hi (show i < i + (n + 1) by omega)
    have hread : cell (writeCell pn i (cell pn i + 1)) i = cell pn i + 1 := by
      rw [cell_writeCell _ _ _ _ hi, if_pos rfl]
    rw [incrementFrom]
    simp only [hread]
    split
    next hzero =>
      -- the limb was full, so the carry goes on
      have hnext := ih (writeCell pn i (cell pn i + 1)) (i + 1) (by omega)
      rw [show i + 1 + n = i + (n + 1) by omega] at hnext
      refine hnext.trans (congrArg (· % 2 ^ (32 * (i + (n + 1)))) ?_)
      have hcleared : (cell pn i + 1).toNat = 0 := by rw [hzero]; rfl
      have hpow : 2 ^ (32 * (i + 1)) = 2 ^ (32 * i) * (cell pn i).toNat + 2 ^ (32 * i) := by
        rw [Nat.mul_succ, Nat.pow_add, ← toNat_of_succ_eq_zero hzero, Nat.mul_succ]
      rw [hcleared, Nat.mul_zero] at hwrite
      omega
    next hne =>
      rw [toNat_succ_of_ne_zero hne, Nat.mul_succ] at hwrite
      apply congrArg (· % 2 ^ (32 * (i + (n + 1))))
      omega

theorem toNat_neg : a.neg.toNat = (2 ^ 256 - a.toNat) % 2 ^ 256 := by
  have hnot : limbValue (cell (a.pn.map (~~~ ·))) WIDTH + a.toNat + 1 = 2 ^ 256 := by
    refine Eq.trans ?_ (limbValue_not (cell a.pn) WIDTH)
    apply congrArg (· + a.toNat + 1)
    apply limbValue_congr
    intro i hi
    rw [cell_eq_getElem _ hi, cell_eq_getElem _ hi, Vector.getElem_map]
  have hinc := incrementFrom_modEq (a.pn.map (~~~ ·)) WIDTH 0 (le_refl _)
  have hsum : limbValue (cell (a.pn.map (~~~ ·))) (0 + WIDTH) + 2 ^ (32 * 0) =
      2 ^ 256 - a.toNat := by
    rw [Nat.zero_add]
    omega
  rw [hsum] at hinc
  rw [← Nat.mod_eq_of_lt a.neg.toNat_lt]
  exact hinc

theorem toNat_sub : (a.sub b).toNat = (a.toNat + (2 ^ 256 - b.toNat)) % 2 ^ 256 := by
  rw [sub, toNat_add, toNat_neg, Nat.add_mod_mod]

theorem toNat_sub_of_le (h : b.toNat ≤ a.toNat) : (a.sub b).toNat = a.toNat - b.toNat := by
  have ha := a.toNat_lt
  rw [toNat_sub, show a.toNat + (2 ^ 256 - b.toNat) = a.toNat - b.toNat + 2 ^ 256 by
    have hb := b.toNat_lt
    omega, Nat.add_mod_right, Nat.mod_eq_of_lt (by omega)]

/-! ## The product -/

theorem toNat_ofUint64 (x : BitVec 64) : (ofUint64 x).toNat = x.toNat := by
  have hlow : (x.extractLsb' 0 32).toNat = x.toNat % 2 ^ 32 := by simp
  have hhigh : (x.extractLsb' 32 32).toNat = x.toNat / 2 ^ 32 % 2 ^ 32 := by
    simp [Nat.shiftRight_eq_div_pow]
  have hlt := x.isLt
  have hvalue : (ofUint64 x).toNat =
      (x.extractLsb' 0 32).toNat + 2 ^ 32 * (x.extractLsb' 32 32).toNat := by
    simp [toNat, WIDTH, limbValue, ofUint64, cell]
  rw [hvalue, hlow, hhigh]
  omega

theorem mulLimbStep_carryStep (pn : Vector (BitVec 32) WIDTH) (j : Nat) :
    CarryStep pn j (fun i => (cell pn (i + j)).toNat + (cell a.pn j).toNat * (cell b.pn i).toNat)
      (mulLimbStep (.other b) j (cell a.pn j)) := by
  intro u carry i hcarry _ hu
  have hle := mul_limb_le (cell a.pn j) (cell b.pn i)
  have hlimb := (cell pn (i + j)).isLt
  simp only [mulLimbStep, Operand.limb, hu (i + j) (le_refl _), Nat.add_assoc]
  rw [Nat.mod_eq_of_lt (b := 2 ^ 64) (by omega)]

/-- One row adds a limb times the other number to the limbs from `j` on, up to what is carried out,
and leaves those below as they were. -/
theorem mulRow_spec (pn : Vector (BitVec 32) WIDTH) {j n : Nat} (hn : WIDTH = j + n) :
    (∃ carry, limbValue (fun i => cell (mulRow a (.other b) pn j) (i + j)) n +
        2 ^ (32 * n) * carry =
      limbValue (fun i => cell pn (i + j)) n + (cell a.pn j).toNat * limbValue (cell b.pn) n) ∧
    limbValue (cell (mulRow a (.other b) pn j)) j = limbValue (cell pn) j := by
  have hbound : ∀ i < n, (cell pn (i + j)).toNat + (cell a.pn j).toNat * (cell b.pn i).toNat +
      2 ^ 32 ≤ 2 ^ 32 * 2 ^ 32 := by
    intro i _
    have hle := mul_limb_le (cell a.pn j) (cell b.pn i)
    have hlimb := (cell pn (i + j)).isLt
    omega
  obtain ⟨hvalue, -, hother⟩ :=
    carry_loop (mulLimbStep_carryStep a b pn j) (show n + j ≤ WIDTH by omega) hbound
  rw [weigh_add, weigh_mul, ← limbValue_eq_weigh, ← limbValue_eq_weigh] at hvalue
  rw [mulRow, show WIDTH - j = n by omega]
  exact ⟨⟨_, hvalue⟩, limbValue_congr fun p hp => hother p (.inl hp)⟩

/-- One row of the product adds the product with one limb, at the weight of the limb. -/
theorem mulRow_modEq {pn : Vector (BitVec 32) WIDTH} {j : Nat} (hj : j < WIDTH) :
    limbValue (cell (mulRow a (.other b) pn j)) WIDTH ≡
      limbValue (cell pn) WIDTH + 2 ^ (32 * j) * (cell a.pn j).toNat * b.toNat [MOD 2 ^ 256] := by
  obtain ⟨n, hn⟩ : ∃ n, WIDTH = j + n := ⟨WIDTH - j, by omega⟩
  obtain ⟨⟨carry, hvalue⟩, hbelow⟩ := mulRow_spec a b pn hn
  have hsplit : ∀ f : Nat → BitVec 32,
      limbValue f WIDTH = limbValue f j + 2 ^ (32 * j) * limbValue (fun i => f (i + j)) n := by
    intro f
    rw [hn, limbValue_add]
    simp only [Nat.add_comm j]
  have hb : b.toNat =
      limbValue (cell b.pn) n + 2 ^ (32 * n) * limbValue (fun i => cell b.pn (n + i)) j := by
    have hadd := limbValue_add (cell b.pn) n j
    rw [Nat.add_comm n j, ← hn] at hadd
    exact hadd
  have hpow : 2 ^ (32 * j) * 2 ^ (32 * n) = 2 ^ 256 := by
    rw [← Nat.pow_add, ← Nat.mul_add, ← hn]
    rfl
  rw [hsplit, hsplit, hbelow, hb]
  generalize limbValue (fun i => cell b.pn (n + i)) j = rest
  generalize limbValue (fun i => cell (mulRow a (.other b) pn j) (i + j)) n = row at hvalue ⊢
  -- what is carried out of the row and the limbs of `b` it leaves out are multiples of `2 ^ 256`
  have heq : limbValue (cell pn) j + 2 ^ (32 * j) * row +
        2 ^ 256 * (carry + (cell a.pn j).toNat * rest) =
      limbValue (cell pn) j + 2 ^ (32 * j) * limbValue (fun i => cell pn (i + j)) n +
        2 ^ (32 * j) * (cell a.pn j).toNat * (limbValue (cell b.pn) n + 2 ^ (32 * n) * rest) := by
    calc _ = limbValue (cell pn) j + 2 ^ (32 * j) * (row + 2 ^ (32 * n) * carry) +
            2 ^ (32 * j) * 2 ^ (32 * n) * ((cell a.pn j).toNat * rest) := by
          rw [← hpow]
          ring
      _ = _ := by
          rw [hvalue]
          ring
  rw [← heq]
  exact (Nat.add_mul_mod_self_left _ _ _).symm

theorem toNat_mulAssign_other : (a.mulAssign (.other b)).toNat = a.toNat * b.toNat % 2 ^ 256 := by
  have hrows : ∀ k ≤ WIDTH,
      limbValue (cell ((List.range k).foldl (mulRow a (.other b)) (ofUint64 0).pn)) WIDTH ≡
        limbValue (cell a.pn) k * b.toNat [MOD 2 ^ 256] := by
    intro k hk
    induction k with
    | zero =>
      have hzero := toNat_ofUint64 0
      rw [List.range_zero, List.foldl_nil, limbValue, Nat.zero_mul]
      exact congrArg (· % 2 ^ 256) hzero
    | succ k ih =>
      rw [List.range_succ, List.foldl_concat, limbValue, Nat.add_mul]
      exact (mulRow_modEq a b hk).trans (Nat.ModEq.add_right _ (ih (Nat.le_of_succ_le hk)))
  rw [← Nat.mod_eq_of_lt (a.mulAssign (.other b)).toNat_lt]
  exact hrows WIDTH (le_refl _)

/-- A number that is multiplied by itself in place is read after it has been set to zero. -/
theorem mulAssign_this : a.mulAssign .this = ofUint64 0 := by
  have hcell : ∀ p, cell (ofUint64 0).pn p = 0 := by
    intro p
    by_cases hp : p < WIDTH
    · have hall : ∀ p < WIDTH, cell (ofUint64 0).pn p = 0 := by decide
      exact hall p hp
    · rw [cell, Vector.getElem?_eq_none (Nat.not_lt.mp hp)]
      rfl
  have hstep : ∀ j i, mulLimbStep .this j (cell a.pn j) ((ofUint64 0).pn, 0) i =
      ((ofUint64 0).pn, 0) := by
    intro j i
    have hwrite := writeCell_cell (ofUint64 0).pn (i + j)
    rw [hcell] at hwrite
    simp only [mulLimbStep, Operand.limb, hcell]
    refine Prod.ext ?_ ?_
    · simpa using hwrite
    · simp
  have hrow : ∀ j, mulRow a .this (ofUint64 0).pn j = (ofUint64 0).pn := by
    intro j
    rw [mulRow, List.foldl_fixed' fun i => hstep j i]
  rw [mulAssign, List.foldl_fixed' hrow]

/-! ## Shifts -/

/-- The bits that `operator<<=` sets, for a distance of `k` limbs and `s` bits. -/
theorem getLsbD_shiftLeft (v : Vector (BitVec 32) WIDTH) (k s p r : Nat) :
    (cell ((List.range WIDTH).foldl (shiftLeftStep v k s) (Vector.replicate WIDTH 0)) p).getLsbD r =
        true ↔
      ∃ i < WIDTH,
        ((i + k + 1 < WIDTH ∧ s ≠ 0) ∧ i + k + 1 = p ∧ (cell v i >>> (32 - s)).getLsbD r = true) ∨
        (i + k < WIDTH ∧ i + k = p ∧ (cell v i <<< s).getLsbD r = true) := by
  apply getLsbD_foldl_or
  intro i _ u p r
  rw [shiftLeftStep, getLsbD_orCell _ _ id, getLsbD_orCell _ _ And.left, or_assoc]

theorem getLsbD_shiftRight (v : Vector (BitVec 32) WIDTH) (k s p r : Nat) :
    (cell ((List.range WIDTH).foldl (shiftRightStep v k s) (Vector.replicate WIDTH 0)) p).getLsbD r =
        true ↔
      ∃ i < WIDTH,
        ((k + 1 ≤ i ∧ s ≠ 0) ∧ i - k - 1 = p ∧ (cell v i <<< (32 - s)).getLsbD r = true) ∨
        (k ≤ i ∧ i - k = p ∧ (cell v i >>> s).getLsbD r = true) := by
  apply getLsbD_foldl_or
  intro i hi u p r
  rw [shiftRightStep, getLsbD_orCell _ _ fun _ => by omega, getLsbD_orCell _ _ fun _ => by omega,
    or_assoc]

theorem toNat_shiftLeft (shift : Nat) :
    (a.shiftLeft shift).toNat = a.toNat * 2 ^ shift % 2 ^ 256 := by
  apply Nat.eq_of_testBit_eq
  intro j
  rw [Nat.testBit_mod_two_pow, Nat.testBit_mul_two_pow, testBit_toNat, testBit_toNat,
    Bool.eq_iff_iff]
  simp only [Bool.and_eq_true, decide_eq_true_eq, shiftLeft, getLsbD_shiftLeft]
  refine and_congr_right fun hj => ⟨?_, ?_⟩
  · rintro ⟨i, hi, ⟨⟨hlt, hs⟩, hp, hbit⟩ | ⟨hlt, hp, hbit⟩⟩
    · -- the high bits of limb `i` go to the low bits of the next one
      rw [BitVec.getLsbD_ushiftRight] at hbit
      have hr := BitVec.lt_of_getLsbD hbit
      refine ⟨by omega, by omega, ?_⟩
      rw [show (j - shift) / 32 = i by omega,
        show (j - shift) % 32 = 32 - shift % 32 + j % 32 by omega]
      exact hbit
    · rw [BitVec.getLsbD_shiftLeft] at hbit
      simp only [Bool.and_eq_true, decide_eq_true_eq, Bool.not_eq_true',
        decide_eq_false_iff_not] at hbit
      refine ⟨by omega, by omega, ?_⟩
      rw [show (j - shift) / 32 = i by omega, show (j - shift) % 32 = j % 32 - shift % 32 by omega]
      exact hbit.2
  · rintro ⟨hle, hlt, hbit⟩
    refine ⟨(j - shift) / 32, by unfold WIDTH; omega, ?_⟩
    by_cases hr : j % 32 < shift % 32
    · refine .inl ⟨⟨by unfold WIDTH; omega, by omega⟩, by omega, ?_⟩
      rw [BitVec.getLsbD_ushiftRight, show 32 - shift % 32 + j % 32 = (j - shift) % 32 by omega]
      exact hbit
    · refine .inr ⟨by unfold WIDTH; omega, by omega, ?_⟩
      rw [BitVec.getLsbD_shiftLeft, show j % 32 - shift % 32 = (j - shift) % 32 by omega, hbit]
      simp [hr, Nat.mod_lt]

theorem toNat_shiftRight (shift : Nat) : (a.shiftRight shift).toNat = a.toNat / 2 ^ shift := by
  apply Nat.eq_of_testBit_eq
  intro j
  rw [Nat.testBit_div_two_pow, testBit_toNat, testBit_toNat, Bool.eq_iff_iff]
  simp only [Bool.and_eq_true, decide_eq_true_eq, shiftRight, getLsbD_shiftRight]
  constructor
  · rintro ⟨hj, i, hi, ⟨⟨hle, hs⟩, hp, hbit⟩ | ⟨hle, hp, hbit⟩⟩
    · -- the low bits of limb `i` go to the high bits of the one before
      rw [BitVec.getLsbD_shiftLeft] at hbit
      simp only [Bool.and_eq_true, decide_eq_true_eq, Bool.not_eq_true',
        decide_eq_false_iff_not] at hbit
      unfold WIDTH at hi
      refine ⟨by omega, ?_⟩
      rw [show (j + shift) / 32 = i by omega,
        show (j + shift) % 32 = j % 32 - (32 - shift % 32) by omega]
      exact hbit.2
    · rw [BitVec.getLsbD_ushiftRight] at hbit
      have hr := BitVec.lt_of_getLsbD hbit
      unfold WIDTH at hi
      refine ⟨by omega, ?_⟩
      rw [show (j + shift) / 32 = i by omega, show (j + shift) % 32 = shift % 32 + j % 32 by omega]
      exact hbit
  · rintro ⟨hlt, hbit⟩
    refine ⟨by omega, (j + shift) / 32, by unfold WIDTH; omega, ?_⟩
    by_cases hr : shift % 32 + j % 32 < 32
    · refine .inr ⟨by omega, by omega, ?_⟩
      rw [BitVec.getLsbD_ushiftRight, show shift % 32 + j % 32 = (j + shift) % 32 by omega]
      exact hbit
    · refine .inl ⟨⟨by omega, by omega⟩, by omega, ?_⟩
      rw [BitVec.getLsbD_shiftLeft, show j % 32 - (32 - shift % 32) = (j + shift) % 32 by omega,
        hbit]
      simp [Nat.mod_lt]
      omega

/-! ## The number of bits -/

theorem limbBits_eq_size {x : BitVec 32} {n : Nat} (hx : x ≠ 0) (hlt : x.toNat < 2 ^ (n + 1)) :
    limbBits x n = x.toNat.size := by
  have hpos : 0 < x.toNat := by
    rcases Nat.eq_zero_or_pos x.toNat with h | h
    · exact absurd (BitVec.eq_of_toNat_eq h) hx
    · exact h
  induction n with
  | zero =>
    rw [limbBits, show x.toNat = 1 by omega, Nat.size_one]
  | succ n ih =>
    rw [limbBits]
    split
    next hbit =>
      have hge : 2 ^ (n + 1) ≤ x.toNat := Nat.ge_two_pow_of_testBit hbit
      exact (Nat.le_antisymm (Nat.size_le.mpr hlt) (Nat.lt_size.mpr hge)).symm
    next hbit =>
      apply ih
      by_contra hge
      apply hbit
      have hone : x.toNat / 2 ^ (n + 1) = 1 := by
        apply Nat.div_eq_of_lt_le
        · omega
        · rw [Nat.pow_succ] at hlt
          omega
      rw [BitVec.getLsbD, Nat.testBit_eq_decide_div_mod_eq, hone]
      rfl

/-- The bits below limb `n` are counted up to the highest one that is set. -/
theorem bitsBelow_eq_size (pn : Vector (BitVec 32) WIDTH) (n : Nat) :
    bitsBelow pn n = (limbValue (cell pn) n).size := by
  induction n with
  | zero => rw [bitsBelow, limbValue, Nat.size_zero]
  | succ n ih =>
    rw [bitsBelow, limbValue]
    split
    next hne =>
      have hpos : (cell pn n).toNat ≠ 0 := fun h => hne (BitVec.eq_of_toNat_eq h)
      rw [limbBits_eq_size hne (cell pn n).isLt, size_add_two_pow_mul (limbValue_lt _ _) hpos]
    next heq =>
      rw [not_not.mp heq, ih]
      simp

theorem bits_eq_size : a.bits = a.toNat.size := bitsBelow_eq_size a.pn WIDTH

/-! ## Comparison -/

theorem compareTo_eq : a.compareTo b =
    if a.toNat < b.toNat then -1 else if b.toNat < a.toNat then 1 else 0 :=
  compareLimbs_eq (cell a.pn) (cell b.pn) WIDTH

theorem compareTo_nonneg : 0 ≤ a.compareTo b ↔ b.toNat ≤ a.toNat := by
  rw [compareTo_eq]
  split
  next h => simp [h]
  next h =>
    simp only [Nat.not_lt.mp h, iff_true]
    split <;> decide

/-! ## Division -/

/-- A bit of the quotient is set where those from it on are still clear. -/
theorem toNat_setBit {s : Nat} (hs : s < 256) (hbits : 2 ^ (s + 1) ∣ a.toNat) :
    (a.setBit s).toNat = a.toNat + 2 ^ s := by
  have hor : (a.setBit s).toNat = a.toNat ||| 2 ^ s := by
    apply Nat.eq_of_testBit_eq
    intro j
    rw [Nat.testBit_or, testBit_toNat, testBit_toNat, Nat.testBit_two_pow, setBit,
      cell_writeCell _ _ _ _ (show s / 32 < WIDTH by unfold WIDTH; omega)]
    split
    next heq =>
      have hone : ((1 <<< (s % 32) : Nat) : BitVec 32).getLsbD (j % 32) = decide (s = j) := by
        rw [BitVec.natCast_eq_ofNat, BitVec.getLsbD_ofNat, Nat.one_shiftLeft, Nat.testBit_two_pow,
          Bool.eq_iff_iff]
        simp only [Bool.and_eq_true, decide_eq_true_eq]
        omega
      have hj : j < 256 := by omega
      rw [heq, BitVec.getLsbD_or, hone, decide_eq_true hj, Bool.true_and, Bool.true_and]
    next hne =>
      have hjs : s ≠ j := by
        rintro rfl
        exact hne rfl
      simp [hjs]
  obtain ⟨x, hx⟩ := hbits
  have hlt : 2 ^ s < 2 ^ (s + 1) := Nat.pow_lt_pow_right (by decide) (Nat.lt_succ_self s)
  rw [hor, hx, ← Nat.two_pow_add_eq_or_of_lt hlt]

/-- The loop subtracts the shifted divisor down to the divisor itself. -/
theorem divLoop_toNat {x y : Nat} {num div quot : ArithUint256} {n : Nat} (hn : n ≤ 256)
    (h : Dividing x y n num.toNat quot.toNat) (hdiv : 0 < n → div.toNat = y * 2 ^ (n - 1)) :
    (divLoop n num div quot).toNat = x / y := by
  induction n generalizing num div quot with
  | zero => exact h.quot_eq
  | succ s ih =>
    have hvalue : div.toNat = y * 2 ^ s := hdiv (Nat.succ_pos s)
    have hhalf : 0 < s → (div.shiftRight 1).toNat = y * 2 ^ (s - 1) := by
      intro hs
      obtain ⟨t, rfl⟩ : ∃ t, s = t + 1 := ⟨s - 1, by omega⟩
      rw [toNat_shiftRight, hvalue, Nat.pow_succ, ← Nat.mul_assoc, Nat.pow_one,
        Nat.mul_div_cancel _ (by decide)]
      rfl
    rw [divLoop]
    split
    next hge =>
      rw [compareTo_nonneg] at hge
      have hsub := h.subtract (hvalue ▸ hge)
      rw [← hvalue, ← toNat_sub_of_le _ _ hge, ← toNat_setBit _ (by omega) h.bits] at hsub
      exact ih (by omega) hsub hhalf
    next hlt =>
      rw [compareTo_nonneg, Nat.not_le, hvalue] at hlt
      exact ih (by omega) (h.skip hlt) hhalf

theorem div_zero (hb : b.toNat = 0) : a.div b = .error .uintError := by
  rw [div, bits_eq_size, hb, Nat.size_zero, if_pos rfl]

theorem div_ok (hb : b.toNat ≠ 0) : ∃ q, a.div b = .ok q ∧ q.toNat = a.toNat / b.toNat := by
  have hbits : b.bits ≠ 0 := by
    rw [bits_eq_size]
    exact mt Nat.size_eq_zero.mp hb
  have hupper : a.toNat < 2 ^ a.bits := a.bits_eq_size ▸ Nat.lt_size_self _
  have hlower : 2 ^ (b.bits - 1) ≤ b.toNat := Nat.lt_size.mp (by rw [← bits_eq_size]; omega)
  have htop : b.toNat < 2 ^ b.bits := b.bits_eq_size ▸ Nat.lt_size_self _
  rw [div, if_neg hbits]
  split
  next hlt =>
    refine ⟨_, rfl, ?_⟩
    have hle : 2 ^ a.bits ≤ 2 ^ (b.bits - 1) := Nat.pow_le_pow_right (by decide) (by omega)
    rw [toNat_ofUint64, Nat.div_eq_of_lt (by omega)]
    rfl
  next hge =>
    refine ⟨_, rfl, ?_⟩
    have hle : a.bits ≤ 256 := by
      rw [bits_eq_size, Nat.size_le]
      exact a.toNat_lt
    have hshift : (b.shiftLeft (a.bits - b.bits)).toNat = b.toNat * 2 ^ (a.bits - b.bits) := by
      rw [toNat_shiftLeft]
      apply Nat.mod_eq_of_lt
      calc b.toNat * 2 ^ (a.bits - b.bits) < 2 ^ b.bits * 2 ^ (a.bits - b.bits) :=
            Nat.mul_lt_mul_of_pos_right htop (Nat.two_pow_pos _)
        _ = 2 ^ a.bits := by rw [← Nat.pow_add, Nat.add_sub_cancel' (Nat.not_lt.mp hge)]
        _ ≤ 2 ^ 256 := Nat.pow_le_pow_right (by decide) hle
    apply divLoop_toNat (by omega) ?_ fun _ => hshift
    refine ⟨?_, ?_, ?_⟩
    · rw [toNat_ofUint64]
      simp
    · calc a.toNat < 2 ^ a.bits := hupper
        _ = 2 ^ (b.bits - 1) * 2 ^ (a.bits - b.bits + 1) := by
          rw [← Nat.pow_add]
          congr 1
          omega
        _ ≤ b.toNat * 2 ^ (a.bits - b.bits + 1) := Nat.mul_le_mul_right _ hlower
    · rw [toNat_ofUint64]
      exact Nat.dvd_zero _

/-! ## Arithmetic modulo `2 ^ 256` -/

theorem bits_eq : a.bits = if a.toNat = 0 then 0 else a.toNat.log2 + 1 := by
  rw [bits_eq_size]
  split
  next h => rw [h, Nat.size_zero]
  next h =>
    apply Nat.le_antisymm
    · exact Nat.size_le.mpr Nat.lt_log2_self
    · exact Nat.lt_size.mpr (Nat.log2_self_le h)

/-- The operators give the results of integer arithmetic for the number `a` and the operand `b`. -/
structure Exact (a : ArithUint256) (b : Operand) (shift : Nat) : Prop where
  add : (a.add (b.value a)).toNat = (a.toNat + (b.value a).toNat) % 2 ^ 256
  sub : ((a.sub (b.value a)).toNat : Int) = ((a.toNat : Int) - (b.value a).toNat) % 2 ^ 256
  neg : (a.neg.toNat : Int) = -(a.toNat : Int) % 2 ^ 256
  mul : (a.mulAssign b).toNat = a.toNat * (b.value a).toNat % 2 ^ 256
  mulUint32 : ∀ b32, (a.mulUint32 b32).toNat = a.toNat * b32.toNat % 2 ^ 256
  shiftLeft : (a.shiftLeft shift).toNat = a.toNat * 2 ^ shift % 2 ^ 256
  shiftRight : (a.shiftRight shift).toNat = a.toNat / 2 ^ shift
  div : (b.value a).toNat ≠ 0 →
    ∃ q, a.div (b.value a) = .ok q ∧ q.toNat = a.toNat / (b.value a).toNat
  divZero : (b.value a).toNat = 0 → a.div (b.value a) = .error .uintError
  compareTo : a.compareTo (b.value a) =
    if a.toNat < (b.value a).toNat then -1 else if (b.value a).toNat < a.toNat then 1 else 0
  bits : a.bits = if a.toNat = 0 then 0 else a.toNat.log2 + 1

theorem intCast_toNat_neg : (a.neg.toNat : Int) = -(a.toNat : Int) % 2 ^ 256 := by
  have hlt := a.toNat_lt
  rw [toNat_neg]
  omega

theorem intCast_toNat_sub : ((a.sub b).toNat : Int) = ((a.toNat : Int) - b.toNat) % 2 ^ 256 := by
  have hb := b.toNat_lt
  rw [toNat_sub]
  omega

/-- A square is a multiple of `2 ^ 256` if the number is one of `2 ^ 128`. -/
theorem mul_self_mod_eq_zero : 0 = a.toNat * a.toNat % 2 ^ 256 ↔ 2 ^ 128 ∣ a.toNat := by
  rw [eq_comm, ← Nat.dvd_iff_mod_eq_zero, ← Nat.pow_two, show 2 ^ 256 = (2 ^ 128) ^ 2 from rfl]
  exact Nat.pow_dvd_pow_iff (by decide)

/-- The arithmetic is exact unless a number is multiplied by itself in place, which gives zero. -/
theorem exact_iff (a : ArithUint256) (b : Operand) (shift : Nat) :
    a.Exact b shift ↔ b ≠ .this ∨ 2 ^ 128 ∣ a.toNat := by
  have hmul : (a.mulAssign b).toNat = a.toNat * (b.value a).toNat % 2 ^ 256 ↔
      b ≠ .this ∨ 2 ^ 128 ∣ a.toNat := by
    cases b with
    | other b => simp [toNat_mulAssign_other, Operand.value]
    | this =>
      rw [mulAssign_this, toNat_ofUint64, Operand.value]
      simpa using mul_self_mod_eq_zero a
  refine ⟨fun h => hmul.mp h.mul, fun h => ?_⟩
  exact ⟨toNat_add _ _, intCast_toNat_sub _ _, intCast_toNat_neg _, hmul.mpr h, toNat_mulUint32 _,
    toNat_shiftLeft _ _, toNat_shiftRight _ _, div_ok _ _, div_zero _ _, compareTo_eq _ _,
    bits_eq _⟩

/-- Three times itself. -/
theorem three_mulAssign_this : ¬ (ofUint64 3).Exact .this 0 := by
  intro h
  have hmul := h.mul
  rw [mulAssign_this, Operand.value, toNat_ofUint64, toNat_ofUint64] at hmul
  exact absurd hmul (by decide)

end ArithUint256

end Energiminer.Primitives
