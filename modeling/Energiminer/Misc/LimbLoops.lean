import Energiminer.Misc.Cells
import Energiminer.Misc.Limbs
import Mathlib.Data.Nat.Size

/-!
# Loops over limbs

Three kinds of loops that numbers in limbs are computed by. A loop with a carry writes the low word
of a sum and carries the rest, so the words and the last carry make up the weighted sum of what was
added. A loop that writes bits into words leaves the bits that some iteration wrote. A long division
subtracts the divisor, shifted less and less, from what is left of the dividend.
-/

namespace Energiminer.Misc
variable {w m : Nat}

/-! ## Weighted sums -/

/-- The sum of `f i` at the weight of limb `i`, below `n`. -/
def weigh (w : Nat) (f : Nat → Nat) : Nat → Nat
  | 0 => 0
  | n + 1 => weigh w f n + 2 ^ (w * n) * f n

theorem limbValue_eq_weigh (f : Nat → BitVec w) (n : Nat) :
    limbValue f n = weigh w (fun i => (f i).toNat) n := by
  induction n with
  | zero => rfl
  | succ n ih => rw [limbValue, weigh, ih]

theorem weigh_add (w : Nat) (f g : Nat → Nat) (n : Nat) :
    weigh w (fun i => f i + g i) n = weigh w f n + weigh w g n := by
  induction n with
  | zero => rfl
  | succ n ih =>
    rw [weigh, weigh, weigh, ih]
    ring

theorem weigh_mul (w c : Nat) (f : Nat → Nat) (n : Nat) :
    weigh w (fun i => c * f i) n = c * weigh w f n := by
  induction n with
  | zero => rfl
  | succ n ih =>
    rw [weigh, weigh, ih]
    ring

theorem limbValue_congr {f g : Nat → BitVec w} {n : Nat} (h : ∀ i < n, f i = g i) :
    limbValue f n = limbValue g n := by
  induction n with
  | zero => rfl
  | succ n ih =>
    rw [limbValue, limbValue, ih fun i hi => h i (Nat.lt_succ_of_lt hi), h n (Nat.lt_succ_self n)]

theorem limbValue_writeCell (v : Vector (BitVec w) m) {i n : Nat} (x : BitVec w) (hi : i < m)
    (hn : i < n) :
    limbValue (cell (writeCell v i x)) n + 2 ^ (w * i) * (cell v i).toNat =
      limbValue (cell v) n + 2 ^ (w * i) * x.toNat := by
  induction n with
  | zero => omega
  | succ n ih =>
    rw [limbValue, limbValue]
    rcases Nat.lt_succ_iff_lt_or_eq.mp hn with hlt | rfl
    · rw [cell_writeCell_ne _ _ (by omega)]
      have := ih hlt
      omega
    · have hlow : limbValue (cell (writeCell v i x)) i = limbValue (cell v) i :=
        limbValue_congr fun j hj => cell_writeCell_ne _ _ (by omega)
      rw [hlow, cell_writeCell _ _ _ _ hi, if_pos rfl]
      omega

theorem limbValue_not (f : Nat → BitVec w) (n : Nat) :
    limbValue (fun i => ~~~ f i) n + limbValue f n + 1 = 2 ^ (w * n) := by
  induction n with
  | zero => simp [limbValue]
  | succ n ih =>
    have hlimb : (~~~ f n).toNat + (f n).toNat + 1 = 2 ^ w := by
      have := (f n).isLt
      rw [BitVec.toNat_not]
      omega
    rw [limbValue, limbValue, Nat.mul_succ, Nat.pow_add, ← hlimb, Nat.mul_add, Nat.mul_add, ← ih]
    omega

/-! ## Loops with a carry -/

section Carry
variable {v : Vector (BitVec w) m} {f : Nat → Nat} {off : Nat}
  {step : Vector (BitVec w) m × Nat → Nat → Vector (BitVec w) m × Nat}

/-- The body of a loop with a carry that adds `f i` at limb `off + i`: as long as that limb and those
above it are those of `v`, it writes the low word and carries the rest. -/
def CarryStep (v : Vector (BitVec w) m) (off : Nat) (f : Nat → Nat)
    (step : Vector (BitVec w) m × Nat → Nat → Vector (BitVec w) m × Nat) : Prop :=
  ∀ (u : Vector (BitVec w) m) (carry i : Nat), carry < 2 ^ w → i + off < m →
    (∀ p, i + off ≤ p → cell u p = cell v p) →
    step (u, carry) i =
      (writeCell u (i + off) (BitVec.ofNat w (carry + f i)), (carry + f i) / 2 ^ w)

/-- The words that were written and the carry make up the weighted sum, and the other words are as
they were. -/
theorem carry_loop (hstep : CarryStep v off f step) {n : Nat} (hn : n + off ≤ m)
    (hf : ∀ i < n, f i + 2 ^ w ≤ 2 ^ w * 2 ^ w) :
    limbValue (fun i => cell ((List.range n).foldl step (v, 0)).1 (i + off)) n +
        2 ^ (w * n) * ((List.range n).foldl step (v, 0)).2 = weigh w f n ∧
      ((List.range n).foldl step (v, 0)).2 < 2 ^ w ∧
      ∀ p, p < off ∨ n + off ≤ p → cell ((List.range n).foldl step (v, 0)).1 p = cell v p := by
  induction n with
  | zero =>
    refine ⟨?_, Nat.two_pow_pos w, fun p _ => rfl⟩
    simp [limbValue, weigh]
  | succ n ih =>
    obtain ⟨hvalue, hcarry, hother⟩ := ih (by omega) fun i hi => hf i (Nat.lt_succ_of_lt hi)
    rw [List.range_succ, List.foldl_concat]
    generalize (List.range n).foldl step (v, 0) = st at hvalue hcarry hother ⊢
    obtain ⟨u, carry⟩ := st
    dsimp only at hvalue hcarry hother
    rw [hstep u carry n hcarry (by omega) fun p hp => hother p (.inr hp)]
    dsimp only
    have hbound := hf n (Nat.lt_succ_self n)
    refine ⟨?_, Nat.div_lt_of_lt_mul (by omega), fun p hp => ?_⟩
    · have hlow : limbValue (fun i =>
          cell (writeCell u (n + off) (BitVec.ofNat w (carry + f n))) (i + off)) n =
          limbValue (fun i => cell u (i + off)) n :=
        limbValue_congr fun i hi => cell_writeCell_ne _ _ (by omega)
      rw [limbValue, hlow, cell_writeCell _ _ _ _ (by omega), if_pos rfl, BitVec.toNat_ofNat, weigh,
        ← hvalue, Nat.mul_succ, Nat.pow_add]
      have hdiv := Nat.mod_add_div (carry + f n) (2 ^ w)
      calc limbValue (fun i => cell u (i + off)) n + 2 ^ (w * n) * ((carry + f n) % 2 ^ w) +
            2 ^ (w * n) * 2 ^ w * ((carry + f n) / 2 ^ w)
          = limbValue (fun i => cell u (i + off)) n +
              2 ^ (w * n) * ((carry + f n) % 2 ^ w + 2 ^ w * ((carry + f n) / 2 ^ w)) := by ring
        _ = limbValue (fun i => cell u (i + off)) n + 2 ^ (w * n) * carry + 2 ^ (w * n) * f n := by
          rw [hdiv]
          ring
    · rw [cell_writeCell_ne _ _ (by omega)]
      exact hother p (by omega)

end Carry

/-! ## Bits -/

/-- Bit `j` of a number is bit `j % w` of limb `j / w`. -/
theorem testBit_limbValue (f : Nat → BitVec w) (n j : Nat) :
    (limbValue f n).testBit j = (decide (j < w * n) && (f (j / w)).getLsbD (j % w)) := by
  induction n with
  | zero => simp [limbValue]
  | succ n ih =>
    rw [limbValue, Nat.add_comm, Nat.two_pow_add_eq_or_of_lt (limbValue_lt f n), Nat.testBit_or, ih,
      Nat.testBit_two_pow_mul]
    rcases Nat.lt_or_ge j (w * n) with hlow | hhigh
    · have hlt : j < w * (n + 1) := Nat.lt_of_lt_of_le hlow (Nat.mul_le_mul_left _ (Nat.le_succ n))
      simp [hlow, hlt, Nat.not_le.mpr hlow]
    · have hnlow : ¬ j < w * n := Nat.not_lt.mpr hhigh
      rcases Nat.lt_or_ge j (w * (n + 1)) with hin | hout
      · have hdiv : j / w = n := by
          apply Nat.div_eq_of_lt_le
          · rw [Nat.mul_comm]
            exact hhigh
          · rw [Nat.mul_comm]
            exact hin
        have hmod : j % w = j - w * n := by
          have := Nat.div_add_mod j w
          rw [hdiv] at this
          omega
        simp [hnlow, hin, hhigh, hdiv, hmod, BitVec.getLsbD]
      · have hnin : ¬ j < w * (n + 1) := Nat.not_lt.mpr hout
        have hzero : ((f n).toNat).testBit (j - w * n) = false := by
          apply Nat.testBit_lt_two_pow
          refine Nat.lt_of_lt_of_le (f n).isLt (Nat.pow_le_pow_right (by decide) ?_)
          rw [Nat.mul_succ] at hout
          omega
        simp [hnlow, hnin, hzero]

/-- The highest limb that is not zero tells the number of bits. -/
theorem size_add_two_pow_mul {low x k : Nat} (hlow : low < 2 ^ k) (hx : x ≠ 0) :
    (low + 2 ^ k * x).size = k + x.size := by
  obtain ⟨t, ht⟩ := Nat.exists_eq_succ_of_ne_zero (mt Nat.size_eq_zero.mp hx)
  rw [ht]
  apply Nat.le_antisymm
  · rw [Nat.size_le]
    calc low + 2 ^ k * x < 2 ^ k + 2 ^ k * x := Nat.add_lt_add_right hlow _
      _ = 2 ^ k * (x + 1) := by ring
      _ ≤ 2 ^ k * 2 ^ (t + 1) := Nat.mul_le_mul_left _ (Nat.size_le.mp ht.le)
      _ = 2 ^ (k + (t + 1)) := (Nat.pow_add 2 k (t + 1)).symm
  · rw [Nat.add_succ, Nat.succ_le_iff, Nat.lt_size]
    calc 2 ^ (k + t) = 2 ^ k * 2 ^ t := Nat.pow_add 2 k t
      _ ≤ 2 ^ k * x := Nat.mul_le_mul_left _ (Nat.lt_size.mp (by omega))
      _ ≤ low + 2 ^ k * x := Nat.le_add_left _ _

theorem getLsbD_orCell (v : Vector (BitVec w) m) {c : Prop} [Decidable c] {q : Nat} (u : BitVec w)
    (hq : c → q < m) (p r : Nat) :
    (cell (if c then writeCell v q (cell v q ||| u) else v) p).getLsbD r = true ↔
      (cell v p).getLsbD r = true ∨ (c ∧ q = p ∧ u.getLsbD r = true) := by
  by_cases hc : c
  · rw [if_pos hc, cell_writeCell _ _ _ _ (hq hc)]
    by_cases hqp : q = p
    · subst hqp
      simp [hc]
    · simp [hqp]
  · simp [hc]

/-- A loop that sets bits, starting from zero, leaves those that some iteration sets. -/
theorem getLsbD_foldl_or {step : Vector (BitVec w) m → Nat → Vector (BitVec w) m}
    {sets : Nat → Nat → Nat → Prop} {n : Nat}
    (hstep : ∀ i < n, ∀ (v : Vector (BitVec w) m) (p r : Nat),
      (cell (step v i) p).getLsbD r = true ↔ (cell v p).getLsbD r = true ∨ sets i p r) (p r : Nat) :
    (cell ((List.range n).foldl step (Vector.replicate m 0)) p).getLsbD r = true ↔
      ∃ i < n, sets i p r := by
  induction n with
  | zero =>
    have hzero : cell (Vector.replicate m (0 : BitVec w)) p = 0 := by
      rw [cell, Vector.getElem?_replicate]
      split <;> rfl
    rw [List.range_zero, List.foldl_nil, hzero]
    simp
  | succ n ih =>
    rw [List.range_succ, List.foldl_concat, hstep n (Nat.lt_succ_self n),
      ih fun i hi => hstep i (Nat.lt_succ_of_lt hi)]
    simp only [Nat.lt_succ_iff_lt_or_eq, or_and_right, exists_or, exists_eq_left]

/-! ## Long division -/

/-- A long division of `a` by `b` that has still to subtract `b` shifted by less than `s`. -/
structure Dividing (a b s num quot : Nat) : Prop where
  value : a = quot * b + num
  small : num < b * 2 ^ s
  bits : 2 ^ s ∣ quot

namespace Dividing
variable {a b s num quot : Nat}

theorem subtract (h : Dividing a b (s + 1) num quot) (hle : b * 2 ^ s ≤ num) :
    Dividing a b s (num - b * 2 ^ s) (quot + 2 ^ s) := by
  have hsmall := h.small
  rw [Nat.pow_succ, ← Nat.mul_assoc] at hsmall
  refine ⟨?_, by omega, ?_⟩
  · have hvalue := h.value
    rw [Nat.add_mul, Nat.mul_comm (2 ^ s) b]
    omega
  · exact Nat.dvd_add (Nat.dvd_trans (Nat.pow_dvd_pow 2 (Nat.le_succ s)) h.bits) (Nat.dvd_refl _)

theorem skip (h : Dividing a b (s + 1) num quot) (hlt : num < b * 2 ^ s) :
    Dividing a b s num quot :=
  ⟨h.value, hlt, Nat.dvd_trans (Nat.pow_dvd_pow 2 (Nat.le_succ s)) h.bits⟩

/-- Nothing is left to subtract: the quotient is complete. -/
theorem quot_eq (h : Dividing a b 0 num quot) : quot = a / b := by
  have hsmall := h.small
  rw [Nat.pow_zero, Nat.mul_one] at hsmall
  rw [h.value, Nat.mul_comm, Nat.mul_add_div (by omega), Nat.div_eq_of_lt hsmall, Nat.add_zero]

end Dividing

end Energiminer.Misc
