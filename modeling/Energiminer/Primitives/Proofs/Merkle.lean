import Energiminer.Misc.PairTree
import Energiminer.Primitives.Merkle

/-!
# Merkle roots and branches are those of the tree

`MerkleComputation` keeps the node before the next block of `2 ^ level` leaves at `inner[level]`,
for the bits of the number of leaves that are set. A leaf and the final sweep both climb: the hash
on its way up is the last node of its level so far, and combining it with the entry on its left, or
with itself in the sweep, gives the last node of the level above. What climbs also knows whether the
matching leaf lies below it, and the branch is the path of that leaf up to the level.
-/

namespace Energiminer.Primitives
open Misc PairTree

namespace Merkle
variable {α : Type} {combine : α → α → α} {null : α} {leaves : List α} {i c : Nat}

/-! ## Numbers of leaves and their bits -/

theorem blocks_pos {N q k : Nat} (hN : N = q * 2 ^ k) (hpos : 0 < N) : 0 < q := by
  rcases Nat.eq_zero_or_pos q with rfl | hq
  · omega
  · exact hq

theorem div_eq_pred {N q k : Nat} (hN : N = q * 2 ^ k) (hlt : c < N) (hle : N ≤ c + 2 ^ k) :
    c / 2 ^ k = q - 1 := by
  have hpos := blocks_pos hN (by omega)
  obtain ⟨p, rfl⟩ : ∃ p, q = p + 1 := ⟨q - 1, by omega⟩
  rw [Nat.add_mul, Nat.one_mul] at hN
  apply Nat.div_eq_of_lt_le
  · rw [Nat.add_sub_cancel]
    omega
  · rw [Nat.add_sub_cancel, Nat.succ_mul]
    omega

theorem pred_div_two_pow {x d : Nat} (hodd : x % 2 = 1) (hd : 0 < d) :
    (x - 1) / 2 ^ d = x / 2 ^ d := by
  obtain ⟨d, rfl⟩ : ∃ e, d = e + 1 := ⟨d - 1, by omega⟩
  rw [Nat.pow_succ', ← Nat.div_div_eq_div_mul, ← Nat.div_div_eq_div_mul]
  apply congrArg (· / 2 ^ d)
  omega

theorem div_two_pow_of_le (x : Nat) {k l : Nat} (h : k ≤ l) :
    x / 2 ^ l = x / 2 ^ k / 2 ^ (l - k) := by
  rw [Nat.div_div_eq_div_mul, ← Nat.pow_add, Nat.add_sub_cancel' h]

/-- A number in the block before a bit that is set shares the higher blocks. -/
theorem div_eq_of_block {k l : Nat} (hk : c / 2 ^ k % 2 = 1) (hik : i / 2 ^ k = c / 2 ^ k - 1)
    (hlt : k < l) : i / 2 ^ l = c / 2 ^ l := by
  rw [div_two_pow_of_le i hlt.le, hik, pred_div_two_pow hk (Nat.sub_pos_of_lt hlt),
    ← div_two_pow_of_le c hlt.le]

/-- A number lies in the block of only one of the bits that are set. -/
theorem not_lt_of_blocks {k l : Nat} (hk : c / 2 ^ k % 2 = 1) (hik : i / 2 ^ k = c / 2 ^ k - 1)
    (hl : c / 2 ^ l % 2 = 1) (hil : i / 2 ^ l = c / 2 ^ l - 1) : ¬ k < l := by
  intro hlt
  have hi := div_eq_of_block hk hik hlt
  omega

/-! ## The invariants -/

section
variable (combine null leaves i)

/-- What the computation keeps after `c` leaves, for the matching leaf `i`. -/
structure Holds (m : Merkle α) (c : Nat) : Prop where
  length : m.inner.length = 32
  inner : ∀ k, c / 2 ^ k % 2 = 1 →
    m.inner.getD k null = node combine null leaves k (c / 2 ^ k - 1)
  unmatched : c ≤ i → m.matchlevel = none ∧ m.branch = []
  matched : i < c → ∃ k, m.matchlevel = some k ∧ c / 2 ^ k % 2 = 1 ∧ i / 2 ^ k = c / 2 ^ k - 1 ∧
    m.branch = path combine null leaves i k

/-- A hash on its way up over `c` leaves is the node that ends at leaf `N`. -/
structure Rises (m : Merkle α) (c N : Nat) (a : Ascent α) (q : Nat) : Prop where
  ends : N = q * 2 ^ a.level
  above : c < N
  near : N ≤ c + 2 ^ a.level
  inside : N < leaves.length + 2 ^ a.level
  h : a.h = node combine null leaves a.level (q - 1)
  matchh : a.matchh = true ↔ i < leaves.length ∧ i / 2 ^ a.level = q - 1
  branch : a.branch = if a.matchh then path combine null leaves i a.level else m.branch

end

variable {m : Merkle α} {a : Ascent α} {N q : Nat}

theorem Holds.matchlevel_iff (hm : Holds combine null leaves i m c) {k : Nat}
    (hk : c / 2 ^ k % 2 = 1) :
    m.matchlevel = some k ↔ i < c ∧ i / 2 ^ k = c / 2 ^ k - 1 := by
  rcases Nat.lt_or_ge i c with hlt | hge
  · obtain ⟨l, hlevel, hl, hil, -⟩ := hm.matched hlt
    rw [hlevel, Option.some_inj]
    refine ⟨fun h => ⟨hlt, h ▸ hil⟩, fun h => ?_⟩
    exact Nat.le_antisymm (Nat.not_lt.mp (not_lt_of_blocks hk h.2 hl hil))
      (Nat.not_lt.mp (not_lt_of_blocks hl hil hk h.2))
  · rw [(hm.unmatched hge).1]
    constructor
    · intro h
      cases h
    · intro h
      omega

/-- The branch that is kept is the path up to the level of the matching block. -/
theorem Holds.branch_eq (hm : Holds combine null leaves i m c) {k : Nat} (hk : c / 2 ^ k % 2 = 1)
    (hlevel : m.matchlevel = some k) : m.branch = path combine null leaves i k := by
  obtain ⟨l, hl, -, -, hbranch⟩ := hm.matched ((hm.matchlevel_iff hk).mp hlevel).1
  obtain rfl : l = k := Option.some.inj (hl.symm.trans hlevel)
  exact hbranch

/-! ## One level up -/

section
variable (combine null) (m : Merkle α) (a : Ascent α)

theorem combineLeft_eq :
    m.combineLeft combine null a =
      { level := a.level + 1
        h := combine (m.inner.getD a.level null) a.h
        matchh := a.matchh || decide (m.matchlevel = some a.level)
        mutated := a.mutated
        branch := if a.matchh then a.branch ++ [m.inner.getD a.level null]
          else if m.matchlevel = some a.level then a.branch ++ [a.h] else a.branch } := by
  unfold combineLeft pushBranch
  by_cases hright : a.matchh = true
  · simp [hright]
  · by_cases hmatch : m.matchlevel = some a.level
    · simp [hright, hmatch]
    · simp [hright, hmatch]

theorem combineLeft_level : (m.combineLeft combine null a).level = a.level + 1 := by
  rw [combineLeft_eq]

theorem combineLeft_h :
    (m.combineLeft combine null a).h = combine (m.inner.getD a.level null) a.h := by
  rw [combineLeft_eq]

theorem combineLeft_matchh :
    (m.combineLeft combine null a).matchh = (a.matchh || decide (m.matchlevel = some a.level)) := by
  rw [combineLeft_eq]

theorem combineLeft_branch :
    (m.combineLeft combine null a).branch =
      if a.matchh then a.branch ++ [m.inner.getD a.level null]
      else if m.matchlevel = some a.level then a.branch ++ [a.h] else a.branch := by
  rw [combineLeft_eq]

theorem combineLeft_mutated (mutated : Bool) :
    m.combineLeft combine null { a with mutated } =
      { m.combineLeft combine null a with mutated } := by
  rw [combineLeft_eq, combineLeft_eq]

end

theorem Rises.of_mutated (ha : Rises combine null leaves i m c N a q) (mutated : Bool) :
    Rises combine null leaves i m c N { a with mutated } q :=
  ⟨ha.ends, ha.above, ha.near, ha.inside, ha.h, ha.matchh, ha.branch⟩

section Up
variable (hm : Holds combine null leaves i m c) (ha : Rises combine null leaves i m c N a (2 * q))
include ha

theorem Rises.half_pos : 0 < q := by
  have hpos := blocks_pos ha.ends (Nat.zero_lt_of_lt ha.above)
  omega

theorem Rises.floor : c / 2 ^ a.level = 2 * q - 1 := div_eq_pred ha.ends ha.above ha.near

theorem Rises.bit : c / 2 ^ a.level % 2 = 1 := by
  have hq := ha.half_pos
  rw [ha.floor]
  omega

/-- The node above is that of the two last ones of the level. -/
theorem Rises.node_up : node combine null leaves (a.level + 1) (q - 1) =
    combine (node combine null leaves a.level (2 * q - 2)) a.h := by
  have hq := ha.half_pos
  have hwidth : 2 * q ≤ (level combine leaves a.level).length :=
    le_length_level (ha.ends ▸ ha.inside)
  rw [node_succ (by omega), ha.h, show 2 * (q - 1) = 2 * q - 2 by omega,
    show 2 * q - 2 + 1 = 2 * q - 1 by omega]

/-- The matching leaf lies below the node above if it lies below one of the two. -/
theorem Rises.below_iff : i / 2 ^ (a.level + 1) = q - 1 ↔
    i / 2 ^ a.level = 2 * q - 1 ∨ i / 2 ^ a.level = 2 * q - 2 := by
  have hq := ha.half_pos
  rw [Nat.pow_succ, ← Nat.div_div_eq_div_mul]
  omega

include hm

theorem Rises.entry :
    m.inner.getD a.level null = node combine null leaves a.level (2 * q - 2) := by
  rw [hm.inner _ ha.bit, ha.floor]
  rfl

theorem Rises.matchlevel_iff (hc : c ≤ leaves.length) :
    m.matchlevel = some a.level ↔ i < leaves.length ∧ i / 2 ^ a.level = 2 * q - 2 := by
  have hq := ha.half_pos
  have hfloor := ha.floor
  rw [hm.matchlevel_iff ha.bit, hfloor, Nat.sub_sub]
  refine and_congr_left fun hi => ⟨fun h => Nat.lt_of_lt_of_le h hc, fun _ => ?_⟩
  by_contra hge
  have hmono := Nat.div_le_div_right (c := 2 ^ a.level) (Nat.not_lt.mp hge)
  omega

theorem Rises.matchh_up (hc : c ≤ leaves.length) :
    (m.combineLeft combine null a).matchh = true ↔
      i < leaves.length ∧ i / 2 ^ (a.level + 1) = q - 1 := by
  rw [combineLeft_matchh, Bool.or_eq_true, decide_eq_true_iff, ha.matchh, ha.matchlevel_iff hm hc,
    ha.below_iff, and_or_left]

theorem Rises.branch_up (hc : c ≤ leaves.length) :
    (m.combineLeft combine null a).branch =
      if (m.combineLeft combine null a).matchh then path combine null leaves i (a.level + 1)
      else m.branch := by
  have hq := ha.half_pos
  rw [combineLeft_branch, path_succ, ha.branch, combineLeft_matchh]
  by_cases hright : a.matchh = true
  · -- the node is the right one of the two, the entry on its left is its sibling
    have hi := (ha.matchh.mp hright).2
    have hsibling : sibling combine null leaves i a.level =
        node combine null leaves a.level (2 * q - 2) := by
      rw [sibling, hi, if_pos (by omega)]
      rfl
    rw [ha.entry hm, hsibling]
    simp [hright]
  · by_cases hmatch : m.matchlevel = some a.level
    · -- the entry is the left one of the two and has the node as its sibling
      have hi := ((ha.matchlevel_iff hm hc).mp hmatch).2
      have hwidth : 2 * q ≤ (level combine leaves a.level).length :=
        le_length_level (ha.ends ▸ ha.inside)
      have hsibling : sibling combine null leaves i a.level = a.h := by
        rw [sibling, hi, if_neg (by omega), if_pos (by omega), ha.h]
        congr 1
        omega
      simp [hright, hmatch, hsibling, hm.branch_eq ha.bit hmatch]
    · simp [hright, hmatch]

/-- One level up: the node is a right one, and its left sibling is the entry of the level. -/
theorem Rises.combineLeft (hc : c ≤ leaves.length) :
    Rises combine null leaves i m c N (m.combineLeft combine null a) q := by
  have hpow : 2 * q * 2 ^ a.level = q * 2 ^ (a.level + 1) := by
    rw [Nat.pow_succ]
    ring
  have hnear := ha.near
  have hinside := ha.inside
  refine ⟨?_, ha.above, ?_, ?_, ?_, ?_, ?_⟩
  · rw [combineLeft_level, ← hpow]
    exact ha.ends
  · rw [combineLeft_level, Nat.pow_succ]
    omega
  · rw [combineLeft_level, Nat.pow_succ]
    omega
  · rw [combineLeft_h, combineLeft_level, ha.node_up, ha.entry hm]
  · rw [combineLeft_level]
    exact ha.matchh_up hm hc
  · rw [combineLeft_level]
    exact ha.branch_up hm hc

end Up

/-! ## Climbing -/

section Climb
variable (combine null) (m : Merkle α)

theorem climb_mutated (fuel : Nat) (a : Ascent α) (mutated : Bool) :
    m.climb combine null fuel { a with mutated } =
      { m.climb combine null fuel a with mutated } := by
  induction fuel generalizing a with
  | zero => rfl
  | succ fuel ih =>
    rw [climb, climb]
    by_cases hbit : m.count.getLsbD a.level = true
    · rw [if_pos hbit, if_pos hbit]
    · rw [if_neg hbit, if_neg hbit, combineLeft_mutated, ih]

/-- A leaf climbs as the sweep does, and takes note of equal halves. -/
theorem climbLeaf_eq [DecidableEq α] (fuel : Nat) (a : Ascent α) :
    ∃ mutated, m.climbLeaf combine null fuel a = { m.climb combine null fuel a with mutated } := by
  induction fuel generalizing a with
  | zero => exact ⟨a.mutated, rfl⟩
  | succ fuel ih =>
    rw [climbLeaf, climb]
    by_cases hbit : m.count.getLsbD a.level = true
    · rw [if_pos hbit, if_pos hbit]
      exact ⟨a.mutated, rfl⟩
    · rw [if_neg hbit, if_neg hbit, combineLeft_mutated]
      obtain ⟨mutated, hclimb⟩ := ih { m.combineLeft combine null a with
        mutated := a.mutated || decide (m.inner.getD a.level null = a.h) }
      refine ⟨mutated, ?_⟩
      rw [hclimb, climb_mutated]

end Climb

theorem getLsbD_count {k : Nat} (hN : N = q * 2 ^ k) (hpos : 0 < N) (hle : N ≤ 2 ^ 31) :
    k < 32 ∧ ((BitVec.ofNat 32 N).getLsbD k = true ↔ q % 2 = 1) := by
  have hq := blocks_pos hN hpos
  have hk : k < 32 := by
    by_contra hge
    have hpow : 2 ^ 32 ≤ 2 ^ k := Nat.pow_le_pow_right (by decide) (Nat.not_lt.mp hge)
    have hmul := Nat.le_mul_of_pos_left (2 ^ k) hq
    omega
  refine ⟨hk, ?_⟩
  rw [BitVec.getLsbD_ofNat, Nat.testBit_eq_decide_div_mod_eq, hN,
    Nat.mul_div_cancel _ (Nat.two_pow_pos k)]
  simp [hk]

/-- The climb ends at the first level whose bit is set, with the node that ends at leaf `N`. -/
theorem Rises.climb (hm : Holds combine null leaves i m c) (hc : c ≤ leaves.length)
    (hcount : m.count = BitVec.ofNat 32 N) (hle : N ≤ 2 ^ 31) {fuel : Nat}
    (hfuel : 32 ≤ fuel + a.level) (ha : Rises combine null leaves i m c N a q) :
    ∃ q', Rises combine null leaves i m c N (m.climb combine null fuel a) q' ∧ q' % 2 = 1 ∧
      a.level ≤ (m.climb combine null fuel a).level ∧
      ∀ k, a.level ≤ k → k < (m.climb combine null fuel a).level → 2 ^ k < leaves.length := by
  have hpos : 0 < N := Nat.lt_of_le_of_lt (Nat.zero_le c) ha.above
  induction fuel generalizing a q with
  | zero =>
    have hlevel := (getLsbD_count ha.ends hpos hle).1
    omega
  | succ fuel ih =>
    have hbit := (getLsbD_count ha.ends hpos hle).2
    rw [← hcount] at hbit
    rw [Merkle.climb]
    by_cases hodd : q % 2 = 1
    · rw [if_pos (hbit.mpr hodd)]
      exact ⟨q, ha, hodd, le_refl _, fun k hk hlt => by omega⟩
    · rw [if_neg fun h => hodd (hbit.mp h)]
      obtain ⟨p, rfl⟩ : ∃ p, q = 2 * p := ⟨q / 2, by omega⟩
      have hup := ha.combineLeft hm hc
      have hlevel := combineLeft_level combine null m a
      obtain ⟨q', hrises, hodd', hge, hwide⟩ := ih (by omega) hup
      refine ⟨q', hrises, hodd', by omega, fun k hk hlt => ?_⟩
      rcases Nat.eq_or_lt_of_le hk with rfl | hk
      · -- there are at least two nodes on this level
        have hp := ha.half_pos
        have htwo := Nat.mul_le_mul_right (2 ^ a.level) (show 2 ≤ 2 * p by omega)
        have hends := ha.ends
        have hinside := ha.inside
        omega
      · exact hwide k (by omega) hlt

/-! ## The leaves -/

section Bits
variable {k l : Nat} (hends : c + 1 = q * 2 ^ l) (hodd : q % 2 = 1)
include hends

theorem succ_div_of_ge (h : l ≤ k) : (c + 1) / 2 ^ k = q / 2 ^ (k - l) := by
  rw [div_two_pow_of_le (c + 1) h, hends, Nat.mul_div_cancel _ (Nat.two_pow_pos l)]

theorem succ_div_even_of_lt (h : k < l) : (c + 1) / 2 ^ k % 2 = 0 := by
  obtain ⟨d, rfl⟩ : ∃ d, l = k + d + 1 := ⟨l - k - 1, by omega⟩
  have hmul : q * 2 ^ (k + d + 1) = 2 * (q * 2 ^ d) * 2 ^ k := by
    rw [Nat.pow_succ, Nat.pow_add]
    ring
  rw [hends, hmul, Nat.mul_div_cancel _ (Nat.two_pow_pos k), Nat.mul_mod_right]

include hodd

/-- The bits above the lowest one that is set are those of the number before. -/
theorem succ_div_of_gt (h : l < k) : (c + 1) / 2 ^ k = c / 2 ^ k := by
  have hpred := div_eq_pred hends (Nat.lt_succ_self c) (by have := Nat.two_pow_pos l; omega)
  rw [succ_div_of_ge hends h.le, div_two_pow_of_le c h.le, hpred,
    pred_div_two_pow hodd (Nat.sub_pos_of_lt h)]

end Bits

section Store
variable (ha : Rises combine null leaves i m c (c + 1) a q)
include ha

theorem Rises.succ_div_level : (c + 1) / 2 ^ a.level = q := by
  rw [succ_div_of_ge ha.ends (le_refl _), Nat.sub_self, Nat.pow_zero, Nat.div_one]

theorem Rises.matchh_eq_false (hi : c + 1 ≤ i) : a.matchh = false := by
  rw [Bool.eq_false_iff]
  intro h
  have hpos := blocks_pos ha.ends (Nat.succ_pos c)
  have hblock := (ha.matchh.mp h).2
  have hmono := Nat.div_le_div_right (c := 2 ^ a.level) hi
  rw [ha.succ_div_level] at hmono
  omega

/-- A leaf that is not below the node which is stored lies in a block of a higher level. -/
theorem Rises.level_lt (hm : Holds combine null leaves i m c) (hodd : q % 2 = 1)
    (hne : i / 2 ^ a.level ≠ q - 1) (hi : i < c + 1) :
    ∃ k, a.level < k ∧ m.matchlevel = some k ∧ c / 2 ^ k % 2 = 1 ∧ i / 2 ^ k = c / 2 ^ k - 1 ∧
      m.branch = path combine null leaves i k := by
  have hpred := div_eq_pred ha.ends ha.above ha.near
  have hlt : i < c := by
    rcases Nat.eq_or_lt_of_le (Nat.lt_succ_iff.mp hi) with rfl | hlt
    · exact absurd hpred hne
    · exact hlt
  obtain ⟨k, hk, hkodd, hik, hbranch⟩ := hm.matched hlt
  refine ⟨k, ?_, hk, hkodd, hik, hbranch⟩
  by_contra hle
  rcases Nat.eq_or_lt_of_le (Nat.not_lt.mp hle) with rfl | hlt
  · rw [hpred] at hkodd
    omega
  · exact hne ((div_eq_of_block hkodd hik hlt).trans hpred)

end Store

theorem Holds.store (hm : Holds combine null leaves i m c) (hc : c < leaves.length)
    (ha : Rises combine null leaves i m c (c + 1) a q) (hodd : q % 2 = 1) (hlevel : a.level < 32) :
    Holds combine null leaves i
      { m with
        inner := m.inner.set a.level a.h
        matchlevel := if a.matchh then some a.level else m.matchlevel
        mutated := a.mutated
        branch := a.branch } (c + 1) := by
  have hdiv := ha.succ_div_level
  refine ⟨by simp [hm.length], fun k hk => ?_, fun hi => ?_, fun hi => ?_⟩
  · dsimp only
    rcases Nat.lt_trichotomy k a.level with hlt | rfl | hgt
    · rw [succ_div_even_of_lt ha.ends hlt] at hk
      omega
    · rw [hdiv, ← ha.h, List.getD_eq_getElem?_getD,
        List.getElem?_set_self (by rw [hm.length]; exact hlevel), Option.getD_some]
    · rw [succ_div_of_gt ha.ends hodd hgt] at hk ⊢
      rw [← hm.inner k hk, List.getD_eq_getElem?_getD, List.getD_eq_getElem?_getD,
        List.getElem?_set_ne (by omega)]
  · have hbranch := ha.branch
    simp only [ha.matchh_eq_false hi, Bool.false_eq_true, if_false] at hbranch ⊢
    rw [hbranch]
    exact hm.unmatched (by omega)
  · dsimp only
    by_cases hmatchh : a.matchh = true
    · refine ⟨a.level, if_pos hmatchh, by rw [hdiv]; exact hodd, ?_, ?_⟩
      · rw [hdiv]
        exact (ha.matchh.mp hmatchh).2
      · rw [ha.branch, if_pos hmatchh]
    · have hne : i / 2 ^ a.level ≠ q - 1 := fun h => hmatchh (ha.matchh.mpr ⟨by omega, h⟩)
      obtain ⟨k, hgt, hk, hkodd, hik, hbranch⟩ := ha.level_lt hm hodd hne hi
      refine ⟨k, by rw [if_neg hmatchh]; exact hk, ?_, ?_, ?_⟩
      · rw [succ_div_of_gt ha.ends hodd hgt]
        exact hkodd
      · rw [succ_div_of_gt ha.ends hodd hgt]
        exact hik
      · rw [ha.branch, if_neg hmatchh]
        exact hbranch

section Leaves
variable [DecidableEq α] {branchpos : BitVec 32} {leaf : α}

theorem Holds.addLeaf (hm : Holds combine null leaves branchpos.toNat m c)
    (hcount : m.count = BitVec.ofNat 32 c) (hleaf : leaves[c]? = some leaf)
    (hlimit : leaves.length ≤ 2 ^ 31) :
    Holds combine null leaves branchpos.toNat (m.addLeaf combine null branchpos leaf) (c + 1) ∧
      (m.addLeaf combine null branchpos leaf).count = BitVec.ofNat 32 (c + 1) := by
  have hc : c < leaves.length := (List.getElem?_eq_some_iff.mp hleaf).1
  have hcount' : m.count + 1 = BitVec.ofNat 32 (c + 1) := by
    rw [hcount, BitVec.ofNat_add]
    rfl
  refine ⟨?_, hcount'⟩
  rw [Merkle.addLeaf]
  dsimp only
  have hm' : Holds combine null leaves branchpos.toNat { m with count := m.count + 1 } c :=
    ⟨hm.length, hm.inner, hm.unmatched, hm.matched⟩
  have hmatch : decide (m.count = branchpos) = true ↔
      branchpos.toNat < leaves.length ∧ branchpos.toNat / 2 ^ 0 = c + 1 - 1 := by
    rw [decide_eq_true_iff, hcount, ← BitVec.toNat_inj, BitVec.toNat_ofNat,
      Nat.mod_eq_of_lt (by omega), Nat.pow_zero, Nat.div_one]
    omega
  have hstart : Rises combine null leaves branchpos.toNat { m with count := m.count + 1 } c (c + 1)
      ⟨0, leaf, decide (m.count = branchpos), m.mutated, m.branch⟩ (c + 1) := by
    refine ⟨by simp, by simp, by simp, by simpa using hc, ?_, hmatch, ?_⟩
    · simp [node, level, hleaf]
    · split
      next h =>
        have hunmatched : c ≤ branchpos.toNat := by
          have := (hmatch.mp h).2
          rw [Nat.pow_zero, Nat.div_one] at this
          omega
        rw [(hm.unmatched hunmatched).2]
        rfl
      next => rfl
  obtain ⟨q, hrises, hodd, -, -⟩ := hstart.climb hm' hc.le hcount' (by omega)
    (show 32 ≤ 32 + 0 from le_refl _)
  obtain ⟨mutated, hclimb⟩ := climbLeaf_eq combine null { m with count := m.count + 1 } 32
    ⟨0, leaf, decide (m.count = branchpos), m.mutated, m.branch⟩
  rw [hclimb]
  have hlevel := (getLsbD_count hrises.ends (Nat.succ_pos c) (by omega)).1
  exact hm'.store hc (hrises.of_mutated mutated) hodd hlevel

theorem holds_foldl (hlimit : leaves.length ≤ 2 ^ 31) {seen rest : List α}
    (hsplit : leaves = seen ++ rest)
    (hm : Holds combine null leaves branchpos.toNat m seen.length)
    (hcount : m.count = BitVec.ofNat 32 seen.length) :
    Holds combine null leaves branchpos.toNat (rest.foldl (addLeaf combine null branchpos) m)
        leaves.length ∧
      (rest.foldl (addLeaf combine null branchpos) m).count = BitVec.ofNat 32 leaves.length := by
  induction rest generalizing seen m with
  | nil =>
    rw [List.append_nil] at hsplit
    subst hsplit
    exact ⟨hm, hcount⟩
  | cons leaf rest ih =>
    have hleaf : leaves[seen.length]? = some leaf := by simp [hsplit]
    obtain ⟨hm', hcount'⟩ := hm.addLeaf hcount hleaf hlimit
    have hlength : (seen ++ [leaf]).length = seen.length + 1 := by simp
    have hsplit' : leaves = (seen ++ [leaf]) ++ rest := by simp [hsplit]
    rw [← hlength] at hm' hcount'
    rw [List.foldl_cons]
    exact ih hsplit' hm' hcount'

end Leaves

/-! ## The sweep -/

theorem lowest_spec (hcount : m.count = BitVec.ofNat 32 N) (hpos : 0 < N) (hle : N ≤ 2 ^ 31)
    {fuel k : Nat} (hN : N = q * 2 ^ k) (hfuel : 32 ≤ fuel + k) :
    ∃ q', N = q' * 2 ^ m.lowest fuel k ∧ q' % 2 = 1 := by
  induction fuel generalizing k q with
  | zero =>
    have hk := (getLsbD_count hN hpos hle).1
    omega
  | succ fuel ih =>
    have hbit := (getLsbD_count hN hpos hle).2
    rw [← hcount] at hbit
    rw [lowest]
    by_cases hodd : q % 2 = 1
    · rw [if_pos (hbit.mpr hodd)]
      exact ⟨q, hN, hodd⟩
    · rw [if_neg fun h => hodd (hbit.mp h)]
      obtain ⟨p, rfl⟩ : ∃ p, q = 2 * p := ⟨q / 2, by omega⟩
      have hN' : N = p * 2 ^ (k + 1) := by
        rw [hN, Nat.pow_succ]
        ring
      exact ih hN' (by omega)

/-- The sweep has reached node `q - 1`, the last one of its level, which is not yet known to be the
only one. -/
structure Sweeps (combine : α → α → α) (null : α) (leaves : List α) (i : Nat) (m : Merkle α)
    (a : Ascent α) (q : Nat) : Prop where
  holds : Holds combine null leaves i m leaves.length
  count : m.count = BitVec.ofNat 32 (q * 2 ^ a.level)
  odd : q % 2 = 1
  covers : leaves.length ≤ q * 2 ^ a.level
  inside : q * 2 ^ a.level < leaves.length + 2 ^ a.level
  limit : q * 2 ^ a.level ≤ 2 ^ 31
  wide : ∀ k < a.level, 2 ^ k < leaves.length
  h : a.h = node combine null leaves a.level (q - 1)
  matchh : a.matchh = true ↔ i < leaves.length ∧ i / 2 ^ a.level = q - 1
  branch : a.branch = if a.matchh then path combine null leaves i a.level else m.branch

theorem Sweeps.length_level (hs : Sweeps combine null leaves i m a q) :
    (level combine leaves a.level).length = q :=
  length_level_eq hs.covers hs.inside

theorem Sweeps.level_lt (hs : Sweeps combine null leaves i m a q) : a.level < 32 := by
  have hodd := hs.odd
  have hpos : 0 < q * 2 ^ a.level := Nat.mul_pos (by omega) (Nat.two_pow_pos _)
  exact (getLsbD_count rfl hpos hs.limit).1

theorem one_shiftLeft (k : Nat) : 1#32 <<< k = BitVec.ofNat 32 (2 ^ k) := by
  apply BitVec.eq_of_toNat_eq
  simp [Nat.shiftLeft_eq]

/-- The test that ends the sweep: the count has only the bit of the level. -/
theorem Sweeps.top_iff (hs : Sweeps combine null leaves i m a q) :
    m.count = 1#32 <<< a.level ↔ q = 1 := by
  have hpow : 2 ^ a.level < 2 ^ 32 := Nat.pow_lt_pow_right (by decide) hs.level_lt
  have hlimit := hs.limit
  rw [hs.count, one_shiftLeft, ← BitVec.toNat_inj, BitVec.toNat_ofNat, BitVec.toNat_ofNat,
    Nat.mod_eq_of_lt (a := q * 2 ^ a.level) (by omega), Nat.mod_eq_of_lt hpow]
  exact Nat.mul_eq_right (Nat.two_pow_pos _).ne'

/-- An odd number of blocks does not fill the range, so there is room for one more. -/
theorem blocks_room {p k : Nat} (hp : p ≠ 0) (hk : k < 32) (h : (2 * p + 1) * 2 ^ k ≤ 2 ^ 31) :
    (p + 1) * 2 ^ (k + 1) ≤ 2 ^ 31 := by
  have hsplit : 2 ^ 31 = 2 ^ (31 - k) * 2 ^ k := by
    rw [← Nat.pow_add, Nat.sub_add_cancel (by omega)]
  rw [hsplit] at h
  have hblocks := Nat.le_of_mul_le_mul_right h (Nat.two_pow_pos _)
  have hd : 31 - k ≠ 0 := by
    intro hd
    rw [hd, Nat.pow_zero] at hblocks
    omega
  obtain ⟨d, hd⟩ := Nat.exists_eq_succ_of_ne_zero hd
  rw [hd, Nat.pow_succ] at hblocks
  calc (p + 1) * 2 ^ (k + 1) = (2 * p + 2) * 2 ^ k := by
        rw [Nat.pow_succ]
        ring
    _ ≤ (2 ^ d * 2) * 2 ^ k := Nat.mul_le_mul_right _ (by omega)
    _ = 2 ^ 31 := by rw [hsplit, hd, Nat.pow_succ]

/-- One round of the sweep: a node without a partner is combined with itself, and climbs. -/
def sweepRound (combine : α → α → α) (null : α) (m : Merkle α) (a : Ascent α) :
    Merkle α × Ascent α :=
  let m := { m with count := m.count + 1#32 <<< a.level }
  (m, m.climb combine null 32
    { a with
      h := combine a.h a.h
      level := a.level + 1
      branch := if a.matchh then a.branch ++ [a.h] else a.branch })

/-- What is combined with itself is the last node of the level above. -/
theorem Sweeps.rises (hs : Sweeps combine null leaves i m a (2 * q + 1)) :
    Rises combine null leaves i (sweepRound combine null m a).1 leaves.length
      ((q + 1) * 2 ^ (a.level + 1))
      { a with
        h := combine a.h a.h
        level := a.level + 1
        branch := if a.matchh then a.branch ++ [a.h] else a.branch } (q + 1) := by
  have hcovers := hs.covers
  have hinside := hs.inside
  have hlength := hs.length_level
  have hpow : (q + 1) * 2 ^ (a.level + 1) = (2 * q + 1) * 2 ^ a.level + 2 ^ a.level := by
    rw [Nat.pow_succ]
    ring
  refine ⟨rfl, ?_, ?_, ?_, ?_, ?_, ?_⟩
  · have hpos := Nat.two_pow_pos a.level
    omega
  · dsimp only
    rw [hpow, Nat.pow_succ]
    omega
  · dsimp only
    rw [hpow, Nat.pow_succ]
    omega
  · dsimp only
    rw [Nat.add_sub_cancel, node_succ_last hlength.symm, hs.h, Nat.add_sub_cancel]
  · dsimp only
    rw [hs.matchh, Nat.add_sub_cancel, Nat.add_sub_cancel]
    refine and_congr_right fun hi => ?_
    have hlt : i / 2 ^ a.level < 2 * q + 1 :=
      (Nat.div_lt_iff_lt_mul (Nat.two_pow_pos _)).mpr (by omega)
    rw [Nat.pow_succ, ← Nat.div_div_eq_div_mul]
    omega
  · dsimp only [sweepRound]
    rw [hs.branch]
    by_cases hmatchh : a.matchh = true
    · have hi := (hs.matchh.mp hmatchh).2
      have hsibling : sibling combine null leaves i a.level = a.h := by
        rw [sibling, hi, if_neg (by omega), if_neg (by omega), hs.h]
      rw [if_pos hmatchh, if_pos hmatchh, if_pos hmatchh, path_succ, hsibling]
    · rw [if_neg hmatchh, if_neg hmatchh, if_neg hmatchh]

/-- A round ends at the last node of a higher level. -/
theorem Sweeps.round (hs : Sweeps combine null leaves i m a q) (hne : q ≠ 1) :
    a.level < (sweepRound combine null m a).2.level ∧
      ∃ q', Sweeps combine null leaves i (sweepRound combine null m a).1
        (sweepRound combine null m a).2 q' := by
  have hodd := hs.odd
  obtain ⟨p, rfl⟩ : ∃ p, q = 2 * p + 1 := ⟨q / 2, by omega⟩
  have hlimit := blocks_room (by omega) hs.level_lt hs.limit
  have hwide : 2 ^ a.level < leaves.length := by
    have htwo := Nat.mul_le_mul_right (2 ^ a.level) (show 2 ≤ 2 * p + 1 by omega)
    have hinside := hs.inside
    omega
  have hcount : (sweepRound combine null m a).1.count =
      BitVec.ofNat 32 ((p + 1) * 2 ^ (a.level + 1)) := by
    dsimp only [sweepRound]
    rw [hs.count, one_shiftLeft, ← BitVec.ofNat_add]
    apply congrArg (BitVec.ofNat 32)
    rw [Nat.pow_succ]
    ring
  have hm : Holds combine null leaves i (sweepRound combine null m a).1 leaves.length :=
    ⟨hs.holds.length, hs.holds.inner, hs.holds.unmatched, hs.holds.matched⟩
  obtain ⟨q', hrises, hodd', hge, hclimb⟩ := hs.rises.climb hm (le_refl _) hcount hlimit
    (show 32 ≤ 32 + (a.level + 1) by omega)
  refine ⟨hge, q', hm, ?_, hodd', ?_, ?_, ?_, ?_, hrises.h, hrises.matchh, hrises.branch⟩
  · exact hrises.ends ▸ hcount
  · exact hrises.ends ▸ hrises.above.le
  · exact hrises.ends ▸ hrises.inside
  · exact hrises.ends ▸ hlimit
  · intro k hk
    rcases Nat.lt_trichotomy k a.level with hlt | rfl | hgt
    · exact hs.wide k hlt
    · exact hwide
    · exact hclimb k hgt hk

/-- The sweep ends at the only node of its level. -/
theorem Sweeps.sweep {fuel : Nat} (hs : Sweeps combine null leaves i m a q)
    (hfuel : 32 ≤ fuel + a.level) :
    ∃ m', Sweeps combine null leaves i m' (sweep combine null fuel m a) 1 := by
  induction fuel generalizing m a q with
  | zero =>
    have hlevel := hs.level_lt
    omega
  | succ fuel ih =>
    rw [Merkle.sweep]
    by_cases hone : q = 1
    · subst hone
      rw [if_pos (hs.top_iff.mpr rfl)]
      exact ⟨m, hs⟩
    · rw [if_neg fun h => hone (hs.top_iff.mp h)]
      obtain ⟨hup, q', hs'⟩ := hs.round hone
      have hfuel' : 32 ≤ fuel + (sweepRound combine null m a).2.level := by omega
      exact ih hs' hfuel'

/-! ## Roots and branches -/

theorem holds_nil (hlength : m.inner.length = 32) (hlevel : m.matchlevel = none)
    (hbranch : m.branch = []) : Holds combine null leaves i m 0 := by
  refine ⟨hlength, fun k hk => ?_, fun _ => ⟨hlevel, hbranch⟩, fun hi => ?_⟩
  · simp at hk
  · omega

theorem Holds.sweeps (hm : Holds combine null leaves i m leaves.length)
    (hcount : m.count = BitVec.ofNat 32 leaves.length) (hlimit : leaves.length ≤ 2 ^ 31) {l : Nat}
    (hq : leaves.length = q * 2 ^ l) (hodd : q % 2 = 1) :
    Sweeps combine null leaves i m
      ⟨l, m.inner.getD l null, decide (m.matchlevel = some l), m.mutated, m.branch⟩ q := by
  have hdiv : leaves.length / 2 ^ l = q := by
    rw [hq, Nat.mul_div_cancel _ (Nat.two_pow_pos l)]
  have hbit : leaves.length / 2 ^ l % 2 = 1 := by rw [hdiv]; exact hodd
  refine ⟨hm, hq ▸ hcount, hodd, hq.le, ?_, hq ▸ hlimit, ?_, ?_, ?_, ?_⟩
  · have := Nat.two_pow_pos l
    dsimp only
    omega
  · intro k hk
    have hpow : 2 ^ k < 2 ^ l := Nat.pow_lt_pow_right (by decide) hk
    have hmul := Nat.le_mul_of_pos_left (2 ^ l) (show 0 < q by omega)
    omega
  · dsimp only
    rw [hm.inner l hbit, hdiv]
  · dsimp only
    rw [decide_eq_true_iff, hm.matchlevel_iff hbit, hdiv]
  · dsimp only
    by_cases hlevel : m.matchlevel = some l
    · simp [hlevel, hm.branch_eq hbit hlevel]
    · simp [hlevel]

/-- What `MerkleComputation` has reached for a list that is not empty. -/
theorem sweeps_computation [DecidableEq α] {branchpos : BitVec 32} (hne : leaves ≠ [])
    (hlimit : leaves.length ≤ 2 ^ 31) :
    ∃ m a, Sweeps combine null leaves branchpos.toNat m a 1 ∧
      (computation combine null leaves branchpos).1 = a.h ∧
      (computation combine null leaves branchpos).2.2 = a.branch := by
  rw [computation, if_neg hne]
  dsimp only
  have hinit : Holds combine null leaves branchpos.toNat
      ⟨0, List.replicate 32 null, none, false, []⟩ ([] : List α).length :=
    holds_nil (by simp) rfl rfl
  obtain ⟨hm, hcount⟩ := holds_foldl hlimit (List.nil_append leaves).symm hinit rfl
  generalize leaves.foldl (addLeaf combine null branchpos)
    ⟨0, List.replicate 32 null, none, false, []⟩ = m at hm hcount ⊢
  have hpos : 0 < leaves.length := List.length_pos_iff.mpr hne
  obtain ⟨q, hq, hodd⟩ : ∃ q, leaves.length = q * 2 ^ m.lowest 32 0 ∧ q % 2 = 1 :=
    lowest_spec hcount hpos hlimit (by rw [Nat.pow_zero, Nat.mul_one]) (by omega)
  obtain ⟨m', hs⟩ := (hm.sweeps hcount hlimit hq hodd).sweep
    (show 32 ≤ 32 + m.lowest 32 0 by omega)
  exact ⟨m', _, hs, rfl, rfl⟩

/-- The level of the only node is the logarithm of the number of leaves, rounded up. -/
theorem Sweeps.level_eq (hs : Sweeps combine null leaves i m a 1) :
    a.level = Nat.clog 2 leaves.length := by
  have hcovers := hs.covers
  rw [Nat.one_mul] at hcovers
  apply Nat.le_antisymm
  · by_contra hlt
    have hwide := hs.wide _ (Nat.not_le.mp hlt)
    have hclog := Nat.le_pow_clog (by decide : 1 < 2) leaves.length
    omega
  · exact Nat.clog_le_of_le_pow hcovers

theorem Sweeps.root_eq (hs : Sweeps combine null leaves i m a 1) :
    a.h = root combine null leaves := by
  rw [hs.h, root_eq_node (fun k hk => one_lt_length_level (hs.wide k hk)) hs.length_level]

theorem computation_root [DecidableEq α] (combine : α → α → α) (null : α) {leaves : List α}
    (hlimit : leaves.length ≤ 2 ^ 31) (branchpos : BitVec 32) :
    (computation combine null leaves branchpos).1 = root combine null leaves := by
  by_cases hne : leaves = []
  · subst hne
    rw [computation, root]
    rfl
  · obtain ⟨m, a, hs, hroot, -⟩ := @sweeps_computation α combine null leaves _ branchpos hne hlimit
    rw [hroot, hs.root_eq]

theorem computation_branch [DecidableEq α] (combine : α → α → α) (null : α) {leaves : List α}
    (hlimit : leaves.length ≤ 2 ^ 31) {branchpos : BitVec 32}
    (hpos : branchpos.toNat < leaves.length) :
    (computation combine null leaves branchpos).2.2 =
      path combine null leaves branchpos.toNat (Nat.clog 2 leaves.length) := by
  have hne : leaves ≠ [] := by
    rintro rfl
    exact absurd hpos (by simp)
  obtain ⟨m, a, hs, -, hbranch⟩ := @sweeps_computation α combine null leaves _ branchpos hne hlimit
  have hcovers := hs.covers
  rw [Nat.one_mul] at hcovers
  have hmatchh : a.matchh = true := by
    rw [hs.matchh]
    exact ⟨hpos, Nat.div_eq_of_lt (by omega)⟩
  rw [hbranch, hs.branch, if_pos hmatchh, hs.level_eq]

/-- The siblings from level `k` on lead from the node of that level to the one above them. -/
theorem rootFromBranch_siblings (hi : i < leaves.length) (hlimit : leaves.length ≤ 2 ^ 31)
    (k d : Nat) :
    rootFromBranch combine ((List.range' k d).map (sibling combine null leaves i))
        (BitVec.ofNat 32 (i / 2 ^ k)) (node combine null leaves k (i / 2 ^ k)) =
      node combine null leaves (k + d) (i / 2 ^ (k + d)) := by
  induction d generalizing k with
  | zero => rfl
  | succ d ih =>
    have hlt : i / 2 ^ k < 2 ^ 32 := Nat.lt_of_le_of_lt (Nat.div_le_self _ _) (by omega)
    have hbit : BitVec.ofNat 32 (i / 2 ^ k) &&& 1 ≠ 0 ↔ i / 2 ^ k % 2 = 1 := by
      rw [ne_eq, ← BitVec.toNat_inj, BitVec.toNat_and, BitVec.toNat_ofNat, Nat.mod_eq_of_lt hlt]
      simp [Nat.and_one_is_mod]
    have hshift : BitVec.ofNat 32 (i / 2 ^ k) >>> 1 = BitVec.ofNat 32 (i / 2 ^ (k + 1)) := by
      apply BitVec.eq_of_toNat_eq
      have hhalf : i / 2 ^ (k + 1) = i / 2 ^ k / 2 := by rw [Nat.pow_succ, Nat.div_div_eq_div_mul]
      rw [BitVec.toNat_ushiftRight, BitVec.toNat_ofNat, BitVec.toNat_ofNat, Nat.mod_eq_of_lt hlt,
        Nat.shiftRight_eq_div_pow, Nat.pow_one, hhalf, Nat.mod_eq_of_lt (by omega)]
    rw [List.range'_succ, List.map_cons, rootFromBranch, hshift]
    simp only [hbit]
    rw [← node_succ_sibling hi, ih (k + 1), show k + 1 + d = k + (d + 1) by omega]

end Merkle

/-- `ComputeMerkleRoot` is the root of the tree of the leaves, and the null hash where there are
none, whatever the pair hash is. -/
theorem computeMerkleRoot_correct :
    (∀ (α : Type) [DecidableEq α] (combine : α → α → α) (null : α) (leaves : List α),
      leaves.length ≤ 2 ^ 31 →
        (Merkle.computation combine null leaves (-1)).1 = root combine null leaves) ∧
    ∀ leaves : List Uint256, leaves.length ≤ 2 ^ 31 →
      computeMerkleRoot leaves = root hashPair Uint256.null leaves := by
  refine ⟨fun α _ combine null leaves hlimit => ?_, fun leaves hlimit => ?_⟩
  · exact Merkle.computation_root combine null hlimit (-1)
  · exact Merkle.computation_root hashPair Uint256.null hlimit (-1)

/-- Five leaves: the last one is combined with itself twice. -/
theorem computeMerkleRoot_correct_five :
    (Merkle.computation (fun a b => 10 * a + b) 0 [1, 2, 3, 4, 5] (-1)).1 =
      root (fun a b => 10 * a + b) 0 [1, 2, 3, 4, 5] :=
  computeMerkleRoot_correct.1 Nat (fun a b => 10 * a + b) 0 [1, 2, 3, 4, 5] (by decide)

/-- The branch of every leaf leads from the leaf to the root, and has one entry for each level. -/
theorem computeMerkleBranch_verifies (leaves : List Uint256) (hlimit : leaves.length ≤ 2 ^ 31)
    (i : Nat) (hi : i < leaves.length) :
    computeMerkleRootFromBranch leaves[i] (computeMerkleBranch leaves (BitVec.ofNat 32 i))
        (BitVec.ofNat 32 i) = computeMerkleRoot leaves ∧
      (computeMerkleBranch leaves (BitVec.ofNat 32 i)).length = Nat.clog 2 leaves.length := by
  have hpos : (BitVec.ofNat 32 i).toNat = i := by
    rw [BitVec.toNat_ofNat, Nat.mod_eq_of_lt (by omega)]
  have hbranch : computeMerkleBranch leaves (BitVec.ofNat 32 i) =
      path hashPair Uint256.null leaves i (Nat.clog 2 leaves.length) := by
    rw [computeMerkleBranch, Merkle.computation_branch hashPair Uint256.null hlimit (by rwa [hpos]),
      hpos]
  have hleaf : node hashPair Uint256.null leaves 0 (i / 2 ^ 0) = leaves[i] := by
    rw [Nat.pow_zero, Nat.div_one, node, level, List.getD_eq_getElem?_getD,
      List.getElem?_eq_getElem hi, Option.getD_some]
  have hcovers := Nat.le_pow_clog (by decide : 1 < 2) leaves.length
  have hclimb := @Merkle.rootFromBranch_siblings _ hashPair Uint256.null leaves i hi hlimit 0
    (Nat.clog 2 leaves.length)
  rw [hleaf, Nat.pow_zero, Nat.div_one, Nat.zero_add, Nat.div_eq_of_lt (by omega),
    ← root_eq_node_clog (by omega), ← List.range_eq_range'] at hclimb
  refine ⟨?_, by rw [hbranch, length_path]⟩
  rw [computeMerkleRootFromBranch, hbranch, path, hclimb, computeMerkleRoot,
    Merkle.computation_root hashPair Uint256.null hlimit]

/-- The last of three leaves, which has itself for a sibling. -/
theorem computeMerkleBranch_verifies_last :
    computeMerkleRootFromBranch Uint256.null
        (computeMerkleBranch [Uint256.null, Uint256.null, Uint256.null] (BitVec.ofNat 32 2))
        (BitVec.ofNat 32 2) =
      computeMerkleRoot [Uint256.null, Uint256.null, Uint256.null] ∧
    (computeMerkleBranch [Uint256.null, Uint256.null, Uint256.null] (BitVec.ofNat 32 2)).length =
      Nat.clog 2 [Uint256.null, Uint256.null, Uint256.null].length :=
  computeMerkleBranch_verifies [Uint256.null, Uint256.null, Uint256.null] (by decide) 2 (by decide)

end Energiminer.Primitives
