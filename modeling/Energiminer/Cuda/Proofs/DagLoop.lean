import Mathlib.Algebra.BigOperators.Group.List.Basic
import Energiminer.Cuda.DagLoop
import Energiminer.Nrghash.Proofs.FullLight

/-!
# When the launches cover the DAG

The loop works as it should as long as one launch does not reach beyond the nodes. A larger batch makes
the bound `work - batch` wrap around: the first launch covers everything, and the loop goes on until
a multiple of the batch happens to fall behind the wrapped bound. If the counter itself wraps around
before that, nodes are computed again, or the loop never ends.
-/

namespace Energiminer.Cuda
open Misc Nrghash

/-! ## Counting threads -/

theorem count_add_eq (base i n : Nat) :
    Nat.count (fun t => base + t = i) n = if base ≤ i ∧ i < base + n then 1 else 0 := by
  induction n with
  | zero => rw [Nat.count_zero, if_neg (by omega)]
  | succ n ih =>
    rw [Nat.count_succ, ih]
    by_cases h : base + n = i
    · rw [if_neg (by omega), if_pos h, if_pos (by omega)]
    · rw [if_neg h]
      by_cases hin : base ≤ i ∧ i < base + n
      · rw [if_pos hin, if_pos (by omega)]
      · rw [if_neg hin, if_neg (by omega)]

theorem count_congr {p q : Nat → Prop} [DecidablePred p] [DecidablePred q] {n : Nat}
    (h : ∀ t < n, p t ↔ q t) : Nat.count p n = Nat.count q n :=
  le_antisymm (Nat.count_mono_left fun t ht => (h t ht).mp)
    (Nat.count_mono_left fun t ht => (h t ht).mpr)

section
variable {part : DagPart} {i : Nat}

theorem hits_eq (h : part.base.toNat + part.threads ≤ 2 ^ 32) :
    part.hits i =
      if part.base.toNat ≤ i ∧ i < part.base.toNat + part.threads then 1 else 0 := by
  rw [DagPart.hits, ← count_add_eq]
  refine count_congr fun t ht => ?_
  rw [Nat.mod_eq_of_lt (by omega)]

/-- The threads of a launch that are not there for rounding, if there are enough of them. -/
theorem hitsWithin_eq {nodes : Nat} (hnodes : nodes ≤ 2 ^ 32)
    (h : nodes ≤ part.base.toNat + part.threads) (hi : i < nodes) :
    part.hitsWithin nodes i = if part.base.toNat ≤ i then 1 else 0 := by
  have hcount : part.hitsWithin nodes i =
      Nat.count (fun t => part.base.toNat + t = i) part.threads := by
    refine count_congr fun t ht => ?_
    constructor
    · rintro ⟨hlt, heq⟩
      rwa [Nat.mod_eq_of_lt (by omega)] at heq
    · intro heq
      exact ⟨by omega, by rw [Nat.mod_eq_of_lt (by omega)]; exact heq⟩
  rw [hcount, count_add_eq]
  by_cases hb : part.base.toNat ≤ i
  · rw [if_pos hb, if_pos (by omega)]
  · rw [if_neg hb, if_neg (by omega)]

theorem one_le_hits {t : Nat} (ht : t < part.threads) (h : (part.base.toNat + t) % 2 ^ 32 = i) :
    1 ≤ part.hits i :=
  Nat.pos_of_ne_zero (Nat.count_ne_iff_exists.mpr ⟨t, ht, h⟩)

theorem hits_eq_zero (h : 2 ^ 32 ≤ i) : part.hits i = 0 := by
  refine Nat.count_iff_forall_not.mpr fun t _ heq => ?_
  have := Nat.mod_lt (part.base.toNat + t) (show 0 < 2 ^ 32 by decide)
  omega

theorem hitsWithin_le_hits {nodes : Nat} : part.hitsWithin nodes i ≤ part.hits i :=
  Nat.count_mono_left fun _ _ h => h.2

end

/-- Consecutive ranges of `size` nodes cover what is below the last of them once. -/
theorem sum_ranges (size n i : Nat) :
    ((List.range n).map fun k => if k * size ≤ i ∧ i < k * size + size then 1 else 0).sum =
      if i < n * size then 1 else 0 := by
  induction n with
  | zero => simp
  | succ n ih =>
    rw [List.range_succ, List.map_append, List.sum_append, ih, List.map_singleton,
      List.sum_singleton, Nat.succ_mul]
    by_cases h : i < n * size
    · rw [if_pos h, if_neg (by omega), if_pos (by omega)]
    · rw [if_neg h, Nat.zero_add]
      by_cases h' : i < n * size + size
      · rw [if_pos (by omega), if_pos h']
      · rw [if_neg (by omega), if_neg h']

/-! ## The loop in numbers -/

namespace LaunchOptions
variable (options : LaunchOptions)

/-- `s_gridSize * s_blockSize`, the threads of a full launch, without the limit of 32 bits. -/
def batch : Nat := options.gridSize.toNat * options.blockSize.toNat

/-- The condition under which the loop covers the nodes: they and a batch can be counted in 32 bits,
and a batch that is larger than all nodes has no multiple from `2 ^ 32` up to `2 ^ 32 + nodes`, where
the counter would wrap around and still be within the bound. -/
def Fits (nodes : Nat) : Prop :=
  nodes < 2 ^ 32 ∧ options.batch < 2 ^ 32 ∧
    (options.batch ≤ nodes ∨
      2 ^ 32 + nodes < (2 ^ 32 + options.batch - 1) / options.batch * options.batch)

theorem toNat_gridSize : options.gridSize.toNat = options.cudaGridSize := by
  have := options.grid_range
  rw [gridSize, BitVec.toNat_ofNat, Nat.mod_eq_of_lt (by omega)]

theorem toNat_blockSize : options.blockSize.toNat = (options.cudaBlockSize + 7) / 8 * 8 := by
  have := options.block_range
  have hadd : (BitVec.ofNat 32 options.cudaBlockSize + 7).toNat = options.cudaBlockSize + 7 := by
    rw [BitVec.toNat_add, BitVec.toNat_ofNat, show (7 : BitVec 32).toNat = 7 from rfl]
    omega
  rw [blockSize, BitVec.toNat_mul, BitVec.toNat_udiv, hadd, show (8 : BitVec 32).toNat = 8 from rfl]
  omega

theorem eight_le_blockSize : 8 ≤ options.blockSize.toNat := by
  have := options.block_range
  rw [toNat_blockSize]
  omega

theorem blockSize_le_batch : options.blockSize.toNat ≤ options.batch := by
  have := options.grid_range
  rw [batch, toNat_gridSize]
  exact Nat.le_mul_of_pos_left _ (by omega)

theorem batch_pos : 0 < options.batch :=
  lt_of_lt_of_le (by decide : 0 < 8) (le_trans options.eight_le_blockSize options.blockSize_le_batch)

end LaunchOptions

/-- The number of the first multiple of a batch that is not below `2 ^ 32`. -/
theorem exists_wrap {batch : Nat} (hpos : 0 < batch) :
    ∃ n, (2 ^ 32 + batch - 1) / batch = n + 1 ∧ n * batch < 2 ^ 32 ∧ 2 ^ 32 ≤ (n + 1) * batch := by
  obtain ⟨n, hn⟩ : ∃ n, (2 ^ 32 + batch - 1) / batch = n + 1 :=
    Nat.exists_eq_succ_of_ne_zero (Nat.div_pos (by omega) hpos).ne'
  have hle := Nat.div_mul_le_self (2 ^ 32 + batch - 1) batch
  have hlt := Nat.lt_mul_div_succ (2 ^ 32 + batch - 1) hpos
  rw [hn, Nat.succ_mul] at hle
  rw [hn, Nat.mul_comm, Nat.succ_mul] at hlt
  exact ⟨n, hn, by omega, by omega⟩

section
variable {options : LaunchOptions} {nodes : Nat}

/-- The counter after `k` iterations. -/
def baseAt (options : LaunchOptions) (k : Nat) : BitVec 32 := BitVec.ofNat 32 (k * options.batch)

theorem toNat_baseAt {k : Nat} (h : k * options.batch < 2 ^ 32) :
    (baseAt options k).toNat = k * options.batch := by
  rw [baseAt, BitVec.toNat_ofNat, Nat.mod_eq_of_lt h]

theorem baseAt_succ (k : Nat) :
    baseAt options k + options.gridSize * options.blockSize = baseAt options (k + 1) := by
  apply BitVec.eq_of_toNat_eq
  rw [BitVec.toNat_add, BitVec.toNat_mul, baseAt, baseAt, BitVec.toNat_ofNat, BitVec.toNat_ofNat,
    ← Nat.add_mod, Nat.succ_mul, LaunchOptions.batch]

/-- The bound of the loop, which wraps around if a batch exceeds the nodes. -/
theorem toNat_bound (hnodes : nodes < 2 ^ 32) (hbatch : options.batch < 2 ^ 32) :
    (BitVec.ofNat 32 nodes - options.gridSize * options.blockSize).toNat =
      if options.batch ≤ nodes then nodes - options.batch else 2 ^ 32 + nodes - options.batch := by
  have hmul : (options.gridSize * options.blockSize).toNat = options.batch := by
    rw [BitVec.toNat_mul, ← LaunchOptions.batch, Nat.mod_eq_of_lt hbatch]
  rw [BitVec.toNat_sub, hmul, BitVec.toNat_ofNat, Nat.mod_eq_of_lt hnodes]
  split <;> omega

theorem le_bound_iff (hnodes : nodes < 2 ^ 32) (hbatch : options.batch < 2 ^ 32) {k : Nat}
    (hk : k * options.batch < 2 ^ 32) :
    baseAt options k ≤ BitVec.ofNat 32 nodes - options.gridSize * options.blockSize ↔
      (k + 1) * options.batch ≤ if options.batch ≤ nodes then nodes else 2 ^ 32 + nodes := by
  rw [BitVec.le_def, toNat_baseAt hk, toNat_bound hnodes hbatch, Nat.succ_mul]
  split <;> omega

/-- The first `n` iterations are within the bound. -/
def Within (options : LaunchOptions) (nodes n : Nat) : Prop :=
  ∀ k < n, baseAt options k ≤ BitVec.ofNat 32 nodes - options.gridSize * options.blockSize

/-- The launches of a loop that is not stopped. -/
def LaunchOptions.dagParts (options : LaunchOptions) (dagSize fuel : Nat) : Option DagParts :=
  generateDagParts options.gridSize options.blockSize dagSize (fun _ => false) fuel

/-- The launches of the first `n` iterations. -/
def partsUpTo (options : LaunchOptions) (n : Nat) : List DagPart :=
  (List.range n).map fun k => ⟨baseAt options k, options.gridSize, options.blockSize⟩

/-- The full launches cover what is below the counter once. -/
theorem sum_hits_partsUpTo {n i : Nat} (hn : n * options.batch ≤ 2 ^ 32) :
    ((partsUpTo options n).map (·.hits i)).sum = if i < n * options.batch then 1 else 0 := by
  rw [← sum_ranges options.batch n i, partsUpTo, List.map_map]
  congr 1
  refine List.map_congr_left fun k hk => ?_
  have hk : (k + 1) * options.batch ≤ n * options.batch :=
    Nat.mul_le_mul_right _ (List.mem_range.mp hk)
  rw [Nat.succ_mul] at hk
  have hbase : (baseAt options k).toNat = k * options.batch :=
    toNat_baseAt (by have := options.batch_pos; omega)
  have hthreads : DagPart.threads ⟨baseAt options k, options.gridSize, options.blockSize⟩ =
      options.batch := rfl
  rw [Function.comp_apply, hits_eq (by rw [hthreads, hbase]; omega), hthreads, hbase]

theorem generateDagParts_of_count {n : Nat} (hcond : Within options nodes n)
    (hlast : ¬ baseAt options n ≤ BitVec.ofNat 32 nodes - options.gridSize * options.blockSize)
    {dagSize : Nat} (hdag : dagSize / HASH_BYTES = nodes) :
    options.dagParts dagSize (n + 1) =
      some {
        full := partsUpTo options n
        last := if baseAt options n < BitVec.ofNat 32 nodes then
            some ⟨baseAt options n,
              (BitVec.ofNat 32 nodes - baseAt options n + options.blockSize - 1) / options.blockSize,
              options.blockSize⟩
          else none } := by
  have hloop : forLoop
      (fun base => decide (base ≤ BitVec.ofNat 32 nodes - options.gridSize * options.blockSize))
      (fun base => some (base + options.gridSize * options.blockSize)) (fun _ => false) (n + 1) 0
      (baseAt options 0) = some ((List.range n).map (baseAt options), baseAt options n) := by
    apply forLoop_of_count
    · intro k
      rfl
    · intro k hk
      exact decide_eq_true (hcond k hk)
    · intro k _
      exact congrArg some (baseAt_succ k)
    · exact decide_eq_false hlast
  have hzero : baseAt options 0 = 0 := by simp [baseAt]
  rw [hzero] at hloop
  rw [LaunchOptions.dagParts, generateDagParts, hdag, hloop]
  simp [partsUpTo]

/-! ## When it works -/

/-- The size of the launch after the loop: the rest of the nodes in whole blocks. -/
theorem le_threads_last {base block : BitVec 32} (hblock : 0 < block.toNat) (hnodes : nodes < 2 ^ 32)
    (hbase : base.toNat ≤ nodes) (hfits : nodes - base.toNat + block.toNat ≤ 2 ^ 32) :
    nodes ≤ base.toNat +
      DagPart.threads ⟨base, (BitVec.ofNat 32 nodes - base + block - 1) / block, block⟩ := by
  have hsub : (BitVec.ofNat 32 nodes - base).toNat = nodes - base.toNat := by
    rw [BitVec.toNat_sub, BitVec.toNat_ofNat, Nat.mod_eq_of_lt hnodes]
    omega
  have hround : (BitVec.ofNat 32 nodes - base + block - 1).toNat =
      nodes - base.toNat + block.toNat - 1 := by
    rw [BitVec.toNat_sub, BitVec.toNat_add, hsub, show (1 : BitVec 32).toNat = 1 from rfl]
    omega
  have hdiv := Nat.lt_mul_div_succ (nodes - base.toNat + block.toNat - 1) hblock
  rw [DagPart.threads, BitVec.toNat_udiv, hround, Nat.mul_comm]
  dsimp only
  rw [Nat.mul_succ] at hdiv
  omega

/-- A batch that does not exceed the nodes: whole batches, then the rest. -/
theorem coverOnce_of_le {dagSize : Nat} (hdag : dagSize / HASH_BYTES = nodes)
    (hnodes : nodes < 2 ^ 32) (hle : options.batch ≤ nodes) :
    ∃ fuel parts, options.dagParts dagSize fuel = some parts ∧ parts.CoverOnce nodes := by
  have hpos := options.batch_pos
  have hbatch : options.batch < 2 ^ 32 := lt_of_le_of_lt hle hnodes
  obtain ⟨n, hn⟩ : ∃ n, n = nodes / options.batch := ⟨_, rfl⟩
  have hlow : n * options.batch ≤ nodes := hn ▸ Nat.div_mul_le_self ..
  have hhigh : nodes < (n + 1) * options.batch := by
    rw [hn, Nat.mul_comm]
    exact Nat.lt_mul_div_succ nodes hpos
  have hbase : (baseAt options n).toNat = n * options.batch := toNat_baseAt (by omega)
  refine ⟨_, _, generateDagParts_of_count (n := n) ?_ ?_ hdag, ?_⟩
  · intro k hk
    have hk' : (k + 1) * options.batch ≤ n * options.batch := Nat.mul_le_mul_right _ hk
    rw [le_bound_iff hnodes hbatch (by rw [Nat.succ_mul] at hk'; omega), if_pos hle]
    omega
  · rw [le_bound_iff hnodes hbatch (by omega), if_pos hle]
    omega
  · intro i hi
    rw [sum_hits_partsUpTo (by omega)]
    by_cases hrest : n * options.batch < nodes
    · have hlt : baseAt options n < BitVec.ofNat 32 nodes := by
        rw [BitVec.lt_def, hbase, BitVec.toNat_ofNat, Nat.mod_eq_of_lt hnodes]
        exact hrest
      -- The counter has passed at least one block, so rounding up to blocks does not overflow.
      have hblock := options.blockSize_le_batch
      have hone : options.batch ≤ n * options.batch :=
        Nat.le_mul_of_pos_left _ (hn ▸ Nat.div_pos hle hpos)
      have hthreads := le_threads_last (lt_of_lt_of_le (by decide) options.eight_le_blockSize) hnodes
        (hbase ▸ hlow) (by rw [hbase]; omega)
      rw [if_pos hlt, Option.elim_some, hitsWithin_eq hnodes.le hthreads hi, hbase]
      by_cases h : i < n * options.batch
      · rw [if_pos h, if_neg (by omega)]
      · rw [if_neg h, if_pos (by omega)]
    · have hnlt : ¬ baseAt options n < BitVec.ofNat 32 nodes := by
        rw [BitVec.lt_def, hbase, BitVec.toNat_ofNat, Nat.mod_eq_of_lt hnodes]
        exact hrest
      rw [if_neg hnlt, Option.elim_none, if_pos (by omega)]

/-- A batch that exceeds the nodes and whose multiples pass the wrapped bound: the first launch covers
everything, and the others are beyond the nodes. -/
theorem coverOnce_of_lt {dagSize : Nat} (hdag : dagSize / HASH_BYTES = nodes)
    (hbatch : options.batch < 2 ^ 32) (hlt : nodes < options.batch)
    (hmult : 2 ^ 32 + nodes < (2 ^ 32 + options.batch - 1) / options.batch * options.batch) :
    ∃ fuel parts, options.dagParts dagSize fuel = some parts ∧ parts.CoverOnce nodes := by
  have hnodes : nodes < 2 ^ 32 := hlt.trans hbatch
  obtain ⟨n, hn, hlow, -⟩ := exists_wrap options.batch_pos
  rw [hn] at hmult
  have hone : options.batch ≤ n * options.batch := by
    rw [Nat.succ_mul] at hmult
    refine Nat.le_mul_of_pos_left _ (Nat.pos_of_ne_zero ?_)
    rintro rfl
    omega
  have hbase : (baseAt options n).toNat = n * options.batch := toNat_baseAt hlow
  refine ⟨_, _, generateDagParts_of_count (n := n) ?_ ?_ hdag, ?_⟩
  · intro k hk
    have hk' : (k + 1) * options.batch ≤ n * options.batch := Nat.mul_le_mul_right _ hk
    rw [le_bound_iff hnodes hbatch (by rw [Nat.succ_mul] at hk'; omega), if_neg (by omega)]
    omega
  · rw [le_bound_iff hnodes hbatch hlow, if_neg (by omega)]
    omega
  · intro i hi
    have hnlt : ¬ baseAt options n < BitVec.ofNat 32 nodes := by
      rw [BitVec.lt_def, hbase, BitVec.toNat_ofNat, Nat.mod_eq_of_lt hnodes]
      omega
    rw [sum_hits_partsUpTo hlow.le, if_neg hnlt, Option.elim_none, if_pos (by omega)]

/-! ## When it does not -/

theorem full_starts {n dagSize fuel : Nat} {parts : DagParts} (hdag : dagSize / HASH_BYTES = nodes)
    (hcond : Within options nodes n) (h : options.dagParts dagSize fuel = some parts) :
    ∃ rest, parts.full = partsUpTo options n ++ rest := by
  rw [LaunchOptions.dagParts, generateDagParts, hdag] at h
  obtain ⟨r, hr, rfl⟩ := Option.map_eq_some_iff.mp h
  have hzero : (0 : BitVec 32) = baseAt options 0 := by simp [baseAt]
  rw [hzero] at hr
  obtain ⟨rest, hrest⟩ : ∃ rest, r.1 = (List.range n).map (baseAt options) ++ rest := by
    refine forLoop_starts (baseAt options) n ?_ ?_ ?_ hr
    · intro k
      rfl
    · intro k hk
      exact decide_eq_true (hcond k hk)
    · intro k _
      exact congrArg some (baseAt_succ k)
  refine ⟨rest.map fun base => ⟨base, options.gridSize, options.blockSize⟩, ?_⟩
  simp only [hrest, List.map_append, partsUpTo, List.map_map]
  rfl

/-- A counter that comes back to zero within the bound never leaves the loop. -/
theorem generateDagParts_eq_none {n dagSize : Nat} (hdag : dagSize / HASH_BYTES = nodes)
    (hcond : Within options nodes n) (hwrap : n * options.batch = 2 ^ 32) (fuel : Nat) :
    options.dagParts dagSize fuel = none := by
  rw [LaunchOptions.dagParts, generateDagParts, hdag, Option.map_eq_none_iff]
  have hn : 0 < n := Nat.pos_of_ne_zero (by rintro rfl; simp at hwrap)
  apply forLoop_eq_none (fun base => ∃ k < n, base = baseAt options k)
  · intro k
    rfl
  · rintro base ⟨k, hk, rfl⟩
    exact decide_eq_true (hcond k hk)
  · rintro base ⟨k, hk, rfl⟩
    refine ⟨_, congrArg some (baseAt_succ k), ?_⟩
    by_cases hlast : k + 1 < n
    · exact ⟨k + 1, hlast, rfl⟩
    · obtain rfl : n = k + 1 := by omega
      refine ⟨0, hn, ?_⟩
      rw [baseAt, baseAt, hwrap]
      simp
  · exact ⟨0, hn, by simp [baseAt]⟩

theorem baseAt_zero_le (bound : BitVec 32) : baseAt options 0 ≤ bound := by
  rw [BitVec.le_def]
  simp [baseAt]

/-- Launches that cover the nodes once stay once in every beginning of the list. -/
theorem DagParts.CoverOnce.sum_le {parts : DagParts} {first rest : List DagPart} {i : Nat}
    (h : parts.CoverOnce nodes) (hi : i < nodes) (hfull : parts.full = first ++ rest) :
    (first.map (·.hits i)).sum ≤ 1 := by
  have := h i hi
  rw [hfull, List.map_append, List.sum_append] at this
  omega

/-- With more than `2 ^ 32` threads the first launch works on node 0 twice. -/
theorem two_le_hits {part : DagPart} (hbase : part.base.toNat = 0) (h : 2 ^ 32 < part.threads) :
    2 ≤ part.hits 0 := by
  have hfirst : Nat.count (fun t => (part.base.toNat + t) % 2 ^ 32 = 0) 0 <
      Nat.count (fun t => (part.base.toNat + t) % 2 ^ 32 = 0) (2 ^ 32) :=
    Nat.count_strict_mono (by simp [hbase]) (by decide)
  have hsecond : Nat.count (fun t => (part.base.toNat + t) % 2 ^ 32 = 0) (2 ^ 32) < part.hits 0 :=
    Nat.count_strict_mono (by simp [hbase]) h
  omega

theorem batch_lt_of_coverOnce {dagSize fuel : Nat} {parts : DagParts}
    (hdag : dagSize / HASH_BYTES = nodes) (hpos : 0 < nodes)
    (h : options.dagParts dagSize fuel = some parts) (hcover : parts.CoverOnce nodes) :
    options.batch < 2 ^ 32 := by
  have hcond : Within options nodes 1 := by
    intro k hk
    obtain rfl : k = 0 := by omega
    exact baseAt_zero_le _
  rcases Nat.lt_trichotomy options.batch (2 ^ 32) with hlt | heq | hgt
  · exact hlt
  · rw [generateDagParts_eq_none hdag hcond (by rw [Nat.one_mul]; exact heq)] at h
    cases h
  · obtain ⟨rest, hfull⟩ := full_starts hdag hcond h
    have hle := hcover.sum_le hpos hfull
    have htwo : 2 ≤ DagPart.hits ⟨baseAt options 0, options.gridSize, options.blockSize⟩ 0 :=
      two_le_hits (by simp [baseAt]) hgt
    simp only [partsUpTo, List.range_one, List.map_cons, List.map_nil, List.sum_cons,
      List.sum_nil] at hle
    omega

/-- If the counter wraps around within the bound, node 0 is computed again. -/
theorem multiple_of_coverOnce {dagSize fuel : Nat} {parts : DagParts}
    (hdag : dagSize / HASH_BYTES = nodes) (hpos : 0 < nodes) (hbatch : options.batch < 2 ^ 32)
    (hlt : nodes < options.batch) (h : options.dagParts dagSize fuel = some parts)
    (hcover : parts.CoverOnce nodes) :
    2 ^ 32 + nodes < (2 ^ 32 + options.batch - 1) / options.batch * options.batch := by
  have hnodes : nodes < 2 ^ 32 := hlt.trans hbatch
  obtain ⟨n, hn, hlow, hhigh⟩ := exists_wrap options.batch_pos
  rw [hn]
  by_contra hle
  have hcond : Within options nodes (n + 1) := by
    intro k hk
    have hk' : (k + 1) * options.batch ≤ (n + 1) * options.batch := Nat.mul_le_mul_right _ hk
    have hk'' : k * options.batch ≤ n * options.batch := Nat.mul_le_mul_right _ (by omega)
    rw [le_bound_iff hnodes hbatch (by omega), if_neg (by omega)]
    omega
  rcases Nat.lt_or_eq_of_le hhigh with hwrap | hwrap
  · obtain ⟨rest, hfull⟩ := full_starts hdag hcond h
    have hsum := hcover.sum_le hpos hfull
    have hone : 0 < n * options.batch := by
      rw [Nat.succ_mul] at hwrap
      omega
    have hagain : 1 ≤ DagPart.hits ⟨baseAt options n, options.gridSize, options.blockSize⟩ 0 := by
      refine one_le_hits (t := 2 ^ 32 - n * options.batch) ?_ ?_
      · rw [Nat.succ_mul] at hwrap
        have hthreads : DagPart.threads ⟨baseAt options n, options.gridSize, options.blockSize⟩ =
            options.batch := rfl
        omega
      · rw [toNat_baseAt hlow, Nat.add_sub_cancel' hlow.le, Nat.mod_self]
    have hstart := sum_hits_partsUpTo (i := 0) hlow.le
    rw [if_pos hone] at hstart
    rw [partsUpTo, List.range_succ, List.map_append, ← partsUpTo, List.map_append, List.sum_append,
      hstart, List.map_singleton, List.map_singleton, List.sum_singleton] at hsum
    omega
  · rw [generateDagParts_eq_none hdag hcond hwrap.symm] at h
    cases h

theorem nodes_lt_of_coverOnce {parts : DagParts} (hodd : nodes % 2 ^ 32 ≠ 0)
    (hcover : parts.CoverOnce nodes) : nodes < 2 ^ 32 := by
  by_contra hge
  have hlt : 2 ^ 32 < nodes := by
    rcases Nat.lt_or_eq_of_le (Nat.not_lt.mp hge) with h | h
    · exact h
    · rw [← h] at hodd
      exact absurd (Nat.mod_self _) hodd
  have hone := hcover (2 ^ 32) hlt
  have hfull : (parts.full.map (·.hits (2 ^ 32))).sum = 0 := by
    apply List.sum_eq_zero
    intro x hx
    obtain ⟨part, -, rfl⟩ := List.mem_map.mp hx
    exact hits_eq_zero (le_refl _)
  have hrest : parts.last.elim 0 (·.hitsWithin nodes (2 ^ 32)) = 0 := by
    cases parts.last with
    | none => rfl
    | some part =>
      have hzero : part.hits (2 ^ 32) = 0 := hits_eq_zero (le_refl _)
      exact Nat.eq_zero_of_le_zero (hzero ▸ hitsWithin_le_hits)
  omega

end

/-- The launches of `cuda_init` for the dataset of a block end and cover its nodes exactly once if and
only if the sizes fit. -/
theorem generateDagParts_coverOnce_iff (options : LaunchOptions) (blockNumber : Nat) :
    (∃ fuel parts,
      generateDagParts options.gridSize options.blockSize (getFullSize blockNumber) (fun _ => false)
        fuel = some parts ∧
      parts.CoverOnce (getFullSize blockNumber / HASH_BYTES)) ↔
    options.Fits (getFullSize blockNumber / HASH_BYTES) := by
  obtain ⟨nodes, hdag⟩ : ∃ nodes, getFullSize blockNumber / HASH_BYTES = nodes := ⟨_, rfl⟩
  -- A dataset is an odd number of pages of two nodes.
  have hodd : nodes % 4 = 2 := by
    have := getFullSize_odd blockNumber
    rw [← hdag, HASH_BYTES]
    omega
  rw [hdag]
  constructor
  · rintro ⟨fuel, parts, h, hcover⟩
    have hnodes := nodes_lt_of_coverOnce (by omega) hcover
    have hbatch := batch_lt_of_coverOnce hdag (by omega) h hcover
    refine ⟨hnodes, hbatch, ?_⟩
    by_cases hle : options.batch ≤ nodes
    · exact .inl hle
    · exact .inr (multiple_of_coverOnce hdag (by omega) hbatch (Nat.lt_of_not_le hle) h hcover)
  · rintro ⟨hnodes, hbatch, hfits⟩
    by_cases hle : options.batch ≤ nodes
    · exact coverOnce_of_le hdag hnodes hle
    · exact coverOnce_of_lt hdag hbatch (Nat.lt_of_not_le hle) (hfits.resolve_left hle)

/-- `--cuda-grid-size 131072 --cuda-block-size 1024`. -/
def wideOptions : LaunchOptions where
  cudaGridSize := 131072
  cudaBlockSize := 1024
  grid_range := by decide
  block_range := by decide

/-- A batch of `2 ^ 27` nodes, more than the first dataset has: the counter comes back to zero, and the
launches go on forever. -/
theorem endless_launches :
    ¬ ∃ fuel parts,
      generateDagParts wideOptions.gridSize wideOptions.blockSize (getFullSize 0) (fun _ => false)
        fuel = some parts ∧
      parts.CoverOnce (getFullSize 0 / HASH_BYTES) := by
  rintro ⟨fuel, parts, h, -⟩
  have hbatch : wideOptions.batch = 2 ^ 27 := by decide
  obtain ⟨nodes, hdag⟩ : ∃ nodes, getFullSize 0 / HASH_BYTES = nodes := ⟨_, rfl⟩
  have hnodes : nodes < 2 ^ 27 := by
    have hsize := getFullSize_le (b := 0) (by decide)
    rw [Nat.zero_div, DATASET_BYTES_INIT, DATASET_BYTES_GROWTH] at hsize
    rw [← hdag, HASH_BYTES]
    omega
  have hcond : Within wideOptions nodes 32 := by
    intro k hk
    rw [le_bound_iff (by omega) (by omega) (by rw [hbatch]; omega), hbatch, if_neg (by omega)]
    omega
  have hnone := generateDagParts_eq_none hdag hcond (by rw [hbatch]; decide) fuel
  exact absurd (h.symm.trans hnone) (Option.some_ne_none parts)

end Energiminer.Cuda
