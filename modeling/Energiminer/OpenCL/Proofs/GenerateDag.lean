import Energiminer.Nrghash.Proofs.FullLight
import Energiminer.Nrghash.Proofs.Sizes
import Energiminer.OpenCL.GenerateDag
import Energiminer.OpenCL.Proofs.Keccak
import Energiminer.OpenCL.Proofs.OldSearch

/-!
# OpenCL generates the DAG of the CPU

Both kernels store the item of the CPU at their own index and nothing beyond the DAG
(`generateDAG_eq`). The launches of the host cover all indices (`enqueueDag_covers`), whatever the order
in which the work-items store.
-/

namespace Energiminer.OpenCL
open Misc Misc.Keccak Nrghash Devices

/-! ## A work-item -/

/-- The arguments fit together, as the host passes them. -/
structure DagArgs.Consistent (args : DagArgs) : Prop where
  lightSize : args.lightSize = BitVec.ofNat 32 args.light.size
  isolate : args.isolate ≠ 0
  dagGenItems : args.dagGenItems.toNat = 2 * args.dagSize.toNat
  dagSize : 2 * args.dagSize.toNat < 2 ^ 32

section
variable {args : DagArgs}

theorem uint4_setUint4 (node : Hash512) {x : Nat} (hx : x < 4) (v : Vector Word 4) :
    uint4 (setUint4 node x v) x = v := by
  refine ext_cell fun j hj => ?_
  rw [cell_uint4 _ _ _ hj, cell_setUint4 _ _ _ _ (by omega), if_pos (by omega),
    show (4 * x + j) % 4 = j by omega]

theorem setUint4_setUint4 (node : Hash512) (x : Nat) (v w : Vector Word 4) :
    setUint4 (setUint4 node x v) x w = setUint4 node x w := by
  refine ext_cell fun k hk => ?_
  rw [cell_setUint4 _ _ _ _ hk, cell_setUint4 _ _ _ _ hk, cell_setUint4 _ _ _ _ hk]
  by_cases h : k / 4 = x
  · rw [if_pos h, if_pos h]
  · rw [if_neg h, if_neg h, if_neg h]

/-- A multiplication and an exclusive or of vectors are `fnv4`. -/
theorem mixUint4_eq (h : args.isolate ≠ 0) (parent node : Hash512) {x : Nat} (hx : x < 4) :
    mixUint4 args parent node x = setUint4 node x (fnv4 (uint4 node x) (uint4 parent x)) := by
  rw [mixUint4, if_pos h]
  dsimp only
  rw [uint4_setUint4 node hx, setUint4_setUint4]
  apply congrArg (setUint4 node x)
  refine ext_cell fun j hj => ?_
  rw [fnv4, cell_zipWith _ _ _ hj, cell_zipWith _ _ _ hj, cell_eq_getElem _ hj, Vector.getElem_map,
    ← cell_eq_getElem _ hj]
  rfl

theorem mixParent_eq (h : args.Consistent) (i : Word) (node : Hash512) (j : Nat) :
    mixParent args i node j = node.zipWith fnv
      (lightRow args.light (BitVec.ofNat 32 args.light.size)
        (fnv (i ^^^ BitVec.ofNat 32 j) (cell node (j % 16)))) := by
  rw [mixParent, ← h.lightSize, ← foldl_setUint4]
  refine List.foldl_ext _ _ _ fun node x hx => ?_
  exact mixUint4_eq h.isolate _ node (List.mem_range.mp hx)

theorem Old.mixParent_eq (h : args.Consistent) (i : Word) (node : Hash512) (j : Nat) :
    Old.mixParent args i node j = node.zipWith fnv
      (lightRow args.light (BitVec.ofNat 32 args.light.size)
        (fnv (i ^^^ BitVec.ofNat 32 j) (cell node (j % 16)))) := by
  rw [Old.mixParent, ← h.lightSize, foldl_setUint4]

theorem sha3_512_eq (build : RotlBuild) (h : args.isolate ≠ 0) (node : Hash512) :
    sha3_512 build args node = sha3Words512 keccakTiny (serialize node) :=
  nodeOfState_eq node fun k hk => keccakProcess_eight build h _ k hk

theorem Old.sha3_512_eq (platform : Old.Platform) (h : args.isolate ≠ 0) (node : Hash512) :
    Old.sha3_512 platform args node = some (sha3Words512 keccakTiny (serialize node)) := by
  rw [Old.sha3_512, Old.keccakF1600NoAbsorb, if_pos h, Option.map_some]
  apply congrArg some
  refine nodeOfState_eq node fun k _ => ?_
  rw [← Old.map_permute platform, Lanes.get_map]
  rfl

/-- What a work-item stores. -/
def itemStore (args : DagArgs) (index : Word) : Option (Word × Hash512) :=
  if index.toNat < 2 * args.dagSize.toNat then
    some (index, calcDatasetItem keccakTiny args.light index)
  else none

/-- Both kernels store the item of the CPU, at an index of the DAG. -/
theorem generateDAG_eq (kernel : DagKernel) (h : args.Consistent) (start globalId : Nat) :
    kernel.generateDAG args start globalId =
      some (itemStore args (BitVec.ofNat 32 (start + globalId))) := by
  obtain ⟨i, hi⟩ : ∃ i : Word, BitVec.ofNat 32 (start + globalId) = i := ⟨_, rfl⟩
  cases kernel with
  | nrghash build =>
    have hguard : i ≥ args.dagGenItems ↔ ¬ i.toNat < 2 * args.dagSize.toNat := by
      rw [ge_iff_le, BitVec.le_def, h.dagGenItems, Nat.not_lt]
    have hitem := calcDatasetItem_of_steps (sha3_512_eq build h.isolate) (mixParent_eq h i)
    rw [DagKernel.generateDAG, generateDAG, hi, itemStore]
    by_cases hin : i.toNat < 2 * args.dagSize.toNat
    · rw [if_neg (fun hge => hguard.mp hge hin), if_pos hin, ← hitem, h.lightSize]
      rfl
    · rw [if_pos (hguard.mpr hin), if_neg hin]
  | oldNrghash platform =>
    have hdouble : (args.dagSize * 2).toNat = 2 * args.dagSize.toNat := by
      have := h.dagSize
      rw [BitVec.toNat_mul, show (2 : BitVec 32).toNat = 2 from rfl, Nat.mod_eq_of_lt (by omega),
        Nat.mul_comm]
    have hguard : i ≥ args.dagSize * 2 ↔ ¬ i.toNat < 2 * args.dagSize.toNat := by
      rw [ge_iff_le, BitVec.le_def, hdouble, Nat.not_lt]
    have hitem := calcDatasetItem_of_steps
      (fun node => (rfl : sha3Words512 keccakTiny (serialize node) = _)) (Old.mixParent_eq h i)
    rw [DagKernel.generateDAG, Old.generateDAG, hi, itemStore]
    by_cases hin : i.toNat < 2 * args.dagSize.toNat
    · rw [if_neg (fun hge => hguard.mp hge hin), if_pos hin, ← hitem, h.lightSize]
      simp only [Old.sha3_512_eq platform h.isolate, Option.bind_eq_bind, Option.bind_some]
      rfl
    · rw [if_pos (hguard.mpr hin), if_neg hin]

/-! ## Launches -/

theorem stores_eq (kernel : DagKernel) (h : args.Consistent) (launch : DagLaunch) :
    launch.stores kernel args = some ((List.range launch.globalSize).filterMap fun globalId =>
      itemStore args (BitVec.ofNat 32 (launch.start + globalId))) := by
  have hitems : kernel.generateDAG args launch.start = fun globalId =>
      some (itemStore args (BitVec.ofNat 32 (launch.start + globalId))) :=
    funext (generateDAG_eq kernel h launch.start)
  have hmapM : (List.range launch.globalSize).mapM (fun globalId =>
      some (itemStore args (BitVec.ofNat 32 (launch.start + globalId)))) = some _ := List.mapM_pure
  rw [DagLaunch.stores, hitems, hmapM, Option.map_some]
  exact congrArg some List.filterMap_map

theorem eq_of_mem_stores {kernel : DagKernel} (h : args.Consistent) {launch : DagLaunch}
    {stores : List (Word × Hash512)} (hstores : launch.stores kernel args = some stores)
    {s : Word × Hash512} (hs : s ∈ stores) :
    s.1.toNat < 2 * args.dagSize.toNat ∧ s.2 = calcDatasetItem keccakTiny args.light s.1 := by
  rw [stores_eq kernel h] at hstores
  cases hstores
  obtain ⟨globalId, -, hitem⟩ := List.mem_filterMap.mp hs
  rw [itemStore] at hitem
  split at hitem
  next hin =>
    cases hitem
    exact ⟨hin, rfl⟩
  next => cases hitem

theorem mem_stores {kernel : DagKernel} (h : args.Consistent) {launch : DagLaunch}
    {stores : List (Word × Hash512)} (hstores : launch.stores kernel args = some stores) {i : Word}
    (hi : i.toNat < 2 * args.dagSize.toNat) (hlow : launch.start ≤ i.toNat)
    (hhigh : i.toNat < launch.start + launch.globalSize) :
    (i, calcDatasetItem keccakTiny args.light i) ∈ stores := by
  rw [stores_eq kernel h] at hstores
  cases hstores
  refine List.mem_filterMap.mpr ⟨i.toNat - launch.start, List.mem_range.mpr (by omega), ?_⟩
  rw [Nat.add_sub_cancel' hlow, BitVec.ofNat_toNat, BitVec.setWidth_eq, itemStore, if_pos hi]

/-- What is right stays right, and what a launch covers gets right. -/
theorem RunsTo.item {kernel : DagKernel} (h : args.Consistent) {launches : List DagLaunch}
    {before after : Word → Hash512} (hrun : RunsTo kernel args launches before after) {i : Word}
    (hi : i.toNat < 2 * args.dagSize.toNat)
    (hcover : before i = calcDatasetItem keccakTiny args.light i ∨
      ∃ launch ∈ launches,
        launch.start ≤ i.toNat ∧ i.toNat < launch.start + launch.globalSize) :
    after i = calcDatasetItem keccakTiny args.light i := by
  induction launches generalizing before with
  | nil =>
    rcases hcover with hbefore | ⟨launch, hmem, -⟩
    · exact (congrFun hrun i).trans hbefore
    · exact absurd hmem List.not_mem_nil
  | cons launch launches ih =>
    obtain ⟨stores, mid, hstores, hsettles, hrest⟩ := hrun
    refine ih hrest ?_
    -- Every store to the index is its item, so the memory is right if there is one or it was before.
    have hagree : ∀ w, (i, w) ∈ stores → w = calcDatasetItem keccakTiny args.light i :=
      fun w hw => (eq_of_mem_stores h hstores hw).2
    rcases hcover with hbefore | ⟨l, hmem, hlow, hhigh⟩
    · rcases hsettles i with hmid | ⟨hmid, -⟩
      · exact .inl (hagree _ hmid)
      · exact .inl (hmid.trans hbefore)
    · rcases List.mem_cons.mp hmem with rfl | hmem
      · exact .inl (hsettles.eq_of_agree (mem_stores h hstores hi hlow hhigh) hagree)
      · exact .inr ⟨l, hmem, hlow, hhigh⟩

end

/-! ## The host -/

theorem uint32_natCast {x : Nat} (h : x < 2 ^ 32) : uint32 x = some x := by
  rw [uint32, if_pos (by omega), Int.toNat_natCast]

theorem int32_eq {x : Int} (hlow : -2 ^ 31 ≤ x) (hhigh : x < 2 ^ 31) : int32 x = some x := by
  rw [int32, if_pos ⟨hlow, hhigh⟩]

/-- Launches within 32 bits that cover the nodes. -/
structure Covers (launches : List DagLaunch) (items : Nat) : Prop where
  fits : ∀ launch ∈ launches, launch.start + launch.globalSize ≤ 2 ^ 32
  covers : ∀ i < items, ∃ launch ∈ launches,
    launch.start ≤ i ∧ i < launch.start + launch.globalSize

/-- Whole chunks, then the rest in whole groups. -/
def dagLaunches (items wg : Nat) : List DagLaunch :=
  let n := items / (10000 * wg)
  let full := (List.range n).map fun k => ⟨k * (10000 * wg), 10000 * wg, wg⟩
  if n * (10000 * wg) < items then
    full ++ [⟨n * (10000 * wg), (items - n * (10000 * wg) + wg - 1) / wg * wg, wg⟩]
  else full

section
variable {items wg : Nat}

theorem covers_dagLaunches (hwg : 0 < wg) (hlarge : wg ≤ 100000) (hitems : items < 2 ^ 31) :
    Covers (dagLaunches items wg) items := by
  obtain ⟨chunk, hchunk⟩ : ∃ chunk, chunk = 10000 * wg := ⟨_, rfl⟩
  have hpos : 0 < chunk := by omega
  obtain ⟨n, hn⟩ : ∃ n, n = items / chunk := ⟨_, rfl⟩
  have hlow : n * chunk ≤ items := hn ▸ Nat.div_mul_le_self ..
  have hround := Nat.div_mul_le_self (items - n * chunk + wg - 1) wg
  have hround' := Nat.lt_mul_div_succ (items - n * chunk + wg - 1) hwg
  rw [Nat.mul_succ, Nat.mul_comm wg] at hround'
  have hwhole : ∀ launch ∈ (List.range n).map fun k => (⟨k * chunk, chunk, wg⟩ : DagLaunch),
      launch.start + launch.globalSize ≤ 2 ^ 32 := by
    intro launch hmem
    obtain ⟨k, hk, rfl⟩ := List.mem_map.mp hmem
    have hk' : (k + 1) * chunk ≤ n * chunk := Nat.mul_le_mul_right _ (List.mem_range.mp hk)
    rw [Nat.succ_mul] at hk'
    show k * chunk + chunk ≤ 2 ^ 32
    omega
  have hcover : ∀ i < n * chunk, ∃ launch ∈ (List.range n).map fun k =>
      (⟨k * chunk, chunk, wg⟩ : DagLaunch),
      launch.start ≤ i ∧ i < launch.start + launch.globalSize := by
    intro i hi
    refine ⟨⟨i / chunk * chunk, chunk, wg⟩, ?_, Nat.div_mul_le_self .., ?_⟩
    · exact List.mem_map.mpr
        ⟨i / chunk, List.mem_range.mpr ((Nat.div_lt_iff_lt_mul hpos).mpr hi), rfl⟩
    · have := Nat.lt_mul_div_succ i hpos
      rw [Nat.mul_succ, Nat.mul_comm] at this
      exact this
  rw [dagLaunches, ← hchunk, ← hn]
  by_cases hrest : n * chunk < items
  · rw [if_pos hrest]
    refine ⟨fun launch hmem => ?_, fun i hi => ?_⟩
    · rcases List.mem_append.mp hmem with hmem | hmem
      · exact hwhole launch hmem
      · rw [List.mem_singleton.mp hmem]
        show n * chunk + (items - n * chunk + wg - 1) / wg * wg ≤ 2 ^ 32
        omega
    · by_cases hin : i < n * chunk
      · obtain ⟨launch, hmem, hrange⟩ := hcover i hin
        exact ⟨launch, List.mem_append_left _ hmem, hrange⟩
      · refine ⟨_, List.mem_append_right _ (List.mem_singleton_self _), Nat.le_of_not_lt hin, ?_⟩
        show i < n * chunk + (items - n * chunk + wg - 1) / wg * wg
        omega
  · rw [if_neg hrest]
    exact ⟨hwhole, fun i hi => hcover i (by omega)⟩

theorem lastLaunch_eq (hwg : 0 < wg) (hfits : items + wg < 2 ^ 32) {start : Nat}
    (hitems : items < 2 ^ 31) (hstart : start < items) :
    lastLaunch items start wg = some ⟨start, (items - start + wg - 1) / wg * wg, wg⟩ := by
  obtain ⟨left, hleft⟩ : ∃ left, left = items - start := ⟨_, rfl⟩
  have hround := Nat.div_mul_le_self (left + wg - 1) wg
  have hint : int32 ((items : Int) - start) = some (left : Int) := by
    rw [show (items : Int) - start = left by omega]
    exact int32_eq (by omega) (by omega)
  have hadd : uint32 ((left : Int) + wg) = some (left + wg) := by
    rw [show (left : Int) + wg = ((left + wg : Nat) : Int) by omega]
    exact uint32_natCast (by omega)
  have hone : uint32 (((left + wg : Nat) : Int) - 1) = some (left + wg - 1) := by
    rw [show ((left + wg : Nat) : Int) - 1 = ((left + wg - 1 : Nat) : Int) by omega]
    exact uint32_natCast (by omega)
  simp only [lastLaunch, Option.bind_eq_bind]
  rw [hint, Option.bind_some, uint32_natCast (by omega), Option.bind_some, hadd, Option.bind_some, hone,
    Option.bind_some, uint32_natCast (by omega), Option.bind_some, ← hleft, Int.toNat_natCast, Option.pure_def]

theorem enqueueDag_eq (hwg : 0 < wg) (hlarge : wg ≤ 100000) (hitems : items < 2 ^ 31) :
    enqueueDag items wg (fun _ => false) (items / (10000 * wg) + 1) =
      some (dagLaunches items wg) := by
  obtain ⟨chunk, hchunk⟩ : ∃ chunk, chunk = 10000 * wg := ⟨_, rfl⟩
  have hpos : 0 < chunk := by omega
  obtain ⟨n, hn⟩ : ∃ n, n = items / chunk := ⟨_, rfl⟩
  have hlow : n * chunk ≤ items := hn ▸ Nat.div_mul_le_self ..
  have hhigh : items < n * chunk + chunk := by
    have := Nat.lt_mul_div_succ items hpos
    rw [Nat.mul_succ, ← hn, Nat.mul_comm] at this
    exact this
  have hloop : forLoop (fun start => decide (start ≤ (items : Int) - chunk))
      (fun start => int32 (start + chunk)) (fun _ => false) (n + 1) 0 (((0 * chunk : Nat)) : Int) =
        some ((List.range n).map fun k => ((k * chunk : Nat) : Int), ((n * chunk : Nat) : Int)) := by
    apply forLoop_of_count (fun k => ((k * chunk : Nat) : Int))
    · intro k
      rfl
    · intro k hk
      have hk' : (k + 1) * chunk ≤ n * chunk := Nat.mul_le_mul_right _ hk
      rw [Nat.succ_mul] at hk'
      exact decide_eq_true (by omega)
    · intro k hk
      have hk' : (k + 1) * chunk ≤ n * chunk := Nat.mul_le_mul_right _ hk
      rw [int32_eq (by rw [Nat.succ_mul] at hk'; omega) (by rw [Nat.succ_mul] at hk'; omega),
        Nat.succ_mul, Nat.cast_add]
    · exact decide_eq_false (by omega)
  rw [Nat.zero_mul, Nat.cast_zero] at hloop
  have hstarts : ((List.range n).map fun k => ((k * chunk : Nat) : Int)).map
      (fun start => (⟨start.toNat, chunk, wg⟩ : DagLaunch)) =
        (List.range n).map fun k => ⟨k * chunk, chunk, wg⟩ := by
    rw [List.map_map]
    rfl
  have hchunk32 : uint32 (10000 * wg) = some chunk := by
    rw [show (10000 * wg : Int) = chunk by omega]
    exact uint32_natCast (by omega)
  have hchunkInt : int32 (chunk : Int) = some (chunk : Int) := int32_eq (by omega) (by omega)
  have hbound : int32 ((items : Int) - chunk) = some ((items : Int) - chunk) :=
    int32_eq (by omega) (by omega)
  simp only [dagLaunches, ← hchunk, ← hn, enqueueDag, Option.bind_eq_bind]
  rw [hchunk32, Option.bind_some, hchunkInt, Option.bind_some, hbound,
    Option.bind_some, hloop, Option.bind_some, Int.toNat_natCast]
  dsimp only
  rw [hstarts]
  by_cases hrest : n * chunk < items
  · rw [if_pos ⟨Int.ofNat_lt.mpr hrest, trivial⟩, lastLaunch_eq hwg (by omega) hitems hrest, Option.bind_some,
      if_pos hrest, Option.pure_def]
  · rw [if_neg (fun h => hrest (Int.ofNat_lt.mp h.1)), if_neg hrest, Option.pure_def]

end

/-! ## Sizes -/

theorem blockNumber_cases (height : BitVec 32) :
    blockNumber height < 2 ^ 31 ∨
      2 ^ 64 - 2 ^ 31 ≤ blockNumber height ∧ blockNumber height < 2 ^ 64 := by
  have hlt := height.isLt
  rw [blockNumber, BitVec.toNat_signExtend, BitVec.msb_eq_decide, BitVec.toNat_setWidth]
  by_cases hneg : 2 ^ 31 ≤ height.toNat
  · rw [decide_eq_true hneg, if_pos rfl]
    omega
  · rw [decide_eq_false hneg, if_neg (by decide)]
    omega

/-- A dataset below `2 ^ 37` bytes has few epochs before it. The dataset of a negative height is far
larger, although its size wraps around. -/
theorem epoch_le_of_getFullSize_lt {height : BitVec 32}
    (hsize : getFullSize (blockNumber height) < 2 ^ 37) :
    310 + blockNumber height / EPOCH_LENGTH ≤ 2 ^ 15 := by
  obtain ⟨b, hb⟩ : ∃ b, b = blockNumber height := ⟨_, rfl⟩
  have hcases := blockNumber_cases height
  rw [← hb] at hsize hcases ⊢
  by_contra hlarge
  have hlt : MIX_BYTES * 2 ^ 30 < primeSize DATASET_BYTES_INIT DATASET_BYTES_GROWTH MIX_BYTES b :=
    lt_primeSize (by decide) (by decide) (by decide) ?_ ?_
  · rw [MIX_BYTES] at hlt
    rw [getFullSize, MIX_BYTES] at hsize
    omega
  · simp only [u64, DATASET_BYTES_INIT, DATASET_BYTES_GROWTH, MIX_BYTES]
    omega
  · simp only [u64, DATASET_BYTES_INIT, DATASET_BYTES_GROWTH, MIX_BYTES, EPOCH_LENGTH] at hlarge ⊢
    omega

theorem getCacheSize_lt_of_getFullSize_lt {height : BitVec 32}
    (hsize : getFullSize (blockNumber height) < 2 ^ 37) :
    getCacheSize (blockNumber height) < 2 ^ 32 := by
  have hepoch := epoch_le_of_getFullSize_lt hsize
  have hle := getCacheSize_le (b := blockNumber height) (by omega)
  have hodd := getCacheSize_odd (blockNumber height)
  rw [CACHE_BYTES_INIT, CACHE_BYTES_GROWTH] at hle
  omega

theorem size_cache (K : KeccakFns) {b : Nat} (hsize : getCacheSize b < 2 ^ 32) :
    (Cache.generate K b).data.size = getCacheSize b / HASH_BYTES := by
  have hodd := getCacheSize_odd b
  have hrows : u32 (getCacheSize b / HASH_BYTES) = getCacheSize b / HASH_BYTES := by
    rw [u32, HASH_BYTES]
    omega
  have hpos : 0 < u32 (getCacheSize b / HASH_BYTES) := by
    rw [hrows, HASH_BYTES]
    omega
  exact (size_mkcache K _ hpos).trans hrows

theorem workgroupSize_eq (options : LocalWork) :
    options.workgroupSize = some ((options.localWorkSize + 7) / 8 * 8) := by
  have hrange := options.range
  have hsum : uint32 ((options.localWorkSize : Int) + 7) = some (options.localWorkSize + 7) :=
    uint32_natCast (x := options.localWorkSize + 7) (by omega)
  rw [LocalWork.workgroupSize, hsum, Option.bind_eq_bind, Option.bind_some, uint32_natCast (by omega)]

/-- The arguments the host passes. -/
def dagArgs (K : KeccakFns) (height : BitVec 32) : DagArgs where
  light := (Cache.generate K (blockNumber height)).data
  lightSize := BitVec.ofNat 32 (Cache.generate K (blockNumber height)).data.size
  isolate := ~~~0
  dagGenItems := BitVec.ofNat 32 (getFullSize (blockNumber height) / MIX_BYTES * 2)
  dagSize := BitVec.ofNat 32 (getFullSize (blockNumber height) / MIX_BYTES)

section
variable {height : BitVec 32} (hsize : getFullSize (blockNumber height) < 2 ^ 37)
include hsize

theorem toNat_dagSize (K : KeccakFns) :
    (dagArgs K height).dagSize.toNat = getFullSize (blockNumber height) / MIX_BYTES := by
  rw [dagArgs, BitVec.toNat_ofNat, MIX_BYTES]
  omega

theorem consistent_dagArgs (K : KeccakFns) : (dagArgs K height).Consistent where
  lightSize := rfl
  isolate := show (~~~0 : Word) ≠ 0 by decide
  dagGenItems := by
    rw [toNat_dagSize hsize, dagArgs, BitVec.toNat_ofNat, MIX_BYTES]
    omega
  dagSize := by
    rw [toNat_dagSize hsize, MIX_BYTES]
    omega

theorem generateDag_eq (K : KeccakFns) (options : LocalWork) :
    ∃ fuel, generateDag K height options (fun _ => false) fuel =
      some (dagArgs K height, dagLaunches (getFullSize (blockNumber height) / MIX_BYTES * 2)
        ((options.localWorkSize + 7) / 8 * 8)) := by
  have hrange := options.range
  obtain ⟨items, hitems⟩ : ∃ items, items = getFullSize (blockNumber height) / MIX_BYTES := ⟨_, rfl⟩
  have hlt : items < 2 ^ 30 := by
    rw [hitems, MIX_BYTES]
    omega
  have hcache := getCacheSize_lt_of_getFullSize_lt hsize
  have hrows := size_cache K hcache
  have hdouble : uint32 ((items : Int) * 2) = some (items * 2) :=
    uint32_natCast (x := items * 2) (by omega)
  obtain ⟨wg, hwg⟩ : ∃ wg, wg = (options.localWorkSize + 7) / 8 * 8 := ⟨_, rfl⟩
  have hlaunches : enqueueDag ((items * 2 : Nat) : Int) wg (fun _ => false) (items * 2 / (10000 * wg) + 1) =
      some (dagLaunches (items * 2) wg) := enqueueDag_eq (by omega) (by omega) (by omega)
  rw [hwg] at hlaunches
  have hlight : (Cache.generate K (blockNumber height)).data.extract 0
      (getCacheSize (blockNumber height) / HASH_BYTES) = (Cache.generate K (blockNumber height)).data := by
    rw [← hrows, Array.extract_size]
  have hrows32 : uint32 ((Cache.generate K (blockNumber height)).data.size : Int) =
      some (Cache.generate K (blockNumber height)).data.size := by
    refine uint32_natCast ?_
    rw [hrows, HASH_BYTES]
    omega
  refine ⟨items * 2 / (10000 * ((options.localWorkSize + 7) / 8 * 8)) + 1, ?_⟩
  rw [generateDag, workgroupSize_eq]
  simp only [Option.bind_eq_bind]
  rw [Option.bind_some]
  have hcacheSize : (Cache.generate K (blockNumber height)).size = getCacheSize (blockNumber height) := rfl
  rw [← hitems, uint32_natCast (by omega), Option.bind_some, hdouble, Option.bind_some,
    int32_eq (by omega) (by omega), Option.bind_some, hrows32, Option.bind_some, hcacheSize,
    uint32_natCast hcache, Option.bind_some, hlaunches, Option.bind_some, hlight,
    BitVec.ofInt_natCast, dagArgs, ← hitems, Option.pure_def]

end

/-- What the launches of an initialisation have to do. -/
structure GeneratesDag (kernel : DagKernel) (height : BitVec 32) (args : DagArgs)
    (launches : List DagLaunch) : Prop where
  dagItems : args.dagSize.toNat = getFullSize (blockNumber height) / MIX_BYTES
  /-- `start + get_global_id(0)` does not overflow. -/
  fits : ∀ launch ∈ launches, launch.start + launch.globalSize ≤ 2 ^ 32
  inBounds : ∀ launch ∈ launches, ∃ stores, launch.stores kernel args = some stores ∧
    ∀ s ∈ stores, s.1.toNat < 2 * args.dagSize.toNat
  runs : ∀ before, ∃ after, RunsTo kernel args launches before after
  complete : ∀ before after, RunsTo kernel args launches before after →
    ∀ i, i.toNat < 2 * args.dagSize.toNat →
      after i = calcDatasetItem keccakTiny (Cache.generate keccakTiny (blockNumber height)).data i

theorem exists_runsTo {args : DagArgs} (kernel : DagKernel) (h : args.Consistent)
    (launches : List DagLaunch) (before : Word → Hash512) :
    ∃ after, RunsTo kernel args launches before after := by
  induction launches generalizing before with
  | nil => exact ⟨before, rfl⟩
  | cons launch launches ih =>
    obtain ⟨after, hafter⟩ := ih _
    exact ⟨after, _, _, stores_eq kernel h launch, settles_applyStores _ before, hafter⟩

/-- `init` generates the whole DAG of the CPU, with either kernel, and nothing overflows. -/
theorem generateDag_complete (kernel : DagKernel) (height : BitVec 32) (options : LocalWork)
    (hsize : getFullSize (blockNumber height) < 2 ^ 37) :
    ∃ fuel args launches,
      generateDag keccakTiny height options (fun _ => false) fuel = some (args, launches) ∧
      GeneratesDag kernel height args launches := by
  have hrange := options.range
  have hargs := consistent_dagArgs hsize keccakTiny
  have hdag := toNat_dagSize hsize keccakTiny
  obtain ⟨fuel, hgenerate⟩ := generateDag_eq hsize keccakTiny options
  have hcovers : Covers (dagLaunches (getFullSize (blockNumber height) / MIX_BYTES * 2)
      ((options.localWorkSize + 7) / 8 * 8)) (getFullSize (blockNumber height) / MIX_BYTES * 2) :=
    covers_dagLaunches (by omega) (by omega) (by rw [MIX_BYTES]; omega)
  refine ⟨fuel, _, _, hgenerate, hdag, hcovers.fits, ?_, ?_, ?_⟩
  · intro launch _
    exact ⟨_, stores_eq kernel hargs launch, fun s hs =>
      (eq_of_mem_stores hargs (stores_eq kernel hargs launch) hs).1⟩
  · intro before
    exact exists_runsTo kernel hargs _ before
  · intro before after hrun i hi
    have hcover := hcovers.covers i.toNat (by rw [← hdag]; omega)
    exact RunsTo.item hargs hrun hi (.inr hcover)

/-- The first dataset, with the smallest group size. -/
theorem generateDag_complete_first :
    getFullSize (blockNumber 1) < 2 ^ 37 ∧
    ∃ fuel args launches,
      generateDag keccakTiny 1 ⟨32, by decide⟩ (fun _ => false) fuel = some (args, launches) ∧
      GeneratesDag (.nrghash .rotate) 1 args launches := by
  have hsize : getFullSize (blockNumber 1) < 2 ^ 37 := by
    have hle := getFullSize_le (b := blockNumber 1) (by decide)
    have hepoch : blockNumber 1 / EPOCH_LENGTH = 0 := by decide
    rw [hepoch, DATASET_BYTES_INIT, DATASET_BYTES_GROWTH] at hle
    omega
  exact ⟨hsize, generateDag_complete _ _ _ hsize⟩

end Energiminer.OpenCL
