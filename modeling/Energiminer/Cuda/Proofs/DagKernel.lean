import Mathlib.Data.List.ProdSigma
import Energiminer.Cuda.DagKernel
import Energiminer.Cuda.Proofs.Keccak

/-!
# The CUDA DAG kernel computes the items of the CPU

Lane by lane: of the four parents the group fetches, a lane mixes in its own, and it takes the words of
the row from the lanes that have read them (`get_fetchParent`). The lanes of a group have consecutive
nodes from a multiple of four on, so they return together, and the last nodes are kept out by the guard
of the store. The guard compares with `d_dag_size * 2` in 32 bits.
-/

namespace Energiminer.Cuda
open Misc Misc.Keccak Misc.Lockstep Nrghash Devices

theorem sha3_512_eq (arch : Arch) (node : Hash512) :
    sha3_512 arch node = sha3Words512 keccakTiny (serialize node) := by
  refine nodeOfState_eq node fun k hk => ?_
  rw [get_initLastRound _ _ _ hk, ← map_permute arch, Lanes.get_map, permute, middleRounds,
    List.range_succ_eq_map, List.foldl_cons, List.foldl_map]

/-! ## Parents -/

section
variable {arch : Arch} {dev : DagConstants}

theorem shflUint4_uint4 (row : Hash512) {w : Nat} (hw : w < 4) :
    shflUint4 (Vector.ofFn fun threadId : Fin 4 => uint4 row threadId) w = uint4 row w := by
  refine ext_cell fun j hj => ?_
  rw [shflUint4, cell_ofFn _ hj, shflSync4, Nat.mod_eq_of_lt hw, cell_eq_getElem _ hw,
    Vector.getElem_map, Vector.getElem_ofFn]

/-- In pass `t` lane `t` mixes in its parent, and the others do nothing. -/
theorem get_fetchParent (parentIndex : PerLane Word) (nodes : PerLane Hash512) {t : Nat} (ht : t < 4)
    (l : Fin 4) :
    (fetchParent dev parentIndex nodes t).get l =
      if t = l.val then
        (nodes.get l).zipWith fnv (dev.light.getD (parentIndex.get l).toNat default)
      else nodes.get l := by
  rw [fetchParent, shflSync4, Nat.mod_eq_of_lt ht]
  by_cases htl : t = l.val
  · rw [if_pos htl, ← foldl_setUint4]
    have hindex : cell parentIndex t = parentIndex.get l := by
      subst htl
      exact cell_eq_getElem _ l.isLt
    refine foldl_rel (R := fun (nodes : PerLane Hash512) node => nodes.get l = node) _ rfl ?_
    intro w hw nodes node hnode
    rw [get_vectorOfFn, if_pos htl, shflUint4_uint4 _ (List.mem_range.mp hw), hnode, hindex]
  · rw [if_neg htl]
    refine List.foldlRecOn (motive := fun nodes' : PerLane Hash512 => nodes'.get l = nodes.get l)
      _ _ rfl fun nodes' h w _ => ?_
    rw [get_vectorOfFn, if_neg htl, h]

theorem get_mixParents (nodeIndex : PerLane Word) (nodes : PerLane Hash512) (i : Nat) (l : Fin 4) :
    (mixParents dev nodeIndex nodes i).get l = (nodes.get l).zipWith fnv
      (lightRow dev.light dev.lightSize
        (fnv (nodeIndex.get l ^^^ BitVec.ofNat 32 i) (cell (nodes.get l) (i % 16)))) := by
  obtain ⟨parentIndex, hparent⟩ : ∃ parentIndex : PerLane Word, parentIndex = Vector.ofFn fun l =>
      fnv (nodeIndex.get l ^^^ BitVec.ofNat 32 i) (cell (nodes.get l) (i % 16)) % dev.lightSize :=
    ⟨_, rfl⟩
  have hrow : lightRow dev.light dev.lightSize
      (fnv (nodeIndex.get l ^^^ BitVec.ofNat 32 i) (cell (nodes.get l) (i % 16))) =
        dev.light.getD (parentIndex.get l).toNat default := by
    rw [hparent, get_vectorOfFn, lightRow]
  -- After `c` passes the lanes below `c` have their parents.
  have hcount : ∀ c ≤ 4, ((List.range c).foldl (fetchParent dev parentIndex) nodes).get l =
      if l.val < c then (nodes.get l).zipWith fnv (dev.light.getD (parentIndex.get l).toNat default)
      else nodes.get l := by
    intro c
    induction c with
    | zero => exact fun _ => rfl
    | succ c ih =>
      intro hc
      rw [List.range_succ, List.foldl_append, List.foldl_cons, List.foldl_nil,
        get_fetchParent _ _ (by omega), ih (by omega)]
      by_cases hl : c = l.val
      · rw [if_pos hl, if_neg (by omega), if_pos (by omega)]
      · rw [if_neg hl]
        by_cases hlt : l.val < c
        · rw [if_pos hlt, if_pos (by omega)]
        · rw [if_neg hlt, if_neg (by omega)]
  rw [mixParents, ← hparent, hcount 4 (le_refl _), if_pos l.isLt, hrow]

theorem get_nodes (nodeIndex : PerLane Word) (l : Fin 4) :
    (((List.range 256).foldl (mixParents dev nodeIndex) (firstNodes arch dev nodeIndex)).map
      (sha3_512 arch)).get l = calcDatasetItem keccakTiny dev.light (nodeIndex.get l) := by
  obtain ⟨row, hrow⟩ : ∃ row, row = lightRow dev.light (BitVec.ofNat 32 dev.light.size) (nodeIndex.get l) :=
    ⟨_, rfl⟩
  have hfold : ((List.range 256).foldl (mixParents dev nodeIndex)
      (firstNodes arch dev nodeIndex)).get l = (List.range DATASET_PARENTS).foldl
        (fun node i => node.zipWith fnv (lightRow dev.light (BitVec.ofNat 32 dev.light.size)
          (fnv (nodeIndex.get l ^^^ BitVec.ofNat 32 i) (cell node (i % 16)))))
        (sha3_512 arch (writeCell row 0 (cell row 0 ^^^ nodeIndex.get l))) := by
    rw [DATASET_PARENTS]
    apply foldl_rel (R := fun (nodes : PerLane Hash512) node => nodes.get l = node)
    · rw [firstNodes, get_vectorMap, hrow, DagConstants.lightSize]
    · intro i _ nodes node hnode
      rw [get_mixParents, hnode, DagConstants.lightSize]
  rw [get_vectorMap, hfold, hrow, calcDatasetItem_of_steps (sha3_512_eq arch) (fun _ _ => rfl)]

/-! ## Stores -/

theorem shflUint4_nodes (nodes : PerLane Hash512) (w : Fin 4) (l : Fin 4) :
    shflUint4 (nodes.map fun n => uint4 n w) l = uint4 (nodes.get l) w := by
  refine ext_cell fun j hj => ?_
  rw [shflUint4, cell_ofFn _ hj, shflSync4, Nat.mod_eq_of_lt l.isLt, cell_eq_getElem _ l.isLt,
    Vector.getElem_map, Vector.getElem_map]
  rfl

theorem mem_storeNode {nodeIndex : PerLane Word} {nodes : PerLane Hash512}
    {s : Uint4Location × Vector Word 4} :
    s ∈ (List.range 4).flatMap (storeNode dev nodeIndex nodes) ↔
      ∃ l : Fin 4, nodeIndex.get l < dev.dagSize * 2 ∧ s.1.1 = nodeIndex.get l ∧
        s.2 = uint4 (nodes.get l) s.1.2 := by
  have hshfl : ∀ l : Fin 4, shflSync4 nodeIndex l = nodeIndex.get l := by
    intro l
    rw [shflSync4, Nat.mod_eq_of_lt l.isLt, cell_eq_getElem _ l.isLt]
    rfl
  rw [List.mem_flatMap]
  constructor
  · rintro ⟨t, ht, hs⟩
    obtain ⟨l, rfl⟩ : ∃ l : Fin 4, l.val = t := ⟨⟨t, List.mem_range.mp ht⟩, rfl⟩
    obtain ⟨threadId, -, hstore⟩ := List.mem_filterMap.mp hs
    rw [hshfl] at hstore
    split at hstore
    next hin =>
      cases hstore
      exact ⟨l, hin, rfl, by rw [get_vectorOfFn, shflUint4_nodes]⟩
    next => cases hstore
  · rintro ⟨l, hin, hnode, hvalue⟩
    refine ⟨l.val, List.mem_range.mpr l.isLt, List.mem_filterMap.mpr ⟨s.1.2, List.mem_finRange _, ?_⟩⟩
    rw [hshfl, if_pos hin, get_vectorOfFn, shflUint4_nodes, ← hvalue, ← hnode]

/-! ## Groups -/

/-- The lanes of a group work on the four nodes from a multiple of four on. -/
def Aligned (first : Word) (nodeIndex : PerLane Word) : Prop :=
  first.toNat % 4 = 0 ∧ ∀ l : Fin 4, (nodeIndex.get l).toNat = first.toNat + l.val

/-- What a group stores. -/
def groupStores (dev : DagConstants) (nodeIndex : PerLane Word) :
    List (Uint4Location × Vector Word 4) :=
  (List.range 4).flatMap (storeNode dev nodeIndex (nodeIndex.map (calcDatasetItem keccakTiny dev.light)))

theorem mem_groupStores {nodeIndex : PerLane Word} {s : Uint4Location × Vector Word 4} :
    s ∈ groupStores dev nodeIndex ↔
      ∃ l : Fin 4, nodeIndex.get l < dev.dagSize * 2 ∧ s.1.1 = nodeIndex.get l ∧
        s.2 = uint4 (calcDatasetItem keccakTiny dev.light (nodeIndex.get l)) s.1.2 := by
  simp only [groupStores, mem_storeNode, get_vectorMap]

/-- The lanes return together, and only if none of them has anything to store. -/
theorem calculateDagItem_eq {first : Word} {nodeIndex : PerLane Word} (h : Aligned first nodeIndex) :
    calculateDagItem arch dev nodeIndex = some (groupStores dev nodeIndex) := by
  obtain ⟨hfirst, hlanes⟩ := h
  have hreturns : (nodeIndex.map fun i => decide (i / 4 * 4 ≥ dev.dagSize * 2)) =
      Vector.replicate 4 (decide (dev.dagSize * 2 ≤ first)) := by
    refine Vector.ext fun l hl => ?_
    have hlane : (nodeIndex.get ⟨l, hl⟩ / 4 * 4) = first := by
      apply BitVec.eq_of_toNat_eq
      have hlt := first.isLt
      rw [BitVec.toNat_mul, BitVec.toNat_udiv, hlanes, show (4 : BitVec 32).toNat = 4 from rfl]
      dsimp only
      omega
    rw [Vector.getElem_map, Vector.getElem_replicate]
    exact congrArg (fun x => decide (dev.dagSize * 2 ≤ x)) hlane
  have hnodes : ((List.range 256).foldl (mixParents dev nodeIndex)
      (firstNodes arch dev nodeIndex)).map (sha3_512 arch) =
        nodeIndex.map (calcDatasetItem keccakTiny dev.light) := by
    refine Vector.ext fun l hl => ?_
    refine (get_nodes nodeIndex ⟨l, hl⟩).trans ?_
    rw [Vector.getElem_map]
    rfl
  rw [calculateDagItem, hreturns]
  by_cases hbeyond : dev.dagSize * 2 ≤ first
  · have hnone : groupStores dev nodeIndex = [] := by
      rw [List.eq_nil_iff_forall_not_mem]
      intro s hs
      obtain ⟨l, hin, -⟩ := mem_groupStores.mp hs
      rw [BitVec.le_def] at hbeyond
      rw [BitVec.lt_def, hlanes] at hin
      omega
    rw [decide_eq_true hbeyond, if_pos (by decide), hnone]
  · rw [decide_eq_false hbeyond, if_neg (by decide), if_neg (by decide)]
    dsimp only
    rw [hnodes, groupStores]

theorem aligned_groupIndices {start : Word} {blockDim : Nat} (hstart : start.toNat % 4 = 0)
    (hblock : blockDim % 4 = 0) (b g : Nat) :
    Aligned (start + BitVec.ofNat 32 (b * blockDim) + BitVec.ofNat 32 (4 * g))
      (groupIndices start blockDim b g) := by
  have hmul : b * blockDim % 4 = 0 := by
    rw [Nat.mul_mod, hblock, Nat.mul_zero, Nat.zero_mod]
  refine ⟨?_, fun l => ?_⟩
  · simp only [BitVec.toNat_add, BitVec.toNat_ofNat]
    omega
  · have hl := l.isLt
    rw [groupIndices, get_vectorOfFn]
    simp only [BitVec.toNat_add, BitVec.toNat_ofNat]
    omega

/-! ## Launches -/

section
variable {start : Word} {gridDim blockDim : Nat}

theorem launched_iff (hblock : blockDim % 4 = 0) {i : Word} :
    Launched start gridDim blockDim i ↔
      ∃ b < gridDim, ∃ g < blockDim / 4, ∃ l : Fin 4, (groupIndices start blockDim b g).get l = i := by
  constructor
  · rintro ⟨b, hb, thread, hthread, rfl⟩
    refine ⟨b, hb, thread / 4, by omega, ⟨thread % 4, Nat.mod_lt _ (by decide)⟩, ?_⟩
    rw [groupIndices, get_vectorOfFn, Nat.div_add_mod]
  · rintro ⟨b, hb, g, hg, l, rfl⟩
    refine ⟨b, hb, 4 * g + l, by omega, ?_⟩
    rw [groupIndices, get_vectorOfFn]

variable (hstart : start.toNat % 4 = 0) (hblock : blockDim % 4 = 0)
include hstart hblock

theorem dagLaunchStores_eq :
    dagLaunchStores arch dev start gridDim blockDim =
      some ((List.range gridDim ×ˢ List.range (blockDim / 4)).map fun bg =>
        groupStores dev (groupIndices start blockDim bg.1 bg.2)).flatten := by
  have hgroups : (fun bg : Nat × Nat =>
      calculateDagItem arch dev (groupIndices start blockDim bg.1 bg.2)) = fun bg =>
        some (groupStores dev (groupIndices start blockDim bg.1 bg.2)) :=
    funext fun bg => calculateDagItem_eq (aligned_groupIndices hstart hblock bg.1 bg.2)
  have hmapM : (List.range gridDim ×ˢ List.range (blockDim / 4)).mapM (fun bg =>
      some (groupStores dev (groupIndices start blockDim bg.1 bg.2))) = some
        ((List.range gridDim ×ˢ List.range (blockDim / 4)).map fun bg =>
          groupStores dev (groupIndices start blockDim bg.1 bg.2)) := List.mapM_pure
  rw [dagLaunchStores, hgroups, hmapM, Option.map_some]

/-- A launch stores the items of its nodes below the guard, and nothing else. -/
theorem mem_dagLaunchStores {stores : List (Uint4Location × Vector Word 4)}
    (hstores : dagLaunchStores arch dev start gridDim blockDim = some stores)
    {s : Uint4Location × Vector Word 4} :
    s ∈ stores ↔ Launched start gridDim blockDim s.1.1 ∧ s.1.1 < dev.dagSize * 2 ∧
      s.2 = uint4 (calcDatasetItem keccakTiny dev.light s.1.1) s.1.2 := by
  rw [dagLaunchStores_eq hstart hblock] at hstores
  cases hstores
  rw [launched_iff hblock, List.mem_flatten]
  constructor
  · rintro ⟨group, hgroup, hs⟩
    obtain ⟨⟨b, g⟩, hbg, rfl⟩ := List.mem_map.mp hgroup
    obtain ⟨hb, hg⟩ := List.mem_product.mp hbg
    obtain ⟨l, hin, hnode, hvalue⟩ := mem_groupStores.mp hs
    rw [← hnode] at hin hvalue
    exact ⟨⟨b, List.mem_range.mp hb, g, List.mem_range.mp hg, l, hnode.symm⟩, hin, hvalue⟩
  · rintro ⟨⟨b, hb, g, hg, l, hnode⟩, hin, hvalue⟩
    refine ⟨_, List.mem_map.mpr ⟨(b, g), List.mem_product.mpr
      ⟨List.mem_range.mpr hb, List.mem_range.mpr hg⟩, rfl⟩, mem_groupStores.mpr ⟨l, ?_⟩⟩
    rw [hnode]
    exact ⟨hin, rfl, hvalue⟩

end

/-- What a launch has to do: it stores no node at or beyond `2 * d_dag_size`, and whatever the order of
the stores, every node below that its threads work on is the item of the CPU. -/
def ComputesItems (arch : Arch) (dev : DagConstants) (start : Word) (gridDim blockDim : Nat) : Prop :=
  ∃ stores, dagLaunchStores arch dev start gridDim blockDim = some stores ∧
    (∀ s ∈ stores, s.1.1.toNat < 2 * dev.dagSize.toNat) ∧
    ∀ before after, Settles stores before after → ∀ i, Launched start gridDim blockDim i →
      i.toNat < 2 * dev.dagSize.toNat → nodeAt after i = calcDatasetItem keccakTiny dev.light i

theorem nodeAt_eq {mem : DagMemory} {i : Word} {node : Hash512}
    (h : ∀ x : Fin 4, mem (i, x) = uint4 node x) : nodeAt mem i = node := by
  refine ext_cell fun k hk => ?_
  rw [nodeAt, cell_ofFn _ hk, h, cell_uint4 _ _ _ (Nat.mod_lt _ (by decide))]
  congr 1
  exact Nat.div_add_mod k 4

theorem toNat_dagSize_mul_two (dev : DagConstants) :
    (dev.dagSize * 2).toNat = 2 * dev.dagSize.toNat % 2 ^ 32 := by
  rw [BitVec.toNat_mul, Nat.mul_comm]
  rfl

/-- A node at or beyond the guard is not stored to, so it keeps what was there before. -/
theorem not_computesItems_of_le {start : Word} {gridDim blockDim : Nat} (hstart : start.toNat % 4 = 0)
    (hblock : blockDim % 4 = 0) {i : Word} (hlaunched : Launched start gridDim blockDim i)
    (hi : i.toNat < 2 * dev.dagSize.toNat) (hge : 2 * dev.dagSize.toNat % 2 ^ 32 ≤ i.toNat) :
    ¬ ComputesItems arch dev start gridDim blockDim := by
  rintro ⟨stores, hsome, -, hitems⟩
  obtain ⟨item, hitem⟩ : ∃ item, item = calcDatasetItem keccakTiny dev.light i := ⟨_, rfl⟩
  obtain ⟨before, hbefore⟩ : ∃ before : DagMemory,
      before = fun _ => Vector.replicate 4 (cell item 0 + 1) := ⟨_, rfl⟩
  have hsettles := settles_applyStores stores before
  have hkeep : applyStores stores before (i, 0) = before (i, 0) := by
    refine hsettles.eq_of_untouched fun v hv => ?_
    have hin := ((mem_dagLaunchStores hstart hblock hsome).mp hv).2.1
    rw [BitVec.lt_def, toNat_dagSize_mul_two] at hin
    exact Nat.not_lt.mpr hge hin
  have hnode := congrArg (fun node => cell node 0) (hitems _ _ hsettles i hlaunched hi)
  have hzero : cell (nodeAt (applyStores stores before) i) 0 = cell item 0 + 1 := by
    rw [nodeAt, cell_ofFn _ (by decide)]
    show cell (applyStores stores before (i, 0)) 0 = _
    rw [hkeep, hbefore]
    rfl
  have hne : cell item 0 + 1 ≠ cell item 0 := by
    intro h
    have := congrArg (· - cell item 0) h
    simp at this
  rw [← hitem] at hnode
  exact hne (hzero.symm.trans hnode)

theorem computesItems_of_lt {start : Word} {gridDim blockDim : Nat} (hstart : start.toNat % 4 = 0)
    (hblock : blockDim % 4 = 0)
    (hbelow : ∀ i, Launched start gridDim blockDim i → i.toNat < 2 * dev.dagSize.toNat →
      i.toNat < 2 * dev.dagSize.toNat % 2 ^ 32) :
    ComputesItems arch dev start gridDim blockDim := by
  obtain ⟨stores, hstores⟩ : ∃ stores, dagLaunchStores arch dev start gridDim blockDim = some stores :=
    ⟨_, dagLaunchStores_eq hstart hblock⟩
  refine ⟨stores, hstores, fun s hs => ?_, fun before after hsettles i hlaunched hi => ?_⟩
  · have hin := ((mem_dagLaunchStores hstart hblock hstores).mp hs).2.1
    rw [BitVec.lt_def, toNat_dagSize_mul_two] at hin
    omega
  · have hin : i < dev.dagSize * 2 := by
      rw [BitVec.lt_def, toNat_dagSize_mul_two]
      exact hbelow i hlaunched hi
    refine nodeAt_eq fun x => ?_
    refine hsettles.eq_of_agree ((mem_dagLaunchStores hstart hblock hstores).mpr
      ⟨hlaunched, hin, rfl⟩) fun w hw => ?_
    exact ((mem_dagLaunchStores hstart hblock hstores).mp hw).2.2

end

/-- The kernel computes its nodes if and only if `d_dag_size * 2` does not wrap around below one of
them. -/
theorem computesItems_iff (arch : Arch) (dev : DagConstants) (start : Word) (gridDim blockDim : Nat)
    (hstart : start.toNat % 4 = 0) (hblock : blockDim % 4 = 0) :
    ComputesItems arch dev start gridDim blockDim ↔
      ∀ i, Launched start gridDim blockDim i → i.toNat < 2 * dev.dagSize.toNat →
        i.toNat < 2 * dev.dagSize.toNat % 2 ^ 32 := by
  constructor
  · intro h i hlaunched hi
    by_contra hge
    exact not_computesItems_of_le hstart hblock hlaunched hi (Nat.le_of_not_lt hge) h
  · exact computesItems_of_lt hstart hblock

/-- A DAG of three pages: the last group of the launch is half filled. -/
theorem computesItems_iff_three_pages :
    ComputesItems .sm35 ⟨#[default], 3⟩ 0 1 8 ↔
      ∀ i, Launched 0 1 8 i → i.toNat < 2 * (3 : Word).toNat → i.toNat < 2 * (3 : Word).toNat % 2 ^ 32 :=
  computesItems_iff .sm35 ⟨#[default], 3⟩ 0 1 8 (by decide) (by decide)

/-- The constants for height 233704800, the first whose page count needs 32 bits. -/
def largeDag : DagConstants := ⟨(Cache.generate keccakTiny 233704800).data, 2147549161⟩

/-- `d_dag_size * 2` is 131026 in 32 bits, so node 131072 is not computed. -/
theorem skips_nodes_of_large_dag : ¬ ComputesItems .sm35 largeDag 131072 1 8 :=
  not_computesItems_of_le (by decide) (by decide) ⟨0, by decide, 0, by decide, rfl⟩
    (by rw [largeDag]; decide) (by rw [largeDag]; decide)

end Energiminer.Cuda
