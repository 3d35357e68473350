import Energiminer.Devices.Mixing

/-!
# Nodes of the DAG on a device

A node is sixteen words, which the kernels also address as eight `uint2`s and as four `uint4`s. What
they have in common: `SHA3_512` puts the eight `uint2`s into a state, pads them and takes the first
eight lanes of the permuted state (`nodeOfState_eq`), and a parent is mixed in one `uint4` after the
other (`foldl_setUint4`). A kernel that does both computes the item of the CPU (`calcDatasetItem_of_steps`).
-/

namespace Energiminer.Devices
open Misc Misc.Keccak Misc.Lockstep Nrghash

/-- `qwords[k]`, `uint2s[k]`. -/
def qword (node : Hash512) (k : Nat) : Uint2 := ⟨cell node (2 * k), cell node (2 * k + 1)⟩

/-- `dqwords[x]`, `uint4s[x]`. -/
def uint4 (node : Hash512) (x : Nat) : Vector Word 4 := Vector.ofFn fun j => cell node (4 * x + j)

/-- `dqwords[x] = v`, `uint4s[x] = v`. -/
def setUint4 (node : Hash512) (x : Nat) (v : Vector Word 4) : Hash512 :=
  Vector.ofFn fun k => if k.val / 4 = x then cell v (k.val % 4) else cell node k

/-- `FNV_PRIME`. -/
def FNV_PRIME : Word := 0x01000193

/-- `fnv4` (`fnv.cuh:6-14`). -/
def fnv4 (x y : Vector Word 4) : Vector Word 4 := x.zipWith fnv y

/-- The state `SHA3_512` permutes. -/
def nodeBlock (node : Hash512) : Lanes Uint2 :=
  .ofFn fun k => if k < 8 then qword node k else if k = 8 then ⟨1, 0x80000000⟩ else .zero

/-- The first eight lanes of a state as a node. -/
def nodeOfState (st : Lanes Uint2) : Hash512 := Vector.ofFn fun k => stateWord st k

/-! ## `SHA3_512` -/

theorem map_nodeBlock (node : Hash512) :
    (nodeBlock node).map Uint2.asUlong =
      filledLanes 8 fun k => laneOfHalves (cell node (2 * k)) (cell node (2 * k + 1)) := by
  refine Lanes.ofFn_congr fun k hk => ?_
  rw [nodeBlock, Lanes.get_ofFn _ k hk]
  by_cases h8 : k < 8
  · rw [if_pos h8, if_pos h8]
    rfl
  · rw [if_neg h8, if_neg h8]
    split <;> decide

theorem nodeOfState_eq_seedWords (st : Lanes Uint2) :
    nodeOfState st = seedWords (st.map Uint2.asUlong) := by
  refine ext_cell fun k hk => ?_
  rw [nodeOfState, cell_ofFn _ hk, cell_seedWords_map _ _ hk]

/-- A state whose first eight lanes are those of the permuted block holds the hash of the node. -/
theorem nodeOfState_eq (node : Hash512) {st : Lanes Uint2}
    (h : ∀ k < 8, (st.get k).asUlong = (keccakf ((nodeBlock node).map Uint2.asUlong)).get k) :
    nodeOfState st = sha3Words512 keccakTiny (serialize node) := by
  rw [sha3Words512_serialize, ← map_nodeBlock, nodeOfState_eq_seedWords]
  refine seedWords_congr fun k hk => ?_
  rw [Lanes.get_map, h k hk]

/-! ## Parents -/

theorem cell_uint4 (node : Hash512) (x j : Nat) (hj : j < 4) :
    cell (uint4 node x) j = cell node (4 * x + j) :=
  cell_ofFn _ hj

theorem cell_setUint4 (node : Hash512) (x : Nat) (v : Vector Word 4) (k : Nat) (hk : k < 16) :
    cell (setUint4 node x v) k = if k / 4 = x then cell v (k % 4) else cell node k :=
  cell_ofFn _ hk

/-- Mixing in a parent one `uint4` after the other mixes in all of it. -/
theorem foldl_setUint4 (node parent : Hash512) :
    (List.range 4).foldl
      (fun node x => setUint4 node x (fnv4 (uint4 node x) (uint4 parent x))) node =
        node.zipWith fnv parent := by
  refine ext_cell fun k hk => ?_
  -- After `c` of them the first `4 * c` words are done.
  have hcount : ∀ c, cell ((List.range c).foldl
      (fun node x => setUint4 node x (fnv4 (uint4 node x) (uint4 parent x))) node) k =
        if k / 4 < c then fnv (cell node k) (cell parent k) else cell node k := by
    intro c
    induction c with
    | zero => rfl
    | succ c ih =>
      rw [List.range_succ, List.foldl_append, List.foldl_cons, List.foldl_nil, cell_setUint4 _ _ _ _ hk]
      by_cases hc : k / 4 = c
      · have hpos : 4 * c + k % 4 = k := by omega
        rw [if_pos hc, if_pos (by omega), fnv4, cell_zipWith _ _ _ (Nat.mod_lt _ (by decide)),
          cell_uint4 _ _ _ (Nat.mod_lt _ (by decide)), cell_uint4 _ _ _ (Nat.mod_lt _ (by decide)), hpos,
          ih, if_neg (by omega)]
      · rw [if_neg hc, ih]
        by_cases hlt : k / 4 < c
        · rw [if_pos hlt, if_pos (by omega)]
        · rw [if_neg hlt, if_neg (by omega)]
  rw [hcount 4, if_pos (by omega), cell_zipWith _ _ _ hk]

/-! ## Items -/

/-- Row `index % light_size` of the cache on the device. -/
def lightRow (light : Array Hash512) (lightSize index : Word) : Hash512 :=
  light.getD (index % lightSize).toNat default

theorem lightRow_eq (light : Array Hash512) (index : Word) :
    lightRow light (BitVec.ofNat 32 light.size) index =
      light.getD (index.toNat % u32 light.size) default := by
  rw [lightRow, BitVec.toNat_umod, BitVec.toNat_ofNat, u32]

/-- Two hashes around the mixing of the parents compute the item of the CPU. -/
theorem calcDatasetItem_of_steps {light : Array Hash512} {i : Word} {sha : Hash512 → Hash512}
    {mixParent : Hash512 → Nat → Hash512}
    (hsha : ∀ node, sha node = sha3Words512 keccakTiny (serialize node))
    (hparent : ∀ node j, mixParent node j = node.zipWith fnv
      (lightRow light (BitVec.ofNat 32 light.size)
        (fnv (i ^^^ BitVec.ofNat 32 j) (cell node (j % 16))))) :
    let row := lightRow light (BitVec.ofNat 32 light.size) i
    sha ((List.range DATASET_PARENTS).foldl mixParent (sha (writeCell row 0 (cell row 0 ^^^ i)))) =
      calcDatasetItem keccakTiny light i := by
  have hstep : mixParent = datasetParentStep light (u32 light.size) i := by
    funext node j
    rw [hparent, lightRow_eq, datasetParentStep]
  simp only [hstep, hsha, lightRow_eq, calcDatasetItem]

end Energiminer.Devices
