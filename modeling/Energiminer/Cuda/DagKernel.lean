import Energiminer.Cuda.Keccak
import Energiminer.Devices.DagNode
import Energiminer.Misc.Stores

/-!
# The CUDA DAG kernel

`ethash_calculate_dag_item` (`ethash_cuda_miner_kernel.cu:72-114`) with `SHA3_512`
(`keccak.cuh:601-784`). The threads of a block work in groups of four, which run in lockstep and
exchange values by shuffles of width 4. A group in which some lanes have returned and others shuffle
has no defined result. Each lane stores one `uint4` of each node of its group, and the lanes of
different groups store in an unknown order.
-/

namespace Energiminer.Cuda
open Misc Misc.Keccak Nrghash Devices

/-- `SHA3_512` (`keccak.cuh:601-784`): twenty-three rounds in full, and of the last one what is
needed. -/
def sha3_512 (arch : Arch) (node : Hash512) : Hash512 :=
  let s := (List.range 23).foldl (fun s i => roundFrom arch (columns s) s i) (nodeBlock node)
  nodeOfState (initLastRound arch s)

/-- A variable of the four lanes of a group. -/
abbrev PerLane (α : Type) := Vector α 4

/-- `__shfl_sync(0xFFFFFFFF, var, srcLane, 4)`, the same for every lane of the group. -/
def shflSync4 {α : Type} [Inhabited α] (var : PerLane α) (srcLane : Nat) : α := cell var (srcLane % 4)

/-- The four shuffles of the components of a `uint4`. -/
def shflUint4 (var : PerLane (Vector Word 4)) (srcLane : Nat) : Vector Word 4 :=
  Vector.ofFn fun j => shflSync4 (var.map fun v => cell v j) srcLane

/-- `d_light` and `d_dag_size`. -/
structure DagConstants where
  light : Array Hash512
  dagSize : Word

/-- `d_light_size`: `set_constants` gets `(unsigned)cache.data().size()`. -/
def DagConstants.lightSize (dev : DagConstants) : Word := BitVec.ofNat 32 dev.light.size

/-- The location of a `uint4` in the DAG: the node and its place in the node. -/
abbrev Uint4Location := Word × Fin 4

/-- What is in memory, by `uint4`s. -/
abbrev DagMemory := Uint4Location → Vector Word 4

/-- `dag_nodes[i]`. -/
def nodeAt (mem : DagMemory) (i : Word) : Hash512 :=
  Vector.ofFn fun k : Fin 16 => cell (mem (i, ⟨k.val / 4, by omega⟩)) (k.val % 4)

section
variable (arch : Arch) (dev : DagConstants)

/-- The copy from `d_light`, the exclusive or and the first `SHA3_512`. -/
def firstNodes (nodeIndex : PerLane Word) : PerLane Hash512 :=
  nodeIndex.map fun i =>
    let node := lightRow dev.light dev.lightSize i
    sha3_512 arch (writeCell node 0 (cell node 0 ^^^ i))

/-- One pass of the loop over `t`: the lanes fetch the parent of lane `t`, and that lane mixes it in. -/
def fetchParent (parentIndex : PerLane Word) (nodes : PerLane Hash512) (t : Nat) : PerLane Hash512 :=
  let shuffleIndex := shflSync4 parentIndex t
  let p4 : PerLane (Vector Word 4) :=
    Vector.ofFn fun threadId => uint4 (dev.light.getD shuffleIndex.toNat default) threadId
  (List.range 4).foldl (fun nodes w =>
    let s4 := shflUint4 p4 w
    Vector.ofFn fun threadId =>
      let node := nodes.get threadId
      if t = threadId.val then setUint4 node w (fnv4 (uint4 node w) s4) else node) nodes

/-- One pass of the loop over the parents. -/
def mixParents (nodeIndex : PerLane Word) (nodes : PerLane Hash512) (i : Nat) : PerLane Hash512 :=
  let parentIndex : PerLane Word := Vector.ofFn fun threadId =>
    fnv (nodeIndex.get threadId ^^^ BitVec.ofNat 32 i) (cell (nodes.get threadId) (i % 16)) %
      dev.lightSize
  (List.range 4).foldl (fetchParent dev parentIndex) nodes

/-- The stores of the last loop for one `t`, by the four lanes. -/
def storeNode (nodeIndex : PerLane Word) (nodes : PerLane Hash512) (t : Nat) :
    List (Uint4Location × Vector Word 4) :=
  let shuffleIndex := shflSync4 nodeIndex t
  (List.finRange 4).filterMap fun threadId =>
    let s : Vector (Vector Word 4) 4 := Vector.ofFn fun w => shflUint4 (nodes.map fun n => uint4 n w) t
    if shuffleIndex < dev.dagSize * 2 then some ((shuffleIndex, threadId), s.get threadId) else none

/-- `ethash_calculate_dag_item` (`ethash_cuda_miner_kernel.cu:72-114`) for one group: its stores, if
its lanes stay together. -/
def calculateDagItem (nodeIndex : PerLane Word) : Option (List (Uint4Location × Vector Word 4)) :=
  let returns := nodeIndex.map fun i => decide (i / 4 * 4 ≥ dev.dagSize * 2)
  if returns.toList.all id then some []
  else if returns.toList.any id then none
  else
    let nodes := firstNodes arch dev nodeIndex
    let nodes := (List.range 256).foldl (mixParents dev nodeIndex) nodes
    let nodes := nodes.map (sha3_512 arch)
    some ((List.range 4).flatMap (storeNode dev nodeIndex nodes))

/-- `node_index` of the threads of group `g` of block `b`. -/
def groupIndices (start : Word) (blockDim b g : Nat) : PerLane Word :=
  Vector.ofFn fun threadId => start + BitVec.ofNat 32 (b * blockDim) + BitVec.ofNat 32 (4 * g + threadId)

/-- The stores of a launch. -/
def dagLaunchStores (start : Word) (gridDim blockDim : Nat) :
    Option (List (Uint4Location × Vector Word 4)) :=
  ((List.range gridDim ×ˢ List.range (blockDim / 4)).mapM fun bg =>
    calculateDagItem arch dev (groupIndices start blockDim bg.1 bg.2)).map List.flatten

end

/-- A thread of the launch works on node `i`. -/
def Launched (start : Word) (gridDim blockDim : Nat) (i : Word) : Prop :=
  ∃ b < gridDim, ∃ thread < blockDim,
    start + BitVec.ofNat 32 (b * blockDim) + BitVec.ofNat 32 thread = i

end Energiminer.Cuda
