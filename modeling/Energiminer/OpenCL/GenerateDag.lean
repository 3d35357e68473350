import Energiminer.Devices.DagNode
import Energiminer.Misc.ForLoop
import Energiminer.Misc.Stores
import Energiminer.OpenCL.OldNrghash

/-!
# The generation of the DAG by OpenCL

`GenerateDAG` of `nrghash.cl:415-463` and of `old_nrghash.cl:397-427`, and the part of `CLMiner::init`
that launches it (`CLMiner.cpp:672-681`, `867-891`) with a work-group size from the command line
(`MinerAux.cpp:126-129`, `CLMiner.cpp:543-544`). Every arithmetic operation and every conversion of the
host is checked: where its result is not a value of its type, there is no result. Work-items that run
at the same time store in an unknown order, and a launch is finished before the next one is enqueued.
-/

namespace Energiminer.OpenCL
open Misc Misc.Keccak Nrghash Devices

/-! ## Checked arithmetic -/

/-- A value of type `unsigned` or `uint32_t`. -/
def uint32 (x : Int) : Option Nat := if 0 ≤ x ∧ x < 2 ^ 32 then some x.toNat else none

/-- A value of type `int`. -/
def int32 (x : Int) : Option Int := if -2 ^ 31 ≤ x ∧ x < 2 ^ 31 then some x else none

/-! ## The kernels -/

/-- The arguments of a kernel, and the constants it is compiled with. -/
structure DagArgs where
  /-- argument 1, the light cache -/
  light : Array Hash512
  /-- argument 3, and `LIGHT_SIZE` -/
  lightSize : Word
  /-- argument 4 -/
  isolate : Word
  /-- `DAG_GEN_ITEMS` -/
  dagGenItems : Word
  /-- `DAG_SIZE` -/
  dagSize : Word

/-- What a work-item does: it stores a node, or nothing; `none` if it does not end. -/
abbrev ItemResult := Option (Option (Word × Hash512))

section
variable (build : RotlBuild) (args : DagArgs)

/-- `SHA3_512` (`nrghash.cl:415-431`). -/
def sha3_512 (node : Hash512) : Hash512 :=
  nodeOfState (keccakProcess build args.isolate 8 (nodeBlock node))

/-- One pass of the loop over the four `uint4`s of a node. -/
def mixUint4 (parent node : Hash512) (x : Nat) : Hash512 :=
  if args.isolate ≠ 0 then
    let node := setUint4 node x ((uint4 node x).map (· * FNV_PRIME))
    setUint4 node x ((uint4 node x).zipWith (· ^^^ ·) (uint4 parent x))
  else node

/-- One pass of the loop over the parents. -/
def mixParent (nodeIdx : Word) (node : Hash512) (i : Nat) : Hash512 :=
  let parent := lightRow args.light args.lightSize
    (fnv (nodeIdx ^^^ BitVec.ofNat 32 i) (cell node (i % 16)))
  (List.range 4).foldl (mixUint4 args parent) node

/-- `GenerateDAG` (`nrghash.cl:433-463`). -/
def generateDAG (start globalId : Nat) : ItemResult :=
  let nodeIdx := BitVec.ofNat 32 (start + globalId)
  if nodeIdx ≥ args.dagGenItems then some none
  else
    let node := lightRow args.light args.lightSize nodeIdx
    let node := writeCell node 0 (cell node 0 ^^^ nodeIdx)
    let node := sha3_512 build args node
    let node := (List.range 256).foldl (mixParent args nodeIdx) node
    some (some (nodeIdx, sha3_512 build args node))

end

namespace Old
section
variable (platform : Platform) (args : DagArgs)

/-- `SHA3_512` (`old_nrghash.cl:397-406`), in place on the first eight lanes of
a `hash200_t`. -/
def sha3_512 (node : Hash512) : Option Hash512 :=
  (keccakF1600NoAbsorb platform args.isolate (nodeBlock node)).map nodeOfState

/-- One pass of the loop over the parents. -/
def mixParent (nodeIndex : Word) (node : Hash512) (i : Nat) : Hash512 :=
  let parent := lightRow args.light args.lightSize
    (fnv (nodeIndex ^^^ BitVec.ofNat 32 i) (cell node (i % 16)))
  (List.range 4).foldl (fun node w => setUint4 node w (fnv4 (uint4 node w) (uint4 parent w))) node

/-- `GenerateDAG` (`old_nrghash.cl:408-427`). -/
def generateDAG (start globalId : Nat) : ItemResult :=
  let nodeIndex := BitVec.ofNat 32 (start + globalId)
  if nodeIndex ≥ args.dagSize * 2 then some none
  else do
    let node := lightRow args.light args.lightSize nodeIndex
    let node := writeCell node 0 (cell node 0 ^^^ nodeIndex)
    let node ← sha3_512 platform args node
    let node := (List.range 256).foldl (mixParent args nodeIndex) node
    let node ← sha3_512 platform args node
    pure (some (nodeIndex, node))

end
end Old

/-- The source `init` compiles, and how its rotations are built. -/
inductive DagKernel
  | nrghash (build : RotlBuild)
  | oldNrghash (platform : Old.Platform)

def DagKernel.generateDAG : DagKernel → DagArgs → Nat → Nat → ItemResult
  | .nrghash build => OpenCL.generateDAG build
  | .oldNrghash platform => Old.generateDAG platform

/-! ## The host -/

/-- `--cl-local-work` (`MinerAux.cpp:126-129`), checked by `CLI::Range(32, 99999)`. -/
structure LocalWork where
  localWorkSize : Nat
  range : 32 ≤ localWorkSize ∧ localWorkSize ≤ 99999

/-- `m_workgroupSize`: `((_localWorkSize + 7) / 8) * 8`. -/
def LocalWork.workgroupSize (options : LocalWork) : Option Nat := do
  let sum ← uint32 (options.localWorkSize + 7)
  uint32 ((sum / 8 * 8 : Nat) : Int)

/-- A call of `enqueueNDRangeKernel` for the DAG kernel. -/
structure DagLaunch where
  start : Nat
  globalSize : Nat
  localSize : Nat

/-- The launch for the nodes from `start` on, in whole groups. -/
def lastLaunch (dagGenItems start : Int) (workgroupSize : Nat) : Option DagLaunch := do
  let groupsLeft ← uint32 (← int32 (dagGenItems - start))
  let groupsLeft ← uint32 (groupsLeft + workgroupSize)
  let groupsLeft ← uint32 (groupsLeft - 1)
  let size ← uint32 ((groupsLeft / workgroupSize * workgroupSize : Nat) : Int)
  pure ⟨start.toNat, size, workgroupSize⟩

/-- The loop over whole chunks and the launch for the rest (`CLMiner.cpp:867-891`). The answer of
`shouldStop` in iteration `k` is at index `k`, the one after the loop at the next index. -/
def enqueueDag (dagGenItems : Int) (workgroupSize : Nat) (shouldStop : Nat → Bool) (fuel : Nat) :
    Option (List DagLaunch) := do
  let chunk ← int32 (← uint32 (10000 * workgroupSize))
  let bound ← int32 (dagGenItems - chunk)
  let loop ← forLoop (fun start => decide (start ≤ bound)) (fun start => int32 (start + chunk))
    shouldStop fuel 0 0
  let launches := loop.1.map fun start => ⟨start.toNat, chunk.toNat, workgroupSize⟩
  if loop.2 < dagGenItems ∧ shouldStop (loop.1.length + 1) = false then
    let last ← lastLaunch dagGenItems loop.2 workgroupSize
    pure (launches ++ [last])
  else pure launches

/-- The block number of a height, which `init` takes as an `int`. -/
abbrev blockNumber (height : BitVec 32) : Nat := (height.signExtend 64).toNat

/-- The sizes `init` takes from a height, and its launches (`CLMiner.cpp:675-681`). The buffer of
the cache gets the first `lightSize` bytes of the cache. -/
def generateDag (K : KeccakFns) (height : BitVec 32) (options : LocalWork) (shouldStop : Nat → Bool)
    (fuel : Nat) : Option (DagArgs × List DagLaunch) := do
  let workgroupSize ← options.workgroupSize
  let cache := Cache.generate K (blockNumber height)
  let dagItems ← uint32 ((getFullSize (blockNumber height) / MIX_BYTES : Nat) : Int)
  let dagGenItems ← int32 (← uint32 (dagItems * 2))
  let lightSize64 ← uint32 cache.data.size
  let lightSize ← uint32 cache.size
  let launches ← enqueueDag dagGenItems workgroupSize shouldStop fuel
  pure ({ light := cache.data.extract 0 (lightSize / HASH_BYTES)
          lightSize := BitVec.ofNat 32 lightSize64
          isolate := ~~~0
          dagGenItems := BitVec.ofInt 32 dagGenItems
          dagSize := BitVec.ofNat 32 dagItems }, launches)

/-! ## Runs -/

/-- The stores of a launch, if all its work-items end. -/
def DagLaunch.stores (launch : DagLaunch) (kernel : DagKernel) (args : DagArgs) :
    Option (List (Word × Hash512)) :=
  ((List.range launch.globalSize).mapM (kernel.generateDAG args launch.start)).map List.reduceOption

/-- Launches that run one after the other turn the memory `before` into `after`. -/
def RunsTo (kernel : DagKernel) (args : DagArgs) :
    List DagLaunch → (Word → Hash512) → (Word → Hash512) → Prop
  | [], before, after => after = before
  | launch :: launches, before, after => ∃ stores mid,
    launch.stores kernel args = some stores ∧ Settles stores before mid ∧
      RunsTo kernel args launches mid after

end Energiminer.OpenCL
