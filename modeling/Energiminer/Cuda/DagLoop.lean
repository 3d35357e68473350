import Mathlib.Data.Nat.Count
import Energiminer.Misc.ForLoop
import Energiminer.Nrghash.Dataset

/-!
# The launches of the CUDA DAG generation

The loop of `CUDAMiner::cuda_init` (`CUDAMiner.cpp:391-411`) that starts `ethash_calculate_dag_item`
for one range of nodes after another, with the sizes of a launch as the command line gives them
(`MinerAux.cpp:137-145`, `CUDAMiner.cpp:220-221`). All its variables are `uint32_t`. A thread of a
launch works on the node `start + blockIdx.x * blockDim.x + threadIdx.x`, which is a `uint32_t` as well
(`ethash_cuda_miner_kernel.cu:75`).
-/

namespace Energiminer.Cuda
open Misc Nrghash

/-- `--cuda-grid-size` (`MinerAux.cpp:137-145`) and `--cuda-block-size`, checked by `CLI::Range(1,
999999999)`. -/
structure LaunchOptions where
  cudaGridSize : Nat
  cudaBlockSize : Nat
  grid_range : 1 ≤ cudaGridSize ∧ cudaGridSize ≤ 999999999
  block_range : 1 ≤ cudaBlockSize ∧ cudaBlockSize ≤ 999999999

namespace LaunchOptions
variable (options : LaunchOptions)

/-- `s_gridSize`. -/
def gridSize : BitVec 32 := BitVec.ofNat 32 options.cudaGridSize

/-- `s_blockSize` (`CUDAMiner.cpp:220`): `((_blockSize + 7) / 8) * 8`. -/
def blockSize : BitVec 32 := (BitVec.ofNat 32 options.cudaBlockSize + 7) / 8 * 8

end LaunchOptions

/-- A call of `ethash_generate_dag_part` (`ethash_cuda_miner_kernel.cu:144-153`). -/
structure DagPart where
  base : BitVec 32
  gridSize : BitVec 32
  blockSize : BitVec 32

/-- The number of threads of a launch. -/
def DagPart.threads (part : DagPart) : Nat := part.gridSize.toNat * part.blockSize.toNat

/-- The launches of the `for` statement, and the one of the `if` statement after it. -/
structure DagParts where
  full : List DagPart
  last : Option DagPart

/-- The DAG loop of `cuda_init` (`CUDAMiner.cpp:391-411`). The answer of `shouldStop` in iteration
`k` is at index `k`, the one after the loop at the next index. -/
def generateDagParts (gridSize blockSize : BitVec 32) (dagSize : Nat) (shouldStop : Nat → Bool)
    (fuel : Nat) : Option DagParts :=
  let work := BitVec.ofNat 32 (dagSize / HASH_BYTES)
  let batch := gridSize * blockSize
  (forLoop (fun base => decide (base ≤ work - batch)) (fun base => some (base + batch)) shouldStop
    fuel 0 0).map fun r =>
      { full := r.1.map fun base => ⟨base, gridSize, blockSize⟩
        last :=
          if r.2 < work ∧ shouldStop (r.1.length + 1) = false then
            some ⟨r.2, (work - r.2 + blockSize - 1) / blockSize, blockSize⟩
          else none }

/-- How many threads of a launch work on node `i`. -/
def DagPart.hits (part : DagPart) (i : Nat) : Nat :=
  Nat.count (fun t => (part.base.toNat + t) % 2 ^ 32 = i) part.threads

/-- The same without the threads that fill up the last block beyond the nodes there are. -/
def DagPart.hitsWithin (part : DagPart) (nodes i : Nat) : Nat :=
  Nat.count (fun t => part.base.toNat + t < nodes ∧ (part.base.toNat + t) % 2 ^ 32 = i) part.threads

/-- Every node is worked on exactly once, up to the rounding of the last launch. -/
def DagParts.CoverOnce (parts : DagParts) (nodes : Nat) : Prop :=
  ∀ i < nodes, (parts.full.map (·.hits i)).sum + parts.last.elim 0 (·.hitsWithin nodes i) = 1

end Energiminer.Cuda
