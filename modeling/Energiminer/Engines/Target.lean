import Energiminer.Nrghash.Hashimoto
import Energiminer.Primitives.ArithUint256

/-!
# From a hash to a submitted nonce

Where an engine decides about a nonce. A kernel compares the head of the hash with the upper 64
bits of the target and reports the nonces it lets through (`nrghash.cl:391`,
`old_nrghash.cl:390`, `dagger_shuffled.cuh:89`); the host hashes a reported nonce again and
compares the whole value (`CLMiner.cpp:421-435`, `CUDAMiner.cpp:504-520`). `CpuMiner`
(`CpuMiner.cpp:51-68`) has only the comparison of the whole value.

The hash of a nonce is a parameter here (`GetPOWHash` of the current work with that nonce).
-/

namespace Energiminer.Engines
open Misc Primitives

/-- `upper64OfBoundary`: the `uint64_t` at `(hashTarget >> 192).data()`. -/
def upper64OfBoundary (hashTarget : ArithUint256) : BitVec 64 :=
  (hashTarget.shiftRight 192).dataUint64

/-- `search` (`nrghash.cl:391`): the item reports its id if the word is below the
target. -/
def clReports (word target : BitVec 64) : Bool := decide (word < target)

/-- `search` (`old_nrghash.cl:390`): the item returns if the word is above the
target, and reports its id otherwise. -/
def oldClReports (word target : BitVec 64) : Bool := if word > target then false else true

/-- The result of `compute_hash` (`dagger_shuffled.cuh:89`): whether the word is above the target. -/
def cudaComputeHash (word target : BitVec 64) : Bool := if word > target then true else false

/-- `ethash_search` (`ethash_cuda_miner_kernel.cu:18-46`): `if (compute_hash(…)) return;`, and
report the id otherwise. -/
def cudaReports (word target : BitVec 64) : Bool :=
  if cudaComputeHash word target then false else true

/-- The test of the GPU hosts on a reported nonce. -/
def gpuAccepts (powHash : Uint256) (hashTarget : ArithUint256) : Bool :=
  (ArithUint256.ofUint256 powHash).le hashTarget

/-- The test of `CpuMiner::trun` (`CpuMiner.cpp:53`). -/
def cpuAccepts (hash : Uint256) (hashTarget : ArithUint256) : Bool :=
  (ArithUint256.ofUint256 hash).lt hashTarget

section
variable (getPOWHash : BitVec 64 → Uint256) (hashTarget : ArithUint256)

/-- The loop of a GPU host over the results of a batch: the nonces passed to `submitProof`, in
order. `polls` are the values of `haveNewWork()` before the iterations; the loop ends at the
first that is true. -/
def reportResults (nonceBase : BitVec 64) : List (BitVec 32) → List Bool → List (BitVec 64)
  | gid :: gids, false :: polls =>
    let nonce := nonceBase + gid.setWidth 64
    if gpuAccepts (getPOWHash nonce) hashTarget then
      nonce :: reportResults nonceBase gids polls
    else reportResults nonceBase gids polls
  | _, _ => []

/-- The `do … while` loop of `CpuMiner::trun` from a nonce (`CpuMiner.cpp:51-68`): the nonce passed
to `submitProof`, if one is found before the loop is told to stop, which is after `rest` more
iterations. -/
def cpuSearch : (rest : Nat) → (nonce : BitVec 64) → Option (BitVec 64)
  | rest, nonce =>
    if cpuAccepts (getPOWHash nonce) hashTarget then some nonce
    else
      match rest with
      | 0 => none
      | rest + 1 => cpuSearch rest (nonce + 1)

end

end Energiminer.Engines
