import Energiminer.Cuda.Keccak

/-!
# The CUDA hash

`compute_hash` of `libnrghash-cuda/dagger_shuffled.cuh` on the eight threads of a group. The
threads exchange values by shuffles of width 8 and work on `_PARALLEL_HASH` hashes at a time;
the iterations of the loops over `p` touch only the elements `p` of the arrays, which are kept
here as one `SharedHash` for each `p`, with the values of the eight threads in it.
-/

namespace Energiminer.Cuda
open Misc Misc.Keccak Nrghash Devices

/-- `THREADS_PER_HASH`. -/
def THREADS_PER_HASH : Nat := 8

/-- A variable of the eight threads. -/
abbrev PerThread (α : Type) := Vector α 8

/-- `__shfl_sync(0xFFFFFFFF, var, srcLane, 8)`, the same for every thread of the group. -/
def shflSync {α : Type} [Inhabited α] (var : PerThread α) (srcLane : Nat) : α :=
  cell var (srcLane % 8)

/-- The constants of the device. -/
structure DeviceConstants where
  header : H256
  page : Word → Mix
  dagSize : Word

/-- `mix[p]` and `init0[p]` of the eight threads. -/
structure SharedHash where
  mix : PerThread (Vector Word 4)
  init0 : PerThread Word

/-- `vectorize2`. -/
def vectorize2 (x y : Uint2) : Vector Word 4 := #v[x.x, x.y, y.x, y.y]

/-- `bfe(x, bit, numBits)`. -/
def bfe (x bit numBits : Nat) : Nat := x / 2 ^ bit % 2 ^ numBits

section
variable (dev : DeviceConstants)

/-- Share the seed of thread `src = i + p` among the threads. -/
def shareInit (state : PerThread (Vector Uint2 12)) (src : Nat) : SharedHash :=
  let shuffle : Vector Uint2 8 := Vector.ofFn fun j =>
    ⟨shflSync (state.map fun st => (cell st j).x) src, shflSync (state.map fun st => (cell st j).y) src⟩
  { mix := Vector.ofFn fun threadId =>
      match threadId.val % 4 with
      | 0 => vectorize2 (cell shuffle 0) (cell shuffle 1)
      | 1 => vectorize2 (cell shuffle 2) (cell shuffle 3)
      | 2 => vectorize2 (cell shuffle 4) (cell shuffle 5)
      | _ => vectorize2 (cell shuffle 6) (cell shuffle 7)
    init0 := Vector.ofFn fun _ => shflSync (Vector.replicate 8 (cell shuffle 0).x) 0 }

/-- The body of the loops over `a` and `b` for one `p`. -/
def accessStep (a b : Nat) (h : SharedHash) : SharedHash :=
  let t := bfe a 2 3
  let offset : PerThread Word := Vector.ofFn fun threadId =>
    fnv (h.init0.get threadId ^^^ BitVec.ofNat 32 (a + b)) (cell (h.mix.get threadId) b) %
      dev.dagSize
  let offset := shflSync offset t
  { h with
    mix := Vector.ofFn fun threadId =>
      (h.mix.get threadId).zipWith fnv (slice 4 (dev.page offset) threadId) }

/-- The loop over the accesses, `a` in steps of four. -/
def accessLoop {parallelHash : Nat} (hs : Vector SharedHash parallelHash) :
    Vector SharedHash parallelHash :=
  (List.range (ACCESSES / 4)).foldl (fun hs a4 =>
    (List.range 4).foldl (fun hs b => hs.map (accessStep dev (4 * a4) b)) hs) hs

/-- Move the compressed mix into the state of thread `src = i + p`. -/
def collectMix (state : PerThread (Vector Uint2 12)) (src : Nat) (h : SharedHash) :
    PerThread (Vector Uint2 12) :=
  let threadMix : PerThread Word := h.mix.map fun m => fnvReduce fun k => cell m (4 * 0 + k)
  Vector.ofFn fun threadId =>
    if src = threadId.val then
      let st := state.get threadId
      let st := writeCell st 8 ⟨shflSync threadMix 0, shflSync threadMix 1⟩
      let st := writeCell st 9 ⟨shflSync threadMix 2, shflSync threadMix 3⟩
      let st := writeCell st 10 ⟨shflSync threadMix 4, shflSync threadMix 5⟩
      writeCell st 11 ⟨shflSync threadMix 6, shflSync threadMix 7⟩
    else state.get threadId

/-- One iteration of the loop over `i`. -/
def batch (parallelHash : Nat) (state : PerThread (Vector Uint2 12)) (i : Nat) :
    PerThread (Vector Uint2 12) :=
  let hs : Vector SharedHash parallelHash := Vector.ofFn fun p => shareInit state (i + p)
  let hs := accessLoop dev hs
  (List.finRange parallelHash).foldl (fun state (p : Fin parallelHash) =>
    collectMix state (i + p.val) (hs.get p)) state

/-- The two halves exchanged and the bytes of each reversed (`cuda_helper.h:177-188`), with
`__byte_perm(x, 0, 0x0123)` on a half. -/
def cudaSwab64 (x : Word64) : Word64 :=
  let t := Uint2.ofUlong x
  laneOfHalves (swab 4 t.y) (swab 4 t.x)

/-- `compute_hash` (`dagger_shuffled.cuh:5-98`): for each thread, the word that is compared with
`target`. -/
def computeHash (arch : Arch) (parallelHash : Nat) (nonces : PerThread (BitVec 64)) :
    PerThread Word64 :=
  let state : PerThread (Vector Uint2 12) :=
    nonces.map fun nonce => keccakF1600Init arch dev.header (.ofUlong nonce)
  let state := (List.range (THREADS_PER_HASH / parallelHash)).foldl
    (fun state k => batch dev parallelHash state (parallelHash * k)) state
  state.map fun st => cudaSwab64 (keccakF1600Final arch st)

end

end Energiminer.Cuda
