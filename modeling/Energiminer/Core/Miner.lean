import Energiminer.Nrghash.Hashimoto
import Energiminer.Primitives.BlockHeader

/-!
# The proof of work of a block header

`Miner::GetPOWHash` (`nrgcore/miner.cpp:80-94`) and the registry of light caches it draws
from (`get_cache_from_cache`, `nrghash.cpp:567-604`). The registry is read and extended one
call at a time.
-/

namespace Energiminer.Core
open Misc Nrghash Primitives

/-- `cache_cache_map`: the caches held, by epoch. -/
abbrev CacheCache := List (Nat × Cache)

/-- `get_cache_from_cache` (`nrghash.cpp:567-604`): the cache registered for the epoch, or a new
one, registered. -/
def getCacheFromCache (K : KeccakFns) (cacheCache : CacheCache) (blockNumber : Nat) :
    Cache × CacheCache :=
  let epochNumber := blockNumber / EPOCH_LENGTH
  match cacheCache.lookup epochNumber with
  | some cache => (cache, cacheCache)
  | none =>
    let impl := Cache.generate K blockNumber
    (impl, (epochNumber, impl) :: cacheCache)

/-- `cache_t::unload` (`nrghash.cpp:562-565`). -/
def unload (cacheCache : CacheCache) (epoch : Nat) : CacheCache :=
  cacheCache.filter fun entry => entry.1 ≠ epoch

/-- `h256_t(input_data, input_size)` (`nrghash.cpp:312-319`). -/
def h256Hash (K : KeccakFns) (inp : List Byte) : H256 :=
  Vector.ofFn fun i => (K.sha3_256 inp).getD i 0

/-- `Miner::GetPOWHash` (`miner.cpp:80-94`): the hash, and the header with its `hashMix` stored. -/
def getPOWHash (K : KeccakFns) (cacheCache : CacheCache) (activeDag : Option Dag)
    (header : BlockHeader) : Except Fault (Uint256 × BlockHeader) := do
  let headerHash := h256Hash K (truncatedLE header)
  let light := lightHash K (getCacheFromCache K cacheCache header.nHeight.toNat).1
    (headerNonce headerHash header.nNonce)
  let ret ← match activeDag with
    | some dag =>
      if header.nHeight.toNat / EPOCH_LENGTH = dag.epoch then
        fullHash K dag (headerNonce headerHash header.nNonce)
      else light
    | none => light
  pure (Uint256.ofH256 ret.value, { header with hashMix := Uint256.ofH256 ret.mixhash })

/-- The registries the program can hold: every entry was put there by `get_cache_from_cache`. -/
inductive CacheCacheReachable (K : KeccakFns) : CacheCache → Prop
  | empty : CacheCacheReachable K []
  | get (cacheCache : CacheCache) (blockNumber : Nat) : CacheCacheReachable K cacheCache →
      CacheCacheReachable K (getCacheFromCache K cacheCache blockNumber).2
  | unload (cacheCache : CacheCache) (epoch : Nat) : CacheCacheReachable K cacheCache →
      CacheCacheReachable K (unload cacheCache epoch)

/-- What `ActiveDAG()` may hold when a header of the given epoch is hashed: nothing, a dataset
of another epoch, or the dataset generated for a block of that epoch. -/
inductive ActiveFor (K : KeccakFns) (epoch : Nat) : Option Dag → Prop
  | none : ActiveFor K epoch none
  | other (dag : Dag) : dag.epoch ≠ epoch → ActiveFor K epoch (some dag)
  | generated (cacheCache : CacheCache) (blockNumber : Nat) : CacheCacheReachable K cacheCache →
      blockNumber / EPOCH_LENGTH = epoch →
      ActiveFor K epoch
        (some (Dag.generate K blockNumber (getCacheFromCache K cacheCache blockNumber).1))

end Energiminer.Core
