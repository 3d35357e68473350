import Energiminer.Core.Miner
import Energiminer.Nrghash.Proofs.FullLight

/-!
# The proof of work does not depend on the active dataset

Every cache the registry can hold is the one generated for a block of its epoch, so
`Miner::GetPOWHash` hashes over the pages of the header's epoch on each of its paths.
-/

namespace Energiminer.Core
open Misc Nrghash Primitives

/-- Every entry is the cache of its epoch. -/
def Coherent (K : KeccakFns) (cacheCache : CacheCache) : Prop :=
  ∀ entry ∈ cacheCache, ∀ b, b / EPOCH_LENGTH = entry.1 → entry.2 = Cache.generate K b

theorem getCacheFromCache_fst {K : KeccakFns} {cacheCache : CacheCache}
    (hcoh : Coherent K cacheCache) (b : Nat) :
    (getCacheFromCache K cacheCache b).1 = Cache.generate K b := by
  simp only [getCacheFromCache]
  split
  next cache hfound =>
    obtain ⟨before, after, heq, -⟩ := List.lookup_eq_some_iff.mp hfound
    exact hcoh (b / EPOCH_LENGTH, cache) (by simp [heq]) b rfl
  next => rfl

theorem coherent_getCacheFromCache {K : KeccakFns} {cacheCache : CacheCache}
    (hcoh : Coherent K cacheCache) (b : Nat) :
    Coherent K (getCacheFromCache K cacheCache b).2 := by
  simp only [getCacheFromCache]
  split
  next => exact hcoh
  next =>
    intro entry hmem b' hb'
    rcases List.mem_cons.mp hmem with rfl | hmem
    · exact Cache.generate_congr K hb'.symm
    · exact hcoh entry hmem b' hb'

theorem coherent_of_reachable {K : KeccakFns} {cacheCache : CacheCache}
    (h : CacheCacheReachable K cacheCache) : Coherent K cacheCache := by
  induction h with
  | empty => exact fun entry hmem => absurd hmem List.not_mem_nil
  | get cacheCache b _ ih => exact coherent_getCacheFromCache ih b
  | unload cacheCache epoch _ ih => exact fun entry hmem => ih entry (List.mem_of_mem_filter hmem)

/-- The dataset generated for any block of an epoch, from any registry, is the one generated
from the cache of a given block of that epoch. -/
theorem generate_of_reachable {K : KeccakFns} {cacheCache : CacheCache}
    (h : CacheCacheReachable K cacheCache) {b b' : Nat}
    (hepoch : b' / EPOCH_LENGTH = b / EPOCH_LENGTH) :
    Dag.generate K b' (getCacheFromCache K cacheCache b').1 =
      Dag.generate K b (Cache.generate K b) := by
  rw [getCacheFromCache_fst (coherent_of_reachable h), Cache.generate_congr K hepoch,
    Dag.generate_congr K _ hepoch]

/-- What `GetPOWHash` returns and stores. -/
def powOutcome (K : KeccakFns) (header : BlockHeader) : Uint256 × BlockHeader :=
  let ret := epochHash K header.nHeight.toNat
    (headerNonce (h256Hash K (truncatedLE header)) header.nNonce)
  (Uint256.ofH256 ret.value, { header with hashMix := Uint256.ofH256 ret.mixhash })

theorem getPOWHash_eq {K : KeccakFns} {cacheCache : CacheCache} {activeDag : Option Dag}
    {header : BlockHeader} (hsize : getFullSize header.nHeight.toNat < 2 ^ 38)
    (hreg : CacheCacheReachable K cacheCache)
    (hactive : ActiveFor K (header.nHeight.toNat / EPOCH_LENGTH) activeDag) :
    getPOWHash K cacheCache activeDag header = .ok (powOutcome K header) := by
  have hheight : header.nHeight.toNat < 2 ^ 64 := by
    have := header.nHeight.isLt
    omega
  have hlight := lightHash_eq K hheight
    (headerNonce (h256Hash K (truncatedLE header)) header.nNonce)
  rw [← getCacheFromCache_fst (coherent_of_reachable hreg)] at hlight
  cases hactive with
  | none => simp only [getPOWHash, hlight]; rfl
  | other dag hother => simp only [getPOWHash, if_neg (Ne.symm hother), hlight]; rfl
  | generated cacheCache' b' hreg' hepoch =>
    simp only [getPOWHash, generate_of_reachable hreg' hepoch]
    rw [if_pos (by rfl), fullHash_eq K hsize]
    rfl

/-- Full and light verification agree. For every block whose dataset has a size below `2 ^ 38`
both hashes of any input are defined (no lookup is out of bounds) and equal, and a header of
that epoch gets one hash and one `hashMix`, whatever caches are registered and whichever
dataset is active. -/
theorem full_light_agree (K : KeccakFns) (b : Nat) (hb : b < 2 ^ 64)
    (hsize : getFullSize b < 2 ^ 38) :
    (∀ input, ∃ r, fullHash K (Dag.generate K b (Cache.generate K b)) input = .ok r ∧
      lightHash K (Cache.generate K b) input = .ok r) ∧
    (∀ header : BlockHeader, header.nHeight.toNat / EPOCH_LENGTH = b / EPOCH_LENGTH →
      ∃ out, ∀ cacheCache activeDag, CacheCacheReachable K cacheCache →
        ActiveFor K (header.nHeight.toNat / EPOCH_LENGTH) activeDag →
        getPOWHash K cacheCache activeDag header = .ok out) := by
  refine ⟨fun input => ⟨epochHash K b input, fullHash_eq K hsize input, lightHash_eq K hb input⟩,
    fun header hepoch => ⟨powOutcome K header, fun _ _ hreg hactive => ?_⟩⟩
  rw [← getFullSize_congr hepoch] at hsize
  exact getPOWHash_eq hsize hreg hactive

/-- A header at the last block of the second epoch, hashed with no dataset active and with the
dataset generated for the first block of that epoch. -/
theorem full_light_agree_epoch_one :
    ∃ out, ∀ activeDag ∈ [none, some (Dag.generate keccakTiny 7200 (Cache.generate keccakTiny 7200))],
      getPOWHash keccakTiny [] activeDag
        ⟨1, Uint256.null, Uint256.null, 0, 0, 14399, Uint256.null, 7⟩ = .ok out := by
  have hsize : getFullSize 14399 < 2 ^ 38 :=
    lt_of_le_of_lt (getFullSize_le (by decide)) (by decide)
  obtain ⟨out, hout⟩ := (full_light_agree keccakTiny 14399 (by decide) hsize).2
    ⟨1, Uint256.null, Uint256.null, 0, 0, 14399, Uint256.null, 7⟩ rfl
  refine ⟨out, fun activeDag hmem => hout [] activeDag .empty ?_⟩
  rcases List.mem_pair.mp hmem with rfl | rfl
  · exact .none
  · exact .generated [] 7200 .empty rfl

end Energiminer.Core
