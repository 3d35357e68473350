import Energiminer.Nrghash.Proofs.Hashimoto

/-!
# Full and light hashing read the same pages

The size functions keep the size an odd multiple of their unit, so a dataset is a positive
number of whole pages, and its generation fills one row for each index the hash loop can
compute. The looked-up row is then the one the light mediator computes.
-/

namespace Energiminer.Nrghash
open Misc

/-! ## Sizes -/

theorem isPrime_one : isPrime 1 = true := by
  have hlog : Nat.log2 1 = 0 := by decide
  have hsqrt : Nat.sqrt (1 * 4 ^ 52) = 2 ^ 52 := by
    rw [show 1 * 4 ^ 52 = 2 ^ 52 * 2 ^ 52 by norm_num, Nat.sqrt_eq]
  have hroot : stdSqrt 1 = (2 ^ 52, 52) := by
    simp only [stdSqrt, show toDouble 1 = 1 by decide, hlog, Nat.zero_div, Nat.sub_zero, hsqrt]
    norm_num
  rw [isPrime, hroot]
  rfl

/-- The loop of the size functions stays at odd multiples of the unit and never grows: the
quotient one counts as prime, so the subtraction does not wrap. -/
theorem primeSizeLoop_odd {unit : Nat} (hunit : 0 < unit) (fuel size : Nat)
    (hodd : size % (2 * unit) = unit) (hlt : size < 2 ^ 64) :
    primeSizeLoop unit fuel size % (2 * unit) = unit ∧ primeSizeLoop unit fuel size ≤ size := by
  induction fuel generalizing size with
  | zero => exact ⟨hodd, le_refl _⟩
  | succ fuel ih =>
    rw [primeSizeLoop]
    split
    · exact ⟨hodd, le_refl _⟩
    next hprime =>
      have hge : 2 * unit ≤ size := by
        by_contra hsmall
        have hsize : size = unit := by
          rw [Nat.mod_eq_of_lt (by omega)] at hodd
          exact hodd
        rw [hsize, Nat.div_self hunit] at hprime
        exact hprime isPrime_one
      have hsub : u64 (size + 2 ^ 64 - 2 * unit) = size - 2 * unit := by
        rw [u64, show size + 2 ^ 64 - 2 * unit = size - 2 * unit + 2 ^ 64 by omega,
          Nat.add_mod_right, Nat.mod_eq_of_lt (by omega)]
      rw [hsub]
      have hodd' : (size - 2 * unit) % (2 * unit) = unit := by
        rw [← Nat.mod_eq_sub_mod hge]
        exact hodd
      have hrec := ih (size - 2 * unit) hodd' (by omega)
      exact ⟨hrec.1, by omega⟩

/-- `get_full_size` is a positive multiple of the page size. -/
theorem getFullSize_odd (b : Nat) : getFullSize b % 256 = 128 := by
  refine (primeSizeLoop_odd (by decide : 0 < MIX_BYTES) _ _ ?_ (Nat.mod_lt _ (by decide))).1
  simp only [u64, DATASET_BYTES_INIT, DATASET_BYTES_GROWTH, MIX_BYTES]
  omega

theorem getFullSize_le {b : Nat} (hb : b / EPOCH_LENGTH < 2 ^ 40) :
    getFullSize b ≤ DATASET_BYTES_INIT + DATASET_BYTES_GROWTH * (b / EPOCH_LENGTH) := by
  refine le_trans (primeSizeLoop_odd (by decide : 0 < MIX_BYTES) _ _ ?_
    (Nat.mod_lt _ (by decide))).2 ?_
  · simp only [u64, DATASET_BYTES_INIT, DATASET_BYTES_GROWTH, MIX_BYTES]
    omega
  · simp only [u64, DATASET_BYTES_INIT, DATASET_BYTES_GROWTH, MIX_BYTES]
    omega

/-- The light mediator asks for the size at the first block of the epoch. -/
theorem getFullSize_epoch {b : Nat} (hb : b < 2 ^ 64) :
    getFullSize (u64 (b / EPOCH_LENGTH * EPOCH_LENGTH)) = getFullSize b := by
  have hle : b / EPOCH_LENGTH * EPOCH_LENGTH ≤ b := Nat.div_mul_le_self ..
  have hdiv : b / EPOCH_LENGTH * EPOCH_LENGTH / EPOCH_LENGTH = b / EPOCH_LENGTH :=
    Nat.mul_div_cancel _ (by decide)
  rw [u64, Nat.mod_eq_of_lt (by omega)]
  simp only [getFullSize, primeSize, hdiv]

/-! ## Rows -/

theorem foldl_push_getElem? {α : Type} (f : Nat → α) (n i : Nat) :
    ((List.range n).foldl (fun data i => data.push (f i)) #[])[i]? =
      if i < n then some (f i) else none := by
  have hsize : ∀ n, ((List.range n).foldl (fun data i => data.push (f i)) #[]).size = n := by
    intro n
    induction n with
    | zero => rfl
    | succ n ih => simp
  induction n with
  | zero => simp
  | succ n ih =>
    rw [List.range_succ, List.foldl_append]
    simp only [List.foldl_cons, List.foldl_nil, Array.getElem?_push, hsize, ih]
    grind

theorem generateData_getElem? (K : KeccakFns) (size : Nat) (cache : Array Hash512) (i : Nat) :
    (generateData K size cache)[i]? =
      if i < u32 (size / HASH_BYTES) then some (calcDatasetItem K cache (BitVec.ofNat 32 i))
      else none :=
  foldl_push_getElem? _ _ _

/-- The pages of the dataset a cache determines. -/
def cachePage (K : KeccakFns) (cache : Array Hash512) (p : Word) : Mix :=
  pageOfRows (calcDatasetItem K cache (p * 2)) (calcDatasetItem K cache (p * 2 + 1))

theorem servesPages_light (K : KeccakFns) (cache : Array Hash512) (pageCount : Word) :
    ServesPages (fun index => .ok (calcDatasetItem K cache index)) pageCount
      (cachePage K cache) := by
  intro p _ j hj
  obtain rfl | rfl : j = 0 ∨ j = 1 := by simp only [MIXNODES, MIX_BYTES, HASH_BYTES] at hj; omega
  · rw [cachePage, pageRow_pageOfRows_zero]
    exact congrArg (fun index => Except.ok (calcDatasetItem K cache index)) (BitVec.add_zero _)
  · rw [cachePage, pageRow_pageOfRows_one]
    rfl

/-- Every index the hash loop computes is inside the generated dataset: the last page ends at
the last row. -/
theorem servesPages_full (K : KeccakFns) {size : Nat} (cache : Array Hash512)
    (hodd : size % 256 = 128) (hsize : size < 2 ^ 38) {dag : Dag}
    (hdata : dag.data = generateData K size cache) :
    ServesPages (dagLookup dag) (BitVec.ofNat 32 (size / MIX_BYTES)) (cachePage K cache) := by
  intro p hp j hj
  rw [← servesPages_light K cache _ p hp j hj]
  have hp' : p.toNat < size / 128 := by
    rw [BitVec.lt_def, BitVec.toNat_ofNat, MIX_BYTES] at hp
    omega
  have hidx : (p * BitVec.ofNat 32 MIXNODES + BitVec.ofNat 32 j).toNat = p.toNat * 2 + j := by
    have hj' : j < 2 := hj
    simp only [BitVec.toNat_add, BitVec.toNat_mul, BitVec.toNat_ofNat]
    rw [show MIXNODES = 2 from rfl]
    omega
  have hin : p.toNat * 2 + j < u32 (size / HASH_BYTES) := by
    have hj' : j < 2 := hj
    simp only [u32, HASH_BYTES]
    omega
  have hword : BitVec.ofNat 32 (p.toNat * 2 + j) =
      p * BitVec.ofNat 32 MIXNODES + BitVec.ofNat 32 j :=
    BitVec.eq_of_toNat_eq (by rw [hidx, BitVec.toNat_ofNat, Nat.mod_eq_of_lt (by omega)])
  simp only [dagLookup, hdata, generateData_getElem?, hidx, if_pos hin, hword]

theorem pageCount_ne_zero {size : Nat} (hodd : size % 256 = 128) :
    BitVec.ofNat 32 (size / MIX_BYTES) ≠ 0 := by
  intro h
  have hzero : size / 128 % 2 ^ 32 = 0 := congrArg BitVec.toNat h
  omega

/-- The hash of an input over the dataset of a block. -/
def epochHash (K : KeccakFns) (b : Nat) (input : List Byte) : Result :=
  pagesHash K (BitVec.ofNat 32 (getFullSize b / MIX_BYTES)) (cachePage K (Cache.generate K b).data)
    input

theorem fullHash_eq (K : KeccakFns) {b : Nat} (hsize : getFullSize b < 2 ^ 38)
    (input : List Byte) :
    fullHash K (Dag.generate K b (Cache.generate K b)) input = .ok (epochHash K b input) :=
  hashimotoHash_of_serves rfl (pageCount_ne_zero (getFullSize_odd b))
    (servesPages_full K _ (getFullSize_odd b) hsize rfl) K input

theorem lightHash_eq (K : KeccakFns) {b : Nat} (hb : b < 2 ^ 64) (input : List Byte) :
    lightHash K (Cache.generate K b) input = .ok (epochHash K b input) :=
  hashimotoHash_of_serves (by rw [Cache.generate, getFullSize_epoch hb])
    (pageCount_ne_zero (getFullSize_odd b)) (servesPages_light K _ _) K input

/-- Everything the generators take from a block number is its epoch. -/
theorem Cache.generate_congr (K : KeccakFns) {b b' : Nat}
    (h : b / EPOCH_LENGTH = b' / EPOCH_LENGTH) : Cache.generate K b = Cache.generate K b' := by
  simp only [Cache.generate, getSeedhash, getCacheSize, primeSize, h]

theorem getFullSize_congr {b b' : Nat} (h : b / EPOCH_LENGTH = b' / EPOCH_LENGTH) :
    getFullSize b = getFullSize b' := by
  simp only [getFullSize, primeSize, h]

theorem Dag.generate_congr (K : KeccakFns) {b b' : Nat} (cache : Cache)
    (h : b / EPOCH_LENGTH = b' / EPOCH_LENGTH) :
    Dag.generate K b cache = Dag.generate K b' cache := by
  simp only [Dag.generate, getFullSize_congr h, h]

end Energiminer.Nrghash
