import Energiminer.Nrghash.Proofs.FullLight
import Mathlib.NumberTheory.Bertrand

/-!
# The sizes of caches and datasets

Both size functions lower a size until its quotient by a unit passes `is_prime`. A prime passes, so
Bertrand's postulate bounds the result from below.
-/

namespace Energiminer.Nrghash
open Misc

/-! ## The sizes of an epoch -/

theorem getCacheSize_congr {b b' : Nat} (h : b / EPOCH_LENGTH = b' / EPOCH_LENGTH) :
    getCacheSize b = getCacheSize b' := by
  rw [getCacheSize, getCacheSize, primeSize, primeSize, h]

theorem getCacheSize_odd (b : Nat) : getCacheSize b % 128 = 64 := by
  refine (primeSizeLoop_odd (by decide : 0 < HASH_BYTES) _ _ ?_ (Nat.mod_lt _ (by decide))).1
  simp only [u64, CACHE_BYTES_INIT, CACHE_BYTES_GROWTH, HASH_BYTES]
  omega

theorem getCacheSize_le {b : Nat} (hb : b / EPOCH_LENGTH < 2 ^ 40) :
    getCacheSize b ≤ CACHE_BYTES_INIT + CACHE_BYTES_GROWTH * (b / EPOCH_LENGTH) := by
  refine le_trans (primeSizeLoop_odd (by decide : 0 < HASH_BYTES) _ _ ?_
    (Nat.mod_lt _ (by decide))).2 ?_
  · simp only [u64, CACHE_BYTES_INIT, CACHE_BYTES_GROWTH, HASH_BYTES]
    omega
  · simp only [u64, CACHE_BYTES_INIT, CACHE_BYTES_GROWTH, HASH_BYTES]
    omega

theorem getCacheSize_lt (b : Nat) : getCacheSize b < 2 ^ 64 := by
  have hlt : ∀ x, u64 x < 2 ^ 64 := fun x => Nat.mod_lt _ (by decide)
  refine lt_of_le_of_lt (primeSizeLoop_odd (by decide : 0 < HASH_BYTES) _ _ ?_ (hlt _)).2 (hlt _)
  simp only [u64, CACHE_BYTES_INIT, CACHE_BYTES_GROWTH, HASH_BYTES]
  omega

theorem getFullSize_lt (b : Nat) : getFullSize b < 2 ^ 64 := by
  have hlt : ∀ x, u64 x < 2 ^ 64 := fun x => Nat.mod_lt _ (by decide)
  refine lt_of_le_of_lt (primeSizeLoop_odd (by decide : 0 < MIX_BYTES) _ _ ?_ (hlt _)).2 (hlt _)
  simp only [u64, DATASET_BYTES_INIT, DATASET_BYTES_GROWTH, MIX_BYTES]
  omega

/-! ## Lower bounds of the sizes -/

theorem isPrimeLoop_of_not_dvd {x m e : Nat} (fuel i : Nat)
    (h : ∀ j, i ≤ j → j * 2 ^ e ≤ m → ¬ j ∣ x) : isPrimeLoop x m e fuel i = true := by
  induction fuel generalizing i with
  | zero => rfl
  | succ fuel ih =>
    rw [isPrimeLoop]
    split
    next hi =>
      have hmod : ¬ x % i = 0 := fun hmod => h i (le_refl i) hi (Nat.dvd_of_mod_eq_zero hmod)
      rw [if_neg hmod]
      exact ih (i + 1) fun j hj => h j (by omega)
    next => rfl

theorem stdSqrt_lt {x : Nat} (hx : 3 ≤ x) (hlt : x < 2 ^ 53) :
    (stdSqrt x).1 < x * 2 ^ (stdSqrt x).2 := by
  have hdouble : toDouble x = x := if_pos hlt
  have hlog : Nat.log2 x < 53 := (Nat.log2_lt (by omega)).mpr hlt
  rw [stdSqrt, hdouble]
  dsimp only
  obtain ⟨e, he⟩ : ∃ e, 52 - Nat.log2 x / 2 = e + 1 := ⟨51 - Nat.log2 x / 2, by omega⟩
  rw [he]
  obtain ⟨y, rfl⟩ : ∃ y, x = y + 1 := ⟨x - 1, by omega⟩
  have hsquare : (y + 1) * 4 ^ (e + 1) ≤ (y * 2 ^ (e + 1)) * (y * 2 ^ (e + 1)) := by
    have hpow : (2 : Nat) ^ (e + 1) * 2 ^ (e + 1) = 4 ^ (e + 1) := by
      rw [← Nat.mul_pow]
    calc (y + 1) * 4 ^ (e + 1) ≤ (y * y) * 4 ^ (e + 1) := Nat.mul_le_mul_right _ (by nlinarith)
      _ = (y * 2 ^ (e + 1)) * (y * 2 ^ (e + 1)) := by rw [← hpow]; ring
  have hroot : Nat.sqrt ((y + 1) * 4 ^ (e + 1)) ≤ y * 2 ^ (e + 1) := by
    have hmono := Nat.sqrt_le_sqrt hsquare
    rwa [Nat.sqrt_eq] at hmono
  have htwo : 2 ≤ 2 ^ (e + 1) := by
    rw [Nat.pow_succ]
    have hpos := Nat.two_pow_pos e
    omega
  have hnext : (y + 1) * 2 ^ (e + 1) = y * 2 ^ (e + 1) + 2 ^ (e + 1) := by
    rw [Nat.add_mul, Nat.one_mul]
  rw [hnext]
  split
  · exact lt_of_le_of_lt (Nat.succ_le_succ hroot) (by omega)
  · exact lt_of_le_of_lt hroot (by omega)

/-- `is_prime` accepts a prime, as long as the rounded root is below it. -/
theorem isPrime_of_prime {p : Nat} (hp : p.Prime)
    (hroot : (stdSqrt p).1 < p * 2 ^ (stdSqrt p).2) : isPrime p = true := by
  refine isPrimeLoop_of_not_dvd _ 2 fun j hj hle hdvd => ?_
  have hjp : j < p := Nat.lt_of_mul_lt_mul_right (lt_of_le_of_lt hle hroot)
  rcases (Nat.dvd_prime hp).mp hdvd with h | h
  · omega
  · omega

/-- The search for a prime quotient stops at a prime on its way at the latest. -/
theorem le_primeSizeLoop {unit p : Nat} (hunit : 0 < unit) (hp : isPrime p = true) (hodd : p % 2 = 1)
    (fuel size : Nat) (hsize : size % (2 * unit) = unit) (hle : unit * p ≤ size)
    (hlt : size < 2 ^ 64) : unit * p ≤ primeSizeLoop unit fuel size := by
  induction fuel generalizing size with
  | zero => exact hle
  | succ fuel ih =>
    rw [primeSizeLoop]
    split
    · exact hle
    next hprime =>
      -- the quotient is odd and not `p`, so it is at least `p + 2`
      obtain ⟨k, hk⟩ : ∃ k, size = unit * (2 * k + 1) := by
        refine ⟨size / (2 * unit), ?_⟩
        have hdiv := Nat.div_add_mod size (2 * unit)
        rw [hsize] at hdiv
        rw [Nat.mul_add, Nat.mul_one, ← Nat.mul_assoc, Nat.mul_comm unit 2]
        exact hdiv.symm
      obtain ⟨l, rfl⟩ : ∃ l, p = 2 * l + 1 := ⟨p / 2, by omega⟩
      rw [hk, Nat.mul_div_cancel_left _ hunit] at hprime
      have hne : k ≠ l := fun heq => hprime (heq ▸ hp)
      have hkl : 2 * l + 1 ≤ 2 * k + 1 := Nat.le_of_mul_le_mul_left (hk ▸ hle) hunit
      have hnext : size - 2 * unit = unit * (2 * (k - 1) + 1) := by
        obtain ⟨k', rfl⟩ : ∃ k', k = k' + 1 := ⟨k - 1, by omega⟩
        rw [hk, Nat.add_sub_cancel]
        have hmul : unit * (2 * (k' + 1) + 1) = unit * (2 * k' + 1) + 2 * unit := by ring
        rw [hmul, Nat.add_sub_cancel]
      have hge : 2 * unit ≤ size := by
        rw [hk]
        have hmul : unit * 3 ≤ unit * (2 * k + 1) := Nat.mul_le_mul_left _ (by omega)
        omega
      have hsub : u64 (size + 2 ^ 64 - 2 * unit) = size - 2 * unit := by
        rw [u64, show size + 2 ^ 64 - 2 * unit = size - 2 * unit + 2 ^ 64 by omega,
          Nat.add_mod_right, Nat.mod_eq_of_lt (by omega)]
      rw [hsub]
      refine ih _ ?_ ?_ (by omega)
      · rw [← Nat.mod_eq_sub_mod hge]
        exact hsize
      · rw [hnext]
        exact Nat.mul_le_mul_left _ (by omega)

/-- There is a prime between a number and its double, so the sizes are more than half of what their
search starts from. -/
theorem lt_primeSize {init growth unit b n : Nat} (hunit : 0 < unit) (hn : 3 ≤ n)
    (hlt : 2 * n < 2 ^ 53)
    (hodd : u64 (u64 (init + u64 (growth * (b / EPOCH_LENGTH))) + 2 ^ 64 - unit) % (2 * unit) = unit)
    (hle : unit * (2 * n) ≤ u64 (u64 (init + u64 (growth * (b / EPOCH_LENGTH))) + 2 ^ 64 - unit)) :
    unit * n < primeSize init growth unit b := by
  obtain ⟨p, hp, hnp, hpn⟩ := Nat.exists_prime_lt_and_le_two_mul n (by omega)
  have hpodd : p % 2 = 1 := by
    rcases hp.eq_two_or_odd with h | h
    · omega
    · exact h
  have hbound := le_primeSizeLoop hunit
    (isPrime_of_prime hp (stdSqrt_lt (by omega) (by omega))) hpodd
    (u64 (u64 (init + u64 (growth * (b / EPOCH_LENGTH))) + 2 ^ 64 - unit) / unit) _ hodd
    (le_trans (Nat.mul_le_mul_left _ hpn) hle) (Nat.mod_lt _ (by decide))
  exact lt_of_lt_of_le (Nat.mul_lt_mul_of_pos_left hnp hunit) hbound

/-! ## The rows that are generated -/

theorem size_seedRows (K : KeccakFns) (count : Nat) (data : Array Hash512) :
    (seedRows K count data).size = data.size + count := by
  induction count generalizing data with
  | zero => rfl
  | succ count ih =>
    rw [seedRows, ih, Array.size_push]
    omega

theorem size_foldl_cacheRoundStep (K : KeccakFns) (n : Nat) (js : List Nat) (data : Array Hash512) :
    (js.foldl (cacheRoundStep K n) data).size = data.size := by
  induction js generalizing data with
  | nil => rfl
  | cons j js ih => rw [List.foldl_cons, ih, cacheRoundStep, Array.size_setIfInBounds]

theorem size_mkcache (K : KeccakFns) {size : Nat} (seedhash : List Byte)
    (hpos : 0 < u32 (size / HASH_BYTES)) : (mkcache K size seedhash).size = u32 (size / HASH_BYTES) := by
  have hrounds : ∀ (is : List Nat) (data : Array Hash512),
      (is.foldl (fun data _ => (List.range (u32 (size / HASH_BYTES))).foldl
        (cacheRoundStep K (u32 (size / HASH_BYTES))) data) data).size = data.size := by
    intro is
    induction is with
    | nil => exact fun _ => rfl
    | cons i is ih =>
      intro data
      rw [List.foldl_cons, ih, size_foldl_cacheRoundStep]
  rw [mkcache, hrounds, size_seedRows]
  exact Nat.add_sub_cancel' hpos

theorem size_generateData (K : KeccakFns) (size : Nat) (cache : Array Hash512) :
    (generateData K size cache).size = u32 (size / HASH_BYTES) := by
  have hsize : ∀ n, ((List.range n).foldl
      (fun data i => data.push (calcDatasetItem K cache (BitVec.ofNat 32 i))) #[]).size = n := by
    intro n
    induction n with
    | zero => rfl
    | succ n ih =>
      rw [List.range_succ, List.foldl_append, List.foldl_cons, List.foldl_nil, Array.size_push, ih]
  exact hsize _

end Energiminer.Nrghash
