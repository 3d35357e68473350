import Energiminer.Devices.Uint2
import Energiminer.Misc.Lockstep

/-!
# Sharing one hash among threads

What the device kernels have in common: a seed and a compressed mix pass through local memory
as `uint2`s, sixteen words to a hash, and each thread holds a slice of the mix. The lemmas say
how the slices follow the accesses of the hash over pages.
-/

namespace Energiminer.Devices
open Misc Misc.Keccak Misc.Lockstep Nrghash

/-- `share->uint2s[k] = v`. -/
def storeUint2 {m : Nat} (mem : Vector Word m) (share k : Nat) (v : Uint2) : Vector Word m :=
  writeCell (writeCell mem (16 * share + 2 * k) v.x) (16 * share + 2 * k + 1) v.y

/-- `share->uint2s[k]`. -/
def loadUint2 {m : Nat} (mem : Vector Word m) (share k : Nat) : Uint2 :=
  ⟨cell mem (16 * share + 2 * k), cell mem (16 * share + 2 * k + 1)⟩

/-- Copy the first eight lanes of a state. -/
def storeSeed {m : Nat} (mem : Vector Word m) (share : Nat) (state : Lanes Uint2) : Vector Word m :=
  (List.range 8).foldl (fun mem k => storeUint2 mem share k (state.get k)) mem

/-- `g_dag[p].uint8s[t]`, `g_dag[p].uint4s[t]`: the `w` words of a page that thread `t` reads. -/
def slice (w : Nat) (page : Mix) (t : Nat) : Vector Word w :=
  Vector.ofFn fun k => cell page (w * t + k)

/-- `fnv_reduce` (`fnv.cuh:16-19`). -/
def fnvReduce (w : Nat → Word) : Word := fnv (fnv (fnv (w 0) (w 1)) (w 2)) (w 3)

/-! ## Seeds -/

/-- Word `k` of a state. -/
def stateWord (a : Lanes Uint2) (k : Nat) : Word :=
  if k % 2 = 0 then (a.get (k / 2)).x else (a.get (k / 2)).y

theorem laneHalf_asUlong_zero (u : Uint2) : laneHalf u.asUlong 0 = u.x := by
  apply BitVec.eq_of_getLsbD_eq
  intro z hz
  rw [laneHalf, BitVec.getLsbD_extractLsb', Uint2.asUlong, getLsbD_laneOfHalves]
  simp [hz]

theorem laneHalf_asUlong_one (u : Uint2) : laneHalf u.asUlong 1 = u.y := by
  apply BitVec.eq_of_getLsbD_eq
  intro z hz
  rw [laneHalf, BitVec.getLsbD_extractLsb', Uint2.asUlong, getLsbD_laneOfHalves]
  simp [hz]

theorem cell_seedWords_map (a : Lanes Uint2) (k : Nat) (hk : k < 16) :
    cell (seedWords (a.map Uint2.asUlong)) k = stateWord a k := by
  rw [seedWords, cell_ofFn _ hk, Lanes.get_map, stateWord]
  split
  next h => rw [h, laneHalf_asUlong_zero]
  next h => rw [Nat.mod_two_ne_zero.mp h, laneHalf_asUlong_one]

theorem cell_storeUint2 {m : Nat} (mem : Vector Word m) (share k : Nat) (v : Uint2) (a : Nat)
    (hin : 16 * share + 2 * k + 1 < m) :
    cell (storeUint2 mem share k v) a =
      if a = 16 * share + 2 * k then v.x else if a = 16 * share + 2 * k + 1 then v.y
      else cell mem a := by
  rw [storeUint2, cell_writeCell _ _ _ _ hin, cell_writeCell _ _ _ _ (by omega)]
  grind

theorem cell_storeUint2_ne {m : Nat} (mem : Vector Word m) (share k : Nat) (v : Uint2) {a : Nat}
    (h0 : 16 * share + 2 * k ≠ a) (h1 : 16 * share + 2 * k + 1 ≠ a) :
    cell (storeUint2 mem share k v) a = cell mem a := by
  rw [storeUint2, cell_writeCell_ne _ _ h1, cell_writeCell_ne _ _ h0]

theorem cell_storeSeed {m : Nat} (mem : Vector Word m) (share : Nat) (state : Lanes Uint2)
    (k : Nat) (hk : k < 16) (hin : 16 * share + 15 < m) :
    cell (storeSeed mem share state) (16 * share + k) = stateWord state k := by
  -- After `c` lanes the first `2 * c` words are those of the state.
  have hcount : ∀ c, c ≤ 8 → k < 2 * c →
      cell ((List.range c).foldl (fun mem k => storeUint2 mem share k (state.get k)) mem)
        (16 * share + k) = stateWord state k := by
    intro c
    induction c with
    | zero => intro _ h; omega
    | succ c ih =>
      intro hc hk
      rw [List.range_succ, List.foldl_append, List.foldl_cons, List.foldl_nil,
        cell_storeUint2 _ _ _ _ _ (by omega), stateWord]
      by_cases h : k < 2 * c
      · rw [if_neg (by omega), if_neg (by omega), ih (by omega) h, stateWord]
      · rcases Nat.lt_or_ge k (2 * c + 1) with h' | h'
        · obtain rfl : k = 2 * c := by omega
          rw [if_pos rfl, if_pos (by omega), Nat.mul_div_cancel_left _ (by decide)]
        · obtain rfl : k = 2 * c + 1 := by omega
          rw [if_neg (by omega), if_pos (by omega), if_neg (by omega),
            show (2 * c + 1) / 2 = c by omega]
  exact hcount 8 (le_refl _) (by omega)

theorem cell_storeSeed_ne {m : Nat} (mem : Vector Word m) (share : Nat) (state : Lanes Uint2)
    {a : Nat} (ha : a / 16 ≠ share) :
    cell (storeSeed mem share state) a = cell mem a := by
  refine List.foldlRecOn (motive := fun mem' => cell mem' a = cell mem a) _ _ rfl ?_
  intro mem' h k hk
  have hk8 : k < 8 := List.mem_range.mp hk
  rw [cell_storeUint2_ne _ _ _ _ (by omega) (by omega), h]

/-! ## Slices -/

theorem cell_slice {w : Nat} (mix : Mix) (t k : Nat) (hk : k < w) :
    cell (slice w mix t) k = cell mix (w * t + k) :=
  cell_ofFn _ hk

theorem slice_zipWith {w : Nat} (mix page : Mix) (t : Nat) (hw : w * t + w ≤ 32) :
    (slice w mix t).zipWith fnv (slice w page t) = slice w (mix.zipWith fnv page) t := by
  refine ext_cell fun k hk => ?_
  rw [cell_zipWith _ _ _ hk, cell_slice _ _ _ hk, cell_slice _ _ _ hk, cell_slice _ _ _ hk,
    cell_zipWith _ _ _ (by omega)]

theorem cell_slice_initialMix {w : Nat} (a : Lanes Uint2) (t k : Nat) (hk : k < w)
    (hw : w * t + k < 32) :
    cell (slice w (initialMix (seedWords (a.map Uint2.asUlong))) t) k =
      stateWord a ((w * t + k) % 16) := by
  rw [cell_slice _ _ _ hk, initialMix, cell_ofFn _ hw,
    cell_seedWords_map _ _ (Nat.mod_lt _ (by decide))]

/-- Four words of a slice reduce to one word of the compressed mix. -/
theorem fnvReduce_slice {w : Nat} (mix : Mix) (t j : Nat) (hj : 4 * j + 3 < w)
    (hw : w * t + w ≤ 32) (c : Nat) (hc : 4 * c = w * t + 4 * j) :
    fnvReduce (fun k => cell (slice w mix t) (4 * j + k)) = cell (compressMix mix) c := by
  have hget : ∀ k, k < 4 → cell (slice w mix t) (4 * j + k) = cell mix (4 * c + k) := by
    intro k hk
    rw [cell_slice _ _ _ (by omega), hc, Nat.add_assoc]
  rw [fnvReduce, hget 0 (by decide), hget 1 (by decide), hget 2 (by decide), hget 3 (by decide),
    compressMix, cell_ofFn _ (by omega)]
  rfl

/-! ## The two blocks -/

/-- `g_header[k]`. -/
def headerUint2 (header : H256) (k : Nat) : Uint2 := .ofUlong (messageWord header.toList k)

/-- The compressed mix of a hash whose seed is in a device state. -/
def stateCmix (pageCount : Word) (page : Word → Mix) (a : Lanes Uint2) : Hash256 :=
  compressMix (mixPages pageCount page (seedWords (a.map Uint2.asUlong)))

theorem seedWords_congr {a b : Lanes Word64} (h : ∀ k < 8, a.get k = b.get k) :
    seedWords a = seedWords b := by
  refine ext_cell fun k hk => ?_
  simp only [seedWords, cell_ofFn _ hk, h (k / 2) (by omega)]

/-- A state with a compressed mix in lanes 8 to 11. -/
def withCmix (a : Lanes Uint2) (c : Hash256) : Lanes Uint2 :=
  { a with
    l8 := ⟨cell c 0, cell c 1⟩
    l9 := ⟨cell c 2, cell c 3⟩
    l10 := ⟨cell c 4, cell c 5⟩
    l11 := ⟨cell c 6, cell c 7⟩ }

/-- The four loads of a compressed mix that stands in a share. -/
theorem loads_eq_withCmix {m : Nat} {mem : Vector Word m} {share : Nat} {c : Hash256}
    (h : ∀ k < 8, cell mem (16 * share + k) = cell c k) (a : Lanes Uint2) :
    { a with
      l8 := loadUint2 mem share 0, l9 := loadUint2 mem share 1
      l10 := loadUint2 mem share 2, l11 := loadUint2 mem share 3 } = withCmix a c := by
  have hload : ∀ k < 4, loadUint2 mem share k =
      ⟨cell c (2 * k), cell c (2 * k + 1)⟩ := by
    intro k hk
    rw [loadUint2, h (2 * k) (by omega), Nat.add_assoc, h (2 * k + 1) (by omega)]
  rw [hload 0 (by decide), hload 1 (by decide), hload 2 (by decide), hload 3 (by decide)]
  rfl

theorem get_withCmix_seed (a : Lanes Uint2) (c : Hash256) (k : Nat) (hk : k < 8) :
    (withCmix a c).get k = a.get k := by
  interval_cases k <;> rfl

theorem get_withCmix_mix (a : Lanes Uint2) (c : Hash256) (k : Nat) (hk : k < 4) :
    ((withCmix a c).get (8 + k)).asUlong = cmixLane c k := by
  interval_cases k <;> rfl

/-- From a state that holds the seed, and a state that holds the seed, the compressed mix and
the padding, the second permutation gives the first lane of the hash. -/
theorem laneHash_of_states {pageCount : Word} {page : Word → Mix} {header : H256}
    {nonce : BitVec 64} (a b : Lanes Uint2)
    (hseed : ∀ k < 8, (a.get k).asUlong = (seedLanes header nonce).get k)
    (hkeep : ∀ k < 12, b.get k = (withCmix a (stateCmix pageCount page a)).get k)
    (hpad : ∀ k, 12 ≤ k → k < 25 → b.get k =
      if k = 12 then .ofUlong 1 else if k = 16 then .ofUlong 0x8000000000000000 else .zero) :
    (keccakf (b.map Uint2.asUlong)).l0 = laneHash pageCount page header nonce := by
  have hwords : seedWords (a.map Uint2.asUlong) = seedWords (seedLanes header nonce) :=
    seedWords_congr fun k hk => by rw [Lanes.get_map, hseed k hk]
  have hblock : b.map Uint2.asUlong =
      finalLanes (seedLanes header nonce) (stateCmix pageCount page a) := by
    rw [finalLanes, padLanes, ← Lanes.ofFn_get (b.map _)]
    refine Lanes.ofFn_congr fun k hk => ?_
    rw [Lanes.get_map]
    by_cases h12 : k < 12
    · rw [if_pos h12, hkeep k h12]
      by_cases h8 : k < 8
      · rw [if_pos h8, get_withCmix_seed _ _ _ h8, hseed k h8]
      · have hmix := get_withCmix_mix a (stateCmix pageCount page a) (k - 8) (by omega)
        rw [Nat.add_sub_cancel' (by omega)] at hmix
        rw [if_neg h8, hmix]
    · rw [if_neg h12, hpad k (by omega) hk, apply_ite Uint2.asUlong, apply_ite Uint2.asUlong,
        asUlong_ofUlong, asUlong_ofUlong]
      rfl
  rw [hblock, laneHash, stateCmix, hwords]

end Energiminer.Devices
