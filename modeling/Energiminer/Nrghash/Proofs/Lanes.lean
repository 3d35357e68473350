import Mathlib.Data.List.GetD
import Energiminer.Nrghash.Proofs.KeccakTiny
import Energiminer.Nrghash.Proofs.Hashimoto

/-!
# The hash in Keccak lanes

What a device computes for one nonce: both Keccak calls of the hash as single permutations of
a padded block of lanes, the seed and the compressed mix moving between lanes and 32-bit
words. `headWord_pagesHash` says that the first lane, with its bytes reversed, is the
big-endian head of the hash over the same pages.
-/

namespace Energiminer.Nrghash
open Misc Misc.Keccak

/-- The low (`0`) or high (`1`) half of a lane. -/
def laneHalf (x : Word64) (h : Nat) : Word := x.extractLsb' (8 * (4 * h)) 32

/-- A lane from its halves. -/
def laneOfHalves (lo hi : Word) : Word64 := hi ++ lo

/-- The first eight lanes as sixteen words. -/
def seedWords (a : Lanes Word64) : Hash512 :=
  Vector.ofFn fun k => laneHalf (a.get (k.val / 2)) (k.val % 2)

/-- The state after the first permutation. -/
def seedLanes (header : H256) (nonce : BitVec 64) : Lanes Word64 :=
  keccakf (padLanes 5 9 fun k => if k < 4 then messageWord header.toList k else nonce)

/-- Word pair `k` of the compressed mix. -/
def cmixLane (c : Hash256) (k : Nat) : Word64 :=
  laneOfHalves (cell c (2 * k)) (cell c (2 * k + 1))

/-- The block of the second permutation: the seed and the compressed mix. -/
def finalLanes (a : Lanes Word64) (c : Hash256) : Lanes Word64 :=
  padLanes 12 17 fun k => if k < 8 then a.get k else cmixLane c (k - 8)

/-- The first lane of the hash over pages. -/
def laneHash (pageCount : Word) (page : Word → Mix) (header : H256) (nonce : BitVec 64) : Word64 :=
  let a := seedLanes header nonce
  (keccakf (finalLanes a (compressMix (mixPages pageCount page (seedWords a))))).l0

/-- The first eight bytes of a hash, read big-endian. -/
def headWord (v : H256) : BitVec 64 := beWord 8 (cell v)

theorem padLanes_congr {m r : Nat} {f g : Nat → Word64} (h : ∀ k < m, f k = g k) :
    padLanes m r f = padLanes m r g :=
  Lanes.ofFn_congr fun k _ => by
    by_cases hk : k < m
    · rw [if_pos hk, if_pos hk, h k hk]
    · rw [if_neg hk, if_neg hk]

theorem length_headerNonce (header : H256) (nonce : BitVec 64) :
    (headerNonce header nonce).length = 40 := by
  simp [headerNonce]

theorem messageWord_append_left (xs ys : List Byte) (k : Nat) (h : 8 * k + 8 ≤ xs.length) :
    messageWord (xs ++ ys) k = messageWord xs k :=
  leWord_congr 64 fun j _ => List.getD_append _ _ _ _ (by omega)

theorem messageWord_append_right (xs ys : List Byte) (m k : Nat) (hlen : xs.length = 8 * m)
    (h : m ≤ k) : messageWord (xs ++ ys) k = messageWord ys (k - m) :=
  leWord_congr 64 fun j _ => by
    rw [List.getD_append_right _ _ _ _ (by omega), hlen]
    congr 1
    omega

theorem messageWord_headerNonce (header : H256) (nonce : BitVec 64) (k : Nat) (hk : k < 5) :
    messageWord (headerNonce header nonce) k =
      if k < 4 then messageWord header.toList k else nonce := by
  have hlen : header.toList.length = 32 := by simp
  split
  · exact messageWord_append_left _ _ _ (by omega)
  · obtain rfl : k = 4 := by omega
    rw [headerNonce, messageWord_append_right _ _ 4 4 (by omega) (le_refl _)]
    refine Eq.trans (leWord_congr 64 fun j hj => ?_) (leWord_byteOf nonce)
    rw [Nat.sub_self, Nat.mul_zero, Nat.zero_add]
    exact getD_leBytes 8 nonce j (by omega)

theorem nodesOf_lanes (a : Lanes Word64) :
    nodesOf 16 ((List.range 64).map fun i => byteOf (a.get (i / 8)) (i % 8)) = seedWords a := by
  refine ext_cell fun k hk => ?_
  simp only [nodesOf, seedWords, cell_ofFn _ hk, laneHalf]
  rw [← leWord_byteOf_add]
  refine leWord_congr 32 fun j hj => ?_
  have hj : j < 4 := by omega
  rw [List.getD_eq_getElem _ _ (by simp; omega), List.getElem_map, List.getElem_range,
    show (4 * k + j) / 8 = k / 2 by omega, show (4 * k + j) % 8 = 4 * (k % 2) + j by omega]

/-- The seed: `sha3_512` of the header hash and the nonce. -/
theorem sha3Words512_headerNonce (header : H256) (nonce : BitVec 64) :
    sha3Words512 keccakTiny (headerNonce header nonce) = seedWords (seedLanes header nonce) := by
  have hblock := sha3_single_block 512 64 5 9 (headerNonce header nonce) (by decide)
    (length_headerNonce header nonce) (by decide) (by decide) (by decide) (by decide)
  rw [padLanes_congr (messageWord_headerNonce header nonce)] at hblock
  simp only [sha3Words512, keccakTiny, hblock, Option.getD_some]
  exact nodesOf_lanes _

theorem getD_serialize {n : Nat} (h : Vector Word n) (i : Nat) (hi : i < 4 * n) :
    (serialize h).getD i 0 = byteOf (cell h (i / 4)) (i % 4) := by
  have hlist : ∀ (l : List Word) (i : Nat), i < 4 * l.length →
      (l.flatMap (leBytes 4)).getD i 0 = byteOf (l.getD (i / 4) 0) (i % 4) := by
    intro l
    induction l with
    | nil => intro i hi; simp at hi
    | cons x l ih =>
      intro i hi
      rw [List.flatMap_cons]
      rcases Nat.lt_or_ge i 4 with h4 | h4
      · rw [List.getD_append _ _ _ _ (by simpa using h4), getD_leBytes _ _ _ h4,
          Nat.div_eq_of_lt h4, Nat.mod_eq_of_lt h4, List.getD_cons_zero]
      · rw [List.getD_append_right _ _ _ _ (by simpa using h4), length_leBytes,
          ih _ (by rw [List.length_cons] at hi; omega), Nat.mod_eq_sub_mod h4,
          show i / 4 = (i - 4) / 4 + 1 by omega, List.getD_cons_succ]
  have := hlist h.toList i (by simpa using hi)
  rw [serialize, this, List.getD_eq_getElem?_getD]
  simp only [cell, Vector.getElem?_toList]
  rfl

theorem length_serialize {n : Nat} (h : Vector Word n) : (serialize h).length = 4 * n := by
  have hlist : ∀ l : List Word, (l.flatMap (leBytes 4)).length = 4 * l.length := by
    intro l
    induction l with
    | nil => rfl
    | cons x l ih => rw [List.flatMap_cons, List.length_append, ih, length_leBytes,
        List.length_cons]; omega
  rw [serialize, hlist, Vector.length_toList]

/-- Two serialised words are the bytes of the lane they form. -/
theorem messageWord_serialize {n : Nat} (h : Vector Word n) (k : Nat) (hk : 2 * k + 1 < n) :
    messageWord (serialize h) k =
      laneOfHalves (cell h (2 * k)) (cell h (2 * k + 1)) := by
  rw [← leWord_byteOf (laneOfHalves _ _)]
  refine leWord_congr 64 fun j hj => ?_
  rw [getD_serialize _ _ (by omega), laneOfHalves]
  refine Eq.trans ?_ (byteOf_append (w := 4) _ _ j).symm
  split
  · rw [show (8 * k + j) / 4 = 2 * k by omega, show (8 * k + j) % 4 = j by omega]
  · rw [show (8 * k + j) / 4 = 2 * k + 1 by omega, show (8 * k + j) % 4 = j - 4 by omega]

/-- `sha3_512` of a row: one permutation of its eight lanes and the padding. -/
theorem sha3Words512_serialize (h : Hash512) :
    sha3Words512 keccakTiny (serialize h) =
      seedWords (keccakf (filledLanes 8 fun k =>
        laneOfHalves (cell h (2 * k)) (cell h (2 * k + 1)))) := by
  have hwords : filledLanes 8 (messageWord (serialize h)) = filledLanes 8 fun k =>
      laneOfHalves (cell h (2 * k)) (cell h (2 * k + 1)) := by
    refine Lanes.ofFn_congr fun k _ => ?_
    by_cases hk : k < 8
    · rw [if_pos hk, if_pos hk, messageWord_serialize _ _ (by omega)]
    · rw [if_neg hk, if_neg hk]
  have hlen := length_serialize h
  have hblock := sha3_of_lanes 512 64 9 (serialize h) (by decide) (by omega) (by decide) (by decide)
    (by decide) (lanes_filled 8 (serialize h) hlen (by decide))
  rw [hwords] at hblock
  simp only [sha3Words512, keccakTiny, hblock, Option.getD_some]
  exact nodesOf_lanes _

theorem laneOfHalves_laneHalf (x : Word64) : laneOfHalves (laneHalf x 0) (laneHalf x 1) = x := by
  rw [← leWord_byteOf x]
  conv_lhs => rw [← leWord_byteOf (laneOfHalves _ _)]
  refine leWord_congr 64 fun j hj => ?_
  refine (byteOf_append (w := 4) _ _ j).trans ?_
  rw [leWord_byteOf]
  split
  · exact (byteOf_extractLsb' x 0 32 j (by omega)).trans (by rw [Nat.zero_add])
  · exact (byteOf_extractLsb' x 4 32 (j - 4) (by omega)).trans (by congr 1; omega)

theorem messageWord_seed_cmix (a : Lanes Word64) (c : Hash256) (k : Nat) (hk : k < 12) :
    messageWord (serialize (seedWords a) ++ serialize c) k =
      if k < 8 then a.get k else cmixLane c (k - 8) := by
  have hlen := length_serialize (seedWords a)
  split
  next h =>
    rw [messageWord_append_left _ _ _ (by omega), messageWord_serialize _ _ (by omega),
      ← laneOfHalves_laneHalf (a.get k)]
    have heven : (2 * k) / 2 = k ∧ (2 * k) % 2 = 0 := by omega
    have hodd : (2 * k + 1) / 2 = k ∧ (2 * k + 1) % 2 = 1 := by omega
    simp only [seedWords, cell_ofFn _ (show 2 * k < 16 by omega),
      cell_ofFn _ (show 2 * k + 1 < 16 by omega), heven, hodd]
  next h =>
    rw [messageWord_append_right _ _ 8 k (by omega) (by omega), messageWord_serialize _ _ (by omega),
      cmixLane]

/-- The head of the value is the first lane of the second permutation. -/
theorem headWord_finishHash (a : Lanes Word64) (mix : Mix) :
    headWord (finishHash keccakTiny (seedWords a) mix).value =
      swab 8 (keccakf (finalLanes a (compressMix mix))).l0 := by
  have hlen : (serialize (seedWords a) ++ serialize (compressMix mix)).length = 8 * 12 := by
    rw [List.length_append, length_serialize, length_serialize]
  have hblock := sha3_single_block 256 32 12 17
    (serialize (seedWords a) ++ serialize (compressMix mix)) (by decide) hlen (by decide)
    (by decide) (by decide) (by decide)
  rw [padLanes_congr (messageWord_seed_cmix a (compressMix mix))] at hblock
  refine leWord_congr 64 fun j hj => ?_
  have hget : ∀ i, i < 8 →
      cell (finishHash keccakTiny (seedWords a) mix).value i =
        byteOf (keccakf (finalLanes a (compressMix mix))).l0 i := by
    intro i hi
    simp only [finishHash, h256OfWords, sha3Words256, keccakTiny, hblock, Option.getD_some, nodesOf,
      cell_ofFn _ (show i < 32 by omega), cell_ofFn _ (show i / 4 < 8 by omega)]
    rw [byteOf_leWord _ _ _ (by omega), List.getD_eq_getElem _ _ (by simp; omega), List.getElem_map,
      List.getElem_range, show (4 * (i / 4) + i % 4) / 8 = 0 by omega,
      show (4 * (i / 4) + i % 4) % 8 = i by omega]
    rfl
  exact hget _ (by omega)

/-- The head of the hash of a header and a nonce over pages is the byte-reversed first lane. -/
theorem headWord_pagesHash (pageCount : Word) (page : Word → Mix) (header : H256)
    (nonce : BitVec 64) :
    headWord (pagesHash keccakTiny pageCount page (headerNonce header nonce)).value =
      swab 8 (laneHash pageCount page header nonce) := by
  simp only [pagesHash, sha3Words512_headerNonce, laneHash]
  exact headWord_finishHash _ _

end Energiminer.Nrghash
