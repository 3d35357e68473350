import Energiminer.Nrghash.Proofs.Lanes

/-!
# Datasets of more than 2 ^ 31 pages

A device addresses a dataset by page, `hashimoto::hash` by row, and the index `p * MIXNODES + j` of
a row is cut to the `uint32_t` that the mediator takes (`nrghash.cpp:1143`, `1163`). Above `2 ^ 31`
pages it therefore reads page `p - 2 ^ 31` where the device reads page `p`. The hashes then differ:
in a dataset of zeros, but for one page that clears the mix, only the device finds that page.
-/

namespace Energiminer.Nrghash
open Misc Misc.Keccak

section
variable {pageCount : Word} {s : Hash512}

/-- A page of zeros. -/
def zeroPage : Mix := Vector.ofFn fun _ => 0

theorem cell_zeroPage {m : Nat} (hm : m < 32) : cell zeroPage m = 0 := cell_ofFn _ hm

/-- Zeros, but for the page of the first access, which is such that the mix is cleared. -/
def clearingPage (pageCount : Word) (s : Hash512) (p : Word) : Mix :=
  if p = fnv (cell s 0) (cell s 0) % pageCount then
    Vector.ofFn fun m => cell s (m.val % 16) * 0x01000193
  else zeroPage

/-- An access to a page of zeros multiplies the words of the mix by the prime. -/
theorem zipWith_fnv_zero (mix : Mix) :
    mix.zipWith fnv (zeroPage) = Vector.ofFn fun m => cell mix m * 0x01000193 := by
  refine ext_cell fun m hm => ?_
  rw [cell_zipWith _ _ _ hm, cell_ofFn _ hm, cell_zeroPage hm, fnv]
  exact BitVec.xor_zero

theorem mixPages_zero {page : Word → Mix} (hpage : ∀ p, page p = zeroPage) :
    mixPages pageCount page s =
      Vector.ofFn fun m => cell s (m.val % 16) * 0x01000193 ^ ACCESSES := by
  have hfold : ∀ (l : List Nat) (mix : Mix), l.foldl (accessPage pageCount page (cell s 0)) mix =
      Vector.ofFn fun m => cell mix m * 0x01000193 ^ l.length := by
    intro l
    induction l with
    | nil =>
      intro mix
      refine ext_cell fun m hm => ?_
      rw [cell_ofFn _ hm]
      exact (BitVec.mul_one _).symm
    | cons i l ih =>
      intro mix
      rw [List.foldl_cons, ih, accessPage, hpage, zipWith_fnv_zero]
      refine ext_cell fun m hm => ?_
      rw [cell_ofFn _ hm, cell_ofFn _ hm, cell_ofFn _ hm, List.length_cons, BitVec.pow_succ,
        BitVec.mul_comm (_ ^ _), BitVec.mul_assoc]
  rw [mixPages, hfold, List.length_range]
  refine ext_cell fun m hm => ?_
  rw [cell_ofFn _ hm, cell_ofFn _ hm, initialMix, cell_ofFn _ hm]

/-- If the page that clears the mix is read once only, the mix stays zero. -/
theorem mixPages_clearingPage
    (hother : ∀ i ∈ List.range' 1 63, fnv (BitVec.ofNat 32 i ^^^ cell s 0) 0 % pageCount ≠
      fnv (cell s 0) (cell s 0) % pageCount) :
    mixPages pageCount (clearingPage pageCount s) s = zeroPage := by
  have hfirst : accessPage pageCount (clearingPage pageCount s) (cell s 0) (initialMix s) 0 =
      zeroPage := by
    have hindex : fnv (BitVec.ofNat 32 0 ^^^ cell s 0) (cell (initialMix s) (0 % 32)) =
        fnv (cell s 0) (cell s 0) := by
      rw [initialMix, cell_ofFn _ (by decide), BitVec.zero_xor]
      rfl
    refine ext_cell fun m hm => ?_
    rw [accessPage, hindex, clearingPage, if_pos rfl, cell_zipWith _ _ _ hm, initialMix,
      cell_ofFn _ hm, cell_ofFn _ hm, cell_zeroPage hm, fnv]
    exact BitVec.xor_self
  have hstay : ∀ l : List Nat, (∀ i ∈ l, i ∈ List.range' 1 63) →
      l.foldl (accessPage pageCount (clearingPage pageCount s) (cell s 0)) zeroPage = zeroPage := by
    intro l
    induction l with
    | nil => exact fun _ => rfl
    | cons i l ih =>
      intro hl
      rw [List.forall_mem_cons] at hl
      have hstep : accessPage pageCount (clearingPage pageCount s) (cell s 0) zeroPage i =
          zeroPage := by
        rw [accessPage, cell_zeroPage (Nat.mod_lt _ (by decide)), clearingPage,
          if_neg (hother i hl.1), zipWith_fnv_zero]
        refine ext_cell fun m hm => ?_
        rw [cell_ofFn _ hm, cell_zeroPage hm]
        rfl
      rw [List.foldl_cons, hstep]
      exact ih hl.2
  rw [mixPages, show List.range ACCESSES = 0 :: List.range' 1 63 from rfl, List.foldl_cons, hfirst]
  exact hstay _ fun i hi => hi

/-- Among the first `2 ^ 31` pages all are zero, if the page that clears the mix is not there. -/
theorem clearingPage_wrapped
    (hfar : 2 ^ 31 ≤ (fnv (cell s 0) (cell s 0) % pageCount).toNat) (p : Word) :
    clearingPage pageCount s (p % 0x80000000) = zeroPage := by
  rw [clearingPage, if_neg]
  intro h
  have hlt : (p % 0x80000000).toNat < 2 ^ 31 := Nat.mod_lt _ (by decide)
  rw [h] at hlt
  omega

end

/-! ## A header for which the hashes differ -/

/-- The header of zeros. -/
def zeroHeader : H256 := Vector.replicate 32 0

/-- The dataset of `2 ^ 32 - 1` pages that clears the mix of nonce 2. -/
def farPage : Word → Mix := clearingPage 0xffffffff (seedWords (seedLanes zeroHeader 2))

theorem swab_laneHash_farPage_ne :
    swab 8 (laneHash 0xffffffff farPage zeroHeader 2) ≠
      swab 8 (laneHash 0xffffffff (fun p => farPage (p % 0x80000000)) zeroHeader 2) := by
  have hfar : 2 ^ 31 ≤ (fnv (cell (seedWords (seedLanes zeroHeader 2)) 0)
      (cell (seedWords (seedLanes zeroHeader 2)) 0) % 0xffffffff).toNat := by
    rw [seedLanes, keccakf_eq]
    decide +kernel
  have hother : ∀ i ∈ List.range' 1 63,
      fnv (BitVec.ofNat 32 i ^^^ cell (seedWords (seedLanes zeroHeader 2)) 0) 0 % 0xffffffff ≠
        fnv (cell (seedWords (seedLanes zeroHeader 2)) 0)
          (cell (seedWords (seedLanes zeroHeader 2)) 0) % 0xffffffff := by
    rw [seedLanes, keccakf_eq]
    decide +kernel
  rw [laneHash, laneHash, farPage, mixPages_clearingPage hother,
    mixPages_zero (clearingPage_wrapped hfar), seedLanes]
  simp only [keccakf_eq]
  decide +kernel

/-- The head of the hash of `hashimoto::hash` is not the one over the pages as they are numbered. -/
theorem headWord_farPage_ne :
    ∃ r, hashimotoHash keccakTiny (headerNonce zeroHeader 2) (0xffffffff * MIX_BYTES)
        (pageItem farPage) = .ok r ∧
      swab 8 (laneHash 0xffffffff farPage zeroHeader 2) ≠ headWord r.value := by
  refine ⟨_, hashimotoHash_of_pages (by decide) (servesPages_wrapped farPage 0xffffffff) _ _, ?_⟩
  rw [headWord_pagesHash]
  exact swab_laneHash_farPage_ne

end Energiminer.Nrghash
