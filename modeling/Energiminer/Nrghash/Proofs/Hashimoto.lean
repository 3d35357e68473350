import Energiminer.Nrghash.Hashimoto

/-!
# Hashimoto over pages

The hash loop reads the dataset two rows at a time. `pagesHash` is the hash of a dataset given
as pages of `MIX_BYTES` bytes, and `hashimotoHash_of_serves` says that `hashimoto::hash`
computes it, without a fault, from any mediator that serves the rows of those pages. The full
and the light mediator, and the devices that read whole pages, are all compared with it.
-/

namespace Energiminer.Nrghash
open Misc

/-- The rows of a page, one after the other. -/
def pageRow (page : Mix) (j : Nat) : Hash512 :=
  Vector.ofFn fun k => cell page (16 * j + k)

/-- The page made of two rows. -/
def pageOfRows (row0 row1 : Hash512) : Mix :=
  Vector.ofFn fun m => if m.val < 16 then cell row0 (m.val % 16) else cell row1 (m.val % 16)

/-- The mediator answers the two indices `hashimoto::hash` computes for a page below
`pageCount` with the rows of that page. -/
def ServesPages (getDagItem : Word → Except Fault Hash512) (pageCount : Word)
    (page : Word → Mix) : Prop :=
  ∀ p, p < pageCount → ∀ j, j < MIXNODES →
    getDagItem (p * BitVec.ofNat 32 MIXNODES + BitVec.ofNat 32 j) = .ok (pageRow (page p) j)

/-- One access: the mix combined with the page it selects. -/
def accessPage (pageCount : Word) (page : Word → Mix) (s0 : Word) (mix : Mix) (i : Nat) : Mix :=
  mix.zipWith fnv (page (fnv (BitVec.ofNat 32 i ^^^ s0) (cell mix (i % 32)) % pageCount))

/-- All accesses, from the replicated seed. -/
def mixPages (pageCount : Word) (page : Word → Mix) (s : Hash512) : Mix :=
  (List.range ACCESSES).foldl (accessPage pageCount page (cell s 0)) (initialMix s)

/-- The hash of an input over a dataset of pages. -/
def pagesHash (K : KeccakFns) (pageCount : Word) (page : Word → Mix) (input : List Byte) :
    Result :=
  let s := sha3Words512 K input
  finishHash K s (mixPages pageCount page s)

theorem pageRow_pageOfRows_zero (row0 row1 : Hash512) : pageRow (pageOfRows row0 row1) 0 = row0 := by
  refine ext_cell fun k hk => ?_
  rw [pageRow, cell_ofFn _ hk, pageOfRows, cell_ofFn _ (by omega), if_pos (by simpa using hk)]
  congr 1
  simp only
  omega

theorem pageRow_pageOfRows_one (row0 row1 : Hash512) : pageRow (pageOfRows row0 row1) 1 = row1 := by
  refine ext_cell fun k hk => ?_
  rw [pageRow, cell_ofFn _ hk, pageOfRows, cell_ofFn _ (by omega), if_neg (by simp)]
  congr 1
  simp only
  omega

/-- The two halves of the mix, each combined with its row, are the mix combined with the page. -/
theorem mixRow_both (mix page : Mix) :
    mixRow (mixRow mix 0 (pageRow page 0)) 1 (pageRow page 1) = mix.zipWith fnv page := by
  refine ext_cell fun m hm => ?_
  have hrow : ∀ j, m / 16 = j → cell (pageRow page j) (m % 16) = cell page m := by
    intro j hj
    rw [pageRow, cell_ofFn _ (Nat.mod_lt _ (by decide))]
    congr 1
    simp only
    omega
  rw [cell_zipWith _ _ _ hm, mixRow, cell_ofFn _ hm]
  simp only [mixRow, cell_ofFn _ hm]
  rcases Nat.lt_or_ge m 16 with h | h
  · rw [if_neg (by omega), if_pos (by omega), hrow 0 (by omega)]
  · rw [if_pos (by omega), if_neg (by omega), hrow 1 (by omega)]

theorem foldlM_ok {α β ε : Type} {f : β → α → Except ε β} {g : β → α → β} (l : List α)
    (h : ∀ b, ∀ a ∈ l, f b a = .ok (g b a)) (b : β) : l.foldlM f b = .ok (l.foldl g b) := by
  induction l generalizing b with
  | nil => rfl
  | cons a l ih =>
    rw [List.foldlM_cons, h b a (List.mem_cons_self ..)]
    exact ih (fun b a ha => h b a (List.mem_cons_of_mem _ ha)) (g b a)

theorem accessStep_of_serves {getDagItem : Word → Except Fault Hash512} {pageCount : Word}
    {page : Word → Mix} (hserve : ServesPages getDagItem pageCount page) (hpos : pageCount ≠ 0)
    (s0 : Word) (mix : Mix) (i : Nat) :
    accessStep pageCount getDagItem s0 mix i = .ok (accessPage pageCount page s0 mix i) := by
  have hp : ∀ v : Word, v % pageCount < pageCount := fun v => by
    rw [BitVec.lt_def, BitVec.toNat_umod]
    refine Nat.mod_lt _ (Nat.pos_of_ne_zero fun h => hpos ?_)
    exact BitVec.eq_of_toNat_eq h
  have h0 := fun v => hserve _ (hp v) 0 (by decide)
  have h1 := fun v => hserve _ (hp v) 1 (by decide)
  simp only [accessStep, accessPage, ← mixRow_both]
  rw [show List.range MIXNODES = [0, 1] from rfl]
  simp only [List.foldlM_cons, List.foldlM_nil, h0, h1]
  rfl

/-- `hashimoto::hash` is the hash over pages, for every mediator that serves them. -/
theorem hashimotoHash_of_serves {getDagItem : Word → Except Fault Hash512} {size : Nat}
    {pageCount : Word} {page : Word → Mix} (hsize : BitVec.ofNat 32 (size / MIX_BYTES) = pageCount)
    (hpos : pageCount ≠ 0) (hserve : ServesPages getDagItem pageCount page) (K : KeccakFns)
    (input : List Byte) :
    hashimotoHash K input size getDagItem = .ok (pagesHash K pageCount page input) := by
  have hloop := foldlM_ok (List.range ACCESSES) (fun mix i _ =>
    accessStep_of_serves hserve hpos (cell (sha3Words512 K input) 0) mix i)
  simp only [hashimotoHash, hsize, if_neg hpos, hloop]
  rfl

theorem hashimotoHash_of_pages {getDagItem : Word → Except Fault Hash512} {pageCount : Word}
    {page : Word → Mix} (hpos : 0 < pageCount) (hserve : ServesPages getDagItem pageCount page)
    (K : KeccakFns) (input : List Byte) :
    hashimotoHash K input (pageCount.toNat * MIX_BYTES) getDagItem =
      .ok (pagesHash K pageCount page input) := by
  refine hashimotoHash_of_serves ?_ (fun h => ?_) hserve K input
  · rw [Nat.mul_div_cancel _ (by decide), BitVec.ofNat_toNat, BitVec.setWidth_eq]
  · rw [h] at hpos
    exact absurd hpos (by decide)

/-- The rows of a dataset of pages, in order. -/
def pageItem (page : Word → Mix) (index : Word) : Except Fault Hash512 :=
  .ok (pageRow (page (index / 2)) (index.toNat % 2))

/-- The index of a row is a `uint32_t`, so page `p` is looked for among the first `2 ^ 31`. -/
theorem servesPages_wrapped (page : Word → Mix) (pageCount : Word) :
    ServesPages (pageItem page) pageCount fun p => page (p % 0x80000000) := by
  intro p _ j hj
  have hj' : j < 2 := hj
  have hp := p.isLt
  have hindex : (p * BitVec.ofNat 32 MIXNODES + BitVec.ofNat 32 j).toNat =
      p.toNat % 2 ^ 31 * 2 + j := by
    simp only [BitVec.toNat_add, BitVec.toNat_mul, BitVec.toNat_ofNat]
    rw [show MIXNODES = 2 from rfl]
    omega
  have hpage : (p * BitVec.ofNat 32 MIXNODES + BitVec.ofNat 32 j) / 2 = p % 0x80000000 := by
    apply BitVec.eq_of_toNat_eq
    rw [BitVec.toNat_udiv, hindex, BitVec.toNat_umod]
    exact (show (p.toNat % 2 ^ 31 * 2 + j) / 2 = p.toNat % 2 ^ 31 by omega)
  rw [pageItem, hpage, hindex, show (p.toNat % 2 ^ 31 * 2 + j) % 2 = j by omega]

/-- Every dataset whose rows can be counted in 32 bits is served in order. -/
theorem servesPages_pageItem (page : Word → Mix) {pageCount : Word}
    (hcount : pageCount.toNat ≤ 2 ^ 31) : ServesPages (pageItem page) pageCount page := by
  intro p hp j hj
  have hlt : p.toNat < 2 ^ 31 := lt_of_lt_of_le (BitVec.lt_def.mp hp) hcount
  have hpage : p % 0x80000000 = p := BitVec.eq_of_toNat_eq (Nat.mod_eq_of_lt hlt)
  rw [servesPages_wrapped page pageCount p hp j hj]
  dsimp only
  rw [hpage]

end Energiminer.Nrghash
