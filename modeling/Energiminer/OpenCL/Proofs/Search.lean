import Energiminer.OpenCL.Proofs.Keccak

/-!
# The OpenCL kernel computes the hash

Four items hold the mix of one hash between them: `Spread` says that each holds its slice.
`spread_mixMacro` is the step of the access loop. An iteration of the loop over `tid` replaces
lanes 8 to 11 of the item it works for by the compressed mix, and nothing else of any state.
-/

namespace Energiminer.OpenCL
open Misc Misc.Keccak Misc.Lockstep Nrghash Devices

variable {n : Nat} (args : SearchArgs)

/-- The items of a share hold the slices of a mix and know the first word of its seed. -/
def Spread (g : Group n) (share : Nat) (s0 : Word) (mix : Mix) : Prop :=
  ∀ j : Fin n, j.val / 4 = share →
    (g.items.get j).init0 = s0 ∧ (g.items.get j).mix = slice 8 mix (j.val % 4)

theorem cell_shareState (hn : n % 4 = 0) (g : Group n) (i : Fin n) (k : Nat) (hk : k < 16) :
    cell (shareState (i.val % 4) g).sharebuf (16 * (i.val / 4) + k) =
      stateWord (g.items.get i).state k := by
  have hi := i.isLt
  refine store_read (fun mem => cell mem (16 * (i.val / 4) + k)) i _ (fun mem => ?_)
    (fun j mem => ?_) g.sharebuf
  · rw [if_pos rfl, cell_storeSeed _ _ _ _ hk (by omega)]
  · split
    next hj =>
      by_cases hshare : j.val / 4 = i.val / 4
      · obtain rfl : j = i := Fin.ext (by omega)
        exact .inl (cell_storeSeed _ _ _ _ hk (by omega))
      · exact .inr (cell_storeSeed_ne _ _ _ (by omega))
    next => exact .inr rfl

/-- After an item has published its seed, all items of its share have loaded it. -/
theorem spread_loadSeed (hn : n % 4 = 0) (g : Group n) (i : Fin n) :
    Spread (loadSeed (shareState (i.val % 4) g)) (i.val / 4) (stateWord (g.items.get i).state 0)
      (initialMix (seedWords ((g.items.get i).state.map Uint2.asUlong))) := by
  intro j hj
  have hcell := cell_shareState hn g i
  rw [loadSeed, get_each]
  refine ⟨by rw [hj]; exact hcell 0 (by decide), ext_cell fun k hk => ?_⟩
  rw [cell_slice_initialMix _ _ _ hk (by omega)]
  simp only [cell_ofFn _ hk, hj, Nat.add_assoc]
  rw [hcell _ (by omega)]
  congr 1
  omega

theorem selectWord_eq (mix : Vector Word 8) (x : Nat) (hx : x < 8) : selectWord mix x = cell mix x := by
  interval_cases x <;> rfl

/-- One access. The index is the one chosen by the item that holds word `(a + x) % 32`. -/
theorem spread_mixMacro (hn : n % 4 = 0) {g : Group n} {share : Nat} (hshare : 4 * share < n)
    {s0 : Word} {mix : Mix} (h : Spread g share s0 mix) (a8 x : Nat) (hx : x < 8) :
    Spread (mixMacro args (8 * a8) x g) share s0
      (accessPage args.dagSize args.page s0 mix (8 * a8 + x)) := by
  intro j hj
  -- The item whose choice all four items follow.
  obtain ⟨src, hsrc⟩ : ∃ src : Fin n, src.val = 4 * share + a8 % 4 := ⟨⟨_, by omega⟩, rfl⟩
  have hword : fnv ((g.items.get src).init0 ^^^ BitVec.ofNat 32 (8 * a8 + x))
      (selectWord (g.items.get src).mix x) % args.dagSize =
      fnv (BitVec.ofNat 32 (8 * a8 + x) ^^^ s0) (cell mix ((8 * a8 + x) % 32)) % args.dagSize := by
    obtain ⟨hinit, hmix⟩ := h src (by omega)
    rw [hinit, hmix, selectWord_eq _ _ hx, cell_slice _ _ _ hx, BitVec.xor_comm]
    congr 3
    omega
  have hbuffer : cell (mixMacro args (8 * a8) x g).buffer (4 * share + a8 % 4) =
      fnv (BitVec.ofNat 32 (8 * a8 + x) ^^^ s0) (cell mix ((8 * a8 + x) % 32)) % args.dagSize := by
    rw [← hword, ← hsrc]
    refine store_read (fun buffer => cell buffer src.val) src _ (fun mem => ?_)
      (fun j mem => ?_) g.buffer
    · rw [cell_writeCell _ _ _ _ src.isLt, if_pos rfl]
    · by_cases hjs : j = src
      · rw [hjs, cell_writeCell _ _ _ _ src.isLt, if_pos rfl]
        exact .inl rfl
      · exact .inr (cell_writeCell_ne _ _ fun heq => hjs (Fin.ext heq))
  obtain ⟨hinit, hmix⟩ := h j hj
  have hlaneIdx : 4 * (j.val / 4) + 8 * a8 / 8 % 4 = 4 * share + a8 % 4 := by omega
  simp only [mixMacro] at hbuffer
  simp only [mixMacro, get_each, hlaneIdx, hbuffer, hinit, hmix, true_and]
  exact slice_zipWith _ _ _ (by omega)

theorem state_mixMacro (a x : Nat) (g : Group n) (j : Fin n) :
    ((mixMacro args a x g).items.get j).state = (g.items.get j).state := by
  simp only [mixMacro, get_each]

theorem spread_mixLoop (hn : n % 4 = 0) {g : Group n} {share : Nat} (hshare : 4 * share < n)
    {s : Hash512} (h : Spread g share (cell s 0) (initialMix s)) :
    Spread (mixLoop args g) share (cell s 0) (mixPages args.dagSize args.page s) := by
  rw [mixPages, show ACCESSES = 8 * (ACCESSES / 8) from rfl, ← foldl_range_mul]
  refine foldl_rel (R := fun g mix => Spread g share (cell s 0) mix) _ h fun a8 _ g mix h => ?_
  refine foldl_rel (R := fun g mix => Spread g share (cell s 0) mix) _ h fun x hx g mix h => ?_
  exact spread_mixMacro args hn hshare h a8 x (List.mem_range.mp hx)

theorem state_mixLoop (g : Group n) (j : Fin n) :
    ((mixLoop args g).items.get j).state = (g.items.get j).state := by
  refine List.foldlRecOn
    (motive := fun g' : Group n => (g'.items.get j).state = (g.items.get j).state) _ _
    rfl fun g' h a8 _ => ?_
  refine List.foldlRecOn
    (motive := fun g' : Group n => (g'.items.get j).state = (g.items.get j).state) _ _
    h fun g' h x _ => ?_
  rw [state_mixMacro, h]

/-- Every item leaves two words of the compressed mix. -/
theorem cell_shareMix (hn : n % 4 = 0) {g : Group n} {share : Nat} (hshare : 4 * share < n)
    {s0 : Word} {mix : Mix} (h : Spread g share s0 mix) (c : Nat) (hc : c < 8) :
    cell (shareMix g).sharebuf (16 * share + c) = cell (compressMix mix) c := by
  have hitem : 4 * share + c / 2 < n := by omega
  have hwords : ∀ j : Fin n, j.val / 4 = share → ∀ mem : Vector Word (16 * (n / 4)),
      c / 2 = j.val % 4 →
      cell (storeUint2 mem (j.val / 4) (j.val % 4)
        ⟨fnvReduce fun k => cell (g.items.get j).mix (4 * 0 + k),
          fnvReduce fun k => cell (g.items.get j).mix (4 * 1 + k)⟩) (16 * share + c) =
        cell (compressMix mix) c := by
    intro j hj mem hc2
    rw [cell_storeUint2 _ _ _ _ _ (by omega), (h j hj).2, hj]
    by_cases heven : c % 2 = 0
    · rw [if_pos (by omega), fnvReduce_slice _ _ 0 (by decide) (by omega) c (by omega)]
    · rw [if_neg (by omega), if_pos (by omega),
        fnvReduce_slice _ _ 1 (by decide) (by omega) c (by omega)]
  refine store_read (fun mem => cell mem (16 * share + c)) ⟨4 * share + c / 2, hitem⟩ _
    (fun mem => hwords _ (by simp only; omega) mem (by simp only; omega)) (fun j mem => ?_)
    g.sharebuf
  by_cases hj : j.val / 4 = share ∧ c / 2 = j.val % 4
  · exact .inl (hwords j hj.1 mem hj.2)
  · exact .inr (cell_storeUint2_ne _ _ _ _ (by omega) (by omega))

/-- The state of an item after its iteration. -/
def mixedState (a : Lanes Uint2) : Lanes Uint2 :=
  withCmix a (stateCmix args.dagSize args.page a)

theorem state_beforeCollect (g : Group n) (tid : Nat) (i : Fin n) :
    ((shareMix (mixLoop args (loadSeed (shareState tid g)))).items.get i).state =
      (g.items.get i).state := by
  rw [shareMix, state_mixLoop]
  simp only [loadSeed, get_each, shareState]

theorem cell_beforeCollect (hn : n % 4 = 0) (g : Group n) (i : Fin n) (c : Nat) (hc : c < 8) :
    cell (shareMix (mixLoop args (loadSeed (shareState (i.val % 4) g)))).sharebuf
      (16 * (i.val / 4) + c) =
      cell (stateCmix args.dagSize args.page (g.items.get i).state) c := by
  have hspread := spread_loadSeed hn g i
  rw [← cell_seedWords_map _ 0 (by decide)] at hspread
  exact cell_shareMix hn (by omega) (spread_mixLoop args hn (by omega) hspread) c hc

theorem state_collectMix (tid : Nat) (g : Group n) (i : Fin n) (c : Hash256)
    (hc : tid = i.val % 4 →
      ∀ k < 8, cell g.sharebuf (16 * (i.val / 4) + k) = cell c k) :
    ((collectMix tid g).items.get i).state =
      if tid = i.val % 4 then withCmix (g.items.get i).state c else (g.items.get i).state := by
  rw [collectMix, get_each]
  split
  next h => exact loads_eq_withCmix (hc h) _
  next => rfl

/-- An iteration of the loop over `tid` changes the state of the items it works for, and of
those only the four lanes of the compressed mix. -/
theorem state_tidStep (hn : n % 4 = 0) (g : Group n) (tid : Nat) (i : Fin n) :
    ((tidStep args g tid).items.get i).state =
      if tid = i.val % 4 then mixedState args (g.items.get i).state else (g.items.get i).state := by
  rw [tidStep, state_collectMix tid _ i (stateCmix args.dagSize args.page (g.items.get i).state),
    state_beforeCollect, mixedState]
  intro h
  subst h
  exact cell_beforeCollect args hn g i

/-- All four iterations: every item ends with its own compressed mix. -/
theorem state_tidLoop (hn : n % 4 = 0) (g : Group n) (i : Fin n) :
    (((List.range 4).foldl (tidStep args) g).items.get i).state =
      mixedState args (g.items.get i).state := by
  have hi : i.val % 4 < 4 := Nat.mod_lt _ (by decide)
  rw [show List.range 4 = [0, 1, 2, 3] from rfl]
  simp only [List.foldl_cons, List.foldl_nil, state_tidStep args hn]
  interval_cases i.val % 4 <;> rfl

theorem map_initialState (nonce : BitVec 64) :
    (initialState args nonce).map Uint2.asUlong =
      padLanes 5 9 fun k => if k < 4 then messageWord args.header.toList k else nonce := by
  refine Lanes.ofFn_congr fun k hk => ?_
  rw [initialState, Lanes.get_ofFn _ k hk]
  by_cases h4 : k < 4
  · rw [if_pos h4, if_pos (by omega)]
    exact (asUlong_ofUlong _).trans (if_pos h4).symm
  · by_cases h5 : k < 5
    · rw [if_neg h4, if_pos (by omega), if_pos h5]
      exact (asUlong_ofUlong _).trans (if_neg h4).symm
    · rw [if_neg h4, if_neg (by omega), if_neg h5]
      split
      · exact asUlong_ofUlong _
      · split
        · exact asUlong_ofUlong _
        · rfl

theorem get_padState (st : Lanes Uint2) (k : Nat) (hk : 12 ≤ k) (hk' : k < 25) :
    (padState st).get k = if k = 12 then .ofUlong 1
      else if k = 16 then .ofUlong 0x8000000000000000 else .zero := by
  interval_cases k <;> rfl

theorem get_padState_message (st : Lanes Uint2) (k : Nat) (hk : k < 12) :
    (padState st).get k = st.get k := by
  interval_cases k <;> rfl

theorem laneHash_mixedState {nonce : BitVec 64} (a : Lanes Uint2)
    (hseed : ∀ k < 8, (a.get k).asUlong = (seedLanes args.header nonce).get k) :
    (keccakf ((padState (mixedState args a)).map Uint2.asUlong)).l0 =
      laneHash args.dagSize args.page args.header nonce := by
  refine laneHash_of_states a _ hseed (fun k hk => ?_) (get_padState _)
  exact get_padState_message _ k hk

/-- Every item of the group compares the byte-reversed first lane of the hash of its nonce. -/
theorem search_eq_laneHash (build : RotlBuild) (hn : n % 4 = 0) (hisolate : args.isolate ≠ 0)
    (groupId : Nat) (sharebuf : Vector Word (16 * (n / 4))) (buffer : Vector Word n) (i : Fin n) :
    (search build args groupId sharebuf buffer).get i =
      swab 8 (laneHash args.dagSize args.page args.header
        (args.startNonce + (globalId groupId n i).setWidth 64)) := by
  simp only [search]
  rw [get_vectorMap, get_each, state_tidLoop args hn, get_each, get_vectorOfFn,
    keccakProcess_one build hisolate]
  refine congrArg (swab 8) (laneHash_mixedState args _ fun k hk => ?_)
  rw [keccakProcess_eight build hisolate _ _ hk, map_initialState, seedLanes]

end Energiminer.OpenCL
