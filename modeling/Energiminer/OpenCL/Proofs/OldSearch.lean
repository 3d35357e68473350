import Energiminer.Nrghash.Proofs.PageCount
import Energiminer.OpenCL.OldNrghash
import Energiminer.OpenCL.Proofs.Search

/-!
# The older OpenCL kernel computes the hash

The same argument as for the newer kernel, with eight items to a hash and the page index in
the first word of the share. The kernel derives the thread and the share of an item from its
global id, so the ids of a group must not wrap around.
-/

namespace Energiminer.OpenCL.Old
open Misc Misc.Keccak Misc.Lockstep Nrghash Devices

/-! ## The permutation -/

theorem rotatesLanes_rol2 (platform : Platform) : RotatesLanes (rol2 platform) := by
  cases platform with
  | nvidia => exact rotatesLanes_rol2Shf
  | amd => exact rotatesLanes_rol2Bitalign
  | other => exact rotatesLanes_rol2Shift

theorem roundTheta_eq (platform : Platform) (a : Lanes Uint2) :
    roundTheta platform a = theta (uint2Algebra (rol2 platform)) a := rfl

theorem roundRhoPi_eq (platform : Platform) (a : Lanes Uint2) :
    roundRhoPi platform a = rhoPi (uint2Algebra (rol2 platform)) a := rfl

theorem roundChi_eq (platform : Platform) (a : Lanes Uint2) :
    roundChi a = chi (uint2Algebra (rol2 platform)) a :=
  chiSelect_eq (rol2 platform) a

theorem keccakF1600Round_eq (platform : Platform) (a : Lanes Uint2) (r : Nat) :
    keccakF1600Round platform a r =
      keccakRound (uint2Algebra (rol2 platform)) a (keccakF1600RC.getD r .zero) := by
  simp only [keccakF1600Round, roundTheta_eq, roundRhoPi_eq, roundChi_eq platform]
  rfl

/-- The rounds without the guard of the loop. -/
def permute (platform : Platform) (a : Lanes Uint2) : Lanes Uint2 :=
  (List.range 24).foldl (keccakF1600Round platform) a

theorem map_permute (platform : Platform) (a : Lanes Uint2) :
    (permute platform a).map Uint2.asUlong = keccakf (a.map Uint2.asUlong) := by
  rw [keccakf_eq, ← keccakF1600RC_map]
  refine Eq.trans ?_ (map_rounds (uint2Hom (rotatesLanes_rol2 platform)) keccakF1600RC a)
  congr 1
  unfold permute
  rw [funext fun a => funext (keccakF1600Round_eq platform a)]
  rfl

/-! ## Thread and share -/

section
variable {n : Nat} (args : SearchArgs) {groupId : Nat}

theorem globalId_toNat (hfit : (groupId + 1) * n ≤ 2 ^ 32) (i : Fin n) :
    (globalId groupId n i).toNat = groupId * n + i := by
  have hi := i.isLt
  rw [Nat.succ_mul] at hfit
  rw [globalId, BitVec.toNat_ofNat, Nat.mod_eq_of_lt (by omega)]

theorem threadId_eq (hn : n % 8 = 0) (hfit : (groupId + 1) * n ≤ 2 ^ 32) (i : Fin n) :
    threadId groupId i = i.val % 8 := by
  obtain ⟨m, rfl⟩ := Nat.dvd_of_mod_eq_zero hn
  rw [threadId, globalId_toNat hfit, Nat.mul_left_comm, Nat.mul_add_mod]

theorem hashId_eq (hfit : (groupId + 1) * n ≤ 2 ^ 32) (i : Fin n) :
    hashId groupId i = i.val / 8 := by
  rw [hashId, globalId_toNat hfit, Nat.mul_comm, Nat.mul_add_mod, Nat.mod_eq_of_lt i.isLt]

/-! ## Mixing -/

/-- The items of a share hold the slices of a mix. -/
def Slices (g : Group n) (share : Nat) (mix : Mix) : Prop :=
  ∀ j : Fin n, j.val / 8 = share → (g.items.get j).mix = slice 4 mix (j.val % 8)

/-- They also know the first word of its seed. -/
def Spread (g : Group n) (share : Nat) (s0 : Word) (mix : Mix) : Prop :=
  Slices g share mix ∧ ∀ j : Fin n, j.val / 8 = share → (g.items.get j).init0 = s0

theorem state_accessStep (a k : Nat) (g : Group n) (j : Fin n) :
    ((accessStep args groupId a k g).items.get j).state = (g.items.get j).state := by
  simp only [accessStep, get_each]

theorem state_accessLoop (g : Group n) (j : Fin n) :
    ((accessLoop args groupId g).items.get j).state = (g.items.get j).state := by
  refine List.foldlRecOn
    (motive := fun g' : Group n => (g'.items.get j).state = (g.items.get j).state) _ _
    rfl fun g' h a4 _ => ?_
  refine List.foldlRecOn
    (motive := fun g' : Group n => (g'.items.get j).state = (g.items.get j).state) _ _
    h fun g' h k _ => ?_
  rw [state_accessStep, h]

theorem state_beforeCollect (g : Group n) (tid : Nat) (i : Fin n) :
    ((shareMix groupId (accessLoop args groupId (shareInit0 groupId
      (loadMix groupId (shareState groupId tid g))))).items.get i).state = (g.items.get i).state := by
  rw [shareMix, state_accessLoop]
  simp only [shareInit0, loadMix, get_each, shareState]

variable (hn : n % 8 = 0) (hfit : (groupId + 1) * n ≤ 2 ^ 32)
include hn hfit

theorem cell_shareState (g : Group n) (i : Fin n) (k : Nat) (hk : k < 16) :
    cell (shareState groupId (i.val % 8) g).share (16 * (i.val / 8) + k) =
      stateWord (g.items.get i).state k := by
  have hi := i.isLt
  refine store_read (fun mem => cell mem (16 * (i.val / 8) + k)) i _ (fun mem => ?_)
    (fun j mem => ?_) g.share
  · rw [if_pos (threadId_eq hn hfit i).symm, hashId_eq hfit,
      cell_storeSeed _ _ _ _ hk (by omega)]
  · rw [threadId_eq hn hfit, hashId_eq hfit]
    split
    next hj =>
      by_cases hshare : j.val / 8 = i.val / 8
      · obtain rfl : j = i := Fin.ext (by omega)
        exact .inl (cell_storeSeed _ _ _ _ hk (by omega))
      · exact .inr (cell_storeSeed_ne _ _ _ (by omega))
    next => exact .inr rfl

/-- After an item has published its seed, all items of its share have loaded their slice. -/
theorem slices_loadMix (g : Group n) (i : Fin n) :
    Slices (loadMix groupId (shareState groupId (i.val % 8) g)) (i.val / 8)
      (initialMix (seedWords ((g.items.get i).state.map Uint2.asUlong))) := by
  intro j hj
  rw [loadMix, get_each]
  refine ext_cell fun k hk => ?_
  rw [cell_slice_initialMix _ _ _ hk (by omega)]
  simp only [cell_ofFn _ hk, threadId_eq hn hfit, hashId_eq hfit, hj, Nat.add_assoc]
  rw [cell_shareState hn hfit g i _ (by omega)]
  congr 1
  omega

/-- A store by which one thread of each share sets the first word of the share. -/
theorem cell_share0 {share t : Nat} (ht : t < 8) (hshare : 8 * share < n)
    {f : Fin n → Word} {v : Word} (hf : ∀ j : Fin n, j.val = 8 * share + t → f j = v)
    (mem : Vector Word (16 * (n / 8))) :
    cell (store (fun (j : Fin n) mem =>
      if threadId groupId j = t then writeCell mem (16 * hashId groupId j) (f j) else mem) mem)
      (16 * share) = v := by
  obtain ⟨src, hsrc⟩ : ∃ src : Fin n, src.val = 8 * share + t := ⟨⟨_, by omega⟩, rfl⟩
  have hwrite : ∀ mem : Vector Word (16 * (n / 8)),
      cell (writeCell mem (16 * share) (f src)) (16 * share) = v := by
    intro mem
    rw [cell_writeCell _ _ _ _ (by omega), if_pos rfl, hf src hsrc]
  refine store_read (fun mem => cell mem (16 * share)) src _ (fun mem => ?_) (fun j mem => ?_)
    mem
  · rw [threadId_eq hn hfit, hashId_eq hfit, if_pos (by omega),
      show src.val / 8 = share by omega, hwrite]
  · rw [threadId_eq hn hfit, hashId_eq hfit]
    split
    next hj =>
      by_cases hjs : j.val / 8 = share
      · obtain rfl : j = src := Fin.ext (by omega)
        rw [hjs]
        exact .inl (hwrite mem)
      · exact .inr (cell_writeCell_ne _ _ (by omega))
    next => exact .inr rfl

/-- The first word of the seed reaches all items of the share. -/
theorem spread_shareInit0 {g : Group n} {share : Nat} (hshare : 8 * share < n) {s : Hash512}
    (h : Slices g share (initialMix s)) :
    Spread (shareInit0 groupId g) share (cell s 0) (initialMix s) := by
  refine ⟨fun j hj => ?_, fun j hj => ?_⟩
  · simp only [shareInit0, get_each, h j hj]
  · simp only [shareInit0, get_each, hashId_eq hfit, hj]
    have hcell := cell_share0 hn hfit (t := 0) (by decide) hshare
      (f := fun j => cell (g.items.get j).mix 0) (v := cell s 0) (fun src hsrc => ?_) g.share
    · simpa only [hashId_eq hfit] using hcell
    · rw [h src (by omega), cell_slice _ _ _ (by decide),
        initialMix, cell_ofFn _ (by omega)]
      congr 1
      simp only
      omega

/-- One access. The index is the one chosen by the item that holds word `(a + k) % 32`. -/
theorem spread_accessStep {g : Group n} {share : Nat} (hshare : 8 * share < n) {s0 : Word}
    {mix : Mix} (h : Spread g share s0 mix) (a4 k : Nat) (hk : k < 4) :
    Spread (accessStep args groupId (4 * a4) k g) share s0
      (accessPage args.dagSize args.page s0 mix (4 * a4 + k)) := by
  obtain ⟨hslices, hinit⟩ := h
  have hcell := cell_share0 hn hfit (t := a4 % 8) (Nat.mod_lt _ (by decide)) hshare
    (f := fun j => fnv ((g.items.get j).init0 ^^^ BitVec.ofNat 32 (4 * a4 + k))
      (cell (g.items.get j).mix k) % args.dagSize)
    (v := fnv (BitVec.ofNat 32 (4 * a4 + k) ^^^ s0) (cell mix ((4 * a4 + k) % 32)) % args.dagSize)
    (fun src hsrc => ?_) g.share
  · refine ⟨fun j hj => ?_, fun j hj => ?_⟩
    · simp only [accessStep, get_each, hslices j hj, Nat.mul_div_cancel_left _ (by decide : 0 < 4)]
      rw [hashId_eq hfit j, hj, hcell, threadId_eq hn hfit]
      exact slice_zipWith _ _ _ (by omega)
    · simp only [accessStep, get_each, hinit j hj]
  · have hword : (cell (g.items.get src).mix k) = (cell mix ((4 * a4 + k) % 32)) := by
      rw [hslices src (by omega), cell_slice _ _ _ hk]
      congr 1
      omega
    simp only [hinit src (by omega), hword]
    rw [BitVec.xor_comm]

theorem spread_accessLoop {g : Group n} {share : Nat} (hshare : 8 * share < n) {s : Hash512}
    (h : Spread g share (cell s 0) (initialMix s)) :
    Spread (accessLoop args groupId g) share (cell s 0) (mixPages args.dagSize args.page s) := by
  rw [mixPages, show ACCESSES = 4 * (ACCESSES / 4) from rfl, ← foldl_range_mul]
  refine foldl_rel (R := fun g mix => Spread g share (cell s 0) mix) _ h fun a4 _ g mix h => ?_
  refine foldl_rel (R := fun g mix => Spread g share (cell s 0) mix) _ h fun k hk g mix h => ?_
  exact spread_accessStep args hn hfit hshare h a4 k (List.mem_range.mp hk)

/-- Every item leaves a word of the compressed mix. -/
theorem cell_shareMix {g : Group n} {share : Nat} (hshare : 8 * share < n) {mix : Mix}
    (h : Slices g share mix) (c : Nat) (hc : c < 8) :
    cell (shareMix groupId g).share (16 * share + c) = cell (compressMix mix) c := by
  have hword : ∀ j : Fin n, j.val = 8 * share + c → ∀ mem : Vector Word (16 * (n / 8)),
      cell (writeCell mem (16 * hashId groupId j + threadId groupId j)
        (fnvReduce fun k => cell (g.items.get j).mix (4 * 0 + k))) (16 * share + c) =
        cell (compressMix mix) c := by
    intro j hj mem
    rw [threadId_eq hn hfit, hashId_eq hfit, cell_writeCell _ _ _ _ (by omega),
      if_pos (by omega), h j (by omega),
      fnvReduce_slice _ _ 0 (by decide) (by omega) c (by omega)]
  obtain ⟨src, hsrc⟩ : ∃ src : Fin n, src.val = 8 * share + c := ⟨⟨_, by omega⟩, rfl⟩
  refine store_read (fun mem => cell mem (16 * share + c)) src _ (hword src hsrc)
    (fun j mem => ?_) g.share
  by_cases hj : j.val = 8 * share + c
  · exact .inl (hword j hj mem)
  · refine .inr (cell_writeCell_ne _ _ ?_)
    rw [threadId_eq hn hfit, hashId_eq hfit]
    omega

theorem cell_beforeCollect (g : Group n) (i : Fin n) (c : Nat) (hc : c < 8) :
    cell (shareMix groupId (accessLoop args groupId (shareInit0 groupId
      (loadMix groupId (shareState groupId (i.val % 8) g))))).share (16 * (i.val / 8) + c) =
      cell (stateCmix args.dagSize args.page (g.items.get i).state) c := by
  have hi := i.isLt
  have hspread := spread_accessLoop args hn hfit (by omega)
    (spread_shareInit0 hn hfit (by omega) (slices_loadMix hn hfit g i))
  exact cell_shareMix hn hfit (by omega) hspread.1 c hc

theorem state_collectMix (tid : Nat) (g : Group n) (i : Fin n) (c : Hash256)
    (hc : tid = i.val % 8 →
      ∀ k < 8, cell g.share (16 * (i.val / 8) + k) = cell c k) :
    ((collectMix groupId tid g).items.get i).state =
      if tid = i.val % 8 then withCmix (g.items.get i).state c else (g.items.get i).state := by
  rw [collectMix, get_each, threadId_eq hn hfit, hashId_eq hfit]
  split
  next h => exact loads_eq_withCmix (hc h) _
  next => rfl

/-- An iteration of the outer loop changes the state of the items it works for, and of those
only the four lanes of the compressed mix. -/
theorem state_hashStep (g : Group n) (tid : Nat) (i : Fin n) :
    ((hashStep args groupId g tid).items.get i).state =
      if tid = i.val % 8 then mixedState args (g.items.get i).state else (g.items.get i).state := by
  rw [hashStep,
    state_collectMix hn hfit tid _ i (stateCmix args.dagSize args.page (g.items.get i).state),
    state_beforeCollect, mixedState]
  intro h
  subst h
  exact cell_beforeCollect args hn hfit g i

/-- All eight iterations: every item ends with its own compressed mix. -/
theorem state_hashLoop (g : Group n) (i : Fin n) :
    (((List.range 8).foldl (hashStep args groupId) g).items.get i).state =
      mixedState args (g.items.get i).state := by
  have hi : i.val % 8 < 8 := Nat.mod_lt _ (by decide)
  rw [show List.range 8 = [0, 1, 2, 3, 4, 5, 6, 7] from rfl]
  simp only [List.foldl_cons, List.foldl_nil, state_hashStep args hn hfit]
  interval_cases i.val % 8 <;> rfl

theorem search_eq_laneHash (platform : Platform) (hisolate : args.isolate ≠ 0)
    (share : Vector Word (16 * (n / 8))) :
    ∃ words, search platform args groupId share = some words ∧
      ∀ i : Fin n, words.get i = swab 8 (laneHash args.dagSize args.page args.header
        (args.startNonce + (globalId groupId n i).setWidth 64)) := by
  have hperm : keccakF1600NoAbsorb platform args.isolate = fun a => pure (permute platform a) := by
    funext a
    rw [keccakF1600NoAbsorb, if_pos hisolate]
    rfl
  simp only [search, hperm, Vector.mapM_pure]
  refine ⟨_, rfl, fun i => ?_⟩
  rw [get_vectorMap, get_vectorMap, state_hashLoop args hn hfit, get_vectorMap, get_vectorMap,
    get_vectorOfFn]
  have hfirst : ∀ a : Lanes Uint2, (permute platform a).l0.asUlong =
      (keccakf (a.map Uint2.asUlong)).l0 := fun a => by
    rw [← map_permute platform, Lanes.l0_map]
  rw [hfirst]
  refine congrArg (swab 8) (laneHash_mixedState args _ fun k hk => ?_)
  rw [seedLanes, ← map_initialState, ← map_permute platform, Lanes.get_map]

end

end Energiminer.OpenCL.Old

namespace Energiminer.OpenCL
open Misc Misc.Keccak Misc.Lockstep Nrghash Devices

/-- Both kernels compare the head of the hash that `hashimoto::hash` computes over the same
pages, for every item of every group, if the dataset has at most `2 ^ 31` pages. The older kernel
takes an item's place in its group from its global id, which is a `uint` as is the global size of a
launch (`CLMiner.h:89`). -/
theorem search_eq_hashimotoHash (build : RotlBuild) (platform : Old.Platform) {n : Nat}
    (hn : n % 8 = 0) (args : SearchArgs) (hisolate : args.isolate = 0xffffffff)
    (hdag : 0 < args.dagSize) (hcount : args.dagSize.toNat ≤ 2 ^ 31) (groupId : Nat)
    (sharebuf : Vector Word (16 * (n / 4))) (buffer : Vector Word n)
    (share : Vector Word (16 * (n / 8))) (i : Fin n) :
    ∃ r, hashimotoHash keccakTiny
        (headerNonce args.header (args.startNonce + (globalId groupId n i).setWidth 64))
        (args.dagSize.toNat * MIX_BYTES) (pageItem args.page) = .ok r ∧
      (search build args groupId sharebuf buffer).get i = headWord r.value ∧
      ((groupId + 1) * n ≤ 2 ^ 32 →
        ∃ words, Old.search platform args groupId share = some words ∧
          words.get i = headWord r.value) := by
  have hne : args.isolate ≠ 0 := by rw [hisolate]; decide
  refine ⟨_, hashimotoHash_of_pages hdag (servesPages_pageItem args.page hcount) _ _, ?_,
    fun hfit => ?_⟩
  · rw [headWord_pagesHash, search_eq_laneHash args build (by omega) hne]
  · obtain ⟨words, hsearch, hwords⟩ := Old.search_eq_laneHash args hn hfit platform hne share
    exact ⟨words, hsearch, by rw [headWord_pagesHash, hwords]⟩

/-- Item 13 of the group 5 of size 24, over a dataset of three pages. -/
theorem search_eq_hashimotoHash_three_pages :
    let args : SearchArgs :=
      ⟨Vector.replicate 32 0x5a, fun p => Vector.ofFn fun k => p + BitVec.ofNat 32 k, 3,
        0x123456789a, 0xffffffff⟩
    ∃ r, hashimotoHash keccakTiny (headerNonce args.header (args.startNonce + 133)) (3 * MIX_BYTES)
        (pageItem args.page) = .ok r ∧
      (search .rotate args 5 (Vector.replicate _ 0) (Vector.replicate 24 0)).get 13 =
        headWord r.value ∧
      ∃ words, Old.search .amd args 5 (Vector.replicate _ 0) = some words ∧
        words.get (13 : Fin 24) = headWord r.value := by
  intro args
  obtain ⟨r, hr, hnew, hold⟩ := search_eq_hashimotoHash .rotate .amd (n := 24) (by decide) args rfl
    (by decide) (by decide) 5 (Vector.replicate _ 0) (Vector.replicate 24 0) (Vector.replicate _ 0)
    13
  exact ⟨r, hr, hnew, hold (by decide)⟩

/-- Above `2 ^ 31` pages item 2 of the first group compares another word, in both kernels. -/
theorem search_ne_hashimotoHash_far_page :
    let args : SearchArgs := ⟨zeroHeader, farPage, 0xffffffff, 0, 0xffffffff⟩
    ∃ r, hashimotoHash keccakTiny (headerNonce args.header (args.startNonce + 2))
        (args.dagSize.toNat * MIX_BYTES) (pageItem args.page) = .ok r ∧
      (search .rotate args 0 (Vector.replicate _ 0) (Vector.replicate 8 0)).get 2 ≠
        headWord r.value ∧
      ∃ words, Old.search .amd args 0 (Vector.replicate _ 0) = some words ∧
        words.get (2 : Fin 8) ≠ headWord r.value := by
  intro args
  obtain ⟨r, hr, hne⟩ := headWord_farPage_ne
  have hfit : (0 + 1) * 8 ≤ 2 ^ 32 := by decide
  obtain ⟨words, hsearch, hwords⟩ :=
    Old.search_eq_laneHash args (by decide) hfit .amd (by decide) (Vector.replicate _ 0)
  refine ⟨r, hr, ?_, words, hsearch, ?_⟩
  · rw [search_eq_laneHash args .rotate (by decide) (by decide)]
    exact hne
  · rw [hwords]
    exact hne

end Energiminer.OpenCL
