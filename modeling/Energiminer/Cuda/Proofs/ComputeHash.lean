import Energiminer.Nrghash.Proofs.PageCount
import Energiminer.Cuda.Proofs.Keccak
import Energiminer.Misc.Lockstep

/-!
# The CUDA hash is the hash

For each of the hashes a batch works on, the eight threads hold the slices of its mix
(`Spread`). A batch gives the threads it works for their compressed mix and leaves the other
threads alone, so after all batches every thread has its own, however many hashes a batch
takes.
-/

namespace Energiminer.Cuda
open Misc Misc.Keccak Misc.Lockstep Nrghash Devices

variable (dev : DeviceConstants)

/-- The twelve elements of `state` as the first lanes of a Keccak state. -/
def stateLanes (st : Vector Uint2 12) : Lanes Uint2 := .ofFn (cell st)

/-- The threads hold the slices of a mix and the first word of its seed. -/
def Spread (h : SharedHash) (s0 : Word) (mix : Mix) : Prop :=
  ∀ t : Fin 8, h.init0.get t = s0 ∧ h.mix.get t = slice 4 mix t

theorem cell_vectorize2 (a : Lanes Uint2) (q k : Nat) (hk : k < 4) :
    cell (vectorize2 (a.get (2 * q)) (a.get (2 * q + 1))) k = stateWord a (4 * q + k) := by
  have hdiv : ∀ j, j < 2 → (4 * q + j) / 2 = 2 * q := by omega
  have hdiv' : ∀ j, j < 2 → (4 * q + (2 + j)) / 2 = 2 * q + 1 := by omega
  simp only [stateWord]
  interval_cases k
  · rw [if_pos (by omega), hdiv 0 (by decide)]; rfl
  · rw [if_neg (by omega), hdiv 1 (by decide)]; rfl
  · rw [if_pos (by omega), hdiv' 0 (by decide)]; rfl
  · rw [if_neg (by omega), hdiv' 1 (by decide)]; rfl

/-- A shuffle hands out the value of the source thread. -/
theorem shflSync_eq_get {α : Type} [Inhabited α] (var : PerThread α) (src : Fin 8) :
    shflSync var src = var.get src := by
  rw [shflSync, Nat.mod_eq_of_lt src.isLt, cell_eq_getElem _ src.isLt]
  rfl

/-- After the shuffles all threads hold their slice of the seed of thread `src`. -/
theorem spread_shareInit (state : PerThread (Vector Uint2 12)) (src : Fin 8) :
    Spread (shareInit state src) (cell (seedWords ((stateLanes (state.get src)).map Uint2.asUlong)) 0)
      (initialMix (seedWords ((stateLanes (state.get src)).map Uint2.asUlong))) := by
  have hshfl : ∀ j, j < 8 → cell (Vector.ofFn fun j : Fin 8 =>
      (⟨shflSync (state.map fun st => (cell st j).x) src,
        shflSync (state.map fun st => (cell st j).y) src⟩ : Uint2)) j =
      (stateLanes (state.get src)).get j := by
    intro j hj
    rw [stateLanes, Lanes.get_ofFn _ _ (by omega), cell_ofFn _ hj, shflSync_eq_get, shflSync_eq_get,
      get_vectorMap, get_vectorMap]
  intro t
  refine ⟨?_, ext_cell fun k hk => ?_⟩
  · rw [cell_seedWords_map _ 0 (by decide), shareInit, get_vectorOfFn, hshfl 0 (by decide)]
    exact shflSync_eq_get _ 0
  · rw [cell_slice_initialMix _ _ _ hk (by omega),
      show (4 * t.val + k) % 16 = 4 * (t.val % 4) + k by omega, ← cell_vectorize2 _ _ _ hk]
    simp only [shareInit, get_vectorOfFn, hshfl 0 (by decide), hshfl 1 (by decide),
      hshfl 2 (by decide), hshfl 3 (by decide), hshfl 4 (by decide), hshfl 5 (by decide),
      hshfl 6 (by decide), hshfl 7 (by decide)]
    obtain h | h | h | h : t.val % 4 = 0 ∨ t.val % 4 = 1 ∨ t.val % 4 = 2 ∨ t.val % 4 = 3 := by omega
    all_goals simp only [h, Nat.reduceMul, Nat.reduceAdd]

/-- One access. The index is the one of the thread that holds word `(a + b) % 32`. -/
theorem spread_accessStep {h : SharedHash} {s0 : Word} {mix : Mix} (hs : Spread h s0 mix)
    (a4 b : Nat) (hb : b < 4) :
    Spread (accessStep dev (4 * a4) b h) s0
      (accessPage dev.dagSize dev.page s0 mix (4 * a4 + b)) := by
  obtain ⟨src, hsrc⟩ : ∃ src : Fin 8, src.val = a4 % 8 := ⟨⟨_, Nat.mod_lt _ (by decide)⟩, rfl⟩
  have hlane : bfe (4 * a4) 2 3 = src := by rw [hsrc, bfe]; omega
  have hword : cell (slice 4 mix src) b = cell mix ((4 * a4 + b) % 32) := by
    rw [cell_slice _ _ _ hb]
    congr 1
    omega
  intro t
  refine ⟨(hs t).1, ?_⟩
  rw [accessStep, hlane, shflSync_eq_get, get_vectorOfFn, get_vectorOfFn, (hs src).1, (hs src).2,
    hword, (hs t).2, BitVec.xor_comm]
  exact slice_zipWith _ _ _ (by omega)

/-- The loops over one hash of a batch. -/
def accessLoopOne (h : SharedHash) : SharedHash :=
  (List.range (ACCESSES / 4)).foldl (fun h a4 =>
    (List.range 4).foldl (fun h b => accessStep dev (4 * a4) b h) h) h

theorem get_foldl_map {α β : Type} {n : Nat} (f : β → α → α) (l : List β) (v : Vector α n)
    (p : Fin n) :
    (l.foldl (fun v b => v.map (f b)) v).get p = l.foldl (fun x b => f b x) (v.get p) := by
  induction l generalizing v with
  | nil => rfl
  | cons b l ih => rw [List.foldl_cons, List.foldl_cons, ih, get_vectorMap]

/-- The hashes of a batch do not interfere. -/
theorem get_accessLoop {n : Nat} (hs : Vector SharedHash n) (p : Fin n) :
    (accessLoop dev hs).get p = accessLoopOne dev (hs.get p) := by
  refine foldl_rel (R := fun (hs : Vector SharedHash n) h => hs.get p = h) _ rfl fun a4 _ hs h heq => ?_
  subst heq
  exact get_foldl_map (fun b => accessStep dev (4 * a4) b) _ hs p

theorem spread_accessLoopOne {h : SharedHash} {s : Hash512} (hs : Spread h (cell s 0) (initialMix s)) :
    Spread (accessLoopOne dev h) (cell s 0) (mixPages dev.dagSize dev.page s) := by
  rw [mixPages, show ACCESSES = 4 * (ACCESSES / 4) from rfl, ← foldl_range_mul]
  refine foldl_rel (R := fun h mix => Spread h (cell s 0) mix) _ hs fun a4 _ h mix hs => ?_
  refine foldl_rel (R := fun h mix => Spread h (cell s 0) mix) _ hs fun b hb h mix hs => ?_
  exact spread_accessStep dev hs a4 b (List.mem_range.mp hb)

/-- The four stores that move a compressed mix into a state. -/
def setCmix (st : Vector Uint2 12) (c : Nat → Word) : Vector Uint2 12 :=
  writeCell (writeCell (writeCell (writeCell st 8 ⟨c 0, c 1⟩) 9 ⟨c 2, c 3⟩) 10 ⟨c 4, c 5⟩) 11
    ⟨c 6, c 7⟩

theorem get_collectMix {h : SharedHash} {s0 : Word} {mix : Mix} (hs : Spread h s0 mix)
    (state : PerThread (Vector Uint2 12)) (src : Nat) (t : Fin 8) :
    (collectMix state src h).get t =
      if src = t.val then setCmix (state.get t) (cell (compressMix mix)) else state.get t := by
  have hmix : ∀ k : Fin 8, shflSync (h.mix.map fun m => fnvReduce fun k =>
      cell m (4 * 0 + k)) k = cell (compressMix mix) k := by
    intro k
    rw [shflSync_eq_get, get_vectorMap, (hs k).2]
    exact fnvReduce_slice _ _ 0 (by decide) (by omega) k (by omega)
  rw [collectMix, get_vectorOfFn]
  split
  next =>
    have h0 := hmix 0
    have h1 := hmix 1
    have h2 := hmix 2
    have h3 := hmix 3
    have h4 := hmix 4
    have h5 := hmix 5
    have h6 := hmix 6
    have h7 := hmix 7
    simp only [Fin.isValue, Fin.coe_ofNat_eq_mod, Nat.reduceMod] at h0 h1 h2 h3 h4 h5 h6 h7
    simp only [h0, h1, h2, h3, h4, h5, h6, h7]
    rfl
  next => rfl

/-- The state of a thread after its batch. -/
def mixedState (st : Vector Uint2 12) : Vector Uint2 12 :=
  setCmix st (cell (stateCmix dev.dagSize dev.page (stateLanes st)))

theorem spread_batch {n : Nat} (state : PerThread (Vector Uint2 12)) (i : Nat) (p : Fin n)
    (t : Fin 8) (ht : i + p.val = t.val) :
    Spread ((accessLoop dev (Vector.ofFn fun p : Fin n => shareInit state (i + p))).get p)
      (cell (seedWords ((stateLanes (state.get t)).map Uint2.asUlong)) 0)
      (mixPages dev.dagSize dev.page
        (seedWords ((stateLanes (state.get t)).map Uint2.asUlong))) := by
  rw [get_accessLoop, get_vectorOfFn, ht]
  exact spread_accessLoopOne dev (spread_shareInit state t)

theorem get_batch {parallelHash i : Nat} (hi : i + parallelHash ≤ 8)
    (state : PerThread (Vector Uint2 12)) (t : Fin 8) :
    (batch dev parallelHash state i).get t =
      if i ≤ t.val ∧ t.val < i + parallelHash then mixedState dev (state.get t) else state.get t := by
  -- The threads whose turn is in the list `l` have been served after it, the others not.
  have hfold : ∀ (l : List (Fin parallelHash)), l.Nodup → ∀ st : PerThread (Vector Uint2 12),
      (∀ p ∈ l, ∀ t : Fin 8, i + p.val = t.val → st.get t = state.get t) →
      (l.foldl (fun st p => collectMix st (i + p.val)
        ((accessLoop dev
          (Vector.ofFn fun p : Fin parallelHash => shareInit state (i + p))).get p)) st).get t =
      if ∃ p ∈ l, i + p.val = t.val then mixedState dev (state.get t) else st.get t := by
    intro l
    induction l with
    | nil => intro _ st _; simp
    | cons p l ih =>
      intro hnodup st hst
      obtain ⟨hp, hl⟩ := List.nodup_cons.mp hnodup
      have hsrc : i + p.val < 8 := by omega
      have hcollect := get_collectMix (spread_batch dev state i p ⟨_, hsrc⟩ rfl) st (i + p.val)
      rw [List.foldl_cons, ih hl]
      · by_cases hmem : ∃ q ∈ l, i + q.val = t.val
        · rw [if_pos hmem, if_pos]
          obtain ⟨q, hq, hqt⟩ := hmem
          exact ⟨q, List.mem_cons_of_mem _ hq, hqt⟩
        · rw [if_neg hmem, hcollect]
          by_cases hpt : i + p.val = t.val
          · obtain rfl : t = ⟨_, hsrc⟩ := Fin.ext hpt.symm
            rw [if_pos rfl, if_pos ⟨p, List.mem_cons_self .., rfl⟩,
              hst p (List.mem_cons_self ..) ⟨_, hsrc⟩ rfl]
            rfl
          · rw [if_neg hpt, if_neg]
            rintro ⟨q, hq, hqt⟩
            rcases List.mem_cons.mp hq with rfl | hq
            · exact hpt hqt
            · exact hmem ⟨q, hq, hqt⟩
      · intro q hq t hqt
        rw [hcollect, if_neg, hst q (List.mem_cons_of_mem _ hq) t hqt]
        intro heq
        exact hp (Fin.ext (by omega : p.val = q.val) ▸ hq)
  have hall := hfold (List.finRange parallelHash) (List.nodup_finRange _) state fun _ _ _ _ => rfl
  rw [batch, hall]
  refine if_congr ⟨?_, ?_⟩ rfl rfl
  · rintro ⟨p, -, hp⟩
    omega
  · rintro ⟨hle, hlt⟩
    exact ⟨⟨t.val - i, by omega⟩, List.mem_finRange _, by simp only; omega⟩

theorem get_batches {parallelHash : Nat} (state : PerThread (Vector Uint2 12)) (t : Fin 8)
    (c : Nat) (hc : parallelHash * c ≤ 8) :
    ((List.range c).foldl (fun state k => batch dev parallelHash state (parallelHash * k))
      state).get t =
      if t.val < parallelHash * c then mixedState dev (state.get t) else state.get t := by
  induction c with
  | zero => simp
  | succ c ih =>
    rw [Nat.mul_succ] at hc
    rw [List.range_succ, List.foldl_append, List.foldl_cons, List.foldl_nil,
      get_batch dev hc, ih (by omega), Nat.mul_succ]
    by_cases h : t.val < parallelHash * c
    · rw [if_pos h, if_neg (by omega), if_pos (by omega)]
    · rw [if_neg h]
      exact if_congr (by omega) rfl rfl

theorem cudaSwab64_eq (x : Word64) : cudaSwab64 x = swab 8 x := by
  have hhalf : ∀ (y : Word) (j : Nat), j < 4 → byteOf (swab 4 y) j = byteOf y (3 - j) := by
    intro y j hj
    exact byteOf_leWord 32 _ j (by omega)
  conv_lhs => rw [← leWord_byteOf (cudaSwab64 x)]
  refine leWord_congr 64 fun j hj => ?_
  refine (byteOf_append (w := 4) _ _ j).trans ?_
  split
  next h =>
    rw [hhalf _ _ h]
    exact (byteOf_extractLsb' x 4 32 (3 - j) (by omega)).trans (by congr 1; omega)
  next h =>
    rw [hhalf _ _ (by omega)]
    exact (byteOf_extractLsb' x 0 32 (3 - (j - 4)) (by omega)).trans (by congr 1; omega)

theorem get_finalBlock_mixedState (st : Vector Uint2 12) (k : Nat) (hk : k < 12) :
    (finalBlock (mixedState dev st)).get k =
      (withCmix (stateLanes st) (stateCmix dev.dagSize dev.page (stateLanes st))).get k := by
  rw [mixedState]
  generalize stateCmix dev.dagSize dev.page (stateLanes st) = c
  rw [finalBlock, Lanes.get_ofFn _ _ (by omega), if_pos hk]
  simp only [setCmix, cell_writeCell _ _ _ _ (by decide : 8 < 12),
    cell_writeCell _ _ _ _ (by decide : 9 < 12), cell_writeCell _ _ _ _ (by decide : 10 < 12),
    cell_writeCell _ _ _ _ (by decide : 11 < 12)]
  interval_cases k <;> rfl

/-- The word a thread compares, from the state that holds its seed. -/
theorem final_eq_laneHash (arch : Arch) {nonce : BitVec 64} (st : Vector Uint2 12)
    (hseed : ∀ k < 8, (cell st k).asUlong = (seedLanes dev.header nonce).get k) :
    keccakF1600Final arch (mixedState dev st) =
      laneHash dev.dagSize dev.page dev.header nonce := by
  rw [keccakF1600Final_eq]
  refine laneHash_of_states (stateLanes st) _ (fun k hk => ?_)
    (get_finalBlock_mixedState dev st) fun k hk hk' => ?_
  · rw [stateLanes, Lanes.get_ofFn _ _ (by omega), hseed k hk]
  · rw [finalBlock, Lanes.get_ofFn _ _ hk', if_neg (by omega)]
    rfl

/-- Every thread of the group compares the byte-reversed first lane of the hash of its nonce. -/
theorem computeHash_eq_laneHash (arch : Arch) {parallelHash : Nat}
    (hp : parallelHash * (THREADS_PER_HASH / parallelHash) = 8) (nonces : PerThread (BitVec 64))
    (t : Fin 8) :
    (computeHash dev arch parallelHash nonces).get t =
      swab 8 (laneHash dev.dagSize dev.page dev.header (nonces.get t)) := by
  simp only [computeHash]
  rw [get_vectorMap, get_batches dev _ t _ (by omega), if_pos (by omega), cudaSwab64_eq,
    get_vectorMap]
  exact congrArg (swab 8) (final_eq_laneHash dev arch _ fun k hk => keccakF1600Init_seed _ _ _ k hk)

/-- For each setting of the parallelism, every thread compares the head of the hash that
`hashimoto::hash` computes over the same pages, if there are at most `2 ^ 31` of them. -/
theorem computeHash_eq_hashimotoHash (arch : Arch) (parallelHash : Nat)
    (hp : parallelHash ∈ [1, 2, 4, 8]) (hdag : 0 < dev.dagSize)
    (hcount : dev.dagSize.toNat ≤ 2 ^ 31) (nonces : PerThread (BitVec 64)) (t : Fin 8) :
    ∃ r, hashimotoHash keccakTiny (headerNonce dev.header (nonces.get t))
        (dev.dagSize.toNat * MIX_BYTES) (pageItem dev.page) = .ok r ∧
      (computeHash dev arch parallelHash nonces).get t = headWord r.value := by
  have hbatches : parallelHash * (THREADS_PER_HASH / parallelHash) = 8 := by
    simp only [List.mem_cons, List.mem_nil_iff, or_false] at hp
    rcases hp with rfl | rfl | rfl | rfl <;> rfl
  refine ⟨_, hashimotoHash_of_pages hdag (servesPages_pageItem dev.page hcount) _ _, ?_⟩
  rw [headWord_pagesHash, computeHash_eq_laneHash dev arch hbatches]

/-- Thread 6 of a group that works on two hashes at a time, over a dataset of three pages. -/
theorem computeHash_eq_hashimotoHash_three_pages :
    let dev : DeviceConstants :=
      ⟨Vector.replicate 32 0x5a, fun p => Vector.ofFn fun k => p + BitVec.ofNat 32 k, 3⟩
    let nonces : PerThread (BitVec 64) := Vector.ofFn fun t => 1000 + BitVec.ofNat 64 t
    ∃ r, hashimotoHash keccakTiny (headerNonce dev.header (nonces.get 6))
        (dev.dagSize.toNat * MIX_BYTES) (pageItem dev.page) = .ok r ∧
      (computeHash dev .sm35 2 nonces).get 6 = headWord r.value := by
  intro dev nonces
  exact computeHash_eq_hashimotoHash dev .sm35 2 (by decide) (by decide) (by decide) nonces 6

/-- Above `2 ^ 31` pages the thread of nonce 2 compares another word. -/
theorem computeHash_ne_hashimotoHash_far_page :
    let dev : DeviceConstants := ⟨zeroHeader, farPage, 0xffffffff⟩
    let nonces : PerThread (BitVec 64) := Vector.ofFn fun t => BitVec.ofNat 64 t
    ∃ r, hashimotoHash keccakTiny (headerNonce dev.header (nonces.get 2))
        (dev.dagSize.toNat * MIX_BYTES) (pageItem dev.page) = .ok r ∧
      (computeHash dev .sm35 2 nonces).get 2 ≠ headWord r.value := by
  intro dev nonces
  have hnonce : nonces.get 2 = 2 := get_vectorOfFn _ _
  obtain ⟨r, hr, hne⟩ := headWord_farPage_ne
  rw [computeHash_eq_laneHash dev .sm35 (by decide), hnonce]
  exact ⟨r, hr, hne⟩

end Energiminer.Cuda
