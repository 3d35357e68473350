import Energiminer.Core.Proofs.Farm
import Energiminer.Primitives.Proofs.Solution
import Energiminer.Primitives.Proofs.TransactionIds
import Energiminer.Stratum.Mining

/-!
# Every share passes the checks of the pool

A pool that prints its jobs and checks a share by building the header from its own copy of the job:
its transactions, the extra nonces and the texts of the share. Whatever the pools, the connections,
the miners and their timing, every `mining.submit` that is sent passes. The client of such a run is
one of the runs of the client alone, in which a miner finds any solution of a work that was handed
out.
-/

namespace Energiminer.Stratum
open Misc Misc.Json Misc.Except Misc.Codec Common Primitives Energiminer.Core Engines

/-! ## Reading a job -/

namespace PoolJob
variable {job : PoolJob} {extraNonce1 : String} {hashTarget : ArithUint256}

/-- The work of a job. -/
def work (job : PoolJob) (extraNonce1 : String) (hashTarget : ArithUint256) : Work where
  nVersion := job.version
  hashPrevBlock := job.hashPrevBlock
  hashMerkleRoot := Uint256.null
  nTime := job.time
  nBits := job.bits
  nHeight := job.height
  hashMix := Uint256.null
  nNonce := 0
  vtx := (decodedTx (job.coinbaseText extraNonce1 extraNonce1)).updateHash ::
    (job.transactions.map fun tx => hexStr tx.serialize).map decodedTx
  stratumCoinbase1 := job.coinbase1
  stratumCoinbase2 := job.coinbase2
  extraNonce1 := extraNonce1
  extraNonce2 := 0
  jobName := job.name
  hashTarget := hashTarget

theorem paramHex_of_paramText {jPrm : Value} {i : Nat} {n : BitVec 32}
    (h : Work.paramText jPrm i = .ok (hexPadded 8 n.toNat)) : Work.paramHex jPrm i = .ok n := by
  rw [Work.paramHex, h, ok_bind, stoul16_hexPadded, ok_bind]
  exact congrArg Except.ok (by simp)

theorem asUInt_toNat (n : BitVec 32) : (Value.int n.toNat).asUInt = .ok n := by
  have hlt := n.isLt
  have hrange : (0 : Int) ≤ (n.toNat : Int) ∧ (n.toNat : Int) < 2 ^ 32 := by omega
  rw [Value.asUInt, Value.uintOf, if_pos hrange]
  simp

theorem mapM_branchData (texts : List String) :
    (texts.map fun text => Value.object [("data", .string text)]).mapM Work.branchData =
      .ok texts := by
  induction texts with
  | nil => rfl
  | cons text texts ih =>
    rw [List.map_cons, List.mapM_cons, ih]
    rfl

theorem ofStratum_params (job : PoolJob) (extraNonce1 : String) (hashTarget : ArithUint256) :
    Work.ofStratum job.params extraNonce1 hashTarget = .ok (job.work extraNonce1 hashTarget) := by
  have hbranches : (job.params.getAt 4 (.string "")).values.mapM Work.branchData =
      .ok (job.transactions.map fun tx => hexStr tx.serialize) := by
    rw [← mapM_branchData, List.map_map]
    rfl
  have hheight : (job.params.getAt 9 (.string "")).asUInt = .ok job.height :=
    asUInt_toNat job.height
  have hname : Work.paramText job.params 0 = .ok job.name := rfl
  have hprev : Work.paramText job.params 1 = .ok (String.ofList job.hashPrevBlock.getHex) := rfl
  have hpart1 : Work.paramText job.params 2 = .ok job.coinbase1 := rfl
  have hpart2 : Work.paramText job.params 3 = .ok job.coinbase2 := rfl
  rw [Work.ofStratum, hprev, ok_bind,
    paramHex_of_paramText (i := 5) (n := job.version) rfl, ok_bind,
    paramHex_of_paramText (i := 7) (n := job.time) rfl, ok_bind,
    paramHex_of_paramText (i := 6) (n := job.bits) rfl, ok_bind, hheight, ok_bind,
    hpart1, ok_bind, hpart2, ok_bind, hbranches, ok_bind, hname, ok_bind, String.toList_ofList,
    Uint256.setHex_getHex]
  rfl

/-- What the pool sends can be read: the transactions and the coinbase, whatever extra nonce the
miner puts into it, are whole. -/
structure Sendable (job : PoolJob) (extraNonce1 : String) : Prop where
  part : job.coinbase1 ≠ ""
  transactions : ∀ tx ∈ job.transactions, tx.Fits ∧ tx.serialize.length < 2 ^ 32
  coinbase : ∀ extraNonce2 : BitVec 32,
    Whole (job.coinbaseText extraNonce1 (hexStrMemory extraNonce2))

theorem isHex_hexStr {bytes : List Byte} (h : bytes ≠ []) : isHex (hexStr bytes) = true := by
  have hlength : (bytes.flatMap hexByte).length = 2 * bytes.length := by
    rw [List.length_flatMap]
    simp [hexByte, Nat.mul_comm]
  have hpos := List.length_pos_iff.mpr h
  rw [isHex, hexStr, String.toList_ofList, hlength]
  simp only [Bool.and_eq_true, List.all_eq_true, decide_eq_true_eq]
  refine ⟨⟨fun c hc => ?_, by omega⟩, by omega⟩
  obtain ⟨b, -, hc⟩ := List.mem_flatMap.mp hc
  have hlt : b.toNat < 256 := b.isLt
  rcases List.mem_pair.mp hc with rfl | rfl
  · rw [isHexDigit, hexValue_hexDigit (by omega)]
    rfl
  · rw [isHexDigit, hexValue_hexDigit (Nat.mod_lt _ (by decide))]
    rfl

theorem whole_hexStr {tx : CTransaction} (hfits : tx.Fits)
    (hlength : tx.serialize.length < 2 ^ 32) : Whole (hexStr tx.serialize) := by
  have hbytes : tx.serialize = tx.updateHash.serialize ++ [] := by
    rw [CTransaction.serialize_updateHash, List.append_nil]
  refine ⟨isHex_hexStr ?_, ?_⟩
  · intro hnil
    have hlen := congrArg List.length hnil
    simp [CTransaction.serialize, leBytes] at hlen
  · rw [parseHex_hexStr]
    have hleft : Left (CDataStream.mk tx.serialize 0) (tx.updateHash.serialize ++ []) :=
      hbytes ▸ CDataStream.left_mk hlength
    obtain ⟨t, ht, -, htail⟩ := (codes_transaction CTransaction.new).decodes
      ⟨CTransaction.updateHash_updateHash _, (CTransaction.fits_withHash _ _).mpr hfits⟩ hleft
    refine ⟨_, t, Into.reader_eq_ok.mp ht, ?_⟩
    have hlen := congrArg List.length htail
    rwa [CDataStream.rest, List.length_drop] at hlen

/-- A transaction that was read from a whole text keeps the hash of its bytes. -/
theorem hash_decodedTx {str : String} (h : Whole str) :
    (decodedTx str).hash = Sha256.hash256 (parseHex str) := by
  obtain ⟨⟨-, hserialize⟩, hhash⟩ := h.decoded
  rw [CTransaction.hash_of_updateHash_eq hhash, hserialize]

/-! ## Checking a share -/

/-- The share of a work. -/
def shareOf (work : Work) (transaction : String) : Share :=
  ⟨work.jobName, work.getExtraNonce2, work.nTime, work.nNonce, work.hashMix, transaction,
    work.hashMerkleRoot⟩

/-- The pool reads back the numbers and hashes of the solution. -/
theorem ofRequest_submitRequest (s : State) (u : Uri) (solution : Solution) (transaction : String) :
    Share.ofRequest (submitRequest s u solution transaction) =
      some (shareOf solution.work transaction) := by
  have hparams : memberOf (submitRequest s u solution transaction) "params" =
      submitParams u solution.work transaction := rfl
  rw [Share.ofRequest, hparams]
  simp only [submitParams, List.map_cons, List.map_nil, Solution.getTime, Solution.getNonce,
    hexNumber_hexPadded, String.toList_ofList, Uint256.setHex_getHex, BitVec.ofNat_toNat,
    BitVec.setWidth_eq]
  rfl

/-- What a new extra nonce makes of the work of a job. -/
structure Prepared (job : PoolJob) (extraNonce1 : String) (hashTarget : ArithUint256)
    (updated : Work) : Prop where
  header : updated.toBlockHeader =
    { (job.work extraNonce1 hashTarget).toBlockHeader with
      hashMerkleRoot := job.merkleRoot extraNonce1 updated.getExtraNonce2 }
  jobName : updated.jobName = job.name
  hashTarget : updated.hashTarget = hashTarget
  transaction : updated.getBlockTransaction =
    some (lowerCase (job.coinbaseText extraNonce1 updated.getExtraNonce2))

theorem prepared_of_updateExtraNonce (hsend : job.Sendable extraNonce1) {updated : Work}
    {extraNonce : BitVec 32}
    (h : (job.work extraNonce1 hashTarget).updateExtraNonce extraNonce = some updated) :
    job.Prepared extraNonce1 hashTarget updated := by
  obtain ⟨tx, vtx, coinbase, hvtx, hcoinbase, rfl⟩ := Work.updateExtraNonce_eq h
  obtain ⟨-, rfl⟩ := List.cons.inj hvtx
  have hwhole := hsend.coinbase extraNonce
  obtain ⟨⟨hhex, hserialize⟩, hhash⟩ := hwhole.decoded
  have hdecoded :
      coinbase = decodedTx (job.coinbaseText extraNonce1 (hexStrMemory extraNonce)) := by
    split at hcoinbase
    next hpart => exact absurd hpart hsend.part
    next => exact (Option.some.inj hcoinbase).symm.trans hhash
  have htransactions (tx : CTransaction) (htx : tx ∈ job.transactions) :
      (decodedTx (hexStr tx.serialize)).hash = Sha256.hash256 tx.serialize := by
    obtain ⟨hfits, hlength⟩ := hsend.transactions tx htx
    rw [hash_decodedTx (whole_hexStr hfits hlength), parseHex_hexStr]
  have hroot : computeMerkleRoot
      ((coinbase :: (job.transactions.map fun tx => hexStr tx.serialize).map decodedTx).map
        CTransaction.hash) = job.merkleRoot extraNonce1 (hexStrMemory extraNonce) := by
    rw [List.map_cons, hdecoded, hash_decodedTx hwhole, List.map_map, List.map_map]
    exact congrArg (fun hashes => computeMerkleRoot (_ :: hashes))
      (List.map_congr_left htransactions)
  refine ⟨?_, rfl, rfl, ?_⟩
  · exact congrArg
      (fun root => { (job.work extraNonce1 hashTarget).toBlockHeader with hashMerkleRoot := root })
      hroot
  · show some (hexStr coinbase.serialize) = _
    rw [hdecoded, hserialize, hexStr_parseHex hhex]
    rfl

theorem Prepared.checks {K : Nrghash.KeccakFns} {updated : Work}
    (h : job.Prepared extraNonce1 hashTarget updated) {nNonce : BitVec 64} {hashMix : Uint256}
    (hmix : (powOutcome K { updated.toBlockHeader with nNonce, hashMix }).2 =
      { updated.toBlockHeader with nNonce, hashMix })
    (htarget : gpuAccepts (powOutcome K { updated.toBlockHeader with nNonce, hashMix }).1
      updated.hashTarget = true) {transaction : String}
    (htransaction : updated.getBlockTransaction = some transaction) :
    job.Checks K extraNonce1 hashTarget (shareOf { updated with nNonce, hashMix } transaction) := by
  have hheader : job.header extraNonce1 (shareOf { updated with nNonce, hashMix } transaction) =
      { updated.toBlockHeader with nNonce, hashMix } := by
    have hversion : updated.nVersion = job.version := congrArg BlockHeader.nVersion h.header
    have hprev : updated.hashPrevBlock = job.hashPrevBlock :=
      congrArg BlockHeader.hashPrevBlock h.header
    have hroot : updated.hashMerkleRoot = job.merkleRoot extraNonce1 updated.getExtraNonce2 :=
      congrArg BlockHeader.hashMerkleRoot h.header
    have hbits : updated.nBits = job.bits := congrArg BlockHeader.nBits h.header
    have hheight : updated.nHeight = job.height := congrArg BlockHeader.nHeight h.header
    dsimp only
    rw [hversion, hprev, hroot, hbits, hheight]
    rfl
  refine ⟨h.jobName, congrArg BlockHeader.nTime h.header, ?_, ?_, ?_, ?_⟩
  · exact Option.some.inj (htransaction.symm.trans h.transaction)
  · rw [hheader]
    rfl
  · rw [hheader]
    exact hmix
  · rw [hheader, ← h.hashTarget]
    exact htarget

end PoolJob

/-! ## What the client hands out -/

section Delivered
variable {s t : State} {e : Event}

/-- A work that is handed out stays so, and a new one is that of the job that is received. -/
theorem delivered_step (h : step s e = some (.ok t)) :
    s.plant.delivered ⊆ t.plant.delivered ∧ ∀ w ∈ t.plant.delivered, w ∈ s.plant.delivered ∨
      ∃ jPrm, s.receives e = .job jPrm ∧
        Work.ofStratum jPrm s.job.extraNonce1 s.job.nextWorkTarget = .ok w := by
  by_cases hnojob : NoJob s e
  · rw [(job_of_noJob hnojob h).2]
    exact ⟨List.Subset.refl _, fun w hw => .inl hw⟩
  · simp only [NoJob, not_forall, not_not] at hnojob
    obtain ⟨jPrm, hjob⟩ := hnojob
    obtain ⟨ps, htake⟩ := takeJob_of_step h hjob
    obtain ⟨resetJob, work, -, hwork, rfl⟩ := takeJob_eq_ok htake.symm
    split
    next =>
      refine ⟨List.subset_cons_self _ _, fun w hw => ?_⟩
      rcases List.mem_cons.mp hw with rfl | hw
      · exact .inr ⟨jPrm, hjob, hwork⟩
      · exact .inl hw
    next => exact ⟨List.Subset.refl _, fun w hw => .inl hw⟩

end Delivered

namespace Mining
variable {K : Nrghash.KeccakFns} {s t : Mining} {e : Event}

/-- What the farm finds is a solution that the client may get from a miner. -/
theorem holds_of_solves {getPOWHash : BlockHeader → Uint256 × BlockHeader} {p : Plant}
    {solution : Solution} (h : Farm.Solves getPOWHash p.delivered solution) :
    p.holds solution.work = true := by
  obtain ⟨updated, ⟨w, hw, extraNonce, hupdate⟩, hvalid, hwork⟩ := h.searched
  obtain ⟨tx, vtx, coinbase, -, -, rfl⟩ := Work.updateExtraNonce_eq hupdate
  rw [Plant.holds, hwork, Bool.and_eq_true, List.any_eq_true]
  exact ⟨hvalid, w, hw, by simp [Work.eqv]⟩

/-! ## The invariant -/

/-- The farm works for the client. -/
structure Sound (K : Nrghash.KeccakFns) (s : Mining) : Prop where
  farm : Farm.Sound (powOutcome K) s.farm
  given : s.farm.given ⊆ s.client.plant.delivered
  submitting : ∀ entry ∈ s.submitting, Farm.Solves (powOutcome K) s.farm.given entry.2

theorem sound_init (hs : s = { client := s.client }) : Sound K s := by
  rw [hs]
  exact ⟨Farm.sound_init, List.nil_subset _, fun _ h => absurd h List.not_mem_nil⟩

theorem Sound.setClient (h : Sound K s) {client : State}
    (hmore : s.client.plant.delivered ⊆ client.plant.delivered) : Sound K { s with client } :=
  ⟨h.farm, List.Subset.trans h.given hmore, h.submitting⟩

theorem Sound.setFarm (h : Sound K s) {farm : Farm} (hfarm : Farm.Sound (powOutcome K) farm)
    (hmore : s.farm.given ⊆ farm.given) (hgiven : farm.given ⊆ s.client.plant.delivered) :
    Sound K { s with farm } :=
  ⟨hfarm, hgiven, fun entry hentry => (h.submitting entry hentry).mono hmore⟩

/-- The farm is given nothing new. -/
theorem Sound.setFarm_of_eq (h : Sound K s) {farm : Farm} (hfarm : Farm.Sound (powOutcome K) farm)
    (hgiven : farm.given = s.farm.given) : Sound K { s with farm } :=
  h.setFarm hfarm (hgiven ▸ List.Subset.refl _) (hgiven ▸ h.given)

theorem sound_call (h : Sound K s) {c : MinePlant.Call} (hmay : s.mayCall c = true)
    (hcall : s.call c = .ok t) : Sound K t := by
  obtain ⟨farm, hfarm, ht⟩ := bind_eq_ok.mp hcall
  obtain rfl := Except.ok.inj ht
  have hfarm := mapError_eq_ok.mp hfarm
  have hgiven := Farm.given_call hfarm
  refine h.setFarm (Farm.sound_call h.farm hfarm) ?_ ?_
  · rw [hgiven]
    exact List.subset_append_right _ _
  · rw [hgiven]
    refine List.append_subset.mpr ⟨fun w hw => ?_, h.given⟩
    cases c with
    | setWork work extraNonces =>
      rw [List.mem_singleton.mp hw]
      exact of_decide_eq_true hmay
    | _ => cases hw

theorem sound_evaluate (h : Sound K s) {i : Nat} {work : Work}
    (hwork : s.farm.searching i = some work) (nonce : BitVec 64) (gpu : Bool) :
    Sound K (s.evaluate (powOutcome K) i work nonce gpu) := by
  have hfarm := Farm.sound_evaluate (Farm.setsMix_powOutcome K) h.farm hwork nonce gpu
  have hsound := h.setFarm_of_eq hfarm (Farm.given_evaluate ..)
  rw [evaluate]
  dsimp only
  split
  next haccepts =>
    refine { hsound with submitting := fun entry hentry => ?_ }
    rcases List.mem_cons.mp hentry with rfl | hentry
    · exact hfarm.found _ (Farm.mem_found_evaluate haccepts)
    · exact hsound.submitting entry hentry
  next => exact hsound

/-- A solution that is passed to the client is one of its events. -/
theorem found_of_submit (h : Sound K s) {solution : Solution}
    (hsolution : Farm.Solves (powOutcome K) s.farm.given solution)
    (hsubmit : s.submit solution = .ok t) :
    Stratum.step s.client (.found solution) = some (.ok t.client) ∧
      t = { s with
        client := t.client
        requests := (submission s.client solution).toList ++ s.requests } := by
  obtain ⟨client, hclient, ht⟩ := bind_eq_ok.mp hsubmit
  obtain rfl := Except.ok.inj ht
  have hholds := holds_of_solves (p := s.client.plant) (hsolution.mono h.given)
  exact ⟨by rw [Stratum.step, if_pos hholds, mapError_eq_ok.mp hclient], rfl⟩

theorem Sound.lookup (h : Sound K s) {i : Nat} {solution : Solution}
    (hlookup : s.submitting.lookup i = some solution) :
    Farm.Solves (powOutcome K) s.farm.given solution := by
  obtain ⟨before, after, heq, -⟩ := List.lookup_eq_some_iff.mp hlookup
  exact h.submitting (i, solution) (by simp [heq])

theorem Sound.clear (h : Sound K s) (i : Nat) :
    Sound K { s with submitting := s.submitting.filter fun entry => entry.1 ≠ i } :=
  { h with submitting := fun entry hentry => h.submitting entry (List.mem_of_mem_filter hentry) }

/-- What the client and the pool see of a step. -/
inductive Seen (K : Nrghash.KeccakFns) (s : Mining) (e : Event) (t : Mining) : Prop
  | client (event : Stratum.Event) (he : e = .client event)
    (hstep : Stratum.step s.client event = some (.ok t.client))
    (hrequests : t.requests = s.requests)
  | submit (solution : Solution) (hsolution : Farm.Solves (powOutcome K) s.farm.given solution)
    (hstep : Stratum.step s.client (.found solution) = some (.ok t.client))
    (hrequests : t.requests = (submission s.client solution).toList ++ s.requests)
  | farm (hclient : t.client = s.client) (hrequests : t.requests = s.requests)

theorem sound_step (h : Sound K s) (hstep : step (powOutcome K) s e = some (.ok t)) :
    Sound K t ∧ Seen K s e t := by
  cases e with
  | client event =>
    rw [step] at hstep
    split at hstep
    next =>
      obtain ⟨r, hr, ht⟩ := Option.map_eq_some_iff.mp hstep
      obtain ⟨client, hclient, ht⟩ := bind_eq_ok.mp ht
      obtain rfl := Except.ok.inj ht
      rw [mapError_eq_ok.mp hclient] at hr
      exact ⟨h.setClient (delivered_step hr).1, .client event rfl hr rfl⟩
    next => cases hstep
  | call c =>
    rw [step] at hstep
    split at hstep
    next hmay =>
      have hcall := Option.some.inj hstep
      refine ⟨sound_call h hmay hcall, ?_⟩
      obtain ⟨farm, -, ht⟩ := bind_eq_ok.mp hcall
      obtain rfl := Except.ok.inj ht
      exact .farm rfl rfl
    next => cases hstep
  | getWork i =>
    rw [step] at hstep
    split at hstep
    next => cases hstep
    next =>
      obtain ⟨farm, hfarm, ht⟩ := Option.map_eq_some_iff.mp hstep
      obtain rfl := Except.ok.inj ht
      exact ⟨h.setFarm_of_eq (Farm.sound_getWork h.farm hfarm) (Farm.given_getWork hfarm),
        .farm rfl rfl⟩
  | evaluate i nonce gpu =>
    rw [step] at hstep
    split at hstep
    next => cases hstep
    next =>
      obtain ⟨work, hwork, ht⟩ := Option.map_eq_some_iff.mp hstep
      obtain rfl := Except.ok.inj ht
      refine ⟨sound_evaluate h hwork nonce gpu, ?_⟩
      rw [evaluate]
      dsimp only
      split <;> exact .farm rfl rfl
  | submit i =>
    obtain ⟨solution, hlookup, ht⟩ := Option.map_eq_some_iff.mp hstep
    obtain ⟨hfound, heq⟩ := found_of_submit (h.clear i) (h.lookup hlookup) ht
    refine ⟨?_, .submit solution (h.lookup hlookup) hfound (by rw [heq])⟩
    rw [heq]
    exact { (h.clear i).setClient (delivered_step hfound).1 with }

/-- The client of a run is one of the runs of the client alone: what a farm finds is among what a
miner may find there. -/
theorem client_reachable (h : (system (powOutcome K)).Reachable (fun _ _ => True) s) :
    Stratum.system.Reachable (fun _ _ => True) s.client := by
  refine h.simulates (I := Sound K) (fun s hs => ⟨hs.1, sound_init hs.2⟩) ?_
  intro s e t hsound _ hstep
  obtain ⟨hsound', hseen⟩ := sound_step hsound hstep
  refine ⟨?_, hsound'⟩
  cases hseen with
  | client event _ hstep _ => exact Machine.Steps.refl.step trivial hstep
  | submit solution _ hstep _ => exact Machine.Steps.refl.step (e := .found solution) trivial hstep
  | farm hclient _ =>
    rw [hclient]
    exact .refl

/-! ## The shares -/

/-- The jobs come from pools that print them. -/
def FromPools (s : Mining) : Event → Prop
  | .client event => ∀ jPrm, s.client.receives event = .job jPrm →
    ∃ job : PoolJob, jPrm = job.params ∧ job.Sendable s.client.job.extraNonce1
  | _ => True

/-- The work of a job that a pool printed. -/
def FromPool (w : Work) : Prop :=
  ∃ job extraNonce1 hashTarget, PoolJob.Sendable job extraNonce1 ∧
    w = job.work extraNonce1 hashTarget

/-- The requests are about solutions of the works that were handed out, and these come from pools.
-/
structure Shares (K : Nrghash.KeccakFns) (s : Mining) : Prop where
  sound : Sound K s
  delivered : ∀ w ∈ s.client.plant.delivered, FromPool w
  requests : ∀ jReq ∈ s.requests, ∃ solution transaction client u,
    Farm.Solves (powOutcome K) s.client.plant.delivered solution ∧
      solution.getBlockTransaction = some transaction ∧
      jReq = submitRequest client u solution transaction

theorem shares_init (hinit : (system (powOutcome K)).init s) : Shares K s := by
  obtain ⟨⟨cfg, connections, maxTries, failoverTimeout, -, -, hclient⟩, hs⟩ := hinit
  refine ⟨sound_init hs, fun w hw => ?_, fun jReq hjReq => ?_⟩
  · rw [hclient] at hw
    exact absurd hw List.not_mem_nil
  · rw [hs] at hjReq
    exact absurd hjReq List.not_mem_nil

/-- What was requested stays about works that were handed out. -/
theorem Shares.requests_mono (h : Shares K s) {delivered : List Work}
    (hmore : s.client.plant.delivered ⊆ delivered) : ∀ jReq ∈ s.requests,
    ∃ solution transaction client u, Farm.Solves (powOutcome K) delivered solution ∧
      solution.getBlockTransaction = some transaction ∧
      jReq = submitRequest client u solution transaction := by
  intro jReq hjReq
  obtain ⟨solution, transaction, client, u, hsolves, hrest⟩ := h.requests jReq hjReq
  exact ⟨solution, transaction, client, u, hsolves.mono hmore, hrest⟩

theorem shares_step (h : Shares K s) (he : FromPools s e)
    (hstep : step (powOutcome K) s e = some (.ok t)) : Shares K t := by
  obtain ⟨hsound, hseen⟩ := sound_step h.sound hstep
  cases hseen with
  | client event hevent hstep hrequests =>
    obtain ⟨hmore, hnew⟩ := delivered_step hstep
    refine ⟨hsound, fun w hw => ?_, hrequests ▸ h.requests_mono hmore⟩
    rcases hnew w hw with hold | ⟨jPrm, hjob, hwork⟩
    · exact h.delivered w hold
    · rw [hevent] at he
      obtain ⟨job, rfl, hsend⟩ := he jPrm hjob
      rw [PoolJob.ofStratum_params] at hwork
      exact ⟨job, _, _, hsend, (Except.ok.inj hwork).symm⟩
  | submit solution hsolution hstep hrequests =>
    have hnojob : NoJob s.client (.found solution) := fun jPrm hjob => by cases hjob
    have hdelivered := (job_of_noJob hnojob hstep).2
    refine ⟨hsound, hdelivered ▸ h.delivered, ?_⟩
    rw [hrequests, hdelivered]
    intro jReq hjReq
    rcases List.mem_append.mp hjReq with hjReq | hjReq
    · obtain ⟨-, u, transaction, -, htransaction, rfl⟩ :=
        submission_eq_some (Option.mem_toList.mp hjReq)
      exact ⟨solution, transaction, s.client, u, hsolution.mono h.sound.given, htransaction, rfl⟩
    · exact h.requests jReq hjReq
  | farm hclient hrequests =>
    refine ⟨hsound, hclient ▸ h.delivered, ?_⟩
    rw [hrequests, hclient]
    exact h.requests

/-- Every share that was ever sent passes the checks of the pool for a job whose work was handed
out. -/
theorem shares_pass_checks (h : (system (powOutcome K)).Reachable FromPools s) :
    ∀ jReq ∈ s.requests, ∃ job extraNonce1 hashTarget share,
      PoolJob.work job extraNonce1 hashTarget ∈ s.client.plant.delivered ∧
        Share.ofRequest jReq = some share ∧ job.Checks K extraNonce1 hashTarget share := by
  have hshares : Shares K s :=
    h.invariant (fun _ hinit => shares_init hinit) fun _ _ _ hs he hstep => shares_step hs he hstep
  intro jReq hjReq
  obtain ⟨⟨work⟩, transaction, client, u, hsolves, htransaction, rfl⟩ := hshares.requests jReq hjReq
  obtain ⟨updated, ⟨w, hw, extraNonce, hupdate⟩, hvalid, hwork⟩ := hsolves.searched
  obtain ⟨job, extraNonce1, hashTarget, hsend, rfl⟩ := hshares.delivered w hw
  obtain ⟨nNonce, hashMix, rfl⟩ : ∃ nNonce hashMix, work = { updated with nNonce, hashMix } :=
    ⟨_, _, hwork⟩
  have hprepared := PoolJob.prepared_of_updateExtraNonce hsend hupdate
  refine ⟨job, extraNonce1, hashTarget, _, hw, PoolJob.ofRequest_submitRequest .., ?_⟩
  refine hprepared.checks hsolves.mix hsolves.target ?_
  rw [Solution.getBlockTransaction] at htransaction
  split at htransaction
  next => exact htransaction
  next => cases htransaction

/-! ## A run -/

/-- A coinbase with one input. -/
def coinbaseWith (scriptSig : List Byte) : CTransaction :=
  ⟨Uint256.null, 1, [⟨COutPoint.new, scriptSig, 0xffffffff⟩], [], 0⟩

/-- A job whose coinbase has a script of six bytes, the last five of them extra nonces. -/
def firstJob : PoolJob where
  name := "job"
  hashPrevBlock := Uint256.null
  coinbase1 := hexStr (leBytes 4 (1 : BitVec 32) ++ [1] ++ COutPoint.new.serialize ++ [6] ++ [0x51])
  coinbase2 := hexStr (leBytes 4 (0xffffffff : BitVec 32) ++ [0] ++ leBytes 4 (0 : BitVec 32))
  transactions := []
  version := 4
  bits := 0x1e0fffff
  time := 1523000000
  clean := true
  height := 7

theorem hexStr_append (a b : List Byte) : hexStr (a ++ b) = hexStr a ++ hexStr b := by
  rw [hexStr, List.flatMap_append, String.ofList_append]
  rfl

theorem serialize_coinbaseWith {scriptSig : List Byte} (h : scriptSig.length = 6) :
    (coinbaseWith scriptSig).serialize =
      leBytes 4 (1 : BitVec 32) ++ [1] ++ COutPoint.new.serialize ++ [6] ++ scriptSig ++
        (leBytes 4 (0xffffffff : BitVec 32) ++ [0] ++ leBytes 4 (0 : BitVec 32)) := by
  have hone : writeCompactSize 1 = [1] := by decide
  have hsix : writeCompactSize 6 = [6] := by decide
  have hzero : writeCompactSize 0 = [0] := by decide
  simp only [CTransaction.serialize, coinbaseWith, serializeVector, List.length_cons,
    List.length_nil, hone, hzero, List.flatMap_cons, List.flatMap_nil, CTxIn.serialize,
    serializeBytes, h, hsix, List.append_assoc, List.append_nil, Nat.zero_add]

theorem fits_coinbaseWith {scriptSig : List Byte} (h : scriptSig.length = 6) :
    (coinbaseWith scriptSig).Fits := by
  refine ⟨⟨show 1 ≤ MAX_SIZE by decide, fun i hi => ?_⟩, Nat.zero_le _,
    fun o ho => absurd ho List.not_mem_nil⟩
  rw [List.mem_singleton.mp hi, CTxIn.Fits, h]
  decide

theorem sendable_firstJob : firstJob.Sendable "ab" where
  part := by decide +kernel
  transactions _ h := absurd h List.not_mem_nil
  coinbase extraNonce2 := by
    have hlength : ([0x51, 0xab] ++ leBytes 4 extraNonce2).length = 6 := by
      rw [List.length_append, length_leBytes]
      rfl
    have hextra : "ab" = hexStr [0xab] := by decide +kernel
    have htext : firstJob.coinbaseText "ab" (hexStrMemory extraNonce2) =
        hexStr (coinbaseWith ([0x51, 0xab] ++ leBytes 4 extraNonce2)).serialize := by
      rw [serialize_coinbaseWith hlength, PoolJob.coinbaseText, hextra, hexStrMemory, firstJob,
        ← hexStr_append, ← hexStr_append, ← hexStr_append]
      simp only [List.append_assoc, List.cons_append, List.nil_append]
    rw [htext]
    refine PoolJob.whole_hexStr (fits_coinbaseWith hlength) ?_
    rw [serialize_coinbaseWith hlength]
    simp only [List.length_append, hlength, length_leBytes, List.length_cons, List.length_nil]
    decide +kernel

/-- A pool that accepts the login and sends the job. -/
def poolScript : List Value :=
  [answerTo 1 (.array [.null, .string "ab"]), answerTo 3 (.bool true),
    .object [("method", .string "mining.notify"), ("params", firstJob.params)]]

/-- The parameters are those of the job. -/
def isFirstJob : Value → Bool
  | .array [.string name, .string prev, .string coinbase1, .string coinbase2, .array [],
      .string version, .string bits, .string time, .bool clean, .int height] =>
    decide ([name, prev, coinbase1, coinbase2, version, bits, time] =
      [firstJob.name, String.ofList firstJob.hashPrevBlock.getHex, firstJob.coinbase1,
        firstJob.coinbase2, hexPadded 8 firstJob.version.toNat, hexPadded 8 firstJob.bits.toNat,
        hexPadded 8 firstJob.time.toNat] ∧ clean = true ∧ height = 7)
  | _ => false

theorem eq_params_of_isFirstJob {jPrm : Value} (h : isFirstJob jPrm = true) :
    jPrm = firstJob.params := by
  unfold isFirstJob at h
  split at h
  next =>
    obtain ⟨htexts, rfl, rfl⟩ := of_decide_eq_true h
    simp only [List.cons.injEq, and_true] at htexts
    obtain ⟨rfl, rfl, rfl, rfl, rfl, rfl, rfl⟩ := htexts
    rfl
  next => cases h

/-- The only job is the one of the pool, after the login. -/
def onlyFirstJob (s : Mining) : Event → Bool
  | .client event =>
    match (s.client.receives event).job? with
    | some jPrm => isFirstJob jPrm && decide (s.client.job.extraNonce1 = "ab")
    | none => true
  | _ => true

theorem fromPools_of_onlyFirstJob (h : onlyFirstJob s e = true) : FromPools s e := by
  cases e with
  | client event =>
    intro jPrm hjob
    rw [onlyFirstJob, hjob] at h
    obtain ⟨hfirst, hextra⟩ := Bool.and_eq_true_iff.mp h
    exact ⟨firstJob, eq_params_of_isFirstJob hfirst, of_decide_eq_true hextra ▸ sendable_firstJob⟩
  | _ => trivial

/-- The login and the job. -/
def loginEvents : List Event := (connecting ++ message 0 ++ message 1 ++ message 2).map .client

/-- A miner is started, takes the work of the job with the extra nonce 2, and submits the nonce 5.
-/
def shareEvents : List Event :=
  [.call (.start [.kCPU] ⟨0, 0, 2⟩ fun _ => 1),
    .call (.setWork (firstJob.work "ab" DIFF1_TARGET) fun _ => 2), .getWork 0, .evaluate 0 5 false,
    .submit 0]

theorem reaches_first_share :
    ∃ s, (system (powOutcome Farm.zeroKeccak)).Reachable FromPools s ∧ s.requests.length = 1 := by
  have hlogin : (system (powOutcome Farm.zeroKeccak)).Meets (fun s e => onlyFirstJob s e = true)
      { client := scriptedClient poolScript [poolOn "a" .none] } loginEvents := by decide +kernel
  have hends : (system (powOutcome Farm.zeroKeccak)).endsIn (fun s =>
      (system (powOutcome Farm.zeroKeccak)).endsIn (fun t => t.requests.length = 1) s shareEvents)
      { client := scriptedClient poolScript [poolOn "a" .none] } loginEvents = true := by
    decide +kernel
  obtain ⟨s, hsteps, hs⟩ := Machine.steps_of_endsIn hlogin hends
  have hshare : ∀ e ∈ shareEvents, ∀ s, FromPools s e := by
    simp only [shareEvents, List.forall_mem_cons]
    exact ⟨fun _ => trivial, fun _ => trivial, fun _ => trivial, fun _ => trivial, fun _ => trivial,
      fun e he => absurd he List.not_mem_nil⟩
  obtain ⟨t, hsteps', ht⟩ := Machine.steps_of_endsIn (Machine.meets_of_forall hshare s) hs
  have hinit : (system (powOutcome Farm.zeroKeccak)).init
      { client := scriptedClient poolScript [poolOn "a" .none] } :=
    ⟨initial_scriptedClient (by simp), rfl⟩
  refine ⟨t, ⟨_, hinit, ?_⟩, of_decide_eq_true ht⟩
  exact (hsteps.mono fun _ _ => fromPools_of_onlyFirstJob).trans
    (hsteps'.mono fun s _ h => h s)

theorem first_share_passes_checks :
    ∃ s, (system (powOutcome Farm.zeroKeccak)).Reachable FromPools s ∧ s.requests.length = 1 ∧
      ∀ jReq ∈ s.requests, ∃ job extraNonce1 hashTarget share,
        PoolJob.work job extraNonce1 hashTarget ∈ s.client.plant.delivered ∧
          Share.ofRequest jReq = some share ∧
          job.Checks Farm.zeroKeccak extraNonce1 hashTarget share := by
  obtain ⟨s, hreach, hrequests⟩ := reaches_first_share
  exact ⟨s, hreach, hrequests, shares_pass_checks hreach⟩

theorem client_of_first_share_reachable :
    ∃ s : Mining, s.requests.length = 1 ∧
      Stratum.system.Reachable (fun _ _ => True) s.client := by
  obtain ⟨s, ⟨s₀, hinit, hsteps⟩, hrequests⟩ := reaches_first_share
  exact ⟨s, hrequests, client_reachable ⟨s₀, hinit, hsteps.mono fun _ _ _ => trivial⟩⟩

end Mining

end Energiminer.Stratum
