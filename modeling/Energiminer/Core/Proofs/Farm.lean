import Energiminer.Core.Farm
import Energiminer.Core.Proofs.MinePlant
import Energiminer.Core.Proofs.Miner

/-!
# What a farm finds

Every solution that a farm submits comes from a work that was given to its plant: it is that work
with a new extra nonce, a nonce and the mix hash, and its hash meets the target. No work is searched
that was reset, and no copy is mixed with another work.
-/

namespace Energiminer.Core.Farm
open Misc Misc.Except Primitives Engines

/-- `GetPOWHash` stores the mix hash, and does not look at the one that was there. -/
structure SetsMix (getPOWHash : BlockHeader → Uint256 × BlockHeader) : Prop where
  sets : ∀ header, ∃ hashMix, (getPOWHash header).2 = { header with hashMix }
  ignores : ∀ header hashMix, getPOWHash { header with hashMix } = getPOWHash header

/-- The work was made from one of the given works for a new extra nonce. -/
def Assigned (given : List Work) (work : Work) : Prop :=
  ∃ w ∈ given, ∃ extraNonce, w.updateExtraNonce extraNonce = some work

/-- The work is an assigned one up to the nonce and the mix hash. -/
def Searched (given : List Work) (work : Work) : Prop :=
  ∃ w, Assigned given w ∧ w.isValid = true ∧
    work = { w with nNonce := work.nNonce, hashMix := work.hashMix }

theorem setsMix_powOutcome (K : Nrghash.KeccakFns) : SetsMix (powOutcome K) :=
  ⟨fun _ => ⟨_, rfl⟩, fun _ _ => rfl⟩

variable {getPOWHash : BlockHeader → Uint256 × BlockHeader}

/-- The solution is for one of the given works, its mix hash is the one of its nonce, and its hash
meets the target. -/
structure Solves (getPOWHash : BlockHeader → Uint256 × BlockHeader) (given : List Work)
    (s : Solution) : Prop where
  searched : Searched given s.work
  mix : (getPOWHash s.work.toBlockHeader).2 = s.work.toBlockHeader
  target : gpuAccepts (getPOWHash s.work.toBlockHeader).1 s.work.hashTarget = true

variable {given more : List Work} {w work : Work} {f g : Farm}

theorem Assigned.mono (h : Assigned given work) (hmore : given ⊆ more) : Assigned more work := by
  obtain ⟨w, hw, extraNonce, hupdate⟩ := h
  exact ⟨w, hmore hw, extraNonce, hupdate⟩

theorem Searched.mono (h : Searched given work) (hmore : given ⊆ more) : Searched more work := by
  obtain ⟨w, hw, hrest⟩ := h
  exact ⟨w, hw.mono hmore, hrest⟩

theorem Solves.mono {s : Solution} (h : Solves getPOWHash given s) (hmore : given ⊆ more) :
    Solves getPOWHash more s := ⟨h.searched.mono hmore, h.mix, h.target⟩

theorem gpuAccepts_of_accepts {gpu : Bool} {hash : Uint256} {hashTarget : ArithUint256}
    (h : accepts gpu hash hashTarget = true) : gpuAccepts hash hashTarget = true := by
  cases gpu with
  | true => exact h
  | false =>
    rw [gpuAccepts, ArithUint256.le_iff]
    exact Nat.le_of_lt ((ArithUint256.lt_iff _ _).mp h)

theorem Assigned.searched (h : Assigned given work) (hvalid : work.isValid = true) :
    Searched given work := ⟨work, h, hvalid, rfl⟩

theorem hashedWork_eq (hpow : SetsMix getPOWHash) (work : Work) (nonce : BitVec 64) :
    ∃ hashMix, hashedWork getPOWHash work nonce = { work with nNonce := nonce, hashMix } := by
  obtain ⟨hashMix, hmix⟩ := hpow.sets { work.toBlockHeader with nNonce := nonce }
  exact ⟨hashMix, by rw [hashedWork, hmix]⟩

theorem Searched.hashedWork (h : Searched given work) (hpow : SetsMix getPOWHash)
    (nonce : BitVec 64) : Searched given (hashedWork getPOWHash work nonce) := by
  obtain ⟨w, hw, hvalid, hwork⟩ := h
  obtain ⟨hashMix, heq⟩ := hashedWork_eq hpow work nonce
  refine ⟨w, hw, hvalid, ?_⟩
  rw [heq, hwork]

/-- Hashing again gives the same hash and changes nothing. -/
theorem getPOWHash_hashedWork (hpow : SetsMix getPOWHash) (work : Work) (nonce : BitVec 64) :
    getPOWHash (hashedWork getPOWHash work nonce).toBlockHeader =
      getPOWHash { work.toBlockHeader with nNonce := nonce } := by
  obtain ⟨hashMix, hmix⟩ := hpow.sets { work.toBlockHeader with nNonce := nonce }
  show getPOWHash (getPOWHash { work.toBlockHeader with nNonce := nonce }).2 = _
  rw [hmix, hpow.ignores]

/-! ## The invariant -/

structure Sound (getPOWHash : BlockHeader → Uint256 × BlockHeader) (f : Farm) : Prop where
  plant : f.plant.work ∈ f.given ∨ f.plant.work.vtx = []
  miners : ∀ miner ∈ f.plant.miners, miner.work.isValid = true → Assigned f.given miner.work
  searching : ∀ i work, f.searching i = some work → Searched f.given work
  found : ∀ s ∈ f.found, Solves getPOWHash f.given s

theorem sound_init : Sound getPOWHash {} where
  plant := .inr rfl
  miners _ h := absurd h List.not_mem_nil
  searching _ _ h := by cases h
  found _ h := absurd h List.not_mem_nil

theorem assigned_of_assign {a b : Assignment} {extraNonce : BitVec 32}
    (h : assign a work extraNonce = .ok b) (ha : a.work.isValid = true → Assigned given a.work)
    (hwork : work ∈ given ∨ work.vtx = []) : b.work.isValid = true → Assigned given b.work := by
  rw [assign] at h
  split at h
  next =>
    cases h
    exact ha
  next =>
    split at h
    next updated hupdate =>
      cases h
      intro _
      refine ⟨work, hwork.resolve_right fun hvtx => ?_, extraNonce, hupdate⟩
      rw [Work.updateExtraNonce_eq_none hvtx] at hupdate
      cases hupdate
    next => cases h

theorem miners_of_call (h : Sound getPOWHash f) {c : MinePlant.Call} {plant : MinePlant}
    (hcall : f.plant.call c = .ok plant) :
    (plant.work ∈ givenBy c ++ f.given ∨ plant.work.vtx = []) ∧
      ∀ miner ∈ plant.miners, miner.work.isValid = true →
        Assigned (givenBy c ++ f.given) miner.work := by
  have hgiven : f.given ⊆ givenBy c ++ f.given := List.subset_append_right _ _
  have hplant : f.plant.work ∈ givenBy c ++ f.given ∨ f.plant.work.vtx = [] :=
    h.plant.imp_left fun hw => hgiven hw
  have hold (miner : Assignment) (hmem : miner ∈ f.plant.miners)
      (hvalid : miner.work.isValid = true) : Assigned (givenBy c ++ f.given) miner.work :=
    (h.miners miner hmem hvalid).mono hgiven
  cases c with
  | start engines hw extraNonces =>
    rw [MinePlant.call, MinePlant.start] at hcall
    split at hcall
    next =>
      cases hcall
      exact ⟨hplant, hold⟩
    next =>
      obtain ⟨created, hcreated, hq⟩ := bind_eq_ok.mp hcall
      cases hq
      refine ⟨hplant, fun miner hmem => ?_⟩
      rcases List.mem_append.mp hmem with hmem | hnew
      · exact hold miner hmem
      · obtain ⟨i, -, hassign⟩ := mem_of_mapM hcreated hnew
        exact assigned_of_assign hassign (fun hvalid => by cases hvalid) hplant
  | stop =>
    cases hcall
    rw [MinePlant.stop]
    split
    next => exact ⟨hplant, fun miner hmem => absurd hmem List.not_mem_nil⟩
    next => exact ⟨hplant, hold⟩
  | setWork work extraNonces =>
    obtain ⟨miners, hminers, hq⟩ := bind_eq_ok.mp hcall
    cases hq
    have hwork : work ∈ [work] ++ f.given := List.mem_cons_self
    refine ⟨.inl hwork, fun miner hmem => ?_⟩
    obtain ⟨⟨old, i⟩, hmem', hassign⟩ := mem_of_mapM hminers hmem
    exact assigned_of_assign hassign (hold old (List.fst_mem_of_mem_zipIdx hmem')) (.inl hwork)
  | resetWork =>
    cases hcall
    refine ⟨.inr rfl, fun miner hmem hvalid => ?_⟩
    obtain ⟨old, -, rfl⟩ := List.mem_map.mp hmem
    cases hvalid

theorem sound_call (h : Sound getPOWHash f) {c : MinePlant.Call} (hcall : f.call c = .ok g) :
    Sound getPOWHash g := by
  obtain ⟨plant, hplant, hg⟩ := bind_eq_ok.mp hcall
  obtain rfl := Except.ok.inj hg
  have hgiven : f.given ⊆ givenBy c ++ f.given := List.subset_append_right _ _
  obtain ⟨hwork, hminers⟩ := miners_of_call h hplant
  refine ⟨hwork, hminers, fun i work hi => ?_, fun s hs => (h.found s hs).mono hgiven⟩
  dsimp only at hi
  split at hi
  next => cases hi
  next => exact (h.searching i work hi).mono hgiven

theorem given_call {c : MinePlant.Call} (hcall : f.call c = .ok g) :
    g.given = givenBy c ++ f.given := by
  obtain ⟨plant, -, hg⟩ := bind_eq_ok.mp hcall
  obtain rfl := Except.ok.inj hg
  rfl

theorem given_getWork {i : Nat} (hget : f.getWork i = some g) : g.given = f.given := by
  obtain ⟨miner, -, rfl⟩ := Option.map_eq_some_iff.mp hget
  rfl

theorem given_evaluate (f : Farm) (i : Nat) (work : Work) (nonce : BitVec 64) (gpu : Bool) :
    (f.evaluate getPOWHash i work nonce gpu).given = f.given := by
  rw [evaluate]
  dsimp only
  split <;> rfl

theorem mem_found_evaluate {i : Nat} {nonce : BitVec 64} {gpu : Bool}
    (h : accepts gpu (getPOWHash { work.toBlockHeader with nNonce := nonce }).1 work.hashTarget =
      true) :
    ⟨hashedWork getPOWHash work nonce⟩ ∈ (f.evaluate getPOWHash i work nonce gpu).found := by
  rw [evaluate]
  dsimp only
  split
  next => exact List.mem_cons_self
  next haccepts => exact absurd h haccepts

theorem sound_setSearching (h : Sound getPOWHash f) (i : Nat) {copy : Option Work}
    (hcopy : ∀ work, copy = some work → Searched f.given work) :
    Sound getPOWHash (f.setSearching i copy) := by
  refine { h with searching := fun j work hj => ?_ }
  simp only [setSearching] at hj
  split at hj
  next => exact hcopy work hj
  next => exact h.searching j work hj

theorem sound_getWork (h : Sound getPOWHash f) {i : Nat} (hget : f.getWork i = some g) :
    Sound getPOWHash g := by
  obtain ⟨miner, hminer, rfl⟩ := Option.map_eq_some_iff.mp hget
  have hassigned := h.miners miner (List.mem_of_getElem? hminer)
  have hplant : Sound getPOWHash { f with plant := { f.plant with
      miners := f.plant.miners.set i { miner with newWorkAssigned := false } } } := by
    refine ⟨h.plant, fun other hmem => ?_, h.searching, h.found⟩
    rcases List.mem_or_eq_of_mem_set hmem with hmem | rfl
    · exact h.miners other hmem
    · exact hassigned
  refine sound_setSearching hplant i fun work hwork => ?_
  split at hwork
  next hvalid =>
    cases hwork
    exact (hassigned hvalid).searched hvalid
  next => cases hwork

theorem sound_evaluate (hpow : SetsMix getPOWHash) (h : Sound getPOWHash f) {i : Nat}
    (hwork : f.searching i = some work) (nonce : BitVec 64) (gpu : Bool) :
    Sound getPOWHash (f.evaluate getPOWHash i work nonce gpu) := by
  have hsearched := (h.searching i work hwork).hashedWork hpow nonce
  have hset : Sound getPOWHash (f.setSearching i (some (hashedWork getPOWHash work nonce))) :=
    sound_setSearching h i fun work hcopy => by cases hcopy; exact hsearched
  rw [evaluate]
  dsimp only
  split
  next haccepts =>
    refine { hset with found := fun s hs => ?_ }
    rcases List.mem_cons.mp hs with rfl | hs
    · have hhash := getPOWHash_hashedWork hpow work nonce
      refine ⟨hsearched, ?_, ?_⟩
      · dsimp only
        rw [hhash]
        rfl
      · dsimp only
        rw [hhash]
        exact gpuAccepts_of_accepts haccepts
    · exact hset.found s hs
  next => exact hset

/-- Hash functions under which any nonce solves a block. -/
def zeroKeccak : Nrghash.KeccakFns := ⟨fun _ => List.replicate 64 0, fun _ => List.replicate 32 0⟩

end Energiminer.Core.Farm
