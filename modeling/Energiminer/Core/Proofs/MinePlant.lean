import Energiminer.Core.MinePlant
import Energiminer.Misc.Except

/-!
# Miners that agree with their plant

After every call of the plant, the works of the miners equal the work of the plant. A reset takes the
transactions of the work, but not its target (`work.h:63-68`, `block.h:78-87`), so that a miner which is
created afterwards does not take the work for the blank one it starts with, and changes a coinbase that
is not there.
-/

namespace Energiminer.Primitives.Work

/-- There is a coinbase, and it has an input. -/
def HasCoinbase (w : Work) : Prop := ∃ tx ∈ w.vtx.head?, tx.vin ≠ []

theorem updateExtraNonce_isSome {w : Work} (h : w.HasCoinbase) (extraNonce : BitVec 32) :
    ∃ updated, w.updateExtraNonce extraNonce = some updated := by
  obtain ⟨tx, htx, hvin⟩ := h
  obtain ⟨vtx, hvtx⟩ : ∃ vtx, w.vtx = tx :: vtx := List.head?_eq_some_iff.mp htx
  obtain ⟨i, vin, hcons⟩ := List.exists_cons_of_ne_nil hvin
  rw [updateExtraNonce, mutateCoinbase]
  simp only [hvtx, templateCoinbase, hcons]
  split
  · exact ⟨_, rfl⟩
  · exact ⟨_, rfl⟩

theorem updateExtraNonce_eq_none {w : Work} (h : w.vtx = []) (extraNonce : BitVec 32) :
    w.updateExtraNonce extraNonce = none := by
  rw [updateExtraNonce, mutateCoinbase]
  simp only [h]

/-- A new extra nonce does not make another work. -/
theorem eqv_of_updateExtraNonce {w updated : Work} {extraNonce : BitVec 32}
    (h : w.updateExtraNonce extraNonce = some updated) : updated.eqv w := by
  rw [updateExtraNonce, mutateCoinbase] at h
  split at h
  next => cases h
  next =>
    obtain ⟨coinbase, -, rfl⟩ := Option.map_eq_some_iff.mp h
    exact eqv_refl w

/-- Works that are equal are so after a reset: the target is not reset. -/
theorem eqv_reset {a b : Work} (h : a.eqv b) : a.reset.eqv b.reset := by
  simp only [eqv, Bool.and_eq_true, decide_eq_true_eq] at h
  obtain ⟨-, htarget⟩ := h
  simp [eqv, reset, setNull, htarget]

end Energiminer.Primitives.Work

namespace Energiminer.Core
open Misc Misc.Except Primitives Engines

theorem assign_eqv {a b : Assignment} {work : Work} {extraNonce : BitVec 32}
    (h : assign a work extraNonce = .ok b) : b.work.eqv work := by
  rw [assign] at h
  split at h
  next heqv =>
    cases h
    exact Work.eqv_symm heqv
  next =>
    split at h
    next updated hupdated =>
      cases h
      exact Work.eqv_of_updateExtraNonce hupdated
    next => cases h

/-- An assignment succeeds if the miner has the work already or there is a coinbase to change. -/
theorem succeeds_assign {a : Assignment} {work : Work} (extraNonce : BitVec 32)
    (h : work.eqv a.work ∨ work.HasCoinbase) : Succeeds (assign a work extraNonce) := by
  rw [assign]
  split
  next => exact succeeds_ok a
  next hne =>
    obtain ⟨updated, hupdated⟩ :=
      Work.updateExtraNonce_isSome (h.resolve_left hne) extraNonce
    rw [hupdated]
    exact succeeds_ok _

theorem not_succeeds_assign {a : Assignment} {work : Work} {extraNonce : BitVec 32}
    (hne : ¬ work.eqv a.work) (h : work.vtx = []) : ¬ Succeeds (assign a work extraNonce) := by
  rw [assign, if_neg hne, Work.updateExtraNonce_eq_none h]
  exact not_succeeds_error _

namespace MinePlant

/-- The work that is passed to the call has a coinbase with an input. -/
def Call.HasCoinbase : Call → Prop
  | .setWork work _ => work.HasCoinbase
  | _ => True

/-- The call starts miners with the work of a plant that was reset. -/
def Call.StartsReset (p : MinePlant) : Call → Prop
  | .start engines hw _ =>
    p.isMining = false ∧ 0 < hw.total engines ∧ p.work.vtx = [] ∧ ¬ p.work.eqv .blank
  | _ => False

/-- What holds between the calls of a plant. -/
structure Agreed (p : MinePlant) : Prop where
  miners : ∀ miner ∈ p.miners, miner.work.eqv p.work
  idle : p.isMining = false → p.miners = []
  coinbase : p.work.vtx = [] ∨ p.work.HasCoinbase

variable {p q : MinePlant} {c : Call}

/-! ## One call -/

theorem eqv_of_start {engines : List EnumMinerEngine} {hw : Hardware} {extraNonces : Nat → BitVec 32}
    (hp : Agreed p) (h : p.start engines hw extraNonces = .ok q) : Agreed q := by
  rw [start] at h
  split at h
  next =>
    cases h
    exact hp
  next hidle =>
    obtain ⟨created, hcreated, hq⟩ := bind_eq_ok.mp h
    cases hq
    refine ⟨fun miner hmem => ?_, fun h => (nomatch h), hp.coinbase⟩
    rcases List.mem_append.mp hmem with hold | hnew
    · exact hp.miners miner hold
    · obtain ⟨i, -, hassign⟩ := mem_of_mapM hcreated hnew
      exact assign_eqv hassign

theorem Agreed.stop (hp : Agreed p) : Agreed p.stop := by
  rw [MinePlant.stop]
  split
  next => exact ⟨fun _ h => (nomatch h), fun _ => rfl, hp.coinbase⟩
  next => exact hp

theorem eqv_of_setWork {work : Work} {extraNonces : Nat → BitVec 32} (hp : Agreed p)
    (hwork : work.HasCoinbase) (h : p.setWork work extraNonces = .ok q) : Agreed q := by
  obtain ⟨miners, hminers, hq⟩ := bind_eq_ok.mp h
  cases hq
  refine ⟨fun miner hmem => ?_, fun hidle => ?_, .inr hwork⟩
  · obtain ⟨old, -, hassign⟩ := mem_of_mapM hminers hmem
    exact assign_eqv hassign
  · rw [hp.idle hidle] at hminers
    cases hminers
    rfl

theorem Agreed.resetWork (hp : Agreed p) : Agreed p.resetWork := by
  refine ⟨fun miner hmem => ?_, fun hidle => ?_, .inl rfl⟩
  · obtain ⟨old, hold, rfl⟩ := List.mem_map.mp hmem
    exact Work.eqv_reset (hp.miners old hold)
  · rw [MinePlant.resetWork, hp.idle hidle]
    rfl

theorem Agreed.call (hp : Agreed p) (hc : c.HasCoinbase) (h : p.call c = .ok q) : Agreed q := by
  cases c with
  | start engines hw extraNonces => exact eqv_of_start hp h
  | stop =>
    cases h
    exact hp.stop
  | setWork work extraNonces => exact eqv_of_setWork hp hc h
  | resetWork =>
    cases h
    exact hp.resetWork

/-! ## Any number of calls -/

theorem agreed_of_reachable (h : system.Reachable (fun _ c => c.HasCoinbase) p) : Agreed p :=
  h.invariant
    (fun p hp => by
      cases hp
      exact ⟨fun _ h => (nomatch h), fun _ => rfl, .inl rfl⟩)
    fun _ _ _ hp hc hstep => hp.call hc (Option.some.inj hstep)

theorem succeeds_start_iff (hp : Agreed p) (engines : List EnumMinerEngine) (hw : Hardware)
    (extraNonces : Nat → BitVec 32) : Succeeds (p.start engines hw extraNonces) ↔
      ¬ (Call.start engines hw extraNonces).StartsReset p := by
  rw [start]
  split
  next hmining =>
    refine ⟨fun _ hreset => ?_, fun _ => succeeds_ok p⟩
    exact absurd hmining (Bool.eq_false_iff.mp hreset.1)
  next hidle =>
    rw [succeeds_bind_iff (P := True) fun _ => by simp, and_true, succeeds_mapM]
    constructor
    · rintro hall ⟨-, hcount, hvtx, hne⟩
      exact not_succeeds_assign hne hvtx (hall 0 (List.mem_range.mpr hcount))
    · intro hnot i hi
      refine succeeds_assign _ ?_
      rcases hp.coinbase with hvtx | hcoinbase
      · refine .inl (Decidable.by_contra fun hne => hnot ⟨?_, ?_, hvtx, hne⟩)
        · exact Bool.eq_false_iff.mpr hidle
        · exact Nat.zero_lt_of_lt (List.mem_range.mp hi)
      · exact .inr hcoinbase

theorem succeeds_setWork {work : Work} (h : work.HasCoinbase) (extraNonces : Nat → BitVec 32) :
    Succeeds (p.setWork work extraNonces) := by
  rw [setWork, succeeds_bind_iff (P := True) fun _ => by simp, and_true, succeeds_mapM]
  exact fun _ _ => succeeds_assign _ (.inr h)

theorem succeeds_call_iff (hp : Agreed p) (hc : c.HasCoinbase) :
    Succeeds (p.call c) ↔ ¬ c.StartsReset p := by
  cases c with
  | start engines hw extraNonces => exact succeeds_start_iff hp engines hw extraNonces
  | setWork work extraNonces => exact ⟨fun _ => id, fun _ => succeeds_setWork hc extraNonces⟩
  | stop | resetWork => exact ⟨fun _ => id, fun _ => succeeds_ok _⟩

/-- A call finds the coinbases it changes if and only if it does not start miners with a work that was
reset, and after it the works of the miners equal the work of the plant. -/
theorem finds_coinbase_iff (h : system.Reachable (fun _ c => c.HasCoinbase) p)
    (hc : c.HasCoinbase) : ((∃ q, p.call c = .ok q) ↔ ¬ c.StartsReset p) ∧
      ∀ q, p.call c = .ok q → ∀ miner ∈ q.miners, miner.work.eqv q.work :=
  have hp := agreed_of_reachable h
  ⟨succeeds_call_iff hp hc, fun _ hq => (hp.call hc hq).miners⟩

/-- A work with a coinbase. -/
def template : Work :=
  { workAt 1 with vtx := [{ CTransaction.new with vin := [CTxIn.new] }] }

theorem hasCoinbase_template : template.HasCoinbase := ⟨_, rfl, List.cons_ne_nil _ _⟩

/-- A plant is started and given a work. -/
theorem finds_coinbase_started : ∃ p q : MinePlant, p.miners.length = 2 ∧
    p.call (.setWork template fun _ => 0) = .ok q ∧
      ∀ miner ∈ q.miners, miner.work.eqv q.work := by
  have hstart : system.step {} (.start [.kTest] ⟨0, 0, 1⟩ fun _ => 0) =
      some (.ok { miners := [{}, {}], isMining := true }) := rfl
  have hreach : system.Reachable (fun _ c => c.HasCoinbase)
      { miners := [{}, {}], isMining := true } := by
    refine ⟨{}, rfl, Machine.Steps.refl.step ?_ hstart⟩
    trivial
  obtain ⟨hiff, heqv⟩ := finds_coinbase_iff (c := .setWork template fun _ => 0) hreach
    hasCoinbase_template
  obtain ⟨q, hq⟩ := hiff.mpr id
  exact ⟨_, q, rfl, hq, heqv q hq⟩

/-- A work is set and reset before the miners are started: each of them is to change the coinbase of a
work without transactions. -/
theorem starts_without_coinbase :
    system.replay {} [.setWork template fun _ => 0, .resetWork,
      .start [.kTest] ⟨0, 0, 1⟩ fun _ => 0] = some (.error ⟨template.reset⟩) ∧
      template.reset.vtx = [] :=
  ⟨rfl, rfl⟩

end MinePlant

end Energiminer.Core
