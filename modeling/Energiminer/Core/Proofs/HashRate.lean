import Mathlib.Data.BitVec
import Energiminer.Core.HashRate
import Energiminer.Misc.Meter

/-!
# What the samples of the hash rate lose

The difference of two readings of the counter is right modulo 2^64, also when the counter has wrapped
around. `RetrieveHashRateDiff` subtracts 2^64 - 1 from differences of more than 32 bits, which adds one
hash for each of them.
-/

namespace Energiminer.Core.HashRate
open Misc

variable {s t : State} {e : Event}

theorem correct_eq (diff : BitVec 64) :
    correct diff = diff + if diff > UINT32_MAX then 1 else 0 := by
  have hmax : UINT64_MAX = -1 := by decide
  rw [correct, hmax]
  split
  · rw [sub_neg_eq_add]
  · exact (add_zero diff).symm

/-- The counter that is sampled. -/
def State.meter (s : State) : Meter (BitVec 64) :=
  ⟨s.count, s.last, s.amounts.sum, (s.samples.map Sample.returned).sum⟩

theorem conserves_iff_surplus (s : State) : s.Conserves ↔ s.meter.surplus = 0 :=
  s.meter.balanced_iff

/-- What holds in every state: nobody else has stored since the counter was loaded, and every large
sample has added one hash. -/
structure Sampled (s : State) : Prop where
  loaded : ∀ prev n, s.loaded = some (prev, n) → prev = s.count
  surplus : s.meter.surplus = BitVec.ofNat 64 s.large

theorem sampled_store (h : Sampled s) {prev n : BitVec 64} (hloaded : s.loaded = some (prev, n)) :
    Sampled { s with count := prev + n, loaded := none, amounts := n :: s.amounts } := by
  have hprev := h.loaded prev n hloaded
  subst hprev
  constructor
  · intro prev n hnone
    cases hnone
  · have hmeter : State.meter
        { s with count := s.count + n, loaded := none, amounts := n :: s.amounts } =
          s.meter.advance n := by
      rw [State.meter, List.sum_cons, BitVec.add_comm n]
      rfl
    rw [hmeter, Meter.surplus_advance]
    exact h.surplus

theorem sampled_retrieveHashRateDiff (h : Sampled s) : Sampled s.retrieveHashRateDiff := by
  refine ⟨h.loaded, ?_⟩
  have hmeter : s.retrieveHashRateDiff.meter =
      s.meter.report (if s.count - s.last > UINT32_MAX then 1 else 0) := by
    rw [State.meter, State.retrieveHashRateDiff, List.map_cons, List.sum_cons, correct_eq]
    rfl
  rw [hmeter, Meter.surplus_report, h.surplus, State.large, State.large,
    State.retrieveHashRateDiff, List.countP_cons, BitVec.ofNat_add]
  apply congrArg (_ + ·)
  by_cases hlarge : s.count - s.last > UINT32_MAX
  · simp [hlarge]
  · simp [hlarge]

theorem sampled_step (h : Sampled s) (hstep : step s e = some t) : Sampled t := by
  cases e with
  | load n =>
    rw [step] at hstep
    split at hstep
    next =>
      cases hstep
      refine ⟨fun prev m hloaded => ?_, h.surplus⟩
      exact (Prod.mk.inj (Option.some.inj hloaded)).1.symm
    next => cases hstep
  | store =>
    rw [step] at hstep
    split at hstep
    next => cases hstep
    next hloaded =>
      cases hstep
      exact sampled_store h hloaded
  | retrieveHashRateDiff =>
    cases hstep
    exact sampled_retrieveHashRateDiff h

theorem sampled_of_reachable (h : system.Reachable (fun _ _ => True) s) : Sampled s := by
  refine h.invariant ?_ ?_
  · rintro s rfl
    refine ⟨fun prev n hnone => ?_, rfl⟩
    cases hnone
  · rintro s e t hs - hstep
    exact sampled_step hs (Machine.eq_some_of_map_ok hstep)

theorem ofNat_eq_zero_iff (n : Nat) : BitVec.ofNat 64 n = 0 ↔ 2 ^ 64 ∣ n := by
  rw [← BitVec.toNat_inj, BitVec.toNat_ofNat, Nat.dvd_iff_mod_eq_zero]
  rfl

/-- The samples conserve the count if and only if the number of those that saw more hashes than 32 bits
can hold is a multiple of 2^64. -/
theorem conserves_iff_large {s : State} (h : system.Reachable (fun _ _ => True) s) :
    s.Conserves ↔ 2 ^ 64 ∣ s.large := by
  rw [conserves_iff_surplus, (sampled_of_reachable h).surplus, ofNat_eq_zero_iff]

/-- The counter wraps around; a sample is taken while it is about to be stored, and one after it. -/
theorem conserves_iff_large_wrap :
    ∃ s : State, s.count = 4 ∧ s.samples = [⟨4, 4⟩, ⟨0, 0⟩] ∧ (s.Conserves ↔ 2 ^ 64 ∣ s.large) := by
  obtain ⟨s, hsteps, hs⟩ := Machine.steps_of_endsIn (M := system) (s := {})
    (p := fun s => decide (s.count = 4 ∧ s.samples = [⟨4, 4⟩, ⟨0, 0⟩]))
    (l := [.load 0xffffffffffffffff, .retrieveHashRateDiff, .store, .load 5, .store,
      .retrieveHashRateDiff]) (Machine.meets_true _ _) (by decide)
  obtain ⟨hcount, hsamples⟩ := of_decide_eq_true hs
  exact ⟨s, hcount, hsamples, conserves_iff_large ⟨_, rfl, hsteps⟩⟩

/-- A sample that is taken after 2^32 hashes returns one more. -/
theorem sample_adds_hash :
    ∃ s, system.Reachable (fun _ _ => True) s ∧ s.samples = [⟨0x100000000, 0x100000001⟩] ∧
      s.amounts = [0x100000000] ∧ ¬ s.Conserves := by
  obtain ⟨s, hsteps, hs⟩ := Machine.steps_of_endsIn (M := system) (s := {})
    (p := fun s => decide (s.samples = [⟨0x100000000, 0x100000001⟩] ∧
      s.amounts = [0x100000000] ∧ ¬ s.Conserves))
    (l := [.load 0x100000000, .store, .retrieveHashRateDiff]) (Machine.meets_true _ _) (by decide)
  exact ⟨s, ⟨_, rfl, hsteps⟩, of_decide_eq_true hs⟩

end Energiminer.Core.HashRate
