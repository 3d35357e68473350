import Energiminer.Stratum.Proofs.Link

/-!
# The index of the active pool

The manager's index stays in range as long as there is a pool. When the last pool has become
unrecoverable it is discarded, and its place in the empty list is read before the test whether any
pool is left (`PoolManager.cpp:129-150`).
-/

namespace Energiminer.Stratum
open Misc Misc.Except Primitives

/-- The only pool left is unrecoverable. -/
def State.LastLost (s : State) : Prop := ∃ u, s.connections = [u] ∧ u.unrecoverable = true

section Select
variable {s : State} {u : Uri}

theorem activeUri_of_indexOk (h : s.IndexOk) :
    ∃ u, s.connections[s.manager.activeConnectionIdx]? = some u ∧ s.activeUri = .ok u := by
  have hget := List.getElem?_eq_getElem h
  refine ⟨_, hget, ?_⟩
  rw [State.activeUri, hget]

theorem activeUri_of_nil (h : s.connections = []) : s.activeUri = .error .badIndex := by
  rw [State.activeUri, h]
  rfl

theorem discardPool_of_unrecoverable (hu : s.activeUri = .ok u) (h : u.unrecoverable = true) :
    ∃ t, discardPool s = .ok t ∧
      t.connections = s.connections.eraseIdx s.manager.activeConnectionIdx ∧
      t.manager.activeConnectionIdx =
        if t.connections.length ≤ s.manager.activeConnectionIdx then 0
        else s.manager.activeConnectionIdx := by
  rw [discardPool, hu, ok_bind, if_pos h]
  exact ⟨_, rfl, rfl, rfl⟩

theorem discardPool_of_recoverable (hu : s.activeUri = .ok u) (h : u.unrecoverable = false) :
    discardPool s = .ok s := by
  rw [discardPool, hu, ok_bind, if_neg (by rw [h]; decide)]
  rfl

theorem indexOk_discardPool (h : s.IndexOk) (hlast : ¬ s.LastLost) :
    ∃ t, discardPool s = .ok t ∧ t.IndexOk := by
  obtain ⟨u, hget, hu⟩ := activeUri_of_indexOk h
  cases hlost : u.unrecoverable with
  | false => exact ⟨s, discardPool_of_recoverable hu hlost, h⟩
  | true =>
    obtain ⟨t, ht, hcs, hidx⟩ := discardPool_of_unrecoverable hu hlost
    refine ⟨t, ht, ?_⟩
    have hin : s.manager.activeConnectionIdx < s.connections.length := h
    have hlength : t.connections.length = s.connections.length - 1 := by
      rw [hcs, List.length_eraseIdx, if_pos hin]
    have hmany : s.connections.length ≠ 1 := by
      intro hone
      obtain ⟨v, hv⟩ := List.length_eq_one_iff.mp hone
      have hzero : s.manager.activeConnectionIdx = 0 := Nat.lt_one_iff.mp (hone ▸ h)
      rw [hzero, hv] at hget
      cases hget
      exact hlast ⟨u, hv, hlost⟩
    rw [State.IndexOk, hidx]
    split <;> omega

theorem indexOk_rotatePools (h : s.IndexOk) : (rotatePools s).IndexOk := by
  rw [rotatePools]
  split
  · have hin : s.manager.activeConnectionIdx < s.connections.length := h
    change (if s.manager.activeConnectionIdx + 1 = s.connections.length then 0
      else s.manager.activeConnectionIdx + 1) < s.connections.length
    split <;> omega
  · exact h

theorem indexOk_usePool (h : s.IndexOk) : ∃ t, usePool s = .ok t ∧ t.IndexOk := by
  obtain ⟨u, _, hu⟩ := activeUri_of_indexOk h
  rw [usePool, hu, ok_bind]
  split
  · exact ⟨_, rfl, h⟩
  · exact ⟨_, rfl, h⟩

theorem indexOk_managerSelect (h : s.IndexOk) (hlast : ¬ s.LastLost) :
    ∃ t, managerSelect s = .ok t ∧ t.IndexOk := by
  obtain ⟨t, ht, hindex⟩ := indexOk_discardPool h hlast
  rw [managerSelect, ht, ok_bind]
  exact indexOk_usePool (indexOk_rotatePools hindex)

theorem connections_rotatePools (s : State) : (rotatePools s).connections = s.connections := by
  rw [rotatePools]
  split <;> rfl

theorem managerSelect_of_lastLost (h : s.IndexOk) (hlast : s.LastLost) :
    managerSelect s = .error .badIndex := by
  obtain ⟨v, hv, hlost⟩ := hlast
  have hzero : s.manager.activeConnectionIdx = 0 := by
    have hin : s.manager.activeConnectionIdx < s.connections.length := h
    rw [hv] at hin
    exact Nat.lt_one_iff.mp hin
  have hu : s.activeUri = .ok v := by
    rw [State.activeUri, hzero, hv]
    rfl
  obtain ⟨t, ht, hcs, _⟩ := discardPool_of_unrecoverable hu hlost
  have hnil : (rotatePools t).connections = [] := by
    rw [connections_rotatePools, hcs, hzero, hv]
    rfl
  rw [managerSelect, ht, ok_bind, usePool, activeUri_of_nil hnil]
  rfl

end Select

theorem indexOk_initial {s : State} (h : Initial s) : s.IndexOk := by
  obtain ⟨cfg, connections, maxTries, failoverTimeout, hne, _, rfl⟩ := h
  exact List.length_pos_iff.mpr hne

theorem indexOk_step {s t : State} {e : Event} (h : s.IndexOk)
    (hstep : step s e = some (.ok t)) : t.IndexOk := by
  have hmoved : MovedTo s.link e.mover s t := moves_step hstep
  by_cases hm : e.mover = .select
  · cases e <;> cases hm
    obtain ⟨_, hselect⟩ := Option.ite_none_right_eq_some.mp hstep
    by_cases hlast : s.LastLost
    · rw [managerSelect_of_lastLost h hlast] at hselect
      cases hselect
    · obtain ⟨t', ht', hindex⟩ := indexOk_managerSelect h hlast
      rw [ht'] at hselect
      cases hselect
      exact hindex
  · exact hmoved.index hm h

/-- The list of pools is read out of range in exactly one place: where the manager selects a pool
after the only one left has become unrecoverable. -/
theorem badIndex_iff_lastLost {s : State} {e : Event} (h : system.Reachable (fun _ _ => True) s) :
    step s e = some (.error .badIndex) ↔
      e = .select ∧ s.manager.phase = .checked ∧ s.LastLost := by
  have hindex : s.IndexOk :=
    h.invariant (fun _ => indexOk_initial) fun _ _ _ hs _ hstep => indexOk_step hs hstep
  constructor
  · intro hfault
    have hexcused : ExcusedFrom s.link e.mover s .badIndex := moves_step hfault
    have hm : e.mover = .select := by
      by_contra hm
      exact hexcused.index hm rfl hindex
    cases e <;> cases hm
    obtain ⟨hphase, hselect⟩ := Option.ite_none_right_eq_some.mp hfault
    refine ⟨rfl, hphase, ?_⟩
    by_contra hlast
    obtain ⟨t, ht, _⟩ := indexOk_managerSelect hindex hlast
    rw [ht] at hselect
    cases hselect
  · rintro ⟨rfl, hphase, hlast⟩
    rw [step, if_pos hphase, managerSelect_of_lastLost hindex hlast]

/-- At the first selection the only pool is fine. -/
theorem badIndex_iff_lastLost_checked :
    ∃ s : State, s.manager.phase = .checked ∧ step s .select ≠ some (.error .badIndex) := by
  obtain ⟨s, hsteps, hs⟩ := Machine.steps_of_endsIn
    (p := fun s : State => decide (s.connections = [poolOn "a" .none]) &&
      decide (s.manager.phase = .checked))
    (Machine.meets_true (M := system) (silentClient [poolOn "a" .none]) [.check]) (by decide)
  obtain ⟨hpools, hphase⟩ := Bool.and_eq_true_iff.mp hs
  refine ⟨s, of_decide_eq_true hphase, fun hfault => ?_⟩
  obtain ⟨_, _, u, hu, hlost⟩ :=
    (badIndex_iff_lastLost ⟨_, initial_silentClient (by simp), hsteps⟩).mp hfault
  rw [of_decide_eq_true hpools] at hu
  cases hu
  cases hlost

/-- The handshake with the only pool fails, which makes it unrecoverable. -/
theorem selects_from_no_pools :
    Initial (silentClient [poolOn "a" .tls12]) ∧
      system.replay (silentClient [poolOn "a" .tls12])
        [.check, .select, .connect, .complete 0 (.resolved (some [1])), .complete 0 .run,
          .complete 0 (.connected false true), .check, .select] = some (.error .badIndex) :=
  ⟨initial_silentClient (by simp), rfl⟩

end Energiminer.Stratum
