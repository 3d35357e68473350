import Energiminer.Primitives.Proofs.Worker

/-!
# The end of a worker

`~Worker` changes the state to `Killing` and waits for the thread, but `shouldStop` asks for `Stopping`
and `Stopped` only (`worker.h:47-50`, `worker.cpp:61-69`). A `trun` that waits to be told to stop is
told so by `stopWorking` alone, which the destructors of some classes call and those of others do not.
-/

namespace Energiminer.Primitives.Worker
open Misc

variable {s t : State} {subclass : Subclass} {e : Event}

/-- `~Worker` waits for a thread that is in `trun` and is not told to stop. -/
def Stuck (s : State) : Prop :=
  s.caller = some .joining ∧ s.thread = some .trun ∧ shouldStop s.mode = false

instance (s : State) : Decidable (Stuck s) := inferInstanceAs (Decidable (_ ∧ _ ∧ _))

/-- If the class does not stop the worker, the thread is outside `trun` when `~Worker` exchanges the
state. -/
def Spared (subclass : Subclass) (s : State) (e : Event) : Prop :=
  e = .caller → s.caller = some .killing → subclass.stopsFirst = false → s.thread ≠ some .trun

instance (subclass : Subclass) (s : State) (e : Event) : Decidable (Spared subclass s e) :=
  inferInstanceAs (Decidable (_ → _ → _ → _))

/-- The worker is destroyed in good order. -/
structure Orderly (subclass : Subclass) (s : State) : Prop where
  /-- a destructor that stops the worker does so before `~Worker` -/
  first : subclass.stopsFirst = true → s.lifetime = .orphaned ∨ s.lifetime = .destroyed →
    s.caller = some .stopping ∨ s.caller = some .awaitingStop ∨ s.stopped = true
  killing : s.caller = some .killing → s.lifetime = .destroyed
  outside : s.caller = some .joining → s.thread ≠ some .trun

/-- What a step of a caller can do, as far as the end of the worker is concerned. -/
theorem callerStep_cases (s : State) (c : Caller) : (callerStep s c).lifetime = s.lifetime ∧
    (s.stopped = true → (callerStep s c).stopped = true) ∧
      (callerStep s c).caller ≠ some .killing ∨ callerStep s c = s := by
  cases c with
  | starting =>
    rw [callerStep]
    split
    · split <;> exact .inl ⟨rfl, id, by simp⟩
    · exact .inl ⟨rfl, id, by simp⟩
  | creating => exact .inl ⟨rfl, id, by simp [callerStep]⟩
  | awaitingStart =>
    rw [callerStep]
    split
    · exact .inr rfl
    · exact .inl ⟨rfl, id, by simp⟩
  | awaitingStop =>
    rw [callerStep]
    split
    · exact .inl ⟨rfl, fun _ => rfl, by simp⟩
    · exact .inr rfl
  | stopping =>
    rw [callerStep]
    split
    · exact .inl ⟨rfl, id, by simp⟩
    · exact .inl ⟨rfl, fun _ => rfl, by simp⟩
  | killing =>
    rw [callerStep]
    split
    · exact .inl ⟨rfl, id, by simp⟩
    · exact .inl ⟨rfl, id, by simp⟩
  | joining =>
    rw [callerStep]
    split
    · exact .inl ⟨rfl, id, by simp⟩
    · exact .inr rfl

/-- Only `~Worker` comes to wait for the end of the thread. -/
theorem joining_of_callerStep {c : Caller} (hc : s.caller = some c)
    (h : (callerStep s c).caller = some .joining) :
    (callerStep s c).thread = s.thread ∧ (c = .killing ∨ c = .joining) := by
  obtain ⟨mode, thread, caller, lifetime, runs, stopped, restarts⟩ := s
  cases hc
  cases c with
  | starting =>
    rw [callerStep] at h
    split at h
    · split at h <;> cases h
    · cases h
  | creating => cases h
  | awaitingStart | awaitingStop | stopping =>
    rw [callerStep] at h
    split at h <;> cases h
  | killing =>
    cases thread with
    | none => cases h
    | some th => exact ⟨rfl, .inl rfl⟩
  | joining =>
    rw [callerStep] at h ⊢
    split at h
    next => cases h
    next hne =>
      rw [if_neg hne]
      exact ⟨rfl, .inr rfl⟩

theorem stopping_of_callerStep {c : Caller} (hc : c = .stopping ∨ c = .awaitingStop)
    (hs : s.caller = some c) :
    (callerStep s c).caller = some .awaitingStop ∨ (callerStep s c).stopped = true := by
  rcases hc with rfl | rfl
  · rw [callerStep]
    split
    · exact .inl rfl
    · exact .inr rfl
  · rw [callerStep]
    split
    · exact .inr rfl
    · exact .inl hs

theorem Orderly.callerStep {c : Caller} (hc : s.caller = some c) (hsound : Sound s)
    (h : Orderly subclass s) (hspared : Spared subclass s .caller) :
    Orderly subclass (callerStep s c) := by
  refine ⟨fun hstops hlife => ?_, fun hkilling => ?_, fun hjoining => ?_⟩
  · rcases callerStep_cases s c with ⟨hlifetime, hstopped, -⟩ | heq
    · rw [hlifetime] at hlife
      rcases h.first hstops hlife with hs | hs | hs
      · cases hc.symm.trans hs
        exact .inr (stopping_of_callerStep (.inl rfl) hc)
      · cases hc.symm.trans hs
        exact .inr (stopping_of_callerStep (.inr rfl) hc)
      · exact .inr (.inr (hstopped hs))
    · rw [heq] at hlife ⊢
      exact h.first hstops hlife
  · rcases callerStep_cases s c with ⟨-, -, hne⟩ | heq
    · exact absurd hkilling hne
    · rw [heq] at hkilling ⊢
      exact h.killing hkilling
  · obtain ⟨hthread, rfl | rfl⟩ := joining_of_callerStep hc hjoining
    · rw [hthread]
      cases hstops : subclass.stopsFirst with
      | false => exact hspared rfl hc hstops
      | true =>
        have hfirst := h.first hstops (.inr (h.killing hc))
        rw [hc] at hfirst
        have hstopped : s.stopped = true := by simpa using hfirst
        exact (hsound.quieted hstopped).thread_ne
    · rw [hthread]
      exact h.outside hc

/-- While `~Worker` waits, the thread does not go into `trun`. -/
theorem outside_threadStep {th : Thread} (hc : s.caller = some .joining) (hth : s.thread = some th)
    (hplaced : s.Placed) (hne : th ≠ .trun) (hstep : threadStep s th = some t) :
    t.thread ≠ some .trun := by
  have hquiet : s.Quieted := by
    rw [State.Quieted, hc, hth]
    exact .killed hne
  exact (quieted_threadStep hth hplaced hquiet hstep).thread_ne

theorem Orderly.next (hsound : Sound s) (h : Orderly subclass s) (hspared : Spared subclass s e)
    (hnext : next subclass s e = some t) : Orderly subclass t := by
  cases happens_of_next hnext with
  | startWorking _ halive | stopWorking _ halive =>
    refine ⟨fun _ hlife => ?_, nofun, nofun⟩
    rw [halive] at hlife
    simp at hlife
  | destroy hfree =>
    refine ⟨fun hstops hlife => ?_, fun hkilling => ?_, h.outside⟩
    · rw [hstops] at hlife
      simp at hlife
    · rw [hfree] at hkilling
      cases hkilling
  | ending => exact ⟨fun _ _ => .inl rfl, nofun, nofun⟩
  | orphaned hfree horphaned =>
    refine ⟨fun hstops _ => ?_, fun _ => rfl, nofun⟩
    have hfirst := h.first hstops (.inl horphaned)
    rw [hfree] at hfirst
    simpa using hfirst
  | caller hc => exact h.callerStep hc hsound hspared
  | thread hth hstep =>
    obtain ⟨hcaller, hlifetime, hstopped, -⟩ := threadStep_frame hstep
    refine ⟨?_, ?_, fun hjoining => ?_⟩
    · rw [hcaller, hlifetime, hstopped]
      exact h.first
    · rw [hcaller, hlifetime]
      exact h.killing
    · rw [hcaller] at hjoining
      have hne := h.outside hjoining
      rw [hth] at hne
      exact outside_threadStep hjoining hth hsound.placed (fun heq => hne (congrArg some heq)) hstep
  | trunReturns => exact ⟨h.first, h.killing, fun _ => by simp⟩

/-- A worker whose class stops it, or whose thread is outside `trun` when it is destroyed, does not get
stuck. -/
theorem not_stuck_of_spared (h : (system subclass).Reachable (Spared subclass) s) : ¬ Stuck s := by
  have horderly : Sound s ∧ Orderly subclass s := h.invariant
    (I := fun s => Sound s ∧ Orderly subclass s)
    (fun s hs => by
      cases hs
      exact ⟨sound_init, nofun, nofun, nofun⟩)
    fun s e t ⟨hsound, horderly⟩ hspared hstep => by
      have hnext := Machine.eq_some_of_map_ok hstep
      exact ⟨hsound.next hnext, horderly.next hsound hspared hnext⟩
  rintro ⟨hjoining, htrun, -⟩
  exact horderly.2.outside hjoining htrun

/-- A miner is started and destroyed. -/
theorem not_stuck_of_spared_miner :
    ∃ s : State, s.lifetime = .destroyed ∧ s.caller = some .joining ∧ ¬ Stuck s := by
  have hmeets : (system .clMiner).Meets (Spared .clMiner) {} [.startWorking, .caller, .caller,
      .thread, .thread, .caller, .destroy, .destructor, .caller, .thread, .thread, .caller,
      .destructor, .caller] := by
    decide +kernel
  obtain ⟨s, hsteps, hs⟩ := Machine.steps_of_endsIn
    (p := fun s : State => decide (s.lifetime = .destroyed ∧ s.caller = some .joining)) hmeets
    (by decide +kernel)
  obtain ⟨hdestroyed, hjoining⟩ := of_decide_eq_true hs
  exact ⟨s, hdestroyed, hjoining, not_stuck_of_spared ⟨_, rfl, hsteps⟩⟩

/-- A client that is connected is destroyed: its destructor does not stop the worker, and `~Worker`
waits for a thread that it has not told to stop. -/
theorem getworkClient_stuck :
    (system .getworkClient).endsIn (fun s => decide (Stuck s)) {} [.startWorking, .caller, .caller,
      .thread, .thread, .caller, .destroy, .destructor, .caller] = true := by
  decide +kernel

end Energiminer.Primitives.Worker
