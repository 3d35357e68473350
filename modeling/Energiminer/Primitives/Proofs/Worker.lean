import Energiminer.Primitives.Worker

/-!
# The life of a worker

Which states the worker thread and the caller can be in together. Since every call waits until the
thread has taken notice of it, the thread exchanges `Starting` only when a call waits for it, and it
finds `Stopping` only when a call waits for that.
-/

namespace Energiminer.Primitives.Worker
open Misc

/-- Between the calls, and at the begin of one. -/
inductive Caller.Idle : Option Caller → Prop
  | none : Idle none
  | starting : Idle (some .starting)
  | stopping : Idle (some .stopping)
  | killing : Idle (some .killing)

/-- On the way to `trun`. -/
inductive Thread.Fresh : Thread → Prop
  | testing : Fresh .testing
  | confirming : Fresh .confirming

inductive Thread.Running : Thread → Prop
  | trun : Running .trun
  | returned : Running .returned

/-- Behind `trun`, with nothing to restore. -/
inductive Thread.Parked : Thread → Prop
  | started : Parked (.exchanged .started)
  | stopping : Parked (.exchanged .stopping)
  | waiting : Parked .waiting

/-- On the way to the end. -/
inductive Thread.Leaving : Thread → Prop
  | running {th : Thread} : th.Running → Leaving th
  | parked {th : Thread} : th.Parked → Leaving th
  | testing : Leaving .testing
  | ended : Leaving .ended

/-- Where a caller and the thread are together, and the state they find. -/
inductive Place : Option Caller → Option Thread → Mode → Prop
  | unborn {c : Option Caller} {mode : Mode} : Caller.Idle c → Place c none mode
  | creating : Place (some .creating) none .starting
  | fresh {changed : Option Nat} {th : Thread} : th.Fresh →
      Place (some (.awaitingStart changed)) (some th) .starting
  | running {c : Option Caller} {th : Thread} : Caller.Idle c → th.Running →
      Place c (some th) .started
  | confirmed {changed : Option Nat} {th : Thread} : th.Running →
      Place (some (.awaitingStart changed)) (some th) .started
  | requested {th : Thread} : th.Running → Place (some .awaitingStop) (some th) .stopping
  | parked {c : Option Caller} {th : Thread} : Caller.Idle c → th.Parked → Place c (some th) .stopped
  | restarted {changed : Option Nat} {th : Thread} : th.Parked →
      Place (some (.awaitingStart changed)) (some th) .starting
  | finished {changed : Option Nat} {th : Thread} : th.Parked →
      Place (some (.awaitingStart changed)) (some th) .stopped
  | met {th : Thread} : th.Parked → Place (some .awaitingStop) (some th) .stopped
  | killed {th : Thread} : th.Leaving → Place (some .joining) (some th) .killing
  | restoring : Place (some .joining) (some (.exchanged .killing)) .stopped

/-- The place of a state. -/
def State.Placed (s : State) : Prop := Place s.caller s.thread s.mode

variable {s t : State}

/-! ## One step -/

theorem placed_callerStep {c : Caller} (hc : s.caller = some c) (h : s.Placed) :
    (callerStep s c).Placed := by
  obtain ⟨mode, thread, caller, lifetime, runs, stopped, restarts⟩ := s
  cases hc
  cases c with
  | starting =>
    cases h with
    | unborn => exact .creating
    | running _ hth => exact .confirmed hth
    | parked _ hth => exact .restarted hth
  | creating =>
    cases h with
    | unborn hidle | running hidle | parked hidle => cases hidle
    | creating => exact .fresh .testing
  | awaitingStart changed =>
    cases h with
    | unborn hidle | running hidle | parked hidle => cases hidle
    | fresh hth => exact .fresh hth
    | confirmed hth => exact .running .none hth
    | restarted hth => exact .restarted hth
    | finished hth => exact .parked .none hth
  | stopping =>
    cases h with
    | unborn => exact .unborn .none
    | running _ hth => exact .requested hth
    | parked _ hth => exact .met hth
  | awaitingStop =>
    cases h with
    | unborn hidle | running hidle | parked hidle => cases hidle
    | requested hth => exact .requested hth
    | met hth => exact .parked .none hth
  | killing =>
    cases h with
    | unborn => exact .unborn .none
    | running _ hth => exact .killed (.running hth)
    | parked _ hth => exact .killed (.parked hth)
  | joining =>
    rw [callerStep]
    split
    next => exact .unborn .none
    next => exact h

/-- A parked thread waits as long as the worker is stopped. -/
theorem threadStep_parked {th : Thread} (hparked : th.Parked) (hth : s.thread = some th)
    (hmode : s.mode = .stopped) : threadStep s th = some { s with thread := some .waiting } := by
  cases hparked with
  | started | stopping => rfl
  | waiting =>
    rw [threadStep, if_pos hmode, ← hth]

theorem placed_threadStep {th : Thread} (hth : s.thread = some th) (h : s.Placed)
    (hstep : threadStep s th = some t) : t.Placed := by
  obtain ⟨mode, thread, caller, lifetime, runs, stopped, restarts⟩ := s
  cases hth
  cases h with
  | fresh hfresh =>
    cases hfresh with
    | testing =>
      cases hstep
      exact .fresh .confirming
    | confirming =>
      cases hstep
      exact .confirmed .trun
  | running hidle hrunning =>
    cases hrunning with
    | trun =>
      cases hstep
      exact .running hidle .trun
    | returned =>
      cases hstep
      exact .parked hidle .started
  | confirmed hrunning =>
    cases hrunning with
    | trun =>
      cases hstep
      exact .confirmed .trun
    | returned =>
      cases hstep
      exact .finished .started
  | requested hrunning =>
    cases hrunning with
    | trun =>
      cases hstep
      exact .requested .returned
    | returned =>
      cases hstep
      exact .met .stopping
  | parked hidle hparked =>
    rw [threadStep_parked hparked rfl rfl] at hstep
    cases hstep
    exact .parked hidle .waiting
  | restarted hparked =>
    cases hparked with
    | started | stopping =>
      cases hstep
      exact .restarted .waiting
    | waiting =>
      cases hstep
      exact .fresh .testing
  | finished hparked =>
    rw [threadStep_parked hparked rfl rfl] at hstep
    cases hstep
    exact .finished .waiting
  | met hparked =>
    rw [threadStep_parked hparked rfl rfl] at hstep
    cases hstep
    exact .met .waiting
  | killed hleaving =>
    cases hleaving with
    | running hrunning =>
      cases hrunning with
      | trun =>
        cases hstep
        exact .killed (.running .trun)
      | returned =>
        cases hstep
        exact .restoring
    | parked hparked =>
      cases hparked with
      | started | stopping =>
        cases hstep
        exact .killed (.parked .waiting)
      | waiting =>
        cases hstep
        exact .killed .testing
    | testing =>
      cases hstep
      exact .killed .ended
    | ended => cases hstep
  | restoring =>
    cases hstep
    exact .killed (.parked .waiting)

/-- The thread leaves everything else to the callers. -/
theorem threadStep_frame {th : Thread} (hstep : threadStep s th = some t) :
    t.caller = s.caller ∧ t.lifetime = s.lifetime ∧ t.stopped = s.stopped ∧
      t.restarts = s.restarts := by
  cases th with
  | trun | waiting =>
    cases hstep
    split <;> exact ⟨rfl, rfl, rfl, rfl⟩
  | testing | confirming | returned | exchanged =>
    cases hstep
    exact ⟨rfl, rfl, rfl, rfl⟩
  | ended => cases hstep

theorem placed_of_free (hfree : s.caller = none) (h : s.Placed) {c : Option Caller}
    (hc : Caller.Idle c) : Place c s.thread s.mode := by
  obtain ⟨mode, thread, caller, lifetime, runs, stopped, restarts⟩ := s
  cases hfree
  cases h with
  | unborn => exact .unborn hc
  | running _ hth => exact .running hc hth
  | parked _ hth => exact .parked hc hth

theorem placed_trunReturns (hth : s.thread = some .trun) (h : s.Placed) :
    Place s.caller (some .returned) s.mode := by
  obtain ⟨mode, thread, caller, lifetime, runs, stopped, restarts⟩ := s
  cases hth
  cases h with
  | fresh hfresh => cases hfresh
  | running hidle => exact .running hidle .returned
  | confirmed => exact .confirmed .returned
  | requested => exact .requested .returned
  | parked _ hparked | restarted hparked | finished hparked | met hparked => cases hparked
  | killed => exact .killed (.running .returned)

variable {subclass : Subclass} {e : Event}

/-- What can happen, event by event. -/
inductive Happens (subclass : Subclass) (s : State) : Event → State → Prop
  | startWorking : s.caller = none → s.lifetime = .alive →
      Happens subclass s .startWorking { s with caller := some .starting, stopped := false }
  | stopWorking : s.caller = none → s.lifetime = .alive →
      Happens subclass s .stopWorking { s with caller := some .stopping }
  | destroy : s.caller = none → s.lifetime = .alive →
      Happens subclass s .destroy
        { s with lifetime := if subclass.stopsFirst then .ending else .orphaned }
  /-- the destructor of the class stops the worker -/
  | ending : s.caller = none → s.lifetime = .ending →
      Happens subclass s .destructor { s with caller := some .stopping, lifetime := .orphaned }
  /-- `~Worker` is called -/
  | orphaned : s.caller = none → s.lifetime = .orphaned →
      Happens subclass s .destructor { s with caller := some .killing, lifetime := .destroyed }
  | caller {c : Caller} : s.caller = some c → Happens subclass s .caller (callerStep s c)
  | thread {th : Thread} {t : State} : s.thread = some th → threadStep s th = some t →
      Happens subclass s .thread t
  | trunReturns : s.thread = some .trun →
      Happens subclass s .trunReturns { s with thread := some .returned }

theorem happens_of_next (hnext : next subclass s e = some t) : Happens subclass s e t := by
  cases e with
  | startWorking =>
    obtain ⟨⟨hfree, halive⟩, heq⟩ := Option.ite_none_right_eq_some.mp hnext
    cases heq
    exact .startWorking hfree halive
  | stopWorking =>
    obtain ⟨⟨hfree, halive⟩, heq⟩ := Option.ite_none_right_eq_some.mp hnext
    cases heq
    exact .stopWorking hfree halive
  | destroy =>
    obtain ⟨⟨hfree, halive⟩, heq⟩ := Option.ite_none_right_eq_some.mp hnext
    cases heq
    exact .destroy hfree halive
  | destructor =>
    obtain ⟨hfree, heq⟩ := Option.ite_none_right_eq_some.mp hnext
    split at heq
    next hending =>
      cases heq
      exact .ending hfree hending
    next horphaned =>
      cases heq
      exact .orphaned hfree horphaned
    next => cases heq
    next => cases heq
  | caller =>
    obtain ⟨c, hc, heq⟩ := Option.map_eq_some_iff.mp hnext
    cases heq
    exact .caller hc
  | thread =>
    obtain ⟨th, hth, hstep⟩ := Option.bind_eq_some_iff.mp hnext
    exact .thread hth hstep
  | trunReturns =>
    obtain ⟨hth, heq⟩ := Option.ite_none_right_eq_some.mp hnext
    cases heq
    exact .trunReturns hth

theorem placed_next (h : s.Placed) (hnext : next subclass s e = some t) : t.Placed := by
  cases happens_of_next hnext with
  | startWorking hfree => exact placed_of_free hfree h .starting
  | stopWorking hfree | ending hfree => exact placed_of_free hfree h .stopping
  | destroy => exact h
  | orphaned hfree => exact placed_of_free hfree h .killing
  | caller hc => exact placed_callerStep hc h
  | thread hth hstep => exact placed_threadStep hth h hstep
  | trunReturns hth => exact placed_trunReturns (s := s) hth h

/-! ## Stopping -/

/-- Between the calls, and at the begin of one that does not start the worker. -/
inductive Caller.Harmless : Option Caller → Prop
  | none : Harmless none
  | stopping : Harmless (some .stopping)
  | killing : Harmless (some .killing)

/-- The worker is stopped and no call is going to start it. -/
inductive Quiet : Option Caller → Option Thread → Mode → Prop
  | unborn {c : Option Caller} {mode : Mode} : Caller.Harmless c → Quiet c none mode
  | parked {c : Option Caller} {th : Thread} : Caller.Harmless c → th.Parked →
      Quiet c (some th) .stopped
  | met {th : Thread} : th.Parked → Quiet (some .awaitingStop) (some th) .stopped
  | killed {th : Thread} {mode : Mode} : th ≠ .trun → Quiet (some .joining) (some th) mode

def State.Quieted (s : State) : Prop := Quiet s.caller s.thread s.mode

theorem Quiet.thread_ne {c : Option Caller} {th : Option Thread} {mode : Mode}
    (h : Quiet c th mode) : th ≠ some .trun := by
  rintro rfl
  cases h with
  | parked _ hparked | met hparked => cases hparked
  | killed hne => exact hne rfl

theorem Thread.Parked.ne_trun {th : Thread} (h : th.Parked) : th ≠ .trun := by
  rintro rfl
  cases h

/-- A call of `stopWorking` gives `x_work` back when the thread is parked. -/
theorem quieted_callerStep {c : Caller} (hc : s.caller = some c) (hplaced : s.Placed)
    (hquiet : s.stopped = true → s.Quieted) (hstopped : (callerStep s c).stopped = true) :
    (callerStep s c).Quieted := by
  obtain ⟨mode, thread, caller, lifetime, runs, stopped, restarts⟩ := s
  cases hc
  cases c with
  | starting =>
    have hstopped : stopped = true := by
      rw [callerStep] at hstopped
      split at hstopped
      · split at hstopped <;> exact hstopped
      · exact hstopped
    cases hquiet hstopped with
    | unborn hc | parked hc => cases hc
  | creating =>
    cases hquiet hstopped with
    | unborn hc | parked hc => cases hc
  | awaitingStart changed =>
    have hstopped : stopped = true := by
      rw [callerStep] at hstopped
      split at hstopped <;> exact hstopped
    cases hquiet hstopped with
    | unborn hc | parked hc => cases hc
  | stopping =>
    cases thread with
    | none => exact .unborn .none
    | some th =>
      cases hquiet hstopped with
      | parked _ hth => exact .met hth
  | awaitingStop =>
    cases hplaced with
    | unborn hidle | running hidle | parked hidle => cases hidle
    | requested => cases hquiet hstopped
    | met hth => exact .parked .none hth
  | killing =>
    cases thread with
    | none => exact .unborn .none
    | some th =>
      cases hquiet hstopped with
      | parked _ hth => exact .killed hth.ne_trun
  | joining =>
    rw [callerStep] at hstopped ⊢
    split
    next => exact .unborn .none
    next hne =>
      rw [if_neg hne] at hstopped
      exact hquiet hstopped

theorem quieted_threadStep {th : Thread} (hth : s.thread = some th) (hplaced : s.Placed)
    (hquiet : s.Quieted) (hstep : threadStep s th = some t) : t.Quieted := by
  obtain ⟨mode, thread, caller, lifetime, runs, stopped, restarts⟩ := s
  cases hth
  cases hquiet with
  | parked hc hparked =>
    rw [threadStep_parked hparked rfl rfl] at hstep
    cases hstep
    exact .parked hc .waiting
  | met hparked =>
    rw [threadStep_parked hparked rfl rfl] at hstep
    cases hstep
    exact .met .waiting
  | killed hne =>
    cases th with
    | testing =>
      cases hstep
      refine .killed ?_
      dsimp only
      split <;> simp
    | confirming =>
      -- nobody who waits for the end of the thread meets it there
      cases hplaced with
      | running hidle | parked hidle => cases hidle
      | killed hleaving =>
        cases hleaving with
        | running hrunning => cases hrunning
        | parked hparked => cases hparked
    | trun => exact absurd rfl hne
    | returned | exchanged ex =>
      cases hstep
      exact .killed (by simp)
    | waiting =>
      cases hstep
      split
      · exact .killed (by simp)
      · exact .killed (by simp)
    | ended => cases hstep

theorem quieted_of_free (hfree : s.caller = none) (h : s.Quieted) {c : Option Caller}
    (hc : Caller.Harmless c) : Quiet c s.thread s.mode := by
  obtain ⟨mode, thread, caller, lifetime, runs, stopped, restarts⟩ := s
  cases hfree
  cases h with
  | unborn => exact .unborn hc
  | parked _ hth => exact .parked hc hth

theorem quieted_next (hplaced : s.Placed) (hquiet : s.stopped = true → s.Quieted)
    (hnext : next subclass s e = some t) (hstopped : t.stopped = true) : t.Quieted := by
  cases happens_of_next hnext with
  | startWorking => cases hstopped
  | stopWorking hfree | ending hfree => exact quieted_of_free hfree (hquiet hstopped) .stopping
  | destroy => exact hquiet hstopped
  | orphaned hfree => exact quieted_of_free hfree (hquiet hstopped) .killing
  | caller hc => exact quieted_callerStep hc hplaced hquiet hstopped
  | thread hth hstep =>
    rw [(threadStep_frame hstep).2.2.1] at hstopped
    exact quieted_threadStep hth hplaced (hquiet hstopped) hstep
  | trunReturns hth => exact absurd hth (hquiet hstopped).thread_ne

/-! ## Starting again -/

/-- A call that changed the state from `Stopped` waits for the next run. -/
structure Counted (s : State) : Prop where
  restarting : ∀ n, s.caller = some (.awaitingStart (some n)) →
    n ≤ s.runs ∧ (s.mode = .starting ∨ n < s.runs)
  restarts : ∀ r ∈ s.restarts, r.changed < r.returned

theorem counted_callerStep {c : Caller} (hc : s.caller = some c) (h : Counted s) :
    Counted (callerStep s c) := by
  obtain ⟨mode, thread, caller, lifetime, runs, stopped, restarts⟩ := s
  cases hc
  obtain ⟨hrestarting, hrestarts⟩ := h
  cases c with
  | starting =>
    cases thread with
    | none => exact ⟨nofun, hrestarts⟩
    | some th =>
      rw [callerStep]
      dsimp only
      split
      next =>
        refine ⟨fun n h => ?_, hrestarts⟩
        cases h
        exact ⟨Nat.le_refl runs, .inl rfl⟩
      next => exact ⟨nofun, hrestarts⟩
  | creating => exact ⟨nofun, hrestarts⟩
  | awaitingStart changed =>
    rw [callerStep]
    split
    next => exact ⟨hrestarting, hrestarts⟩
    next hmode =>
      refine ⟨nofun, fun r hr => ?_⟩
      rcases List.mem_append.mp hr with hnew | hold
      · cases changed with
        | none => cases hnew
        | some n =>
          cases List.mem_singleton.mp hnew
          exact (hrestarting n rfl).2.resolve_left hmode
      · exact hrestarts r hold
  | stopping | killing =>
    cases thread with
    | none | some th => exact ⟨nofun, hrestarts⟩
  | awaitingStop | joining =>
    rw [callerStep]
    split
    next => exact ⟨nofun, hrestarts⟩
    next => exact ⟨hrestarting, hrestarts⟩

/-- What the thread does while a call waits for it to start: it leaves `Starting` with a new run. -/
theorem threadStep_awaited {th : Thread} {changed : Option Nat}
    (hc : s.caller = some (.awaitingStart changed)) (hth : s.thread = some th) (hplaced : s.Placed)
    (hstep : threadStep s th = some t) :
    t.runs = s.runs ∧ (s.mode = .starting → t.mode = .starting) ∨ t.runs = s.runs + 1 := by
  obtain ⟨mode, thread, caller, lifetime, runs, stopped, restarts⟩ := s
  cases hc
  cases hth
  cases hplaced with
  | fresh hfresh =>
    cases hfresh with
    | testing =>
      cases hstep
      exact .inl ⟨rfl, id⟩
    | confirming =>
      cases hstep
      exact .inr rfl
  | running hidle | parked hidle => cases hidle
  | confirmed hrunning =>
    cases hrunning with
    | trun =>
      cases hstep
      exact .inl ⟨rfl, id⟩
    | returned =>
      cases hstep
      exact .inl ⟨rfl, nofun⟩
  | restarted hparked =>
    cases hparked with
    | started | stopping | waiting =>
      cases hstep
      exact .inl ⟨rfl, id⟩
  | finished hparked =>
    rw [threadStep_parked hparked rfl rfl] at hstep
    cases hstep
    exact .inl ⟨rfl, id⟩

theorem counted_threadStep {th : Thread} (hth : s.thread = some th) (hplaced : s.Placed)
    (h : Counted s) (hstep : threadStep s th = some t) : Counted t := by
  obtain ⟨hcaller, -, -, hrestarts⟩ := threadStep_frame hstep
  refine ⟨fun n hn => ?_, fun r hr => h.restarts r (hrestarts ▸ hr)⟩
  rw [hcaller] at hn
  obtain ⟨hle, hlt⟩ := h.restarting n hn
  rcases threadStep_awaited hn hth hplaced hstep with ⟨hruns, hmode⟩ | hruns
  · rw [hruns]
    exact ⟨hle, hlt.imp_left hmode⟩
  · rw [hruns]
    exact ⟨Nat.le_succ_of_le hle, .inr (Nat.lt_succ_of_le hle)⟩

theorem counted_next (hplaced : s.Placed) (h : Counted s) (hnext : next subclass s e = some t) :
    Counted t := by
  cases happens_of_next hnext with
  | startWorking | stopWorking | ending | orphaned => exact ⟨nofun, h.restarts⟩
  | destroy | trunReturns => exact ⟨h.restarting, h.restarts⟩
  | caller hc => exact counted_callerStep hc h
  | thread hth hstep => exact counted_threadStep hth hplaced h hstep

/-! ## Runs -/

/-- What holds in every state. -/
structure Sound (s : State) : Prop where
  placed : s.Placed
  quieted : s.stopped = true → s.Quieted
  counted : Counted s

theorem Sound.next (h : Sound s) (hnext : next subclass s e = some t) : Sound t where
  placed := placed_next h.placed hnext
  quieted := quieted_next h.placed h.quieted hnext
  counted := counted_next h.placed h.counted hnext

theorem sound_init : Sound {} := ⟨.unborn .none, nofun, nofun, nofun⟩

theorem sound_of_reachable {C : State → Event → Prop} (h : (system subclass).Reachable C s) :
    Sound s :=
  h.invariant
    (fun s hs => by
      cases hs
      exact sound_init)
    fun s e t hs _ hstep => by
      have hnext := Machine.eq_some_of_map_ok hstep
      exact hs.next hnext

/-- After `stopWorking` the thread is outside `trun` until the next `startWorking`, and a call of
`startWorking` that changed the state from `Stopped` returns after a new run has begun. -/
theorem stopWorking_barrier (h : (system subclass).Reachable (fun _ _ => True) s) :
    (s.stopped = true → s.thread ≠ some .trun) ∧ ∀ r ∈ s.restarts, r.changed < r.returned :=
  have hsound := sound_of_reachable h
  ⟨fun hstopped => (hsound.quieted hstopped).thread_ne, hsound.counted.restarts⟩

/-- A worker is started, stopped, started again and stopped again. -/
theorem stopWorking_barrier_twice : ∃ s : State, s.stopped = true ∧ s.runs = 2 ∧
    s.restarts.length = 1 ∧ s.thread ≠ some .trun ∧ ∀ r ∈ s.restarts, r.changed < r.returned := by
  obtain ⟨s, hsteps, hs⟩ := Machine.steps_of_endsIn (M := system .cpuMiner) (s := {})
    (p := fun s => s.stopped && decide (s.runs = 2) && decide (s.restarts.length = 1))
    (Machine.meets_true _ [.startWorking, .caller, .caller, .thread, .thread, .caller,
      .stopWorking, .caller, .thread, .thread, .caller,
      .startWorking, .caller, .thread, .thread, .thread, .thread, .caller,
      .stopWorking, .caller, .thread, .thread, .caller]) (by decide +kernel)
  simp only [Bool.and_eq_true, decide_eq_true_eq] at hs
  obtain ⟨hthread, hrestarts⟩ := stopWorking_barrier ⟨_, rfl, hsteps⟩
  exact ⟨s, hs.1.1, hs.1.2, hs.2, hthread hs.1.1, hrestarts⟩

end Energiminer.Primitives.Worker
