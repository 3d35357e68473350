import Energiminer.Engines.Proofs.CpuMiner

/-!
# Whether the CPU miner stops

The inner loop of `CpuMiner::trun` ends when the worker is to stop, but the outer one looks at
`shouldStop()` only after a pause for want of work (`CpuMiner.cpp:23-33`). With a valid work it fetches
the same work again, evaluates one nonce, and so on, while `stopWorking` waits (`worker.cpp:48-59`).
-/

namespace Energiminer.Engines.CpuMiner
open Misc Primitives

variable {config : Config} {s t : State}

/-- Steps of the thread alone. -/
def threadSteps (n : Nat) : List Event := List.replicate n (.worker .thread)

/-- `stopWorking` has set the state to `Stopping` while the thread is in `trun`, and waits. -/
structure State.Stopping (s : State) : Prop where
  mode : s.worker.mode = .stopping
  thread : s.worker.thread = some .trun
  caller : s.worker.caller = some .awaitingStop

/-- Left alone, `trun` returns after at most one further evaluation and one further pause; then the
thread sets the state to `Stopped`, and `stopWorking` returns. -/
def State.Stops (config : Config) (s : State) : Prop :=
  ∃ n t, (system config).replay s (threadSteps n) = some (.ok t) ∧
    t.worker.thread = some .returned ∧ t.evaluated.length ≤ s.evaluated.length + 1 ∧
    t.pauses ≤ s.pauses + 1 ∧
    ∃ u, (system config).replay t [.worker .thread, .worker .caller] = some (.ok u) ∧
      u.worker.caller = none

theorem replay_thread (h : s.worker.thread = some .trun) (es : List Event) :
    (system config).replay s (.worker .thread :: es) = (system config).replay (s.trun config) es := by
  have hstep : (system config).step s (.worker .thread) = some (.ok (s.trun config)) := by
    have hin : s.inTrun (.worker .thread) = true := decide_eq_true h
    dsimp only [system]
    rw [step, if_pos hin, Option.map_some]
  rw [Machine.replay, hstep]

/-- The worker is told to stop, and will be left with `e` further evaluations and `p` further
pauses. -/
def Leaves (config : Config) (s : State) (e p : Nat) : Prop :=
  ∃ n t, (system config).replay s (threadSteps n) = some (.ok t) ∧
    t.worker = { s.worker with thread := some .returned } ∧
    t.evaluated.length = s.evaluated.length + e ∧ t.pauses = s.pauses + p

theorem Leaves.step {e p e' p' : Nat} (h : Leaves config (s.trun config) e p)
    (hthread : s.worker.thread = some .trun) (hworker : (s.trun config).worker = s.worker)
    (he : (s.trun config).evaluated.length = s.evaluated.length + e')
    (hp : (s.trun config).pauses = s.pauses + p') : Leaves config s (e' + e) (p' + p) := by
  obtain ⟨n, t, hreplay, hleft, hevaluated, hpauses⟩ := h
  refine ⟨n + 1, t, ?_, ?_, ?_, ?_⟩
  · rw [threadSteps, List.replicate_succ, replay_thread hthread]
    exact hreplay
  · rw [hleft, hworker]
  · rw [hevaluated, he, Nat.add_assoc]
  · rw [hpauses, hp, Nat.add_assoc]

namespace State.Stopping

theorem shouldStop (h : s.Stopping) : s.shouldStop = true := by
  rw [State.shouldStop, h.mode]
  rfl

theorem of_worker (h : s.Stopping) (hworker : t.worker = s.worker) : t.Stopping := by
  refine ⟨?_, ?_, ?_⟩
  · rw [hworker, h.mode]
  · rw [hworker, h.thread]
  · rw [hworker, h.caller]

theorem leaves_pausing (h : s.Stopping) (hpoint : s.point = .pausing) : Leaves config s 0 0 := by
  refine ⟨1, s.leave, ?_, rfl, rfl, rfl⟩
  rw [threadSteps, List.replicate_one, replay_thread h.thread, State.trun, hpoint]
  dsimp only
  rw [if_pos h.shouldStop]
  rfl

theorem leaves_top (h : s.Stopping) (hpoint : s.point = .top)
    (hvalid : s.assignment.work.isValid = false) : Leaves config s 0 1 := by
  have htrun : s.trun config = { s with
      assignment.newWorkAssigned := false, fetched := s.assigned, point := .pausing
      pauses := s.pauses + 1 } := by
    rw [State.trun, hpoint]
    dsimp only
    rw [State.fetch, hvalid]
    rfl
  have hrest : Leaves config (s.trun config) 0 0 := by
    rw [htrun]
    exact leaves_pausing (h.of_worker rfl) rfl
  exact hrest.step h.thread (by rw [htrun]) (by rw [htrun]; rfl) (by rw [htrun])

theorem leaves_searched (h : s.Stopping) {work : Work} (hpoint : s.point = .searched work)
    (hvalid : s.assignment.work.isValid = false) : Leaves config s 0 1 := by
  have htrun : s.trun config = { s with point := .top } := by
    rw [State.trun, hpoint]
    dsimp only
    rw [h.shouldStop, Bool.not_true, Bool.and_false, if_neg Bool.false_ne_true]
  have hrest : Leaves config (s.trun config) 0 1 := by
    rw [htrun]
    exact leaves_top (h.of_worker rfl) rfl hvalid
  exact hrest.step h.thread (by rw [htrun]) (by rw [htrun]; rfl) (by rw [htrun]; rfl)

theorem leaves_searching (h : s.Stopping) {work : Work} (hpoint : s.point = .searching work)
    (hvalid : s.assignment.work.isValid = false) : Leaves config s 1 1 := by
  have htrun : s.trun config = s.evaluate config work := by
    rw [State.trun, hpoint]
  have hworker : (s.evaluate config work).worker = s.worker ∧
      (s.evaluate config work).evaluated.length = s.evaluated.length + 1 ∧
      (s.evaluate config work).pauses = s.pauses ∧ Leaves config (s.evaluate config work) 0 1 := by
    rw [State.evaluate]
    dsimp only
    split
    · exact ⟨rfl, rfl, rfl, leaves_top (h.of_worker rfl) rfl hvalid⟩
    · exact ⟨rfl, rfl, rfl, leaves_searched (h.of_worker rfl) rfl hvalid⟩
  rw [← htrun] at hworker
  obtain ⟨hworker, hevaluated, hpauses, hrest⟩ := hworker
  exact hrest.step h.thread hworker hevaluated hpauses

theorem leaves (h : s.Stopping)
    (hidle : s.point = .pausing ∨ s.assignment.work.isValid = false) :
    ∃ e ≤ 1, ∃ p ≤ 1, Leaves config s e p := by
  rcases hidle with hpoint | hvalid
  · exact ⟨0, Nat.zero_le 1, 0, Nat.zero_le 1, h.leaves_pausing hpoint⟩
  · cases hpoint : s.point with
    | top => exact ⟨0, Nat.zero_le 1, 1, Nat.le_refl 1, h.leaves_top hpoint hvalid⟩
    | pausing => exact ⟨0, Nat.zero_le 1, 0, Nat.zero_le 1, h.leaves_pausing hpoint⟩
    | searching work => exact ⟨1, Nat.le_refl 1, 1, Nat.le_refl 1, h.leaves_searching hpoint hvalid⟩
    | searched work => exact ⟨0, Nat.zero_le 1, 1, Nat.le_refl 1, h.leaves_searched hpoint hvalid⟩

theorem stops_of_leaves (h : s.Stopping) {e p : Nat} (he : e ≤ 1) (hp : p ≤ 1)
    (hleaves : Leaves config s e p) : s.Stops config := by
  obtain ⟨n, t, hreplay, hworker, hevaluated, hpauses⟩ := hleaves
  have hreturned : t.worker.thread = some .returned := by rw [hworker]
  have hcaller : t.worker.caller = some .awaitingStop := by rw [hworker, h.caller]
  refine ⟨n, t, hreplay, hreturned, ?_, ?_, ?_⟩
  · rw [hevaluated]
    exact Nat.add_le_add_left he _
  · rw [hpauses]
    exact Nat.add_le_add_left hp _
  · let stopped : Worker.State :=
      { t.worker with mode := .stopped, thread := some (.exchanged t.worker.mode) }
    have hthread : (system config).step t (.worker .thread) = some (.ok { t with worker := stopped }) := by
      simp [system, step, State.inTrun, hreturned, Worker.next, Worker.threadStep, stopped]
    have hleft : (system config).step { t with worker := stopped } (.worker .caller) =
        some (.ok { t with worker := { stopped with caller := none, stopped := true } }) := by
      simp [system, step, State.inTrun, hcaller, Worker.next, Worker.callerStep, stopped]
    refine ⟨{ t with worker := { stopped with caller := none, stopped := true } }, ?_, rfl⟩
    rw [Machine.replay, hthread]
    dsimp only
    rw [Machine.replay, hleft]
    rfl

end State.Stopping

/-! ## With a valid work -/

/-- The outer loop goes on. -/
structure Looping (s : State) : Prop where
  stopping : s.Stopping
  valid : s.assignment.work.isValid = true
  point : s.point ≠ .pausing

theorem Looping.trun (h : Looping s) : Looping (s.trun config) := by
  rw [State.trun]
  split
  next =>
    rw [State.fetch]
    dsimp only
    rw [h.valid, Bool.not_true, if_neg Bool.false_ne_true]
    exact ⟨h.stopping.of_worker rfl, h.valid, by simp⟩
  next hpoint => exact absurd hpoint h.point
  next work hpoint =>
    rw [State.evaluate]
    dsimp only
    split
    · exact ⟨h.stopping.of_worker rfl, h.valid, by simp⟩
    · exact ⟨h.stopping.of_worker rfl, h.valid, by simp⟩
  next work hpoint =>
    split
    · exact ⟨h.stopping.of_worker rfl, h.valid, by simp⟩
    · exact ⟨h.stopping.of_worker rfl, h.valid, by simp⟩

theorem Looping.replay (h : Looping s) (n : Nat)
    (hreplay : (system config).replay s (threadSteps n) = some (.ok t)) : Looping t := by
  induction n generalizing s with
  | zero =>
    cases hreplay
    exact h
  | succ n ih =>
    rw [threadSteps, List.replicate_succ, replay_thread h.stopping.thread] at hreplay
    exact ih h.trun hreplay

theorem Looping.not_stops (h : Looping s) : ¬ s.Stops config := by
  rintro ⟨n, t, hreplay, hreturned, _⟩
  have hthread := (h.replay n hreplay).stopping.thread
  rw [hreturned] at hthread
  cases hthread

/-- The miner stops exactly if it has no valid work or is in the pause for want of it. -/
theorem stops_iff {config : Config} {s : State} (h : s.Stopping) :
    s.Stops config ↔ s.point = .pausing ∨ s.assignment.work.isValid = false := by
  constructor
  · intro hstops
    by_contra hbusy
    rw [not_or, Bool.not_eq_false] at hbusy
    exact Looping.not_stops ⟨h, hbusy.2, hbusy.1⟩ hstops
  · intro hidle
    obtain ⟨e, he, p, hp, hleaves⟩ : ∃ e ≤ 1, ∃ p ≤ 1, Leaves config s e p := h.leaves hidle
    exact h.stops_of_leaves he hp hleaves

/-- `stopWorking` is called while the thread is in `trun`. -/
def stopping : List Event := [.worker .caller, .worker .stopWorking, .worker .caller]

/-- The miner is stopped before it gets a work. -/
theorem stops_iff_unassigned :
    ∃ s, ((system luckyConfig).Reachable (fun _ _ => True) s ∧ s.Stopping) ∧
      (s.Stops luckyConfig ↔ s.point = .pausing ∨ s.assignment.work.isValid = false) := by
  obtain ⟨s, hsteps, hs⟩ := Machine.steps_of_endsIn (M := system luckyConfig) (s := {})
    (p := fun s => decide (s.worker.mode = .stopping ∧ s.worker.thread = some .trun ∧
      s.worker.caller = some .awaitingStop))
    (l := starting.take 5 ++ stopping) (Machine.meets_true _ _) (by decide)
  obtain ⟨hmode, hthread, hcaller⟩ := of_decide_eq_true hs
  exact ⟨s, ⟨⟨_, rfl, hsteps⟩, ⟨hmode, hthread, hcaller⟩⟩, stops_iff ⟨hmode, hthread, hcaller⟩⟩

/-- The miner is stopped while it has a valid work: the thread never leaves `trun`. -/
theorem never_stops_with_work :
    ∃ s, (system luckyConfig).Reachable (fun _ _ => True) s ∧ s.Stopping ∧ s.point = .top ∧
      ¬ s.Stops luckyConfig := by
  obtain ⟨s, hsteps, hs⟩ := Machine.steps_of_endsIn (M := system luckyConfig) (s := {})
    (p := fun s => decide ((s.worker.mode = .stopping ∧ s.worker.thread = some .trun ∧
      s.worker.caller = some .awaitingStop) ∧ s.point = .top ∧ s.assignment.work.isValid = true))
    (l := starting ++ stopping) (Machine.meets_true _ _) (by decide)
  obtain ⟨⟨hmode, hthread, hcaller⟩, hpoint, hvalid⟩ := of_decide_eq_true hs
  have hstopping : s.Stopping := ⟨hmode, hthread, hcaller⟩
  refine ⟨s, ⟨_, rfl, hsteps⟩, hstopping, hpoint, Looping.not_stops ⟨hstopping, hvalid, ?_⟩⟩
  rw [hpoint]
  nofun

end Energiminer.Engines.CpuMiner
