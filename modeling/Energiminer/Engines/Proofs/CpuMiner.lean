import Mathlib.Data.List.Nodup
import Mathlib.Data.List.Range
import Energiminer.Engines.CpuMiner

/-!
# What the CPU miner evaluates and submits

The inner loop counts up from the start nonce, so one call of `getWork` repeats nothing. The loop also
ends where a solution was found, and the outer loop then begins again at the start nonce: nothing is
repeated as long as a valid work is fetched only once.
-/

namespace Energiminer.Engines.CpuMiner
open Misc Primitives

variable {config : Config} {s t : State} {e : Event}

/-! ## Counting up -/

/-- The nonces from `first` on. -/
def upward (first : BitVec 64) (n : Nat) : List (BitVec 64) :=
  (List.range n).map fun k => first + BitVec.ofNat 64 k

theorem upward_succ (first : BitVec 64) (n : Nat) :
    upward first (n + 1) = upward first n ++ [first + BitVec.ofNat 64 n] := by
  rw [upward, List.range_succ, List.map_append]
  rfl

/-- All nonces are different until all were tried. -/
theorem nodup_take_upward (first : BitVec 64) (n : Nat) : ((upward first n).take (2 ^ 64)).Nodup := by
  rw [upward, ← List.map_take, List.take_range]
  refine List.nodup_range.map_on fun x hx y hy heq => ?_
  have hx : x < 2 ^ 64 := Nat.lt_of_lt_of_le (List.mem_range.mp hx) (Nat.min_le_left _ _)
  have hy : y < 2 ^ 64 := Nat.lt_of_lt_of_le (List.mem_range.mp hy) (Nat.min_le_left _ _)
  have hnat := congrArg BitVec.toNat ((BitVec.add_right_inj first).mp heq)
  rwa [BitVec.toNat_ofNat, BitVec.toNat_ofNat, Nat.mod_eq_of_lt hx, Nat.mod_eq_of_lt hy] at hnat

/-! ## The invariant -/

/-- The work in the inner loop. -/
def Point.work? : Point → Option Work
  | .searching work => some work
  | .searched work => some work
  | _ => none

theorem noncesOf_cons (s : State) (trial : Trial) (a : Nat) :
    ({ s with evaluated := trial :: s.evaluated } : State).noncesOf a =
      if trial.assignment = a then s.noncesOf a ++ [trial.nonce] else s.noncesOf a := by
  rw [State.noncesOf, List.filter_cons]
  by_cases h : trial.assignment = a
  · simp [h, State.noncesOf]
  · simp [h, State.noncesOf]

/-- No assignment is fetched twice. -/
structure FetchedOnce (s : State) : Prop where
  fetched_le : s.fetched ≤ s.assigned
  /-- a valid work with the flag set was not fetched -/
  renewed : s.assignment.work.isValid = true → s.assignment.newWorkAssigned = true →
    s.fetched < s.assigned
  evaluated : ∀ trial ∈ s.evaluated, trial.assignment ≤ s.fetched
  submitted : ∀ trial ∈ s.submitted, trial.assignment ≤ s.fetched

/-- The trials of each assignment count up, and end with its solution. -/
structure CountsUp (s : State) : Prop where
  upward : ∀ a, ∃ first n, s.noncesOf a = upward first n
  current : ∀ work, s.point.work? = some work → ∃ first n,
    s.noncesOf s.fetched = CpuMiner.upward first n ∧ work.nNonce = first + BitVec.ofNat 64 n
  once : (s.submitted.map Trial.assignment).Nodup
  unsolved : ∀ work, s.point.work? = some work → ∀ trial ∈ s.submitted, trial.assignment ≠ s.fetched

theorem CountsUp.congr (h : CountsUp s) (hevaluated : t.evaluated = s.evaluated)
    (hsubmitted : t.submitted = s.submitted) (hfetched : t.fetched = s.fetched)
    (hpoint : ∀ work, t.point.work? = some work → s.point.work? = some work) : CountsUp t := by
  have hnonces (a : Nat) : t.noncesOf a = s.noncesOf a := by
    rw [State.noncesOf, State.noncesOf, hevaluated]
  refine ⟨fun a => ?_, fun work hwork => ?_, by rw [hsubmitted]; exact h.once, fun work hwork => ?_⟩
  · rw [hnonces]
    exact h.upward a
  · rw [hnonces, hfetched]
    exact h.current work (hpoint work hwork)
  · rw [hsubmitted, hfetched]
    exact h.unsolved work (hpoint work hwork)

theorem fetchedOnce_obey (h : FetchedOnce s) (order : Order) : FetchedOnce (s.obey order) := by
  cases order with
  | setWork work updated =>
    rw [State.obey, Assignment.obey]
    split
    next => exact h
    next =>
      have hlt := Nat.lt_succ_of_le h.fetched_le
      exact ⟨Nat.le_of_lt hlt, fun _ _ => hlt, h.evaluated, h.submitted⟩
  | resetWork =>
    exact ⟨h.fetched_le, fun hvalid => absurd hvalid Bool.false_ne_true, h.evaluated, h.submitted⟩
  | updateWorkTimestamp nTime | setMiningPaused paused =>
    exact ⟨h.fetched_le, h.renewed, h.evaluated, h.submitted⟩

theorem fetchedOnce_fetch (h : FetchedOnce s) : FetchedOnce (s.fetch config) := by
  have hall : FetchedOnce { s with assignment.newWorkAssigned := false, fetched := s.assigned } :=
    ⟨Nat.le_refl _, fun _ hnew => absurd hnew Bool.false_ne_true,
      fun trial ht => (h.evaluated trial ht).trans h.fetched_le,
      fun trial ht => (h.submitted trial ht).trans h.fetched_le⟩
  rw [State.fetch]
  dsimp only
  split
  · exact ⟨hall.fetched_le, hall.renewed, hall.evaluated, hall.submitted⟩
  · exact ⟨hall.fetched_le, hall.renewed, hall.evaluated, hall.submitted⟩

theorem countsUp_fetch (h : CountsUp s) (hfetched : FetchedOnce s)
    (hrenewed : s.assignment.work.isValid = true → s.assignment.newWorkAssigned = true) :
    CountsUp (s.fetch config) := by
  rw [State.fetch]
  dsimp only
  split
  next => exact ⟨h.upward, nofun, h.once, nofun⟩
  next hvalid =>
    rw [Bool.not_eq_true, Bool.not_eq_false'] at hvalid
    -- nothing was tried yet for the assignment
    have hlt := hfetched.renewed hvalid (hrenewed hvalid)
    have hnone : s.noncesOf s.assigned = [] := by
      rw [State.noncesOf, List.filter_eq_nil_iff.mpr, List.map_nil, List.reverse_nil]
      intro trial ht heq
      exact absurd (hfetched.evaluated trial ht) (Nat.not_le.mpr (of_decide_eq_true heq ▸ hlt))
    refine ⟨h.upward, fun work hwork => ?_, h.once, fun work _ trial ht heq => ?_⟩
    · cases hwork
      exact ⟨config.getStartNonce, 0, hnone, (BitVec.add_zero _).symm⟩
    · exact absurd (hfetched.submitted trial ht) (Nat.not_le.mpr (heq ▸ hlt))

theorem upward_evaluated (h : CountsUp s) {work : Work} (hpoint : s.point.work? = some work) (a : Nat) :
    ∃ first n, ({ s with evaluated := ⟨s.fetched, work.nNonce⟩ :: s.evaluated } : State).noncesOf a =
      upward first n := by
  rw [noncesOf_cons]
  split
  next heq =>
    obtain ⟨first, n, hnonces, hnonce⟩ := h.current work hpoint
    refine ⟨first, n + 1, ?_⟩
    rw [upward_succ, ← hnonces, ← hnonce, show s.fetched = a from heq]
  next => exact h.upward a

theorem countsUp_evaluate (h : CountsUp s) {work : Work} (hpoint : s.point.work? = some work) :
    CountsUp (s.evaluate config work) := by
  have hupward := upward_evaluated h hpoint
  rw [State.evaluate]
  dsimp only
  split
  next =>
    refine ⟨hupward, nofun, ?_, nofun⟩
    dsimp only
    rw [List.map_cons, List.nodup_cons]
    refine ⟨fun hmem => ?_, h.once⟩
    obtain ⟨trial, ht, heq⟩ := List.mem_map.mp hmem
    exact h.unsolved work hpoint trial ht heq
  next =>
    refine ⟨hupward, fun work' hwork => ?_, h.once, fun _ _ => h.unsolved work hpoint⟩
    cases hwork
    obtain ⟨first, n, hnonces, hnonce⟩ := h.current work hpoint
    refine ⟨first, n + 1, ?_, ?_⟩
    · have hcons := noncesOf_cons s ⟨s.fetched, work.nNonce⟩ s.fetched
      rw [if_pos rfl, hnonces] at hcons
      refine hcons.trans ?_
      rw [upward_succ, hnonce]
    · dsimp only
      rw [hnonce, BitVec.add_assoc]
      exact congrArg (first + ·) (BitVec.ofNat_add n 1).symm

theorem fetchedOnce_evaluate (h : FetchedOnce s) (work : Work) :
    FetchedOnce (s.evaluate config work) := by
  have hcons (trials : List Trial) (nonce : BitVec 64) (hall : ∀ trial ∈ trials, trial.assignment ≤ s.fetched) :
      ∀ trial ∈ ⟨s.fetched, nonce⟩ :: trials, trial.assignment ≤ s.fetched := by
    intro trial ht
    rcases List.mem_cons.mp ht with rfl | ht
    · exact Nat.le_refl _
    · exact hall trial ht
  rw [State.evaluate]
  dsimp only
  split
  · exact ⟨h.fetched_le, h.renewed, hcons _ _ h.evaluated, hcons _ _ h.submitted⟩
  · exact ⟨h.fetched_le, h.renewed, hcons _ _ h.evaluated, h.submitted⟩

theorem fetchedOnce_trun (h : FetchedOnce s) : FetchedOnce (s.trun config) := by
  rw [State.trun]
  split
  · exact fetchedOnce_fetch h
  · split
    · exact ⟨h.fetched_le, h.renewed, h.evaluated, h.submitted⟩
    · exact ⟨h.fetched_le, h.renewed, h.evaluated, h.submitted⟩
  · exact fetchedOnce_evaluate h _
  · split
    · exact ⟨h.fetched_le, h.renewed, h.evaluated, h.submitted⟩
    · exact ⟨h.fetched_le, h.renewed, h.evaluated, h.submitted⟩

theorem countsUp_trun (h : CountsUp s) (hfetched : FetchedOnce s)
    (hrenewed : s.point = .top → s.assignment.work.isValid = true →
      s.assignment.newWorkAssigned = true) : CountsUp (s.trun config) := by
  rw [State.trun]
  split
  next htop => exact countsUp_fetch h hfetched (hrenewed htop)
  next hpoint =>
    split
    · exact h.congr rfl rfl rfl fun _ hwork => hwork
    · exact h.congr rfl rfl rfl nofun
  next work hpoint => exact countsUp_evaluate h (by rw [hpoint]; rfl)
  next work hpoint =>
    split
    · exact h.congr rfl rfl rfl fun work' hwork => by rw [hpoint]; exact hwork
    · exact h.congr rfl rfl rfl nofun

theorem countsUp_step (h : FetchedOnce s ∧ CountsUp s) (hrenewed : Renewed s e)
    (hstep : step config s e = some t) : FetchedOnce t ∧ CountsUp t := by
  obtain ⟨hfetched, hcounts⟩ := h
  unfold step at hstep
  split at hstep
  next hin =>
    cases hstep
    exact ⟨fetchedOnce_trun hfetched, countsUp_trun hcounts hfetched (hrenewed hin)⟩
  next =>
    cases e with
    | order order =>
      cases hstep
      exact ⟨fetchedOnce_obey hfetched order, hcounts.congr rfl rfl rfl fun _ hwork => hwork⟩
    | worker event =>
      obtain ⟨worker, _, rfl⟩ := Option.map_eq_some_iff.mp hstep
      refine ⟨⟨hfetched.fetched_le, hfetched.renewed, hfetched.evaluated, hfetched.submitted⟩,
        hcounts.congr rfl rfl rfl fun work hwork => ?_⟩
      dsimp only at hwork
      split at hwork
      · exact hwork
      · cases hwork

theorem CountsUp.neverRepeats (h : CountsUp s) : s.NeverRepeats where
  evaluated a := by
    obtain ⟨first, n, hnonces⟩ := h.upward a
    rw [hnonces]
    exact nodup_take_upward first n
  submitted := h.once.of_map

/-- If the miner fetches a valid work only after it was assigned anew, it never repeats itself. -/
theorem neverRepeats_of_renewed {config : Config} {s : State}
    (h : (system config).Reachable Renewed s) : s.NeverRepeats := by
  have hinv : FetchedOnce s ∧ CountsUp s := by
    refine h.invariant (I := fun s => FetchedOnce s ∧ CountsUp s) ?_ ?_
    · rintro s rfl
      exact ⟨⟨Nat.le_refl 0, nofun, nofun, nofun⟩, ⟨fun _ => ⟨0, 0, rfl⟩, nofun, List.nodup_nil, nofun⟩⟩
    · rintro s e t hs he hstep
      exact countsUp_step hs he (Machine.eq_some_of_map_ok hstep)
  exact hinv.2.neverRepeats

/-- A miner for which every nonce is a solution of a work with the easiest target. -/
def luckyConfig : Config := ⟨fun _ => (Uint256.null, Uint256.null), 0, 0⟩

/-- The thread is started, enters `trun` and gets a work. -/
def starting : List Event :=
  [.worker .startWorking, .worker .caller, .worker .caller, .worker .thread, .worker .thread,
    .order (.setWork (workAt 1) (workAt 1))]

/-- The work is reset when its solution is submitted, as in solo mode, and another one is solved. -/
theorem neverRepeats_of_renewed_solo :
    ∃ s, ((system luckyConfig).Reachable Renewed s ∧ s.submitted = [⟨2, 0⟩, ⟨1, 0⟩]) ∧
      s.NeverRepeats := by
  have hmeets : (system luckyConfig).Meets Renewed {}
      (starting ++ [.worker .thread, .worker .thread, .order .resetWork, .worker .thread,
        .worker .thread, .order (.setWork (workAt 2) (workAt 2)), .worker .thread, .worker .thread]) := by
    decide
  obtain ⟨s, hsteps, hs⟩ := Machine.steps_of_endsIn
    (p := fun s : State => decide (s.submitted = [⟨2, 0⟩, ⟨1, 0⟩])) hmeets (by decide)
  have hreachable : (system luckyConfig).Reachable Renewed s := ⟨_, rfl, hsteps⟩
  exact ⟨s, ⟨hreachable, of_decide_eq_true hs⟩, neverRepeats_of_renewed hreachable⟩

/-- A pool leaves the work as it is when a solution is submitted: the miner begins again at the start
nonce, evaluates it a second time and submits it a second time. -/
theorem submits_nonce_again :
    ∃ s, (system luckyConfig).Reachable (fun _ _ => True) s ∧ s.assigned = 1 ∧
      s.noncesOf 1 = [0, 0] ∧ s.submitted = [⟨1, 0⟩, ⟨1, 0⟩] ∧ ¬ s.NeverRepeats := by
  obtain ⟨s, hsteps, hs⟩ := Machine.steps_of_endsIn (M := system luckyConfig) (s := {})
    (p := fun s => decide (s.assigned = 1 ∧ s.noncesOf 1 = [0, 0] ∧ s.submitted = [⟨1, 0⟩, ⟨1, 0⟩]))
    (l := starting ++ [.worker .thread, .worker .thread, .worker .thread, .worker .thread])
    (Machine.meets_true _ _) (by decide)
  obtain ⟨hassigned, hnonces, hsubmitted⟩ := of_decide_eq_true hs
  refine ⟨s, ⟨_, rfl, hsteps⟩, hassigned, hnonces, hsubmitted, fun hnever => ?_⟩
  have hnodup := hnever.submitted
  rw [hsubmitted] at hnodup
  exact absurd hnodup (by decide)

end Energiminer.Engines.CpuMiner
