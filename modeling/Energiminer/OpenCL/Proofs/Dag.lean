import Energiminer.Engines.Proofs.Setup
import Energiminer.OpenCL.Proofs.Pipeline

/-!
# Searches and initialisations

`trun` records a DAG as loaded whatever `init` returns (`CLMiner.cpp:319-333`). If every
initialisation completes, every search runs on objects made for the epoch of its work.
-/

namespace Energiminer.OpenCL.Miner
open Misc Nrghash Primitives Engines

/-- An initialisation completes, and the height of its work is an `int`. -/
def Completes (s : State) : Event → Prop
  | .thread c => s.assignment.newWorkAssigned → s.needsDag s.assignment.work.nHeight →
    c.outcome.fails = none ∧ c.outcome.stopped = false ∧ s.assignment.work.nHeight.toNat < 2 ^ 31
  | _ => True

instance : ∀ (s : State) (e : Event), Decidable (Completes s e)
  | s, .thread c => inferInstanceAs (Decidable (s.assignment.newWorkAssigned = true →
      s.needsDag s.assignment.work.nHeight = true →
      c.outcome.fails = none ∧ c.outcome.stopped = false ∧ s.assignment.work.nHeight.toNat < 2 ^ 31))
  | _, .order _ => .isTrue trivial
  | _, .device _ => .isTrue trivial

/-- Whatever a search would run on is set up for the height. -/
def Device.SetUpFor (d : Device) (height : BitVec 32) : Prop :=
  ∀ setup, d.ready = .ok setup → setup.For height

theorem toNat_signExtend {height : BitVec 32} (h : height.toNat < 2 ^ 31) :
    (height.signExtend 64).toNat = height.toNat := by
  rw [BitVec.toNat_signExtend, BitVec.msb_eq_decide, decide_eq_false (by omega)]
  simp
  omega

/-- The invariant of the runs. -/
structure Loaded (s : State) : Prop where
  idle : s.current.isValid = false → s.point = .top
  current : s.current.isValid → s.dagLoaded ∧ s.lastHeight = s.current.nHeight.setWidth 64
  device : s.dagLoaded → ∃ height : BitVec 32,
    s.lastHeight = height.setWidth 64 ∧ s.device.SetUpFor height
  launched : ∀ l ∈ s.launched, l.setup.For l.height

section
variable {K : KeccakFns} {config : Config} {s t : State} {c : Choice}

theorem init_completes (config : Config) {outcome : Outcome} (d : Device) {height : BitVec 32}
    (hfails : outcome.fails = none) (hstopped : outcome.stopped = false)
    (hheight : height.toNat < 2 ^ 31) :
    ∃ d', init config outcome height d = .ok () d' ∧ d'.SetUpFor height := by
  obtain ⟨fails, stopped, fresh⟩ := outcome
  cases hfails
  cases hstopped
  refine ⟨_, rfl, fun setup hready => ?_⟩
  rw [toNat_signExtend hheight] at hready
  simp only [Device.ready, Device.object, Option.map_some, Option.toList_some, List.singleton_append,
    and_self, if_true] at hready
  cases hready
  exact ⟨rfl, rfl, rfl, by simp⟩

theorem setUpFor_loadDag (h : Loaded s) (work : Work)
    (hcompletes : s.needsDag work.nHeight → c.outcome.fails = none ∧ c.outcome.stopped = false ∧
      work.nHeight.toNat < 2 ^ 31)
    (ht : State.loadDag config { s with
      current := work, assignment := { s.assignment with newWorkAssigned := false } } c.outcome =
        .ok t) :
    t.dagLoaded = true ∧ t.device.SetUpFor work.nHeight := by
  rw [State.loadDag] at ht
  dsimp only at ht
  split at ht
  next hneeds =>
    obtain ⟨hfails, hstopped, hheight⟩ := hcompletes hneeds
    obtain ⟨d, hinit, hsetup⟩ := init_completes config s.device hfails hstopped hheight
    rw [hinit] at ht
    cases ht
    exact ⟨rfl, hsetup⟩
  next hkeeps =>
    cases ht
    rw [State.needsDag] at hkeeps
    simp only [Bool.or_eq_true, Bool.not_eq_eq_eq_not, Bool.not_true, decide_eq_true_eq, not_or,
      Bool.not_eq_false, ne_eq, not_not] at hkeeps
    obtain ⟨hloaded, hepoch⟩ := hkeeps
    obtain ⟨height, hlast, hsetup⟩ := h.device hloaded
    refine ⟨hloaded, fun setup hready => (hsetup setup hready).congr ?_⟩
    have hlt : height.toNat / EPOCH_LENGTH < 2 ^ 32 := (Nat.div_le_self ..).trans_lt height.isLt
    rw [hepoch, toNat_lastHeight hlast, u32, Nat.mod_eq_of_lt hlt]

theorem loaded_takeWork (h : Loaded s) (htop : s.point = .top)
    (hcompletes : s.needsDag s.assignment.work.nHeight → c.outcome.fails = none ∧
      c.outcome.stopped = false ∧ s.assignment.work.nHeight.toNat < 2 ^ 31)
    (ht : s.takeWork K config c = .ok t) : Loaded t := by
  rw [State.takeWork] at ht
  dsimp only at ht
  split at ht
  next hinvalid =>
    cases ht
    refine ⟨fun _ => htop, fun hvalid => ?_, h.device, h.launched⟩
    rw [show s.assignment.work.isValid = true from hvalid] at hinvalid
    cases hinvalid
  next hvalid =>
    have hwork : s.assignment.work.isValid = true := by simpa using hvalid
    obtain ⟨u, hload, hstart⟩ := Except.bind_eq_ok.mp ht
    obtain ⟨hloaded, hsetup⟩ := setUpFor_loadDag h _ hcompletes hload
    obtain ⟨device, dagLoaded, rfl⟩ := loadDag_ok hload
    obtain ⟨setup, hready, rfl⟩ := startWork_ok hstart
    refine ⟨fun hinvalid => ?_, fun _ => ⟨hloaded, rfl⟩, fun _ => ⟨_, rfl, hsetup⟩, fun l hl => ?_⟩
    · exact absurd (hwork.symm.trans hinvalid) (by decide)
    · rw [List.mem_singleton.mp hl]
      exact hsetup setup hready

theorem loaded_launchNext (hvalid : s.current.isValid = true)
    (hcurrent : s.dagLoaded = true ∧ s.lastHeight = s.current.nHeight.setWidth 64)
    (hdevice : s.device.SetUpFor s.current.nHeight) (hlaunched : ∀ l ∈ s.launched, l.setup.For l.height)
    (ht : s.launchNext c = .ok t) : Loaded t := by
  obtain ⟨setup, hready, rfl⟩ := launchNext_ok ht
  refine ⟨fun hinvalid => absurd (hvalid.symm.trans hinvalid) (by decide), fun _ => hcurrent,
    fun _ => ⟨_, hcurrent.2, hdevice⟩, fun l hl => ?_⟩
  rcases List.mem_append.mp hl with hl | hl
  · exact hlaunched l hl
  · rw [List.mem_singleton.mp hl]
    exact hdevice setup hready

theorem Loaded.setUpFor (h : Loaded s) (hvalid : s.current.isValid = true) :
    s.device.SetUpFor s.current.nHeight := by
  obtain ⟨hloaded, hlast⟩ := h.current hvalid
  obtain ⟨height, hheight, hsetup⟩ := h.device hloaded
  rw [height_unique hlast hheight]
  exact hsetup

theorem loaded_nextResult {i : Nat} (h : Loaded s) (hpoint : s.point = .results i)
    (ht : s.nextResult i c = .ok t) : Loaded t := by
  rw [State.nextResult] at ht
  split at ht
  · split at ht
    · cases ht
      refine ⟨fun hinvalid => ?_, h.current, h.device, h.launched⟩
      have htop := h.idle hinvalid
      rw [hpoint] at htop
      cases htop
    · cases ht
  · cases ht
    exact ⟨fun _ => rfl, h.current, h.device, h.launched⟩

theorem loaded_run (h : Loaded s) (hcompletes : Completes s (.thread c))
    (ht : s.run K config c = some (.ok t)) : Loaded t := by
  rw [State.run] at ht
  split at ht
  next htop =>
    split at ht
    · cases ht
      exact h
    · split at ht
      next hnew => exact loaded_takeWork h htop (hcompletes hnew) (Option.some.inj ht)
      · split at ht
        next hread =>
          obtain ⟨-, hnext⟩ := Option.ite_none_right_eq_some.mp ht
          have hvalid : s.current.isValid = true := (Bool.and_eq_true .. ▸ hread).2
          exact loaded_launchNext (s := s.readBuffer) hvalid (h.current hvalid) (h.setUpFor hvalid)
            h.launched (Option.some.inj hnext)
        next =>
          cases ht
          exact ⟨h.idle, h.current, h.device, h.launched⟩
  next hblock =>
    have hvalid : s.current.isValid = true := by
      by_contra hinvalid
      have htop := h.idle (Bool.not_eq_true _ ▸ hinvalid)
      rw [hblock] at htop
      cases htop
    exact loaded_launchNext hvalid (h.current hvalid) (h.setUpFor hvalid) h.launched
      (Option.some.inj ht)
  next i hresults => exact loaded_nextResult h hresults (Option.some.inj ht)

theorem loaded_step {e : Event} (h : Loaded s) (hcompletes : Completes s e)
    (hstep : step K config s e = some (.ok t)) : Loaded t := by
  cases e with
  | order order =>
    cases hstep
    exact ⟨h.idle, h.current, h.device, h.launched⟩
  | thread choice => exact loaded_run h hcompletes hstep
  | device stack =>
    have hu := Machine.eq_some_of_map_ok hstep
    rw [State.execute] at hu
    split at hu
    · cases hu
    · cases hu
      exact ⟨h.idle, h.current, h.device, h.launched⟩

theorem setup_of_completes (h : (system K config).Reachable Completes s) :
    ∀ l ∈ s.launched, l.setup.For l.height := by
  have hloaded : Loaded s := by
    refine h.invariant ?_ fun _ _ _ hs hcompletes hstep => loaded_step hs hcompletes hstep
    rintro s ⟨memory, results, rfl⟩
    exact ⟨fun _ => rfl, fun hvalid => absurd (show Work.blank.isValid = true from hvalid) (by decide),
      fun hloaded => absurd (show false = true from hloaded) (by decide),
      fun l hl => absurd hl List.not_mem_nil⟩
  exact hloaded.launched

end

end Energiminer.OpenCL.Miner
