import Energiminer.Cuda.Proofs.Streams
import Energiminer.Engines.Proofs.Setup

/-!
# Searches and initialisations

`trun` records a DAG as loaded whatever `init_dag` returns (`CUDAMiner.cpp:108-112`), and `cuda_init`
makes new arrays of streams and result buffers in every call, but fills them only if the page count has
changed (`CUDAMiner.cpp:321-440`). If every initialisation completes, with a page count that differs
from the last one, every search runs on what was set up for the epoch of its work.
-/

namespace Energiminer.Cuda.Miner
open Misc Nrghash Primitives Engines

/-- Initialisations complete. -/
def Completes (s : State) : Event → Prop
  | .thread c => s.assignment.newWorkAssigned → s.needsDag s.assignment.work.nHeight →
    c.outcome.Completes (s.assignment.work.nHeight.toNat / EPOCH_LENGTH)
      (dagItems s.assignment.work.nHeight.toNat) s.device
  | _ => True

section
variable {config : Config} {outcome : Outcome} {epoch : Nat} {items : BitVec 32} {d : Device}
  {s t : State} {c : Choice}

theorem made_addStream (is : List Nat) {d : Device}
    (h : ∀ made ∈ d.searchBuf, ∀ x ∈ made, x = none ∨ x = some epoch) :
    ∀ made ∈ (is.foldl (Device.addStream outcome epoch) d).searchBuf, ∀ x ∈ made,
      x = none ∨ x = some epoch := by
  induction is generalizing d with
  | nil => exact h
  | cons i is ih =>
    refine ih fun made hmade x hx => ?_
    obtain ⟨made', hmade', rfl⟩ := Option.map_eq_some_iff.mp hmade
    rcases List.mem_or_eq_of_mem_set hx with hx | rfl
    · exact h made' hmade' x hx
    · exact .inr rfl

theorem constants_addStream (is : List Nat) (d : Device) :
    (is.foldl (Device.addStream outcome epoch) d).constants = d.constants := by
  induction is generalizing d with
  | nil => rfl
  | cons i is ih => exact ih _

/-- Whatever a search would run on is set up for the height. -/
def Device.SetUpFor (d : Device) (height : BitVec 32) : Prop :=
  ∀ i setup, d.ready i = .ok setup → setup.For height

theorem ready_ok {i : Nat} {setup : Setup} (h : d.ready i = .ok setup) :
    ∃ made epoch, d.searchBuf = some made ∧ some epoch ∈ made ∧
      setup = ⟨d.allocated.join, (d.constants.map Constants.items).getD 0,
        d.constants.map Constants.epoch, [epoch]⟩ := by
  rw [Device.ready] at h
  split at h
  next epoch hepoch =>
    obtain ⟨made, hmade, hi⟩ := Option.bind_eq_some_iff.mp hepoch
    cases h
    exact ⟨made, epoch, hmade, List.mem_of_getElem? hi, rfl⟩
  next => cases h

theorem setUpFor_loaded (config : Config) (outcome : Outcome) (height : BitVec 32) (d : Device) :
    (d.loaded config outcome (height.toNat / EPOCH_LENGTH) (dagItems height.toNat)).SetUpFor
      height := by
  intro i setup hready
  obtain ⟨made, epoch, hmade, hmem, rfl⟩ := ready_ok hready
  have hconstants : (d.loaded config outcome (height.toNat / EPOCH_LENGTH)
      (dagItems height.toNat)).constants =
        some ⟨dagItems height.toNat, height.toNat / EPOCH_LENGTH⟩ := constants_addStream ..
  have hnone : ∀ made ∈ (d.emptied config (height.toNat / EPOCH_LENGTH)
      (dagItems height.toNat)).searchBuf, ∀ x ∈ made,
        x = none ∨ x = some (height.toNat / EPOCH_LENGTH) := by
    intro made hmade x hx
    cases hmade
    exact .inl (List.eq_of_mem_replicate hx)
  refine ⟨rfl, ?_, ?_, fun epoch' hepoch' => ?_⟩
  · rw [hconstants]
    rfl
  · rw [hconstants]
    rfl
  · rw [List.mem_singleton.mp hepoch']
    rcases made_addStream _ hnone made hmade _ hmem with h | h
    · cases h
    · exact Option.some.inj h

/-! ## Runs -/

/-- The invariant of the runs. -/
structure Loaded (s : State) : Prop where
  idle : s.current.isValid = false → s.point = .top
  current : s.current.isValid → s.dagLoaded ∧ s.lastHeight = s.current.nHeight.setWidth 64
  device : s.dagLoaded → ∃ height : BitVec 32,
    s.lastHeight = height.setWidth 64 ∧ s.device.SetUpFor height
  launched : ∀ l ∈ s.launched, l.setup.For l.height

theorem setUpFor_loadDag (h : Loaded s) (work : Work)
    (hcompletes : s.needsDag work.nHeight → c.outcome.Completes (work.nHeight.toNat / EPOCH_LENGTH)
      (dagItems work.nHeight.toNat) s.device)
    (ht : State.loadDag config { s with
      current := work, assignment := { s.assignment with newWorkAssigned := false } } c.outcome =
        .ok t) :
    t.dagLoaded = true ∧ t.device.SetUpFor work.nHeight := by
  rw [State.loadDag] at ht
  dsimp only at ht
  split at ht
  next hneeds =>
    rw [cudaInit, initDevice_ok (hcompletes hneeds)] at ht
    cases ht
    exact ⟨rfl, setUpFor_loaded _ _ _ _⟩
  next hkeeps =>
    cases ht
    rw [State.needsDag] at hkeeps
    simp only [Bool.or_eq_true, Bool.not_eq_eq_eq_not, Bool.not_true, decide_eq_true_eq, not_or,
      Bool.not_eq_false, ne_eq, not_not] at hkeeps
    obtain ⟨hloaded, hepoch⟩ := hkeeps
    obtain ⟨height, hlast, hsetup⟩ := h.device hloaded
    refine ⟨hloaded, fun i setup hready => (hsetup i setup hready).congr ?_⟩
    rw [hepoch, toNat_lastHeight hlast]

theorem loaded_takeWork (h : Loaded s) (htop : s.point = .top)
    (hcompletes : s.needsDag s.assignment.work.nHeight →
      c.outcome.Completes (s.assignment.work.nHeight.toNat / EPOCH_LENGTH)
        (dagItems s.assignment.work.nHeight.toNat) s.device)
    (ht : s.takeWork config c = .ok t) : Loaded t := by
  rw [State.takeWork] at ht
  dsimp only at ht
  split at ht
  next hinvalid =>
    cases ht
    refine ⟨fun _ => htop, fun hvalid => ?_, h.device, h.launched⟩
    rw [show s.assignment.work.isValid = true from hvalid] at hinvalid
    cases hinvalid
  next hvalid =>
    have hwork : s.assignment.work.isValid = true := by simpa using hvalid
    obtain ⟨u, hload, hstart⟩ := Except.bind_eq_ok.mp ht
    obtain ⟨hloaded, hsetup⟩ := setUpFor_loadDag h _ hcompletes hload
    obtain ⟨device, dagLoaded, rfl⟩ := loadDag_ok hload
    rw [startSearch_ok hstart]
    exact ⟨fun hinvalid => absurd (hwork.symm.trans hinvalid) (by decide), fun _ => ⟨hloaded, rfl⟩,
      fun _ => ⟨_, rfl, hsetup⟩, h.launched⟩

theorem Loaded.setUpFor (h : Loaded s) (hvalid : s.current.isValid = true) :
    s.device.SetUpFor s.current.nHeight := by
  obtain ⟨hloaded, hlast⟩ := h.current hvalid
  obtain ⟨height, hheight, hsetup⟩ := h.device hloaded
  rw [height_unique hlast hheight]
  exact hsetup

theorem Loaded.valid (h : Loaded s) (hpoint : s.point ≠ .top) : s.current.isValid = true := by
  by_contra hinvalid
  exact hpoint (h.idle (Bool.not_eq_true _ ▸ hinvalid))

theorem Loaded.congr (h : Loaded s) (hvalid : s.current.isValid = true)
    (hcurrent : t.current.nHeight = s.current.nHeight) (hloaded : t.dagLoaded = s.dagLoaded)
    (hlast : t.lastHeight = s.lastHeight)
    (hready : ∀ i, t.device.ready i = s.device.ready i)
    (hlaunched : ∀ l ∈ t.launched, l.setup.For l.height) : Loaded t := by
  have hvalid' : t.current.isValid = true := by
    rw [Work.isValid, hcurrent]
    exact hvalid
  refine ⟨fun hinvalid => absurd (hvalid'.symm.trans hinvalid) (by decide), fun _ => ?_, fun _ => ?_,
    hlaunched⟩
  · rw [hloaded, hlast, hcurrent]
    exact h.current hvalid
  · refine ⟨s.current.nHeight, hlast.trans (h.current hvalid).2, fun i setup hsetup => ?_⟩
    exact h.setUpFor hvalid i setup (hready i ▸ hsetup)

theorem loaded_launch {i : Nat} (h : Loaded s) (hvalid : s.current.isValid = true)
    (ht : s.launch config i = .ok t) : Loaded t ∧ t.current = s.current := by
  obtain ⟨l, setup, hready, hl, rfl⟩ := launch_ok ht
  refine ⟨h.congr hvalid rfl rfl rfl (fun _ => rfl) fun l' hl' => ?_, rfl⟩
  rcases List.mem_cons.mp hl' with rfl | hl'
  · rw [hl]
    exact h.setUpFor hvalid i setup hready
  · exact h.launched l' hl'

theorem loaded_run (h : Loaded s) (hcompletes : Completes s (.thread c))
    (ht : s.run config c = some (.ok t)) : Loaded t := by
  rw [State.run] at ht
  split at ht
  next htop =>
    split at ht
    · cases ht
      exact h
    · split at ht
      next hnew => exact loaded_takeWork h htop (hcompletes hnew) (Option.some.inj ht)
      · split at ht
        next hvalid =>
          rw [startSearch_ok (Option.some.inj ht)]
          exact h.congr hvalid rfl rfl rfl (fun _ => rfl) h.launched
        · cases ht
          exact h
  next i hprime =>
    have hvalid := h.valid (by rw [hprime]; exact Point.noConfusion)
    have ht := Option.some.inj ht
    rw [State.prime] at ht
    split at ht
    · obtain ⟨u, hlaunch, hreturn⟩ := Except.bind_eq_ok.mp ht
      obtain ⟨hu, hcurrent⟩ := loaded_launch h hvalid hlaunch
      cases hreturn
      exact hu.congr (hcurrent ▸ hvalid) rfl rfl rfl (fun _ => rfl) hu.launched
    · cases ht
      exact h.congr hvalid rfl rfl rfl (fun _ => rfl) h.launched
  next htest =>
    have hvalid := h.valid (by rw [htest]; exact Point.noConfusion)
    cases ht
    exact h.congr hvalid rfl rfl rfl (fun _ => rfl) h.launched
  next i hsync =>
    have hvalid := h.valid (by rw [hsync]; exact Point.noConfusion)
    obtain ⟨-, hrestart⟩ := Option.ite_none_right_eq_some.mp ht
    obtain ⟨u, hlaunch, hreturn⟩ := Except.bind_eq_ok.mp (Option.some.inj hrestart)
    obtain ⟨hu, hcurrent⟩ := loaded_launch h hvalid hlaunch
    cases hreturn
    exact hu.congr (hcurrent ▸ hvalid) rfl rfl rfl (fun _ => rfl) hu.launched
  next i found j hresults =>
    have hvalid := h.valid (by rw [hresults]; exact Point.noConfusion)
    cases ht
    rw [State.nextResult]
    split
    · exact h.congr hvalid rfl rfl rfl (fun _ => rfl) h.launched
    · exact h.congr hvalid rfl rfl rfl (fun _ => rfl) h.launched

theorem loaded_step {e : Event} (h : Loaded s) (hcompletes : Completes s e)
    (hstep : step config s e = some (.ok t)) : Loaded t := by
  cases e with
  | order order =>
    cases hstep
    exact ⟨h.idle, h.current, h.device, h.launched⟩
  | thread choice => exact loaded_run h hcompletes hstep
  | report i gid | finish i =>
    obtain ⟨st, -, heq⟩ := Option.map_eq_some_iff.mp hstep
    cases heq
    exact ⟨h.idle, h.current, h.device, h.launched⟩

theorem setup_of_completes (h : (system config).Reachable Completes s) :
    ∀ l ∈ s.launched, l.setup.For l.height := by
  have hloaded : Loaded s := by
    refine h.invariant ?_ fun _ _ _ hs hcompletes hstep => loaded_step hs hcompletes hstep
    rintro s ⟨buffer, rfl⟩
    exact ⟨fun _ => rfl, fun hvalid => absurd (show Work.blank.isValid = true from hvalid) (by decide),
      fun hloaded => absurd hloaded Bool.false_ne_true, fun l hl => absurd hl List.not_mem_nil⟩
  exact hloaded.launched

end

end Energiminer.Cuda.Miner
