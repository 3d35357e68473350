import Energiminer.Cuda.Miner
import Energiminer.Nrghash.Proofs.FullLight

/-!
# Initialisations that complete

What `cuda_init` leaves on the device if nothing fails and the page count has changed, and the state of
a small miner after its first one.
-/

namespace Energiminer.Cuda.Miner
open Misc Nrghash Primitives Engines

/-- An initialisation completes: no call fails, the page count has changed, and the DAG is generated
to its end, or copied from a host copy for the same epoch. -/
structure Outcome.Completes (outcome : Outcome) (epoch : Nat) (items : BitVec 32) (d : Device) :
    Prop where
  fails : outcome.fails = none
  stopped : outcome.stopped = false
  host : ∀ hostEpoch ∈ outcome.hostDAG, hostEpoch = epoch
  items : items ≠ d.dagSize

section
variable {config : Config} {outcome : Outcome} {epoch : Nat} {items : BitVec 32} {d : Device}
  {s : State} {c : Choice}

theorem call_eq_pure (hfails : outcome.fails = none) (call : Call) :
    outcome.call call = pure () := by
  rw [Outcome.call, hfails]
  exact if_neg (Option.some_ne_none call).symm

theorem createStreams_ok (hfails : outcome.fails = none) (epoch : Nat) (is : List Nat) (d : Device) :
    createStreams outcome epoch is d = .ok () (is.foldl (Device.addStream outcome epoch) d) := by
  induction is generalizing d with
  | nil => rfl
  | cons i is ih =>
    rw [createStreams, call_eq_pure hfails, call_eq_pure hfails]
    exact ih _

theorem fillDag_ok (h : outcome.Completes epoch items d) (d' : Device) :
    fillDag outcome epoch d' = .ok () { d' with allocated := some (some epoch) } := by
  rw [fillDag]
  cases hhost : outcome.hostDAG with
  | none =>
    simp only [call_eq_pure h.fails, h.stopped]
    rfl
  | some hostEpoch =>
    simp only [call_eq_pure h.fails, h.host hostEpoch hhost]
    rfl

/-- The device before its streams are made. -/
def Device.emptied (config : Config) (epoch : Nat) (items : BitVec 32) (d : Device) : Device :=
  { d with
    dag := false, light := some epoch, allocated := some none, constants := some ⟨items, epoch⟩
    searchBuf := some (List.replicate config.numStreams.toNat none) }

/-- The device after an initialisation. -/
def Device.loaded (config : Config) (outcome : Outcome) (epoch : Nat) (items : BitVec 32)
    (d : Device) : Device :=
  { (List.range config.numStreams.toNat).foldl (Device.addStream outcome epoch)
      (d.emptied config epoch items) with
    allocated := some (some epoch), dag := true, dagSize := items }

theorem modify_bind (f : Device → Device) (g : Unit → EStateM Call Device Unit) (d : Device) :
    (modify f >>= g) d = g () (f d) := rfl

theorem get_bind (g : Device → EStateM Call Device Unit) (d : Device) : (get >>= g) d = g d d := rfl

theorem bind_ok {x : EStateM Call Device Unit} {d d' : Device} (h : x d = .ok () d')
    (g : Unit → EStateM Call Device Unit) : (x >>= g) d = g () d' := by
  show EStateM.bind x g d = _
  rw [EStateM.bind, h]

theorem resetDevice_ok (hfails : outcome.fails = none) (d : Device) (hitems : items ≠ d.dagSize) :
    resetDevice outcome items d =
      .ok () { d with dag := false, light := none, allocated := none, constants := none } := by
  simp only [resetDevice, call_eq_pure hfails, pure_bind, get_bind, ne_eq, hitems, not_false_eq_true,
    true_or, if_true]
  rfl

theorem allocateBuffers_ok (hfails : outcome.fails = none) (d : Device) (hitems : items ≠ d.dagSize) :
    allocateBuffers outcome epoch items d = .ok () { d with
      light := some epoch, allocated := some none, constants := some ⟨items, epoch⟩ } := by
  simp only [allocateBuffers, call_eq_pure hfails, pure_bind, get_bind, ne_eq, hitems,
    not_false_eq_true, true_or, if_true, ite_self]
  rfl

theorem initDevice_ok (h : outcome.Completes epoch items d) :
    initDevice config outcome epoch items d = .ok () (d.loaded config outcome epoch items) := by
  unfold initDevice Device.loaded Device.emptied
  simp only [call_eq_pure h.fails, pure_bind, modify_bind]
  rw [bind_ok (resetDevice_ok h.fails _ ?_), bind_ok (allocateBuffers_ok h.fails _ ?_), get_bind, if_pos ?_,
    bind_ok (createStreams_ok h.fails _ _ _), bind_ok (fillDag_ok h _)]
  · rfl
  all_goals exact h.items

theorem loadDag_completes (config : Config) (hneeds : s.needsDag s.current.nHeight = true)
    (h : outcome.Completes (s.current.nHeight.toNat / EPOCH_LENGTH) (dagItems s.current.nHeight.toNat)
      s.device) :
    s.loadDag config outcome = .ok { s with
      device := s.device.loaded config outcome (s.current.nHeight.toNat / EPOCH_LENGTH)
        (dagItems s.current.nHeight.toNat)
      dagLoaded := true } := by
  rw [State.loadDag, if_pos hneeds, cudaInit, initDevice_ok h]

/-- A DAG has an odd number of pages, so its count is not that of a device without one. -/
theorem dagItems_ne_zero (b : Nat) : dagItems b ≠ 0 := by
  intro h
  have hzero := congrArg BitVec.toNat h
  have hodd := getFullSize_odd b
  rw [dagItems, BitVec.toNat_ofNat, MIX_BYTES] at hzero
  have : getFullSize b / 128 % 2 ^ 32 = 0 := hzero
  omega

end

/-! ## A small miner -/

/-- One stream of eight threads. -/
def smallConfig : Config where
  gridSize := 1
  blockSize := 8
  numStreams := 1
  exit := false
  streams_ne_zero := by decide

def SearchResults.blank : SearchResults := ⟨fun _ => 0, 0⟩

/-- A step in which nothing fails. -/
def choose : Choice := ⟨{ fresh := .blank }, 0, Uint256.null⟩

/-- The first work is assigned. -/
def assigned : State :=
  { State.initial .blank with assignment := { work := workAt 1, newWorkAssigned := true } }

/-- The DAG for the first work is loaded. -/
def primed : State :=
  { device := assigned.device.loaded smallConfig choose.outcome
      ((workAt 1).nHeight.toNat / EPOCH_LENGTH) (dagItems (workAt 1).nHeight.toNat)
    assignment := { work := workAt 1 }
    current := workAt 1
    dagLoaded := true
    lastHeight := 1
    point := .prime 0 }

theorem completes_choose :
    choose.outcome.Completes ((workAt 1).nHeight.toNat / EPOCH_LENGTH)
      (dagItems (workAt 1).nHeight.toNat) assigned.device :=
  ⟨rfl, rfl, fun _ h => absurd h (Option.some_ne_none _).symm, dagItems_ne_zero _⟩

theorem step_assigned : step smallConfig (.initial .blank) (.order (.setWork (workAt 1) (workAt 1))) =
    some (.ok assigned) := by
  have hnew : (workAt 1).eqv Work.blank = false := by decide +kernel
  simp only [step, State.initial, Assignment.obey, hnew]
  rfl

theorem step_primed : step smallConfig assigned (.thread choose) = some (.ok primed) := by
  have htarget : upper64OfBoundary (workAt 1).hashTarget ≠ 0 := by decide +kernel
  have hload := loadDag_completes smallConfig
    (s := { assigned with current := workAt 1, assignment := { work := workAt 1 } }) rfl completes_choose
  have htake : assigned.takeWork smallConfig choose = (State.loadDag smallConfig
      { assigned with current := workAt 1, assignment := { work := workAt 1 } } choose.outcome >>=
        fun s => State.startSearch { s with lastHeight := s.current.nHeight.setWidth 64 } choose) := rfl
  show some (assigned.takeWork smallConfig choose) = _
  rw [htake, hload, Except.ok_bind, State.startSearch, if_neg htarget]
  rfl

theorem steps_primed {C : State → Event → Prop}
    (hassign : C (.initial .blank) (.order (.setWork (workAt 1) (workAt 1))))
    (hload : C assigned (.thread choose)) : (system smallConfig).Steps C (.initial .blank) primed := by
  have hassigned : (system smallConfig).Steps C (.initial .blank) assigned :=
    Machine.Steps.refl.step hassign step_assigned
  exact hassigned.step hload step_primed

theorem endsIn_primed (p : State → Bool) (es : List Event) :
    (system smallConfig).endsIn p (.initial .blank)
      (.order (.setWork (workAt 1) (workAt 1)) :: .thread choose :: es) =
        (system smallConfig).endsIn p primed es := by
  rw [Machine.endsIn_cons step_assigned, Machine.endsIn_cons step_primed]

end Energiminer.Cuda.Miner
