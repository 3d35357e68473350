import Energiminer.Cuda.Miner
import Energiminer.Misc.EState

/-!
# What an initialisation leaves

What `cuda_init` leaves of the members it decides by, `m_dag` and `m_dag_size`, and of the DAG in the
memory of the device, whatever fails in it.
-/

namespace Energiminer.Cuda.Miner
open Misc Nrghash Engines

section
variable {config : Config} {outcome : Outcome} {epoch : Nat} {items : BitVec 32} {d₀ : Device}

/-- The device after an initialisation that has failed, or is under way, from `d₀`. -/
structure Underway (items : BitVec 32) (d₀ d : Device) : Prop where
  dagSize : d.dagSize = d₀.dagSize
  dag : d.dag = d₀.dag ∨ d.dag = false ∧ items ≠ d₀.dagSize
  held : ∀ e, d.allocated = some (some e) → d.dag = true →
    d₀.dag = true ∧ d₀.allocated = some (some e)

/-- The buffers are allocated: only the DAG of a device that keeps it is complete. -/
structure Allocated (items : BitVec 32) (d₀ d : Device) : Prop where
  underway : Underway items d₀ d
  reset : items ≠ d₀.dagSize → d.dag = false
  kept : ∀ e, d.allocated = some (some e) →
    items = d₀.dagSize ∧ d₀.dag = true ∧ d₀.allocated = some (some e)

/-- The device after an initialisation from `d₀` that has not failed. -/
structure Initialised (outcome : Outcome) (epoch : Nat) (items : BitVec 32) (d₀ d : Device) : Prop where
  dagSize : d.dagSize = items
  dag : d.dag = true
  held : ∀ e, d.allocated = some (some e) →
    items = d₀.dagSize ∧ d₀.dag = true ∧ d₀.allocated = some (some e) ∨
      items ≠ d₀.dagSize ∧ e = outcome.hostDAG.getD epoch

/-- How an initialisation from `d₀` fails: `getNumDevices` before anything has happened. -/
def Failed (items : BitVec 32) (d₀ : Device) (call : Call) (d : Device) : Prop :=
  Underway items d₀ d ∧ (call = .getNumDevices → d = d₀)

variable {P : Device → Prop}

theorem runs_call (call : Call) (hcall : call ≠ .getNumDevices)
    (hP : ∀ d, P d → Underway items d₀ d) :
    Runs P (outcome.call call) (fun _ => P) (Failed items d₀) :=
  runs_throw_or_pure fun d hd => ⟨hP d hd, fun h => absurd h hcall⟩

theorem runs_createStreams (is : List Nat) :
    Runs (Allocated items d₀) (createStreams outcome epoch is) (fun _ => Allocated items d₀)
      (Failed items d₀) := by
  induction is with
  | nil => exact fun d hd => hd
  | cons i is ih =>
    refine .bind (runs_call _ (by simp) fun _ h => h.underway) fun _ => ?_
    refine .bind (runs_call _ (by simp) fun _ h => h.underway) fun _ => ?_
    refine .bind (runs_modify fun d hd => ?_) fun _ => ih
    exact ⟨⟨hd.underway.dagSize, hd.underway.dag, hd.underway.held⟩, hd.reset, hd.kept⟩

/-- The buffer is filled while `m_dag` is null. -/
theorem runs_fillDag (hitems : items ≠ d₀.dagSize) :
    Runs (Allocated items d₀) (fillDag outcome epoch)
      (fun _ d => Underway items d₀ d ∧
        ∀ e, d.allocated = some (some e) → e = outcome.hostDAG.getD epoch)
      (Failed items d₀) := by
  -- the device is marked as having no DAG until the end, whatever is in its memory
  have hfilled (e : Nat) : ∀ d, Allocated items d₀ d →
      Underway items d₀ { d with allocated := some (some e) } ∧
        ∀ e', some (some e) = some (some e') → e' = e := fun d hd => by
    refine ⟨⟨hd.underway.dagSize, hd.underway.dag, fun _ _ hdag => ?_⟩, fun e' h => ?_⟩
    · exact absurd ((hd.reset hitems).symm.trans hdag) (by decide)
    · cases h
      rfl
  have hempty : ∀ d, Allocated items d₀ d → Underway items d₀ d ∧
      ∀ e, d.allocated = some (some e) → e = outcome.hostDAG.getD epoch := fun d hd =>
    ⟨hd.underway, fun e he => absurd (hd.kept e he).1 hitems⟩
  rw [fillDag]
  cases hhost : outcome.hostDAG with
  | none =>
    rw [hhost] at hempty
    refine .bind (runs_call _ (by simp) fun _ h => h.underway) fun _ => ?_
    dsimp only
    refine runs_ite (fun _ => ?_) fun _ => ?_
    · exact .bind (runs_modify (hfilled epoch)) fun _ => runs_call _ (by simp) fun _ h => h.1
    · exact (runs_call _ (by simp) fun _ h => h.1).mono hempty
  | some hostEpoch =>
    refine .bind (runs_call _ (by simp) fun _ h => h.underway) fun _ => ?_
    exact runs_modify (hfilled hostEpoch)

/-- A device whose page count changes has no DAG after the reset. -/
theorem runs_resetDevice :
    Runs (Underway items d₀) (resetDevice outcome items)
      (fun _ d => Underway items d₀ d ∧ (items ≠ d₀.dagSize → d.dag = false)) (Failed items d₀) := by
  refine runs_get_bind fun d hd => ?_
  have hempty : Underway items d₀ { d with allocated := none, constants := none } :=
    ⟨hd.dagSize, hd.dag, fun _ h => absurd h (Option.some_ne_none _).symm⟩
  refine runs_ite (fun hneeds => ?_) fun hkeeps => ?_
  · refine .bind (runs_call _ (by simp) fun _ h => h ▸ hd) fun _ => ?_
    refine .bind (runs_call _ (by simp) fun _ h => h ▸ hd) fun _ => ?_
    refine .bind (Q := fun _ d' => d' = { d with allocated := none, constants := none })
      (runs_modify fun _ h => h ▸ rfl) fun _ => ?_
    refine .bind (runs_call _ (by simp) fun _ h => h ▸ hempty) fun _ => ?_
    refine .bind (runs_call _ (by simp) fun _ h => h ▸ hempty) fun _ => ?_
    refine runs_modify fun d' h => ?_
    subst h
    refine ⟨⟨hd.dagSize, ?_, fun _ h => absurd h (Option.some_ne_none _).symm⟩, fun _ => rfl⟩
    rw [hd.dagSize] at hneeds
    rcases hneeds with hitems | hnone
    · exact .inr ⟨rfl, hitems⟩
    · rw [Bool.not_eq_true'] at hnone
      rcases hd.dag with hdag | ⟨_, hitems⟩
      · exact .inl (hnone.symm.trans hdag)
      · exact .inr ⟨rfl, hitems⟩
  · rintro d' rfl
    rw [not_or, hd.dagSize] at hkeeps
    exact ⟨hd, fun hitems => absurd hitems hkeeps.1⟩

theorem runs_allocateBuffers :
    Runs (fun d => Underway items d₀ d ∧ (items ≠ d₀.dagSize → d.dag = false))
      (allocateBuffers outcome epoch items) (fun _ => Allocated items d₀) (Failed items d₀) := by
  have hconstants : Runs (Allocated items d₀) (do
      outcome.call .constants
      modify fun d => { d with constants := some ⟨items, epoch⟩ }) (fun _ => Allocated items d₀)
      (Failed items d₀) := by
    refine .bind (runs_call _ (by simp) fun _ h => h.underway) fun _ => runs_modify fun d h => ?_
    exact ⟨⟨h.underway.dagSize, h.underway.dag, h.underway.held⟩, h.reset, h.kept⟩
  refine runs_get_bind fun d ⟨hd, hreset⟩ => ?_
  have hlight : Underway items d₀ { d with light := some epoch } := ⟨hd.dagSize, hd.dag, hd.held⟩
  refine runs_ite (fun _ => .bind (runs_call _ (by simp) fun _ h => h ▸ hd) fun _ => ?_) fun _ => ?_
  all_goals
    refine .bind (runs_call _ (by simp) fun _ h => h ▸ hd) fun _ => ?_
    refine .bind (Q := fun _ d' => d' = { d with light := some epoch })
      (runs_modify fun _ h => h ▸ rfl) fun _ => ?_
    refine runs_ite (fun _ => ?_) fun hkeeps => ?_
    · refine .bind (runs_call _ (by simp) fun _ h => h ▸ hlight) fun _ => ?_
      refine .bind (Q := fun _ => Allocated items d₀) (runs_modify fun d' h => ?_) fun _ => hconstants
      subst h
      exact ⟨⟨hd.dagSize, hd.dag, nofun⟩, hreset, nofun⟩
    · -- a DAG that is kept was there before
      refine hconstants.mono fun d' h => ?_
      subst h
      rw [not_or, not_not, hd.dagSize, Bool.not_eq_true', Bool.not_eq_false] at hkeeps
      exact ⟨hlight, hreset, fun e he => ⟨hkeeps.1, hd.held e he hkeeps.2⟩⟩

theorem runs_initDevice (config : Config) (outcome : Outcome) (epoch : Nat) (items : BitVec 32)
    (d₀ : Device) :
    Runs (· = d₀) (initDevice config outcome epoch items)
      (fun _ => Initialised outcome epoch items d₀) (Failed items d₀) := by
  have hself : Underway items d₀ d₀ := ⟨rfl, .inl rfl, fun _ h hdag => ⟨hdag, h⟩⟩
  refine .bind (runs_throw_or_pure fun d hd => ⟨hd ▸ hself, fun _ => hd⟩) fun _ => ?_
  refine .bind (runs_call _ (by simp) fun _ h => h ▸ hself) fun _ => ?_
  refine .bind (runs_call _ (by simp) fun _ h => h ▸ hself) fun _ => ?_
  refine .bind (Q := fun _ => Underway items d₀) (runs_modify fun d h => ?_) fun _ => ?_
  · subst h
    exact ⟨rfl, .inl rfl, hself.held⟩
  refine .bind (runs_call _ (by simp) fun _ h => h) fun _ => ?_
  refine .bind runs_resetDevice fun _ => ?_
  refine .bind runs_allocateBuffers fun _ => ?_
  refine runs_get_bind fun d hd => ?_
  have hsize := hd.underway.dagSize
  refine runs_ite (fun hitems => ?_) fun hitems => ?_
  · rw [hsize] at hitems
    refine .bind ((runs_createStreams _).mono fun _ h => h ▸ hd) fun _ => ?_
    refine .bind (runs_fillDag hitems) fun _ => ?_
    exact runs_modify fun _ h => ⟨rfl, rfl, fun e he => .inr ⟨hitems, h.2 e he⟩⟩
  · refine runs_modify fun d' h => ?_
    subst h
    exact ⟨rfl, rfl, fun e he => .inl (hd.kept e he)⟩

end

end Energiminer.Cuda.Miner
