import Energiminer.Cuda.Proofs.InitOutcomes
import Energiminer.Engines.DagLoad
import Energiminer.OpenCL.Proofs.Dag

/-!
# The devices that load the DAG

The initialisation of a device is modelled call by call (`Cuda.Miner.cudaInit`, `OpenCL.Miner.init`),
and as a part of the code by which the miners of an engine load their DAGs. Whatever fails in an
initialisation, a miner that no other one interrupts gets through that code to the device it leaves.
-/

namespace Energiminer.Engines.DagLoad
open Misc Threads Nrghash

variable {cfg : Config} {i : Nat} {g : Shared} {m : Miner}

/-! ## CUDA -/

/-- The members of the miner are those of the device, and the DAG of a device was loaded. -/
structure Fits (m : Miner) (d : Cuda.Miner.Device) : Prop where
  dag : m.dag = d.dag
  dagSize : m.dagSize = d.dagSize
  loaded : ∀ e, d.allocated = some (some e) → d.dag = true → e ∈ m.loaded

/-- The initialisation finds the copy in host memory, or may do without it. -/
structure Finds (cfg : Config) (i : Nat) (g : Shared) (outcome : Cuda.Miner.Outcome) : Prop where
  copy : ∀ e, outcome.hostDAG = some e →
    ∃ block, g.dagInHostMemory = some block ∧ g.heap[block]? = some ⟨e, true⟩
  creator : outcome.hostDAG = none → g.dagInHostMemory = none ∧
    (cfg.deviceNum i = cfg.dagCreateDevice ∨ cfg.dagLoadMode ≠ .single)

/-- The miner gets alone to a point of the code, with the device. -/
def Reaches (cfg : Config) (i : Nat) (g : Shared) (m : Miner) (phase : Phase)
    (d : Cuda.Miner.Device) : Prop :=
  ∃ g' m', Alone (act cfg) i g m g' m' ∧ m'.phase = phase ∧ Fits m' d

section
variable {d d' : Cuda.Miner.Device}

theorem act_reset (hengine : cfg.engine = .cuda) (hphase : m.phase = .init)
    (hitems : dagItems m.height.toNat ≠ m.dagSize) :
    act cfg i .go g m = some (.ok (g, { m with phase := .hostTest, dag := false })) := by
  rw [act, Miner.go, hphase]
  dsimp only
  rw [hengine]
  exact if_pos hitems

theorem act_fail (hengine : cfg.engine = .cuda) (hphase : m.phase = .init ∨ m.phase = .hostTest) :
    act cfg i .fail g m = some (.ok (g, { m with phase := .count })) := by
  rw [act, Miner.fail, hengine]
  rcases hphase with hphase | hphase
  · rw [hphase]
    rfl
  · rw [hphase]
    rfl

/-- A failure: `getNumDevices()` throws before the miner is counted, and after the reset there is no
DAG. -/
theorem reaches_of_failed (hengine : cfg.engine = .cuda) (hphase : m.phase = .init)
    (hfits : Fits m d) {call : Cuda.Miner.Call}
    (h : Cuda.Miner.Failed (dagItems m.height.toNat) d call d') :
    Reaches cfg i g m (if call = .getNumDevices then .mining else .count) d' := by
  obtain ⟨hunderway, hfirst⟩ := h
  split
  next hcall =>
    rw [hfirst hcall]
    refine ⟨g, m.finish, .step (a := .throw) ?_ .refl, rfl, hfits.dag, hfits.dagSize, hfits.loaded⟩
    rw [act, Miner.throw, hengine, hphase]
    rfl
  next =>
    rcases hunderway.dag with hdag | ⟨hdag, hitems⟩
    · refine ⟨g, _, .step (act_fail hengine (.inl hphase)) .refl, rfl, ?_⟩
      exact ⟨hfits.dag.trans hdag.symm, hfits.dagSize.trans hunderway.dagSize.symm,
        fun e he htrue => hfits.loaded e (hunderway.held e he htrue).2 (hunderway.held e he htrue).1⟩
    · rw [← hfits.dagSize] at hitems
      refine ⟨g, _, .step (act_reset hengine hphase hitems)
        (.step (act_fail hengine (.inr rfl)) .refl), rfl, hdag.symm, ?_, fun _ _ htrue => ?_⟩
      · exact hfits.dagSize.trans hunderway.dagSize.symm
      · exact absurd (hdag.symm.trans htrue) (by decide)

theorem reaches_of_initialised {outcome : Cuda.Miner.Outcome} (hengine : cfg.engine = .cuda)
    (hphase : m.phase = .init) (hfits : Fits m d) (hfinds : Finds cfg i g outcome)
    (h : Cuda.Miner.Initialised outcome m.epoch (dagItems m.height.toNat) d d') :
    Reaches cfg i g m .count d' := by
  by_cases hitems : dagItems m.height.toNat ≠ m.dagSize
  · have hreset := act_reset (g := g) (i := i) hengine hphase hitems
    have hnew (e : Nat) (he : d'.allocated = some (some e)) : e = outcome.hostDAG.getD m.epoch := by
      rcases h.held e he with ⟨hsame, _⟩ | ⟨_, hnew⟩
      · exact absurd (hsame.trans hfits.dagSize.symm) hitems
      · exact hnew
    cases hhost : outcome.hostDAG with
    | none =>
      obtain ⟨hnull, hcreator⟩ := hfinds.creator hhost
      have htest (m : Miner) (hphase : m.phase = .hostTest) :
          act cfg i .go g m = some (.ok (g, { m with phase := .generating })) := by
        rw [act, Miner.go, hphase]
        dsimp only
        rw [hnull]
        exact if_pos hcreator
      refine ⟨_, _, .step hreset (.step (htest _ rfl) (.step (a := .go) rfl .refl)), rfl, ?_⟩
      refine ⟨h.dag.symm, h.dagSize.symm, fun e he _ => ?_⟩
      rw [hnew e he, hhost]
      exact List.mem_cons_self
    | some e =>
      obtain ⟨block, hblock, hlive⟩ := hfinds.copy e hhost
      have htest (m : Miner) (hphase : m.phase = .hostTest) :
          act cfg i .go g m = some (.ok (g, { m with phase := .hostRead })) := by
        rw [act, Miner.go, hphase]
        dsimp only
        rw [hblock]
      have hread (m : Miner) (hphase : m.phase = .hostRead) :
          act cfg i .go g m = some (.ok (g, { m with phase := .copying block })) := by
        rw [act, Miner.go, hphase]
        dsimp only
        rw [hblock]
      have hcopy (m : Miner) (hphase : m.phase = .copying block) :
          act cfg i .go g m = some (.ok (g, (m.load e).ready)) := by
        rw [act, Miner.go, hphase]
        dsimp only
        rw [hlive]
      refine ⟨_, _, .step hreset (.step (htest _ rfl) (.step (hread _ rfl)
        (.step (hcopy _ rfl) .refl))), rfl, h.dag.symm, h.dagSize.symm, fun e' he' _ => ?_⟩
      rw [hnew e' he', hhost]
      exact List.mem_cons_self
  · refine ⟨g, m.ready, .step (a := .go) ?_ .refl, rfl, h.dag.symm, h.dagSize.symm, fun e he _ => ?_⟩
    · rw [act, Miner.go, hphase]
      dsimp only
      rw [hengine]
      exact if_neg hitems
    · rw [hfits.dagSize] at hitems
      rcases h.held e he with ⟨_, hdag, hheld⟩ | ⟨hne, _⟩
      · exact hfits.loaded e hheld hdag
      · exact absurd hne hitems

/-- Every `cuda_init` that a device goes through is a run of the code that loads the DAG. -/
theorem reaches_cudaInit {config : Cuda.Miner.Config} {outcome : Cuda.Miner.Outcome}
    (hengine : cfg.engine = .cuda) (hphase : m.phase = .init) (hfits : Fits m d)
    (hfinds : Finds cfg i g outcome) :
    Ends (fun _ d' => Reaches cfg i g m .count d')
      (fun call d' => Reaches cfg i g m (if call = .getNumDevices then .mining else .count) d')
      (Cuda.Miner.cudaInit config outcome m.height d) := by
  have hruns := Cuda.Miner.runs_initDevice config outcome m.epoch (dagItems m.height.toNat) d d rfl
  exact hruns.mono (fun _ _ h => reaches_of_initialised hengine hphase hfits hfinds h)
    fun _ _ h => reaches_of_failed hengine hphase hfits h

end

/-! ## OpenCL -/

section
open OpenCL.Miner
variable {config : OpenCL.Miner.Config} {outcome : Outcome} {height : BitVec 32} {d₀ : Device}

/-- The DAG in the memory of the device, if it is complete. -/
def Complete (d : Device) (e : Nat) : Prop := ∃ buffer ∈ d.dag, buffer.holds = some e

theorem runs_clCall {P : Device → Prop} {E : Device → Prop} (call : OpenCL.Miner.Call)
    (hE : ∀ d, P d → E d) : Runs P (outcome.call call) (fun _ => P) (fun _ => E) :=
  runs_throw_or_pure hE

/-- `init` fails with the DAG it found or without one, and ends with a DAG of the epoch. -/
theorem runs_init :
    Runs (· = d₀) (OpenCL.Miner.init config outcome height)
      (fun _ d => ∀ e, Complete d e → e = (height.signExtend 64).toNat / EPOCH_LENGTH)
      (fun _ d => ∀ e, Complete d e → Complete d₀ e) := by
  refine Runs.mono (P := fun d => ∀ e, Complete d e → Complete d₀ e) ?_ fun d h e he => h ▸ he
  -- up to the buffer of the DAG the device keeps what it has
  repeat first
    | refine .bind (runs_clCall _ fun _ h => h) fun _ => ?_
    | refine .bind (runs_modify (Q := fun _ d => ∀ e, Complete d e → Complete d₀ e) fun _ h => h)
        fun _ => ?_
  refine .bind (Q := fun _ d => d.dag = none) (runs_modify fun _ _ => rfl) fun _ => ?_
  refine .bind (runs_clCall _ fun d h e he => ?_) fun _ => ?_
  · obtain ⟨buffer, hbuffer, _⟩ := he
    rw [h] at hbuffer
    cases hbuffer
  refine .bind (Q := fun _ d => ∀ e, ¬ Complete d e) (runs_modify fun d _ e he => ?_) fun _ => ?_
  · obtain ⟨buffer, hbuffer, hholds⟩ := he
    obtain ⟨context, _, rfl⟩ := Option.map_eq_some_iff.mp hbuffer
    cases hholds
  repeat first
    | refine .bind (runs_clCall _ fun _ h e he => absurd he (h e)) fun _ => ?_
    | refine .bind (runs_modify (Q := fun _ d => ∀ e, ¬ Complete d e) fun _ h => h) fun _ => ?_
  refine runs_ite (fun _ => runs_modify fun d _ e he => ?_) fun _ d h e he => absurd he (h e)
  obtain ⟨buffer, hbuffer, hholds⟩ := he
  obtain ⟨before, _, rfl⟩ := Option.map_eq_some_iff.mp hbuffer
  exact (Option.some.inj hholds).symm

/-- Every `init` that a device goes through is a run of the code that loads the DAG. -/
theorem alone_init (hengine : cfg.engine = .openCL) (hphase : m.phase = .init)
    (hheight : m.height.toNat < 2 ^ 31) (hloaded : ∀ e, Complete d₀ e → e ∈ m.loaded) :
    Ends
      (fun _ d => ∃ m', Alone (act cfg) i g m g m' ∧ m'.phase = .mining ∧
        ∀ e, Complete d e → e ∈ m'.loaded)
      (fun _ d => ∃ m', Alone (act cfg) i g m g m' ∧ m'.phase = .mining ∧
        ∀ e, Complete d e → e ∈ m'.loaded)
      (OpenCL.Miner.init config outcome m.height d₀) := by
  refine (runs_init d₀ rfl).mono (fun _ d h => ?_) fun _ d h => ?_
  · refine ⟨(m.load m.epoch).finish, .step (a := .go) ?_ .refl, rfl, fun e he => ?_⟩
    · rw [act, Miner.go, hphase]
      dsimp only
      rw [hengine]
    · rw [h e he, toNat_signExtend hheight]
      exact List.mem_cons_self
  · refine ⟨m.finish, .step (a := .fail) ?_ .refl, rfl, fun e he => hloaded e (h e he)⟩
    rw [act, Miner.fail, hengine, hphase]
    rfl

end

end Energiminer.Engines.DagLoad
