import Energiminer.Cuda.Proofs.Dag
import Energiminer.OpenCL.Proofs.Dag

/-!
# GPU miners and their DAG

Neither engine looks at the result of an initialisation before it searches, so a search runs on the
right DAG if every initialisation completes.
-/

namespace Energiminer.Engines
open Misc Nrghash Primitives

/-- In runs of either engine whose initialisations complete, every search runs on a DAG, a page count, a
kernel and result buffers that were set up for the epoch of its work. -/
theorem searches_on_loaded_dag (K : KeccakFns) (config : OpenCL.Miner.Config)
    (cudaConfig : Cuda.Miner.Config) (s : OpenCL.Miner.State) (t : Cuda.Miner.State) :
    ((OpenCL.Miner.system K config).Reachable OpenCL.Miner.Completes s →
      ∀ l ∈ s.launched, l.setup.For l.height) ∧
    ((Cuda.Miner.system cudaConfig).Reachable Cuda.Miner.Completes t →
      ∀ l ∈ t.launched, l.setup.For l.height) :=
  ⟨OpenCL.Miner.setup_of_completes, Cuda.Miner.setup_of_completes⟩

/-- Both engines load the DAG for a work and search. -/
theorem searches_on_loaded_dag_first :
    ∃ (s : OpenCL.Miner.State) (t : Cuda.Miner.State), s.launched.length = 1 ∧
      t.launched.length = 1 ∧ (∀ l ∈ s.launched, l.setup.For l.height) ∧
        ∀ l ∈ t.launched, l.setup.For l.height := by
  have hmeets : (OpenCL.Miner.system keccakTiny OpenCL.Miner.smallConfig).Meets
      OpenCL.Miner.Completes (.initial .blank .blank)
      [.order (.setWork (workAt 1) (workAt 1)), .thread (OpenCL.Miner.choose [])] := by
    decide +kernel
  obtain ⟨s, hsteps, hs⟩ := Machine.steps_of_endsIn
    (p := fun s : OpenCL.Miner.State => decide (s.launched.length = 1)) hmeets (by decide +kernel)
  have hprimed := Cuda.Miner.steps_primed (C := Cuda.Miner.Completes) trivial
    fun _ _ => Cuda.Miner.completes_choose
  obtain ⟨t, hstep, ht⟩ := Machine.step_of_endsIn (M := Cuda.Miner.system Cuda.Miner.smallConfig)
    (p := fun t : Cuda.Miner.State => decide (t.launched.length = 1)) (s := Cuda.Miner.primed)
    (e := .thread Cuda.Miner.choose) (by decide +kernel)
  have hcompletes : Cuda.Miner.Completes Cuda.Miner.primed (.thread Cuda.Miner.choose) :=
    fun hnew => absurd hnew Bool.false_ne_true
  have hloaded := searches_on_loaded_dag keccakTiny OpenCL.Miner.smallConfig Cuda.Miner.smallConfig s t
  exact ⟨s, t, of_decide_eq_true hs, of_decide_eq_true ht, hloaded.1 ⟨_, ⟨_, _, rfl⟩, hsteps⟩,
    hloaded.2 ⟨_, ⟨_, rfl⟩, hprimed.step hcompletes hstep⟩⟩

/-- The DAG of the first epoch is loaded. When a work of the next epoch arrives, the information about
the device cannot be read, `init` returns false, and the search for the work runs on the DAG of the
first epoch. -/
theorem searches_on_former_dag :
    (OpenCL.Miner.system keccakTiny OpenCL.Miner.smallConfig).endsIn
      (fun s => s.launched.any fun l => decide (l.height = 7200) && decide (l.setup.dag = some 0))
      (.initial .blank .blank)
      [.order (.setWork (workAt 1) (workAt 1)), .thread (OpenCL.Miner.choose []),
        .thread (OpenCL.Miner.choose []), .order (.setWork (workAt 7200) (workAt 7200)),
        .thread (OpenCL.Miner.choose []),
        .thread { OpenCL.Miner.choose [] with outcome := ⟨some .deviceInfo, false, .blank⟩ }] =
      true := by
  decide +kernel

end Energiminer.Engines
