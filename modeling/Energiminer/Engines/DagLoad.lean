import Energiminer.Engines.Miner
import Energiminer.Misc.Threads

/-!
# Loading the DAG

How the miners of one engine load the DAG of a new epoch: `CUDAMiner::init_dag` with the part of
`cuda_init` that is about the DAG (`libnrghash-cuda/CUDAMiner.cpp:52-85` and `337-445`), and the same
part of `CLMiner::trun` (`libnrghash-cl/CLMiner.cpp:308-335`), where every device generates its DAG in
`init`. The threads share `s_dagLoadIndex` and `s_dagInHostMemory` (`nrgcore/miner.cpp:19-25`), and
each access to one of them is a step of its own.
-/

namespace Energiminer.Engines.DagLoad
open Misc Nrghash

inductive Engine
  | openCL
  | cuda
  deriving DecidableEq

/-- `--dag-load-mode` (`nrgcore/miner.h:28-30`). -/
inductive LoadMode
  | parallel
  | sequential
  | single
  deriving DecidableEq

structure Config where
  engine : Engine
  dagLoadMode : LoadMode
  /-- `s_numInstances` -/
  numInstances : BitVec 32
  /-- `getNumDevices()` -/
  numDevices : BitVec 32
  /-- `s_devices`, of which `-1` leaves the choice to the index of the miner -/
  devices : List Int := []
  /-- `s_dagCreateDevice` -/
  dagCreateDevice : BitVec 32 := 0

/-- `instances()`: the number of miners. -/
def Config.instances (cfg : Config) : Nat :=
  if cfg.numInstances = 0 then 1 else cfg.numInstances.toNat

/-- `m_device_num` of a miner. -/
def Config.deviceNum (cfg : Config) (index : Nat) : BitVec 32 :=
  let chosen := cfg.devices[index]?.getD (-1)
  let device := if -1 < chosen then BitVec.ofInt 32 chosen else BitVec.ofNat 32 index
  if device < cfg.numDevices - 1 then device else cfg.numDevices - 1

/-- A copy of a DAG in host memory. -/
structure Block where
  epoch : Nat
  /-- it was not freed -/
  live : Bool := true
  deriving DecidableEq

/-- `s_dagLoadIndex` and `s_dagInHostMemory` (`miner.cpp:19-25`). -/
structure Shared where
  dagLoadIndex : BitVec 32 := 0
  /-- the block that `s_dagInHostMemory` points to -/
  dagInHostMemory : Option Nat := none
  /-- the blocks that were allocated so far -/
  heap : List Block := []
  deriving DecidableEq

/-- Where the thread of a miner is. -/
inductive Phase
  /-- outside of the code that loads the DAG -/
  | mining
  /-- in the loop that waits for `s_dagLoadIndex` -/
  | turn
  /-- at the beginning of `cuda_init` or `CLMiner::init` -/
  | init
  /-- before `if (!hostDAG)` -/
  | hostTest
  | generating
  /-- in the loop that waits for `hostDAG` -/
  | hostWait
  /-- at the label `cpyDag` -/
  | hostRead
  | copying (block : Nat)
  /-- before `s_dagLoadIndex` is incremented -/
  | count
  /-- before the test whether all miners were counted -/
  | freeTest
  /-- behind it, before the test whether there is a copy in host memory -/
  | hostLeft
  /-- before `delete[] s_dagInHostMemory` -/
  | delete
  /-- before `s_dagInHostMemory = nullptr` -/
  | clear
  deriving DecidableEq

structure Miner where
  phase : Phase := .mining
  dagLoaded : Bool := false
  lastHeight : BitVec 64 := 0
  /-- `m_current.nHeight` -/
  height : BitVec 32 := 0
  /-- `m_dag` is not null -/
  dag : Bool := false
  /-- `m_dag_size` -/
  dagSize : BitVec 32 := 0
  /-- the epochs of the DAGs that were put into the memory of the device, the last one first -/
  loaded : List Nat := []

inductive Fault
  | useAfterFree
  | doubleFree

inductive Action
  /-- the miner takes a valid work of the height -/
  | work (height : BitVec 32)
  /-- the next statement of the code that loads the DAG -/
  | go
  /-- an error ends the initialisation of the device -/
  | fail
  /-- `getNumDevices()` throws, and with it `init_dag` -/
  | throw
  deriving DecidableEq

/-- The initialisation fails. -/
def Action.fails : Action → Bool
  | .fail | .throw => true
  | .work _ | .go => false

/-- The epoch of the current work. -/
def Miner.epoch (m : Miner) : Nat := m.height.toNat / EPOCH_LENGTH

/-- The DAG has to be loaded: there is none, or the epoch has changed. -/
def Miner.needsDag (m : Miner) (height : BitVec 32) : Bool :=
  !m.dagLoaded || height.toNat / EPOCH_LENGTH ≠ m.lastHeight.toNat / EPOCH_LENGTH

/-- The end of the code that loads the DAG. -/
def Miner.finish (m : Miner) : Miner :=
  { m with phase := .mining, dagLoaded := true, lastHeight := m.height.setWidth 64 }

/-- The end of `cuda_init`. -/
def Miner.ready (m : Miner) : Miner :=
  { m with phase := .count, dag := true, dagSize := dagItems m.height.toNat }

def Miner.load (m : Miner) (epoch : Nat) : Miner := { m with loaded := epoch :: m.loaded }

/-- The condition of the loop that waits for the turn of a miner. -/
def Shared.waits (g : Shared) (index : Nat) : Prop := g.dagLoadIndex.toNat < index

instance (g : Shared) (index : Nat) : Decidable (g.waits index) := Nat.decLt ..

def Shared.count (g : Shared) : Shared := { g with dagLoadIndex := g.dagLoadIndex + 1 }

/-- A new block in host memory, to which `s_dagInHostMemory` points. -/
def Shared.publish (g : Shared) (epoch : Nat) : Shared :=
  { g with heap := g.heap ++ [{ epoch }], dagInHostMemory := some g.heap.length }

/-- `delete[]` of a block. -/
def Shared.free (g : Shared) (block : Nat) : Option Shared :=
  match g.heap[block]? with
  | some ⟨epoch, true⟩ => some { g with heap := g.heap.set block ⟨epoch, false⟩ }
  | _ => none

/-- The miner has a new work, of the height. -/
def Miner.takeWork (cfg : Config) (g : Shared) (m : Miner) (height : BitVec 32) :
    Option (Except Fault (Shared × Miner)) :=
  if m.phase = .mining ∧ 0 < height then
    if m.needsDag height then
      if cfg.dagLoadMode = .sequential then some (.ok (g, { m with phase := .turn, height }))
      else some (.ok (g, { m with phase := .init, height }))
    else some (.ok (g, { m with height, lastHeight := height.setWidth 64 }))
  else none

/-- The next statement. A loop that waits has none until it ends. -/
def Miner.go (cfg : Config) (index : Nat) (g : Shared) (m : Miner) :
    Option (Except Fault (Shared × Miner)) :=
  match m.phase with
  | .mining => none
  | .turn =>
    if g.waits index then none
    else
      match cfg.engine with
      | .openCL => some (.ok (g, { m with phase := .count }))
      | .cuda => some (.ok (g, { m with phase := .init }))
  | .init =>
    match cfg.engine with
    | .openCL => some (.ok (g, (m.load m.epoch).finish))
    | .cuda =>
      -- the test `|| !dag` after the allocations is never true
      if dagItems m.height.toNat ≠ m.dagSize then
        some (.ok (g, { m with phase := .hostTest, dag := false }))
      else some (.ok (g, m.ready))
  | .hostTest =>
    match g.dagInHostMemory with
    | some _ => some (.ok (g, { m with phase := .hostRead }))
    | none =>
      if cfg.deviceNum index = cfg.dagCreateDevice ∨ cfg.dagLoadMode ≠ .single then
        some (.ok (g, { m with phase := .generating }))
      else some (.ok (g, { m with phase := .hostWait }))
  | .generating =>
    some (.ok (if cfg.dagLoadMode = .single then g.publish m.epoch else g, (m.load m.epoch).ready))
  | .hostWait =>
    match g.dagInHostMemory with
    | some _ => some (.ok (g, { m with phase := .hostRead }))
    | none => none
  | .hostRead =>
    match g.dagInHostMemory with
    | some block => some (.ok (g, { m with phase := .copying block }))
    -- `cudaMemcpy` from a null pointer is an error
    | none => some (.ok (g, { m with phase := .count }))
  | .copying block =>
    match g.heap[block]? with
    | some ⟨epoch, true⟩ => some (.ok (g, (m.load epoch).ready))
    | _ => some (.error .useAfterFree)
  | .count =>
    match cfg.engine with
    | .openCL => some (.ok (g.count, { m with phase := .init }))
    | .cuda =>
      if cfg.dagLoadMode = .single then some (.ok (g.count, { m with phase := .freeTest }))
      else some (.ok (g.count, m.finish))
  | .freeTest =>
    if cfg.numInstances ≤ g.dagLoadIndex then some (.ok (g, { m with phase := .hostLeft }))
    else some (.ok (g, m.finish))
  | .hostLeft =>
    if g.dagInHostMemory.isSome then some (.ok (g, { m with phase := .delete }))
    else some (.ok (g, m.finish))
  | .delete =>
    match g.dagInHostMemory with
    | none => some (.ok (g, { m with phase := .clear }))
    | some block =>
      match g.free block with
      | some g => some (.ok (g, { m with phase := .clear }))
      | none => some (.error .doubleFree)
  | .clear => some (.ok ({ g with dagInHostMemory := none }, m.finish))

/-- The error is caught in `init` or `cuda_init`, and the miner goes on as if the DAG was loaded. -/
def Miner.fail (cfg : Config) (m : Miner) : Option Miner :=
  match cfg.engine, m.phase with
  | .openCL, .init => some m.finish
  | .cuda, .init | .cuda, .hostTest | .cuda, .generating | .cuda, .copying _ =>
    some { m with phase := .count }
  | _, _ => none

/-- The exception of `getNumDevices()` is caught in `init_dag`, before the miner is counted. -/
def Miner.throw (cfg : Config) (m : Miner) : Option Miner :=
  match cfg.engine, m.phase with
  | .cuda, .init => some m.finish
  | _, _ => none

def act (cfg : Config) (index : Nat) (a : Action) (g : Shared) (m : Miner) :
    Option (Except Fault (Shared × Miner)) :=
  match a with
  | .work height => m.takeWork cfg g height
  | .go => m.go cfg index g
  | .fail => (m.fail cfg).map fun m => .ok (g, m)
  | .throw => (m.throw cfg).map fun m => .ok (g, m)

abbrev State := Threads Shared Miner

/-- The miners of the engine. -/
def system (cfg : Config) : Machine State (Nat × Action) Fault :=
  Threads.system cfg.instances {} {} (act cfg)

/-! ## What the modes are for -/

/-- The miner is in `CLMiner::init` or `cuda_init`. -/
def Miner.inside (m : Miner) : Bool :=
  match m.phase with
  | .init | .hostTest | .generating | .hostWait | .hostRead | .copying _ => true
  | _ => false

/-- The miner has finished loading the DAG of the epoch. -/
def Miner.finished (m : Miner) (epoch : Nat) : Prop :=
  m.phase = .mining ∧ m.dagLoaded ∧ m.lastHeight.toNat / EPOCH_LENGTH = epoch

/-- The DAG is loaded by one miner at a time, and the next one does not wait for nothing. -/
structure Sequential (s : State) : Prop where
  alone : ∀ (i j : Nat) (m m' : Miner), s.locals[i]? = some m → s.locals[j]? = some m' →
    m.inside = true → m'.inside = true → i = j
  released : ∀ (i : Nat) (m : Miner), s.locals[i]? = some m → m.phase = .turn →
    (∀ (j : Nat) (m' : Miner), j < i → s.locals[j]? = some m' → m'.finished m.epoch) → ¬ s.shared.waits i

/-- The miner can still put the DAG of the epoch into host memory: it has not loaded it yet, or it is
about to generate it. -/
def Miner.producing (m : Miner) (epoch : Nat) : Bool :=
  match m.phase with
  | .mining => !(m.dagLoaded && m.lastHeight.toNat / EPOCH_LENGTH == epoch)
  | .turn | .init | .hostTest | .generating => m.epoch == epoch
  | _ => false

/-- The devices share the DAG that one of them generates. -/
structure Shares (cfg : Config) (s : State) : Prop where
  /-- the copy is freed after all devices have loaded it -/
  freed : ∀ (i : Nat) (m : Miner) (block : Nat) (b : Block), s.locals[i]? = some m → m.phase = .delete →
    s.shared.dagInHostMemory = some block → s.shared.heap[block]? = some b →
    ∀ (j : Nat) (m' : Miner), s.locals[j]? = some m' → b.epoch ∈ m'.loaded
  /-- a device copies the DAG of the epoch it needs -/
  own : ∀ (i : Nat) (m : Miner) (block : Nat), s.locals[i]? = some m → m.phase = .copying block →
    s.shared.heap[block]? = some ⟨m.epoch, true⟩
  /-- a device that waits for the copy waits for a device that can still make it -/
  produced : ∀ (i : Nat) (m : Miner), s.locals[i]? = some m → m.phase = .hostWait →
    s.shared.dagInHostMemory = none →
    ∃ (j : Nat) (m' : Miner), s.locals[j]? = some m' ∧ cfg.deviceNum j = cfg.dagCreateDevice ∧
      m'.producing m.epoch = true

end Energiminer.Engines.DagLoad
