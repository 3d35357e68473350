import Energiminer.Engines.Miner
import Energiminer.Misc.Runs

/-!
# The plant and the works of its miners

`MinePlant::start`, `stop`, `setWork` and `resetWork` (`nrgcore/mineplant.cpp:99-184`) and the calls of
`Miner` they make (`nrgcore/miner.cpp:212-240`). The threads of the miners do not change the works that
are assigned to them, and the hash rates have no part in this, so both are left out.
-/

namespace Energiminer.Core
open Misc Primitives Engines

/-- `updateExtraNonce` was called on a work whose coinbase, or the first input of it, is missing. -/
structure MissingCoinbase where
  work : Work
  deriving DecidableEq

/-- `Miner::setWork` (`miner.cpp:212-230`), with the number that the generator of extra nonces
gives. -/
def assign (a : Assignment) (work : Work) (extraNonce : BitVec 32) :
    Except MissingCoinbase Assignment :=
  if work.eqv a.work then .ok a
  else
    match work.updateExtraNonce extraNonce with
    | some updated => .ok { a with work := updated, newWorkAssigned := true }
    | none => .error ⟨work⟩

/-- `EnumMinerEngine` (`common.h:38-44`). -/
inductive EnumMinerEngine
  | kCPU
  | kCL
  | kCUDA
  | kTest
  deriving DecidableEq

/-- What a plant asks about the machine. In a build without an engine there are no instances of it. -/
structure Hardware where
  /-- `CLMiner::instances()` -/
  clInstances : BitVec 32
  /-- `CUDAMiner::instances()` -/
  cudaInstances : BitVec 32
  /-- `std::thread::hardware_concurrency()` -/
  hardwareConcurrency : BitVec 32

/-- The number of miners of an engine. -/
def Hardware.count (hw : Hardware) : EnumMinerEngine → Nat
  | .kCL => hw.clInstances.toNat
  | .kCUDA => hw.cudaInstances.toNat
  | .kTest => 2
  | .kCPU => (hw.hardwareConcurrency - 1).toNat

/-- The number of miners of all engines. -/
def Hardware.total (hw : Hardware) (engines : List EnumMinerEngine) : Nat :=
  (engines.map hw.count).sum

structure MinePlant where
  /-- `m_work` -/
  work : Work := .blank
  /-- `m_miners` -/
  miners : List Assignment := []
  isMining : Bool := false

namespace MinePlant

/-- `MinePlant::start` (`mineplant.cpp:99-140`). The miners are created and given the work one after
the other. -/
def start (p : MinePlant) (engines : List EnumMinerEngine) (hw : Hardware)
    (extraNonces : Nat → BitVec 32) : Except MissingCoinbase MinePlant :=
  if p.isMining then .ok p
  else do
    let created ← (List.range (hw.total engines)).mapM fun i => assign {} p.work (extraNonces i)
    pure { p with miners := p.miners ++ created, isMining := true }

/-- `MinePlant::stop` (`mineplant.cpp:142-151`). -/
def stop (p : MinePlant) : MinePlant :=
  if p.isMining then { p with miners := [], isMining := false } else p

/-- `MinePlant::setWork` (`mineplant.cpp:153-176`). For a work that has not changed, the miners are
only started again. -/
def setWork (p : MinePlant) (work : Work) (extraNonces : Nat → BitVec 32) :
    Except MissingCoinbase MinePlant := do
  let miners ← p.miners.zipIdx.mapM fun (miner, i) => assign miner work (extraNonces i)
  pure { p with work, miners }

/-- `MinePlant::resetWork` (`mineplant.cpp:178-184`). -/
def resetWork (p : MinePlant) : MinePlant :=
  { p with work := p.work.reset, miners := p.miners.map (·.obey .resetWork) }

/-- The calls of a plant. -/
inductive Call
  | start (engines : List EnumMinerEngine) (hw : Hardware) (extraNonces : Nat → BitVec 32)
  | stop
  | setWork (work : Work) (extraNonces : Nat → BitVec 32)
  | resetWork

def call (p : MinePlant) : Call → Except MissingCoinbase MinePlant
  | .start engines hw extraNonces => p.start engines hw extraNonces
  | .stop => .ok p.stop
  | .setWork work extraNonces => p.setWork work extraNonces
  | .resetWork => .ok p.resetWork

/-- A plant that is called any number of times. -/
def system : Machine MinePlant Call MissingCoinbase where
  init p := p = {}
  step p c := some (p.call c)

end MinePlant

end Energiminer.Core
