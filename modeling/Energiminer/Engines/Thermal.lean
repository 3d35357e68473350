import Energiminer.Cuda.Miner
import Energiminer.OpenCL.Miner

/-!
# Thermal protection

The way of a temperature limit from the command line to the mining loops: `ParseCommandLine` and
`doMiner` (`energiminer/MinerAux.cpp:78-83`, `221-229`, `292-296`, `369-377` and `482-543`), the
thresholds of the plant and `collectData` (`nrgcore/mineplant.cpp:192-306`), the flags of a miner
(`common/common.h:225-257`) and `update_temperature` (`nrgcore/miner.cpp:174-210`). The mining loops are
those of `OpenCL.Miner` and `Cuda.Miner`.
-/

namespace Energiminer.Engines.Thermal
open Misc Nrghash Primitives

/-! ## From the command line to the plant -/

/-- The options about temperatures that were given. -/
structure CommandLine where
  tstop : Option Nat := none
  tstart : Option Nat := none
  /-- `--HWMON` -/
  hwmon : Option Nat := none

/-- The fields of `MinerCLI` that they set. -/
structure Options where
  tstop : Nat := 0
  tstart : Nat := 40
  showHwmonitors : Bool := false
  deriving DecidableEq

/-- `CLI::Range`, which looks at an option only if it was given. -/
def inRange (low high : Nat) : Option Nat → Bool
  | none => true
  | some value => low ≤ value && value ≤ high

/-- `ParseCommandLine` (`MinerAux.cpp:22-378`); there are no options if it ends the program. -/
def parseCommandLine (c : CommandLine) : Option Options :=
  if inRange 30 100 c.tstop && inRange 30 100 c.tstart && inRange 0 1 c.hwmon then
    let tstop := c.tstop.getD 0
    let tstart := c.tstart.getD 40
    if tstop ≠ 0 ∧ tstop ≤ tstart then none
    else some { tstop, tstart, showHwmonitors := c.hwmon.isSome || tstop ≠ 0 }
  else none

/-- What a plant knows about temperatures. -/
structure Plant where
  hwmon : Bool
  tstart : BitVec 32 := 0
  tstop : BitVec 32 := 0

/-- `MinePlant::setTStartTStop` (`mineplant.cpp:302-306`). -/
def Plant.setTStartTStop (p : Plant) (tstart tstop : BitVec 32) : Plant :=
  { p with tstart, tstop }

/-- The plant that `doMiner` makes (`MinerAux.cpp:482-543`). It does not call `setTStartTStop`. -/
def doMiner (options : Options) : Plant := { hwmon := options.showHwmonitors }

/-! ## The flags of a miner -/

/-- `MinigPauseReason` (`common.h:225-232`). -/
inductive MinigPauseReason
  | waitForTStart
  | api

/-- The values of `MinigPauseReason` (`common.h:227-229`). -/
def MinigPauseReason.mask : MinigPauseReason → BitVec 64
  | .waitForTStart => 0x00000001
  | .api => 0x00000002

/-- `Miner::set_mining_paused` (`miner.cpp:202-205`). -/
def setMiningPaused (flags : BitVec 64) (reason : MinigPauseReason) : BitVec 64 :=
  flags ||| reason.mask

/-- `Miner::clear_mining_paused` (`miner.cpp:207-210`). -/
def clearMiningPaused (flags : BitVec 64) (reason : MinigPauseReason) : BitVec 64 :=
  flags &&& ~~~reason.mask

/-- `Miner::update_temperature` (`miner.cpp:174-195`). -/
def updateTemperature (plant : Plant) (flags : BitVec 64) (temperature : BitVec 32) : BitVec 64 :=
  if flags &&& MinigPauseReason.waitForTStart.mask ≠ MinigPauseReason.waitForTStart.mask then
    if plant.tstop ≠ 0 ∧ plant.tstop ≤ temperature then setMiningPaused flags .waitForTStart
    else flags
  else if plant.tstart ≠ 0 ∧ temperature ≤ plant.tstart then clearMiningPaused flags .waitForTStart
  else flags

/-! ## The mining loops -/

/-- The thread of a GPU miner. -/
structure MiningLoop (S E F : Type) where
  machine : Machine S E F
  assignment : S → Assignment
  setAssignment : S → Assignment → S
  /-- the order that an event gives -/
  order : E → Option Order
  /-- the number of searches that are launched from one state to the next -/
  launches : S → S → Nat
  /-- the thread tests for a pause before it launches a search -/
  testsFirst : S → Bool

/-- A new work begins with a search of its own (`CLMiner.cpp:366-377`). -/
def openCL (K : KeccakFns) (config : OpenCL.Miner.Config) :
    MiningLoop OpenCL.Miner.State OpenCL.Miner.Event OpenCL.Miner.Fault where
  machine := OpenCL.Miner.system K config
  assignment s := s.assignment
  setAssignment s a := { s with assignment := a }
  order
    | .order order => some order
    | _ => none
  launches s t :=
    if t.blocks = s.blocks then t.launched.length - s.launched.length else t.launched.length
  testsFirst s := decide (s.point ≠ .block)

def cuda (config : Cuda.Miner.Config) :
    MiningLoop Cuda.Miner.State Cuda.Miner.Event Cuda.Miner.Fault where
  machine := Cuda.Miner.system config
  assignment s := s.assignment
  setAssignment s a := { s with assignment := a }
  order
    | .order order => some order
    | _ => none
  launches s t := t.launched.length - s.launched.length
  testsFirst s := decide (s.point = .top)

/-! ## The system -/

structure State (S : Type) where
  /-- `m_mining_paused_flag` -/
  flags : BitVec 64 := 0
  miner : S

inductive Event (E : Type)
  /-- `collectData`, with the temperature it reads for the miner -/
  | collectData (temperature : BitVec 32)
  /-- `set_mining_paused(MINING_PAUSED_API)` -/
  | setPausedApi
  /-- `clear_mining_paused(MINING_PAUSED_API)` -/
  | clearPausedApi
  /-- an event of the mining loop, which is not about a pause -/
  | miner (event : E)

variable {S E F : Type}

/-- The flags change, and the thread sees it when it tests for a pause. -/
def State.pause (loop : MiningLoop S E F) (s : State S) (flags : BitVec 64) : State S where
  flags
  miner := loop.setAssignment s.miner
    ((loop.assignment s.miner).obey (.setMiningPaused (decide (flags ≠ 0))))

/-- The event is an order to pause or to go on. -/
def MiningLoop.isPause (loop : MiningLoop S E F) (e : E) : Bool :=
  match loop.order e with
  | some (.setMiningPaused _) => true
  | _ => false

def step (plant : Plant) (loop : MiningLoop S E F) (s : State S) :
    Event E → Option (Except F (State S))
  | .collectData temperature =>
    if plant.hwmon then some (.ok (s.pause loop (updateTemperature plant s.flags temperature)))
    else some (.ok s)
  | .setPausedApi => some (.ok (s.pause loop (setMiningPaused s.flags .api)))
  | .clearPausedApi => some (.ok (s.pause loop (clearMiningPaused s.flags .api)))
  | .miner e =>
    if loop.isPause e then none
    else
      match loop.machine.step s.miner e with
      | none => none
      | some (.error f) => some (.error f)
      | some (.ok miner) => some (.ok { s with miner })

/-- A GPU miner of a plant. -/
def system (plant : Plant) (loop : MiningLoop S E F) : Machine (State S) (Event E) F where
  init s := s.flags = 0 ∧ loop.machine.init s.miner
  step := step plant loop

/-! ## What protection is -/

/-- What should have happened in a run so far, and the searches that should not. -/
structure Watch where
  /-- a reading has reached the limit, and none since then has come down to the restart temperature -/
  hot : Bool := false
  /-- `MINING_PAUSED_API` was set, and not cleared since then -/
  api : Bool := false
  /-- the number of searches that were launched while a flag was set -/
  launched : Nat := 0

def Watch.note (options : Options) (loop : MiningLoop S E F) (w : Watch) (s : State S) (e : Event E)
    (t : State S) : Watch :=
  match e with
  | .collectData temperature =>
    if options.tstop ≤ temperature.toNat then { w with hot := true }
    else if temperature.toNat ≤ options.tstart then { w with hot := false }
    else w
  | .setPausedApi => { w with api := true }
  | .clearPausedApi => { w with api := false }
  | .miner _ =>
    if s.flags = 0 then w else { w with launched := w.launched + loop.launches s.miner t.miner }

/-- The flags of a miner that is too hot or was paused by the API. -/
def flagsOf (hot api : Bool) : BitVec 64 :=
  (if hot then MinigPauseReason.waitForTStart.mask else 0) |||
    (if api then MinigPauseReason.api.mask else 0)

/-- The flags that should be set. -/
def Watch.flags (w : Watch) : BitVec 64 := flagsOf w.hot w.api

/-- A miner of a plant, watched. -/
def watched (options : Options) (plant : Plant) (loop : MiningLoop S E F) :
    Machine (State S × Watch) (Event E) F :=
  (system plant loop).recorded {} (Watch.note options loop)

/-- The miner is protected: the flags are those that should be set, and no search was launched while one
of them was set. -/
structure Effective (s : State S) (w : Watch) : Prop where
  flags : s.flags = w.flags
  launched : w.launched = 0

end Energiminer.Engines.Thermal
