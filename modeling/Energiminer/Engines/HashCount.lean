import Energiminer.Engines.CpuMiner

/-!
# What the CPU miner counts

The calls of `updateHashRate` in `CpuMiner::trun` (`CpuMiner.cpp:47-69`), on top of the model of the
miner. `lastNonce` is the nonce up to which the hashes were counted. The amounts and the hashes are
those of one call of `trun`: they begin anew when `trun` is entered again.
-/

namespace Energiminer.Engines.CpuMiner
open Misc Primitives

/-- The miner, with what `trun` passes to `updateHashRate`. -/
structure Counted where
  miner : State := {}
  lastNonce : BitVec 64 := 0
  /-- how often `GetPOWHash` was evaluated -/
  hashes : Nat := 0
  /-- the arguments of `updateHashRate`, the last one first -/
  amounts : List (BitVec 64) := []
  /-- those of them that were passed for a solution -/
  solved : List (BitVec 64) := []

namespace Counted

def updateHashRate (c : Counted) (n : BitVec 64) : Counted := { c with amounts := n :: c.amounts }

/-- `getWork()`, and the begin of the search for a valid work. -/
def fetch (config : Config) (c : Counted) : Counted :=
  let work := c.miner.assignment.work
  let c := { c with miner := c.miner.fetch config }
  if !work.isValid then c else { c with lastNonce := config.getStartNonce }

/-- An iteration of the inner loop, up to its test; the loop is left where a solution was found. -/
def evaluate (config : Config) (c : Counted) (work : Work) : Counted :=
  let hash := (config.getPOWHash work).1
  let c := { c with miner := c.miner.evaluate config work, hashes := c.hashes + 1 }
  if cpuAccepts hash work.hashTarget then
    let n := work.nNonce + 1 - c.lastNonce
    let c := { c.updateHashRate n with solved := n :: c.solved }
    let nNonce := work.nNonce + 1
    -- behind the loop
    c.updateHashRate (nNonce - c.lastNonce)
  else
    let nNonce := work.nNonce + 1
    if nNonce % 10000 = 0 then
      { c.updateHashRate (nNonce - c.lastNonce) with lastNonce := nNonce }
    else c

/-- The next step of `trun` (`CpuMiner.cpp:47-69`). -/
def trun (config : Config) (c : Counted) : Counted :=
  match c.miner.point with
  | .top => c.fetch config
  | .pausing => { c with miner := c.miner.trun config }
  | .searching work => c.evaluate config work
  | .searched work =>
    let c' := { c with miner := c.miner.trun config }
    if !c.miner.assignment.newWorkAssigned && !c.miner.shouldStop then c'
    else c'.updateHashRate (work.nNonce - c'.lastNonce)

/-- The next state; the counts begin anew when `trun` is entered. -/
def step (config : Config) (c : Counted) (e : Event) : Option Counted :=
  if c.miner.inTrun e then some (c.trun config)
  else (CpuMiner.step config c.miner e).map fun miner =>
    if miner.worker.runs = c.miner.worker.runs then { c with miner } else { miner }

/-- The CPU miner, the plant and the threads that call them. -/
def system (config : Config) : Machine Counted Event Empty where
  init c := c = {}
  step c e := (step config c e).map .ok

/-- The amounts that were passed to `updateHashRate` sum to the number of evaluations. -/
def Accurate (c : Counted) : Prop := c.amounts.sum = BitVec.ofNat 64 c.hashes

instance (c : Counted) : Decidable c.Accurate := inferInstanceAs (Decidable (_ = _))

end Counted

end Energiminer.Engines.CpuMiner
