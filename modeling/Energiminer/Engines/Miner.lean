import Energiminer.Nrghash.Dataset
import Energiminer.Primitives.Work

/-!
# What the GPU miners share

The work the plant assigns to a miner (`miner.cpp:212-240`, `miner.h:111-128`), and what a device has
to be set up for. Calls of the plant and `getWork` hold the lock of the miner, so each is atomic.
-/

namespace Energiminer.Engines
open Misc Nrghash Primitives

/-- The work of a `Miner` and whether it mines. -/
structure Assignment where
  /-- `m_work` -/
  work : Work := .blank
  /-- `m_newWorkAssigned` -/
  newWorkAssigned : Bool := false
  /-- `is_mining_paused()` -/
  miningPaused : Bool := false

/-- What other threads ask of a miner. -/
inductive Order
  /-- `setWork(work)`, with the work as `updateExtraNonce` leaves it -/
  | setWork (work updated : Work)
  | resetWork
  /-- `updateWorkTimestamp`, which does not report new work -/
  | updateWorkTimestamp (nTime : BitVec 32)
  | setMiningPaused (paused : Bool)

def Assignment.obey (a : Assignment) : Order → Assignment
  | .setWork work updated =>
    if work.eqv a.work then a else { a with work := updated, newWorkAssigned := true }
  | .resetWork => { a with work := a.work.reset, newWorkAssigned := true }
  | .updateWorkTimestamp nTime => { a with work := { a.work with nTime := nTime } }
  | .setMiningPaused paused => { a with miningPaused := paused }

/-- The number of pages of the DAG for a block, `(unsigned)(get_full_size(…) / MIX_BYTES)`. -/
def dagItems (blockNumber : Nat) : BitVec 32 := BitVec.ofNat 32 (getFullSize blockNumber / MIX_BYTES)

/-- The device objects a search runs on, by the epochs they were made for. -/
structure Setup where
  /-- the epoch whose complete DAG the buffer holds, if it holds one -/
  dag : Option Nat
  /-- the page count the kernel gets -/
  items : BitVec 32
  /-- the search kernel, or its constants -/
  kernel : Option Nat
  results : List Nat
  deriving DecidableEq

/-- Everything was completely set up for the epoch of the height. -/
structure Setup.For (setup : Setup) (height : BitVec 32) : Prop where
  dag : setup.dag = some (height.toNat / EPOCH_LENGTH)
  items : setup.items = dagItems height.toNat
  kernel : setup.kernel = some (height.toNat / EPOCH_LENGTH)
  results : ∀ epoch ∈ setup.results, epoch = height.toNat / EPOCH_LENGTH

/-- A work of a height, with the easiest target. -/
def workAt (height : BitVec 32) : Work :=
  { Work.blank with nHeight := height, hashTarget := ⟨.replicate WIDTH 0xffffffff⟩ }

end Energiminer.Engines
