import Mathlib.Data.BitVec
import Energiminer.Misc.Runs

/-!
# The hash rate of a miner

`Miner::updateHashRate` (`nrgcore/miner.cpp:29-33`) and `Miner::RetrieveHashRateDiff`
(`nrgcore/miner.h:85-97`). Only the thread of the miner stores to `m_hashRateCount`. It loads the
counter and stores it in two accesses, and the counter may be read between the two. The calls of
`RetrieveHashRateDiff`, by `MinePlant::start`, `setWork` and `collectData`, come one after the other
and read the counter once.
-/

namespace Energiminer.Core.HashRate
open Misc

/-- A call of `RetrieveHashRateDiff`: the difference of the counter, and what was returned. -/
structure Sample where
  diff : BitVec 64
  returned : BitVec 64
  deriving DecidableEq

structure State where
  /-- `m_hashRateCount` -/
  count : BitVec 64 := 0
  /-- `m_hashRateLast` -/
  last : BitVec 64 := 0
  /-- the counter that a call of `updateHashRate` has loaded, and its argument -/
  loaded : Option (BitVec 64 × BitVec 64) := none
  /-- the arguments of the calls of `updateHashRate` that have returned -/
  amounts : List (BitVec 64) := []
  samples : List Sample := []
  deriving DecidableEq

/-- `std::numeric_limits<uint32_t>::max()` -/
def UINT32_MAX : BitVec 64 := 0xffffffff

/-- `std::numeric_limits<uint64_t>::max()` -/
def UINT64_MAX : BitVec 64 := 0xffffffffffffffff

/-- What `RetrieveHashRateDiff` returns for a difference. -/
def correct (diff : BitVec 64) : BitVec 64 := if diff > UINT32_MAX then diff - UINT64_MAX else diff

/-- `Miner::RetrieveHashRateDiff` (`miner.h:85-97`). -/
def State.retrieveHashRateDiff (s : State) : State :=
  let newRate := s.count
  let diff := newRate - s.last
  { s with last := newRate, samples := ⟨diff, correct diff⟩ :: s.samples }

inductive Event
  /-- `updateHashRate(n)` loads the counter -/
  | load (n : BitVec 64)
  /-- `updateHashRate` stores the counter -/
  | store
  | retrieveHashRateDiff
  deriving DecidableEq

def step (s : State) : Event → Option State
  | .load n =>
    match s.loaded with
    | none => some { s with loaded := some (s.count, n) }
    | some _ => none
  | .store =>
    match s.loaded with
    | none => none
    | some (prev, n) => some { s with count := prev + n, loaded := none, amounts := n :: s.amounts }
  | .retrieveHashRateDiff => some s.retrieveHashRateDiff

/-- The thread of a miner and those that ask for its hash rate. -/
def system : Machine State Event Empty where
  init s := s = {}
  step s e := (step s e).map .ok

/-- The differences that were returned and the one that is left sum to all that was counted. -/
def State.Conserves (s : State) : Prop :=
  (s.samples.map Sample.returned).sum + (s.count - s.last) = s.amounts.sum

instance (s : State) : Decidable s.Conserves := inferInstanceAs (Decidable (_ = _))

/-- How many samples saw more hashes than 32 bits can hold. -/
def State.large (s : State) : Nat := s.samples.countP fun sample => sample.diff > UINT32_MAX

end Energiminer.Core.HashRate
