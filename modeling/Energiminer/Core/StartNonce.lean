import Energiminer.Core.MinePlant

/-!
# The ranges the miners search

`MinePlant::getStartNonce` (`nrgcore/mineplant.cpp:320-324`) is called by the threads of the miners
(`CUDAMiner.cpp:128`, `CLMiner.cpp:356`, `CpuMiner.cpp:45`) while `MinePlant::start` creates and starts
one miner after the other (`nrgcore/mineplant.cpp:99-140`). Its range is a static variable of the
function: the first call sets it, for all plants and for good. A work enters with its `startNonce` only.
-/

namespace Energiminer.Core
open Misc

/-- The miners that `start` creates, in their order: the engine and the index among its miners. -/
def Hardware.farm (hw : Hardware) (engines : List EnumMinerEngine) : List (EnumMinerEngine × Nat) :=
  engines.flatMap fun engine => (List.range (hw.count engine)).map fun i => (engine, i)

namespace StartNonce

/-- `UINT64_MAX / n`. -/
def rangeOf (n : Nat) : BitVec 64 := BitVec.ofNat 64 ((2 ^ 64 - 1) / n)

/-- A call of `getStartNonce`. -/
structure Use where
  /-- the position of the miner in `m_miners` -/
  miner : Nat
  /-- `work.startNonce` -/
  startNonce : BitVec 64
  /-- what was returned -/
  first : BitVec 64
  deriving DecidableEq

structure State where
  /-- the static variable, once it was set -/
  range : Option (BitVec 64) := none
  /-- `m_miners` -/
  miners : List (EnumMinerEngine × Nat) := []
  /-- the miners that a `start` in progress has still to create -/
  pending : List (EnumMinerEngine × Nat) := []
  /-- `start` holds the lock -/
  starting : Bool := false
  isMining : Bool := false
  /-- the calls of the miners in `m_miners` so far -/
  uses : List Use := []

inductive Event
  | start (engines : List EnumMinerEngine) (hw : Hardware)
  /-- `start` creates the next miner and starts it -/
  | create
  /-- `start` returns -/
  | started
  | stop
  /-- a miner calls `getStartNonce` for a work with the start nonce -/
  | call (miner : Nat) (startNonce : BitVec 64)

/-- The static variable in a call, which sets it if it is the first one. -/
def State.staticRange (s : State) : BitVec 64 := s.range.getD (rangeOf s.miners.length)

/-- `MinePlant::getStartNonce` (`mineplant.cpp:320-324`). -/
def State.getStartNonce (s : State) (startNonce : BitVec 64) (index : Nat) : BitVec 64 :=
  startNonce + s.staticRange * BitVec.ofNat 64 index

def step (s : State) : Event → Option (Except Empty State)
  | .start engines hw =>
    if s.starting then none
    else if s.isMining then some (.ok s)
    else some (.ok { s with pending := hw.farm engines, starting := true })
  | .create =>
    match s.starting, s.pending with
    | true, miner :: rest => some (.ok { s with miners := s.miners ++ [miner], pending := rest })
    | _, _ => none
  | .started =>
    match s.starting, s.pending with
    | true, [] => some (.ok { s with starting := false, isMining := true })
    | _, _ => none
  | .stop =>
    if s.isMining then some (.ok { s with miners := [], isMining := false, uses := [] })
    else some (.ok s)
  | .call miner startNonce =>
    match s.miners[miner]? with
    | none => none
    | some (_, index) =>
      some (.ok { s with
        range := some s.staticRange
        uses := ⟨miner, startNonce, s.getStartNonce startNonce index⟩ :: s.uses })

/-- A plant and the threads of its miners. -/
def system : Machine State Event Empty where
  init s := s = {}
  step := step

/-- The miners of the plant, with those that are still to be created. -/
def State.all (s : State) : List (EnumMinerEngine × Nat) := s.miners ++ s.pending

/-- The intervals of nonces of the length do not meet. -/
def Apart (length : Nat) (a b : BitVec 64) : Prop :=
  ∀ x y : Nat, x < length → y < length → a + BitVec.ofNat 64 x ≠ b + BitVec.ofNat 64 y

/-- Different miners search different nonces for the same work. -/
def State.DisjointRanges (s : State) : Prop :=
  ∀ u ∈ s.uses, ∀ v ∈ s.uses, u.miner ≠ v.miner → u.startNonce = v.startNonce →
    Apart ((2 ^ 64 - 1) / s.all.length) u.first v.first

end StartNonce

end Energiminer.Core
