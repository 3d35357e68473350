import Energiminer.Misc.Runs

/-!
# Workers

`Worker` of `primitives/worker.{h,cpp}`: a thread that runs `trun` again and again, and the calls that
start it, stop it and end it. All calls hold `x_work`, so that at any moment there are the worker thread
and one caller, which share `m_state`. A step is one access to `m_state`. A waiting loop may be left at
the first test that allows it, and at any later one.
-/

namespace Energiminer.Primitives.Worker
open Misc

/-- `Worker::State`. -/
inductive Mode
  | starting
  | started
  | stopping
  | stopped
  | killing
  deriving DecidableEq

/-- `shouldStop()` (`worker.h:47-50`). -/
def shouldStop (mode : Mode) : Bool := mode = .stopping || mode = .stopped

/-- Where the worker thread is (`worker.cpp:23-42`). -/
inductive Thread
  /-- at the test for `Killing` -/
  | testing
  /-- at the exchange of `Starting` for `Started` -/
  | confirming
  /-- in `trun` -/
  | trun
  /-- behind `trun`, at the exchange for `Stopped` -/
  | returned
  /-- behind this exchange, which gave `ex` -/
  | exchanged (ex : Mode)
  /-- in the loop that waits while the worker is stopped -/
  | waiting
  | ended
  deriving DecidableEq

/-- Where the caller is that holds `x_work`. -/
inductive Caller
  /-- at the begin of `startWorking` -/
  | starting
  /-- `startWorking`, which has to create the thread -/
  | creating
  /-- `startWorking`, which waits while the worker is starting; if it changed the state from `Stopped`,
  with the number of runs there were -/
  | awaitingStart (changed : Option Nat)
  /-- at the begin of `stopWorking` -/
  | stopping
  /-- `stopWorking`, which waits until the worker is stopped -/
  | awaitingStop
  /-- at the begin of `~Worker` -/
  | killing
  /-- `~Worker`, which waits for the end of the thread -/
  | joining
  deriving DecidableEq

/-- The classes of the program that are workers. -/
inductive Subclass
  | clMiner
  | cudaMiner
  | cpuMiner
  | testMiner
  | getworkClient
  | poolManager
  deriving DecidableEq

/-- The destructor of the class calls `stopWorking` (`CLMiner.cpp:256-260`, `CUDAMiner.cpp:47-50`,
`CpuMiner.h:20`). -/
def Subclass.stopsFirst : Subclass → Bool
  | .clMiner | .cudaMiner | .cpuMiner => true
  | .testMiner | .getworkClient | .poolManager => false

/-- How far the destruction of the worker has come. -/
inductive Lifetime
  | alive
  /-- the destructor of the class has to stop the worker -/
  | ending
  /-- `~Worker` has to be called -/
  | orphaned
  /-- `~Worker` was called -/
  | destroyed
  deriving DecidableEq

/-- A call of `startWorking` that changed the state from `Stopped`: how often `trun` had been entered
when it did, and when it returned. -/
structure Restart where
  changed : Nat
  returned : Nat
  deriving DecidableEq

structure State where
  /-- `m_state` -/
  mode : Mode := .starting
  /-- `m_work` -/
  thread : Option Thread := none
  /-- the holder of `x_work` -/
  caller : Option Caller := none
  lifetime : Lifetime := .alive
  /-- how often `trun` was entered -/
  runs : Nat := 0
  /-- a call of `stopWorking` has given `x_work` back, and no call of `startWorking` has got it since -/
  stopped : Bool := false
  restarts : List Restart := []
  deriving DecidableEq

inductive Event
  /-- a call of `startWorking` gets `x_work` -/
  | startWorking
  /-- a call of `stopWorking` gets `x_work` -/
  | stopWorking
  /-- the worker is destroyed -/
  | destroy
  /-- the next call of the destructor gets `x_work` -/
  | destructor
  /-- the caller takes its next step -/
  | caller
  /-- the worker thread takes its next step; in `trun`, it evaluates `shouldStop` and returns if it has
  to -/
  | thread
  /-- `trun` returns on its own or by an exception -/
  | trunReturns
  deriving DecidableEq

/-- The next step of the caller (`worker.cpp:16-69`). -/
def callerStep (s : State) : Caller → State
  | .starting =>
    match s.thread with
    | some _ =>
      if s.mode = .stopped then
        { s with mode := .starting, caller := some (.awaitingStart (some s.runs)) }
      else { s with caller := some (.awaitingStart none) }
    | none => { s with mode := .starting, caller := some .creating }
  | .creating => { s with thread := some .testing, caller := some (.awaitingStart none) }
  | .awaitingStart changed =>
    if s.mode = .starting then s
    else
      { s with
        caller := none
        restarts := changed.toList.map (⟨·, s.runs⟩) ++ s.restarts }
  | .stopping =>
    match s.thread with
    | some _ =>
      { s with
        mode := if s.mode = .started then .stopping else s.mode
        caller := some .awaitingStop }
    | none => { s with caller := none, stopped := true }
  | .awaitingStop => if s.mode = .stopped then { s with caller := none, stopped := true } else s
  | .killing =>
    match s.thread with
    | some _ => { s with mode := .killing, caller := some .joining }
    | none => { s with caller := none }
  | .joining => if s.thread = some .ended then { s with thread := none, caller := none } else s

/-- The next step of the worker thread (`worker.cpp:24-41`). -/
def threadStep (s : State) : Thread → Option State
  | .testing =>
    some { s with thread := some (if s.mode = .killing then .ended else .confirming) }
  | .confirming =>
    some { s with
      mode := if s.mode = .starting then .started else s.mode
      thread := some .trun
      runs := s.runs + 1 }
  | .trun => some (if shouldStop s.mode then { s with thread := some .returned } else s)
  | .returned => some { s with mode := .stopped, thread := some (.exchanged s.mode) }
  | .exchanged ex =>
    some { s with
      mode := if ex = .killing ∨ ex = .starting then ex else s.mode
      thread := some .waiting }
  | .waiting => some (if s.mode = .stopped then s else { s with thread := some .testing })
  | .ended => none

/-- What happens at an event, if it can happen. -/
def next (subclass : Subclass) (s : State) : Event → Option State
  | .startWorking =>
    if s.caller = none ∧ s.lifetime = .alive then
      some { s with caller := some .starting, stopped := false }
    else none
  | .stopWorking =>
    if s.caller = none ∧ s.lifetime = .alive then some { s with caller := some .stopping } else none
  | .destroy =>
    if s.caller = none ∧ s.lifetime = .alive then
      some { s with lifetime := if subclass.stopsFirst then .ending else .orphaned }
    else none
  | .destructor =>
    if s.caller = none then
      match s.lifetime with
      | .ending => some { s with caller := some .stopping, lifetime := .orphaned }
      | .orphaned => some { s with caller := some .killing, lifetime := .destroyed }
      | .alive | .destroyed => none
    else none
  | .caller => s.caller.map (callerStep s)
  | .thread => s.thread.bind (threadStep s)
  | .trunReturns => if s.thread = some .trun then some { s with thread := some .returned } else none

/-- A worker of a class, its thread and the threads that call it. -/
def system (subclass : Subclass) : Machine State Event Empty where
  init s := s = {}
  step s e := (next subclass s e).map .ok

end Energiminer.Primitives.Worker
