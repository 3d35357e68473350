import Energiminer.Engines.Miner
import Energiminer.Engines.Target
import Energiminer.Primitives.Worker

/-!
# The CPU miner

`CpuMiner::trun` (`CpuMiner.cpp:19-75`) on the thread of a `Worker`, with the calls of the plant that
assign and reset its work (`miner.cpp:212-240`, `miner.h:111-121`). A step of the thread leads from one
look at the shared state to the next. What the callback of `submitProof` does to the work comes as an
order after it; an exception that leaves `trun` is the event `trunReturns` of the worker. The DAG and
the hash rate have no part in this.
-/

namespace Energiminer.Engines.CpuMiner
open Misc Primitives

/-- Where `trun` is. -/
inductive Point
  /-- before `getWork()` -/
  | top
  /-- in the pause of a second, before `shouldStop()` -/
  | pausing
  /-- before `GetPOWHash(work)` -/
  | searching (work : Work)
  /-- before the test of the inner loop -/
  | searched (work : Work)
  deriving DecidableEq

/-- A nonce that was evaluated or submitted, and which of the works assigned by `setWork` it was for. -/
structure Trial where
  assignment : Nat
  nonce : BitVec 64
  deriving DecidableEq

/-- What does not change. -/
structure Config where
  /-- `GetPOWHash`, with the mix hash that it stores in the header -/
  getPOWHash : Work → Uint256 × Uint256
  /-- the static variable of `getStartNonce` -/
  range : BitVec 64
  /-- `m_index` -/
  index : BitVec 64

/-- `getStartNonce(work, m_index)`. Nothing sets the `startNonce` of a work, which is zero. -/
def Config.getStartNonce (config : Config) : BitVec 64 := 0 + config.range * config.index

/-- The miner and its thread. -/
structure State where
  worker : Worker.State := {}
  assignment : Assignment := {}
  point : Point := .top
  /-- how many works were assigned -/
  assigned : Nat := 0
  /-- how many there were when `getWork` was last called -/
  fetched : Nat := 0
  /-- the nonces evaluated so far, the last one first -/
  evaluated : List Trial := []
  /-- the nonces submitted so far -/
  submitted : List Trial := []
  /-- the pauses so far -/
  pauses : Nat := 0

def State.shouldStop (s : State) : Bool := Worker.shouldStop s.worker.mode

/-- `trun` returns. -/
def State.leave (s : State) : State := { s with worker.thread := some .returned }

/-- `getWork()`, and what follows for the work. -/
def State.fetch (config : Config) (s : State) : State :=
  let work := s.assignment.work
  let s := { s with assignment.newWorkAssigned := false, fetched := s.assigned }
  if !work.isValid then { s with point := .pausing, pauses := s.pauses + 1 }
  else { s with point := .searching { work with nNonce := config.getStartNonce } }

/-- An iteration of the inner loop, up to its test. -/
def State.evaluate (config : Config) (s : State) (work : Work) : State :=
  let (hash, hashMix) := config.getPOWHash work
  let s := { s with evaluated := ⟨s.fetched, work.nNonce⟩ :: s.evaluated }
  if cpuAccepts hash work.hashTarget then
    { s with submitted := ⟨s.fetched, work.nNonce⟩ :: s.submitted, point := .top }
  else { s with point := .searched { work with nNonce := work.nNonce + 1, hashMix } }

/-- The next step of `trun` (`CpuMiner.cpp:19-75`). -/
def State.trun (config : Config) (s : State) : State :=
  match s.point with
  | .top => s.fetch config
  | .pausing => if s.shouldStop then s.leave else { s with point := .top }
  | .searching work => s.evaluate config work
  | .searched work =>
    if !s.assignment.newWorkAssigned && !s.shouldStop then { s with point := .searching work }
    else { s with point := .top }

/-- An order of the plant. -/
def State.obey (s : State) (order : Order) : State :=
  { s with
    assignment := s.assignment.obey order
    assigned :=
      match order with
      | .setWork work _ => if work.eqv s.assignment.work then s.assigned else s.assigned + 1
      | _ => s.assigned }

inductive Event
  | order (order : Order)
  | worker (event : Worker.Event)

/-- The thread takes a step of `trun`. -/
def State.inTrun (s : State) : Event → Bool
  | .worker .thread => decide (s.worker.thread = some .trun)
  | _ => false

/-- The next state; a thread that enters `trun` begins at its top. -/
def step (config : Config) (s : State) (e : Event) : Option State :=
  if s.inTrun e then some (s.trun config)
  else
    match e with
    | .order order => some (s.obey order)
    | .worker event =>
      (Worker.next .cpuMiner s.worker event).map fun worker =>
        { s with
          worker := worker
          point := if worker.runs = s.worker.runs then s.point else .top }

/-- A CPU miner, the plant and the threads that call them. -/
def system (config : Config) : Machine State Event Empty where
  init s := s = {}
  step s e := (step config s e).map .ok

/-- The nonces that were evaluated for an assignment, in their order. -/
def State.noncesOf (s : State) (assignment : Nat) : List (BitVec 64) :=
  ((s.evaluated.filter fun t => decide (t.assignment = assignment)).map Trial.nonce).reverse

/-- For every assignment, each nonce was evaluated at most once until all nonces were, and no nonce was
submitted twice. -/
structure State.NeverRepeats (s : State) : Prop where
  evaluated : ∀ assignment, ((s.noncesOf assignment).take (2 ^ 64)).Nodup
  submitted : s.submitted.Nodup

/-- A valid work that is fetched was assigned since the last call of `getWork`. -/
def Renewed (s : State) (e : Event) : Prop :=
  s.inTrun e = true → s.point = .top → s.assignment.work.isValid = true →
    s.assignment.newWorkAssigned = true

instance (s : State) (e : Event) : Decidable (Renewed s e) :=
  inferInstanceAs (Decidable (_ → _ → _ → _))

end Energiminer.Engines.CpuMiner
