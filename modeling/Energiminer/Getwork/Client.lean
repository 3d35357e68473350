import Energiminer.Misc.Runs
import Energiminer.Primitives.Solution
import Energiminer.Stratum.State

/-!
# The getwork client

`GetworkClient` (`GetworkClient.cpp:25-203`), which polls a node for block templates, and the plant.
An iteration of `trun` takes the lock for what it does with a template, and `submitSolution` holds it
throughout, so both are atomic. A template is the `Work` that is built from it; a reply that is no
object counts as a failure of the call. The texts that are only logged and the waits are left out.
-/

namespace Energiminer.Getwork
open Misc Primitives Stratum

/-- The client and the plant. -/
structure Client where
  /-- `m_connected` -/
  connected : Bool := false
  /-- `m_have_work` -/
  haveWork : Bool := false
  /-- `current_work` of `trun` -/
  currentWork : Work := .blank
  plant : Plant := ⟨.blank, false, []⟩
  /-- the work of the last iteration, if `getblocktemplate` succeeded in it -/
  fetched : Option Work := none
  /-- `getblocktemplate` has failed since the last delivery -/
  failed : Bool := false
  /-- the works passed to `submitblock` since the last delivery -/
  submitted : List Work := []
  deriving DecidableEq

/-- What can happen. -/
inductive Event
  /-- an iteration in which `getblocktemplate` succeeds -/
  | template (work : Work)
  /-- an iteration in which `getblocktemplate` fails with a `JsonRpcException` -/
  | failure
  /-- a miner calls `submitSolution` -/
  | submit (solution : Solution)
  | connect
  | disconnect

/-- `WorkException` of a solution without a valid work. -/
inductive Fault
  | workException
  deriving DecidableEq

/-- A new work goes to the plant. -/
def Client.deliver (c : Client) (work : Work) : Client :=
  { c with
    currentWork := work, haveWork := true, plant := c.plant.setWork work
    failed := false, submitted := [] }

/-- The iteration of `trun` for a template (`GetworkClient.cpp:149-191`). -/
def Client.receive (c : Client) (work : Work) : Client :=
  { (if !c.currentWork.eqv work then c.deliver work else c) with fetched := some work }

/-- The iteration of `trun` without a template (`GetworkClient.cpp:192-199`). -/
def Client.fail (c : Client) : Client :=
  { c with plant := c.plant.resetWork, fetched := none, failed := true }

/-- `submitSolution` (`GetworkClient.cpp:58-128`), whatever `submitblock` returns. -/
def Client.submitSolution (c : Client) (solution : Solution) : Except Fault Client :=
  if !c.haveWork then .ok c
  else
    let c := { c with plant := c.plant.resetWork, haveWork := false }
    if !c.connected then .ok c
    else if !solution.work.isValid then .error .workException
    else .ok { c with submitted := solution.work :: c.submitted }

def step (c : Client) : Event → Option (Except Fault Client)
  | .template work => some (.ok (c.receive work))
  | .failure => some (.ok c.fail)
  | .submit solution => some (c.submitSolution solution)
  | .connect => some (.ok { c with connected := true })
  | .disconnect => some (.ok { c with connected := false })

/-- The client, from the start of `trun`. -/
def system : Machine Client Event Fault := ⟨fun c => c = {}, step⟩

end Energiminer.Getwork
