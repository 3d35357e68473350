import Energiminer.Core.MinePlant
import Energiminer.Engines.Target
import Energiminer.Primitives.Solution

/-!
# The farm

The plant with its miners at work, from `MinePlant::setWork` to `MinePlant::submitProof`
(`nrgcore/mineplant.cpp:99-190`). The engines differ in how they choose the nonces, but not in what
they do with one: a miner takes a copy of its work with `getWork`, `GetPOWHash` stores the mix hash
in the copy, and the copy is submitted if the hash meets its target (`CpuMiner.cpp:24-68`,
`CLMiner.cpp:419-436`, `CUDAMiner.cpp:503-521`). Here any miner evaluates any nonce at any time.
-/

namespace Energiminer.Core
open Misc Primitives Engines

/-- The plant and the threads of its miners. -/
structure Farm where
  plant : MinePlant := {}
  /-- the copies that the threads of the miners work on -/
  searching : Nat → Option Work := fun _ => none
  /-- the works that were passed to `setWork` -/
  given : List Work := []
  /-- the solutions that were passed to `submitProof`, the last one first -/
  found : List Solution := []

namespace Farm

def setSearching (f : Farm) (miner : Nat) (work : Option Work) : Farm :=
  { f with searching := fun i => if i = miner then work else f.searching i }

/-- The work that a call gives to the plant. -/
def givenBy : MinePlant.Call → List Work
  | .setWork work _ => [work]
  | _ => []

/-- `stop` waits for the threads of the miners to end. -/
def endsThreads (plant : MinePlant) : MinePlant.Call → Bool
  | .stop => plant.isMining
  | _ => false

/-- A call of the plant. -/
def call (f : Farm) (c : MinePlant.Call) : Except MissingCoinbase Farm := do
  let plant ← f.plant.call c
  let searching := if endsThreads f.plant c then fun _ => none else f.searching
  pure { f with plant, searching, given := givenBy c ++ f.given }

/-- `getWork` (`miner.h:112-117`); a work that is not valid is not searched. -/
def getWork (f : Farm) (i : Nat) : Option Farm :=
  (f.plant.miners[i]?).map fun miner =>
    let plant := { f.plant with
      miners := f.plant.miners.set i { miner with newWorkAssigned := false } }
    { f with plant }.setSearching i (if miner.work.isValid then some miner.work else none)

/-- The hash meets the target of the engine. -/
def accepts (gpu : Bool) (hash : Uint256) (hashTarget : ArithUint256) : Bool :=
  if gpu then gpuAccepts hash hashTarget else cpuAccepts hash hashTarget

section
variable (getPOWHash : BlockHeader → Uint256 × BlockHeader)

/-- The copy of a work after `GetPOWHash` for a nonce. -/
def hashedWork (work : Work) (nonce : BitVec 64) : Work :=
  { work with
    toBlockHeader := (getPOWHash { work.toBlockHeader with nNonce := nonce }).2 }

/-- A nonce is evaluated, and submitted if the hash meets the target (`mineplant.cpp:186-190`). -/
def evaluate (f : Farm) (i : Nat) (work : Work) (nonce : BitVec 64) (gpu : Bool) : Farm :=
  let hash := (getPOWHash { work.toBlockHeader with nNonce := nonce }).1
  let work := hashedWork getPOWHash work nonce
  let f := f.setSearching i (some work)
  if accepts gpu hash work.hashTarget then { f with found := ⟨work⟩ :: f.found } else f

end

end Farm

end Energiminer.Core
