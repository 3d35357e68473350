import Energiminer.Misc.ForLoop
import Energiminer.Misc.Threads
import Energiminer.OpenCL.Miner

/-!
# The results of a search

The end of the search kernels, where an item whose hash is below the target reports its id
(`nrghash.cl:391-394`, `old_nrghash.cl:390-394`), and the loop of `CLMiner::trun` over what was
reported (`CLMiner.cpp:419-436`). `atomic_inc` and the store are two steps of an item, and the items
take their steps in any order. The kernel takes the smaller of the old count and the last slot; the
loop of the host runs up to the count.
-/

namespace Energiminer.OpenCL.Miner
open Misc

/-- How far an item has come. -/
inductive Progress
  /-- before the test of its hash -/
  | hashed
  /-- after `atomic_inc`, which has returned the old count -/
  | counted (old : BitVec 32)
  /-- after the store -/
  | stored (old : BitVec 32)
  /-- at the end, if it has nothing to report -/
  | passed
  deriving DecidableEq

namespace Progress

/-- What `atomic_inc` has returned. -/
def old? : Progress → Option (BitVec 32)
  | .counted old => some old
  | .stored old => some old
  | _ => none

def finished : Progress → Bool
  | .stored _ => true
  | .passed => true
  | _ => false

end Progress

/-- `min(MAX_OUTPUTS - 1u, old)`. -/
def slotOf (old : BitVec 32) : Fin maxSearchResults :=
  ⟨min (maxSearchResults - 1) old.toNat, Nat.lt_succ_of_le (Nat.min_le_left ..)⟩

/-- `atomic_inc(&g_output->count)`. -/
def SearchResults.increment (r : SearchResults) : SearchResults := { r with count := r.count + 1 }

/-- `g_output->rslt[slot].gid = gid`. -/
def SearchResults.store (r : SearchResults) (source : Execution) (old gid : BitVec 32) :
    SearchResults :=
  { r with rslt := Function.update r.rslt (slotOf old) ⟨gid, source⟩ }

/-- The next step of item `i`, of which `flagged` tells whether its hash is below the target
(`nrghash.cl:391-394`). -/
def reportStep (flagged : Nat → Bool) (source : Execution) (i : Nat) (_ : Unit) (r : SearchResults) :
    Progress → Option (Except Fault (SearchResults × Progress))
  | .hashed =>
    if flagged i then some (.ok (r.increment, .counted r.count)) else some (.ok (r, .passed))
  | .counted old => some (.ok (r.store source old (BitVec.ofNat 32 i), .stored old))
  | .stored _ => none
  | .passed => none

/-- The items of a launch on a result buffer. -/
def reporting (size : BitVec 32) (flagged : Nat → Bool) (source : Execution) (r : SearchResults) :
    Machine (Threads SearchResults Progress) (Nat × Unit) Fault :=
  Threads.system size.toNat r .hashed (reportStep flagged source)

/-- The launch is complete. -/
def Complete (s : Threads SearchResults Progress) : Prop := ∀ p ∈ s.locals, p.finished = true

/-- The items that have something to report. -/
def flaggedItems (size : BitVec 32) (flagged : Nat → Bool) : List Nat :=
  (List.range size.toNat).filter flagged

/-- `results.rslt[i].gid`, if there is such an entry. -/
def SearchResults.entry (r : SearchResults) (i : BitVec 32) : Option (BitVec 32) :=
  if h : i.toNat < maxSearchResults then some (r.rslt ⟨i.toNat, h⟩).gid else none

/-- `for (uint32_t i = 0; i < results.count && !haveNewWork(); i++)`: the indices that are read and
evaluated, where `haveNewWork` is asked before each. -/
def SearchResults.loop (r : SearchResults) (haveNewWork : Nat → Bool) :
    Option (List (BitVec 32) × BitVec 32) :=
  forLoop (fun i => decide (i < r.count)) (fun i => some (i + 1)) haveNewWork (r.count.toNat + 1) 0 0

/-- The loop reads what the items have reported: nothing past the end of `rslt`, only ids of flagged
items, and, if they fit and no new work comes, each of them once. -/
structure SearchResults.ReadsReports (r : SearchResults) (items : List Nat) : Prop where
  within : ∀ haveNewWork, ∃ reads last, r.loop haveNewWork = some (reads, last) ∧
    ∀ i ∈ reads, i.toNat < maxSearchResults ∧
      ∃ j ∈ items, r.entry i = some (BitVec.ofNat 32 j)
  each : items.length ≤ maxSearchResults → ∃ reads last, r.loop (fun _ => false) = some (reads, last) ∧
    (reads.map r.entry).Perm (items.map fun j => some (BitVec.ofNat 32 j))

end Energiminer.OpenCL.Miner
