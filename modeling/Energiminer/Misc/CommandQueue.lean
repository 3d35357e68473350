/-!
# In-order command queues

A device that executes the commands it is given one at a time and in their order, at its own pace.
The memory is settled once the pending commands have been executed; this state of the memory does not
depend on how far the device has come.
-/

namespace Energiminer.Misc

/-- The memory of a device and the commands that wait for it, the oldest first. -/
structure CommandQueue (M C : Type) where
  memory : M
  pending : List C

namespace CommandQueue
variable {M C : Type}

def enqueue (q : CommandQueue M C) (commands : List C) : CommandQueue M C :=
  { q with pending := q.pending ++ commands }

variable (execute : M → C → M)

/-- The memory after the pending commands. -/
def settled (q : CommandQueue M C) : M := q.pending.foldl execute q.memory

theorem settled_enqueue (q : CommandQueue M C) (commands : List C) :
    (q.enqueue commands).settled execute = commands.foldl execute (q.settled execute) :=
  List.foldl_append

theorem settled_next {q : CommandQueue M C} {c : C} {cs : List C} (h : q.pending = c :: cs) :
    settled execute ⟨execute q.memory c, cs⟩ = q.settled execute := by
  rw [settled, settled, h, List.foldl_cons]

theorem settled_idle {q : CommandQueue M C} (h : q.pending = []) :
    q.settled execute = q.memory := by
  rw [settled, h, List.foldl_nil]

end CommandQueue

end Energiminer.Misc
