import Energiminer.Core.MinePlant
import Energiminer.Misc.Mailbox

/-!
# The work of a miner behind its lock

`setWork` and `resetWork` of `Miner` (`nrgcore/miner.cpp:212-240`) are called by any threads, and the
mining thread calls `getWork`, `haveNewWork` and `waitMoreWork` (`nrgcore/miner.h:111-128`). All but
`haveNewWork` hold `work_mutex`, in one statement after the other:

* `setWork` compares the work, assigns it, updates its extra nonce and stores the flag;
* `resetWork` resets the work and stores the flag;
* `getWork` clears the flag and copies the work;
* `waitMoreWork` gets the lock, gives it back while it waits, and gets it once more.

The notifications and `kick_miner` come after the lock was given back and do not touch the work.
-/

namespace Energiminer.Core
open Misc Primitives Engines

/-- The calls that change the work. -/
inductive Writer
  | setWork (work : Work) (extraNonce : BitVec 32)
  | resetWork

/-- The values `m_work` gets in a call (`miner.cpp:212-240`). -/
def Writer.plan (work : Work) : Writer → Except MissingCoinbase (Option (List Work))
  | .setWork new extraNonce =>
    if new.eqv work then .ok none
    else
      match new.updateExtraNonce extraNonce with
      | some updated => .ok (some [new, updated])
      | none => .error ⟨new⟩
  | .resetWork => .ok (some [work.reset])

namespace WorkLock

/-- The miner, the calls of other threads and the mining thread. The flag is `m_newWorkAssigned`, to
enter is to get the lock in `setWork` or `resetWork`, to take is to get it in `getWork`, to rest is to
get it in `waitMoreWork`, and to look is `haveNewWork`. -/
def system : Machine (Mailbox.State Work Writer) (Mailbox.Event Writer) MissingCoinbase :=
  Mailbox.system Writer.plan .blank

end WorkLock

end Energiminer.Core
