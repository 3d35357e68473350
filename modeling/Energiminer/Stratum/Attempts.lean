import Energiminer.Stratum.Link

/-!
# Attempts to connect

The manager leaves a pool after `m_maxConnectionAttempts` attempts (`PoolManager.cpp:120-173`). It
counts an attempt when it selects the pool, and tests before that only the flags of the client: of what
is under way, a resolver and a `start_connect` that is queued raise none (`StratumClient.h:31-40`). The
record of a run counts the attempts to the active pool that have really ended.
-/

namespace Energiminer.Stratum
open Misc Primitives

/-- The client is connected, or on its way to a connection or from one. -/
def State.underway (s : State) : Bool := s.flags.connected || s.pending.any fun p => p.token.isSome

/-- The manager, if it selects now, takes the next pool because of the number of attempts. -/
def State.spent (s : State) : Bool :=
  match discardPool s with
  | .ok t => decide (t.manager.maxConnectionAttempts ≤ t.manager.connectionAttempt)
  | .error _ => false

/-- The manager, if it selects now, discards the active pool. -/
def State.lost (s : State) : Bool :=
  match s.activeUri with
  | .ok u => u.unrecoverable
  | .error _ => false

/-- The attempts to connect to the active pool since it is the active one. -/
structure Attempts where
  ended : Nat := 0
  /-- an attempt was counted and has not ended -/
  current : Bool := false
  deriving DecidableEq

namespace Attempts

/-- An attempt ends when nothing is under way any more. -/
def observe (a : Attempts) (s t : State) : Attempts :=
  if s.underway && !t.underway then
    { ended := if a.current then a.ended + 1 else a.ended, current := false }
  else a

def note (a : Attempts) (s : State) (e : Event) (t : State) : Attempts :=
  match e with
  | .select =>
    { ended := if s.spent || s.lost then 0 else a.ended
      current := decide (t.manager.phase = .selected) }
  | .failover =>
    if t.manager.activeConnectionIdx = s.manager.activeConnectionIdx then a.observe s t else {}
  | _ => a.observe s t

/-- Whenever the manager is about to select a pool or to connect, no attempt is in progress, and it
leaves a pool because of the attempts only after as many have ended. -/
structure Fair (a : Attempts) (s : State) : Prop where
  left : s.manager.phase = .checked → s.spent = true → s.manager.maxConnectionAttempts ≤ a.ended
  counted : s.manager.phase = .checked → s.underway = false
  started : s.manager.phase = .selected → s.underway = false

end Attempts

/-- The system with the record of the attempts. -/
def attemptSystem : Machine (State × Attempts) Event Fault := system.recorded {} Attempts.note

/-- An operation that raises no flag. -/
def Pending.silent : Pending → Bool
  | .resolve .. => true
  | .startConnect => true
  | _ => false

/-- The manager looks at the flags only while nothing is under way that raises none. -/
def Audible (x : State × Attempts) (e : Event) : Prop :=
  e = .check → x.1.pending.any Pending.silent = false

end Energiminer.Stratum
