import Energiminer.Stratum.Link
import Energiminer.Stratum.Reception

/-!
# The autodetection of the mode

A pool without a version in its URL is tried in the modes 2, 1 and 0, one connection after the other
(`StratumClient.cpp:205-261`, `413-563`, `PoolURI.h`). The mode and whether it is confirmed are kept in
the URI, which starts with mode 999. Here an iteration of `PoolManager::trun` is as atomic as the
handlers are.
-/

namespace Energiminer.Stratum
open Misc Misc.Json Primitives

/-- A pool as it is parsed. -/
structure Uri.Fresh (u : Uri) : Prop where
  stratumMode : u.stratumMode = 999
  stratumModeConfirmed : u.stratumModeConfirmed = false
  unrecoverable : u.unrecoverable = false

/-- An iteration of `PoolManager::trun`. -/
def managerIteration (s : State) : Except Fault State := do
  let s := managerCheck s
  if s.manager.phase = .checked then
    let s ← managerSelect s
    if s.manager.phase = .selected then managerConnect s else pure s
  else pure s

/-- The next state, where the event `check` stands for an iteration of the manager. -/
def atomicStep (s : State) : Event → Option (Except Fault State)
  | .check =>
    if s.manager.running ∧ s.manager.phase = .start then some (managerIteration s) else none
  | .select => none
  | .connect => none
  | e => step s e

/-- The client and its manager with pools as they are parsed. In `system` handlers also run within an
iteration of the manager: there a pool can be discarded under a connection that was made since the
test, and if the next pool is `exit`, `m_conn` is left pointing to that one, so that
`disconnect_finalize` starts from mode 999. -/
def atomicSystem : Machine State Event Fault where
  init s := Initial s ∧ ∀ u ∈ s.connections, u.Fresh
  step := atomicStep

/-- `disconnect()` goes on to `disconnect_finalize` at once. -/
def State.endsAtOnce (s : State) : Bool :=
  s.flags.connected && !s.flags.disconnecting && s.sock.socket.isSome &&
    s.uri?.any fun u => !u.secure

/-- The event runs `disconnect_finalize`. -/
def State.finalizes (s : State) : Event → Bool
  | .complete i .run =>
    match s.pending[i]? with
    | some .disconnect => s.endsAtOnce
    | some .finalize => true
    | _ => false
  | .failover => s.manager.running && decide (s.manager.activeConnectionIdx ≠ 0) && s.endsAtOnce
  | .stop => s.manager.running && s.isConnected && s.endsAtOnce
  | _ => false

/-- `disconnect_finalize` looks for another mode: the pool is recoverable, its mode is unconfirmed and
`m_canconnect` is set. -/
def State.retries (s : State) (u : Uri) : Bool :=
  !u.unrecoverable && !u.stratumModeConfirmed && s.flags.canconnect

/-- The event reconnects in the next mode. -/
def State.reconnects (s : State) (e : Event) : Bool :=
  s.finalizes e && s.uri?.any fun u => s.retries u && decide (0 < u.stratumMode)

/-- How often the autodetection has reconnected, by the place of the pool. -/
abbrev Reconnects := Nat → Nat

namespace Reconnects

/-- The pool at a place is discarded. -/
def erase (g : Reconnects) (i : Nat) : Reconnects := fun j => if j < i then g j else g (j + 1)

def note (g : Reconnects) (s : State) (e : Event) (t : State) : Reconnects :=
  if s.reconnects e then fun j => if s.conn = some j then g j + 1 else g j
  else if t.connections.length < s.connections.length then g.erase s.manager.activeConnectionIdx
  else g

end Reconnects

/-- The system with the record of the reconnects. -/
def detectionSystem : Machine (State × Reconnects) Event Fault :=
  atomicSystem.recorded (fun _ => 0) Reconnects.note

/-- A pool with the autodetection, and the same pool later: the mode never increases, and stays once it
is confirmed. -/
structure Later (u v : Uri) : Prop where
  version : v.version = u.version
  mode_le : u.version = 999 → v.stratumMode ≤ u.stratumMode
  confirmed : u.version = 999 → u.stratumModeConfirmed = true →
    v.stratumMode = u.stratumMode ∧ v.stratumModeConfirmed = true

/-- What an event may do to the modes. -/
structure Detects (s : State) (e : Event) (t : State) : Prop where
  /-- the `mining.subscribe` of a connection is sent in a known mode -/
  subscribes : s.establishes e = true → ∃ u, t.uri? = some u ∧
    (u.version = 999 → u.stratumMode ≤ ENERGISTRATUM) ∧
    (t.out = s.out.established ∨
      t.out = s.out.established.send
        (writeRequest s.cfg.jWriter (subscribeRequest u t.user t.worker)))
  /-- pools are discarded, and modes go down -/
  modes : ∃ kept, kept.Sublist s.connections ∧ List.Forall₂ Later kept t.connections
  /-- `disconnect_finalize` starts from a known mode -/
  known : s.finalizes e = true → ∀ u, s.uri? = some u → u.version = 999 → s.retries u = true →
    u.stratumMode ≤ ENERGISTRATUM
  /-- it lowers the mode by one and posts one `start_connect` -/
  lowers : s.finalizes e = true → ∀ u, s.uri? = some u → s.retries u = true → 0 < u.stratumMode →
    t.uri? = some { u with stratumMode := u.stratumMode - 1 } ∧
      t.tokens.count .startConnect = s.tokens.count .startConnect + 1
  /-- or it gives up the pool, in mode 0 -/
  loses : s.finalizes e = true → ∀ u, s.uri? = some u → s.retries u = true → u.stratumMode = 0 →
    t.uri? = some { u with unrecoverable := true } ∧
      t.tokens.count .startConnect = s.tokens.count .startConnect

end Energiminer.Stratum
