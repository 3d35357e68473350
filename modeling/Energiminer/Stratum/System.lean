import Energiminer.Misc.Runs
import Energiminer.Stratum.Connection

/-!
# The client, its manager and the network

The runs of `StratumClient` under `PoolManager` (`PoolManager.cpp:103-235`). Handlers on the
`io_service` are atomic and run in any order. The thread of the manager may be interrupted by them
between its test of the client's state, the selection of a pool and the call of `connect`.
-/

namespace Energiminer.Stratum
open Misc Misc.Json Primitives

/-- How an operation ends. -/
inductive Outcome
  /-- a handler that was posted, or the end of an encryption -/
  | run
  /-- the addresses of a host, or an error -/
  | resolved (addresses : Option (List Nat))
  /-- an attempt to connect: its error, and that of the handshake -/
  | connected (ec hec : Bool)
  /-- a read: its error -/
  | received (ec : Bool)

/-- What can happen. -/
inductive Event
  /-- the operation at a position of `pending` ends -/
  | complete (i : Nat) (o : Outcome)
  /-- bytes come in for a read -/
  | segment (bytes : List Byte)
  /-- a write completes -/
  | written (i : Nat)
  /-- the workloop timer elapses -/
  | tick
  /-- the failover timer elapses -/
  | failover
  /-- the manager looks at the client's state -/
  | check
  /-- the manager selects a pool -/
  | select
  /-- the manager calls `connect` -/
  | connect
  /-- the manager is stopped -/
  | stop
  /-- a miner finds a solution -/
  | found (solution : Solution)
  /-- time passes, in milliseconds -/
  | elapse (ms : Nat)

/-- `onSSLShutdownCompleted` (`StratumClient.cpp:1079-1084`). -/
def onShutdown (s : State) : State := s.post .finalize

/-- The handler of an operation that ends, already taken off `pending`. -/
def handle (s : State) : Pending → Outcome → Option (Except Fault State)
  | .resolve host port, .resolved addresses => some (resolveHandler s host port addresses)
  | .startConnect, .run => some (startConnect s)
  | .connect, .connected ec hec => some (connectHandler s ec hec)
  | .disconnect, .run => some (disconnect s)
  | .shutdown, .run => some (.ok (onShutdown s))
  | .finalize, .run => some (disconnectFinalize s)
  | .read, .received true => some (.ok (onRecvError s))
  | .read, .received false => if s.recv.hasLine then some (onRecv s) else none
  | .response responseObject, .run => some (processResponse s responseObject)
  | _, _ => none

/-- The operation at position `i` ends. -/
def complete (s : State) (i : Nat) (o : Outcome) : Option (Except Fault State) :=
  match s.pending[i]? with
  | some p => handle { s with pending := s.pending.eraseIdx i } p o
  | none => none

/-- A read is outstanding. -/
def State.reading (s : State) : Bool :=
  s.pending.any fun
    | .read => true
    | _ => false

/-- The test of `PoolManager::trun` (`PoolManager.cpp:126-127`): nothing is done while the client is
pending or connected. -/
def managerCheck (s : State) : State :=
  if !s.isPendingState && !s.isConnected then { s with manager.phase := .checked } else s

/-- An unrecoverable pool is discarded. -/
def discardPool (s : State) : Except Fault State := do
  let u ← s.activeUri
  if u.unrecoverable then
    let i := s.manager.activeConnectionIdx
    let connections := s.connections.eraseIdx i
    pure { s with
      connections := connections
      manager.activeConnectionIdx := if connections.length ≤ i then 0 else i
      manager.connectionAttempt := 0 }
  else pure s

/-- The next pool is taken after too many attempts, and the miners are suspended. -/
def rotatePools (s : State) : State :=
  if s.manager.maxConnectionAttempts ≤ s.manager.connectionAttempt then
    let i := s.manager.activeConnectionIdx + 1
    { s with
      manager.connectionAttempt := 0
      manager.activeConnectionIdx := if i = s.connections.length then 0 else i
      plant := if s.plant.isMining then s.plant.resetWork else s.plant }
  else s

/-- The pool is handed to the client by `setConnection`, or the manager ends
(`PoolManager.cpp:150-170`). -/
def usePool (s : State) : Except Fault State := do
  let u ← s.activeUri
  if u.host ≠ "exit" ∧ 0 < s.connections.length then
    pure { s with
      manager.connectionAttempt := s.manager.connectionAttempt + 1
      manager.phase := .selected
      conn := some s.manager.activeConnectionIdx
      flags.canconnect := false }
  else
    pure { s with manager.running := false, manager.phase := .start, plant.isMining := false }

/-- The selection of a pool in `PoolManager::trun` (`PoolManager.cpp:129-157`). -/
def managerSelect (s : State) : Except Fault State := do
  let s ← discardPool s
  usePool (rotatePools s)

/-- The call of `connect` in `PoolManager::trun` (`PoolManager.cpp:158`). -/
def managerConnect (s : State) : Except Fault State := do
  let s ← connect s
  pure { s with manager.phase := .start }

/-- `check_failover_timeout` (`PoolManager.cpp:223-235`). -/
def checkFailoverTimeout (s : State) : Except Fault State :=
  let s := { s with manager.failoverArmed := false }
  if s.manager.running && decide (s.manager.activeConnectionIdx ≠ 0) then do
    let s ← disconnect s
    pure { s with manager.activeConnectionIdx := 0, manager.connectionAttempt := 0 }
  else .ok s

/-- `PoolManager::stop` (`PoolManager.cpp:103-118`). -/
def managerStop (s : State) : Except Fault State :=
  if s.manager.running then do
    let s := { s with manager.running := false, manager.failoverArmed := false }
    let s ← (if s.isConnected then disconnect s else pure s)
    pure { s with plant.isMining := false }
  else .ok s

/-- A miner may hold the work: it is valid and differs from one that was delivered at most in what
the miner changes. -/
def Plant.holds (p : Plant) (work : Work) : Bool :=
  work.isValid && p.delivered.any fun w => w.eqv work && decide (w.jobName = work.jobName)

/-- The next state, or a fault, if the event can happen. -/
def step (s : State) : Event → Option (Except Fault State)
  | .complete i o => complete s i o
  | .segment bytes => if s.reading then some (.ok { s with recv := s.recv.segment bytes }) else none
  | .written i => some (.ok { s with out := s.out.completed i })
  | .tick => if s.timer = .armed then some (workloopTimerElapsed s) else none
  | .failover => if s.manager.failoverArmed then some (checkFailoverTimeout s) else none
  | .check =>
    if s.manager.running ∧ s.manager.phase = .start then some (.ok (managerCheck s)) else none
  | .select => if s.manager.phase = .checked then some (managerSelect s) else none
  | .connect => if s.manager.phase = .selected then some (managerConnect s) else none
  | .stop => some (managerStop s)
  | .found solution =>
    if s.plant.holds solution.work then some (onSolutionFound s solution) else none
  | .elapse ms => some (.ok { s with clock := s.clock + ms })

/-- The client and its manager at the start, with at least one pool and one attempt. -/
def Initial (s : State) : Prop :=
  ∃ cfg connections maxTries failoverTimeout, connections ≠ [] ∧ 1 ≤ maxTries ∧
    s = State.initial cfg connections maxTries failoverTimeout

/-- The system. -/
def system : Machine State Event Fault := ⟨Initial, step⟩

/-- A client that reads a line with the byte `n` as value `n` of a script, and writes nothing, with
the default timeouts (`MinerAux.h:198-200`). -/
def scriptedConfig (script : List Value) : Config where
  worktimeout := 240
  responsetimeout := 4
  projectNameWithVersion := "energiminer"
  jWriter _ := []
  jReader line := line.head?.bind fun n => script[n.toNat]?

/-- A pool on a host. -/
def poolOn (host : String) (secLevel : SecureLevel) : Uri :=
  ⟨host, 5000, "user.worker", "x", "", secLevel, 999, 999, false, false⟩

/-- A client that tries each pool once. -/
def scriptedClient (script : List Value) (connections : List Uri) : State :=
  State.initial (scriptedConfig script) connections 1 0

theorem initial_scriptedClient {script : List Value} {connections : List Uri}
    (h : connections ≠ []) : Initial (scriptedClient script connections) :=
  ⟨_, _, _, _, h, Nat.le_refl 1, rfl⟩

/-- A client for runs in which only connections matter. -/
def silentClient (connections : List Uri) : State := scriptedClient [] connections

theorem initial_silentClient {connections : List Uri} (h : connections ≠ []) :
    Initial (silentClient connections) := initial_scriptedClient h

/-- A connection to the selected pool is made. -/
def connecting : List Event :=
  [.check, .select, .connect, .complete 0 (.resolved (some [1])), .complete 0 .run,
    .complete 0 (.connected false false)]

/-- The pool sends value `n` of the script, and it is processed. -/
def message (n : Byte) : List Event :=
  [.segment [n, lineFeed], .complete 0 (.received false), .complete 0 .run]

/-- An answer of the pool. -/
def answerTo (id : Int) (result : Value) : Value := .object [("id", .int id), ("result", result)]

/-- A job of the pool. -/
def jobAt (height : Nat) (name : String) (clean : Bool) : Value :=
  .object [("method", .string "mining.notify"),
    ("params", .array [.string name, .string "00", .string "01", .string "02", .array [],
      .string "1", .string "1", .string "1", .bool clean, .int height])]

/-- A work of such a job, as a miner holds it. -/
def workAt (height : BitVec 32) (name extraNonce1 : String) : Work :=
  { Work.blank with
    nHeight := height, vtx := [CTransaction.new], extraNonce1 := extraNonce1, jobName := name
    hashTarget := DIFF1_TARGET }

def jobNamed (name : String) (clean : Bool) : Value := jobAt 1 name clean

def workNamed (name extraNonce1 : String) : Work := workAt 1 name extraNonce1

end Energiminer.Stratum
