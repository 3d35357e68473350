import Energiminer.Primitives.Solution
import Energiminer.Stratum.ProcessResponse

/-!
# Connecting and disconnecting

The handlers of `StratumClient` from `connect` to `disconnect_finalize`, the watchdog, reading and
submitting (`StratumClient.cpp:54-563`, `940-1084`). Each is atomic. An asynchronous operation adds
to `pending` what completes later; how it ends is an argument of its handler. `async_connect` opens
the socket, and the end of the last reference to a socket closes it.
-/

namespace Energiminer.Stratum
open Misc Misc.Json Primitives

/-- `PARALLEL_REQUEST_LIMIT`. -/
def PARALLEL_REQUEST_LIMIT : Nat := 10

namespace State

/-- A socket is used: remember whether it was the one for the pool of `m_conn`, if there is one. -/
def noteUse (s : State) : State :=
  match s.uri? with
  | some u => s.markUse u
  | none => { s with sock.matched := false }

/-- `init_socket()` (`StratumClient.cpp:54-125`). -/
def initSocket (s : State) (u : Uri) : State :=
  let i := s.sock.next
  if u.secure then
    { s with sock := { s.sock with secure := some i, socket := some i, next := i + 1 } }
  else
    { s with sock := { s.sock with nonsecure := some i, socket := some i, next := i + 1 } }

/-- `if (!m_socket) init_socket()`. -/
def ensureSocket (s : State) (u : Uri) : State :=
  if s.sock.socket.isNone then s.initSocket u else s

/-- A shared pointer is cleared, which closes its socket. -/
def release (s : State) (p : Option Nat) : State :=
  match p with
  | some i => s.closeSocket i
  | none => s

end State

open State

/-- What `connect()` sets before it looks for a socket: without a difficulty from the pool, a
connection starts at difficulty one. -/
def State.restart (s : State) : State :=
  { s with
    timer := .armed
    flags := { s.flags with
      canconnect := false, connected := false, subscribed := false, authorized := false
      authpending := false }
    job := { s.job with nextWorkTarget := DIFF1_TARGET, extraNonce1 := "f000000f" } }

/-- `connect()` (`StratumClient.cpp:127-168`). -/
def connect (s : State) : Except Fault State :=
  if s.flags.connecting then .ok s
  else do
    let u ← s.restart.uri
    let s := { s.restart.ensureSocket u with endpoints := [], endpoint := none }
    pure (s.post (.resolve u.host u.port))

/-- The pointers that `disconnect_finalize` clears. -/
def releaseSockets (s : State) (u : Uri) : Except Fault State :=
  if u.secure then do
    let i ← deref s.sock.secure
    let s := s.closeSocket i
    pure { s with sock := { s.sock with secure := none, socket := none } }
  else
    let s := s.release s.sock.nonsecure
    .ok { s with sock := { s.sock with nonsecure := none, socket := none } }

/-- The flags of a connection that has ended. -/
def State.offline (s : State) : State :=
  { s with flags := { s.flags with
    connected := false, subscribed := false, authorized := false, authpending := false
    disconnecting := false } }

/-- `disconnect_finalize()` (`StratumClient.cpp:205-261`): in the autodetection the next mode is
tried on the same endpoint. -/
def disconnectFinalize (s : State) : Except Fault State := do
  let u ← s.uri
  let s ← releaseSockets s.noteUse u
  let s := s.offline
  let retry := !u.unrecoverable && !u.stratumModeConfirmed && s.flags.canconnect
  if retry && decide (0 < u.stratumMode) then
    pure ((s.lowerStratumMode (u.stratumMode - 1)).post .startConnect)
  else
    let s := if retry then s.markUnrecoverable else s
    pure { s.clearResponsePleas with timer := .idle }

/-- The part of `disconnect()` for a socket that is open. -/
def disconnectOpen (s : State) (i : Nat) : Except Fault State := do
  let u ← s.uri
  let _ ← deref (s.chosen u)
  if u.secure then pure ((s.post .shutdown).enqueueResponsePlea none)
  else disconnectFinalize (s.closeSocket i)

/-- `disconnect()` (`StratumClient.cpp:170-203`). `m_socket->cancel()` throws if the socket is not
open. -/
def disconnect (s : State) : Except Fault State :=
  if !s.flags.connected || s.flags.disconnecting then .ok s
  else
    let s := { s with flags.disconnecting := true }
    match s.sock.socket with
    | none => .ok s
    | some i => if s.isOpen i then disconnectOpen s i else .error .systemError

/-- `resolve_handler` (`StratumClient.cpp:263-285`), with the addresses of the host or none after an
error. -/
def resolveHandler (s : State) (host : String) (port : BitVec 16)
    (addresses : Option (List Nat)) : Except Fault State :=
  match addresses with
  | some addresses =>
    let endpoints := addresses.map fun address => Endpoint.mk address host port
    .ok ({ s with endpoints := s.endpoints ++ endpoints }.post .startConnect)
  | none => do
    let _ ← s.uri
    pure { s with flags.connected := false, flags.connecting := false }

/-- The part of `start_connect()` for the first endpoint of the queue. -/
def startConnectTo (s : State) (e : Endpoint) : Except Fault State := do
  let u ← s.uri
  let s := { s with endpoint := some e, flags.connecting := true }.ensureSocket u
  let s := (s.clearResponsePleas.enqueueResponsePlea none).noteUse
  let i ← deref (if u.secure then s.sock.secure else s.sock.socket)
  pure ((s.openSocket i).post .connect)

/-- `start_connect()` (`StratumClient.cpp:287-328`). -/
def startConnect (s : State) : Except Fault State :=
  if s.flags.connecting then .ok s
  else
    match s.endpoints with
    | e :: _ => startConnectTo s e
    | [] => do
      let _ ← s.uri
      pure s

/-- `recvSocketData()` (`StratumClient.cpp:987-998`). -/
def recvSocketData (s : State) : Except Fault State := do
  let u ← s.uri
  let _ ← deref (s.chosen u)
  pure (s.noteUse.post .read)

/-- The user and the worker of a pool's user name, which a dot separates. -/
def splitUser (name : String) : String × String :=
  let user := name.toList.takeWhile (· ≠ '.')
  (String.ofList user, String.ofList (name.toList.drop (user.length + 1)))

/-- The mode that the login is tried with. -/
def loginMode (s : State) (u : Uri) : State :=
  if u.version < 999 then s.setStratumMode u.version true
  else if !u.stratumModeConfirmed && decide (u.stratumMode = 999) then
    s.setStratumMode ENERGISTRATUM false
  else s

/-- The `mining.subscribe` request. -/
def subscribeRequest (u : Uri) (user worker : String) : Value :=
  let withUser := decide (u.stratumMode = NRGPROXY ∨ u.stratumMode = ENERGISTRATUM)
  .object (("id", .int 1) ::
    (if u.stratumMode = STRATUM then [("jsonrpc", .string "2.0")] else []) ++
    [("method", .string "mining.subscribe"),
      ("params", .array (if withUser then [.string (user ++ u.path)] else []))] ++
    if withUser && decide (worker ≠ "") then [("worker", .string worker)] else [])

/-- A connection is there; the user and the worker are those of its pool. -/
def State.enter (s : State) (u : Uri) : State :=
  { s with
    flags := { s.flags with connected := true, canconnect := true }
    out := s.out.established
    recv := s.recv.established
    user := (splitUser u.user).1
    worker := (splitUser u.user).2 }.clearResponsePleas

/-- The first read and the first message on a connection. -/
def login (s : State) : Except Fault State := do
  let s ← recvSocketData s
  let u ← s.uri
  sendSocketData s (subscribeRequest u s.user s.worker)

/-- `connect_handler` (`StratumClient.cpp:413-563`), with the error of the connection and the error
of a handshake. -/
def connectHandler (s : State) (ec hec : Bool) : Except Fault State := do
  let s := { s with flags.connecting := false }.noteUse
  let i ← deref s.sock.socket
  if ec || !s.isOpen i then do
    let s ← (s.closeSocket i).popEndpoint
    pure ({ s with flags.canconnect := false }.post .startConnect)
  else do
    let u ← s.uri
    let _ ← deref (s.chosen u)
    if u.secure && hec then
      pure ({ s with flags.canconnect := false }.markUnrecoverable.post .disconnect)
    else login (loginMode (s.enter u) u)

/-- `onRecvSocketDataCompleted` (`StratumClient.cpp:1000-1047`) with a line in the buffer. -/
def onRecv (s : State) : Except Fault State :=
  let message := messageOf s.cfg.jReader (getline s.recv.buffer).1
  let connected := s.isConnected
  let s := { s with recv := s.recv.completed s.cfg.jReader connected }
  if connected then
    recvSocketData (match message with
      | some v => s.post (.response v)
      | none => s)
  else .ok s

/-- `onRecvSocketDataCompleted` (`StratumClient.cpp:1000-1047`) with an error. -/
def onRecvError (s : State) : State :=
  if s.isConnected then
    (if s.flags.authpending then s.markUnrecoverable else s).post .disconnect
  else s

/-- The answer that the watchdog sends itself in the autodetection. -/
def fakeAnswer : Value :=
  .object [("error", .bool true), ("id", .int 1), ("result", .null)]

/-- The client gives up an endpoint that does not answer or sends no work. -/
def dropEndpoint (s : State) : Except Fault State := do
  let s ← s.popEndpoint
  let s := { s with flags.subscribed := false, flags.authorized := false }
  pure (s.clearResponsePleas.post .disconnect)

/-- No response came in time. -/
def responseTimeout (s : State) (u : Uri) : Except Fault State :=
  if !u.stratumModeConfirmed && !u.unrecoverable then
    .ok (s.clearResponsePleas.post (.response fakeAnswer))
  else dropEndpoint s

/-- The watchdog on a connection: responses first, then work. -/
def watchConnection (s : State) (delay : Nat) : Except Fault State := do
  let u ← s.uri
  let s ← (if s.cfg.responsetimeout * 1000 ≤ delay then responseTimeout s u else pure s)
  if s.cfg.worktimeout < (s.clock - s.job.currentTimestamp) / 1000 then dropEndpoint s else pure s

/-- Whether the watchdog closes a socket while a connection is made or ended, and which. -/
def watchPending (s : State) (delay : Nat) : Except Fault (Option Nat) :=
  if s.isPendingState && decide (delay ≤ s.cfg.responsetimeout * 1000) then
    if s.flags.connecting then do
      let i ← deref s.sock.socket
      pure (some i)
    else do
      let u ← s.uri
      if u.secure then do
        let i ← deref s.sock.secure
        pure (if s.isOpen i then some i else none)
      else pure none
  else .ok none

/-- The checks of `workloop_timer_elapsed` while responses are outstanding. The first one that
closes a socket is the last, and the timer is not started again. -/
def watch (s : State) : Except Fault State := do
  let delay := s.clock - s.pleas.older
  let closed ← watchPending s delay
  match closed with
  | some i => pure { s.closeSocket i with timer := .idle }
  | none => if s.isConnected then watchConnection s delay else pure s

/-- `workloop_timer_elapsed` (`StratumClient.cpp:330-411`). -/
def workloopTimerElapsed (s : State) : Except Fault State :=
  if s.pleas.count ≠ 0 then watch s else .ok s

/-- The `mining.submit` request. -/
def submitRequest (s : State) (u : Uri) (solution : Solution) (transaction : String) : Value :=
  .object ([("id", .int 4), ("jsonrpc", .string "2.0"), ("method", .string "mining.submit"),
    ("params", .array ([u.user, solution.getJobName, solution.getExtraNonce2, solution.getTime,
      solution.getNonce, String.ofList solution.getHashMix.getHex, transaction,
      String.ofList solution.work.hashMerkleRoot.getHex].map .string))] ++
    if s.worker ≠ "" then [("worker", .string s.worker)] else [])

/-- `submitSolution` (`StratumClient.cpp:940-985`). -/
def submitSolution (s : State) (solution : Solution) : Except Fault State :=
  if !s.flags.subscribed || !s.flags.authorized then .ok s
  else if !s.job.current.eqv solution.work then .ok s
  else if PARALLEL_REQUEST_LIMIT < s.pleas.count then onSolutionAnswered s
  else do
    let u ← s.uri
    match solution.getBlockTransaction with
    | none => .error .workException
    | some transaction =>
      sendSocketData (s.enqueueResponsePlea (some 4)) (submitRequest s u solution transaction)

/-- The callback `onSolutionFound` of the manager (`PoolManager.cpp:79-90`). -/
def onSolutionFound (s : State) (solution : Solution) : Except Fault State :=
  if s.isConnected then submitSolution s solution else .ok s

end Energiminer.Stratum
