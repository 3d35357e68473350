import Energiminer.Primitives.Work
import Energiminer.Stratum.Buffers
import Energiminer.Stratum.Difficulty

/-!
# The state of the stratum client and its manager

`StratumClient`, the `PoolManager` that drives it and the part of `MinePlant` they share
(`StratumClient.h`, `PoolClient.h`, `PoolManager.h`). Sockets are objects with a number; the raw
pointer `m_socket` and the two shared pointers hold such numbers. Operations that were started and
handlers that were posted wait in `pending`.
-/

namespace Energiminer.Stratum
open Misc Misc.Json Primitives

/-- `SecureLevel`. -/
inductive SecureLevel
  | none
  | tls12
  | tls
  deriving DecidableEq

/-- `URI` (`PoolURI.h:9-56`): a pool, with what the client finds out about it. -/
structure Uri where
  host : String
  port : BitVec 16
  user : String
  pass : String
  path : String
  secLevel : SecureLevel
  version : Nat
  stratumMode : Nat := 999
  stratumModeConfirmed : Bool := false
  unrecoverable : Bool := false
  deriving DecidableEq

/-- Whether a pool needs the socket with encryption. -/
def Uri.secure (u : Uri) : Bool := decide (u.secLevel ≠ .none)

/-- `StratumProtocol`. -/
def STRATUM : Nat := 0
def NRGPROXY : Nat := 1
def ENERGISTRATUM : Nat := 2

/-- An address of a host, with the host and the port that the resolver was asked for. -/
structure Endpoint where
  address : Nat
  host : String
  port : BitVec 16
  deriving DecidableEq

/-- Where the program leaves what C++ defines, or an exception leaves a handler. -/
inductive Fault
  /-- an exception that nothing catches -/
  | threw (e : Exn)
  /-- a double out of the range of the integer it is converted to -/
  | undefinedConversion
  /-- a null socket pointer is used -/
  | nullSocket
  /-- `m_conn` is null or points past the pools -/
  | nullConn
  /-- `pop` of an empty queue -/
  | emptyQueue
  /-- an element of a vector that does not exist -/
  | badIndex
  /-- `boost::system::system_error`: an operation on a socket that is not open -/
  | systemError
  /-- `WorkException` of a solution without a valid work -/
  | workException
  deriving DecidableEq

/-- Operations outstanding and handlers posted on the `io_service`. -/
inductive Pending
  | resolve (host : String) (port : BitVec 16)
  | startConnect
  | connect
  | disconnect
  | shutdown
  | finalize
  | read
  | response (responseObject : Value)

/-- The atomic flags of the client. -/
structure Flags where
  connected : Bool := false
  connecting : Bool := false
  disconnecting : Bool := false
  canconnect : Bool := false
  subscribed : Bool := false
  authorized : Bool := false
  authpending : Bool := false
  deriving DecidableEq

/-- The sockets of the client. -/
structure Sockets where
  /-- `m_socket` -/
  socket : Option Nat := none
  /-- `m_securesocket` -/
  secure : Option Nat := none
  /-- `m_nonsecuresocket` -/
  nonsecure : Option Nat := none
  /-- the number of the next socket -/
  next : Nat := 0
  /-- the sockets that are open -/
  opened : List Nat := []
  /-- every use so far found the pointer for the pool's level set, and `m_socket` at it -/
  matched : Bool := true
  deriving DecidableEq

/-- A plea for a response: the id of the request, if it is for one, and when it was made. -/
structure Plea where
  request : Option (BitVec 32)
  time : Nat
  deriving DecidableEq

/-- The responses the client waits for: their number, the time of the oldest, and all times. -/
structure Pleas where
  count : Nat := 0
  older : Nat := 0
  times : List Nat := []
  /-- the pleas since all were last cleared that the pool has not answered -/
  unanswered : List Plea := []
  deriving DecidableEq

/-- The job of the client. -/
structure Job where
  current : Work
  currentTimestamp : Nat
  nextWorkTarget : ArithUint256
  extraNonce1 : String
  deriving DecidableEq

/-- `m_workloop_timer`: no wait that ends, or one. -/
inductive WorkloopTimer
  | idle
  | armed
  deriving DecidableEq

/-- Where the thread of the manager stands in an iteration of `trun`. -/
inductive Phase
  /-- before the test of the client's state -/
  | start
  /-- after it, about to select a pool -/
  | checked
  /-- after `setConnection`, about to call `connect` -/
  | selected
  deriving DecidableEq

/-- `PoolManager`. -/
structure Manager where
  running : Bool := true
  connectionAttempt : Nat := 0
  maxConnectionAttempts : Nat
  activeConnectionIdx : Nat := 0
  failoverTimeout : Nat := 0
  failoverArmed : Bool := false
  phase : Phase := .start
  deriving DecidableEq

/-- The part of `MinePlant` that clients see. -/
structure Plant where
  work : Work
  isMining : Bool
  /-- every work that was handed to the miners -/
  delivered : List Work := []
  deriving DecidableEq

/-- `MinePlant::setWork`: the work is stored also if it has not changed. -/
def Plant.setWork (p : Plant) (work : Work) : Plant :=
  { p with work := work, delivered := work :: p.delivered }

/-- `MinePlant::resetWork`. -/
def Plant.resetWork (p : Plant) : Plant := { p with work := p.work.reset }

/-- What is fixed when the client is built. -/
structure Config where
  worktimeout : Nat
  responsetimeout : Nat
  projectNameWithVersion : String
  jWriter : Value → List Byte
  jReader : List Byte → Option Value

/-- The client, its manager, the plant and the clock, in milliseconds (`StratumClient.h:17-118`). -/
structure State where
  cfg : Config
  flags : Flags
  sock : Sockets
  /-- `m_conn`, as a position in `connections` -/
  conn : Option Nat
  /-- `m_connections` of the manager -/
  connections : List Uri
  endpoints : List Endpoint
  endpoint : Option Endpoint
  user : String
  worker : String
  pleas : Pleas
  timer : WorkloopTimer
  out : SendSide
  recv : RecvSide
  job : Job
  manager : Manager
  plant : Plant
  pending : List Pending
  clock : Nat

/-- The client as it is built, with the pools of the manager. -/
def State.initial (cfg : Config) (connections : List Uri) (maxTries failoverTimeout : Nat) :
    State where
  cfg := cfg
  flags := {}
  sock := {}
  conn := none
  connections := connections
  endpoints := []
  endpoint := none
  user := ""
  worker := ""
  pleas := {}
  timer := .idle
  out := ⟨[], [], []⟩
  recv := ⟨[], [], []⟩
  job := ⟨.blank, 0, DIFF1_TARGET, ""⟩
  manager := { maxConnectionAttempts := maxTries, failoverTimeout := failoverTimeout }
  plant := ⟨.blank, false, []⟩
  pending := []
  clock := 0

namespace State

/-- `isPendingState()` (`StratumClient.h:37-40`). -/
def isPendingState (s : State) : Bool := s.flags.connecting || s.flags.disconnecting

/-- `isConnected()` (`StratumClient.h:32-35`). -/
def isConnected (s : State) : Bool := s.flags.connected && !s.isPendingState

/-- The pool that `m_conn` points to. -/
def uri? (s : State) : Option Uri := s.conn.bind fun i => s.connections[i]?

/-- `*m_conn`. -/
def uri (s : State) : Except Fault Uri :=
  match s.uri? with
  | some u => .ok u
  | none => .error .nullConn

/-- Change the pool that `m_conn` points to. -/
def modifyUri (s : State) (f : Uri → Uri) : State :=
  match s.conn with
  | some i => { s with connections := s.connections.modify i f }
  | none => s

/-- `MarkUnrecoverable()` (`PoolURI.h:40`). -/
def markUnrecoverable (s : State) : State :=
  s.modifyUri fun u => { u with unrecoverable := true }

/-- `SetStratumMode(mode, confirmed)` (`PoolURI.h:31-35`). -/
def setStratumMode (s : State) (mode : Nat) (confirmed : Bool) : State :=
  s.modifyUri fun u => { u with stratumMode := mode, stratumModeConfirmed := confirmed }

/-- `SetStratumMode(mode)`. -/
def lowerStratumMode (s : State) (mode : Nat) : State :=
  s.modifyUri fun u => { u with stratumMode := mode }

/-- `m_io_service.post`, or the start of an operation. -/
def post (s : State) (p : Pending) : State := { s with pending := s.pending ++ [p] }

/-- The shared pointer that the pool's level chooses. -/
def chosen (s : State) (u : Uri) : Option Nat :=
  if u.secure then s.sock.secure else s.sock.nonsecure

/-- The chosen shared pointer is set and `m_socket` points to its socket. -/
def socketOk (s : State) (u : Uri) : Bool := (s.chosen u).isSome && decide (s.sock.socket = s.chosen u)

/-- A socket is used while `m_conn` points to `u`: remember whether it was the right one. -/
def markUse (s : State) (u : Uri) : State :=
  { s with sock.matched := s.sock.matched && s.socketOk u }

/-- Use of a pointer to a socket. -/
def deref (p : Option Nat) : Except Fault Nat :=
  match p with
  | some i => .ok i
  | none => .error .nullSocket

def isOpen (s : State) (i : Nat) : Bool := decide (i ∈ s.sock.opened)

def openSocket (s : State) (i : Nat) : State := { s with sock.opened := i :: s.sock.opened }

def closeSocket (s : State) (i : Nat) : State :=
  { s with sock.opened := s.sock.opened.filter (· ≠ i) }

/-- `clear_response_pleas()` (`StratumClient.cpp:1115-1125`). -/
def clearResponsePleas (s : State) : State := { s with pleas := ⟨0, s.clock, [], []⟩ }

/-- `enqueue_response_plea()` (`StratumClient.cpp:1086-1095`), for the request with the id if there
is one. -/
def enqueueResponsePlea (s : State) (request : Option (BitVec 32)) : State :=
  { s with pleas :=
    { count := s.pleas.count + 1
      older := if s.pleas.count = 0 then s.clock else s.pleas.older
      times := s.pleas.times ++ [s.clock]
      unanswered := s.pleas.unanswered ++ [⟨request, s.clock⟩] } }

/-- `dequeue_response_plea()` (`StratumClient.cpp:1097-1113`), without the delay it returns for the
log. -/
def dequeueResponsePlea (s : State) : State :=
  { s with pleas :=
    { s.pleas with
      count := s.pleas.count - 1
      older := s.pleas.times.headD s.pleas.older
      times := s.pleas.times.drop 1 } }

/-- The pool has answered the oldest request with the id. -/
def answered (s : State) (id : BitVec 32) : State :=
  { s with pleas.unanswered := s.pleas.unanswered.eraseP fun p => decide (p.request = some id) }

/-- `m_endpoints.pop()`. -/
def popEndpoint (s : State) : Except Fault State :=
  match s.endpoints with
  | [] => .error .emptyQueue
  | _ :: rest => .ok { s with endpoints := rest }

/-- The pool that the manager has made active. -/
def activeUri (s : State) : Except Fault Uri :=
  match s.connections[s.manager.activeConnectionIdx]? with
  | some u => .ok u
  | none => .error .badIndex

theorem uri_eq_ok_iff {s : State} {u : Uri} : s.uri = .ok u ↔ s.uri? = some u := by
  rw [uri]
  cases s.uri? <;> simp

@[simp] theorem uri?_modifyUri (s : State) (f : Uri → Uri) : (s.modifyUri f).uri? = s.uri?.map f := by
  rw [modifyUri, uri?, uri?]
  cases hconn : s.conn with
  | none => simp [hconn]
  | some i => simp [List.getElem?_modify]

end State

end Energiminer.Stratum
