import Mathlib.Data.Multiset.ZeroCons
import Energiminer.Stratum.System

/-!
# The life of a connection

An abstract model of how the client connects and disconnects: its three connection flags, the
attempts that are under way, its socket pointers, the pool it is connected to and the endpoints of
that pool. `Move` lists everything that a step can do to these; modes of the protocol, messages,
pleas and the work are left out.
-/

namespace Energiminer.Stratum
open Misc Misc.Json Primitives

/-- What is under way towards or away from a connection. -/
inductive Token
  | resolve (host : String) (port : BitVec 16)
  | startConnect
  | connect
  | shutdown
  | finalize
  deriving DecidableEq

/-- What an outstanding operation means for the connection. -/
def Pending.token : Pending → Option Token
  | .resolve host port => some (.resolve host port)
  | .startConnect => some .startConnect
  | .connect => some .connect
  | .shutdown => some .shutdown
  | .finalize => some .finalize
  | .disconnect => none
  | .read => none
  | .response _ => none

/-- A pool, as far as a connection to it is concerned. -/
structure Pool where
  host : String
  port : BitVec 16
  secure : Bool
  deriving DecidableEq

def Uri.pool (u : Uri) : Pool := ⟨u.host, u.port, u.secure⟩

/-- The socket pointers. -/
structure Pointers where
  socket : Option Nat
  secure : Option Nat
  nonsecure : Option Nat
  deriving DecidableEq

namespace Pointers

/-- The pointer for a pool with or without encryption. -/
def chosen (p : Pointers) (secure : Bool) : Option Nat := if secure then p.secure else p.nonsecure

/-- The pointer for the pool is set, and `m_socket` points to its socket. -/
structure Ok (p : Pointers) (secure : Bool) : Prop where
  set : (p.chosen secure).isSome
  same : p.socket = p.chosen secure

def init (secure : Bool) (i : Nat) (p : Pointers) : Pointers :=
  if secure then { p with secure := some i, socket := some i }
  else { p with nonsecure := some i, socket := some i }

/-- A socket is made if there is none. -/
def ensure (secure : Bool) (i : Nat) (p : Pointers) : Pointers :=
  if p.socket.isNone then p.init secure i else p

def clear (secure : Bool) (p : Pointers) : Pointers :=
  if secure then { p with secure := none, socket := none }
  else { p with nonsecure := none, socket := none }

end Pointers

/-- The state of the connection. -/
structure Link where
  connected : Bool
  connecting : Bool
  disconnecting : Bool
  tokens : Multiset Token
  ptr : Pointers
  pool : Option Pool
  endpoints : List Endpoint

/-- What is under way. -/
def State.tokens (s : State) : Multiset Token := s.pending.filterMap Pending.token

/-- The connection of a client. -/
def State.link (s : State) : Link where
  connected := s.flags.connected
  connecting := s.flags.connecting
  disconnecting := s.flags.disconnecting
  tokens := s.tokens
  ptr := ⟨s.sock.socket, s.sock.secure, s.sock.nonsecure⟩
  pool := s.uri?.map Uri.pool
  endpoints := s.endpoints

namespace Link

/-- Not connected, and nothing under way. -/
def AtRest (l : Link) : Prop := l.connected = false ∧ l.tokens = 0

/-- Where a socket can be used, it is the one for the pool. -/
structure Ready (l : Link) : Prop where
  pool : l.connected ∨ l.tokens ≠ 0 → ∃ p, l.pool = some p
  live : l.connected ∨ l.connecting ∨ l.disconnecting ∨ .connect ∈ l.tokens ∨ .finalize ∈ l.tokens →
    l.ptr.socket.isSome
  same : ∀ p, l.pool = some p → l.ptr.socket.isSome → l.ptr.Ok p.secure

/-- The end of `disconnect_finalize`, with or without another attempt. -/
def finalized (l : Link) (secure retry : Bool) : Link :=
  { l with
    connected := false
    disconnecting := false
    ptr := l.ptr.clear secure
    tokens := if retry then .startConnect ::ₘ l.tokens else l.tokens }

end Link

/-- Who takes a step: the manager that selects or connects, or anyone else. -/
inductive Mover
  | other
  | select
  | connect
  deriving DecidableEq

def Event.mover : Event → Mover
  | .select => .select
  | .connect => .connect
  | _ => .other

/-- Everything that can happen to a connection in one step. -/
inductive Move : Link → Mover → Link → Prop
  /-- nothing -/
  | stay (l : Link) : Move l .other l
  /-- the manager selects a pool -/
  | select (l : Link) (pool : Option Pool) : Move l .select { l with pool := pool }
  /-- `connect()` returns because an attempt is under way -/
  | connectBusy (l : Link) (h : l.connecting) : Move l .connect l
  /-- `connect()` -/
  | connect (l : Link) {pool : Pool} (i : Nat) (h : l.connecting = false) (hp : l.pool = some pool) :
    Move l .connect { l with
      connected := false, ptr := l.ptr.ensure pool.secure i, endpoints := []
      tokens := .resolve pool.host pool.port ::ₘ l.tokens }
  /-- `resolve_handler` -/
  | resolved (l : Link) {host : String} {port : BitVec 16} {ts : Multiset Token}
      (addresses : List Nat) (ht : l.tokens = .resolve host port ::ₘ ts) :
    Move l .other { l with
      endpoints := l.endpoints ++ addresses.map fun a => Endpoint.mk a host port
      tokens := .startConnect ::ₘ ts }
  /-- `resolve_handler` after an error -/
  | resolveFailed (l : Link) {host : String} {port : BitVec 16} {ts : Multiset Token}
      (ht : l.tokens = .resolve host port ::ₘ ts) :
    Move l .other { l with connected := false, connecting := false, tokens := ts }
  /-- `start_connect()` while an attempt is under way or without an endpoint -/
  | startIgnored (l : Link) {ts : Multiset Token} (ht : l.tokens = .startConnect ::ₘ ts)
      (h : l.connecting ∨ l.endpoints = []) :
    Move l .other { l with tokens := ts }
  /-- `start_connect()` -/
  | start (l : Link) {ts : Multiset Token} {pool : Pool} {e : Endpoint} {es : List Endpoint} (i : Nat)
      (ht : l.tokens = .startConnect ::ₘ ts) (h : l.connecting = false)
      (he : l.endpoints = e :: es) (hp : l.pool = some pool) :
    Move l .other { l with
      connecting := true, ptr := l.ptr.ensure pool.secure i, tokens := .connect ::ₘ ts }
  /-- `connect_handler` after an error -/
  | connectFailed (l : Link) {ts : Multiset Token} {e : Endpoint} {es : List Endpoint}
      (ht : l.tokens = .connect ::ₘ ts) (he : l.endpoints = e :: es) :
    Move l .other { l with connecting := false, endpoints := es, tokens := .startConnect ::ₘ ts }
  /-- `connect_handler` after an error of the handshake -/
  | handshakeFailed (l : Link) {ts : Multiset Token} (ht : l.tokens = .connect ::ₘ ts) :
    Move l .other { l with connecting := false, tokens := ts }
  /-- `connect_handler` -/
  | established (l : Link) {ts : Multiset Token} (ht : l.tokens = .connect ::ₘ ts)
      (hs : l.ptr.socket.isSome) :
    Move l .other { l with connecting := false, connected := true, tokens := ts }
  /-- `disconnect()` without a socket -/
  | disconnectStuck (l : Link) (hc : l.connected) (hd : l.disconnecting = false)
      (hs : l.ptr.socket = none) :
    Move l .other { l with disconnecting := true }
  /-- `disconnect()` with encryption -/
  | shutdown (l : Link) {pool : Pool} (hc : l.connected) (hd : l.disconnecting = false)
      (hp : l.pool = some pool) :
    Move l .other { l with disconnecting := true, tokens := .shutdown ::ₘ l.tokens }
  /-- `disconnect()` without encryption -/
  | disconnected (l : Link) {pool : Pool} (retry : Bool) (hc : l.connected)
      (hd : l.disconnecting = false) (hp : l.pool = some pool) (hsec : pool.secure = false) :
    Move l .other (l.finalized pool.secure retry)
  /-- `onSSLShutdownCompleted` -/
  | shutdownDone (l : Link) {ts : Multiset Token} (ht : l.tokens = .shutdown ::ₘ ts) :
    Move l .other { l with tokens := .finalize ::ₘ ts }
  /-- `disconnect_finalize()` -/
  | finalize (l : Link) {ts : Multiset Token} {pool : Pool} (retry : Bool)
      (ht : l.tokens = .finalize ::ₘ ts) (hp : l.pool = some pool) :
    Move l .other ({ l with tokens := ts }.finalized pool.secure retry)
  /-- the watchdog gives up endpoints of a connection -/
  | dropped (l : Link) (n : Nat) (hc : l.connected) : Move l .other { l with endpoints := l.endpoints.drop n }

end Energiminer.Stratum
