import Energiminer.Misc.Json
import Energiminer.Misc.LittleEndian

/-!
# The buffers of the stratum client

`m_sendBuffer` and `m_recvBuffer` of `StratumClient`, one of each for all connections
(`StratumClient.cpp:484-489`, `987-1078`). Of the network library is assumed that `async_write` on
a buffer transmits the bytes that are readable when it starts and consumes them when it completes,
and that `async_read_until` completes once the buffer holds a line feed.
-/

namespace Energiminer.Stratum
open Misc Misc.Json

/-- The line feed. -/
def lineFeed : Byte := 10

/-- `m_sendBuffer` with what becomes of it on the current connection. -/
structure SendSide where
  /-- the readable bytes -/
  buffer : List Byte
  /-- for each `async_write` that has not completed, the bytes it transmits -/
  inFlight : List Nat
  /-- the bytes put on the wire of the connection -/
  wire : List Byte

namespace SendSide

/-- A connection is established: `m_sendBuffer.consume(4096)`. -/
def established (o : SendSide) : SendSide := ⟨o.buffer.drop 4096, [], []⟩

/-- `os << text` and `async_write` (`StratumClient.cpp:1049-1063`). -/
def send (o : SendSide) (text : List Byte) : SendSide :=
  let buffer := o.buffer ++ text
  ⟨buffer, o.inFlight ++ [buffer.length], o.wire ++ buffer⟩

/-- The write at position `i` of those in flight completes and its bytes are consumed
(`StratumClient.cpp:1065-1078`). -/
def completed (o : SendSide) (i : Nat) : SendSide :=
  match o.inFlight[i]? with
  | some n => ⟨o.buffer.drop n, o.inFlight.eraseIdx i, o.wire⟩
  | none => o

end SendSide

/-- `m_jWriter.write(jReq)`: the text of the value and a line feed, which the writer adds. -/
def writeRequest (jWriter : Value → List Byte) (jReq : Value) : List Byte := jWriter jReq ++ [lineFeed]

/-- `getline`: the bytes before the first line feed, and what follows it. -/
def getline (buffer : List Byte) : List Byte × List Byte :=
  (buffer.takeWhile (· ≠ lineFeed), (buffer.dropWhile (· ≠ lineFeed)).drop 1)

/-- What a line is handed on as: nothing if it is empty or not JSON. -/
def messageOf (jReader : List Byte → Option Value) (message : List Byte) : Option Value :=
  if message = [] then none else jReader message

/-- `m_recvBuffer` with what came in and what was handed on during the current connection. -/
structure RecvSide where
  buffer : List Byte
  /-- the bytes read from the socket of the connection -/
  received : List Byte
  /-- the values handed to `processResponse` from reads on the connection -/
  handed : List Value

namespace RecvSide

/-- A connection is established; nothing is done to `m_recvBuffer`. -/
def established (r : RecvSide) : RecvSide := ⟨r.buffer, [], []⟩

/-- The buffer holds a line feed. -/
def hasLine (r : RecvSide) : Bool := decide (lineFeed ∈ r.buffer)

/-- `async_read_until` takes a segment from the socket, if the buffer holds no line feed yet. -/
def segment (r : RecvSide) (bytes : List Byte) : RecvSide :=
  if r.hasLine then r
  else { r with buffer := r.buffer ++ bytes, received := r.received ++ bytes }

/-- `onRecvSocketDataCompleted` without an error: take a line, and hand it on if connected. -/
def completed (jReader : List Byte → Option Value) (connected : Bool) (r : RecvSide) : RecvSide :=
  let line := getline r.buffer
  let handed := if connected then r.handed ++ (messageOf jReader line.1).toList else r.handed
  { r with buffer := line.2, handed := handed }

end RecvSide

end Energiminer.Stratum
