import Energiminer.Stratum.Buffers

/-!
# Message framing

The reads of a sequence of connections. The lines of a stream do not depend on how it is cut into
segments: the bytes taken from the buffer so far always end at a line feed (`Framed`), so what was
handed on and what still waits in the buffer are together the lines of the stream. This needs the
buffer to be empty when the connection starts, and nothing empties it there.
-/

namespace Energiminer.Stratum
open Misc Misc.Json

/-- What happens on the receiving side over a sequence of connections. -/
inductive ReadEvent
  /-- a connection is established and reading starts -/
  | established
  /-- the socket delivers a segment -/
  | segment (bytes : List Byte)
  /-- the read completes, the buffer holding a line feed -/
  | completed
  /-- the connection is no longer up: an error, the end of the stream or a disconnect -/
  | lost

/-- The receiving side and whether `isConnected()`. -/
structure ReadState where
  recv : RecvSide
  up : Bool

/-- Before the first connection. -/
def ReadState.initial : ReadState := ⟨⟨[], [], []⟩, false⟩

variable (jReader : List Byte → Option Value)

def readStep (s : ReadState) : ReadEvent → ReadState
  | .established => ⟨s.recv.established, true⟩
  | .segment bytes => ⟨s.recv.segment bytes, s.up⟩
  | .completed => if s.recv.hasLine then ⟨s.recv.completed jReader s.up, s.up⟩ else s
  | .lost => ⟨s.recv, false⟩

def readRun (s : ReadState) (events : List ReadEvent) : ReadState :=
  events.foldl (readStep jReader) s

/-- Every connection is established while `m_recvBuffer` is empty. -/
def StartsEmpty (s : ReadState) : List ReadEvent → Prop
  | [] => True
  | .established :: events => s.recv.buffer = [] ∧ StartsEmpty (readStep jReader s .established) events
  | event :: events => StartsEmpty (readStep jReader s event) events

/-- The complete lines of a stream, after the bytes `line` of the current one. -/
def linesAfter (line : List Byte) : List Byte → List (List Byte)
  | [] => []
  | b :: stream => if b = lineFeed then line :: linesAfter [] stream else linesAfter (line ++ [b]) stream

/-- The complete, newline-terminated lines of a stream. -/
def lines (stream : List Byte) : List (List Byte) := linesAfter [] stream

/-- What the lines of a stream are handed on as: those that are not empty and parse. -/
def messages (stream : List Byte) : List Value := (lines stream).filterMap (messageOf jReader)

/-- On a connection that is up, the values handed on so far and those of the complete lines still
in the buffer are the values of the connection's own stream, each once and in order. -/
def Framed (s : ReadState) : Prop :=
  s.up → messages jReader s.recv.received = s.recv.handed ++ messages jReader s.recv.buffer

theorem linesAfter_append {text : List Byte} (h : lineFeed ∉ text) (line rest : List Byte) :
    linesAfter line (text ++ lineFeed :: rest) = (line ++ text) :: lines rest := by
  induction text generalizing line with
  | nil => simp [linesAfter, lines]
  | cons b text ih =>
    have hne : b ≠ lineFeed := fun heq => h (heq ▸ List.mem_cons_self)
    rw [List.cons_append, linesAfter, if_neg hne,
      ih (fun hmem => h (List.mem_cons_of_mem _ hmem))]
    simp

/-- The line that `getline` takes, with its line feed, and the rest make up the buffer. -/
theorem getline_append {buffer : List Byte} (h : lineFeed ∈ buffer) :
    lineFeed ∉ (getline buffer).1 ∧ (getline buffer).1 ++ lineFeed :: (getline buffer).2 = buffer := by
  induction buffer with
  | nil => cases h
  | cons b buffer ih =>
    by_cases hb : b = lineFeed
    · subst hb
      simp [getline]
    · have hmem : lineFeed ∈ buffer := by
        rcases List.mem_cons.mp h with heq | hmem
        · exact absurd heq.symm hb
        · exact hmem
      obtain ⟨hnot, happ⟩ := ih hmem
      have hcons : getline (b :: buffer) = (b :: (getline buffer).1, (getline buffer).2) := by
        simp [getline, hb]
      rw [hcons]
      refine ⟨?_, by rw [List.cons_append, happ]⟩
      intro hin
      rcases List.mem_cons.mp hin with heq | hin
      · exact hb heq.symm
      · exact hnot hin

/-- The bytes taken from the buffer since the connection started, and what their lines were handed
on as: further bytes do not change these lines. -/
structure Consumed (s : ReadState) (taken : List Byte) : Prop where
  stream : s.recv.received = taken ++ s.recv.buffer
  handed : ∀ rest, messages jReader (taken ++ rest) = s.recv.handed ++ messages jReader rest

theorem Consumed.framed {s : ReadState} {taken : List Byte} (h : Consumed jReader s taken) :
    messages jReader s.recv.received = s.recv.handed ++ messages jReader s.recv.buffer := by
  rw [h.stream, h.handed]

/-- One line more is consumed, and handed on if the connection is up. -/
theorem Consumed.completed {s : ReadState} {taken : List Byte} (h : Consumed jReader s taken)
    (hup : s.up = true) (hline : lineFeed ∈ s.recv.buffer) :
    Consumed jReader ⟨s.recv.completed jReader s.up, s.up⟩
      (taken ++ ((getline s.recv.buffer).1 ++ [lineFeed])) := by
  obtain ⟨hnot, happ⟩ := getline_append hline
  refine ⟨?_, fun rest => ?_⟩
  · change s.recv.received =
      taken ++ ((getline s.recv.buffer).1 ++ [lineFeed]) ++ (getline s.recv.buffer).2
    rw [h.stream]
    conv_lhs => rw [← happ]
    simp
  · have hhanded : (s.recv.completed jReader s.up).handed =
        s.recv.handed ++ (messageOf jReader (getline s.recv.buffer).1).toList := by
      simp [RecvSide.completed, hup]
    have hone : messages jReader ((getline s.recv.buffer).1 ++ lineFeed :: rest) =
        (messageOf jReader (getline s.recv.buffer).1).toList ++ messages jReader rest := by
      rw [messages, lines, linesAfter_append hnot, List.nil_append, List.filterMap_cons]
      cases messageOf jReader (getline s.recv.buffer).1 <;> rfl
    rw [hhanded, List.append_assoc, List.append_assoc, List.append_assoc, List.singleton_append,
      h.handed, hone]

/-- While a connection is up, some bytes have been consumed. -/
def Tracked (s : ReadState) : Prop := s.up → ∃ taken, Consumed jReader s taken

theorem Tracked.step {s : ReadState} (h : Tracked jReader s) {event : ReadEvent}
    (hstart : event = .established → s.recv.buffer = []) :
    Tracked jReader (readStep jReader s event) := by
  cases event with
  | established =>
    intro _
    exact ⟨[], by simp [readStep, RecvSide.established, hstart rfl], fun rest => by
      simp [readStep, RecvSide.established]⟩
  | segment bytes =>
    intro hup
    obtain ⟨taken, hstream, hhanded⟩ := h hup
    refine ⟨taken, ?_, fun rest => ?_⟩
    · simp only [readStep, RecvSide.segment]
      split
      · exact hstream
      · simp [hstream]
    · simp only [readStep, RecvSide.segment]
      split <;> exact hhanded rest
  | completed =>
    simp only [readStep]
    split
    next hline =>
      intro hup
      obtain ⟨taken, htaken⟩ := h hup
      exact ⟨_, htaken.completed jReader hup (of_decide_eq_true hline)⟩
    next => exact h
  | lost => exact fun hup => absurd hup (by simp [readStep])

theorem Tracked.run {s : ReadState} (h : Tracked jReader s) {events : List ReadEvent}
    (hstart : StartsEmpty jReader s events) : Tracked jReader (readRun jReader s events) := by
  induction events generalizing s with
  | nil => exact h
  | cons event events ih =>
    cases event with
    | established => exact ih (h.step jReader fun _ => hstart.1) hstart.2
    | segment bytes | completed | lost => exact ih (h.step jReader fun heq => nomatch heq) hstart

/-- In every run that starts each connection with an empty receive buffer, and so in every state
it passes through, the values handed to `processResponse` from reads on the current connection,
with those of the complete lines still in the buffer, are the values of that connection's own
stream. -/
theorem framed_of_startsEmpty (events : List ReadEvent)
    (hstart : StartsEmpty jReader .initial events) :
    Framed jReader (readRun jReader .initial events) := by
  have hinit : Tracked jReader .initial := fun hup => absurd hup (by simp [ReadState.initial])
  intro hup
  obtain ⟨taken, htaken⟩ := hinit.run jReader hstart hup
  exact htaken.framed jReader

/-- A reader of decimal numbers. -/
def readNumber (text : List Byte) : Option Value :=
  if text.all fun b => 48 ≤ b && b ≤ 57 then
    some (.int (text.foldl (fun n b => 10 * n + (b.toNat - 48 : Nat)) (0 : Nat)))
  else none

/-- Two connections, the first of which ends with a complete line; the second one delivers its
line in two segments. -/
theorem framed_two_connections :
    Framed readNumber (readRun readNumber .initial
      [.established, .segment [49, 10], .completed, .lost,
        .established, .segment [50], .segment [51, 10], .completed]) :=
  framed_of_startsEmpty readNumber _ ⟨rfl, rfl, trivial⟩

/-- The first connection is cut after `1`; the second one delivers the line `2`. What is handed on
from it is the number 12. -/
theorem stale_bytes_join_next_connection :
    ¬ Framed readNumber (readRun readNumber .initial
      [.established, .segment [49], .lost, .established, .segment [50, 10], .completed]) := by
  intro h
  have hmessages := h rfl
  have hnumbers : ([.int 2] : List Value) = [.int 12] := hmessages
  simp at hnumbers

end Energiminer.Stratum
