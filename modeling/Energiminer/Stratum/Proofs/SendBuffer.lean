import Energiminer.Stratum.Buffers
import Mathlib.Data.List.Basic

/-!
# What reaches the pool

The calls of `sendSocketData` on one connection, interleaved with completions of earlier writes.
There is one buffer and no queue: a write that starts while another is in flight transmits the
bytes of the other again. What each call adds to the wire is the whole buffer, so the wire holds
the requests exactly once each if and only if every call finds the buffer empty.
-/

namespace Energiminer.Stratum
open Misc Misc.Json

/-- What happens to `m_sendBuffer` during a connection. -/
inductive WriteEvent
  /-- `sendSocketData(jReq)` -/
  | send (jReq : Value)
  /-- the write at this position of those in flight completes -/
  | completed (i : Nat)

variable (jWriter : Value → List Byte)

def writeStep (o : SendSide) : WriteEvent → SendSide
  | .send jReq => o.send (writeRequest jWriter jReq)
  | .completed i => o.completed i

def writeRun (o : SendSide) (events : List WriteEvent) : SendSide :=
  events.foldl (writeStep jWriter) o

/-- The serialised requests of a run, in call order. -/
def requestBytes : List WriteEvent → List Byte
  | [] => []
  | .send jReq :: events => writeRequest jWriter jReq ++ requestBytes events
  | .completed _ :: events => requestBytes events

/-- Every call of `sendSocketData` is made while no write is in flight. -/
def NoOverlap (o : SendSide) : List WriteEvent → Prop
  | [] => True
  | .send jReq :: events =>
    o.inFlight = [] ∧ NoOverlap (o.send (writeRequest jWriter jReq)) events
  | .completed i :: events => NoOverlap (o.completed i) events

/-- Some request is sent. -/
def HasRequest (events : List WriteEvent) : Prop := ∃ jReq, .send jReq ∈ events

/-- Every call of `sendSocketData` finds the buffer empty. -/
def SendsOnEmpty (o : SendSide) : List WriteEvent → Prop
  | [] => True
  | .send jReq :: events =>
    o.buffer = [] ∧ SendsOnEmpty (o.send (writeRequest jWriter jReq)) events
  | .completed i :: events => SendsOnEmpty (o.completed i) events

theorem writeRequest_ne_nil (jReq : Value) : writeRequest jWriter jReq ≠ [] := by
  simp [writeRequest]

theorem wire_send (o : SendSide) (text : List Byte) :
    (o.send text).wire = o.wire ++ (o.buffer ++ text) := rfl

theorem wire_completed (o : SendSide) (i : Nat) : (o.completed i).wire = o.wire := by
  rw [SendSide.completed]
  split <;> rfl

/-- The wire only grows, by at least the requests. -/
theorem le_length_wire (o : SendSide) (events : List WriteEvent) :
    o.wire.length + (requestBytes jWriter events).length ≤
      (writeRun jWriter o events).wire.length := by
  induction events generalizing o with
  | nil => exact Nat.le_refl _
  | cons event events ih =>
    cases event with
    | send jReq =>
      have h := ih (o.send (writeRequest jWriter jReq))
      rw [wire_send] at h
      simp only [List.length_append] at h
      simp only [requestBytes, List.length_append]
      change _ ≤ (writeRun jWriter (o.send (writeRequest jWriter jReq)) events).wire.length
      omega
    | completed i =>
      have h := ih (o.completed i)
      rw [wire_completed] at h
      exact h

/-- The wire holds each request once if and only if each call finds the buffer empty. -/
theorem wire_eq_iff_sendsOnEmpty (o : SendSide) (events : List WriteEvent) :
    (writeRun jWriter o events).wire = o.wire ++ requestBytes jWriter events ↔
      SendsOnEmpty jWriter o events := by
  induction events generalizing o with
  | nil => simp [writeRun, requestBytes, SendsOnEmpty]
  | cons event events ih =>
    cases event with
    | completed i =>
      have h := ih (o.completed i)
      rw [wire_completed] at h
      exact h
    | send jReq =>
      rw [SendsOnEmpty, ← ih]
      change (writeRun jWriter (o.send (writeRequest jWriter jReq)) events).wire =
        o.wire ++ (writeRequest jWriter jReq ++ requestBytes jWriter events) ↔ _
      rw [wire_send]
      constructor
      · intro hwire
        -- the bytes left in the buffer go over the wire again and make it too long
        have hlen := le_length_wire jWriter (o.send (writeRequest jWriter jReq)) events
        rw [hwire, wire_send] at hlen
        simp only [List.length_append] at hlen
        have hempty : o.buffer = [] := List.eq_nil_of_length_eq_zero (by omega)
        exact ⟨hempty, by simp [hwire, hempty]⟩
      · rintro ⟨hempty, hwire⟩
        simp [hwire, hempty]

theorem sendsOnEmpty_of_not_hasRequest {o : SendSide} {events : List WriteEvent}
    (h : ¬ HasRequest events) : SendsOnEmpty jWriter o events := by
  induction events generalizing o with
  | nil => trivial
  | cons event events ih =>
    cases event with
    | send jReq => exact absurd ⟨jReq, List.mem_cons_self⟩ h
    | completed i =>
      exact ih fun ⟨jReq, hmem⟩ => h ⟨jReq, List.mem_cons_of_mem _ hmem⟩

/-- Between calls that do not overlap, either nothing is in flight and the buffer is empty, or
one write is and the buffer is what it transmits. -/
def Tidy (o : SendSide) : Prop :=
  (o.inFlight = [] ∧ o.buffer = []) ∨ (o.inFlight = [o.buffer.length] ∧ o.buffer ≠ [])

theorem Tidy.completed {o : SendSide} (h : Tidy o) (i : Nat) : Tidy (o.completed i) := by
  rcases h with ⟨hfree, hempty⟩ | ⟨hone, hne⟩
  · left
    simp [SendSide.completed, hfree, hempty]
  · cases i with
    | zero => left; simp [SendSide.completed, hone]
    | succ i => right; simp [SendSide.completed, hone, hne]

theorem Tidy.send {o : SendSide} (hempty : o.buffer = []) (hfree : o.inFlight = [])
    {text : List Byte} (htext : text ≠ []) : Tidy (o.send text) := by
  right
  simp [SendSide.send, hempty, hfree, htext]

theorem Tidy.inFlight_eq_nil_iff {o : SendSide} (h : Tidy o) : o.inFlight = [] ↔ o.buffer = [] := by
  rcases h with ⟨hfree, hempty⟩ | ⟨hone, hne⟩
  · simp [hfree, hempty]
  · simp [hone, hne]

/-- From a tidy buffer, calls find it empty exactly if they do not overlap. -/
theorem Tidy.sendsOnEmpty_iff {o : SendSide} (h : Tidy o) (events : List WriteEvent) :
    SendsOnEmpty jWriter o events ↔ NoOverlap jWriter o events := by
  induction events generalizing o with
  | nil => exact Iff.rfl
  | cons event events ih =>
    cases event with
    | completed i => exact ih (h.completed i)
    | send jReq =>
      rw [SendsOnEmpty, NoOverlap, h.inFlight_eq_nil_iff]
      refine and_congr_right fun hempty => ?_
      have hfree := h.inFlight_eq_nil_iff.mpr hempty
      exact ih (Tidy.send hempty hfree (writeRequest_ne_nil jWriter jReq))

theorem not_sendsOnEmpty {o : SendSide} (hfree : o.inFlight = []) (hne : o.buffer ≠ [])
    {events : List WriteEvent} (h : HasRequest events) : ¬ SendsOnEmpty jWriter o events := by
  induction events with
  | nil => obtain ⟨jReq, hmem⟩ := h; cases hmem
  | cons event events ih =>
    cases event with
    | send jReq => exact fun hsends => hne hsends.1
    | completed i =>
      have hsame : o.completed i = o := by simp [SendSide.completed, hfree]
      rw [SendsOnEmpty, hsame]
      obtain ⟨jReq, hmem⟩ := h
      rcases List.mem_cons.mp hmem with heq | hmem
      · cases heq
      · exact ih ⟨jReq, hmem⟩

/-- On a connection that finds `leftover` in the send buffer, the wire holds exactly the serialised
requests, once each and in call order, if and only if no request is sent at all, or `consume(4096)`
empties the buffer and every call of `sendSocketData` is made while no write is in flight. -/
theorem wire_eq_requests_iff (leftover : SendSide) (events : List WriteEvent) :
    (writeRun jWriter leftover.established events).wire = requestBytes jWriter events ↔
      ¬ HasRequest events ∨
        (leftover.buffer.length ≤ 4096 ∧ NoOverlap jWriter leftover.established events) := by
  have hiff := wire_eq_iff_sendsOnEmpty jWriter leftover.established events
  rw [show leftover.established.wire = [] from rfl, List.nil_append] at hiff
  rw [hiff]
  have hempty : leftover.established.buffer = [] ↔ leftover.buffer.length ≤ 4096 :=
    List.drop_eq_nil_iff
  by_cases hreq : HasRequest events
  · rw [← hempty]
    constructor
    · intro hsends
      have hnil : leftover.established.buffer = [] := by
        by_contra hne
        exact not_sendsOnEmpty jWriter rfl hne hreq hsends
      have htidy : Tidy leftover.established := .inl ⟨rfl, hnil⟩
      exact .inr ⟨hnil, (htidy.sendsOnEmpty_iff jWriter events).mp hsends⟩
    · rintro (hno | ⟨hnil, hover⟩)
      · exact absurd hreq hno
      · have htidy : Tidy leftover.established := .inl ⟨rfl, hnil⟩
        exact (htidy.sendsOnEmpty_iff jWriter events).mpr hover
  · exact ⟨fun _ => .inl hreq, fun _ => sendsOnEmpty_of_not_hasRequest jWriter hreq⟩

/-- Two calls with no completion between them, on a fresh connection: the first request goes over
the wire twice. -/
theorem overlapping_writes_duplicate :
    (writeRun (fun jReq => [BitVec.ofNat 8 jReq.text.length]) ⟨[], [], []⟩
      [.send (.string "a"), .send (.string "bc")]).wire = [1, 10, 1, 10, 2, 10] ∧
    requestBytes (fun jReq => [BitVec.ofNat 8 jReq.text.length])
      [.send (.string "a"), .send (.string "bc")] = [1, 10, 2, 10] := by
  decide

end Energiminer.Stratum
