import Energiminer.Misc.Blocks
import Energiminer.Primitives.Hasher
import Mathlib.Data.Nat.Basic

/-!
# Hashing piece by piece

A hasher stands for the bytes that were written to it: their whole chunks are in the state, the rest
is in the buffer, and their number is known modulo 2^64. It makes no difference how the bytes are
cut. `Finalize` writes the padding like any other bytes, and so leaves a hasher that stands for the
padded message.
-/

namespace Energiminer.Primitives
open Misc Misc.Blocks Sha256

theorem take_memcpy {dst : List Byte} {offset : Nat} (h : offset ≤ dst.length) (src : List Byte) :
    (memcpy dst offset src).take (offset + src.length) = dst.take offset ++ src := by
  have hlength : (dst.take offset ++ src).length = offset + src.length := by
    rw [List.length_append, List.length_take, Nat.min_eq_left h]
  rw [memcpy, ← hlength, List.take_left]

theorem length_memcpy {dst src : List Byte} {offset : Nat}
    (h : offset + src.length ≤ dst.length) : (memcpy dst offset src).length = dst.length := by
  simp only [memcpy, List.length_append, List.length_take, List.length_drop]
  omega

namespace CSHA256

/-- The hasher stands for a message. -/
structure Holds (h : CSHA256) (message : List Byte) : Prop where
  state : h.s = (absorb transform 64 initialState message).1
  rest : h.buf.take (message.length % 64) = (absorb transform 64 initialState message).2
  bytes : h.bytes = BitVec.ofNat 64 message.length
  length : h.buf.length = 64

variable {h : CSHA256} {message : List Byte}

theorem holds_new (buf : Vector Byte 64) : (new buf).Holds [] :=
  ⟨rfl, rfl, rfl, Vector.length_toList⟩

theorem holds_reset (hlength : h.buf.length = 64) : h.reset.Holds [] := ⟨rfl, rfl, rfl, hlength⟩

theorem Holds.bufsize (hh : h.Holds message) : h.bufsize = message.length % 64 := by
  rw [CSHA256.bufsize, hh.bytes, BitVec.toNat_ofNat]
  omega

theorem Holds.inUse (hh : h.Holds message) :
    h.buf.take h.bufsize = (absorb transform 64 initialState message).2 := by
  rw [hh.bufsize]
  exact hh.rest

theorem processChunks_eq {fuel : Nat} {data : List Byte} (hfuel : data.length ≤ fuel)
    (h : CSHA256) :
    processChunks fuel h data =
      ({ h with
          s := (absorb transform 64 h.s data).1
          bytes := h.bytes + BitVec.ofNat 64 (data.length / 64 * 64) },
        (absorb transform 64 h.s data).2) := by
  induction fuel generalizing h data with
  | zero =>
    obtain rfl := List.eq_nil_of_length_eq_zero (Nat.le_zero.mp hfuel)
    rw [processChunks, absorb_of_lt (by decide)]
    simp
  | succ fuel ih =>
    rw [processChunks]
    split
    next hle =>
      have hcount : data.length / 64 * 64 = 64 + (data.drop 64).length / 64 * 64 := by
        rw [List.length_drop]
        omega
      rw [ih (by rw [List.length_drop]; omega), absorb_of_le (by decide) hle, hcount,
        BitVec.ofNat_add, BitVec.add_assoc]
      rfl
    next hlt =>
      rw [absorb_of_lt (Nat.lt_of_not_le hlt), Nat.div_eq_of_lt (Nat.lt_of_not_le hlt)]
      simp

/-- The buffer and the rest together are what the chunks of the message leave. -/
theorem holds_keepRest {bufsize : Nat} {data : List Byte} (hlength : h.buf.length = 64)
    (hbufsize : bufsize ≤ 64) (hstate : h.s = (absorb transform 64 initialState message).1)
    (hrest : h.buf.take bufsize ++ data = (absorb transform 64 initialState message).2)
    (hbytes : h.bytes + BitVec.ofNat 64 data.length = BitVec.ofNat 64 message.length) :
    (h.keepRest bufsize data).Holds message := by
  have hsize : bufsize + data.length = message.length % 64 := by
    have hsize := congrArg List.length hrest
    rw [length_absorb_snd, List.length_append, List.length_take, hlength,
      Nat.min_eq_left hbufsize] at hsize
    exact hsize
  rw [keepRest]
  split
  next =>
    refine ⟨hstate, ?_, hbytes, ?_⟩
    · rw [← hsize, take_memcpy (by omega), hrest]
    · exact (length_memcpy (by omega)).trans hlength
  next hnil =>
    obtain rfl := List.eq_nil_of_length_eq_zero (Nat.eq_zero_of_not_pos hnil)
    rw [List.append_nil] at hrest
    rw [List.length_nil, BitVec.add_zero] at hbytes
    exact ⟨hstate, hsize ▸ hrest, hbytes, hlength⟩

/-- The chunks of the data, and its rest behind what is in the buffer. -/
theorem holds_writeRest {bufsize : Nat} {data : List Byte} (hlength : h.buf.length = 64)
    (hbufsize : bufsize ≤ 64)
    (habsorb : absorb transform 64 initialState message =
      ((absorb transform 64 h.s data).1,
        h.buf.take bufsize ++ (absorb transform 64 h.s data).2))
    (hbytes : h.bytes + BitVec.ofNat 64 data.length = BitVec.ofNat 64 message.length) :
    (h.writeRest bufsize data).Holds message := by
  rw [writeRest, processChunks_eq (le_refl _)]
  refine holds_keepRest hlength hbufsize (by rw [habsorb]) (by rw [habsorb]) ?_
  rw [length_absorb_snd, BitVec.add_assoc, ← BitVec.ofNat_add, Nat.div_add_mod', hbytes]

/-- What is in the buffer and as much of the data as it takes for a chunk. -/
theorem buf_fillBuffer {data : List Byte} (hlength : h.buf.length = 64) (hlt : h.bufsize ≤ 64)
    (hle : 64 ≤ h.bufsize + data.length) :
    (h.fillBuffer data).buf = h.buf.take h.bufsize ++ data.take (64 - h.bufsize) := by
  have htake : (data.take (64 - h.bufsize)).length = 64 - h.bufsize := by
    rw [List.length_take]
    omega
  rw [fillBuffer, memcpy, htake, List.drop_of_length_le (by omega), List.append_nil]

/-- The data completes a chunk with what is in the buffer. -/
theorem holds_fillBuffer (hh : h.Holds message) {data : List Byte}
    (hle : 64 ≤ h.bufsize + data.length) :
    ((h.fillBuffer data).writeRest 0 (data.drop (64 - h.bufsize))).Holds (message ++ data) := by
  have hlt : h.bufsize < 64 := Nat.mod_lt _ (by decide)
  have hbuf := buf_fillBuffer hh.length hlt.le hle
  have hused : (h.buf.take h.bufsize).length = h.bufsize := by
    rw [List.length_take, hh.length]
    omega
  refine holds_writeRest ?_ (by decide) ?_ ?_
  · rw [hbuf, List.length_append, hused, List.length_take]
    omega
  · rw [absorb_append, ← hh.inUse, ← hh.state,
      absorb_of_le (by decide) (by rw [List.length_append, hused]; exact hle),
      List.take_append, List.drop_append, hused, List.take_of_length_le (by omega),
      List.drop_of_length_le (by omega), List.nil_append, List.take_zero, List.nil_append, ← hbuf]
    rfl
  · rw [List.length_append, BitVec.ofNat_add, ← hh.bytes, fillBuffer, BitVec.add_assoc,
      ← BitVec.ofNat_add, List.length_drop, Nat.add_sub_cancel' (by omega)]

theorem holds_write (hh : h.Holds message) (data : List Byte) :
    (h.write data).Holds (message ++ data) := by
  rw [write]
  split
  next hfull => exact holds_fillBuffer hh hfull.2
  next hshort =>
    have hbufsize : h.bufsize < 64 := Nat.mod_lt _ (by decide)
    refine holds_writeRest hh.length hbufsize.le ?_ ?_
    · rw [not_and_or, not_not, Nat.not_le] at hshort
      rw [absorb_append, ← hh.inUse, ← hh.state]
      rcases hshort with hzero | hlt
      · rw [hzero, List.take_zero, List.nil_append, List.nil_append]
      · -- nothing is complete, so the data only joins what is in the buffer
        have hused : (h.buf.take h.bufsize ++ data).length < 64 := by
          rw [List.length_append, List.length_take]
          omega
        rw [absorb_of_lt hused, absorb_of_lt (by omega)]
    · rw [List.length_append, BitVec.ofNat_add, hh.bytes]

theorem padding_eq (hh : h.Holds message) :
    pad.take (1 + (119 - h.bufsize) % 64) ++ (leBytes 8 (h.bytes <<< 3)).reverse =
      padding message.length := by
  have hmark : pad.take (1 + (119 - h.bufsize) % 64) =
      0x80 :: List.replicate ((119 - h.bufsize) % 64) 0 := by
    have hlt : (119 - h.bufsize) % 64 < 64 := Nat.mod_lt _ (by decide)
    rw [pad, Nat.add_comm, List.take_succ_cons, List.take_replicate, Nat.min_eq_left (by omega)]
  have hbits : h.bytes <<< 3 = BitVec.ofNat 64 (8 * message.length) := by
    rw [hh.bytes]
    apply BitVec.eq_of_toNat_eq
    rw [BitVec.toNat_shiftLeft, BitVec.toNat_ofNat, BitVec.toNat_ofNat, Nat.shiftLeft_eq]
    omega
  rw [hmark, hbits, hh.bufsize, padding]

theorem chunks_eq (k : Nat) (s : Words) (data : List Byte) :
    chunks k s data = (absorbN transform 64 k s data).1 := by
  induction k generalizing s data with
  | zero => rfl
  | succ k ih => rw [chunks, ih, absorbN]

theorem sha256_eq_digest (message : List Byte) :
    sha256 message =
      digest (absorb transform 64 initialState (message ++ padding message.length)).1 := by
  rw [sha256, chunks_eq]
  rfl

/-- The hash of the message; the hasher goes on with the padding behind it. -/
theorem holds_finalize (hh : h.Holds message) :
    h.finalize.1 = sha256 message ∧
      h.finalize.2.Holds (message ++ padding message.length) := by
  have hpadded := holds_write (holds_write hh (pad.take (1 + (119 - h.bufsize) % 64)))
    (leBytes 8 (h.bytes <<< 3)).reverse
  rw [List.append_assoc, padding_eq hh] at hpadded
  refine ⟨?_, hpadded⟩
  rw [sha256_eq_digest, ← hpadded.state]
  rfl

/-- The hashes of the messages that the calls are about. -/
def digests : List Byte → List Call → List (List Byte)
  | _, [] => []
  | message, .write data :: calls => digests (message ++ data) calls
  | message, .finalize :: calls =>
    sha256 message :: digests (message ++ padding message.length) calls
  | _, .reset :: calls => digests [] calls

theorem run_of_holds (hh : h.Holds message) (calls : List Call) :
    h.run calls = digests message calls := by
  induction calls generalizing h message with
  | nil => rfl
  | cons call calls ih =>
    cases call with
    | write data => exact ih (holds_write hh data)
    | finalize =>
      obtain ⟨hdigest, hafter⟩ := holds_finalize hh
      rw [run, digests, hdigest, ih hafter]
    | reset => exact ih (holds_reset hh.length)

/-- However a message is cut into pieces, whatever the buffer held before, and whatever the hasher
was used for before: `Finalize` gives the hash of all that was written since the last `Reset`, the
padding of a `Finalize` in between included. -/
theorem run_eq_digests (buf : Vector Byte 64) (calls : List Call) :
    (new buf).run calls = digests [] calls :=
  run_of_holds (holds_new buf) calls

end CSHA256

end Energiminer.Primitives
