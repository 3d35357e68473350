import Energiminer.Primitives.Sha256

/-!
# Hashers

`CSHA256` (`primitives/sha256.cpp:137-190`) as an object that is written to piece by piece, with
`Transform` as it is modelled for a message in one piece.
The buffer is not initialized. An array has fewer than 2^63 bytes, so that sums of its size and of
the 64 of the buffer do not wrap around; the number of all bytes does.
-/

namespace Energiminer.Primitives
open Misc Sha256

/-- `memcpy(dst + offset, src, size)`. -/
def memcpy (dst : List Byte) (offset : Nat) (src : List Byte) : List Byte :=
  dst.take offset ++ src ++ dst.drop (offset + src.length)

/-- `CSHA256`. -/
structure CSHA256 where
  s : Words
  buf : List Byte
  bytes : BitVec 64

namespace CSHA256

/-- `CSHA256()` (`sha256.cpp:137-140`), with what the buffer happens to hold. -/
def new (buf : Vector Byte 64) : CSHA256 := ⟨initialState, buf.toList, 0⟩

/-- How many bytes of the buffer are in use. -/
def bufsize (h : CSHA256) : Nat := h.bytes.toNat % 64

/-- The buffer is filled, and processed. -/
def fillBuffer (h : CSHA256) (data : List Byte) : CSHA256 :=
  let buf := memcpy h.buf h.bufsize (data.take (64 - h.bufsize))
  { s := transform h.s buf, buf, bytes := h.bytes + BitVec.ofNat 64 (64 - h.bufsize) }

/-- Full chunks are processed directly from the source; with what remains of it. -/
def processChunks : Nat → CSHA256 → List Byte → CSHA256 × List Byte
  | 0, h, data => (h, data)
  | fuel + 1, h, data =>
    if 64 ≤ data.length then
      processChunks fuel { h with s := transform h.s (data.take 64), bytes := h.bytes + 64 }
        (data.drop 64)
    else (h, data)

/-- The buffer is filled with what remains. -/
def keepRest (h : CSHA256) (bufsize : Nat) (data : List Byte) : CSHA256 :=
  if 0 < data.length then
    { h with
      buf := memcpy h.buf bufsize data, bytes := h.bytes + BitVec.ofNat 64 data.length }
  else h

/-- `Write` after the buffer was looked at. -/
def writeRest (h : CSHA256) (bufsize : Nat) (data : List Byte) : CSHA256 :=
  let (h, data) := processChunks data.length h data
  h.keepRest bufsize data

/-- `Write` (`sha256.cpp:142-166`). -/
def write (h : CSHA256) (data : List Byte) : CSHA256 :=
  if h.bufsize ≠ 0 ∧ 64 ≤ h.bufsize + data.length then
    (h.fillBuffer data).writeRest 0 (data.drop (64 - h.bufsize))
  else h.writeRest h.bufsize data

/-- The array `pad` of `Finalize`. -/
def pad : List Byte := 0x80 :: List.replicate 63 0

/-- The eight words, most significant byte first. -/
def digest (s : Words) : List Byte :=
  [s.a, s.b, s.c, s.d, s.e, s.f, s.g, s.h].flatMap fun w => (leBytes 4 w).reverse

/-- `Finalize` (`sha256.cpp:168-183`): the hash, and the object afterwards. -/
def finalize (h : CSHA256) : List Byte × CSHA256 :=
  let sizedesc := (leBytes 8 (h.bytes <<< 3)).reverse
  let h := h.write (pad.take (1 + (119 - h.bufsize) % 64))
  let h := h.write sizedesc
  (digest h.s, h)

/-- `Reset` (`sha256.cpp:185-190`). -/
def reset (h : CSHA256) : CSHA256 := { h with s := initialState, bytes := 0 }

/-- The calls of a hasher. -/
inductive Call
  | write (data : List Byte)
  | finalize
  | reset

/-- The hashes that a sequence of calls gives. -/
def run : CSHA256 → List Call → List (List Byte)
  | _, [] => []
  | h, .write data :: calls => (h.write data).run calls
  | h, .finalize :: calls => h.finalize.1 :: h.finalize.2.run calls
  | h, .reset :: calls => h.reset.run calls

end CSHA256

end Energiminer.Primitives
