import Energiminer.Common.Serialize

/-!
# Data streams

`CDataStream` (`common/streams.h:30-330`), the stream that transactions are decoded from. Its read
position has 32 bits. As long as the data are shorter than that, the stream delivers its bytes in
order; longer data are never read to the end, because only a position at the end clears them.
-/

namespace Energiminer.Common
open Misc Misc.Codec

/-- `CDataStream` (`streams.h:30-48`). -/
structure CDataStream where
  vch : List Byte
  nReadPos : BitVec 32

namespace CDataStream

/-- The bytes from the read position on. -/
def rest (s : CDataStream) : List Byte := s.vch.drop s.nReadPos.toNat

/-- `size()` (`streams.h:122`). -/
def size (s : CDataStream) : Nat := s.vch.length - s.nReadPos.toNat

/-- `memcpy(pch, &vch[nReadPos], nSize)`, and the stream afterwards. -/
def copy (s : CDataStream) (nSize : Nat) (next : CDataStream) :
    Except Failure (List Byte × CDataStream) :=
  if s.nReadPos.toNat + nSize ≤ s.vch.length then .ok (s.rest.take nSize, next)
  else .error .outOfBounds

/-- `read(pch, nSize)` (`streams.h:227-245`): the next position is cut to 32 bits, and at the end
the data are cleared. -/
def read (s : CDataStream) (nSize : Nat) : Except Failure (List Byte × CDataStream) :=
  let nReadPosNext := BitVec.ofNat 32 (s.nReadPos.toNat + nSize)
  if s.vch.length ≤ nReadPosNext.toNat then
    if s.vch.length < nReadPosNext.toNat then .error .endOfData else s.copy nSize ⟨[], 0⟩
  else s.copy nSize ⟨s.vch, nReadPosNext⟩

instance : ByteStream CDataStream Failure := ⟨fun nSize s => s.read nSize⟩

/-- A position inside of data that a position of 32 bits can reach the end of. -/
def Addressable (s : CDataStream) : Prop :=
  s.vch.length < 2 ^ 32 ∧ s.nReadPos.toNat ≤ s.vch.length

/-- Data that can be addressed are delivered in order. -/
instance : LawfulByteStream CDataStream Failure where
  Left s bytes := s.Addressable ∧ s.rest = bytes
  read_ok {s bytes tail} h := by
    obtain ⟨⟨hlen, hpos⟩, hrest⟩ := h
    have hbytes : s.rest.take bytes.length = bytes := by rw [hrest, List.take_left]
    have htail : s.vch.drop (s.nReadPos.toNat + bytes.length) = tail := by
      rw [← List.drop_drop, ← rest, hrest, List.drop_left]
    have hfits : s.nReadPos.toNat + bytes.length ≤ s.vch.length := by
      have hlen := congrArg List.length hrest
      rw [rest, List.length_drop, List.length_append] at hlen
      omega
    have hnext : (BitVec.ofNat 32 (s.nReadPos.toNat + bytes.length)).toNat =
        s.nReadPos.toNat + bytes.length := by
      rw [BitVec.toNat_ofNat, Nat.mod_eq_of_lt (by omega)]
    change ∃ t, s.read bytes.length = .ok (bytes, t) ∧ t.Addressable ∧ t.rest = tail
    simp only [read, hnext, copy, if_pos hfits, hbytes]
    split
    next hend =>
      rw [if_neg (by omega)]
      refine ⟨_, rfl, ⟨by simp, by simp⟩, ?_⟩
      rw [← htail, List.drop_eq_nil_of_le hend]
      rfl
    next hend =>
      refine ⟨_, rfl, ⟨hlen, ?_⟩, ?_⟩
      · change (BitVec.ofNat 32 (s.nReadPos.toNat + bytes.length)).toNat ≤ s.vch.length
        omega
      · rw [rest, hnext, htail]
  read_error {s bytes n} h hn := by
    obtain ⟨-, rfl⟩ := h
    rw [rest, List.length_drop] at hn
    have hover : ¬ s.nReadPos.toNat + n ≤ s.vch.length := by omega
    change ∃ e, s.read n = .error e
    simp only [read, copy, if_neg hover]
    split
    · split <;> exact ⟨_, rfl⟩
    · exact ⟨_, rfl⟩

theorem left_mk {bytes : List Byte} (h : bytes.length < 2 ^ 32) : Left (mk bytes 0) bytes :=
  ⟨⟨h, Nat.zero_le _⟩, rfl⟩

/-- Data too long for the read position are never cleared. -/
theorem preserves_long (bytes : List Byte) (h : 2 ^ 32 ≤ bytes.length) (n : Nat) :
    Preserves (fun s : CDataStream => s.vch = bytes) (ByteStream.read n) := by
  rintro s x t rfl hread
  have hpos := (BitVec.ofNat 32 (s.nReadPos.toNat + n)).isLt
  change s.read n = .ok (x, t) at hread
  rw [read, if_neg (by omega), copy] at hread
  split at hread
  · cases hread
    rfl
  · cases hread

end CDataStream

end Energiminer.Common
