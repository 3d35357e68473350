import Energiminer.Misc.Codec

/-!
# Serialization

The templates of `common/serialize.h` that transactions and blocks use: compact sizes
(`serialize.h:262-317`) and vectors (`serialize.h:641-788`). They are generic in the stream. An
exception of a stream or of a template is a `Failure`.
-/

namespace Energiminer.Common
open Misc Misc.Codec

/-- What ends a read. -/
inductive Failure
  /-- the end of the data -/
  | endOfData
  /-- bytes past the end are copied -/
  | outOfBounds
  /-- "non-canonical ReadCompactSize()" -/
  | nonCanonical
  /-- "ReadCompactSize(): size too large" -/
  | tooLarge
  deriving DecidableEq

/-- A list of bytes as a stream. -/
instance : LawfulByteStream (List Byte) Failure := listStream .endOfData

/-- `MAX_SIZE` (`serialize.h:26`). -/
def MAX_SIZE : Nat := 0x02000000

/-- `WriteCompactSize` (`serialize.h:262-285`). -/
def writeCompactSize (nSize : Nat) : List Byte :=
  if nSize < 253 then leBytes 1 (BitVec.ofNat 8 nSize)
  else if nSize ≤ 0xffff then leBytes 1 (253 : BitVec 8) ++ leBytes 2 (BitVec.ofNat 16 nSize)
  else if nSize ≤ 0xffffffff then leBytes 1 (254 : BitVec 8) ++ leBytes 4 (BitVec.ofNat 32 nSize)
  else leBytes 1 (255 : BitVec 8) ++ leBytes 8 (BitVec.ofNat 64 nSize)

section Read
variable {σ α : Type} [ByteStream σ Failure]

/-- A size of `n` bytes, which is refused if fewer bytes would have done. -/
def readLongSize (n least : Nat) : Reader σ Failure Nat := do
  let nSizeRet ← (do let word ← readWord n; pure word.toNat)
  if nSizeRet < least then throw .nonCanonical else pure nSizeRet

/-- The size that starts with the byte `chSize`. -/
def readSizeAfter (chSize : BitVec 8) : Reader σ Failure Nat :=
  if chSize.toNat < 253 then pure chSize.toNat
  else if chSize = 253 then readLongSize 2 253
  else if chSize = 254 then readLongSize 4 0x10000
  else readLongSize 8 0x100000000

/-- `ReadCompactSize` (`serialize.h:287-317`). -/
def readCompactSize : Reader σ Failure Nat := do
  let nSizeRet ← (do let chSize ← readWord 1; readSizeAfter chSize)
  if MAX_SIZE < nSizeRet then throw .tooLarge else pure nSizeRet

/-- `is.read` into `n` bytes that were just made, and are zero. -/
def readInto (n : Nat) : Into σ Failure (List Byte) := fun _ =>
  Into.assign (ByteStream.read n) (List.replicate n 0)

/-- `Unserialize_impl` (`serialize.h:756-770`) for a vector of bytes, which reads at most 5000000 of
them at once. -/
def unserializeBytes : Into σ Failure (List Byte) :=
  (Into.update fun _ => []).andThen <| Into.after readCompactSize fun nSize =>
    Into.chunks readInto (1 + 4999999 / 1) nSize nSize

/-- `Unserialize_impl` (`serialize.h:772-788`) for a vector of values of `sizeofT` bytes of memory
each; `new` is `T()`. -/
def unserializeVector (sizeofT : Nat) (new : α) (unserialize : Into σ Failure α) :
    Into σ Failure (List α) :=
  (Into.update fun _ => []).andThen <| Into.after readCompactSize fun nSize =>
    Into.chunks (Into.many unserialize new) (5000000 / sizeofT) nSize nSize

end Read

/-- `Serialize_impl` (`serialize.h:733-739`) for a vector of bytes. -/
def serializeBytes (v : List Byte) : List Byte := writeCompactSize v.length ++ v

/-- `Serialize_impl` (`serialize.h:741-747`) for a vector of values. -/
def serializeVector {α : Type} (serialize : α → List Byte) (v : List α) : List Byte :=
  writeCompactSize v.length ++ v.flatMap serialize

end Energiminer.Common
