import Energiminer.Common.Serialize
import Energiminer.Primitives.Sha256

/-!
# Transactions

The transactions of `primitives/transaction.{h,cpp}` and how they are written to and read from a
stream. The fields that are kept in memory only and that nothing reads, `CTxIn::prevPubKey` and
`CTxOut::nRounds`, are left out. The hash of a transaction is kept with it, and is brought up to
date when the transaction is read.
-/

namespace Energiminer.Primitives
open Misc Misc.Codec Common

variable {σ : Type} [ByteStream σ Failure]

namespace Uint256

/-- `base_blob::Serialize` (`uint256.h:108-112`). -/
def serialize (u : Uint256) : List Byte := u.data.toList

/-- `base_blob::Unserialize` (`uint256.h:114-118`). -/
def unserialize : Into σ Failure Uint256 := Into.assign do
  let bytes ← ByteStream.read 32
  pure (ofBytes bytes)

end Uint256

/-- `COutPoint` (`transaction.h:21-25`). -/
structure COutPoint where
  hash : Uint256
  n : BitVec 32
  deriving DecidableEq

namespace COutPoint

/-- `COutPoint()`. -/
def new : COutPoint := ⟨Uint256.null, -1⟩

/-- `COutPoint::SerializationOp` (`transaction.h:32-36`). -/
def serialize (p : COutPoint) : List Byte := p.hash.serialize ++ leBytes 4 p.n

def unserialize : Into σ Failure COutPoint :=
  (Into.field hash ({ · with hash := · }) Uint256.unserialize).andThen <|
  Into.field n ({ · with n := · }) (Into.assign (readWord 4))

end COutPoint

/-- `CTxIn` (`transaction.h:64-70`). -/
structure CTxIn where
  prevout : COutPoint
  scriptSig : List Byte
  nSequence : BitVec 32
  deriving DecidableEq

namespace CTxIn

/-- `CTxIn()`. -/
def new : CTxIn := ⟨COutPoint.new, [], 0xffffffff⟩

/-- `sizeof(CTxIn)`. -/
def sizeof : Nat := 104

/-- `CTxIn::SerializationOp` (`transaction.h:109-114`). -/
def serialize (i : CTxIn) : List Byte :=
  i.prevout.serialize ++ serializeBytes i.scriptSig ++ leBytes 4 i.nSequence

def unserialize : Into σ Failure CTxIn :=
  (Into.field prevout ({ · with prevout := · }) COutPoint.unserialize).andThen <|
  (Into.field scriptSig ({ · with scriptSig := · }) unserializeBytes).andThen <|
  Into.field nSequence ({ · with nSequence := · }) (Into.assign (readWord 4))

end CTxIn

/-- `CTxOut` (`transaction.h:139-144`). -/
structure CTxOut where
  nValue : BitVec 64
  scriptPubKey : List Byte
  deriving DecidableEq

namespace CTxOut

/-- `CTxOut()`. -/
def new : CTxOut := ⟨-1, []⟩

/-- `sizeof(CTxOut)`. -/
def sizeof : Nat := 48

/-- `CTxOut::SerializationOp` (`transaction.h:155-159`). -/
def serialize (o : CTxOut) : List Byte := leBytes 8 o.nValue ++ serializeBytes o.scriptPubKey

def unserialize : Into σ Failure CTxOut :=
  (Into.field nValue ({ · with nValue := · }) (Into.assign (readWord 8))).andThen <|
  Into.field scriptPubKey ({ · with scriptPubKey := · }) unserializeBytes

end CTxOut

/-- `CTransaction` (`transaction.h:216-243`), with the hash it keeps. -/
structure CTransaction where
  hash : Uint256
  nVersion : BitVec 32
  vin : List CTxIn
  vout : List CTxOut
  nLockTime : BitVec 32
  deriving DecidableEq

namespace CTransaction

/-- `CTransaction()`. -/
def new : CTransaction := ⟨Uint256.null, 1, [], [], 0⟩

/-- `sizeof(CTransaction)`. -/
def sizeof : Nat := 96

/-- `CTransaction::SerializationOp` (`transaction.h:255-264`). -/
def serialize (tx : CTransaction) : List Byte :=
  leBytes 4 tx.nVersion ++ serializeVector CTxIn.serialize tx.vin ++
    serializeVector CTxOut.serialize tx.vout ++ leBytes 4 tx.nLockTime

/-- `UpdateHash` (`transaction.cpp:99-102`). -/
def updateHash (tx : CTransaction) : CTransaction :=
  { tx with hash := Sha256.hash256 tx.serialize }

/-- `Unserialize` (`transaction.h:255-264`); the hash is brought up to date only after all fields
are read. -/
def unserialize : Into σ Failure CTransaction :=
  (Into.field nVersion ({ · with nVersion := · }) (Into.assign (readWord 4))).andThen <|
  (Into.field vin ({ · with vin := · })
    (unserializeVector CTxIn.sizeof CTxIn.new CTxIn.unserialize)).andThen <|
  (Into.field vout ({ · with vout := · })
    (unserializeVector CTxOut.sizeof CTxOut.new CTxOut.unserialize)).andThen <|
  (Into.field nLockTime ({ · with nLockTime := · }) (Into.assign (readWord 4))).andThen <|
  Into.update updateHash

end CTransaction

end Energiminer.Primitives
