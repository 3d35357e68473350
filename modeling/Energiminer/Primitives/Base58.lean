import Energiminer.Misc.Radix
import Energiminer.Primitives.Script
import Energiminer.Primitives.Transaction

/-!
# Base 58 and addresses

`EncodeBase58`, `DecodeBase58`, `DecodeBase58Check`, `CBase58Data` and `CBitcoinAddress` of
`primitives/base58.{h,cpp}`, as far as an address is read, and the script that pays to it
(`transaction.cpp:12-17`). The buffers are kept with the last entry first, the end at which the
loops over them begin. The leading zeros are counted, and the sizes of the buffers are kept, in an
`int`. Where the product in a size would leave 64 bits, the `int` is too small for the input in any
case.
-/

namespace Energiminer.Primitives
open Misc Common

/-- What ends a conversion. -/
inductive Base58Failure
  /-- `assert(carry == 0)` fails -/
  | assertion
  /-- `std::length_error` of a buffer whose size is negative -/
  | lengthError
  /-- the number of leading zeros overflows -/
  | overflow
  deriving DecidableEq

/-- A size as it is kept in an `int`. -/
def intOf (n : Nat) : Int := (BitVec.ofNat 32 n).toInt

/-- `std::vector<unsigned char>(size)`, where a negative size is one that no vector has. -/
def allocate (size : Int) : Except Base58Failure (List Nat) :=
  if size < 0 then .error .lengthError else .ok (List.replicate size.toNat 0)

/-- `zeroes++` for each of the leading zeros. -/
def countZeroes (n : Nat) : Except Base58Failure Nat :=
  if n < 2 ^ 31 then .ok n else .error .overflow

/-- All alphanumeric characters except for "0", "I", "O", and "l". -/
def pszBase58 : List Char :=
  "123456789ABCDEFGHJKLMNPQRSTUVWXYZabcdefghijkmnopqrstuvwxyz".toList

/-- The loop of `DecodeBase58` over the characters up to a blank: the buffer, the number of bytes of
it in use, and the text that is left; nothing where a character is not in the alphabet. -/
def decodeChars (b256 : List Nat) (length : Nat) :
    List Char → Except Base58Failure (Option (List Nat × Nat × List Char))
  | [] => .ok (some (b256, length, []))
  | c :: psz =>
    if isSpace c then .ok (some (b256, length, c :: psz))
    else
      match pszBase58.idxOf? c with
      | none => .ok none
      | some ch =>
        let r := Radix.mulAdd 256 58 length 0 ch b256
        if r.2.2 = 0 then decodeChars r.1 r.2.1 psz else .error .assertion

/-- `size` of `DecodeBase58` (`base58.cpp:23`), for a text of the length. -/
def decodeSize (length : Nat) : Int := intOf (length * 733 % 2 ^ 64 / 1000 + 1)

/-- The end of `DecodeBase58` (`base58.cpp:46-57`): blanks, and the bytes without leading zeros. -/
def decodeResult (zeroes : Nat) : Option (List Nat × Nat × List Char) → Option (List Byte)
  | none => none
  | some (b256, length, psz) =>
    if psz.dropWhile isSpace ≠ [] then none
    else
      let bytes := (b256.take length).reverse.dropWhile (· = 0)
      some (List.replicate zeroes 0 ++ bytes.map (BitVec.ofNat 8))

/-- `DecodeBase58` (`base58.cpp:10-58`): the bytes, if it returns true. -/
def decodeBase58 (psz : List Char) : Except Base58Failure (Option (List Byte)) := do
  let psz := psz.dropWhile isSpace
  let zeroes ← countZeroes (psz.takeWhile (· = '1')).length
  let psz := psz.dropWhile (· = '1')
  let b256 ← allocate (decodeSize psz.length)
  let decoded ← decodeChars b256 0 psz
  pure (decodeResult zeroes decoded)

/-- The loop of `EncodeBase58` over the bytes: the buffer and the number of digits of it in use. -/
def encodeBytes (b58 : List Nat) (length : Nat) :
    List Byte → Except Base58Failure (List Nat × Nat)
  | [] => .ok (b58, length)
  | ch :: bytes =>
    let r := Radix.mulAdd 58 256 length 0 ch.toNat b58
    if r.2.2 = 0 then encodeBytes r.1 r.2.1 bytes else .error .assertion

/-- `size` of `EncodeBase58` (`base58.cpp:70`), for as many bytes. -/
def encodeSize (length : Nat) : Int := intOf (length * 138 / 100 + 1)

/-- `EncodeBase58` (`base58.cpp:60-98`). -/
def encodeBase58 (vch : List Byte) : Except Base58Failure (List Char) := do
  let zeroes ← countZeroes (vch.takeWhile (· = 0)).length
  let bytes := vch.dropWhile (· = 0)
  let b58 ← allocate (encodeSize bytes.length)
  let encoded ← encodeBytes b58 0 bytes
  let digits := (encoded.1.take encoded.2).reverse.dropWhile (· = 0)
  pure (List.replicate zeroes '1' ++ digits.map fun d => pszBase58.getD d '\x00')

/-- The first four bytes of the double hash. -/
def checksum (payload : List Byte) : List Byte := (Sha256.hash256 payload).serialize.take 4

/-- The bytes before the four of the checksum, if it is right. -/
def withoutChecksum (vch : List Byte) : Option (List Byte) :=
  if vch.length < 4 then none
  else if checksum (vch.take (vch.length - 4)) = vch.drop (vch.length - 4) then
    some (vch.take (vch.length - 4))
  else none

/-- `DecodeBase58Check` (`base58.cpp:119-134`): the bytes without the checksum, if it returns true. -/
def decodeBase58Check (psz : List Char) : Except Base58Failure (Option (List Byte)) := do
  let decoded ← decodeBase58 psz
  pure (decoded.bind withoutChecksum)

/-- `CBase58Data` (`base58.h:65-90`). -/
structure CBase58Data where
  vchVersion : List Byte
  vchData : List Byte
  deriving DecidableEq

/-- `CBase58Data::SetString` (`base58.cpp:160-175`), and whether it returns true. -/
def CBase58Data.setString (psz : List Char) (nVersionBytes : Nat) :
    Except Base58Failure (CBase58Data × Bool) := do
  let decoded ← decodeBase58Check psz
  match decoded with
  | none => pure (⟨[], []⟩, false)
  | some vchTemp =>
    if vchTemp.length < nVersionBytes then pure (⟨[], []⟩, false)
    else pure (⟨vchTemp.take nVersionBytes, vchTemp.drop nVersionBytes⟩, true)

/-- The bytes of a `CKeyID`. -/
abbrev CKeyID := Vector Byte 20

namespace CBitcoinAddress

/-- `CBitcoinAddress(strAddress)` (`base58.h:104-107`), with the one version byte that `SetString`
takes by default. -/
def new (strAddress : String) : Except Base58Failure CBase58Data := do
  let (address, _) ← CBase58Data.setString (cStr strAddress.toList) 1
  pure address

/-- `IsValid` (`base58.cpp:202-205`). -/
def isValid (address : CBase58Data) : Bool := decide (address.vchData.length = 20)

/-- `GetKeyID` (`base58.cpp:207-215`): the key, if it returns true. -/
def getKeyID (address : CBase58Data) : Option CKeyID :=
  if isValid address then some (Vector.ofFn fun i => address.vchData.getD i.val 0) else none

end CBitcoinAddress

/-- `GetScriptForDestination` (`transaction.cpp:12-17`): `OP_DUP OP_HASH160 <keyID> OP_EQUALVERIFY
OP_CHECKSIG`. -/
def getScriptForDestination (keyID : CKeyID) : List Byte :=
  pushBytes [0x76, 0xa9] keyID.toList ++ [0x88, 0xac]

end Energiminer.Primitives
