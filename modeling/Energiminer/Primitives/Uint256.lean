import Energiminer.Misc.Cells
import Energiminer.Misc.LittleEndian
import Energiminer.Misc.Text

/-!
# Opaque 256-bit blobs

`uint256` of `primitives/uint256.h`: thirty-two bytes in the order the type keeps them
internally, least significant first.
-/

namespace Energiminer.Primitives
open Misc

/-- `base_blob<256>::data` (`uint256.h:22`). -/
structure Uint256 where
  data : Vector Byte 32
  deriving DecidableEq

namespace Uint256

/-- `base_blob::SetNull` (`uint256.h:40-43`). -/
def null : Uint256 := ⟨Vector.replicate 32 0⟩

instance : Inhabited Uint256 := ⟨null⟩

/-- `uint256(const nrghash::h256_t&)` (`uint256.h:165-173`): copy to the internal byte order of the
type. -/
def ofH256 (h : Vector Byte 32) : Uint256 := ⟨Vector.ofFn fun i => cell h (31 - i.val)⟩

/-- The blob of 32 bytes. -/
def ofBytes (bytes : List Byte) : Uint256 := ⟨Vector.ofFn fun i => bytes.getD i.val 0⟩

/-- `base_blob::GetHex` (`uint256.cpp:59-67`): two digits a byte, from the last byte to the first. -/
def getHex (u : Uint256) : List Char :=
  u.data.toList.reverse.flatMap fun b => [hexDigit (b.toNat / 16), hexDigit (b.toNat % 16)]

/-- The digits that `SetHex` reads: after blanks and `0x`, up to the first other character. -/
def hexDigits (psz : List Char) : List Char :=
  let psz := psz.dropWhile isSpace
  let psz := match psz with
    | '0' :: x :: rest => if x = 'x' || x = 'X' then rest else psz
    | _ => psz
  psz.takeWhile isHexDigit

/-- `base_blob::SetHex` (`uint256.cpp:69-97`): the last digit is the low half of the first byte;
digits beyond the width are ignored. -/
def setHex (psz : List Char) : Uint256 :=
  let digits := (hexDigits psz).reverse.map fun c => (hexValue c).getD 0
  ⟨Vector.ofFn fun i =>
    BitVec.ofNat 8 (digits.getD (2 * i.val) 0 + 16 * digits.getD (2 * i.val + 1) 0)⟩

end Uint256

end Energiminer.Primitives
