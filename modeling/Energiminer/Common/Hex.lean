import Energiminer.Misc.LittleEndian
import Energiminer.Misc.Text

/-!
# Hexadecimal text

`IsHex`, `ParseHex`, `HexStr` and `HexStrMemory` of `common/utilstrencodings.{h,cpp}`.
-/

namespace Energiminer.Common
open Misc

/-- `IsHex` (`utilstrencodings.cpp:59-67`). -/
def isHex (str : String) : Bool :=
  str.toList.all isHexDigit && decide (0 < str.toList.length) && decide (str.toList.length % 2 = 0)

/-- `ParseHex`, with the first digit of a byte once it is read. Blanks may stand between bytes. -/
def parseHexFrom : Option Nat → List Char → List Byte
  | _, [] => []
  | none, c :: text =>
    if isSpace c then parseHexFrom none text
    else
      match hexValue c with
      | none => []
      | some high => parseHexFrom (some high) text
  | some high, c :: text =>
    match hexValue c with
    | none => []
    | some low => BitVec.ofNat 8 (16 * high + low) :: parseHexFrom none text

/-- `ParseHex` (`utilstrencodings.cpp:69-93`). -/
def parseHex (str : String) : List Byte := parseHexFrom none str.toList

/-- The two digits of a byte, from the table `hexmap`. -/
def hexByte (val : Byte) : List Char := [hexDigit (val.toNat / 16), hexDigit (val.toNat % 16)]

/-- `HexStr` (`utilstrencodings.h:80-103`), without spaces. -/
def hexStr (vch : List Byte) : String := String.ofList (vch.flatMap hexByte)

/-- `HexStrMemory` (`utilstrencodings.h:105-110`) of a `uint32_t`. -/
def hexStrMemory (n : BitVec 32) : String := hexStr (leBytes 4 n)

/-- The text in lower case. -/
def lowerCase (str : String) : String := String.ofList (str.toList.map Char.toLower)

end Energiminer.Common
