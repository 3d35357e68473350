import Energiminer.Misc.LittleEndian

/-!
# Scripts

The pushes of `CScript` (`primitives/script.h:316-462`) that a coinbase script is made with, and
how an operation and the number in it are read back (`script.h:214-239`, `script.h:350-365`,
`script.h:501-560`).
-/

namespace Energiminer.Primitives
open Misc

/-- The bytes of an absolute value, least significant first, without leading zeros. -/
def scriptNumBytes : Nat → Nat → List Byte
  | 0, _ => []
  | fuel + 1, absvalue =>
    if absvalue = 0 then []
    else BitVec.ofNat 8 (absvalue % 256) :: scriptNumBytes fuel (absvalue / 256)

/-- `CScriptNum::serialize` (`script.h:316-347`), with the sign in the highest bit of the last byte. -/
def scriptNumSerialize (value : BitVec 64) : List Byte :=
  if value = 0 then []
  else
    let neg := value.msb
    let result := scriptNumBytes 8 (if neg then (-value).toNat else value.toNat)
    let back := result.getLastD 0
    if back.msb then result ++ [if neg then 0x80 else 0]
    else if neg then result.dropLast ++ [back ||| 0x80]
    else result

/-- `operator<<` (`script.h:435-462`) for a vector of bytes. -/
def pushBytes (script b : List Byte) : List Byte :=
  let size :=
    if b.length < 0x4c then [BitVec.ofNat 8 b.length]
    else if b.length ≤ 0xff then [0x4c, BitVec.ofNat 8 b.length]
    else if b.length ≤ 0xffff then 0x4d :: leBytes 2 (BitVec.ofNat 16 b.length)
    else 0x4e :: leBytes 4 (BitVec.ofNat 32 b.length)
  script ++ size ++ b

/-- `operator<<` (`script.h:376-391`) for an `int64_t`, which has operations of its own for `-1` to
`16`. -/
def pushInt64 (script : List Byte) (n : BitVec 64) : List Byte :=
  if n = -1 ∨ (1 ≤ n.toInt ∧ n.toInt ≤ 16) then script ++ [(n + 0x50).setWidth 8]
  else if n = 0 then script ++ [0]
  else pushBytes script (scriptNumSerialize n)

/-- The `OP_0` and `OP_1` to `OP_16` of `DecodeOP_N` (`script.h:554-560`); its assertion fails for
other codes. -/
def decodeOpN (opcode : Byte) : Option (BitVec 64) :=
  if opcode = 0 then some 0
  else if 0x51 ≤ opcode.toNat ∧ opcode.toNat ≤ 0x60 then some (opcode.setWidth 64 - 0x50)
  else none

/-- The number of bytes behind `OP_PUSHDATA1`, `OP_PUSHDATA2` and `OP_PUSHDATA4` that give the size
of the operand. -/
def sizeWidth (opcode : Byte) : Nat :=
  if opcode = 0x4c then 1 else if opcode = 0x4d then 2 else 4

/-- The size of the operand of a push, and what follows the size. -/
def operandSize (opcode : Byte) (pc : List Byte) : Option (Nat × List Byte) :=
  if opcode.toNat < 0x4c then some (opcode.toNat, pc)
  else if pc.length < sizeWidth opcode then none
  else
    some ((leWord (8 * sizeWidth opcode) fun i => pc.getD i 0).toNat, pc.drop (sizeWidth opcode))

/-- `GetOp2` (`script.h:501-551`) where it returns true: the operation, its operand, and what
follows them. -/
def getOp : List Byte → Option (Byte × List Byte × List Byte)
  | [] => none
  | opcode :: pc =>
    if opcode.toNat ≤ 0x4e then
      match operandSize opcode pc with
      | none => none
      | some (nSize, pc) =>
        if pc.length < nSize then none else some (opcode, pc.take nSize, pc.drop nSize)
    else some (opcode, [], pc)

/-- `CScriptNum::set_vch` (`script.h:350-365`). -/
def setVch (vch : List Byte) : BitVec 64 :=
  let result := leWordAux 64 (vch.getD · 0) vch.length
  if vch = [] then 0
  else if (vch.getLastD 0).msb then
    -(result &&& ~~~((0x80 : BitVec 64) <<< (8 * (vch.length - 1))))
  else result

/-- The last byte has a bit besides the sign, or it is there to keep the sign from one. -/
def isMinimal (vch : List Byte) : Bool :=
  decide (vch.getLastD 0 &&& 0x7f ≠ 0) ||
    (decide (1 < vch.length) && (vch.getD (vch.length - 2) 0).msb)

/-- `CScriptNum(vch, fRequireMinimal, nMaxNumSize)` (`script.h:214-239`), with the text of the
`scriptnum_error`. -/
def scriptNum (vch : List Byte) (fRequireMinimal : Bool) (nMaxNumSize : Nat) :
    Except String (BitVec 64) :=
  if nMaxNumSize < vch.length then .error "script number overflow"
  else if fRequireMinimal && decide (vch ≠ []) && !isMinimal vch then
    .error "non-minimally encoded script number"
  else .ok (setVch vch)

end Energiminer.Primitives
