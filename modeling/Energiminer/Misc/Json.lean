import Energiminer.Misc.Float64
import Energiminer.Misc.Text

/-!
# JSON values of jsoncpp

`Json::Value` with the accessors and conversions that throw when a value has the wrong type.
Signed and unsigned integers are one constructor, since every conversion here depends on the
number only; a real keeps the text that the library renders it as.
-/

namespace Energiminer.Misc.Json

/-- `Json::Value`. The members of an object stand in the order of iteration. -/
inductive Value
  | null
  | int (i : Int)
  | real (x : F64) (text : String)
  | string (s : String)
  | bool (b : Bool)
  | array (elements : List Value)
  | object (members : List (String × Value))

namespace Value

/-- Numbers, texts, truth values and null: what has a text. -/
def isScalar : Value → Bool
  | array _ | object _ => false
  | _ => true

def isNull : Value → Bool
  | null => true
  | _ => false

def isArray : Value → Bool
  | array _ => true
  | _ => false

/-- Null and objects: what has members. -/
def hasMembers : Value → Bool
  | null | object _ => true
  | _ => false

/-- `empty()`. -/
def empty : Value → Bool
  | null => true
  | array elements => elements.isEmpty
  | object members => members.isEmpty
  | _ => false

/-- The text of a scalar. -/
def text : Value → String
  | int i => toString i
  | real _ text => text
  | string s => s
  | bool b => if b then "true" else "false"
  | _ => ""

/-- `asString()`. -/
def asString (v : Value) : Except Exn String :=
  if v.isScalar then .ok v.text else .error .logicError

/-- The `unsigned int` a value converts to. -/
def uintOf : Value → Option Nat
  | null => some 0
  | int i => if 0 ≤ i ∧ i < 2 ^ 32 then some i.toNat else none
  | real x _ =>
    if x.lt (F64.ofInt 0) || (F64.ofInt (2 ^ 32 - 1)).lt x then none else some x.trunc.toNat
  | bool b => some (if b then 1 else 0)
  | _ => none

/-- `asUInt()`. -/
def asUInt (v : Value) : Except Exn (BitVec 32) :=
  match v.uintOf with
  | some n => .ok (BitVec.ofNat 32 n)
  | none => .error .logicError

/-- The integer from `least` to `greatest` a value converts to. -/
def integerOf (least greatest : Int) : Value → Option Int
  | null => some 0
  | int i => if least ≤ i ∧ i ≤ greatest then some i else none
  | real x _ =>
    if x.lt (F64.ofInt least) || (F64.ofInt greatest).lt x then none else some x.trunc
  | bool b => some (if b then 1 else 0)
  | _ => none

/-- A conversion to an integer type of `w` bits. -/
def asInteger (w : Nat) (least greatest : Int) (v : Value) : Except Exn (BitVec w) :=
  match v.integerOf least greatest with
  | some i => .ok (BitVec.ofInt w i)
  | none => .error .logicError

/-- `asInt()`. -/
def asInt : Value → Except Exn (BitVec 32) := asInteger 32 (-2 ^ 31) (2 ^ 31 - 1)

/-- `asInt64()`. -/
def asInt64 : Value → Except Exn (BitVec 64) := asInteger 64 (-2 ^ 63) (2 ^ 63 - 1)

/-- `asUInt64()`. -/
def asUInt64 : Value → Except Exn (BitVec 64) := asInteger 64 0 (2 ^ 64 - 1)

/-- The truth value a value converts to. -/
def boolOf : Value → Option Bool
  | null => some false
  | int i => some (i ≠ 0)
  | real x _ => some (x.mant ≠ 0)
  | bool b => some b
  | _ => none

/-- `asBool()`. -/
def asBool (v : Value) : Except Exn Bool :=
  match v.boolOf with
  | some b => .ok b
  | none => .error .logicError

/-- The double a value converts to. -/
def doubleOf : Value → Option F64
  | null => some (F64.ofInt 0)
  | int i => some (F64.ofInt i)
  | real x _ => some x
  | bool b => some (F64.ofInt (if b then 1 else 0))
  | _ => none

/-- `asDouble()`. -/
def asDouble (v : Value) : Except Exn F64 :=
  match v.doubleOf with
  | some x => .ok x
  | none => .error .logicError

/-- The member of a name, if there is one. -/
def member? : Value → String → Option Value
  | object members, key => members.lookup key
  | _, _ => none

/-- The element at an index, if there is one. -/
def element? : Value → Nat → Option Value
  | array elements, i => elements[i]?
  | _, _ => none

/-- `isMember(key)`. -/
def isMember (v : Value) (key : String) : Except Exn Bool :=
  if v.hasMembers then .ok (v.member? key).isSome else .error .logicError

/-- `get(key, defaultValue)`. -/
def get (v : Value) (key : String) (defaultValue : Value) : Except Exn Value :=
  if v.hasMembers then .ok ((v.member? key).getD defaultValue) else .error .logicError

/-- `operator[](key)`. -/
def index (v : Value) (key : String) : Except Exn Value := v.get key null

/-- `get(i, defaultValue)` of an array. -/
def getAt (v : Value) (i : Nat) (defaultValue : Value) : Value := (v.element? i).getD defaultValue

/-- The values that iteration visits: elements, members, or nothing. -/
def values : Value → List Value
  | array elements => elements
  | object members => members.map Prod.snd
  | _ => []

theorem succeeds_asString {v : Value} : Except.Succeeds v.asString ↔ v.isScalar := by
  rw [asString]
  cases v.isScalar <;> simp

theorem succeeds_asUInt {v : Value} : Except.Succeeds v.asUInt ↔ v.uintOf.isSome := by
  rw [asUInt]
  cases v.uintOf <;> simp

theorem succeeds_asBool {v : Value} : Except.Succeeds v.asBool ↔ v.boolOf.isSome := by
  rw [asBool]
  cases v.boolOf <;> simp

end Value

end Energiminer.Misc.Json
