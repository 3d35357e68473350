import Energiminer.Misc.Except

/-!
# Numbers in text

The character classes of the C locale and the conversion of hexadecimal text by `std::stoul`,
with the exceptions it throws.
-/

namespace Energiminer.Misc

/-- The standard exceptions that a conversion of text or of a JSON value throws. -/
inductive Exn
  /-- `Json::LogicError`: the value has the wrong type or is out of range -/
  | logicError
  /-- `std::invalid_argument` -/
  | invalidArgument
  /-- `std::out_of_range` -/
  | outOfRange
  /-- `uint_error`: division by zero -/
  | uintError
  deriving DecidableEq

/-- `isspace` of the C locale. -/
def isSpace (c : Char) : Bool :=
  c = ' ' || (9 ≤ c.toNat && c.toNat ≤ 13)

/-- The value of a hexadecimal digit. -/
def hexValue (c : Char) : Option Nat :=
  if '0' ≤ c ∧ c ≤ '9' then some (c.toNat - '0'.toNat)
  else if 'a' ≤ c ∧ c ≤ 'f' then some (c.toNat - 'a'.toNat + 10)
  else if 'A' ≤ c ∧ c ≤ 'F' then some (c.toNat - 'A'.toNat + 10)
  else none

def isHexDigit (c : Char) : Bool := (hexValue c).isSome

/-- The digit of a value below sixteen, in lower case. -/
def hexDigit (n : Nat) : Char := "0123456789abcdef".toList.getD n '0'

/-- What `c_str` shows to functions that stop at a NUL. -/
def cStr (s : List Char) : List Char := s.takeWhile (· ≠ '\x00')

/-- The number that a list of hexadecimal digits stands for. -/
def hexNumber (digits : List Char) : Nat :=
  digits.foldl (fun n c => 16 * n + (hexValue c).getD 0) 0

/-- What follows an optional sign, and whether it was a minus. -/
def signOf : List Char → Bool × List Char
  | '-' :: text => (true, text)
  | '+' :: text => (false, text)
  | text => (false, text)

/-- Drop `0x` where a digit follows it. -/
def dropHexMark : List Char → List Char
  | '0' :: x :: d :: text =>
    if (x = 'x' || x = 'X') && isHexDigit d then d :: text else '0' :: x :: d :: text
  | text => text

/-- The digits that `strtoul` of base sixteen reads from a text, and whether it negates. -/
def stoulDigits (text : List Char) : Bool × List Char :=
  let (negative, text) := signOf (text.dropWhile isSpace)
  (negative, (dropHexMark text).takeWhile isHexDigit)

/-- The largest `unsigned long`, of 64 bits. -/
def ULONG_MAX : Nat := 0xffffffffffffffff

/-- `std::stoul(text, 0, 16)`. -/
def stoul16 (text : List Char) : Except Exn (BitVec 64) :=
  let (negative, digits) := stoulDigits text
  if digits = [] then .error .invalidArgument
  else if ULONG_MAX < hexNumber digits then .error .outOfRange
  else if negative then .ok (-BitVec.ofNat 64 (hexNumber digits))
  else .ok (BitVec.ofNat 64 (hexNumber digits))

/-- The largest `long`, of 64 bits. -/
def LONG_MAX : Nat := 0x7fffffffffffffff

/-- `std::strtol(text, nullptr, 16)`, which stops at the bounds of a `long` of 64 bits. -/
def strtol16 (text : List Char) : BitVec 64 :=
  let (negative, digits) := stoulDigits text
  if negative then
    if LONG_MAX < hexNumber digits then -BitVec.ofNat 64 (LONG_MAX + 1)
    else -BitVec.ofNat 64 (hexNumber digits)
  else if LONG_MAX < hexNumber digits then BitVec.ofNat 64 LONG_MAX
  else BitVec.ofNat 64 (hexNumber digits)

/-- `std::stoul` reads at least one digit and no number beyond 64 bits. -/
def IsHexNumber (text : List Char) : Prop :=
  (stoulDigits text).2 ≠ [] ∧ hexNumber (stoulDigits text).2 ≤ ULONG_MAX

theorem hexValue_hexDigit {d : Nat} (h : d < 16) : hexValue (hexDigit d) = some d := by
  have hall : ∀ d < 16, hexValue (hexDigit d) = some d := by decide
  exact hall d h

instance (text : List Char) : Decidable (IsHexNumber text) := inferInstanceAs (Decidable (_ ∧ _))

theorem succeeds_stoul16 (text : List Char) : Except.Succeeds (stoul16 text) ↔ IsHexNumber text := by
  rw [IsHexNumber, stoul16, Except.Succeeds]
  by_cases hnil : (stoulDigits text).2 = []
  · simp [hnil]
  · by_cases hbig : ULONG_MAX < hexNumber (stoulDigits text).2
    · have hnot := Nat.not_le.mpr hbig
      simp only [hnil, hbig, hnot, if_true, if_false, and_false, iff_false]
      rintro ⟨_, h⟩
      cases h
    · have hle := Nat.not_lt.mp hbig
      simp only [hnil, hbig, hle, if_false, ne_eq, not_false_eq_true, and_self, iff_true]
      split <;> exact ⟨_, rfl⟩

end Energiminer.Misc
