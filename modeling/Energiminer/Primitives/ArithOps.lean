import Energiminer.Primitives.ArithUint256
import Energiminer.Misc.Text

/-!
# Arithmetic of 256-bit numbers

The operators of `arith_uint256`, limb by limb as the source runs them: addition with a carry,
negation by complement and increment, both shifts, the products with a 32-bit number and with
another number, and the long division by shifted subtraction; and the compact form of targets, which
rests on them. A sum of a limb, a product of limbs and a carry fits the `uint64_t` of the source.
-/

namespace Energiminer.Primitives
open Misc

namespace ArithUint256

/-- `base_uint(uint64_t)` (`arith_uint256.h:51-57`). -/
def ofUint64 (b : BitVec 64) : ArithUint256 :=
  ⟨#v[b.extractLsb' 0 32, b.extractLsb' 32 32, 0, 0, 0, 0, 0, 0]⟩

/-- The body of the loop of `operator+=`: the limbs and the carry. -/
def addStep (b : Vector (BitVec 32) WIDTH) (st : Vector (BitVec 32) WIDTH × Nat) (i : Nat) :
    Vector (BitVec 32) WIDTH × Nat :=
  let n := st.2 + (cell st.1 i).toNat + (cell b i).toNat
  (writeCell st.1 i (BitVec.ofNat 32 n), n / 2 ^ 32)

/-- `operator+=` (`arith_uint256.h:135-145`). -/
def add (a b : ArithUint256) : ArithUint256 :=
  ⟨((List.range WIDTH).foldl (addStep b.pn) (a.pn, 0)).1⟩

/-- `while (++pn[i] == 0 && i < WIDTH-1) i++;` with `n` limbs left from `i` on. -/
def incrementFrom (pn : Vector (BitVec 32) WIDTH) : (n i : Nat) → Vector (BitVec 32) WIDTH
  | 0, _ => pn
  | n + 1, i =>
    let pn := writeCell pn i (cell pn i + 1)
    if cell pn i = 0 then incrementFrom pn n (i + 1) else pn

/-- Unary `operator-` (`arith_uint256.h:77-84`). -/
def neg (a : ArithUint256) : ArithUint256 := ⟨incrementFrom (a.pn.map (~~~ ·)) WIDTH 0⟩

/-- `operator-=` (`arith_uint256.h:147-151`). -/
def sub (a b : ArithUint256) : ArithUint256 := a.add b.neg

/-- The body of the loop of `operator<<=` for limb `i`. -/
def shiftLeftStep (a : Vector (BitVec 32) WIDTH) (k shift : Nat) (pn : Vector (BitVec 32) WIDTH)
    (i : Nat) : Vector (BitVec 32) WIDTH :=
  let pn := if i + k + 1 < WIDTH ∧ shift ≠ 0 then
      writeCell pn (i + k + 1) (cell pn (i + k + 1) ||| cell a i >>> (32 - shift))
    else pn
  if i + k < WIDTH then writeCell pn (i + k) (cell pn (i + k) ||| cell a i <<< shift) else pn

/-- `operator<<` (`arith_uint256.cpp:20-35`). -/
def shiftLeft (a : ArithUint256) (shift : Nat) : ArithUint256 :=
  ⟨(List.range WIDTH).foldl (shiftLeftStep a.pn (shift / 32) (shift % 32))
    (Vector.replicate WIDTH 0)⟩

/-- `nSize` of `SetCompact`. -/
def compactSize (nCompact : BitVec 32) : Nat := (nCompact >>> 24).toNat

/-- `nWord` of `SetCompact`, as the flags are computed from it. -/
def compactWord (nCompact : BitVec 32) : BitVec 32 :=
  let nWord := nCompact &&& 0x007fffff
  if compactSize nCompact ≤ 3 then nWord >>> (8 * (3 - compactSize nCompact)) else nWord

/-- The flag `*pfNegative` of `SetCompact` (`arith_uint256.cpp:214-215`). -/
def compactNegative (nCompact : BitVec 32) : Bool :=
  compactWord nCompact ≠ 0 && (nCompact &&& 0x00800000) ≠ 0

/-- The flag `*pfOverflow` of `SetCompact` (`arith_uint256.cpp:216-219`). -/
def compactOverflow (nCompact : BitVec 32) : Bool :=
  compactWord nCompact ≠ 0 && (compactSize nCompact > 34 ||
    (compactWord nCompact > 0xff && compactSize nCompact > 33) ||
    (compactWord nCompact > 0xffff && compactSize nCompact > 32))

/-- `SetCompact` (`arith_uint256.cpp:203-221`), without the two flags. -/
def setCompact (nCompact : BitVec 32) : ArithUint256 :=
  let nSize := (nCompact >>> 24).toNat
  let nWord := nCompact &&& 0x007fffff
  if nSize ≤ 3 then ofUint64 ((nWord >>> (8 * (3 - nSize))).setWidth 64)
  else (ofUint64 (nWord.setWidth 64)).shiftLeft (8 * (nSize - 3))

/-- The body of the loop of `operator*=(uint32_t)`: the limbs and the carry. -/
def mulStep (b32 : BitVec 32) (st : Vector (BitVec 32) WIDTH × Nat) (i : Nat) :
    Vector (BitVec 32) WIDTH × Nat :=
  let n := st.2 + b32.toNat * (cell st.1 i).toNat
  (writeCell st.1 i (BitVec.ofNat 32 n), n / 2 ^ 32)

/-- `operator*=(uint32_t)` (`arith_uint256.cpp:54-64`). -/
def mulUint32 (a : ArithUint256) (b32 : BitVec 32) : ArithUint256 :=
  ⟨((List.range WIDTH).foldl (mulStep b32) (a.pn, 0)).1⟩

/-- What `operator*=` refers to by `b`: another number, or the number itself. -/
inductive Operand
  | other (b : ArithUint256)
  | this

/-- The number that the operand is before the operator runs on `a`. -/
def Operand.value (a : ArithUint256) : Operand → ArithUint256
  | .other b => b
  | .this => a

/-- `b.pn[i]`, where the limbs of the number itself are `pn` by now. -/
def Operand.limb (pn : Vector (BitVec 32) WIDTH) (i : Nat) : Operand → BitVec 32
  | .other b => cell b.pn i
  | .this => cell pn i

/-- The body of the inner loop of `operator*=(const base_uint&)` for limb `aj` of the copy. -/
def mulLimbStep (b : Operand) (j : Nat) (aj : BitVec 32) (st : Vector (BitVec 32) WIDTH × Nat)
    (i : Nat) : Vector (BitVec 32) WIDTH × Nat :=
  let n := (st.2 + (cell st.1 (i + j)).toNat + aj.toNat * (b.limb st.1 i).toNat) % 2 ^ 64
  (writeCell st.1 (i + j) (BitVec.ofNat 32 n), n / 2 ^ 32)

/-- The body of the outer loop of `operator*=(const base_uint&)`. -/
def mulRow (a : ArithUint256) (b : Operand) (pn : Vector (BitVec 32) WIDTH) (j : Nat) :
    Vector (BitVec 32) WIDTH :=
  ((List.range (WIDTH - j)).foldl (mulLimbStep b j (cell a.pn j)) (pn, 0)).1

/-- `operator*=(const base_uint&)` (`arith_uint256.cpp:66-80`): the number is copied and set to zero
before `b` is read. -/
def mulAssign (a : ArithUint256) (b : Operand) : ArithUint256 :=
  ⟨(List.range WIDTH).foldl (mulRow a b) (ofUint64 0).pn⟩

/-- The position of the highest bit of a limb that is not zero, plus one: the inner loop of
`bits()`, from bit `n` down. -/
def limbBits (x : BitVec 32) : (n : Nat) → Nat
  | 0 => 1
  | n + 1 => if x.getLsbD (n + 1) then n + 2 else limbBits x n

/-- The outer loop of `bits()`, over the limbs below `pos`. -/
def bitsBelow (pn : Vector (BitVec 32) WIDTH) : (pos : Nat) → Nat
  | 0 => 0
  | pos + 1 =>
    if cell pn pos ≠ 0 then 32 * pos + limbBits (cell pn pos) 31 else bitsBelow pn pos

/-- `bits()` (`arith_uint256.cpp:170-183`). -/
def bits (a : ArithUint256) : Nat := bitsBelow a.pn WIDTH

/-- `pn[shift / 32] |= (1 << (shift & 31))`. -/
def setBit (a : ArithUint256) (shift : Nat) : ArithUint256 :=
  ⟨writeCell a.pn (shift / 32) (cell a.pn (shift / 32) ||| 1 <<< (shift % 32))⟩

/-- The loop of `operator/=` while `shift >= 0`, with `shift + 1` iterations left. -/
def divLoop : (n : Nat) → (num div quot : ArithUint256) → ArithUint256
  | 0, _, _, quot => quot
  | shift + 1, num, div, quot =>
    if 0 ≤ num.compareTo div then divLoop shift (num.sub div) (div.shiftRight 1) (quot.setBit shift)
    else divLoop shift num (div.shiftRight 1) quot

/-- `operator/=` (`arith_uint256.cpp:82-106`). -/
def div (a b : ArithUint256) : Except Exn ArithUint256 :=
  if b.bits = 0 then .error .uintError
  else if a.bits < b.bits then .ok (ofUint64 0)
  else .ok (divLoop (a.bits - b.bits + 1) a (b.shiftLeft (a.bits - b.bits)) (ofUint64 0))

/-- `GetLow64` (`arith_uint256.h:245-249`). -/
def getLow64 (a : ArithUint256) : BitVec 64 :=
  (cell a.pn 0).setWidth 64 ||| (cell a.pn 1).setWidth 64 <<< 32

/-- The mantissa that `GetCompact` takes from a number of `nSize` bytes. -/
def compactMantissa (a : ArithUint256) (nSize : Nat) : BitVec 32 :=
  if nSize ≤ 3 then (a.getLow64 <<< (8 * (3 - nSize))).setWidth 32
  else (a.shiftRight (8 * (nSize - 3))).getLow64.setWidth 32

/-- `GetCompact` (`arith_uint256.cpp:223-244`), none where an assertion fails. -/
def getCompact (a : ArithUint256) (fNegative : Bool) : Option (BitVec 32) :=
  let nSize := (a.bits + 7) / 8
  let nCompact := compactMantissa a nSize
  -- the bit of the sign is cleared by moving the mantissa down a byte
  let signed := (nCompact &&& 0x00800000) ≠ 0
  let nCompact := if signed then nCompact >>> 8 else nCompact
  let nSize := if signed then nSize + 1 else nSize
  if (nCompact &&& ~~~0x007fffff) ≠ 0 then none
  else if ¬ nSize < 256 then none
  else
    let nCompact := nCompact ||| BitVec.ofNat 32 nSize <<< 24
    some (nCompact ||| if fNegative ∧ (nCompact &&& 0x007fffff) ≠ 0 then 0x00800000 else 0)

theorem limbBits_pos (x : BitVec 32) (n : Nat) : 0 < limbBits x n := by
  induction n with
  | zero => exact Nat.one_pos
  | succ n ih =>
    rw [limbBits]
    split
    · exact Nat.succ_pos _
    · exact ih

/-- A number is zero if its highest bit has no position. -/
theorem cell_eq_zero_of_bitsBelow {pn : Vector (BitVec 32) WIDTH} {n : Nat}
    (h : bitsBelow pn n = 0) : ∀ i < n, cell pn i = 0 := by
  induction n with
  | zero => intro i hi; omega
  | succ n ih =>
    rw [bitsBelow] at h
    split at h
    next hne =>
      have := limbBits_pos (cell pn n) 31
      omega
    next heq =>
      intro i hi
      rcases Nat.lt_succ_iff_lt_or_eq.mp hi with hlt | rfl
      · exact ih h i hlt
      · exact not_not.mp heq

/-- Division by a 64-bit number throws only if the number is zero. -/
theorem div_ofUint64_ok (a : ArithUint256) {b : BitVec 64} (hb : b ≠ 0) :
    ∃ q, a.div (ofUint64 b) = .ok q := by
  have hbits : (ofUint64 b).bits ≠ 0 := by
    intro h
    have hlow : b.extractLsb' 0 32 = 0 := cell_eq_zero_of_bitsBelow h 0 (by decide)
    have hhigh : b.extractLsb' 32 32 = 0 := cell_eq_zero_of_bitsBelow h 1 (by decide)
    apply hb
    apply BitVec.eq_of_getLsbD_eq
    intro i hi
    rcases Nat.lt_or_ge i 32 with h32 | h32
    · have := congrArg (fun x => x.getLsbD i) hlow
      simpa [h32] using this
    · have := congrArg (fun x => x.getLsbD (i - 32)) hhigh
      simpa [show i - 32 < 32 by omega, show 32 + (i - 32) = i by omega] using this
  rw [div, if_neg hbits]
  split <;> exact ⟨_, rfl⟩

end ArithUint256

end Energiminer.Primitives
