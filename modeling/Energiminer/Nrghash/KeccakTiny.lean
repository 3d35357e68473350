import Energiminer.Misc.LittleEndian
import Energiminer.Misc.KeccakLanes

/-!
# keccak-tiny

The hash functions of `nrghash/keccak-tiny.c`: the permutation `keccakf` on the twenty-five
64-bit words of the state, and the sponge `hash` on its two hundred bytes. The state is
addressed as bytes by the sponge and as little-endian words by the permutation, as the
source's cast `(uint64_t*)state` does.
-/

namespace Energiminer.Nrghash
open Misc Misc.Keccak

/-- A lane of the CPU implementation. -/
abbrev Word64 := BitVec 64

/-- `rho` of `keccak-tiny.c:23-27`. -/
def rho : List Nat :=
  [1, 3, 6, 10, 15, 21, 28, 36, 45, 55, 2, 14, 27, 41, 56, 8, 25, 43, 62, 18, 39, 61, 20, 44]

/-- `pi` of `keccak-tiny.c:28-32`. -/
def pi : List Nat :=
  [10, 7, 11, 17, 18, 3, 5, 16, 8, 21, 24, 4, 15, 23, 19, 13, 12, 2, 20, 14, 22, 9, 6, 1]

/-- `RC` of `keccak-tiny.c:33-39`. -/
def RC : List Word64 :=
  [0x1, 0x8082, 0x800000000000808a, 0x8000000080008000,
   0x808b, 0x80000001, 0x8000000080008081, 0x8000000000008009,
   0x8a, 0x88, 0x80008009, 0x8000000a,
   0x8000808b, 0x800000000000008b, 0x8000000000008089, 0x8000000000008003,
   0x8000000000008002, 0x8000000000000080, 0x800a, 0x800000008000000a,
   0x8000000080008081, 0x8000000000008080, 0x80000001, 0x8000000080008008]

/-- `rol(x, s)`. -/
def rol (x : Word64) (s : Nat) : Word64 := (x <<< s) ||| (x >>> (64 - s))

/-- The first θ loop: `b[x]` is the parity of column `x`. -/
def thetaB (a : Lanes Word64) (x : Nat) : Word64 :=
  [0, 5, 10, 15, 20].foldl (fun b y => b ^^^ a.get (x + y)) 0

/-- The second θ loop. -/
def thetaStep (a : Lanes Word64) : Lanes Word64 :=
  .ofFn fun i => a.get i ^^^ (thetaB a ((i % 5 + 4) % 5) ^^^ rol (thetaB a ((i % 5 + 1) % 5)) 1)

/-- `a[i] = v`. -/
def setLane (a : Lanes Word64) (i : Nat) (v : Word64) : Lanes Word64 :=
  .ofFn fun j => if j = i then v else a.get j

/-- The ρ and π loop: `b[0] = a[pi[x]]; a[pi[x]] = rol(t, rho[x]); t = b[0]`. -/
def rhoPiLoop : List (Nat × Nat) → Lanes Word64 → Word64 → Lanes Word64
  | [], a, _ => a
  | (p, r) :: rest, a, t => rhoPiLoop rest (setLane a p (rol t r)) (a.get p)

def rhoPiStep (a : Lanes Word64) : Lanes Word64 := rhoPiLoop (pi.zip rho) a a.l1

/-- The χ loop, row `y` by row `y` through the copy `b` of the row. -/
def chiStep (a : Lanes Word64) : Lanes Word64 :=
  .ofFn fun i =>
    let b := fun x => a.get (i / 5 * 5 + x)
    b (i % 5) ^^^ (~~~(b ((i % 5 + 1) % 5)) &&& b ((i % 5 + 2) % 5))

/-- One iteration of the loop of `keccakf`. -/
def keccakfRound (a : Lanes Word64) (rc : Word64) : Lanes Word64 :=
  let a := chiStep (rhoPiStep (thetaStep a))
  { a with l0 := a.l0 ^^^ rc }

/-- `keccakf` of `keccak-tiny.c:51-84`. -/
def keccakf (a : Lanes Word64) : Lanes Word64 := RC.foldl keccakfRound a

/-- The sponge state `uint8_t a[Plen]`. -/
structure Sponge where
  bytes : Vector Byte 200

namespace Sponge

def ofFn (f : Nat → Byte) : Sponge := ⟨Vector.ofFn fun i => f i⟩

/-- `a[i]`; only `i < 200` is ever read. -/
def get (a : Sponge) (i : Nat) : Byte := a.bytes.toArray.getD i 0

theorem get_ofFn (f : Nat → Byte) (i : Nat) (hi : i < 200) : (ofFn f).get i = f i := by
  simp [ofFn, get, hi]

/-- The bytes of the state seen as `uint64_t[25]`. -/
def lanes (a : Sponge) : Lanes Word64 := .ofFn fun k => leWord 64 fun j => a.get (8 * k + j)

/-- `P(a)`: the permutation on the bytes of the state. -/
def P (a : Sponge) : Sponge :=
  let l := keccakf a.lanes
  ofFn fun i => byteOf (l.get (i / 8)) (i % 8)

/-- `a[i] ^= v`. -/
def xorAt (a : Sponge) (i : Nat) (v : Byte) : Sponge :=
  ofFn fun j => if j = i then a.get j ^^^ v else a.get j

/-- `xorin(a, src, len)`. -/
def xorin (a : Sponge) (src : List Byte) (len : Nat) : Sponge :=
  ofFn fun i => if i < len then a.get i ^^^ src.getD i 0 else a.get i

/-- `foldP(in, inlen, xorin)` (`keccak-tiny.c:113-130`): absorb the full blocks; the rest of the
input stays. -/
def foldPXorin (rate : Nat) (a : Sponge) (inp : List Byte) : Sponge × List Byte :=
  if 0 < rate ∧ rate ≤ inp.length then
    foldPXorin rate (a.xorin inp rate).P (inp.drop rate)
  else (a, inp)
termination_by inp.length
decreasing_by simp only [List.length_drop]; omega

/-- `foldP(out, outlen, setout)` (`keccak-tiny.c:139-140`) and the last `setout`: squeeze `outlen`
bytes. -/
def foldPSetout (rate : Nat) (a : Sponge) (outlen : Nat) : List Byte :=
  if 0 < rate ∧ rate ≤ outlen then
    (List.range rate).map a.get ++ foldPSetout rate a.P (outlen - rate)
  else (List.range outlen).map a.get
termination_by outlen

end Sponge

/-- `hash` of `keccak-tiny.c:122-147`; `none` is the return value `-1`. -/
def hash (outlen : Nat) (inp : List Byte) (rate : Nat) (delim : Byte) : Option (List Byte) :=
  if 200 ≤ rate then none
  else
    -- Absorb input.
    let s := Sponge.foldPXorin rate (.ofFn fun _ => 0) inp
    -- Xor in the DS and pad frame.
    let a := (s.1.xorAt s.2.length delim).xorAt (rate - 1) 0x80
    -- Xor in the last block.
    let a := a.xorin s.2 s.2.length
    -- Apply P, then squeeze output.
    some (Sponge.foldPSetout rate a.P outlen)

/-- `defsha3(bits)` (`keccak-tiny.c:155-162`). -/
def sha3 (bits outlen : Nat) (inp : List Byte) : Option (List Byte) :=
  if outlen > bits / 8 then none else hash outlen inp (200 - bits / 4) 0x01

end Energiminer.Nrghash
