import Energiminer.Devices.Mixing

/-!
# The CUDA permutations

`keccak_f1600_init` and `keccak_f1600_final` of `libnrghash-cuda/keccak.cuh`. Both run the
twenty-two middle rounds in full. The first round uses what is known of the padded block in
its θ sums; the last round of each computes only the lanes that are read afterwards.
-/

namespace Energiminer.Cuda
open Misc Misc.Keccak Nrghash Devices

/-- The two builds of `ROL2`, by `__CUDA_ARCH__`. -/
inductive Arch where
  | sm35
  | older
  deriving DecidableEq, Repr

/-- `ROL2` (`cuda_helper.h:689-719`). -/
def rol2 : Arch → Uint2 → Nat → Uint2
  | .sm35 => rol2Shf
  | .older => rol2Shift

/-- `keccak_round_constants`. -/
def keccakRoundConstants : List Word64 :=
  [0x0000000000000001, 0x0000000000008082, 0x800000000000808A,
   0x8000000080008000, 0x000000000000808B, 0x0000000080000001,
   0x8000000080008081, 0x8000000000008009, 0x000000000000008A,
   0x0000000000000088, 0x0000000080008009, 0x000000008000000A,
   0x000000008000808B, 0x800000000000008B, 0x8000000000008089,
   0x8000000000008003, 0x8000000000008002, 0x8000000000000080,
   0x000000000000800A, 0x800000008000000A, 0x8000000080008081,
   0x8000000000008080, 0x0000000080000001, 0x8000000080008008]

/-- `vectorize(keccak_round_constants[i])`. -/
def roundConstant (i : Nat) : Uint2 := .ofUlong (keccakRoundConstants.getD i 0)

def xor5 (a b c d e : Uint2) : Uint2 := a ^^^ b ^^^ c ^^^ d ^^^ e

def xor3 (a b c : Uint2) : Uint2 := a ^^^ b ^^^ c

/-- `chi(a, b, c)`. -/
def chi3 (a b c : Uint2) : Uint2 := a ^^^ b.andNot c

/-- The array `t` of column parities. -/
structure Columns where
  t0 : Uint2
  t1 : Uint2
  t2 : Uint2
  t3 : Uint2
  t4 : Uint2

/-- The parities of a full state. -/
def columns (s : Lanes Uint2) : Columns where
  t0 := xor5 s.l0 s.l5 s.l10 s.l15 s.l20
  t1 := xor5 s.l1 s.l6 s.l11 s.l16 s.l21
  t2 := xor5 s.l2 s.l7 s.l12 s.l17 s.l22
  t3 := xor5 s.l3 s.l8 s.l13 s.l18 s.l23
  t4 := xor5 s.l4 s.l9 s.l14 s.l19 s.l24

section
variable (arch : Arch)

/-- The θ statements after the parities. -/
def addColumns (t : Columns) (s : Lanes Uint2) : Lanes Uint2 :=
  let u := t.t4 ^^^ rol2 arch t.t1 1
  let s := { s with
    l0 := s.l0 ^^^ u, l5 := s.l5 ^^^ u, l10 := s.l10 ^^^ u, l15 := s.l15 ^^^ u, l20 := s.l20 ^^^ u }
  let u := t.t0 ^^^ rol2 arch t.t2 1
  let s := { s with
    l1 := s.l1 ^^^ u, l6 := s.l6 ^^^ u, l11 := s.l11 ^^^ u, l16 := s.l16 ^^^ u, l21 := s.l21 ^^^ u }
  let u := t.t1 ^^^ rol2 arch t.t3 1
  let s := { s with
    l2 := s.l2 ^^^ u, l7 := s.l7 ^^^ u, l12 := s.l12 ^^^ u, l17 := s.l17 ^^^ u, l22 := s.l22 ^^^ u }
  let u := t.t2 ^^^ rol2 arch t.t4 1
  let s := { s with
    l3 := s.l3 ^^^ u, l8 := s.l8 ^^^ u, l13 := s.l13 ^^^ u, l18 := s.l18 ^^^ u, l23 := s.l23 ^^^ u }
  let u := t.t3 ^^^ rol2 arch t.t0 1
  { s with
    l4 := s.l4 ^^^ u, l9 := s.l9 ^^^ u, l14 := s.l14 ^^^ u, l19 := s.l19 ^^^ u, l24 := s.l24 ^^^ u }

/-- The ρ and π statements. -/
def rhoPiSteps (s : Lanes Uint2) : Lanes Uint2 :=
  let u := s.l1
  let s := { s with l1 := rol2 arch s.l6 44 }
  let s := { s with l6 := rol2 arch s.l9 20 }
  let s := { s with l9 := rol2 arch s.l22 61 }
  let s := { s with l22 := rol2 arch s.l14 39 }
  let s := { s with l14 := rol2 arch s.l20 18 }
  let s := { s with l20 := rol2 arch s.l2 62 }
  let s := { s with l2 := rol2 arch s.l12 43 }
  let s := { s with l12 := rol2 arch s.l13 25 }
  let s := { s with l13 := rol2 arch s.l19 8 }
  let s := { s with l19 := rol2 arch s.l23 56 }
  let s := { s with l23 := rol2 arch s.l15 41 }
  let s := { s with l15 := rol2 arch s.l4 27 }
  let s := { s with l4 := rol2 arch s.l24 14 }
  let s := { s with l24 := rol2 arch s.l21 2 }
  let s := { s with l21 := rol2 arch s.l8 55 }
  let s := { s with l8 := rol2 arch s.l16 45 }
  let s := { s with l16 := rol2 arch s.l5 36 }
  let s := { s with l5 := rol2 arch s.l3 28 }
  let s := { s with l3 := rol2 arch s.l18 21 }
  let s := { s with l18 := rol2 arch s.l17 15 }
  let s := { s with l17 := rol2 arch s.l11 10 }
  let s := { s with l11 := rol2 arch s.l7 6 }
  let s := { s with l7 := rol2 arch s.l10 3 }
  { s with l10 := rol2 arch u 1 }

/-- The χ statements. -/
def chiSteps (s : Lanes Uint2) : Lanes Uint2 :=
  let u := s.l0
  let v := s.l1
  let s := { s with l0 := chi3 s.l0 s.l1 s.l2 }
  let s := { s with l1 := chi3 s.l1 s.l2 s.l3 }
  let s := { s with l2 := chi3 s.l2 s.l3 s.l4 }
  let s := { s with l3 := chi3 s.l3 s.l4 u }
  let s := { s with l4 := chi3 s.l4 u v }
  let u := s.l5
  let v := s.l6
  let s := { s with l5 := chi3 s.l5 s.l6 s.l7 }
  let s := { s with l6 := chi3 s.l6 s.l7 s.l8 }
  let s := { s with l7 := chi3 s.l7 s.l8 s.l9 }
  let s := { s with l8 := chi3 s.l8 s.l9 u }
  let s := { s with l9 := chi3 s.l9 u v }
  let u := s.l10
  let v := s.l11
  let s := { s with l10 := chi3 s.l10 s.l11 s.l12 }
  let s := { s with l11 := chi3 s.l11 s.l12 s.l13 }
  let s := { s with l12 := chi3 s.l12 s.l13 s.l14 }
  let s := { s with l13 := chi3 s.l13 s.l14 u }
  let s := { s with l14 := chi3 s.l14 u v }
  let u := s.l15
  let v := s.l16
  let s := { s with l15 := chi3 s.l15 s.l16 s.l17 }
  let s := { s with l16 := chi3 s.l16 s.l17 s.l18 }
  let s := { s with l17 := chi3 s.l17 s.l18 s.l19 }
  let s := { s with l18 := chi3 s.l18 s.l19 u }
  let s := { s with l19 := chi3 s.l19 u v }
  let u := s.l20
  let v := s.l21
  let s := { s with l20 := chi3 s.l20 s.l21 s.l22 }
  let s := { s with l21 := chi3 s.l21 s.l22 s.l23 }
  let s := { s with l22 := chi3 s.l22 s.l23 s.l24 }
  let s := { s with l23 := chi3 s.l23 s.l24 u }
  { s with l24 := chi3 s.l24 u v }

/-- A round whose column parities are given. -/
def roundFrom (t : Columns) (s : Lanes Uint2) (i : Nat) : Lanes Uint2 :=
  let s := chiSteps (rhoPiSteps arch (addColumns arch t s))
  { s with l0 := s.l0 ^^^ roundConstant i }

/-- The loop `for (int i = 1; i < 23; i++)` of both functions. -/
def middleRounds (s : Lanes Uint2) : Lanes Uint2 :=
  (List.range 22).foldl (fun s i => roundFrom arch (columns s) s (i + 1)) s

/-! ## `keccak_f1600_init` -/

/-- The block of the header and the nonce. -/
def initBlock (header : H256) (nonce : Uint2) : Lanes Uint2 :=
  .ofFn fun k =>
    if k < 4 then headerUint2 header k
    else if k = 4 then nonce
    else if k = 5 then ⟨1, 0⟩
    else if k = 8 then ⟨0, 0x80000000⟩
    else .zero

/-- The parities of the first round of `keccak_f1600_init`. -/
def initColumns (s : Lanes Uint2) : Columns where
  t0 := ⟨s.l0.x ^^^ s.l5.x, s.l0.y⟩
  t1 := s.l1
  t2 := s.l2
  t3 := ⟨s.l3.x, s.l3.y ^^^ s.l8.y⟩
  t4 := s.l4

/-- The last round of `keccak_f1600_init`. -/
def initLastRound (s : Lanes Uint2) : Lanes Uint2 :=
  let t := columns s
  let u := t.t4 ^^^ rol2 arch t.t1 1
  let s := { s with l0 := s.l0 ^^^ u, l10 := s.l10 ^^^ u }
  let u := t.t0 ^^^ rol2 arch t.t2 1
  let s := { s with l6 := s.l6 ^^^ u, l16 := s.l16 ^^^ u }
  let u := t.t1 ^^^ rol2 arch t.t3 1
  let s := { s with l12 := s.l12 ^^^ u, l22 := s.l22 ^^^ u }
  let u := t.t2 ^^^ rol2 arch t.t4 1
  let s := { s with l3 := s.l3 ^^^ u, l18 := s.l18 ^^^ u }
  let u := t.t3 ^^^ rol2 arch t.t0 1
  let s := { s with l9 := s.l9 ^^^ u, l24 := s.l24 ^^^ u }
  let s := { s with l1 := rol2 arch s.l6 44 }
  let s := { s with l6 := rol2 arch s.l9 20 }
  let s := { s with l9 := rol2 arch s.l22 61 }
  let s := { s with l2 := rol2 arch s.l12 43 }
  let s := { s with l4 := rol2 arch s.l24 14 }
  let s := { s with l8 := rol2 arch s.l16 45 }
  let s := { s with l5 := rol2 arch s.l3 28 }
  let s := { s with l3 := rol2 arch s.l18 21 }
  let s := { s with l7 := rol2 arch s.l10 3 }
  let u := s.l0
  let v := s.l1
  let s := { s with l0 := chi3 s.l0 s.l1 s.l2 }
  let s := { s with l1 := chi3 s.l1 s.l2 s.l3 }
  let s := { s with l2 := chi3 s.l2 s.l3 s.l4 }
  let s := { s with l3 := chi3 s.l3 s.l4 u }
  let s := { s with l4 := chi3 s.l4 u v }
  let s := { s with l5 := chi3 s.l5 s.l6 s.l7 }
  let s := { s with l6 := chi3 s.l6 s.l7 s.l8 }
  let s := { s with l7 := chi3 s.l7 s.l8 s.l9 }
  { s with l0 := s.l0 ^^^ roundConstant 23 }

/-- `keccak_f1600_init` (`keccak.cuh:28-335`): the twelve elements of `state`. -/
def keccakF1600Init (header : H256) (nonce : Uint2) : Vector Uint2 12 :=
  let s := initBlock header nonce
  let s := roundFrom arch (initColumns s) s 0
  let s := initLastRound arch (middleRounds arch s)
  Vector.ofFn fun i => s.get i

/-! ## `keccak_f1600_final` -/

/-- The block of the seed and the compressed mix. -/
def finalBlock (state : Vector Uint2 12) : Lanes Uint2 :=
  .ofFn fun k =>
    if k < 12 then cell state k
    else if k = 12 then ⟨1, 0⟩
    else if k = 16 then ⟨0, 0x80000000⟩
    else .zero

/-- The parities of the first round of `keccak_f1600_final`. -/
def finalColumns (s : Lanes Uint2) : Columns where
  t0 := xor3 s.l0 s.l5 s.l10
  t1 := xor3 s.l1 s.l6 s.l11 ^^^ s.l16
  t2 := xor3 s.l2 s.l7 s.l12
  t3 := s.l3 ^^^ s.l8
  t4 := s.l4 ^^^ s.l9

/-- The last round of `keccak_f1600_final`, which returns one lane. -/
def finalLastRound (s : Lanes Uint2) : Word64 :=
  let t := columns s
  let s := { s with l0 := xor3 s.l0 t.t4 (rol2 arch t.t1 1) }
  let s := { s with l6 := xor3 s.l6 t.t0 (rol2 arch t.t2 1) }
  let s := { s with l12 := xor3 s.l12 t.t1 (rol2 arch t.t3 1) }
  let s := { s with l1 := rol2 arch s.l6 44 }
  let s := { s with l2 := rol2 arch s.l12 43 }
  let s := { s with l0 := chi3 s.l0 s.l1 s.l2 }
  s.l0.asUlong ^^^ keccakRoundConstants.getD 23 0

/-- `keccak_f1600_final` (`keccak.cuh:337-599`). -/
def keccakF1600Final (state : Vector Uint2 12) : Word64 :=
  let s := finalBlock state
  let s := roundFrom arch (finalColumns s) s 0
  finalLastRound arch (middleRounds arch s)

end

end Energiminer.Cuda
