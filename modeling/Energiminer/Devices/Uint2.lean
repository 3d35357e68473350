import Energiminer.Nrghash.Proofs.Lanes

/-!
# Lanes as pairs of 32-bit words

The devices hold a Keccak lane as a `uint2`, the low word first, and rotate it with whatever
the platform offers. Every rotation is a pair of funnel shifts; `rol_laneOfHalves_low` and
`rol_laneOfHalves_high` say what such a pair does to the 64-bit lane, and each `ROL2` and
`ROTL64` of the kernels is compared with them.
-/

namespace Energiminer.Devices
open Misc Misc.Keccak Nrghash

/-- `uint2`. -/
@[ext]
structure Uint2 where
  x : Word
  y : Word
  deriving DecidableEq, Inhabited

namespace Uint2

def zero : Uint2 := ⟨0, 0⟩

def xor (a b : Uint2) : Uint2 := ⟨a.x ^^^ b.x, a.y ^^^ b.y⟩

instance : XorOp Uint2 := ⟨xor⟩

/-- The swizzles `.s10` and `.yx`. -/
def s10 (a : Uint2) : Uint2 := ⟨a.y, a.x⟩

/-- `as_ulong`, `devectorize`. -/
def asUlong (a : Uint2) : Word64 := laneOfHalves a.x a.y

/-- `as_uint2`, `vectorize`. -/
def ofUlong (w : Word64) : Uint2 := ⟨laneHalf w 0, laneHalf w 1⟩

/-- `bitselect`: the bits of `b` where `c` is set, those of `a` elsewhere. -/
def bitselect (a b c : Uint2) : Uint2 :=
  ⟨(a.x &&& ~~~c.x) ||| (b.x &&& c.x), (a.y &&& ~~~c.y) ||| (b.y &&& c.y)⟩

/-- `(~a) & b`. -/
def andNot (a b : Uint2) : Uint2 := ⟨~~~a.x &&& b.x, ~~~a.y &&& b.y⟩

end Uint2

/-! ## Rotations -/

/-- `amd_bitalign`. -/
def amdBitalign (src0 src1 : Word) (src2 : Nat) : Word :=
  ((src0 ++ src1 : Word64) >>> (src2 % 32)).setWidth 32

/-- `amd_bitalign` on vectors. -/
def amdBitalign2 (a b : Uint2) (n : Nat) : Uint2 := ⟨amdBitalign a.x b.x n, amdBitalign a.y b.y n⟩

/-- `shf.l.wrap.b32 d, a, b, c`: the upper half of `b:a` shifted left. -/
def shfLeftWrap (a b : Word) (c : Nat) : Word :=
  ((b ++ a : Word64) <<< (c % 32)).extractLsb' 32 32

/-- `ROL2` in terms of `shf.l.wrap` (`old_nrghash.cl:75-86`, `cuda_helper.h:690-701`). -/
def rol2Shf (a : Uint2) (offset : Nat) : Uint2 :=
  if offset ≥ 32 then ⟨shfLeftWrap a.x a.y offset, shfLeftWrap a.y a.x offset⟩
  else ⟨shfLeftWrap a.y a.x offset, shfLeftWrap a.x a.y offset⟩

/-- `ROL2` in terms of `amd_bitalign` (`old_nrghash.cl:89-99`). -/
def rol2Bitalign (vv : Uint2) (r : Nat) : Uint2 :=
  if r ≤ 32 then amdBitalign2 vv vv.s10 (32 - r) else amdBitalign2 vv.s10 vv (64 - r)

/-- `ROL2` in terms of shifts (`old_nrghash.cl:101-115`, `cuda_helper.h:703-718`). -/
def rol2Shift (v : Uint2) (n : Nat) : Uint2 :=
  if n ≤ 32 then ⟨(v.x <<< n) ||| (v.y >>> (32 - n)), (v.y <<< n) ||| (v.x >>> (32 - n))⟩
  else ⟨(v.y <<< (n - 32)) ||| (v.x >>> (64 - n)), (v.x <<< (n - 32)) ||| (v.y >>> (64 - n))⟩

/-- A funnel shift: the upper half of `hi:lo` shifted left by `n`. -/
def funnel (hi lo : Word) (n : Nat) : Word := (hi <<< n) ||| (lo >>> (32 - n))

theorem getLsbD_laneOfHalves (lo hi : Word) (z : Nat) :
    (laneOfHalves lo hi).getLsbD z = if z < 32 then lo.getLsbD z else hi.getLsbD (z - 32) := by
  rw [laneOfHalves, BitVec.getLsbD_append]

theorem rol_laneOfHalves_low (lo hi : Word) (n : Nat) (h0 : 0 < n) (hn : n < 32) :
    rol (laneOfHalves lo hi) n = laneOfHalves (funnel lo hi n) (funnel hi lo n) := by
  apply BitVec.eq_of_getLsbD_eq
  intro z hz
  simp only [rol, funnel, BitVec.getLsbD_or, BitVec.getLsbD_shiftLeft, BitVec.getLsbD_ushiftRight,
    getLsbD_laneOfHalves]
  grind

theorem rol_laneOfHalves_high (lo hi : Word) (n : Nat) (h0 : 32 < n) (hn : n < 64) :
    rol (laneOfHalves lo hi) n =
      laneOfHalves (funnel hi lo (n - 32)) (funnel lo hi (n - 32)) := by
  apply BitVec.eq_of_getLsbD_eq
  intro z hz
  simp only [rol, funnel, BitVec.getLsbD_or, BitVec.getLsbD_shiftLeft, BitVec.getLsbD_ushiftRight,
    getLsbD_laneOfHalves]
  grind

theorem amdBitalign_eq_funnel (hi lo : Word) (n : Nat) (h0 : 0 < n) (hn : n < 32) :
    amdBitalign hi lo (32 - n) = funnel hi lo n := by
  apply BitVec.eq_of_getLsbD_eq
  intro z hz
  rw [amdBitalign, Nat.mod_eq_of_lt (by omega)]
  simp only [funnel, BitVec.getLsbD_or, BitVec.getLsbD_shiftLeft, BitVec.getLsbD_ushiftRight,
    BitVec.getLsbD_setWidth, BitVec.getLsbD_append]
  grind

theorem shfLeftWrap_eq_funnel (lo hi : Word) (n c : Nat) (hc : c % 32 = n) :
    shfLeftWrap lo hi c = funnel hi lo n := by
  apply BitVec.eq_of_getLsbD_eq
  intro z hz
  rw [shfLeftWrap, hc]
  simp only [funnel, BitVec.getLsbD_or, BitVec.getLsbD_shiftLeft, BitVec.getLsbD_ushiftRight,
    BitVec.getLsbD_extractLsb', BitVec.getLsbD_append]
  grind

/-! ## The lane algebra of a device -/

/-- The lane operations of a device that rotates with `rot`. -/
def uint2Algebra (rot : Uint2 → Nat → Uint2) : LaneAlgebra Uint2 where
  xor := (· ^^^ ·)
  andNot := Uint2.andNot
  rotl := rot

/-- `rot` rotates the 64-bit lane by every amount Keccak may use. -/
def RotatesLanes (rot : Uint2 → Nat → Uint2) : Prop :=
  ∀ a n, 0 < n → n < 64 → n ≠ 32 → (rot a n).asUlong = rol a.asUlong n

/-- A rotation that is a pair of funnel shifts, the high word first when the amount passes half
a lane. -/
theorem rotatesLanes_of_funnel {rot : Uint2 → Nat → Uint2}
    (hlow : ∀ a n, 0 < n → n < 32 → rot a n = ⟨funnel a.x a.y n, funnel a.y a.x n⟩)
    (hhigh : ∀ a n, 32 < n → n < 64 →
      rot a n = ⟨funnel a.y a.x (n - 32), funnel a.x a.y (n - 32)⟩) : RotatesLanes rot := by
  intro a n h0 h64 h32
  rcases Nat.lt_or_ge n 32 with h | h
  · rw [hlow a n h0 h]
    exact (rol_laneOfHalves_low a.x a.y n h0 h).symm
  · rw [hhigh a n (by omega) h64]
    exact (rol_laneOfHalves_high a.x a.y n (by omega) h64).symm

theorem rotatesLanes_rol2Shf : RotatesLanes rol2Shf := by
  refine rotatesLanes_of_funnel (fun a n h0 hn => ?_) fun a n h0 hn => ?_
  · rw [rol2Shf, if_neg (by omega), shfLeftWrap_eq_funnel _ _ n n (by omega),
      shfLeftWrap_eq_funnel _ _ n n (by omega)]
  · rw [rol2Shf, if_pos (by omega), shfLeftWrap_eq_funnel _ _ (n - 32) n (by omega),
      shfLeftWrap_eq_funnel _ _ (n - 32) n (by omega)]

theorem rotatesLanes_rol2Bitalign : RotatesLanes rol2Bitalign := by
  refine rotatesLanes_of_funnel (fun a n h0 hn => ?_) fun a n h0 hn => ?_
  · rw [rol2Bitalign, if_pos (by omega), amdBitalign2, amdBitalign_eq_funnel _ _ n h0 hn,
      amdBitalign_eq_funnel _ _ n h0 hn]
    rfl
  · rw [rol2Bitalign, if_neg (by omega), amdBitalign2, show 64 - n = 32 - (n - 32) by omega,
      amdBitalign_eq_funnel _ _ (n - 32) (by omega) (by omega),
      amdBitalign_eq_funnel _ _ (n - 32) (by omega) (by omega)]
    rfl

theorem rotatesLanes_rol2Shift : RotatesLanes rol2Shift := by
  refine rotatesLanes_of_funnel (fun a n h0 hn => ?_) fun a n h0 hn => ?_
  · rw [rol2Shift, if_pos (by omega)]
    rfl
  · rw [rol2Shift, if_neg (by omega), show 64 - n = 32 - (n - 32) by omega]
    rfl

theorem asUlong_xor (a b : Uint2) : (a ^^^ b).asUlong = a.asUlong ^^^ b.asUlong := by
  apply BitVec.eq_of_getLsbD_eq
  intro z hz
  change (laneOfHalves (a.x ^^^ b.x) (a.y ^^^ b.y)).getLsbD z = _
  simp only [Uint2.asUlong, BitVec.getLsbD_xor, getLsbD_laneOfHalves]
  split <;> rfl

theorem asUlong_andNot (a b : Uint2) : (a.andNot b).asUlong = ~~~a.asUlong &&& b.asUlong := by
  apply BitVec.eq_of_getLsbD_eq
  intro z hz
  simp only [Uint2.asUlong, Uint2.andNot, BitVec.getLsbD_and, BitVec.getLsbD_not,
    getLsbD_laneOfHalves]
  grind

@[simp] theorem asUlong_ofUlong (w : Word64) : (Uint2.ofUlong w).asUlong = w :=
  laneOfHalves_laneHalf w

/-- The lanes of a device are the 64-bit lanes. -/
def uint2Hom {rot : Uint2 → Nat → Uint2} (hrot : RotatesLanes rot) :
    LaneHom (uint2Algebra rot) word64Algebra where
  map := Uint2.asUlong
  map_xor := asUlong_xor
  map_andNot := asUlong_andNot
  map_rotl := hrot

theorem bitselect_chi (a b c : Uint2) : Uint2.bitselect (a ^^^ c) a b = a ^^^ b.andNot c := by
  have hword : ∀ p q r : Word, ((p ^^^ r) &&& ~~~q) ||| (p &&& q) = p ^^^ (~~~q &&& r) := by
    intro p q r
    apply BitVec.eq_of_getLsbD_eq
    intro z hz
    simp only [BitVec.getLsbD_or, BitVec.getLsbD_and, BitVec.getLsbD_xor, BitVec.getLsbD_not, hz]
    cases p.getLsbD z <;> cases q.getLsbD z <;> cases r.getLsbD z <;> rfl
  exact Uint2.ext (hword _ _ _) (hword _ _ _)

/-- χ with `bitselect` in place of and-not. -/
def chiSelect (a : Lanes Uint2) : Lanes Uint2 :=
  .ofFn fun i => .bitselect (a.get i ^^^ a.get (rowLane i 2)) (a.get i) (a.get (rowLane i 1))

theorem chiSelect_eq (rot : Uint2 → Nat → Uint2) (a : Lanes Uint2) :
    chiSelect a = chi (uint2Algebra rot) a :=
  Lanes.ofFn_congr fun i _ => bitselect_chi (a.get i) (a.get (rowLane i 1)) (a.get (rowLane i 2))

end Energiminer.Devices
