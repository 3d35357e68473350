import Mathlib.Tactic.IntervalCases

/-!
# Keccak over an abstract lane algebra

The Keccak permutation on twenty-five lanes, for any type of lanes that has exclusive or,
and-not and rotation. Implementations differ in how they hold a lane (one 64-bit word, a
pair of 32-bit halves) and in how they schedule the five step mappings; each of them is
compared with `keccakRound` here. `LaneHom` carries the rounds over one representation of lanes to
the rounds over another.

The state is a structure with one field a lane rather than an array: straight-line code then
reads as a sequence of field updates, and a permuted or pruned schedule is compared with the
step mappings by computation alone.
-/

namespace Energiminer.Misc.Keccak

/-- The lane operations Keccak uses; `andNot a b` is `(¬a) ∧ b`. -/
structure LaneAlgebra (α : Type) where
  xor : α → α → α
  andNot : α → α → α
  rotl : α → Nat → α

/-- A map of lanes that respects the operations. No rotation of Keccak is by half a lane, and
implementations on half lanes need not support that amount. -/
structure LaneHom {α β : Type} (A : LaneAlgebra α) (B : LaneAlgebra β) where
  map : α → β
  map_xor : ∀ x y, map (A.xor x y) = B.xor (map x) (map y)
  map_andNot : ∀ x y, map (A.andNot x y) = B.andNot (map x) (map y)
  map_rotl : ∀ x n, 0 < n → n < 64 → n ≠ 32 → map (A.rotl x n) = B.rotl (map x) n

/-- The twenty-five lanes; lane `x + 5 * y` stands at column `x` of row `y`. -/
@[ext]
structure Lanes (α : Type) where
  l0 : α
  l1 : α
  l2 : α
  l3 : α
  l4 : α
  l5 : α
  l6 : α
  l7 : α
  l8 : α
  l9 : α
  l10 : α
  l11 : α
  l12 : α
  l13 : α
  l14 : α
  l15 : α
  l16 : α
  l17 : α
  l18 : α
  l19 : α
  l20 : α
  l21 : α
  l22 : α
  l23 : α
  l24 : α

namespace Lanes
variable {α β : Type}

def ofFn (f : Nat → α) : Lanes α :=
  ⟨f 0, f 1, f 2, f 3, f 4, f 5, f 6, f 7, f 8, f 9, f 10, f 11, f 12, f 13, f 14, f 15, f 16,
    f 17, f 18, f 19, f 20, f 21, f 22, f 23, f 24⟩

/-- Lane `i`; only `i < 25` is ever read. -/
def get (a : Lanes α) : Nat → α
  | 0 => a.l0 | 1 => a.l1 | 2 => a.l2 | 3 => a.l3 | 4 => a.l4 | 5 => a.l5 | 6 => a.l6
  | 7 => a.l7 | 8 => a.l8 | 9 => a.l9 | 10 => a.l10 | 11 => a.l11 | 12 => a.l12 | 13 => a.l13
  | 14 => a.l14 | 15 => a.l15 | 16 => a.l16 | 17 => a.l17 | 18 => a.l18 | 19 => a.l19
  | 20 => a.l20 | 21 => a.l21 | 22 => a.l22 | 23 => a.l23 | _ => a.l24

def map (f : α → β) (a : Lanes α) : Lanes β := ofFn fun i => f (a.get i)

theorem get_map (f : α → β) (a : Lanes α) (i : Nat) : (a.map f).get i = f (a.get i) := by
  unfold get
  split <;> rfl

theorem l0_map (f : α → β) (a : Lanes α) : (a.map f).l0 = f a.l0 := rfl

theorem map_ofFn (f : α → β) (g : Nat → α) : (ofFn g).map f = ofFn fun i => f (g i) := rfl

theorem get_ofFn (f : Nat → α) (i : Nat) (hi : i < 25) : (ofFn f).get i = f i := by
  interval_cases i <;> rfl

theorem ofFn_congr {f g : Nat → α} (h : ∀ i < 25, f i = g i) : ofFn f = ofFn g := by
  unfold ofFn
  congr 1 <;> exact h _ (by decide)

theorem ofFn_get (a : Lanes α) : ofFn a.get = a := rfl

theorem get_congr_eight {a b : Lanes α} (h0 : a.l0 = b.l0) (h1 : a.l1 = b.l1) (h2 : a.l2 = b.l2)
    (h3 : a.l3 = b.l3) (h4 : a.l4 = b.l4) (h5 : a.l5 = b.l5) (h6 : a.l6 = b.l6) (h7 : a.l7 = b.l7)
    (k : Nat) (hk : k < 8) : a.get k = b.get k := by
  interval_cases k <;> assumption

end Lanes

/-- Source lane of each lane under ρ and π. -/
def rhoPiSource : Nat → Nat
  | 1 => 6 | 2 => 12 | 3 => 18 | 4 => 24
  | 5 => 3 | 6 => 9 | 7 => 10 | 8 => 16 | 9 => 22
  | 10 => 1 | 11 => 7 | 12 => 13 | 13 => 19 | 14 => 20
  | 15 => 4 | 16 => 5 | 17 => 11 | 18 => 17 | 19 => 23
  | 20 => 2 | 21 => 8 | 22 => 14 | 23 => 15 | 24 => 21
  | _ => 0

/-- Rotation of each lane but lane 0 under ρ and π, indexed by the target lane. -/
def rhoPiOffset : Nat → Nat
  | 1 => 44 | 2 => 43 | 3 => 21 | 4 => 14
  | 5 => 28 | 6 => 20 | 7 => 3 | 8 => 45 | 9 => 61
  | 11 => 6 | 12 => 25 | 13 => 8 | 14 => 18
  | 15 => 27 | 16 => 36 | 17 => 10 | 18 => 15 | 19 => 56
  | 20 => 62 | 21 => 55 | 22 => 39 | 23 => 41 | 24 => 2
  | _ => 1

section
variable {α : Type} (A : LaneAlgebra α)

/-- Parity of column `x`. -/
def columnParity (a : Lanes α) (x : Nat) : α :=
  A.xor (A.xor (A.xor (A.xor (a.get x) (a.get (x + 5))) (a.get (x + 10))) (a.get (x + 15)))
    (a.get (x + 20))

/-- What θ adds to column `x`. -/
def thetaDelta (a : Lanes α) (x : Nat) : α :=
  A.xor (columnParity A a ((x + 4) % 5)) (A.rotl (columnParity A a ((x + 1) % 5)) 1)

def theta (a : Lanes α) : Lanes α := .ofFn fun i => A.xor (a.get i) (thetaDelta A a (i % 5))

def rhoPi (a : Lanes α) : Lanes α :=
  .ofFn fun i => if i = 0 then a.l0 else A.rotl (a.get (rhoPiSource i)) (rhoPiOffset i)

/-- The lane `d` places to the right of lane `i` in the same row. -/
def rowLane (i d : Nat) : Nat := i / 5 * 5 + (i + d) % 5

def chi (a : Lanes α) : Lanes α :=
  .ofFn fun i => A.xor (a.get i) (A.andNot (a.get (rowLane i 1)) (a.get (rowLane i 2)))

def iota (rc : α) (a : Lanes α) : Lanes α := { a with l0 := A.xor a.l0 rc }

/-- One round of the permutation. -/
def keccakRound (a : Lanes α) (rc : α) : Lanes α := iota A rc (chi A (rhoPi A (theta A a)))

/-- The rounds with the given round constants, in order. -/
def rounds (rcs : List α) (a : Lanes α) : Lanes α := rcs.foldl (keccakRound A) a

end

section
variable {α β : Type} {A : LaneAlgebra α} {B : LaneAlgebra β} (φ : LaneHom A B)

theorem map_columnParity (a : Lanes α) (x : Nat) :
    φ.map (columnParity A a x) = columnParity B (a.map φ.map) x := by
  simp only [columnParity, φ.map_xor, Lanes.get_map]

theorem map_thetaDelta (a : Lanes α) (x : Nat) :
    φ.map (thetaDelta A a x) = thetaDelta B (a.map φ.map) x := by
  simp only [thetaDelta, φ.map_xor, map_columnParity, φ.map_rotl _ 1 (by decide) (by decide) (by decide)]

theorem map_theta (a : Lanes α) : (theta A a).map φ.map = theta B (a.map φ.map) := by
  simp only [theta, Lanes.map_ofFn, φ.map_xor, map_thetaDelta, Lanes.get_map]

/-- Every lane but lane 0 is rotated by a proper amount. -/
theorem rhoPiOffset_bounds (i : Nat) :
    0 < rhoPiOffset i ∧ rhoPiOffset i < 64 ∧ rhoPiOffset i ≠ 32 := by
  unfold rhoPiOffset
  split <;> decide

theorem map_rhoPi (a : Lanes α) : (rhoPi A a).map φ.map = rhoPi B (a.map φ.map) := by
  simp only [rhoPi, Lanes.map_ofFn]
  congr 1
  funext i
  split
  · exact (Lanes.get_map φ.map a 0).symm
  · obtain ⟨hpos, hlt, hne⟩ := rhoPiOffset_bounds i
    rw [φ.map_rotl _ _ hpos hlt hne, Lanes.get_map]

theorem map_chi (a : Lanes α) : (chi A a).map φ.map = chi B (a.map φ.map) := by
  simp only [chi, Lanes.map_ofFn, φ.map_xor, φ.map_andNot, Lanes.get_map]

theorem map_iota (rc : α) (a : Lanes α) :
    (iota A rc a).map φ.map = iota B (φ.map rc) (a.map φ.map) := by
  have h0 := φ.map_xor a.l0 rc
  unfold iota Lanes.map Lanes.ofFn
  congr 1

/-- A lane homomorphism carries a round to a round. -/
theorem map_round (a : Lanes α) (rc : α) :
    (keccakRound A a rc).map φ.map = keccakRound B (a.map φ.map) (φ.map rc) := by
  simp only [keccakRound, map_iota, map_chi, map_rhoPi, map_theta]

theorem map_rounds (rcs : List α) (a : Lanes α) :
    (rounds A rcs a).map φ.map = rounds B (rcs.map φ.map) (a.map φ.map) := by
  induction rcs generalizing a with
  | nil => rfl
  | cons rc rcs ih =>
    simp only [rounds, List.foldl_cons, List.map_cons] at ih ⊢
    rw [ih, map_round]

end

end Energiminer.Misc.Keccak
