import Mathlib.Logic.Basic

/-!
# Cells of a vector

Reading a vector at a number, with a default outside of it. The position is a plain number, so
the address arithmetic of a program is written as the program has it, and that an address is
in range is said where it is needed and not in every term that reads.
-/

namespace Energiminer.Misc
variable {α β γ : Type} {n : Nat}

/-- Element `i`, or the default. -/
def cell [Inhabited α] (v : Vector α n) (i : Nat) : α := v[i]?.getD default

/-- Write element `i`, if there is one. -/
def writeCell (v : Vector α n) (i : Nat) (x : α) : Vector α n := v.setIfInBounds i x

theorem cell_eq_getElem [Inhabited α] (v : Vector α n) {i : Nat} (hi : i < n) :
    cell v i = v[i] := by
  simp [cell, hi]

theorem cell_ofFn [Inhabited α] (f : Fin n → α) {i : Nat} (hi : i < n) :
    cell (Vector.ofFn f) i = f ⟨i, hi⟩ := by
  rw [cell_eq_getElem _ hi, Vector.getElem_ofFn]

theorem cell_zipWith [Inhabited α] [Inhabited β] [Inhabited γ] (f : α → β → γ) (v : Vector α n)
    (w : Vector β n) {i : Nat} (hi : i < n) : cell (v.zipWith f w) i = f (cell v i) (cell w i) := by
  rw [cell_eq_getElem _ hi, cell_eq_getElem _ hi, cell_eq_getElem _ hi, Vector.getElem_zipWith]

theorem ext_cell [Inhabited α] {v w : Vector α n} (h : ∀ i < n, cell v i = cell w i) : v = w :=
  Vector.ext fun i hi => by rw [← cell_eq_getElem v hi, ← cell_eq_getElem w hi, h i hi]

theorem cell_writeCell [Inhabited α] (v : Vector α n) (i j : Nat) (x : α) (hi : i < n) :
    cell (writeCell v i x) j = if i = j then x else cell v j := by
  unfold cell writeCell
  rw [Vector.getElem?_setIfInBounds]
  split
  next h => subst h; simp
  next h => rfl

theorem cell_writeCell_ne [Inhabited α] (v : Vector α n) {i j : Nat} (x : α) (hij : i ≠ j) :
    cell (writeCell v i x) j = cell v j := by
  unfold cell writeCell
  rw [Vector.getElem?_setIfInBounds, if_neg hij]

theorem writeCell_cell [Inhabited α] (v : Vector α n) (i : Nat) : writeCell v i (cell v i) = v := by
  apply ext_cell
  intro j hj
  by_cases hij : i = j
  · subst hij
    rw [cell_writeCell _ _ _ _ hj, if_pos rfl]
  · rw [cell_writeCell_ne _ _ hij]

theorem get_vectorOfFn (f : Fin n → α) (i : Fin n) : (Vector.ofFn f).get i = f i :=
  Vector.getElem_ofFn i.isLt

theorem get_vectorMap (f : α → β) (v : Vector α n) (i : Fin n) : (v.map f).get i = f (v.get i) :=
  Vector.getElem_map f i.isLt

end Energiminer.Misc
