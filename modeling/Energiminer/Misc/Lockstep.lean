import Mathlib.Data.List.FinRange
import Energiminer.Misc.Cells

/-!
# Lockstep execution of a work-group

A group of `n` work-items runs one statement at a time. A statement on private state runs on
every item (`each`); a store runs item by item on the memory the group shares (`store`). What
a location holds after a store is read off with `store_read`: no order of the items is visible
as long as all items that write a location write the same value.
-/

namespace Energiminer.Misc.Lockstep
variable {n : Nat} {σ μ γ : Type}

/-- A statement on private state. -/
def each (f : Fin n → σ → σ) (items : Vector σ n) : Vector σ n :=
  Vector.ofFn fun i => f i (items.get i)

@[simp] theorem get_each (f : Fin n → σ → σ) (items : Vector σ n) (i : Fin n) :
    (each f items).get i = f i (items.get i) :=
  get_vectorOfFn _ i

/-- A statement on shared memory, run by the items in turn. -/
def store (write : Fin n → μ → μ) (mem : μ) : μ :=
  (List.finRange n).foldl (fun mem i => write i mem) mem

/-- A part of the memory that item `i` sets to `v` and that no item sets to anything else. -/
theorem store_read (r : μ → γ) {write : Fin n → μ → μ} (i : Fin n) (v : γ)
    (hset : ∀ mem, r (write i mem) = v)
    (hothers : ∀ j mem, r (write j mem) = v ∨ r (write j mem) = r mem) (mem : μ) :
    r (store write mem) = v := by
  have hkeep : ∀ (l : List (Fin n)) (mem : μ), r mem = v →
      r (l.foldl (fun mem i => write i mem) mem) = v := by
    intro l
    induction l with
    | nil => exact fun mem h => h
    | cons j l ih =>
      intro mem h
      refine ih _ ?_
      rcases hothers j mem with hj | hj
      · exact hj
      · rw [hj, h]
  have hreach : ∀ (l : List (Fin n)) (mem : μ), i ∈ l →
      r (l.foldl (fun mem i => write i mem) mem) = v := by
    intro l
    induction l with
    | nil => exact fun mem h => absurd h List.not_mem_nil
    | cons j l ih =>
      intro mem h
      rcases List.mem_cons.mp h with rfl | h
      · exact hkeep l _ (hset mem)
      · exact ih _ h
  exact hreach _ mem (List.mem_finRange i)

/-! ## Loops -/

/-- Two loops over the same list that keep a relation in each iteration keep it to the end. -/
theorem foldl_rel {β : Type} {R : σ → μ → Prop} {f : σ → β → σ} {g : μ → β → μ} (l : List β)
    {s : σ} {t : μ} (h : R s t) (hstep : ∀ b ∈ l, ∀ s t, R s t → R (f s b) (g t b)) :
    R (l.foldl f s) (l.foldl g t) := by
  induction l generalizing s t with
  | nil => exact h
  | cons b l ih =>
    exact ih (hstep b (List.mem_cons_self ..) s t h)
      fun b hb => hstep b (List.mem_cons_of_mem _ hb)

/-- A loop in blocks of `k` iterations is one loop over all of them. -/
theorem foldl_range_mul (f : σ → Nat → σ) (j k : Nat) (s : σ) :
    (List.range j).foldl (fun s a => (List.range k).foldl (fun s x => f s (k * a + x)) s) s =
      (List.range (k * j)).foldl f s := by
  induction j with
  | zero => rfl
  | succ j ih =>
    rw [List.range_succ, List.foldl_append, ih, Nat.mul_succ, List.range_add, List.foldl_append,
      List.foldl_map]
    rfl

end Energiminer.Misc.Lockstep
