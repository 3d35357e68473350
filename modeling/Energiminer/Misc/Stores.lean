import Mathlib.Data.List.Basic
import Mathlib.Logic.Function.Basic

/-!
# Stores in an unknown order

The threads of a kernel store to memory in an order that is not known. What a memory may hold
afterwards: at a location that was stored to, the value of one of the stores to it, elsewhere what it
held before. Where all stores to a location agree, the order is not visible (`Settles.eq_of_agree`).
-/

namespace Energiminer.Misc
variable {ι α : Type}

/-- `after` is what the stores may leave of `before`. -/
def Settles (stores : List (ι × α)) (before after : ι → α) : Prop :=
  ∀ i, (i, after i) ∈ stores ∨ after i = before i ∧ ∀ v, (i, v) ∉ stores

/-- The stores one after the other. -/
def applyStores [DecidableEq ι] (stores : List (ι × α)) (mem : ι → α) : ι → α :=
  stores.foldl (fun mem s => Function.update mem s.1 s.2) mem

variable {stores : List (ι × α)} {before after : ι → α} {i : ι} {v : α}

theorem Settles.eq_of_agree (h : Settles stores before after) (hmem : (i, v) ∈ stores)
    (hagree : ∀ w, (i, w) ∈ stores → w = v) : after i = v := by
  rcases h i with hi | ⟨-, hnot⟩
  · exact hagree _ hi
  · exact absurd hmem (hnot v)

theorem Settles.eq_of_untouched (h : Settles stores before after) (hnot : ∀ v, (i, v) ∉ stores) :
    after i = before i := by
  rcases h i with hi | ⟨heq, -⟩
  · exact absurd hi (hnot _)
  · exact heq

/-- The order of the list is one of the possible ones. -/
theorem settles_applyStores [DecidableEq ι] (stores : List (ι × α)) (before : ι → α) :
    Settles stores before (applyStores stores before) := by
  induction stores generalizing before with
  | nil => exact fun i => .inr ⟨rfl, fun v => List.not_mem_nil⟩
  | cons s stores ih =>
    intro i
    rcases ih (Function.update before s.1 s.2) i with hi | ⟨heq, hnot⟩
    · exact .inl (List.mem_cons_of_mem _ hi)
    · by_cases hs : i = s.1
      · subst hs
        rw [Function.update_self] at heq
        have hlast : applyStores (s :: stores) before s.1 = s.2 := heq
        rw [hlast]
        exact .inl List.mem_cons_self
      · rw [Function.update_of_ne hs] at heq
        refine .inr ⟨heq, fun v hv => ?_⟩
        rcases List.mem_cons.mp hv with hv | hv
        · exact hs (congrArg Prod.fst hv)
        · exact hnot v hv

end Energiminer.Misc
