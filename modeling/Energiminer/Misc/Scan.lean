import Mathlib.Data.List.TakeDrop
import Mathlib.Data.List.TakeWhile

/-!
# Cutting text at delimiters

`List.span` cuts a text in front of the first character that is not allowed. A text that was put
together from a part without such characters and a rest that begins with one is cut into the two.
-/

namespace Energiminer.Misc
variable {α : Type} {p : α → Bool}

/-- The text is empty or begins with a character that `p` does not allow. -/
def Stops (p : α → Bool) (s : List α) : Prop := ∀ c ∈ s.head?, p c = false

@[simp] theorem stops_nil : Stops p [] := by
  intro c hc
  cases hc

@[simp] theorem stops_cons (c : α) (s : List α) : Stops p (c :: s) ↔ p c = false := by
  simp [Stops]

theorem span_append {x rest : List α} (hx : ∀ c ∈ x, p c = true) (hrest : Stops p rest) :
    (x ++ rest).span p = (x, rest) := by
  have hhead : rest.takeWhile p = [] ∧ rest.dropWhile p = rest := by
    cases rest with
    | nil => exact ⟨rfl, rfl⟩
    | cons c s =>
      have hc := (stops_cons c s).mp hrest
      simp [hc]
  rw [List.span_eq_takeWhile_dropWhile, List.takeWhile_append_of_pos hx,
    List.dropWhile_append_of_pos hx, hhead.1, hhead.2, List.append_nil]

/-- What is cut gives the text again. -/
theorem span_spec (p : α → Bool) (s : List α) :
    (s.span p).1 ++ (s.span p).2 = s ∧ (∀ c ∈ (s.span p).1, p c = true) ∧
      Stops p (s.span p).2 := by
  rw [List.span_eq_takeWhile_dropWhile]
  refine ⟨List.takeWhile_append_dropWhile, fun c hc => List.mem_takeWhile_imp hc, ?_⟩
  intro c hc
  have hhead := List.head?_dropWhile_not p s
  rw [Option.mem_def.mp hc] at hhead
  simpa using hhead

end Energiminer.Misc
