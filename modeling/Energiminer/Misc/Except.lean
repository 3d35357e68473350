import Mathlib.Data.List.Basic

/-!
# Programs that may fail

When a sequence of steps in `Except` succeeds, and a postcondition that also says which failures
are allowed.
-/

namespace Energiminer.Misc.Except
variable {ε α β : Type}

/-- The computation gives a result. -/
def Succeeds (x : Except ε α) : Prop := ∃ a, x = .ok a

/-- The result, if there is one, satisfies `Q`, and a failure satisfies `E`. -/
def Ensures (E : ε → Prop) (Q : α → Prop) : Except ε α → Prop
  | .ok a => Q a
  | .error e => E e

@[simp] theorem succeeds_ok (a : α) : Succeeds (.ok a : Except ε α) := ⟨a, rfl⟩

@[simp] theorem succeeds_pure (a : α) : Succeeds (pure a : Except ε α) := ⟨a, rfl⟩

@[simp] theorem not_succeeds_error (e : ε) : ¬ Succeeds (.error e : Except ε α) := by
  rintro ⟨a, h⟩
  cases h

theorem succeeds_iff_toBool {x : Except ε α} : Succeeds x ↔ x.toBool = true := by
  cases x with
  | error e => exact ⟨fun h => absurd h (not_succeeds_error e), fun h => Bool.noConfusion h⟩
  | ok a => exact ⟨fun _ => rfl, fun _ => succeeds_ok a⟩

instance (x : Except ε α) : Decidable (Succeeds x) := decidable_of_iff _ succeeds_iff_toBool.symm

@[simp] theorem ok_bind (a : α) (f : α → Except ε β) : (.ok a >>= f : Except ε β) = f a := rfl

theorem bind_eq_ok {x : Except ε α} {f : α → Except ε β} {b : β} :
    x >>= f = .ok b ↔ ∃ a, x = .ok a ∧ f a = .ok b := by
  cases x with
  | error e =>
    refine ⟨fun h => ?_, fun ⟨a, h, _⟩ => ?_⟩
    · cases h
    · cases h
  | ok a =>
    refine ⟨fun h => ⟨a, rfl, h⟩, fun ⟨a', h, hf⟩ => ?_⟩
    cases h
    exact hf

theorem mapError_eq_ok {δ : Type} {x : Except ε α} {f : ε → δ} {a : α} :
    x.mapError f = .ok a ↔ x = .ok a := by
  cases x with
  | error e =>
    constructor <;> intro h <;> cases h
  | ok b =>
    constructor <;> intro h <;> cases h <;> rfl

theorem succeeds_bind {x : Except ε α} {f : α → Except ε β} :
    Succeeds (x >>= f) ↔ ∃ a, x = .ok a ∧ Succeeds (f a) := by
  cases x with
  | error e => exact ⟨fun h => absurd h (not_succeeds_error e), fun ⟨_, h, _⟩ => nomatch h⟩
  | ok a => exact ⟨fun h => ⟨a, rfl, h⟩, fun ⟨_, h, hf⟩ => by cases h; exact hf⟩

/-- A step whose result, if there is one, does not matter for the success of the rest. -/
theorem succeeds_bind_iff_of_ok {x : Except ε α} {f : α → Except ε β} {P : Prop}
    (h : ∀ a, x = .ok a → (Succeeds (f a) ↔ P)) : Succeeds (x >>= f) ↔ Succeeds x ∧ P := by
  rw [succeeds_bind]
  constructor
  · rintro ⟨a, hx, hf⟩
    exact ⟨⟨a, hx⟩, (h a hx).mp hf⟩
  · rintro ⟨⟨a, hx⟩, hp⟩
    exact ⟨a, hx, (h a hx).mpr hp⟩

theorem succeeds_bind_iff {x : Except ε α} {f : α → Except ε β} {P : Prop}
    (h : ∀ a, Succeeds (f a) ↔ P) : Succeeds (x >>= f) ↔ Succeeds x ∧ P :=
  succeeds_bind_iff_of_ok fun a _ => h a

theorem succeeds_mapM {f : α → Except ε β} {xs : List α} :
    Succeeds (xs.mapM f) ↔ ∀ x ∈ xs, Succeeds (f x) := by
  induction xs with
  | nil => simp
  | cons x xs ih =>
    rw [List.mapM_cons, succeeds_bind_iff (P := ∀ x ∈ xs, Succeeds (f x))]
    · simp
    · intro b
      rw [succeeds_bind_iff (P := True) fun _ => by simp, ih, and_true]

theorem mem_of_mapM {f : α → Except ε β} {xs : List α} {ys : List β} (h : xs.mapM f = .ok ys)
    {y : β} (hy : y ∈ ys) : ∃ x ∈ xs, f x = .ok y := by
  induction xs generalizing ys with
  | nil =>
    cases h
    cases hy
  | cons x xs ih =>
    rw [List.mapM_cons] at h
    obtain ⟨first, hfirst, hrest⟩ := bind_eq_ok.mp h
    obtain ⟨rest, hxs, hpure⟩ := bind_eq_ok.mp hrest
    cases hpure
    rcases List.mem_cons.mp hy with rfl | hy
    · exact ⟨x, List.mem_cons_self, hfirst⟩
    · obtain ⟨x', hx', hfx'⟩ := ih hxs hy
      exact ⟨x', List.mem_cons_of_mem x hx', hfx'⟩

variable {E : ε → Prop} {Q : α → Prop} {R : β → Prop}

@[simp] theorem ensures_ok {a : α} : Ensures E Q (.ok a) ↔ Q a := Iff.rfl

@[simp] theorem ensures_pure {a : α} : Ensures E Q (pure a) ↔ Q a := Iff.rfl

@[simp] theorem ensures_error {e : ε} : Ensures E Q (.error e) ↔ E e := Iff.rfl

theorem ensures_bind {x : Except ε α} {f : α → Except ε β} :
    Ensures E R (x >>= f) ↔ Ensures E (fun a => Ensures E R (f a)) x := by
  cases x <;> rfl

theorem Ensures.mono {Q' : α → Prop} {x : Except ε α} (h : Ensures E Q x)
    (hQ : ∀ a, Q a → Q' a) : Ensures E Q' x := by
  cases x with
  | ok a => exact hQ a h
  | error e => exact h

theorem Ensures.ok {x : Except ε α} (h : Ensures E Q x) {a : α} (hx : x = .ok a) : Q a := by
  subst hx
  exact h

end Energiminer.Misc.Except
