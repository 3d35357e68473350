/-!
# Programs with a state that can fail

Pre- and postconditions for `EStateM`, where a failure keeps the state in which it happens.
-/

namespace Energiminer.Misc

variable {ε σ α β : Type} {P : σ → Prop} {E : ε → σ → Prop} {Q : α → σ → Prop}

/-- The program ends with the postcondition `Q`, or it fails with `E`. -/
def Ends (Q : α → σ → Prop) (E : ε → σ → Prop) : EStateM.Result ε σ α → Prop
  | .ok a s => Q a s
  | .error e s => E e s

theorem Ends.mono {Q' : α → σ → Prop} {E' : ε → σ → Prop} {r : EStateM.Result ε σ α} (h : Ends Q E r)
    (hQ : ∀ a s, Q a s → Q' a s) (hE : ∀ e s, E e s → E' e s) : Ends Q' E' r := by
  cases r with
  | ok a s => exact hQ a s h
  | error e s => exact hE e s h

/-- From every state with `P`, the program ends with `Q` or fails with `E`. -/
def Runs (P : σ → Prop) (x : EStateM ε σ α) (Q : α → σ → Prop) (E : ε → σ → Prop) : Prop :=
  ∀ s, P s → Ends Q E (x s)

theorem Runs.mono {P' : σ → Prop} {x : EStateM ε σ α} (h : Runs P x Q E) (hP : ∀ s, P' s → P s) :
    Runs P' x Q E := fun s hs => h s (hP s hs)

theorem Runs.bind {R : β → σ → Prop} {x : EStateM ε σ α} {f : α → EStateM ε σ β}
    (hx : Runs P x Q E) (hf : ∀ a, Runs (Q a) (f a) R E) : Runs P (x >>= f) R E := by
  intro s hs
  have hend := hx s hs
  show Ends R E (EStateM.bind x f s)
  rw [EStateM.bind]
  cases hr : x s with
  | ok a t =>
    rw [hr] at hend
    exact hf a t hend
  | error e t =>
    rw [hr] at hend
    exact hend

theorem runs_modify {Q : Unit → σ → Prop} {f : σ → σ} (h : ∀ s, P s → Q () (f s)) :
    Runs P (modify f : EStateM ε σ Unit) Q E := h

/-- The rest of a program may look at the state. -/
theorem runs_get_bind {f : σ → EStateM ε σ α} (h : ∀ s, P s → Runs (· = s) (f s) Q E) :
    Runs P (get >>= f) Q E := fun s hs => h s hs s rfl

theorem runs_ite {c : Prop} [Decidable c] {x y : EStateM ε σ α} (hx : c → Runs P x Q E)
    (hy : ¬ c → Runs P y Q E) : Runs P (if c then x else y) Q E := by
  split
  next hc => exact hx hc
  next hc => exact hy hc

/-- A call that may fail and changes nothing. -/
theorem runs_throw_or_pure {c : Prop} [Decidable c] {e : ε} (h : ∀ s, P s → E e s) :
    Runs P (if c then throw e else pure ()) (fun _ => P) E :=
  runs_ite (fun _ => h) fun _ _ hs => hs

end Energiminer.Misc
