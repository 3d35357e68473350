import Mathlib.Data.List.Count
import Energiminer.Misc.Runs

/-!
# Threads that share a state

A fixed number of threads, each with a state of its own, and a state that all of them share. The
threads take their steps in any order, and a step of a thread changes the shared state and its own.
-/

namespace Energiminer.Misc

structure Threads (G L : Type) where
  shared : G
  locals : List L

namespace Threads
open Machine
variable {G L A F : Type}

/-- The threads that begin in the state `l`, where `act i a` is the action `a` of the thread `i`. -/
def system (n : Nat) (g : G) (l : L) (act : Nat → A → G → L → Option (Except F (G × L))) :
    Machine (Threads G L) (Nat × A) F where
  init s := s = ⟨g, List.replicate n l⟩
  step s e :=
    match s.locals[e.1]? with
    | none => none
    | some l =>
      match act e.1 e.2 s.shared l with
      | none => none
      | some (.error f) => some (.error f)
      | some (.ok (g', l')) => some (.ok ⟨g', s.locals.set e.1 l'⟩)

variable {n : Nat} {g₀ : G} {l₀ : L} {act : Nat → A → G → L → Option (Except F (G × L))}
  {C : Threads G L → Nat × A → Prop} {s t : Threads G L}

theorem system_step_eq_ok {i : Nat} {a : A}
    (h : (system n g₀ l₀ act).step s (i, a) = some (.ok t)) :
    ∃ l g l', s.locals[i]? = some l ∧ act i a s.shared l = some (.ok (g, l')) ∧
      t = ⟨g, s.locals.set i l'⟩ := by
  dsimp only [system] at h
  split at h
  next => cases h
  next l hl =>
    split at h
    next => cases h
    next => cases h
    next g l' hact =>
      cases h
      exact ⟨l, g, l', hl, hact, rfl⟩

theorem system_step_eq_error {i : Nat} {a : A} {f : F}
    (h : (system n g₀ l₀ act).step s (i, a) = some (.error f)) :
    ∃ l, s.locals[i]? = some l ∧ act i a s.shared l = some (.error f) := by
  dsimp only [system] at h
  split at h
  next => cases h
  next l hl =>
    split at h
    next => cases h
    next hact =>
      cases h
      exact ⟨l, hl, hact⟩
    next => cases h

theorem length_locals (h : (system n g₀ l₀ act).Reachable C s) : s.locals.length = n := by
  refine h.invariant (I := fun s : Threads G L => s.locals.length = n) ?_ ?_
  · rintro s rfl
    exact List.length_replicate
  · rintro s ⟨i, a⟩ t hlength _ hstep
    obtain ⟨l, g, l', _, _, rfl⟩ := system_step_eq_ok hstep
    rw [List.length_set, hlength]

/-- The state of a thread after a step of the thread `i`. -/
theorem getElem?_set_eq_some {ls : List L} {i j : Nat} {l m : L}
    (h : (ls.set i l)[j]? = some m) : (j = i ∧ m = l) ∨ (j ≠ i ∧ ls[j]? = some m) := by
  rw [List.getElem?_set] at h
  split at h
  next hij =>
    split at h
    · cases h
      exact .inl ⟨hij.symm, rfl⟩
    · cases h
  next hij => exact .inr ⟨fun hji => hij hji.symm, h⟩

/-- What every thread begins with, what its own steps keep and what the steps of the others keep
holds of every thread. -/
theorem forall_locals {P : G → Nat → L → Prop} (h : (system n g₀ l₀ act).Reachable C s)
    (hinit : ∀ i < n, P g₀ i l₀)
    (hstep : ∀ (s : Threads G L) i a l g l', s.locals[i]? = some l → C s (i, a) → P s.shared i l →
      act i a s.shared l = some (.ok (g, l')) →
      P g i l' ∧ ∀ j m, j ≠ i → s.locals[j]? = some m → P s.shared j m → P g j m) :
    ∀ i l, s.locals[i]? = some l → P s.shared i l := by
  refine h.invariant (I := fun s => ∀ i l, s.locals[i]? = some l → P s.shared i l) ?_ ?_
  · rintro s rfl i l hl
    rw [List.getElem?_replicate] at hl
    split at hl
    next hi =>
      cases hl
      exact hinit i hi
    next => cases hl
  · rintro s ⟨i, a⟩ t hall hC hnext
    obtain ⟨l, g, l', hl, hact, rfl⟩ := system_step_eq_ok hnext
    obtain ⟨hown, hothers⟩ := hstep s i a l g l' hl hC (hall i l hl) hact
    intro j m hm
    obtain ⟨rfl, rfl⟩ | ⟨hne, hm⟩ := getElem?_set_eq_some hm
    · exact hown
    · exact hothers j m hne hm (hall j m hm)

/-! ## One thread alone -/

/-- The thread `i` gets from one state to another while the other threads do nothing. -/
inductive Alone (act : Nat → A → G → L → Option (Except F (G × L))) (i : Nat) : G → L → G → L → Prop
  | refl {g : G} {l : L} : Alone act i g l g l
  | step {g g' g'' : G} {l l' l'' : L} {a : A} : act i a g l = some (.ok (g', l')) →
      Alone act i g' l' g'' l'' → Alone act i g l g'' l''

theorem Alone.steps {i : Nat} {g g' : G} {l l' : L} (h : Alone act i g l g' l') {ls : List L}
    (hl : ls[i]? = some l) :
    (system n g₀ l₀ act).Steps (fun _ e => e.1 = i) ⟨g, ls⟩ ⟨g', ls.set i l'⟩ := by
  induction h generalizing ls with
  | refl =>
    obtain ⟨hi, rfl⟩ := List.getElem?_eq_some_iff.mp hl
    rw [List.set_getElem_self hi]
    exact .refl
  | @step _ _ _ _ l' _ a hact _ ih =>
    obtain ⟨hi, _⟩ := List.getElem?_eq_some_iff.mp hl
    have hset : (ls.set i l')[i]? = some l' := List.getElem?_set_self hi
    have hnext := ih hset
    rw [List.set_set] at hnext
    refine Steps.trans (Steps.refl.step (e := (i, a)) rfl ?_) hnext
    dsimp only [system]
    rw [hl]
    dsimp only
    rw [hact]

/-! ## Counting threads -/

theorem countP_set_add {p : L → Bool} {ls : List L} {i : Nat} {l l' : L} (h : ls[i]? = some l) :
    (ls.set i l').countP p + (p l).toNat = ls.countP p + (p l').toNat := by
  obtain ⟨hi, hget⟩ := List.getElem?_eq_some_iff.mp h
  have hpos : p l = true → 0 < ls.countP p := fun hp =>
    List.countP_pos_iff.mpr ⟨l, List.mem_of_getElem? h, hp⟩
  rw [List.countP_set hi, hget]
  cases hold : p l with
  | false => cases p l' <;> simp
  | true =>
    have := hpos hold
    cases p l' <;> simp <;> omega

theorem countP_lt_length {p : L → Bool} {ls : List L} {i : Nat} {l : L} (h : ls[i]? = some l)
    (hp : p l = false) : ls.countP p < ls.length :=
  List.countP_lt_length_iff.mpr ⟨l, List.mem_of_getElem? h, hp⟩

end Threads

end Energiminer.Misc
