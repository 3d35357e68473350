/-!
# Runs of event-driven systems

A system that takes one event at a time, and the states its runs reach. A condition on the steps
of a run is a relation between the state before a step and the event.
-/

namespace Energiminer.Misc

/-- A system. An event that cannot happen in a state has no outcome; one that can happen fails or
leads to the next state. -/
structure Machine (S E F : Type) where
  init : S → Prop
  step : S → E → Option (Except F S)

namespace Machine
variable {S E F : Type}

/-- The states that are reached from `s` by events that meet the condition `C`. -/
inductive Steps (M : Machine S E F) (C : S → E → Prop) (s : S) : S → Prop
  | refl : Steps M C s s
  | step {t u : S} {e : E} : Steps M C s t → C t e → M.step t e = some (.ok u) → Steps M C s u

/-- The states of the runs whose events all meet the condition `C`. -/
def Reachable (M : Machine S E F) (C : S → E → Prop) (t : S) : Prop :=
  ∃ s, M.init s ∧ M.Steps C s t

/-- The run over a list of events, up to the first that cannot happen or fails. -/
def replay (M : Machine S E F) : S → List E → Option (Except F S)
  | s, [] => some (.ok s)
  | s, e :: es =>
    match M.step s e with
    | some (.ok t) => M.replay t es
    | r => r

variable {M : Machine S E F} {C D : S → E → Prop} {I : S → Prop} {s t : S}

/-- The step of a system in which nothing fails. -/
theorem eq_some_of_map_ok {next : Option S} (h : next.map (Except.ok : S → Except F S) = some (.ok t)) :
    next = some t := by
  obtain ⟨u, hnext, hok⟩ := Option.map_eq_some_iff.mp h
  cases hok
  exact hnext

/-- What a step keeps, a run keeps. -/
theorem Steps.invariant (h : M.Steps C s t)
    (hstep : ∀ s e t, I s → C s e → M.step s e = some (.ok t) → I t) (hs : I s) : I t := by
  induction h with
  | refl => exact hs
  | step _ hC hu ih => exact hstep _ _ _ ih hC hu

theorem Steps.mono (h : M.Steps C s t) (hCD : ∀ s e, C s e → D s e) : M.Steps D s t := by
  induction h with
  | refl => exact .refl
  | step _ hC hu ih => exact ih.step (hCD _ _ hC) hu

theorem Steps.trans {u : S} (hst : M.Steps C s t) (htu : M.Steps C t u) : M.Steps C s u := by
  induction htu with
  | refl => exact hst
  | step _ hC hu ih => exact ih.step hC hu

/-- What holds at the start and is kept by every step holds in every state of a run. -/
theorem Reachable.invariant (h : M.Reachable C t) (hinit : ∀ s, M.init s → I s)
    (hstep : ∀ s e t, I s → C s e → M.step s e = some (.ok t) → I t) : I t := by
  obtain ⟨s, hs, hrun⟩ := h
  exact hrun.invariant hstep (hinit s hs)

/-- A system whose steps are runs of another one, seen through `f`, only reaches states that the
other one reaches. -/
theorem Reachable.simulates {T G H : Type} {N : Machine T G H} {D : T → G → Prop} {f : S → T}
    (h : M.Reachable C t) (hinit : ∀ s, M.init s → N.init (f s) ∧ I s)
    (hstep : ∀ s e t, I s → C s e → M.step s e = some (.ok t) → N.Steps D (f s) (f t) ∧ I t) :
    N.Reachable D (f t) := by
  refine (Reachable.invariant (I := fun s => N.Reachable D (f s) ∧ I s) h ?_ ?_).1
  · intro s hs
    exact ⟨⟨f s, (hinit s hs).1, .refl⟩, (hinit s hs).2⟩
  · rintro s e t ⟨⟨s₀, hs₀, hrun⟩, hI⟩ hC hnext
    obtain ⟨hsteps, hI'⟩ := hstep s e t hI hC hnext
    exact ⟨⟨s₀, hs₀, hrun.trans hsteps⟩, hI'⟩

/-- The events of a list meet the condition `C` one after the other, as far as the run goes. -/
def Meets (M : Machine S E F) (C : S → E → Prop) : S → List E → Prop
  | _, [] => True
  | s, e :: es => C s e ∧ match M.step s e with
    | some (.ok t) => M.Meets C t es
    | _ => True

instance decidableMeets [∀ s e, Decidable (C s e)] :
    (s : S) → (es : List E) → Decidable (M.Meets C s es)
  | _, [] => .isTrue trivial
  | s, e :: es =>
    have : Decidable (match M.step s e with
        | some (.ok t) => M.Meets C t es
        | _ => True) :=
      match M.step s e with
      | some (.ok t) => decidableMeets t es
      | some (.error _) => .isTrue trivial
      | none => .isTrue trivial
    instDecidableAnd

/-- A condition on the events alone does not depend on the run. -/
theorem meets_of_forall {D : E → Prop} {es : List E} (h : ∀ e ∈ es, D e) (s : S) :
    M.Meets (fun _ e => D e) s es := by
  induction es generalizing s with
  | nil => trivial
  | cons e es ih =>
    refine ⟨h e List.mem_cons_self, ?_⟩
    split
    · exact ih (fun e he => h e (List.mem_cons_of_mem _ he)) _
    · trivial

theorem meets_true (s : S) (es : List E) : M.Meets (fun _ _ => True) s es :=
  meets_of_forall (fun _ _ => trivial) s

theorem steps_of_replay {l : List E} (hmeets : M.Meets C s l)
    (h : M.replay s l = some (.ok t)) : M.Steps C s t := by
  induction l generalizing s with
  | nil =>
    cases h
    exact .refl
  | cons e l ih =>
    rw [replay] at h
    split at h
    next u hstep =>
      have hrest := hmeets.2
      rw [hstep] at hrest
      exact (Steps.refl.step hmeets.1 hstep).trans (ih hrest h)
    next hstep => exact absurd h (hstep t)

/-- The run over a list of events ends in a state with the property `p`. -/
def endsIn (M : Machine S E F) (p : S → Bool) (s : S) (es : List E) : Bool :=
  match M.replay s es with
  | some (.ok t) => p t
  | _ => false

/-- The event fails in the state, with a failure that has the property `p`. -/
def failsIn (M : Machine S E F) (p : F → Bool) (s : S) (e : E) : Bool :=
  match M.step s e with
  | some (.error f) => p f
  | _ => false

theorem step_of_failsIn {p : F → Bool} {e : E} (h : M.failsIn p s e = true) :
    ∃ f, M.step s e = some (.error f) ∧ p f = true := by
  rw [failsIn] at h
  split at h
  next f hstep => exact ⟨f, hstep, h⟩
  next => cases h

theorem endsIn_mono {p q : S → Bool} {es : List E} (h : M.endsIn p s es = true)
    (hpq : ∀ t, p t = true → q t = true) : M.endsIn q s es = true := by
  rw [endsIn] at h ⊢
  split at h
  next t _ => exact hpq t h
  next => cases h

theorem endsIn_cons {e : E} (h : M.step s e = some (.ok t)) (p : S → Bool) (es : List E) :
    M.endsIn p s (e :: es) = M.endsIn p t es := by
  rw [endsIn, replay, h]
  rfl

theorem steps_of_endsIn {p : S → Bool} {l : List E} (hmeets : M.Meets C s l)
    (h : M.endsIn p s l = true) : ∃ t, M.Steps C s t ∧ p t = true := by
  rw [endsIn] at h
  split at h
  next t hreplay => exact ⟨t, steps_of_replay hmeets hreplay, h⟩
  next => cases h

theorem step_of_endsIn {p : S → Bool} {e : E} (h : M.endsIn p s [e] = true) :
    ∃ t, M.step s e = some (.ok t) ∧ p t = true := by
  rw [endsIn] at h
  split at h
  next t hreplay =>
    rw [replay] at hreplay
    split at hreplay
    next u hstep =>
      cases hreplay
      exact ⟨_, hstep, h⟩
    next hstep => exact absurd hreplay (hstep t)
  next => cases h

/-! ## Records -/

/-- The system together with a record of its run, to which each step adds its note. -/
def recorded {G : Type} (M : Machine S E F) (start : G) (note : G → S → E → S → G) :
    Machine (S × G) E F where
  init x := M.init x.1 ∧ x.2 = start
  step x e :=
    match M.step x.1 e with
    | some (.ok t) => some (.ok (t, note x.2 x.1 e t))
    | some (.error f) => some (.error f)
    | none => none

section Recorded
variable {G : Type} {start g g' : G} {note : G → S → E → S → G} {e : E}

theorem recorded_step_eq_ok :
    (M.recorded start note).step (s, g) e = some (.ok (t, g')) ↔
      M.step s e = some (.ok t) ∧ g' = note g s e t := by
  dsimp only [recorded]
  split
  next u hu =>
    rw [Option.some.injEq, Except.ok.injEq, Prod.mk.injEq]
    constructor
    · rintro ⟨rfl, rfl⟩
      exact ⟨hu, rfl⟩
    · rintro ⟨hstep, rfl⟩
      cases hu.symm.trans hstep
      exact ⟨rfl, rfl⟩
  next f hf => exact ⟨nofun, fun h => (nomatch hf.symm.trans h.1)⟩
  next hnone => exact ⟨nofun, fun h => (nomatch hnone.symm.trans h.1)⟩

/-- A run starts with an empty record. -/
theorem Steps.reachable_recorded {C : S × G → E → Prop} (hs : M.init s)
    (h : (M.recorded start note).Steps C (s, start) (t, g)) :
    (M.recorded start note).Reachable C (t, g) := ⟨(s, start), ⟨hs, rfl⟩, h⟩

/-- What relates the state and the record at the start and is kept by every step holds along the
run. -/
theorem Reachable.recorded_invariant {C : S × G → E → Prop} {I : S → G → Prop}
    (h : (M.recorded start note).Reachable C (s, g)) (hinit : ∀ s, M.init s → I s start)
    (hstep : ∀ s g e t, I s g → C (s, g) e → M.step s e = some (.ok t) → I t (note g s e t)) :
    I s g := by
  refine Reachable.invariant (I := fun x => I x.1 x.2) h ?_ ?_
  · rintro ⟨s, g⟩ ⟨hs, rfl⟩
    exact hinit s hs
  · rintro ⟨s, g⟩ e ⟨t, g'⟩ hI hC hnext
    obtain ⟨hnext', rfl⟩ := recorded_step_eq_ok.mp hnext
    exact hstep s g e t hI hC hnext'

end Recorded

end Machine

end Energiminer.Misc
