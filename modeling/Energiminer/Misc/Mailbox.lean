import Energiminer.Misc.Runs

/-!
# Mailboxes

A value behind a lock and a flag that says that it was changed. A writer that enters looks at the value
and either leaves or writes, step by step, and raises the flag before it leaves. The reader lowers the
flag and copies the value while it holds the lock, and looks at the flag without it.
-/

namespace Energiminer.Misc

namespace Mailbox

/-- The one that holds the lock, and what it has still to do. -/
inductive Holder (V A : Type)
  /-- a writer that has to look at the value -/
  | entered (op : A)
  /-- a writer that found the value `before`, and has to write `values` and to raise the flag -/
  | writing (op : A) (before : V) (values : List V)
  /-- a writer that has to leave -/
  | leaving (changed : Bool)
  /-- the reader, which has to lower the flag -/
  | taking
  /-- the reader, which has to copy the value -/
  | lowered
  /-- the reader, which has to leave with its copy -/
  | copied (value : V)
  /-- the reader, which has nothing to do but to give back the lock -/
  | resting

/-- The holder is the reader. -/
def Holder.isReader {V A : Type} : Holder V A → Bool
  | .taking | .lowered | .copied _ | .resting => true
  | .entered _ | .writing .. | .leaving _ => false

/-- What the reader is told when it looks at the flag. -/
structure Answer where
  /-- a writer that changed the value has left since the value was taken -/
  changed : Bool
  flag : Bool

structure State (V A : Type) where
  value : V
  flag : Bool := false
  holder : Option (Holder V A) := none
  /-- the value that was taken last -/
  taken : V
  /-- a writer that changed the value has left since then -/
  changed : Bool := false
  answers : List Answer := []

/-- A mailbox that nobody has used. -/
def State.new {V : Type} (A : Type) (value : V) : State V A := { value, taken := value }

inductive Event (A : Type)
  /-- a writer gets the lock -/
  | enter (op : A)
  /-- the reader gets the lock to take the value -/
  | take
  /-- the reader gets the lock for nothing -/
  | rest
  /-- the holder does the next thing it has to do -/
  | advance
  /-- the reader looks at the flag -/
  | look

section
variable {V A F : Type} (plan : V → A → Except F (Option (List V)))

/-- The next step of the holder. The plan of a writer says which values it writes, if any. -/
def State.advance (s : State V A) : Holder V A → Except F (State V A)
  | .entered op =>
    match plan s.value op with
    | .ok none => .ok { s with holder := some (.leaving false) }
    | .ok (some values) => .ok { s with holder := some (.writing op s.value values) }
    | .error f => .error f
  | .writing op before (v :: values) =>
    .ok { s with value := v, holder := some (.writing op before values) }
  | .writing _ _ [] => .ok { s with flag := true, holder := some (.leaving true) }
  | .leaving changed => .ok { s with holder := none, changed := s.changed || changed }
  | .taking => .ok { s with flag := false, holder := some .lowered }
  | .lowered => .ok { s with holder := some (.copied s.value) }
  | .copied value => .ok { s with holder := none, taken := value, changed := false }
  | .resting => .ok { s with holder := none }

/-- The lock is got by one at a time, and the reader does one thing at a time. -/
def State.step (s : State V A) : Event A → Option (Except F (State V A))
  | .enter op => if s.holder.isNone then some (.ok { s with holder := some (.entered op) }) else none
  | .take => if s.holder.isNone then some (.ok { s with holder := some .taking }) else none
  | .rest => if s.holder.isNone then some (.ok { s with holder := some .resting }) else none
  | .advance => s.holder.map (s.advance plan)
  | .look =>
    if s.holder.any Holder.isReader then none
    else some (.ok { s with answers := ⟨s.changed, s.flag⟩ :: s.answers })

def system (value : V) : Machine (State V A) (Event A) F where
  init s := s = .new A value
  step := State.step plan

end

/-! ## What the reader may rely on -/

section
variable {V A F : Type} (plan : V → A → Except F (Option (List V)))

/-- Nothing has happened since the value was taken, unless the flag is up. -/
def State.Fresh (s : State V A) (value : V) : Prop :=
  s.flag = false → s.taken = value ∧ s.changed = false

/-- What holds while somebody has the lock. A writer has written the first values of its plan. -/
def State.Consistent (s : State V A) : Option (Holder V A) → Prop
  | some (.writing op before values) => s.Fresh before ∧
    ∃ done, plan before op = .ok (some (done ++ values)) ∧ s.value = done.getLastD before
  | some (.leaving true) => s.flag = true
  | some .lowered => s.flag = false
  | some (.copied v) => s.flag = false ∧ v = s.value
  | some (.entered _) | some (.leaving false) | some .taking | some .resting | none => s.Fresh s.value

structure Sound (s : State V A) : Prop where
  consistent : s.Consistent plan s.holder
  answers : ∀ a ∈ s.answers, a.changed = true → a.flag = true

variable {plan} {s t : State V A} {value : V}

theorem State.Fresh.of_raised (h : s.flag = true) : s.Fresh value :=
  fun hflag => absurd h (Bool.eq_false_iff.mp hflag)

theorem sound_new (value : V) : Sound plan (.new A value) :=
  ⟨fun _ => ⟨rfl, rfl⟩, fun _ h => nomatch h⟩

/-- The flag may be looked at while somebody else has the lock. -/
theorem Sound.changed (hs : Sound plan s) (hreader : ¬ s.holder.any Holder.isReader)
    (hchanged : s.changed = true) : s.flag = true := by
  have hfresh : ∀ v, s.Fresh v → s.flag = true := fun v h =>
    Decidable.by_contra fun hflag =>
      absurd hchanged (Bool.eq_false_iff.mp (h (Bool.eq_false_iff.mpr hflag)).2)
  obtain ⟨hcons, -⟩ := hs
  cases hholder : s.holder with
  | none =>
    rw [hholder] at hcons
    exact hfresh _ hcons
  | some h =>
    rw [hholder] at hcons hreader
    cases h with
    | entered op => exact hfresh _ hcons
    | writing op before values => exact hfresh _ hcons.1
    | leaving changed =>
      cases changed with
      | true => exact hcons
      | false => exact hfresh _ hcons
    | taking | lowered | copied v | resting => exact absurd rfl hreader

theorem Sound.advance {h : Holder V A} (hs : Sound plan s) (hh : s.holder = some h)
    (hstep : s.advance plan h = .ok t) : Sound plan t := by
  obtain ⟨hcons, hanswers⟩ := hs
  rw [hh] at hcons
  cases h with
  | entered op =>
    rw [State.advance] at hstep
    split at hstep
    next =>
      cases hstep
      exact ⟨hcons, hanswers⟩
    next values hplan =>
      cases hstep
      exact ⟨⟨hcons, [], hplan, rfl⟩, hanswers⟩
    next => cases hstep
  | writing op before values =>
    obtain ⟨hfresh, done, hplan, hvalue⟩ := hcons
    cases values with
    | nil =>
      cases hstep
      exact ⟨rfl, hanswers⟩
    | cons v values =>
      cases hstep
      refine ⟨⟨hfresh, done ++ [v], ?_, ?_⟩, hanswers⟩
      · rw [List.append_assoc]
        exact hplan
      · rw [List.getLastD_concat]
  | leaving changed =>
    cases hstep
    cases changed with
    | true => exact ⟨.of_raised hcons, hanswers⟩
    | false =>
      refine ⟨fun hflag => ⟨(hcons hflag).1, ?_⟩, hanswers⟩
      rw [(hcons hflag).2, Bool.or_false]
  | taking =>
    cases hstep
    exact ⟨rfl, hanswers⟩
  | lowered =>
    cases hstep
    exact ⟨⟨hcons, rfl⟩, hanswers⟩
  | copied v =>
    cases hstep
    exact ⟨fun _ => ⟨hcons.2, rfl⟩, hanswers⟩
  | resting =>
    cases hstep
    exact ⟨hcons, hanswers⟩

theorem Sound.hold (hs : Sound plan s) (hfree : s.holder.isNone) {h : Holder V A}
    (hcons : ∀ t : State V A, t.Fresh t.value → t.Consistent plan (some h)) :
    Sound plan { s with holder := some h } := by
  obtain ⟨hfresh, hanswers⟩ := hs
  rw [Option.isNone_iff_eq_none.mp hfree] at hfresh
  exact ⟨hcons _ hfresh, hanswers⟩

theorem Sound.step {e : Event A} (hs : Sound plan s) (hstep : s.step plan e = some (.ok t)) :
    Sound plan t := by
  cases e with
  | enter op | take | rest =>
    obtain ⟨hfree, heq⟩ := Option.ite_none_right_eq_some.mp hstep
    cases heq
    exact hs.hold hfree fun _ h => h
  | advance =>
    obtain ⟨h, hh, hadvance⟩ := Option.map_eq_some_iff.mp hstep
    exact hs.advance hh hadvance
  | look =>
    obtain ⟨hreader, heq⟩ := Option.ite_none_left_eq_some.mp hstep
    cases heq
    refine ⟨hs.consistent, fun a ha hchanged => ?_⟩
    rcases List.mem_cons.mp ha with rfl | ha
    · exact hs.changed hreader hchanged
    · exact hs.answers a ha hchanged

theorem sound_of_reachable (h : (system plan value).Reachable (fun _ _ => True) s) : Sound plan s :=
  h.invariant
    (fun s hs => by
      cases hs
      exact sound_new value)
    fun _ _ _ hs _ hstep => hs.step hstep

/-! ## The calls are atomic -/

/-- The value as it is for everybody but the holder of the lock, and the flag. -/
def State.settled (s : State V A) : V × Bool :=
  (match s.holder with
  | some (.writing _ before _) => before
  | _ => s.value, s.flag)

end

end Mailbox

end Energiminer.Misc
