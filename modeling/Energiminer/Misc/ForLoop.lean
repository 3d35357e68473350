import Mathlib.Data.List.Basic

/-!
# Counting loops

`for (x = init; cond(x) && !stop(); x = next(x))` over any type of counters. The result is the list of
values the body ran for and the value the loop was left with. The step may fail, as checked
arithmetic does; a loop that is not left gives no result whatever the fuel. The iterations of a run
are told from a closed form of the counter: `forLoop_of_count` for a loop that is left after `n` of
them, `forLoop_interrupted` for one that may be stopped before, `forLoop_starts` for the first `n` of
any loop, `forLoop_eq_none` for a loop that is never left.
-/

namespace Energiminer.Misc
variable {σ : Type}

/-- The loop from counter `x` on; `calls` counts the calls of `stop` so far. -/
def forLoop (cond : σ → Bool) (next : σ → Option σ) (stop : Nat → Bool) :
    Nat → Nat → σ → Option (List σ × σ)
  | 0, _, _ => none
  | fuel + 1, calls, x =>
    if cond x && !stop calls then
      match next x with
      | none => none
      | some y => (forLoop cond next stop fuel (calls + 1) y).map fun r => (x :: r.1, r.2)
    else some ([], x)

variable {cond : σ → Bool} {next : σ → Option σ} {stop : Nat → Bool}

theorem forLoop_left {x : σ} (h : cond x = false) (fuel calls : Nat) :
    forLoop cond next stop (fuel + 1) calls x = some ([], x) := by
  simp [forLoop, h]

theorem forLoop_iterate {x y : σ} {calls : Nat} (h : cond x = true) (hstop : stop calls = false)
    (hnext : next x = some y) (fuel : Nat) :
    forLoop cond next stop (fuel + 1) calls x =
      (forLoop cond next stop fuel (calls + 1) y).map fun r => (x :: r.1, r.2) := by
  simp [forLoop, h, hstop, hnext]

/-- A loop whose counter is `f` and that is left at `f n`, or at the first call of `stop` that is
true. -/
theorem forLoop_interrupted (f : Nat → σ) (n : Nat) (hcond : ∀ k < n, cond (f k) = true)
    (hnext : ∀ k < n, next (f k) = some (f (k + 1))) (hlast : cond (f n) = false) (calls : Nat) :
    ∃ m ≤ n, forLoop cond next stop (n + 1) calls (f 0) = some ((List.range m).map f, f m) ∧
      (m < n → stop (calls + m) = true) := by
  induction n generalizing f calls with
  | zero => exact ⟨0, Nat.le_refl 0, forLoop_left hlast 0 calls, fun h => absurd h (Nat.lt_irrefl 0)⟩
  | succ n ih =>
    cases hstop : stop calls with
    | true =>
      refine ⟨0, Nat.zero_le _, ?_, fun _ => hstop⟩
      simp [forLoop, hstop]
    | false =>
      -- The rest of the loop counts with `f` shifted by one.
      obtain ⟨m, hm, hrest, hcalls⟩ := ih (fun k => f (k + 1))
        (fun k hk => hcond (k + 1) (Nat.succ_lt_succ hk))
        (fun k hk => hnext (k + 1) (Nat.succ_lt_succ hk)) hlast (calls + 1)
      refine ⟨m + 1, Nat.succ_le_succ hm, ?_, fun h => ?_⟩
      · rw [forLoop_iterate (hcond 0 (Nat.succ_pos n)) hstop (hnext 0 (Nat.succ_pos n)), hrest,
          List.range_succ_eq_map, List.map_cons, List.map_map]
        rfl
      · rw [← Nat.add_assoc, Nat.add_right_comm]
        exact hcalls (Nat.lt_of_succ_lt_succ h)

/-- A loop that is not stopped. -/
theorem forLoop_of_count (f : Nat → σ) (n : Nat) (hstop : ∀ k, stop k = false)
    (hcond : ∀ k < n, cond (f k) = true) (hnext : ∀ k < n, next (f k) = some (f (k + 1)))
    (hlast : cond (f n) = false) (calls : Nat) :
    forLoop cond next stop (n + 1) calls (f 0) = some ((List.range n).map f, f n) := by
  obtain ⟨m, hm, hloop, hcalls⟩ := forLoop_interrupted f n hcond hnext hlast calls
  have heq : m = n := by
    refine Nat.le_antisymm hm (Nat.not_lt.mp fun hlt => ?_)
    exact absurd ((hstop _).symm.trans (hcalls hlt)) Bool.false_ne_true
  rw [hloop, heq]

/-- A loop whose condition holds of a set of counters that the step does not leave. -/
theorem forLoop_eq_none (P : σ → Prop) (hstop : ∀ k, stop k = false)
    (hcond : ∀ x, P x → cond x = true) (hnext : ∀ x, P x → ∃ y, next x = some y ∧ P y)
    (fuel calls : Nat) {x : σ} (hx : P x) : forLoop cond next stop fuel calls x = none := by
  induction fuel generalizing calls x with
  | zero => rfl
  | succ fuel ih =>
    obtain ⟨y, hy, hPy⟩ := hnext x hx
    rw [forLoop_iterate (hcond x hx) (hstop calls) hy, ih (calls + 1) hPy]
    rfl

/-- The first iterations of a loop whose counter is `f` for the first `n` of them. -/
theorem forLoop_starts (f : Nat → σ) (n : Nat) (hstop : ∀ k, stop k = false)
    (hcond : ∀ k < n, cond (f k) = true) (hnext : ∀ k < n, next (f k) = some (f (k + 1)))
    {fuel calls : Nat} {r : List σ × σ} (h : forLoop cond next stop fuel calls (f 0) = some r) :
    ∃ rest, r.1 = (List.range n).map f ++ rest := by
  induction n generalizing f fuel calls r with
  | zero => exact ⟨r.1, rfl⟩
  | succ n ih =>
    cases fuel with
    | zero => cases h
    | succ fuel =>
      rw [forLoop_iterate (hcond 0 (Nat.succ_pos n)) (hstop calls) (hnext 0 (Nat.succ_pos n))] at h
      obtain ⟨r', hr', rfl⟩ := Option.map_eq_some_iff.mp h
      obtain ⟨rest, hrest⟩ := ih (fun k => f (k + 1)) (fun k hk => hcond (k + 1) (Nat.succ_lt_succ hk))
        (fun k hk => hnext (k + 1) (Nat.succ_lt_succ hk)) hr'
      refine ⟨rest, ?_⟩
      rw [List.range_succ_eq_map, List.map_cons, List.map_map, hrest]
      rfl

end Energiminer.Misc
