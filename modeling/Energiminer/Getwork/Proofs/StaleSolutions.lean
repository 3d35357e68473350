import Energiminer.Getwork.Proofs.Starvation

/-!
# Solo mining and stale solutions

`submitSolution` looks only at `m_have_work`, which is true while the last template that was delivered
has no submission (`GetworkClient.cpp:58-77`, `179-185`). It keeps a template from being submitted
twice, but does not tell a solution of it from one of an earlier template.
-/

namespace Energiminer.Getwork
open Misc Primitives Stratum

variable {c d : Client} {solution : Solution}

/-- `submitSolution` sends nothing, and leaves `m_have_work` and the work of the plant alone. -/
def Client.Ignores (c : Client) (solution : Solution) : Prop :=
  ∃ d, c.submitSolution solution = .ok d ∧ d.submitted = c.submitted ∧ d.haveWork = c.haveWork ∧
    d.plant = c.plant

/-- A template that is out was not submitted, and none was submitted more than once. -/
def Client.SubmittedOnce (c : Client) : Prop := c.submitted.length + c.haveWork.toNat ≤ 1

theorem submitSolution_of_haveWork (hwork : c.haveWork = true)
    (hd : c.submitSolution solution = .ok d) :
    d.haveWork = false ∧ (d.submitted = c.submitted ∨ d.submitted = solution.work :: c.submitted) := by
  rw [Client.submitSolution, hwork, Bool.not_true, if_neg Bool.false_ne_true] at hd
  dsimp only at hd
  split at hd
  next =>
    cases hd
    exact ⟨rfl, .inl rfl⟩
  next =>
    split at hd
    next => cases hd
    next =>
      cases hd
      exact ⟨rfl, .inr rfl⟩

theorem submitSolution_of_not_haveWork (hwork : c.haveWork = false) (solution : Solution) :
    c.submitSolution solution = .ok c := by
  rw [Client.submitSolution, hwork]
  rfl

theorem submittedOnce_submitSolution (h : c.SubmittedOnce) (hd : c.submitSolution solution = .ok d) :
    d.SubmittedOnce := by
  cases hwork : c.haveWork with
  | false =>
    rw [submitSolution_of_not_haveWork hwork] at hd
    cases hd
    exact h
  | true =>
    obtain ⟨htaken, hsubmitted⟩ := submitSolution_of_haveWork hwork hd
    rw [Client.SubmittedOnce, hwork] at h
    have hnone : c.submitted.length = 0 := Nat.le_zero.mp (Nat.le_of_succ_le_succ h)
    rw [Client.SubmittedOnce, htaken]
    rcases hsubmitted with hsame | hmore
    · rw [hsame, hnone]
      exact Nat.zero_le 1
    · rw [hmore, List.length_cons, hnone]
      exact Nat.le_refl 1

theorem submittedOnce_step {e : Event} (h : c.SubmittedOnce) (hstep : step c e = some (.ok d)) :
    d.SubmittedOnce := by
  cases e with
  | template work =>
    cases hstep
    rw [Client.receive]
    split
    · exact Nat.le_refl 1
    · exact h
  | submit solution => exact submittedOnce_submitSolution h (Option.some.inj hstep)
  | failure | connect | disconnect =>
    cases hstep
    exact h

theorem ignores_iff : c.Ignores solution ↔ c.haveWork = false := by
  constructor
  · rintro ⟨d, hd, _, hsame, _⟩
    refine Bool.eq_false_iff.mpr fun hwork => ?_
    rw [(submitSolution_of_haveWork hwork hd).1, hwork] at hsame
    cases hsame
  · intro hwork
    exact ⟨c, submitSolution_of_not_haveWork hwork solution, rfl, rfl, rfl⟩

/-- In every run at most one solution is submitted for each delivery of a template, and a stale one is
ignored exactly if no template is out. -/
theorem stale_ignored_iff {c : Client} (h : system.Reachable (fun _ _ => True) c) :
    c.submitted.length ≤ 1 ∧ ∀ solution : Solution, solution.work.eqv c.currentWork = false →
      (c.Ignores solution ↔ c.haveWork = false) := by
  have honce : c.SubmittedOnce := by
    refine h.invariant ?_ fun _ _ _ hc _ hstep => submittedOnce_step hc hstep
    rintro c rfl
    exact Nat.zero_le 1
  exact ⟨Nat.le_of_add_right_le honce, fun _ _ => ignores_iff⟩

/-- A template for the second block. -/
def secondTemplate : Work := { firstTemplate with nHeight := 2 }

/-- The second template was delivered and solved when a solution of the first one comes. -/
theorem stale_ignored_iff_solved :
    ∃ c : Client, (system.Reachable (fun _ _ => True) c ∧ c.submitted = [secondTemplate] ∧
        firstTemplate.eqv c.currentWork = false) ∧ c.submitted.length ≤ 1 ∧
      (c.Ignores ⟨firstTemplate⟩ ↔ c.haveWork = false) := by
  obtain ⟨c, hsteps, hc⟩ := Machine.steps_of_endsIn (M := system) (s := {})
    (p := fun c => decide (c.submitted = [secondTemplate] ∧ firstTemplate.eqv c.currentWork = false))
    (l := [.connect, .template firstTemplate, .template secondTemplate, .submit ⟨secondTemplate⟩])
    (Machine.meets_true _ _) (by decide +kernel)
  obtain ⟨hsubmitted, hstale⟩ := of_decide_eq_true hc
  have hreachable : system.Reachable (fun _ _ => True) c := ⟨_, rfl, hsteps⟩
  obtain ⟨honce, hignored⟩ := stale_ignored_iff hreachable
  exact ⟨c, ⟨hreachable, hsubmitted, hstale⟩, honce, hignored ⟨firstTemplate⟩ hstale⟩

/-- A solution of the first template comes when the second one was just delivered: it is submitted, the
work of the plant is reset, and no solution of the second template will be submitted. -/
theorem stale_submitted :
    ∃ c d : Client, system.Reachable (fun _ _ => True) c ∧ firstTemplate ∈ c.plant.delivered ∧
      firstTemplate.eqv c.currentWork = false ∧ c.submitSolution ⟨firstTemplate⟩ = .ok d ∧
      d.submitted = [firstTemplate] ∧ d.haveWork = false ∧ d.plant.work.isValid = false ∧
      ¬ c.Ignores ⟨firstTemplate⟩ := by
  obtain ⟨c, hsteps, hc⟩ := Machine.steps_of_endsIn (M := system) (s := {})
    (p := fun c => decide (firstTemplate ∈ c.plant.delivered ∧
        firstTemplate.eqv c.currentWork = false ∧ c.haveWork = true) &&
      system.endsIn (fun d => decide (d.submitted = [firstTemplate] ∧ d.haveWork = false ∧
        d.plant.work.isValid = false)) c [.submit ⟨firstTemplate⟩])
    (l := [.connect, .template firstTemplate, .template secondTemplate]) (Machine.meets_true _ _)
    (by decide +kernel)
  rw [Bool.and_eq_true, decide_eq_true_eq] at hc
  obtain ⟨⟨hdelivered, hstale, hwork⟩, hsubmit⟩ := hc
  obtain ⟨d, hstep, hd⟩ := Machine.step_of_endsIn hsubmit
  obtain ⟨hsubmitted, htaken, hreset⟩ := of_decide_eq_true hd
  refine ⟨c, d, ⟨_, rfl, hsteps⟩, hdelivered, hstale, Option.some.inj hstep, hsubmitted, htaken, hreset, ?_⟩
  rw [ignores_iff, hwork]
  exact Bool.noConfusion

end Energiminer.Getwork
