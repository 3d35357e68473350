import Energiminer.Getwork.Client

/-!
# Solo mining and available work

A template that equals the last one is not delivered again, but the work of the plant is reset by a
failed poll and by every submission, also of a stale solution or while not connected
(`GetworkClient.cpp:58-77`, `177-198`). Without these the plant always has the work of the last
template, or a solution of it was submitted.
-/

namespace Energiminer.Getwork
open Misc Primitives Stratum

/-- A solution of the work has been passed to `submitblock` since the work was delivered. -/
def Client.Solved (c : Client) (work : Work) : Prop := ∃ v ∈ c.submitted, v.eqv work

/-- The template of the last iteration is mined or solved. -/
def Client.Fed (c : Client) : Prop :=
  ∀ work, c.fetched = some work → c.plant.work.eqv work ∨ c.Solved work

/-- A template is repeated only if no poll has failed since it was delivered or a solution of it was
submitted, and while work is out, only solutions of it are submitted, and while connected. -/
def Fair (c : Client) : Event → Prop
  | .template work => c.currentWork.eqv work → c.failed = false ∨ c.Solved work
  | .submit solution => c.haveWork → c.connected ∧ solution.work.eqv c.currentWork
  | _ => True

/-- The last delivered work is mined or solved unless a poll has failed. -/
structure Client.Supplied (c : Client) : Prop where
  current : c.failed = false → c.plant.work.eqv c.currentWork ∨ c.Solved c.currentWork
  fetched : ∀ work, c.fetched = some work →
    c.currentWork.eqv work ∧ (c.failed = false ∨ c.Solved work)

section
variable {c d : Client} {work work' : Work}

theorem Client.Solved.congr (h : c.Solved work) (heq : work.eqv work') : c.Solved work' := by
  obtain ⟨v, hv, hsame⟩ := h
  exact ⟨v, hv, Work.eqv_trans hsame heq⟩

theorem Client.Supplied.fed (h : c.Supplied) : c.Fed := by
  intro work hfetched
  obtain ⟨heq, hfailed | hsolved⟩ := h.fetched work hfetched
  · rcases h.current hfailed with hplant | hsolved
    · exact .inl (Work.eqv_trans hplant heq)
    · exact .inr (hsolved.congr heq)
  · exact .inr hsolved

theorem supplied_receive (h : c.Supplied)
    (hfair : c.currentWork.eqv work → c.failed = false ∨ c.Solved work) :
    (c.receive work).Supplied := by
  rw [Client.receive]
  split
  · refine ⟨fun _ => .inl (Work.eqv_refl work), fun w hw => ?_⟩
    cases hw
    exact ⟨Work.eqv_refl work, .inl rfl⟩
  next hsame =>
    have heq : c.currentWork.eqv work = true := by simpa using hsame
    refine ⟨h.current, fun w hw => ?_⟩
    cases hw
    exact ⟨heq, hfair heq⟩

theorem supplied_fail (c : Client) : c.fail.Supplied :=
  ⟨fun h => absurd (show true = false from h) (by decide),
    fun w hw => absurd hw (Option.some_ne_none w).symm⟩

theorem supplied_submitSolution {solution : Solution} (h : c.Supplied)
    (hfair : c.haveWork → c.connected ∧ solution.work.eqv c.currentWork)
    (hd : c.submitSolution solution = .ok d) : d.Supplied := by
  rw [Client.submitSolution] at hd
  split at hd
  · cases hd
    exact h
  next hwork =>
    obtain ⟨hconnected, heq⟩ := hfair (by simpa using hwork)
    rw [if_neg (by simpa using hconnected)] at hd
    split at hd
    · cases hd
    · cases hd
      have hsolved : Client.Solved { c with
          plant := c.plant.resetWork, haveWork := false
          submitted := solution.work :: c.submitted } c.currentWork :=
        ⟨solution.work, List.mem_cons_self, heq⟩
      exact ⟨fun _ => .inr hsolved, fun w hw =>
        ⟨(h.fetched w hw).1, .inr (hsolved.congr (h.fetched w hw).1)⟩⟩

end

theorem supplied_step {c d : Client} {e : Event} (h : c.Supplied) (hfair : Fair c e)
    (hstep : step c e = some (.ok d)) : d.Supplied := by
  cases e with
  | template work =>
    cases hstep
    exact supplied_receive h hfair
  | failure =>
    cases hstep
    exact supplied_fail c
  | submit solution => exact supplied_submitSolution h hfair (Option.some.inj hstep)
  | connect | disconnect =>
    cases hstep
    exact ⟨h.current, h.fetched⟩

/-- In a fair run, whenever the last poll gave a template, the plant mines it or a solution of it has
been passed to `submitblock`. -/
theorem fed_of_fair {c : Client} (h : system.Reachable Fair c) : c.Fed := by
  have hsupplied : c.Supplied := by
    refine h.invariant ?_ fun _ _ _ hc hfair hstep => supplied_step hc hfair hstep
    rintro c rfl
    exact ⟨fun _ => .inl (Work.eqv_refl _), fun w hw => absurd hw (Option.some_ne_none w).symm⟩
  exact hsupplied.fed

/-- A template for the first block. -/
def firstTemplate : Work := { Work.blank with nHeight := 1, vtx := [CTransaction.new] }

/-- The template is polled twice. -/
theorem fed_of_fair_repeated :
    ∃ c : Client, c.fetched = some firstTemplate ∧ c.Fed := by
  have hmeets : system.Meets Fair {} [.connect, .template firstTemplate, .template firstTemplate] :=
    ⟨trivial, fun _ => .inl rfl, fun _ => .inl rfl, trivial⟩
  obtain ⟨c, hsteps, hc⟩ := Machine.steps_of_endsIn
    (p := fun c : Client => decide (c.fetched = some firstTemplate)) hmeets (by decide +kernel)
  exact ⟨c, of_decide_eq_true hc, fed_of_fair ⟨_, rfl, hsteps⟩⟩

/-- One poll fails, and the next one gives the same template, which the plant has lost. -/
theorem starves_after_failure :
    system.endsIn (fun c => decide (c.fetched = some firstTemplate) &&
        !c.plant.work.eqv firstTemplate && c.submitted.isEmpty)
      {} [.connect, .template firstTemplate, .failure, .template firstTemplate] = true := by
  decide +kernel

end Energiminer.Getwork
