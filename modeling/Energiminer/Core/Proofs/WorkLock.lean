import Energiminer.Core.Proofs.MinePlant
import Energiminer.Core.WorkLock

/-!
# No work is lost

What the mining thread knows about the work of its miner, and that each call of another thread is one
step for it, which is how the engines see the miner. Between the assignment of `m_work` and the store of
the flag, `haveNewWork` may still say no; the caller is inside then.
-/

namespace Energiminer.Core.WorkLock
open Misc Primitives Engines

variable {s t : Mailbox.State Work Writer}

/-- When the flag is down and nobody has the lock, the mining thread has the work of the miner, and
`haveNewWork` reports the changes that were made since `getWork`, until it is called again. -/
theorem no_lost_work (h : system.Reachable (fun _ _ => True) s) :
    (s.flag = false → s.holder = none → s.taken = s.value) ∧
      ∀ a ∈ s.answers, a.changed = true → a.flag = true := by
  obtain ⟨hcons, hanswers⟩ := Mailbox.sound_of_reachable h
  refine ⟨fun hflag hfree => ?_, hanswers⟩
  rw [hfree] at hcons
  exact (hcons hflag).1

/-- A work is set, reported and taken. -/
theorem no_lost_work_taken : ∃ s : Mailbox.State Work Writer,
    s.flag = false ∧ s.holder = none ∧ s.value.isValid ∧ s.taken = s.value ∧
      s.answers = [⟨true, true⟩] ∧ ∀ a ∈ s.answers, a.changed = true → a.flag = true := by
  obtain ⟨updated, hupdated⟩ := Work.updateExtraNonce_isSome MinePlant.hasCoinbase_template 0#32
  have hplan : Writer.plan .blank (.setWork MinePlant.template 0#32) =
      .ok (some [MinePlant.template, updated]) := by
    rw [Writer.plan, if_neg (by decide), hupdated]
  have hreplay : system.replay (.new Writer .blank) [.enter (.setWork MinePlant.template 0#32),
      .advance, .advance, .advance, .advance, .advance, .look, .take, .advance, .advance, .advance] =
      some (.ok { value := updated, taken := updated, answers := [⟨true, true⟩] }) := by
    simp [Machine.replay, system, Mailbox.system, Mailbox.State.step, Mailbox.State.advance,
      Mailbox.State.new, hplan]
  have hsteps := Machine.steps_of_replay (Machine.meets_true _ _) hreplay
  have hlost := no_lost_work ⟨_, rfl, hsteps⟩
  refine ⟨_, rfl, rfl, ?_, hlost.1 rfl rfl, rfl, hlost.2⟩
  have heqv := Work.eqv_of_updateExtraNonce hupdated
  simp only [Work.eqv, Bool.and_eq_true, decide_eq_true_eq] at heqv
  rw [Work.isValid, heqv.1.1.2]
  rfl

/-- What the engines see of the miner. -/
def assignment (s : Mailbox.State Work Writer) : Assignment :=
  { work := s.settled.1, newWorkAssigned := s.settled.2 }

end Energiminer.Core.WorkLock
