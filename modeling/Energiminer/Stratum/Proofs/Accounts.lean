import Energiminer.Stratum.Proofs.Tolerant

/-!
# What a step can do to the pleas and the job

Pleas are enqueued and cleared in many places, but they are taken off only for an answer of the
pool. The job changes only for a `mining.notify` with both parts of a coinbase, and is reset by
`mining.set_difficulty`.
-/

namespace Energiminer.Stratum
open Misc Misc.Json Misc.Except Primitives

/-- The counter, the times and the oldest time are those of the pleas that are not answered. -/
structure Pleas.Exact (p : Pleas) : Prop where
  count : p.count = p.unanswered.length
  times : p.times = p.unanswered.map Plea.time
  older : ∀ q qs, p.unanswered = q :: qs → p.older = q.time

/-- The pleas stay exact, the job stays or is reset, and no work was handed out. -/
structure Retained (s t : State) : Prop where
  pleas : s.pleas.Exact → t.pleas.Exact
  current : t.job.current = s.job.current ∨ t.job.current.isValid = false
  delivered : t.plant.delivered = s.plant.delivered

section Rules
variable {s t u : State}

theorem Retained.trans (hst : Retained s t) (htu : Retained t u) : Retained s u where
  pleas h := htu.pleas (hst.pleas h)
  current := by
    rcases htu.current with heq | hinvalid
    · rw [heq]
      exact hst.current
    · exact .inr hinvalid
  delivered := htu.delivered.trans hst.delivered

theorem Retained.of_eq (hpleas : t.pleas = s.pleas) (hjob : t.job.current = s.job.current)
    (hplant : t.plant.delivered = s.plant.delivered) : Retained s t :=
  ⟨fun h => hpleas ▸ h, .inl hjob, hplant⟩

theorem retained_enqueueResponsePlea (s : State) (request : Option (BitVec 32)) :
    Retained s (s.enqueueResponsePlea request) where
  pleas h := by
    refine ⟨?_, ?_, fun q qs heq => ?_⟩
    · simp [State.enqueueResponsePlea, h.count]
    · simp [State.enqueueResponsePlea, h.times]
    · -- The first plea is the oldest; another one comes after it.
      change s.pleas.unanswered ++ [⟨request, s.clock⟩] = q :: qs at heq
      change (if s.pleas.count = 0 then s.clock else s.pleas.older) = q.time
      rw [h.count]
      cases hold : s.pleas.unanswered with
      | nil =>
        rw [hold] at heq
        cases heq
        rfl
      | cons p ps =>
        rw [hold] at heq
        cases heq
        exact h.older _ _ hold
  current := .inl rfl
  delivered := rfl

theorem tolerant_retained : Tolerant Retained where
  trans := Retained.trans
  frame h := Retained.of_eq (congrArg View.pleas h) (congrArg View.current h)
    (congrArg View.delivered h)
  post _ _ := Retained.of_eq rfl rfl rfl
  clear _ := ⟨fun _ => ⟨rfl, rfl, fun _ _ h => (nomatch h)⟩, .inl rfl, rfl⟩
  enqueue := retained_enqueueResponsePlea
  logout _ := Retained.of_eq rfl rfl rfl
  elapse _ _ := Retained.of_eq rfl rfl rfl

/-- Every message that is not a job keeps the pleas exact and keeps or resets the job. -/
theorem allowed_retained {d : Deed} (h : ∀ jPrm, d ≠ .job jPrm) : d.Allowed Retained := by
  cases d with
  | login isSuccess proxy =>
    exact ⟨fun _ => .of_eq rfl rfl rfl, fun _ _ => ⟨fun _ => .of_eq rfl rfl rfl,
      fun _ => .of_eq rfl rfl rfl⟩⟩
  | authorization isSuccess => exact ⟨fun _ => .of_eq rfl rfl rfl, fun _ _ => .of_eq rfl rfl rfl⟩
  | job jPrm => exact absurd rfl (h jPrm)
  | difficulty => exact fun _ _ => ⟨fun h => h, .inr rfl, rfl⟩
  | other => trivial

end Rules

section Step
variable {s : State} {e : Event} {r : Except Fault State}

/-- A step that takes no job; the pleas are changed by an answer first. -/
theorem retains_step_of_not_job (h : step s e = some r) (hjob : ∀ jPrm, s.receives e ≠ .job jPrm) :
    ∃ ps, Relates Retained ((s.receives e).account { s with pending := ps }) r := by
  obtain ⟨ps, hps⟩ := s.taken_eq e
  have hallowed : (s.deed e).Allowed Retained :=
    allowed_retained fun jPrm hdeed => hjob jPrm (State.deed_eq_job.mp hdeed)
  exact ⟨ps, hps ▸ tolerant_retained.step_of_allowed h hallowed (fun _ _ _ => .of_eq rfl rfl rfl)
    fun _ _ => .of_eq rfl rfl rfl⟩

end Step

section Difficulty
variable {s t : State} {e : Event} {u : Uri} {m : Message} {jPrm responseObject : Value}

theorem current_of_miningSetDifficulty (harray : jPrm.isArray = true)
    (h : miningSetDifficulty s jPrm = .ok t) : t.job.current = s.job.current.reset := by
  rw [miningSetDifficulty, if_pos harray] at h
  obtain ⟨diff, -, h⟩ := bind_eq_ok.mp h
  split at h
  · cases h
  · cases h
  · cases h
    rfl

theorem notification_of_setsDifficulty (hu : s.uri? = some u) (h : setsDifficulty u m jPrm = true) :
    notification s m jPrm = miningSetDifficulty s jPrm := by
  simp only [setsDifficulty, Bool.and_eq_true, decide_eq_true_eq] at h
  obtain ⟨⟨hconfirmed, hmethod⟩, -⟩ := h
  rw [notification, State.uri_eq_ok_iff.mpr hu, ok_bind, hconfirmed, hmethod, if_neg (by decide),
    if_neg (by decide), if_pos rfl]

theorem processResponse_of_difficulty (h : s.deedFor responseObject = .difficulty) :
    ∃ jPrm, jPrm.isArray = true ∧
      processResponse s responseObject = miningSetDifficulty s jPrm := by
  rw [State.deedFor] at h
  split at h
  next m u hm hu =>
    obtain ⟨hnote, hvalid, hsets⟩ := eq_true_of_deedOf_difficulty h
    have harray : (memberOf responseObject "params").isArray = true := (Bool.and_eq_true_iff.mp hsets).2
    refine ⟨_, harray, ?_⟩
    rw [processResponse, hm, throws]
    change s.uri >>= _ = _
    rw [State.uri_eq_ok_iff.mpr hu, ok_bind, dispatch]
    dsimp only
    rw [ofProxy_of_setsDifficulty hsets, hvalid, hnote, if_neg (by decide), if_pos rfl,
      notification_of_setsDifficulty hu hsets]
  next => cases h

theorem current_of_difficulty (h : s.deed e = .difficulty) (hstep : step s e = some (.ok t)) :
    t.job.current = s.job.current.reset := by
  obtain ⟨ps, hps⟩ := s.taken_eq e
  rw [State.deed] at h
  split at h
  next v hp =>
    have hdeed : (s.taken e).deedFor v = .difficulty := by
      rwa [State.deedFor, State.uri?_taken]
    obtain ⟨jPrm, harray, hprocess⟩ := processResponse_of_difficulty hdeed
    have hset := current_of_miningSetDifficulty harray
      (hprocess.symm.trans (step_of_processed hstep hp).symm)
    rw [hset, hps]
  next => cases h

/-- A step that neither takes a job nor sets the difficulty keeps the job. -/
theorem current_of_step (hjob : ∀ jPrm, s.deed e ≠ .job jPrm) (hdifficulty : s.deed e ≠ .difficulty)
    (hstep : step s e = some (.ok t)) : t.job.current = s.job.current := by
  have hallowed : (s.deed e).Allowed fun s t : State => t.job.current = s.job.current := by
    cases hdeed : s.deed e with
    | login isSuccess proxy => exact ⟨fun _ => rfl, fun _ _ => ⟨fun _ => rfl, fun _ => rfl⟩⟩
    | authorization isSuccess => exact ⟨fun _ => rfl, fun _ _ => rfl⟩
    | job jPrm => exact absurd hdeed (hjob jPrm)
    | difficulty => exact absurd hdeed hdifficulty
    | other => trivial
  exact untouched_of_step (f := View.current) (fun _ _ _ _ _ _ => rfl) hstep hallowed
    (fun _ _ _ => rfl) fun _ _ => rfl

end Difficulty

end Energiminer.Stratum
