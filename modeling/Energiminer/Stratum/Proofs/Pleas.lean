import Energiminer.Stratum.Proofs.Accounts

/-!
# The responses the client waits for

The counter of pleas and the time of the oldest one are exact as long as no two pleas overlap when
one of them is answered. `dequeue_response_plea` stores the time of the plea that it takes off, not
of the next one; an answer to a share takes off two pleas; and an answer with id 1 or 999 takes off
a plea that was never made for it (`StratumClient.cpp:641-860`, `1086-1125`).
-/

namespace Energiminer.Stratum
open Misc Misc.Json Misc.Except Primitives

/-- An answer with the id leaves the pleas exact: it takes none off, none is there, or the only one
there is the one it answers. -/
def Pleas.MayAnswer (p : Pleas) (id : BitVec 32) : Prop :=
  id ∈ [1, 3, 4, 999] → p.unanswered = [] ∨
    (id = 3 ∨ id = 4) ∧ ∃ q, p.unanswered = [q] ∧ q.request = some id

section Answer
variable {s : State} {id : BitVec 32}

theorem exact_dequeue_of_none (h : s.pleas.Exact) (hnone : s.pleas.unanswered = []) :
    s.dequeueResponsePlea.pleas.Exact ∧ s.dequeueResponsePlea.pleas.unanswered = [] := by
  have hcount : s.pleas.count = 0 := by rw [h.count, hnone, List.length_nil]
  have htimes : s.pleas.times = [] := by rw [h.times, hnone, List.map_nil]
  refine ⟨⟨?_, ?_, fun q qs heq => ?_⟩, hnone⟩
  · change s.pleas.count - 1 = s.pleas.unanswered.length
    rw [hcount, hnone, List.length_nil]
  · change s.pleas.times.drop 1 = s.pleas.unanswered.map Plea.time
    rw [htimes, hnone]
    rfl
  · exact absurd (hnone.symm.trans heq) (List.cons_ne_nil q qs).symm

theorem answered_of_none (hnone : s.pleas.unanswered = []) : s.answered id = s := by
  have hpleas : s.pleas.unanswered.eraseP (fun p => decide (p.request = some id)) =
      s.pleas.unanswered := by
    rw [hnone]
    rfl
  rw [State.answered, hpleas]

theorem exact_dequeue_of_answered {q : Plea} (h : s.pleas.Exact)
    (hone : s.pleas.unanswered = [q]) (hid : q.request = some id) :
    (s.answered id).dequeueResponsePlea.pleas.Exact ∧
      (s.answered id).dequeueResponsePlea.pleas.unanswered = [] := by
  have hnone : (s.answered id).dequeueResponsePlea.pleas.unanswered = [] := by
    change s.pleas.unanswered.eraseP (fun p => decide (p.request = some id)) = []
    simp [hone, hid]
  refine ⟨⟨?_, ?_, fun p ps heq => ?_⟩, hnone⟩
  · rw [hnone]
    change s.pleas.count - 1 = 0
    rw [h.count, hone]
    rfl
  · rw [hnone]
    change s.pleas.times.drop 1 = []
    rw [h.times, hone]
    rfl
  · exact absurd (hnone.symm.trans heq) (List.cons_ne_nil p ps).symm

theorem exact_dequeue_answered (h : s.pleas.Exact) (hmay : s.pleas.unanswered = [] ∨
    ∃ q, s.pleas.unanswered = [q] ∧ q.request = some id) :
    (s.answered id).dequeueResponsePlea.pleas.Exact ∧
      (s.answered id).dequeueResponsePlea.pleas.unanswered = [] := by
  rcases hmay with hnone | ⟨q, hone, hid⟩
  · rw [answered_of_none hnone]
    exact exact_dequeue_of_none h hnone
  · exact exact_dequeue_of_answered h hone hid

theorem exact_afterAnswer (h : s.pleas.Exact) (hmay : s.pleas.MayAnswer id) :
    (s.afterAnswer id).pleas.Exact := by
  rw [State.afterAnswer]
  split
  next hid =>
    subst hid
    rcases hmay (by decide) with hnone | ⟨hid, _⟩
    · exact (exact_dequeue_of_none h hnone).1
    · exact absurd hid (by decide)
  next =>
    split
    next hid =>
      subst hid
      exact (exact_dequeue_answered h ((hmay (by decide)).imp_right And.right)).1
    next =>
      split
      next hid =>
        subst hid
        have honce := exact_dequeue_answered h ((hmay (by decide)).imp_right And.right)
        exact (exact_dequeue_of_none honce.1 honce.2).1
      next =>
        split
        next hid =>
          subst hid
          rcases hmay (by decide) with hnone | ⟨hid, _⟩
          · exact (exact_dequeue_of_none h hnone).1
          · exact absurd hid (by decide)
        next => exact h

end Answer

/-- An answer comes while no plea is unanswered, or for the only one that is. -/
def OneAtATime (s : State) (e : Event) : Prop :=
  ∀ id, s.receives e = .answer id → s.pleas.MayAnswer id

theorem exact_initial {s : State} (h : Initial s) : s.pleas.Exact := by
  obtain ⟨cfg, connections, maxTries, failoverTimeout, _, _, rfl⟩ := h
  exact ⟨rfl, rfl, fun _ _ h => (nomatch h)⟩

theorem exact_step {s t : State} {e : Event} (h : s.pleas.Exact) (he : OneAtATime s e)
    (hstep : step s e = some (.ok t)) : t.pleas.Exact := by
  cases hreceives : s.receives e with
  | job jPrm =>
    obtain ⟨ps, htake⟩ := takeJob_of_step hstep hreceives
    obtain ⟨resetJob, work, _, _, rfl⟩ := takeJob_eq_ok htake.symm
    split
    · exact h
    · exact h
  | answer id =>
    obtain ⟨ps, hkept⟩ := retains_step_of_not_job hstep
      fun _ hjob => (nomatch hreceives.symm.trans hjob)
    rw [hreceives] at hkept
    exact hkept.pleas (exact_afterAnswer h (he id hreceives))
  | other =>
    obtain ⟨ps, hkept⟩ := retains_step_of_not_job hstep
      fun _ hjob => (nomatch hreceives.symm.trans hjob)
    rw [hreceives] at hkept
    exact hkept.pleas h

theorem pleas_exact_of_reachable {s : State} (h : system.Reachable OneAtATime s) : s.pleas.Exact :=
  h.invariant (fun _ => exact_initial) fun _ _ _ hs he hstep => exact_step hs he hstep

/-- As long as an answer comes only while no plea or just its own is unanswered, the counter is the
number of unanswered pleas and `m_response_plea_older` is the time of the oldest one. -/
theorem pleas_exact {s : State} (h : system.Reachable OneAtATime s) :
    s.pleas.count = s.pleas.unanswered.length ∧
      ∀ q qs, s.pleas.unanswered = q :: qs → s.pleas.older = q.time := by
  have hexact := pleas_exact_of_reachable h
  exact ⟨hexact.count, hexact.older⟩

/-- The login of a pool: the answers to `mining.subscribe` and `mining.authorize`, and a job. -/
def loginScript : List Value :=
  [answerTo 1 (.array [.null, .string "ab"]), answerTo 3 (.bool true), jobNamed "job" true,
    answerTo 4 (.bool true)]

/-- The request for an authorization is not answered yet. -/
theorem pleas_exact_authorizing :
    ∃ s : State, s.pleas.unanswered = [⟨some 3, 0⟩] ∧
      s.pleas.count = s.pleas.unanswered.length ∧
      ∀ q qs, s.pleas.unanswered = q :: qs → s.pleas.older = q.time := by
  have hmeets : system.Meets OneAtATime (scriptedClient loginScript [poolOn "a" .none])
      (connecting ++ message 0) :=
    ⟨fun _ h => (nomatch h), fun _ h => (nomatch h), fun _ h => (nomatch h),
      fun _ h => (nomatch h), fun _ h => (nomatch h), fun _ h => (nomatch h),
      fun _ h => (nomatch h), fun _ h => (nomatch h), fun _ _ _ => .inl rfl, trivial⟩
  obtain ⟨s, hsteps, hs⟩ := Machine.steps_of_endsIn
    (p := fun s : State => decide (s.pleas.unanswered = [⟨some 3, 0⟩])) hmeets (by decide +kernel)
  exact ⟨s, of_decide_eq_true hs, pleas_exact ⟨_, initial_scriptedClient (by simp), hsteps⟩⟩

/-- The pool answers the first of two shares, which takes off both pleas. -/
theorem second_plea_lost :
    Initial (scriptedClient loginScript [poolOn "a" .none]) ∧
      system.endsIn (fun s => decide (s.pleas.count = 0) &&
          decide (s.pleas.unanswered = [⟨some 4, 2000⟩]))
        (scriptedClient loginScript [poolOn "a" .none])
        (connecting ++ message 0 ++ message 1 ++ message 2 ++
          [.elapse 1000, .found ⟨workNamed "job" "ab"⟩, .elapse 1000,
            .found ⟨workNamed "job" "ab"⟩] ++ message 3) = true :=
  ⟨initial_scriptedClient (by simp), by decide +kernel⟩

end Energiminer.Stratum
