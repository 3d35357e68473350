import Energiminer.Core.Proofs.MinePlant
import Energiminer.Stratum.Proofs.Jobs

/-!
# Shares that are thrown away as stale

A solution is compared with `m_current`, while the miners work on a copy of it that was handed out
with the last job. A new difficulty does not reach the miners before the next job, but it resets
`m_current` at once (`StratumClient.cpp:887-900`, `940-985`), so every solution until then is stale.
-/

namespace Energiminer.Stratum
open Misc Misc.Json Misc.Except Primitives

/-- The work of the last `mining.notify` that was processed, and whether the difficulty has been set
since. -/
structure LastJob where
  work : Option Work := none
  difficultySet : Bool := false

/-- A job replaces the last one, and a difficulty is noted. -/
def LastJob.note (r : LastJob) (s : State) (e : Event) (_ : State) : LastJob :=
  match s.deed e with
  | .job jPrm => ⟨(Work.ofStratum jPrm s.job.extraNonce1 s.job.nextWorkTarget).toOption, false⟩
  | .difficulty => { r with difficultySet := true }
  | _ => r

/-- The runs of the client with their last job. -/
def jobSystem : Machine (State × LastJob) Event Fault := system.recorded {} LastJob.note

/-- A miner's solution on a work: it has set an extra nonce, and then found a nonce with its mix. -/
def SolvedFrom (work : Work) (solution : Solution) : Prop :=
  work.isValid ∧ ∃ extraNonce updated nNonce hashMix, work.updateExtraNonce extraNonce = some updated ∧
    solution.work = { updated with nNonce := nNonce, hashMix := hashMix }

/-- The solution is sent in a `mining.submit` request. -/
def Submits (s : State) (solution : Solution) : Prop :=
  ∃ t jReq, submission s solution = some jReq ∧ onSolutionFound s solution = .ok t ∧
    t.out = s.out.send (writeRequest s.cfg.jWriter jReq)

section Solutions
variable {work : Work} {solution : Solution}

theorem SolvedFrom.eqv (h : SolvedFrom work solution) : solution.work.eqv work := by
  obtain ⟨_, extraNonce, updated, nNonce, hashMix, hupdated, heq⟩ := h
  have heqv := Work.eqv_of_updateExtraNonce hupdated
  rwa [heq]

theorem SolvedFrom.isValid (h : SolvedFrom work solution) : solution.work.isValid = true := by
  rw [eqv_isValid h.eqv]
  exact h.1

theorem vtx_of_updateExtraNonce {updated : Work} {extraNonce : BitVec 32}
    (h : work.updateExtraNonce extraNonce = some updated) : updated.vtx ≠ [] := by
  rw [Work.updateExtraNonce, Work.mutateCoinbase] at h
  split at h
  next => cases h
  next =>
    obtain ⟨coinbase, -, rfl⟩ := Option.map_eq_some_iff.mp h
    exact List.cons_ne_nil _ _

theorem SolvedFrom.getBlockTransaction (h : SolvedFrom work solution) :
    ∃ transaction, solution.getBlockTransaction = some transaction := by
  have hvalid := h.isValid
  obtain ⟨_, extraNonce, updated, nNonce, hashMix, hupdated, heq⟩ := h
  obtain ⟨tx, vtx, hvtx⟩ := List.exists_cons_of_ne_nil (vtx_of_updateExtraNonce hupdated)
  rw [Solution.getBlockTransaction, if_pos hvalid, heq, Work.getBlockTransaction]
  change ∃ transaction, updated.vtx.head?.map _ = some transaction
  rw [hvtx]
  exact ⟨_, rfl⟩

end Solutions

section Submitting
variable {s t : State} {solution : Solution} {jReq : Value}

/-- There is a pool, and a socket for its level of security. -/
def State.canSend (s : State) : Prop := ∃ u, s.uri? = some u ∧ (s.chosen u).isSome

theorem sendSocketData_of_canSend (h : s.canSend) (jReq : Value) :
    ∃ t, sendSocketData s jReq = .ok t := by
  obtain ⟨u, hu, hchosen⟩ := h
  obtain ⟨i, hi⟩ := Option.isSome_iff_exists.mp hchosen
  rw [sendSocketData]
  split
  · exact ⟨_, rfl⟩
  · rw [State.uri_eq_ok_iff.mpr hu, ok_bind, hi]
    exact ⟨_, rfl⟩

theorem canSend_of_sendSocketData (h : sendSocketData s jReq = .ok t) (hc : s.isConnected = true) :
    s.canSend := by
  rw [sendSocketData, hc, if_neg (by decide)] at h
  obtain ⟨u, hu, h⟩ := bind_eq_ok.mp h
  obtain ⟨i, hi, -⟩ := bind_eq_ok.mp h
  refine ⟨u, State.uri_eq_ok_iff.mp hu, ?_⟩
  cases hchosen : s.chosen u with
  | none =>
    rw [hchosen] at hi
    cases hi
  | some j => rfl

theorem onSolutionFound_of_submission (h : submission s solution = some jReq) :
    onSolutionFound s solution = sendSocketData (s.enqueueResponsePlea (some 4)) jReq := by
  obtain ⟨hc, hsub, hauth⟩ := isConnected_of_submission h
  rw [submission, hc, hsub, hauth] at h
  rw [onSolutionFound, if_pos hc, submitSolution, hsub, hauth]
  rw [if_neg (by decide)] at h ⊢
  split at h
  · cases h
  next hfresh =>
    rw [if_neg hfresh]
    split at h
    · cases h
    next hfew =>
      rw [if_neg hfew]
      split at h
      next u transaction hu htransaction =>
        cases h
        rw [State.uri_eq_ok_iff.mpr hu, ok_bind, htransaction]
      next => cases h

theorem submits_iff {transaction : String} (hc : s.isConnected = true)
    (hsub : s.flags.subscribed = true) (hauth : s.flags.authorized = true)
    (hlimit : s.pleas.count ≤ PARALLEL_REQUEST_LIMIT)
    (htransaction : solution.getBlockTransaction = some transaction) :
    Submits s solution ↔ s.job.current.eqv solution.work = true ∧ s.canSend := by
  constructor
  · rintro ⟨t, jReq, hsubmission, hfound, -⟩
    rw [onSolutionFound_of_submission hsubmission] at hfound
    exact ⟨(submission_eq_some hsubmission).1,
      canSend_of_sendSocketData (s := s.enqueueResponsePlea (some 4)) hfound hc⟩
  · rintro ⟨hfresh, hsend⟩
    have hsubmission : ∃ jReq, submission s solution = some jReq := by
      obtain ⟨u, hu, -⟩ := hsend
      refine ⟨submitRequest s u solution transaction, ?_⟩
      rw [submission, hc, hsub, hauth, hfresh, if_neg (by decide), if_neg (by decide),
        if_neg (Nat.not_lt.mpr hlimit), hu, htransaction]
    obtain ⟨jReq, hsubmission⟩ := hsubmission
    obtain ⟨t, ht⟩ := sendSocketData_of_canSend (s := s.enqueueResponsePlea (some 4)) hsend jReq
    exact ⟨t, jReq, hsubmission, (onSolutionFound_of_submission hsubmission).trans ht,
      out_sendSocketData (s := s.enqueueResponsePlea (some 4)) ht hc⟩

end Submitting

/-- The job of the client is the last one, or the difficulty has been set and it is none. -/
structure LastJob.Fits (r : LastJob) (s : State) : Prop where
  current : r.difficultySet = false → ∀ work, r.work = some work → s.job.current.eqv work
  reset : r.difficultySet = true → s.job.current.isValid = false

theorem fits_step {s t : State} {r : LastJob} {e : Event} (h : r.Fits s)
    (hstep : step s e = some (.ok t)) : (r.note s e t).Fits t := by
  rw [LastJob.note]
  split
  next jPrm hdeed =>
    obtain ⟨ps, htake⟩ := takeJob_of_step hstep (State.deed_eq_job.mp hdeed)
    obtain ⟨resetJob, work, -, hwork, rfl⟩ := takeJob_eq_ok htake.symm
    refine ⟨fun _ work' hwork' => ?_, fun hset => (nomatch hset)⟩
    have hwork : Work.ofStratum jPrm s.job.extraNonce1 s.job.nextWorkTarget = .ok work := hwork
    rw [hwork] at hwork'
    cases hwork'
    split
    next => exact Work.eqv_refl work
    next hkept =>
      rw [Bool.or_eq_true, Bool.not_eq_true', not_or] at hkept
      simpa using hkept.2
  next hdeed =>
    refine ⟨fun hset => (nomatch hset), fun _ => ?_⟩
    rw [current_of_difficulty hdeed hstep]
    rfl
  next hjob hdifficulty =>
    have hkept := current_of_step hjob hdifficulty hstep
    refine ⟨fun hset work hwork => ?_, fun hset => ?_⟩
    · rw [hkept]
      exact h.current hset work hwork
    · rw [hkept]
      exact h.reset hset

theorem fits_of_reachable {s : State} {r : LastJob}
    (h : jobSystem.Reachable (fun _ _ => True) (s, r)) : r.Fits s :=
  Machine.Reachable.recorded_invariant (I := fun s r => r.Fits s) h
    (fun _ _ => ⟨fun _ _ hwork => (nomatch hwork), fun hset => (nomatch hset)⟩)
    fun _ _ _ _ hfits _ hstep => fits_step hfits hstep

/-- A solution on the work of the last `mining.notify` is submitted exactly if the difficulty has not
been set since, and the pool and the socket for its level of security are there. -/
theorem submits_last_job_iff {s : State} {r : LastJob} {work : Work} {solution : Solution}
    (h : jobSystem.Reachable (fun _ _ => True) (s, r)) (hjob : r.work = some work)
    (hsolved : SolvedFrom work solution) (hconnected : s.isConnected = true)
    (hsubscribed : s.flags.subscribed = true) (hauthorized : s.flags.authorized = true)
    (hlimit : s.pleas.count ≤ PARALLEL_REQUEST_LIMIT) :
    Submits s solution ↔ r.difficultySet = false ∧ s.canSend := by
  have hfits := fits_of_reachable h
  obtain ⟨transaction, htransaction⟩ := hsolved.getBlockTransaction
  rw [submits_iff hconnected hsubscribed hauthorized hlimit htransaction]
  refine and_congr_left fun _ => ⟨fun hfresh => ?_, fun hset => ?_⟩
  · rw [Bool.eq_false_iff]
    intro hset
    have hvalid := eqv_isValid hfresh
    rw [hsolved.isValid, hfits.reset hset] at hvalid
    cases hvalid
  · exact Work.eqv_trans (hfits.current hset work hjob) (Work.eqv_symm hsolved.eqv)

/-- A pool that accepts the login, sends a job and then sets the difficulty. -/
def difficultyScript : List Value :=
  [answerTo 1 (.array [.null, .string "ab"]), answerTo 3 (.bool true), jobNamed "job" true,
    .object [("method", .string "mining.set_difficulty"), ("params", .array [.int 2])]]

/-- The client could submit a solution on its last job. -/
def solvable (x : State × LastJob) : Bool :=
  x.2.work.any (fun work => work.isValid && (work.updateExtraNonce 0).isSome) && x.1.isConnected &&
    x.1.flags.subscribed && x.1.flags.authorized &&
    decide (x.1.pleas.count ≤ PARALLEL_REQUEST_LIMIT)

theorem solvedFrom_of_solvable {s : State} {r : LastJob} (h : solvable (s, r) = true) :
    (∃ work solution, r.work = some work ∧ SolvedFrom work solution) ∧ s.isConnected = true ∧
      s.flags.subscribed = true ∧ s.flags.authorized = true ∧
      s.pleas.count ≤ PARALLEL_REQUEST_LIMIT := by
  simp only [solvable, Bool.and_eq_true, decide_eq_true_eq, Option.any_eq_true] at h
  obtain ⟨⟨⟨⟨⟨work, hwork, hvalid, hsome⟩, hconnected⟩, hsubscribed⟩, hauthorized⟩, hlimit⟩ := h
  obtain ⟨updated, hupdated⟩ := Option.isSome_iff_exists.mp hsome
  exact ⟨⟨work, ⟨{ updated with nNonce := 0, hashMix := Uint256.null }⟩, hwork, hvalid, 0, updated, 0,
    Uint256.null, hupdated, rfl⟩, hconnected, hsubscribed, hauthorized, hlimit⟩

/-- A solution on the first job is submitted. -/
theorem submits_last_job_first : ∃ s solution, Submits s solution := by
  obtain ⟨⟨s, r⟩, hsteps, hs⟩ := Machine.steps_of_endsIn (M := jobSystem)
    (p := fun x => solvable x && !x.2.difficultySet &&
      x.1.uri?.any fun u => (x.1.chosen u).isSome)
    (Machine.meets_true (scriptedClient difficultyScript [poolOn "a" .none], {})
      (connecting ++ message 0 ++ message 1 ++ message 2)) (by decide +kernel)
  rw [Bool.and_eq_true, Bool.and_eq_true, Option.any_eq_true, Bool.not_eq_true'] at hs
  obtain ⟨⟨hsolvable, hset⟩, hsend⟩ := hs
  obtain ⟨⟨work, solution, hwork, hsolved⟩, hconnected, hsubscribed, hauthorized, hlimit⟩ :=
    solvedFrom_of_solvable hsolvable
  have hreach := Machine.Steps.reachable_recorded (initial_scriptedClient (by simp)) hsteps
  exact ⟨s, solution, (submits_last_job_iff hreach hwork hsolved hconnected hsubscribed hauthorized
    hlimit).mpr ⟨hset, hsend⟩⟩

/-- The pool sets the difficulty, and a solution on its last job is thrown away. -/
theorem stale_after_difficulty :
    ∃ s r work solution, jobSystem.Reachable (fun _ _ => True) (s, r) ∧ r.work = some work ∧
      SolvedFrom work solution ∧ s.isConnected = true ∧ s.flags.subscribed = true ∧
      s.flags.authorized = true ∧ s.pleas.count ≤ PARALLEL_REQUEST_LIMIT ∧
      ¬ Submits s solution := by
  obtain ⟨⟨s, r⟩, hsteps, hs⟩ := Machine.steps_of_endsIn (M := jobSystem)
    (p := fun x => solvable x && !x.1.job.current.isValid)
    (Machine.meets_true (scriptedClient difficultyScript [poolOn "a" .none], {})
      (connecting ++ message 0 ++ message 1 ++ message 2 ++ message 3)) (by decide +kernel)
  rw [Bool.and_eq_true, Bool.not_eq_true'] at hs
  obtain ⟨hsolvable, hreset⟩ := hs
  obtain ⟨⟨work, solution, hwork, hsolved⟩, hconnected, hsubscribed, hauthorized, hlimit⟩ :=
    solvedFrom_of_solvable hsolvable
  have hreach := Machine.Steps.reachable_recorded (initial_scriptedClient (by simp)) hsteps
  refine ⟨s, r, work, solution, hreach, hwork, hsolved, hconnected, hsubscribed, hauthorized, hlimit,
    ?_⟩
  rintro ⟨t, jReq, hsubmission, -, -⟩
  have hvalid := eqv_isValid (submission_eq_some hsubmission).1
  rw [hsolved.isValid] at hvalid
  rw [hvalid] at hreset
  cases hreset

end Energiminer.Stratum
