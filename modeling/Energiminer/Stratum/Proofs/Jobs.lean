import Energiminer.Stratum.Proofs.Accounts

/-!
# The job of the client and the work of the miners

The client hands a job on if it is clean or differs from its current one. Jobs are compared by
`Work::operator==`, which looks neither at the work of the plant, which the manager may have reset,
nor at the name of the job (`StratumClient.cpp:867-886`, `940-985`, `work.h:48-61`).
-/

namespace Energiminer.Stratum
open Misc Misc.Json Misc.Except Primitives

section Agreement

/-- The plant and the client have the work of the notification. -/
structure State.Agrees (s : State) (work : Work) : Prop where
  plant : s.plant.work.eqv s.job.current
  client : s.job.current.eqv work
  both : s.plant.work.eqv work

/-- The manager suspends the miners: it rotates the pools while they mine
(`PoolManager.cpp:137-149`). -/
def State.suspends (s : State) : Event → Bool
  | .select =>
    match discardPool s with
    | .ok s => decide (s.manager.maxConnectionAttempts ≤ s.manager.connectionAttempt) && s.plant.isMining
    | .error _ => false
  | _ => false

/-- The work that a job has last handed out, and what has been done to its two copies since: the
manager resets that of the plant, a new difficulty that of the client. -/
structure Handout where
  work : Work := .blank
  suspended : Bool := false
  difficultySet : Bool := false

namespace Handout

/-- `m_current` of the client. -/
def client (h : Handout) : Work := if h.difficultySet then h.work.reset else h.work

/-- `m_work` of the plant. -/
def plant (h : Handout) : Work := if h.suspended then h.work.reset else h.work

/-- A job that is handed out starts a new record. -/
def note (h : Handout) (s : State) (e : Event) (_ : State) : Handout :=
  match s.deed e with
  | .job jPrm =>
    match Work.ofStratum jPrm s.job.extraNonce1 s.job.nextWorkTarget with
    | .ok work => if s.accepts jPrm then { work := work } else h
    | .error _ => h
  | .difficulty => { h with difficultySet := true }
  | _ => { h with suspended := h.suspended || s.suspends e }

/-- The client and the plant have what the record says. -/
structure Fits (h : Handout) (s : State) : Prop where
  client : s.job.current = h.client
  plant : s.plant.work = h.plant

end Handout

/-- The runs of the client with the work that was last handed out. -/
def handoutSystem : Machine (State × Handout) Event Fault := system.recorded {} Handout.note

section Steps
variable {s t : State} {e : Event} {h : Handout} {jPrm : Value}

theorem work_rotatePools (s : State) : (rotatePools s).plant.work =
    if s.manager.maxConnectionAttempts ≤ s.manager.connectionAttempt ∧ s.plant.isMining = true then
      s.plant.work.reset
    else s.plant.work := by
  rw [rotatePools]
  split
  next hmany =>
    cases hmining : s.plant.isMining with
    | true => simp [hmany, Plant.resetWork]
    | false => simp
  next hfew => rw [if_neg fun h => hfew h.1]

theorem plant_usePool (h : usePool s = .ok t) : t.plant.work = s.plant.work := by
  obtain ⟨u, -, h⟩ := bind_eq_ok.mp h
  split at h
  · cases h
    rfl
  · cases h
    rfl

theorem plant_discardPool (h : discardPool s = .ok t) : t.plant = s.plant := by
  obtain ⟨u, -, h⟩ := bind_eq_ok.mp h
  split at h
  · cases h
    rfl
  · cases h
    rfl

/-- The manager resets the work of the plant if it suspends the miners. -/
theorem work_of_select (hstep : step s .select = some (.ok t)) :
    t.plant.work = if s.suspends .select then s.plant.work.reset else s.plant.work := by
  obtain ⟨-, hselect⟩ := Option.ite_none_right_eq_some.mp hstep
  obtain ⟨r, hdiscard, huse⟩ := bind_eq_ok.mp (Option.some.inj hselect)
  rw [plant_usePool huse, work_rotatePools, State.suspends, hdiscard]
  simp only [Bool.and_eq_true, decide_eq_true_eq, plant_discardPool hdiscard]

theorem work_of_step (hjob : ∀ jPrm, s.deed e ≠ .job jPrm) (hselect : e ≠ .select)
    (hstep : step s e = some (.ok t)) : t.plant.work = s.plant.work := by
  have hallowed : (s.deed e).Allowed fun s t : State => t.plant.work = s.plant.work := by
    cases hdeed : s.deed e with
    | login isSuccess proxy => exact ⟨fun _ => rfl, fun _ _ => ⟨fun _ => rfl, fun _ => rfl⟩⟩
    | authorization isSuccess => exact ⟨fun _ => rfl, fun _ _ => rfl⟩
    | job jPrm => exact absurd hdeed (hjob jPrm)
    | difficulty => exact fun _ _ => rfl
    | other => trivial
  exact untouched_of_step (f := View.work) (fun _ _ _ _ _ _ => rfl) hstep hallowed
    (fun _ _ _ => rfl) fun he => absurd he hselect

theorem suspends_of_ne_select (h : e ≠ .select) : s.suspends e = false := by
  cases e with
  | select => exact absurd rfl h
  | _ => rfl

theorem work_of_not_job (hjob : ∀ jPrm, s.deed e ≠ .job jPrm) (hstep : step s e = some (.ok t)) :
    t.plant.work = if s.suspends e then s.plant.work.reset else s.plant.work := by
  by_cases hselect : e = .select
  · rw [hselect] at hstep ⊢
    exact work_of_select hstep
  · rw [work_of_step hjob hselect hstep, suspends_of_ne_select hselect, if_neg Bool.false_ne_true]

/-- What the record says of the plant after a step that is no job. -/
theorem Handout.plant_suspend (h : Handout) (b : Bool) :
    ({ h with suspended := h.suspended || b } : Handout).plant =
      if b then h.plant.reset else h.plant := by
  cases b with
  | false => rw [Bool.or_false, if_neg Bool.false_ne_true]
  | true =>
    rw [Bool.or_true, if_pos rfl, plant, plant, if_pos rfl]
    split
    · rfl
    · rfl

theorem Handout.fits_of_job (hfits : h.Fits s) (hdeed : s.deed e = .job jPrm)
    (hstep : step s e = some (.ok t)) : (h.note s e t).Fits t := by
  obtain ⟨ps, htake⟩ := takeJob_of_step hstep (State.deed_eq_job.mp hdeed)
  obtain ⟨resetJob, work, hreset, hwork, rfl⟩ := takeJob_eq_ok htake.symm
  have hwork : Work.ofStratum jPrm s.job.extraNonce1 s.job.nextWorkTarget = .ok work := hwork
  have haccepts : s.accepts jPrm = (resetJob || !s.job.current.eqv work) := by
    rw [State.accepts, hreset, hwork]
  rw [note, hdeed]
  dsimp only
  rw [hwork, haccepts]
  dsimp only
  split
  next => exact ⟨rfl, rfl⟩
  next => exact ⟨hfits.client, hfits.plant⟩

theorem Handout.fits_step (hfits : h.Fits s) (hstep : step s e = some (.ok t)) :
    (h.note s e t).Fits t := by
  cases hdeed : s.deed e with
  | job jPrm => exact fits_of_job hfits hdeed hstep
  | difficulty =>
    have hjob (jPrm : Value) : s.deed e ≠ .job jPrm := by
      rw [hdeed]
      exact Deed.noConfusion
    have hselect : e ≠ .select := by
      rintro rfl
      cases hdeed
    rw [note, hdeed]
    constructor
    · rw [current_of_difficulty hdeed hstep, hfits.client]
      rw [Handout.client, Handout.client, if_pos rfl]
      split
      · rfl
      · rfl
    · rw [work_of_step hjob hselect hstep, hfits.plant]
      rfl
  | _ =>
    have hjob (jPrm : Value) : s.deed e ≠ .job jPrm := by
      rw [hdeed]
      exact Deed.noConfusion
    have hdifficulty : s.deed e ≠ .difficulty := by
      rw [hdeed]
      exact Deed.noConfusion
    rw [note, hdeed]
    constructor
    · rw [current_of_step hjob hdifficulty hstep, hfits.client]
      rfl
    · rw [work_of_not_job hjob hstep, hfits.plant]
      exact (plant_suspend h _).symm

/-- In every run the client has the work that was last handed out, or has reset it for a new
difficulty, and the plant has it, or has been made to reset it by the manager. -/
theorem Handout.fits_of_reachable (hreach : handoutSystem.Reachable (fun _ _ => True) (s, h)) :
    h.Fits s :=
  Machine.Reachable.recorded_invariant (I := fun s h => h.Fits s) hreach
    (by
      rintro s ⟨cfg, connections, maxTries, failoverTimeout, -, -, rfl⟩
      exact ⟨rfl, rfl⟩)
    fun _ _ _ _ hfits _ hstep => fits_step hfits hstep

/-- The copies are the same if both or none have been reset, or if a reset changes nothing that is
compared: the work has no previous block, no height and no extra nonce. -/
theorem Handout.plant_eqv_client (h : Handout) : h.plant.eqv h.client = true ↔
    h.suspended = h.difficultySet ∨ h.work.eqv h.work.reset = true := by
  obtain ⟨work, suspended, difficultySet⟩ := h
  cases suspended with
  | false =>
    cases difficultySet with
    | false | true => simp [plant, client]
  | true =>
    cases difficultySet with
    | false =>
      simp only [plant, client, Bool.true_eq_false, if_true, if_false, false_or, Bool.false_eq_true]
      exact ⟨fun heqv => Work.eqv_symm heqv, fun heqv => Work.eqv_symm heqv⟩
    | true => simp [plant, client]

/-- A job that is not handed out leaves the client with an equal one. -/
theorem eqv_of_not_taken {resetJob : Bool} {current work : Work}
    (h : ¬ (resetJob || !current.eqv work) = true) : resetJob = false ∧ current.eqv work = true := by
  simpa using h

/-- In every run, after a notification of a job the plant and the client have its work, unless it is
not clean, repeats the job of the client, and since the last job that was handed out either the
manager has reset the work of the plant or a new difficulty the job of the client, but not both. -/
theorem agrees_iff_of_reachable (hreach : handoutSystem.Reachable (fun _ _ => True) (s, h))
    (hjob : s.receives e = .job jPrm) (hstep : step s e = some (.ok t)) :
    ∃ resetJob work, (jPrm.getAt 8 (.string "")).asBool = .ok resetJob ∧
      Work.ofStratum jPrm s.job.extraNonce1 s.job.nextWorkTarget = .ok work ∧
      (t.Agrees work ↔ resetJob = true ∨ h.client.eqv work = false ∨
        h.suspended = h.difficultySet ∨ h.work.eqv h.work.reset = true) := by
  obtain ⟨hclient, hplant⟩ := Handout.fits_of_reachable hreach
  obtain ⟨ps, htake⟩ := takeJob_of_step hstep hjob
  obtain ⟨resetJob, work, hreset, hwork, rfl⟩ := takeJob_eq_ok htake.symm
  refine ⟨resetJob, work, hreset, hwork, ?_⟩
  rw [← Handout.plant_eqv_client, ← hclient, ← hplant]
  split
  next htaken =>
    rw [Bool.or_eq_true, Bool.not_eq_true'] at htaken
    refine iff_of_true ?_ (htaken.imp_right .inl)
    exact ⟨Work.eqv_refl work, Work.eqv_refl work, Work.eqv_refl work⟩
  next hkept =>
    -- The job stays, so what the plant has decides.
    obtain ⟨hdirty, hcurrent⟩ := eqv_of_not_taken hkept
    constructor
    · intro hagrees
      exact .inr (.inr hagrees.plant)
    · rintro (hclean | hnew | hsame)
      · exact absurd (hdirty.symm.trans hclean) Bool.false_ne_true
      · exact absurd (hnew.symm.trans hcurrent) Bool.false_ne_true
      · exact ⟨hsame, hcurrent, Work.eqv_trans hsame hcurrent⟩

end Steps

/-- A pool that accepts the login and sends a job, which it then repeats. -/
def repeatScript : List Value :=
  [answerTo 1 (.array [.null, .string "ab"]), answerTo 3 (.bool true), jobNamed "job" true,
    jobNamed "job" false]

/-- A job that is repeated while the plant has it. -/
theorem agrees_iff_of_reachable_repeated :
    ∃ (s : State) (h : Handout) (t : State) (work : Work),
      handoutSystem.Reachable (fun _ _ => True) (s, h) ∧ s.plant.work.jobName = "job" ∧
        s.plant.work.isValid = true ∧ step s (.complete 0 .run) = some (.ok t) ∧
        t.plant = s.plant ∧ t.Agrees work := by
  obtain ⟨⟨s, h⟩, hsteps, hs⟩ := Machine.steps_of_endsIn (M := handoutSystem)
    (p := fun x => (x.1.receives (.complete 0 .run)).job?.isSome && !x.2.suspended &&
      !x.2.difficultySet && decide (x.1.plant.work.jobName = "job") && x.1.plant.work.isValid &&
      system.endsIn (fun t => decide (t.plant = x.1.plant)) x.1 [.complete 0 .run])
    (Machine.meets_true (scriptedClient repeatScript [poolOn "a" .none], {})
      (connecting ++ message 0 ++ message 1 ++ message 2 ++
        [.segment [3, lineFeed], .complete 0 (.received false)]))
    (by decide +kernel)
  simp only [Bool.and_eq_true, Option.isSome_iff_exists, Bool.not_eq_true', decide_eq_true_eq] at hs
  obtain ⟨⟨⟨⟨⟨⟨jPrm, hjob⟩, hsuspended⟩, hdifficulty⟩, hname⟩, hvalid⟩, hends⟩ := hs
  obtain ⟨t, hstep, hplant⟩ := Machine.step_of_endsIn hends
  have hreach := Machine.Steps.reachable_recorded (initial_scriptedClient (by simp)) hsteps
  obtain ⟨_, work, _, _, hiff⟩ :=
    agrees_iff_of_reachable hreach (Reception.job?_eq_some.mp hjob) hstep
  exact ⟨s, h, t, work, hreach, hname, hvalid, hstep, of_decide_eq_true hplant,
    hiff.mpr (.inr (.inr (.inl (hsuspended.trans hdifficulty.symm))))⟩

/-- The connection is lost, another attempt fails, and the manager resets the work of the plant. The
pool then repeats its job, which the client still has, and the plant is left without any. -/
theorem plant_without_job :
    Initial (scriptedClient repeatScript [poolOn "a" .none]) ∧
      system.endsIn (fun s => s.job.current.eqv (workNamed "job" "ab") &&
          !s.plant.work.eqv s.job.current && !s.plant.work.isValid && s.plant.isMining)
        (scriptedClient repeatScript [poolOn "a" .none])
        (connecting ++ message 0 ++ message 1 ++ message 2 ++
          [.complete 0 (.received true), .complete 0 .run, .check, .select, .connect,
            .complete 0 (.resolved none)] ++ connecting ++ message 0 ++ message 1 ++ message 3) =
        true :=
  ⟨initial_scriptedClient (by simp), by decide +kernel⟩

end Agreement

section Submission
variable {s t : State} {e : Event} {solution : Solution} {jReq : Value}

/-- The request that a solution is submitted with, if it is. -/
def submission (s : State) (solution : Solution) : Option Value :=
  if !s.isConnected || !s.flags.subscribed || !s.flags.authorized then none
  else if !s.job.current.eqv solution.work then none
  else if PARALLEL_REQUEST_LIMIT < s.pleas.count then none
  else
    match s.uri?, solution.getBlockTransaction with
    | some u, some transaction => some (submitRequest s u solution transaction)
    | _, _ => none

/-- No job of the pool is processed. -/
def NoJob (s : State) (e : Event) : Prop := ∀ jPrm, s.receives e ≠ .job jPrm

/-- A step without a job keeps the job or resets it, and hands out no work. -/
theorem job_of_noJob (hnojob : NoJob s e) (hstep : step s e = some (.ok t)) :
    (t.job.current = s.job.current ∨ t.job.current.isValid = false) ∧
      t.plant.delivered = s.plant.delivered := by
  obtain ⟨ps, hkept⟩ := retains_step_of_not_job hstep hnojob
  obtain ⟨p, hp⟩ := account_eq (s.receives e) { s with pending := ps }
  rw [hp] at hkept
  exact ⟨hkept.current, hkept.delivered⟩

theorem job_of_steps (hrun : system.Steps NoJob s t) :
    (t.job.current = s.job.current ∨ t.job.current.isValid = false) ∧
      t.plant.delivered = s.plant.delivered := by
  refine hrun.invariant (I := fun t => (t.job.current = s.job.current ∨
    t.job.current.isValid = false) ∧ t.plant.delivered = s.plant.delivered) ?_ ⟨.inl rfl, rfl⟩
  rintro r e t ⟨hcurrent, hdelivered⟩ hnojob hstep
  obtain ⟨hcurrent', hdelivered'⟩ := job_of_noJob hnojob hstep
  refine ⟨?_, hdelivered'.trans hdelivered⟩
  rcases hcurrent' with heq | hinvalid
  · rw [heq]
    exact hcurrent
  · exact .inr hinvalid

theorem isConnected_of_submission (h : submission s solution = some jReq) :
    s.isConnected = true ∧ s.flags.subscribed = true ∧ s.flags.authorized = true := by
  rw [submission] at h
  split at h
  · cases h
  next hlogin => simpa [and_assoc] using hlogin

theorem submission_eq_some (h : submission s solution = some jReq) :
    s.job.current.eqv solution.work = true ∧ ∃ u transaction, s.uri? = some u ∧
      solution.getBlockTransaction = some transaction ∧
      jReq = submitRequest s u solution transaction := by
  rw [submission] at h
  split at h
  · cases h
  · split at h
    · cases h
    next hfresh =>
      refine ⟨by simpa using hfresh, ?_⟩
      split at h
      · cases h
      · split at h
        next u transaction hu htransaction =>
          cases h
          exact ⟨u, transaction, hu, htransaction, rfl⟩
        next => cases h

theorem out_sendSocketData {jReq : Value} (h : sendSocketData s jReq = .ok t)
    (hc : s.isConnected = true) : t.out = s.out.send (writeRequest s.cfg.jWriter jReq) := by
  rw [sendSocketData, hc, if_neg (by decide)] at h
  cases hu : s.uri with
  | error f =>
    rw [hu] at h
    cases h
  | ok u =>
    rw [hu, ok_bind] at h
    cases hd : State.deref (s.chosen u) with
    | error f =>
      rw [hd] at h
      cases h
    | ok i =>
      rw [hd] at h
      cases h
      rfl

theorem out_of_found (hstep : step s (.found solution) = some (.ok t)) :
    t.out = (submission s solution).elim s.out fun jReq =>
      s.out.send (writeRequest s.cfg.jWriter jReq) := by
  obtain ⟨_, hfound⟩ := Option.ite_none_right_eq_some.mp hstep
  have h : onSolutionFound s solution = .ok t := Option.some.inj hfound
  rw [onSolutionFound] at h
  rw [submission]
  cases hc : s.isConnected with
  | false =>
    rw [hc] at h
    cases h
    rfl
  | true =>
    rw [hc, if_pos rfl, submitSolution] at h
    rw [Bool.not_true, Bool.false_or]
    split at h
    next hlogin =>
      cases h
      rw [if_pos hlogin]
      rfl
    next hlogin =>
      rw [if_neg hlogin]
      split at h
      next hstale =>
        cases h
        rw [if_pos hstale]
        rfl
      next hfresh =>
        rw [if_neg hfresh]
        split at h
        next hmany =>
          rw [if_pos hmany]
          rw [onSolutionAnswered] at h
          cases hu : s.activeUri with
          | error f =>
            rw [hu] at h
            cases h
          | ok u =>
            rw [hu] at h
            cases h
            rfl
        next hfew =>
          rw [if_neg hfew]
          cases hu : s.uri? with
          | none =>
            rw [State.uri, hu] at h
            cases h
          | some u =>
            rw [State.uri_eq_ok_iff.mpr hu, ok_bind] at h
            cases htransaction : solution.getBlockTransaction with
            | none =>
              rw [htransaction] at h
              cases h
            | some transaction =>
              rw [htransaction] at h
              exact out_sendSocketData (s := s.enqueueResponsePlea (some 4)) h hc

end Submission

/-- A work whose parameters are submitted: the name of its job, its nonces, its time, its mix, its
coinbase and its merkle root. -/
def submitParams (u : Uri) (work : Work) (transaction : String) : Value :=
  .array ([u.user, work.jobName, (Solution.mk work).getExtraNonce2, (Solution.mk work).getTime,
    (Solution.mk work).getNonce, String.ofList work.hashMix.getHex, transaction,
    String.ofList work.hashMerkleRoot.getHex].map .string)

theorem eqv_isValid {a b : Work} (h : a.eqv b) : a.isValid = b.isValid := by
  simp only [Work.eqv, Bool.and_eq_true, decide_eq_true_eq] at h
  rw [Work.isValid, Work.isValid, h.1.1.2]

/-- After a clean job, and before the next job, every submission that is sent is for that job and
takes all its parameters from one work of it, if no work that was handed out before equals the new
one but has another name. -/
theorem submission_of_clean_job {s₀ s₁ s t : State} {e : Event} {jPrm jReq : Value} {work : Work}
    {solution : Solution} (hjob : s₀.receives e = .job jPrm)
    (hclean : (jPrm.getAt 8 (.string "")).asBool = .ok true)
    (hwork : Work.ofStratum jPrm s₀.job.extraNonce1 s₀.job.nextWorkTarget = .ok work)
    (hstep : step s₀ e = some (.ok s₁)) (hrun : system.Steps NoJob s₁ s)
    (hdistinct : ∀ w ∈ s₀.plant.delivered, w.eqv work → w.jobName = work.jobName)
    (hfound : step s (.found solution) = some (.ok t)) (hsubmit : submission s solution = some jReq) :
    t.out = s.out.send (writeRequest s.cfg.jWriter jReq) ∧
      ∃ u w transaction, s.uri? = some u ∧ w.jobName = work.jobName ∧ w.eqv work = true ∧
        w.getBlockTransaction = some transaction ∧
        jReq.member? "params" = some (submitParams u w transaction) := by
  have hout := out_of_found hfound
  rw [hsubmit] at hout
  refine ⟨hout, ?_⟩
  obtain ⟨ps, htake⟩ := takeJob_of_step hstep hjob
  obtain ⟨resetJob, work', hreset, hwork', rfl⟩ := takeJob_eq_ok htake.symm
  cases hclean.symm.trans hreset
  cases hwork.symm.trans hwork'
  rw [Bool.true_or, if_pos rfl] at hrun
  obtain ⟨hcurrent, hdelivered⟩ := job_of_steps hrun
  obtain ⟨hsame, u, transaction, hu, htransaction, rfl⟩ := submission_eq_some hsubmit
  obtain ⟨hholds, _⟩ := Option.ite_none_right_eq_some.mp hfound
  rw [Plant.holds, Bool.and_eq_true, List.any_eq_true] at hholds
  obtain ⟨hvalid, w, hmem, hw⟩ := hholds
  rw [Bool.and_eq_true, decide_eq_true_eq] at hw
  -- The job has not been reset, since the solution is of a valid work.
  have hequal : work.eqv solution.work = true := by
    rcases hcurrent with heq | hinvalid
    · rwa [heq] at hsame
    · rw [eqv_isValid hsame, hvalid] at hinvalid
      cases hinvalid
  have hname : solution.work.jobName = work.jobName := by
    rw [hdelivered] at hmem
    rcases List.mem_cons.mp hmem with rfl | hold
    · exact hw.2.symm
    · exact hw.2.symm.trans (hdistinct w hold (Work.eqv_trans hw.1 (Work.eqv_symm hequal)))
  rw [Solution.getBlockTransaction, if_pos hvalid] at htransaction
  exact ⟨u, solution.work, transaction, hu, hname, Work.eqv_symm hequal, htransaction, rfl⟩

/-- A pool that accepts the login and sends two clean jobs, the second for a height. -/
def cancelScript (height : Nat) : List Value :=
  [answerTo 1 (.array [.null, .string "ab"]), answerTo 3 (.bool true), jobNamed "old" true,
    jobAt height "new" true]

/-- The work of a job that is clean. -/
def cleanWork? (s : State) (jPrm : Value) : Option Work :=
  match (jPrm.getAt 8 (.string "")).asBool,
      Work.ofStratum jPrm s.job.extraNonce1 s.job.nextWorkTarget with
  | .ok true, .ok work => some work
  | _, _ => none

theorem cleanWork?_eq_some {s : State} {jPrm : Value} {work : Work}
    (h : cleanWork? s jPrm = some work) : (jPrm.getAt 8 (.string "")).asBool = .ok true ∧
      Work.ofStratum jPrm s.job.extraNonce1 s.job.nextWorkTarget = .ok work := by
  rw [cleanWork?] at h
  split at h
  next work' hreset hwork =>
    cases h
    exact ⟨hreset, hwork⟩
  next => cases h

/-- The name of the job in a submission. -/
def submittedJob (jReq : Value) : Option String :=
  match (memberOf jReq "params").getAt 1 .null with
  | .string name => some name
  | _ => none

theorem submittedJob_eq {jReq : Value} {u : Uri} {w : Work} {transaction : String}
    (h : jReq.member? "params" = some (submitParams u w transaction)) :
    submittedJob jReq = some w.jobName := by
  rw [submittedJob, memberOf, h]
  rfl

/-- The clean job "new" is for another block than the work of "old", which a miner may still hold. -/
def replaces (s : State) : Bool :=
  s.plant.delivered.any (fun w => decide (w.jobName = "old")) &&
    ((s.receives (.complete 0 .run)).job?.bind (cleanWork? s)).any fun work =>
      decide (work.jobName = "new") && s.plant.delivered.all fun w => !w.eqv work

/-- A solution of a clean job is submitted under its name, after a job for the block before. -/
theorem submission_of_clean_job_second :
    ∃ (s₀ s t : State) (jReq : Value), (∃ w ∈ s₀.plant.delivered, w.jobName = "old") ∧
      step s₀ (.complete 0 .run) = some (.ok s) ∧ submission s ⟨workAt 2 "new" "ab"⟩ = some jReq ∧
      t.out = s.out.send (writeRequest s.cfg.jWriter jReq) ∧ submittedJob jReq = some "new" := by
  obtain ⟨s₀, _, hs⟩ := Machine.steps_of_endsIn
    (p := fun s : State => replaces s && system.endsIn (fun s =>
        (submission s ⟨workAt 2 "new" "ab"⟩).isSome &&
          system.endsIn (fun _ => true) s [.found ⟨workAt 2 "new" "ab"⟩]) s [.complete 0 .run])
    (Machine.meets_true (M := system) (scriptedClient (cancelScript 2) [poolOn "a" .none])
      (connecting ++ message 0 ++ message 1 ++ message 2 ++
        [.segment [3, lineFeed], .complete 0 (.received false)]))
    (by decide +kernel)
  simp only [replaces, Bool.and_eq_true, List.any_eq_true, Option.any_eq_true, Option.bind_eq_some_iff,
    decide_eq_true_eq, List.all_eq_true, Bool.not_eq_true'] at hs
  obtain ⟨⟨hold, work, ⟨jPrm, hjob, hclean⟩, hname, hother⟩, hends⟩ := hs
  obtain ⟨hclean, hwork⟩ := cleanWork?_eq_some hclean
  obtain ⟨s₁, hstep, hs₁⟩ := Machine.step_of_endsIn hends
  rw [Bool.and_eq_true, Option.isSome_iff_exists] at hs₁
  obtain ⟨⟨jReq, hsubmit⟩, hfound⟩ := hs₁
  obtain ⟨t, hfound, _⟩ := Machine.step_of_endsIn hfound
  have hdistinct : ∀ w ∈ s₀.plant.delivered, w.eqv work → w.jobName = work.jobName := by
    intro w hw heqv
    exact absurd ((hother w hw).symm.trans heqv) Bool.false_ne_true
  obtain ⟨hout, u, w, transaction, -, hw, -, -, hparams⟩ := submission_of_clean_job
    (Reception.job?_eq_some.mp hjob) hclean hwork hstep .refl hdistinct hfound hsubmit
  refine ⟨s₀, s₁, t, jReq, hold, hstep, hsubmit, hout, ?_⟩
  rw [submittedJob_eq hparams, hw, hname]

/-- A late solution of a job that a clean one has replaced is submitted under its old name. -/
theorem submits_cancelled_job :
    Initial (scriptedClient (cancelScript 1) [poolOn "a" .none]) ∧
      system.endsIn (fun s => decide (s.job.current.jobName = "new") &&
          s.plant.holds (workNamed "old" "ab") &&
          decide ((submission s ⟨workNamed "old" "ab"⟩).bind submittedJob = some "old"))
        (scriptedClient (cancelScript 1) [poolOn "a" .none])
        (connecting ++ message 0 ++ message 1 ++ message 2 ++ message 3) = true :=
  ⟨initial_scriptedClient (by simp), by decide +kernel⟩

end Energiminer.Stratum
