import Energiminer.Stratum.Proofs.Pleas

/-!
# Timeouts of responses and of work

A tick looks at a connection only while the counter of pleas is not zero
(`StratumClient.cpp:339-405`). `mining.subscribe` makes no plea, so nothing notices a pool that does
not answer it; and without a request that is outstanding, no tick looks for work. The time of the
last work is also set by the answers of a login, and not by a connection.
-/

namespace Energiminer.Stratum
open Misc Misc.Json Misc.Except Primitives

namespace State

/-- The oldest plea has waited too long. -/
def responseLate (s : State) : Bool :=
  decide (s.cfg.responsetimeout * 1000 ≤ s.clock - s.pleas.older)

/-- More seconds than `m_worktimeout` have passed, counted in whole seconds
(`StratumClient.cpp:393-394`). -/
def overdue (s : State) (since : Nat) : Prop := s.cfg.worktimeout < (s.clock - since) / 1000

instance (s : State) (since : Nat) : Decidable (s.overdue since) :=
  inferInstanceAs (Decidable (s.cfg.worktimeout < (s.clock - since) / 1000))

/-- A late response is simulated in the autodetection. -/
def simulates (u : Uri) : Bool := !u.stratumModeConfirmed && !u.unrecoverable

/-- The number of endpoints that a tick gives up on a connection. -/
def drops (s : State) (u : Uri) : Nat :=
  (if s.responseLate && !simulates u then 1 else 0) +
    if s.overdue s.job.currentTimestamp then 1 else 0

/-- What a tick posts on a connection because of a response. -/
def responsePosts (s : State) (u : Uri) : List Pending :=
  if s.responseLate then [if simulates u then .response fakeAnswer else .disconnect] else []

/-- What a tick posts on a connection because of missing work. -/
def workPosts (s : State) : List Pending :=
  if s.overdue s.job.currentTimestamp then [.disconnect] else []

/-- The endpoints suffice for a tick on a connection. -/
def CanDrop (s : State) : Prop := ∃ u, s.uri? = some u ∧ s.drops u ≤ s.endpoints.length

end State

section Ticks
variable {s t r : State} {u : Uri} {n m : Nat} {ps qs : List Pending}

/-- `n` endpoints were given up and `ps` was posted; the times are as before. -/
structure Dropped (s : State) (n : Nat) (ps : List Pending) (t : State) : Prop where
  pending : t.pending = s.pending ++ ps
  endpoints : t.endpoints.length + n = s.endpoints.length
  cfg : t.cfg = s.cfg
  clock : t.clock = s.clock
  currentTimestamp : t.job.currentTimestamp = s.job.currentTimestamp

/-- The handler gives up `n` endpoints and posts `ps`, and fails only for want of endpoints. -/
def Drops (s : State) (n : Nat) (ps : List Pending) (x : Except Fault State) : Prop :=
  Ensures (fun _ => s.endpoints.length < n) (Dropped s n ps) x

theorem Drops.bind {x : Except Fault State} {f : State → Except Fault State} (hx : Drops s n ps x)
    (hf : ∀ t, Dropped s n ps t → Drops t m qs (f t)) : Drops s (n + m) (ps ++ qs) (x >>= f) := by
  cases x with
  | error e =>
    have hless : s.endpoints.length < n := hx
    exact Nat.lt_add_right m hless
  | ok t =>
    have ht : Dropped s n ps t := hx
    have hlength := ht.endpoints
    change Drops s (n + m) (ps ++ qs) (f t)
    cases hft : f t with
    | error e =>
      have hless : t.endpoints.length < m := by
        have hdrops := hf t ht
        rwa [hft] at hdrops
      change s.endpoints.length < n + m
      omega
    | ok r =>
      have hr : Dropped t m qs r := by
        have hdrops := hf t ht
        rwa [hft] at hdrops
      have hlength' := hr.endpoints
      exact ⟨by rw [hr.pending, ht.pending, List.append_assoc], by omega, hr.cfg.trans ht.cfg,
        hr.clock.trans ht.clock, hr.currentTimestamp.trans ht.currentTimestamp⟩

theorem dropped_refl (s : State) : Dropped s 0 [] s :=
  ⟨(List.append_nil _).symm, rfl, rfl, rfl, rfl⟩

theorem drops_dropEndpoint (s : State) : Drops s 1 [.disconnect] (dropEndpoint s) := by
  rw [dropEndpoint, State.popEndpoint]
  cases h : s.endpoints with
  | nil =>
    change s.endpoints.length < 1
    rw [h]
    exact Nat.one_pos
  | cons e es =>
    refine ⟨rfl, ?_, rfl, rfl, rfl⟩
    rw [h]
    rfl

theorem drops_responses (s : State) (u : Uri) :
    Drops s (if s.responseLate && !State.simulates u then 1 else 0) (s.responsePosts u)
      (if s.cfg.responsetimeout * 1000 ≤ s.clock - s.pleas.older then responseTimeout s u
        else pure s) := by
  rw [State.responsePosts]
  by_cases hlate : s.cfg.responsetimeout * 1000 ≤ s.clock - s.pleas.older
  · rw [State.responseLate, decide_eq_true hlate, if_pos hlate, responseTimeout]
    change Drops s _ _ (if State.simulates u = true then _ else _)
    cases State.simulates u with
    | true => exact ⟨rfl, rfl, rfl, rfl, rfl⟩
    | false => exact drops_dropEndpoint s
  · rw [State.responseLate, decide_eq_false hlate, if_neg hlate]
    exact dropped_refl s

theorem drops_watchConnection (hu : s.uri? = some u) :
    Drops s (s.drops u) (s.responsePosts u ++ s.workPosts)
      (watchConnection s (s.clock - s.pleas.older)) := by
  rw [watchConnection, State.uri_eq_ok_iff.mpr hu, ok_bind]
  refine (drops_responses s u).bind fun t ht => ?_
  rw [ht.cfg, ht.clock, ht.currentTimestamp, State.workPosts]
  change Drops t _ _ (if s.overdue s.job.currentTimestamp then _ else _)
  split
  · exact drops_dropEndpoint t
  · exact dropped_refl t

/-- Checks that come to their end had the endpoints they needed. -/
theorem Dropped.canDrop (hu : s.uri? = some u) (h : Dropped s (s.drops u) ps t) : s.CanDrop := by
  refine ⟨u, hu, ?_⟩
  rw [← h.endpoints]
  exact Nat.le_add_left _ _

theorem workloopTimerElapsed_of_isConnected (hcount : s.pleas.count ≠ 0)
    (hconnected : s.isConnected = true) :
    workloopTimerElapsed s = watchConnection s (s.clock - s.pleas.older) := by
  have hpending : s.isPendingState = false := by
    rw [State.isConnected, Bool.and_eq_true, Bool.not_eq_true'] at hconnected
    exact hconnected.2
  rw [workloopTimerElapsed, if_pos hcount, watch, watchPending, hpending, Bool.false_and,
    if_neg (by decide)]
  change (if s.isConnected = true then _ else _) = _
  rw [if_pos hconnected]

/-- What a tick on a connection with a plea posts, if the endpoints suffice. -/
theorem pending_of_tick (hcount : s.pleas.count ≠ 0) (hconnected : s.isConnected = true)
    (hu : s.uri? = some u) :
    (∃ t, workloopTimerElapsed s = .ok t ∧
      t.pending = s.pending ++ (s.responsePosts u ++ s.workPosts)) ↔ s.CanDrop := by
  have hdrops := drops_watchConnection hu
  rw [workloopTimerElapsed_of_isConnected hcount hconnected]
  cases hwatch : watchConnection s (s.clock - s.pleas.older) with
  | error f =>
    rw [hwatch] at hdrops
    have hless : s.endpoints.length < s.drops u := hdrops
    refine iff_of_false (fun ⟨t, ht, _⟩ => (nomatch ht)) ?_
    rintro ⟨v, hv, hle⟩
    cases hu.symm.trans hv
    exact absurd hle (Nat.not_le.mpr hless)
  | ok t =>
    rw [hwatch] at hdrops
    have hdropped : Dropped s (s.drops u) (s.responsePosts u ++ s.workPosts) t := hdrops
    exact iff_of_true ⟨t, rfl, hdropped.pending⟩ (hdropped.canDrop hu)

end Ticks

/-! ## Responses -/

/-- The pleas are in the order in which they were made. -/
structure Pleas.Ordered (p : Pleas) (clock : Nat) : Prop where
  past : ∀ q ∈ p.unanswered, q.time ≤ clock
  sorted : p.unanswered.Pairwise fun a b => a.time ≤ b.time

section Order
variable {s t : State} {e : Event} {p : Pleas} {clock : Nat}

theorem Pleas.Ordered.sublist {p' : Pleas} (h : p.Ordered clock)
    (hsub : p'.unanswered.Sublist p.unanswered) : p'.Ordered clock :=
  ⟨fun q hq => h.past q (hsub.subset hq), h.sorted.sublist hsub⟩

theorem ordered_enqueue (request : Option (BitVec 32)) (h : s.pleas.Ordered s.clock) :
    (s.enqueueResponsePlea request).pleas.Ordered s.clock := by
  refine ⟨fun q hq => ?_, ?_⟩
  · rcases List.mem_append.mp hq with hold | hnew
    · exact h.past q hold
    · rw [List.mem_singleton.mp hnew]
  · refine List.pairwise_append.mpr ⟨h.sorted, List.pairwise_singleton _ _, fun a ha b hb => ?_⟩
    rw [List.mem_singleton.mp hb]
    exact h.past a ha

theorem tolerant_ordered :
    Tolerant fun s t : State => s.pleas.Ordered s.clock → t.pleas.Ordered t.clock where
  trans hst htu h := htu (hst h)
  frame hview h := by
    have hpleas : _ = _ := congrArg View.pleas hview
    have hclock : _ = _ := congrArg View.clock hview
    dsimp only [State.view] at hpleas hclock
    rwa [hpleas, hclock]
  post _ _ h := h
  clear _ _ := ⟨fun _ hq => (nomatch hq), .nil⟩
  enqueue _ request h := ordered_enqueue request h
  logout _ h := h
  elapse _ ms h := ⟨fun q hq => Nat.le_add_right_of_le (h.past q hq), h.sorted⟩

theorem sublist_afterAnswer (s : State) (id : BitVec 32) :
    (s.afterAnswer id).pleas.unanswered.Sublist s.pleas.unanswered := by
  rw [State.afterAnswer]
  split
  · exact List.Sublist.refl _
  · split
    · exact List.eraseP_sublist
    · split
      · exact List.eraseP_sublist
      · split
        · exact List.Sublist.refl _
        · exact List.Sublist.refl _

theorem ordered_account (r : Reception) (h : s.pleas.Ordered s.clock) :
    (r.account s).pleas.Ordered (r.account s).clock := by
  obtain ⟨p, hp⟩ := account_eq r s
  have hclock : (r.account s).clock = s.clock := by rw [hp]
  rw [hclock]
  cases r with
  | answer id => exact h.sublist (sublist_afterAnswer s id)
  | job jPrm | other => exact h

theorem ordered_step (h : s.pleas.Ordered s.clock) (hstep : step s e = some (.ok t)) :
    t.pleas.Ordered t.clock := by
  exact tolerant_ordered.relates (fun _ _ h => h) (fun _ r h => ordered_account r h) hstep
    (Deed.allowed (fun _ _ _ _ _ h => h) _) (fun _ _ _ h => h) (fun _ _ h => h) h

theorem ordered_of_reachable {C : State → Event → Prop} (h : system.Reachable C s) :
    s.pleas.Ordered s.clock := by
  refine Machine.Reachable.invariant (I := fun s : State => s.pleas.Ordered s.clock) h ?_
    fun _ _ _ hs _ hstep => ordered_step hs hstep
  rintro s ⟨cfg, connections, maxTries, failoverTimeout, _, _, rfl⟩
  exact ⟨fun _ hq => (nomatch hq), .nil⟩

end Order

/-- The next tick posts a disconnect, or the answer that the watchdog sends itself. -/
def Notices (s : State) : Prop :=
  ∃ t p rest, workloopTimerElapsed s = .ok t ∧ t.pending = s.pending ++ p :: rest ∧
    (p = .disconnect ∨ p = .response fakeAnswer)

section Responses
variable {s : State} {u : Uri}

theorem notices_iff (hcount : s.pleas.count ≠ 0) (hlate : s.responseLate = true)
    (hconnected : s.isConnected = true) : Notices s ↔ s.CanDrop := by
  constructor
  · rintro ⟨t, p, rest, htick, -, -⟩
    rw [workloopTimerElapsed_of_isConnected hcount hconnected] at htick
    cases hu : s.uri? with
    | none =>
      rw [watchConnection, State.uri, hu] at htick
      cases htick
    | some u =>
      have hdropped := (drops_watchConnection hu).ok htick
      exact hdropped.canDrop hu
  · intro hdrop
    obtain ⟨u, hu, -⟩ := id hdrop
    obtain ⟨t, htick, hpending⟩ := (pending_of_tick hcount hconnected hu).mpr hdrop
    rw [State.responsePosts, hlate, if_pos rfl] at hpending
    refine ⟨t, _, s.workPosts, htick, hpending, ?_⟩
    split
    · exact .inr rfl
    · exact .inl rfl

/-- A request with a plea that is not answered in time, as long as answers come one at a time: the
next tick on the connection notices it exactly if it has as many endpoints as it pops. -/
theorem tick_notices_iff {q : Plea} (h : system.Reachable OneAtATime s)
    (hq : q ∈ s.pleas.unanswered) (hlate : s.cfg.responsetimeout * 1000 ≤ s.clock - q.time)
    (hconnected : s.isConnected = true) : Notices s ↔ s.CanDrop := by
  have hexact := pleas_exact_of_reachable h
  have hordered := ordered_of_reachable h
  obtain ⟨p, ps, hcons⟩ := List.exists_cons_of_ne_nil (List.ne_nil_of_mem hq)
  have hcount : s.pleas.count ≠ 0 := by
    rw [hexact.count, hcons]
    exact Nat.succ_ne_zero _
  -- The oldest plea is at least as old as this one.
  have holder : s.pleas.older ≤ q.time := by
    rw [hexact.older p ps hcons]
    have hsorted := hordered.sorted
    rw [hcons] at hq hsorted
    rcases List.mem_cons.mp hq with rfl | hrest
    · exact Nat.le_refl _
    · exact (List.pairwise_cons.mp hsorted).1 q hrest
  refine notices_iff hcount (decide_eq_true ?_) hconnected
  exact hlate.trans (Nat.sub_le_sub_left holder s.clock)

end Responses

/-- The request for an authorization is not answered. -/
theorem tick_notices_iff_authorize :
    ∃ s q, q ∈ s.pleas.unanswered ∧ q.request = some 3 ∧ Notices s := by
  have hmeets : system.Meets OneAtATime (scriptedClient loginScript [poolOn "a" .none])
      (connecting ++ message 0 ++ [.elapse 4000]) :=
    ⟨fun _ h => (nomatch h), fun _ h => (nomatch h), fun _ h => (nomatch h),
      fun _ h => (nomatch h), fun _ h => (nomatch h), fun _ h => (nomatch h),
      fun _ h => (nomatch h), fun _ h => (nomatch h), fun _ _ _ => .inl rfl,
      fun _ h => (nomatch h), trivial⟩
  obtain ⟨s, hsteps, hs⟩ := Machine.steps_of_endsIn
    (p := fun s : State => decide (s.pleas.unanswered = [⟨some 3, 0⟩]) && s.isConnected &&
      decide (s.cfg.responsetimeout * 1000 ≤ s.clock - 0) &&
      s.uri?.any fun u => decide (s.drops u ≤ s.endpoints.length)) hmeets (by decide +kernel)
  simp only [Bool.and_eq_true, decide_eq_true_eq, Option.any_eq_true] at hs
  obtain ⟨⟨⟨hone, hconnected⟩, hlate⟩, hdrop⟩ := hs
  have hq : (⟨some 3, 0⟩ : Plea) ∈ s.pleas.unanswered := by
    rw [hone]
    exact List.mem_singleton_self _
  exact ⟨s, _, hq, rfl, (tick_notices_iff ⟨_, initial_scriptedClient (by simp), hsteps⟩ hq hlate
    hconnected).mpr hdrop⟩

/-- Nothing is outstanding but reads. -/
def State.onlyReads (s : State) : Bool :=
  s.pending.all fun
    | .read => true
    | _ => false

/-- The pool does not answer `mining.subscribe`, and no tick notices it. -/
theorem silent_pool_unnoticed :
    Initial (scriptedClient loginScript [poolOn "a" .none]) ∧
      system.endsIn (fun s => s.isConnected && decide (s.timer = .armed) && s.onlyReads &&
          decide (s.out.wire ≠ []) && s.recv.handed.isEmpty &&
          decide (s.clock = s.cfg.responsetimeout * 1000))
        (scriptedClient loginScript [poolOn "a" .none])
        (connecting ++ [.elapse 4000, .tick]) = true :=
  ⟨initial_scriptedClient (by simp), by decide +kernel⟩

/-! ## Work -/

/-- The time of the last job that was accepted or connection that was established, and whether the
last of these and of the logins was a job. -/
structure WorkRecord where
  since : Nat := 0
  jobLast : Bool := false

def WorkRecord.note (r : WorkRecord) (s : State) (e : Event) (_ : State) : WorkRecord :=
  if s.establishes e then ⟨s.clock, false⟩
  else
    match s.deed e with
    | .job jPrm => if s.accepts jPrm then ⟨s.clock, true⟩ else r
    | .authorization true => { r with jobLast := false }
    | .login true true => { r with jobLast := false }
    | _ => r

/-- The runs of the client with the time of the last work. -/
def workSystem : Machine (State × WorkRecord) Event Fault := system.recorded {} WorkRecord.note

/-- The next tick posts a disconnect besides what it posts for a late response. -/
def DisconnectsForWork (s : State) : Prop :=
  ∃ u t, s.uri? = some u ∧ workloopTimerElapsed s = .ok t ∧
    t.pending = s.pending ++ (s.responsePosts u ++ [.disconnect])

section Work
variable {s t : State} {e : Event} {u : Uri}

/-- Without a plea no tick looks for work. -/
theorem not_disconnectsForWork_of_count (h : s.pleas.count = 0) : ¬ DisconnectsForWork s := by
  rintro ⟨u, t, -, htick, hpending⟩
  rw [workloopTimerElapsed, if_neg (not_not.mpr h)] at htick
  cases htick
  simp at hpending

/-- A tick on a connection disconnects for want of work if a response is outstanding, the last work
is too old and the endpoints suffice. -/
theorem disconnectsForWork_iff (hconnected : s.isConnected = true) :
    DisconnectsForWork s ↔
      s.pleas.count ≠ 0 ∧ s.overdue s.job.currentTimestamp ∧ s.CanDrop := by
  by_cases hcount : s.pleas.count = 0
  · exact iff_of_false (not_disconnectsForWork_of_count hcount) fun h => h.1 hcount
  · constructor
    · rintro ⟨u, t, hu, htick, hpending⟩
      rw [workloopTimerElapsed_of_isConnected hcount hconnected] at htick
      have hdropped := (drops_watchConnection hu).ok htick
      refine ⟨hcount, ?_, hdropped.canDrop hu⟩
      by_contra hearly
      rw [hdropped.pending, State.workPosts, if_neg hearly] at hpending
      simp at hpending
    · rintro ⟨-, hlate, hdrop⟩
      obtain ⟨u, hu, -⟩ := id hdrop
      obtain ⟨t, htick, hpending⟩ := (pending_of_tick hcount hconnected hu).mpr hdrop
      rw [State.workPosts, if_pos hlate] at hpending
      exact ⟨u, t, hu, htick, hpending⟩

/-- A step that neither takes a job nor logs in keeps the time of the last work. -/
theorem currentTimestamp_of_step (hjob : ∀ jPrm, s.deed e ≠ .job jPrm)
    (hauthorization : s.deed e ≠ .authorization true) (hlogin : s.deed e ≠ .login true true)
    (hstep : step s e = some (.ok t)) : t.job.currentTimestamp = s.job.currentTimestamp := by
  have hallowed : (s.deed e).Allowed fun s t : State =>
      t.job.currentTimestamp = s.job.currentTimestamp := by
    cases hdeed : s.deed e with
    | login isSuccess proxy =>
      refine ⟨fun _ => rfl, fun hsuccess hproxy => ?_⟩
      rw [hsuccess, hproxy] at hdeed
      exact absurd hdeed hlogin
    | authorization isSuccess =>
      refine ⟨fun _ => rfl, fun hsuccess => ?_⟩
      rw [hsuccess] at hdeed
      exact absurd hdeed hauthorization
    | job jPrm => exact absurd hdeed (hjob jPrm)
    | difficulty => exact fun _ _ => rfl
    | other => trivial
  exact untouched_of_step (f := View.currentTimestamp) (fun _ _ _ _ _ _ => rfl) hstep hallowed
    (fun _ _ _ => rfl) fun _ _ => rfl

/-- A job sets the time of the last work if it is accepted. -/
theorem currentTimestamp_of_job {jPrm : Value} (hjob : s.deed e = .job jPrm)
    (hstep : step s e = some (.ok t)) :
    t.job.currentTimestamp = if s.accepts jPrm then s.clock else s.job.currentTimestamp := by
  obtain ⟨ps, htake⟩ := takeJob_of_step hstep (State.deed_eq_job.mp hjob)
  obtain ⟨resetJob, work, hreset, hwork, rfl⟩ := takeJob_eq_ok htake.symm
  have hwork : Work.ofStratum jPrm s.job.extraNonce1 s.job.nextWorkTarget = .ok work := hwork
  rw [State.accepts, hreset, hwork]
  dsimp only
  split
  · rfl
  · rfl

end Work

theorem currentTimestamp_eq_since {s : State} {r : WorkRecord}
    (h : workSystem.Reachable (fun _ _ => True) (s, r)) :
    r.jobLast = true → s.job.currentTimestamp = r.since := by
  refine Machine.Reachable.recorded_invariant
    (I := fun s r => r.jobLast = true → s.job.currentTimestamp = r.since) h (fun _ _ => nofun) ?_
  intro s r e t hr _ hstep
  rw [WorkRecord.note]
  split
  next => exact nofun
  next =>
    split
    next jPrm hdeed =>
      rw [currentTimestamp_of_job hdeed hstep]
      split
      next => exact fun _ => rfl
      next => exact hr
    next => exact nofun
    next => exact nofun
    next hjob hauthorization hlogin =>
      rw [currentTimestamp_of_step hjob hauthorization hlogin hstep]
      exact hr

/-- On a connection that has received a job since its login, ticks disconnect for want of work
exactly when it is due, if and only if by then a request is outstanding and the endpoints suffice.
As `overdue` counts whole seconds, it is due only a second after the time of the command line. -/
theorem work_timeout_exact_iff {s : State} {r : WorkRecord}
    (h : workSystem.Reachable (fun _ _ => True) (s, r)) (hconnected : s.isConnected = true)
    (hjob : r.jobLast = true) :
    (DisconnectsForWork s ↔ s.overdue r.since) ↔
      (s.overdue r.since → s.pleas.count ≠ 0 ∧ s.CanDrop) := by
  rw [disconnectsForWork_iff hconnected, currentTimestamp_eq_since h hjob]
  constructor
  · rintro hiff hdue
    obtain ⟨hcount, -, hdrop⟩ := hiff.mpr hdue
    exact ⟨hcount, hdrop⟩
  · intro hneeds
    exact ⟨fun ⟨_, hdue, _⟩ => hdue, fun hdue => ⟨(hneeds hdue).1, hdue, (hneeds hdue).2⟩⟩

/-- A share is submitted before the time for the next job is over. -/
theorem work_timeout_exact_iff_submitted : ∃ s, DisconnectsForWork s := by
  obtain ⟨⟨s, r⟩, hsteps, hs⟩ := Machine.steps_of_endsIn (M := workSystem)
    (p := fun x => x.1.isConnected && x.2.jobLast && decide (x.1.overdue x.2.since) &&
      decide (x.1.pleas.count ≠ 0) &&
      x.1.uri?.any fun u => decide (x.1.drops u ≤ x.1.endpoints.length))
    (Machine.meets_true (scriptedClient loginScript [poolOn "a" .none], {})
      (connecting ++ message 0 ++ message 1 ++ message 2 ++
        [.elapse 240000, .found ⟨workNamed "job" "ab"⟩, .elapse 1000])) (by decide +kernel)
  simp only [Bool.and_eq_true, decide_eq_true_eq, Option.any_eq_true] at hs
  obtain ⟨⟨⟨⟨hconnected, hjob⟩, hdue⟩, hcount⟩, hdrop⟩ := hs
  have hreach := Machine.Steps.reachable_recorded (initial_scriptedClient (by simp)) hsteps
  exact ⟨s, ((work_timeout_exact_iff hreach hconnected hjob).mpr fun _ => ⟨hcount, hdrop⟩).mpr hdue⟩

/-- No work comes for four minutes, and as no request is outstanding, no tick notices it. -/
theorem missing_work_unnoticed :
    ∃ s r, workSystem.Reachable (fun _ _ => True) (s, r) ∧ s.isConnected = true ∧
      s.timer = .armed ∧ s.overdue r.since ∧ ¬ DisconnectsForWork s := by
  obtain ⟨⟨s, r⟩, hsteps, hs⟩ := Machine.steps_of_endsIn (M := workSystem)
    (p := fun x => x.1.isConnected && decide (x.1.timer = .armed) &&
      decide (x.1.overdue x.2.since) && decide (x.1.pleas.count = 0))
    (Machine.meets_true (scriptedClient loginScript [poolOn "a" .none], {})
      (connecting ++ message 0 ++ message 1 ++ message 2 ++ [.elapse 241000])) (by decide +kernel)
  simp only [Bool.and_eq_true, decide_eq_true_eq] at hs
  obtain ⟨⟨⟨hconnected, htimer⟩, hdue⟩, hcount⟩ := hs
  have hreach := Machine.Steps.reachable_recorded (initial_scriptedClient (by simp)) hsteps
  exact ⟨s, r, hreach, hconnected, htimer, hdue, not_disconnectsForWork_of_count hcount⟩

end Energiminer.Stratum
