import Energiminer.Stratum.Attempts
import Energiminer.Stratum.Proofs.Endpoints
import Energiminer.Stratum.Proofs.Handlers
import Energiminer.Stratum.Proofs.Sockets

/-!
# Failover after failures

If the manager tests the flags only while no resolver and no queued `start_connect` is under way, it
selects a pool only at rest, the client goes through the stages of one connection after the other, and
every attempt that was counted has ended before the next one is.
-/

namespace Energiminer.Stratum
open Misc Misc.Except Primitives

variable {s t : State} {a : Attempts} {e : Event}

theorem underway_eq_false_iff : s.underway = false ↔ s.link.AtRest := by
  have htokens : s.link.tokens = 0 ↔ ∀ p ∈ s.pending, p.token = none := by
    rw [show s.link.tokens = (s.pending.filterMap Pending.token : List Token) from rfl,
      Multiset.coe_eq_zero, List.filterMap_eq_nil_iff]
  rw [Link.AtRest, htokens, State.underway, Bool.or_eq_false_iff, List.any_eq_false]
  refine and_congr_right fun _ => forall₂_congr fun p _ => ?_
  rw [Bool.not_eq_true, Option.isSome_eq_false_iff, Option.isNone_iff_eq_none]

theorem underway_eq_true_iff : s.underway = true ↔ ¬ s.link.AtRest := by
  rw [← underway_eq_false_iff, Bool.not_eq_false]

/-- The manager goes on only at rest. -/
theorem atRest_of_check {st : Stage} (h : s.link.Holds st) (hflags : s.isPendingState = false)
    (hconnected : s.isConnected = false) (hsilent : s.pending.any Pending.silent = false) :
    s.link.AtRest := by
  obtain ⟨hconnecting, hdisconnecting⟩ := Bool.or_eq_false_iff.mp hflags
  have hnot (tk : Token) (htk : s.link.tokens = {tk}) : ∃ p ∈ s.pending, p.token = some tk := by
    have hmem : tk ∈ s.link.tokens := by
      rw [htk]
      exact Multiset.mem_singleton_self tk
    exact List.mem_filterMap.mp (Multiset.mem_coe.mp hmem)
  rw [List.any_eq_false] at hsilent
  cases st with
  | idle => exact ⟨h.connected, h.tokens⟩
  | up =>
    have hup : s.flags.connected = true := h.connected
    rw [State.isConnected, hup, hflags] at hconnected
    cases hconnected
  | busy tk =>
    obtain ⟨p, hp, htoken⟩ := hnot tk h.tokens
    cases tk with
    | resolve host port | startConnect =>
      refine absurd ?_ (hsilent p hp)
      cases p <;> cases htoken
      rfl
    | connect => exact absurd (hconnecting.symm.trans h.connecting) (by decide)
    | shutdown | finalize => exact absurd (hdisconnecting.symm.trans h.disconnecting) (by decide)

namespace Attempts

/-- The attempts that were counted have ended, except one that is current. -/
structure Counts (a : Attempts) (s : State) : Prop where
  stage : ∃ st, s.link.Holds st
  rest : s.manager.phase ≠ .start → s.link.AtRest
  count : s.manager.connectionAttempt ≤ a.ended + a.current.toNat
  current : a.current = true → s.manager.phase = .selected ∨ ¬ s.link.AtRest

theorem Counts.not_current (h : a.Counts s) (hphase : s.manager.phase = .checked) :
    a.current = false := by
  have hrest := h.rest (by rw [hphase]; decide)
  refine Bool.eq_false_iff.mpr fun hcurrent => ?_
  rcases h.current hcurrent with hselected | hbusy
  · rw [hphase] at hselected
    cases hselected
  · exact hbusy hrest

theorem connectionAttempt_discardPool (h : discardPool s = .ok t) :
    t.manager.maxConnectionAttempts = s.manager.maxConnectionAttempts ∧
      t.manager.connectionAttempt = if s.lost then 0 else s.manager.connectionAttempt := by
  obtain ⟨u, hu, h⟩ := bind_eq_ok.mp h
  have hlost : s.lost = u.unrecoverable := by rw [State.lost, hu]
  rw [hlost]
  split at h
  next hyes =>
    cases h
    rw [if_pos hyes]
    exact ⟨rfl, rfl⟩
  next hno =>
    cases h
    rw [if_neg hno]
    exact ⟨rfl, rfl⟩

theorem Counts.fair (h : a.Counts s) : a.Fair s where
  left hphase hspent := by
    have hcount := h.count
    rw [h.not_current hphase] at hcount
    rw [State.spent] at hspent
    split at hspent
    next r hr =>
      obtain ⟨hmax, hattempt⟩ := connectionAttempt_discardPool hr
      have hle := of_decide_eq_true hspent
      rw [hmax, hattempt] at hle
      refine hle.trans (le_trans ?_ hcount)
      split
      · exact Nat.zero_le _
      · exact Nat.le_refl _
    next => cases hspent
  counted hphase := underway_eq_false_iff.mpr (h.rest (by rw [hphase]; decide))
  started hphase := underway_eq_false_iff.mpr (h.rest (by rw [hphase]; decide))

theorem counts_initial (h : Initial s) : Counts {} s := by
  obtain ⟨cfg, connections, maxTries, failoverTimeout, _, _, rfl⟩ := h
  exact ⟨⟨.idle, rfl, fun hl => (nomatch hl)⟩, fun _ => ⟨rfl, rfl⟩, Nat.le_refl _,
    fun h => (nomatch h)⟩

/-! ## Steps of the handlers -/

theorem observe_sum (a : Attempts) (s t : State) :
    (a.observe s t).ended + (a.observe s t).current.toNat = a.ended + a.current.toNat := by
  rw [observe]
  split
  · cases a.current <;> rfl
  · rfl

theorem current_observe (h : (a.observe s t).current = true) :
    a.current = true ∧ (s.underway = true → t.underway = true) := by
  rw [observe] at h
  split at h
  next => cases h
  next hends =>
    refine ⟨h, fun hs => ?_⟩
    rw [hs, Bool.true_and, Bool.not_eq_true, Bool.not_eq_false'] at hends
    exact hends

theorem observe_of_rest (h : s.link.AtRest) : a.observe s t = a := by
  rw [observe, underway_eq_false_iff.mpr h]
  rfl

theorem Counts.observe (h : a.Counts s) (hmove : Move s.link .other t.link)
    (hmanager : Undisturbed s.manager t.manager) : (a.observe s t).Counts t where
  stage := by
    obtain ⟨st, hst⟩ := h.stage
    exact hmove.holds hst (fun hm => (nomatch hm))
  rest hphase := by
    have hrest := h.rest (hmanager.phase ▸ hphase)
    rw [hmove.atRest hrest rfl]
    exact hrest
  count := by
    rw [observe_sum]
    exact hmanager.connectionAttempt.trans h.count
  current hcurrent := by
    obtain ⟨hbefore, hunderway⟩ := current_observe hcurrent
    rcases h.current hbefore with hphase | hbusy
    · exact .inl (hmanager.phase.trans hphase)
    · exact .inr (underway_eq_true_iff.mp (hunderway (underway_eq_true_iff.mpr hbusy)))

/-- The failover timer resets the count with the pool. -/
theorem connectionAttempt_checkFailoverTimeout (h : checkFailoverTimeout s = .ok t)
    (hindex : t.manager.activeConnectionIdx ≠ s.manager.activeConnectionIdx) :
    t.manager.connectionAttempt = 0 := by
  dsimp only [checkFailoverTimeout] at h
  split at h
  next =>
    obtain ⟨r, _, hreturn⟩ := bind_eq_ok.mp h
    cases hreturn
    rfl
  next =>
    cases h
    exact absurd rfl hindex

/-! ## Steps of the manager -/

theorem Counts.check (h : a.Counts s) (hphase : s.manager.phase = .start)
    (hsilent : s.pending.any Pending.silent = false) :
    (a.observe s (managerCheck s)).Counts (managerCheck s) := by
  rw [managerCheck]
  split
  next hflags =>
    rw [Bool.and_eq_true, Bool.not_eq_true', Bool.not_eq_true'] at hflags
    obtain ⟨st, hst⟩ := h.stage
    have hrest := atRest_of_check hst hflags.1 hflags.2 hsilent
    rw [observe_of_rest hrest]
    refine ⟨⟨st, hst⟩, fun _ => hrest, h.count, fun hcurrent => ?_⟩
    rcases h.current hcurrent with hselected | hbusy
    · rw [hphase] at hselected
      cases hselected
    · exact absurd hrest hbusy
  next => exact h.observe (.stay _) (.refl _)

theorem connectionAttempt_rotatePools (s : State) :
    (rotatePools s).manager.connectionAttempt =
      if s.manager.maxConnectionAttempts ≤ s.manager.connectionAttempt then 0
      else s.manager.connectionAttempt := by
  rw [rotatePools]
  split
  · rfl
  · rfl

theorem select_count (h : managerSelect s = .ok t) (hcount : s.manager.connectionAttempt ≤ a.ended) :
    t.manager.connectionAttempt ≤ (a.note s .select t).ended + (a.note s .select t).current.toNat := by
  obtain ⟨r, hr, h⟩ := bind_eq_ok.mp h
  obtain ⟨hmax, hattempt⟩ := connectionAttempt_discardPool hr
  have hspent : s.spent = decide (r.manager.maxConnectionAttempts ≤ r.manager.connectionAttempt) := by
    rw [State.spent, hr]
  have hended : (rotatePools r).manager.connectionAttempt ≤ (a.note s .select t).ended := by
    rw [connectionAttempt_rotatePools, note, hspent]
    dsimp only
    split
    next => exact Nat.zero_le _
    next hrotates =>
      rw [decide_eq_false hrotates, Bool.false_or, hattempt]
      split
      · exact Nat.le_refl _
      · exact hcount
  obtain ⟨u, _, h⟩ := bind_eq_ok.mp h
  split at h
  next =>
    cases h
    exact Nat.add_le_add_right hended 1
  next =>
    cases h
    exact Nat.le_add_right_of_le hended

theorem Counts.select (h : a.Counts s) (hphase : s.manager.phase = .checked)
    (hselect : managerSelect s = .ok t) (hmove : Move s.link .select t.link) :
    (a.note s .select t).Counts t := by
  have hrest := h.rest (by rw [hphase]; decide)
  have hrest' : t.link.AtRest := by
    cases hlink : t.link
    rw [hlink] at hmove
    cases hmove
    exact hrest
  have hcount := h.count
  rw [h.not_current hphase] at hcount
  have hcounted := select_count hselect hcount
  obtain ⟨st, hst⟩ := h.stage
  refine ⟨hmove.holds hst (fun hm => (nomatch hm)), fun _ => hrest', hcounted, fun hcurrent => ?_⟩
  exact .inl (of_decide_eq_true hcurrent)

theorem manager_connect (h : connect s = .ok t) : t.manager = s.manager := by
  rcases connect_cases h with rfl | hpools
  · rfl
  · exact congrArg PoolView.manager hpools

theorem Counts.connect (h : a.Counts s) (hphase : s.manager.phase = .selected)
    (hconnect : managerConnect s = .ok t) (hmove : Move s.link .connect t.link) :
    (a.observe s t).Counts t := by
  have hrest := h.rest (by rw [hphase]; decide)
  obtain ⟨st, hst⟩ := h.stage
  obtain ⟨r, hr, hreturn⟩ := bind_eq_ok.mp hconnect
  have hsame := congrArg Manager.connectionAttempt (manager_connect hr)
  have hstart : t.manager.phase = .start := by
    cases hreturn
    rfl
  have hattempt : t.manager.connectionAttempt = s.manager.connectionAttempt := by
    cases hreturn
    exact hsame
  have hbusy : ¬ t.link.AtRest := by
    obtain rfl := hst.of_atRest hrest
    have hconnecting := hst.connecting
    generalize t.link = l at hmove
    cases hmove with
    | connectBusy hc => exact absurd (hconnecting.symm.trans hc) (by decide)
    | @connect pool _ _ _ =>
      rintro ⟨_, htokens⟩
      have hne : Token.resolve pool.host pool.port ::ₘ s.link.tokens ≠ 0 := Multiset.cons_ne_zero
      exact hne htokens
  rw [observe_of_rest hrest]
  refine ⟨hmove.holds hst fun _ => hrest, fun hne => absurd hstart hne, ?_, fun _ => .inr hbusy⟩
  rw [hattempt]
  exact h.count

/-! ## Runs -/

theorem counts_step (h : a.Counts s) (haudible : Audible (s, a) e)
    (hstep : step s e = some (.ok t)) : (a.note s e t).Counts t := by
  have hmoved : MovedTo s.link e.mover s t := moves_step hstep
  have hmove := hmoved.move
  cases happens_of_step hstep with
  | check hphase hcheck =>
    cases hcheck
    exact h.check hphase (haudible rfl)
  | select hphase hselect => exact h.select hphase hselect hmove
  | connect hphase hconnect => exact h.connect hphase hconnect hmove
  | failover hfailover =>
    have hobserve := h.observe hmove (undisturbed_step hstep ⟨nofun, nofun, nofun⟩)
    rw [note]
    split
    next => exact hobserve
    next hindex =>
      -- another pool is active, and none of its attempts was counted
      refine ⟨hobserve.stage, hobserve.rest, ?_, fun hc => (nomatch hc)⟩
      rw [connectionAttempt_checkFailoverTimeout hfailover hindex]
      exact Nat.zero_le _
  | complete | segment | written | tick | stop | found | elapse =>
    exact h.observe hmove (undisturbed_step hstep ⟨nofun, nofun, nofun⟩)

/-- If the manager never looks at the flags while a resolver or a queued `start_connect` is under way,
it counts and starts an attempt only when none is in progress, and leaves a pool because of its attempts
only after as many have ended. -/
theorem failover_after_failures {s : State} {a : Attempts}
    (h : attemptSystem.Reachable Audible (s, a)) : a.Fair s := by
  have hcounts : a.Counts s :=
    Machine.Reachable.recorded_invariant (I := fun s a => Counts a s) h (fun _ => counts_initial)
      fun _ _ _ _ hs haudible hstep => counts_step hs haudible hstep
  exact hcounts.fair

/-- The host of the first pool cannot be resolved, and the manager is about to leave it. -/
theorem failover_after_failures_unresolved :
    ∃ s a, (attemptSystem.Reachable Audible (s, a) ∧
        (s.manager.phase = .checked ∧ s.spent = true ∧ a.ended = 1)) ∧ a.Fair s := by
  have hmeets : attemptSystem.Meets Audible (silentClient [poolOn "a" .none, poolOn "b" .none], {})
      [.check, .select, .connect, .complete 0 (.resolved none), .check] :=
    ⟨fun _ => rfl, nofun, nofun, nofun, fun _ => rfl, trivial⟩
  obtain ⟨⟨s, a⟩, hsteps, hend⟩ := Machine.steps_of_endsIn
    (p := fun x : State × Attempts =>
      decide (x.1.manager.phase = .checked ∧ x.1.spent = true ∧ x.2.ended = 1)) hmeets (by decide)
  have hreachable := hsteps.reachable_recorded (initial_silentClient (by simp))
  exact ⟨s, a, ⟨hreachable, of_decide_eq_true hend⟩, failover_after_failures hreachable⟩

/-- The resolver has not answered for the first pool when the manager looks again: it is about to leave
the pool after its only attempt, which has not ended. -/
theorem leaves_pool_while_resolving :
    ∃ s a, attemptSystem.Reachable (fun _ _ => True) (s, a) ∧ s.manager.phase = .checked ∧
      s.spent = true ∧ s.underway = true ∧ s.manager.maxConnectionAttempts = 1 ∧ a.ended = 0 ∧
      ¬ a.Fair s := by
  obtain ⟨⟨s, a⟩, hsteps, hend⟩ := Machine.steps_of_endsIn
    (M := attemptSystem) (s := (silentClient [poolOn "a" .none, poolOn "b" .none], {}))
    (p := fun x => decide (x.1.manager.phase = .checked ∧ x.1.spent = true ∧ x.1.underway = true ∧
      x.1.manager.maxConnectionAttempts = 1 ∧ x.2.ended = 0))
    (l := [.check, .select, .connect, .check]) (Machine.meets_true _ _) (by decide)
  obtain ⟨hphase, hspent, hunderway, hmax, hended⟩ := of_decide_eq_true hend
  refine ⟨s, a, hsteps.reachable_recorded (initial_silentClient (by simp)), hphase, hspent, hunderway,
    hmax, hended, fun hfair => ?_⟩
  exact absurd ((hfair.counted hphase).symm.trans hunderway) (by decide)

end Attempts

end Energiminer.Stratum
