import Energiminer.Stratum.Proofs.Modes
import Energiminer.Stratum.Proofs.Pools

/-!
# The autodetection is well-founded

The mode of a pool and the number of its reconnects are at most two together, once the pool was tried.
`disconnect_finalize` runs only on a connection whose pool has a known mode: the mode is chosen where
the connection is established, and the manager takes another pool only while there is none.
-/

namespace Energiminer.Stratum
open Misc Misc.Json Misc.Except Primitives

variable {s t : State} {e : Event} {u : Uri} {g : Reconnects} {k : Nat}

/-! ## The invariant -/

/-- The modes and the reconnects of all pools are sound, and the pool of a connection was tried. -/
structure Detecting (s : State) (g : Reconnects) : Prop where
  ending : s.link.Ending
  phase : s.manager.phase = .start
  sound : ∀ (i : Nat) (u : Uri), s.connections[i]? = some u → u.version = 999 → Sound u (g i)
  tried : s.link.Active → s.flags.canconnect = true → ∀ u, s.uri? = some u → u.version = 999 → u.Tried

theorem detecting_initial (h : atomicSystem.init s) : Detecting s fun _ => 0 := by
  obtain ⟨⟨cfg, connections, maxTries, failoverTimeout, _, _, rfl⟩, hfresh⟩ := h
  refine ⟨Nat.le_refl 0, rfl, fun i u hu _ => ?_, ?_⟩
  · have hu := hfresh u (List.mem_of_getElem? hu)
    exact .inl ⟨hu.stratumMode, hu.stratumModeConfirmed, rfl⟩
  · rintro (h | h)
    · cases h
    · cases h

/-- The pool of `m_conn` has a place, and a sound mode. -/
theorem Detecting.sound_uri (h : Detecting s g) (hu : s.uri? = some u) (hversion : u.version = 999) :
    ∃ i, s.conn = some i ∧ Sound u (g i) := by
  obtain ⟨i, hi, hget⟩ := Option.bind_eq_some_iff.mp hu
  exact ⟨i, hi, h.sound i u hget hversion⟩

/-- `disconnect_finalize` runs only for a connection. -/
theorem Detecting.active_of_finalizes (h : Detecting s g) (hfinal : s.finalizes e = true) :
    s.link.Active := by
  have hends (hends : s.endsAtOnce = true) : s.link.Active := by
    rw [State.endsAtOnce, Bool.and_eq_true, Bool.and_eq_true, Bool.and_eq_true] at hends
    exact .inl hends.1.1.1
  unfold State.finalizes at hfinal
  split at hfinal
  next i =>
    split at hfinal
    next => exact hends hfinal
    next hp =>
      -- the operation that completes says that the connection is being ended
      have htokens : Token.finalize ::ₘ (s.taken (.complete i .run)).tokens = s.link.tokens :=
        congrArg Link.tokens (linkBefore_eraseIdx hp)
      have hrest := h.ending.rest htokens.symm
      refine .inr (Bool.eq_true_of_not_eq_false fun hd => ?_)
      rw [hd] at hrest
      exact absurd hrest (Nat.not_succ_le_zero _)
    next => cases hfinal
  next =>
    rw [Bool.and_eq_true] at hfinal
    exact hends hfinal.2
  next =>
    rw [Bool.and_eq_true] at hfinal
    exact hends hfinal.2
  next => cases hfinal

theorem Detecting.tried_of_finalizes (h : Detecting s g) (hfinal : s.finalizes e = true)
    (hu : s.uri? = some u) (hretries : s.retries u = true) (hversion : u.version = 999) : u.Tried := by
  rw [State.retries, Bool.and_eq_true] at hretries
  exact h.tried (h.active_of_finalizes hfinal) hretries.2 u hu hversion

/-- The places of the pools stay, and each pool takes its turn. -/
def Turns (s t : State) (k : Nat → Nat) : Prop :=
  t.connections.length = s.connections.length ∧
    ∀ (i : Nat) (w : Uri), s.connections[i]? = some w → ∃ w', t.connections[i]? = some w' ∧ Turn w w' (k i)

theorem Handled.turns (h : Handled s t) : Turns s t fun _ => 0 := by
  refine ⟨h.length, fun i w hw => ?_⟩
  obtain ⟨w', hw', hnoted⟩ := h.uris i w hw
  exact ⟨w', hw', .noted hnoted⟩

theorem turns_of_modify {f : Uri → Uri} (hu : s.uri? = some u) (huris : t.uris = s.uris.modify f)
    (hturn : Turn u (f u) k) : Turns s t fun i => if s.conn = some i then k else 0 := by
  refine ⟨?_, fun i w hw => UriView.modify_turns (v := s.uris) hu huris hturn i w hw⟩
  have hconnections : t.connections = (s.uris.modify f).connections := congrArg UriView.connections huris
  rw [hconnections, UriView.modify]
  split
  next j hconn => exact List.length_modify f _ j
  next => rfl

/-- The mode that the login is tried with. -/
theorem turns_of_established (hu : s.uri? = some u)
    (huris : t.uris = { s.uris with canconnect := true }.loginMode u) :
    Turns s t (fun _ => 0) ∧ ∀ w, t.uri? = some w → w.version = 999 → w.Tried := by
  have hmodified {f : Uri → Uri} (h : t.uris = { s.uris with canconnect := true }.modify f)
      (hturn : Turn u (f u) 0) (htried : (f u).version = 999 → (f u).Tried) :
      Turns s t (fun _ => 0) ∧ ∀ w, t.uri? = some w → w.version = 999 → w.Tried := by
    refine ⟨?_, fun w hw => ?_⟩
    · have hturns := turns_of_modify (s := { s with flags.canconnect := true }) hu h hturn
      simp only [ite_self] at hturns
      exact hturns
    · have hnext : t.uri? = (s.uri?).map f := (congrArg UriView.uri? h).trans (UriView.uri?_modify _ f)
      rw [hw, hu, Option.map_some] at hnext
      cases hnext
      exact htried
  rw [UriView.loginMode] at huris
  split at huris
  next hversion => exact hmodified huris (.fixed (Nat.ne_of_lt hversion) rfl) fun _ _ => rfl
  next =>
    split at huris
    next hnew =>
      rw [Bool.and_eq_true, Bool.not_eq_true', decide_eq_true_eq] at hnew
      refine hmodified huris (.chosen hnew.2 hnew.1 rfl) fun _ hmode => ?_
      have hother : ENERGISTRATUM ≠ 999 := by decide
      exact absurd hmode hother
    next hknown =>
      have hconnections : t.connections = s.connections := congrArg UriView.connections huris
      have hconn : t.conn = s.conn := congrArg UriView.conn huris
      refine ⟨⟨congrArg _ hconnections, fun i w hw => ⟨w, ?_, .noted (.refl w)⟩⟩, fun w hw _ hmode => ?_⟩
      · rw [hconnections]
        exact hw
      · rw [State.uri?, hconn, hconnections] at hw
        cases hu.symm.trans hw
        rw [Bool.and_eq_true, Bool.not_eq_true', decide_eq_true_eq, and_comm, not_and] at hknown
        exact Bool.eq_true_of_not_eq_false (hknown hmode)

/-- The record after an event that is not one of the manager. -/
theorem note_of_turns {k : Nat → Nat} (hturns : Turns s t k)
    (hk : ∀ i, k i = if s.reconnects e = true ∧ s.conn = some i then 1 else 0) (i : Nat) :
    g.note s e t i = g i + k i := by
  rw [hk, Reconnects.note]
  by_cases hreconnects : s.reconnects e = true
  · rw [if_pos hreconnects]
    simp only [hreconnects, true_and]
    split
    · rfl
    · rfl
  · rw [if_neg hreconnects, if_neg (Nat.not_lt.mpr (Nat.le_of_eq hturns.1.symm)),
      if_neg (fun h => hreconnects h.1)]
    rfl

theorem reconnects_of_finalizes (hfinal : s.finalizes e = false) : s.reconnects e = false := by
  rw [State.reconnects, hfinal, Bool.false_and]

/-- Each pool takes a turn that the record counts. -/
theorem Detecting.turns (h : Detecting s g) (hturned : Turned s e t) :
    Turns s t fun i => if s.reconnects e = true ∧ s.conn = some i then 1 else 0 := by
  have hnone (hreconnects : s.reconnects e = false) (hturns : Turns s t fun _ => 0) :
      Turns s t fun i => if s.reconnects e = true ∧ s.conn = some i then 1 else 0 := by
    simpa only [hreconnects, Bool.false_eq_true, false_and, if_false] using hturns
  cases hturned with
  | handled hfinal hhandled => exact hnone (reconnects_of_finalizes hfinal) hhandled.turns
  | established u hfinal hu huris =>
    exact hnone (reconnects_of_finalizes hfinal) (turns_of_established hu huris).1
  | finalized u hfinal hu hfinalized =>
    have hreconnects : s.reconnects e = (s.retries u && decide (0 < u.stratumMode)) := by
      rw [State.reconnects, hfinal, hu, Bool.true_and, Option.any_some]
    obtain ⟨ps, hps⟩ := s.taken_eq e
    rw [hps] at hfinalized
    cases hfinalized with
    | lowered hretries hmode huris =>
      have hretries : s.retries u = true := hretries
      have hyes : s.reconnects e = true := by
        rw [hreconnects, hretries, decide_eq_true hmode]
        rfl
      have hunconfirmed : u.stratumModeConfirmed = false := by
        rw [State.retries, Bool.and_eq_true, Bool.and_eq_true, Bool.not_eq_true',
          Bool.not_eq_true'] at hretries
        exact hretries.1.2
      have hturn := turns_of_modify hu huris
        (.lowered (h.tried_of_finalizes hfinal hu hretries) hmode hunconfirmed rfl)
      simpa only [hyes, true_and] using hturn
    | lost hretries hmode huris =>
      have hno : s.reconnects e = false := by
        rw [hreconnects, hmode]
        exact Bool.and_false _
      have hturn := turns_of_modify hu huris (.noted ⟨rfl, rfl, id, .inl⟩)
      simp only [ite_self] at hturn
      exact hnone hno hturn
    | ended hretries huris =>
      have hno : s.reconnects e = false := by
        rw [hreconnects, show s.retries u = false from hretries, Bool.false_and]
      have hconnections : t.connections = s.connections := congrArg UriView.connections huris
      refine hnone hno ⟨congrArg _ hconnections, fun i w hw => ⟨w, ?_, .noted (.refl w)⟩⟩
      rw [hconnections]
      exact hw

theorem Turns.sound {k : Nat → Nat} (h : Turns s t k)
    (hs : ∀ (i : Nat) (u : Uri), s.connections[i]? = some u → u.version = 999 → Sound u (g i))
    (i : Nat) (v : Uri) (hv : t.connections[i]? = some v) (hversion : v.version = 999) :
    Sound v (g i + k i) := by
  obtain ⟨hlength, hturns⟩ := h
  have hi : i < s.connections.length := by
    rw [← hlength]
    exact (List.getElem?_eq_some_iff.mp hv).1
  obtain ⟨w, hw, hturn⟩ := hturns i _ (List.getElem?_eq_getElem hi)
  cases hv.symm.trans hw
  exact hturn.sound hversion (hs i _ (List.getElem?_eq_getElem hi) (hturn.later.version.symm.trans hversion))

theorem Turns.later {k : Nat → Nat} (h : Turns s t k) :
    List.Forall₂ Later s.connections t.connections := by
  refine List.forall₂_iff_get.mpr ⟨h.1.symm, fun i hs ht => ?_⟩
  obtain ⟨w, hw, hturn⟩ := h.2 i _ (List.getElem?_eq_getElem hs)
  rw [List.getElem?_eq_getElem ht] at hw
  cases hw
  exact hturn.later

theorem detecting_step (h : Detecting s g) (hstep : step s e = some (.ok t)) (he : e.managerial = false) :
    Detecting t (g.note s e t) := by
  have hmoved : MovedTo s.link e.mover s t := moves_step hstep
  have hturned := turned_step hstep he
  have hturns := h.turns hturned
  have hphase : t.manager.phase = s.manager.phase := by
    refine (undisturbed_step hstep ⟨?_, ?_, ?_⟩).phase
    all_goals
      rintro rfl
      cases he
  refine ⟨hmoved.move.ending h.ending, hphase.trans h.phase, fun i v hv hversion => ?_, ?_⟩
  · rw [note_of_turns hturns fun _ => rfl]
    exact hturns.sound h.sound i v hv hversion
  · intro hactive hcan v hv hversion
    cases hturned with
    | handled hfinal hhandled hbefore =>
      obtain ⟨i, hi, hget⟩ := Option.bind_eq_some_iff.mp hv
      rw [hhandled.conn] at hi
      have hlt : i < s.connections.length := by
        rw [← hhandled.length]
        exact (List.getElem?_eq_some_iff.mp hget).1
      have hu := List.getElem?_eq_getElem hlt
      obtain ⟨w, hw, hnoted⟩ := hhandled.uris i _ hu
      cases hget.symm.trans hw
      refine hnoted.tried (h.tried (hbefore hcan hactive) (hhandled.canconnect hcan) _ ?_ ?_)
      · rw [State.uri?, hi, Option.bind_some, hu]
      · exact hnoted.version.symm.trans hversion
    | established u hfinal hu huris => exact (turns_of_established hu huris).2 v hv hversion
    | finalized u hfinal hu hfinalized hoff => exact absurd hactive hoff

/-! ## The manager -/

/-- An iteration of the manager that takes another pool. -/
structure Iterated (s t : State) : Prop where
  ending : t.link.Ending
  phase : t.manager.phase = .start
  connections : t.connections = s.connections ∨
    (s.manager.activeConnectionIdx < s.connections.length ∧
      t.connections = s.connections.eraseIdx s.manager.activeConnectionIdx)
  idle : t.link.Active → t.flags.canconnect = false

theorem connections_discardPool (h : discardPool s = .ok t) :
    t.connections = s.connections ∨
      (s.manager.activeConnectionIdx < s.connections.length ∧
        t.connections = s.connections.eraseIdx s.manager.activeConnectionIdx) := by
  obtain ⟨u, hu, h⟩ := bind_eq_ok.mp h
  split at h
  next =>
    cases h
    rw [State.activeUri] at hu
    split at hu
    next hget => exact .inr ⟨(List.getElem?_eq_some_iff.mp hget).1, rfl⟩
    next => cases hu
  next =>
    cases h
    exact .inl rfl

theorem usePool_cases (h : usePool s = .ok t) :
    t.connections = s.connections ∧
      (t.manager.phase = .selected ∧ t.flags.canconnect = false ∨ t.manager.phase = .start) := by
  obtain ⟨u, _, h⟩ := bind_eq_ok.mp h
  split at h
  next =>
    cases h
    exact ⟨rfl, .inl ⟨rfl, rfl⟩⟩
  next =>
    cases h
    exact ⟨rfl, .inr rfl⟩

theorem managerSelect_cases (h : managerSelect s = .ok t) :
    (t.connections = s.connections ∨
      (s.manager.activeConnectionIdx < s.connections.length ∧
        t.connections = s.connections.eraseIdx s.manager.activeConnectionIdx)) ∧
      (t.manager.phase = .selected ∧ t.flags.canconnect = false ∨ t.manager.phase = .start) := by
  obtain ⟨r, hr, h⟩ := bind_eq_ok.mp h
  obtain ⟨hconnections, hphase⟩ := usePool_cases h
  rw [connections_rotatePools] at hconnections
  rw [hconnections]
  exact ⟨connections_discardPool hr, hphase⟩

theorem managerConnect_cases (h : managerConnect s = .ok t) :
    t.connections = s.connections ∧ t.manager.phase = .start ∧
      (s.flags.canconnect = false → t.flags.canconnect = false) := by
  obtain ⟨r, hr, hreturn⟩ := bind_eq_ok.mp h
  cases hreturn
  rcases connect_cases hr with rfl | hpools
  · exact ⟨rfl, rfl, id⟩
  · exact ⟨congrArg PoolView.connections hpools, rfl, fun _ => congrArg PoolView.canconnect hpools⟩

/-- A selection neither makes nor ends a connection. -/
theorem Move.active_select {l l' : Link} (hmove : Move l .select l') (h : l'.Active) : l.Active := by
  cases hmove
  exact h

theorem not_active_of_check (h : (!s.isPendingState && !s.isConnected) = true) : ¬ s.link.Active := by
  rw [Bool.and_eq_true, Bool.not_eq_true', Bool.not_eq_true', State.isPendingState,
    Bool.or_eq_false_iff] at h
  obtain ⟨⟨hconnecting, hdisconnecting⟩, hconnected⟩ := h
  rw [State.isConnected, State.isPendingState, hconnecting, hdisconnecting] at hconnected
  rintro (hc | hd)
  · rw [show s.flags.connected = true from hc] at hconnected
    cases hconnected
  · exact absurd (hdisconnecting.symm.trans hd) Bool.false_ne_true

theorem iteration_cases (hending : s.link.Ending) (hphase : s.manager.phase = .start)
    (h : managerIteration s = .ok t) : t = s ∨ Iterated s t := by
  rw [managerIteration] at h
  by_cases hoff : (!s.isPendingState && !s.isConnected) = true
  · -- the flags say that there is no connection
    have hcheck : managerCheck s = { s with manager.phase := .checked } := by
      rw [managerCheck, if_pos hoff]
    rw [hcheck, if_pos rfl] at h
    obtain ⟨r, hr, h⟩ := bind_eq_ok.mp h
    have hselected : MovedTo s.link .select { s with manager.phase := .checked } r := by
      have hmoves := moves_managerSelect { s with manager.phase := .checked }
      rw [hr] at hmoves
      exact hmoves
    have hselect := hselected.move
    obtain ⟨hconnections, hrest⟩ := managerSelect_cases hr
    refine .inr ?_
    split at h
    next hphase' =>
      have hconnected : MovedTo r.link .connect r t := by
        have hmoves := moves_managerConnect r
        rw [h] at hmoves
        exact hmoves
      obtain ⟨hsame, hstart, hcan⟩ := managerConnect_cases h
      refine ⟨hconnected.move.ending (hselect.ending hending), hstart, hsame ▸ hconnections, fun _ => ?_⟩
      rcases hrest with ⟨_, hbarred⟩ | hno
      · exact hcan hbarred
      · rw [hphase'] at hno
        cases hno
    next hother =>
      cases h
      rcases hrest with ⟨hyes, _⟩ | hstart
      · exact absurd hyes hother
      · refine ⟨hselect.ending hending, hstart, hconnections, fun hactive => ?_⟩
        exact absurd (hselect.active_select hactive) (not_active_of_check hoff)
  · have hcheck : managerCheck s = s := by
      rw [managerCheck, if_neg hoff]
    rw [hcheck, hphase, if_neg (by decide)] at h
    cases h
    exact .inl rfl

theorem note_iterated (hfinal : s.finalizes e = false)
    (h : t.connections = s.connections ∨
      (s.manager.activeConnectionIdx < s.connections.length ∧
        t.connections = s.connections.eraseIdx s.manager.activeConnectionIdx))
    (hs : ∀ (i : Nat) (u : Uri), s.connections[i]? = some u → u.version = 999 → Sound u (g i))
    (i : Nat) (v : Uri) (hv : t.connections[i]? = some v) (hversion : v.version = 999) :
    Sound v (g.note s e t i) := by
  rw [Reconnects.note, reconnects_of_finalizes hfinal, if_neg Bool.false_ne_true]
  rcases h with hsame | ⟨hlt, herased⟩
  · rw [hsame, if_neg (Nat.lt_irrefl _)]
    exact hs i v (hsame ▸ hv) hversion
  · have hfewer : t.connections.length < s.connections.length := by
      rw [herased, List.length_eraseIdx_of_lt hlt]
      omega
    rw [if_pos hfewer, Reconnects.erase]
    rw [herased, List.getElem?_eraseIdx] at hv
    split at hv
    next hbefore =>
      rw [if_pos hbefore]
      exact hs i v hv hversion
    next hafter =>
      rw [if_neg hafter]
      exact hs (i + 1) v hv hversion

theorem Iterated.detecting (h : Iterated s t) (hs : Detecting s g) : Detecting t (g.note s .check t) where
  ending := h.ending
  phase := h.phase
  sound := note_iterated rfl h.connections hs.sound
  tried hactive hcan := absurd ((h.idle hactive).symm.trans hcan) Bool.false_ne_true

theorem detecting_atomicStep (h : Detecting s g) (hstep : atomicStep s e = some (.ok t)) :
    Detecting t (g.note s e t) := by
  cases e with
  | check =>
    obtain ⟨⟨_, hphase⟩, hiteration⟩ := Option.ite_none_right_eq_some.mp hstep
    rcases iteration_cases h.ending hphase (Option.some.inj hiteration) with rfl | hiterated
    · exact ⟨h.ending, h.phase, note_iterated rfl (.inl rfl) h.sound, h.tried⟩
    · exact hiterated.detecting h
  | select | connect => cases hstep
  | complete | segment | written | tick | failover | stop | found | elapse =>
    exact detecting_step h hstep rfl

/-! ## What an event may do to the modes -/

/-- The first message on a connection is the `mining.subscribe` of its pool. -/
theorem login_eq_ok (h : login s = .ok t) :
    ∃ u, s.uri? = some u ∧ t.uri? = some u ∧ t.flags = s.flags ∧
      (t.out = s.out ∨ t.out = s.out.send
        (writeRequest s.cfg.jWriter (subscribeRequest u t.user t.worker))) := by
  obtain ⟨r, hr, h⟩ := bind_eq_ok.mp h
  obtain ⟨_, _, hr⟩ := bind_eq_ok.mp hr
  obtain ⟨_, _, hreturn⟩ := bind_eq_ok.mp hr
  obtain ⟨b, hb, _⟩ := noteUse_eq s
  rw [hb] at hreturn
  cases hreturn
  obtain ⟨u, hu, hsend⟩ := bind_eq_ok.mp h
  have hu : s.uri? = some u := State.uri_eq_ok_iff.mp hu
  refine ⟨u, hu, ?_⟩
  rw [sendSocketData] at hsend
  split at hsend
  next =>
    cases hsend
    exact ⟨hu, rfl, .inl rfl⟩
  next =>
    obtain ⟨_, _, hsend⟩ := bind_eq_ok.mp hsend
    obtain ⟨_, _, hreturn⟩ := bind_eq_ok.mp hsend
    cases hreturn
    exact ⟨hu, rfl, .inr rfl⟩

theorem loginMode_eq (s : State) (u : Uri) : ∃ cs, loginMode s u = { s with connections := cs } := by
  rw [loginMode]
  split
  · obtain ⟨cs, hcs, _⟩ := modifyUri_eq s
      (fun w => { w with stratumMode := u.version, stratumModeConfirmed := true }) fun _ => rfl
    exact ⟨cs, hcs⟩
  · split
    · obtain ⟨cs, hcs, _⟩ := modifyUri_eq s
        (fun w => { w with stratumMode := ENERGISTRATUM, stratumModeConfirmed := false }) fun _ => rfl
      exact ⟨cs, hcs⟩
    · exact ⟨s.connections, rfl⟩

theorem subscribes_of_establishes (hstep : step s e = some (.ok t)) (h : s.establishes e = true) :
    ∃ u, t.uri? = some u ∧ t.flags.connected = true ∧ t.flags.canconnect = true ∧
      (t.out = s.out.established ∨ t.out = s.out.established.send
        (writeRequest s.cfg.jWriter (subscribeRequest u t.user t.worker))) := by
  unfold State.establishes at h
  split at h
  next i ec hec =>
    split at h
    next j u hp hsocket hu =>
      rw [Bool.and_eq_true, Bool.and_eq_true, Bool.not_eq_true', Bool.not_eq_true'] at h
      obtain ⟨⟨hec', hopen⟩, hhandshake⟩ := h
      have hcomplete : complete s i (.connected ec hec) = some (.ok t) := hstep
      rw [complete, hp] at hcomplete
      have hok : connectHandler (s.taken (.complete i (.connected ec hec))) ec hec = .ok t :=
        Option.some.inj hcomplete
      rw [connectHandler] at hok
      dsimp only at hok
      obtain ⟨b, hb, _⟩ := noteUse_eq
        { s.taken (.complete i (.connected ec hec)) with flags.connecting := false }
      rw [hb] at hok
      obtain ⟨j', hj', hok⟩ := bind_eq_ok.mp hok
      cases hsocket.symm.trans (deref_eq_ok hj')
      have hgood : ¬ (ec || !s.isOpen j) = true := by
        rw [hec', hopen]
        exact Bool.false_ne_true
      split at hok
      next hbad => exact absurd hbad hgood
      next =>
        obtain ⟨u', hu', hok⟩ := bind_eq_ok.mp hok
        cases hu.symm.trans (State.uri_eq_ok_iff.mp hu')
        obtain ⟨_, _, hok⟩ := bind_eq_ok.mp hok
        rw [hhandshake, if_neg Bool.false_ne_true] at hok
        obtain ⟨w, _, hw, hflags, hout⟩ := login_eq_ok hok
        obtain ⟨cs, hcs⟩ := loginMode_eq (State.enter _ u) u
        rw [hcs] at hflags hout
        refine ⟨w, hw, ?_, ?_, hout⟩
        · rw [hflags]
          rfl
        · rw [hflags]
          rfl
    next => cases h
  next => cases h

theorem Iterated.modes (h : Iterated s t) :
    ∃ kept, kept.Sublist s.connections ∧ List.Forall₂ Later kept t.connections := by
  have hrefl (l : List Uri) : List.Forall₂ Later l l :=
    List.forall₂_same.mpr fun u _ => (Turn.noted (.refl u)).later
  refine ⟨t.connections, ?_, hrefl _⟩
  rcases h.connections with hsame | ⟨_, herased⟩
  · exact hsame ▸ List.Sublist.refl _
  · exact herased ▸ List.eraseIdx_sublist _ _

/-- What ends a connection is not an attempt. -/
theorem count_startConnect_taken (h : s.finalizes e = true) :
    (s.taken e).tokens.count .startConnect = s.tokens.count .startConnect := by
  cases e with
  | complete i o =>
    unfold State.finalizes at h
    split at h
    next i' heq =>
      cases heq
      split at h
      next hp =>
        exact congrArg (Multiset.count Token.startConnect ·.tokens) (linkBefore_eraseIdx hp)
      next hp =>
        have htokens : Token.finalize ::ₘ (s.taken (.complete i .run)).tokens = s.tokens :=
          congrArg Link.tokens (linkBefore_eraseIdx hp)
        rw [← htokens, Multiset.count_cons_of_ne (by decide)]
      next => cases h
    next heq => cases heq
    next heq => cases heq
    next => cases h
  | segment | written | tick | failover | check | select | connect | stop | found | elapse => rfl

theorem Turned.of_finalizes (h : Turned s e t) (hfinal : s.finalizes e = true) (hu : s.uri? = some u) :
    Finalized (s.taken e) t u := by
  cases h with
  | handled hnot | established _ hnot => exact absurd (hnot.symm.trans hfinal) Bool.false_ne_true
  | finalized w _ hw hfinalized =>
    cases hu.symm.trans hw
    exact hfinalized

theorem retries_taken (s : State) (e : Event) (u : Uri) : (s.taken e).retries u = s.retries u := by
  obtain ⟨ps, hps⟩ := s.taken_eq e
  rw [hps]
  rfl

theorem Turned.lowers (h : Turned s e t) (hfinal : s.finalizes e = true) (hu : s.uri? = some u)
    (hretries : s.retries u = true) (hmode : 0 < u.stratumMode) :
    t.uri? = some { u with stratumMode := u.stratumMode - 1 } ∧
      t.tokens.count .startConnect = s.tokens.count .startConnect + 1 := by
  cases h.of_finalizes hfinal hu with
  | lowered _ _ huris hpending =>
    have huri : t.uri? = (s.taken e).uri?.map _ :=
      (congrArg UriView.uri? huris).trans (UriView.uri?_modify _ _)
    rw [State.uri?_taken, hu] at huri
    have htokens : t.tokens = .startConnect ::ₘ (s.taken e).tokens := by
      rw [State.tokens, hpending]
      exact tokens_post_some (s := s.taken e) (p := .startConnect) rfl
    refine ⟨huri, ?_⟩
    rw [htokens, Multiset.count_cons_self, count_startConnect_taken hfinal]
  | lost _ hzero => exact absurd hzero (Nat.ne_of_gt hmode)
  | ended hnot =>
    rw [retries_taken] at hnot
    exact absurd (hnot.symm.trans hretries) Bool.false_ne_true

theorem Turned.loses (h : Turned s e t) (hfinal : s.finalizes e = true) (hu : s.uri? = some u)
    (hretries : s.retries u = true) (hmode : u.stratumMode = 0) :
    t.uri? = some { u with unrecoverable := true } ∧
      t.tokens.count .startConnect = s.tokens.count .startConnect := by
  cases h.of_finalizes hfinal hu with
  | lowered _ hpos => exact absurd hmode (Nat.ne_of_gt hpos)
  | lost _ _ huris hpending =>
    have huri : t.uri? = (s.taken e).uri?.map _ :=
      (congrArg UriView.uri? huris).trans (UriView.uri?_modify _ _)
    rw [State.uri?_taken, hu] at huri
    refine ⟨huri, ?_⟩
    rw [State.tokens, hpending]
    exact count_startConnect_taken hfinal
  | ended hnot =>
    rw [retries_taken] at hnot
    exact absurd (hnot.symm.trans hretries) Bool.false_ne_true

theorem Detecting.detects (h : Detecting s g) (hstep : step s e = some (.ok t))
    (he : e.managerial = false) : Detects s e t := by
  have hturned := turned_step hstep he
  have hafter := detecting_step h hstep he
  refine ⟨fun hestablishes => ?_, ⟨s.connections, .refl _, (h.turns hturned).later⟩, ?_, ?_, ?_⟩
  · obtain ⟨u, hu, hconnected, hcan, hout⟩ := subscribes_of_establishes hstep hestablishes
    refine ⟨u, hu, fun hversion => ?_, hout⟩
    obtain ⟨i, _, hsound⟩ := hafter.sound_uri hu hversion
    exact Nat.le_of_add_right_le (hsound.le (hafter.tried (.inl hconnected) hcan u hu hversion))
  · intro hfinal u hu hversion hretries
    obtain ⟨i, _, hsound⟩ := h.sound_uri hu hversion
    exact Nat.le_of_add_right_le (hsound.le (h.tried_of_finalizes hfinal hu hretries hversion))
  · intro hfinal u hu hretries hmode
    exact hturned.lowers hfinal hu hretries hmode
  · intro hfinal u hu hretries hmode
    exact hturned.loses hfinal hu hretries hmode

theorem Detecting.detects_atomicStep (h : Detecting s g) (hstep : atomicStep s e = some (.ok t)) :
    Detects s e t := by
  cases e with
  | check =>
    obtain ⟨⟨_, hphase⟩, hiteration⟩ := Option.ite_none_right_eq_some.mp hstep
    have hmodes : ∃ kept, kept.Sublist s.connections ∧ List.Forall₂ Later kept t.connections := by
      rcases iteration_cases h.ending hphase (Option.some.inj hiteration) with rfl | hiterated
      · exact ⟨t.connections, .refl _, List.forall₂_same.mpr fun u _ => (Turn.noted (.refl u)).later⟩
      · exact hiterated.modes
    exact ⟨nofun, hmodes, nofun, nofun, nofun⟩
  | select | connect => cases hstep
  | complete | segment | written | tick | failover | stop | found | elapse => exact h.detects hstep rfl

/-- In every run, a pool is reconnected at most twice by the autodetection, and every event keeps to the
modes: `mining.subscribe` is sent in mode 2, 1 or 0, no mode increases or changes once it is confirmed, and
`disconnect_finalize` lowers a mode by one or gives up the pool. -/
theorem autodetection_wellFounded {s : State} {g : Reconnects}
    (h : detectionSystem.Reachable (fun _ _ => True) (s, g)) :
    (∀ (i : Nat) (u : Uri), s.connections[i]? = some u → u.version = 999 → g i ≤ 2) ∧
      ∀ e t, atomicStep s e = some (.ok t) → Detects s e t := by
  have hdetecting : Detecting s g :=
    Machine.Reachable.recorded_invariant (I := Detecting) h (fun _ => detecting_initial)
      fun _ _ _ _ hs _ hstep => detecting_atomicStep hs hstep
  refine ⟨fun i u hu hversion => (hdetecting.sound i u hu hversion).reconnects_le, fun e t hstep => ?_⟩
  exact hdetecting.detects_atomicStep hstep

/-- The pool closes its first connection, and is reconnected in mode 1. -/
theorem autodetection_wellFounded_reconnected :
    ∃ s g, (detectionSystem.Reachable (fun _ _ => True) (s, g) ∧ g 0 = 1 ∧
        s.connections = [{ poolOn "a" .none with stratumMode := NRGPROXY }]) ∧ g 0 ≤ 2 ∧
      ∀ e t, atomicStep s e = some (.ok t) → Detects s e t := by
  obtain ⟨⟨s, g⟩, hsteps, hend⟩ := Machine.steps_of_endsIn
    (M := detectionSystem) (s := (silentClient [poolOn "a" .none], fun _ => 0))
    (p := fun x => decide (x.2 0 = 1 ∧
      x.1.connections = [{ poolOn "a" .none with stratumMode := NRGPROXY }]))
    (l := [.check, .complete 0 (.resolved (some [1])), .complete 0 .run,
      .complete 0 (.connected false false), .complete 0 (.received true), .complete 0 .run])
    (Machine.meets_true _ _) (by decide)
  obtain ⟨hone, hconnections⟩ := of_decide_eq_true hend
  have hreachable := hsteps.reachable_recorded (M := atomicSystem)
    ⟨initial_silentClient (by simp), by
      intro u hu
      cases List.mem_singleton.mp hu
      exact ⟨rfl, rfl, rfl⟩⟩
  have hall := autodetection_wellFounded hreachable
  refine ⟨s, g, ⟨hreachable, hone, hconnections⟩,
    hall.1 0 { poolOn "a" .none with stratumMode := NRGPROXY } ?_ rfl, hall.2⟩
  rw [show s.connections = _ from hconnections]
  rfl

end Energiminer.Stratum
