import Energiminer.Stratum.Proofs.EndpointQueue
import Energiminer.Stratum.Proofs.Timer

/-!
# The timeout of an attempt to connect

While a connection is made, or its encryption is ended, a tick compares the age of the oldest plea
with the timeout (`StratumClient.cpp:343-363`). The comparison is the wrong way round: the socket is
closed as long as the timeout has *not* passed. `start_connect` clears the pleas before it makes its
own, a shutdown does not.
-/

namespace Energiminer.Stratum
open Misc Misc.Json Misc.Except Primitives

namespace State

/-- The plea of an attempt to connect or of a shutdown: the last one without a request. -/
def ownPlea (s : State) : Option Plea := s.pleas.unanswered.reverse.find? fun p => p.request.isNone

/-- The socket of an attempt to connect, or of a shutdown of the encryption. -/
def busySocket (s : State) : Option Nat :=
  if s.flags.connecting then s.sock.socket
  else if s.flags.disconnecting && s.uri?.any Uri.secure then s.sock.secure
  else none

/-- The event calls `disconnect()`. -/
def callsDisconnect (s : State) : Event → Bool
  | .complete i .run =>
    match s.pending[i]? with
    | some .disconnect => true
    | _ => false
  | .failover => true
  | .stop => true
  | _ => false

end State

/-- The manager connects only at rest, no message is processed while a connection is made or ended,
and an encryption is ended only when no response is awaited. -/
structure Undistracted (s : State) (e : Event) : Prop where
  connect : e = .connect → s.link.AtRest
  message : (s.processed e).isSome = true → s.isPendingState = false
  disconnect : s.callsDisconnect e = true → s.mayDisconnect = true →
    s.uri?.any Uri.secure = true → s.pleas.count = 0

/-- The oldest plea is the last one, and is not for a request. -/
def Pleas.Own (p : Pleas) : Prop := p.count ≠ 0 ∧ ∃ us, p.unanswered = us ++ [⟨none, p.older⟩]

/-- After a step a connection is made or ended with its own plea, or as before. -/
def Timely (s t : State) : Prop :=
  t.pleas.Own ∨ (t.isPendingState = true → s.isPendingState = true ∧ t.pleas = s.pleas)

section Handlers
variable {s t : State}

theorem own_enqueue (h : s.pleas.count = 0) : (s.enqueueResponsePlea none).pleas.Own := by
  refine ⟨Nat.succ_ne_zero _, s.pleas.unanswered, ?_⟩
  rw [State.enqueueResponsePlea, if_pos h]

theorem isPendingState_of_link (h : t.link = s.link) : t.isPendingState = s.isPendingState := by
  have hconnecting : t.flags.connecting = s.flags.connecting := congrArg Link.connecting h
  have hdisconnecting : t.flags.disconnecting = s.flags.disconnecting :=
    congrArg Link.disconnecting h
  rw [State.isPendingState, State.isPendingState, hconnecting, hdisconnecting]

theorem timely_of_eq (hstate : t.isPendingState = s.isPendingState) (hpleas : t.pleas = s.pleas) :
    Timely s t := by
  refine .inr fun hpending => ⟨?_, hpleas⟩
  rw [← hstate, hpending]

theorem timely_of_frame (h : Frame s t) (hpleas : s.isPendingState = true → t.pleas = s.pleas) :
    Timely s t := by
  refine .inr fun hpending => ?_
  rw [isPendingState_of_link h.link] at hpending
  exact ⟨hpending, hpleas hpending⟩

theorem not_isConnected (h : s.isPendingState = true) : s.isConnected = false := by
  rw [State.isConnected, h]
  exact Bool.and_false _

theorem not_isPendingState_finalized {u : Uri} (hu : s.uri? = some u)
    (hconnecting : s.flags.connecting = false) (h : disconnectFinalize s = .ok t) :
    t.isPendingState = false := by
  obtain ⟨⟨retry, hlink, -⟩, -⟩ := (disconnectFinalize_spec hu).ok h
  have hi : t.flags.connecting = false := (congrArg Link.connecting hlink).trans hconnecting
  have hd : t.flags.disconnecting = false := congrArg Link.disconnecting hlink
  rw [State.isPendingState, hi, hd]
  rfl

theorem timely_disconnect
    (hup : s.mayDisconnect = true → s.flags.connecting = false ∧ s.sock.socket ≠ none)
    (hcount : s.mayDisconnect = true → s.uri?.any Uri.secure = true → s.pleas.count = 0)
    (h : disconnect s = .ok t) : Timely s t := by
  cases disconnected_of_eq_ok h with
  | ignored _ ht =>
    subst ht
    exact timely_of_eq rfl rfl
  | stuck hmay hsocket => exact absurd hsocket (hup hmay).2
  | shutdown hmay _ hu hsecure ht =>
    subst ht
    refine .inl (own_enqueue ?_)
    exact hcount hmay (by rw [hu]; exact hsecure)
  | @finalized i u hmay _ hu _ h =>
    have hnot := not_isPendingState_finalized
      (s := ({ s with flags.disconnecting := true } : State).closeSocket i) hu (hup hmay).1 h
    exact .inr fun hpending => absurd (hnot.symm.trans hpending) (by decide)

/-- A connection that can be ended is up. -/
theorem up_of_mayDisconnect {st : Stage} (h : s.link.Holds st) (hmay : s.mayDisconnect = true) :
    s.flags.connecting = false ∧ s.sock.socket ≠ none := by
  rw [State.mayDisconnect, Bool.and_eq_true, Bool.not_eq_true'] at hmay
  obtain rfl := h.of_connected hmay.1 hmay.2
  have hlive := h.live rfl
  exact ⟨h.connecting, fun hnone => by rw [State.link, hnone] at hlive; cases hlive⟩

theorem timely_resolveHandler {host : String} {port : BitVec 16} {addresses : Option (List Nat)}
    (h : resolveHandler s host port addresses = .ok t) : Timely s t := by
  cases addresses with
  | some addresses =>
    cases h
    exact timely_of_eq rfl rfl
  | none =>
    obtain ⟨u, -, h⟩ := bind_eq_ok.mp h
    cases h
    refine .inr fun hpending => ⟨?_, rfl⟩
    have hd : s.flags.disconnecting = true := hpending
    rw [State.isPendingState, hd]
    exact Bool.or_true _

/-- `start_connect` makes its own plea. -/
theorem timely_startConnect (h : startConnect s = .ok t) : Timely s t := by
  rw [startConnect] at h
  split at h
  · cases h
    exact timely_of_eq rfl rfl
  · split at h
    · obtain ⟨u, -, h⟩ := bind_eq_ok.mp h
      dsimp only at h
      obtain ⟨i, -, h⟩ := bind_eq_ok.mp h
      cases h
      obtain ⟨b, hb, -⟩ := noteUse_eq (State.enqueueResponsePlea (State.clearResponsePleas
        (({ s with endpoint := some _, flags.connecting := true } : State).ensureSocket u)) none)
      rw [hb]
      exact .inl (own_enqueue rfl)
    · obtain ⟨u, -, h⟩ := bind_eq_ok.mp h
      cases h
      exact timely_of_eq rfl rfl

theorem flags_connectHandler {ec hec : Bool} (h : connectHandler s ec hec = .ok t) :
    t.flags.connecting = false ∧ t.flags.disconnecting = s.flags.disconnecting := by
  obtain ⟨b, hb, -⟩ := noteUse_eq ({ s with flags.connecting := false } : State)
  rw [connectHandler] at h
  dsimp only at h
  rw [hb] at h
  obtain ⟨i, -, h⟩ := bind_eq_ok.mp h
  split at h
  · obtain ⟨r, hr, h⟩ := bind_eq_ok.mp h
    rw [State.popEndpoint] at hr
    split at hr
    · cases hr
    · cases hr
      cases h
      exact ⟨rfl, rfl⟩
  · obtain ⟨u, -, h⟩ := bind_eq_ok.mp h
    obtain ⟨_, -, h⟩ := bind_eq_ok.mp h
    split at h
    · cases h
      have hlink := (allows_frame.giveUp ({ s with
        flags.connecting := false, flags.canconnect := false, sock.matched := b } : State)).link
      exact ⟨congrArg Link.connecting hlink, congrArg Link.disconnecting hlink⟩
    · have hmode := (frame_loginMode (State.enter ({ s with
        flags.connecting := false, sock.matched := b } : State) u) u).link
      have hframe : Frame _ t := (steady_login (congrArg Link.connected hmode)).ok h
      have hlink := hframe.link.trans hmode
      exact ⟨congrArg Link.connecting hlink, congrArg Link.disconnecting hlink⟩

theorem tick_of_not_isConnected (hnot : s.isConnected = false)
    (h : workloopTimerElapsed s = .ok t) :
    t = s ∨ ∃ i, t = { s.closeSocket i with timer := .idle } := by
  rw [workloopTimerElapsed] at h
  split at h
  · obtain ⟨closed, -, h⟩ := bind_eq_ok.mp h
    cases closed with
    | some i =>
      cases h
      exact .inr ⟨i, rfl⟩
    | none =>
      dsimp only at h
      rw [hnot, if_neg Bool.false_ne_true] at h
      cases h
      exact .inl rfl
  · cases h
    exact .inl rfl

theorem timely_workloopTimerElapsed (h : workloopTimerElapsed s = .ok t) : Timely s t := by
  cases hconnected : s.isConnected with
  | false =>
    rcases tick_of_not_isConnected hconnected h with rfl | ⟨i, rfl⟩
    · exact timely_of_eq rfl rfl
    · exact timely_of_eq rfl rfl
  | true =>
    -- Only endpoints are given up, and no flag is raised.
    have hflags : t.flags.connecting = s.flags.connecting ∧
        t.flags.disconnecting = s.flags.disconnecting := by
      by_cases hcount : s.pleas.count = 0
      · rw [workloopTimerElapsed, if_neg (not_not.mpr hcount)] at h
        cases h
        exact ⟨rfl, rfl⟩
      · rw [workloopTimerElapsed_of_isConnected hcount hconnected] at h
        obtain ⟨n, hlink⟩ := ((givesUp_watchConnection s _).ok h).link
        exact ⟨congrArg Link.connecting hlink, congrArg Link.disconnecting hlink⟩
    have hsame : t.isPendingState = s.isPendingState := by
      rw [State.isPendingState, hflags.1, hflags.2, State.isPendingState]
    refine .inr fun hpending => ?_
    rw [hsame] at hpending
    exact absurd (hconnected.symm.trans (not_isConnected hpending)) (by decide)

theorem pleas_managerSelect (h : managerSelect s = .ok t) : t.pleas = s.pleas := by
  obtain ⟨r, hr, h⟩ := bind_eq_ok.mp h
  have hdiscard : r.pleas = s.pleas := by
    obtain ⟨u, -, hr⟩ := bind_eq_ok.mp hr
    split at hr
    · cases hr
      rfl
    · cases hr
      rfl
  have hrotate : (rotatePools r).pleas = r.pleas := by
    rw [rotatePools]
    split <;> rfl
  obtain ⟨u, -, h⟩ := bind_eq_ok.mp h
  split at h
  · cases h
    exact hrotate.trans hdiscard
  · cases h
    exact hrotate.trans hdiscard

theorem timely_onRecvError (s : State) : Timely s (onRecvError s) := by
  refine timely_of_frame (allows_frame.onRecvError s) fun hpending => ?_
  rw [onRecvError, not_isConnected hpending, if_neg Bool.false_ne_true]

theorem timely_onRecv (h : onRecv s = .ok t) : Timely s t := by
  refine timely_of_frame ((allows_frame.onRecv s).ok h) fun hpending => ?_
  unfold onRecv at h
  rw [not_isConnected hpending] at h
  cases h
  rfl

theorem timely_onSolutionFound {solution : Solution} (h : onSolutionFound s solution = .ok t) :
    Timely s t := by
  refine timely_of_frame ((allows_frame.onSolutionFound s solution).ok h) fun hpending => ?_
  rw [onSolutionFound, not_isConnected hpending, if_neg Bool.false_ne_true] at h
  cases h
  rfl

theorem timely_of_calls {b : Bool}
    (hup : s.mayDisconnect = true → s.flags.connecting = false ∧ s.sock.socket ≠ none)
    (hcount : s.mayDisconnect = true → s.uri?.any Uri.secure = true → s.pleas.count = 0)
    (h : Calls s (.ok t) b) : Timely s t := by
  cases h with
  | left _ _ _ h =>
    cases h
    exact timely_of_eq rfl rfl
  | called running g k _ h =>
    obtain ⟨r, hr, h⟩ := bind_eq_ok.mp h
    cases h
    have htimely := timely_disconnect
      (s := { s with manager.running := running, manager.failoverArmed := false }) hup hcount hr
    exact htimely

end Handlers

/-- While a connection is made or ended, the oldest plea is its own. -/
structure State.Timed (s : State) : Prop where
  stage : ∃ st, s.link.Holds st
  plea : s.isPendingState = true → s.pleas.Own

section Steps
variable {s t : State} {e : Event}

theorem timely_handling {i : Nat} {p : Pending} {o : Outcome} (hget : s.pending[i]? = some p)
    (h : Handling { s with pending := s.pending.eraseIdx i } (.ok t) p o)
    (hs : s.Timed) (he : Undistracted s (.complete i o)) : Timely s t := by
  obtain ⟨st, hst⟩ := hs.stage
  have hmem := List.mem_of_getElem? hget
  have hover (hnot : t.isPendingState = false) : Timely s t :=
    .inr fun hpending => absurd (hnot.symm.trans hpending) (by decide)
  -- The operation itself is neither a plea nor a flag.
  have hbefore (h : Timely { s with pending := s.pending.eraseIdx i } t) : Timely s t := h
  cases h with
  | resolve _ h => exact hbefore (timely_resolveHandler h)
  | startConnect h => exact hbefore (timely_startConnect h)
  | connect ec hec h =>
    obtain rfl := hst.of_mem (mem_tokens hmem rfl)
    obtain ⟨hi, hd⟩ := flags_connectHandler h
    refine hover ?_
    rw [State.isPendingState, hi, hd.trans hst.disconnecting]
    rfl
  | disconnect h =>
    have hcalls : s.callsDisconnect (.complete i .run) = true := by
      rw [State.callsDisconnect, hget]
    have hup := up_of_mayDisconnect hst
    exact hbefore (timely_disconnect hup (he.disconnect hcalls) h)
  | shutdown h =>
    cases h
    exact timely_of_eq rfl rfl
  | finalize h =>
    obtain rfl := hst.of_mem (mem_tokens hmem rfl)
    obtain ⟨u, hu, -⟩ := bind_eq_ok.mp h
    exact hover (not_isPendingState_finalized (State.uri_eq_ok_iff.mp hu) hst.connecting h)
  | readError h =>
    cases h
    exact hbefore (timely_onRecvError _)
  | read h => exact hbefore (timely_onRecv h)
  | response h =>
    have hnot : s.isPendingState = false := he.message (by rw [State.processed, hget]; rfl)
    exact hbefore (timely_of_frame ((steady_processResponse _ _).ok h)
      fun hpending => absurd (hnot.symm.trans hpending) (by decide))

/-- The manager raises no flag. -/
theorem Move.pending_of_manager {m : Mover} (hmove : Move s.link m t.link) (hm : m ≠ .other) :
    t.isPendingState = s.isPendingState := by
  have hflags {l l' : Link} (h : Move l m l') :
      l'.connecting = l.connecting ∧ l'.disconnecting = l.disconnecting := by
    cases h with
    | select | connectBusy | connect => exact ⟨rfl, rfl⟩
    | _ => exact absurd rfl hm
  have hi : t.flags.connecting = s.flags.connecting := (hflags hmove).1
  have hd : t.flags.disconnecting = s.flags.disconnecting := (hflags hmove).2
  rw [State.isPendingState, hi, hd, State.isPendingState]

theorem timely_step (hstep : step s e = some (.ok t)) (hs : s.Timed) (he : Undistracted s e) :
    Timely s t := by
  obtain ⟨st, hst⟩ := hs.stage
  have hup := up_of_mayDisconnect hst
  have hmove : Move s.link e.mover t.link := (moves_step hstep : MovedTo s.link e.mover s t).move
  cases happens_of_step hstep with
  | complete hget h => exact timely_handling hget h hs he
  | segment h | written h | elapse h =>
    cases h
    exact timely_of_eq rfl rfl
  | tick _ h => exact timely_workloopTimerElapsed h
  | failover h => exact timely_of_calls hup (he.disconnect rfl) (calls_checkFailoverTimeout h)
  | check _ h =>
    cases h
    refine timely_of_frame (frame_managerCheck s) fun _ => ?_
    rw [managerCheck]
    split <;> rfl
  | select _ h =>
    refine .inr fun hpending => ⟨?_, pleas_managerSelect h⟩
    rwa [hmove.pending_of_manager (by rintro ⟨⟩)] at hpending
  | connect _ h =>
    obtain rfl := hst.of_atRest (he.connect rfl)
    refine .inr fun hpending => ?_
    rw [hmove.pending_of_manager (by rintro ⟨⟩), State.isPendingState] at hpending
    have hi : s.flags.connecting = false := hst.connecting
    have hd : s.flags.disconnecting = false := hst.disconnecting
    rw [hi, hd] at hpending
    cases hpending
  | stop h => exact timely_of_calls hup (he.disconnect rfl) (calls_managerStop h)
  | found _ h => exact timely_onSolutionFound h

theorem timed_initial (h : Initial s) : s.Timed := by
  obtain ⟨cfg, connections, maxTries, failoverTimeout, _, _, rfl⟩ := h
  exact ⟨⟨.idle, rfl, fun hl => (nomatch hl)⟩, fun hpending => (nomatch hpending)⟩

theorem State.Timed.step (hs : s.Timed) (he : Undistracted s e) (h : step s e = some (.ok t)) :
    t.Timed := by
  have hmove : Move s.link e.mover t.link := (moves_step h : MovedTo s.link e.mover s t).move
  obtain ⟨st, hst⟩ := hs.stage
  refine ⟨hmove.holds hst fun hm => ?_, fun hpending => ?_⟩
  · cases e <;> cases hm
    exact he.connect rfl
  · rcases timely_step h hs he with hown | hbefore
    · exact hown
    · obtain ⟨hold, hpleas⟩ := hbefore hpending
      exact hpleas ▸ hs.plea hold

theorem isPendingState_of_busySocket {i : Nat} (h : s.busySocket = some i) :
    s.isPendingState = true := by
  rw [State.busySocket] at h
  rw [State.isPendingState]
  split at h
  next hi =>
    rw [hi]
    rfl
  next =>
    split at h
    next hd =>
      rw [(Bool.and_eq_true_iff.mp hd).1]
      exact Bool.or_true _
    next => cases h

/-- The watchdog closes the socket of an attempt or a shutdown that is not too old. -/
theorem watchPending_eq {i delay : Nat} (hbusy : s.busySocket = some i)
    (hopen : s.isOpen i = true) :
    watchPending s delay = .ok (if delay ≤ s.cfg.responsetimeout * 1000 then some i else none) := by
  rw [watchPending, isPendingState_of_busySocket hbusy, Bool.true_and]
  by_cases hdelay : delay ≤ s.cfg.responsetimeout * 1000
  · rw [if_pos (decide_eq_true hdelay), if_pos hdelay]
    rw [State.busySocket] at hbusy
    split at hbusy
    next hi =>
      rw [if_pos hi, hbusy]
      rfl
    next hi =>
      rw [if_neg hi]
      split at hbusy
      next hd =>
        have hany := (Bool.and_eq_true_iff.mp hd).2
        cases hu : s.uri? with
        | none =>
          rw [hu] at hany
          cases hany
        | some u =>
          rw [hu] at hany
          have hsec : u.secure = true := hany
          rw [State.uri_eq_ok_iff.mpr hu, ok_bind, if_pos hsec, hbusy, State.deref, ok_bind, hopen]
          rfl
      next => cases hbusy
  · rw [if_neg (by simpa using hdelay), if_neg hdelay]

theorem not_isOpen_closeSocket (s : State) (i : Nat) : (s.closeSocket i).isOpen i = false := by
  rw [State.isOpen, State.closeSocket, decide_eq_false_iff_not]
  simp

/-- A tick during an attempt or a shutdown closes its socket if the oldest plea is not too old. -/
theorem tick_closes {i : Nat} (hcount : s.pleas.count ≠ 0) (hbusy : s.busySocket = some i)
    (hopen : s.isOpen i = true) (h : workloopTimerElapsed s = .ok t) :
    t.isOpen i = false ↔ s.clock - s.pleas.older ≤ s.cfg.responsetimeout * 1000 := by
  rw [workloopTimerElapsed, if_pos hcount, watch] at h
  dsimp only at h
  rw [watchPending_eq hbusy hopen, ok_bind] at h
  by_cases hdelay : s.clock - s.pleas.older ≤ s.cfg.responsetimeout * 1000
  · rw [if_pos hdelay] at h
    cases h
    exact iff_of_true (not_isOpen_closeSocket s i) hdelay
  · rw [if_neg hdelay] at h
    dsimp only at h
    rw [not_isConnected (isPendingState_of_busySocket hbusy), if_neg Bool.false_ne_true] at h
    cases h
    exact iff_of_false (fun hclosed => absurd (hclosed.symm.trans hopen) (by decide)) hdelay

theorem ownPlea_of_own (h : s.pleas.Own) : s.ownPlea = some ⟨none, s.pleas.older⟩ := by
  obtain ⟨-, us, hus⟩ := h
  rw [State.ownPlea, hus, List.reverse_append]
  rfl

end Steps

/-- In a run in which only an attempt or a shutdown itself makes pleas while it is under way, a tick
treats its socket right (it closes the socket exactly if the timeout has passed since its plea) only
at the very moment at which the timeout ends. -/
theorem connect_timeout_iff {s t : State} {i : Nat} (h : system.Reachable Undistracted s)
    (hbusy : s.busySocket = some i) (hopen : s.isOpen i = true)
    (htick : step s .tick = some (.ok t)) :
    ∃ p, s.ownPlea = some p ∧
      ((t.isOpen i = false ↔ s.cfg.responsetimeout * 1000 ≤ s.clock - p.time) ↔
        s.clock - p.time = s.cfg.responsetimeout * 1000) := by
  have htimed : s.Timed :=
    h.invariant (fun _ => timed_initial) fun _ _ _ hs he hstep => hs.step he hstep
  have hown := htimed.plea (isPendingState_of_busySocket hbusy)
  obtain ⟨_, htick⟩ := Option.ite_none_right_eq_some.mp htick
  refine ⟨_, ownPlea_of_own hown, ?_⟩
  rw [tick_closes hown.1 hbusy hopen (Option.some.inj htick)]
  dsimp only
  omega

/-- The events up to an attempt to connect. -/
def attempting : List Event :=
  [.check, .select, .connect, .complete 0 (.resolved (some [1])), .complete 0 .run]

/-- A tick comes two seconds after the start of an attempt, which is the timeout. -/
theorem connect_timeout_iff_exact :
    ∃ (s t : State) (p : Plea), s.ownPlea = some p ∧ step s .tick = some (.ok t) ∧
      (t.isOpen 0 = false ↔ s.cfg.responsetimeout * 1000 ≤ s.clock - p.time) := by
  have hmeets : system.Meets Undistracted (silentClient [poolOn "a" .none])
      (attempting ++ [.elapse 4000]) :=
    ⟨⟨nofun, nofun, nofun⟩, ⟨nofun, nofun, nofun⟩, ⟨fun _ => ⟨rfl, rfl⟩, nofun, nofun⟩,
      ⟨nofun, nofun, nofun⟩, ⟨nofun, nofun, nofun⟩, ⟨nofun, nofun, nofun⟩, trivial⟩
  obtain ⟨s, hsteps, hs⟩ := Machine.steps_of_endsIn
    (p := fun s : State => decide (s.busySocket = some 0) && s.isOpen 0 &&
      decide (s.ownPlea = some ⟨none, 0⟩) && decide (s.clock = s.cfg.responsetimeout * 1000) &&
      system.endsIn (fun _ => true) s [.tick]) hmeets (by decide +kernel)
  simp only [Bool.and_eq_true, decide_eq_true_eq] at hs
  obtain ⟨⟨⟨⟨hbusy, hopen⟩, hplea⟩, hclock⟩, htick⟩ := hs
  obtain ⟨t, htick, -⟩ := Machine.step_of_endsIn htick
  obtain ⟨p, hp, hiff⟩ :=
    connect_timeout_iff ⟨_, initial_silentClient (by simp), hsteps⟩ hbusy hopen htick
  refine ⟨s, t, p, hp, htick, hiff.mpr ?_⟩
  cases hp.symm.trans hplea
  exact hclock

/-- The first tick, one second after the start of an attempt, closes its socket although the timeout
is two seconds. -/
theorem closes_before_timeout :
    ∃ (s t : State) (p : Plea), system.Reachable (fun _ _ => True) s ∧ s.busySocket = some 0 ∧
      s.isOpen 0 = true ∧ s.ownPlea = some p ∧ step s .tick = some (.ok t) ∧ t.isOpen 0 = false ∧
      s.clock - p.time < s.cfg.responsetimeout * 1000 := by
  obtain ⟨s, hsteps, hs⟩ := Machine.steps_of_endsIn
    (p := fun s : State => decide (s.busySocket = some 0) && s.isOpen 0 &&
      decide (s.ownPlea = some ⟨none, 0⟩) && decide (s.clock < s.cfg.responsetimeout * 1000) &&
      system.endsIn (fun t => !t.isOpen 0) s [.tick])
    (Machine.meets_true (M := system) (silentClient [poolOn "a" .none])
      (attempting ++ [.elapse 1000])) (by decide +kernel)
  simp only [Bool.and_eq_true, decide_eq_true_eq] at hs
  obtain ⟨⟨⟨⟨hbusy, hopen⟩, hplea⟩, hclock⟩, htick⟩ := hs
  obtain ⟨t, htick, hclosed⟩ := Machine.step_of_endsIn htick
  refine ⟨s, t, _, ⟨_, initial_silentClient (by simp), hsteps⟩, hbusy, hopen, hplea, htick, ?_,
    hclock⟩
  rwa [Bool.not_eq_true'] at hclosed

end Energiminer.Stratum
