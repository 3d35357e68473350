import Energiminer.Stratum.Proofs.Link
import Energiminer.Stratum.Proofs.Tolerant

/-!
# The workloop timer

`connect()` starts the timer, and every tick starts it again, except one that closes a socket: this
one returns before (`StratumClient.cpp:344-363`), and the attempt to connect that it was to
supervise goes on without a timer. `disconnect_finalize` puts the timer to sleep, also if another
attempt is under way by then.
-/

namespace Energiminer.Stratum
open Misc Misc.Json Misc.Except Primitives

/-- A tick would close a socket. -/
def State.closes (s : State) : Bool :=
  decide (s.pleas.count ≠ 0) &&
    match watchPending s (s.clock - s.pleas.older) with
    | .ok closed => closed.isSome
    | .error _ => false

/-- The event ends the connection, or starts to. -/
def State.ends (s : State) : Event → Bool
  | .complete i .run =>
    match s.pending[i]? with
    | some .disconnect => s.mayDisconnect
    | some .finalize => true
    | _ => false
  | .failover => s.mayDisconnect
  | .stop => s.mayDisconnect
  | _ => false

/-- A tick closes no socket, and a connection ends while nothing else is under way. -/
def Supervised (s : State) (e : Event) : Prop :=
  (e = .tick → s.closes = false) ∧
    (s.ends e = true → s.flags.connecting = false ∧ (s.taken e).tokens = 0)

/-- Not connected, and nothing under way. -/
structure Link.Resting (l : Link) : Prop where
  connected : l.connected = false
  connecting : l.connecting = false
  disconnecting : l.disconnecting = false
  tokens : l.tokens = 0

theorem Link.Resting.not_token {l : Link} {tk : Token} {ts : Multiset Token} (h : l.Resting)
    (ht : l.tokens = tk ::ₘ ts) : False :=
  absurd (h.tokens.symm.trans ht) (Multiset.zero_ne_cons)

theorem Link.Resting.not_connected {l : Link} (h : l.Resting) (hc : l.connected = true) : False :=
  absurd (h.connected.symm.trans hc) (by decide)

theorem Move.resting {l l' : Link} {m : Mover} (hmove : Move l m l') (h : l.Resting)
    (hm : m ≠ .connect) : l'.Resting := by
  cases hmove with
  | stay => exact h
  | select pool => exact ⟨h.connected, h.connecting, h.disconnecting, h.tokens⟩
  | connectBusy | connect => exact absurd rfl hm
  | resolved addresses ht | resolveFailed ht | startIgnored ht | start i ht | connectFailed ht
  | handshakeFailed ht | established ht | shutdownDone ht | finalize retry ht =>
    exact (h.not_token ht).elim
  | disconnectStuck hc | shutdown hc | disconnected retry hc | dropped n hc =>
    exact (h.not_connected hc).elim

section Handlers
variable {s t : State} {e : Event}

theorem untouched_timer : Untouched View.timer := fun _ _ _ _ _ _ => rfl

/-- Most events leave the timer alone. -/
theorem timer_of_step (hstep : step s e = some (.ok t)) (he : s.touchesTimer e = false) :
    t.timer = s.timer :=
  untouched_of_step untouched_timer hstep (Deed.allowed (fun _ _ _ _ _ => rfl) _)
    (fun h => absurd (he.symm.trans h) (by decide)) fun _ _ => rfl

/-- A tick that closes no socket goes on. -/
theorem timer_of_tick (h : s.closes = false) (htick : workloopTimerElapsed s = .ok t) :
    t.timer = s.timer := by
  rw [workloopTimerElapsed] at htick
  split at htick
  next hcount =>
    obtain ⟨closed, hclosed, htick⟩ := bind_eq_ok.mp htick
    rw [State.closes, hclosed, decide_eq_true hcount, Bool.true_and] at h
    cases closed with
    | some i => cases h
    | none =>
      dsimp only at htick
      split at htick
      · exact ((tolerant_untouched untouched_timer).closed.watchConnection s _).ok htick
      · cases htick
        rfl
  next =>
    cases htick
    rfl

theorem timer_of_connect (h : managerConnect s = .ok t) :
    t.timer = .armed ∨ s.flags.connecting = true ∧ t.timer = s.timer := by
  obtain ⟨r, hconnect, hr⟩ := bind_eq_ok.mp h
  cases hr
  rw [connect] at hconnect
  split at hconnect
  next hbusy =>
    cases hconnect
    exact .inr ⟨hbusy, rfl⟩
  next =>
    obtain ⟨u, -, hconnect⟩ := bind_eq_ok.mp hconnect
    obtain ⟨k, hk, -, -⟩ := ensureSocket_eq s.restart u
    cases hconnect
    rw [hk]
    exact .inl rfl

/-- The timer is left alone, or the connection `l` has ended without another attempt. -/
def Sleeps (l : Link) (s t : State) : Prop :=
  t.timer = s.timer ∨ ∃ secure, t.link = l.finalized secure false

theorem sleeps_disconnectFinalize (h : disconnectFinalize s = .ok t) : Sleeps s.link s t := by
  cases hu : s.uri? with
  | none =>
    rw [disconnectFinalize, State.uri, hu] at h
    cases h
  | some u =>
    obtain ⟨⟨retry, hlink, htimer⟩, -⟩ := (disconnectFinalize_spec hu).ok h
    cases retry with
    | true => exact .inl (htimer rfl)
    | false => exact .inr ⟨_, hlink⟩

theorem sleeps_disconnect (h : disconnect s = .ok t) :
    t.timer = s.timer ∨ s.mayDisconnect = true ∧ Sleeps s.link s t := by
  cases disconnected_of_eq_ok h with
  | ignored _ ht | stuck _ _ ht | shutdown _ _ _ _ ht =>
    subst ht
    exact .inl rfl
  | finalized hmay _ _ _ h =>
    have hsleeps := sleeps_disconnectFinalize h
    exact .inr ⟨hmay, hsleeps⟩

theorem sleeps_of_calls {b : Bool} (h : Calls s (.ok t) b) :
    t.timer = s.timer ∨ s.mayDisconnect = true ∧ Sleeps s.link s t := by
  cases h with
  | left _ _ _ h =>
    cases h
    exact .inl rfl
  | called running g k _ h =>
    obtain ⟨r, hr, h⟩ := bind_eq_ok.mp h
    cases h
    have hsleeps := sleeps_disconnect hr
    exact hsleeps

/-- Where the timer is put to sleep, the connection has ended without another attempt. -/
theorem sleeps_step (hstep : step s e = some (.ok t)) (htick : e ≠ .tick) (hconnect : e ≠ .connect) :
    t.timer = s.timer ∨ s.ends e = true ∧ Sleeps (s.taken e).link s t := by
  cases htouch : s.touchesTimer e with
  | false => exact .inl (timer_of_step hstep htouch)
  | true =>
    cases happens_of_step hstep with
    | complete hget h =>
      cases h with
      | disconnect h =>
        rw [State.ends, hget]
        exact sleeps_disconnect h
      | finalize h =>
        rw [State.ends, hget]
        exact .inr ⟨rfl, sleeps_disconnectFinalize h⟩
      | startConnect | shutdown | response => simp [State.touchesTimer, hget] at htouch
      | resolve | connect | readError | read => cases htouch
    | tick => exact absurd rfl htick
    | failover h => exact sleeps_of_calls (calls_checkFailoverTimeout h)
    | connect => exact absurd rfl hconnect
    | stop h => exact sleeps_of_calls (calls_managerStop h)
    | segment | written | check | select | found | elapse => cases htouch

end Handlers

theorem mover_ne_connect {e : Event} (h : e ≠ .connect) : e.mover ≠ .connect := by
  intro hm
  cases e <;> cases hm
  exact h rfl

/-- Where the timer sleeps, the client is at rest. -/
def State.Watched (s : State) : Prop := s.timer = .idle → s.link.Resting

theorem watched_initial {s : State} (h : Initial s) : s.Watched := by
  obtain ⟨cfg, connections, maxTries, failoverTimeout, _, _, rfl⟩ := h
  exact fun _ => ⟨rfl, rfl, rfl, rfl⟩

theorem watched_step {s t : State} {e : Event} (h : s.Watched) (he : Supervised s e)
    (hstep : step s e = some (.ok t)) : t.Watched := by
  intro hidle
  by_cases htick : e = .tick
  · -- A tick finds the timer armed and leaves it so.
    subst htick
    cases happens_of_step hstep with
    | tick harmed htick =>
      rw [timer_of_tick (he.1 rfl) htick, harmed] at hidle
      cases hidle
  · by_cases hconnect : e = .connect
    · subst hconnect
      cases happens_of_step hstep with
      | connect _ hconnect =>
        rcases timer_of_connect hconnect with harmed | ⟨hbusy, htimer⟩
        · rw [harmed] at hidle
          cases hidle
        · have hrest := h (htimer.symm.trans hidle)
          exact absurd (hrest.connecting.symm.trans hbusy) (by decide)
    · have hmoved : MovedTo s.link e.mover s t := moves_step hstep
      have hsame (htimer : t.timer = s.timer) : t.link.Resting :=
        hmoved.move.resting (h (htimer.symm.trans hidle)) (mover_ne_connect hconnect)
      rcases sleeps_step hstep htick hconnect with htimer | ⟨hends, htimer | ⟨secure, hlink⟩⟩
      · exact hsame htimer
      · exact hsame htimer
      · obtain ⟨hconnecting, htokens⟩ := he.2 hends
        obtain ⟨ps, hps⟩ := s.taken_eq e
        rw [hps] at hlink htokens
        rw [hlink]
        exact ⟨rfl, hconnecting, rfl, htokens⟩

/-- As long as no tick closes a socket and connections end while nothing else is under way, the
timer is armed whenever the client is connected, connecting or disconnecting. -/
theorem watchdog_armed {s : State} (h : system.Reachable Supervised s) :
    s.flags.connecting ∨ s.flags.connected ∨ s.flags.disconnecting → s.timer = .armed := by
  have hwatched : s.Watched :=
    h.invariant (fun _ => watched_initial) fun _ _ _ hs he hstep => watched_step hs he hstep
  intro hflags
  cases htimer : s.timer with
  | armed => rfl
  | idle =>
    have hrest := hwatched htimer
    rcases hflags with hc | hc | hc
    · exact absurd (hrest.connecting.symm.trans hc) (by decide)
    · exact absurd (hrest.connected.symm.trans hc) (by decide)
    · exact absurd (hrest.disconnecting.symm.trans hc) (by decide)

/-- A connection is made before the first tick. -/
theorem watchdog_armed_connected :
    ∃ s : State, s.flags.connected = true ∧ s.timer = .armed := by
  have hmeets : system.Meets Supervised (silentClient [poolOn "a" .none]) connecting :=
    ⟨⟨nofun, nofun⟩, ⟨nofun, nofun⟩, ⟨nofun, nofun⟩, ⟨nofun, nofun⟩, ⟨nofun, nofun⟩,
      ⟨nofun, nofun⟩, trivial⟩
  obtain ⟨s, hsteps, hs⟩ :=
    Machine.steps_of_endsIn (p := fun s : State => s.flags.connected) hmeets (by decide +kernel)
  exact ⟨s, hs, watchdog_armed ⟨_, initial_silentClient (by simp), hsteps⟩ (.inr (.inl hs))⟩

/-- A tick while the connection is made closes the socket, and the timer is not started again. -/
theorem unwatched_after_tick :
    Initial (silentClient [poolOn "a" .none]) ∧
      system.endsIn (fun s => s.flags.connecting && decide (s.timer = .idle))
        (silentClient [poolOn "a" .none])
        [.check, .select, .connect, .complete 0 (.resolved (some [1])), .complete 0 .run,
          .elapse 1000, .tick] = true :=
  ⟨initial_silentClient (by simp), by decide +kernel⟩

end Energiminer.Stratum
