import Energiminer.Stratum.Proofs.Link

/-!
# The socket of the pool

`init_socket` runs only where `m_socket` is null, so a socket outlives the pool it was made for. As
long as the manager changes the level of security only without a socket, and connects only when the
last connection is gone, a connection goes through the stages below one after the other, and every
use of a socket finds the one for the pool.
-/

namespace Energiminer.Stratum
open Misc Primitives

/-- The stages of a connection: nothing, a connection, or one operation. -/
inductive Stage
  | idle
  | up
  | busy (tk : Token)

/-- The operation is one of the end of a connection. -/
def Token.ending : Token → Bool
  | .shutdown => true
  | .finalize => true
  | _ => false

/-- The operation is an attempt to connect. -/
def Token.connecting : Token → Bool
  | .connect => true
  | _ => false

/-- The flags and the operations of a stage. -/
def Stage.facts : Stage → Bool × Bool × Bool × Multiset Token
  | .idle => (false, false, false, 0)
  | .up => (true, false, false, 0)
  | .busy tk => (tk.ending, tk.connecting, tk.ending, {tk})

/-- The stage needs a socket. -/
def Stage.live : Stage → Bool
  | .idle => false
  | .up => true
  | .busy tk => tk.ending || tk.connecting

def Link.facts (l : Link) : Bool × Bool × Bool × Multiset Token :=
  (l.connected, l.connecting, l.disconnecting, l.tokens)

/-- The connection is in a stage, with the socket of its pool. -/
structure Link.In (l : Link) (st : Stage) : Prop where
  facts : l.facts = st.facts
  pool : st ≠ .idle → ∃ p, l.pool = some p
  live : st.live → l.ptr.socket.isSome
  same : ∀ p, l.pool = some p → l.ptr.socket.isSome → l.ptr.Ok p.secure

section Stages
variable {l : Link} {st : Stage} {tk : Token} {ts : Multiset Token}

theorem Link.facts_eq {connected connecting disconnecting : Bool} (hc : l.connected = connected)
    (hi : l.connecting = connecting) (hd : l.disconnecting = disconnecting) (ht : l.tokens = ts) :
    l.facts = (connected, connecting, disconnecting, ts) := by
  rw [facts, hc, hi, hd, ht]

/-- The flags and the operations are those of a stage, which has a socket if it needs one. -/
structure Link.Holds (l : Link) (st : Stage) : Prop where
  facts : l.facts = st.facts
  live : st.live → l.ptr.socket.isSome

theorem Link.In.holds (h : l.In st) : l.Holds st := ⟨h.facts, h.live⟩

theorem Link.Holds.tokens (h : l.Holds st) : l.tokens = st.facts.2.2.2 := congrArg (·.2.2.2) h.facts

theorem Link.Holds.connected (h : l.Holds st) : l.connected = st.facts.1 := congrArg Prod.fst h.facts

theorem Link.Holds.connecting (h : l.Holds st) : l.connecting = st.facts.2.1 :=
  congrArg (·.2.1) h.facts

theorem Link.Holds.disconnecting (h : l.Holds st) : l.disconnecting = st.facts.2.2.1 :=
  congrArg (·.2.2.1) h.facts

/-- An operation under way is the only one, and tells the stage. -/
theorem Link.Holds.of_tokens (h : l.Holds st) (ht : l.tokens = tk ::ₘ ts) :
    st = .busy tk ∧ ts = 0 := by
  have heq := ht.symm.trans h.tokens
  cases st with
  | idle | up => exact absurd heq Multiset.cons_ne_zero
  | busy tk' =>
    obtain ⟨rfl, rfl⟩ := Multiset.singleton_eq_cons_iff ts |>.mp heq.symm
    exact ⟨rfl, rfl⟩

theorem Link.Holds.of_atRest (h : l.Holds st) (hrest : l.AtRest) : st = .idle := by
  have hconnected := h.connected
  have htokens := h.tokens
  rw [hrest.1] at hconnected
  rw [hrest.2] at htokens
  cases st with
  | idle => rfl
  | up => cases hconnected
  | busy tk => exact absurd htokens.symm (Multiset.singleton_ne_zero tk)

theorem Link.Holds.of_connected (h : l.Holds st) (hc : l.connected = true)
    (hd : l.disconnecting = false) : st = .up := by
  have hconnected := h.connected
  have hdisconnecting := h.disconnecting
  rw [hc] at hconnected
  rw [hd] at hdisconnecting
  cases st with
  | idle => cases hconnected
  | up => rfl
  | busy tk => exact absurd (hconnected.trans hdisconnecting.symm) (by decide)

theorem Stage.live_of_facts (h : st.facts.1 ∨ st.facts.2.1 ∨ st.facts.2.2.1 ∨
    .connect ∈ st.facts.2.2.2 ∨ .finalize ∈ st.facts.2.2.2) : st.live = true := by
  cases st with
  | idle => simp [facts] at h
  | up => rfl
  | busy tk => cases tk <;> simp [facts, live, Token.ending, Token.connecting] at h ⊢

theorem Link.In.ready (h : l.In st) : l.Ready where
  pool hbusy := by
    refine h.pool fun hidle => ?_
    subst hidle
    rw [h.holds.connected, h.holds.tokens] at hbusy
    rcases hbusy with hc | ht
    · cases hc
    · exact ht rfl
  live hlive := by
    refine h.live (Stage.live_of_facts ?_)
    rwa [← h.holds.connected, ← h.holds.connecting, ← h.holds.disconnecting, ← h.holds.tokens]
  same := h.same

/-- The end of a connection leaves nothing, or another attempt. -/
theorem Link.holds_finalized (hconnecting : l.connecting = false) (htokens : l.tokens = 0)
    (secure retry : Bool) : ∃ st, (l.finalized secure retry).Holds st := by
  cases retry with
  | true =>
    exact ⟨.busy .startConnect,
      Link.facts_eq rfl hconnecting rfl (congrArg (Token.startConnect ::ₘ ·) htokens),
      fun h => absurd h (by decide)⟩
  | false =>
    exact ⟨.idle, Link.facts_eq rfl hconnecting rfl htokens, fun h => absurd h (by decide)⟩

end Stages

theorem Move.holds {l l' : Link} {m : Mover} {st : Stage} (hmove : Move l m l') (h : l.Holds st)
    (hconnect : m = .connect → l.AtRest) : ∃ st', l'.Holds st' := by
  cases hmove with
  | stay | connectBusy => exact ⟨st, h⟩
  | select | dropped => exact ⟨st, h.facts, h.live⟩
  | @connect pool i hc =>
    obtain rfl := h.of_atRest (hconnect rfl)
    refine ⟨.busy (.resolve pool.host pool.port), ?_, fun hl => (nomatch hl)⟩
    exact Link.facts_eq rfl hc h.disconnecting (congrArg (Token.resolve _ _ ::ₘ ·) h.tokens)
  | resolved addresses ht =>
    obtain ⟨rfl, rfl⟩ := h.of_tokens ht
    exact ⟨.busy .startConnect, Link.facts_eq h.connected h.connecting h.disconnecting rfl,
      fun hl => (nomatch hl)⟩
  | resolveFailed ht =>
    obtain ⟨rfl, rfl⟩ := h.of_tokens ht
    exact ⟨.idle, Link.facts_eq rfl rfl h.disconnecting rfl, fun hl => (nomatch hl)⟩
  | startIgnored ht =>
    obtain ⟨rfl, rfl⟩ := h.of_tokens ht
    exact ⟨.idle, Link.facts_eq h.connected h.connecting h.disconnecting rfl, fun hl => (nomatch hl)⟩
  | @start _ pool _ _ i ht =>
    obtain ⟨rfl, rfl⟩ := h.of_tokens ht
    exact ⟨.busy .connect, Link.facts_eq h.connected rfl h.disconnecting rfl,
      fun _ => Pointers.isSome_ensure l.ptr pool.secure i⟩
  | connectFailed ht =>
    obtain ⟨rfl, rfl⟩ := h.of_tokens ht
    exact ⟨.busy .startConnect, Link.facts_eq h.connected rfl h.disconnecting rfl,
      fun hl => (nomatch hl)⟩
  | handshakeFailed ht =>
    obtain ⟨rfl, rfl⟩ := h.of_tokens ht
    exact ⟨.idle, Link.facts_eq h.connected rfl h.disconnecting rfl, fun hl => (nomatch hl)⟩
  | established ht hs =>
    obtain ⟨rfl, rfl⟩ := h.of_tokens ht
    exact ⟨.up, Link.facts_eq rfl rfl h.disconnecting rfl, fun _ => hs⟩
  | disconnectStuck hc hd hs =>
    obtain rfl := h.of_connected hc hd
    exact absurd (hs ▸ h.live rfl) (by decide)
  | shutdown hc hd =>
    obtain rfl := h.of_connected hc hd
    exact ⟨.busy .shutdown, Link.facts_eq h.connected h.connecting rfl
      (congrArg (Token.shutdown ::ₘ ·) h.tokens), fun _ => h.live rfl⟩
  | disconnected retry hc hd =>
    obtain rfl := h.of_connected hc hd
    exact l.holds_finalized h.connecting h.tokens _ retry
  | shutdownDone ht =>
    obtain ⟨rfl, rfl⟩ := h.of_tokens ht
    exact ⟨.busy .finalize, Link.facts_eq h.connected h.connecting h.disconnecting rfl,
      fun _ => h.live rfl⟩
  | finalize retry ht =>
    obtain ⟨rfl, rfl⟩ := h.of_tokens ht
    exact Link.holds_finalized (l := { l with tokens := 0 }) h.connecting rfl _ retry

/-- A selection keeps the level of security, or there is neither a socket nor anything under way. -/
def Link.MaySelect (l l' : Link) : Prop :=
  l'.pool.map Pool.secure = l.pool.map Pool.secure ∨ l.AtRest ∧ l.ptr.socket = none

/-- Where something is under way there is a pool, and a socket is one for the pool. -/
structure Link.Fits (l : Link) : Prop where
  pool : l.connected ∨ l.tokens ≠ 0 → ∃ p, l.pool = some p
  same : ∀ p, l.pool = some p → l.ptr.socket.isSome → l.ptr.Ok p.secure

theorem Link.In.fits {l : Link} {st : Stage} (h : l.In st) : l.Fits := ⟨h.ready.pool, h.same⟩

theorem Link.Holds.in_stage {l : Link} {st : Stage} (h : l.Holds st) (hfits : l.Fits) : l.In st where
  facts := h.facts
  pool hbusy := by
    refine hfits.pool ?_
    rw [h.connected, h.tokens]
    cases st with
    | idle => exact absurd rfl hbusy
    | up => exact .inl rfl
    | busy tk => exact .inr (Multiset.singleton_ne_zero tk)
  live := h.live
  same := hfits.same

theorem Pointers.not_isSome_clear (p : Pointers) (secure : Bool) :
    ¬ (p.clear secure).socket.isSome = true := by
  rw [clear]
  cases secure <;> exact Bool.false_ne_true

theorem Move.fits {l l' : Link} {m : Mover} (hmove : Move l m l') (h : l.Fits)
    (hselect : m = .select → l.MaySelect l') : l'.Fits := by
  have hused {tk : Token} {ts : Multiset Token} (ht : l.tokens = tk ::ₘ ts) : ∃ p, l.pool = some p :=
    h.pool (.inr (ht ▸ Multiset.cons_ne_zero))
  cases hmove with
  | stay | connectBusy => exact h
  | select pool =>
    rcases hselect rfl with hkeep | ⟨hrest, hnone⟩
    · -- The pool changes, but not its level of security.
      refine ⟨fun hbusy => ?_, fun q hq hs => ?_⟩
      · obtain ⟨p, hp⟩ := h.pool hbusy
        rw [hp] at hkeep
        obtain ⟨q, hq, _⟩ := Option.map_eq_some_iff.mp hkeep
        exact ⟨q, hq⟩
      · rw [show pool = some q from hq] at hkeep
        obtain ⟨p, hp, heq⟩ := Option.map_eq_some_iff.mp hkeep.symm
        exact heq ▸ h.same p hp hs
    · refine ⟨fun hbusy => ?_, fun q _ hs => absurd (hnone ▸ hs) (by decide)⟩
      rcases hbusy with hc | ht
      · exact absurd (hrest.1.symm.trans hc) (by decide)
      · exact absurd hrest.2 ht
  | @connect pool i hc hp | @start _ pool _ _ i ht _ _ hp =>
    refine ⟨fun _ => ⟨pool, hp⟩, fun q hq _ => ?_⟩
    cases hp.symm.trans hq
    exact Pointers.ok_ensure (h.same pool hp) i
  | resolved _ ht | resolveFailed ht | startIgnored ht | connectFailed ht | handshakeFailed ht
  | established ht | shutdownDone ht => exact ⟨fun _ => hused ht, h.same⟩
  | disconnectStuck hc => exact ⟨fun _ => h.pool (.inl hc), h.same⟩
  | shutdown _ _ hp => exact ⟨fun _ => ⟨_, hp⟩, h.same⟩
  | disconnected _ _ _ hp =>
    exact ⟨fun _ => ⟨_, hp⟩, fun _ _ hs => absurd hs (l.ptr.not_isSome_clear _)⟩
  | finalize _ _ hp => exact ⟨fun _ => ⟨_, hp⟩, fun _ _ hs => absurd hs (l.ptr.not_isSome_clear _)⟩
  | dropped => exact ⟨h.pool, h.same⟩

theorem Move.in_stage {l l' : Link} {m : Mover} {st : Stage} (hmove : Move l m l') (h : l.In st)
    (hselect : m = .select → l.MaySelect l') (hconnect : m = .connect → l.AtRest) :
    ∃ st', l'.In st' := by
  obtain ⟨st', hst'⟩ := hmove.holds h.holds hconnect
  exact ⟨st', hst'.in_stage (hmove.fits h.fits hselect)⟩

/-- The manager selects a pool of another level of security only at rest and without a socket, and
connects only at rest. -/
def Orderly (s : State) : Event → Prop
  | .select => ∀ t, managerSelect s = .ok t → s.link.MaySelect t.link
  | .connect => s.link.AtRest
  | _ => True

/-- The connection is in a stage, and every use of a socket so far was right. -/
structure State.Staged (s : State) : Prop where
  stage : ∃ st, s.link.In st
  matched : s.sock.matched = true

theorem staged_initial {s : State} (h : Initial s) : s.Staged := by
  obtain ⟨cfg, connections, maxTries, failoverTimeout, _, _, rfl⟩ := h
  exact ⟨⟨.idle, rfl, fun hi => absurd rfl hi, fun hl => (nomatch hl), fun _ hp => (nomatch hp)⟩, rfl⟩

theorem State.Staged.ready {s : State} (h : s.Staged) : s.link.Ready := by
  obtain ⟨st, hst⟩ := h.stage
  exact hst.ready

theorem State.Staged.step {s t : State} {e : Event} (h : s.Staged) (he : Orderly s e)
    (hstep : step s e = some (.ok t)) : t.Staged := by
  have hmoved : MovedTo s.link e.mover s t := moves_step hstep
  obtain ⟨st, hst⟩ := h.stage
  refine ⟨hmoved.move.in_stage hst (fun hm => ?_) (fun hm => ?_), hmoved.matched hst.ready h.matched⟩
  · cases e <;> cases hm
    cases happens_of_step hstep with
    | select _ hselect => exact he t hselect
  · cases e <;> cases hm
    exact he

/-- In an orderly run the socket always matches the pool: every use so far found the pointer for the
pool's level set and `m_socket` at the same socket, and no orderly step uses a null pointer. -/
theorem socket_matches_pool {s : State} (h : system.Reachable Orderly s) :
    s.sock.matched = true ∧ ∀ e, Orderly s e → step s e ≠ some (.error .nullSocket) := by
  have hstaged : s.Staged :=
    h.invariant (fun _ => staged_initial) fun _ _ _ hs he hstep => hs.step he hstep
  refine ⟨hstaged.matched, fun e _ hfault => ?_⟩
  have hexcused : ExcusedFrom s.link e.mover s .nullSocket := moves_step hfault
  exact hexcused.socket rfl hstaged.ready

/-- A connection to a pool is made in an orderly run. -/
theorem socket_matches_pool_connected :
    ∃ s, s.flags.connected = true ∧ s.sock.matched = true ∧
      ∀ e, Orderly s e → step s e ≠ some (.error .nullSocket) := by
  have hmeets : system.Meets Orderly (silentClient [poolOn "a" .tls12])
      [.check, .select, .connect, .complete 0 (.resolved (some [1])), .complete 0 .run,
        .complete 0 (.connected false false)] :=
    ⟨trivial, fun _ _ => .inr ⟨⟨rfl, rfl⟩, rfl⟩, ⟨rfl, rfl⟩, trivial, trivial, trivial, trivial⟩
  obtain ⟨s, hsteps, hconnected⟩ :=
    Machine.steps_of_endsIn (p := fun s => s.flags.connected) hmeets rfl
  exact ⟨s, hconnected, socket_matches_pool ⟨_, initial_silentClient (by simp), hsteps⟩⟩

/-- The first pool cannot be resolved, and the second one needs encryption: `m_socket` still points
to the socket for the first, and `start_connect` uses the null pointer `m_securesocket`. -/
theorem null_socket_after_rotation :
    Initial (silentClient [poolOn "a" .none, poolOn "b" .tls12]) ∧
      system.replay (silentClient [poolOn "a" .none, poolOn "b" .tls12])
        [.check, .select, .connect, .complete 0 (.resolved none), .check, .select, .connect,
          .complete 0 (.resolved (some [1])), .complete 0 .run] = some (.error .nullSocket) :=
  ⟨initial_silentClient (by simp), rfl⟩

end Energiminer.Stratum
