import Energiminer.Stratum.Proofs.Endpoints
import Energiminer.Stratum.Proofs.Login
import Energiminer.Stratum.Proofs.Pending
import Energiminer.Stratum.Proofs.Queue
import Energiminer.Stratum.Proofs.Sockets
import Energiminer.Stratum.Proofs.Timeouts

/-!
# The discipline of the endpoint queue

`start_connect` uses the first endpoint of the queue and leaves it there. It is taken off when the
attempt fails (`StratumClient.cpp:413-440`), or by the watchdog when the connection times out
(`:364-411`). The watchdog only posts the disconnection, and it looks for late work also after a
late response: one connection may cost two endpoints, the second of which need not exist.
-/

namespace Energiminer.Stratum
open Misc Misc.Json Misc.Except Primitives

namespace State

/-- The first endpoint of the queue is the one in use. -/
def InUse (s : State) : Prop := ∃ x rest, s.queue = (some x, x :: rest)

/-- The attempt to connect ends with an error, or its socket is closed by then. -/
def attemptFails (s : State) (ec : Bool) : Bool :=
  match s.sock.socket with
  | some i => ec || !s.isOpen i
  | none => false

/-- The timeouts that a tick notices on a connection. -/
def timeouts (s : State) : Nat :=
  if s.pleas.count ≠ 0 ∧ s.isConnected = true then
    match s.uri? with
    | some u => s.drops u
    | none => 0
  else 0

/-- The connection, or the attempt at one, fails or times out. -/
def fails (s : State) : Event → Bool
  | .complete i (.connected ec _) =>
    match s.pending[i]? with
    | some .connect => s.attemptFails ec
    | _ => false
  | .tick => decide (0 < s.timeouts)
  | _ => false

/-- The event runs `start_connect`. -/
def starts (s : State) : Event → Bool
  | .complete i .run =>
    match s.pending[i]? with
    | some .startConnect => true
    | _ => false
  | _ => false

end State

/-- The step takes no endpoint from an empty queue; it takes off the endpoint in use, and no other,
if the connection fails or times out, and none otherwise. -/
structure Disciplined (s : State) (e : Event) : Prop where
  nonempty : step s e ≠ some (.error .emptyQueue)
  removes : ∀ t, step s e = some (.ok t) → s.fails e = true →
    ∃ x, s.endpoint = some x ∧ s.endpoints = x :: t.endpoints
  keeps : ∀ t, step s e = some (.ok t) → s.fails e = false →
    e = .connect ∨ ∃ es, t.endpoints = s.endpoints ++ es

/-- The manager connects only at rest, and a tick notices no second timeout of a connection that it
has already given up or gives up now. -/
def Sparing (s : State) : Event → Prop
  | .connect => s.link.AtRest
  | .tick => s.timeouts ≤ 1 ∧ (s.timeouts = 1 → .disconnect ∉ s.pending)
  | _ => True

section Handlers
variable {s t : State}

theorem spares_resolveHandler (s : State) (host : String) (port : BitVec 16)
    (addresses : Option (List Nat)) :
    Spares (fun t => ∃ es, t.endpoints = s.endpoints ++ es)
      (resolveHandler s host port addresses) := by
  cases addresses with
  | some addresses => exact ⟨_, rfl⟩
  | none => exact (spares_uri s).bind fun _ _ => ⟨[], (List.append_nil _).symm⟩

theorem spares_startConnect (s : State) :
    Spares (fun t => t.endpoints = s.endpoints ∧ (t = s ∨ t.InUse)) (startConnect s) := by
  rw [startConnect]
  split
  · exact ⟨rfl, .inl rfl⟩
  · split
    next x rest hx =>
      refine (spares_uri s).bind fun u _ => ?_
      dsimp only
      have hqueue : ((({ s with endpoint := some x, flags.connecting := true }.ensureSocket u
          ).clearResponsePleas.enqueueResponsePlea none).noteUse).queue = (some x, s.endpoints) :=
        (queue_noteUse _).trans
          (queue_ensureSocket { s with endpoint := some x, flags.connecting := true } u)
      refine (spares_deref _).bind fun i _ => ?_
      exact ⟨congrArg Prod.snd hqueue, .inr ⟨x, rest, hx ▸ hqueue⟩⟩
    next =>
      exact (spares_uri s).bind fun _ _ => ⟨rfl, .inl rfl⟩

/-- The end of an attempt that does not fail. -/
theorem leaves_connectHandler {ec : Bool} (h : s.attemptFails ec = false) (hec : Bool) :
    Leaves s.queue (connectHandler s ec hec) := by
  have hnote : ({ s with flags.connecting := false } : State).noteUse.queue = s.queue :=
    queue_noteUse _
  obtain ⟨b, hb, -⟩ := noteUse_eq ({ s with flags.connecting := false } : State)
  rw [connectHandler]
  dsimp only
  rw [hb] at hnote ⊢
  refine (spares_deref _).bind fun i hi => ?_
  have hopen : (ec || !s.isOpen i) = false := by
    rw [State.attemptFails, show s.sock.socket = some i from hi] at h
    exact h
  change Leaves s.queue (if (ec || !s.isOpen i) = true then _ else _)
  rw [hopen, if_neg Bool.false_ne_true]
  refine (spares_uri _).bind fun u _ => (spares_deref _).bind fun _ _ => ?_
  split
  · exact (queue_modifyUri _ _).trans hnote
  · exact leaves_login ((queue_loginMode _ _).trans hnote)

theorem spares_popEndpoint {x : Endpoint} {rest : List Endpoint} (hx : s.endpoints = x :: rest) :
    Spares (fun t => t = { s with endpoints := rest }) s.popEndpoint := by
  rw [State.popEndpoint, hx]
  exact rfl

/-- The end of an attempt that fails. -/
theorem spares_connectHandler {ec : Bool} (h : s.attemptFails ec = true) (hec : Bool)
    {x : Endpoint} {rest : List Endpoint} (hx : s.endpoints = x :: rest) :
    Spares (fun t => t.endpoints = rest ∧ t.pending = s.pending ++ [.startConnect] ∧
      t.flags.connected = s.flags.connected) (connectHandler s ec hec) := by
  obtain ⟨b, hb, -⟩ := noteUse_eq ({ s with flags.connecting := false } : State)
  rw [connectHandler]
  dsimp only
  rw [hb]
  refine (spares_deref _).bind fun i hi => ?_
  have hopen : (ec || !s.isOpen i) = true := by
    rw [State.attemptFails, show s.sock.socket = some i from hi] at h
    exact h
  change Spares _ (if (ec || !s.isOpen i) = true then _ else _)
  rw [hopen, if_pos rfl]
  refine Spares.bind (spares_popEndpoint (by exact hx)) fun t ht => ?_
  subst ht
  exact ⟨rfl, rfl, rfl⟩

theorem endpoint_dropEndpoint (h : dropEndpoint s = .ok t) : t.endpoint = s.endpoint := by
  rw [dropEndpoint, State.popEndpoint] at h
  split at h
  · cases h
  · cases h
    rfl

theorem endpoint_watchConnection {delay : Nat} (h : watchConnection s delay = .ok t) :
    t.endpoint = s.endpoint := by
  obtain ⟨u, -, h⟩ := bind_eq_ok.mp h
  obtain ⟨r, hr, h⟩ := bind_eq_ok.mp h
  have hfirst : r.endpoint = s.endpoint := by
    split at hr
    · rw [responseTimeout] at hr
      split at hr
      · cases hr
        rfl
      · exact endpoint_dropEndpoint hr
    · cases hr
      rfl
  split at h
  · exact (endpoint_dropEndpoint h).trans hfirst
  · cases h
    exact hfirst

theorem disconnect_mem_posts {u : Uri} (h : 0 < s.drops u) :
    .disconnect ∈ s.responsePosts u ++ s.workPosts := by
  rw [State.drops] at h
  rw [List.mem_append, State.responsePosts, State.workPosts]
  by_cases hwork : s.overdue s.job.currentTimestamp
  · rw [if_pos hwork]
    exact .inr (List.mem_singleton.mpr rfl)
  · rw [if_neg hwork, Nat.add_zero] at h
    split at h
    next hlate =>
      rw [Bool.and_eq_true, Bool.not_eq_true'] at hlate
      rw [if_pos hlate.1, hlate.2]
      exact .inl (List.mem_singleton.mpr rfl)
    next => cases h

/-- The watchdog takes off one endpoint for each timeout, if there are as many. -/
theorem spares_watchConnection {u : Uri} (hu : s.uri? = some u)
    (hn : s.drops u ≤ s.endpoints.length) :
    Spares (fun t => t.queue = (s.endpoint, s.endpoints.drop (s.drops u)) ∧
      (0 < s.drops u → .disconnect ∈ t.pending))
      (watchConnection s (s.clock - s.pleas.older)) := by
  have hdrops := drops_watchConnection hu
  have hgives := givesUp_watchConnection s (s.clock - s.pleas.older)
  cases hwatch : watchConnection s (s.clock - s.pleas.older) with
  | error f =>
    rw [hwatch] at hdrops
    have hless : s.endpoints.length < s.drops u := hdrops
    exact absurd hn (Nat.not_le.mpr hless)
  | ok t =>
    rw [hwatch] at hdrops hgives
    have hdropped : Dropped s (s.drops u) (s.responsePosts u ++ s.workPosts) t := hdrops
    obtain ⟨n, hlink⟩ := hgives.link
    have hdrop : t.endpoints = s.endpoints.drop n := congrArg Link.endpoints hlink
    have hlength := hdropped.endpoints
    rw [hdrop, List.length_drop] at hlength
    refine ⟨Prod.ext (endpoint_watchConnection hwatch) ?_, fun hpos => ?_⟩
    · refine hdrop.trans (List.drop_eq_drop_iff.mpr ?_)
      omega
    · rw [hdropped.pending]
      exact List.mem_append_right _ (disconnect_mem_posts hpos)

/-- A tick takes off one endpoint for each timeout it notices, if there are as many. -/
theorem spares_workloopTimerElapsed (hn : s.timeouts ≤ s.endpoints.length) :
    Spares (fun t => t.queue = (s.endpoint, s.endpoints.drop s.timeouts) ∧
      (0 < s.timeouts → .disconnect ∈ t.pending)) (workloopTimerElapsed s) := by
  by_cases hwatched : s.pleas.count ≠ 0 ∧ s.isConnected = true
  · rw [workloopTimerElapsed_of_isConnected hwatched.1 hwatched.2]
    rw [State.timeouts, if_pos hwatched] at hn ⊢
    cases hu : s.uri? with
    | none =>
      rw [watchConnection, State.uri, hu]
      exact spares_error (by simp)
    | some u =>
      rw [hu] at hn
      exact spares_watchConnection hu hn
  · have hnone : s.timeouts = 0 := by rw [State.timeouts, if_neg hwatched]
    have hsame : (s.queue = (s.endpoint, s.endpoints.drop s.timeouts)) ∧
        (0 < s.timeouts → .disconnect ∈ s.pending) := by
      rw [hnone]
      exact ⟨rfl, fun h => absurd h (Nat.lt_irrefl 0)⟩
    rw [workloopTimerElapsed]
    split
    next hcount =>
      have hnot : ¬ s.isConnected = true := fun h => hwatched ⟨hcount, h⟩
      rw [watch]
      dsimp only
      refine Spares.bind (P := fun _ => True) ?_ fun closed _ => ?_
      · rw [watchPending]
        split
        · split
          · exact (spares_deref _).bind fun _ _ => trivial
          · refine (spares_uri s).bind fun u _ => ?_
            split
            · exact (spares_deref _).bind fun _ _ => trivial
            · trivial
        · trivial
      · cases closed with
        | some i => exact hsame
        | none =>
          dsimp only
          rw [if_neg hnot]
          exact hsame
    next => exact hsame

end Handlers

/-! ## Attempts and connections -/

section Moves
variable {l l' : Link} {m : Mover} {st : Stage}

/-- A connection that is neither made nor ended. -/
structure Link.Up (l : Link) : Prop where
  connected : l.connected = true
  connecting : l.connecting = false
  disconnecting : l.disconnecting = false

/-- An attempt was under way before, or `start_connect` makes it. -/
theorem Move.attempt (hmove : Move l m l') (h : l.Holds st) (hc : .connect ∈ l'.tokens) :
    .connect ∈ l.tokens ∨ .startConnect ∈ l.tokens ∧ .startConnect ∉ l'.tokens := by
  cases hmove with
  | stay | select | connectBusy | disconnectStuck | dropped => exact .inl hc
  | connect | shutdown => exact .inl ((Multiset.mem_cons.mp hc).resolve_left nofun)
  | resolved _ ht | shutdownDone ht =>
    exact .inl (mem_of_rest ((Multiset.mem_cons.mp hc).resolve_left nofun) ht)
  | resolveFailed ht | startIgnored ht => exact .inl (mem_of_rest hc ht)
  | start _ ht =>
    obtain ⟨-, rfl⟩ := h.of_tokens ht
    refine .inr ⟨ht ▸ Multiset.mem_cons_self _ _, fun hs => ?_⟩
    exact absurd (Multiset.mem_singleton.mp hs) nofun
  | connectFailed ht | handshakeFailed ht | established ht =>
    exact .inl (ht ▸ Multiset.mem_cons_self _ _)
  | disconnected => exact .inl (Link.mem_of_finalized hc nofun)
  | finalize _ ht =>
    have hrest := Link.mem_of_finalized (l := { l with tokens := _ }) hc nofun
    exact .inl (mem_of_rest hrest ht)

/-- A connection was there before, or an attempt was under way. -/
theorem Move.up (hmove : Move l m l') (hup : l'.Up) : l.Up ∨ .connect ∈ l.tokens := by
  obtain ⟨hc, hi, hd⟩ := hup
  cases hmove with
  | stay | select | connectBusy | resolved | startIgnored | shutdownDone | dropped =>
    exact .inl ⟨hc, hi, hd⟩
  | connect | resolveFailed | disconnected | finalize => cases hc
  | start => cases hi
  | connectFailed ht | handshakeFailed ht | established ht =>
    exact .inr (ht ▸ Multiset.mem_cons_self _ _)
  | disconnectStuck | shutdown => cases hd

end Moves

/-- What a step does to the queue. -/
inductive Queues (s : State) (e : Event) (t : State) : Prop
  | left (hfails : s.fails e = false) (hstarts : s.starts e = false) (hqueue : t.queue = s.queue)
  /-- `start_connect` has nothing to do -/
  | ignored (hfails : s.fails e = false) (ht : t = s.taken e)
  /-- `start_connect` takes the first endpoint into use -/
  | started (hfails : s.fails e = false) (hstarts : s.starts e = true)
    (hendpoints : t.endpoints = s.endpoints) (huse : t.InUse)
  /-- endpoints are found -/
  | resolved (hfails : s.fails e = false) {host : String} {port : BitVec 16}
    (hp : .resolve host port ∈ s.pending) {es : List Endpoint}
    (hendpoints : t.endpoints = s.endpoints ++ es)
  /-- the manager connects -/
  | cleared (he : e = .connect)
  /-- an attempt fails -/
  | failed (hfails : s.fails e = true) {x : Endpoint} (hx : s.queue = (some x, x :: t.endpoints))
    {i : Nat} {o : Outcome} (he : e = .complete i o) (hp : s.pending[i]? = some .connect)
    (hpending : t.pending = s.pending.eraseIdx i ++ [.startConnect])
    (hconnected : t.flags.connected = s.flags.connected)
  /-- the connection times out -/
  | timedOut (hfails : s.fails e = true) {x : Endpoint} (hx : s.queue = (some x, x :: t.endpoints))
    (hp : s.isConnected = true) (hpending : .disconnect ∈ t.pending)

/-- The endpoint of an attempt is the first of the queue, and so is the endpoint of a connection
that is not given up. -/
structure State.Serving (s : State) : Prop where
  stage : ∃ st, s.link.Holds st
  attempt : .connect ∈ s.link.tokens → s.InUse
  connection : s.link.Up → s.InUse ∨ .disconnect ∈ s.pending

section Steps
variable {s t : State} {e : Event} {r : Except Fault State}

theorem up_of_isConnected (h : s.isConnected = true) : s.link.Up := by
  rw [State.isConnected, State.isPendingState, Bool.and_eq_true, Bool.not_eq_true',
    Bool.or_eq_false_iff] at h
  exact ⟨h.1, h.2.1, h.2.2⟩

theorem mem_tokens {p : Pending} {tk : Token} (h : p ∈ s.pending) (htk : p.token = some tk) :
    tk ∈ s.link.tokens :=
  Multiset.mem_coe.mpr (List.mem_filterMap.mpr ⟨p, h, htk⟩)

theorem queues_handling {i : Nat} {p : Pending} {o : Outcome} (hget : s.pending[i]? = some p)
    (h : Handling { s with pending := s.pending.eraseIdx i } r p o) (hs : s.Serving) :
    Spares (Queues s (.complete i o)) r := by
  have hmem := List.mem_of_getElem? hget
  have hleft (hp : p ≠ .startConnect)
      (h : Leaves s.queue r) : Spares (Queues s (.complete i .run)) r := by
    refine h.mono fun t ht => .left rfl ?_ ht
    rw [State.starts, hget]
    split
    next heq => exact absurd (Option.some.inj heq) hp
    next => rfl
  cases h with
  | resolve addresses h =>
    subst h
    refine (spares_resolveHandler _ _ _ addresses).mono fun t ht => ?_
    obtain ⟨_, hes⟩ := ht
    exact .resolved rfl hmem hes
  | startConnect h =>
    subst h
    have hstarts : s.starts (.complete i .run) = true := by rw [State.starts, hget]
    refine (spares_startConnect _).mono fun t ht => ?_
    rcases ht with ⟨hendpoints, rfl | huse⟩
    · exact .ignored rfl rfl
    · exact .started rfl hstarts hendpoints huse
  | connect ec hec h =>
    subst h
    have hfails : s.fails (.complete i (.connected ec hec)) = s.attemptFails ec := by
      rw [State.fails, hget]
    cases hattempt : s.attemptFails ec with
    | false =>
      have hleaves := leaves_connectHandler (s := { s with pending := s.pending.eraseIdx i }) hattempt hec
      exact hleaves.mono fun t ht => .left (hfails.trans hattempt) rfl ht
    | true =>
      obtain ⟨x, rest, hx⟩ := hs.attempt (mem_tokens hmem rfl)
      have hspares := spares_connectHandler (s := { s with pending := s.pending.eraseIdx i }) hattempt
        hec (congrArg Prod.snd hx)
      exact hspares.mono fun t ht =>
        .failed (hfails.trans hattempt) (ht.1 ▸ hx) rfl hget ht.2.1 ht.2.2
  | disconnect h => exact hleft (by simp) (h ▸ leaves_disconnect rfl)
  | shutdown h => exact hleft (by simp) (h ▸ rfl)
  | finalize h => exact hleft (by simp) (h ▸ leaves_disconnectFinalize rfl)
  | response h => exact hleft (by simp) (h ▸ leaves_processResponse _ _)
  | readError h => exact h ▸ .left rfl rfl (allows_queue.onRecvError _)
  | read h => exact h ▸ (allows_queue.onRecv _).mono fun t ht => .left rfl rfl ht

theorem queues_tick (hs : s.Serving) (he : Sparing s .tick) :
    Spares (Queues s .tick) (workloopTimerElapsed s) := by
  obtain ⟨hone, hdisconnect⟩ := he
  rcases Nat.le_one_iff_eq_zero_or_eq_one.mp hone with hzero | hone
  · have hspares := spares_workloopTimerElapsed (s := s) (hzero ▸ Nat.zero_le _)
    rw [hzero] at hspares
    refine hspares.mono fun t ht => .left ?_ rfl ht.1
    rw [State.fails, hzero]
    rfl
  · have hconnected : s.isConnected = true := by
      by_contra hnot
      rw [State.timeouts, if_neg fun h => hnot h.2] at hone
      cases hone
    have huse := (hs.connection (up_of_isConnected hconnected)).resolve_right (hdisconnect hone)
    obtain ⟨x, rest, hx⟩ := huse
    have hendpoints : s.endpoints = x :: rest := congrArg Prod.snd hx
    have hspares := spares_workloopTimerElapsed (s := s)
      (by rw [hone, hendpoints]; exact Nat.succ_le_succ (Nat.zero_le _))
    rw [hone, hendpoints] at hspares
    refine hspares.mono fun t ht => ?_
    have hrest : t.endpoints = rest := congrArg Prod.snd ht.1
    refine .timedOut ?_ (hrest ▸ hx) hconnected (ht.2 Nat.one_pos)
    rw [State.fails, hone]
    rfl

theorem spares_managerConnect (s : State) : Spares (fun _ => True) (managerConnect s) := by
  refine Spares.bind (P := fun _ => True) ?_ fun _ _ => trivial
  rw [connect]
  split
  · trivial
  · exact (spares_uri _).bind fun _ _ => trivial

theorem queues_step (hstep : step s e = some r) (hs : s.Serving) (he : Sparing s e) :
    Spares (Queues s e) r := by
  cases happens_of_step hstep with
  | complete hget h => exact queues_handling hget h hs
  | segment h | written h | elapse h => exact h ▸ .left rfl rfl rfl
  | tick _ h => exact h ▸ queues_tick hs he
  | failover h =>
    exact (leaves_of_calls (calls_checkFailoverTimeout h)).mono fun t ht => .left rfl rfl ht
  | check _ h => exact h ▸ .left rfl rfl (queue_managerCheck s)
  | select _ h => exact h ▸ (leaves_managerSelect rfl).mono fun t ht => .left rfl rfl ht
  | connect _ h => exact h ▸ (spares_managerConnect s).mono fun t _ => .cleared rfl
  | stop h => exact (leaves_of_calls (calls_managerStop h)).mono fun t ht => .left rfl rfl ht
  | found _ h => exact h ▸ (allows_queue.onSolutionFound s _).mono fun t ht => .left rfl rfl ht

/-- What is outstanding stays so until it is run. -/
theorem mem_pending_of_step {p : Pending} (h : step s e = some (.ok t)) (hp : p ∈ s.pending)
    (hne : ∀ i o, e = .complete i o → s.pending[i]? ≠ some p) : p ∈ t.pending := by
  obtain ⟨ps, hps⟩ := pending_of_step h
  rw [hps]
  refine List.mem_append_left _ ?_
  cases e with
  | complete i o =>
    obtain ⟨j, hj⟩ := List.mem_iff_getElem?.mp hp
    refine List.mem_eraseIdx_iff_getElem?.mpr ⟨j, fun hij => ?_, hj⟩
    exact hne i o rfl (hij ▸ hj)
  | _ => exact hp

theorem startConnect_mem (h : step s e = some (.ok t)) (hstarts : s.starts e = false)
    (hmem : .startConnect ∈ s.link.tokens) : .startConnect ∈ t.link.tokens := by
  have hp : .startConnect ∈ s.pending := mem_pending_of_token hmem fun q hq => by
    cases q <;> cases hq
    rfl
  refine mem_tokens (mem_pending_of_step h hp fun i o he hget => ?_) rfl
  subst he
  cases happens_of_step h with
  | complete hget' h =>
    cases hget'.symm.trans hget
    cases h with
    | startConnect =>
      rw [State.starts, hget] at hstarts
      cases hstarts

theorem not_up_disconnect (h : disconnect s = .ok t) : ¬ t.link.Up := by
  intro hup
  cases disconnected_of_eq_ok h with
  | ignored hmay ht =>
    subst ht
    have hc : t.flags.connected = true := hup.connected
    have hd : t.flags.disconnecting = false := hup.disconnecting
    rw [State.mayDisconnect, hc, hd] at hmay
    cases hmay
  | stuck _ _ ht | shutdown _ _ _ _ ht =>
    subst ht
    cases hup.disconnecting
  | @finalized i u _ _ hu _ h =>
    have hu' : (({ s with flags.disconnecting := true } : State).closeSocket i).uri? = some u := hu
    obtain ⟨⟨retry, hlink, -⟩, -⟩ := (disconnectFinalize_spec hu').ok h
    cases (congrArg Link.connected hlink).symm.trans hup.connected

/-- A disconnection that is posted stays so while the connection is up. -/
theorem disconnect_mem (h : step s e = some (.ok t)) (hup : t.link.Up)
    (hp : .disconnect ∈ s.pending) : .disconnect ∈ t.pending := by
  refine mem_pending_of_step h hp fun i o he hget => ?_
  subst he
  cases happens_of_step h with
  | complete hget' h =>
    cases hget'.symm.trans hget
    cases h with
    | disconnect hend => exact not_up_disconnect hend hup

theorem mem_of_taken {tk : Token} (h : tk ∈ (s.taken e).link.tokens) : tk ∈ s.link.tokens := by
  obtain ⟨p, hp, htk⟩ := List.mem_filterMap.mp (Multiset.mem_coe.mp h)
  refine mem_tokens ?_ htk
  cases e with
  | complete i o => exact List.mem_of_mem_eraseIdx hp
  | _ => exact hp

theorem Link.Holds.of_mem {l : Link} {st : Stage} {tk : Token} (h : l.Holds st)
    (hmem : tk ∈ l.tokens) : st = .busy tk := by
  obtain ⟨ts, hts⟩ := Multiset.exists_cons_of_mem hmem
  exact (h.of_tokens hts).1

theorem State.InUse.of_queue (h : s.InUse) (hqueue : t.queue = s.queue) : t.InUse := by
  obtain ⟨x, rest, hx⟩ := h
  exact ⟨x, rest, hqueue.trans hx⟩

theorem serving_initial (h : Initial s) : s.Serving := by
  obtain ⟨cfg, connections, maxTries, failoverTimeout, _, _, rfl⟩ := h
  exact ⟨⟨.idle, rfl, fun hl => (nomatch hl)⟩, fun hc => absurd hc (Multiset.notMem_zero _),
    fun hup => (nomatch hup.connected)⟩

/-- A step without a second timeout keeps the endpoint in use at the head of the queue. -/
theorem State.Serving.step (hs : s.Serving) (he : Sparing s e) (h : step s e = some (.ok t)) :
    t.Serving := by
  have hmove : Move s.link e.mover t.link := (moves_step h : MovedTo s.link e.mover s t).move
  have hqueues : Queues s e t := queues_step h hs he
  obtain ⟨st, hst⟩ := hs.stage
  have hstage : ∃ st', t.link.Holds st' := by
    refine hmove.holds hst fun hm => ?_
    cases e <;> cases hm
    exact he
  -- A queue that is as before serves as before.
  have hserves (hqueue : t.queue = s.queue) (hup : t.link.Up) :
      t.InUse ∨ .disconnect ∈ t.pending := by
    rcases hmove.up hup with hold | hattempt
    · rcases hs.connection hold with huse | hp
      · exact .inl (huse.of_queue hqueue)
      · exact .inr (disconnect_mem h hup hp)
    · exact .inl ((hs.attempt hattempt).of_queue hqueue)
  cases hqueues with
  | left _ hstarts hqueue =>
    refine ⟨hstage, fun hc => ?_, hserves hqueue⟩
    rcases hmove.attempt hst hc with hold | ⟨hstart, hnot⟩
    · exact (hs.attempt hold).of_queue hqueue
    · exact absurd (startConnect_mem h hstarts hstart) hnot
  | ignored _ ht =>
    obtain ⟨ps, hps⟩ := s.taken_eq e
    have hqueue : t.queue = s.queue := by
      rw [ht, hps]
      rfl
    refine ⟨hstage, fun hc => ?_, hserves hqueue⟩
    exact (hs.attempt (mem_of_taken (ht ▸ hc))).of_queue hqueue
  | started _ _ _ huse => exact ⟨hstage, fun _ => huse, fun _ => .inl huse⟩
  | resolved _ hp =>
    obtain rfl := hst.of_mem (mem_tokens hp rfl)
    refine ⟨hstage, fun hc => ?_, fun hup => ?_⟩
    · rcases hmove.attempt hst hc with hold | ⟨hstart, -⟩
      · cases hst.of_mem hold
      · cases hst.of_mem hstart
    · rcases hmove.up hup with hold | hattempt
      · cases hst.connected.symm.trans hold.connected
      · cases hst.of_mem hattempt
  | cleared heq =>
    subst heq
    have hrest : s.link.AtRest := he
    refine ⟨hstage, fun hc => ?_, fun hup => ?_⟩
    · rcases hmove.attempt hst hc with hold | ⟨hstart, -⟩
      · exact absurd (hrest.2 ▸ hold) (Multiset.notMem_zero _)
      · exact absurd (hrest.2 ▸ hstart) (Multiset.notMem_zero _)
    · rcases hmove.up hup with hold | hattempt
      · cases hrest.1.symm.trans hold.connected
      · exact absurd (hrest.2 ▸ hattempt) (Multiset.notMem_zero _)
  | @failed _ x _ i o heq hp hpending hconnected =>
    -- The only attempt has ended, and another one is posted.
    obtain rfl := hst.of_mem (mem_tokens (List.mem_of_getElem? hp) rfl)
    refine ⟨hstage, fun hc => ?_, fun hup => ?_⟩
    · obtain ⟨q, hq, htk⟩ := List.mem_filterMap.mp (Multiset.mem_coe.mp hc)
      rw [hpending] at hq
      rcases List.mem_append.mp hq with hold | hnew
      · have htokens : s.link.tokens =
            .connect ::ₘ ({ s with pending := s.pending.eraseIdx i } : State).tokens :=
          (congrArg Link.tokens (linkBefore_eraseIdx hp)).symm
        have hmem : .connect ∈ ({ s with pending := s.pending.eraseIdx i } : State).tokens :=
          mem_tokens (s := { s with pending := s.pending.eraseIdx i }) hold htk
        rw [(hst.of_tokens htokens).2] at hmem
        exact absurd hmem (Multiset.notMem_zero _)
      · cases List.mem_singleton.mp hnew
        cases htk
    · cases (hconnected.trans hst.connected).symm.trans hup.connected
  | timedOut _ _ hp hpending =>
    have hup := up_of_isConnected hp
    obtain rfl := hst.of_connected hup.connected hup.disconnecting
    refine ⟨hstage, fun hc => ?_, fun _ => .inr hpending⟩
    rcases hmove.attempt hst hc with hold | ⟨hstart, -⟩
    · cases hst.of_mem hold
    · cases hst.of_mem hstart

theorem Queues.removes (h : Queues s e t) (hfails : s.fails e = true) :
    ∃ x, s.endpoint = some x ∧ s.endpoints = x :: t.endpoints := by
  have hnot {b : Bool} (hb : b = false) (htrue : b = true) : False := by
    rw [hb] at htrue
    cases htrue
  cases h with
  | left hno | ignored hno | started hno | resolved hno => exact (hnot hno hfails).elim
  | cleared heq =>
    subst heq
    cases hfails
  | failed _ hx | timedOut _ hx => exact ⟨_, congrArg Prod.fst hx, congrArg Prod.snd hx⟩

theorem Queues.keeps (h : Queues s e t) (hfails : s.fails e = false) :
    e = .connect ∨ ∃ es, t.endpoints = s.endpoints ++ es := by
  cases h with
  | left _ _ hqueue =>
    exact .inr ⟨[], (congrArg Prod.snd hqueue).trans (List.append_nil _).symm⟩
  | ignored _ ht =>
    obtain ⟨ps, hps⟩ := s.taken_eq e
    rw [ht, hps]
    exact .inr ⟨[], (List.append_nil _).symm⟩
  | started _ _ hendpoints => exact .inr ⟨[], hendpoints.trans (List.append_nil _).symm⟩
  | resolved _ _ hendpoints => exact .inr ⟨_, hendpoints⟩
  | cleared heq => exact .inl heq
  | failed htrue | timedOut htrue => cases hfails.symm.trans htrue

end Steps

/-- As long as the manager connects only at rest and no tick notices a second timeout of a
connection, every failed or timed-out connection takes the endpoint it uses off the queue, and
nothing else takes one. -/
theorem endpoint_queue_disciplined {s : State} (h : system.Reachable Sparing s) {e : Event}
    (he : Sparing s e) : Disciplined s e := by
  have hserving : s.Serving :=
    h.invariant (fun _ => serving_initial) fun _ _ _ hs he hstep => hs.step he hstep
  refine ⟨fun hempty => ?_, fun t ht hfails => ?_, fun t ht hfails => ?_⟩
  · have hspares : Spares (Queues s e) (.error .emptyQueue) := queues_step hempty hserving he
    exact hspares rfl
  · have hqueues : Queues s e t := queues_step ht hserving he
    exact hqueues.removes hfails
  · have hqueues : Queues s e t := queues_step ht hserving he
    exact hqueues.keeps hfails

/-- A disconnection is posted. -/
def State.disconnects (s : State) : Bool :=
  s.pending.any fun
    | .disconnect => true
    | _ => false

theorem not_mem_of_disconnects {s : State} (h : s.disconnects = false) :
    .disconnect ∉ s.pending := by
  intro hmem
  rw [State.disconnects, List.any_eq_false] at h
  exact h _ hmem rfl

/-- The pool does not answer a request for an authorization: the endpoint is taken off. -/
theorem endpoint_queue_disciplined_timeout :
    ∃ s : State, s.fails .tick = true ∧ Disciplined s .tick := by
  have hmeets : system.Meets Sparing (scriptedClient loginScript [poolOn "a" .none])
      (connecting ++ message 0 ++ [.elapse 4000]) :=
    ⟨trivial, trivial, ⟨rfl, rfl⟩, trivial, trivial, trivial, trivial, trivial, trivial, trivial,
      trivial⟩
  obtain ⟨s, hsteps, hs⟩ := Machine.steps_of_endsIn
    (p := fun s : State => decide (s.timeouts = 1) && !s.disconnects) hmeets (by decide +kernel)
  rw [Bool.and_eq_true, decide_eq_true_eq, Bool.not_eq_true'] at hs
  obtain ⟨hone, hnone⟩ := hs
  refine ⟨s, ?_, ?_⟩
  · rw [State.fails, hone]
    rfl
  · exact endpoint_queue_disciplined ⟨_, initial_scriptedClient (by simp), hsteps⟩
      ⟨Nat.le_of_eq hone, fun _ => not_mem_of_disconnects hnone⟩

/-- The request for an authorization is not answered, and no work has come for long: the tick that
notices both takes off the only endpoint and then one more. -/
theorem pops_empty_queue :
    ∃ s, system.Reachable (fun _ _ => True) s ∧ step s .tick = some (.error .emptyQueue) := by
  obtain ⟨s, hsteps, hs⟩ := Machine.steps_of_endsIn
    (p := fun s => system.failsIn (fun f => decide (f = .emptyQueue)) s .tick)
    (Machine.meets_true (M := system) (scriptedClient loginScript [poolOn "a" .none])
      ([.check, .select, .connect, .elapse 237000, .complete 0 (.resolved (some [1])),
        .complete 0 .run, .complete 0 (.connected false false)] ++ message 0 ++
        [.elapse 3000, .tick, .elapse 1000])) (by decide +kernel)
  obtain ⟨f, hstep, hf⟩ := Machine.step_of_failsIn hs
  rw [of_decide_eq_true hf] at hstep
  exact ⟨s, ⟨_, initial_scriptedClient (by simp), hsteps⟩, hstep⟩

end Energiminer.Stratum
