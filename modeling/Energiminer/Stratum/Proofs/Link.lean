import Energiminer.Stratum.Proofs.Frame
import Energiminer.Stratum.Proofs.Steps

/-!
# What a step can do to a connection

Every step of the system is a `Move` of the connection. A step from a state whose connection is
ready uses no null socket and only the socket for the pool, and a step that is not a selection keeps
the manager's index in range.
-/

namespace Energiminer.Stratum
open Misc Misc.Json Misc.Except Primitives

/-- The connection `l` has moved, by a step from `s` to `t`. -/
structure MovedTo (l : Link) (m : Mover) (s t : State) : Prop where
  move : Move l m t.link
  matched : l.Ready → s.sock.matched → t.sock.matched
  index : m ≠ .select → s.IndexOk → t.IndexOk

/-- The fault of a step from `s` is none that a ready connection and an index in range exclude. -/
structure ExcusedFrom (l : Link) (m : Mover) (s : State) (f : Fault) : Prop where
  socket : f = .nullSocket → ¬ l.Ready
  index : m ≠ .select → f = .badIndex → ¬ s.IndexOk

/-- A handler moves the connection. -/
def Moves (l : Link) (m : Mover) (s : State) (r : Except Fault State) : Prop :=
  Ensures (ExcusedFrom l m s) (MovedTo l m s) r

section Rules
variable {l : Link} {m : Mover} {s t : State}

theorem Excused.excusedFrom {f : Fault} (h : Excused s f) : ExcusedFrom s.link m s f :=
  ⟨h.socket, fun _ => h.index⟩

/-- What leaves the connection alone lets it stay. -/
theorem Steady.moves {r : Except Fault State} (h : Steady s r) : Moves s.link .other s r := by
  cases r with
  | error f => exact Excused.excusedFrom h
  | ok t =>
    have hframe : Frame s t := h
    exact ⟨hframe.link ▸ Move.stay t.link, hframe.matched, fun _ => hframe.indexOk.mpr⟩

theorem excusedFrom_of_ne {f : Fault} (hsocket : f ≠ .nullSocket) (hindex : f ≠ .badIndex) :
    ExcusedFrom l m s f := ⟨fun h => absurd h hsocket, fun _ h => absurd h hindex⟩

/-- Two states before a move differ in nothing that counts. -/
theorem Moves.congr {r : Except Fault State} (h : Moves l m t r)
    (hmatched : t.sock.matched = s.sock.matched)
    (hindex : t.manager.activeConnectionIdx = s.manager.activeConnectionIdx)
    (hlength : t.connections.length = s.connections.length) : Moves l m s r := by
  have hok : t.IndexOk ↔ s.IndexOk := by rw [State.IndexOk, hindex, hlength, State.IndexOk]
  cases r with
  | error f => exact ⟨h.socket, fun hm hf => hok.not.mp (h.index hm hf)⟩
  | ok u =>
    exact ⟨h.move, fun hr hm => h.matched hr (hmatched ▸ hm),
      fun hm hs => h.index hm (hok.mpr hs)⟩

theorem moves_uri_bind {f : Uri → Except Fault State}
    (hf : ∀ u, t.uri? = some u → Moves l m s (f u)) : Moves l m s (t.uri >>= f) := by
  rw [State.uri]
  cases h : t.uri? with
  | none => exact excusedFrom_of_ne (by decide) (by decide)
  | some u => exact hf u h

/-- A pointer that is not null where the connection is ready. -/
theorem moves_deref {p : Option Nat} {f : Nat → Except Fault State} (hp : l.Ready → p.isSome)
    (hf : ∀ i, p = some i → Moves l m s (f i)) : Moves l m s (State.deref p >>= f) := by
  cases p with
  | none =>
    refine ⟨fun _ hready => ?_, fun _ h => (nomatch h)⟩
    cases hp hready
  | some i => exact hf i rfl

theorem Move.of_eq {l' : Link} (h : Move l m l') (ht : t.link = l') : Move l m t.link := ht ▸ h

/-- A move that leaves the sockets' history and the list of pools alone. -/
theorem movedTo_of_move (hmove : Move l m t.link) (hmatched : t.sock.matched = s.sock.matched)
    (hindex : t.manager.activeConnectionIdx = s.manager.activeConnectionIdx)
    (hlength : t.connections.length = s.connections.length) : MovedTo l m s t where
  move := hmove
  matched _ h := hmatched ▸ h
  index _ h := by rwa [State.IndexOk, hindex, hlength]

theorem link_pool {u : Uri} (h : s.uri? = some u) : s.link.pool = some u.pool := by
  rw [State.link, h]
  rfl

theorem link_eq (hconnected : t.flags.connected = l.connected)
    (hconnecting : t.flags.connecting = l.connecting)
    (hdisconnecting : t.flags.disconnecting = l.disconnecting) (htokens : t.tokens = l.tokens)
    (hptr : ⟨t.sock.socket, t.sock.secure, t.sock.nonsecure⟩ = l.ptr)
    (hpool : t.uri?.map Uri.pool = l.pool) (hendpoints : t.endpoints = l.endpoints) :
    t.link = l := by
  obtain ⟨_, _, _, _, _, _, _⟩ := l
  simp only [State.link, Link.mk.injEq]
  exact ⟨hconnected, hconnecting, hdisconnecting, htokens, hptr, hpool, hendpoints⟩

theorem tokens_post_some {p : Pending} {tk : Token} (h : p.token = some tk) :
    (s.post p).tokens = tk ::ₘ s.tokens := by
  simp [State.post, State.tokens, h, Multiset.cons_coe]

theorem ensureSocket_eq (s : State) (u : Uri) :
    ∃ k : Sockets, s.ensureSocket u = { s with sock := k } ∧ k.matched = s.sock.matched ∧
      (⟨k.socket, k.secure, k.nonsecure⟩ : Pointers) = s.link.ptr.ensure u.secure s.sock.next := by
  rw [State.ensureSocket, Pointers.ensure]
  cases hs : s.sock.socket with
  | some i => exact ⟨s.sock, rfl, rfl, by simp [State.link, hs]⟩
  | none =>
    rw [State.initSocket, Pointers.init]
    cases u.secure
    · exact ⟨_, rfl, rfl, by simp [State.link, hs]⟩
    · exact ⟨_, rfl, rfl, by simp [State.link, hs]⟩

theorem noteUse_eq (s : State) :
    ∃ b : Bool, s.noteUse = { s with sock.matched := b } ∧
      ∀ u, s.uri? = some u → s.link.ptr.Ok u.secure → s.sock.matched → b = true := by
  rw [State.noteUse]
  split
  next u hu =>
    refine ⟨_, rfl, fun v hv hok hm => ?_⟩
    cases hu.symm.trans hv
    exact matched_markUse hok hm
  next hu =>
    refine ⟨false, rfl, fun v hv => ?_⟩
    cases hu.symm.trans hv

theorem Pointers.isSome_ensure (p : Pointers) (secure : Bool) (i : Nat) :
    (p.ensure secure i).socket.isSome := by
  rw [ensure]
  split
  · rw [init]
    split <;> rfl
  next h => exact Option.isSome_iff_ne_none.mpr (by simpa using h)

/-- A pointer of the right kind stays, and a new one is of the right kind. -/
theorem Pointers.ok_ensure {p : Pointers} {secure : Bool} (h : p.socket.isSome → p.Ok secure)
    (i : Nat) : (p.ensure secure i).Ok secure := by
  rw [ensure]
  split
  · rw [init]
    cases secure <;> exact ⟨rfl, rfl⟩
  next hs => exact h (Option.isSome_iff_ne_none.mpr (by simpa using hs))

theorem Pointers.Ok.isSome_socket {p : Pointers} {secure : Bool} (h : p.Ok secure) :
    p.socket.isSome := h.same ▸ h.set

/-- After a move, what leaves the connection alone lets it stay there. -/
theorem MovedTo.then_steady {r : Except Fault State} (h : MovedTo l m s t)
    (hready : l.Ready → t.link.Ready) (hr : Steady t r) : Moves l m s r := by
  cases r with
  | error f =>
    have hf : Excused t f := hr
    exact ⟨fun heq hl => hf.socket heq (hready hl), fun hm heq hs => hf.index heq (h.index hm hs)⟩
  | ok u =>
    have hu : Frame t u := hr
    exact ⟨h.move.of_eq hu.link, fun hl hm => hu.matched (hready hl) (h.matched hl hm),
      fun hm hs => hu.indexOk.mpr (h.index hm hs)⟩

theorem sock_modifyUri (s : State) (f : Uri → Uri) : (s.modifyUri f).sock = s.sock := by
  rw [State.modifyUri]
  split <;> rfl

theorem modifyUri_eq (s : State) (f : Uri → Uri) (hf : ∀ u, (f u).pool = u.pool) :
    ∃ cs : List Uri, s.modifyUri f = { s with connections := cs } ∧
      cs.length = s.connections.length ∧
      (s.conn.bind fun i => cs[i]?).map Uri.pool = s.uri?.map Uri.pool := by
  have hpool : (s.modifyUri f).uri?.map Uri.pool = s.uri?.map Uri.pool := by
    rw [State.uri?_modifyUri, Option.map_map]
    exact congrArg (Option.map · s.uri?) (funext hf)
  have heq : ∃ cs : List Uri, s.modifyUri f = { s with connections := cs } ∧
      cs.length = s.connections.length := by
    rw [State.modifyUri]
    split
    · exact ⟨_, rfl, List.length_modify _ _ _⟩
    · exact ⟨s.connections, rfl, rfl⟩
  obtain ⟨cs, hcs, hlength⟩ := heq
  rw [hcs] at hpool
  exact ⟨cs, hcs, hlength, hpool⟩

end Rules

section Attempts
variable {s : State}

theorem moves_managerConnect (s : State) : Moves s.link .connect s (managerConnect s) := by
  rw [managerConnect, connect]
  split
  next h => exact movedTo_of_move (Move.connectBusy s.link h) rfl rfl rfl
  next h =>
    rw [bind_assoc]
    refine moves_uri_bind fun u hu => ?_
    obtain ⟨k, hk, hmatched, hptr⟩ := ensureSocket_eq s.restart u
    rw [hk]
    have hmove := Move.connect s.link s.sock.next (Bool.eq_false_iff.mpr h) (link_pool hu)
    exact movedTo_of_move (hmove.of_eq
      (link_eq rfl rfl rfl (tokens_post_some rfl) hptr rfl rfl)) hmatched rfl rfl

/-- The connection of a client before an operation was taken off `pending`. -/
def State.linkWith (s : State) (tk : Token) : Link :=
  { s.link with tokens := tk ::ₘ s.link.tokens }

theorem State.tokens_linkWith (s : State) (tk : Token) :
    (s.linkWith tk).tokens = tk ::ₘ s.link.tokens := rfl

theorem State.mem_linkWith (s : State) (tk : Token) : tk ∈ (s.linkWith tk).tokens := by
  rw [tokens_linkWith]
  exact Multiset.mem_cons_self tk _

theorem moves_resolveHandler (s : State) (host : String) (port : BitVec 16)
    (addresses : Option (List Nat)) :
    Moves (s.linkWith (.resolve host port)) .other s (resolveHandler s host port addresses) := by
  cases addresses with
  | some addresses =>
    have hmove := Move.resolved (s.linkWith (.resolve host port)) addresses
      (s.tokens_linkWith _)
    exact movedTo_of_move (hmove.of_eq
      (link_eq rfl rfl rfl (tokens_post_some rfl) rfl rfl rfl)) rfl rfl rfl
  | none =>
    refine moves_uri_bind fun u _ => ?_
    exact movedTo_of_move (Move.resolveFailed (s.linkWith (.resolve host port)) rfl) rfl rfl rfl

theorem moves_startConnectTo {e : Endpoint} {es : List Endpoint} (he : s.endpoints = e :: es)
    (hidle : s.flags.connecting = false) :
    Moves (s.linkWith .startConnect) .other s (startConnectTo s e) := by
  refine moves_uri_bind fun u hu => ?_
  obtain ⟨k, hk, hmatched, hptr⟩ := ensureSocket_eq
    { s with endpoint := some e, flags.connecting := true } u
  rw [hk]
  -- After `init_socket` the pointers are right if they were right or null before.
  have hok : (s.linkWith .startConnect).Ready →
      (⟨k.socket, k.secure, k.nonsecure⟩ : Pointers).Ok u.secure := fun hready => by
    rw [hptr]
    exact Pointers.ok_ensure (fun hs => hready.same u.pool (link_pool hu) hs) _
  obtain ⟨b, hb, hmark⟩ := noteUse_eq
    (({ s with endpoint := some e, flags.connecting := true, sock := k } :
      State).clearResponsePleas.enqueueResponsePlea none)
  simp only [hb]
  refine moves_deref (fun hready => ?_) fun i _ => ?_
  · cases hsec : u.secure
    · exact (hok hready).isSome_socket
    · have hset := (hok hready).set
      rw [hsec] at hset
      exact hset
  · have hmove := Move.start (s.linkWith .startConnect) s.sock.next (s.tokens_linkWith _) hidle
      he (link_pool hu)
    refine ⟨hmove.of_eq (link_eq rfl rfl rfl (tokens_post_some rfl) hptr rfl rfl), ?_,
      fun _ h => h⟩
    intro hready hm
    exact hmark u hu (hok hready) (hmatched.trans hm)

theorem moves_startConnect (s : State) :
    Moves (s.linkWith .startConnect) .other s (startConnect s) := by
  rw [startConnect]
  split
  next h =>
    exact movedTo_of_move (Move.startIgnored (s.linkWith .startConnect) rfl (.inl h)) rfl rfl rfl
  next h =>
    split
    next e es he => exact moves_startConnectTo he (Bool.eq_false_iff.mpr h)
    next he =>
      refine moves_uri_bind fun u _ => ?_
      exact movedTo_of_move (Move.startIgnored (s.linkWith .startConnect) rfl (.inr he)) rfl rfl rfl

end Attempts

section Established
variable {s : State} {u : Uri}

theorem frame_loginMode (s : State) (u : Uri) : Frame s (loginMode s u) := by
  rw [loginMode]
  split
  · exact frame_modifyUri fun _ => rfl
  · split
    · exact frame_modifyUri fun _ => rfl
    · exact Frame.refl s

theorem steady_login (h : s.flags.connected = true) : Steady s (login s) :=
  Steady.bind (allows_frame.recvSocketData h) fun _ => steady_uri_bind fun _ _ => allows_frame.sendSocketData _ _

theorem ready_established {l : Link} {ts : Multiset Token} (h : l.Ready)
    (ht : l.tokens = .connect ::ₘ ts) :
    ({ l with connecting := false, connected := true, tokens := ts } : Link).Ready where
  pool _ := h.pool (.inr (ht ▸ Multiset.cons_ne_zero))
  live _ := h.live (.inr (.inr (.inr (.inl (ht ▸ Multiset.mem_cons_self _ _)))))
  same := h.same

/-- `connect_handler` where the connection is there; `t` is the state in which it uses the socket. -/
theorem moves_enter {t : State} {b : Bool} (u : Uri) (hs : s.sock.socket.isSome)
    (ht : t = { s with flags.connecting := false, sock.matched := b })
    (hb : (s.linkWith .connect).Ready → s.sock.matched → b = true) :
    Moves (s.linkWith .connect) .other s (login (loginMode (t.enter u) u)) := by
  subst ht
  have hmove := Move.established (s.linkWith .connect) (s.tokens_linkWith _) hs
  have henter : MovedTo (s.linkWith .connect) .other s
      (({ s with flags.connecting := false, sock.matched := b } : State).enter u) :=
    ⟨hmove, hb, fun _ h => h⟩
  have hmode := frame_loginMode
    (({ s with flags.connecting := false, sock.matched := b } : State).enter u) u
  refine henter.then_steady (fun hready => ready_established hready (s.tokens_linkWith _)) ?_
  exact (steady_login (congrArg Link.connected hmode.link)).of_frame hmode

theorem moves_connectHandler (s : State) (ec hec : Bool) :
    Moves (s.linkWith .connect) .other s (connectHandler s ec hec) := by
  rw [connectHandler]
  obtain ⟨b, hb, hmark⟩ := noteUse_eq { s with flags.connecting := false }
  have hsome : (s.linkWith .connect).Ready → s.sock.socket.isSome := fun hready =>
    hready.live (.inr (.inr (.inr (.inl (s.mem_linkWith _)))))
  have hmatched : (s.linkWith .connect).Ready → s.sock.matched → b = true := fun hready hm => by
    obtain ⟨p, hp⟩ := hready.pool (.inr (s.tokens_linkWith _ ▸ Multiset.cons_ne_zero))
    obtain ⟨u, hu, rfl⟩ := Option.map_eq_some_iff.mp hp
    exact hmark u hu (hready.same u.pool hp (hsome hready)) hm
  simp only [hb]
  refine moves_deref hsome fun i hi => ?_
  split
  · -- The endpoint is discarded.
    rw [State.popEndpoint]
    split
    next => exact excusedFrom_of_ne (by decide) (by decide)
    next e es he =>
      have hmove := Move.connectFailed (s.linkWith .connect) (s.tokens_linkWith _) he
      exact ⟨hmove.of_eq (link_eq rfl rfl rfl (tokens_post_some rfl) rfl rfl rfl), hmatched,
        fun _ h => h⟩
  · refine moves_uri_bind fun u hu => moves_deref (fun hready => ?_) fun j _ => ?_
    · exact (hready.same u.pool (link_pool hu) (hsome hready)).set
    · split
      · -- The handshake has failed.
        have hmove := Move.handshakeFailed (s.linkWith .connect) (s.tokens_linkWith _)
        have hpool := allows_frame.giveUp ({ s with
          flags.connecting := false, flags.canconnect := false, sock.matched := b } : State)
        refine ⟨hmove.of_eq hpool.link, fun hready hm => ?_, fun _ => hpool.indexOk.mpr⟩
        rw [State.post, State.markUnrecoverable, sock_modifyUri]
        exact hmatched hready hm
      · exact moves_enter u (hi ▸ rfl) rfl hmatched

end Established

section Disconnect
variable {s : State} {u : Uri}

theorem releaseSockets_eq (s : State) (u : Uri) :
    Ensures (fun f => f = .nullSocket ∧ ¬ s.link.ptr.Ok u.secure)
      (fun t => ∃ k : Sockets, t = { s with sock := k } ∧ k.matched = s.sock.matched ∧
        (⟨k.socket, k.secure, k.nonsecure⟩ : Pointers) = s.link.ptr.clear u.secure)
      (releaseSockets s u) := by
  rw [releaseSockets, Pointers.clear]
  cases hsec : u.secure with
  | true =>
    cases hs : s.sock.secure with
    | none =>
      refine ⟨rfl, fun hok => ?_⟩
      have hset : s.sock.secure.isSome := hok.set
      rw [hs] at hset
      cases hset
    | some i => exact ⟨_, rfl, rfl, rfl⟩
  | false =>
    cases hs : s.sock.nonsecure <;> exact ⟨_, rfl, rfl, rfl⟩

/-- `disconnect_finalize` with the socket of the right kind. -/
theorem disconnectFinalize_spec (hu : s.uri? = some u) :
    Ensures (fun f => f = .nullSocket ∧ ¬ s.link.ptr.Ok u.secure)
      (fun t => (∃ retry, t.link = s.link.finalized u.secure retry ∧
          (retry = true → t.timer = s.timer)) ∧
        (s.link.ptr.Ok u.secure → s.sock.matched → t.sock.matched) ∧
        t.manager.activeConnectionIdx = s.manager.activeConnectionIdx ∧
        t.connections.length = s.connections.length)
      (disconnectFinalize s) := by
  rw [disconnectFinalize, State.uri_eq_ok_iff.mpr hu, ok_bind]
  obtain ⟨b, hb, hmark⟩ := noteUse_eq s
  have hmatched : s.link.ptr.Ok u.secure → s.sock.matched → b = true := fun hok hm =>
    hmark u hu hok hm
  rw [hb, ensures_bind]
  refine (releaseSockets_eq { s with sock.matched := b } u).mono fun t ht => ?_
  obtain ⟨k, rfl, hk, hptr⟩ := ht
  dsimp only
  split
  · -- The next mode is tried.
    obtain ⟨cs, hcs, hlength, hpool⟩ := modifyUri_eq ({ s with sock := k } : State).offline
      (fun v => { v with stratumMode := u.stratumMode - 1 }) fun _ => rfl
    rw [State.lowerStratumMode, hcs]
    exact ⟨⟨true, link_eq rfl rfl rfl (tokens_post_some rfl) hptr hpool rfl, fun _ => rfl⟩,
      fun hok hm => hk ▸ hmatched hok hm, rfl, hlength⟩
  · split
    · obtain ⟨cs, hcs, hlength, hpool⟩ := modifyUri_eq ({ s with sock := k } : State).offline
        (fun v => { v with unrecoverable := true }) fun _ => rfl
      rw [State.markUnrecoverable, hcs]
      exact ⟨⟨false, link_eq rfl rfl rfl rfl hptr hpool rfl, nofun⟩,
        fun hok hm => hk ▸ hmatched hok hm, rfl, hlength⟩
    · exact ⟨⟨false, link_eq rfl rfl rfl rfl hptr rfl rfl, nofun⟩,
        fun hok hm => hk ▸ hmatched hok hm, rfl, rfl⟩

/-- `disconnect_finalize` as a move from a connection `l` that is ready only with the right socket;
`s` and `t` differ in nothing that counts. -/
theorem moves_of_finalized {l : Link} {t : State} (hu : t.uri? = some u)
    (hmove : ∀ retry, Move l .other (t.link.finalized u.secure retry))
    (hok : l.Ready → t.link.ptr.Ok u.secure) (hmatched : t.sock.matched = s.sock.matched)
    (hindex : t.manager.activeConnectionIdx = s.manager.activeConnectionIdx)
    (hlength : t.connections.length = s.connections.length) :
    Moves l .other s (disconnectFinalize t) := by
  have hspec := disconnectFinalize_spec hu
  cases hr : disconnectFinalize t with
  | error f =>
    rw [hr] at hspec
    obtain ⟨rfl, hnot⟩ := hspec
    exact ⟨fun _ hready => hnot (hok hready), fun _ h => (nomatch h)⟩
  | ok r =>
    rw [hr] at hspec
    obtain ⟨⟨retry, hlink, -⟩, hm, hi, hn⟩ := hspec
    refine ⟨(hmove retry).of_eq hlink, fun hready h => hm (hok hready) (hmatched ▸ h), fun _ h => ?_⟩
    rwa [State.IndexOk, hi, hn, hindex, hlength]

theorem moves_disconnectFinalize (s : State) :
    Moves (s.linkWith .finalize) .other s (disconnectFinalize s) := by
  cases hu : s.uri? with
  | none =>
    rw [disconnectFinalize, State.uri, hu]
    exact excusedFrom_of_ne (by decide) (by decide)
  | some u =>
    refine moves_of_finalized hu (fun retry => ?_) (fun hready => ?_) rfl rfl rfl
    · exact Move.finalize (s.linkWith .finalize) retry (s.tokens_linkWith _) (link_pool hu)
    · exact hready.same u.pool (link_pool hu)
        (hready.live (.inr (.inr (.inr (.inr (s.mem_linkWith _))))))

theorem moves_disconnect (s : State) : Moves s.link .other s (disconnect s) := by
  rw [disconnect]
  split
  next => exact movedTo_of_move (Move.stay s.link) rfl rfl rfl
  next h =>
    have hflags : s.flags.connected = true ∧ s.flags.disconnecting = false := by simpa using h
    obtain ⟨hc, hd⟩ := hflags
    dsimp only
    split
    next hs => exact movedTo_of_move (Move.disconnectStuck s.link hc hd hs) rfl rfl rfl
    next i hs =>
      split
      next =>
        refine moves_uri_bind fun u hu => ?_
        have hok : s.link.Ready → s.link.ptr.Ok u.secure := fun hready =>
          hready.same u.pool (link_pool hu) (hready.live (.inl hc))
        refine moves_deref (fun hready => (hok hready).set) fun j _ => ?_
        split
        next =>
          -- The rest is done when the encryption has ended.
          have hmove := Move.shutdown s.link hc hd (link_pool hu)
          exact movedTo_of_move (hmove.of_eq
            (link_eq rfl rfl rfl (tokens_post_some rfl) rfl rfl rfl)) rfl rfl rfl
        next hsec =>
          have hplain : u.pool.secure = false := Bool.eq_false_iff.mpr hsec
          exact moves_of_finalized hu
            (fun retry => Move.disconnected s.link retry hc hd (link_pool hu) hplain) hok rfl rfl rfl
      next => exact excusedFrom_of_ne (by decide) (by decide)

end Disconnect

section Watchdog
variable {s : State}

/-- What the watchdog does to a connection: endpoints are given up. -/
structure GivesUp (s t : State) : Prop where
  link : ∃ n, t.link = { s.link with endpoints := s.link.endpoints.drop n }
  matched : t.sock.matched = s.sock.matched
  index : t.manager.activeConnectionIdx = s.manager.activeConnectionIdx
  length : t.connections.length = s.connections.length

theorem GivesUp.refl (s : State) : GivesUp s s := ⟨⟨0, rfl⟩, rfl, rfl, rfl⟩

theorem GivesUp.trans {r t : State} (hst : GivesUp s t) (htr : GivesUp t r) : GivesUp s r := by
  obtain ⟨n, hn⟩ := hst.link
  obtain ⟨k, hk⟩ := htr.link
  refine ⟨⟨n + k, ?_⟩, htr.matched.trans hst.matched, htr.index.trans hst.index,
    htr.length.trans hst.length⟩
  rw [hk, hn, List.drop_drop]

/-- A fault that has nothing to do with sockets or the manager's index. -/
def Unrelated (f : Fault) : Prop := f ≠ .nullSocket ∧ f ≠ .badIndex

theorem givesUp_dropEndpoint (s : State) : Ensures Unrelated (GivesUp s) (dropEndpoint s) := by
  rw [dropEndpoint, State.popEndpoint]
  split
  next => exact ⟨by decide, by decide⟩
  next e es he =>
    refine ⟨⟨1, ?_⟩, rfl, rfl, rfl⟩
    refine (link_post_none rfl).trans (link_eq rfl rfl rfl rfl rfl rfl ?_)
    change es = s.endpoints.drop 1
    rw [he, List.drop_one, List.tail_cons]

theorem givesUp_responseTimeout (s : State) (u : Uri) :
    Ensures Unrelated (GivesUp s) (responseTimeout s u) := by
  rw [responseTimeout]
  split
  · exact ⟨⟨0, link_post_none rfl⟩, rfl, rfl, rfl⟩
  · exact givesUp_dropEndpoint s

theorem givesUp_watchConnection (s : State) (delay : Nat) :
    Ensures Unrelated (GivesUp s) (watchConnection s delay) := by
  rw [watchConnection, State.uri]
  split
  next u _ =>
    have hfirst : Ensures Unrelated (GivesUp s)
        (if s.cfg.responsetimeout * 1000 ≤ delay then responseTimeout s u else pure s) := by
      split
      · exact givesUp_responseTimeout s u
      · exact GivesUp.refl s
    rw [ok_bind, ensures_bind]
    refine hfirst.mono fun t ht => ?_
    split
    · exact (givesUp_dropEndpoint t).mono fun r hr => ht.trans hr
    · exact ht
  next => exact ⟨by decide, by decide⟩

theorem moves_watch (s : State) : Moves s.link .other s (watch s) := by
  rw [watch]
  dsimp only
  rw [watchPending]
  have hgo : Moves s.link .other s
      (if s.isConnected then watchConnection s (s.clock - s.pleas.older) else pure s) := by
    split
    next h =>
      have hc : s.link.connected = true := connected_of_isConnected h
      have hspec := givesUp_watchConnection s (s.clock - s.pleas.older)
      cases hr : watchConnection s (s.clock - s.pleas.older) with
      | error f =>
        rw [hr] at hspec
        exact excusedFrom_of_ne hspec.1 hspec.2
      | ok t =>
        rw [hr] at hspec
        obtain ⟨n, hn⟩ := hspec.link
        exact movedTo_of_move ((Move.dropped s.link n hc).of_eq hn) hspec.matched hspec.index
          hspec.length
    next => exact movedTo_of_move (Move.stay s.link) rfl rfl rfl
  split
  next h =>
    have hpending : s.isPendingState = true := (Bool.and_eq_true_iff.mp h).1
    split
    next hconnecting =>
      -- The attempt to connect takes too long.
      rw [bind_assoc]
      refine moves_deref (fun hready => hready.live (.inr (.inl hconnecting))) fun i _ => ?_
      exact movedTo_of_move (Move.stay s.link) rfl rfl rfl
    next hconnecting =>
      have hending : s.link.disconnecting = true := by
        rw [State.isPendingState, Bool.eq_false_iff.mpr hconnecting, Bool.false_or] at hpending
        exact hpending
      rw [bind_assoc]
      refine moves_uri_bind fun u hu => ?_
      split
      next hsec =>
        -- The encryption is not ended in time.
        rw [bind_assoc]
        refine moves_deref (fun hready => ?_) fun i _ => ?_
        · have hset := (hready.same u.pool (link_pool hu)
            (hready.live (.inr (.inr (.inl hending))))).set
          rw [Uri.pool, hsec] at hset
          exact hset
        · rw [pure_bind]
          split
          next => exact movedTo_of_move (Move.stay s.link) rfl rfl rfl
          next => exact hgo
      next => exact hgo
  next => exact hgo

theorem moves_workloopTimerElapsed (s : State) :
    Moves s.link .other s (workloopTimerElapsed s) := by
  rw [workloopTimerElapsed]
  split
  · exact moves_watch s
  · exact movedTo_of_move (Move.stay s.link) rfl rfl rfl

end Watchdog

section Others
variable {s : State}

theorem moves_of_calls {r : Except Fault State} {b : Bool} (h : Calls s r b) :
    Moves s.link .other s r := by
  cases h with
  | left _ _ _ h => exact h ▸ movedTo_of_move (Move.stay s.link) rfl rfl rfl
  | called running g k hg h =>
    have hdisconnect : Moves s.link .other s
        (disconnect { s with manager.running := running, manager.failoverArmed := false }) :=
      (moves_disconnect { s with manager.running := running, manager.failoverArmed := false }).congr
        rfl rfl rfl
    rw [← h, Moves, ensures_bind]
    refine hdisconnect.mono fun t ht => ⟨ht.move, ht.matched, fun hm hs => ?_⟩
    exact Nat.lt_of_le_of_lt (hg t.manager).2 (ht.index hm hs)

theorem frame_managerCheck (s : State) : Frame s (managerCheck s) := by
  rw [managerCheck]
  split
  · exact ⟨rfl, fun _ h => h, rfl, rfl⟩
  · exact Frame.refl s

end Others

section Select
variable {s : State}

/-- A selection changes the pool of a connection at most. -/
structure Selects (s t : State) : Prop where
  link : t.link = { s.link with pool := t.link.pool }
  sock : t.sock = s.sock

theorem Selects.change {r t : State} (h : Selects s t)
    (hlink : r.link = { t.link with pool := r.link.pool })
    (hsock : r.sock = t.sock) : Selects s r where
  link := hlink.trans (congrArg (fun l : Link => { l with pool := r.link.pool }) h.link)
  sock := hsock.trans h.sock

theorem selects_discardPool (s : State) :
    Ensures (fun f => f = .badIndex) (Selects s) (discardPool s) := by
  rw [discardPool, State.activeUri]
  split
  next u _ =>
    rw [ok_bind]
    split <;> exact ⟨rfl, rfl⟩
  next => exact rfl

theorem Selects.rotatePools {t : State} (h : Selects s t) : Selects s (rotatePools t) := by
  rw [Stratum.rotatePools]
  split
  · exact h.change rfl rfl
  · exact h

theorem Selects.usePool {t : State} (h : Selects s t) :
    Ensures (fun f => f = .badIndex) (Selects s) (usePool t) := by
  rw [Stratum.usePool, State.activeUri]
  split
  next u _ =>
    rw [ok_bind]
    split <;> exact h.change rfl rfl
  next => exact rfl

theorem selects_managerSelect (s : State) :
    Ensures (fun f => f = .badIndex) (Selects s) (managerSelect s) := by
  rw [managerSelect, ensures_bind]
  exact (selects_discardPool s).mono fun t ht => ht.rotatePools.usePool

theorem moves_managerSelect (s : State) : Moves s.link .select s (managerSelect s) := by
  have hspec := selects_managerSelect s
  cases hr : managerSelect s with
  | error f =>
    rw [hr] at hspec
    cases (hspec : f = .badIndex)
    exact ⟨fun h => (nomatch h), fun h => absurd rfl h⟩
  | ok t =>
    rw [hr] at hspec
    have hmove := Move.select s.link t.link.pool
    exact ⟨hmove.of_eq hspec.link, fun _ hm => hspec.sock ▸ hm, fun h => absurd rfl h⟩

end Select

/-- The connection before `p` was taken off `pending`. -/
def State.linkBefore (s : State) (p : Pending) : Link := p.token.elim s.link s.linkWith

theorem linkBefore_eraseIdx {s : State} {i : Nat} {p : Pending} (hp : s.pending[i]? = some p) :
    ({ s with pending := s.pending.eraseIdx i } : State).linkBefore p = s.link := by
  obtain ⟨hi, rfl⟩ := List.getElem?_eq_some_iff.mp hp
  have hperm := (List.getElem_cons_eraseIdx_perm hi).filterMap Pending.token
  rw [List.filterMap_cons] at hperm
  rw [State.linkBefore]
  cases htk : s.pending[i].token with
  | none | some tk =>
    rw [htk] at hperm
    exact congrArg (fun ts => { s.link with tokens := ts }) (Multiset.coe_eq_coe.mpr hperm)

theorem moves_handling {s : State} {r : Except Fault State} {p : Pending} {o : Outcome}
    (h : Handling s r p o) : Moves (s.linkBefore p) .other s r := by
  cases h with
  | resolve addresses h => exact h ▸ moves_resolveHandler s _ _ addresses
  | startConnect h => exact h ▸ moves_startConnect s
  | connect ec hec h => exact h ▸ moves_connectHandler s ec hec
  | disconnect h => exact h ▸ moves_disconnect s
  | shutdown h =>
    subst h
    have hmove := Move.shutdownDone (s.linkWith .shutdown) (s.tokens_linkWith _)
    exact movedTo_of_move (hmove.of_eq (link_post_some rfl)) rfl rfl rfl
  | finalize h => exact h ▸ moves_disconnectFinalize s
  | readError h => exact h ▸ Steady.moves (allows_frame.onRecvError s)
  | read h => exact h ▸ Steady.moves (allows_frame.onRecv s)
  | response h => exact h ▸ (steady_processResponse s _).moves

theorem moves_step {s : State} {e : Event} {r : Except Fault State} (hstep : step s e = some r) :
    Moves s.link e.mover s r := by
  cases happens_of_step hstep with
  | complete hp h => exact (linkBefore_eraseIdx hp ▸ moves_handling h).congr rfl rfl rfl
  | segment h | written h | elapse h =>
    subst h
    exact movedTo_of_move (Move.stay s.link) rfl rfl rfl
  | tick _ h => exact h ▸ moves_workloopTimerElapsed s
  | failover h => exact moves_of_calls (calls_checkFailoverTimeout h)
  | check _ h => exact h ▸ Steady.moves (frame_managerCheck s)
  | select _ h => exact h ▸ moves_managerSelect s
  | connect _ h => exact h ▸ moves_managerConnect s
  | stop h => exact moves_of_calls (calls_managerStop h)
  | found _ h => exact h ▸ Steady.moves (allows_frame.onSolutionFound s _)

end Energiminer.Stratum
