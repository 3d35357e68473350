import Energiminer.Stratum.Autodetection
import Energiminer.Stratum.Proofs.Tolerant

/-!
# What the handlers do to the pools

Messages, reads, resolvers and timers mark a pool as lost or confirm its mode, and tell the manager of
a login. A mode changes only where a connection is established or ended, and the manager changes the
pools and `m_conn` only itself.
-/

namespace Energiminer.Stratum
open Misc Misc.Json Misc.Except Primitives

/-- A pool after messages: its mode is as it was. -/
structure Noted (u v : Uri) : Prop where
  version : v.version = u.version
  mode : v.stratumMode = u.stratumMode
  confirmed : u.stratumModeConfirmed = true → v.stratumModeConfirmed = true
  confirms : v.stratumModeConfirmed = true →
    u.stratumModeConfirmed = true ∨ u.stratumMode ≤ ENERGISTRATUM

structure Handled (s t : State) : Prop where
  conn : t.conn = s.conn
  canconnect : t.flags.canconnect = true → s.flags.canconnect = true
  length : t.connections.length = s.connections.length
  uris : ∀ (i : Nat) (u : Uri), s.connections[i]? = some u →
    ∃ v, t.connections[i]? = some v ∧ Noted u v
  manager : Undisturbed s.manager t.manager

section Rules
variable {s t : State} {u v w : Uri} {m n o : Manager}

theorem Noted.refl (u : Uri) : Noted u u := ⟨rfl, rfl, id, .inl⟩

theorem Noted.trans (huv : Noted u v) (hvw : Noted v w) : Noted u w where
  version := hvw.version.trans huv.version
  mode := hvw.mode.trans huv.mode
  confirmed h := hvw.confirmed (huv.confirmed h)
  confirms h := by
    rcases hvw.confirms h with hv | hmode
    · exact huv.confirms hv
    · exact .inr (huv.mode ▸ hmode)

theorem Undisturbed.refl (m : Manager) : Undisturbed m m := ⟨rfl, rfl, Nat.le_refl _⟩

theorem Undisturbed.trans (hmn : Undisturbed m n) (hno : Undisturbed n o) : Undisturbed m o where
  phase := hno.phase.trans hmn.phase
  maxConnectionAttempts := hno.maxConnectionAttempts.trans hmn.maxConnectionAttempts
  connectionAttempt := hno.connectionAttempt.trans hmn.connectionAttempt

theorem handled_of_pools (h : t.pools = s.pools) : Handled s t := by
  obtain ⟨hconnections, hconn, hcanconnect, hmanager⟩ := PoolView.mk.inj h
  refine ⟨hconn, fun hc => hcanconnect ▸ hc, congrArg _ hconnections, fun i u hu => ?_,
    hmanager ▸ .refl _⟩
  exact ⟨u, hconnections ▸ hu, .refl u⟩

theorem Handled.trans {r : State} (hst : Handled s t) (htr : Handled t r) : Handled s r where
  conn := htr.conn.trans hst.conn
  canconnect h := hst.canconnect (htr.canconnect h)
  length := htr.length.trans hst.length
  uris i u hu := by
    obtain ⟨v, hv, huv⟩ := hst.uris i u hu
    obtain ⟨w, hw, hvw⟩ := htr.uris i v hv
    exact ⟨w, hw, huv.trans hvw⟩
  manager := hst.manager.trans htr.manager

theorem handled_modifyUri {f : Uri → Uri} (hf : ∀ u, s.uri? = some u → Noted u (f u)) :
    Handled s (s.modifyUri f) := by
  rw [State.modifyUri]
  split
  next j hconn =>
    refine ⟨rfl, id, List.length_modify f s.connections j, fun i u hu => ?_, .refl _⟩
    refine ⟨if j = i then f u else u, ?_, ?_⟩
    · dsimp only
      rw [List.getElem?_modify, hu]
      rfl
    · split
      next hij =>
        refine hf u ?_
        rw [State.uri?, hconn, hij]
        exact hu
      next => exact .refl u
  next => exact handled_of_pools rfl

theorem handled_markUnrecoverable (s : State) : Handled s s.markUnrecoverable :=
  handled_modifyUri fun _ _ => ⟨rfl, rfl, id, .inl⟩

theorem closed_handled : Closed Handled where
  trans := Handled.trans
  frame _ hpools := handled_of_pools hpools
  post _ _ := handled_of_pools rfl
  clear _ := handled_of_pools rfl
  enqueue _ _ := handled_of_pools rfl
  logout _ := handled_of_pools rfl
  elapse _ _ := handled_of_pools rfl
  lose := handled_markUnrecoverable
  confirm hu hmode := by
    refine handled_modifyUri fun v hv => ?_
    cases hu.symm.trans hv
    exact ⟨rfl, rfl, fun _ => rfl, fun _ => .inr hmode⟩
  connected _ _ := ⟨rfl, id, rfl, fun _ u hu => ⟨u, hu, .refl u⟩, ⟨rfl, rfl, Nat.zero_le _⟩⟩

end Rules

section Step
variable {s t : State} {u : Uri} {e : Event}

/-- A step that neither makes nor ends a connection and is not one of the manager. -/
theorem handled_step (h : step s e = some (.ok t)) (hpools : s.touchesPools e = false) :
    Handled s t :=
  closed_handled.relates (fun _ _ => handled_of_pools rfl)
    (related_account fun _ _ => handled_of_pools rfl) h (Deed.allowed (fun _ _ _ _ _ => handled_of_pools rfl) _)
    (fun _ _ _ => handled_of_pools rfl) (fun htouches => nomatch hpools.symm.trans htouches)
    fun _ _ => handled_of_pools rfl

theorem pools_noteUse (s : State) : s.noteUse.pools = s.pools := by
  rw [State.noteUse]
  split
  · rfl
  · rfl

theorem pending_noteUse (s : State) : s.noteUse.pending = s.pending := by
  rw [State.noteUse]
  split
  · rfl
  · rfl

theorem pending_modifyUri (s : State) (f : Uri → Uri) : (s.modifyUri f).pending = s.pending := by
  rw [State.modifyUri]
  split
  · rfl
  · rfl

theorem uri?_of_pools {r : State} (h : r.pools = s.pools) : r.uri? = s.uri? := by
  obtain ⟨hconnections, hconn, _, _⟩ := PoolView.mk.inj h
  rw [State.uri?, State.uri?, hconn, hconnections]

/-- The pools and the one that `m_conn` points to, without the manager. -/
structure UriView where
  connections : List Uri
  conn : Option Nat
  canconnect : Bool

def State.uris (s : State) : UriView := ⟨s.connections, s.conn, s.flags.canconnect⟩

namespace UriView

def uri? (v : UriView) : Option Uri := v.conn.bind fun i => v.connections[i]?

/-- The pool of `m_conn` is changed. -/
def modify (v : UriView) (f : Uri → Uri) : UriView :=
  match v.conn with
  | some i => { v with connections := v.connections.modify i f }
  | none => v

/-- The mode that the login is tried with. -/
def loginMode (v : UriView) (u : Uri) : UriView :=
  if u.version < 999 then
    v.modify fun w => { w with stratumMode := u.version, stratumModeConfirmed := true }
  else if !u.stratumModeConfirmed && decide (u.stratumMode = 999) then
    v.modify fun w => { w with stratumMode := ENERGISTRATUM, stratumModeConfirmed := false }
  else v

end UriView

theorem uris_of_pools (h : t.pools = s.pools) : t.uris = s.uris := by
  obtain ⟨hconnections, hconn, hcanconnect, _⟩ := PoolView.mk.inj h
  rw [State.uris, State.uris, hconnections, hconn, hcanconnect]

theorem uris_modifyUri (s : State) (f : Uri → Uri) : (s.modifyUri f).uris = s.uris.modify f := by
  rw [State.modifyUri, UriView.modify]
  dsimp only [State.uris]
  split
  next hconn => rw [hconn]
  next hconn => rw [hconn]

theorem manager_modifyUri (s : State) (f : Uri → Uri) : (s.modifyUri f).manager = s.manager := by
  rw [State.modifyUri]
  split
  · rfl
  · rfl

theorem uris_loginMode (s : State) (u : Uri) : (loginMode s u).uris = s.uris.loginMode u := by
  rw [loginMode, UriView.loginMode]
  split
  · exact uris_modifyUri s _
  · split
    · exact uris_modifyUri s _
    · rfl

theorem manager_loginMode (s : State) (u : Uri) : (loginMode s u).manager = s.manager := by
  rw [loginMode]
  split
  · exact manager_modifyUri s _
  · split
    · exact manager_modifyUri s _
    · rfl

theorem pools_sendSocketData {jReq : Json.Value} (h : sendSocketData s jReq = .ok t) :
    t.pools = s.pools := by
  rw [sendSocketData] at h
  split at h
  next =>
    cases h
    rfl
  next =>
    obtain ⟨u, _, h⟩ := bind_eq_ok.mp h
    obtain ⟨_, _, hreturn⟩ := bind_eq_ok.mp h
    cases hreturn
    rfl

theorem pools_recvSocketData (h : recvSocketData s = .ok t) : t.pools = s.pools := by
  obtain ⟨u, _, h⟩ := bind_eq_ok.mp h
  obtain ⟨_, _, hreturn⟩ := bind_eq_ok.mp h
  cases hreturn
  exact pools_noteUse s

theorem pools_login (h : login s = .ok t) : t.pools = s.pools := by
  obtain ⟨r, hrecv, h⟩ := bind_eq_ok.mp h
  obtain ⟨u, _, hsend⟩ := bind_eq_ok.mp h
  exact (pools_sendSocketData hsend).trans (pools_recvSocketData hrecv)

theorem handled_barred (h : t.pools = { s.pools with canconnect := false }) :
    Handled s t ∧ t.flags.canconnect = false := by
  obtain ⟨hconnections, hconn, hcanconnect, hmanager⟩ := PoolView.mk.inj h
  have hframe : Handled { s with flags.canconnect := false } t := handled_of_pools h
  refine ⟨⟨hconn, fun hc => (nomatch hcanconnect.symm.trans hc), hframe.length, hframe.uris,
    hframe.manager⟩, hcanconnect⟩

theorem connectHandler_cases {ec hec : Bool} (h : connectHandler s ec hec = .ok t) :
    (Handled s t ∧ t.flags.canconnect = false) ∨
      ∃ u, s.uri? = some u ∧ t.uris = { s.uris with canconnect := true }.loginMode u ∧
        t.manager = s.manager := by
  have hnote : ({ s with flags.connecting := false } : State).noteUse.pools = s.pools :=
    pools_noteUse _
  rw [connectHandler] at h
  obtain ⟨i, _, h⟩ := bind_eq_ok.mp h
  generalize ({ s with flags.connecting := false } : State).noteUse = r at h hnote
  obtain ⟨hconnections, hconn, _, hmanager⟩ := PoolView.mk.inj hnote
  split at h
  next =>
    obtain ⟨r', hpop, hreturn⟩ := bind_eq_ok.mp h
    rw [State.popEndpoint] at hpop
    split at hpop
    next => cases hpop
    next =>
      cases hpop
      cases hreturn
      refine .inl (handled_barred ?_)
      rw [← hnote]
      rfl
  next =>
    obtain ⟨u, hu, h⟩ := bind_eq_ok.mp h
    obtain ⟨_, _, h⟩ := bind_eq_ok.mp h
    split at h
    next =>
      cases h
      have hbarred := handled_barred (s := s) (t := { r with flags.canconnect := false })
        (by rw [← hnote]; rfl)
      have hmarked := handled_markUnrecoverable { r with flags.canconnect := false }
      refine .inl ⟨hbarred.1.trans (hmarked.trans (handled_of_pools rfl)), ?_⟩
      exact Bool.eq_false_iff.mpr fun hc => Bool.false_ne_true (hmarked.canconnect hc)
    next =>
      have hlogin := pools_login h
      refine .inr ⟨u, ?_, ?_, ?_⟩
      · rw [← uri?_of_pools hnote]
        exact State.uri_eq_ok_iff.mp hu
      · rw [uris_of_pools hlogin, uris_loginMode, State.uris, State.uris, ← hconnections, ← hconn]
        rfl
      · have hsame : t.manager = (loginMode (r.enter u) u).manager := congrArg PoolView.manager hlogin
        rw [hsame, manager_loginMode]
        exact hmanager

theorem pools_releaseSockets (h : releaseSockets s u = .ok t) :
    t.pools = s.pools ∧ t.pending = s.pending := by
  rw [releaseSockets] at h
  split at h
  next =>
    obtain ⟨i, _, hreturn⟩ := bind_eq_ok.mp h
    cases hreturn
    exact ⟨rfl, rfl⟩
  next =>
    cases h
    cases s.sock.nonsecure with
    | none | some i => exact ⟨rfl, rfl⟩

/-- What `disconnect_finalize` does to the pools and to the handlers that are due. -/
inductive Finalized (s t : State) (u : Uri) : Prop
  /-- the next mode is tried -/
  | lowered (hretries : s.retries u = true) (hmode : 0 < u.stratumMode)
      (huris : t.uris = s.uris.modify fun v => { v with stratumMode := u.stratumMode - 1 })
      (hpending : t.pending = s.pending ++ [.startConnect])
  /-- no mode is left -/
  | lost (hretries : s.retries u = true) (hmode : u.stratumMode = 0)
      (huris : t.uris = s.uris.modify fun v => { v with unrecoverable := true })
      (hpending : t.pending = s.pending)
  | ended (hretries : s.retries u = false) (huris : t.uris = s.uris)
      (hpending : t.pending = s.pending)

theorem disconnectFinalize_cases (h : disconnectFinalize s = .ok t) :
    (∃ u, s.uri? = some u ∧ Finalized s t u) ∧ t.manager = s.manager := by
  obtain ⟨u, hu, h⟩ := bind_eq_ok.mp h
  obtain ⟨r, hrelease, h⟩ := bind_eq_ok.mp h
  obtain ⟨hreleased, hpending⟩ := pools_releaseSockets hrelease
  have hpools : r.offline.pools = s.pools := hreleased.trans (pools_noteUse s)
  have hdue : r.offline.pending = s.pending := hpending.trans (pending_noteUse s)
  have hretries : (!u.unrecoverable && !u.stratumModeConfirmed && r.offline.flags.canconnect) =
      s.retries u := by
    rw [State.retries, show r.offline.flags.canconnect = s.flags.canconnect from
      congrArg PoolView.canconnect hpools]
  have hu := State.uri_eq_ok_iff.mp hu
  have huris := uris_of_pools hpools
  have hmanager : r.offline.manager = s.manager := congrArg PoolView.manager hpools
  dsimp only at h
  rw [hretries] at h
  generalize r.offline = r' at h huris hmanager hdue
  split at h
  next hmode =>
    obtain ⟨hyes, hmode⟩ := Bool.and_eq_true_iff.mp hmode
    cases h
    refine ⟨⟨u, hu, .lowered hyes (of_decide_eq_true hmode) ?_ ?_⟩, ?_⟩
    · rw [← huris, ← uris_modifyUri]
      rfl
    · exact congrArg (· ++ [Pending.startConnect]) ((pending_modifyUri r' _).trans hdue)
    · exact (manager_modifyUri r' _).trans hmanager
  next hmode =>
    cases hyes : s.retries u with
    | true =>
      rw [hyes, Bool.true_and, decide_eq_true_eq, Nat.not_lt, Nat.le_zero] at hmode
      rw [hyes] at h
      cases h
      refine ⟨⟨u, hu, .lost hyes hmode ?_ ?_⟩, ?_⟩
      · rw [← huris, ← uris_modifyUri]
        rfl
      · exact (pending_modifyUri r' _).trans hdue
      · exact (manager_modifyUri r' _).trans hmanager
    | false =>
      rw [hyes] at h
      cases h
      exact ⟨⟨u, hu, .ended hyes huris hdue⟩, hmanager⟩

theorem disconnect_cases (h : disconnect s = .ok t) :
    (s.endsAtOnce = false ∧ t.pools = s.pools) ∨ (s.endsAtOnce = true ∧
      ∃ i, disconnectFinalize ({ s with flags.disconnecting := true }.closeSocket i) = .ok t) := by
  have hends : s.endsAtOnce =
      (s.mayDisconnect && s.sock.socket.isSome && s.uri?.any fun u => !u.secure) := rfl
  rw [hends]
  cases disconnected_of_eq_ok h with
  | ignored hmay ht =>
    rw [hmay, ht]
    exact .inl ⟨rfl, rfl⟩
  | stuck hmay hsocket ht =>
    rw [hmay, hsocket, ht]
    exact .inl ⟨rfl, rfl⟩
  | shutdown hmay hsocket hu hsecure ht =>
    rw [hmay, hsocket, hu, Option.any_some, hsecure, ht]
    exact .inl ⟨rfl, rfl⟩
  | finalized hmay hsocket hu hsecure h =>
    rw [hmay, hsocket, hu, Option.any_some, hsecure]
    exact .inr ⟨rfl, _, h⟩

theorem pools_ensureSocket (s : State) (u : Uri) : (s.ensureSocket u).pools = s.pools := by
  rw [State.ensureSocket]
  split
  · rw [State.initSocket]
    dsimp only
    split
    · rfl
    · rfl
  · rfl

theorem connect_cases (h : connect s = .ok t) :
    t = s ∨ t.pools = { s.pools with canconnect := false } := by
  rw [connect] at h
  split at h
  next =>
    cases h
    exact .inl rfl
  next =>
    obtain ⟨u, _, hreturn⟩ := bind_eq_ok.mp h
    cases hreturn
    exact .inr (pools_ensureSocket s.restart u)

/-! ## The manager -/

theorem manager_disconnect (h : disconnect s = .ok t) : t.manager = s.manager := by
  rcases disconnect_cases h with ⟨_, hpools⟩ | ⟨_, i, hfinal⟩
  · exact congrArg PoolView.manager hpools
  · have hmanager := (disconnectFinalize_cases hfinal).2
    exact hmanager

theorem undisturbed_connectHandler {ec hec : Bool} (h : connectHandler s ec hec = .ok t) :
    Undisturbed s.manager t.manager := by
  rcases connectHandler_cases h with ⟨hhandled, _⟩ | ⟨u, _, _, hmanager⟩
  · exact hhandled.manager
  · rw [hmanager]
    exact .refl _

theorem undisturbed_of_calls {b : Bool} (h : Calls s (.ok t) b) : Undisturbed s.manager t.manager := by
  cases h with
  | left _ _ _ h =>
    cases h
    exact ⟨rfl, rfl, Nat.le_refl _⟩
  | called running g k hg h =>
    obtain ⟨r, hr, h⟩ := bind_eq_ok.mp h
    cases h
    have hbefore : Undisturbed s.manager r.manager := by
      rw [manager_disconnect hr]
      exact ⟨rfl, rfl, Nat.le_refl _⟩
    exact hbefore.trans (hg r.manager).1

/-- Only the manager leaves its place. -/
theorem undisturbed_step (hstep : step s e = some (.ok t))
    (he : e ≠ .check ∧ e ≠ .select ∧ e ≠ .connect) : Undisturbed s.manager t.manager := by
  cases hpools : s.touchesPools e with
  | false => exact (handled_step hstep hpools).manager
  | true =>
    cases happens_of_step hstep with
    | complete hget h =>
      cases h with
      | connect ec hec h =>
        have hmanager := undisturbed_connectHandler h
        exact hmanager
      | disconnect h =>
        have hmanager := manager_disconnect h
        exact hmanager ▸ .refl _
      | finalize h =>
        have hmanager := (disconnectFinalize_cases h).2
        exact hmanager ▸ .refl _
      | startConnect | shutdown | response => simp [State.touchesPools, hget] at hpools
      | resolve | readError | read => cases hpools
    | failover h => exact undisturbed_of_calls (calls_checkFailoverTimeout h)
    | stop h => exact undisturbed_of_calls (calls_managerStop h)
    | check => exact absurd rfl he.1
    | select => exact absurd rfl he.2.1
    | connect => exact absurd rfl he.2.2
    | segment | written | tick | found | elapse => cases hpools

end Step

end Energiminer.Stratum
