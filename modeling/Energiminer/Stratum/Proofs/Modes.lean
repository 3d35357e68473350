import Mathlib.Data.List.Forall2
import Energiminer.Stratum.Proofs.Handlers
import Energiminer.Stratum.Proofs.Login
import Energiminer.Stratum.Proofs.Sockets

/-!
# What an event does to the mode of a pool

An event keeps the mode, chooses one where a connection is established, or lowers it where one is
ended. Connections are ended one at a time.
-/

namespace Energiminer.Stratum
open Misc Misc.Json Misc.Except Primitives

variable {s t : State} {e : Event} {u v : Uri} {g : Reconnects} {k n : Nat}

/-! ## The end of a connection -/

section Ending
variable {l l' : Link} {m : Mover} {tk tk' : Token} {ts : Multiset Token}

/-- The operations of the end of a connection. -/
def endings (ts : Multiset Token) : Nat := ts.countP (·.ending = true)

theorem endings_cons (tk : Token) (ts : Multiset Token) :
    endings (tk ::ₘ ts) = endings ts + tk.ending.toNat := by
  rw [endings, Multiset.countP_cons, endings]
  cases tk.ending with
  | true | false => rfl

/-- At most one operation of the end of a connection is under way, and only while it ends. -/
def Link.Ending (l : Link) : Prop := endings l.tokens ≤ l.disconnecting.toNat

theorem Link.Ending.rest (h : l.Ending) (ht : l.tokens = tk ::ₘ ts) :
    endings ts + tk.ending.toNat ≤ l.disconnecting.toNat := by
  rw [← endings_cons, ← ht]
  exact h

theorem Link.Ending.done (h : l.Ending) (ht : l.tokens = tk ::ₘ ts) :
    endings ts ≤ l.disconnecting.toNat :=
  Nat.le_of_add_right_le (h.rest ht)

theorem Link.Ending.replace (h : l.Ending) (ht : l.tokens = tk ::ₘ ts)
    (hle : tk'.ending.toNat ≤ tk.ending.toNat) :
    endings (tk' ::ₘ ts) ≤ l.disconnecting.toNat := by
  rw [endings_cons]
  exact (Nat.add_le_add_left hle _).trans (h.rest ht)

theorem Link.ending_finalized (h : endings l.tokens = 0) (secure retry : Bool) :
    (l.finalized secure retry).Ending := by
  rw [Link.Ending, Link.finalized]
  cases retry with
  | true =>
    refine Nat.le_of_eq ((endings_cons .startConnect l.tokens).trans ?_)
    exact h
  | false => exact Nat.le_of_eq h

theorem Move.ending (hmove : Move l m l') (h : l.Ending) : l'.Ending := by
  have hnone (hd : l.disconnecting = false) : endings l.tokens = 0 := by
    rw [Link.Ending, hd] at h
    exact Nat.le_zero.mp h
  cases hmove with
  | stay | select | connectBusy | dropped => exact h
  | connect => exact (Nat.le_of_eq (endings_cons _ _)).trans h
  | resolved _ ht | start _ ht | connectFailed ht | shutdownDone ht =>
    exact h.replace ht (Nat.le_refl _)
  | resolveFailed ht | startIgnored ht | handshakeFailed ht | established ht => exact h.done ht
  | disconnectStuck _ hd => exact (Nat.le_of_eq (hnone hd)).trans (Nat.zero_le _)
  | shutdown _ hd =>
    refine Nat.le_of_eq ((endings_cons .shutdown l.tokens).trans ?_)
    rw [hnone hd]
    rfl
  | disconnected retry _ hd => exact Link.ending_finalized (hnone hd) _ retry
  | @finalize ts _ retry ht =>
    -- the operation that ends was the only one
    have hone := (h.rest ht).trans (Bool.toNat_le l.disconnecting)
    exact Link.ending_finalized (l := { l with tokens := ts })
      (Nat.le_zero.mp (Nat.le_of_succ_le_succ hone)) _ retry

/-- A connection is there or is being ended. -/
def Link.Active (l : Link) : Prop := l.connected = true ∨ l.disconnecting = true

/-- Only the end of an attempt makes a connection. -/
theorem Move.active (hmove : Move l m l')
    (hcount : l.tokens.count .connect ≤ l'.tokens.count .connect) (h : l'.Active) : l.Active := by
  cases hmove with
  | stay | select | connectBusy | resolved | startIgnored | start | connectFailed
  | handshakeFailed | shutdownDone | dropped => exact h
  | connect | resolveFailed => exact .inr (h.resolve_left Bool.false_ne_true)
  | established ht =>
    rw [ht, Multiset.count_cons_self] at hcount
    exact absurd hcount (Nat.not_succ_le_self _)
  | disconnectStuck hc | shutdown hc | disconnected _ hc => exact .inl hc
  | finalize => exact absurd h (by rintro (h | h) <;> cases h)

end Ending

/-- Attempts to connect end only with their own event. -/
theorem count_connect_le (h : step s e = some (.ok t))
    (he : ∀ i ec hec, e ≠ .complete i (.connected ec hec)) :
    s.tokens.count .connect ≤ t.tokens.count .connect := by
  obtain ⟨ps, hps⟩ := pending_of_step h
  have hle : (s.taken e).tokens.count .connect ≤ t.tokens.count .connect := by
    refine Multiset.count_le_of_le _ ?_
    rw [State.tokens, State.tokens, hps, List.filterMap_append, ← Multiset.coe_add]
    exact Multiset.le_add_right _ _
  refine le_trans ?_ hle
  cases happens_of_step h with
  | @complete i p o hp hhandling =>
    have htokens := congrArg Link.tokens (linkBefore_eraseIdx hp)
    rw [State.linkBefore] at htokens
    cases htk : p.token with
    | none =>
      rw [htk] at htokens
      exact Nat.le_of_eq (congrArg (Multiset.count _) htokens).symm
    | some tk =>
      rw [htk] at htokens
      have htokens : tk ::ₘ (s.taken (.complete i o)).tokens = s.tokens := htokens
      have hne : Token.connect ≠ tk := by
        rintro rfl
        cases hhandling <;> cases htk
        exact he _ _ _ rfl
      rw [← htokens, Multiset.count_cons_of_ne hne]
  | segment | written | tick | failover | check | select | connect | stop | found | elapse =>
    exact Nat.le_refl _

/-! ## What happens to a mode -/

/-- The mode of a pool and its reconnects: the pool was not tried, or they are at most two together. -/
def Sound (u : Uri) (n : Nat) : Prop :=
  (u.stratumMode = 999 ∧ u.stratumModeConfirmed = false ∧ n = 0) ∨ u.stratumMode + n ≤ ENERGISTRATUM

/-- The mode is known or confirmed. -/
def Uri.Tried (u : Uri) : Prop := u.stratumMode = 999 → u.stratumModeConfirmed = true

theorem Sound.le (h : Sound u n) (htried : u.Tried) : u.stratumMode + n ≤ ENERGISTRATUM := by
  rcases h with ⟨hmode, hunconfirmed, _⟩ | h
  · exact absurd (hunconfirmed.symm.trans (htried hmode)) Bool.false_ne_true
  · exact h

theorem Sound.reconnects_le (h : Sound u n) : n ≤ 2 := by
  rcases h with ⟨_, _, hn⟩ | h
  · rw [hn]
    exact Nat.zero_le 2
  · exact (Nat.le_add_left _ _).trans h

theorem Noted.tried (h : Noted u v) (htried : u.Tried) : v.Tried := by
  intro hmode
  rw [h.mode] at hmode
  exact h.confirmed (htried hmode)

/-- What an event does to a pool, with the number of reconnects it makes. -/
inductive Turn (u v : Uri) : Nat → Prop
  /-- the mode is as it was -/
  | noted (h : Noted u v) : Turn u v 0
  /-- the version of the pool is known -/
  | fixed (hversion : u.version ≠ 999) (hsame : v.version = u.version) : Turn u v 0
  /-- the pool is tried for the first time -/
  | chosen (hmode : u.stratumMode = 999) (hunconfirmed : u.stratumModeConfirmed = false)
      (hv : v = { u with stratumMode := ENERGISTRATUM, stratumModeConfirmed := false }) : Turn u v 0
  /-- the next mode is tried -/
  | lowered (htried : u.version = 999 → u.Tried) (hmode : 0 < u.stratumMode)
      (hunconfirmed : u.stratumModeConfirmed = false)
      (hv : v = { u with stratumMode := u.stratumMode - 1 }) : Turn u v 1

theorem Turn.later (h : Turn u v k) : Later u v := by
  cases h with
  | noted h =>
    exact ⟨h.version, fun _ => Nat.le_of_eq h.mode, fun _ hc => ⟨h.mode, h.confirmed hc⟩⟩
  | fixed hversion hsame =>
    exact ⟨hsame, fun hv => absurd hv hversion, fun hv => absurd hv hversion⟩
  | chosen hmode hunconfirmed hv =>
    subst hv
    refine ⟨rfl, fun _ => ?_, fun _ hc => absurd (hunconfirmed.symm.trans hc) Bool.false_ne_true⟩
    rw [hmode]
    change ENERGISTRATUM ≤ 999
    decide
  | lowered _ _ hunconfirmed hv =>
    subst hv
    exact ⟨rfl, fun _ => Nat.sub_le _ _,
      fun _ hc => absurd (hunconfirmed.symm.trans hc) Bool.false_ne_true⟩

theorem Turn.sound (h : Turn u v k) (hversion : v.version = 999) (hu : Sound u n) :
    Sound v (n + k) := by
  cases h with
  | noted h =>
    rcases hu with ⟨hmode, hunconfirmed, hn⟩ | hle
    · refine .inl ⟨h.mode.trans hmode, Bool.eq_false_iff.mpr fun hc => ?_, hn⟩
      rcases h.confirms hc with hconfirmed | hle
      · exact absurd (hunconfirmed.symm.trans hconfirmed) Bool.false_ne_true
      · rw [hmode] at hle
        exact absurd hle (by decide)
    · refine .inr ?_
      rw [h.mode]
      exact hle
  | fixed hother hsame => exact absurd (hsame.symm.trans hversion) hother
  | chosen hmode hunconfirmed hv =>
    subst hv
    rcases hu with ⟨_, _, hn⟩ | hle
    · refine .inr ?_
      rw [hn]
      exact Nat.le_refl ENERGISTRATUM
    · rw [hmode] at hle
      exact absurd ((Nat.le_add_right _ _).trans hle) (by decide)
  | lowered htried hmode _ hv =>
    subst hv
    have hle := hu.le (htried hversion)
    refine .inr ?_
    dsimp only
    omega

/-! ## What an event does to the pools -/

namespace UriView

theorem getElem?_modify (v : UriView) (f : Uri → Uri) (i : Nat) :
    (v.modify f).connections[i]? = v.connections[i]?.map fun w => if v.conn = some i then f w else w := by
  rw [modify]
  split
  next j hconn =>
    rw [hconn, List.getElem?_modify]
    simp only [Option.some.injEq]
    rfl
  next hconn =>
    rw [hconn]
    simp

theorem conn_modify (v : UriView) (f : Uri → Uri) : (v.modify f).conn = v.conn := by
  rw [modify]
  split
  · rfl
  · rfl

theorem uri?_modify (v : UriView) (f : Uri → Uri) : (v.modify f).uri? = v.uri?.map f := by
  rw [uri?, conn_modify, uri?]
  cases hconn : v.conn with
  | none => rfl
  | some i =>
    rw [Option.bind_some, getElem?_modify, hconn]
    simp

/-- A pool is changed or not, according to whether it is the one of `m_conn`. -/
theorem modify_turns {v v' : UriView} {f : Uri → Uri} {k : Nat} (hv : v.uri? = some u)
    (hv' : v' = v.modify f) (hturn : Turn u (f u) k) (i : Nat) (w : Uri) (hw : v.connections[i]? = some w) :
    ∃ w', v'.connections[i]? = some w' ∧ Turn w w' (if v.conn = some i then k else 0) := by
  refine ⟨if v.conn = some i then f w else w, ?_, ?_⟩
  · rw [hv', getElem?_modify, hw, Option.map_some]
  · split
    next hconn =>
      rw [uri?, hconn, Option.bind_some, hw] at hv
      cases hv
      exact hturn
    next => exact .noted (.refl w)

end UriView

/-- What an event that is not one of the manager does to the modes. -/
inductive Turned (s : State) (e : Event) (t : State) : Prop
  /-- no mode changes -/
  | handled (hfinal : s.finalizes e = false) (h : Handled s t)
      (hactive : t.flags.canconnect = true → t.link.Active → s.link.Active)
  /-- a connection is established -/
  | established (u : Uri) (hfinal : s.finalizes e = false) (hu : s.uri? = some u)
      (huris : t.uris = { s.uris with canconnect := true }.loginMode u)
  /-- a connection is ended -/
  | finalized (u : Uri) (hfinal : s.finalizes e = true) (hu : s.uri? = some u)
      (h : Finalized (s.taken e) t u) (hactive : ¬ t.link.Active)

theorem not_active_finalized (l : Link) (secure retry : Bool) : ¬ (l.finalized secure retry).Active := by
  rintro (h | h)
  · cases h
  · cases h

theorem disconnectFinalize_turns (h : disconnectFinalize s = .ok t) :
    ∃ u, s.uri? = some u ∧ Finalized s t u ∧ ¬ t.link.Active := by
  obtain ⟨⟨u, hu, hfinalized⟩, _⟩ := disconnectFinalize_cases h
  have hspec := disconnectFinalize_spec hu
  rw [h] at hspec
  obtain ⟨⟨retry, hlink, _⟩, _⟩ := hspec
  refine ⟨u, hu, hfinalized, ?_⟩
  rw [hlink]
  exact not_active_finalized _ _ _

/-- What is looked at in `Finalized` is the same before and after. -/
theorem Finalized.congr {s' t' : State} (h : Finalized s t u) (hs : s'.uris = s.uris)
    (hs' : s'.pending = s.pending) (ht : t'.uris = t.uris) (ht' : t'.pending = t.pending) :
    Finalized s' t' u := by
  have hretries : s'.retries u = s.retries u := by
    rw [State.retries, State.retries, show s'.flags.canconnect = s.flags.canconnect from
      congrArg UriView.canconnect hs]
  cases h with
  | lowered hr hmode huris hpending =>
    exact .lowered (hretries.trans hr) hmode (by rw [ht, huris, hs]) (by rw [ht', hpending, hs'])
  | lost hr hmode huris hpending =>
    exact .lost (hretries.trans hr) hmode (by rw [ht, huris, hs]) (by rw [ht', hpending, hs'])
  | ended hr huris hpending =>
    exact .ended (hretries.trans hr) (by rw [ht, huris, hs]) (by rw [ht', hpending, hs'])

theorem disconnect_turns (h : disconnect s = .ok t) :
    (s.endsAtOnce = false ∧ t.pools = s.pools) ∨
      (s.endsAtOnce = true ∧ ∃ u, s.uri? = some u ∧ Finalized s t u ∧ ¬ t.link.Active) := by
  rcases disconnect_cases h with hquiet | ⟨hends, i, hfinal⟩
  · exact .inl hquiet
  · obtain ⟨u, hu, hfinalized, hactive⟩ := disconnectFinalize_turns hfinal
    exact .inr ⟨hends, u, hu, hfinalized.congr rfl rfl rfl rfl, hactive⟩

theorem turned_of_handled (hstep : step s e = some (.ok t)) (hfinal : s.finalizes e = false)
    (he : ∀ i ec hec, e ≠ .complete i (.connected ec hec)) (h : Handled s t) : Turned s e t := by
  have hmoved : MovedTo s.link e.mover s t := moves_step hstep
  exact .handled hfinal h fun _ => hmoved.move.active (count_connect_le hstep he)

theorem finalizes_of_touchesPools (h : s.touchesPools e = false) : s.finalizes e = false := by
  cases e with
  | complete i o =>
    cases o with
    | run =>
      rw [State.finalizes]
      dsimp only [State.touchesPools] at h
      split
      next hp =>
        rw [hp] at h
        cases h
      next hp =>
        rw [hp] at h
        cases h
      next => rfl
    | resolved | connected | received => rfl
  | failover | stop => cases h
  | segment | written | tick | check | select | connect | found | elapse => rfl

theorem turned_of_calls {b : Bool} (hstep : step s e = some (.ok t))
    (he : ∀ i ec hec, e ≠ .complete i (.connected ec hec)) (htaken : s.taken e = s)
    (hfinal : s.finalizes e = (b && s.endsAtOnce)) (h : Calls s (.ok t) b) : Turned s e t := by
  cases h with
  | left _ _ _ h =>
    cases h
    exact turned_of_handled hstep hfinal he
      ⟨rfl, id, rfl, fun _ u hu => ⟨u, hu, .refl u⟩, ⟨rfl, rfl, Nat.le_refl _⟩⟩
  | called running g k hg h =>
    obtain ⟨r, hr, h⟩ := bind_eq_ok.mp h
    cases h
    rcases disconnect_turns hr with ⟨hends, hsame⟩ | ⟨hends, u, hu, hfinalized, hactive⟩
    · refine turned_of_handled hstep (hfinal.trans hends) he ?_
      have hhandled := handled_of_pools hsame
      obtain ⟨hphase, hmax, hattempt⟩ := hhandled.manager.trans (hg r.manager).1
      exact ⟨hhandled.conn, hhandled.canconnect, hhandled.length, hhandled.uris, hphase, hmax, hattempt⟩
    · refine .finalized u (hfinal.trans hends) hu ?_ hactive
      rw [htaken]
      exact hfinalized.congr rfl rfl rfl rfl

/-- The events of the manager. -/
def Event.managerial : Event → Bool
  | .check => true
  | .select => true
  | .connect => true
  | _ => false

theorem turned_step (hstep : step s e = some (.ok t)) (he : e.managerial = false) : Turned s e t := by
  cases hpools : s.touchesPools e with
  | false =>
    refine turned_of_handled hstep (finalizes_of_touchesPools hpools) ?_ (handled_step hstep hpools)
    rintro i ec hec rfl
    cases hpools
  | true =>
    cases happens_of_step hstep with
    | @complete i p o hp h =>
      cases h with
      | connect ec hec h =>
        rcases connectHandler_cases h with ⟨hhandled, hcan⟩ | ⟨u, hu, huris, _⟩
        · have htaken : Handled s (s.taken (.complete i (.connected ec hec))) := handled_of_pools rfl
          exact .handled rfl (htaken.trans hhandled)
            fun hyes => absurd (hcan.symm.trans hyes) Bool.false_ne_true
        · exact .established u rfl hu huris
      | disconnect h =>
        have hfinal : s.finalizes (.complete i .run) = s.endsAtOnce := by
          rw [State.finalizes, hp]
        rcases disconnect_turns h with ⟨hends, hsame⟩ | ⟨hends, u, hu, hfinalized, hactive⟩
        · exact turned_of_handled hstep (hfinal.trans hends) (by rintro _ _ _ ⟨⟩) (handled_of_pools hsame)
        · exact .finalized u (hfinal.trans hends) hu hfinalized hactive
      | finalize h =>
        obtain ⟨u, hu, hfinalized, hactive⟩ := disconnectFinalize_turns h
        exact .finalized u (by rw [State.finalizes, hp]) hu hfinalized hactive
      | startConnect | shutdown | response => simp [State.touchesPools, hp] at hpools
      | resolve | readError | read => cases hpools
    | failover h =>
      exact turned_of_calls hstep (by rintro _ _ _ ⟨⟩) rfl rfl (calls_checkFailoverTimeout h)
    | stop h => exact turned_of_calls hstep (by rintro _ _ _ ⟨⟩) rfl rfl (calls_managerStop h)
    | check | select | connect => cases he
    | segment | written | tick | found | elapse => cases hpools

end Energiminer.Stratum
