import Energiminer.Stratum.Proofs.Jobs
import Energiminer.Stratum.Proofs.Link
import Energiminer.Stratum.Proofs.Pleas

/-!
# The login and the connection it belongs to

`m_subscribed` and `m_authorized` are set by any answer with id 1 or 3, whether a request with this
id was sent on the connection or not, and also by an answer that an earlier connection has left in
the queue (`StratumClient.cpp:641-815`, `1000-1047`). The record of a run says which connection a
queued message belongs to.
-/

namespace Energiminer.Stratum
open Misc Misc.Json Misc.Except Primitives

/-- The login on the current connection. -/
structure LoginRecord where
  /-- the number of connections so far -/
  connection : Nat := 0
  /-- for each operation of `pending`, the connection it belongs to -/
  origins : List Nat := []
  /-- nothing was left in `m_recvBuffer` when the connection was established -/
  fresh : Bool := false
  /-- `mining.subscribe` was answered with success on the connection -/
  subscribed : Bool := false
  /-- `mining.authorize` was sent on the connection -/
  requested : Bool := false
  /-- `mining.authorize` was answered with success on the connection -/
  authorized : Bool := false

namespace LoginRecord

/-- The connection that the operation of an event belongs to. -/
def origin (r : LoginRecord) : Event → Option Nat
  | .complete i _ => r.origins[i]?
  | _ => none

/-- The message of an event was received on the current connection. -/
def own (r : LoginRecord) (e : Event) : Bool := r.fresh && decide (r.origin e = some r.connection)

/-- The operation of an event is over. -/
def rest (r : LoginRecord) : Event → List Nat
  | .complete i _ => r.origins.eraseIdx i
  | _ => r.origins

/-- A message belongs to the connection of the read that it came with, and all other operations to
the connection they are started on. -/
def originOf (r : LoginRecord) (e : Event) (connection : Nat) : Pending → Nat
  | .response _ => (r.origin e).getD connection
  | _ => connection

/-- The operations after an event with the connections they belong to. -/
def nextOrigins (r : LoginRecord) (e : Event) (t : State) (connection : Nat) : List Nat :=
  r.rest e ++ (t.pending.drop (r.rest e).length).map (r.originOf e connection)

def note (r : LoginRecord) (s : State) (e : Event) (t : State) : LoginRecord :=
  if s.establishes e then
    { connection := r.connection + 1
      origins := r.nextOrigins e t (r.connection + 1)
      fresh := s.recv.buffer.isEmpty }
  else
    let r' := { r with origins := r.nextOrigins e t r.connection }
    match s.deed e with
    | .login true _ =>
      { r' with
        subscribed := r.subscribed || r.own e
        requested := r.requested || s.isConnected }
    | .authorization true => { r' with authorized := r.authorized || r.own e && r.requested }
    | _ => r'

end LoginRecord

/-- The runs of the client with the login on the current connection. -/
def loginSystem : Machine (State × LoginRecord) Event Fault := system.recorded {} LoginRecord.note

/-- An answer that logs in was received on the current connection, after the request it answers was
sent on it, and not from a proxy; and a connection is established only after a logout. -/
def punctual (x : State × LoginRecord) (e : Event) : Bool :=
  (!x.1.establishes e || !x.1.flags.subscribed && !x.1.flags.authorized) &&
    match x.1.deed e with
    | .login true proxy => !proxy && x.2.own e
    | .authorization true => x.2.own e && x.2.requested
    | _ => true

section Flags
variable {s t : State} {e : Event}

/-- Only an answer to `mining.subscribe` sets `m_subscribed`. -/
theorem subscribed_of_step (hlogin : ∀ proxy, s.deed e ≠ .login true proxy)
    (hstep : step s e = some (.ok t)) (h : t.flags.subscribed = true) :
    s.flags.subscribed = true := by
  have hallowed : (s.deed e).Allowed fun s t : State =>
      t.flags.subscribed = true → s.flags.subscribed = true := by
    cases hdeed : s.deed e with
    | login isSuccess proxy =>
      cases isSuccess with
      | false => exact ⟨fun _ => nofun, nofun⟩
      | true => exact absurd hdeed (hlogin proxy)
    | authorization isSuccess => exact ⟨fun _ h => h, fun _ _ h => h⟩
    | job jPrm | difficulty => exact fun _ _ h => h
    | other => trivial
  exact loginFlag_of_step (f := View.subscribed) ⟨fun _ _ _ _ _ => rfl, fun _ => rfl⟩ hstep hallowed
    (fun _ _ h => h) h

/-- Only an answer to `mining.authorize`, or to the login of a proxy, sets `m_authorized`. -/
theorem authorized_of_step (hauthorization : s.deed e ≠ .authorization true)
    (hlogin : s.deed e ≠ .login true true) (hstep : step s e = some (.ok t))
    (h : t.flags.authorized = true) : s.flags.authorized = true := by
  have hallowed : (s.deed e).Allowed fun s t : State =>
      t.flags.authorized = true → s.flags.authorized = true := by
    cases hdeed : s.deed e with
    | login isSuccess proxy =>
      refine ⟨fun _ h => h, fun hsuccess hproxy => ?_⟩
      rw [hsuccess, hproxy] at hdeed
      exact absurd hdeed hlogin
    | authorization isSuccess =>
      cases isSuccess with
      | false => exact ⟨fun _ => nofun, nofun⟩
      | true => exact absurd hdeed hauthorization
    | job jPrm | difficulty => exact fun _ _ h => h
    | other => trivial
  exact loginFlag_of_step (f := View.authorized) ⟨fun _ _ _ _ _ => rfl, fun _ => rfl⟩ hstep hallowed
    (fun _ _ h => h) h

theorem deed_of_establishes (h : s.establishes e = true) : s.deed e = .other := by
  unfold State.establishes at h
  split at h
  next => rfl
  next => cases h

theorem deref_eq_ok {p : Option Nat} {i : Nat} (h : State.deref p = .ok i) : p = some i := by
  cases p with
  | none => cases h
  | some j =>
    cases h
    rfl

end Flags

section Origins
variable {s t : State} {e : Event} {r : LoginRecord}

theorem tolerant_pending : Tolerant fun s t : State => ∃ ps, t.pending = s.pending ++ ps where
  trans := by
    rintro s t u ⟨ps, hps⟩ ⟨qs, hqs⟩
    exact ⟨ps ++ qs, by rw [hqs, hps, List.append_assoc]⟩
  frame hview := ⟨[], (congrArg View.pending hview).trans (List.append_nil _).symm⟩
  post _ p := ⟨[p], rfl⟩
  clear _ := ⟨[], (List.append_nil _).symm⟩
  enqueue _ _ := ⟨[], (List.append_nil _).symm⟩
  logout _ := ⟨[], (List.append_nil _).symm⟩
  elapse _ _ := ⟨[], (List.append_nil _).symm⟩

/-- Operations are added at the end of `pending`. -/
theorem pending_of_step (hstep : step s e = some (.ok t)) :
    ∃ ps, t.pending = (s.taken e).pending ++ ps := by
  have hsame (s : State) : ∃ ps, s.pending = s.pending ++ ps := ⟨[], (List.append_nil _).symm⟩
  obtain ⟨p, hp⟩ := account_eq (s.receives e) (s.taken e)
  have hafter := tolerant_pending.step_of_allowed hstep
    (Deed.allowed (fun s _ _ _ _ => hsame s) _) (fun _ s _ => hsame s) fun _ s => hsame s
  rw [hp] at hafter
  exact hafter

end Origins

/-- The flags are those of the login on the current connection. -/
structure LoginRecord.Backs (r : LoginRecord) (s : State) : Prop where
  subscribed : s.flags.subscribed = true → r.subscribed = true
  authorized : s.flags.authorized = true → r.authorized = true

theorem backs_step {s t : State} {r : LoginRecord} {e : Event} (h : r.Backs s)
    (he : punctual (s, r) e = true) (hstep : step s e = some (.ok t)) : (r.note s e t).Backs t := by
  rw [punctual, Bool.and_eq_true, Bool.or_eq_true, Bool.not_eq_true'] at he
  obtain ⟨hout, hown⟩ := he
  rw [LoginRecord.note]
  split
  next hestablishes =>
    -- A new connection starts logged out.
    have hother := deed_of_establishes hestablishes
    have hflags := hout.resolve_left fun hnot => absurd (hnot.symm.trans hestablishes) (by decide)
    rw [Bool.and_eq_true, Bool.not_eq_true', Bool.not_eq_true'] at hflags
    refine ⟨fun hsub => ?_, fun hauth => ?_⟩
    · have hsub' := subscribed_of_step (by simp [hother]) hstep hsub
      exact absurd (hflags.1.symm.trans hsub') (by decide)
    · have hauth' := authorized_of_step (by simp [hother]) (by simp [hother]) hstep hauth
      exact absurd (hflags.2.symm.trans hauth') (by decide)
  next =>
    dsimp only at hown ⊢
    split
    next proxy hdeed =>
      rw [hdeed] at hown
      dsimp only at hown
      rw [Bool.and_eq_true, Bool.not_eq_true'] at hown
      refine ⟨fun _ => ?_, fun hauth => h.authorized ?_⟩
      · rw [hown.2, Bool.or_true]
      · exact authorized_of_step (by simp [hdeed]) (by simp [hdeed, hown.1]) hstep hauth
    next hdeed =>
      rw [hdeed] at hown
      dsimp only at hown
      refine ⟨fun hsub => h.subscribed ?_, fun _ => ?_⟩
      · exact subscribed_of_step (by simp [hdeed]) hstep hsub
      · dsimp only
        rw [hown, Bool.or_true]
    next hlogin hauthorization =>
      refine ⟨fun hsub => h.subscribed ?_, fun hauth => h.authorized ?_⟩
      · exact subscribed_of_step hlogin hstep hsub
      · exact authorized_of_step hauthorization (hlogin true) hstep hauth

/-- As long as the answers of a login come on the current connection and after their requests, and a
connection starts logged out, the client is logged in only after both requests were answered with
success on the current connection, and submits nothing before. -/
theorem login_before_submission {s : State} {r : LoginRecord}
    (h : loginSystem.Reachable (fun x e => punctual x e = true) (s, r)) :
    (s.flags.subscribed = true → s.flags.authorized = true →
        r.subscribed = true ∧ r.authorized = true) ∧
      ∀ solution, (submission s solution).isSome → r.subscribed = true ∧ r.authorized = true := by
  have hbacks : r.Backs s := Machine.Reachable.recorded_invariant (I := fun s r => r.Backs s) h
    (fun s ⟨cfg, connections, maxTries, failoverTimeout, _, _, hs⟩ => by
      subst hs
      exact ⟨nofun, nofun⟩)
    fun _ _ _ _ hbacks he hstep => backs_step hbacks he hstep
  refine ⟨fun hsub hauth => ⟨hbacks.subscribed hsub, hbacks.authorized hauth⟩, fun solution hs => ?_⟩
  obtain ⟨jReq, hsubmission⟩ := Option.isSome_iff_exists.mp hs
  obtain ⟨-, hsub, hauth⟩ := isConnected_of_submission hsubmission
  exact ⟨hbacks.subscribed hsub, hbacks.authorized hauth⟩

/-- A pool that answers the login, and then sends a job. -/
theorem login_before_submission_job :
    ∃ (s : State) (r : LoginRecord) (solution : Solution),
      (submission s solution).isSome = true ∧ r.subscribed = true ∧ r.authorized = true := by
  have hmeets : loginSystem.Meets (fun x e => punctual x e = true)
      (scriptedClient loginScript [poolOn "a" .none], {})
      (connecting ++ message 0 ++ message 1 ++ message 2) := by decide +kernel
  obtain ⟨⟨s, r⟩, hsteps, hs⟩ := Machine.steps_of_endsIn (M := loginSystem)
    (p := fun x => (submission x.1 ⟨workNamed "job" "ab"⟩).isSome) hmeets (by decide +kernel)
  have hreach := Machine.Steps.reachable_recorded (initial_scriptedClient (by simp)) hsteps
  exact ⟨s, r, _, hs, (login_before_submission hreach).2 _ hs⟩

/-- The pool sends an answer to `mining.authorize` before it answers `mining.subscribe`: a share is
submitted while the request that is sent then is not answered. -/
theorem submission_before_authorization :
    Initial (scriptedClient loginScript [poolOn "a" .none]) ∧
      loginSystem.endsIn (fun x => x.1.flags.subscribed && x.1.flags.authorized &&
          !x.2.authorized && (submission x.1 ⟨workNamed "job" "ab"⟩).isSome &&
          x.1.uri?.any (fun u => decide (u.stratumMode = ENERGISTRATUM)) &&
          decide (x.1.pleas.unanswered = [⟨some 3, 0⟩]))
        (scriptedClient loginScript [poolOn "a" .none], {})
        (connecting ++ message 1 ++ message 0 ++ message 2) = true :=
  ⟨initial_scriptedClient (by simp), by decide +kernel⟩

end Energiminer.Stratum
