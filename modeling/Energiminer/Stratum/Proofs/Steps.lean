import Energiminer.Misc.Except
import Energiminer.Stratum.System

/-!
# Which handler runs

Every step calls one handler. What such a call returns is stated here once for each event and for each
operation that can end, and likewise what `disconnect()` and the callbacks of the manager around it do.
-/

namespace Energiminer.Stratum
open Misc Misc.Json Misc.Except Primitives

/-- The handler of an operation that ends returns `r`. -/
inductive Handling (s : State) (r : Except Fault State) : Pending → Outcome → Prop
  | resolve {host : String} {port : BitVec 16} (addresses : Option (List Nat))
    (h : resolveHandler s host port addresses = r) :
    Handling s r (.resolve host port) (.resolved addresses)
  | startConnect (h : startConnect s = r) : Handling s r .startConnect .run
  | connect (ec hec : Bool) (h : connectHandler s ec hec = r) :
    Handling s r .connect (.connected ec hec)
  | disconnect (h : disconnect s = r) : Handling s r .disconnect .run
  | shutdown (h : .ok (onShutdown s) = r) : Handling s r .shutdown .run
  | finalize (h : disconnectFinalize s = r) : Handling s r .finalize .run
  | readError (h : .ok (onRecvError s) = r) : Handling s r .read (.received true)
  | read (h : onRecv s = r) : Handling s r .read (.received false)
  | response {responseObject : Value} (h : processResponse s responseObject = r) :
    Handling s r (.response responseObject) .run

/-- The step for an event returns `r`. -/
inductive Happens (s : State) (r : Except Fault State) : Event → Prop
  | complete {i : Nat} {p : Pending} {o : Outcome} (hp : s.pending[i]? = some p)
    (h : Handling { s with pending := s.pending.eraseIdx i } r p o) : Happens s r (.complete i o)
  | segment {bytes : List Byte} (h : .ok { s with recv := s.recv.segment bytes } = r) :
    Happens s r (.segment bytes)
  | written {i : Nat} (h : .ok { s with out := s.out.completed i } = r) : Happens s r (.written i)
  | tick (harmed : s.timer = .armed) (h : workloopTimerElapsed s = r) : Happens s r .tick
  | failover (h : checkFailoverTimeout s = r) : Happens s r .failover
  | check (hphase : s.manager.phase = .start) (h : .ok (managerCheck s) = r) : Happens s r .check
  | select (hphase : s.manager.phase = .checked) (h : managerSelect s = r) : Happens s r .select
  | connect (hphase : s.manager.phase = .selected) (h : managerConnect s = r) : Happens s r .connect
  | stop (h : managerStop s = r) : Happens s r .stop
  | found {solution : Solution} (hholds : s.plant.holds solution.work = true)
    (h : onSolutionFound s solution = r) : Happens s r (.found solution)
  | elapse {ms : Nat} (h : .ok { s with clock := s.clock + ms } = r) : Happens s r (.elapse ms)

variable {s t : State} {r : Except Fault State}

theorem handling_of_handle {p : Pending} {o : Outcome} (h : handle s p o = some r) :
    Handling s r p o := by
  rw [handle.eq_def] at h
  split at h
  · exact .resolve _ (Option.some.inj h)
  · exact .startConnect (Option.some.inj h)
  · exact .connect _ _ (Option.some.inj h)
  · exact .disconnect (Option.some.inj h)
  · exact .shutdown (Option.some.inj h)
  · exact .finalize (Option.some.inj h)
  · exact .readError (Option.some.inj h)
  · exact .read (Option.some.inj (Option.ite_none_right_eq_some.mp h).2)
  · exact .response (Option.some.inj h)
  · cases h

theorem happens_of_step {e : Event} (h : step s e = some r) : Happens s r e := by
  have hguard {c : Prop} [Decidable c] {x : Except Fault State}
      (h : (if c then some x else none) = some r) : c ∧ x = r :=
    (Option.ite_none_right_eq_some.mp h).imp_right Option.some.inj
  rw [step.eq_def] at h
  cases e with
  | complete i o =>
    dsimp only at h
    rw [complete] at h
    split at h
    next p hp => exact .complete hp (handling_of_handle h)
    next => cases h
  | segment bytes => exact .segment (hguard h).2
  | written i => exact .written (Option.some.inj h)
  | tick => exact .tick (hguard h).1 (hguard h).2
  | failover => exact .failover (hguard h).2
  | check => exact .check (hguard h).1.2 (hguard h).2
  | select => exact .select (hguard h).1 (hguard h).2
  | connect => exact .connect (hguard h).1 (hguard h).2
  | stop => exact .stop (Option.some.inj h)
  | found solution => exact .found (hguard h).1 (hguard h).2
  | elapse ms => exact .elapse (Option.some.inj h)

/-! ## Disconnecting -/

/-- A call of `disconnect()` would go on. -/
def State.mayDisconnect (s : State) : Bool := s.flags.connected && !s.flags.disconnecting

/-- What a call of `disconnect()` does. -/
inductive Disconnected (s t : State) : Prop
  | ignored (hmay : s.mayDisconnect = false) (ht : t = s)
  | stuck (hmay : s.mayDisconnect = true) (hsocket : s.sock.socket = none)
    (ht : t = { s with flags.disconnecting := true })
  | shutdown {i : Nat} {u : Uri} (hmay : s.mayDisconnect = true) (hsocket : s.sock.socket = some i)
    (hu : s.uri? = some u) (hsecure : u.secure = true)
    (ht : t = ({ s with flags.disconnecting := true }.post .shutdown).enqueueResponsePlea none)
  | finalized {i : Nat} {u : Uri} (hmay : s.mayDisconnect = true) (hsocket : s.sock.socket = some i)
    (hu : s.uri? = some u) (hsecure : u.secure = false)
    (h : disconnectFinalize ({ s with flags.disconnecting := true }.closeSocket i) = .ok t)

theorem disconnected_of_eq_ok (h : disconnect s = .ok t) : Disconnected s t := by
  rw [disconnect] at h
  split at h
  next hmay =>
    refine .ignored ?_ (Except.ok.inj h).symm
    rw [State.mayDisconnect, Bool.and_eq_false_iff]
    simpa using hmay
  next hmay =>
    have hmay : s.mayDisconnect = true := by simpa [State.mayDisconnect] using hmay
    dsimp only at h
    split at h
    next hsocket => exact .stuck hmay hsocket (Except.ok.inj h).symm
    next i hsocket =>
      split at h
      next =>
        obtain ⟨u, hu, h⟩ := bind_eq_ok.mp h
        obtain ⟨j, -, h⟩ := bind_eq_ok.mp h
        have hu := State.uri_eq_ok_iff.mp hu
        split at h
        next hsecure => exact .shutdown hmay hsocket hu hsecure (Except.ok.inj h).symm
        next hsecure => exact .finalized hmay hsocket hu (Bool.eq_false_iff.mpr hsecure) h
      next => cases h

/-- The manager stands where it stood, and may have learnt of a login. -/
structure Undisturbed (m n : Manager) : Prop where
  phase : n.phase = m.phase
  maxConnectionAttempts : n.maxConnectionAttempts = m.maxConnectionAttempts
  connectionAttempt : n.connectionAttempt ≤ m.connectionAttempt

/-- A callback of the manager returns `r`, with or without a call of `disconnect()`. -/
inductive Calls (s : State) (r : Except Fault State) : Bool → Prop
  | left (running failoverArmed isMining : Bool) (h : .ok { s with
      manager.running := running, manager.failoverArmed := failoverArmed
      plant.isMining := isMining } = r) : Calls s r false
  | called (running : Bool) (g : Manager → Manager) (k : Bool → Bool)
    (hg : ∀ m, Undisturbed m (g m) ∧ (g m).activeConnectionIdx ≤ m.activeConnectionIdx)
    (h : (do
      let t ← disconnect { s with manager.running := running, manager.failoverArmed := false }
      pure { t with manager := g t.manager, plant.isMining := k t.plant.isMining }) = r) :
    Calls s r true

theorem calls_checkFailoverTimeout (h : checkFailoverTimeout s = r) :
    Calls s r (s.manager.running && decide (s.manager.activeConnectionIdx ≠ 0)) := by
  dsimp only [checkFailoverTimeout] at h
  split at h
  next hruns =>
    rw [hruns]
    exact .called s.manager.running
      (fun m => { m with activeConnectionIdx := 0, connectionAttempt := 0 }) id
      (fun m => ⟨⟨rfl, rfl, Nat.zero_le _⟩, Nat.zero_le _⟩) h
  next hruns =>
    rw [Bool.eq_false_iff.mpr hruns]
    exact .left s.manager.running false s.plant.isMining h

theorem calls_managerStop (h : managerStop s = r) :
    Calls s r (s.manager.running && s.isConnected) := by
  rw [managerStop] at h
  split at h
  next hruns =>
    rw [hruns, Bool.true_and]
    dsimp only at h
    split at h
    next hconnected =>
      rw [show s.isConnected = true from hconnected]
      exact .called false id (fun _ => false) (fun _ => ⟨⟨rfl, rfl, Nat.le_refl _⟩, Nat.le_refl _⟩) h
    next hconnected =>
      rw [show s.isConnected = false from Bool.eq_false_iff.mpr hconnected]
      exact .left false false false h
  next hruns =>
    rw [Bool.eq_false_iff.mpr hruns, Bool.false_and]
    exact .left s.manager.running s.manager.failoverArmed s.plant.isMining h

end Energiminer.Stratum
