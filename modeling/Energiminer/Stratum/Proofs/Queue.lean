import Energiminer.Stratum.Proofs.Responses
import Energiminer.Stratum.Proofs.Steps

/-!
# What leaves the queue of endpoints alone

`m_endpoint` and `m_endpoints` are touched by `connect`, `resolve_handler`, `start_connect`,
`connect_handler` and the watchdog (`StratumClient.cpp:263-440`). Every other handler keeps both,
and none of them takes an endpoint from an empty queue.
-/

namespace Energiminer.Stratum
open Misc Misc.Json Misc.Except Primitives

/-- The endpoint in use, and the queue. -/
def State.queue (s : State) : Option Endpoint × List Endpoint := (s.endpoint, s.endpoints)

/-- The computation takes no endpoint from an empty queue, and its result satisfies `Q`. -/
def Spares {α : Type} (Q : α → Prop) (x : Except Fault α) : Prop := Ensures (· ≠ .emptyQueue) Q x

/-- The handler leaves the queue `q` as it is. -/
def Leaves (q : Option Endpoint × List Endpoint) (x : Except Fault State) : Prop :=
  Spares (fun t => t.queue = q) x

section Rules
variable {α β : Type}

theorem Spares.bind {P : α → Prop} {Q : β → Prop} {x : Except Fault α} {f : α → Except Fault β}
    (hx : Spares P x) (hf : ∀ a, P a → Spares Q (f a)) : Spares Q (x >>= f) := by
  cases x with
  | error e => exact hx
  | ok a => exact hf a hx

theorem spares_error {Q : α → Prop} {e : Fault} (h : e ≠ .emptyQueue) : Spares Q (.error e) := h

theorem spares_uri (s : State) : Spares (fun u => s.uri? = some u) s.uri := by
  rw [State.uri]
  split
  next u h => exact h
  next => exact spares_error (by simp)

theorem spares_deref (p : Option Nat) : Spares (fun i => p = some i) (State.deref p) := by
  cases p with
  | none => exact spares_error (by simp)
  | some i => exact rfl

theorem spares_activeUri (s : State) : Spares (fun _ => True) s.activeUri := by
  rw [State.activeUri]
  split
  next => trivial
  next => exact spares_error (by simp)

theorem queue_modifyUri (s : State) (f : Uri → Uri) : (s.modifyUri f).queue = s.queue := by
  rw [State.modifyUri]
  cases s.conn <;> rfl

theorem queue_noteUse (s : State) : s.noteUse.queue = s.queue := by
  rw [State.noteUse]
  cases s.uri? <;> rfl

theorem queue_ensureSocket (s : State) (u : Uri) : (s.ensureSocket u).queue = s.queue := by
  rw [State.ensureSocket]
  split
  · rw [State.initSocket]
    cases u.secure <;> rfl
  · rfl

end Rules

/-- Nothing that is done over a connection touches the queue. -/
theorem allows_queue : Allows (fun _ f => f ≠ .emptyQueue) fun s t => t.queue = s.queue where
  refl _ := rfl
  trans hst htu := htu.trans hst
  excused _ h := h
  fault := by
    rintro s f hf rfl
    exact hf
  use _ _ := rfl
  talk _ _ _ _ _ := rfl
  post _ := rfl
  enqueue _ _ := rfl
  logout _ := rfl
  lose s := queue_modifyUri s _
  confirm _ _ := queue_modifyUri _ _
  connected _ _ := rfl

theorem leaves_processResponse (s : State) (responseObject : Value) :
    Leaves s.queue (processResponse s responseObject) :=
  allows_queue.processResponse_of_pleas (fun _ _ => rfl) (Deed.allowed (fun _ _ _ _ _ => rfl) _)

section Connection
variable {s : State} {q : Option Endpoint × List Endpoint}

theorem leaves_recvSocketData (h : s.queue = q) : Leaves q (recvSocketData s) :=
  (spares_uri _).bind fun _ _ => (spares_deref _).bind fun _ _ => (queue_noteUse s).trans h

theorem leaves_login (h : s.queue = q) : Leaves q (login s) :=
  (leaves_recvSocketData h).bind fun _ ht =>
    (spares_uri _).bind fun _ _ => ht ▸ allows_queue.sendSocketData _ _

theorem queue_loginMode (s : State) (u : Uri) : (loginMode s u).queue = s.queue := by
  rw [loginMode]
  split
  · exact queue_modifyUri s _
  · split
    · exact queue_modifyUri s _
    · rfl

theorem leaves_releaseSockets (h : s.queue = q) (u : Uri) : Leaves q (releaseSockets s u) := by
  rw [releaseSockets]
  split
  · exact (spares_deref _).bind fun i _ => h
  · cases hp : s.sock.nonsecure with
    | none | some i => exact h

theorem leaves_disconnectFinalize (h : s.queue = q) : Leaves q (disconnectFinalize s) := by
  refine (spares_uri _).bind fun u _ => ?_
  refine (leaves_releaseSockets ((queue_noteUse s).trans h) u).bind fun t ht => ?_
  have hoffline : t.offline.queue = q := ht
  dsimp only
  split
  · exact (queue_modifyUri t.offline _).trans hoffline
  · split
    · exact (queue_modifyUri t.offline _).trans hoffline
    · exact hoffline

theorem leaves_disconnect (h : s.queue = q) : Leaves q (disconnect s) := by
  rw [disconnect]
  split
  · exact h
  · dsimp only
    split
    · exact h
    · split
      · refine (spares_uri _).bind fun u _ => (spares_deref _).bind fun _ _ => ?_
        split
        · exact h
        · exact leaves_disconnectFinalize h
      · exact spares_error (by simp)

end Connection

section Manager
variable {s : State} {q : Option Endpoint × List Endpoint}

theorem queue_managerCheck (s : State) : (managerCheck s).queue = s.queue := by
  rw [managerCheck]
  split <;> rfl

theorem leaves_managerSelect (h : s.queue = q) : Leaves q (managerSelect s) := by
  have hdiscard : Leaves q (discardPool s) := by
    refine (spares_activeUri _).bind fun u _ => ?_
    split
    · exact h
    · exact h
  refine hdiscard.bind fun t ht => (spares_activeUri _).bind fun u _ => ?_
  have hrotate : (rotatePools t).queue = q := by
    rw [rotatePools]
    split
    · exact ht
    · exact ht
  split
  · exact hrotate
  · exact hrotate

theorem leaves_of_calls {r : Except Fault State} {b : Bool} (h : Calls s r b) : Leaves s.queue r := by
  cases h with
  | left _ _ _ h => exact h ▸ rfl
  | called running g k _ h => exact h ▸ (leaves_disconnect rfl).bind fun t ht => ht

end Manager

end Energiminer.Stratum
