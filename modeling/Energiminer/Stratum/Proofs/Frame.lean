import Energiminer.Stratum.Link
import Energiminer.Stratum.Proofs.Responses

/-!
# What messages leave alone

`processResponse` and everything else that only talks over a connection do not move it, and do not
touch the list of pools. What they use of sockets and pools is there if the connection is ready and
the manager's index is in range.
-/

namespace Energiminer.Stratum
open Misc Misc.Json Misc.Except Primitives

/-- The manager's index is in range. -/
def State.IndexOk (s : State) : Prop := s.manager.activeConnectionIdx < s.connections.length

/-- Neither the connection nor the list of pools has moved. -/
structure Frame (s t : State) : Prop where
  link : t.link = s.link
  matched : s.link.Ready → s.sock.matched → t.sock.matched
  index : t.manager.activeConnectionIdx = s.manager.activeConnectionIdx
  length : t.connections.length = s.connections.length

/-- The fault is none that a ready connection and an index in range exclude. -/
structure Excused (s : State) (f : Fault) : Prop where
  socket : f = .nullSocket → ¬ s.link.Ready
  index : f = .badIndex → ¬ s.IndexOk

/-- The handler leaves the connection and the list of pools alone. -/
def Steady (s : State) (r : Except Fault State) : Prop := Ensures (Excused s) (Frame s) r

section Rules
variable {s t u : State} {α : Type}

theorem Frame.refl (s : State) : Frame s s := ⟨rfl, fun _ h => h, rfl, rfl⟩

theorem Frame.trans (hst : Frame s t) (htu : Frame t u) : Frame s u where
  link := htu.link.trans hst.link
  matched hready hmatched := htu.matched (hst.link ▸ hready) (hst.matched hready hmatched)
  index := htu.index.trans hst.index
  length := htu.length.trans hst.length

theorem Frame.indexOk (h : Frame s t) : t.IndexOk ↔ s.IndexOk := by
  rw [State.IndexOk, h.index, h.length, State.IndexOk]

theorem Excused.of_frame {f : Fault} (h : Excused t f) (hst : Frame s t) : Excused s f where
  socket hf := hst.link ▸ h.socket hf
  index hf := hst.indexOk.not.mp (h.index hf)

/-- A fault that has nothing to do with sockets or the manager's index. -/
theorem excused_of_ne {f : Fault} (hsocket : f ≠ .nullSocket) (hindex : f ≠ .badIndex) :
    Excused s f := ⟨fun h => absurd h hsocket, fun h => absurd h hindex⟩

theorem Steady.of_frame {r : Except Fault State} (h : Steady t r) (hst : Frame s t) :
    Steady s r := by
  cases r with
  | ok u => exact hst.trans h
  | error f => exact Excused.of_frame h hst

theorem Steady.bind {x : Except Fault State} {f : State → Except Fault State} (hx : Steady s x)
    (hf : ∀ t, Steady t (f t)) : Steady s (x >>= f) := by
  cases x with
  | ok t => exact (hf t).of_frame hx
  | error f => exact hx

theorem steady_uri_bind {f : Uri → Except Fault State}
    (hf : ∀ v, t.uri? = some v → Steady s (f v)) : Steady s (t.uri >>= f) := by
  rw [State.uri]
  cases h : t.uri? with
  | none => exact excused_of_ne (by decide) (by decide)
  | some v => exact hf v h

theorem link_post_none {p : Pending} (h : p.token = none) : (s.post p).link = s.link := by
  simp [State.link, State.post, State.tokens, State.uri?, h]

theorem link_post_some {p : Pending} {tk : Token} (h : p.token = some tk) :
    (s.post p).link = { s.link with tokens := tk ::ₘ s.link.tokens } := by
  simp [State.link, State.post, State.tokens, State.uri?, h, Multiset.cons_coe]

theorem link_modifyUri {f : Uri → Uri} (hf : ∀ v, (f v).pool = v.pool) :
    (s.modifyUri f).link = s.link := by
  have hpool : (s.modifyUri f).uri?.map Uri.pool = s.uri?.map Uri.pool := by
    rw [State.uri?_modifyUri, Option.map_map]
    exact congrArg (Option.map · s.uri?) (funext hf)
  rw [State.link, hpool, State.modifyUri]
  cases s.conn <;> rfl

theorem frame_post {p : Pending} (h : p.token = none) : Frame s (s.post p) :=
  ⟨link_post_none h, fun _ h => h, rfl, rfl⟩

theorem frame_modifyUri {f : Uri → Uri} (hf : ∀ v, (f v).pool = v.pool) :
    Frame s (s.modifyUri f) where
  link := link_modifyUri hf
  matched _ h := by
    rw [State.modifyUri]
    cases s.conn <;> exact h
  index := by
    rw [State.modifyUri]
    cases s.conn <;> rfl
  length := by
    rw [State.modifyUri]
    cases s.conn
    · rfl
    · exact List.length_modify _ _ _

end Rules

section Use
variable {s : State} {u : Uri}

theorem chosen_eq (s : State) (u : Uri) : s.chosen u = s.link.ptr.chosen u.secure := rfl

theorem Link.Ready.ok (h : s.link.Ready) (hu : s.uri? = some u) (hsocket : s.sock.socket.isSome) :
    s.link.ptr.Ok u.secure :=
  h.same u.pool (by rw [State.link, hu]; rfl) hsocket

theorem socketOk_of_ok (h : s.link.ptr.Ok u.secure) : s.socketOk u = true := by
  rw [State.socketOk, chosen_eq]
  exact Bool.and_eq_true_iff.mpr ⟨h.set, decide_eq_true h.same⟩

theorem matched_markUse (h : s.link.ptr.Ok u.secure) (hm : s.sock.matched) :
    (s.markUse u).sock.matched = true := by
  rw [State.markUse, socketOk_of_ok h, hm]
  rfl

theorem frame_markUse (hu : s.uri? = some u) (h : s.link.Ready → s.sock.socket.isSome) :
    Frame s (s.markUse u) :=
  ⟨rfl, fun hready hm => matched_markUse (hready.ok hu (h hready)) hm, rfl, rfl⟩

/-- The pointer for the pool can be used if the connection is ready and there is a socket. -/
theorem excused_deref (hu : s.uri? = some u) (h : s.link.Ready → s.sock.socket.isSome)
    (hnone : s.chosen u = none) : Excused s .nullSocket := by
  refine ⟨fun _ hready => ?_, fun h => (nomatch h)⟩
  have hset := (hready.ok hu (h hready)).set
  rw [← chosen_eq, hnone] at hset
  cases hset

theorem socket_of_connected (h : s.flags.connected = true) (hready : s.link.Ready) :
    s.sock.socket.isSome := hready.live (.inl h)

end Use

/-- A fault over a ready connection, with the manager's index in range. -/
theorem excused_of_mayFault {s : State} {f : Fault} (h : s.MayFault f) : Excused s f := by
  cases f with
  | nullSocket =>
    obtain ⟨hc, u, hu, hnone⟩ := h
    exact excused_deref hu (socket_of_connected hc) hnone
  | badIndex => exact ⟨fun h => (nomatch h), fun _ hindex => absurd hindex (Nat.not_lt.mpr h)⟩
  | _ => exact excused_of_ne (fun h => nomatch h) (fun h => nomatch h)

/-- Nothing that is done over a connection moves it. -/
theorem allows_frame : Allows Excused Frame where
  refl := Frame.refl
  trans := Frame.trans
  excused hst h := h.of_frame hst
  fault := excused_of_mayFault
  use hc hu := frame_markUse hu (socket_of_connected hc)
  talk _ _ _ _ _ := ⟨rfl, fun _ h => h, rfl, rfl⟩
  post {_ p} hp := by
    refine frame_post ?_
    cases p with
    | disconnect | read | response v => rfl
    | _ => cases hp
  enqueue _ _ := ⟨rfl, fun _ h => h, rfl, rfl⟩
  logout _ := ⟨rfl, fun _ h => h, rfl, rfl⟩
  lose _ := frame_modifyUri fun _ => rfl
  confirm _ _ := frame_modifyUri fun _ => rfl
  connected _ _ := ⟨rfl, fun _ h => h, rfl, rfl⟩

theorem steady_processResponse (s : State) (v : Value) : Steady s (processResponse s v) :=
  allows_frame.processResponse_of_pleas (fun _ _ => ⟨rfl, fun _ h => h, rfl, rfl⟩)
    (Deed.allowed (fun _ _ _ _ _ => ⟨rfl, fun _ h => h, rfl, rfl⟩) _)

end Energiminer.Stratum
