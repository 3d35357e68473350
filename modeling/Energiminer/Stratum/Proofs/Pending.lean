import Energiminer.Stratum.Proofs.Link

/-!
# The pending states end

While `m_connecting` or `m_disconnecting` is set the manager does nothing (`StratumClient.h:31-40`,
`PoolManager.cpp:120-173`), so each flag has to have something outstanding that clears it. The early
return of `disconnect()` without a socket does not break this: a client that is connected has one.
-/

namespace Energiminer.Stratum
open Misc Primitives

/-- What the pending flags wait for is under way, and a connection has a socket. -/
structure Link.Awaits (l : Link) : Prop where
  connecting : l.connecting → .connect ∈ l.tokens
  disconnecting : l.disconnecting → .shutdown ∈ l.tokens ∨ .finalize ∈ l.tokens
  socket : l.connected → l.ptr.socket.isSome

section Moves
variable {l : Link} {tk : Token} {ts : Multiset Token}

/-- An operation that ended is replaced by one that is not awaited less. -/
theorem Link.Awaits.replace (h : l.Awaits) (ht : l.tokens = tk ::ₘ ts) (htk : tk ≠ .connect)
    (hshutdown : tk ≠ .shutdown) (hfinalize : tk ≠ .finalize) {tokens : Multiset Token}
    (hts : ts ≤ tokens) : { l with tokens := tokens }.Awaits where
  connecting hc := by
    have hmem := ht ▸ h.connecting hc
    exact Multiset.mem_of_le hts ((Multiset.mem_cons.mp hmem).resolve_left htk.symm)
  disconnecting hd := by
    have hmem := ht ▸ h.disconnecting hd
    refine hmem.imp (fun hm => ?_) fun hm => ?_
    · exact Multiset.mem_of_le hts ((Multiset.mem_cons.mp hm).resolve_left hshutdown.symm)
    · exact Multiset.mem_of_le hts ((Multiset.mem_cons.mp hm).resolve_left hfinalize.symm)
  socket := h.socket

/-- The end of an attempt to connect takes away nothing that a disconnection waits for. -/
theorem Link.Awaits.of_connect (h : l.Awaits) (ht : l.tokens = .connect ::ₘ ts)
    (hd : l.disconnecting) : .shutdown ∈ ts ∨ .finalize ∈ ts := by
  have hmem := ht ▸ h.disconnecting hd
  refine hmem.imp (fun hm => ?_) fun hm => ?_
  · exact (Multiset.mem_cons.mp hm).resolve_left (by decide)
  · exact (Multiset.mem_cons.mp hm).resolve_left (by decide)

theorem Link.Awaits.finalized {secure retry : Bool} (h : l.connecting → .connect ∈ l.tokens) :
    (l.finalized secure retry).Awaits where
  connecting hc := by
    rw [Link.finalized]
    cases retry with
    | true => exact Multiset.mem_cons_of_mem (h hc)
    | false => exact h hc
  disconnecting hd := nomatch hd
  socket hc := nomatch hc

/-- Every move leaves what the flags wait for under way. -/
theorem Move.awaits {l' : Link} {m : Mover} (hmove : Move l m l') (h : l.Awaits) : l'.Awaits := by
  cases hmove with
  | stay | connectBusy => exact h
  | select pool | dropped => exact ⟨h.connecting, h.disconnecting, h.socket⟩
  | connect i =>
    exact ⟨fun hc => Multiset.mem_cons_of_mem (h.connecting hc),
      fun hd => (h.disconnecting hd).imp Multiset.mem_cons_of_mem Multiset.mem_cons_of_mem,
      fun hc => (nomatch hc)⟩
  | resolved addresses ht =>
    have hnext := h.replace ht nofun nofun nofun (Multiset.le_cons_self _ Token.startConnect)
    exact ⟨hnext.connecting, hnext.disconnecting, hnext.socket⟩
  | resolveFailed ht =>
    have hnext := h.replace ht nofun nofun nofun (le_refl _)
    exact ⟨fun hc => (nomatch hc), hnext.disconnecting, fun hc => (nomatch hc)⟩
  | startIgnored ht => exact h.replace ht nofun nofun nofun (le_refl _)
  | start i ht =>
    have hnext := h.replace ht nofun nofun nofun (Multiset.le_cons_self _ Token.connect)
    exact ⟨fun _ => Multiset.mem_cons_self _ _, hnext.disconnecting,
      fun _ => Pointers.isSome_ensure _ _ _⟩
  | connectFailed ht =>
    exact ⟨fun hc => (nomatch hc), fun hd => (h.of_connect ht hd).imp Multiset.mem_cons_of_mem
      Multiset.mem_cons_of_mem, h.socket⟩
  | handshakeFailed ht => exact ⟨fun hc => (nomatch hc), h.of_connect ht, h.socket⟩
  | established ht hs => exact ⟨fun hc => (nomatch hc), h.of_connect ht, fun _ => hs⟩
  | disconnectStuck hc hd hs =>
    -- The early return: it needs a connection without a socket.
    have hsocket := h.socket hc
    rw [hs] at hsocket
    cases hsocket
  | shutdown hc hd hp =>
    exact ⟨fun hc => Multiset.mem_cons_of_mem (h.connecting hc),
      fun _ => .inl (Multiset.mem_cons_self _ _), h.socket⟩
  | disconnected retry => exact .finalized h.connecting
  | shutdownDone ht =>
    refine ⟨fun hc => ?_, fun _ => .inr (Multiset.mem_cons_self _ _), h.socket⟩
    have hmem := ht ▸ h.connecting hc
    exact Multiset.mem_cons_of_mem ((Multiset.mem_cons.mp hmem).resolve_left (by decide))
  | finalize retry ht =>
    refine Link.Awaits.finalized (l := { l with tokens := _ }) fun hc => ?_
    have hmem := ht ▸ h.connecting hc
    exact (Multiset.mem_cons.mp hmem).resolve_left (by decide)

end Moves

theorem awaits_initial {s : State} (h : Initial s) : s.link.Awaits := by
  obtain ⟨cfg, connections, maxTries, failoverTimeout, _, _, rfl⟩ := h
  exact ⟨fun hc => (nomatch hc), fun hd => (nomatch hd), fun hc => (nomatch hc)⟩

theorem awaits_step {s t : State} {e : Event} (h : s.link.Awaits)
    (hstep : step s e = some (.ok t)) : t.link.Awaits := by
  have hmoved : MovedTo s.link e.mover s t := moves_step hstep
  exact hmoved.move.awaits h

theorem mem_pending_of_token {s : State} {p : Pending} {tk : Token} (htk : tk ∈ s.tokens)
    (hp : ∀ q : Pending, q.token = some tk → q = p) : p ∈ s.pending := by
  obtain ⟨q, hq, htoken⟩ := List.mem_filterMap.mp (Multiset.mem_coe.mp htk)
  exact hp q htoken ▸ hq

/-- Whatever the network and the manager do, an attempt to connect is outstanding while the client
is connecting, and the end of a shutdown or a posted `disconnect_finalize` while it is
disconnecting. -/
theorem pending_state_ends {s : State} (h : system.Reachable (fun _ _ => True) s) :
    (s.flags.connecting → .connect ∈ s.pending) ∧
      (s.flags.disconnecting → .shutdown ∈ s.pending ∨ .finalize ∈ s.pending) := by
  have hawaits : s.link.Awaits :=
    Machine.Reachable.invariant (I := fun s : State => s.link.Awaits) h (fun _ => awaits_initial)
      fun _ _ _ hs _ hstep => awaits_step hs hstep
  refine ⟨fun hc => ?_, fun hd => ?_⟩
  · refine mem_pending_of_token (hawaits.connecting hc) fun q hq => ?_
    cases q <;> cases hq
    rfl
  · refine (hawaits.disconnecting hd).imp (fun hm => ?_) fun hm => ?_
    · refine mem_pending_of_token hm fun q hq => ?_
      cases q <;> cases hq
      rfl
    · refine mem_pending_of_token hm fun q hq => ?_
      cases q <;> cases hq
      rfl

/-- A client that ends its encryption. -/
theorem pending_state_ends_shutdown :
    ∃ s : State, s.flags.disconnecting = true ∧ (.shutdown ∈ s.pending ∨ .finalize ∈ s.pending) := by
  obtain ⟨s, hsteps, hs⟩ := Machine.steps_of_endsIn (p := fun s : State => s.flags.disconnecting)
    (Machine.meets_true (M := system) (silentClient [poolOn "a" .tls12])
      (connecting ++ [.complete 0 (.received true), .complete 0 .run])) (by decide +kernel)
  exact ⟨s, hs, (pending_state_ends ⟨_, initial_silentClient (by simp), hsteps⟩).2 hs⟩

end Energiminer.Stratum
