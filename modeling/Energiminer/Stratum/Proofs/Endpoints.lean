import Energiminer.Stratum.Proofs.Link

/-!
# Where the endpoints come from

`m_endpoints` collects what every resolver returns, whatever `m_conn` points to by then. As long as
the manager changes the host or the port only at rest, each endpoint in the queue is one of the pool
of `m_conn` whenever `start_connect` is due.
-/

namespace Energiminer.Stratum
open Misc Primitives

/-- The host and the port of a pool. -/
def Pool.address (p : Pool) : String × BitVec 16 := (p.host, p.port)

/-- The endpoints, and those that a resolver may still return, are of the pool. -/
def Link.Matches (l : Link) : Prop :=
  ∃ p, l.pool = some p ∧ (∀ e ∈ l.endpoints, (e.host, e.port) = p.address) ∧
    ∀ host port, .resolve host port ∈ l.tokens → (host, port) = p.address

/-- Where something is under way, the endpoints are of the pool. -/
structure Link.Addressed (l : Link) : Prop where
  connecting : l.connecting → .connect ∈ l.tokens
  here : l.AtRest ∨ l.Matches

section Tokens
variable {l : Link} {tk tk' : Token} {ts : Multiset Token}

theorem mem_rest (h : tk' ∈ l.tokens) (ht : l.tokens = tk ::ₘ ts) (hne : tk' ≠ tk) : tk' ∈ ts :=
  (Multiset.mem_cons.mp (ht ▸ h)).resolve_left hne

theorem mem_of_rest (h : tk' ∈ ts) (ht : l.tokens = tk ::ₘ ts) : tk' ∈ l.tokens :=
  ht ▸ Multiset.mem_cons_of_mem h

theorem Link.tokens_finalized (l : Link) (secure retry : Bool) :
    (l.finalized secure retry).tokens = l.tokens ∨
      (l.finalized secure retry).tokens = .startConnect ::ₘ l.tokens := by
  cases retry
  · exact .inl rfl
  · exact .inr rfl

theorem Link.mem_finalized {secure retry : Bool} (h : tk ∈ l.tokens) :
    tk ∈ (l.finalized secure retry).tokens := by
  rcases l.tokens_finalized secure retry with ht | ht
  · exact ht ▸ h
  · exact ht ▸ Multiset.mem_cons_of_mem h

theorem Link.mem_of_finalized {secure retry : Bool}
    (h : tk ∈ (l.finalized secure retry).tokens) (hne : tk ≠ .startConnect) : tk ∈ l.tokens := by
  rcases l.tokens_finalized secure retry with ht | ht
  · exact ht ▸ h
  · exact (Multiset.mem_cons.mp (ht ▸ h)).resolve_left hne

end Tokens

section Moves
variable {l l' : Link} {m : Mover}

/-- An attempt that is under way has its operation. -/
theorem Move.connecting (hmove : Move l m l') (h : l.connecting → .connect ∈ l.tokens) :
    l'.connecting → .connect ∈ l'.tokens := by
  intro hi
  cases hmove with
  | stay | select | connectBusy | disconnectStuck | dropped => exact h hi
  | connect _ hc => exact absurd (hc.symm.trans hi) (by decide)
  | resolved _ ht | shutdownDone ht =>
    exact Multiset.mem_cons_of_mem (mem_rest (h hi) ht (fun he => nomatch he))
  | resolveFailed | connectFailed | handshakeFailed | established => cases hi
  | startIgnored ht => exact mem_rest (h hi) ht (fun he => nomatch he)
  | start => exact Multiset.mem_cons_self _ _
  | shutdown => exact Multiset.mem_cons_of_mem (h hi)
  | disconnected => exact Link.mem_finalized (h hi)
  | finalize _ ht =>
    exact Link.mem_finalized (l := { l with tokens := _ }) (mem_rest (h hi) ht (fun he => nomatch he))

/-- At rest only the manager does something. -/
theorem Move.atRest (hmove : Move l m l') (h : l.AtRest) (hm : m = .other) : l' = l := by
  have hnone {tk : Token} {ts : Multiset Token} (ht : l.tokens = tk ::ₘ ts) : False :=
    Multiset.cons_ne_zero (ht.symm.trans h.2)
  have hoff (hc : l.connected = true) : False := nomatch h.1.symm.trans hc
  cases hmove with
  | stay => rfl
  | select | connectBusy | connect => cases hm
  | resolved _ ht | resolveFailed ht | startIgnored ht | start _ ht | connectFailed ht
  | handshakeFailed ht | established ht | shutdownDone ht | finalize _ ht => exact (hnone ht).elim
  | disconnectStuck hc | shutdown hc | disconnected _ hc | dropped _ hc => exact (hoff hc).elim

/-- The endpoints stay or become fewer, and no resolver is asked. -/
theorem Link.Matches.mono (h : l.Matches) (hpool : l'.pool = l.pool)
    (hendpoints : l'.endpoints ⊆ l.endpoints)
    (htokens : ∀ host port, .resolve host port ∈ l'.tokens → .resolve host port ∈ l.tokens) :
    l'.Matches := by
  obtain ⟨p, hp, he, ht⟩ := h
  exact ⟨p, hpool.trans hp, fun e hmem => he e (hendpoints hmem),
    fun host port hmem => ht host port (htokens host port hmem)⟩

/-- After one operation another one is started, which is not a resolver. -/
theorem Link.Matches.next {tk tk' : Token} {ts : Multiset Token} (h : l.Matches)
    (ht : l.tokens = tk ::ₘ ts) (hpool : l'.pool = l.pool) (hendpoints : l'.endpoints ⊆ l.endpoints)
    (ht' : l'.tokens = tk' ::ₘ ts) (hne : ∀ host port, .resolve host port ≠ tk') : l'.Matches :=
  h.mono hpool hendpoints fun host port hmem => mem_of_rest (mem_rest hmem ht' (hne host port)) ht

theorem Move.matches (hmove : Move l m l') (h : l.Matches) (hm : m ≠ .select) : l'.Matches := by
  have hsame : l.endpoints ⊆ l.endpoints := List.Subset.refl _
  cases hmove with
  | stay | connectBusy => exact h
  | select => exact absurd rfl hm
  | @connect pool _ _ hp =>
    obtain ⟨p, hp', _, ht⟩ := h
    cases hp.symm.trans hp'
    refine ⟨pool, hp, fun e he => (nomatch he), fun host port hmem => ?_⟩
    rcases Multiset.mem_cons.mp hmem with heq | hmem
    · cases heq
      rfl
    · exact ht host port hmem
  | resolved addresses ht =>
    -- The resolver was asked for the pool's host and port.
    obtain ⟨p, hp, he, hres⟩ := h
    refine ⟨p, hp, fun e hmem => ?_, fun host port hmem => ?_⟩
    · rcases List.mem_append.mp hmem with hold | hnew
      · exact he e hold
      · obtain ⟨a, _, rfl⟩ := List.mem_map.mp hnew
        exact hres _ _ (ht ▸ Multiset.mem_cons_self _ _)
    · have hrest := (Multiset.mem_cons.mp hmem).resolve_left (fun h => nomatch h)
      exact hres host port (mem_of_rest hrest ht)
  | resolveFailed ht | startIgnored ht | handshakeFailed ht | established ht =>
    exact h.mono rfl hsame fun _ _ hmem => mem_of_rest hmem ht
  | start _ ht | shutdownDone ht => exact h.next ht rfl hsame rfl fun _ _ he => nomatch he
  | connectFailed ht he =>
    exact h.next ht rfl (he ▸ List.subset_cons_self _ _) rfl fun _ _ he => nomatch he
  | disconnectStuck => exact h.mono rfl hsame fun _ _ hmem => hmem
  | shutdown =>
    exact h.mono rfl hsame fun _ _ hmem =>
      (Multiset.mem_cons.mp hmem).resolve_left (fun he => nomatch he)
  | disconnected =>
    exact h.mono rfl hsame fun _ _ hmem => Link.mem_of_finalized hmem (fun he => nomatch he)
  | finalize _ ht =>
    exact h.mono rfl hsame fun _ _ hmem =>
      mem_of_rest (Link.mem_of_finalized (l := { l with tokens := _ }) hmem (fun he => nomatch he)) ht
  | dropped n => exact h.mono rfl (List.drop_subset n _) fun _ _ hmem => hmem

/-- A selection keeps the host and the port, or nothing is under way. -/
def Link.MayRedirect (l l' : Link) : Prop :=
  l'.pool.map Pool.address = l.pool.map Pool.address ∨ l.AtRest

theorem Link.Matches.select (h : l.Matches) (hmove : Move l .select l')
    (hkeep : l'.pool.map Pool.address = l.pool.map Pool.address) : l'.Matches := by
  cases hmove with
  | select pool =>
    obtain ⟨p, hp, he, ht⟩ := h
    rw [hp] at hkeep
    obtain ⟨q, hq, heq⟩ := Option.map_eq_some_iff.mp hkeep
    exact ⟨q, hq, heq ▸ he, heq ▸ ht⟩

theorem Move.addressed (hmove : Move l m l') (h : l.Addressed)
    (hselect : m = .select → l.MayRedirect l') : l'.Addressed where
  connecting := hmove.connecting h.connecting
  here := by
    rcases h.here with hrest | hmatches
    · cases m with
      | other => exact .inl (hmove.atRest hrest rfl ▸ hrest)
      | select =>
        cases hmove
        exact .inl hrest
      | connect =>
        cases hmove with
        | connectBusy hc => exact absurd (hrest.2 ▸ h.connecting hc) (Multiset.notMem_zero _)
        | @connect pool _ _ hp =>
          refine .inr ⟨pool, hp, fun e he => (nomatch he), fun host port hmem => ?_⟩
          rw [hrest.2] at hmem
          cases Multiset.mem_singleton.mp hmem
          rfl
    · cases m with
      | other | connect => exact .inr (hmove.matches hmatches (by decide))
      | select =>
        rcases hselect rfl with hkeep | hrest
        · exact .inr (hmatches.select hmove hkeep)
        · cases hmove
          exact .inl hrest

end Moves

/-- The manager selects a pool with another host or port only at rest. -/
def Settled (s : State) : Event → Prop
  | .select => ∀ t, managerSelect s = .ok t → s.link.MayRedirect t.link
  | _ => True

theorem addressed_initial {s : State} (h : Initial s) : s.link.Addressed := by
  obtain ⟨cfg, connections, maxTries, failoverTimeout, _, _, rfl⟩ := h
  exact ⟨fun h => (nomatch h), .inl ⟨rfl, rfl⟩⟩

theorem addressed_step {s t : State} {e : Event} (h : s.link.Addressed) (he : Settled s e)
    (hstep : step s e = some (.ok t)) : t.link.Addressed := by
  have hmoved : MovedTo s.link e.mover s t := moves_step hstep
  refine hmoved.move.addressed h fun hm => ?_
  cases e <;> cases hm
  cases happens_of_step hstep with
  | select _ hselect => exact he t hselect

/-- If the manager redirects the client only at rest, then every endpoint that `start_connect` may
take is one of the host and the port that `m_conn` points to. -/
theorem endpoints_of_selected_pool {s : State} {e : Endpoint} (h : system.Reachable Settled s)
    (hstart : .startConnect ∈ s.pending) (he : e ∈ s.endpoints) :
    ∃ u, s.uri? = some u ∧ e.host = u.host ∧ e.port = u.port := by
  have haddressed : s.link.Addressed :=
    h.invariant (fun _ => addressed_initial) fun _ _ _ hs hC hstep => addressed_step hs hC hstep
  have htoken : Token.startConnect ∈ s.link.tokens :=
    Multiset.mem_coe.mpr (List.mem_filterMap.mpr ⟨_, hstart, rfl⟩)
  rcases haddressed.here with hrest | ⟨p, hp, hendpoints, _⟩
  · exact absurd (hrest.2 ▸ htoken) (Multiset.notMem_zero _)
  · obtain ⟨u, hu, rfl⟩ := Option.map_eq_some_iff.mp hp
    exact ⟨u, hu, Prod.mk.inj (hendpoints e he)⟩

/-- A resolver returns an address, and `start_connect` is due. -/
theorem endpoints_of_selected_pool_resolved :
    ∃ s : State, Endpoint.mk 1 "a" 5000 ∈ s.endpoints ∧
      ∃ u, s.uri? = some u ∧ "a" = u.host ∧ 5000 = u.port := by
  have hmeets : system.Meets Settled (silentClient [poolOn "a" .none])
      [.check, .select, .connect, .complete 0 (.resolved (some [1]))] :=
    ⟨trivial, fun _ _ => .inr ⟨rfl, rfl⟩, trivial, trivial, trivial⟩
  obtain ⟨s, hsteps, hs⟩ := Machine.steps_of_endsIn
    (p := fun s : State => decide (Endpoint.mk 1 "a" 5000 ∈ s.endpoints) &&
      decide (Token.startConnect ∈ s.pending.filterMap Pending.token)) hmeets rfl
  obtain ⟨he, htoken⟩ := Bool.and_eq_true_iff.mp hs
  obtain ⟨p, hp, hstart⟩ := List.mem_filterMap.mp (of_decide_eq_true htoken)
  cases p <;> cases hstart
  exact ⟨s, of_decide_eq_true he, endpoints_of_selected_pool
    ⟨_, initial_silentClient (by simp), hsteps⟩ hp (of_decide_eq_true he)⟩

/-- The manager goes on to the second pool while the resolver is asked for the first: its answer
comes after the second call of `connect`, and the client connects to the first pool while `m_conn`
points to the second. -/
theorem connects_to_former_pool :
    Initial (silentClient [poolOn "a" .none, poolOn "b" .none]) ∧
      system.endsIn (fun s => decide (s.endpoint.map Endpoint.host = some "a") &&
          decide (s.uri?.map Uri.host = some "b") && s.flags.connecting)
        (silentClient [poolOn "a" .none, poolOn "b" .none])
        [.check, .select, .connect, .check, .select, .connect,
          .complete 0 (.resolved (some [1])), .complete 1 .run] = true :=
  ⟨initial_silentClient (by simp), by decide⟩

end Energiminer.Stratum
