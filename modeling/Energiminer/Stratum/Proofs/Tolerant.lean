import Energiminer.Stratum.Proofs.Responses
import Energiminer.Stratum.Proofs.Steps

/-!
# What a step can do to the login, the pleas, the job and the timer

All that a step without a message does to the login, the pleas, the job and the timer is to log
out, to enqueue or clear pleas, to post handlers and to set the timer. A relation that tolerates
these therefore relates the ends of every such step, and those of a step with a message if it allows
the message's deed.
-/

namespace Energiminer.Stratum
open Misc Misc.Json Misc.Except Primitives

/-- What is looked at. -/
structure View where
  subscribed : Bool
  authorized : Bool
  current : Work
  currentTimestamp : Nat
  delivered : List Work
  work : Work
  pleas : Pleas
  timer : WorkloopTimer
  pending : List Pending
  clock : Nat

def State.view (s : State) : View where
  subscribed := s.flags.subscribed
  authorized := s.flags.authorized
  current := s.job.current
  currentTimestamp := s.job.currentTimestamp
  delivered := s.plant.delivered
  work := s.plant.work
  pleas := s.pleas
  timer := s.timer
  pending := s.pending
  clock := s.clock

/-- The relation tolerates what happens without a message. -/
structure Tolerant (R : State → State → Prop) : Prop where
  trans : ∀ {s t u}, R s t → R t u → R s u
  /-- a change of anything that is not looked at -/
  frame : ∀ {s t}, t.view = s.view → R s t
  post : ∀ s p, R s (s.post p)
  clear : ∀ s, R s s.clearResponsePleas
  enqueue : ∀ s request, R s (s.enqueueResponsePlea request)
  logout : ∀ s, R s { s with flags.subscribed := false, flags.authorized := false }
  elapse : ∀ s ms, R s { s with clock := s.clock + ms }

/-- What is kept of the pools. -/
structure PoolView where
  connections : List Uri
  conn : Option Nat
  canconnect : Bool
  manager : Manager

def State.pools (s : State) : PoolView where
  connections := s.connections
  conn := s.conn
  canconnect := s.flags.canconnect
  manager := s.manager

/-- The relation tolerates what happens without a message, as long as no connection is established or
ended and the manager does nothing. It may also look at the pools. -/
structure Closed (R : State → State → Prop) : Prop where
  trans : ∀ {s t u}, R s t → R t u → R s u
  /-- a change of anything that is not looked at -/
  frame : ∀ {s t}, t.view = s.view → t.pools = s.pools → R s t
  post : ∀ s p, R s (s.post p)
  clear : ∀ s, R s s.clearResponsePleas
  enqueue : ∀ s request, R s (s.enqueueResponsePlea request)
  logout : ∀ s, R s { s with flags.subscribed := false, flags.authorized := false }
  elapse : ∀ s ms, R s { s with clock := s.clock + ms }
  /-- the pool is given up -/
  lose : ∀ s, R s s.markUnrecoverable
  /-- the mode of the pool is confirmed -/
  confirm : ∀ {s u}, s.uri? = some u → u.stratumMode ≤ ENERGISTRATUM →
    R s (s.setStratumMode u.stratumMode true)
  /-- the manager learns of a login -/
  connected : ∀ s armed, R s { s with
    manager.connectionAttempt := 0, manager.failoverArmed := armed }

/-- The relation allows the timer to be set. -/
def SetsTimer (R : State → State → Prop) : Prop := ∀ s τ, R s { s with timer := τ }

/-- The relation allows the miners to be suspended. -/
def Suspends (R : State → State → Prop) : Prop := ∀ s, R s { s with plant := s.plant.resetWork }

/-- The result of a handler, if there is one, is related to the state before. -/
def Relates (R : State → State → Prop) (s : State) (r : Except Fault State) : Prop :=
  Ensures (fun _ => True) (R s) r

section Rules
variable {R : State → State → Prop} {s t u : State} {r : Except Fault State} {α : Type}

/-- A fault leaves nothing to show. -/
theorem relates_bind {x : Except Fault α} {f : α → Except Fault State}
    (hf : ∀ a, x = .ok a → Relates R s (f a)) : Relates R s (x >>= f) := by
  cases x with
  | error _ => trivial
  | ok a => exact hf a rfl

namespace Closed
variable (hR : Closed R)
include hR

theorem refl (s : State) : R s s := hR.frame rfl rfl

theorem framed (h : R t u) (hview : t.view = s.view) (hpools : t.pools = s.pools) : R s u :=
  hR.trans (hR.frame hview hpools) h

theorem after (h : Relates R t r) (hst : R s t) : Relates R s r := h.mono fun _ htu => hR.trans hst htu

theorem bind {x : Except Fault State} {f : State → Except Fault State} (hx : Relates R s x)
    (hf : ∀ t, Relates R t (f t)) : Relates R s (x >>= f) := by
  cases x with
  | error _ => trivial
  | ok t => exact hR.after (hf t) hx

end Closed

namespace Tolerant
variable (hR : Tolerant R)
include hR

theorem modifyUri (s : State) (f : Uri → Uri) : R s (s.modifyUri f) := by
  rw [State.modifyUri]
  split
  · exact hR.frame rfl
  · exact hR.frame rfl

/-- A relation that does not look at the pools. -/
theorem closed : Closed R where
  trans := hR.trans
  frame hview _ := hR.frame hview
  post := hR.post
  clear := hR.clear
  enqueue := hR.enqueue
  logout := hR.logout
  elapse := hR.elapse
  lose s := hR.modifyUri s _
  confirm _ _ := hR.modifyUri _ _
  connected _ _ := hR.frame rfl

end Tolerant

end Rules

section Connection
variable {R : State → State → Prop}

namespace Closed
variable (hR : Closed R)
include hR

/-- Over a connection nothing else is done. -/
theorem allows : Allows (fun _ _ => True) R where
  refl := hR.refl
  trans := hR.trans
  excused _ _ := trivial
  fault _ := trivial
  use _ _ := hR.frame rfl rfl
  talk _ _ _ _ _ := hR.frame rfl rfl
  post _ := hR.post _ _
  enqueue := hR.enqueue
  logout := hR.logout
  lose := hR.lose
  confirm := hR.confirm
  connected s armed := hR.framed (s := s) (t := { s with plant.isMining := true })
    (hR.connected _ armed) rfl rfl

theorem noteUse (s : State) : R s s.noteUse := by
  rw [State.noteUse]
  split
  · exact hR.frame rfl rfl
  · exact hR.frame rfl rfl

theorem ensureSocket (s : State) (u : Uri) : R s (s.ensureSocket u) := by
  rw [State.ensureSocket]
  split
  · rw [State.initSocket]
    dsimp only
    split
    · exact hR.frame rfl rfl
    · exact hR.frame rfl rfl
  · exact hR.refl s

theorem resolveHandler (s : State) (host : String) (port : BitVec 16)
    (addresses : Option (List Nat)) : Relates R s (resolveHandler s host port addresses) := by
  cases addresses with
  | some addresses => exact hR.framed (hR.post _ _) rfl rfl
  | none => exact relates_bind fun _ _ => hR.frame rfl rfl

theorem startConnectTo (s : State) (e : Endpoint) : Relates R s (startConnectTo s e) := by
  refine relates_bind fun u _ => ?_
  have hfirst : R s { s with endpoint := some e, flags.connecting := true } := hR.frame rfl rfl
  have hclear := hR.trans (hR.trans hfirst (hR.ensureSocket _ u)) (hR.clear _)
  have hnote := hR.trans (hR.trans hclear (hR.enqueue _ none)) (hR.noteUse _)
  exact hR.after (relates_bind fun i _ => hR.framed (hR.post _ _) rfl rfl) hnote

theorem startConnect (s : State) : Relates R s (startConnect s) := by
  rw [Stratum.startConnect]
  split
  · exact hR.refl s
  · split
    · exact hR.startConnectTo s _
    · exact relates_bind fun _ _ => hR.refl s

theorem recvSocketData (s : State) : Relates R s (recvSocketData s) :=
  relates_bind fun _ _ => relates_bind fun _ _ => hR.trans (hR.noteUse s) (hR.post _ _)

theorem login (s : State) : Relates R s (login s) :=
  hR.bind (hR.recvSocketData s) fun t => relates_bind fun _ _ => hR.allows.sendSocketData t _

theorem dropEndpoint (s : State) : Relates R s (dropEndpoint s) := by
  rw [Stratum.dropEndpoint, State.popEndpoint]
  split
  · trivial
  next e es _ =>
    have hpop : R s { s with endpoints := es, flags.subscribed := false, flags.authorized := false } :=
      hR.trans (hR.logout s) (hR.frame rfl rfl)
    exact hR.trans (hR.trans hpop (hR.clear _)) (hR.post _ _)

theorem responseTimeout (s : State) (u : Uri) : Relates R s (responseTimeout s u) := by
  rw [Stratum.responseTimeout]
  split
  · exact hR.trans (hR.clear s) (hR.post _ _)
  · exact hR.dropEndpoint s

theorem watchConnection (s : State) (delay : Nat) : Relates R s (watchConnection s delay) := by
  refine relates_bind fun u _ => hR.bind ?_ fun t => ?_
  · split
    · exact hR.responseTimeout s u
    · exact hR.refl s
  · split
    · exact hR.dropEndpoint t
    · exact hR.refl t

theorem workloopTimerElapsed (htimer : SetsTimer R) (s : State) :
    Relates R s (workloopTimerElapsed s) := by
  rw [Stratum.workloopTimerElapsed]
  split
  · refine relates_bind fun closed _ => ?_
    split
    · exact hR.framed (htimer _ _) rfl rfl
    · split
      · exact hR.watchConnection s _
      · exact hR.refl s
  · exact hR.refl s

theorem releaseSockets (s : State) (u : Uri) : Relates R s (releaseSockets s u) := by
  rw [Stratum.releaseSockets]
  split
  · exact relates_bind fun i _ => hR.frame rfl rfl
  · cases h : s.sock.nonsecure with
    | none | some i => exact hR.frame rfl rfl

theorem offline (s : State) : R s s.offline := hR.trans (hR.logout s) (hR.frame rfl rfl)

end Closed

namespace Tolerant
variable (hR : Tolerant R)
include hR

theorem framed {s t u : State} (h : R t u) (hview : t.view = s.view) : R s u :=
  hR.trans (hR.frame hview) h

theorem restart (htimer : SetsTimer R) (s : State) : R s s.restart :=
  hR.trans (hR.trans (htimer s .armed) (hR.logout _)) (hR.frame rfl)

theorem connect (htimer : SetsTimer R) (s : State) : Relates R s (connect s) := by
  rw [Stratum.connect]
  split
  · exact hR.closed.refl s
  · refine relates_bind fun u _ => ?_
    have hsocket := hR.trans (hR.restart htimer s) (hR.closed.ensureSocket s.restart u)
    exact hR.trans hsocket (hR.framed (hR.post _ _) rfl)

theorem disconnectFinalize (htimer : SetsTimer R) (s : State) :
    Relates R s (disconnectFinalize s) := by
  refine relates_bind fun u _ => ?_
  refine hR.closed.bind (hR.closed.after (hR.closed.releaseSockets _ u) (hR.closed.noteUse s)) fun t => ?_
  refine hR.closed.after ?_ (hR.closed.offline t)
  dsimp only
  split
  · exact hR.trans (hR.modifyUri _ _) (hR.post _ _)
  · split
    · exact hR.trans (hR.trans (hR.modifyUri _ _) (hR.clear _)) (htimer _ _)
    · exact hR.trans (hR.clear _) (htimer _ _)

theorem disconnect (htimer : SetsTimer R) (s : State) : Relates R s (disconnect s) := by
  rw [Stratum.disconnect]
  split
  · exact hR.closed.refl s
  · dsimp only
    split
    · exact hR.frame rfl
    · split
      · refine relates_bind fun u _ => relates_bind fun _ _ => ?_
        split
        · exact hR.framed (hR.trans (hR.post _ _) (hR.enqueue _ _)) rfl
        · exact hR.closed.after (hR.disconnectFinalize htimer _) (hR.frame rfl)
      · trivial

theorem loginMode (s : State) (u : Uri) : R s (loginMode s u) := by
  rw [Stratum.loginMode]
  split
  · exact hR.modifyUri s _
  · split
    · exact hR.modifyUri s _
    · exact hR.closed.refl s

theorem enter (s : State) (u : Uri) : R s (s.enter u) := hR.framed (hR.clear _) rfl

theorem connectHandler (s : State) (ec hec : Bool) : Relates R s (connectHandler s ec hec) := by
  have hnote : R s ({ s with flags.connecting := false } : State).noteUse :=
    hR.framed (hR.closed.noteUse _) rfl
  refine hR.closed.after (relates_bind fun i _ => ?_) hnote
  split
  · rw [State.popEndpoint]
    split
    · trivial
    · exact hR.framed (hR.post _ _) rfl
  · refine relates_bind fun u _ => relates_bind fun _ _ => ?_
    split
    · exact hR.framed (hR.closed.allows.giveUp _) rfl
    · exact hR.closed.after (hR.closed.login _) (hR.trans (hR.enter _ u) (hR.loginMode _ u))

theorem rotatePools (hsuspend : Suspends R) (s : State) : R s (rotatePools s) := by
  rw [Stratum.rotatePools]
  split
  · dsimp only
    cases hmining : s.plant.isMining with
    | true => exact hR.trans (hsuspend s) (hR.frame rfl)
    | false => exact hR.frame rfl
  · exact hR.closed.refl s

theorem managerSelect (hsuspend : Suspends R) (s : State) : Relates R s (managerSelect s) := by
  refine hR.closed.bind (relates_bind fun u _ => ?_) fun t => ?_
  · split
    · exact hR.frame rfl
    · exact hR.closed.refl s
  · refine hR.closed.after (relates_bind fun u _ => ?_) (hR.rotatePools hsuspend t)
    split
    · exact hR.frame rfl
    · exact hR.frame rfl

theorem managerConnect (htimer : SetsTimer R) (s : State) : Relates R s (managerConnect s) :=
  hR.closed.bind (hR.connect htimer s) fun _ => hR.frame rfl

theorem relates_of_calls (htimer : SetsTimer R) {s : State} {r : Except Fault State} {b : Bool}
    (h : Calls s r b) : Relates R s r := by
  cases h with
  | left _ _ _ h => exact h ▸ hR.frame rfl
  | called running g k _ h =>
    exact h ▸ hR.closed.bind (hR.closed.after (hR.disconnect htimer _) (hR.frame rfl))
      fun _ => hR.frame rfl

theorem managerCheck (s : State) : R s (managerCheck s) := by
  rw [Stratum.managerCheck]
  split
  · exact hR.frame rfl
  · exact hR.closed.refl s

end Tolerant

end Connection

/-- The event may set the timer. -/
def State.touchesTimer (s : State) : Event → Bool
  | .complete i .run =>
    match s.pending[i]? with
    | some .disconnect => true
    | some .finalize => true
    | _ => false
  | .tick => true
  | .failover => true
  | .connect => true
  | .stop => true
  | _ => false

/-- The event is about the pools: a connection is made or ended, or the manager acts. -/
def State.touchesPools (s : State) : Event → Bool
  | .complete i .run =>
    match s.pending[i]? with
    | some .disconnect => true
    | some .finalize => true
    | _ => false
  | .complete _ (.connected ..) => true
  | .failover => true
  | .check => true
  | .select => true
  | .connect => true
  | .stop => true
  | _ => false

section Step
variable {R : State → State → Prop} {s : State} {e : Event} {r : Except Fault State}

namespace Closed
variable (hR : Closed R)
include hR

/-- The end of an operation that is not a message. -/
theorem handling {i : Nat} {p : Pending} {o : Outcome} (hget : s.pending[i]? = some p)
    (h : Handling { s with pending := s.pending.eraseIdx i } r p o)
    (hp : s.processed (.complete i o) = none)
    (htimer : s.touchesTimer (.complete i o) = true → SetsTimer R)
    (hpools : s.touchesPools (.complete i o) = true → Tolerant R) :
    Relates R (s.taken (.complete i o)) r := by
  cases h with
  | resolve addresses h => exact h ▸ hR.resolveHandler _ _ _ addresses
  | startConnect h => exact h ▸ hR.startConnect _
  | connect ec hec h => exact h ▸ (hpools rfl).connectHandler _ ec hec
  | disconnect h =>
    have htouches : s.touchesPools (.complete i .run) = true := by simp [State.touchesPools, hget]
    exact h ▸ (hpools htouches).disconnect (htimer (by simp [State.touchesTimer, hget])) _
  | shutdown h => exact h ▸ hR.post _ _
  | finalize h =>
    have htouches : s.touchesPools (.complete i .run) = true := by simp [State.touchesPools, hget]
    exact h ▸ (hpools htouches).disconnectFinalize (htimer (by simp [State.touchesTimer, hget])) _
  | readError h => exact h ▸ hR.allows.onRecvError _
  | read h => exact h ▸ hR.allows.onRecv _
  | response => simp [State.processed, hget] at hp

theorem step (hstep : step s e = some r) (hp : s.processed e = none)
    (htimer : s.touchesTimer e = true → SetsTimer R)
    (hpools : s.touchesPools e = true → Tolerant R) (hsuspend : e = .select → Suspends R) :
    Relates R (s.taken e) r := by
  cases happens_of_step hstep with
  | complete hget h => exact hR.handling hget h hp htimer hpools
  | segment h | written h => exact h ▸ hR.frame rfl rfl
  | tick _ h => exact h ▸ hR.workloopTimerElapsed (htimer rfl) s
  | failover h => exact (hpools rfl).relates_of_calls (htimer rfl) (calls_checkFailoverTimeout h)
  | check _ h => exact h ▸ (hpools rfl).managerCheck s
  | select _ h => exact h ▸ (hpools rfl).managerSelect (hsuspend rfl) s
  | connect _ h => exact h ▸ (hpools rfl).managerConnect (htimer rfl) s
  | stop h => exact (hpools rfl).relates_of_calls (htimer rfl) (calls_managerStop h)
  | found _ h => exact h ▸ hR.allows.onSolutionFound s _
  | elapse h => exact h ▸ hR.elapse s _

theorem step_of_allowed (h : Stratum.step s e = some r) (hallowed : (s.deed e).Allowed R)
    (htimer : s.touchesTimer e = true → SetsTimer R)
    (hpools : s.touchesPools e = true → Tolerant R) (hsuspend : e = .select → Suspends R) :
    Relates R ((s.receives e).account (s.taken e)) r := by
  rw [State.deed] at hallowed
  rw [State.receives]
  cases hp : s.processed e with
  | none => exact hR.step h hp htimer hpools hsuspend
  | some v =>
    rw [hp] at hallowed
    have hreception : s.reception v = (s.taken e).reception v := by
      rw [State.reception, State.reception, State.uri?_taken]
    have hdeed : s.deedFor v = (s.taken e).deedFor v := by
      rw [State.deedFor, State.deedFor, State.uri?_taken]
    rw [step_of_processed h hp]
    dsimp only at hallowed ⊢
    rw [hreception]
    exact hR.allows.processResponse (hdeed ▸ hallowed)

/-- A step relates its ends if the relation does not look at the pleas of an answer either. -/
theorem relates {t : State} (hpending : ∀ s ps, R s { s with pending := ps })
    (haccount : ∀ s (r : Reception), R s (r.account s)) (h : Stratum.step s e = some (.ok t))
    (hallowed : (s.deed e).Allowed R) (htimer : s.touchesTimer e = true → SetsTimer R)
    (hpools : s.touchesPools e = true → Tolerant R) (hsuspend : e = .select → Suspends R) :
    R s t := by
  obtain ⟨ps, hps⟩ := s.taken_eq e
  have hafter : R ((s.receives e).account (s.taken e)) t :=
    hR.step_of_allowed h hallowed htimer hpools hsuspend
  rw [hps] at hafter
  exact hR.trans (hR.trans (hpending s ps) (haccount _ _)) hafter

end Closed

namespace Tolerant
variable (hR : Tolerant R)
include hR

theorem step_of_allowed (h : Stratum.step s e = some r) (hallowed : (s.deed e).Allowed R)
    (htimer : s.touchesTimer e = true → SetsTimer R) (hsuspend : e = .select → Suspends R) :
    Relates R ((s.receives e).account (s.taken e)) r :=
  hR.closed.step_of_allowed h hallowed htimer (fun _ => hR) hsuspend

theorem relates {t : State} (hpending : ∀ s ps, R s { s with pending := ps })
    (haccount : ∀ s (r : Reception), R s (r.account s)) (h : Stratum.step s e = some (.ok t))
    (hallowed : (s.deed e).Allowed R) (htimer : s.touchesTimer e = true → SetsTimer R)
    (hsuspend : e = .select → Suspends R) : R s t :=
  hR.closed.relates hpending haccount h hallowed htimer (fun _ => hR) hsuspend

end Tolerant

end Step

/-! ## Relations between views -/

section Views
variable {α : Type} {R : State → State → Prop} {s t : State} {e : Event}

theorem related_account (hpleas : ∀ (s : State) p, R s { s with pleas := p }) (s : State)
    (r : Reception) : R s (r.account s) := by
  obtain ⟨p, hp⟩ := account_eq r s
  rw [hp]
  exact hpleas s p

/-- A part of the view that neither the login, the pleas, the handlers nor the time belong to. -/
def Untouched (f : View → α) : Prop :=
  ∀ (v : View) subscribed authorized pleas pending clock, f { v with
    subscribed := subscribed, authorized := authorized, pleas := pleas, pending := pending,
    clock := clock } = f v

theorem tolerant_untouched {f : View → α} (h : Untouched f) :
    Tolerant fun s t : State => f t.view = f s.view where
  trans hst htu := htu.trans hst
  frame hview := congrArg f hview
  post s _ := h s.view _ _ _ _ _
  clear s := h s.view _ _ _ _ _
  enqueue s _ := h s.view _ _ _ _ _
  logout s := h s.view _ _ _ _ _
  elapse s _ := h s.view _ _ _ _ _

/-- A step keeps such a part if its message and its timer do. -/
theorem untouched_of_step {f : View → α} (h : Untouched f) (hstep : step s e = some (.ok t))
    (hallowed : (s.deed e).Allowed fun s t : State => f t.view = f s.view)
    (htimer : s.touchesTimer e = true → SetsTimer fun s t : State => f t.view = f s.view)
    (hsuspend : e = .select → Suspends fun s t : State => f t.view = f s.view) :
    f t.view = f s.view :=
  (tolerant_untouched h).relates (fun s _ => h s.view _ _ _ _ _)
    (related_account (R := fun s t : State => f t.view = f s.view)
      fun s _ => h s.view _ _ _ _ _) hstep hallowed htimer hsuspend

/-- A flag of the login, which a logout clears. -/
structure LoginFlag (f : View → Bool) : Prop where
  kept : ∀ (v : View) work pleas pending clock,
    f { v with work := work, pleas := pleas, pending := pending, clock := clock } = f v
  cleared : ∀ v : View, f { v with subscribed := false, authorized := false } = false

theorem tolerant_loginFlag {f : View → Bool} (h : LoginFlag f) :
    Tolerant fun s t : State => f t.view = true → f s.view = true where
  trans hst htu ht := hst (htu ht)
  frame hview ht := (congrArg f hview).symm.trans ht
  post s _ ht := (h.kept s.view _ _ _ _).symm.trans ht
  clear s ht := (h.kept s.view _ _ _ _).symm.trans ht
  enqueue s _ ht := (h.kept s.view _ _ _ _).symm.trans ht
  logout s ht := absurd ((h.cleared s.view).symm.trans ht) Bool.false_ne_true
  elapse s _ ht := (h.kept s.view _ _ _ _).symm.trans ht

/-- A step sets no flag that its message and its timer do not set. -/
theorem loginFlag_of_step {f : View → Bool} (h : LoginFlag f) (hstep : step s e = some (.ok t))
    (hallowed : (s.deed e).Allowed fun s t : State => f t.view = true → f s.view = true)
    (htimer : SetsTimer fun s t : State => f t.view = true → f s.view = true)
    (ht : f t.view = true) : f s.view = true :=
  (tolerant_loginFlag h).relates (fun s _ hs => (h.kept s.view _ _ _ _).symm.trans hs)
    (related_account (R := fun s t : State => f t.view = true → f s.view = true)
      fun s _ hs => (h.kept s.view _ _ _ _).symm.trans hs) hstep hallowed (fun _ => htimer)
    (fun _ s hs => (h.kept s.view _ _ _ _).symm.trans hs) ht

end Views

end Energiminer.Stratum
