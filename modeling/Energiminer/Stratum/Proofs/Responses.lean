import Energiminer.Misc.Except
import Energiminer.Stratum.Reception

/-!
# What handlers do over a connection

The changes of the state that `processResponse`, `submitSolution` and the handler of a read make,
one by one, and the faults they can end in (`StratumClient.cpp:599-1084`). A relation that allows
each of these changes relates the ends of every such handler.
-/

namespace Energiminer.Stratum
open Misc Misc.Json Misc.Except Primitives

/-- A handler that changes neither the connection nor an attempt to connect. -/
def Pending.casual : Pending → Bool
  | .disconnect => true
  | .read => true
  | .response _ => true
  | _ => false

/-- The faults that a handler can end in over a connection. -/
def State.MayFault (s : State) : Fault → Prop
  | .nullSocket => s.flags.connected = true ∧ ∃ u, s.uri? = some u ∧ s.chosen u = none
  | .badIndex => s.connections.length ≤ s.manager.activeConnectionIdx
  | .emptyQueue => False
  | .systemError => False
  | _ => True

/-- The relation `R` allows each change that is made over a connection, and `E` each fault. -/
structure Allows (E : State → Fault → Prop) (R : State → State → Prop) : Prop where
  refl : ∀ s, R s s
  trans : ∀ {s t u}, R s t → R t u → R s u
  excused : ∀ {s t f}, R s t → E t f → E s f
  fault : ∀ {s f}, s.MayFault f → E s f
  /-- the socket for the pool is used -/
  use : ∀ {s u}, s.flags.connected = true → s.uri? = some u → R s (s.markUse u)
  /-- bytes go out or come in, an extra nonce is taken, an authorization is awaited -/
  talk : ∀ (s : State) out recv extraNonce1 authpending, R s { s with
    out := out, recv := recv, job.extraNonce1 := extraNonce1, flags.authpending := authpending }
  post : ∀ {s p}, p.casual = true → R s (s.post p)
  enqueue : ∀ s request, R s (s.enqueueResponsePlea request)
  logout : ∀ s, R s { s with flags.subscribed := false, flags.authorized := false }
  /-- the pool is given up -/
  lose : ∀ s, R s s.markUnrecoverable
  /-- the mode of the pool is confirmed -/
  confirm : ∀ {s u}, s.uri? = some u → u.stratumMode ≤ ENERGISTRATUM →
    R s (s.setStratumMode u.stratumMode true)
  /-- the manager learns of a login -/
  connected : ∀ (s : State) armed, R s { s with
    manager.connectionAttempt := 0, manager.failoverArmed := armed, plant.isMining := true }

/-- The relation allows what a message does. -/
def Deed.Allowed (R : State → State → Prop) : Deed → Prop
  | .login isSuccess proxy =>
    (∀ s, R s { s with flags.subscribed := isSuccess }) ∧
      (isSuccess → proxy → (∀ s, R s { s with flags.authorized := true }) ∧ ∀ s, R s s.stamped)
  | .authorization isSuccess =>
    (∀ s, R s { s with flags.authorized := isSuccess }) ∧ (isSuccess → ∀ s, R s s.stamped)
  | .job _ => ∀ (s : State) work, R s (s.assign work)
  | .difficulty =>
    ∀ (s : State) target, R s { s with job.nextWorkTarget := target, job.current := s.job.current.reset }
  | .other => True

/-- A relation that looks neither at the login nor at the job allows every message. -/
theorem Deed.allowed {R : State → State → Prop} (h : ∀ (s : State) subscribed authorized job plant,
    R s { s with
      flags.subscribed := subscribed, flags.authorized := authorized, job := job, plant := plant })
    (d : Deed) : d.Allowed R := by
  cases d with
  | login isSuccess proxy =>
    exact ⟨fun s => h s _ _ _ _, fun _ _ => ⟨fun s => h s _ _ _ _, fun s => h s _ _ _ _⟩⟩
  | authorization isSuccess => exact ⟨fun s => h s _ _ _ _, fun _ s => h s _ _ _ _⟩
  | job jPrm | difficulty => exact fun s _ => h s _ _ _ _
  | other => trivial

/-- The handler ends in a state that `R` relates to the one before, or in a fault that `E` allows. -/
def Handles (E : State → Fault → Prop) (R : State → State → Prop) (s : State)
    (r : Except Fault State) : Prop := Ensures (E s) (R s) r

theorem connected_of_isConnected {s : State} (h : s.isConnected = true) : s.flags.connected = true :=
  (Bool.and_eq_true_iff.mp h).1

namespace Allows
variable {E : State → Fault → Prop} {R : State → State → Prop} (hR : Allows E R)
include hR

section Rules
variable {s t : State} {r : Except Fault State} {α : Type}

theorem after (h : Handles E R t r) (hst : R s t) : Handles E R s r := by
  cases r with
  | ok u => exact hR.trans hst h
  | error f => exact hR.excused hst h

theorem bind {x : Except Fault State} {f : State → Except Fault State} (hx : Handles E R s x)
    (hf : ∀ t, Handles E R t (f t)) : Handles E R s (x >>= f) := by
  cases x with
  | error f => exact hx
  | ok t => exact hR.after (hf t) hx

theorem uri_bind {f : Uri → Except Fault State} (hf : ∀ u, t.uri? = some u → Handles E R s (f u)) :
    Handles E R s (t.uri >>= f) := by
  rw [State.uri]
  cases hu : t.uri? with
  | none => exact hR.fault trivial
  | some u => exact hf u hu

theorem throws_bind {x : Except Exn α} {f : α → Except Fault State}
    (hf : ∀ a, Handles E R s (f a)) : Handles E R s (throws x >>= f) := by
  cases x with
  | error e => exact hR.fault trivial
  | ok a => exact hf a

/-- The manager's callbacks read the active pool. -/
theorem activeUri_bind {f : Uri → Except Fault State} (hf : ∀ u, Handles E R s (f u)) :
    Handles E R s (s.activeUri >>= f) := by
  rw [State.activeUri]
  split
  next u _ => exact hf u
  next hnone => exact hR.fault (s := s) (f := .badIndex) (List.getElem?_eq_none_iff.mp hnone)

theorem deref_bind {u : Uri} {f : Nat → Except Fault State} (hc : s.flags.connected = true)
    (hu : s.uri? = some u) (hf : ∀ i, Handles E R s (f i)) :
    Handles E R s (State.deref (s.chosen u) >>= f) := by
  cases hchosen : s.chosen u with
  | none => exact hR.fault (s := s) (f := .nullSocket) ⟨hc, u, hu, hchosen⟩
  | some i => exact hf i

end Rules

section Messages
variable {s : State} {u : Uri} {m : Message} {jPrm responseObject : Value}

theorem sendSocketData (s : State) (jReq : Value) : Handles E R s (sendSocketData s jReq) := by
  rw [Stratum.sendSocketData]
  split
  · exact hR.refl s
  next h =>
    have hc : s.flags.connected = true := connected_of_isConnected (by simpa using h)
    exact hR.uri_bind fun u hu => hR.deref_bind hc hu fun _ =>
      hR.trans (hR.use hc hu) (hR.talk _ _ _ _ _)

theorem onConnected (s : State) : Handles E R s (onConnected s) :=
  hR.activeUri_bind (s := s) fun _ => hR.connected s _

theorem onSolutionAnswered (s : State) : Handles E R s (onSolutionAnswered s) :=
  hR.activeUri_bind fun _ => hR.refl s

theorem announce (s : State) (u : Uri) (hstamp : ∀ s, R s s.stamped) : Handles E R s (announce s u) := by
  rw [Stratum.announce]
  split
  · exact hR.after (hR.onConnected _) (hstamp s)
  · exact hR.refl s

theorem extranonceOfResult (s : State) (jResult : Value) :
    Handles E R s (extranonceOfResult s jResult) := by
  rw [Stratum.extranonceOfResult]
  split
  · exact hR.throws_bind fun _ => hR.talk _ _ _ _ _
  · exact hR.refl s

theorem giveUp (s : State) : R s (giveUp s) := hR.trans (hR.lose s) (hR.post rfl)

theorem authorize (s : State) (u : Uri) (rpc2 : Bool) :
    Handles E R s (Stratum.sendSocketData (s.enqueueResponsePlea (some 3)) (authorizeRequest u rpc2)) :=
  hR.after (hR.sendSocketData _ _) (hR.enqueue s _)

theorem loginReply (jResult : Value) (hu : s.uri? = some u)
    (hallowed : (Deed.login m.isSuccess (decide (u.stratumMode = NRGPROXY))).Allowed R) :
    Handles E R s (loginReply s m jResult) := by
  obtain ⟨hanswered, hproxy⟩ := hallowed
  rw [Stratum.loginReply, State.uri_eq_ok_iff.mpr hu, ok_bind]
  dsimp only
  split
  · split
    · exact hR.trans (hanswered s) (hR.giveUp _)
    · exact hR.after (hR.authorize _ u true) (hR.trans (hanswered s) (hR.talk _ _ _ _ _))
  · split
    next hmode =>
      split
      · exact hR.trans (hanswered s) (hR.giveUp _)
      next hsuccess =>
        obtain ⟨hauthorized, hstamp⟩ := hproxy (by simpa using hsuccess) (decide_eq_true hmode)
        refine hR.after (hR.bind (hR.extranonceOfResult _ jResult) fun t => ?_) (hanswered s)
        exact hR.bind (hR.after (hR.announce _ u hstamp) (hauthorized t)) fun t =>
          hR.authorize t u true
    next =>
      split
      · split
        · exact hR.trans (hanswered s) (hR.giveUp _)
        · exact hR.after (hR.bind (hR.extranonceOfResult _ jResult) fun t => hR.authorize t u false)
            (hanswered s)
      · exact hR.sendSocketData s .null

theorem subscribeReply (jResult : Value) (hu : s.uri? = some u)
    (hallowed : (Deed.login m.isSuccess (decide (u.stratumMode = NRGPROXY))).Allowed R) :
    Handles E R s.dequeueResponsePlea (subscribeReply s m jResult) := by
  have hu' : s.dequeueResponsePlea.uri? = some u := hu
  rw [Stratum.subscribeReply, State.uri_eq_ok_iff.mpr hu', ok_bind]
  split
  · split
    · exact hR.post rfl
    · split
      next hmode =>
        refine hR.after (hR.loginReply (u := { u with stratumModeConfirmed := true }) jResult ?_
          hallowed) (hR.confirm hu' hmode)
        rw [State.setStratumMode, State.uri?_modifyUri, hu']
        rfl
      next => exact hR.loginReply jResult hu' hallowed
  · exact hR.loginReply jResult hu' hallowed

theorem authorizeReply {jResult : Value}
    (hallowed : (Deed.authorization (successOf m jResult)).Allowed R) :
    Handles E R (s.answered 3).dequeueResponsePlea (authorizeReply s m jResult) := by
  obtain ⟨hauthorized, hstamp⟩ := hallowed
  rw [Stratum.authorizeReply]
  dsimp only
  have hanswered : R (s.answered 3).dequeueResponsePlea
      { (s.answered 3).dequeueResponsePlea with
        flags.authpending := false, flags.authorized := successOf m jResult } :=
    hR.trans (hauthorized _) (hR.talk _ _ _ _ _)
  split
  · exact hR.trans hanswered (hR.giveUp _)
  next hsuccess =>
    exact hR.uri_bind fun u _ =>
      hR.after (hR.announce _ u (hstamp (by simpa using hsuccess))) hanswered

theorem unnumberedReply (s : State) (m : Message) :
    R s.dequeueResponsePlea (unnumberedReply s m) := by
  rw [Stratum.unnumberedReply]
  split
  · exact hR.post rfl
  · exact hR.refl _

theorem takeJob (hallowed : (Deed.job jPrm).Allowed R) : Handles E R s (takeJob s jPrm) := by
  refine hR.throws_bind fun resetJob => hR.throws_bind fun work => ?_
  split
  · exact hallowed s work
  · exact hR.refl s

theorem miningNotify (h : hasCoinbase jPrm = false) : Handles E R s (miningNotify s jPrm) := by
  rw [Stratum.miningNotify]
  split
  next harray =>
    cases h1 : Work.paramText jPrm 2 with
    | error e => exact hR.fault trivial
    | ok coinbase1 =>
      change Handles E R s (if coinbase1 = "" then pure s else _)
      split
      · exact hR.refl s
      next hne1 =>
        cases h2 : Work.paramText jPrm 3 with
        | error e => exact hR.fault trivial
        | ok coinbase2 =>
          change Handles E R s (if coinbase2 = "" then pure s else Stratum.takeJob s jPrm)
          split
          · exact hR.refl s
          next hne2 => simp [hasCoinbase, h1, h2, harray, hne1, hne2] at h
  next => exact hR.refl s

theorem miningSetDifficulty (hallowed : jPrm.isArray = true → Deed.difficulty.Allowed R) :
    Handles E R s (miningSetDifficulty s jPrm) := by
  rw [Stratum.miningSetDifficulty]
  split
  next harray =>
    refine hR.throws_bind fun diff => ?_
    split
    · exact hR.fault trivial
    · exact hR.fault trivial
    · exact hallowed harray s _
  · exact hR.refl s

theorem miningSetExtranonce (s : State) (jPrm : Value) :
    Handles E R s (miningSetExtranonce s jPrm) := by
  rw [Stratum.miningSetExtranonce]
  split
  · exact hR.throws_bind fun _ => hR.talk _ _ _ _ _
  · exact hR.refl s

theorem notification (hu : s.uri? = some u) (h : notified u m jPrm = .other)
    (hallowed : setsDifficulty u m jPrm = true → Deed.difficulty.Allowed R) :
    Handles E R s (notification s m jPrm) := by
  rw [Stratum.notification, State.uri_eq_ok_iff.mpr hu, ok_bind]
  split
  · exact hR.refl s
  next hnot =>
    have hconfirmed : u.stratumModeConfirmed = true := by simpa using hnot
    split
    next hmethod =>
      refine hR.miningNotify (Bool.eq_false_iff.mpr fun hcoinbase => ?_)
      simp [notified, hmethod, hcoinbase, hconfirmed] at h
    next =>
      split
      next hmethod =>
        refine hR.miningSetDifficulty fun harray => hallowed ?_
        rw [setsDifficulty, hconfirmed, decide_eq_true hmethod, harray]
        rfl
      next =>
        split
        · exact hR.miningSetExtranonce s jPrm
        · split
          · exact hR.sendSocketData s _
          · exact hR.sendSocketData s _

theorem reply {jResult : Value} (hu : s.uri? = some u)
    (hallowed : (answerDeed u m jResult).Allowed R) :
    Handles E R (s.afterAnswer m.id) (reply s m jResult) := by
  rw [answerDeed] at hallowed
  rw [Stratum.reply, State.afterAnswer]
  split
  next hid =>
    rw [if_pos hid] at hallowed
    exact hR.subscribeReply jResult hu hallowed
  next hid =>
    rw [if_neg hid] at hallowed
    split
    next hid =>
      rw [if_pos hid] at hallowed
      exact hR.authorizeReply hallowed
    next =>
      split
      · exact hR.onSolutionAnswered _
      · split
        · exact hR.unnumberedReply s m
        · exact hR.refl s

theorem recvSocketData (h : s.flags.connected = true) : Handles E R s (recvSocketData s) := by
  refine hR.uri_bind fun u hu => hR.deref_bind h hu fun _ => ?_
  rw [State.noteUse, hu]
  exact hR.trans (hR.use h hu) (hR.post rfl)

theorem onRecv (s : State) : Handles E R s (onRecv s) := by
  unfold Stratum.onRecv
  extract_lets message connected t
  have hrecv : R s t := hR.talk _ _ _ _ _
  split
  next hconnected =>
    have hc : t.flags.connected = true := connected_of_isConnected hconnected
    clear_value message
    cases message with
    | some v =>
      exact hR.after (hR.recvSocketData (s := t.post (.response v)) hc)
        (hR.trans hrecv (hR.post rfl))
    | none => exact hR.after (hR.recvSocketData hc) hrecv
  · exact hrecv

theorem onRecvError (s : State) : R s (onRecvError s) := by
  rw [Stratum.onRecvError]
  split
  · split
    · exact hR.giveUp s
    · exact hR.post rfl
  · exact hR.refl s

theorem onSolutionFound (s : State) (solution : Solution) :
    Handles E R s (onSolutionFound s solution) := by
  rw [Stratum.onSolutionFound]
  split
  · rw [submitSolution]
    split
    · exact hR.refl s
    · split
      · exact hR.refl s
      · split
        · exact hR.onSolutionAnswered s
        · refine hR.uri_bind fun u _ => ?_
          split
          · exact hR.fault trivial
          · exact hR.after (hR.sendSocketData _ _) (hR.enqueue s _)
  · exact hR.refl s

end Messages

end Allows

section Responses
variable {s : State} {u : Uri} {m : Message} {jPrm jPrm' responseObject : Value}

/-- Only the method of a message depends on the mode. -/
theorem Message.ofProxy_eq (m : Message) (responseObject : Value) (mode : Nat) :
    ∃ method, m.ofProxy responseObject mode = { m with method := method } ∧
      (method = m.method ∨ method = "mining.notify") := by
  rw [ofProxy]
  split
  · exact ⟨_, rfl, .inr rfl⟩
  · exact ⟨_, rfl, .inl rfl⟩

theorem not_setsDifficulty_notify :
    setsDifficulty u { m with method := "mining.notify" } jPrm = false := by
  rw [setsDifficulty, decide_eq_false (by decide : ¬ "mining.notify" = "mining.set_difficulty")]
  simp

namespace Allows
variable {E : State → Fault → Prop} {R : State → State → Prop} (hR : Allows E R)
include hR

theorem dispatch (hu : s.uri? = some u) (hallowed : (deedOf u m responseObject).Allowed R) :
    Handles E R ((receptionOf u m responseObject).account s) (dispatch s u m responseObject) := by
  obtain ⟨method, hm, hmethod⟩ := m.ofProxy_eq responseObject u.stratumMode
  unfold deedOf at hallowed
  unfold receptionOf at hallowed ⊢
  unfold Stratum.dispatch
  dsimp only at hallowed ⊢
  rw [hm] at hallowed ⊢
  by_cases hinvalid : m.invalid responseObject = true
  · have hinvalid' : ({ m with method := method } : Message).invalid responseObject = true := hinvalid
    rw [if_pos hinvalid', if_pos hinvalid']
    exact hR.trans (hR.logout s) (hR.post rfl)
  · have hvalid : ¬ ({ m with method := method } : Message).invalid responseObject = true := hinvalid
    rw [if_neg hvalid] at hallowed ⊢
    rw [if_neg hvalid]
    by_cases hnote : m.isNotification = true
    · rw [if_pos hnote] at hallowed ⊢
      rw [if_pos hnote]
      rcases notified_cases u { m with method := method } (memberOf responseObject "params")
        with hjob | hother
      · rw [hjob] at hallowed ⊢
        rw [notification_of_job hu hjob]
        exact hR.takeJob hallowed
      · rw [hother] at hallowed ⊢
        refine hR.notification hu hother fun hsets => ?_
        rcases hmethod with rfl | rfl
        · rw [hnote, Bool.eq_false_iff.mpr hinvalid, hsets] at hallowed
          exact hallowed
        · rw [not_setsDifficulty_notify] at hsets
          cases hsets
    · rw [if_neg hnote] at hallowed ⊢
      rw [if_neg hnote]
      split
      next hproxy =>
        rw [if_pos hproxy] at hallowed
        rcases notified_cases u { m with method := "mining.notify" }
          (memberOf responseObject "params") with hjob | hother
        · rw [hjob] at hallowed ⊢
          rw [notification_of_job hu hjob]
          exact hR.takeJob hallowed
        · rw [hother]
          refine hR.notification hu hother fun hsets => ?_
          rw [not_setsDifficulty_notify] at hsets
          cases hsets
      next hproxy =>
        rw [if_neg hproxy] at hallowed
        exact hR.reply hu hallowed

theorem processResponse (hallowed : (s.deedFor responseObject).Allowed R) :
    Handles E R ((s.reception responseObject).account s) (processResponse s responseObject) := by
  rw [State.deedFor] at hallowed
  rw [State.reception, Stratum.processResponse]
  cases hm : retrieve responseObject with
  | error e => exact hR.fault trivial
  | ok m =>
    change Handles E R _ (s.uri >>= fun u => Stratum.dispatch s u m responseObject)
    cases hu : s.uri? with
    | none =>
      rw [State.uri, hu]
      exact hR.fault trivial
    | some u =>
      rw [hm, hu] at hallowed
      rw [State.uri_eq_ok_iff.mpr hu, ok_bind]
      exact hR.dispatch hu hallowed

/-- A message, for a relation that does not look at the pleas. -/
theorem processResponse_of_pleas (hpleas : ∀ (s : State) p, R s { s with pleas := p })
    (hallowed : (s.deedFor responseObject).Allowed R) :
    Handles E R s (Stratum.processResponse s responseObject) := by
  obtain ⟨p, hp⟩ := account_eq (s.reception responseObject) s
  have hafter := hR.processResponse hallowed
  rw [hp] at hafter
  exact hR.after hafter (hpleas s p)

end Allows

end Responses

end Energiminer.Stratum
