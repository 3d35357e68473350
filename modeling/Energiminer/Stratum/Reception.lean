import Energiminer.Misc.Except
import Energiminer.Stratum.System

/-!
# What a message is taken for

`processResponse` tells answers from notifications, and takes a `mining.notify` for a job only if
both parts of a coinbase are there (`StratumClient.cpp:599-922`). `Reception` is what a message is
taken for and `Deed` what it then does to the login and the job.
-/

namespace Energiminer.Stratum
open Misc Misc.Json Misc.Except Primitives

/-- What a message of the pool is taken for. -/
inductive Reception
  | answer (id : BitVec 32)
  | job (jPrm : Value)
  | other

/-- The parameters of a job. -/
def Reception.job? : Reception → Option Value
  | .job jPrm => some jPrm
  | _ => none

theorem Reception.job?_eq_some {r : Reception} {jPrm : Value} :
    r.job? = some jPrm ↔ r = .job jPrm := by
  cases r <;> simp [job?]

/-- Both parts of a coinbase are there. -/
def hasCoinbase (jPrm : Value) : Bool :=
  match Work.paramText jPrm 2, Work.paramText jPrm 3 with
  | .ok coinbase1, .ok coinbase2 =>
    jPrm.isArray && decide (coinbase1 ≠ "") && decide (coinbase2 ≠ "")
  | _, _ => false

def notified (u : Uri) (m : Message) (jPrm : Value) : Reception :=
  if u.stratumModeConfirmed && decide (m.method = "mining.notify") && hasCoinbase jPrm then .job jPrm
  else .other

def receptionOf (u : Uri) (m : Message) (responseObject : Value) : Reception :=
  let m := m.ofProxy responseObject u.stratumMode
  if m.invalid responseObject then .other
  else if m.isNotification then notified u m (memberOf responseObject "params")
  else if m.id = 5 ∧ u.stratumMode = NRGPROXY ∧ (memberOf responseObject "result").isArray then
    notified u { m with method := "mining.notify" } (memberOf responseObject "params")
  else .answer m.id

/-- What `processResponse` takes a message for. -/
def State.reception (s : State) (responseObject : Value) : Reception :=
  match retrieve responseObject, s.uri? with
  | .ok m, some u => receptionOf u m responseObject
  | _, _ => .other

/-- What a message does beyond the pleas. -/
inductive Deed
  /-- it answers `mining.subscribe`, with success or not, for a proxy or not -/
  | login (isSuccess proxy : Bool)
  /-- it answers `mining.authorize` -/
  | authorization (isSuccess : Bool)
  | job (jPrm : Value)
  /-- it sets the difficulty -/
  | difficulty
  | other

/-- A notification sets the difficulty. -/
def setsDifficulty (u : Uri) (m : Message) (jPrm : Value) : Bool :=
  u.stratumModeConfirmed && decide (m.method = "mining.set_difficulty") && jPrm.isArray

def answerDeed (u : Uri) (m : Message) (jResult : Value) : Deed :=
  if m.id = 1 then .login m.isSuccess (decide (u.stratumMode = NRGPROXY))
  else if m.id = 3 then .authorization (successOf m jResult)
  else .other

def deedOf (u : Uri) (m : Message) (responseObject : Value) : Deed :=
  match receptionOf u m responseObject with
  | .job jPrm => .job jPrm
  | .answer _ => answerDeed u m (memberOf responseObject "result")
  | .other =>
    if m.isNotification && !m.invalid responseObject &&
        setsDifficulty u m (memberOf responseObject "params") then .difficulty
    else .other

/-- What `processResponse` does with a message. -/
def State.deedFor (s : State) (responseObject : Value) : Deed :=
  match retrieve responseObject, s.uri? with
  | .ok m, some u => deedOf u m responseObject
  | _, _ => .other

/-- The message that an event hands to `processResponse`. -/
def State.processed (s : State) : Event → Option Value
  | .complete i .run =>
    match s.pending[i]? with
    | some (.response responseObject) => some responseObject
    | _ => none
  | _ => none

/-- What the message of an event is taken for. -/
def State.receives (s : State) (e : Event) : Reception :=
  match s.processed e with
  | some responseObject => s.reception responseObject
  | none => .other

/-- What the message of an event does. -/
def State.deed (s : State) (e : Event) : Deed :=
  match s.processed e with
  | some responseObject => s.deedFor responseObject
  | none => .other

/-- What an answer does to the pleas. -/
def State.afterAnswer (s : State) (id : BitVec 32) : State :=
  if id = 1 then s.dequeueResponsePlea
  else if id = 3 then (s.answered 3).dequeueResponsePlea
  else if id = 4 then (s.answered 4).dequeueResponsePlea.dequeueResponsePlea
  else if id = 999 then s.dequeueResponsePlea
  else s

/-- What a message does to the pleas. -/
def Reception.account (s : State) : Reception → State
  | .answer id => s.afterAnswer id
  | _ => s

/-- The handler that an event runs is taken off `pending`. -/
def State.taken (s : State) : Event → State
  | .complete i _ => { s with pending := s.pending.eraseIdx i }
  | _ => s

/-- The event establishes a connection. -/
def State.establishes (s : State) : Event → Bool
  | .complete i (.connected ec hec) =>
    match s.pending[i]?, s.sock.socket, s.uri? with
    | some .connect, some j, some u => !ec && s.isOpen j && !(u.secure && hec)
    | _, _, _ => false
  | _ => false

/-- A job is handed out: it is clean or differs from the current one. -/
def State.accepts (s : State) (jPrm : Value) : Bool :=
  match (jPrm.getAt 8 (.string "")).asBool,
      Work.ofStratum jPrm s.job.extraNonce1 s.job.nextWorkTarget with
  | .ok resetJob, .ok work => resetJob || !s.job.current.eqv work
  | _, _ => false

/-- The work is handed to the plant. -/
def State.assign (s : State) (work : Work) : State :=
  { s with
    job.current := work, job.currentTimestamp := s.clock
    plant := s.plant.resetWork.setWork work }

/-- The time of the last work is set without a work. -/
def State.stamped (s : State) : State := { s with job.currentTimestamp := s.clock }

theorem notified_cases (u : Uri) (m : Message) (jPrm : Value) :
    notified u m jPrm = .job jPrm ∨ notified u m jPrm = .other := by
  rw [notified]
  split
  · exact .inl rfl
  · exact .inr rfl

section Deeds
variable {u : Uri} {m : Message} {responseObject jResult jPrm : Value}

/-- An answer neither brings a job nor sets the difficulty. -/
theorem answerDeed_ne (u : Uri) (m : Message) (jResult : Value) :
    (∀ jPrm, answerDeed u m jResult ≠ .job jPrm) ∧ answerDeed u m jResult ≠ .difficulty := by
  rw [answerDeed]
  split
  · exact ⟨nofun, nofun⟩
  · split
    · exact ⟨nofun, nofun⟩
    · exact ⟨nofun, nofun⟩

/-- A job is the deed of a message that is taken for it. -/
theorem deedOf_eq_job :
    deedOf u m responseObject = .job jPrm ↔ receptionOf u m responseObject = .job jPrm := by
  rw [deedOf]
  split
  next jPrm' h => rw [h, Deed.job.injEq, Reception.job.injEq]
  next id h =>
    exact iff_of_false ((answerDeed_ne u m _).1 jPrm) (fun hjob => nomatch h.symm.trans hjob)
  next h =>
    refine iff_of_false ?_ (fun hjob => nomatch h.symm.trans hjob)
    split
    · exact nofun
    · exact nofun

/-- The difficulty is set by a valid notification of it. -/
theorem eq_true_of_deedOf_difficulty (h : deedOf u m responseObject = .difficulty) :
    m.isNotification = true ∧ m.invalid responseObject = false ∧
      setsDifficulty u m (memberOf responseObject "params") = true := by
  rw [deedOf] at h
  split at h
  next => cases h
  next => exact absurd h (answerDeed_ne u m _).2
  next =>
    split at h
    next hsets =>
      rw [Bool.and_eq_true, Bool.and_eq_true, Bool.not_eq_true'] at hsets
      exact ⟨hsets.1.1, hsets.1.2, hsets.2⟩
    next => cases h

/-- A message that sets the difficulty has a method. -/
theorem ofProxy_of_setsDifficulty (h : setsDifficulty u m jPrm = true) :
    m.ofProxy responseObject u.stratumMode = m := by
  simp only [setsDifficulty, Bool.and_eq_true, decide_eq_true_eq] at h
  rw [Message.ofProxy, h.1.2, decide_eq_false (by decide)]
  simp

end Deeds

theorem State.deed_eq_job {s : State} {e : Event} {jPrm : Value} :
    s.deed e = .job jPrm ↔ s.receives e = .job jPrm := by
  rw [deed, receives]
  cases s.processed e with
  | none => exact iff_of_false Deed.noConfusion Reception.noConfusion
  | some v =>
    change s.deedFor v = .job jPrm ↔ s.reception v = .job jPrm
    rw [deedFor, reception]
    split
    · exact deedOf_eq_job
    · exact iff_of_false Deed.noConfusion Reception.noConfusion

/-- An answer changes nothing but the pleas by itself. -/
theorem account_eq (r : Reception) (s : State) : ∃ p : Pleas, r.account s = { s with pleas := p } := by
  cases r with
  | answer id =>
    simp only [Reception.account, State.afterAnswer]
    split
    · exact ⟨_, rfl⟩
    · split
      · exact ⟨_, rfl⟩
      · split
        · exact ⟨_, rfl⟩
        · split
          · exact ⟨_, rfl⟩
          · exact ⟨s.pleas, rfl⟩
  | job jPrm | other => exact ⟨s.pleas, rfl⟩

/-- Only `pending` is changed when a handler is taken off it. -/
theorem State.taken_eq (s : State) (e : Event) : ∃ ps, s.taken e = { s with pending := ps } := by
  cases e with
  | complete i o => exact ⟨_, rfl⟩
  | _ => exact ⟨s.pending, rfl⟩

theorem State.uri?_taken (s : State) (e : Event) : (s.taken e).uri? = s.uri? := by
  obtain ⟨ps, hps⟩ := s.taken_eq e
  rw [hps]
  rfl

/-- A message is processed once it is taken off `pending`. -/
theorem step_of_processed {s : State} {e : Event} {r : Except Fault State} {responseObject : Value}
    (h : step s e = some r) (hp : s.processed e = some responseObject) :
    r = processResponse (s.taken e) responseObject := by
  unfold State.processed at hp
  split at hp
  next i =>
    split at hp
    next v hv =>
      cases hp
      rw [step, complete, hv] at h
      cases h
      rfl
    next => cases hp
  next => cases hp

section Jobs
variable {s : State} {u : Uri} {m : Message} {responseObject jPrm : Value}

/-- A notification of a job with both parts of a coinbase. -/
theorem miningNotify_of_hasCoinbase {jPrm : Value} (h : hasCoinbase jPrm = true) :
    miningNotify s jPrm = takeJob s jPrm := by
  rw [hasCoinbase] at h
  split at h
  next coinbase1 coinbase2 h1 h2 =>
    simp only [Bool.and_eq_true, decide_eq_true_eq] at h
    obtain ⟨⟨harray, hne1⟩, hne2⟩ := h
    rw [miningNotify, if_pos harray, h1, h2]
    change (if coinbase1 = "" then _ else if coinbase2 = "" then _ else _) = _
    rw [if_neg hne1, if_neg hne2]
  next => cases h

theorem notification_of_job {jPrm' : Value} (hu : s.uri? = some u)
    (h : notified u m jPrm = .job jPrm') : notification s m jPrm = takeJob s jPrm' := by
  rw [notified] at h
  split at h
  next hjob =>
    cases h
    simp only [Bool.and_eq_true, decide_eq_true_eq] at hjob
    obtain ⟨⟨hconfirmed, hmethod⟩, hcoinbase⟩ := hjob
    rw [notification, State.uri_eq_ok_iff.mpr hu, ok_bind, hconfirmed, if_neg (by decide),
      if_pos hmethod, miningNotify_of_hasCoinbase hcoinbase]
  next => cases h

theorem dispatch_of_job (hu : s.uri? = some u) (h : receptionOf u m responseObject = .job jPrm) :
    dispatch s u m responseObject = takeJob s jPrm := by
  unfold receptionOf at h
  unfold dispatch
  dsimp only at h ⊢
  split at h
  · cases h
  next hvalid =>
    rw [if_neg hvalid]
    split at h
    next hnote => rw [if_pos hnote, notification_of_job hu h]
    next hnote =>
      rw [if_neg hnote]
      split at h
      next hproxy => rw [if_pos hproxy, notification_of_job hu h]
      next => cases h

theorem processResponse_of_job (h : s.reception responseObject = .job jPrm) :
    processResponse s responseObject = takeJob s jPrm := by
  rw [State.reception] at h
  split at h
  next m u hm hu =>
    rw [processResponse, hm, throws]
    change s.uri >>= _ = _
    rw [State.uri_eq_ok_iff.mpr hu, ok_bind, dispatch_of_job hu h]
  next => cases h

end Jobs

/-- A job is handed out if it is clean or new. -/
theorem takeJob_eq_ok {s t : State} {jPrm : Value} (h : takeJob s jPrm = .ok t) :
    ∃ resetJob work, (jPrm.getAt 8 (.string "")).asBool = .ok resetJob ∧
      Work.ofStratum jPrm s.job.extraNonce1 s.job.nextWorkTarget = .ok work ∧
      t = if resetJob || !s.job.current.eqv work then s.assign work else s := by
  rw [takeJob] at h
  cases hreset : (jPrm.getAt 8 (.string "")).asBool with
  | error e =>
    rw [hreset] at h
    cases h
  | ok resetJob =>
    cases hwork : Work.ofStratum jPrm s.job.extraNonce1 s.job.nextWorkTarget with
    | error e =>
      rw [hreset, hwork] at h
      cases h
    | ok work =>
      rw [hreset, hwork] at h
      refine ⟨resetJob, work, rfl, rfl, ?_⟩
      change (if resetJob || !s.job.current.eqv work then Except.ok (s.assign work) else .ok s) =
        .ok t at h
      split at h
      next htake =>
        cases h
        rw [if_pos htake]
      next hskip =>
        cases h
        rw [if_neg hskip]

theorem takeJob_of_step {s : State} {e : Event} {r : Except Fault State} {jPrm : Value}
    (h : step s e = some r) (hjob : s.receives e = .job jPrm) :
    ∃ ps, r = takeJob { s with pending := ps } jPrm := by
  obtain ⟨ps, hps⟩ := s.taken_eq e
  rw [State.receives] at hjob
  split at hjob
  next v hp =>
    have hreception : (s.taken e).reception v = .job jPrm := by
      rwa [State.reception, State.uri?_taken]
    exact ⟨ps, by rw [step_of_processed h hp, processResponse_of_job hreception, hps]⟩
  next => cases hjob

end Energiminer.Stratum
