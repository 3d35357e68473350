import Energiminer.Stratum.Proofs.Conversions
import Energiminer.Stratum.Proofs.Responses

/-!
# Which messages the client survives

`processResponse` runs on the thread of the `io_service`, which has no handler for exceptions: a
message that is not digestible ends the program. So does a message whose branch sends while the
socket pointer for the pool's level is null, or reports to a manager without an active pool.
Independently of that, only a job with both coinbase parts and a difficulty change the work of the
client or the plant.
-/

namespace Energiminer.Stratum
open Misc Misc.Json Misc.Except Primitives

/-! ## What is kept -/

/-- The work of the client, its next target and the work of the plant are as before. -/
structure SameWork (s t : State) : Prop where
  current : t.job.current = s.job.current
  nextWorkTarget : t.job.nextWorkTarget = s.job.nextWorkTarget
  plantWork : t.plant.work = s.plant.work

/-- The notifications that may change the work: a job with both coinbase parts, and a
difficulty. -/
def WorkNotice (method : String) (jPrm : Value) : Prop :=
  jPrm.isArray ∧ (method = "mining.notify" ∧ (param jPrm 2).text ≠ "" ∧ (param jPrm 3).text ≠ "" ∨
    method = "mining.set_difficulty")

section Dispatch
variable {s : State} {u : Uri} {m : Message}

theorem dispatch_invalid {v : Value} (h : (m.ofProxy v u.stratumMode).invalid v = true) :
    dispatch s u m v =
      .ok ({ s with flags.subscribed := false, flags.authorized := false }.post .disconnect) := by
  rw [dispatch]
  exact if_pos h

theorem dispatch_notice {v : Value} {method : String}
    (h : (m.ofProxy v u.stratumMode).invalid v = false)
    (hnotice : noticeOf u.stratumMode (m.ofProxy v u.stratumMode) v = some method) :
    dispatch s u m v =
      notification s { m.ofProxy v u.stratumMode with method } (memberOf v "params") := by
  rw [noticeOf] at hnotice
  simp only [dispatch, h, Bool.false_eq_true, if_false]
  split at hnotice
  · next hn =>
    cases hnotice
    rw [if_pos hn]
  · next hn =>
    rw [if_neg hn]
    split at hnotice
    · next hproxy =>
      cases hnotice
      rw [if_pos hproxy]
    · cases hnotice

theorem dispatch_reply {v : Value} (h : (m.ofProxy v u.stratumMode).invalid v = false)
    (hnotice : noticeOf u.stratumMode (m.ofProxy v u.stratumMode) v = none) :
    dispatch s u m v = reply s (m.ofProxy v u.stratumMode) (memberOf v "result") := by
  rw [noticeOf] at hnotice
  simp only [dispatch, h, Bool.false_eq_true, if_false]
  split at hnotice
  · cases hnotice
  · next hn =>
    rw [if_neg hn]
    split at hnotice
    · cases hnotice
    · next hproxy => rw [if_neg hproxy]

/-- A message is taken as new work: the job or the difficulty of a pool whose mode is known. -/
def AcceptsWork (u : Uri) (v : Value) : Prop :=
  ((plainMessage v).ofProxy v u.stratumMode).invalid v = false ∧ u.stratumModeConfirmed ∧
    ∃ method, noticeOf u.stratumMode ((plainMessage v).ofProxy v u.stratumMode) v = some method ∧
      WorkNotice method (memberOf v "params")

theorem sameWork_modifyUri (s : State) (f : Uri → Uri) : SameWork s (s.modifyUri f) := by
  rw [State.modifyUri]
  split <;> exact ⟨rfl, rfl, rfl⟩

theorem allows_sameWork : Allows (fun _ _ => True) SameWork where
  refl _ := ⟨rfl, rfl, rfl⟩
  trans hst htr := ⟨htr.current.trans hst.current, htr.nextWorkTarget.trans hst.nextWorkTarget,
    htr.plantWork.trans hst.plantWork⟩
  excused _ _ := trivial
  fault _ := trivial
  use _ _ := ⟨rfl, rfl, rfl⟩
  talk _ _ _ _ _ := ⟨rfl, rfl, rfl⟩
  post _ := ⟨rfl, rfl, rfl⟩
  enqueue _ _ := ⟨rfl, rfl, rfl⟩
  logout _ := ⟨rfl, rfl, rfl⟩
  lose s := sameWork_modifyUri s _
  confirm _ _ := sameWork_modifyUri _ _
  connected _ _ := ⟨rfl, rfl, rfl⟩

theorem text_of_paramText {jPrm : Value} {i : Nat} {text : String}
    (h : Work.paramText jPrm i = .ok text) : (param jPrm i).text = text := by
  have hok : Work.paramText jPrm i = .ok (param jPrm i).text :=
    asString_ok ((succeeds_paramText jPrm i).mp ⟨text, h⟩)
  exact Except.ok.inj (hok.symm.trans h)

/-- What is taken for a job is one of a pool whose mode is known, with both coinbase parts. -/
theorem workNotice_of_notified {jPrm jPrm' : Value} (h : notified u m jPrm = .job jPrm') :
    u.stratumModeConfirmed = true ∧ WorkNotice m.method jPrm := by
  rw [notified] at h
  split at h
  next hjob =>
    simp only [Bool.and_eq_true, decide_eq_true_eq] at hjob
    obtain ⟨⟨hconfirmed, hmethod⟩, hcoinbase⟩ := hjob
    rw [hasCoinbase] at hcoinbase
    split at hcoinbase
    next coinbase1 coinbase2 h1 h2 =>
      simp only [Bool.and_eq_true, decide_eq_true_eq] at hcoinbase
      obtain ⟨⟨harray, hne1⟩, hne2⟩ := hcoinbase
      exact ⟨hconfirmed, harray,
        .inl ⟨hmethod, text_of_paramText h1 ▸ hne1, text_of_paramText h2 ▸ hne2⟩⟩
    next => cases hcoinbase
  next => cases h

theorem notice_of_job {v jPrm : Value} (h : receptionOf u m v = .job jPrm) :
    (m.ofProxy v u.stratumMode).invalid v = false ∧ u.stratumModeConfirmed ∧
      ∃ method, noticeOf u.stratumMode (m.ofProxy v u.stratumMode) v = some method ∧
        WorkNotice method (memberOf v "params") := by
  rw [receptionOf] at h
  split at h
  next => cases h
  next hvalid =>
    rw [noticeOf]
    split at h
    next hnote =>
      rw [if_pos hnote]
      obtain ⟨hconfirmed, hnotice⟩ := workNotice_of_notified h
      exact ⟨Bool.eq_false_iff.mpr hvalid, hconfirmed, _, rfl, hnotice⟩
    next hnote =>
      rw [if_neg hnote]
      split at h
      next hproxy =>
        rw [if_pos hproxy]
        obtain ⟨hconfirmed, hnotice⟩ := workNotice_of_notified h
        exact ⟨Bool.eq_false_iff.mpr hvalid, hconfirmed, _, rfl, hnotice⟩
      next => cases h

theorem notice_of_difficulty {v : Value} (h : deedOf u m v = .difficulty) :
    (m.ofProxy v u.stratumMode).invalid v = false ∧ u.stratumModeConfirmed ∧
      ∃ method, noticeOf u.stratumMode (m.ofProxy v u.stratumMode) v = some method ∧
        WorkNotice method (memberOf v "params") := by
  obtain ⟨hnote, hvalid, hsets⟩ := eq_true_of_deedOf_difficulty h
  rw [ofProxy_of_setsDifficulty hsets, noticeOf, if_pos hnote]
  simp only [setsDifficulty, Bool.and_eq_true, decide_eq_true_eq] at hsets
  exact ⟨hvalid, hsets.1.1, _, rfl, hsets.2, .inr hsets.1.2⟩

end Dispatch

/-! ## What a branch uses -/

/-- The socket that the pool's level chooses is there while the client is connected. -/
def CanSend (s : State) (u : Uri) : Prop := s.isConnected → (s.chosen u).isSome

/-- The manager has an active pool. -/
def CanReport (s : State) : Prop := s.manager.activeConnectionIdx < s.connections.length

/-- The branch of a message sends a request or an answer. -/
def Sends (u : Uri) (m : Message) (v : Value) : Prop :=
  match noticeOf u.stratumMode m v with
  | some method => u.stratumModeConfirmed ∧
      method ∉ ["mining.notify", "mining.set_difficulty", "mining.set_extranonce"]
  | none => m.id = 1 ∧ (m.isSuccess ∨ u.stratumModeConfirmed ∧ ENERGISTRATUM < u.stratumMode)

/-- The branch of a message calls the manager: a proxy's login, an authorization, a solution. -/
def Reports (u : Uri) (m : Message) (v : Value) : Prop :=
  noticeOf u.stratumMode m v = none ∧
    (m.id = 1 ∧ m.isSuccess ∧ u.stratumMode = NRGPROXY ∨
      m.id = 3 ∧ successOf m (memberOf v "result") ∧ u.stratumModeConfirmed ∨ m.id = 4)

/-- What the branch of a message uses is there. -/
structure Equipped (s : State) (u : Uri) (v : Value) : Prop where
  send : ((plainMessage v).ofProxy v u.stratumMode).invalid v = false →
    Sends u ((plainMessage v).ofProxy v u.stratumMode) v → CanSend s u
  report : ((plainMessage v).ofProxy v u.stratumMode).invalid v = false →
    Reports u ((plainMessage v).ofProxy v u.stratumMode) v → CanReport s

/-- Nothing differs that a send or a report looks at. -/
structure SameLink (s t : State) : Prop where
  uri : t.uri? = s.uri?
  connected : t.isConnected = s.isConnected
  sock : t.sock = s.sock
  report : CanReport t ↔ CanReport s

section Handlers
variable {s t : State} {u : Uri} {m : Message}

theorem SameLink.trans {s t r : State} (hst : SameLink s t) (htr : SameLink t r) : SameLink s r :=
  ⟨htr.uri.trans hst.uri, htr.connected.trans hst.connected, htr.sock.trans hst.sock,
    htr.report.trans hst.report⟩

/-- The mode of a pool does not matter for what is sent. -/
theorem canSend_setStratumMode (s : State) (u : Uri) (mode : Nat) (confirmed : Bool) :
    CanSend (s.setStratumMode mode confirmed) { u with stratumModeConfirmed := confirmed } ↔
      CanSend s u := by
  rw [State.setStratumMode, State.modifyUri]
  split <;> exact Iff.rfl

theorem canReport_setStratumMode (s : State) (mode : Nat) (confirmed : Bool) :
    CanReport (s.setStratumMode mode confirmed) ↔ CanReport s := by
  rw [State.setStratumMode, State.modifyUri]
  split
  · rw [CanReport, CanReport, List.length_modify]
  · exact Iff.rfl

theorem succeeds_sendSocketData (hu : s.uri? = some u) (jReq : Value) :
    Succeeds (sendSocketData s jReq) ↔ CanSend s u := by
  have hderef : Succeeds (State.deref (s.chosen u)) ↔ (s.chosen u).isSome := by
    cases s.chosen u <;> simp [State.deref]
  rw [sendSocketData, CanSend]
  cases s.isConnected with
  | false => simp
  | true =>
    rw [State.uri_eq_ok_iff.mpr hu, if_neg (by decide), ok_bind,
      succeeds_bind_iff (P := True) fun _ => by simp, and_true, hderef]
    simp

theorem succeeds_activeUri (s : State) : Succeeds s.activeUri ↔ CanReport s := by
  rw [State.activeUri, CanReport]
  split
  next u hu => exact iff_of_true ⟨u, rfl⟩ (List.getElem?_eq_some_iff.mp hu).1
  next hnone => exact iff_of_false (not_succeeds_error _) (by simpa using hnone)

theorem succeeds_announce (s : State) (u : Uri) :
    Succeeds (announce s u) ↔ (u.stratumModeConfirmed → CanReport s) := by
  rw [announce]
  split
  next hconfirmed =>
    rw [onConnected, succeeds_bind_iff (P := True) fun _ => by simp, and_true, succeeds_activeUri]
    simp [hconfirmed, CanReport]
  next hnot => simp [hnot]

theorem announce_ok (h : announce s u = .ok t) : SameLink s t := by
  rw [announce] at h
  split at h
  · obtain ⟨active, -, ht⟩ := bind_eq_ok.mp h
    cases ht
    exact ⟨rfl, rfl, rfl, Iff.rfl⟩
  · cases h
    exact ⟨rfl, rfl, rfl, Iff.rfl⟩

theorem succeeds_authorizeReply (hu : s.uri? = some u) (m : Message) (jResult : Value) :
    Succeeds (authorizeReply s m jResult) ↔
      (successOf m jResult → u.stratumModeConfirmed → CanReport s) := by
  rw [authorizeReply]
  dsimp only
  cases successOf m jResult with
  | false => simp
  | true =>
    have huri : State.uri { (s.answered 3).dequeueResponsePlea with
        flags.authpending := false, flags.authorized := true } = .ok u :=
      State.uri_eq_ok_iff.mpr hu
    rw [huri]
    simp only [Bool.not_true, Bool.false_eq_true, if_false, ok_bind, forall_const]
    exact succeeds_announce _ u

/-- The extra nonce of a login result, where it is read, is a text. -/
theorem succeeds_extranonceOfResult (s : State) (jResult : Value) :
    Succeeds (extranonceOfResult s jResult) ↔
      (!jResult.empty → jResult.isArray → (param jResult 1).isScalar) := by
  rw [extranonceOfResult]
  by_cases hcond : (!jResult.empty && jResult.isArray) = true
  · rw [if_pos hcond, succeeds_bind_throws_iff (P := True) fun _ => by simp, and_true,
      Value.succeeds_asString]
    rw [Bool.and_eq_true] at hcond
    exact ⟨fun h _ _ => h, fun h => h hcond.1 hcond.2⟩
  · rw [if_neg hcond]
    refine ⟨fun _ hne harr => absurd ?_ hcond, fun _ => succeeds_ok s⟩
    rw [Bool.and_eq_true]
    exact ⟨hne, harr⟩

theorem extranonceOfResult_ok {jResult : Value} (h : extranonceOfResult s jResult = .ok t) :
    SameLink s t := by
  rw [extranonceOfResult] at h
  split at h
  · obtain ⟨enonce, -, ht⟩ := bind_eq_ok.mp h
    cases ht
    exact ⟨rfl, rfl, rfl, Iff.rfl⟩
  · cases h
    exact ⟨rfl, rfl, rfl, Iff.rfl⟩

theorem succeeds_requestAuthorization (hu : s.uri? = some u) (h : SameLink s t) (jReq : Value) :
    Succeeds (sendSocketData (t.enqueueResponsePlea (some 3)) jReq) ↔ CanSend s u := by
  have huri : (t.enqueueResponsePlea (some 3)).uri? = some u := h.uri.trans hu
  have hsend : CanSend (t.enqueueResponsePlea (some 3)) u ↔ CanSend t u := Iff.rfl
  rw [succeeds_sendSocketData huri, hsend, CanSend, CanSend, h.connected, State.chosen,
    State.chosen, h.sock]

theorem succeeds_extranonce_bind (h : SameLink s t) (jResult : Value)
    {f : State → Except Fault State} {P : Prop} (hf : ∀ r, SameLink s r → (Succeeds (f r) ↔ P)) :
    Succeeds (extranonceOfResult t jResult >>= f) ↔
      (!jResult.empty → jResult.isArray → (param jResult 1).isScalar) ∧ P := by
  rw [← succeeds_extranonceOfResult t]
  exact succeeds_bind_iff_of_ok fun r hr => hf r (h.trans (extranonceOfResult_ok hr))

theorem succeeds_proxyLogin (hu : s.uri? = some u) (h : SameLink s t) (jReq : Value) :
    Succeeds (announce { t with flags.authorized := true } u >>= fun t =>
      sendSocketData (t.enqueueResponsePlea (some 3)) jReq) ↔
      (u.stratumModeConfirmed → CanReport s) ∧ CanSend s u := by
  have hauthorized : SameLink s { t with flags.authorized := true } :=
    h.trans ⟨rfl, rfl, rfl, Iff.rfl⟩
  rw [succeeds_bind_iff_of_ok fun r hr =>
    succeeds_requestAuthorization hu (hauthorized.trans (announce_ok hr)) jReq, succeeds_announce,
    hauthorized.report]

theorem succeeds_loginReply (hu : s.uri? = some u) (m : Message) (jResult : Value) :
    Succeeds (loginReply s m jResult) ↔ LoginOk u.stratumMode m.isSuccess jResult ∧
      (m.isSuccess ∨ ENERGISTRATUM < u.stratumMode → CanSend s u) ∧
      (m.isSuccess → u.stratumMode = NRGPROXY → u.stratumModeConfirmed → CanReport s) := by
  have hsame : SameLink s { s with flags.subscribed := true } := ⟨rfl, rfl, rfl, Iff.rfl⟩
  rw [loginReply, State.uri_eq_ok_iff.mpr hu, ok_bind]
  dsimp only
  by_cases hs : u.stratumMode = STRATUM
  · rw [if_pos hs]
    cases m.isSuccess with
    | false => simp [LoginOk, hs, STRATUM, ENERGISTRATUM]
    | true =>
      have hpending : SameLink s { s with flags.subscribed := true, flags.authpending := true } :=
        ⟨rfl, rfl, rfl, Iff.rfl⟩
      rw [if_neg (by decide)]
      refine (succeeds_requestAuthorization hu hpending _).trans ?_
      simp [LoginOk, hs, STRATUM, NRGPROXY, ENERGISTRATUM]
  · rw [if_neg hs]
    by_cases hp : u.stratumMode = NRGPROXY
    · rw [if_pos hp]
      cases m.isSuccess with
      | false => simp [LoginOk, hp, NRGPROXY, ENERGISTRATUM]
      | true =>
        rw [if_neg (by decide)]
        refine (succeeds_extranonce_bind hsame jResult fun r hr =>
          succeeds_proxyLogin hu hr _).trans ?_
        simp [LoginOk, hp, and_comm]
    · rw [if_neg hp]
      by_cases he : u.stratumMode = ENERGISTRATUM
      · rw [if_pos he]
        cases m.isSuccess with
        | false => simp [LoginOk, he]
        | true =>
          rw [if_neg (by decide)]
          refine (succeeds_extranonce_bind hsame jResult fun r hr =>
            succeeds_requestAuthorization hu hr _).trans ?_
          simp [LoginOk, he, NRGPROXY, ENERGISTRATUM]
      · have hlarge : ENERGISTRATUM < u.stratumMode := by
          rw [STRATUM] at hs
          rw [NRGPROXY] at hp
          rw [ENERGISTRATUM] at he ⊢
          omega
        rw [if_neg he, succeeds_sendSocketData hu]
        simp [LoginOk, hp, he, hlarge]

/-- The autodetection may confirm the mode of the pool, and never changes it here. -/
theorem succeeds_subscribeReply (hu : s.uri? = some u) (m : Message) (jResult : Value) :
    Succeeds (subscribeReply s m jResult) ↔ LoginOk u.stratumMode m.isSuccess jResult ∧
      (m.isSuccess ∨ u.stratumModeConfirmed ∧ ENERGISTRATUM < u.stratumMode → CanSend s u) ∧
      (m.isSuccess → u.stratumMode = NRGPROXY → CanReport s) := by
  have hdeq : s.dequeueResponsePlea.uri? = some u := hu
  have hlogin : Succeeds (loginReply s.dequeueResponsePlea m jResult) ↔
      LoginOk u.stratumMode m.isSuccess jResult ∧
      (m.isSuccess ∨ ENERGISTRATUM < u.stratumMode → CanSend s u) ∧
      (m.isSuccess → u.stratumMode = NRGPROXY → u.stratumModeConfirmed → CanReport s) :=
    succeeds_loginReply hdeq m jResult
  have hset : (s.dequeueResponsePlea.setStratumMode u.stratumMode true).uri? =
      some { u with stratumModeConfirmed := true } := by
    rw [State.setStratumMode, State.uri?_modifyUri, hdeq]
    rfl
  rw [subscribeReply, State.uri_eq_ok_iff.mpr hdeq, ok_bind]
  cases hconfirmed : u.stratumModeConfirmed with
  | true =>
    rw [if_neg (by decide), hlogin]
    simp [hconfirmed]
  | false =>
    rw [if_pos (by decide)]
    cases hsuccess : m.isSuccess with
    | false => simp [LoginOk]
    | true =>
      rw [if_neg (by decide)]
      by_cases hmode : u.stratumMode ≤ ENERGISTRATUM
      · rw [if_pos hmode, succeeds_loginReply hset, canSend_setStratumMode,
          canReport_setStratumMode, hsuccess]
        simp only [true_or, forall_const, and_congr_right_iff]
        exact fun _ => Iff.rfl
      · have hproxy : u.stratumMode ≠ NRGPROXY := by
          rintro h
          exact hmode (h ▸ by decide)
        rw [if_neg hmode, hlogin, hsuccess]
        simp [hproxy]

theorem succeeds_reply (hu : s.uri? = some u) (m : Message) (jResult : Value) :
    Succeeds (reply s m jResult) ↔
      (m.id = 1 → LoginOk u.stratumMode m.isSuccess jResult) ∧
      (m.id = 1 ∧ (m.isSuccess ∨ u.stratumModeConfirmed ∧ ENERGISTRATUM < u.stratumMode) →
        CanSend s u) ∧
      (m.id = 1 ∧ m.isSuccess ∧ u.stratumMode = NRGPROXY ∨
        m.id = 3 ∧ successOf m jResult ∧ u.stratumModeConfirmed ∨ m.id = 4 → CanReport s) := by
  rw [reply]
  by_cases h1 : m.id = 1
  · rw [if_pos h1, succeeds_subscribeReply hu]
    simp [h1]
  · rw [if_neg h1]
    by_cases h3 : m.id = 3
    · rw [if_pos h3, succeeds_authorizeReply hu]
      simp [h3]
    · rw [if_neg h3]
      by_cases h4 : m.id = 4
      · rw [if_pos h4, onSolutionAnswered, succeeds_bind_iff (P := True) fun _ => by simp, and_true,
          succeeds_activeUri]
        constructor
        · intro h
          exact ⟨fun hid => absurd hid h1, fun hid => absurd hid.1 h1, fun _ => h⟩
        · intro h
          exact h.2.2 (.inr (.inr h4))
      · rw [if_neg h4]
        refine iff_of_true ?_ ⟨fun h => absurd h h1, fun h => absurd h.1 h1, ?_⟩
        · split <;> exact succeeds_ok _
        · rintro (h | h | h)
          · exact absurd h.1 h1
          · exact absurd h.1 h3
          · exact absurd h h4

/-- A job is taken exactly if all it needs converts. The coinbase parts were read before. -/
theorem succeeds_takeJob (s : State) {jPrm : Value} (h1 : (param jPrm 2).isScalar)
    (h2 : (param jPrm 3).isScalar) : Succeeds (takeJob s jPrm) ↔ JobOk jPrm := by
  rw [takeJob, succeeds_bind_throws_iff (P := Succeeds (Work.ofStratum jPrm s.job.extraNonce1
    s.job.nextWorkTarget)), Value.succeeds_asBool, succeeds_ofStratum]
  · constructor
    · rintro ⟨hclean, hprev, hversion, htime, hbits, hheight, -, -, hbranches, hname, -⟩
      exact ⟨hname, hprev, hbranches, hversion, hbits, htime, hclean, hheight⟩
    · intro h
      exact ⟨h.cleanJobs, h.prevHash, h.version, h.time, h.bits, h.height, h1, h2, h.branches,
        h.jobName, trivial⟩
  · intro resetJob
    rw [succeeds_bind_throws_iff (P := True), and_true]
    intro work
    split <;> simp

theorem succeeds_miningNotify (s : State) (jPrm : Value) :
    Succeeds (miningNotify s jPrm) ↔ NotifyOk jPrm := by
  rw [miningNotify, NotifyOk]
  by_cases harray : jPrm.isArray
  · simp only [harray, if_true, forall_const]
    rw [succeeds_bind_paramText]
    refine and_congr_right fun h1 => ?_
    by_cases hempty1 : (param jPrm 2).text = ""
    · rw [if_pos hempty1]
      simp [hempty1]
    · rw [if_neg hempty1, succeeds_bind_paramText]
      simp only [ne_eq, hempty1, not_false_eq_true, forall_const]
      refine and_congr_right fun h2 => ?_
      by_cases hempty2 : (param jPrm 3).text = ""
      · rw [if_pos hempty2]
        simp [hempty2]
      · rw [if_neg hempty2, succeeds_takeJob s h1 h2]
        simp [hempty2]
  · simp [harray]

theorem succeeds_miningSetDifficulty (s : State) (jPrm : Value) :
    Succeeds (miningSetDifficulty s jPrm) ↔ DifficultyOk jPrm := by
  rw [miningSetDifficulty, DifficultyOk]
  by_cases harray : jPrm.isArray
  · simp only [harray, if_true, forall_const]
    rw [succeeds_bind_throws]
    refine exists_congr fun diff => and_congr ?_ ?_
    · rw [Value.asDouble]
      cases (jPrm.getAt 0 (.int 1)).doubleOf <;> simp
    · rw [← diffToTarget_raise_ok_iff]
      cases diffToTarget (raiseDifficulty diff) with
      | ok target => simp
      | error e =>
        cases e with
        | undefinedConversion | threw e => simp
  · simp [harray]

theorem succeeds_miningSetExtranonce (s : State) (jPrm : Value) :
    Succeeds (miningSetExtranonce s jPrm) ↔ ExtranonceOk jPrm := by
  rw [miningSetExtranonce, ExtranonceOk]
  by_cases harray : jPrm.isArray
  · simp only [harray, if_true, forall_const]
    rw [succeeds_bind_text]
    simp [param]
  · simp [harray]

/-- Notifications are ignored until the mode of the pool is confirmed. -/
theorem succeeds_notification (hu : s.uri? = some u) (m : Message) (jPrm : Value) :
    Succeeds (notification s m jPrm) ↔ u.stratumModeConfirmed →
      NotificationOk m.method jPrm ∧
      (m.method ∉ ["mining.notify", "mining.set_difficulty", "mining.set_extranonce"] →
        CanSend s u) := by
  rw [notification, State.uri_eq_ok_iff.mpr hu, ok_bind]
  cases u.stratumModeConfirmed with
  | false => simp
  | true =>
    simp only [Bool.not_true, Bool.false_eq_true, if_false, forall_const, NotificationOk]
    split
    next hnotify => simp [succeeds_miningNotify, hnotify]
    next hnotify =>
      split
      next hdiff => simp [succeeds_miningSetDifficulty, hdiff]
      next hdiff =>
        split
        next hnonce => simp [succeeds_miningSetExtranonce, hnonce]
        next hnonce =>
          have hsend : ∀ jReq, Succeeds (sendSocketData s jReq) ↔ CanSend s u :=
            succeeds_sendSocketData hu
          split <;> simp [hsend, hnotify, hdiff, hnonce]

theorem succeeds_dispatch (hu : s.uri? = some u) (m : Message) (v : Value) :
    Succeeds (dispatch s u m v) ↔ ((m.ofProxy v u.stratumMode).invalid v = false →
      BodyOk u.stratumMode u.stratumModeConfirmed (m.ofProxy v u.stratumMode) v ∧
      (Sends u (m.ofProxy v u.stratumMode) v → CanSend s u) ∧
      (Reports u (m.ofProxy v u.stratumMode) v → CanReport s)) := by
  cases hvalid : (m.ofProxy v u.stratumMode).invalid v with
  | true => simp [dispatch_invalid hvalid]
  | false =>
    rw [BodyOk, Sends, Reports, forall_prop_of_true rfl]
    cases hnotice : noticeOf u.stratumMode (m.ofProxy v u.stratumMode) v with
    | some method =>
      rw [dispatch_notice hvalid hnotice, succeeds_notification hu]
      dsimp only
      constructor
      · intro h
        exact ⟨fun hc => (h hc).1, fun hc => (h hc.1).2 hc.2,
          fun hc => absurd hc.1 (Option.some_ne_none method)⟩
      · intro h hc
        exact ⟨h.1 hc, fun hother => h.2.1 ⟨hc, hother⟩⟩
    | none =>
      rw [dispatch_reply hvalid hnotice, succeeds_reply hu]
      simp

end Handlers

/-- `processResponse` returns, and a message that is not taken as new work changes no work. -/
def Survives (s : State) (v : Value) : Prop :=
  ∃ t, processResponse s v = .ok t ∧ ∀ u, s.uri? = some u → ¬ AcceptsWork u v → SameWork s t

theorem ofProxy_errReason (m : Message) (reason : String) (v : Value) (mode : Nat) :
    Message.ofProxy { m with errReason := reason } v mode =
      { m.ofProxy v mode with errReason := reason } := by
  rw [Message.ofProxy, Message.ofProxy]
  split <;> rfl

/-- The reason of an error is only logged. -/
theorem retrieve_ofProxy {v : Value} {m : Message} (hm : retrieve v = .ok m) (mode : Nat) :
    m.ofProxy v mode = { (plainMessage v).ofProxy v mode with errReason := m.errReason } := by
  rw [retrieve_eq hm]
  exact ofProxy_errReason _ _ v mode

theorem succeeds_processResponse {s : State} {u : Uri} (hu : s.uri? = some u) (v : Value) :
    Succeeds (processResponse s v) ↔
      Digestible u.stratumMode u.stratumModeConfirmed v ∧ Equipped s u v := by
  have hdispatch : ∀ m, retrieve v = .ok m → (Succeeds (dispatch s u m v) ↔
      (((plainMessage v).ofProxy v u.stratumMode).invalid v = false →
        BodyOk u.stratumMode u.stratumModeConfirmed ((plainMessage v).ofProxy v u.stratumMode) v) ∧
      Equipped s u v) := by
    intro m hm
    rw [succeeds_dispatch hu, retrieve_ofProxy hm]
    constructor
    · intro h
      exact ⟨fun hvalid => (h hvalid).1, fun hvalid => (h hvalid).2.1, fun hvalid => (h hvalid).2.2⟩
    · intro h hvalid
      exact ⟨h.1 hvalid, h.2.send hvalid, h.2.report hvalid⟩
  rw [processResponse, succeeds_bind_throws, Digestible, ← succeeds_retrieve]
  constructor
  · rintro ⟨m, hm, hrest⟩
    rw [State.uri_eq_ok_iff.mpr hu, ok_bind, hdispatch m hm] at hrest
    exact ⟨⟨⟨m, hm⟩, hrest.1⟩, hrest.2⟩
  · rintro ⟨⟨⟨m, hm⟩, hbody⟩, hequipped⟩
    refine ⟨m, hm, ?_⟩
    rw [State.uri_eq_ok_iff.mpr hu, ok_bind, hdispatch m hm]
    exact ⟨hbody, hequipped⟩

theorem keeps_processResponse {s : State} {u : Uri} (hu : s.uri? = some u) {v : Value}
    (h : ¬ AcceptsWork u v) : Handles (fun _ _ => True) SameWork s (processResponse s v) := by
  cases hm : retrieve v with
  | error e =>
    rw [processResponse, hm]
    trivial
  | ok m =>
    refine allows_sameWork.processResponse_of_pleas (fun _ _ => ⟨rfl, rfl, rfl⟩) ?_
    have hplain := retrieve_ofProxy hm u.stratumMode
    rw [State.deedFor, hm, hu]
    dsimp only
    cases hdeed : deedOf u m v with
    | login isSuccess proxy =>
      exact ⟨fun _ => ⟨rfl, rfl, rfl⟩, fun _ _ => ⟨fun _ => ⟨rfl, rfl, rfl⟩, fun _ => ⟨rfl, rfl, rfl⟩⟩⟩
    | authorization isSuccess => exact ⟨fun _ => ⟨rfl, rfl, rfl⟩, fun _ _ => ⟨rfl, rfl, rfl⟩⟩
    | job jPrm =>
      have hnotice := notice_of_job (deedOf_eq_job.mp hdeed)
      rw [hplain] at hnotice
      exact absurd hnotice h
    | difficulty =>
      have hnotice := notice_of_difficulty hdeed
      rw [hplain] at hnotice
      exact absurd hnotice h
    | other => trivial

theorem exists_uri_of_processResponse {s t : State} {v : Value} (h : processResponse s v = .ok t) :
    ∃ u, s.uri? = some u := by
  obtain ⟨m, -, hrest⟩ := bind_eq_ok.mp h
  obtain ⟨u, hu, -⟩ := bind_eq_ok.mp hrest
  exact ⟨u, State.uri_eq_ok_iff.mp hu⟩

/-- In every state the client survives exactly the messages that are digestible for the mode of the
pool that `m_conn` points to, while what their branch uses is there. -/
theorem survives_iff (s : State) (v : Value) :
    Survives s v ↔ ∃ u, s.uri? = some u ∧
      Digestible u.stratumMode u.stratumModeConfirmed v ∧ Equipped s u v := by
  constructor
  · rintro ⟨t, ht, -⟩
    obtain ⟨u, hu⟩ := exists_uri_of_processResponse ht
    exact ⟨u, hu, (succeeds_processResponse hu v).mp ⟨t, ht⟩⟩
  · rintro ⟨u, hu, hok⟩
    obtain ⟨t, ht⟩ := (succeeds_processResponse hu v).mpr hok
    refine ⟨t, ht, fun u' hu' hnew => ?_⟩
    exact (keeps_processResponse hu' hnew).ok ht

/-- A client of one pool whose mode is confirmed. -/
def confirmedClient : State :=
  { State.initial ⟨240, 4, "energiminer", fun _ => [], fun _ => none⟩
      [⟨"pool", 3333, "user", "x", "", .none, 0, 0, true, false⟩] 3 0 with conn := some 0 }

/-- The line `5` ends the program, since a number has no members. -/
theorem number_ends_program :
    processResponse confirmedClient (.int 5) = .error (.threw .logicError) ∧
      ¬ Survives confirmedClient (.int 5) := by
  have hrun : processResponse confirmedClient (.int 5) = .error (.threw .logicError) := rfl
  refine ⟨hrun, ?_⟩
  rintro ⟨t, ht, -⟩
  rw [hrun] at ht
  cases ht

end Energiminer.Stratum
