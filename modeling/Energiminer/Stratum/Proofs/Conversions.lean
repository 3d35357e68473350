import Energiminer.Stratum.ProcessResponse

/-!
# The conversions that a message must allow

`processResponse` converts values of a message without looking at their types first. `Digestible`
collects what every conversion asks of the message, for a pool in a given mode, and the lemmas give
for the conversions themselves when they succeed.
-/

namespace Energiminer.Stratum
open Misc Misc.Json Misc.Except Primitives

/-- The conversions made on every message: its members, the id, the texts of an error, the
method. -/
structure HeaderOk (v : Value) : Prop where
  members : v.hasMembers
  id : ((v.member? "id").getD (.int 0)).uintOf.isSome
  error : ∀ x ∈ (memberOf v "error").values, x.isScalar
  method : ((v.member? "method").getD (.string "")).isScalar

/-- The values that `processResponse` retrieves, without the reason of an error. -/
def plainMessage (v : Value) : Message where
  rpcVer := if (v.member? "jsonrpc").isSome then 2 else 1
  id := BitVec.ofNat 32 (((v.member? "id").getD (.int 0)).uintOf.getD 0)
  isSuccess := (memberOf v "error").empty
  errReason := ""
  method := ((v.member? "method").getD (.string "")).text
  isNotification := decide (((v.member? "method").getD (.string "")).text ≠ "" ∨
    BitVec.ofNat 32 (((v.member? "id").getD (.int 0)).uintOf.getD 0) = 0)

/-- Parameter `i` of a notification, or the empty text. -/
def param (jPrm : Value) (i : Nat) : Value := jPrm.getAt i (.string "")

/-- A transaction of a job: an object, or null, with a scalar as its data. -/
def BranchOk (branch : Value) : Prop :=
  branch.hasMembers ∧ (memberOf branch "data").isScalar

/-- The parameters that make a job. -/
structure JobOk (jPrm : Value) : Prop where
  jobName : (param jPrm 0).isScalar
  prevHash : (param jPrm 1).isScalar
  branches : ∀ branch ∈ (param jPrm 4).values, BranchOk branch
  version : (param jPrm 5).isScalar ∧ IsHexNumber (param jPrm 5).text.toList
  bits : (param jPrm 6).isScalar ∧ IsHexNumber (param jPrm 6).text.toList
  time : (param jPrm 7).isScalar ∧ IsHexNumber (param jPrm 7).text.toList
  cleanJobs : (param jPrm 8).boolOf.isSome
  height : (param jPrm 9).uintOf.isSome

/-- The coinbase parts are read one after the other, the rest only if neither is empty. -/
def NotifyOk (jPrm : Value) : Prop :=
  jPrm.isArray → (param jPrm 2).isScalar ∧ ((param jPrm 2).text ≠ "" →
    (param jPrm 3).isScalar ∧ ((param jPrm 3).text ≠ "" → JobOk jPrm))

/-- A difficulty is a number, and scaled it fits 64 bits. -/
def DifficultyOk (jPrm : Value) : Prop :=
  jPrm.isArray → ∃ diff, (jPrm.getAt 0 (.int 1)).doubleOf = some diff ∧
    ConvertibleDifficulty (raiseDifficulty diff)

def ExtranonceOk (jPrm : Value) : Prop := jPrm.isArray → (param jPrm 0).isScalar

/-- The parameters of a notification, by its method. -/
def NotificationOk (method : String) (jPrm : Value) : Prop :=
  if method = "mining.notify" then NotifyOk jPrm
  else if method = "mining.set_difficulty" then DifficultyOk jPrm
  else if method = "mining.set_extranonce" then ExtranonceOk jPrm
  else True

/-- The result of a login, which a proxy or an energi pool answers with an extra nonce. -/
def LoginOk (mode : Nat) (isSuccess : Bool) (jResult : Value) : Prop :=
  isSuccess → mode = NRGPROXY ∨ mode = ENERGISTRATUM → !jResult.empty → jResult.isArray →
    (param jResult 1).isScalar

/-- The method that a message is handled as, if it is handled as a notification. -/
def noticeOf (mode : Nat) (m : Message) (v : Value) : Option String :=
  if m.isNotification then some m.method
  else if m.id = 5 ∧ mode = NRGPROXY ∧ (memberOf v "result").isArray then some "mining.notify"
  else none

/-- What a message that passes the sanity checks must satisfy. -/
def BodyOk (mode : Nat) (confirmed : Bool) (m : Message) (v : Value) : Prop :=
  match noticeOf mode m v with
  | some method => confirmed → NotificationOk method (memberOf v "params")
  | none => m.id = 1 → LoginOk mode m.isSuccess (memberOf v "result")

/-- Every conversion that `processResponse` makes on the message succeeds, for a pool in this
mode. -/
def Digestible (mode : Nat) (confirmed : Bool) (v : Value) : Prop :=
  HeaderOk v ∧ (((plainMessage v).ofProxy v mode).invalid v = false →
    BodyOk mode confirmed ((plainMessage v).ofProxy v mode) v)

section Conversions
variable {v : Value}

theorem succeeds_bind_throws {α β : Type} {x : Except Exn α} {f : α → Except Fault β} :
    Succeeds (throws x >>= f) ↔ ∃ a, x = .ok a ∧ Succeeds (f a) := by
  rw [succeeds_bind]
  exact exists_congr fun a => and_congr_left' mapError_eq_ok

/-- A conversion whose value does not matter for what follows. -/
theorem succeeds_bind_throws_iff {α β : Type} {x : Except Exn α} {f : α → Except Fault β} {P : Prop}
    (h : ∀ a, Succeeds (f a) ↔ P) : Succeeds (throws x >>= f) ↔ Succeeds x ∧ P := by
  rw [succeeds_bind_iff h]
  exact and_congr_left' (exists_congr fun a => mapError_eq_ok)

theorem get_ok (h : v.hasMembers) (key : String) (d : Value) :
    v.get key d = .ok ((v.member? key).getD d) := by
  rw [Value.get, if_pos h]

theorem asString_ok (h : v.isScalar) : v.asString = .ok v.text := by
  rw [Value.asString, if_pos h]

/-- A text is read, and then what follows decides. -/
theorem succeeds_bind_text {β : Type} {f : String → Except Fault β} :
    Succeeds (throws v.asString >>= f) ↔ v.isScalar ∧ Succeeds (f v.text) := by
  rw [succeeds_bind_throws]
  constructor
  · rintro ⟨text, htext, hf⟩
    have hscalar : v.isScalar := Value.succeeds_asString.mp ⟨text, htext⟩
    cases (asString_ok hscalar).symm.trans htext
    exact ⟨hscalar, hf⟩
  · rintro ⟨hscalar, hf⟩
    exact ⟨v.text, asString_ok hscalar, hf⟩

theorem succeeds_bind_paramText {β : Type} {jPrm : Value} {i : Nat} {f : String → Except Fault β} :
    Succeeds (throws (Work.paramText jPrm i) >>= f) ↔
      (param jPrm i).isScalar ∧ Succeeds (f (param jPrm i).text) := succeeds_bind_text

theorem succeeds_paramText (jPrm : Value) (i : Nat) :
    Succeeds (Work.paramText jPrm i) ↔ (param jPrm i).isScalar :=
  Value.succeeds_asString

theorem succeeds_paramHex (jPrm : Value) (i : Nat) :
    Succeeds (Work.paramHex jPrm i) ↔
      (param jPrm i).isScalar ∧ IsHexNumber (param jPrm i).text.toList := by
  rw [Work.paramHex, succeeds_bind]
  constructor
  · rintro ⟨text, htext, hhex⟩
    have hscalar := (succeeds_paramText jPrm i).mp ⟨text, htext⟩
    have hok : Work.paramText jPrm i = .ok (param jPrm i).text := asString_ok hscalar
    cases hok.symm.trans htext
    rw [succeeds_bind_iff (P := True) fun _ => by simp, and_true, succeeds_stoul16] at hhex
    exact ⟨hscalar, hhex⟩
  · rintro ⟨hscalar, hhex⟩
    refine ⟨_, asString_ok hscalar, ?_⟩
    rw [succeeds_bind_iff (P := True) fun _ => by simp, and_true, succeeds_stoul16]
    exact hhex

theorem succeeds_branchData (branch : Value) : Succeeds (Work.branchData branch) ↔ BranchOk branch := by
  rw [Work.branchData, succeeds_bind, BranchOk, Value.index]
  by_cases h : branch.hasMembers
  · rw [get_ok h]
    constructor
    · rintro ⟨data, hdata, hstring⟩
      cases hdata
      exact ⟨h, Value.succeeds_asString.mp hstring⟩
    · rintro ⟨_, hscalar⟩
      exact ⟨_, rfl, Value.succeeds_asString.mpr hscalar⟩
  · rw [Value.get, if_neg h]
    constructor
    · rintro ⟨_, hdata, _⟩
      cases hdata
    · rintro ⟨hmembers, _⟩
      exact absurd hmembers h

/-- The work of a job is built exactly from parameters that convert. -/
theorem succeeds_ofStratum (jPrm : Value) (extraNonce1 : String) (hashTarget : ArithUint256) :
    Succeeds (Work.ofStratum jPrm extraNonce1 hashTarget) ↔
      (param jPrm 1).isScalar ∧
      ((param jPrm 5).isScalar ∧ IsHexNumber (param jPrm 5).text.toList) ∧
      ((param jPrm 7).isScalar ∧ IsHexNumber (param jPrm 7).text.toList) ∧
      ((param jPrm 6).isScalar ∧ IsHexNumber (param jPrm 6).text.toList) ∧
      (param jPrm 9).uintOf.isSome ∧ (param jPrm 2).isScalar ∧ (param jPrm 3).isScalar ∧
      (∀ branch ∈ (param jPrm 4).values, BranchOk branch) ∧ (param jPrm 0).isScalar ∧ True := by
  simp only [← succeeds_paramHex]
  simp only [← succeeds_paramText, ← succeeds_branchData, ← succeeds_mapM,
    ← Value.succeeds_asUInt]
  rw [Work.ofStratum]
  iterate 9 refine succeeds_bind_iff fun _ => ?_
  simp

/-- The texts of an error are joined if each of them is one. -/
theorem succeeds_errorText (error : Value) :
    Succeeds (errorText error) ↔ ∀ x ∈ error.values, x.isScalar := by
  cases error with
  | array elements | object members =>
    simp only [errorText, Value.values]
    rw [succeeds_bind_iff (P := True) fun _ => by simp, and_true, succeeds_mapM]
    simp only [Value.succeeds_asString]
  | _ => simp [errorText, Value.values, Value.asString, Value.isScalar]

theorem succeeds_processError (h : v.hasMembers) :
    Succeeds (processError v) ↔ ∀ x ∈ (memberOf v "error").values, x.isScalar := by
  rw [processError, Value.isMember, if_pos h, get_ok h, ok_bind, ok_bind]
  split
  next => exact succeeds_errorText (memberOf v "error")
  next hnone =>
    -- the member is missing or null, and null has no values
    have hnull : memberOf v "error" = .null := by
      rw [memberOf]
      cases hm : v.member? "error" with
      | none => rfl
      | some error =>
        rw [hm] at hnone
        cases error <;> simp [Value.isNull] at hnone ⊢
    simp [hnull, Value.values]

theorem values_eq_nil_of_empty (h : v.empty) : v.values = [] := by
  cases v with
  | array elements | object members => simpa [Value.empty, Value.values] using h
  | _ => rfl

theorem succeeds_errReasonOf (h : v.hasMembers) :
    Succeeds (errReasonOf v (memberOf v "error").empty) ↔
      ∀ x ∈ (memberOf v "error").values, x.isScalar := by
  rw [errReasonOf]
  by_cases hempty : (memberOf v "error").empty
  · simp [hempty, values_eq_nil_of_empty hempty]
  · rw [if_neg hempty, succeeds_processError h]

theorem succeeds_retrieve : Succeeds (retrieve v) ↔ HeaderOk v := by
  by_cases h : v.hasMembers
  · have hmember : v.isMember "jsonrpc" = .ok (v.member? "jsonrpc").isSome := by
      rw [Value.isMember, if_pos h]
    have hiff : Succeeds (((v.member? "id").getD (.int 0)).asUInt) ∧
        Succeeds (errReasonOf v (memberOf v "error").empty) ∧
        Succeeds (((v.member? "method").getD (.string "")).asString) ∧ True ↔ HeaderOk v := by
      rw [Value.succeeds_asUInt, succeeds_errReasonOf h, Value.succeeds_asString]
      exact ⟨fun ⟨hid, herror, hmethod, _⟩ => ⟨h, hid, herror, hmethod⟩,
        fun hv => ⟨hv.id, hv.error, hv.method, trivial⟩⟩
    rw [retrieve, hmember, get_ok h, get_ok h, get_ok h, ← hiff]
    simp only [ok_bind]
    refine succeeds_bind_iff fun id => ?_
    refine succeeds_bind_iff fun reason => ?_
    refine succeeds_bind_iff fun method => ?_
    simp
  · rw [retrieve, Value.isMember, if_neg h]
    exact ⟨fun hs => absurd hs (not_succeeds_error _), fun hv => absurd hv.members h⟩

theorem retrieve_eq {m : Message} (h : retrieve v = .ok m) :
    m = { plainMessage v with errReason := m.errReason } := by
  have hv : HeaderOk v := succeeds_retrieve.mp ⟨m, h⟩
  have hmember : v.isMember "jsonrpc" = .ok (v.member? "jsonrpc").isSome := by
    rw [Value.isMember, if_pos hv.members]
  obtain ⟨n, hn⟩ := Option.isSome_iff_exists.mp hv.id
  have hid : ((v.member? "id").getD (.int 0)).asUInt = .ok (BitVec.ofNat 32 n) := by
    rw [Value.asUInt, hn]
  rw [retrieve, hmember, get_ok hv.members, get_ok hv.members, get_ok hv.members] at h
  simp only [bind, Except.bind, hid, asString_ok hv.method, pure, Except.pure] at h
  split at h
  · cases h
  · cases h
    simp only [plainMessage, hn, memberOf, Option.getD_some]

end Conversions

end Energiminer.Stratum
