import Energiminer.Stratum.State

/-!
# Messages from the pool

`StratumClient::processResponse` (`StratumClient.cpp:599-922`) with `processError`,
`processExtranonce` and `sendSocketData`, and the callbacks of `PoolManager` that it calls. The
texts that are only logged are left out. An exception of a conversion becomes `Fault.threw`:
nothing above `processResponse` catches it.
-/

namespace Energiminer.Stratum
open Misc Misc.Json Primitives

/-- An exception leaves the handler. -/
def throws {α : Type} (x : Except Exn α) : Except Fault α := x.mapError .threw

/-- `sendSocketData(jReq)` (`StratumClient.cpp:1049-1063`). -/
def sendSocketData (s : State) (jReq : Value) : Except Fault State :=
  if !s.isConnected then .ok s
  else do
    let u ← s.uri
    let _ ← State.deref (s.chosen u)
    pure { s.markUse u with out := s.out.send (writeRequest s.cfg.jWriter jReq) }

/-- The callback `onConnected` of the manager (`PoolManager.cpp:24-43`). -/
def onConnected (s : State) : Except Fault State := do
  let s := { s with manager.connectionAttempt := 0 }
  let _ ← s.activeUri
  let armed := decide (s.manager.activeConnectionIdx ≠ 0 ∧ 0 < s.manager.failoverTimeout)
  pure { s with manager.failoverArmed := armed, plant.isMining := true }

/-- The callbacks `onSolutionAccepted` and `onSolutionRejected`, which log the host
(`PoolManager.cpp:60-77`). -/
def onSolutionAnswered (s : State) : Except Fault State := do
  let _ ← s.activeUri
  pure s

/-- The text of an error that is not null: of a scalar, of the elements of an array, or of the
members of an object with their names. -/
def errorText (error : Value) : Except Exn String :=
  match error with
  | .array elements => do
    let texts ← elements.mapM Value.asString
    pure (String.join (texts.map (· ++ " ")))
  | .object members => do
    let texts ← (members.map Prod.snd).mapM Value.asString
    pure (String.join (List.zipWith (fun name text => name ++ ":" ++ text ++ " ")
      (members.map Prod.fst) texts))
  | _ => error.asString

/-- `processError` (`StratumClient.cpp:565-591`). -/
def processError (responseObject : Value) : Except Exn String := do
  let isMember ← responseObject.isMember "error"
  let error ← responseObject.get "error" .null
  if isMember && !error.isNull then errorText error else pure "Unknown error"

/-- The values that `processResponse` retrieves first. -/
structure Message where
  rpcVer : Nat
  id : BitVec 32
  isSuccess : Bool
  errReason : String
  method : String
  isNotification : Bool

/-- `_isSuccess ? "" : processError(responseObject)`. -/
def errReasonOf (responseObject : Value) (isSuccess : Bool) : Except Exn String :=
  if isSuccess then .ok "" else processError responseObject

/-- The essential values of a message, before the stratum mode is looked at. -/
def retrieve (responseObject : Value) : Except Exn Message := do
  let isRpc2 ← responseObject.isMember "jsonrpc"
  let idValue ← responseObject.get "id" (.int 0)
  let id ← idValue.asUInt
  let error ← responseObject.get "error" .null
  let isSuccess := error.empty
  let errReason ← errReasonOf responseObject isSuccess
  let methodValue ← responseObject.get "method" (.string "")
  let method ← methodValue.asString
  pure ⟨if isRpc2 then 2 else 1, id, isSuccess, errReason, method, decide (method ≠ "" ∨ id = 0)⟩

/-- A member that is missing is null. -/
def memberOf (responseObject : Value) (key : String) : Value :=
  (responseObject.member? key).getD .null

/-- Notifications of new jobs of a proxy carry no method. -/
def Message.ofProxy (m : Message) (responseObject : Value) (mode : Nat) : Message :=
  if m.isNotification && decide (m.method = "") && decide (mode = NRGPROXY) &&
      (memberOf responseObject "result").isArray then
    { m with method := "mining.notify" }
  else m

/-- The sanity checks on a message fail. -/
def Message.invalid (m : Message) (responseObject : Value) : Bool :=
  (decide (m.rpcVer = 2) &&
    !(match memberOf responseObject "jsonrpc" with
      | .string version => decide (version = "2.0")
      | _ => false)) ||
  (m.isNotification && (memberOf responseObject "params").empty &&
    (memberOf responseObject "result").empty)

/-- The `mining.authorize` request. -/
def authorizeRequest (u : Uri) (rpc2 : Bool) : Value :=
  .object (("id", .int 3) :: (if rpc2 then [("jsonrpc", .string "2.0")] else []) ++
    [("method", .string "mining.authorize"),
      ("params", .array [.string (u.user ++ u.path), .string u.pass])])

/-- `processExtranonce` with element one of the result, if the result is a filled array. -/
def extranonceOfResult (s : State) (jResult : Value) : Except Fault State :=
  if !jResult.empty && jResult.isArray then do
    let enonce ← throws (jResult.getAt 1 (.string "")).asString
    pure { s with job.extraNonce1 := enonce }
  else .ok s

/-- A login that failed: the pool is given up. -/
def giveUp (s : State) : State := s.markUnrecoverable.post .disconnect

/-- `if (m_onConnected && m_conn->StratumModeConfirmed())`: there is a valid application
connection, not only a socket connection. -/
def announce (s : State) (u : Uri) : Except Fault State :=
  if u.stratumModeConfirmed then onConnected { s with job.currentTimestamp := s.clock } else .ok s

/-- The answer to the login, by the mode of the pool. -/
def loginReply (s : State) (m : Message) (jResult : Value) : Except Fault State := do
  let u ← s.uri
  let answered := { s with flags.subscribed := m.isSuccess }
  if u.stratumMode = STRATUM then
    if !m.isSuccess then pure (giveUp answered)
    else
      let s := { answered with flags.authpending := true }
      sendSocketData (s.enqueueResponsePlea (some 3)) (authorizeRequest u true)
  else if u.stratumMode = NRGPROXY then
    if !m.isSuccess then pure (giveUp answered)
    else do
      let s ← extranonceOfResult answered jResult
      let s ← announce { s with flags.authorized := true } u
      sendSocketData (s.enqueueResponsePlea (some 3)) (authorizeRequest u true)
  else if u.stratumMode = ENERGISTRATUM then
    if !m.isSuccess then pure (giveUp answered)
    else do
      let s ← extranonceOfResult answered jResult
      sendSocketData (s.enqueueResponsePlea (some 3)) (authorizeRequest u false)
  else sendSocketData s .null

/-- The answer to the first message (id 1), which may also end a step of the autodetection. -/
def subscribeReply (s : State) (m : Message) (jResult : Value) : Except Fault State := do
  let s := s.dequeueResponsePlea
  let u ← s.uri
  if !u.stratumModeConfirmed then
    if !m.isSuccess then pure (s.post .disconnect)
    else if u.stratumMode ≤ ENERGISTRATUM then
      loginReply (s.setStratumMode u.stratumMode true) m jResult
    else loginReply s m jResult
  else loginReply s m jResult

/-- The success of an answer, evaluated again if the result is a truth value. -/
def successOf (m : Message) (jResult : Value) : Bool :=
  match jResult with
  | .bool b => m.isSuccess && b
  | _ => m.isSuccess

/-- The answer to `mining.authorize` (id 3). -/
def authorizeReply (s : State) (m : Message) (jResult : Value) : Except Fault State := do
  let s := (s.answered 3).dequeueResponsePlea
  let isSuccess := successOf m jResult
  let s := { s with flags.authpending := false, flags.authorized := isSuccess }
  if !isSuccess then pure (giveUp s)
  else do
    let u ← s.uri
    announce s u

/-- An error answer of a pool that numbers it 999. -/
def unnumberedReply (s : State) (m : Message) : State :=
  let s := s.dequeueResponsePlea
  if !m.isSuccess && (!s.flags.subscribed || !s.flags.authorized) then s.post .disconnect else s

/-- The `switch` over the id of an answer (`StratumClient.cpp:647-859`). -/
def reply (s : State) (m : Message) (jResult : Value) : Except Fault State :=
  if m.id = 1 then subscribeReply s m jResult
  else if m.id = 3 then authorizeReply s m jResult
  else if m.id = 4 then onSolutionAnswered (s.answered 4).dequeueResponsePlea.dequeueResponsePlea
  else if m.id = 999 then .ok (unnumberedReply s m)
  else .ok s

/-- The job of a `mining.notify` with both parts of a coinbase. -/
def takeJob (s : State) (jPrm : Value) : Except Fault State := do
  let resetJob ← throws (jPrm.getAt 8 (.string "")).asBool
  let work ← throws (Work.ofStratum jPrm s.job.extraNonce1 s.job.nextWorkTarget)
  if resetJob || !s.job.current.eqv work then
    pure { s with
      job.current := work, job.currentTimestamp := s.clock
      plant := s.plant.resetWork.setWork work }
  else pure s

/-- `mining.notify` (`StratumClient.cpp:867-886`): a job. -/
def miningNotify (s : State) (jPrm : Value) : Except Fault State :=
  if jPrm.isArray then do
    let coinbase1 ← throws (Work.paramText jPrm 2)
    if coinbase1 = "" then pure s
    else do
      let coinbase2 ← throws (Work.paramText jPrm 3)
      if coinbase2 = "" then pure s else takeJob s jPrm
  else .ok s

/-- `mining.set_difficulty`. -/
def miningSetDifficulty (s : State) (jPrm : Value) : Except Fault State :=
  if jPrm.isArray then do
    let diff ← throws (jPrm.getAt 0 (.int 1)).asDouble
    match diffToTarget (raiseDifficulty diff) with
    | .error .undefinedConversion => .error .undefinedConversion
    | .error (.threw e) => .error (.threw e)
    | .ok target => pure { s with job.nextWorkTarget := target, job.current := s.job.current.reset }
  else .ok s

/-- `mining.set_extranonce`. -/
def miningSetExtranonce (s : State) (jPrm : Value) : Except Fault State :=
  if jPrm.isArray then do
    let enonce ← throws (jPrm.getAt 0 (.string "")).asString
    pure { s with job.extraNonce1 := enonce }
  else .ok s

/-- The answer to `client.get_version`. -/
def versionAnswer (s : State) (m : Message) : Value :=
  .object ((if m.rpcVer = 1 then [("error", .null)] else []) ++
    ("id", .string (toString m.id.toInt)) ::
    (if m.rpcVer = 2 then [("jsonrpc", .string "2.0")] else []) ++
    [("result", .string s.cfg.projectNameWithVersion)])

/-- The answer to a method the client does not know. -/
def unknownMethodAnswer (m : Message) : Value :=
  .object ([("error", .string "Method not found"), ("id", .string (toString m.id.toInt))] ++
    if m.rpcVer = 2 then [("jsonrpc", .string "2.0")] else [])

/-- Unsolicited messages, which are handled once the mode of the pool is confirmed
(`StratumClient.cpp:863-921`). -/
def notification (s : State) (m : Message) (jPrm : Value) : Except Fault State := do
  let u ← s.uri
  if !u.stratumModeConfirmed then pure s
  else if m.method = "mining.notify" then miningNotify s jPrm
  else if m.method = "mining.set_difficulty" then miningSetDifficulty s jPrm
  else if m.method = "mining.set_extranonce" then miningSetExtranonce s jPrm
  else if m.method = "client.get_version" then sendSocketData s (versionAnswer s m)
  else sendSocketData s (unknownMethodAnswer m)

/-- The rest of `processResponse` for a message whose essential values are known. An answer with
id 5 of a proxy counts as a notification. -/
def dispatch (s : State) (u : Uri) (m : Message) (responseObject : Value) : Except Fault State :=
  let m := m.ofProxy responseObject u.stratumMode
  let result := memberOf responseObject "result"
  if m.invalid responseObject then
    .ok ({ s with flags.subscribed := false, flags.authorized := false }.post .disconnect)
  else if m.isNotification then notification s m (memberOf responseObject "params")
  else if m.id = 5 ∧ u.stratumMode = NRGPROXY ∧ result.isArray then
    notification s { m with method := "mining.notify" } (memberOf responseObject "params")
  else reply s m result

/-- `processResponse` (`StratumClient.cpp:599-922`). -/
def processResponse (s : State) (responseObject : Value) : Except Fault State := do
  let m ← throws (retrieve responseObject)
  let u ← s.uri
  dispatch s u m responseObject

end Energiminer.Stratum
