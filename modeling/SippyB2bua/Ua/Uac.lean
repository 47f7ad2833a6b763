import SippyB2bua.Ua.Uas

/-!
# The calling side of a call

The states of a user agent that calls: `UacStateIdle`, `UacStateTrying`,
`UacStateRinging`, `UacStateCancelling` and, for a re-INVITE, `UacStateUpdating`.
What `UacStateTrying` and `UacStateRinging` do alike with a final response is
written once, in `answered` and `rejected`.
-/

namespace SippyB2bua.Ua
open Lib (Text)

def textBadGateway : Text := "Bad Gateway".toList

namespace UacStateIdle

/-- The header that passes the credentials of the caller on. -/
def passAuth (req : SentRequest) (auth : Option Text) : M SentRequest := do
  match auth, (← getUA).passAuth with
  | some auth, true =>
    let req := { req with headers := req.headers ++ [⟨hfAuthorization, auth⟩] }
    upd fun ua => { ua with
      reqs := ua.reqs.map fun r => if r.1 = req.cseq then (r.1, req) else r }
    return req
  | _, _ => return req

def shorter (t : Time) : Option Time → Bool
  | none => true
  | some t' => t < t'

/-- The deadlines, and the one timer that is started first. -/
def armSetupTimers (rtime : Time) : M PUnit := do
  Ua.armSetupTimers rtime
  upd fun ua => { ua with noReplyTime := ua.noReplyTime.filter fun t =>
    t < 32 * second && shorter t ua.expireTime && shorter t ua.noProgressTime }
  match (← getUA).noReplyTime with
  | some t => upd fun ua => { ua with noReplyTimer := ua.noReplyTimer.arm (rtime + t) }
  | none => UasStateIdle.armFirst

def setTarget (cld : Option Text) : M PUnit := do
  match (← getUA).rAddr0 with
  | none => raise .typeError
  | some ((host, port), transport) =>
    upd fun ua => { ua with
      rTarget := some ⟨⟨host, some port, some transport, false, cld.getD []⟩, [], []⟩
      rTag := none }

def setup (event : CCEvent) (data : Setup) (maxForwards : Option ℤ) : M Ret := do
  upd fun ua => { ua with
    setupTs := ua.setupTs.or (some event.rtime), origin := some .callee }
  if ← UasStateGeneric.delayLocalSdpUpdate event data.body then return .none
  upd fun ua => { ua with lateMedia := ua.lateMedia || data.body.isNone }
  let callId := (← get).io.callId
  upd fun ua => { ua with cId := data.cId.or (some callId) }
  act .regConsumer
  setTarget data.cld
  let cseq := (← get).io.cseq
  upd fun ua => { ua with lCSeq := cseq, routes := [] }
  upd fun ua => { ua with lSDP := data.body }
  let req ← genRequest .invite data.body .none event.getExtraHeaders maxForwards
  let req ← passAuth req data.auth
  newUacTransaction req
  armSetupTimers event.rtime
  goto .uacTrying

def recvEvent (event : CCEvent) : M Ret := do
  match event.kind with
  | .setup data maxForwards => setup event data maxForwards
  | _ =>
    if event.final then
      setDisconnectTs event.rtime
      gotoWith .dead .disc event.rtime event.origin
    else return .none

end UacStateIdle

namespace UacStateTrying

/-- The far end says where to reach it. -/
def followContact (resp : Response) : M PUnit :=
  match resp.contacts with
  | [] => pure ⟨⟩
  | contact :: _ => do
    let contact ← ofLazy contact
    upd fun ua => { ua with rTarget := some contact }

def updateRoutes (resp : Response) : M PUnit := do
  followContact resp
  let routes ← ofLazy (resp.recordRoutes.mapM id)
  upd fun ua => { ua with routes := routes.reverse }
  followRoutes

/-- A 2xx. The answer of a late offer is acknowledged when the other side has one. -/
def answered (resp : Response) : M Ret := do
  updateRoutes resp
  let origin := (← getUA).origin
  match ← ofLazy resp.toTag with
  | none =>
    let event ← newEvent (.fail (some (.num 502, textBadGateway)) [] none) resp.rtime origin
    enqueue event
    sendBYE []
    setDisconnectTs resp.rtime
    gotoWith .failed .fail resp.rtime origin
  | some tag =>
    upd fun ua => { ua with rTag := some tag }
    if (← getUA).lateMedia = false ∨ resp.body = none then
      upd fun ua => { ua with lateMedia := false }
      let event ← newEvent (.connect (.num resp.scode) resp.reason resp.body) resp.rtime origin
      startCreditTimer resp.rtime
      upd fun ua => { ua with connectTs := some resp.rtime }
      let rval ← gotoWith .connected .conn resp.rtime origin
      queueRemote resp.body event
      return rval
    else
      let event ← newEvent (.preConnect (.num resp.scode) resp.reason resp.body) resp.rtime origin
      upd fun ua => { ua with pendingTr := true }
      queueRemote resp.body event
      goto .connected

/-- The challenges that are passed on to the caller. The code iterates over a single
header in the case of a proxy's challenges. -/
def challenges (resp : Response) : M (List Header) := do
  if (← getUA).passAuth then
    if resp.scode = 401 ∧ resp.wwwAuthenticate ≠ [] then
      let cs ← ofLazy (resp.wwwAuthenticate.mapM id)
      return cs.map fun c => ⟨"www-authenticate".toList, c.text⟩
    else if resp.scode = 407 ∧ resp.proxyAuthenticate ≠ [] then raise .typeError
    else return []
  else return []

/-- The redirect or the failure that a final response to an INVITE is reported as,
with the challenges of a failure. -/
def rejection (resp : Response) (challenges : M (List Header)) : M CCEvent := do
  let origin := (← getUA).origin
  let event ←
    if (resp.scode = 301 ∨ resp.scode = 302) ∧ resp.contacts ≠ [] then do
      let contact ← ofLazy ((resp.contacts.take 1).mapM id)
      newEvent (.redirect (some (.num resp.scode, resp.reason, resp.body,
        some contact))) resp.rtime origin
    else if resp.scode = 300 ∧ resp.contacts ≠ [] then do
      let contacts ← ofLazy (resp.contacts.mapM id)
      newEvent (.redirect (some (.num resp.scode, resp.reason, resp.body,
        some contacts))) resp.rtime origin
    else do
      let event ← newEvent (.fail (some (.num resp.scode, resp.reason)) [] none) resp.rtime origin
      let challenges ← challenges
      pure { event with kind := .fail (some (.num resp.scode, resp.reason)) challenges none }
  return { event with reason := attempt resp.reasonHf }

def rejected (resp : Response) (challenges : M (List Header)) : M Ret := do
  enqueue (← rejection resp challenges)
  setDisconnectTs resp.rtime
  gotoWith .failed .fail resp.rtime (← getUA).origin

/-- The timers that a response moves on, before the response itself is looked at. -/
def replied (scode : ℤ) : M PUnit := do
  if (← getUA).noReplyTimer.ref.isSome then
    cancelNoReplyTimer
    if scode = 100 ∧ (← getUA).noProgressTime.isSome then armNoProgressTimer
    else if scode < 200 ∧ (← getUA).expireTime.isSome then armExpireTimer

/-- `_recvResponse`. -/
def handleResponse (resp : Response) : M Ret := do
  upd fun ua => { ua with lastScode := resp.scode }
  replied resp.scode
  let origin := (← getUA).origin
  let ring : Kind := .ring (some (.num resp.scode, resp.reason, resp.body))
  if resp.scode = 100 then
    upd fun ua => { ua with p100Ts := ua.p100Ts.or (some resp.rtime) }
    enqueue (← newEvent ring resp.rtime origin)
    return .none
  progressed (resp.scode < 200)
  if resp.scode < 200 then
    let event ← newEvent ring resp.rtime origin
    queueRemote resp.body event
    upd fun ua => { ua with p1xxTs := some resp.rtime }
    gotoRinging .uacRinging resp.rtime origin
  else
    cancelExpireTimer
    if resp.scode < 300 then answered resp else rejected resp (challenges resp)

def abandon (scode : ℤ) : M PUnit := do
  if scode < 200 then cancelTransaction
  else if scode < 300 then sendBYE []

/-- `recvResponse`: an SDP error that `handler` raises ends the call. -/
def guardSdp (handler : M Ret) (resp : Response) : M Ret :=
  tryCatch handler fun ex => do
    if ex.isSdp then
      let origin := (← getUA).origin
      let event ← newEvent (.fail (some (.num ex.scode.1, ex.scode.2)) [] none) resp.rtime origin
      let event := { event with reason := ex.getReason }
      abandon resp.scode
      enqueue event
      upd fun ua => { ua with disconnectTs := some resp.rtime }
      gotoWith .failed .fail resp.rtime origin
    else throw ex

def recvResponse (resp : Response) : M Ret := guardSdp (handleResponse resp) resp

def recvEvent (event : CCEvent) : M Ret := do
  if event.final then
    cancelTransaction
    cancelExpireTimer
    cancelNoProgressTimer
    cancelNoReplyTimer
    setDisconnectTs event.rtime
    gotoWith .uacCancelling .disc event.rtime event.origin
  else return .none

end UacStateTrying

namespace UacStateRinging
open UacStateTrying

/-- `_recvResponse`. -/
def handleResponse (resp : Response) : M Ret := do
  let origin := (← getUA).origin
  if resp.scode < 200 then
    upd fun ua => { ua with p1xxTs := ua.p1xxTs.or (some resp.rtime), lastScode := resp.scode }
    let event ← newEvent (.ring (some (.num resp.scode, resp.reason, resp.body))) resp.rtime origin
    runRingCbs resp.rtime origin
    queueRemote resp.body event
    return .none
  else
    cancelExpireTimer
    if resp.scode < 300 then answered resp else rejected resp (pure [])

def recvResponse (resp : Response) : M Ret := guardSdp (handleResponse resp) resp

def recvEvent (event : CCEvent) : M Ret := do
  if event.final then
    cancelTransaction
    cancelExpireTimer
    setDisconnectTs event.rtime
    gotoWith .uacCancelling .disc event.rtime event.origin
  else return .none

end UacStateRinging

namespace UacStateUpdating

/-- `updateFailed`: the dialog is torn down after a re-INVITE. -/
def updateFailed (event : CCEvent) (byeReason disconnectReason : Option Text) : M Ret := do
  enqueue event
  sendBYE (match byeReason with
    | none => event.getExtraHeaders
    | some reason => [⟨hfReason, reason⟩])
  cancelCreditTimer
  upd fun ua => { ua with disconnectTs := some event.rtime }
  let disconnect ← newEvent (.disconnect none) event.rtime (← getUA).origin
  enqueue { disconnect with reason := disconnectReason }
  gotoWith .disconnected .disc event.rtime event.origin

def textMalformed : Text := "Malformed SDP Body received from downstream".toList

def updated (resp : Response) : M Ret := do
  let event ← newEvent (.connect (.num resp.scode) resp.reason resp.body) resp.rtime
    (← getUA).origin
  let failure ← tryCatch (do
    queueRemote resp.body event
    return none) fun ex => return some ex
  match failure with
  | none => goto .connected
  | some ex =>
    let event ← newEvent (.fail (some (.num 502, textBadGateway)) [] none) resp.rtime none
    if ex.isSdp then
      updateFailed { event with
          reason := some ("SIP;cause=502;text=\"".toList ++ textMalformed ++ "\"".toList) }
        ex.getReason
        (some "SIP;cause=500;text=\"Fatal Dialog Refresh Error\"".toList)
    else
      updateFailed { event with
          kind := .fail (some (.num 502, textBadGateway)) []
            (some (.warning (← get).io.host
              (textMalformed ++ ": \"".toList ++ ex.arg ++ "\"".toList))) } none none

def forgetOffer : M (List Header) := do
  upd fun ua => { ua with lSDP := none }
  return []

def recvResponse (resp : Response) : M Ret := do
  if resp.scode < 200 then
    if resp.scode ≠ 100 then
      enqueue (← newEvent (.ring (some (.num resp.scode, resp.reason, resp.body))) resp.rtime
        (← getUA).origin)
    return .none
  else if resp.scode < 300 then updated resp
  else
    let event ← UacStateTrying.rejection resp forgetOffer
    if resp.scode = 408 ∨ resp.scode = 481 then updateFailed event none none
    else
      enqueue event
      goto .connected

def recvEvent (event : CCEvent) : M Ret := do
  if event.final then
    cancelTransaction
    sendBYE event.getExtraHeaders
    cancelCreditTimer
    upd fun ua => { ua with disconnectTs := some event.rtime }
    gotoWith .disconnected .disc event.rtime event.origin
  else return .none

def recvRequest (req : Request) : M Ret := do
  match req.method with
  | .invite =>
    call (.reply .invite 491)
    return .none
  | .bye =>
    cancelTransaction
    call (.reply .bye 200)
    cancelCreditTimer
    UasStateGeneric.disconnectFromRequest req none true
  | _ => return .none

end UacStateUpdating

namespace UacStateCancelling

/-- The final response to the INVITE that was cancelled. -/
def recvResponse (resp : Response) : M Ret := do
  if resp.scode < 200 then return .none
  upd fun ua => { ua with te := false }
  if resp.scode < 300 then
    UacStateTrying.updateRoutes resp
    let tag ← ofLazy resp.toTag
    upd fun ua => { ua with rTag := tag }
    sendBYE []
    goto .disconnected
  else goto .dead

end UacStateCancelling

end SippyB2bua.Ua
