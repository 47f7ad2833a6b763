import SippyB2bua.Ua.State

/-!
# The answering side of a call

The states of a user agent that was called: `UasStateIdle`, `UasStateTrying`,
`UasStateRinging` and, for a re-INVITE, `UasStateUpdating`. The generic handlers
`ringResponse` and `redirectResponse` return the status code to the handler that
calls them; the table of `UasStateUpdating` lists them as handlers of their own.
-/

namespace SippyB2bua.Ua
open Lib (Text)

def textOK : Text := "OK".toList
def textRinging : Text := "Ringing".toList
def textTrying : Text := "Trying".toList
def textFailed : Text := "Failed".toList
def textDisconnected : Text := "Disconnected".toList
def textTerminated : Text := "Request Terminated".toList

/-- The next hop follows from the first route, or from the target if there is none. -/
def followRoutes : M PUnit := do
  let ua ← getUA
  match ua.routes with
  | [] => match ua.rTarget with
    | none => raise .attributeError
    | some target => upd fun ua => { ua with rAddr := some target.url.getTAddr }
  | first :: rest =>
    if first.url.lr = false then
      upd fun ua => { ua with
        routes := rest ++ ua.rTarget.toList, rTarget := some first, rAddr := some first.url.getTAddr }
    else if ua.outboundProxy.isSome then
      upd fun ua => { ua with
        routes := ua.routes ++ ua.rTarget.toList
        rTarget := some { first with
          url := { first.url with lr := false }, other := [], headers := [] } }
    else upd fun ua => { ua with rAddr := some first.url.getTAddr }

/-- The timers of a UAS, from the moment the INVITE came in. -/
def armSetupTimers (rtime : Time) : M PUnit := do
  upd fun ua => match ua.expireTime with
    | none => ua
    | some t => { ua with expireMtime := rtime + t }
  upd fun ua => match ua.noProgressTime with
    | none => ua
    | some t => { ua with
        noProgressMtime := rtime + t
        noProgressTime := match ua.expireTime with
          | none => some t
          | some expire => if expire ≤ t then none else some t }

namespace UasStateIdle

/-- `getHFBody('authorization')`, if there is one. -/
def getAuthorization (req : Request) : M (Option Text) :=
  match req.authorization with
  | none => pure none
  | some auth => some <$> ofLazy auth

def armFirst : M PUnit := do
  if (← getUA).noProgressTime.isSome then armNoProgressTimer
  else if (← getUA).expireTime.isSome then armExpireTimer

def recvRequest (req : Request) : M Ret := do
  if req.method ≠ .invite then return .none
  upd fun ua => { ua with origin := some .caller, uasResp := some req.cseq, uasFinal := false }
  let cseq := (← get).io.cseq
  upd fun ua => { ua with lCSeq := cseq }
  let contact ← ofLazy req.contact
  upd fun ua => { ua with rTarget := some contact }
  let routes ← ofLazy (req.recordRoutes.mapM id)
  upd fun ua => { ua with routes := routes }
  followRoutes
  upd fun ua => { ua with rAddr0 := ua.rAddr }
  call (.response req.cseq (.num 100) textTrying none [])
  upd fun ua => { ua with rTag := req.fromTag, cId := some req.callId }
  act .regConsumer
  let auth ← getAuthorization req
  upd fun ua => { ua with branch := req.branch }
  let event ← newEvent (.setup ⟨some req.callId, req.cli, req.cld, req.body, auth, req.callerName⟩
    (attempt req.maxForwards)) req.rtime (some .caller)
  let event := { event with reason := attempt req.reason }
  armSetupTimers req.rtime
  armFirst
  queueRemote req.body event
  upd fun ua => { ua with setupTs := some req.rtime }
  goto .uasTrying

end UasStateIdle

namespace UasStateGeneric

def disconnectFromRequest (req : Request) (also : Option Text) (copyReason : Bool) : M Ret := do
  let origin := (← getUA).origin
  let event ← newEvent (.disconnect also) req.rtime origin
  enqueue { event with reason := if copyReason then attempt req.reason else none }
  upd fun ua => { ua with disconnectTs := some req.rtime }
  gotoWith .disconnected .disc req.rtime origin

def getRequestAlso (req : Request) : M (Option Text) :=
  match req.also with
  | none => pure none
  | some also => some <$> ofLazy also

def delayLocalSdpUpdate (event : CCEvent) (body : Option Body) : M Bool := do
  let onLocal := (← getUA).onLocal
  match body with
  | none => return false
  | some body =>
    if onLocal && body.needsUpdate then
      discard <| onSdpChange false event
      return true
    else return false

/-- `_recvEventRing`, with the code it returns. -/
def ringResponse (event : CCEvent) (data : Option (Code × Text × Option Body)) :
    M (Option Code) := do
  match data with
  | none =>
    upd fun ua => { ua with lSDP := none }
    sendUasResponse (.num 180) textRinging none event.getExtraHeaders
    return some (.num 180)
  | some (code, reason, body) =>
    if ← delayLocalSdpUpdate event body then return none
    upd fun ua => { ua with lSDP := body }
    sendUasResponse code reason body event.getExtraHeaders
    return some code

/-- `_getConnectData`: whether the handler goes on. -/
def getConnectData (event : CCEvent) (body : Option Body) : M Bool := do
  if ← delayLocalSdpUpdate event body then return false
  upd fun ua => { ua with lSDP := body }
  return true

/-- `_recvEventRedirect`, with the code of the tuple it returns. -/
def redirectResponse (event : CCEvent)
    (data : Option (Code × Text × Option Body × Option (List Target))) : M Code := do
  match data with
  | none =>
    sendUasResponse (.num 500) textFailed none event.getExtraHeaders
    return .num 500
  | some (code, reason, body, _) =>
    sendUasResponse code reason body event.getExtraHeaders
    return code

def sendFailResponse (event : CCEvent) (data : Option (Code × Text)) : M PUnit :=
  match data with
  | none => sendUasResponse (.num 500) textFailed none event.getExtraHeaders
  | some (code, reason) => sendUasResponse code reason none event.getExtraHeaders

end UasStateGeneric

namespace UasStateProgressing
open UasStateGeneric

def recvEventConnect (event : CCEvent) (code : Code) (reason : Text) (body : Option Body) :
    M Ret := do
  if ← getConnectData event body then
    sendUasResponse code reason body event.getExtraHeaders
    cancelExpireTimer
    startCreditTimer event.rtime
    upd fun ua => { ua with connectTs := some event.rtime }
    gotoWith .connected .conn event.rtime event.origin
  else return .none

def recvEventPreConnect (event : CCEvent) (code : Code) (reason : Text) (body : Option Body) :
    M Ret := do
  if ← getConnectData event body then
    sendUasResponse code reason body event.getExtraHeaders
    upd fun ua => { ua with ackCbs := ua.ackCbs + 1 }
    goto .connected
  else return .none

def recvEventRedirect (event : CCEvent)
    (data : Option (Code × Text × Option Body × Option (List Target))) : M Ret := do
  discard <| redirectResponse event data
  cancelExpireTimer
  upd fun ua => { ua with disconnectTs := some event.rtime }
  gotoWith .failed .fail event.rtime event.origin

def recvEventFail (event : CCEvent) (data : Option (Code × Text)) : M Ret := do
  sendFailResponse event data
  cancelExpireTimer
  upd fun ua => { ua with disconnectTs := some event.rtime }
  gotoWith .failed .fail event.rtime event.origin

def recvEventDisconnect (event : CCEvent) : M Ret := do
  sendUasResponse (.num 500) textDisconnected none event.getExtraHeaders
  cancelExpireTimer
  upd fun ua => { ua with disconnectTs := some event.rtime }
  gotoWith .disconnected .disc event.rtime event.origin

end UasStateProgressing

namespace UasStateTrying
open UasStateProgressing

def recvEventRing (event : CCEvent) (data : Option (Code × Text × Option Body)) : M Ret := do
  if data.map (·.1) = some (.num 100) then return .none
  match ← UasStateGeneric.ringResponse event data with
  | none => return .none
  | some _ =>
    progressed true
    upd fun ua => { ua with p1xxTs := ua.p1xxTs.or (some event.rtime) }
    gotoRinging .uasRinging event.rtime event.origin

/-- The handlers that cancel the no-progress timer if the state is left. -/
def leaving (handler : M Ret) : M Ret := do
  match ← handler with
  | .none => return .none
  | ret =>
    cancelNoProgressTimer
    return ret

def recvEvent (event : CCEvent) : M Ret :=
  match event.kind with
  | .ring data => recvEventRing event data
  | .connect code reason body => leaving (recvEventConnect event code reason body)
  | .preConnect code reason body => leaving (recvEventPreConnect event code reason body)
  | .redirect data => leaving (recvEventRedirect event data)
  | .fail data _ _ => leaving (recvEventFail event data)
  | .disconnect _ => leaving (recvEventDisconnect event)
  | _ => return .none

end UasStateTrying

namespace UasStateRinging
open UasStateProgressing

def recvEventRing (event : CCEvent) (data : Option (Code × Text × Option Body)) : M Ret := do
  match ← UasStateGeneric.ringResponse event data with
  | none => return .none
  | some _ =>
    upd fun ua => { ua with p1xxTs := ua.p1xxTs.or (some event.rtime) }
    runRingCbs event.rtime event.origin
    return .none

def recvEvent (event : CCEvent) : M Ret :=
  match event.kind with
  | .ring data => recvEventRing event data
  | .connect code reason body => recvEventConnect event code reason body
  | .preConnect code reason body => recvEventPreConnect event code reason body
  | .redirect data => recvEventRedirect event data
  | .fail data _ _ => recvEventFail event data
  | .disconnect _ => recvEventDisconnect event
  | _ => return .none

def recvRequest (req : Request) : M Ret := do
  match req.method with
  | .bye =>
    sendUasResponse (.num 487) textTerminated none []
    call (.reply .bye 200)
    let also ← UasStateGeneric.getRequestAlso req
    cancelExpireTimer
    UasStateGeneric.disconnectFromRequest req also true
  | _ => return .none

end UasStateRinging

namespace UasStateUpdating
open UasStateGeneric

def recvEventConnect (event : CCEvent) (code : Code) (reason : Text) (body : Option Body) :
    M Ret := do
  if ← getConnectData event body then
    sendUasResponse code reason body event.getExtraHeaders
    goto .connected
  else return .none

def recvEventFail (event : CCEvent) (data : Option (Code × Text)) : M Ret := do
  upd fun ua => { ua with rSDP := none }
  sendFailResponse event data
  goto .connected

def recvEventDisconnect (event : CCEvent) : M Ret := do
  sendUasResponse (.num 487) textTerminated none event.getExtraHeaders
  sendBYE event.getExtraHeaders
  cancelCreditTimer
  upd fun ua => { ua with disconnectTs := some event.rtime }
  gotoWith .disconnected .disc event.rtime event.origin

/-- The entries for a ring and a redirect are the helpers themselves. -/
def recvEvent (event : CCEvent) : M Ret :=
  match event.kind with
  | .ring data => do
    match ← ringResponse event data with
    | none => return .none
    | some code => return .code code
  | .connect code reason body => recvEventConnect event code reason body
  | .redirect data => .scode <$> redirectResponse event data
  | .fail data _ _ => recvEventFail event data
  | .disconnect _ => recvEventDisconnect event
  | _ => return .none

def recvRequest (req : Request) : M Ret := do
  match req.method with
  | .invite =>
    call (.reply .invite 491)
    return .none
  | .bye =>
    sendUasResponse (.num 487) textTerminated none []
    call (.reply .bye 200)
    cancelCreditTimer
    disconnectFromRequest req none true
  | .refer =>
    match req.referTo with
    | none =>
      call (.reply .refer 400)
      return .none
    | some referTo =>
      sendUasResponse (.num 487) textTerminated none []
      call (.reply .refer 202)
      let also ← ofLazy referTo
      cancelCreditTimer
      disconnectFromRequest req (some also) false
  | _ => return .none

end UasStateUpdating

end SippyB2bua.Ua
