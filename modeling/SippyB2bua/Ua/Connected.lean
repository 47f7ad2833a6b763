import SippyB2bua.Ua.Uac

/-!
# The connected call

`UaStateConnected`: re-INVITEs from either side, the late acknowledgement of an
offer, keep-alives and the end of the call.
-/

namespace SippyB2bua.Ua
open Lib (Text)

namespace UaStateConnected

/-- The body of a re-INVITE; without one the last SDP of the far end is put on hold. -/
def reinviteBody (req : Request) : M Body := do
  match req.body with
  | some body => return body
  | none =>
    if (← getUA).rSDP.isNone then raise .attributeError
    else ofLazy (← get).io.held

def recvRequestInvite (req : Request) : M Ret := do
  upd fun ua => { ua with uasResp := some req.cseq, uasFinal := false }
  call (.response req.cseq (.num 100) textTrying none [])
  let body ← reinviteBody req
  let ua ← getUA
  if req.body.isSome ∧ Body.str ua.rSDP = body.content then
    sendUasResponse (.num 200) textOK ua.lSDP []
    return .none
  let event ← newEvent (.update (some body) (attempt req.maxForwards)) req.rtime ua.origin
  let event := { event with reason := attempt req.reason }
  queueRemote (some body) event
  goto .uasUpdating

def recvRequestRefer (req : Request) : M Ret := do
  match req.referTo with
  | none =>
    call (.reply .refer 400)
    return .none
  | some referTo =>
    call (.reply .refer 202)
    let also ← ofLazy referTo
    let origin := (← getUA).origin
    enqueue (← newEvent (.disconnect (some also)) req.rtime origin)
    return .inject (← newEvent (.disconnect none) req.rtime origin)

def recvRequestBye (req : Request) : M Ret := do
  call (.reply .bye 200)
  let also ← UasStateGeneric.getRequestAlso req
  cancelCreditTimer
  UasStateGeneric.disconnectFromRequest req also true

def recvRequestInfo (req : Request) : M Ret := do
  call (.reply .info 200)
  let event ← newEvent (.info req.body) req.rtime (← getUA).origin
  enqueue { event with reason := attempt req.reason }
  return .none

def recvRequest (req : Request) : M Ret :=
  match req.method with
  | .refer => recvRequestRefer req
  | .invite => recvRequestInvite req
  | .bye => recvRequestBye req
  | .info => recvRequestInfo req
  | .options => do
    call (.reply .options 200)
    return .none
  | _ => return .none

def runConnCbs (rtime : Time) : M PUnit := do
  let ua ← getUA
  if ua.cbs then call (.callback .conn (some rtime) ua.origin)

def recvACK (req : Request) : M Ret := do
  let event ← newEvent (.connect .ack "ACK".toList req.body) req.rtime (← getUA).origin
  cancelExpireTimer
  cancelCreditTimer
  startCreditTimer req.rtime
  upd fun ua => { ua with connectTs := some req.rtime }
  runConnCbs req.rtime
  queueRemote req.body event
  return .none

/-- `_recvEventDisconnectFailRedirect`. -/
def leave (event : CCEvent) (redirect : Option Text) : M Ret := do
  match redirect, (← getUA).useRefer with
  | some _, true =>
    let req ← genRequest .refer none .none event.getExtraHeaders none
    newTransaction req
  | _, _ => sendBYE event.getExtraHeaders
  cancelCreditTimer
  upd fun ua => { ua with disconnectTs := some event.rtime }
  gotoWith .disconnected .disc event.rtime event.origin

/-- `_recvEventRedirect` takes the first item of the data, which is the status code,
for an address, and fails when that is written to the request. -/
def recvEventRedirect (event : CCEvent)
    (data : Option (Code × Text × Option Body × Option (List Target))) : M Ret := do
  match data with
  | none => leave event none
  | some _ =>
    let method := if (← getUA).useRefer then .refer else .bye
    discard <| genRequest method none .none event.getExtraHeaders none
    raise .attributeError

def textTooManyHops : Text := "Too Many Hops".toList

/-- A failure that is reported back without leaving the state. -/
def refuse (event : CCEvent) (scode : ℤ) (reason : Text) (why : Option Text)
    (warning : Option Header) : M Ret := do
  let fail ← newEvent (.fail (some (.num scode, reason)) [] warning) event.rtime none
  enqueue { fail with reason := why }
  return .none

/-- A new SDP of the other side goes out in a re-INVITE. -/
def reinvite (event : CCEvent) (body : Body) (maxForwards : Option ℤ) : M Ret := do
  if maxForwards.isSome ∧ maxForwards.getD 0 ≤ 0 then
    refuse event 483 textTooManyHops none none
  else
    let req ← genRequest .invite (some body) .none event.getExtraHeaders
      (maxForwards.map (· - 1))
    upd fun ua => { ua with lSDP := some body }
    newUacTransaction req
    goto .uacUpdating

def recvEventUpdate (event : CCEvent) (body : Option Body) (maxForwards : Option ℤ) : M Ret := do
  let ua ← getUA
  match ua.lSDP, body with
  | none, _ | _, none => raise .attributeError
  | some lSDP, some body =>
    if lSDP.localStr = body.localStr then
      enqueue (← newEvent (.connect (.num 200) textOK (ua.rSDP.map Body.getCopy)) event.rtime
        event.origin)
      return .none
    else if ua.onLocal && body.needsUpdate then
      tryCatch (do
        discard <| onSdpChange false event
        return .none) fun ex =>
          if ex.isSdp then refuse event ex.scode.1 ex.scode.2 ex.getReason none
          else do
            refuse event 400 "Malformed SDP Body".toList none
              (some (.warning (← get).io.host ex.arg))
    else reinvite event body maxForwards

def recvEventInfo (event : CCEvent) (body : Option Body) : M Ret := do
  let req ← genRequest .info body .none event.getExtraHeaders none
  newTransaction req
  return .none

/-- The body for the ACK of a late offer. -/
def recvEventConnect (event : CCEvent) (body : Option Body) : M Ret := do
  if (← getUA).pendingTr = false then return .none
  cancelExpireTimer
  if ← UasStateGeneric.delayLocalSdpUpdate event body then return .none
  cancelCreditTimer
  startCreditTimer event.rtime
  upd fun ua => { ua with connectTs := some event.rtime }
  upd fun ua => { ua with lSDP := body }
  call (.sendACK body)
  upd fun ua => { ua with pendingTr := false }
  runConnCbs event.rtime
  return .none

def recvEvent (event : CCEvent) : M Ret :=
  match event.kind with
  | .disconnect also => leave event also
  | .fail _ _ _ => leave event none
  | .redirect data => recvEventRedirect event data
  | .update body maxForwards => recvEventUpdate event body maxForwards
  | .info body => recvEventInfo event body
  | .connect _ _ body => recvEventConnect event body
  | _ => return .none

/-- `self.ua.state == self`, for the connected state object with the number. -/
def current (ua : UA) (stateNo : ℕ) : Bool := ua.state = some .connected && ua.stateNo = stateNo

/-- `keepAlive`, of a state object that may have been left. -/
def keepAlive (stateNo : ℕ) : M PUnit := do
  let ua ← getUA
  if current ua stateNo then
    let req ← genRequest .invite ua.lSDP .none [] none
    upd fun ua => { ua with triedauth := false }
    newTransaction req
    upd fun ua => { ua with kaTr := true }

/-- The retry with credentials passes the challenge alone where a pair is expected. -/
def keepAliveAuth (challenge : Lazy Challenge) : M PUnit := do
  let challenge ← ofLazy challenge
  let req ← genRequest .invite (← getUA).lSDP (.bare challenge) [] none
  newTransaction req
  upd fun ua => { ua with kaTr := true, triedauth := true }

/-- What is left to do after a response to a keep-alive. -/
inductive KaDone
  | none | disconnect
  deriving DecidableEq

def kaChallenge (resp : Response) : Option (Lazy Challenge) :=
  if resp.scode = 401 then resp.wwwAuthenticate.head?
  else if resp.scode = 407 then resp.proxyAuthenticate.head?
  else none

def keepAliveResp (stateNo : ℕ) (resp : Response) : M KaDone := do
  let ua ← getUA
  if current ua stateNo = false then return .none
  match kaChallenge resp, ua.username.isSome && ua.password.isSome && !ua.triedauth with
  | some challenge, true =>
    keepAliveAuth challenge
    return .none
  | _, _ =>
    if resp.scode < 200 then return .none
    upd fun ua => { ua with kaTr := false, keepalives := ua.keepalives + 1 }
    if resp.scode = 408 ∨ resp.scode = 481 ∨ resp.scode = 486 then
      if ua.keepalives = 0 then
        upd fun ua => { ua with kaDisconnects := ua.kaDisconnects + 1 }
        return .none
      else return .disconnect
    else
      upd fun ua => { ua with kaTimers := ua.stateNo :: ua.kaTimers }
      return .none

def stopKeepAlive : M PUnit := do
  if (← getUA).kaTr then
    call .cancelTransaction
    upd fun ua => { ua with kaTr := false }

def ackPending : M PUnit := do
  if (← getUA).pendingTr then
    call (.sendACK none)
    upd fun ua => { ua with pendingTr := false }

def onStateChange : M PUnit := do
  stopKeepAlive
  ackPending
  cancelExpireTimer

end UaStateConnected

end SippyB2bua.Ua
