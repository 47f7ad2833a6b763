import SippyB2bua.Manager.State

/-!
# Client transactions

`newTransaction`, `cancelTransaction`, `sendACK`, the handling of an incoming
response and the timers A, B, C and G of a client transaction. The network
server that `newTransaction` selects from the target of the request is an
argument, since the selection depends on the host.
-/

namespace SippyB2bua.Manager.TM
open Lib (Text Dict Timer)

def requestTimeout : Text := "Request Timeout".toList

def lifetime (msg : Req) : Lazy ℤ :=
  if msg.method = .invite then
    match msg.expires with
    | none => .ok 300
    | some (.error e) => .error e
    | some (.ok n) => .ok (if n ≤ 0 then 300 else n)
  else .ok 32

def preparedAck (msg : Req) : Lazy (Option Req) :=
  if msg.method = .invite then msg.genACK.map some else .ok none

def storeClient (env : Env) (tm : TM) (msg : Req) (respCb compact : Bool) (userv : Server)
    (addr : TAddr) (expires : ℤ) (ack : Option Req) : Out :=
  let c := tm.cnext
  let data := env.reqStr msg userv compact
  let t : CTr := {
    tid := some msg.ctid, state := .trying, method := msg.method, data := data, address := addr,
    userv := some userv, compact := compact, expires := expires,
    needack := msg.method = .invite, ack := ack,
    cancel := if msg.method = .invite then some msg.genCANCEL else none,
    cancelPending := false, respCb := respCb,
    r408 := if respCb then some (msg.genResponse 408 requestTimeout []) else none,
    uack := false, ackRAddr := none, ackChecksum := [],
    teA := Timer.off.arm, teB := Timer.off.arm, teC := .off, teG := .off }
  let tm := { tm with
    cheap := Function.update tm.cheap c t
    cnext := c + 1
    tclient := tm.tclient.set msg.ctid c }
  transmitData env tm (.request c) userv data addr none 0

def newTransaction (env : Env) (tm : TM) (msg : Option Req) (respCb compact : Bool)
    (userv : Except Exn Server) : Out :=
  match msg with
  | none => tm.raise .attributeError
  | some msg =>
    if (tm.tclient msg.ctid).isSome then tm.raise .valueError
    else match msg.target, userv, lifetime msg, preparedAck msg with
      | none, _, _, _ => tm.raise .typeError
      | some _, .error e, _, _ => tm.raise e
      | some _, .ok _, .error e, _ => tm.raise e
      | some _, .ok _, .ok _, .error e => tm.raise e
      | some target, .ok userv, .ok expires, .ok ack =>
        storeClient env tm msg respCb compact userv (some target.1.1, target.1.2) expires ack

def startCancel (env : Env) (tm : TM) (c : ℕ) : Out :=
  newTransaction env tm (tm.cheap c).cancel false false
    (match (tm.cheap c).userv with | none => .error .attributeError | some u => .ok u)

/-- `cancelTransaction`; extra headers are appended to the text of the CANCEL. -/
def cancelTransaction (env : Env) (tm : TM) (c : ℕ) (extraHeaders : Option Text) : Out :=
  if (tm.cheap c).state ≠ .ringing then ok (tm.updC c fun t => { t with cancelPending := true })
  else
    let tm := match extraHeaders with
      | none => tm
      | some eh => tm.updC c fun t => { t with
          cancel := t.cancel.map fun r => { r with rest := r.rest ++ eh } }
    startCancel env tm c

/-- `del self.tclient[t.tid]` followed by `t.cleanup()`. -/
def removeClient (tm : TM) (c : ℕ) : Out :=
  match (tm.cheap c).tid with
  | none => tm.raise .keyError
  | some k => if tm.tclient k = none then tm.raise .keyError
      else ok (({ tm with tclient := tm.tclient.del k }.updC c CTr.cleanup).record (.removed c))

/-- `sendACK`. A transaction that never entered the UACK state has no `teG` and
no `ack_rAddr`, and a removed one has no message to send. -/
def sendACK (env : Env) (tm : TM) (c : ℕ) : Out :=
  let tm := tm.record (.callSendACK c)
  match (tm.cheap c).ackRAddr with
  | none => tm.raise .attributeError
  | some addr =>
    let tm := tm.updC c fun t => { t with teG := t.teG.cancel }
    match (tm.cheap c).userv, (tm.cheap c).ack with
    | some userv, some ack =>
      (transmitData env tm (.sendACK c) userv (env.reqStr ack userv (tm.cheap c).compact) addr
        (some (tm.cheap c).ackChecksum) 0).andThen fun tm => tm.removeClient c
    | _, _ => tm.raise .attributeError

def readAll {α : Type} : List (Lazy α) → Lazy (List α)
  | [] => .ok []
  | x :: xs => x.bind fun a => (readAll xs).map fun as => a :: as

structure AckRoute where
  ruri : Option Url
  routes : List Url
  rAddr : Option (Addr × Text)

def contactTarget (resp : Resp) : Lazy (Option Url) :=
  match resp.contacts with
  | [] => .ok none
  | c :: _ => c.bind fun contact => contact.getUrl.map some

def routeAck (rTarget : Option Url) (recordRoutes : List Url) : AckRoute :=
  match recordRoutes.reverse with
  | [] => ⟨rTarget, [], rTarget.map Url.getTAddr⟩
  | r :: rs =>
    if r.lr then ⟨rTarget, r :: rs, some r.getTAddr⟩
    else ⟨some r, rs ++ rTarget.toList, some r.getTAddr⟩

def tagAck (tag : Option Text) (ack : Req) : Req :=
  match tag with
  | none => ack
  | some tag => { ack with toTag := .ok (some tag) }

/-- The ACK with the route set of a 2xx response, and the address it is sent
to; reading Contact and Record-Route can raise. -/
def routedAck (t : CTr) (ack : Req) (resp : Resp) (rnd : Text) : Lazy (Req × TAddr) :=
  if 200 ≤ resp.scode ∧ resp.scode < 300 then
    (contactTarget resp).bind fun rTarget =>
    (readAll resp.recordRoutes).map fun rrs =>
      let route := routeAck rTarget rrs
      ({ ack with
          ruri := route.ruri.getD ack.ruri
          target := match route.rAddr with | none => ack.target | some a => some a
          routes := route.routes
          via := ack.via.setParam SipVia.branch (some rnd) },
        match route.rAddr with | none => t.address | some a => (some a.1.1, a.1.2))
  else .ok (ack, t.address)

def notify (tm : TM) (c : ℕ) (resp : Resp) (f : Frame) (k : TM → Out) : Out :=
  if (tm.cheap c).respCb then ok ((tm.record (.response c resp)).call f) else k tm

/-- The part of `incomingResponse` that follows the callback of a final response. -/
def afterFinal (tm : TM) (c : ℕ) : Out :=
  if (tm.cheap c).state = .uack then tm.ok else tm.removeClient c

def provisional (env : Env) (tm : TM) (c : ℕ) (resp : Resp) (checksum : Text) : Out :=
  (if (tm.cheap c).state = .trying then
    let tm := tm.updC c fun t => { t with state := .ringing }
    if (tm.cheap c).cancelPending then
      (startCancel env tm c).andThen fun tm =>
        ok (tm.updC c fun t => { t with cancelPending := false })
    else tm.ok
  else tm.ok).andThen fun tm =>
  let tm := (tm.updC c fun t => { t with teB := t.teB.arm }).remember checksum
  notify tm c resp (.provisional c) ok

/-- The ACK is sent at once unless `uack` was set before; the check precedes the
callback. -/
def dispatchAck (env : Env) (tm : TM) (c : ℕ) (userv : Server) (ack : Req) (addr : TAddr)
    (checksum : Text) : Out :=
  let tm := tm.updC c fun t => { t with ack := some ack }
  if (tm.cheap c).uack = false then
    transmitData env tm (.ack c) userv (env.reqStr ack userv (tm.cheap c).compact) addr
      (some checksum) 0
  else
    ok ((tm.updC c fun t => { t with
      state := .uack, ackRAddr := some addr, ackChecksum := checksum,
      teG := t.teG.arm }).remember checksum)

def acknowledge (env : Env) (tm : TM) (c : ℕ) (resp : Resp) (checksum rnd : Text) : Out :=
  match (tm.cheap c).ack, (tm.cheap c).userv, resp.toTag with
  | some _, some _, .error e => tm.raise e
  | some ack, some userv, .ok tag =>
    let ack := tagAck tag ack
    let tm := tm.updC c fun t => { t with ack := some ack }
    match routedAck (tm.cheap c) ack resp rnd with
    | .error e => tm.raise e
    | .ok (ack, addr) => dispatchAck env tm c userv ack addr checksum
  | _, _, _ => tm.raise .attributeError

def finalResponse (env : Env) (tm : TM) (c : ℕ) (resp : Resp) (checksum rnd : Text) : Out :=
  (if (tm.cheap c).needack then acknowledge env tm c resp checksum rnd
    else ok (tm.remember checksum)).andThen fun tm =>
  notify tm c resp (.final c resp) fun tm => tm.afterFinal c

def incomingResponse (env : Env) (tm : TM) (c : ℕ) (resp : Resp) (checksum rnd : Text) : Out :=
  let t := tm.cheap c
  if t.state = .trying ∨ t.state = .ringing then
    let tm := tm.updC c fun t => { t with
      teA := if t.state = .trying then t.teA.cancel else t.teA
      teB := t.teB.cancel }
    if resp.scode < 200 then provisional env tm c resp checksum
    else finalResponse env tm c resp checksum rnd
  else tm.ok

def clientTimerA (env : Env) (tm : TM) (c : ℕ) : Out :=
  let tm := tm.updC c fun t => { t with teA := t.teA.fired }
  match (tm.cheap c).userv with
  | none => tm.raise .attributeError
  | some userv =>
    (transmitData env tm (.retransmit c) userv (tm.cheap c).data (tm.cheap c).address none
      0).andThen fun tm => ok (tm.updC c fun t => { t with teA := t.teA.arm })

def timerB (tm : TM) (c : ℕ) : Out :=
  let tm := tm.updC c fun t => { t with
    teB := t.teB.fire, teA := t.teA.cancel, state := .terminated, teC := t.teC.arm }
  match (tm.cheap c).r408 with
  | none => tm.ok
  | some r408 => notify tm c r408 (.timeout c) ok

def timerC (tm : TM) (c : ℕ) : Out :=
  (tm.updC c fun t => { t with teC := t.teC.fire }).removeClient c

def timerG (tm : TM) (c : ℕ) : Out := ok (tm.updC c fun t => { t with teG := t.teG.fire })

end SippyB2bua.Manager.TM
