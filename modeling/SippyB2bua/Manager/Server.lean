import SippyB2bua.Manager.State

/-!
# Server transactions

`sendResponse`, `doCancel`, the timers D, E, F and A of a server transaction
and the handling of an incoming request. A fresh To tag comes from the random
source and is the argument `rnd`.
-/

namespace SippyB2bua.Manager.TM
open Lib (Text Dict Timer)

/-- `list(t.tid[:-1])` with the To tag appended. -/
def rekey (k : STid) (tag : Option Text) : STid := { k with last := tag }

def responseTag (resp : Resp) (rnd : Text) (tag : Option Text) : Option Text :=
  if resp.scode > 100 ∧ tag = none then some rnd else tag

/-- `del self.tserver[t.tid]`. -/
def delServer (tm : TM) (s : ℕ) : Out :=
  match (tm.sheap s).tid with
  | none => (tm.record (.delKeyError s)).raise .keyError
  | some k => if tm.tserver k = none then (tm.record (.delKeyError s)).raise .keyError
      else ok { tm with tserver := tm.tserver.del k }

/-- The part of `sendResponse` that follows the transmission of a final response. -/
def complete (tm : TM) (s : ℕ) (tag : Option Text) (ackCb : Bool) : Out :=
  let tm := tm.updS s fun t => { t with
    state := .completed, teE := t.teE.cancel, teF := t.teF.cancel }
  let tm := tm.record (.completed s
    (rekey ((tm.sheap s).tid.getD ⟨[], none, 0, none⟩) tag) ((tm.sheap s).data.getD []))
  if (tm.sheap s).needack then
    let tm := tm.updS s fun t => { t with ackCb := ackCb, teD := t.teD.arm }
    (tm.delServer s).andThen fun tm =>
      let tm := tm.updS s fun t => { t with tid := t.tid.map fun k => rekey k tag }
      let tm := match (tm.sheap s).tid with
        | none => tm
        | some k => { tm with tserver := tm.tserver.set k s }
      ok (tm.updS s fun t => { t with teA := t.teA.arm })
  else
    (tm.delServer s).andThen fun tm => ok (tm.updS s STr.cleanup)

/-- `sendResponse` once the transaction is known. -/
def sendResponseTo (env : Env) (tm : TM) (resp : Resp) (s : ℕ) (retrans ackCb : Bool)
    (lossemul : ℕ) (rnd : Text) : Out :=
  let t := tm.sheap s
  if ¬(t.state = .trying ∨ t.state = .ringing) ∧ retrans = false then tm.raise .valueError
  else match resp.toTag, t.userv with
    | .error e, _ => tm.raise e
    | .ok _, none => tm.raise .attributeError
    | .ok tag, some userv =>
      let tag := responseTag resp rnd tag
      let resp := { resp with toTag := .ok tag }
      let data := env.respStr resp userv t.compact
      let tm := tm.updS s fun t => { t with data := some data }
      match resp.via.getTAddr with
      | none => tm.raise .valueError
      | some addr =>
        let tm := tm.updS s fun t => { t with address := some addr }
        (transmitData env tm (.response s resp.scode) userv data addr (some t.checksum)
            lossemul).andThen fun tm =>
          if resp.scode < 200 then
            ok (tm.updS s fun t => { t with
              state := .ringing
              teF := if tm.provisionalRetr > 0 ∧ resp.scode > 100 then t.teF.cancel.arm
                else t.teF })
          else tm.complete s tag ackCb

/-- `sendResponse`; without a transaction it is looked up by the branch. -/
def sendResponse (env : Env) (tm : TM) (resp : Resp) (s : Option ℕ) (retrans ackCb : Bool)
    (lossemul : ℕ) (rnd : Text) : Out :=
  match s with
  | some s => sendResponseTo env tm resp s retrans ackCb lossemul rnd
  | none => match tm.tserver resp.tid with
    | none => tm.raise .keyError
    | some s => sendResponseTo env tm resp s retrans ackCb lossemul rnd

def doCancel (env : Env) (tm : TM) (s : ℕ) (g : Option Guard) (rnd : Text) : Out :=
  (match (tm.sheap s).r487 with
    | none => tm.ok
    | some r => sendResponseTo env tm r s true false 0 rnd).andThen fun tm =>
  if (tm.sheap s).cancelCb then ok ((tm.record (.cancelCb s)).call (.cancel s g)) else tm.ok

/-- The part of `timerD` that follows `noack_cb`. -/
def timerDEnd (tm : TM) (s : ℕ) : Out :=
  (tm.delServer s).andThen fun tm => ok (tm.updS s STr.cleanup)

def timerD (tm : TM) (s : ℕ) : Out :=
  let tm := tm.updS s fun t => { t with teD := t.teD.fire, teA := t.teA.cancel }
  if (tm.sheap s).noackCb ∧ (tm.sheap s).state ≠ .confirmed then
    ok ((tm.record (.noackCb s)).call (.noack s))
  else tm.timerDEnd s

def requestExpired : Text := "Request Expired".toList

def timerE (env : Env) (tm : TM) (s : ℕ) (rnd : Text) : Out :=
  let tm := tm.updS s fun t => { t with teE := t.teE.fire, teF := t.teF.cancel }
  if (tm.sheap s).state = .trying ∨ (tm.sheap s).state = .ringing then
    let tm := tm.updS s fun t => { t with
      r487 := t.r487.map fun r => { r with reason := requestExpired } }
    doCancel env tm s none rnd
  else tm.ok

def retransmitS (env : Env) (tm : TM) (o : Origin) (s : ℕ) (cachesum : Option Text) : Out :=
  match (tm.sheap s).userv, (tm.sheap s).data, (tm.sheap s).address with
  | some userv, some data, some addr => transmitData env tm o userv data addr cachesum 0
  | _, _, _ => tm.raise .attributeError

def timerF (env : Env) (tm : TM) (s : ℕ) : Out :=
  let tm := tm.updS s fun t => { t with teF := t.teF.fire }
  if (tm.sheap s).state = .ringing ∧ tm.provisionalRetr > 0 then
    (retransmitS env tm (.timerF s) s none).andThen fun tm =>
      ok (tm.updS s fun t => { t with teF := t.teF.arm })
  else tm.ok

def timerA (env : Env) (tm : TM) (s : ℕ) : Out :=
  let tm := tm.updS s fun t => { t with teA := t.teA.fired }
  (retransmitS env tm (.timerA s) s none).andThen fun tm =>
    ok (tm.updS s fun t => { t with teA := t.teA.arm })

def loopDetected : Text := "Loop Detected".toList
def textOK : Text := "OK".toList
def requestTerminated : Text := "Request Terminated".toList
def noSuchCall : Text := "Call Leg/Transaction Does Not Exist".toList

/-- The ACK of a completed transaction. `t.teD.cancel()` is not guarded: there is
no `teD` left when `noack_cb` has raised. -/
def recvAck (tm : TM) (s : ℕ) (g : Guard) : Out :=
  let tm := tm.updS s fun t => { t with state := .confirmed, teA := t.teA.cancel }
  if (tm.sheap s).teD.ref = false then tm.raise .attributeError
  else
    let tm := tm.updS s fun t => { t with teD := t.teD.cancel }
    (tm.delServer s).andThen fun tm =>
      if (tm.sheap s).ackCb then ok ((tm.record (.ackCb s)).call (.ack s g))
      else ok ((tm.updS s STr.cleanup).remember g.checksum)

def existing (env : Env) (tm : TM) (s : ℕ) (g : Guard) (rnd : Text) : Out :=
  let t := tm.sheap s
  if g.req.method = t.method then
    match t.data with
    | none => tm.ok
    | some _ => retransmitS env tm (.duplicate s) s (some g.checksum)
  else if g.req.method = .cancel then
    match t.userv with
    | none => tm.raise .attributeError
    | some userv =>
      (transmitResp env tm userv (g.req.genResponse 200 textOK []) g.checksum
          t.compact).andThen fun tm =>
        if (tm.sheap s).state = .trying ∨ (tm.sheap s).state = .ringing then
          doCancel env tm s (some g) rnd
        else tm.ok
  else if g.req.method = .ack ∧ t.state = .completed then tm.recvAck s g
  else tm.ok

/-- A new transaction and the callback for it. The `Expires` header of an INVITE
is read before the transaction is stored. A consumer of the call brings its own
`compact` flag; without one the request goes to `req_cb`, if there is one. -/
def newServer (tm : TM) (g : Guard) (userv : Except Exn Server) (consumer : Option Bool) : Out :=
  let isInvite : Bool := g.req.method = .invite
  match userv, g.req.expires with
  | .error e, _ => tm.raise e
  | .ok userv, some (.error e) => if isInvite then tm.raise e else start isInvite userv
  | .ok userv, _ => start isInvite userv
where
  start (isInvite : Bool) (userv : Server) : Out :=
    let s := tm.snext
    let t : STr := {
      tid := some g.req.tid, state := .trying, method := g.req.method, checksum := g.checksum,
      data := none, address := none, userv := some userv, compact := consumer.getD false,
      needack := isInvite,
      r487 := if isInvite then some (g.req.genResponse 487 requestTerminated []) else none,
      ackCb := false, noackCb := false, cancelCb := false,
      teA := .off, teD := .off, teE := if isInvite then Timer.off.arm else .off, teF := .off }
    let tm := { tm with
      sheap := Function.update tm.sheap s t
      snext := s + 1
      tserver := tm.tserver.set g.req.tid s }
    if consumer.isSome ∨ tm.reqCb then
      ok ((tm.record (.request s g.req g.checksum)).call (.req s g))
    else ok (tm.remember g.checksum)

def incomingRequest (env : Env) (tm : TM) (g : Guard) (userv : Except Exn Server)
    (consumer : Option Bool) (rnd : Text) : Out :=
  match g.req.ctids.findSome? tm.tclient with
  | some c =>
    transmitResp env tm g.server (g.req.genResponse 482 loopDetected []) g.checksum
      (tm.cheap c).compact
  | none =>
    match (if g.req.method = .ack then g.req.tidTo else .ok g.req.tid) with
    | .error e => tm.raise e
    | .ok tid =>
      match tm.tserver tid with
      | some s => existing env tm s g rnd
      | none =>
        if g.req.method = .ack then ok (tm.remember g.checksum)
        else if g.req.method = .cancel then
          transmitResp env tm g.server (g.req.genResponse 481 noSuchCall []) g.checksum false
        else newServer tm g userv consumer

inductive Rval
  | none
  | triple (resp : Option Resp) (cancelCb noackCb : Bool)

/-- The part of `incomingRequest` that follows the request callback. -/
def afterRequest (env : Env) (tm : TM) (s : ℕ) (rval : Rval) (rnd : Text) : Out :=
  match rval with
  | .none =>
    let t := tm.sheap s
    if t.teA.ref ∨ t.teD.ref ∨ t.teE.ref ∨ t.teF.ref then tm.ok
    else
      let tm := match t.tid with
        | Option.none => tm
        | some k => { tm with tserver := tm.tserver.del k }
      ok (tm.updS s STr.cleanup)
  | .triple resp cancelCb noackCb =>
    let tm := tm.updS s fun t => { t with cancelCb := cancelCb, noackCb := noackCb }
    match resp with
    | Option.none => tm.ok
    | some resp => sendResponseTo env tm resp s false false resp.lossemul rnd

end SippyB2bua.Manager.TM
