import SippyB2bua.Lib.Run
import SippyB2bua.Manager.Server
import SippyB2bua.Manager.Client

/-!
# Steps of the transaction manager

`handleIncoming` looks a datagram up in the two retransmission caches, parses
it and passes it on. A step is a datagram, a timeout or a cache rotation, all
of which the event dispatcher handles one at a time, or a call or the return
of the upper layer. Labels that do not apply in a state leave it unchanged.
-/

namespace SippyB2bua.Manager
open Lib (Text Dict Timer)

/-- A datagram with the environment's choices while it is handled: the specific
server found for a wildcard one, the consumer that claims a request, and the
random source. -/
structure Dgram where
  data : Text
  ra : RemoteAddress
  server : Server
  userv : Except Exn Server
  consumer : Option Bool
  rnd : Text

inductive TimerId
  | serverA | serverD | serverE | serverF | clientA | clientB | clientC | clientG
  deriving DecidableEq, Repr

inductive Api
  | sendResponse (resp : Resp) (s : Option ℕ) (ackCb : Bool) (lossemul : ℕ) (rnd : Text)
  | newTransaction (msg : Req) (respCb compact : Bool) (userv : Except Exn Server)
  | cancelTransaction (c : ℕ) (extraHeaders : Option Text)
  | sendACK (c : ℕ)
  | setUack (c : ℕ)
  | setAckBody (c : ℕ) (body : Option Text)
  | clearRespCb (c : ℕ)
  | setCompact (s : ℕ) (compact : Bool)

inductive Ret
  | value (v : TM.Rval)
  | raise (e : Exn)

inductive Label
  | recv (dg : Dgram)
  | fire (k : TimerId) (i : ℕ) (rnd : Text)
  | purge
  | call (a : Api)
  | ret (r : Ret) (rnd : Text)

namespace TM

/-- `len(data_in)`: octets of a datagram, characters of a WebSocket message. -/
def size (dg : Dgram) : ℕ :=
  if dg.ra.transport = RemoteAddress.wss then dg.data.length
  else (dg.data.map Char.utf8Size).sum

def sip20 : Text := "SIP/2.0 ".toList

/-- `retrans = l1rcache.get(checksum)`, else the entry of `l2rcache`. -/
def lookup (tm : TM) (checksum : Text) : Option (Option Retransmit) :=
  match tm.l1rcache checksum with
  | some r => some r
  | none => tm.l2rcache checksum

/-- Changes to the host and port of the first Contact. -/
def mapContact (contacts : List (Lazy Contact)) (f : Url → Url) : Lazy (List (Lazy Contact)) :=
  match contacts with
  | [] => .ok []
  | c :: cs => c.map fun contact =>
    (match contact with
      | .asterisk => .ok .asterisk
      | .address u => .ok (.address (f u))) :: cs

def privateHost (addr : Option Text) : Bool :=
  match addr with
  | none => false
  | some h => check1918 h

def fixResponse (tm : TM) (c : ℕ) (ra : RemoteAddress) (resp : Resp) : Lazy Resp :=
  (if tm.natTraversal ∧ privateHost (tm.cheap c).address.1 = false then
    mapContact resp.contacts fun u =>
      if check1918 u.host then { u with host := ra.address.1, port := some ra.address.2 } else u
  else .ok resp.contacts).bind fun contacts =>
  (if ra.transport = RemoteAddress.wss then
    mapContact contacts fun u => { u with host := ra.received }
  else .ok contacts).map fun contacts => { resp with contacts := contacts }

def handleResponse (env : Env) (tm : TM) (dg : Dgram) (checksum : Text) : Out :=
  match env.parseResp dg.data with
  | none => ok (tm.remember checksum)
  | some resp =>
    if resp.scode < 100 ∨ resp.scode > 999 then ok (tm.remember checksum)
    else match tm.tclient resp.ctid with
      | none => ok (tm.remember checksum)
      | some c => match fixResponse tm c dg.ra resp with
        | .error e => tm.raise e
        | .ok resp => incomingResponse env tm c resp checksum dg.rnd

/-- The request is marked as coming from behind a NAT by its top Via. -/
def viaNated (natTraversal : Bool) (ra : RemoteAddress) (via0 : SipVia) : Bool :=
  ra.transport ≠ RemoteAddress.wss && natTraversal &&
    decide (via0.getAddr.2 ≠ some (ra.address.2 : ℤ)) &&
    (check1918 via0.hostname || check7118 via0.hostname)

def fixVia (natTraversal : Bool) (ra : RemoteAddress) (via0 : SipVia) : SipVia :=
  let nated := viaNated natTraversal ra via0
  let via1 := if via0.hostname ≠ ra.address.1 then via0.setParam SipVia.received (some ra.received)
    else via0
  if via1.params.has SipVia.rport || nated then
    via1.setParam SipVia.rport (some (Lib.Text.str ra.address.2))
  else via1

def broadcast : Text := "255.255.255.255".toList

def unreachable (u : Url) : Bool := check1918 u.host || u.port = some 0 || u.host = broadcast

/-- The first Contact is rewritten to the source, and the request is marked. -/
def natContact (ra : RemoteAddress) (contacts : List (Lazy Contact)) :
    Lazy (List (Lazy Contact) × Bool) :=
  match contacts with
  | [] => .ok ([], false)
  | c :: cs => c.map fun contact => match contact with
    | .address u =>
      if unreachable u then
        (.ok (.address { u with host := ra.address.1, port := some ra.address.2 }) :: cs, true)
      else (.ok (.address u) :: cs, false)
    | .asterisk => (.ok .asterisk :: cs, false)

/-- All changes `handleIncoming` makes to a request before it is handled. An
unreadable Contact makes it drop the request. -/
def fixRequest (natTraversal : Bool) (ra : RemoteAddress) (req : Req) : Lazy Req :=
  let via := fixVia natTraversal ra req.via
  let nated := viaNated natTraversal ra req.via
  let usable : Bool := req.contacts ≠ [] ∧ req.vias = []
  (if natTraversal ∧ usable then natContact ra req.contacts
    else .ok (req.contacts, false)).bind fun cn =>
  (if ra.transport = RemoteAddress.wss ∧ usable then
    mapContact cn.1 fun u => { u with host := ra.received }
  else .ok cn.1).map fun contacts =>
    { req with via := via, contacts := contacts, nated := nated || cn.2 }

theorem fixVia_getBranch (natTraversal : Bool) (ra : RemoteAddress) (via0 : SipVia) :
    (fixVia natTraversal ra via0).getBranch = via0.getBranch := by
  have hreceived : SipVia.branch ≠ SipVia.received := by decide
  have hrport : SipVia.branch ≠ SipVia.rport := by decide
  simp only [fixVia, SipVia.getBranch]
  split_ifs <;> simp [SipVia.setParam, Params.get_set_other _ _ hreceived,
    Params.get_set_other _ _ hrport]

theorem fixRequest_eq {natTraversal : Bool} {ra : RemoteAddress} {req fixed : Req}
    (h : fixRequest natTraversal ra req = .ok fixed) :
    ∃ contacts nated, fixed = { req with
      via := fixVia natTraversal ra req.via, contacts := contacts, nated := nated } := by
  simp only [fixRequest, Except.bind, Except.map] at h
  split at h
  · cases h
  · split at h
    · cases h
    · cases h; exact ⟨_, _, rfl⟩

section Identity
variable {natTraversal : Bool} {ra : RemoteAddress} {req fixed : Req}

theorem fixRequest_tid (h : fixRequest natTraversal ra req = .ok fixed) : fixed.tid = req.tid := by
  obtain ⟨contacts, nated, rfl⟩ := fixRequest_eq h
  simp [Req.tid, fixVia_getBranch]

theorem fixRequest_method (h : fixRequest natTraversal ra req = .ok fixed) :
    fixed.method = req.method := by
  obtain ⟨contacts, nated, rfl⟩ := fixRequest_eq h
  rfl

theorem fixRequest_tidTo (h : fixRequest natTraversal ra req = .ok fixed) :
    fixed.tidTo = req.tidTo := by
  obtain ⟨contacts, nated, rfl⟩ := fixRequest_eq h
  rfl

theorem fixRequest_ctids (h : fixRequest natTraversal ra req = .ok fixed) :
    fixed.ctids = req.ctids := by
  obtain ⟨contacts, nated, rfl⟩ := fixRequest_eq h
  simp [Req.ctids, fixVia_getBranch]

end Identity

/-- `getResponse(req)` of the media errors. -/
def errorResponse (e : Exn) (req : Req) : Resp :=
  match e with
  | .rtpProxy => req.genResponse 502 "Bad Gateway".toList []
  | _ => req.genResponse 488 "Not Acceptable Here".toList []

/-- The exception clauses of `handleIncoming` around the handling of a request,
for an exception of a callback: nothing else raises the media errors. A proxy
error is raised again unless the process has just started. -/
def handleExn (env : Env) (tm : TM) (e : Exn) (g : Option Guard) (rnd : Text) : Out :=
  match e, g with
  | .rtpProxy, some g =>
    (sendResponse env tm (errorResponse .rtpProxy g.req) none false false 0 rnd).andThen
      fun tm => tm.raise .rtpProxy
  | .sdpParse, some g =>
    sendResponse env tm (errorResponse .sdpParse g.req) none false false 0 rnd
  | _, _ => tm.raise e

def handleRequest (env : Env) (tm : TM) (dg : Dgram) (checksum : Text) : Out :=
  match env.parseReq dg.data with
  -- `exception.getResponse()` lacks its argument, so a `SipParseError` ends in a `TypeError`
  | .error true => tm.raise .typeError
  | .error false => ok (tm.remember checksum)
  | .ok req => match fixRequest tm.natTraversal dg.ra req with
    | .error _ => ok (tm.remember checksum)
    | .ok req => incomingRequest env tm ⟨req, checksum, dg.server⟩ dg.userv dg.consumer dg.rnd

def handleIncoming (env : Env) (tm : TM) (dg : Dgram) : Out :=
  let tm := tm.record (.arrived dg.data)
  if size dg < 32 then tm.ok
  else
    let checksum := env.md5 dg.data
    match tm.lookup checksum with
    | some none => tm.ok
    | some (some r) => transmitData env tm .cached r.userv r.data r.address none r.lossemul
    | none =>
      if Lib.Text.startsWith dg.data sip20 then handleResponse env tm dg checksum
      else handleRequest env tm dg checksum

/-- An exception that leaves a handler is reported and dropped. -/
def settle (r : Out) : TM :=
  match r.2 with
  | none => r.1
  | some e => r.1.record (.raised e)

def fire (env : Env) (tm : TM) (k : TimerId) (i : ℕ) (rnd : Text) : TM :=
  match k with
  | .serverA => if 0 < (tm.sheap i).teA.live then settle (timerA env tm i) else tm
  | .serverD => if 0 < (tm.sheap i).teD.live then settle (timerD tm i) else tm
  | .serverE => if 0 < (tm.sheap i).teE.live then settle (timerE env tm i rnd) else tm
  | .serverF => if 0 < (tm.sheap i).teF.live then settle (timerF env tm i) else tm
  | .clientA => if 0 < (tm.cheap i).teA.live then settle (clientTimerA env tm i) else tm
  | .clientB => if 0 < (tm.cheap i).teB.live then settle (timerB tm i) else tm
  | .clientC => if 0 < (tm.cheap i).teC.live then settle (timerC tm i) else tm
  | .clientG => if 0 < (tm.cheap i).teG.live then settle (timerG tm i) else tm

/-- A call of the upper layer. An exception goes back to the caller. -/
def api (env : Env) (tm : TM) (a : Api) : TM :=
  match a with
  | .sendResponse resp s ackCb lossemul rnd =>
    (sendResponse env tm resp s false ackCb lossemul rnd).1
  | .newTransaction msg respCb compact userv =>
    (newTransaction env tm (some msg) respCb compact userv).1
  | .cancelTransaction c eh => (cancelTransaction env tm c eh).1
  | .sendACK c => (sendACK env tm c).1
  | .setUack c => tm.updC c fun t => { t with uack := true }
  | .setAckBody c body => tm.updC c fun t => { t with
      ack := t.ack.map fun r => { r with body := body } }
  | .clearRespCb c => tm.updC c fun t => { t with respCb := false }
  | .setCompact s compact => tm.updS s fun t => { t with compact := compact }

/-- The suspended handler goes on with the value of the callback. -/
def resume (env : Env) (tm : TM) (f : Frame) (v : Rval) (rnd : Text) : Out :=
  match f with
  | .req s _ => afterRequest env tm s v rnd
  | .ack s g => ok ((tm.updS s STr.cleanup).remember g.checksum)
  | .cancel _ _ => tm.ok
  | .noack s => tm.timerDEnd s
  | .provisional _ => tm.ok
  | .final c _ => tm.afterFinal c
  | .timeout _ => tm.ok

/-- The request whose handling the exception clauses surround. -/
def Frame.guard : Frame → Option Guard
  | .req _ g => some g
  | .ack _ g => some g
  | .cancel _ g => g
  | _ => none

def ret (env : Env) (tm : TM) (f : Frame) (r : Ret) (rnd : Text) : TM :=
  let tm := { tm with cb := none }
  match r with
  | .value v => settle (resume env tm f v rnd)
  | .raise e => settle (handleExn env tm e (Frame.guard f) rnd)

def step (env : Env) (tm : TM) (l : Label) : TM :=
  match l, tm.cb with
  | .recv dg, none => settle (handleIncoming env tm dg)
  | .fire k i rnd, none => fire env tm k i rnd
  | .purge, none => tm.rCachePurge
  | .call a, _ => api env tm a
  | .ret r rnd, some f => ret env tm f r rnd
  | _, _ => tm

/-- The manager as `__init__` leaves it. -/
def init (natTraversal : Bool) (provisionalRetr : ℕ) (reqCb : Bool) : TM where
  sheap := fun _ => STr.blank
  snext := 0
  cheap := fun _ => CTr.blank
  cnext := 0
  tserver := Dict.empty
  tclient := Dict.empty
  l1rcache := Dict.empty
  l2rcache := Dict.empty
  natTraversal := natTraversal
  provisionalRetr := provisionalRetr
  reqCb := reqCb
  cb := none
  log := []

end TM

namespace Sample

def branch1 : Text := "z9hG4bK1".toList
def branch2 : Text := "z9hG4bK2".toList
def tag1 : Option Text := some "t1".toList

def methodText : Method → Text
  | .invite => "INVITE".toList
  | .ack => "ACK".toList
  | .cancel => "CANCEL".toList
  | .bye => "BYE".toList
  | _ => "OPTIONS".toList

def tagText (tag : Option Text) : Text :=
  match tag with
  | none => []
  | some t => ";tag=".toList ++ t

/-- A request of one dialog, told apart by its method, branch and To tag. -/
def text (method : Method) (branch : Text) (toTag : Option Text) : Text :=
  methodText method ++ " sip:b@203.0.113.1 SIP/2.0\r\nVia: SIP/2.0/UDP 203.0.113.7;branch=".toList ++
    branch ++ "\r\nFrom: <sip:a@203.0.113.7>;tag=f1\r\nTo: <sip:b@203.0.113.1>".toList ++
    tagText toTag ++ "\r\nCall-ID: c1\r\nCSeq: 1 ".toList ++ methodText method ++
    "\r\n\r\n".toList

/-- The request that `text` is parsed to. -/
def req (method : Method) (branch : Text) (toTag : Option Text) : Req where
  method := method
  ruri := ⟨"203.0.113.1".toList, none, none, false, "b".toList⟩
  callId := "c1".toList
  fromTag := some "f1".toList
  cseq := 1
  cseqMethod := method
  via := ⟨"SIP/2.0".toList, "UDP".toList, "203.0.113.7".toList, none, [(SipVia.branch, some branch)]⟩
  vias := []
  toTag := .ok toTag
  contacts := []
  recordRoutes := []
  routes := []
  expires := none
  body := none
  target := none
  nated := false
  rest := []

def server : Server := ⟨("203.0.113.1".toList, 5060), RemoteAddress.udp⟩

/-- The datagram with the given text, as it arrives from the peer. -/
def dgram (data : Text) : Dgram where
  data := data
  ra := .ofUdp ("203.0.113.7".toList, 5060)
  server := server
  userv := .ok server
  consumer := none
  rnd := "r1".toList

/-- An environment in which the given datagrams arrive and every address can be
sent to. Messages are written as their first line and their body. -/
def env (reqs : List (Text × Req)) (resps : List (Text × Resp)) : Env where
  parseReq data := match reqs.lookup data with
    | some r => .ok r
    | none => .error false
  parseResp data := resps.lookup data
  respStr r _ _ := TM.sip20 ++ Lib.Text.str r.scode.toNat ++ ' ' :: r.reason ++ r.body.getD []
  reqStr r _ _ := methodText r.method ++ " sip:b@203.0.113.1 SIP/2.0\r\n".toList ++ r.body.getD []
  md5 data := data
  sendOk _ _ := true

def invite : Req := { req .invite branch1 none with
  target := some (("203.0.113.9".toList, 5060), RemoteAddress.udp) }

/-- The response to it with the given code, and its text. -/
def reply (scode : ℕ) : Resp := { invite.genResponse scode [] [] with toTag := .ok tag1 }

def replyText (scode : ℕ) : Text :=
  TM.sip20 ++ Lib.Text.str scode ++ " \r\nVia: SIP/2.0/UDP 203.0.113.1;branch=z9hG4bK1\r\n\r\n".toList

def startInvite : Label := .call (.newTransaction invite true false (.ok server))

end Sample
end SippyB2bua.Manager
