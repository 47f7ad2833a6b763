import SippyB2bua.Lib.Dict
import SippyB2bua.Lib.Timer
import SippyB2bua.Message

/-!
# State of the transaction manager

Transactions are objects shared by the tables, the timers and the upper layer,
so they live in two heaps and the tables hold their numbers. Timers are
references to scheduled timeouts. A callback into the upper layer suspends the
handler that made it: `cb` is the suspended continuation, and while it is set
the upper layer may call the manager but no datagram and no timer is handled.

`log` records in order what the manager does that can be observed: datagrams
received and sent, rotations of the retransmission cache, callbacks made,
transactions completed and removed, a `KeyError` of `del self.tserver[t.tid]`
and exceptions that leave a handler.
-/

namespace SippyB2bua.Manager
open Lib (Text Dict Timer)

inductive TState
  | trying | ringing | completed | confirmed | terminated | uack
  deriving DecidableEq, Repr

structure STr where
  tid : Option STid
  state : TState
  method : Method
  checksum : Text
  data : Option Text
  address : Option TAddr
  userv : Option Server
  compact : Bool
  needack : Bool
  r487 : Option Resp
  ackCb : Bool
  noackCb : Bool
  cancelCb : Bool
  teA : Timer
  teD : Timer
  teE : Timer
  teF : Timer

/-- A client transaction. -/
structure CTr where
  tid : Option CTid
  state : TState
  method : Method
  data : Text
  address : TAddr
  userv : Option Server
  compact : Bool
  expires : ℤ
  needack : Bool
  ack : Option Req
  cancel : Option Req
  cancelPending : Bool
  respCb : Bool
  r408 : Option Resp
  uack : Bool
  ackRAddr : Option TAddr
  ackChecksum : Text
  teA : Timer
  teB : Timer
  teC : Timer
  teG : Timer

/-- Content of a heap cell that holds no transaction yet. -/
def STr.blank : STr where
  tid := none
  state := .confirmed
  method := .ack
  checksum := []
  data := none
  address := none
  userv := none
  compact := false
  needack := false
  r487 := none
  ackCb := false
  noackCb := false
  cancelCb := false
  teA := .off
  teD := .off
  teE := .off
  teF := .off

def CTr.blank : CTr where
  tid := none
  state := .terminated
  method := .ack
  data := []
  address := (none, 0)
  userv := none
  compact := false
  expires := 0
  needack := false
  ack := none
  cancel := none
  cancelPending := false
  respCb := false
  r408 := none
  uack := false
  ackRAddr := none
  ackChecksum := []
  teA := .off
  teB := .off
  teC := .off
  teG := .off

/-- `SipTransaction.cleanup` on a server transaction: references are dropped,
timers are not cancelled. -/
def STr.cleanup (t : STr) : STr :=
  { t with
    tid := none, userv := none, address := none, r487 := none,
    ackCb := false, noackCb := false, cancelCb := false,
    teA := t.teA.drop, teD := t.teD.drop, teE := t.teE.drop, teF := t.teF.drop }

/-- `SipTransaction.cleanup` on a client transaction. -/
def CTr.cleanup (t : CTr) : CTr :=
  { t with
    tid := none, userv := none, ack := none, cancel := none, respCb := false, r408 := none,
    teA := t.teA.drop, teB := t.teB.drop, teC := t.teC.drop, teG := t.teG.drop }

/-- `SipTMRetransmitO` with its data set. -/
structure Retransmit where
  userv : Server
  data : Text
  address : TAddr
  lossemul : ℕ
  deriving DecidableEq

/-- The code path that hands a datagram to the network server. -/
inductive Origin
  | response (s : ℕ) (scode : ℤ)
  | timerA (s : ℕ)
  | timerF (s : ℕ)
  | duplicate (s : ℕ)
  | cached
  | stateless
  | request (c : ℕ)
  | retransmit (c : ℕ)
  | ack (c : ℕ)
  | sendACK (c : ℕ)
  deriving DecidableEq, Repr

inductive Act
  | arrived (data : Text)
  | purged
  | sent (o : Origin) (userv : Server) (data : Text) (addr : TAddr)
  | discarded (o : Origin) (data : Text)
  | request (s : ℕ) (req : Req) (checksum : Text)
  | response (c : ℕ) (resp : Resp)
  | ackCb (s : ℕ)
  | noackCb (s : ℕ)
  | cancelCb (s : ℕ)
  | completed (s : ℕ) (key : STid) (data : Text)
  | removed (c : ℕ)
  | callSendACK (c : ℕ)
  | delKeyError (s : ℕ)
  | raised (e : Exn)
  deriving DecidableEq

/-- The request whose handling is suspended, for the exception clauses of
`handleIncoming`. -/
structure Guard where
  req : Req
  checksum : Text
  server : Server
  deriving DecidableEq

inductive Frame
  | req (s : ℕ) (g : Guard)
  | ack (s : ℕ) (g : Guard)
  | cancel (s : ℕ) (g : Option Guard)
  | noack (s : ℕ)
  | provisional (c : ℕ)
  | final (c : ℕ) (resp : Resp)
  | timeout (c : ℕ)
  deriving DecidableEq

structure TM where
  sheap : ℕ → STr
  snext : ℕ
  cheap : ℕ → CTr
  cnext : ℕ
  tserver : Dict STid ℕ
  tclient : Dict CTid ℕ
  /-- An entry without a value is a `SipTMRetransmitO()` with no data. -/
  l1rcache : Dict Text (Option Retransmit)
  l2rcache : Dict Text (Option Retransmit)
  natTraversal : Bool
  provisionalRetr : ℕ
  reqCb : Bool
  cb : Option Frame
  log : List Act

/-- What the manager uses from the message classes and the network layer. -/
structure Env where
  /-- `SipRequest(data)`; an error tells whether it is a `SipParseError`. -/
  parseReq : Text → Except Bool Req
  parseResp : Text → Option Resp
  respStr : Resp → Server → Bool → Text
  reqStr : Req → Server → Bool → Text
  md5 : Text → Text
  /-- Whether `send_to` accepts the address. -/
  sendOk : Server → TAddr → Bool

/-- The outcome of a handler: the state it leaves, and the exception if it
raised one. Whatever was changed before the exception stays changed. -/
abbrev Out := TM × Option Exn

def Out.andThen (r : Out) (f : TM → Out) : Out :=
  match r.2 with
  | none => f r.1
  | some _ => r

namespace TM

def ok (tm : TM) : Out := (tm, none)
def raise (tm : TM) (e : Exn) : Out := (tm, some e)
def record (tm : TM) (a : Act) : TM := { tm with log := tm.log ++ [a] }
def updS (tm : TM) (s : ℕ) (f : STr → STr) : TM :=
  { tm with sheap := Lib.modifyAt tm.sheap s f }
def updC (tm : TM) (c : ℕ) (f : CTr → CTr) : TM :=
  { tm with cheap := Lib.modifyAt tm.cheap c f }
def remember (tm : TM) (checksum : Text) : TM :=
  { tm with l1rcache := tm.l1rcache.set checksum none }
def call (tm : TM) (f : Frame) : TM := { tm with cb := some f }

/-- `transmitData`. A positive `lossemul` emulates the loss of the datagram. -/
def transmitData (env : Env) (tm : TM) (o : Origin) (userv : Server) (data : Text)
    (addr : TAddr) (cachesum : Option Text) (lossemul : ℕ) : Out :=
  if lossemul = 0 ∧ env.sendOk userv addr = false then tm.raise .network
  else
    let tm := tm.record (if lossemul = 0 then .sent o userv data addr else .discarded o data)
    match cachesum with
    | none => tm.ok
    | some c => ok { tm with
        l1rcache := tm.l1rcache.set c (some ⟨userv, data, addr, lossemul - 1⟩) }

/-- `transmitMsg` of a response that belongs to no transaction. -/
def transmitResp (env : Env) (tm : TM) (userv : Server) (resp : Resp) (cachesum : Text)
    (compact : Bool) : Out :=
  match resp.via.getTAddr with
  | none => tm.raise .valueError
  | some addr =>
    transmitData env tm .stateless userv (env.respStr resp userv compact) addr (some cachesum) 0

def rCachePurge (tm : TM) : TM :=
  { tm with l2rcache := tm.l1rcache, l1rcache := Dict.empty }.record .purged

end TM
end SippyB2bua.Manager
