import SippyB2bua.Via

/-!
# Messages as the transaction layer sees them

A header body is parsed when it is first read, so a header that the handlers
read late is a `Lazy` value: reading it can raise. The headers that identify a
transaction are read when the datagram is accepted and are plain fields. What
no handler reads is kept as text in `rest`.
-/

namespace SippyB2bua
open Lib (Text)

inductive Method
  | invite | ack | cancel | bye | refer | info | options | register | subscribe | notify | ping
  | other (name : Text)
  deriving DecidableEq, Repr

/-- Exceptions, as far as a handler tells them apart. -/
inductive Exn
  | keyError | valueError | indexError | attributeError | typeError | runtimeError
  | headerParse | sdpParse | rtpProxy | network | other
  deriving DecidableEq, Repr

abbrev Lazy (α : Type) := Except Exn α

structure Url where
  host : Text
  port : Option ℤ
  transport : Option Text
  lr : Bool
  rest : Text
  deriving DecidableEq, Repr

def Url.getAddr (u : Url) : Addr := (u.host, u.port.getD defaultPort)

def Url.getTAddr (u : Url) : Addr × Text := (u.getAddr, u.transport.getD RemoteAddress.udp)

/-- The body of a Contact header: `*` or an address. -/
inductive Contact
  | asterisk
  | address (url : Url)
  deriving DecidableEq, Repr

/-- `getUrl()`, which has no address to read in the asterisk form. -/
def Contact.getUrl : Contact → Lazy Url
  | .asterisk => .error .attributeError
  | .address url => .ok url

structure STid where
  callId : Text
  fromTag : Option Text
  cseq : ℤ
  /-- The Via branch, or the To tag once a final response was sent. -/
  last : Option Text
  deriving DecidableEq, Repr

structure CTid where
  callId : Text
  fromTag : Option Text
  cseq : ℤ
  method : Method
  branch : Option Text
  deriving DecidableEq, Repr

/-- A transport address; the host is `None` for a `received` without a value. -/
abbrev TAddr := Option Text × ℤ

structure Resp where
  scode : ℤ
  reason : Text
  callId : Text
  fromTag : Option Text
  cseq : ℤ
  cseqMethod : Method
  via : SipVia
  vias : List SipVia
  toTag : Lazy (Option Text)
  contacts : List (Lazy Contact)
  recordRoutes : List (Lazy Url)
  body : Option Text
  lossemul : ℕ
  rest : Text
  deriving DecidableEq

structure Req where
  method : Method
  ruri : Url
  callId : Text
  fromTag : Option Text
  cseq : ℤ
  cseqMethod : Method
  via : SipVia
  vias : List SipVia
  toTag : Lazy (Option Text)
  contacts : List (Lazy Contact)
  recordRoutes : List (Lazy Url)
  routes : List Url
  expires : Option (Lazy ℤ)
  body : Option Text
  target : Option (Addr × Text)
  nated : Bool
  rest : Text
  deriving DecidableEq

namespace Resp

/-- `getTId(wBRN = True)`. -/
def tid (r : Resp) : STid := ⟨r.callId, r.fromTag, r.cseq, r.via.getBranch⟩

/-- `getTId(True, True)`. -/
def ctid (r : Resp) : CTid := ⟨r.callId, r.fromTag, r.cseq, r.cseqMethod, r.via.getBranch⟩

end Resp

namespace Req

/-- `getTId(wBRN = True)`. -/
def tid (r : Req) : STid := ⟨r.callId, r.fromTag, r.cseq, r.via.getBranch⟩

/-- `getTId(wTTG = True)`. -/
def tidTo (r : Req) : Lazy STid := r.toTag.map fun tag => ⟨r.callId, r.fromTag, r.cseq, tag⟩

/-- `getTId(True, True)`. -/
def ctid (r : Req) : CTid := ⟨r.callId, r.fromTag, r.cseq, r.cseqMethod, r.via.getBranch⟩

/-- `getTIds()`: one identifier for each Via. -/
def ctids (r : Req) : List CTid :=
  (r.via :: r.vias).map fun v => ⟨r.callId, r.fromTag, r.cseq, r.cseqMethod, v.getBranch⟩

def genResponse (r : Req) (scode : ℤ) (reason : Text) (rest : Text) : Resp where
  scode := scode
  reason := reason
  callId := r.callId
  fromTag := r.fromTag
  cseq := r.cseq
  cseqMethod := r.cseqMethod
  via := r.via
  vias := r.vias
  toTag := r.toTag
  contacts := []
  recordRoutes := r.recordRoutes
  body := none
  lossemul := 0
  rest := rest

/-- `genACK()`; the request keeps the Via of the INVITE and drops its routes. -/
def genACK (r : Req) : Lazy Req :=
  r.toTag.map fun tag => { r with
    method := .ack, cseqMethod := .ack, toTag := .ok tag, vias := [], contacts := [],
    recordRoutes := [], routes := [], expires := none, body := none,
    target := some r.ruri.getTAddr, nated := false, rest := [] }

def genCANCEL (r : Req) : Req :=
  { r with
    method := .cancel, cseqMethod := .cancel, vias := [], contacts := [], recordRoutes := [],
    expires := none, body := none, nated := false, rest := [] }

@[simp] theorem genResponse_tid (r : Req) (scode : ℤ) (reason rest : Text) :
    (r.genResponse scode reason rest).tid = r.tid := rfl

@[simp] theorem genCANCEL_ctid (r : Req) :
    r.genCANCEL.ctid = { r.ctid with method := .cancel } := rfl

end Req

/-- The network server a message is sent from. -/
structure Server where
  laddress : Text × ℕ
  transport : Text
  deriving DecidableEq, Repr

end SippyB2bua
