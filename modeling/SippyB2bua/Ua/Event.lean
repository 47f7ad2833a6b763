import SippyB2bua.Message
import SippyB2bua.Lib.Alarm

/-!
# Events, bodies and messages of a user agent

The user agents of a call talk to each other in `CCEvent`s. An event gets its
number when it is created. The messages here are what the state handlers read of
a request or a response; a header that is parsed when a handler reads it is a
`Lazy` value.
-/

namespace SippyB2bua.Ua
open Lib (Text)

/-- A point of `MonoTime`, or a span of it, in milliseconds. -/
abbrev Time := ℤ

def second : Time := 1000

inductive Origin
  | caller | callee
  deriving DecidableEq, Repr

/-- A body: its text, its text for another local address, and whether the RTP proxy
still has to rewrite it. -/
structure Body where
  content : Text
  localStr : Text
  needsUpdate : Bool
  deriving DecidableEq, Repr

/-- `str()` of a field that holds a body or `None`. -/
def Body.str (b : Option Body) : Text := b.elim "None".toList Body.content

/-- `getCopy()`; the flag of a copy is that of a new body. -/
def Body.getCopy (b : Body) : Body := { b with needsUpdate := true }

structure Header where
  name : Text
  body : Text
  deriving DecidableEq, Repr

/-- `SipWarning(text = text)`; a double quote in the text becomes a single one. -/
def Header.warning (agent text : Text) : Header :=
  ⟨"warning".toList, "399 ".toList ++ agent ++ " \"".toList ++
    text.map (fun c => if c.toNat = 34 then Char.ofNat 39 else c) ++ "\"".toList⟩

def hfReason : Text := "reason".toList
def hfAuthorization : Text := "authorization".toList
def hfProxyAuthorization : Text := "proxy-authorization".toList

/-- The first item of an `scode` tuple; `recvACK` puts a text there. -/
inductive Code
  | num (scode : ℤ)
  | ack
  deriving DecidableEq, Repr

/-- A URL with the parts that only a first hop loses. -/
structure Target where
  url : Url
  other : Text
  headers : Text
  deriving DecidableEq, Repr

structure Setup where
  cId : Option Text
  cli : Option Text
  cld : Option Text
  body : Option Body
  auth : Option Text
  callerName : Option Text
  deriving DecidableEq, Repr

/-- What an event says, without what all events carry. -/
inductive Kind
  | setup (data : Setup) (maxForwards : Option ℤ)
  | ring (data : Option (Code × Text × Option Body))
  | preConnect (code : Code) (reason : Text) (body : Option Body)
  | connect (code : Code) (reason : Text) (body : Option Body)
  | update (body : Option Body) (maxForwards : Option ℤ)
  | info (body : Option Body)
  | disconnect (also : Option Text)
  | fail (data : Option (Code × Text)) (challenges : List Header) (warning : Option Header)
  | redirect (data : Option (Code × Text × Option Body × Option (List Target)))
  deriving DecidableEq, Repr

structure CCEvent where
  kind : Kind
  rtime : Time
  origin : Option Origin
  seq : ℕ
  /-- `reason_rfc3326`. -/
  reason : Option Text
  deriving DecidableEq, Repr

namespace CCEvent

/-- `getExtraHeaders()`: the Reason and, of a failure, the challenges and the warning. -/
def getExtraHeaders (e : CCEvent) : List Header :=
  (e.reason.map (Header.mk hfReason)).toList ++
    match e.kind with
    | .fail _ challenges warning => challenges ++ warning.toList
    | _ => []

/-- The body the event carries is replaced, as the RTP proxy rewrites it in place. -/
def withBody (e : CCEvent) (body : Body) : CCEvent :=
  { e with kind := match e.kind with
    | .setup d m => .setup { d with body := some body } m
    | .ring d => .ring (d.map fun d => (d.1, d.2.1, some body))
    | .preConnect c r _ => .preConnect c r (some body)
    | .connect c r _ => .connect c r (some body)
    | .update _ m => .update (some body) m
    | .info _ => .info (some body)
    | k => k }

def final (e : CCEvent) : Bool :=
  match e.kind with
  | .disconnect _ | .fail _ _ _ | .redirect _ => true
  | _ => false

def answer (e : CCEvent) : Bool :=
  match e.kind with
  | .connect _ _ _ | .preConnect _ _ _ => true
  | _ => false

@[simp] theorem withBody_seq (e : CCEvent) (b : Body) : (e.withBody b).seq = e.seq := rfl

@[simp] theorem withBody_final (e : CCEvent) (b : Body) : (e.withBody b).final = e.final := by
  obtain ⟨kind, _, _, _, _⟩ := e
  cases kind <;> rfl

end CCEvent

/-- An exception with the text it was made with. -/
structure Raised where
  exn : Exn
  arg : Text
  deriving DecidableEq, Repr

namespace Raised

/-- An instance of one of the `SdpHandlingErrors`. -/
def isSdp (r : Raised) : Bool := r.exn = .sdpParse ∨ r.exn = .rtpProxy

/-- `code` and `msg` of an `SdpHandlingErrors` class. -/
def scode (r : Raised) : ℤ × Text :=
  if r.exn = .sdpParse then (488, "Not Acceptable Here".toList) else (502, "Bad Gateway".toList)

def getReason (r : Raised) : Option Text :=
  if r.arg = [] then none
  else some ("SIP;cause=".toList ++ Lib.Text.str r.scode.1.toNat ++ ";text=\"".toList ++ r.arg ++
    "\"".toList)

end Raised

/-- A challenge; `proxy` tells a Proxy-Authenticate from a WWW-Authenticate. -/
structure Challenge where
  proxy : Bool
  algorithm : Option Text
  /-- `supportedAlgorithm()[0]`. -/
  supported : Bool
  text : Text
  deriving DecidableEq, Repr

/-- The header `genAuthHF` makes, with the credentials left out. -/
def Challenge.genAuthHF (c : Challenge) : Header :=
  ⟨if c.proxy then hfProxyAuthorization else hfAuthorization, c.text⟩

structure Request where
  method : Method
  cseq : ℤ
  rtime : Time
  callId : Text
  cld : Option Text
  cli : Option Text
  callerName : Option Text
  fromTag : Option Text
  branch : Option Text
  body : Option Body
  /-- `getHFBody('contact').getUrl()`. -/
  contact : Lazy Target
  recordRoutes : List (Lazy Target)
  authorization : Option (Lazy Text)
  also : Option (Lazy Text)
  referTo : Option (Lazy Text)
  reason : Option (Lazy Text)
  maxForwards : Option (Lazy ℤ)

structure Response where
  scode : ℤ
  reason : Text
  cseq : ℤ
  method : Method
  rtime : Time
  body : Option Body
  toTag : Lazy (Option Text)
  contacts : List (Lazy Target)
  recordRoutes : List (Lazy Target)
  wwwAuthenticate : List (Lazy Challenge)
  proxyAuthenticate : List (Lazy Challenge)
  reasonHf : Option (Lazy Text)

/-- A header read inside `try: ... except: pass`. -/
def attempt {α : Type} (h : Option (Lazy α)) : Option α :=
  match h with
  | some (.ok a) => some a
  | _ => none

end SippyB2bua.Ua
