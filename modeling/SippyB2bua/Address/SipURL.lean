import SippyB2bua.Address.Quote
import SippyB2bua.Lib.Items
import SippyB2bua.Lib.Trim

/-!
# SIP URLs

`SipURL` reads a URL piece by piece: the user information before the first at sign, host and
port up to the first semicolon, the parameters, and the headers after a question mark. It
prints the parameters that it knows in an order of its own.
-/

namespace SippyB2bua.Address
open Lib (Text Items)
open Lib.Text (split1 splitAll strip lower int)

/-- The host of a URL. `SipConf.my_address` stands for the address of the socket that sends. -/
inductive Host
  | name (t : Text)
  | myAddress
  deriving DecidableEq, Repr

inductive Port
  | number (n : ℤ)
  | myPort
  deriving DecidableEq, Repr

inductive Transport
  | name (t : Text)
  | myTransport
  deriving DecidableEq, Repr

/-- What `setParams` sets. -/
structure UrlParams where
  usertype : Option Text := none
  transport : Option Transport := none
  ttl : Option ℤ := none
  maddr : Option Text := none
  method : Option Text := none
  tag : Option Text := none
  other : List Text := []
  lr : Bool := false
  deriving DecidableEq, Repr

structure SipURL extends UrlParams where
  scheme : Text
  username : Option Text
  userparams : List Text
  password : Option Text
  host : Host
  port : Option Port
  headers : Option (Items Text)
  deriving DecidableEq, Repr

/-- `k, v = header.split('=')` and `self.headers[k] = unquote(v)`. -/
def readHeader (d : Items Text) (header : Text) : Lazy (Items Text) :=
  match splitAll '=' header with
  | [k, v] => .ok (d.set k (SipURL.unquote v))
  | _ => .error .valueError

def readHeaders (text : Text) : Lazy (Items Text) := (splitAll '&' text).foldlM readHeader []

/-- The user information, if there is an at sign, and what follows it. -/
def atParts (url : Text) : Option Text × Text :=
  match split1 '@' url with
  | (_, none) => (none, url)
  | (userpass, some back) => (some userpass, back)

/-- The user name, still quoted, the user parameters and the password. -/
def userParts (userpass : Text) : Text × List Text × Option Text :=
  let upparts := split1 ':' userpass
  let uparts := splitAll ';' upparts.1
  (uparts.headD [], uparts.tail, upparts.2)

/-- What follows the user information: host and port, the parameters, and the headers, which
follow the last of them. -/
def backParts (back : Text) : Text × List Text × Option Text :=
  match splitAll ';' back with
  | [] => ([], [], none)
  | [hostport] =>
    let arr := split1 '?' hostport
    (arr.1, [], arr.2)
  | hostport :: p :: ps =>
    let arr := split1 '?' ((p :: ps).getLast?.getD [])
    (hostport, (p :: ps).dropLast ++ [arr.1], arr.2)

/-- The host and the text of the port. -/
def hostParts (relaxedparser : Bool) (hostport : Text) : Lazy (Text × Option Text) :=
  match hostport with
  | [] => if relaxedparser then .ok ([], none) else .error .indexError
  | '[' :: _ =>
    match split1 ']' hostport with
    | (_, none) => .error .indexError
    | (ipv6, some rest) => .ok (ipv6 ++ [']'], (split1 ':' rest).2)
  | _ => .ok (split1 ':' hostport)

/-- The port, with the two repairs for what others send. -/
def readPort (parseport : Text) : Lazy (Option ℤ) :=
  match int parseport with
  | some n => .ok (some n)
  | none =>
    let port := strip parseport
    if port = [] then .ok none
    else match split1 ':' port with
      | (first, some second) =>
        if first ≠ [] ∧ first = second then (int first).elim (.error .valueError) fun n => .ok (some n)
        else .error .valueError
      | (_, none) => .error .valueError

def setParam (u : UrlParams) (p : Text) : Lazy UrlParams :=
  match split1 '=' p with
  | (_, none) => .ok (if p = "lr".toList then { u with lr := true } else { u with other := u.other ++ [p] })
  | (name, some value) =>
    if name = "user".toList then .ok { u with usertype := some value }
    else if name = "transport".toList then .ok { u with transport := some (.name value) }
    else if name = "ttl".toList then
      (int value).elim (.error .valueError) fun n => .ok { u with ttl := some n }
    else if name = "maddr".toList then .ok { u with maddr := some value }
    else if name = "method".toList then .ok { u with method := some value }
    else if name = "tag".toList then .ok { u with tag := some value }
    else if name = "lr".toList then .ok { u with lr := true }
    else .ok { u with other := u.other ++ [p] }

def setParams (params : List Text) : Lazy UrlParams := params.foldlM setParam {}

def parseSipURL (scheme url : Text) (relaxedparser : Bool) : Lazy SipURL := do
  let user := (atParts url).1.map userParts
  let (hostport, params, text) := backParts (atParts url).2
  let early ← if params = [] then text.mapM readHeaders else pure none
  let (host, parseport) ← hostParts relaxedparser hostport
  let port ← parseport.elim (pure none) readPort
  let known ← setParams params
  let headers ← if params = [] then pure early else text.mapM readHeaders
  return { known with
    scheme := scheme, username := user.map fun u => SipURL.unquote u.1,
    userparams := user.elim [] fun u => u.2.1, password := user.bind fun u => u.2.2,
    host := .name host, port := port.map .number, headers := headers }

/-- `k, v = part.split('=')` of a user parameter. -/
def telParam (part : Text) : Lazy Text :=
  match splitAll '=' part with
  | [k, v] => .ok (lower k ++ '=' :: v)
  | _ => .error .valueError

def convertTelURL (url : Text) (relaxedparser : Bool) : Lazy SipURL := do
  let parts := splitAll ';' url
  let userparams ← parts.tail.mapM telParam
  return {
    scheme := "sip".toList, username := some (SipURL.unquote (parts.headD [])), userparams := userparams,
    password := none, host := if relaxedparser then .name [] else .myAddress,
    port := if relaxedparser then none else some .myPort,
    transport := if relaxedparser then none else some .myTransport, headers := none }

/-- The scheme and the rest of a URL; without a colon the scheme is `sip`. -/
def schemeParts (url : Text) : Text × Text :=
  match split1 ':' url with
  | (_, none) => ("sip".toList, url)
  | (scheme, some rest) => (lower scheme, rest)

/-- `SipURL(url)`. -/
def SipURL.init (autoconvert relaxedparser : Bool) (url : Text) : Lazy SipURL :=
  let parts := schemeParts url
  if parts.1 = "tel".toList then
    if autoconvert then convertTelURL parts.2 relaxedparser else .error .valueError
  else if parts.1 = "sip".toList ∨ parts.1 = "sips".toList then parseSipURL parts.1 parts.2 relaxedparser
  else .error .valueError

/-- `name=value`, if there is a value. -/
def printed (name : String) (value : Option Text) : List Text :=
  value.toList.map fun v => name.toList ++ '=' :: v

/-- The transport as it prints; the one of the socket is left out if it is the default. -/
def Transport.localStr (localTransport : Option Text) : Transport → Option Text
  | .name t => some t
  | .myTransport => localTransport.filter (· ≠ RemoteAddress.udp)

def UrlParams.getParams (u : UrlParams) (localTransport : Option Text) : List Text :=
  printed "user" u.usertype ++
  printed "transport" (u.transport.bind (Transport.localStr localTransport)) ++
  printed "ttl" (u.ttl.map Lib.Text.ofInt) ++ printed "maddr" u.maddr ++ printed "method" u.method ++
  printed "tag" u.tag ++ u.other ++ if u.lr then ["lr".toList] else []

def portNeeded (port : ℤ) (transport : Option Transport) (localTransport : Option Text) : Bool :=
  ¬ (transport = some .myTransport ∧ localTransport = some RemoteAddress.udp ∧ port = defaultPort)

/-- The port as it prints, if it does. -/
def portText (u : SipURL) (localAddr : Option (Addr × Text)) : Option Text :=
  u.port.bind fun port =>
    let n := match port, localAddr with
      | .number n, _ => n
      | .myPort, some la => la.1.2
      | .myPort, none => defaultPort
    if portNeeded n u.transport (localAddr.map Prod.snd) then some (Lib.Text.ofInt n) else none

/-- `str(self.host)` is `myAddress` for the address of the configuration. -/
def Host.localStr (myAddress : Text) (localAddr : Option (Addr × Text)) : Host → Text
  | .name t => t
  | .myAddress => localAddr.elim myAddress fun la => la.1.1

def userText (u : SipURL) : Text :=
  u.username.elim [] fun name => SipURL.quote SipURL.usernameSafe name ++
    u.userparams.flatMap (';' :: ·) ++ u.password.elim [] (':' :: ·) ++ ['@']

def headerText (header : Text × Text) : Text := header.1 ++ '=' :: SipURL.quote ['/'] header.2

def headersText (headers : Option (Items Text)) : Text :=
  match headers with
  | none | some [] => []
  | some items => '?' :: ['&'].intercalate (items.map headerText)

def SipURL.localStr (myAddress : Text) (u : SipURL) (localAddr : Option (Addr × Text)) : Text :=
  u.scheme ++ ':' :: (userText u ++ u.host.localStr myAddress localAddr ++
    ((portText u localAddr).elim [] (':' :: ·)) ++
    (u.getParams (localAddr.map Prod.snd)).flatMap (';' :: ·) ++ headersText u.headers)

end SippyB2bua.Address
