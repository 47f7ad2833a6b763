import SippyB2bua.SipURL
import SippyB2bua.Wire.Header

/-!
# Routes

A route is read from the text of a `Routing:` attribute: a destination, with the called
number before an at sign, and parameters. `customize` numbers it and fills in what the call
provides. The address lookup and the processors named by `po_proc` are parameters.
-/

namespace SippyB2bua.B2B
open Lib (Text Dict)
open Lib.Text (split1 splitAll strip int startsWith)

/-- An address that `getaddrinfo` found; the first part tells IPv6 apart. -/
abbrev AddrInfo := Bool × Addr

/-- What `B2BRoute` calls outside of itself. -/
structure RouteEnv where
  getaddrinfo : Text → ℤ → Bool → Lazy (List AddrInfo)
  getTransProc : Text → Lazy Unit
  /-- `SipHeader(text)`. -/
  sipHeader : Text → Lazy Wire.SipHeader

inductive RouteParam
  | huntstopScodes (scodes : List ℤ)
  | callerName (name : Option Text)
  | rtpp (enabled : Bool)
  | outboundProxy (addr : Addr)
  | poProc (value : Text)
  | groupTimeout (timeout skipto : ℤ)
  | text (value : Text)
  deriving DecidableEq

/-- `crt_set`, which `customize` overwrites with the credit time of the call. -/
inductive CrtSet
  | flag (set : Bool)
  | creditTime (t : Option ℤ)
  deriving DecidableEq

def CrtSet.truth : CrtSet → Bool
  | flag set => set
  | creditTime none => false
  | creditTime (some t) => t ≠ 0

structure B2BRoute where
  rnum : Option ℕ
  cld : Option Text
  cldSet : Bool
  cli : Option Text
  cliSet : Bool
  hostport : Text
  hostonly : Text
  ainfo : Option (List AddrInfo)
  user : Option Text
  passw : Option Text
  passAuth : Bool
  creditTime : Option ℤ
  crtSet : CrtSet
  expires : Option ℤ
  noProgressExpires : Option ℤ
  noReplyExpires : Option ℤ
  forwardOnFail : Bool
  params : Dict Text RouteParam
  extraHeaders : Option (List Wire.SipHeader)

def dstSipUA : Text := "sip-ua".toList
def dstWssUA : Text := "wss-ua".toList

namespace B2BRoute

/-- `int(v)`. -/
def parseInt (v : Text) : Lazy ℤ :=
  match int v with
  | some n => .ok n
  | none => .error .valueError

def parseLimit (v : Text) : Lazy (Option ℤ) :=
  (parseInt v).map fun n => if n < 0 then none else some n

/-- The host and the port of a destination, and whether it is written as IPv6. -/
def splitHostport (hostport : Text) : Text × Option Text × Bool :=
  if startsWith hostport ['['] then
    match split1 ']' (hostport.drop 1) with
    | (host, none) | (host, some []) => (host, none, true)
    | (host, some (_ :: port)) => (host, some port, true)
  else
    match split1 ':' hostport with
    | (host, port) => (host, port, false)

/-- The route as far as the destination tells. -/
def parseDestination (env : RouteEnv) (dst : Text) : Lazy B2BRoute := do
  let (cld, cldSet, hostport) := match split1 '@' dst with
    | (hostport, none) => (none, false, hostport)
    | (cld, some hostport) => (if cld = [] then none else some cld, true, hostport)
  let (host, port, af6) := splitHostport hostport
  let port ← match port with
    | none => .ok defaultPort
    | some port => parseInt port
  let ainfo ← if host = dstSipUA ∨ host = dstWssUA then .ok none
    else (env.getaddrinfo host port af6).map some
  return {
    rnum := none, cld := cld, cldSet := cldSet, cli := none, cliSet := false
    hostport := hostport, hostonly := if af6 then '[' :: host ++ [']'] else host
    ainfo := ainfo, user := none, passw := none, passAuth := true
    creditTime := none, crtSet := .flag false
    expires := none, noProgressExpires := none, noReplyExpires := none
    forwardOnFail := false, params := Dict.empty, extraHeaders := none }

def setParam (r : B2BRoute) (a : Text) (p : RouteParam) : B2BRoute :=
  { r with params := r.params.set a p }

/-- `user:password`. -/
def parseAuth (r : B2BRoute) (v : Text) : Lazy B2BRoute :=
  if v = "nopass".toList then .ok { r with passAuth := false }
  else match split1 ':' v with
    | (_, none) => .error .valueError
    | (user, some passw) => .ok { r with passAuth := false, user := some user, passw := some passw }

def parseProxy (v : Text) : Lazy Addr :=
  match split1 ':' v with
  | (_, none) => .ok (v, 5060)
  | (host, some port) => (parseInt port).map fun port => (host, port)

def emptyToNone (v : Text) : Option Text := if v = [] then none else some v

/-- One parameter `a=v`. -/
def parseParam (env : RouteEnv) (r : B2BRoute) (a v : Text) : Lazy B2BRoute :=
  if a = "credit-time".toList then
    (parseLimit v).map fun t => { r with creditTime := t, crtSet := .flag true }
  else if a = "expires".toList then (parseLimit v).map fun t => { r with expires := t }
  else if a = "hs_scodes".toList then
    ((splitAll ',' v).filter fun x => strip x ≠ []).mapM parseInt |>.map fun scodes =>
      r.setParam "huntstop_scodes".toList (.huntstopScodes scodes)
  else if a = "np_expires".toList then
    (parseLimit v).map fun t => { r with noProgressExpires := t }
  else if a = "nr_expires".toList then (parseLimit v).map fun t => { r with noReplyExpires := t }
  else if a = "forward_on_fail".toList then .ok { r with forwardOnFail := true }
  else if a = "auth".toList then r.parseAuth v
  else if a = "cli".toList then .ok { r with cli := emptyToNone v, cliSet := true }
  else if a = "cnam".toList then
    .ok (r.setParam "caller_name".toList (.callerName (emptyToNone (SipURL.unquote v))))
  else if a = "ash".toList then
    (env.sipHeader (SipURL.unquote v)).map fun h =>
      { r with extraHeaders := some (r.extraHeaders.getD [] ++ [h]) }
  else if a = "rtpp".toList then
    (parseInt v).map fun n => r.setParam "rtpp".toList (.rtpp (n ≠ 0))
  else if a = "op".toList then
    (parseProxy v).map fun addr => r.setParam "outbound_proxy".toList (.outboundProxy addr)
  else if a = "po_proc".toList then
    (env.getTransProc v).map fun _ => r.setParam "po_proc".toList (.poProc v)
  else .ok (r.setParam a (.text v))

/-- The parameters in order; all of them are split before the first is read. -/
def parseParams (env : RouteEnv) (r : B2BRoute) (params : List Text) : Lazy B2BRoute := do
  let pairs ← params.mapM fun x => match split1 '=' x with
    | (_, none) => .error .valueError
    | (a, some v) => .ok (a, v)
  pairs.foldlM (fun r p => parseParam env r p.1 p.2) r

/-- `B2BRoute(sroute)`. -/
def parse (env : RouteEnv) (sroute : Text) : Lazy B2BRoute := do
  let r ← parseDestination env ((splitAll ';' sroute).headD [])
  parseParams env r (splitAll ';' sroute).tail

/-- `params['group_timeout']` for the parameter `gt`. -/
def groupTimeout (r : B2BRoute) (rnum : ℕ) : Lazy B2BRoute :=
  match r.params "gt".toList with
  | some (.text gt) => match split1 ',' gt with
    | (_, none) => .error .valueError
    | (timeout, some skip) => do
      let timeout ← parseInt timeout
      let skip ← parseInt skip
      return r.setParam "group_timeout".toList (.groupTimeout timeout (rnum + skip))
  | some _ => .error .attributeError
  | none => .ok r

/-- The credit time under `max_credit_time`. -/
def capped (maxCreditTime creditTime : Option ℤ) : Option ℤ :=
  match maxCreditTime, creditTime with
  | none, t => t
  | some m, none => some m
  | some m, some t => if t > m then some m else some t

def customize (r : B2BRoute) (rnum : ℕ) (defaultCld defaultCli : Option Text)
    (defaultCreditTime : Option ℤ) (passHeaders : List Wire.SipHeader) (maxCreditTime : Option ℤ) :
    Lazy B2BRoute := do
  let r := { r with
    rnum := some rnum
    cld := if r.cldSet then r.cld else defaultCld
    cli := if r.cliSet then r.cli else defaultCli
    crtSet := if r.crtSet.truth then r.crtSet else .creditTime defaultCreditTime }
  let r ← r.groupTimeout rnum
  return { r with
    extraHeaders := some (r.extraHeaders.getD [] ++ passHeaders)
    creditTime := capped maxCreditTime r.creditTime }

/-- `route[i]`: the class has no `__getitem__`. -/
def getItem (_ : B2BRoute) (_ : ℕ) : Lazy ℤ := .error .typeError

end B2BRoute

end SippyB2bua.B2B
