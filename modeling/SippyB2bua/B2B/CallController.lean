import SippyB2bua.B2B.Hunting
import SippyB2bua.Ua.Turn

/-!
# Calls

A `CallController` hands every event of one leg of a call to the other: the leg that was called,
and the legs that call, one for each route that is tried. It does so in the middle of the method
that made the event, so what is still to be done for a call is a stack. An exception goes through
all of it, as nobody catches it before the event loop does.
-/

namespace SippyB2bua.B2B
open Lib (Text)
open Lib.Text (startsWith)
open Ua (Act CCEvent Header Input Io Kind Mach Request Setup Time Todo UA UaState World)

inductive Leg
  | uaA
  /-- An originate leg, numbered from the first. -/
  | uaO (k : ℕ)
  deriving DecidableEq

structure CallConfig where
  env : RouteEnv
  /-- A copy of the configured route, if there is one. -/
  static : Option B2BRoute
  authEnable : Bool
  maxCreditTime : Option ℤ
  keepaliveAns : Time
  keepaliveOrig : Time
  rtpProxy : Bool
  /-- How the constructor of the session with the RTP proxy ends. -/
  newSession : CCEvent → Lazy Unit
  /-- How the call of `do_auth` ends. -/
  doAuth : CCEvent → Lazy Unit
  allowedPts : Bool
  staticTrIn : Option (Text → Lazy Text)
  staticTrOut : Option (Text → Lazy Text)
  /-- What `hide_call_id` makes of a Call-ID. -/
  hideCallId : Option (Text → Text)
  /-- A processor that a route names, which gets the event of the call. -/
  poProc : Text → Lazy Unit
  myTransport : Text

/-- What a call has from the INVITE, besides what its user agent makes of it. -/
structure CallSource where
  source : Addr
  /-- `req_target.getTAddr()`. -/
  target : Addr × Text
  passHeaders : List Wire.SipHeader
  /-- A challenge was made for the call. -/
  challenge : Bool

/-- What is still to be done for a call. -/
inductive Work
  /-- A method of the leg runs. -/
  | method (l : Leg)
  /-- `recvEvent(event, ua)` is to be called. -/
  | recvEvent (l : Leg) (e : CCEvent)
  /-- It has returned to the leg. -/
  | returned (l : Leg)
  /-- `ua.recvEvent(event)`. -/
  | send (l : Leg) (e : CCEvent)
  | disconnect (l : Leg)
  /-- `self.state = CCStateDead`. -/
  | dead
  /-- `self.ccmap.append(cc)`. -/
  | append

def Work.isAppend : Work → Bool
  | .append => true
  | _ => false

structure CallController where
  state : CCState
  uaA : Mach
  /-- The originate legs in the order in which they were made; `uaO` is the last one. -/
  uaOs : List Mach
  /-- The event of the call, with the data that goes to the routes. -/
  eTry : Option (CCEvent × Setup × Option ℤ)
  cli : Option Text
  callerName : Option Text
  /-- `do_auth` was called for it, and `rDone` was not. -/
  asked : Bool
  routes : RouteList
  huntstop : Option RouteParam
  /-- The numbers that the group timers skip to. -/
  groups : List ℤ
  rtpSession : Bool
  /-- The call map has the call. -/
  inMap : Bool
  /-- How often `ccmap.remove(self)` was executed. -/
  removals : ℕ
  /-- `CCEventGeneric.seq`. -/
  seq : ℕ
  work : List Work

abbrev C := EStateM Exn CallController

namespace CallController

/-- `uaA` as the constructor makes it. -/
def calledUA (cfg : CallConfig) : UA :=
  { UA.new with kaInterval := cfg.keepaliveAns, onRemote := cfg.allowedPts }

def start (cfg : CallConfig) : CallController where
  state := .idle
  uaA := .start (calledUA cfg)
  uaOs := []
  eTry := none
  cli := none
  callerName := none
  asked := false
  routes := .empty
  huntstop := none
  groups := []
  rtpSession := false
  inMap := false
  removals := 0
  seq := 1
  work := []

def leg (c : CallController) : Leg → Option Mach
  | .uaA => some c.uaA
  | .uaO k => c.uaOs[k]?

def setLeg (c : CallController) (l : Leg) (m : Mach) : CallController :=
  match l with
  | .uaA => { c with uaA := m }
  | .uaO k => { c with uaOs := c.uaOs.set k m }

/-- `uaO`. -/
def uaO (c : CallController) : Option Mach := c.uaOs.getLast?

def legA (c : CallController) : Option UaState := c.uaA.ua.state

/-- What hunting knows of a call. -/
def toHunt (c : CallController) : Hunt where
  state := c.state
  uaA := c.legA.getD .uasIdle
  routes := c.routes
  huntstop := c.huntstop
  maxForwards := c.eTry.bind fun e => e.2.2
  acts := []

/-- Do this next. -/
def push (ws : List Work) : C PUnit := modify fun c => { c with work := ws ++ c.work }

/-- `CCEvent...(data, rtime)`. -/
def newEvent (kind : Kind) (rtime : Time) : C CCEvent := do
  let seq := (← get).seq
  modify fun c => { c with seq := seq + 1 }
  return ⟨kind, rtime, none, seq, none⟩

/-- `self.uaA.recvEvent(CCEventFail(...))`, after which the call is dead. -/
def refuse (code : ℤ) (reason : String) (rtime : Time) : C PUnit := do
  let e ← newEvent (.fail (some (.num code, reason.toList)) [] none) rtime
  push [.send .uaA e, .dead]

/-- The exception that a method ends with. -/
def thrown (p : Ua.M (List Todo)) (w : World) : Option Exn := (Lib.exception p w).map (·.exn)

/-- The exception that the step ends with. -/
def raisesAt (m : Mach) : Ua.Label → Option Exn
  | .input i io => if m.idle && i.possible m.ua then thrown i.run (m.world io) else none
  | .tau io =>
    match m.todo with
    | .recvEvent e :: _ => thrown (UA.recvEvent e) (m.world io)
    | _ => none
  | .ret | .throw => none

def raising : Option Exn → C PUnit
  | none => pure ⟨⟩
  | some e => throw e

/-- A header as a user agent sends it. -/
def toHeader (h : Wire.SipHeader) : Header := ⟨h.name, h.body.localStr none⟩

/-- `re_replace` for a pattern that is configured. -/
def translate (tr : Option (Text → Lazy Text)) (cld : Option Text) : Lazy (Option Text) :=
  match tr, cld with
  | none, cld => .ok cld
  | some tr, some cld => (tr cld).map some
  | some _, none => .error .attributeError

/-- The address in `ainfo` with the family of the source, or the first one. -/
def getNHAddr (r : B2BRoute) (source : Addr) : Lazy Addr :=
  match r.ainfo with
  | none => .error .typeError
  | some infos =>
    match (infos.find? (·.1 = startsWith source.1 ['['])).or infos.head? with
    | none => .error .indexError
    | some (true, host, port) => .ok ('[' :: host ++ [']'], port)
    | some (false, addr) => .ok addr

def nextHop (cfg : CallConfig) (src : CallSource) (r : B2BRoute) : Lazy (Addr × Text) :=
  if r.hostport = dstWssUA then .ok src.target
  else (getNHAddr r src.source).map fun addr => (addr, cfg.myTransport)

def rtppParam (r : B2BRoute) : Bool :=
  match r.params "rtpp".toList with
  | some (.rtpp enabled) => enabled
  | _ => true

def outboundProxyOf (cfg : CallConfig) (src : CallSource) (r : B2BRoute) : Option (Addr × Text) :=
  match r.params "outbound_proxy".toList with
  | some (.outboundProxy addr) => if src.source = addr then none else some (addr, cfg.myTransport)
  | _ => none

/-- The user agent for a route; `proxied` tells that the RTP proxy rewrites its descriptions. -/
def originateUA (cfg : CallConfig) (src : CallSource) (r : B2BRoute) (nh : Addr × Text) (proxied : Bool) :
    UA := { UA.new with
  username := r.user
  password := r.passw
  rAddr := some nh
  rAddr0 := some nh
  creditTime := r.creditTime.map (· * Ua.second)
  expireTime := r.expires.map (· * Ua.second)
  noProgressTime := r.noProgressExpires.map (· * Ua.second)
  extraHeaders := (r.extraHeaders.getD []).map toHeader
  passAuth := r.passAuth
  noReplyTime := r.noReplyExpires.map (· * Ua.second)
  outboundProxy := outboundProxyOf cfg src r
  onLocal := proxied
  onRemote := proxied || cfg.allowedPts
  kaInterval := cfg.keepaliveOrig }

def groupOf (r : B2BRoute) : List ℤ :=
  match r.params "group_timeout".toList with
  | some (.groupTimeout _ skipto) => [skipto]
  | _ => []

/-- `oroute.params.get('caller_name', self.caller_name)`. -/
def callerNameOf (r : B2BRoute) (default : Option Text) : Option Text :=
  match r.params "caller_name".toList with
  | some (.callerName name) => name
  | _ => default

def placeOriginate (cfg : CallConfig) (src : CallSource) (now : Time) (r : B2BRoute) : C PUnit := do
  modify fun c => { c with huntstop := r.params "huntstop_scodes".toList }
  match (← get).eTry with
  | none => throw .attributeError
  | some (eTry, data, maxForwards) =>
    let cld ← ofExcept (translate cfg.staticTrOut r.cld)
    let nh ← ofExcept (nextHop cfg src r)
    let proxied := (← get).rtpSession && rtppParam r
    let ua := originateUA cfg src r nh proxied
    let body := if proxied then data.body.map (·.getCopy) else data.body
    let no := (← get).uaOs.length
    modify fun c => { c with uaOs := c.uaOs ++ [.start ua], groups := c.groups ++ groupOf r }
    let cId := data.cId.map fun cId =>
      (cfg.hideCallId.getD id) cId ++ "-b2b_".toList ++ Lib.Text.str r.number
    let event ← newEvent (.setup { data with
      cId := cId, cli := r.cli, cld := cld, body := body
      callerName := callerNameOf r (← get).callerName } (maxForwards.map (· - 1))) now
    if maxForwards.any fun n => n - 1 ≤ 0 then refuse 483 "Too Many Hops" now
    else
      match r.params "po_proc".toList with
      | some (.poProc value) => ofExcept (cfg.poProc value)
      | _ => pure ⟨⟩
      push [.send (.uaO no) { event with reason := eTry.reason }]

/-- `self.placeOriginate(self.routes.pop(0))`. -/
def placeNext (cfg : CallConfig) (src : CallSource) (now : Time) : C PUnit := do
  match (← get).routes.list with
  | [] => pure ⟨⟩
  | r :: _ =>
    modify fun c => { c with routes := c.routes.drop 1 }
    placeOriginate cfg src now r

/-- The name of the caller that comes with an accept. -/
def callerNameIn (results : List Avp) (default : Option Text) : Option Text :=
  match (results.filter fun x => x.1 = "h323-ivr-in".toList ∧ startsWith x.2 "CNAM:".toList) with
  | [] => default
  | x :: _ => B2BRoute.emptyToNone (x.2.drop 5)

/-- `rDone` with the answer to the authorisation. -/
def rDone (cfg : CallConfig) (src : CallSource) (now : Time) (results : List Avp × ℤ) : C PUnit := do
  let c ← get
  if results.2 ≠ 0 then
    if c.legA = some .uasTrying then
      if src.challenge then refuse 401 "Unauthorized" now else refuse 403 "Auth Failed" now
  else if c.legA = some .uasTrying then
    let call : CallData := ⟨c.eTry.bind (·.2.1.cld), c.cli, src.passHeaders, cfg.maxCreditTime⟩
    modify fun c => { c with
      cli := cliOf results.1 call, callerName := callerNameIn results.1 c.callerName }
    discard <| ofExcept (creditTimeOf results.1)
    if cfg.static.isNone ∧ routingOf results.1 = [] then
      refuse 500 "Internal Server Error (2)" now
    else
      let routes ← ofExcept (routesOf cfg.env cfg.static results.1 call)
      modify fun c => { c with routes := routes }
      if routes.list = [] then refuse 500 "Internal Server Error (3)" now
      else
        modify fun c => { c with state := .arComplete }
        placeNext cfg src now

/-- The called number of a call and its body, without the mark of a caller behind a NAT. -/
def unmark (cld : Text) (body : Option Ua.Body) : Text × Option Ua.Body :=
  if startsWith cld "nat-".toList then
    (cld.drop 4, body.map fun body => { body with
      content := body.content ++ "a=nated:yes\r\n".toList
      localStr := body.localStr ++ "a=nated:yes\r\n".toList })
  else (cld, body)

/-- `self.rtpps_cls(...)`, if there are RTP proxies. -/
def makeSession (cfg : CallConfig) (event : CCEvent) : C PUnit :=
  if cfg.rtpProxy then ofExcept (cfg.newSession event) else pure ⟨⟩

/-- `recvEvent` of an event from the leg that was called. -/
def recvEventA (cfg : CallConfig) (src : CallSource) (now : Time) (event : CCEvent) : C PUnit := do
  let c ← get
  if c.state = .idle then
    match event.kind with
    | .setup data maxForwards =>
      modify fun c => { c with cli := data.cli, callerName := data.callerName }
      match data.cld with
      | none => refuse 500 "Internal Server Error (1)" event.rtime
      | some cld =>
        let unmarked := unmark cld data.body
        let cld ← ofExcept (translate cfg.staticTrIn (some unmarked.1))
        makeSession cfg event
        modify fun c => { c with
          rtpSession := cfg.rtpProxy
          eTry := some (event, { data with cld := cld, body := unmarked.2 }, maxForwards)
          state := .waitRoute }
        if cfg.authEnable then do
          ofExcept (cfg.doAuth event)
          modify fun c => { c with asked := true }
        else rDone cfg src now ([], 0)
    | _ =>
      let e ← newEvent (.disconnect none) event.rtime
      push [.send .uaA e]
  else if c.state = .arComplete ∨ c.state = .connected ∨ c.state = .disconnecting then
    match c.uaOs.length with
    | 0 => pure ⟨⟩
    | n + 1 => push [.send (.uaO n) event]

/-- The code of a failure. -/
def codeOf (event : CCEvent) : Option ℤ :=
  match event.kind with
  | .fail (some (.num code, _)) _ _ => some code
  | _ => none

def isFailOrDisconnect (event : CCEvent) : Bool :=
  match event.kind with
  | .fail _ _ _ | .disconnect _ => true
  | _ => false

/-- `recvEvent` of an event from an originate leg, whichever it is. -/
def recvEventO (cfg : CallConfig) (src : CallSource) (now : Time) (event : CCEvent) : C PUnit := do
  let c ← get
  if isFailOrDisconnect event ∧ c.state = .arComplete ∧
      (c.legA = some .uasTrying ∨ c.legA = some .uasRinging) ∧ c.routes.list ≠ [] then
    if ← ofExcept (c.toHunt.stops (codeOf event)) then push [.send .uaA event]
    else placeNext cfg src now
  else push [.send .uaA event]

def recvEvent (cfg : CallConfig) (src : CallSource) (now : Time) (l : Leg) (event : CCEvent) : C PUnit :=
  match l with
  | .uaA => recvEventA cfg src now event
  | .uaO _ => recvEventO cfg src now event

def aConn : C PUnit := modify fun c => { c with state := .connected }

def aDisc : C PUnit := modify fun c => { c with
  state := if c.uaOs ≠ [] ∧ c.state ≠ .dead then .disconnecting else .dead
  rtpSession := false }

/-- `self.global_config['_cmap'].ccmap.remove(self)`. -/
def remove : C PUnit := do
  let inMap := (← get).inMap
  modify fun c => { c with removals := c.removals + 1, inMap := false }
  if inMap = false then throw .valueError

def isDead (ua : UA) : Bool := ua.state = some .dead

def aDead : C PUnit := do
  if (← get).uaO.all fun m => isDead m.ua then remove

def oDead (k : ℕ) : C PUnit := do
  let c ← get
  if k + 1 = c.uaOs.length ∧ isDead c.uaA.ua then remove

/-- `dead_cbs`. -/
def bury : Leg → C PUnit
  | .uaA => aDead
  | .uaO k => oDead k

/-- What the controller does about an act of a leg, but for its death. -/
def heed (l : Leg) (a : Act) : C PUnit :=
  match a, l with
  | .event e, l => push [.recvEvent l e, .returned l]
  | .callback .conn _ _, .uaA => aConn
  | .callback .disc _ _, .uaA | .callback .fail _ _, .uaA => aDisc
  | _, _ => pure ⟨⟩

/-- Its `dead_cbs` were called. -/
def dies (before after : UA) : Bool := before.deadCbs && !after.deadCbs

/-- A user agent whose `dead_cbs` raised has not got its new state. -/
def unbury (before after : UA) : UA :=
  { after with state := before.state, stateNo := before.stateNo, deadCbs := before.deadCbs }

/-- The leg does a step of its own; the exceptions are those of `ccmap.remove` and of its methods. -/
def advance (l : Leg) (label : Ua.Label) : C PUnit := do
  let c ← get
  match c.leg l with
  | none => pure ⟨⟩
  | some m =>
    let m := { m with seq := c.seq }
    let m' := m.step label
    modify fun c => { c.setLeg l m' with seq := m'.seq }
    (m'.log.drop m.log.length).forM (heed l)
    if dies m.ua m'.ua then
      tryCatch (bury l) fun e => do
        modify fun c => c.setLeg l { m' with ua := unbury m.ua m'.ua }
        throw e
    raising (raisesAt m label)

/-- Nothing that was begun is finished. -/
def abort (c : CallController) : CallController := { c with
  uaA := { c.uaA with todo := [] }
  uaOs := c.uaOs.map fun m => { m with todo := [] }
  work := [] }

/-- The next piece of the work. -/
def workOn (cfg : CallConfig) (src : CallSource) (io : Io) : Work → C PUnit
  | .method l => do
    match (← get).leg l with
    | none => pure ⟨⟩
    | some m =>
      if m.idle then pure ⟨⟩
      else
        push [.method l]
        advance l (.tau io)
  | .recvEvent l e => recvEvent cfg src io.now l e
  | .returned l => advance l .ret
  | .send l e => do
    push [.method l]
    advance l (.input (.event e) io)
  | .disconnect l => do
    push [.method l]
    advance l (.input (.disconnect none none) io)
  | .dead => modify fun c => { c with state := .dead }
  | .append => modify fun c => { c with inMap := true }

inductive CallLabel
  /-- The INVITE of the call. -/
  | invite (req : Request) (io : Io)
  /-- A method of a leg is called, by the transaction manager, a timer or the RTP proxy. -/
  | input (l : Leg) (i : Input) (io : Io)
  | work (io : Io)
  | rDone (results : List Avp × ℤ) (now : Time)
  | groupExpires (skipto : ℤ)

def isEvent : Input → Bool
  | .event _ => true
  | _ => false

def groupExpires (skipto : ℤ) : C PUnit := do
  let hunt ← ofExcept ((← get).toHunt.groupExpires skipto)
  modify fun c => { c with routes := hunt.routes }
  match hunt.acts, (← get).uaOs.length with
  | _ :: _, n + 1 => push [.disconnect (.uaO n)]
  | _, _ => pure ⟨⟩

/-- A leg that takes part in the call. -/
def isOn (c : CallController) (l : Leg) : Bool := (c.leg l).any fun m => m.ua.state.isSome

/-- What a label makes the controller do; while a method runs nothing else begins. -/
def action (cfg : CallConfig) (src : CallSource) (c : CallController) (label : CallLabel) : C PUnit :=
  match c.work, label with
  | w :: ws, .work io => do
    modify fun c => { c with work := ws }
    workOn cfg src io w
  | [], .invite req io =>
    if c.legA = none ∧ req.method = .invite then do
      push [.method .uaA, .append]
      advance .uaA (.input (.request req) io)
    else pure ⟨⟩
  | [], .input l i io =>
    if c.isOn l ∧ isEvent i = false then do
      push [.method l]
      advance l (.input i io)
    else pure ⟨⟩
  | [], .rDone results now =>
    if c.asked then do
      modify fun c => { c with asked := false }
      rDone cfg src now results
    else pure ⟨⟩
  | [], .groupExpires skipto =>
    if skipto ∈ c.groups then do
      modify fun c => { c with groups := c.groups.erase skipto }
      groupExpires skipto
    else pure ⟨⟩
  | _, _ => pure ⟨⟩

def raises (cfg : CallConfig) (src : CallSource) (c : CallController) (label : CallLabel) : Bool :=
  !Lib.returns (action cfg src c label) c

def step (cfg : CallConfig) (src : CallSource) (c : CallController) (label : CallLabel) : CallController :=
  match action cfg src c label c with
  | .ok _ c => c
  | .error _ c => c.abort

end CallController

end SippyB2bua.B2B
