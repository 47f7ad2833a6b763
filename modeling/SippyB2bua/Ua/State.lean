import SippyB2bua.Ua.Event
import SippyB2bua.Lib.Prog

/-!
# The user agent object

The fields of a `UA`, of its state object and of what the transaction manager and
the dispatcher keep for it: the callbacks of the INVITE that is being handled, the
SDP updates that were started and not yet completed, and the timeouts. A handler
is a program over a `World`, which also holds how the calls out of the user agent
will turn out: which of them raise and what the SDP callbacks return.
-/

namespace SippyB2bua.Ua
open Lib (Text Alarm wp)

inductive UaState
  | uasIdle | uasTrying | uasRinging | uasUpdating
  | uacIdle | uacTrying | uacRinging | uacUpdating | uacCancelling
  | connected | failed | disconnected | dead
  deriving DecidableEq, Repr

/-- The class attribute `connected`. -/
def UaState.isConnected : UaState → Bool
  | .connected | .uacUpdating | .uasUpdating => true
  | _ => false

def UaState.terminated : UaState → Bool
  | .failed | .disconnected | .uacCancelling | .dead => true
  | _ => false

/-- What a request carries besides the headers every request has. -/
structure SentRequest where
  method : Method
  ruri : Option Target
  routes : List Target
  target : Option (Addr × Text)
  cseq : ℤ
  maxForwards : Option ℤ
  headers : List Header
  body : Option Body
  deriving DecidableEq

def SentRequest.hasHF (r : SentRequest) (name : Text) : Bool := r.headers.any (·.name = name)

inductive CancelFn
  | generic | progressing | updating
  deriving DecidableEq, Repr

/-- An SDP update that was started: `delayed_remote_sdp_update` or
`delayed_local_sdp_update` with the event. -/
structure Pending where
  remote : Bool
  event : CCEvent
  deriving DecidableEq, Repr

inductive Callback
  | conn | disc | fail | ring | dead
  deriving DecidableEq, Repr

structure UA where
  state : Option UaState
  /-- How many state objects there were; a timeout of a state object names its own. -/
  stateNo : ℕ
  eventCb : Bool
  cbs : Bool
  ringCbs : Bool
  deadCbs : Bool
  username : Option Text
  password : Option Text
  authEnalgs : Option (List (Option Text))
  passAuth : Bool
  equeue : List CCEvent
  elastSeq : Option ℕ
  creditTime : Option Time
  creditTimes : List (ℕ × Option Time)
  creditTimer : Alarm
  expireTime : Option Time
  expireMtime : Time
  expireTimer : Alarm
  noProgressTime : Option Time
  noProgressMtime : Time
  noProgressTimer : Alarm
  noReplyTime : Option Time
  noReplyTimer : Alarm
  rCSeq : Option ℤ
  lCSeq : ℤ
  lTag : Text
  rTag : Option Text
  cId : Option Text
  branch : Option Text
  routes : List Target
  rTarget : Option Target
  rAddr : Option (Addr × Text)
  rAddr0 : Option (Addr × Text)
  outboundProxy : Option (Addr × Text)
  /-- The CSeq of the INVITE that `uasResp` answers, and whether it has its final response. -/
  uasResp : Option ℤ
  uasFinal : Bool
  lSDP : Option Body
  rSDP : Option Body
  onLocal : Bool
  onRemote : Bool
  kaInterval : Time
  useRefer : Bool
  /-- The INVITEs, by CSeq. -/
  reqs : List (ℤ × SentRequest)
  extraHeaders : List Header
  tr : Bool
  pendingTr : Bool
  lateMedia : Bool
  lastScode : ℤ
  setupTs : Option Time
  p100Ts : Option Time
  p1xxTs : Option Time
  connectTs : Option Time
  disconnectTs : Option Time
  origin : Option Origin
  /-- `keepalives`, `triedauth` and `ka_tr` of a `UaStateConnected`. -/
  keepalives : ℕ
  triedauth : Bool
  kaTr : Bool
  /-- The state objects whose `keepAlive` is scheduled. -/
  kaTimers : List ℕ
  /-- How often `Timeout(self.ua.disconnect, 600)` is scheduled. -/
  kaDisconnects : ℕ
  /-- How often `goDead` is scheduled, and whether `te` of a `UacStateCancelling` is. -/
  goDeads : ℕ
  te : Bool
  pending : List Pending
  /-- The callback for a CANCEL of the INVITE that has no final response yet. -/
  cancelCb : Option CancelFn
  /-- How many INVITEs were accepted whose `noack_cb` was not called. -/
  noackCbs : ℕ
  /-- How many answers were sent whose ACK is to be passed to `recvACK`. -/
  ackCbs : ℕ
  deriving DecidableEq

/-- What a user agent does that others see. -/
inductive Act
  | request (r : SentRequest)
  | response (cseq : ℤ) (scode : Code) (reason : Text) (body : Option Body) (headers : List Header)
  | reply (method : Method) (scode : ℤ)
  | cancelTransaction
  | sendACK (body : Option Body)
  | regConsumer | unregConsumer
  | event (e : CCEvent)
  | callback (c : Callback) (rtime : Option Time) (origin : Option Origin)
  deriving DecidableEq

/-- How a call of `on_local_sdp_change` or `on_remote_sdp_change` ends. -/
inductive SdpRet
  | body (b : Body)
  | pending
  | raise (e : Raised)
  deriving DecidableEq, Repr

/-- What comes from outside while a handler runs: the clock, which calls out of the
user agent raise, how the SDP callbacks end, what a hold makes of the last SDP, the
random CSeq and Call-ID, and how many events others have created. -/
structure Io where
  now : Time
  faults : List Bool
  sdps : List SdpRet
  held : Lazy Body
  cseq : ℤ
  callId : Text
  skip : ℕ
  /-- `socket.gethostname()`. -/
  host : Text

structure World where
  ua : UA
  seq : ℕ
  io : Io
  log : List Act

abbrev M := EStateM Raised World

/-- `raise` of an exception whose text does not matter. -/
def raise {α : Type} (e : Exn) : M α := throw ⟨e, []⟩

section Primitives

def getUA : M UA := do return (← get).ua

def upd (f : UA → UA) : M PUnit := modify fun w => { w with ua := f w.ua }

def now : M Time := do return (← get).io.now

def act (a : Act) : M PUnit := modify fun w => { w with log := w.log ++ [a] }

def call (a : Act) : M PUnit := do
  match (← get).io.faults with
  | [] => act a
  | fault :: faults =>
    modify fun w => { w with io := { w.io with faults := faults } }
    if fault then raise .other else act a

/-- `CCEvent...(data, rtime, origin)`. -/
def newEvent (kind : Kind) (rtime : Time) (origin : Option Origin) : M CCEvent := do
  let seq := (← get).seq
  modify fun w => { w with seq := seq + 1 }
  return ⟨kind, rtime, origin, seq, none⟩

/-- `self.ua.equeue.append(event)`. -/
def enqueue (e : CCEvent) : M PUnit := upd fun ua => { ua with equeue := ua.equeue ++ [e] }

def ofLazy {α : Type} (x : Lazy α) : M α :=
  match x with
  | .ok a => pure a
  | .error e => raise e

/-- `on_..._sdp_change(body, partial(self.ua.delayed_..._sdp_update, event))`. -/
def onSdpChange (remote : Bool) (event : CCEvent) : M (Option Body) := do
  let sdps := (← get).io.sdps
  modify fun w => { w with io := { w.io with sdps := sdps.tail } }
  match sdps.headD .pending with
  | .body b => return some b
  | .raise e => throw e
  | .pending =>
    upd fun ua => { ua with pending := ua.pending ++ [⟨remote, event⟩] }
    return none

/-- The body of a message becomes `rSDP`, and the event for it is to be queued,
unless `on_remote_sdp_change` will call back. -/
def remoteBody (body : Option Body) (event : CCEvent) : M (Option CCEvent) := do
  match body with
  | none =>
    upd fun ua => { ua with rSDP := none }
    return some event
  | some body =>
    if (← getUA).onRemote then
      match ← onSdpChange true event with
      | none => return none
      | some body =>
        upd fun ua => { ua with rSDP := some body.getCopy }
        return some (event.withBody body)
    else
      upd fun ua => { ua with rSDP := some body.getCopy }
      return some event

/-- The event for a message is queued, at once or when its body is there. -/
def queueRemote (body : Option Body) (event : CCEvent) : M PUnit := do
  match ← remoteBody body event with
  | none => pure ⟨⟩
  | some event => enqueue event

/-- `cqop` as its callers pass it: nothing, a pair, or a challenge without the pair. -/
inductive Cqop
  | none | pair (challenge : Challenge) | bare (challenge : Challenge)

def genRequest (method : Method) (body : Option Body) (cqop : Cqop)
    (extraHeaders : List Header) (maxForwards : Option ℤ) : M SentRequest := do
  let ua ← getUA
  let auth ← match cqop with
    | .none => pure []
    | .pair c => pure [c.genAuthHF]
    | .bare _ => raise .typeError
  let req : SentRequest := {
    method := method, ruri := ua.rTarget, routes := ua.routes
    target := ua.outboundProxy.or ua.rAddr, cseq := ua.lCSeq, maxForwards := maxForwards
    headers := auth ++ ua.extraHeaders ++ extraHeaders, body := body }
  upd fun ua => { ua with
    reqs := if method = .invite then (ua.lCSeq, req) :: ua.reqs.filter (·.1 ≠ ua.lCSeq) else ua.reqs
    lCSeq := ua.lCSeq + 1 }
  return req

def newTransaction (req : SentRequest) : M PUnit := call (.request req)

def newUacTransaction (req : SentRequest) : M PUnit := do
  newTransaction req
  upd fun ua => { ua with tr := true }

def sendBYE (extraHeaders : List Header) : M PUnit := do
  let req ← genRequest .bye none .none extraHeaders none
  newTransaction req

/-- A final response leaves no CANCEL to wait for. The transaction manager compares
the code with a number before it sends the response. -/
def sendUasResponse (scode : Code) (reason : Text) (body : Option Body) (extraHeaders : List Header) :
    M PUnit := do
  match (← getUA).uasResp, scode with
  | none, _ => raise .attributeError
  | some _, .ack => raise .typeError
  | some cseq, .num n =>
    call (.response cseq scode reason body extraHeaders)
    if n ≥ 200 then upd fun ua => { ua with uasFinal := true, cancelCb := none }

def cancelTransaction : M PUnit := do
  if (← getUA).tr then call .cancelTransaction else raise .attributeError

def cancelExpireTimer : M PUnit := upd fun ua => { ua with expireTimer := ua.expireTimer.cancel }

def cancelNoProgressTimer : M PUnit :=
  upd fun ua => { ua with noProgressTimer := ua.noProgressTimer.cancel }

def cancelNoReplyTimer : M PUnit := upd fun ua => { ua with noReplyTimer := ua.noReplyTimer.cancel }

def cancelCreditTimer : M PUnit := upd fun ua => { ua with creditTimer := ua.creditTimer.cancel }

/-- `credit_times.update(...)`. -/
def putCreditTime (times : List (ℕ × Option Time)) (k : ℕ) (t : Option Time) :
    List (ℕ × Option Time) :=
  (k, t) :: times.filter (·.1 ≠ k)

def startCreditTimer (rtime : Time) : M PUnit := do
  upd fun ua => match ua.creditTime with
    | none => ua
    | some t => { ua with
        creditTimes := putCreditTime ua.creditTimes 0 (some (rtime + t)), creditTime := none }
  upd fun ua => match (ua.creditTimes.filterMap (·.2)).min? with
    | none => ua
    | some t => { ua with creditTimer := ua.creditTimer.arm t }

def armExpireTimer : M PUnit :=
  upd fun ua => { ua with expireTimer := ua.expireTimer.arm ua.expireMtime }

def armNoProgressTimer : M PUnit :=
  upd fun ua => { ua with noProgressTimer := ua.noProgressTimer.arm ua.noProgressMtime }

def progressed (provisional : Bool) : M PUnit := do
  if (← getUA).noProgressTimer.ref.isSome then
    cancelNoProgressTimer
    if provisional ∧ (← getUA).expireTime.isSome then armExpireTimer

def runRingCbs (rtime : Time) (origin : Option Origin) : M PUnit := do
  if (← getUA).ringCbs then call (.callback .ring (some rtime) origin)

/-- `disconnect_ts`, which is never before `setup_ts`. -/
def setDisconnectTs (rtime : Time) : M PUnit := do
  let t ← now
  upd fun ua => { ua with disconnectTs := some (match ua.setupTs with
    | none => rtime
    | some setup => if setup ≤ rtime then rtime else t) }

end Primitives

/-- A `newstate` tuple: the class and, if the tuple has callbacks, what they are called with. -/
structure Change where
  state : UaState
  callback : Option (Callback × Option Time × Option Origin)

/-- What a handler returns. `inject` is a handler that runs `self.ua.recvEvent` and
returns `None`; `code` and `scode` are the values of shared helpers that return
the status code, or the tuple with it, to their callers. -/
inductive Ret
  | none
  | change (c : Change)
  | inject (e : CCEvent)
  | code (c : Code)
  | scode (c : Code)

def goto (s : UaState) : M Ret := return .change ⟨s, none⟩

/-- A tuple with `conn_cbs`, `disc_cbs` or `fail_cbs` as they are now. -/
def changeWith (s : UaState) (c : Callback) (rtime : Time) (origin : Option Origin) :
    M Change := do
  let cbs := (← getUA).cbs
  return ⟨s, if cbs then some (c, some rtime, origin) else none⟩

def gotoWith (s : UaState) (c : Callback) (rtime : Time) (origin : Option Origin) : M Ret := do
  return .change (← changeWith s c rtime origin)

/-- A tuple with `ring_cbs`. -/
def gotoRinging (s : UaState) (rtime : Time) (origin : Option Origin) : M Ret := do
  let ringCbs := (← getUA).ringCbs
  return .change ⟨s, if ringCbs then some (.ring, some rtime, origin) else none⟩

section Rules
variable {α : Type} {Q : α → World → Prop} {R : PUnit → World → Prop} {E : Raised → World → Prop}
variable {w : World}

@[simp] theorem wp_getUA {S : UA → World → Prop} : wp getUA S E w ↔ S w.ua w := Iff.rfl

@[simp] theorem wp_upd (f : UA → UA) : wp (upd f) R E w ↔ R ⟨⟩ { w with ua := f w.ua } := Iff.rfl

@[simp] theorem wp_raise (e : Exn) : wp (raise e : M α) Q E w ↔ E ⟨e, []⟩ w := Iff.rfl

@[simp] theorem wp_act (a : Act) : wp (act a) R E w ↔ R ⟨⟩ { w with log := w.log ++ [a] } := Iff.rfl

theorem wp_call (a : Act) : wp (call a) R E w ↔
    if w.io.faults.headD false then E ⟨.other, []⟩ { w with io := { w.io with
      faults := w.io.faults.tail } }
    else R ⟨⟩ { w with
      io := { w.io with faults := w.io.faults.tail }, log := w.log ++ [a] } := by
  obtain ⟨ua, seq, ⟨now, faults, sdps, held, cseq, callId, skip⟩, log⟩ := w
  cases faults with
  | nil => simp [call]
  | cons fault faults => cases fault <;> simp [call]

@[simp] theorem wp_newEvent {S : CCEvent → World → Prop} (k : Kind) (t : Time) (o : Option Origin) :
    wp (newEvent k t o) S E w ↔ S ⟨k, t, o, w.seq, none⟩ { w with seq := w.seq + 1 } := Iff.rfl

@[simp] theorem wp_enqueue (e : CCEvent) :
    wp (enqueue e) R E w ↔ R ⟨⟩ { w with ua := { w.ua with equeue := w.ua.equeue ++ [e] } } := Iff.rfl

@[simp] theorem wp_ofLazy (x : Lazy α) :
    wp (ofLazy x) Q E w ↔ match x with
      | .ok a => Q a w
      | .error e => E ⟨e, []⟩ w := by
  cases x <;> rfl

theorem wp_onSdpChange {S : Option Body → World → Prop} (remote : Bool) (e : CCEvent) :
    wp (onSdpChange remote e) S E w ↔ match w.io.sdps.headD .pending with
      | .body b => S (some b) { w with io := { w.io with sdps := w.io.sdps.tail } }
      | .raise ex => E ex { w with io := { w.io with sdps := w.io.sdps.tail } }
      | .pending => S none { w with
          ua := { w.ua with pending := w.ua.pending ++ [⟨remote, e⟩] }
          io := { w.io with sdps := w.io.sdps.tail } } := by
  simp only [onSdpChange, Lib.wp_bind, Lib.wp_get, Lib.wp_modify]
  split <;> rfl

end Rules

end SippyB2bua.Ua
