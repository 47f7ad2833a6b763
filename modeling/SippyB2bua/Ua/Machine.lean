import SippyB2bua.Ua.Connected
import SippyB2bua.Lib.Run

/-!
# A user agent at work

The methods of `UA`, and a machine that runs them. A method first runs a state
handler and changes the state, and then calls `event_cb` for the queued events;
the callback may call the user agent again before it returns. What is still to be
done is kept on a stack, so that a step of the machine is one handler with its
change of state, or one event that is handed over.
-/

namespace SippyB2bua.Ua
open Lib (Text Alarm run)

/-- A `UA` as the constructor makes it. -/
def UA.new : UA where
  state := none
  stateNo := 0
  eventCb := true
  cbs := true
  ringCbs := false
  deadCbs := true
  username := none
  password := none
  authEnalgs := none
  passAuth := false
  equeue := []
  elastSeq := none
  creditTime := none
  creditTimes := []
  creditTimer := .off
  expireTime := none
  expireMtime := 0
  expireTimer := .off
  noProgressTime := none
  noProgressMtime := 0
  noProgressTimer := .off
  noReplyTime := none
  noReplyTimer := .off
  rCSeq := none
  lCSeq := 0
  lTag := []
  rTag := none
  cId := none
  branch := none
  routes := []
  rTarget := none
  rAddr := none
  rAddr0 := none
  outboundProxy := none
  uasResp := none
  uasFinal := false
  lSDP := none
  rSDP := none
  onLocal := false
  onRemote := false
  kaInterval := 0
  useRefer := true
  reqs := []
  extraHeaders := []
  tr := false
  pendingTr := false
  lateMedia := false
  lastScode := 100
  setupTs := none
  p100Ts := none
  p1xxTs := none
  connectTs := none
  disconnectTs := none
  origin := none
  keepalives := 0
  triedauth := false
  kaTr := false
  kaTimers := []
  kaDisconnects := 0
  goDeads := 0
  te := false
  pending := []
  cancelCb := none
  noackCbs := 0
  ackCbs := 0

/-- What `UaStateDead.__init__` clears. -/
def UA.buried (ua : UA) : UA := { ua with
  tr := false, eventCb := false, cbs := false, onLocal := false, onRemote := false
  expireTimer := ua.expireTimer.drop, noProgressTimer := ua.noProgressTimer.drop
  creditTimer := ua.creditTimer.drop, reqs := [] }

/-- `unregConsumer`, of a user agent that was registered. -/
def unregister : M PUnit := do
  if (← getUA).cId.isSome then act .unregConsumer

/-- `for callback in ua.dead_cbs: callback(ua)`. -/
def runDeadCbs (deadCbs : Bool) : M PUnit := do
  if deadCbs then call (.callback .dead none none)

def construct (s : UaState) : M PUnit := do
  match s with
  | .connected => upd fun ua => { ua with
      keepalives := 0, triedauth := false, kaTr := false, branch := none
      kaTimers := if ua.kaInterval > 0 then (ua.stateNo + 1) :: ua.kaTimers else ua.kaTimers }
  | .uacCancelling => upd fun ua => { ua with onLocal := false, onRemote := false, te := true }
  | .failed | .disconnected => upd fun ua => { ua with
      onLocal := false, onRemote := false, goDeads := ua.goDeads + 1 }
  | .dead =>
    unregister
    upd UA.buried
    runDeadCbs (← getUA).deadCbs
    upd fun ua => { ua with deadCbs := false }
  | _ => pure ⟨⟩

/-- The `onStateChange` of the state that is left. -/
def leaveState : M PUnit := do
  if (← getUA).state = some .connected then UaStateConnected.onStateChange

/-- `changeState` with a tuple. -/
def changeState (c : Change) : M PUnit := do
  leaveState
  construct c.state
  upd fun ua => { ua with state := some c.state, stateNo := ua.stateNo + 1 }
  match c.callback with
  | none => pure ⟨⟩
  | some (which, rtime, origin) => call (.callback which rtime origin)

/-- What a method still has to do after it has changed the state. -/
inductive Todo
  /-- The loop of `emitPendingEvents`. -/
  | emitPending
  /-- `emitEvent`. -/
  | emitEvent (e : CCEvent)
  /-- `self.recvEvent(event)`. -/
  | recvEvent (e : CCEvent)
  /-- `return (None, self.state.cancel, self.disconnect)`. -/
  | accepted
  /-- `event_cb` is running. -/
  | callback
  deriving DecidableEq

/-- The end of a method, after the handler. The exceptions are those of `newstate[0]`
on a number and of a number that is called. -/
def finish (ret : Ret) (rest : List Todo) : M (List Todo) := do
  match ret with
  | .none => return rest
  | .change c =>
    changeState c
    return rest
  | .inject e => return .recvEvent e :: rest
  | .code _ => raise .typeError
  | .scode _ => raise .typeError

/-- `newstate != None`, of a tuple. -/
def Ret.changes : Ret → Bool
  | .change _ => true
  | _ => false

def stateRecvEvent (s : UaState) (event : CCEvent) : M Ret :=
  match s with
  | .uasTrying => UasStateTrying.recvEvent event
  | .uasRinging => UasStateRinging.recvEvent event
  | .uasUpdating => UasStateUpdating.recvEvent event
  | .uacIdle => UacStateIdle.recvEvent event
  | .uacTrying => UacStateTrying.recvEvent event
  | .uacRinging => UacStateRinging.recvEvent event
  | .uacUpdating => UacStateUpdating.recvEvent event
  | .connected => UaStateConnected.recvEvent event
  | .uasIdle | .uacCancelling | .failed | .disconnected | .dead => return .none

def stateRecvRequest (s : UaState) (req : Request) : M Ret :=
  match s with
  | .uasIdle => UasStateIdle.recvRequest req
  | .uasRinging => UasStateRinging.recvRequest req
  | .uasUpdating => UasStateUpdating.recvRequest req
  | .uacUpdating => UacStateUpdating.recvRequest req
  | .connected => UaStateConnected.recvRequest req
  | .disconnected => do
    call (.reply req.method (if req.method = .bye then 200 else 500))
    return .none
  | _ => return .none

def stateRecvResponse (s : UaState) (resp : Response) : M Ret :=
  match s with
  | .uacTrying => UacStateTrying.recvResponse resp
  | .uacRinging => UacStateRinging.recvResponse resp
  | .uacUpdating => UacStateUpdating.recvResponse resp
  | .uacCancelling => UacStateCancelling.recvResponse resp
  | _ => return .none

/-- `recvACK` of a state whose class says `connected`; only `UaStateConnected` has it. -/
def stateRecvACK (s : UaState) (req : Request) : M Ret :=
  match s with
  | .connected => UaStateConnected.recvACK req
  | _ => raise .attributeError

/-- The `cancel` that a state class has. -/
def cancelFn : UaState → CancelFn
  | .uasTrying | .uasRinging => .progressing
  | .uasUpdating => .updating
  | _ => .generic

namespace UA

/-- A user agent without a state takes one, if what it received is of the kind. -/
def wake (woken : Bool) (s : UaState) : M PUnit := do
  if (← getUA).state = none ∧ woken then changeState ⟨s, none⟩

def recvRequest (req : Request) : M (List Todo) := do
  let ua ← getUA
  if ua.rCSeq.isSome ∧ req.cseq ≤ ua.rCSeq.getD 0 then
    act (.reply req.method 500)
    return []
  upd fun ua => { ua with rCSeq := some req.cseq }
  wake (req.method = .invite) .uasIdle
  match (← getUA).state with
  | none => return []
  | some s =>
    let ret ← stateRecvRequest s req
    finish ret (if ret.changes && req.method = .invite then [.emitPending, .accepted]
      else [.emitPending])

def answerable (ua : UA) (c : Challenge) : Bool :=
  ua.authEnalgs.all (c.algorithm ∈ ·) && c.supported

def processChallenge (challenges : List (Lazy Challenge)) (cseq : ℤ) (authHfname : Text)
    (sent : SentRequest) (extraHeaders : List Header) : M Bool := do
  let ua ← getUA
  if ua.username = none ∨ ua.password = none ∨ sent.hasHF authHfname then return false
  let challenges ← ofLazy (challenges.mapM id)
  match challenges.find? ua.answerable with
  | none => return false
  | some challenge =>
    let req ← genRequest .invite ua.lSDP (.pair challenge) extraHeaders none
    newUacTransaction req
    upd fun ua => { ua with reqs := ua.reqs.filter (·.1 ≠ cseq) }
    return true

def challenged (resp : Response) (extraHeaders : List Header) : M Bool := do
  let ua ← getUA
  match ua.reqs.lookup resp.cseq with
  | none => return false
  | some sent =>
    if resp.method = .invite ∧ ua.passAuth = false then
      if resp.scode = 401 then
        processChallenge resp.wwwAuthenticate resp.cseq hfAuthorization sent extraHeaders
      else if resp.scode = 407 then
        processChallenge resp.proxyAuthenticate resp.cseq hfProxyAuthorization sent extraHeaders
      else return false
    else return false

def recvResponse (resp : Response) (extraHeaders : List Header) : M (List Todo) := do
  match (← getUA).state with
  | none | some .dead => return []
  | some s =>
    if ← challenged resp extraHeaders then return []
    upd fun ua =>
      if resp.scode ≥ 200 then { ua with reqs := ua.reqs.filter (·.1 ≠ resp.cseq) } else ua
    finish (← stateRecvResponse s resp) [.emitPending]

/-- The events that a user agent without a state reacts to. -/
def wakes (event : CCEvent) : Bool :=
  match event.kind with
  | .setup _ _ | .fail _ _ _ | .disconnect _ => true
  | _ => false

def recvEvent (event : CCEvent) : M (List Todo) := do
  wake (wakes event) .uacIdle
  match (← getUA).state with
  | none => return []
  | some s => finish (← stateRecvEvent s event) [.emitPending]

def disconnect (rtime : Option Time) (origin : Option Origin) : M (List Todo) := do
  let t ← now
  let rtime := rtime.getD t
  enqueue (← newEvent (.disconnect none) rtime origin)
  recvEvent (← newEvent (.disconnect none) rtime origin)

def recvACK (req : Request) : M (List Todo) := do
  match (← getUA).state with
  | none => return []
  | some s => if s.isConnected then finish (← stateRecvACK s req) [.emitPending] else return []

/-- The callback for a CANCEL: the method of the state in which the INVITE was accepted. -/
def cancel (fn : CancelFn) (rtime : Time) (reason : Option Text) : M (List Todo) := do
  match fn with
  | .generic => return []
  | .progressing =>
    let origin := (← getUA).origin
    let event ← newEvent (.disconnect none) rtime origin
    upd fun ua => { ua with disconnectTs := some rtime }
    changeState (← changeWith .disconnected .disc rtime origin)
    return [.emitEvent { event with reason := reason }]
  | .updating =>
    sendBYE []
    cancelCreditTimer
    upd fun ua => { ua with disconnectTs := some rtime }
    let origin := (← getUA).origin
    changeState (← changeWith .disconnected .disc rtime origin)
    let event ← newEvent (.disconnect none) rtime origin
    return [.emitEvent { event with reason := reason }]

/-- `delayed_remote_sdp_update` and `delayed_local_sdp_update` with the rewritten body. -/
def sdpUpdated (p : Pending) (body : Body) : M (List Todo) := do
  let event := p.event.withBody body
  if p.remote then
    upd fun ua => { ua with rSDP := some body.getCopy }
    enqueue event
    return [.emitPending]
  else recvEvent event

def sdpFailed (ex : Raised) : M (List Todo) := do
  if ex.isSdp then
    let t ← now
    let event ← newEvent (.fail (some (.num ex.scode.1, ex.scode.2)) [] none) t none
    let event := { event with reason := ex.getReason }
    enqueue event
    return [.emitPending, .recvEvent event]
  else throw ex

def resetCreditTime (rtime : Time) (times : List (ℕ × Option Time)) : M (List Todo) := do
  upd fun ua => { ua with
    creditTimes := times.foldl (fun ts t => putCreditTime ts t.1 t.2) ua.creditTimes }
  match (← getUA).state with
  | none => raise .attributeError
  | some s =>
    if s.isConnected then
      cancelCreditTimer
      startCreditTimer rtime
      return []
    else return []

end UA

inductive TimerId
  | expire (deadline : Time)
  | noProgress (deadline : Time)
  | noReply (deadline : Time)
  | credit (deadline : Time)
  | keepAlive (stateNo : ℕ)
  | kaDisconnect
  | goDead
  | goIdle
  deriving DecidableEq

def TimerId.scheduled (ua : UA) : TimerId → Bool
  | .expire d => d ∈ ua.expireTimer.live
  | .noProgress d => d ∈ ua.noProgressTimer.live
  | .noReply d => d ∈ ua.noReplyTimer.live
  | .credit d => d ∈ ua.creditTimer.live
  | .keepAlive n => n ∈ ua.kaTimers
  | .kaDisconnect => 0 < ua.kaDisconnects
  | .goDead => 0 < ua.goDeads
  | .goIdle => ua.te

def timeout (t : TimerId) : M (List Todo) := do
  match t with
  | .expire d =>
    upd fun ua => { ua with expireTimer := ua.expireTimer.fire d }
    UA.disconnect none none
  | .noProgress d =>
    upd fun ua => { ua with noProgressTimer := ua.noProgressTimer.fire d }
    UA.disconnect none none
  | .noReply d =>
    upd fun ua => { ua with noReplyTimer := ua.noReplyTimer.fire d }
    UA.disconnect none none
  | .credit d =>
    upd fun ua => { ua with creditTimer := ua.creditTimer.fire d }
    UA.disconnect (some d) none
  | .keepAlive n =>
    upd fun ua => { ua with kaTimers := ua.kaTimers.erase n }
    UaStateConnected.keepAlive n
    return []
  | .kaDisconnect =>
    upd fun ua => { ua with kaDisconnects := ua.kaDisconnects - 1 }
    UA.disconnect none none
  | .goDead =>
    upd fun ua => { ua with goDeads := ua.goDeads - 1 }
    changeState ⟨.dead, none⟩
    return []
  | .goIdle =>
    upd fun ua => { ua with te := false }
    changeState ⟨.dead, none⟩
    return []

/-- A call of the user agent from outside. -/
inductive Input
  | request (req : Request)
  | response (resp : Response) (extraHeaders : List Header)
  | event (e : CCEvent)
  | ack (req : Request)
  | cancel (rtime : Time) (reason : Option Text)
  | noack
  | disconnect (rtime : Option Time) (origin : Option Origin)
  | resetCreditTime (rtime : Time) (times : List (ℕ × Option Time))
  | timeout (t : TimerId)
  | keepAliveResp (stateNo : ℕ) (resp : Response)
  /-- A response to the REFER of a call that was left. -/
  | referResp
  | sdpUpdated (p : Pending) (body : Body)
  | sdpFailed (p : Pending) (ex : Raised)

/-- Whether the call can come: a callback only while somebody holds it. -/
def Input.possible (ua : UA) : Input → Bool
  | .ack _ => 0 < ua.ackCbs
  | .cancel _ _ => ua.cancelCb.isSome
  | .noack => 0 < ua.noackCbs
  | .timeout t => t.scheduled ua
  | .sdpUpdated p _ | .sdpFailed p _ => p ∈ ua.pending
  | _ => true

def UA.resolved (p : Pending) (ua : UA) : UA := { ua with pending := ua.pending.erase p }

def Input.run : Input → M (List Todo)
  | .request req => UA.recvRequest req
  | .response resp extraHeaders => UA.recvResponse resp extraHeaders
  | .event e => UA.recvEvent e
  | .ack req => do
    upd fun ua => { ua with ackCbs := ua.ackCbs - 1 }
    UA.recvACK req
  | .cancel rtime reason => do
    let fn := (← getUA).cancelCb
    upd fun ua => { ua with cancelCb := none }
    UA.cancel (fn.getD .generic) rtime reason
  | .noack => do
    upd fun ua => { ua with noackCbs := ua.noackCbs - 1 }
    UA.disconnect none none
  | .disconnect rtime origin => UA.disconnect rtime origin
  | .resetCreditTime rtime times => UA.resetCreditTime rtime times
  | .timeout t => Ua.timeout t
  | .keepAliveResp n resp => do
    match ← UaStateConnected.keepAliveResp n resp with
    | .none => return []
    | .disconnect => UA.disconnect none none
  | .referResp => do
    sendBYE []
    return []
  | .sdpUpdated p body => do
    upd (UA.resolved p)
    UA.sdpUpdated p body
  | .sdpFailed p ex => do
    upd (UA.resolved p)
    UA.sdpFailed ex

/-- The user agent, what it has done, and what it still has to do. -/
structure Mach where
  ua : UA
  seq : ℕ
  todo : List Todo
  log : List Act

/-- Run a program; an exception ends everything up to the callback it was called from. -/
def Mach.exec (m : Mach) (io : Io) (rest : List Todo) (p : M (List Todo)) : Mach :=
  match p ⟨m.ua, m.seq + io.skip, io, []⟩ with
  | .ok todo w => ⟨w.ua, w.seq, todo ++ rest, m.log ++ w.log⟩
  | .error _ w => ⟨w.ua, w.seq, rest.dropWhile (· ≠ .callback), m.log ++ w.log⟩

/-- Hand an event over, unless a later one was handed over before. -/
def Mach.emit (m : Mach) (e : CCEvent) (rest : List Todo) : Mach :=
  if ∃ n ∈ m.ua.elastSeq, e.seq ≤ n then { m with todo := rest }
  else { m with
    ua := { m.ua with elastSeq := some e.seq }, todo := .callback :: rest, log := m.log ++ [.event e] }

/-- One step of a method that is being executed. -/
def Mach.tau (m : Mach) (io : Io) : Mach :=
  match m.todo with
  | [] | .callback :: _ => m
  | .emitPending :: rest =>
    match m.ua.equeue, m.ua.eventCb with
    | e :: es, true => { m with ua := { m.ua with equeue := es } }.emit e m.todo
    | _, _ => { m with todo := rest }
  | .emitEvent e :: rest => if m.ua.eventCb then m.emit e rest else { m with todo := rest }
  | .recvEvent e :: rest => m.exec io rest (UA.recvEvent e)
  | .accepted :: rest => { m with
      todo := rest
      ua := { m.ua with
        noackCbs := m.ua.noackCbs + 1
        cancelCb := if m.ua.uasFinal then none else some (m.ua.state.elim .generic cancelFn) } }

inductive Label
  | input (i : Input) (io : Io)
  | tau (io : Io)
  /-- `event_cb` returns. -/
  | ret
  /-- `event_cb` raises. -/
  | throw

/-- Nobody is waiting for the user agent to return. -/
def Mach.idle (m : Mach) : Bool :=
  match m.todo with
  | [] | .callback :: _ => true
  | _ => false

def Mach.step (m : Mach) : Label → Mach
  | .input i io => if m.idle && i.possible m.ua then m.exec io m.todo i.run else m
  | .tau io => m.tau io
  | .ret => match m.todo with
    | .callback :: rest => { m with todo := rest }
    | _ => m
  | .throw => match m.todo with
    | .callback :: rest => { m with todo := rest.dropWhile (· ≠ .callback) }
    | _ => m

section Step
variable {m : Mach}

theorem Mach.step_input {i : Input} {io : Io} :
    m.step (.input i io) = if m.idle && i.possible m.ua then m.exec io m.todo i.run else m := rfl

/-- What the end of `event_cb` leaves to do is a part of what there was. -/
theorem Mach.step_return {l : Label} (hl : l = .ret ∨ l = .throw) :
    ∃ todo, m.step l = { m with todo := todo } ∧ ∀ t ∈ todo, t ∈ m.todo := by
  obtain ⟨ua, seq, todo, log⟩ := m
  match todo with
  | [] | .emitPending :: _ | .emitEvent _ :: _ | .recvEvent _ :: _ | .accepted :: _ =>
    rcases hl with rfl | rfl <;> exact ⟨_, rfl, fun _ h => h⟩
  | .callback :: rest =>
    rcases hl with rfl | rfl
    · exact ⟨rest, rfl, fun _ h => List.mem_cons_of_mem _ h⟩
    · exact ⟨_, rfl, fun _ h => List.mem_cons_of_mem _ ((List.dropWhile_sublist _).subset h)⟩

end Step

def Mach.start (ua : UA) : Mach := ⟨ua, 0, [], []⟩

/-- A request with no more than every request has. -/
def Request.bare (method : Method) (cseq : ℤ) : Request where
  method := method
  cseq := cseq
  rtime := 0
  callId := "a".toList
  cld := some "1".toList
  cli := none
  callerName := none
  fromTag := some "b".toList
  branch := none
  body := none
  contact := .ok ⟨⟨"c".toList, none, none, true, []⟩, [], []⟩
  recordRoutes := []
  authorization := none
  also := none
  referTo := none
  reason := none
  maxForwards := none

/-- A response with no more than every response has. -/
def Response.bare (scode : ℤ) (method : Method) (cseq : ℤ) : Response where
  scode := scode
  reason := []
  cseq := cseq
  method := method
  rtime := 0
  body := none
  toTag := .ok (some "d".toList)
  contacts := []
  recordRoutes := []
  wwwAuthenticate := []
  proxyAuthenticate := []
  reasonHf := none

/-- Nothing raises, every SDP update is waited for. -/
def Io.calm : Io where
  now := 0
  faults := []
  sdps := []
  held := .error .other
  cseq := 1
  callId := "e".toList
  skip := 0
  host := "h".toList

end SippyB2bua.Ua
