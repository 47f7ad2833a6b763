import SippyB2bua.Ua.Meter

/-!
# What a handler does to the meter

For each state and each message the meters that the handler can leave behind, with the
state that it asks for. A handler that raises leaves its state, with the meter as it was
when the exception came; the timers of a final response are gone by then.
-/

namespace SippyB2bua.Ua
open Lib (Text Alarm)

/-- How a handler ends, as far as the state goes. -/
inductive Res
  | raised (e : Raised)
  | stays
  | injects (e : CCEvent)
  | to (s : UaState)

/-- A status code in place of a tuple makes `changeState` raise and leaves the state. -/
def Ret.res : Ret → Res
  | .none | .code _ | .scode _ => .stays
  | .change c => .to c.state
  | .inject e => .injects e

def Res.keeps : Res → Bool
  | .to _ => false
  | _ => true

def UaState.calling (s : UaState) : Bool := s = .uacTrying ∨ s = .uacRinging

def UaState.progressing (s : UaState) : Bool := s = .uasTrying ∨ s = .uasRinging

def isOk {α : Type} : Lazy α → Bool
  | .ok _ => true
  | .error _ => false

/-- The To of a response has no tag. -/
def Response.untagged (resp : Response) : Bool :=
  match resp.toTag with
  | .ok none => true
  | _ => false

def Response.routable (resp : Response) : Bool :=
  resp.contacts.head?.all isOk && resp.recordRoutes.all isOk && isOk resp.toTag

/-- The headers that a failure or a redirect is read for. -/
def Response.reportable (resp : Response) (passAuth : Bool) : Bool :=
  if (resp.scode = 301 ∨ resp.scode = 302) ∧ resp.contacts ≠ [] then
    (resp.contacts.take 1).all isOk
  else if resp.scode = 300 ∧ resp.contacts ≠ [] then resp.contacts.all isOk
  else if passAuth then
    if resp.scode = 401 then resp.wwwAuthenticate.all isOk
    else if resp.scode = 407 then resp.proxyAuthenticate.isEmpty
    else true
  else true

def Response.legible (s : UaState) (passAuth : Bool) (resp : Response) : Bool :=
  if resp.scode < 300 then resp.routable else resp.reportable (passAuth && s = .uacTrying)

/-- What keeps a handler from ending the call for a Disconnect. -/
def World.Stuck (w : World) (s : UaState) (d : Dispatch) : Prop :=
  ∀ e also, d = .event e → e.kind = .disconnect also →
    (s.progressing ∨ s = .uasUpdating → ¬ w.Calm ∨ w.ua.uasResp = none) ∧
    (s.calling ∨ s = .uacUpdating → ¬ w.Calm ∨ w.ua.tr = false) ∧ (s = .connected → ¬ w.Calm) ∧
    s ≠ .uacIdle

def World.connects (w : World) (resp : Response) : Prop :=
  resp.untagged = false ∧ (w.ua.lateMedia = false ∨ resp.body = none)

instance (w : World) (resp : Response) : Decidable (w.connects resp) :=
  inferInstanceAs (Decidable (_ ∧ _))

def World.Unreadable (w : World) (s : UaState) (resp : Response) : Prop :=
  (resp.scode < 300 ∧ resp.toTag = .ok none ∧ ¬ w.Calm) ∨ w.ua.rTarget = none ∨
    resp.legible s w.ua.passAuth = false

namespace Meter

/-- `UasStateTrying` stops its own timer when it is left. -/
def left (μ : Meter) (s : UaState) : Meter := if s = .uasTrying then μ.noProgressOff else μ

def heard (μ : Meter) (s : UaState) (scode : ℤ) : Meter :=
  if s = .uacTrying then
    if scode = 100 then μ.replied scode else (μ.replied scode).progressed (scode < 200)
  else μ

def connected (μ : Meter) (t : Time) : Meter := (μ.start t).connect t

def invited (μ : Meter) (t : Time) : Meter := (μ.deadlines t).armFirst

def setup (μ : Meter) (t : Time) : Meter := { μ with setupTs := some t }

def offered (μ : Meter) (t : Time) (late : Bool) : Meter :=
  { μ with setupTs := μ.setupTs.or (some t), lateMedia := late }

def inviting (μ : Meter) (t : Time) : Meter := ((μ.deadlines t).replyDeadline).armReply t

def late (μ : Meter) : Meter := { μ with pendingTr := true }

def onTime (μ : Meter) : Meter := { μ with lateMedia := false }

end Meter

/-- What a handler leaves behind that is run in `w`. -/
inductive Tick (w : World) : UaState → Dispatch → Res → Meter → Prop
  | idle {s : UaState} {d : Dispatch} {r : Res} (hr : r.keeps) (hd : w.Stuck s d)
      (hs : ∀ resp, d = .response resp → s.calling = false) : Tick w s d r w.meter
  | updated {s : UaState} {d : Dispatch} (hs : s = .uasUpdating ∨ s = .uacUpdating)
      (hd : ∀ e also, d = .event e → e.kind ≠ .disconnect also) :
      Tick w s d (.to .connected) w.meter
  | updates {req : Request} (hm : req.method = .invite) :
      Tick w .connected (.request req) (.to .uasUpdating) w.meter
  | reinvites {e : CCEvent} {b : Option Body} {mf : Option ℤ} (hk : e.kind = .update b mf) :
      Tick w .connected (.event e) (.to .uacUpdating) w.meter
  | invited {req : Request} {e : Raised} (hm : req.method = .invite) :
      Tick w .uasIdle (.request req) (.raised e) (w.meter.invited req.rtime)
  | trying {req : Request} (hm : req.method = .invite) :
      Tick w .uasIdle (.request req) (.to .uasTrying) ((w.meter.invited req.rtime).setup req.rtime)
  | rings {e : CCEvent} {data : Option (Code × Text × Option Body)} (hk : e.kind = .ring data) :
      Tick w .uasTrying (.event e) (.to .uasRinging) (w.meter.progressed true)
  | answers {s : UaState} {e : CCEvent} {c : Code} {r : Text} {b : Option Body}
      (hs : s.progressing) (hk : e.kind = .connect c r b) :
      Tick w s (.event e) (.to .connected) ((w.meter.expireOff.connected e.rtime).left s)
  | preAnswers {s : UaState} {e : CCEvent} {c : Code} {r : Text} {b : Option Body}
      (hs : s.progressing) (hk : e.kind = .preConnect c r b) :
      Tick w s (.event e) (.to .connected) (w.meter.left s)
  | refuses {s s' : UaState} {e : CCEvent} (hs : s.progressing) (hk : e.final)
      (hs' : s' = .failed ∨ s' = .disconnected) :
      Tick w s (.event e) (.to s') ((w.meter.expireOff.disconnect e.rtime).left s)
  | stopped {req : Request} (hm : req.method = .bye) :
      Tick w .uasRinging (.request req) (.to .disconnected)
        (w.meter.expireOff.disconnect req.rtime)
  | hungUp {s : UaState} {req : Request} (hs : s.isConnected)
      (hm : req.method = .bye ∨ s = .uasUpdating ∧ req.method = .refer) :
      Tick w s (.request req) (.to .disconnected) (w.meter.creditOff.disconnect req.rtime)
  | hangsUp {s : UaState} {e : CCEvent} (hs : s.isConnected) (hk : e.final) :
      Tick w s (.event e) (.to .disconnected) (w.meter.hangUp.creditOff.disconnect e.rtime)
  | failsUpdate {resp : Response}
      (hwhy : resp.scode = 408 ∨ resp.scode = 481 ∨ resp.scode < 300 ∧ ∃ ex, .raise ex ∈ w.io.sdps)
      (hcode : 200 ≤ resp.scode) :
      Tick w .uacUpdating (.response resp) (.to .disconnected)
        (w.meter.hangUp.creditOff.disconnect resp.rtime)
  | acks {req : Request} {r : Res} (hr : r.keeps) :
      Tick w .connected (.ack req) r (w.meter.expireOff.creditOff.connected req.rtime)
  | waits {e : CCEvent} {r : Res} {c : Code} {t : Text} {b : Option Body} (hr : r.keeps)
      (hk : e.kind = .connect c t b) (hp : w.meter.pendingTr) :
      Tick w .connected (.event e) r w.meter.expireOff
  | accepts {e : CCEvent} {r : Res} {c : Code} {t : Text} {b : Option Body} {p : Bool}
      (hr : r.keeps) (hk : e.kind = .connect c t b) (hp : w.meter.pendingTr) :
      Tick w .connected (.event e) r
        { w.meter.expireOff.creditOff.connected e.rtime with pendingTr := p }
  | sets {e : CCEvent} {r : Res} {data : Setup} {mf : Option ℤ} {late : Bool} (hr : r.keeps)
      (hk : e.kind = .setup data mf) : Tick w .uacIdle (.event e) r (w.meter.offered e.rtime late)
  | invites {e : CCEvent} {data : Setup} {mf : Option ℤ} {late : Bool}
      (hk : e.kind = .setup data mf) :
      Tick w .uacIdle (.event e) (.to .uacTrying)
        ((w.meter.offered e.rtime late).inviting e.rtime)
  | drops {e : CCEvent} (hk : e.final) :
      Tick w .uacIdle (.event e) (.to .dead)
        (w.meter.disconnect (w.meter.notBefore w.io.now e.rtime))
  | provisional {s : UaState} {resp : Response} {r : Res} (hs : s.calling)
      (hcode : resp.scode < 200) (hr : r.keeps ∨ r = .to .uacRinging) :
      Tick w s (.response resp) r (w.meter.heard s resp.scode)
  | unheard {s : UaState} {resp : Response} {ex : Raised} (hs : s.calling)
      (hcode : resp.scode < 200) (hex : .raise ex ∈ w.io.sdps) :
      Tick w s (.response resp) (.to .failed)
        ((w.meter.heard s resp.scode).disconnect resp.rtime)
  | unread {s : UaState} {resp : Response} {e : Raised} (hs : s.calling) (hcode : 200 ≤ resp.scode)
      (hwhy : w.Unreadable s resp) :
      Tick w s (.response resp) (.raised e) (w.meter.heard s resp.scode).expireOff
  | untagged {s : UaState} {resp : Response} (hs : s.calling) (hcode : 200 ≤ resp.scode)
      (hlt : resp.scode < 300) (htag : resp.toTag = .ok none) :
      Tick w s (.response resp) (.to .failed)
        ((w.meter.heard s resp.scode).expireOff.hangUp.disconnect
          (w.meter.notBefore w.io.now resp.rtime))
  | answered {s : UaState} {resp : Response} (hs : s.calling) (hcode : 200 ≤ resp.scode)
      (hlt : resp.scode < 300) (hbody : w.connects resp) :
      Tick w s (.response resp) (.to .connected)
        ((w.meter.heard s resp.scode).expireOff.onTime.connected resp.rtime)
  | late {s : UaState} {resp : Response} (hs : s.calling) (hcode : 200 ≤ resp.scode) :
      Tick w s (.response resp) (.to .connected) (w.meter.heard s resp.scode).expireOff.late
  | broken {s : UaState} {resp : Response} {ν : Meter} {e ex : Raised} (hs : s.calling)
      (hcode : 200 ≤ resp.scode) (hlt : resp.scode < 300) (hex : .raise ex ∈ w.io.sdps)
      (he : ¬ w.Calm ∨ ex.isSdp = false)
      (hν : w.connects resp ∧
          ν = (w.meter.heard s resp.scode).expireOff.onTime.connected resp.rtime ∨
        ν = (w.meter.heard s resp.scode).expireOff.late) :
      Tick w s (.response resp) (.raised e) ν
  | spoiled {s : UaState} {resp : Response} {ν : Meter} (hs : s.calling) (hcode : 200 ≤ resp.scode)
      (hlt : resp.scode < 300)
      (hν : (∃ ex, .raise ex ∈ w.io.sdps) ∧ (w.connects resp ∧
            ν = (w.meter.heard s resp.scode).expireOff.onTime.connected resp.rtime ∨
          ν = (w.meter.heard s resp.scode).expireOff.late) ∨
        w.Unreadable s resp ∧ ν = (w.meter.heard s resp.scode).expireOff) :
      Tick w s (.response resp) (.to .failed) (ν.hangUp.disconnect resp.rtime)
  | rejected {s : UaState} {resp : Response} (hs : s.calling) (hcode : 300 ≤ resp.scode)
      {t : Time} (ht : t = w.meter.notBefore w.io.now resp.rtime ∨
        w.Unreadable s resp ∧ t = resp.rtime) :
      Tick w s (.response resp) (.to .failed) ((w.meter.heard s resp.scode).expireOff.disconnect t)
  | cancels {e : CCEvent} (hk : e.final) :
      Tick w .uacTrying (.event e) (.to .uacCancelling)
        (w.meter.expireOff.noProgressOff.noReplyOff.disconnect (w.meter.notBefore w.io.now e.rtime))
  | cancelsRinging {e : CCEvent} (hk : e.final) :
      Tick w .uacRinging (.event e) (.to .uacCancelling)
        (w.meter.expireOff.disconnect (w.meter.notBefore w.io.now e.rtime))
  | tooLate {resp : Response} :
      Tick w .uacCancelling (.response resp) (.to .disconnected) w.meter.hangUp
  | gone {resp : Response} : Tick w .uacCancelling (.response resp) (.to .dead) w.meter

section Handlers
variable {w : World} {μ : Meter} {s : UaState} {d : Dispatch}
variable {K : Ret → Meter → Prop} {X : Raised → Meter → Prop}

def Ticks (w : World) (s : UaState) (d : Dispatch) (μ : Meter) (p : M Ret) : Prop :=
  Reads w μ (fun r => Tick w s d r.res) (fun e => Tick w s d (.raised e)) p

theorem goto_reads {s' : UaState} (h : K (.change ⟨s', none⟩) μ) : Reads w μ K X (goto s') :=
  .pure h

theorem changeWith_reads {s' : UaState} {c : Callback} {rtime : Time} {origin : Option Origin} :
    Reads w μ (fun c' μ' => c'.state = s' ∧ μ' = μ) X (changeWith s' c rtime origin) :=
  .getUA_bind fun _ _ _ => .pure ⟨rfl, rfl⟩

theorem gotoWith_reads {s' : UaState} {c : Callback} {rtime : Time} {origin : Option Origin}
    (h : ∀ c, c.state = s' → K (.change c) μ) : Reads w μ K X (gotoWith s' c rtime origin) :=
  .step changeWith_reads fun c hc => .pure (h c hc)

theorem gotoRinging_reads {s' : UaState} {rtime : Time} {origin : Option Origin}
    (h : ∀ c, c.state = s' → K (.change c) μ) : Reads w μ K X (gotoRinging s' rtime origin) :=
  .getUA_bind fun _ _ _ => .pure (h _ rfl)

theorem idle_tick {r : Res} (hr : r.keeps) (hd : ∀ e also, d = .event e → e.kind ≠ .disconnect also)
    (hs : ∀ resp, d = .response resp → s.calling = false) : Tick w s d r w.meter :=
  .idle hr (fun e also he hk => absurd hk (hd e also he)) hs

@[simp] theorem setupTs_heard (s : UaState) (scode : ℤ) : (μ.heard s scode).setupTs = μ.setupTs := by
  unfold Meter.heard Meter.progressed Meter.replied
  split_ifs <;> rfl

@[simp] theorem lateMedia_heard (s : UaState) (scode : ℤ) :
    (μ.heard s scode).lateMedia = μ.lateMedia := by
  unfold Meter.heard Meter.progressed Meter.replied
  split_ifs <;> rfl

theorem notBefore_heard (s : UaState) (scode : ℤ) (now rtime : Time) :
    (μ.heard s scode).expireOff.hangUp.notBefore now rtime = μ.notBefore now rtime := by
  simp [Meter.notBefore, Meter.expireOff, Meter.hangUp]

theorem tick_to {c : Change} {s' : UaState} (hc : c.state = s') (h : Tick w s d (.to s') μ) :
    Tick w s d (Ret.change c).res μ := by
  subst hc
  exact h

theorem followRoutes_reads (hX : w.ua.rTarget = none → X ⟨.attributeError, []⟩ μ) :
    Reads w μ (fun _ μ' => μ' = μ) X followRoutes := by
  refine .getUA_bind fun w' hw' _ => ?_
  split
  · split
    · rename_i hnone
      refine .raise (hX ?_)
      have hno : ¬ w.ua.rTarget.isSome := fun h => by simpa [hnone] using hw'.rTarget h
      simpa using hno
    · exact .upd_other (fun _ => rfl) fun _ _ => rfl
  · rename_i first rest _
    refine .ite (fun _ => ?_) fun _ => .ite (fun _ => ?_) fun _ =>
      .upd_other (fun _ => rfl) fun _ _ => rfl
    · exact .upd_rTarget (t := first) (fun _ => rfl) fun _ _ => rfl
    · exact .upd_rTarget (fun _ => rfl) fun _ _ => rfl

theorem getAuthorization_reads {req : Request} (hX : ∀ e, X e μ) :
    Reads w μ (fun _ μ' => μ' = μ) X (UasStateIdle.getAuthorization req) := by
  unfold UasStateIdle.getAuthorization
  split
  · exact .pure rfl
  · exact .map (.ofLazy fun _ _ => hX _) fun _ _ h => h.2

theorem uasIdle_recvRequest_ticks {req : Request} :
    Ticks w .uasIdle (.request req) w.meter (UasStateIdle.recvRequest req) := by
  have hidle {r : Res} (hr : r.keeps) : Tick w .uasIdle (.request req) r w.meter :=
    idle_tick hr (by simp) (by simp)
  unfold UasStateIdle.recvRequest
  refine .ite (fun _ => .pure (hidle rfl)) fun hm => ?_
  have hm : req.method = .invite := by simpa using hm
  refine .next (.upd_uasResp (fun _ => rfl) fun _ _ => rfl) fun _ => .get_bind fun _ _ _ => ?_
  refine .next (.upd_other (fun _ => rfl) fun _ _ => rfl) fun _ => ?_
  refine .step (.ofLazy fun _ _ => hidle rfl) fun contact _ => ?_
  refine .next (.upd_rTarget (fun _ => rfl) fun _ _ => rfl) fun _ => ?_
  refine .step (.ofLazy fun _ _ => hidle rfl) fun routes _ => ?_
  refine .next (.upd_other (fun _ => rfl) fun _ _ => rfl) fun _ => ?_
  refine .next (followRoutes_reads fun _ => hidle rfl) fun _ => ?_
  refine .next (.upd_other (fun _ => rfl) fun _ _ => rfl) fun _ => ?_
  refine .next (.call rfl fun _ => hidle rfl) fun _ => ?_
  refine .next (.upd_other (fun _ => rfl) fun _ _ => rfl) fun _ => .next (.act rfl) fun _ => ?_
  refine .next (getAuthorization_reads fun _ => hidle rfl) fun auth => ?_
  refine .next (.upd_other (fun _ => rfl) fun _ _ => rfl) fun _ => .step .newEvent fun event _ => ?_
  refine .next .armSetupTimers fun _ => .next .armFirst fun _ => ?_
  refine .next (.queueRemote fun _ _ => .invited hm) fun _ => ?_
  exact .next (.upd (g := fun ν => ν.setup req.rtime) (fun _ => rfl) fun _ _ => rfl) fun _ =>
    goto_reads (.trying hm)

section Answering

/-- The SDP of an event waits for the RTP proxy, or the handler goes on. -/
theorem delayLocalSdpUpdate_reads {event : CCEvent} {body : Option Body}
    (hX : ∀ e, X e μ) :
    Reads w μ (fun _ μ' => μ' = μ) X (UasStateGeneric.delayLocalSdpUpdate event body) := by
  refine .getUA_bind fun _ _ _ => ?_
  cases body with
  | none => exact .pure rfl
  | some body =>
    exact .ite (fun _ => .next (.discard (.onSdpChange fun e _ => hX e)) fun _ => .pure rfl)
      fun _ => .pure rfl

theorem ringResponse_reads {event : CCEvent} {data : Option (Code × Text × Option Body)}
    (hX : ∀ e, X e μ) :
    Reads w μ (fun _ μ' => μ' = μ) X (UasStateGeneric.ringResponse event data) := by
  unfold UasStateGeneric.ringResponse
  split
  · exact .next (.upd_other (fun _ => rfl) fun _ _ => rfl) fun _ =>
      .next (.sendUasResponse fun e _ => hX e) fun _ => .pure rfl
  · refine .next (delayLocalSdpUpdate_reads hX) fun _ => .ite (fun _ => .pure rfl) fun _ => ?_
    exact .next (.upd_other (fun _ => rfl) fun _ _ => rfl) fun _ =>
      .next (.sendUasResponse fun e _ => hX e) fun _ => .pure rfl

theorem getConnectData_reads {event : CCEvent} {body : Option Body} (hX : ∀ e, X e μ) :
    Reads w μ (fun _ μ' => μ' = μ) X (UasStateGeneric.getConnectData event body) :=
  .next (delayLocalSdpUpdate_reads hX) fun _ => .ite (fun _ => .pure rfl) fun _ =>
    .next (.upd_other (fun _ => rfl) fun _ _ => rfl) fun _ => .pure rfl

theorem redirectResponse_reads {event : CCEvent}
    {data : Option (Code × Text × Option Body × Option (List Target))} (hX : ∀ e, X e μ) :
    Reads w μ (fun _ μ' => μ' = μ) X (UasStateGeneric.redirectResponse event data) := by
  unfold UasStateGeneric.redirectResponse
  split
  · exact .next (.sendUasResponse fun e _ => hX e) fun _ => .pure rfl
  · exact .next (.sendUasResponse fun e _ => hX e) fun _ => .pure rfl

theorem sendFailResponse_reads {event : CCEvent} {data : Option (Code × Text)}
    (hX : ∀ e, X e μ) :
    Reads w μ (fun _ μ' => μ' = μ) X (UasStateGeneric.sendFailResponse event data) := by
  unfold UasStateGeneric.sendFailResponse
  split
  · exact .sendUasResponse fun e _ => hX e
  · exact .sendUasResponse fun e _ => hX e

/-- The handlers that `UasStateTrying` and `UasStateRinging` share, and what becomes of a
change of state that they ask for. -/
theorem progressing_connect {e : CCEvent} {code : Code} {reason : Text} {body : Option Body}
    (hX : ∀ ex, X ex μ) (hstay : K .none μ)
    (hK : ∀ c, c.state = .connected → K (.change c) (μ.expireOff.connected e.rtime)) :
    Reads w μ K X (UasStateProgressing.recvEventConnect e code reason body) := by
  refine .next (getConnectData_reads hX) fun _ => .ite (fun _ => ?_) fun _ => .pure hstay
  refine .next (.sendUasResponse fun e _ => hX e) fun _ => .next .cancelExpireTimer fun _ => ?_
  refine .next .startCreditTimer fun _ => ?_
  refine .next (.upd (g := fun ν => ν.connect e.rtime) (fun _ => rfl) fun _ _ => rfl) fun _ => ?_
  exact gotoWith_reads hK

theorem progressing_preConnect {e : CCEvent} {code : Code} {reason : Text} {body : Option Body}
    (hX : ∀ ex, X ex μ) (hstay : K .none μ) (hK : ∀ c, c.state = .connected → K (.change c) μ) :
    Reads w μ K X (UasStateProgressing.recvEventPreConnect e code reason body) := by
  refine .next (getConnectData_reads hX) fun _ => .ite (fun _ => ?_) fun _ => .pure hstay
  refine .next (.sendUasResponse fun e _ => hX e) fun _ => ?_
  exact .next (.upd_other (fun _ => rfl) fun _ _ => rfl) fun _ => goto_reads (hK _ rfl)

section Refuse
variable {e : CCEvent}

theorem refuse_reads {s' : UaState} {c : Callback}
    (hK : ∀ c, c.state = s' → K (.change c) (μ.expireOff.disconnect e.rtime)) :
    Reads w μ K X (do
      cancelExpireTimer
      upd fun ua => { ua with disconnectTs := some e.rtime }
      gotoWith s' c e.rtime e.origin) :=
  .next .cancelExpireTimer fun _ =>
    .next (.upd (g := fun ν => ν.disconnect e.rtime) (fun _ => rfl) fun _ _ => rfl) fun _ =>
      gotoWith_reads hK

theorem progressing_redirect {data : Option (Code × Text × Option Body × Option (List Target))}
    (hX : ∀ ex, X ex μ)
    (hK : ∀ c, c.state = .failed → K (.change c) (μ.expireOff.disconnect e.rtime)) :
    Reads w μ K X (UasStateProgressing.recvEventRedirect e data) :=
  .next (.discard (redirectResponse_reads hX)) fun _ => refuse_reads hK

theorem progressing_fail {data : Option (Code × Text)} (hX : ∀ ex, X ex μ)
    (hK : ∀ c, c.state = .failed → K (.change c) (μ.expireOff.disconnect e.rtime)) :
    Reads w μ K X (UasStateProgressing.recvEventFail e data) :=
  .next (sendFailResponse_reads hX) fun _ => refuse_reads hK

theorem progressing_disconnect
    (hX : ∀ ex, ¬ w.Calm ∨ w.ua.uasResp = none → X ex μ)
    (hK : ∀ c, c.state = .disconnected → K (.change c) (μ.expireOff.disconnect e.rtime)) :
    Reads w μ K X (UasStateProgressing.recvEventDisconnect e) :=
  .next (.sendUasResponse fun e h => hX e (by simpa using h)) fun _ => refuse_reads hK

end Refuse

/-- A handler of `UasStateTrying` that leaves the state stops its timer. -/
theorem leaving_reads {h : M Ret} {L : Ret → Meter → Prop} (hh : Reads w μ L X h)
    (hstay : ∀ ν, L .none ν → K .none ν)
    (hK : ∀ r ν, r ≠ .none → L r ν → K r ν.noProgressOff) :
    Reads w μ K X (UasStateTrying.leaving h) := by
  refine .bind hh fun r ν hr => ?_
  cases r with
  | none => exact .pure (hstay ν hr)
  | change c => exact .next .cancelNoProgressTimer fun _ => .pure (hK _ ν (by simp) hr)
  | inject e => exact .next .cancelNoProgressTimer fun _ => .pure (hK _ ν (by simp) hr)
  | code c => exact .next .cancelNoProgressTimer fun _ => .pure (hK _ ν (by simp) hr)
  | scode c => exact .next .cancelNoProgressTimer fun _ => .pure (hK _ ν (by simp) hr)

/-- A state that answers a call stays when a call raises or an SDP is waited for. -/
theorem progressing_idle {e : CCEvent} {r : Res} (hs : s.progressing) (hr : r.keeps)
    (hd : ∀ also, e.kind = .disconnect also → ¬ w.Calm ∨ w.ua.uasResp = none) :
    Tick w s (.event e) r w.meter := by
  have hs' : s = .uasTrying ∨ s = .uasRinging := by simpa [UaState.progressing] using hs
  refine .idle hr (fun e' also he hk => ?_) (by simp)
  cases he
  refine ⟨fun _ => hd also hk, ?_, ?_, ?_⟩ <;> rcases hs' with rfl | rfl <;> simp [UaState.calling]

theorem uasTrying_recvEvent_ticks {e : CCEvent} :
    Ticks w .uasTrying (.event e) w.meter (UasStateTrying.recvEvent e) := by
  have hidle {r : Res} (hr : r.keeps) (hk : ∀ also, e.kind ≠ .disconnect also) :
      Tick w .uasTrying (.event e) r w.meter :=
    progressing_idle rfl hr fun also h => absurd h (hk also)
  have hrefuse {s' : UaState} (hk : e.final) (hs' : s' = .failed ∨ s' = .disconnected) :
      Tick w .uasTrying (.event e) (.to s') ((w.meter.expireOff.disconnect e.rtime).left .uasTrying) :=
    .refuses rfl hk hs'
  unfold UasStateTrying.recvEvent
  split
  case h_1 data hk =>
    refine .ite (fun _ => .pure (hidle rfl (by simp [hk]))) fun _ => ?_
    refine .next (ringResponse_reads fun _ => hidle rfl (by simp [hk])) fun r => ?_
    cases r with
    | none => exact .pure (hidle rfl (by simp [hk]))
    | some _ =>
      refine .next .progressed fun _ => .next (.upd_other (fun _ => rfl) fun _ _ => rfl) fun _ => ?_
      exact gotoRinging_reads fun c hc => tick_to hc (.rings hk)
  case h_2 code reason body hk =>
    refine leaving_reads (L := fun r μ => r = .none ∧ μ = w.meter ∨
      ∃ c, r = .change c ∧ c.state = .connected ∧ μ = w.meter.expireOff.connected e.rtime)
      (progressing_connect (fun _ => hidle rfl (by simp [hk])) (.inl ⟨rfl, rfl⟩)
        fun c hc => .inr ⟨c, rfl, hc, rfl⟩) ?_ ?_
    · rintro ν (⟨-, rfl⟩ | ⟨_, h, -⟩)
      · exact hidle rfl (by simp [hk])
      · cases h
    · rintro r ν hr (⟨rfl, -⟩ | ⟨c, rfl, hc, rfl⟩)
      · exact absurd rfl hr
      · exact tick_to hc (.answers rfl hk)
  case h_3 code reason body hk =>
    refine leaving_reads (L := fun r μ => r = .none ∧ μ = w.meter ∨
      ∃ c, r = .change c ∧ c.state = .connected ∧ μ = w.meter)
      (progressing_preConnect (fun _ => hidle rfl (by simp [hk])) (.inl ⟨rfl, rfl⟩)
        fun c hc => .inr ⟨c, rfl, hc, rfl⟩) ?_ ?_
    · rintro ν (⟨-, rfl⟩ | ⟨_, h, -⟩)
      · exact hidle rfl (by simp [hk])
      · cases h
    · rintro r ν hr (⟨rfl, -⟩ | ⟨c, rfl, hc, rfl⟩)
      · exact absurd rfl hr
      · exact tick_to hc (.preAnswers rfl hk)
  case h_4 data hk =>
    refine leaving_reads (L := fun r μ => ∃ c, r = .change c ∧ c.state = .failed ∧
        μ = w.meter.expireOff.disconnect e.rtime)
      (progressing_redirect (fun _ => hidle rfl (by simp [hk])) fun c hc => ⟨c, rfl, hc, rfl⟩) ?_ ?_
    · rintro ν ⟨_, h, -⟩
      cases h
    · rintro r ν - ⟨c, rfl, hc, rfl⟩
      exact tick_to hc (hrefuse (by simp [CCEvent.final, hk]) (.inl rfl))
  case h_5 data _ _ hk =>
    refine leaving_reads (L := fun r μ => ∃ c, r = .change c ∧ c.state = .failed ∧
        μ = w.meter.expireOff.disconnect e.rtime)
      (progressing_fail (fun _ => hidle rfl (by simp [hk])) fun c hc => ⟨c, rfl, hc, rfl⟩) ?_ ?_
    · rintro ν ⟨_, h, -⟩
      cases h
    · rintro r ν - ⟨c, rfl, hc, rfl⟩
      exact tick_to hc (hrefuse (by simp [CCEvent.final, hk]) (.inl rfl))
  case h_6 also hk =>
    refine leaving_reads (L := fun r μ => ∃ c, r = .change c ∧ c.state = .disconnected ∧
        μ = w.meter.expireOff.disconnect e.rtime)
      (progressing_disconnect (fun _ h => progressing_idle rfl rfl fun _ _ => h)
        fun c hc => ⟨c, rfl, hc, rfl⟩) ?_ ?_
    · rintro ν ⟨_, h, -⟩
      cases h
    · rintro r ν - ⟨c, rfl, hc, rfl⟩
      exact tick_to hc (hrefuse (by simp [CCEvent.final, hk]) (.inr rfl))
  case h_7 _ _ _ _ _ hk => exact .pure (hidle rfl hk)

theorem uasRinging_recvEvent_ticks {e : CCEvent} :
    Ticks w .uasRinging (.event e) w.meter (UasStateRinging.recvEvent e) := by
  have hidle {r : Res} (hr : r.keeps) (hk : ∀ also, e.kind ≠ .disconnect also) :
      Tick w .uasRinging (.event e) r w.meter :=
    progressing_idle rfl hr fun also h => absurd h (hk also)
  have hrefuse {s' : UaState} (hk : e.final) (hs' : s' = .failed ∨ s' = .disconnected) :
      Tick w .uasRinging (.event e) (.to s') (w.meter.expireOff.disconnect e.rtime) :=
    .refuses (s := .uasRinging) rfl hk hs'
  unfold UasStateRinging.recvEvent
  split
  case h_1 data hk =>
    refine .next (ringResponse_reads fun _ => hidle rfl (by simp [hk])) fun r => ?_
    cases r with
    | none => exact .pure (hidle rfl (by simp [hk]))
    | some _ =>
      refine .next (.upd_other (fun _ => rfl) fun _ _ => rfl) fun _ => ?_
      refine .next (.getUA_bind fun _ _ _ => .ite (fun _ => .call rfl fun _ => hidle rfl (by simp [hk]))
        fun _ => .pure rfl) fun _ => .pure (hidle rfl (by simp [hk]))
  case h_2 code reason body hk =>
    exact progressing_connect (fun _ => hidle rfl (by simp [hk])) (hidle rfl (by simp [hk]))
      fun c hc => tick_to hc (.answers (s := .uasRinging) rfl hk)
  case h_3 code reason body hk =>
    exact progressing_preConnect (fun _ => hidle rfl (by simp [hk])) (hidle rfl (by simp [hk]))
      fun c hc => tick_to hc (.preAnswers (s := .uasRinging) rfl hk)
  case h_4 data hk =>
    exact progressing_redirect (fun _ => hidle rfl (by simp [hk])) fun c hc =>
      tick_to hc (hrefuse (by simp [CCEvent.final, hk]) (.inl rfl))
  case h_5 data _ _ hk =>
    exact progressing_fail (fun _ => hidle rfl (by simp [hk])) fun c hc =>
      tick_to hc (hrefuse (by simp [CCEvent.final, hk]) (.inl rfl))
  case h_6 also hk =>
    exact progressing_disconnect (fun _ h => progressing_idle rfl rfl fun _ _ => h) fun c hc =>
      tick_to hc (hrefuse (by simp [CCEvent.final, hk]) (.inr rfl))
  case h_7 _ _ _ _ _ hk => exact .pure (hidle rfl hk)

theorem getRequestAlso_reads {req : Request} (hX : ∀ e, X e μ) :
    Reads w μ (fun _ μ' => μ' = μ) X (UasStateGeneric.getRequestAlso req) := by
  unfold UasStateGeneric.getRequestAlso
  split
  · exact .pure rfl
  · exact .map (.ofLazy fun e _ => hX _) fun _ _ h => h.2

theorem disconnectFromRequest_reads {req : Request} {also : Option Text} {copyReason : Bool}
    (hK : ∀ c, c.state = .disconnected → K (.change c) (μ.disconnect req.rtime)) :
    Reads w μ K X (UasStateGeneric.disconnectFromRequest req also copyReason) := by
  refine .getUA_bind fun _ _ _ => .step .newEvent fun _ _ => .next .enqueue fun _ => ?_
  refine .next (.upd (g := fun ν => ν.disconnect req.rtime) (fun _ => rfl) fun _ _ => rfl) fun _ => ?_
  exact gotoWith_reads hK

theorem uasRinging_recvRequest_ticks {req : Request} :
    Ticks w .uasRinging (.request req) w.meter (UasStateRinging.recvRequest req) := by
  have hidle {r : Res} (hr : r.keeps) : Tick w .uasRinging (.request req) r w.meter :=
    idle_tick hr (by simp) (by simp)
  unfold UasStateRinging.recvRequest
  split
  case h_1 hm =>
    refine .next (.sendUasResponse fun _ _ => hidle rfl) fun _ => .next (.call rfl fun _ => hidle rfl)
      fun _ => ?_
    refine .next (getRequestAlso_reads fun _ => hidle rfl) fun _ => .next .cancelExpireTimer fun _ => ?_
    exact disconnectFromRequest_reads fun c hc => tick_to hc (.stopped hm)
  case h_2 => exact .pure (hidle rfl)

theorem connected_idle {e : CCEvent} {r : Res} (hs : s.isConnected) (hr : r.keeps)
    (hd : ∀ also, e.kind = .disconnect also → ¬ w.Calm ∨ s = .uasUpdating ∧ w.ua.uasResp = none ∨
      s = .uacUpdating ∧ w.ua.tr = false) : Tick w s (.event e) r w.meter := by
  refine .idle hr (fun e' also he hk => ?_) (by simp)
  cases he
  have h := hd also hk
  cases s <;> simp_all [UaState.progressing, UaState.calling, UaState.isConnected]

theorem uasUpdating_recvEvent_ticks {e : CCEvent} :
    Ticks w .uasUpdating (.event e) w.meter (UasStateUpdating.recvEvent e) := by
  have hidle {r : Res} (hr : r.keeps) (hk : ∀ also, e.kind ≠ .disconnect also) :
      Tick w .uasUpdating (.event e) r w.meter :=
    connected_idle rfl hr fun also h => absurd h (hk also)
  have hupdated (hk : ∀ also, e.kind ≠ .disconnect also) :
      Tick w .uasUpdating (.event e) (.to .connected) w.meter :=
    .updated (.inl rfl) fun _ also he => (Dispatch.event.inj he) ▸ hk also
  unfold UasStateUpdating.recvEvent
  split
  case h_1 data hk =>
    refine .next (ringResponse_reads fun _ => hidle rfl (by simp [hk])) fun r => ?_
    cases r with
    | none => exact .pure (hidle rfl (by simp [hk]))
    | some c => exact .pure (hidle rfl (by simp [hk]))
  case h_2 code reason body hk =>
    refine .next (getConnectData_reads fun _ => hidle rfl (by simp [hk])) fun _ => .ite (fun _ => ?_)
      fun _ => .pure (hidle rfl (by simp [hk]))
    exact .next (.sendUasResponse fun _ _ => hidle rfl (by simp [hk])) fun _ => goto_reads (hupdated (by simp [hk]))
  case h_3 data hk =>
    exact .map (redirectResponse_reads fun _ => hidle rfl (by simp [hk])) fun _ _ h =>
      h ▸ hidle rfl (by simp [hk])
  case h_4 data _ _ hk =>
    refine .next (.upd_other (fun _ => rfl) fun _ _ => rfl) fun _ => ?_
    exact .next (sendFailResponse_reads fun _ => hidle rfl (by simp [hk])) fun _ => goto_reads (hupdated (by simp [hk]))
  case h_5 also hk =>
    refine .next (.sendUasResponse fun _ h => connected_idle rfl rfl fun _ _ => by simpa using h)
      fun _ => .next (.sendBYE fun h => connected_idle rfl rfl fun _ _ => .inl h) fun _ => ?_
    refine .next .cancelCreditTimer fun _ => ?_
    refine .next (.upd (g := fun ν => ν.disconnect e.rtime) (fun _ => rfl) fun _ _ => rfl) fun _ => ?_
    exact gotoWith_reads fun c hc => tick_to hc (.hangsUp rfl (by simp [CCEvent.final, hk]))
  case h_6 _ _ _ _ hk => exact .pure (hidle rfl hk)

theorem uasUpdating_recvRequest_ticks {req : Request} :
    Ticks w .uasUpdating (.request req) w.meter (UasStateUpdating.recvRequest req) := by
  have hidle {r : Res} (hr : r.keeps) : Tick w .uasUpdating (.request req) r w.meter :=
    idle_tick hr (by simp) (by simp)
  unfold UasStateUpdating.recvRequest
  split
  · exact .next (.call rfl fun _ => hidle rfl) fun _ => .pure (hidle rfl)
  · refine .next (.sendUasResponse fun _ _ => hidle rfl) fun _ => .next (.call rfl fun _ => hidle rfl)
      fun _ => .next .cancelCreditTimer fun _ => ?_
    exact disconnectFromRequest_reads fun c hc => tick_to hc (.hungUp rfl (by simp [*]))
  · split
    · exact .next (.call rfl fun _ => hidle rfl) fun _ => .pure (hidle rfl)
    · refine .next (.sendUasResponse fun _ _ => hidle rfl) fun _ => .next (.call rfl fun _ => hidle rfl)
        fun _ => .step (.ofLazy fun _ _ => hidle rfl) fun _ _ => .next .cancelCreditTimer fun _ => ?_
      exact disconnectFromRequest_reads fun c hc => tick_to hc (.hungUp rfl (by simp [*]))
  · exact .pure (hidle rfl)

end Answering

section Calling

theorem passAuth_reads {req : SentRequest} {auth : Option Text} :
    Reads w μ (fun r μ' => r.method = req.method ∧ μ' = μ) X (UacStateIdle.passAuth req auth) := by
  refine .getUA_bind fun w' _ _ => ?_
  split
  · exact .next (.upd_other (fun _ => rfl) fun _ _ => rfl) fun _ => .pure ⟨rfl, rfl⟩
  · exact .pure ⟨rfl, rfl⟩

theorem setTarget_reads {cld : Option Text} (hX : ∀ e, X e μ) :
    Reads w μ (fun _ μ' => μ' = μ) X (UacStateIdle.setTarget cld) := by
  refine .getUA_bind fun _ _ _ => ?_
  split
  · exact .raise (hX _)
  · exact .upd_rTarget (fun _ => rfl) fun _ _ => rfl

theorem uacIdle_recvEvent_ticks {e : CCEvent} :
    Ticks w .uacIdle (.event e) w.meter (UacStateIdle.recvEvent e) := by
  unfold UacStateIdle.recvEvent
  split
  case h_1 data mf hk =>
    let started := w.meter.offered e.rtime w.meter.lateMedia
    have hsets {r : Res} {late : Bool} (hr : r.keeps) :
        Tick w .uacIdle (.event e) r (w.meter.offered e.rtime late) := .sets hr hk
    refine .next (ν := started) (.upd (g := fun ν => ν.offered e.rtime ν.lateMedia)
      (fun _ => rfl) fun _ _ => rfl) fun _ => ?_
    refine .next (delayLocalSdpUpdate_reads fun _ => hsets rfl) fun _ => ?_
    refine .ite (fun _ => .pure (hsets rfl)) fun _ => ?_
    refine .next (ν := w.meter.offered e.rtime (w.meter.lateMedia || data.body.isNone))
      (.upd (g := fun ν => { ν with lateMedia := ν.lateMedia || data.body.isNone })
        (fun _ => rfl) fun _ _ => rfl) fun _ => ?_
    refine .get_bind fun _ _ _ => .next (.upd_other (fun _ => rfl) fun _ _ => rfl) fun _ => ?_
    refine .next (.act rfl) fun _ => .next (setTarget_reads fun _ => hsets rfl) fun _ => ?_
    refine .get_bind fun _ _ _ => .next (.upd_other (fun _ => rfl) fun _ _ => rfl) fun _ => ?_
    refine .next (.upd_other (fun _ => rfl) fun _ _ => rfl) fun _ => ?_
    refine .step (.genRequest (by simp)) fun req hreq => .step passAuth_reads fun req' hreq' => ?_
    refine .next (.newUacTransaction (hreq'.trans hreq) fun _ => hsets rfl) fun _ => ?_
    exact .next .uacArmSetupTimers fun _ => goto_reads (.invites hk)
  case h_2 hk =>
    refine .ite (fun h => .next .setDisconnectTs fun _ => ?_) fun h => .pure ?_
    · exact gotoWith_reads fun c hc => tick_to hc (.drops h)
    · refine idle_tick rfl (fun e' also he hk' => h ?_) (by simp)
      cases he
      simp [CCEvent.final, hk']

theorem followContact_reads {resp : Response} (hX : resp.contacts.head?.all isOk = false → ∀ e, X e μ) :
    Reads w μ (fun _ μ' => μ' = μ) X (UacStateTrying.followContact resp) := by
  unfold UacStateTrying.followContact
  split
  · exact .pure rfl
  · rename_i contact _ hc
    refine .step (.ofLazy fun e he => hX ?_ _) fun _ _ => .upd_rTarget (fun _ => rfl) fun _ _ => rfl
    simp [hc, he, isOk]

theorem mapM_error {α : Type} {xs : List (Lazy α)} {e : Exn} (h : xs.mapM id = .error e) :
    xs.all isOk = false := by
  induction xs with
  | nil => simp [pure, Except.pure] at h
  | cons x xs ih =>
    cases x with
    | error _ => rfl
    | ok a =>
      simp only [List.mapM_cons, id, bind, Except.bind] at h
      cases hx : xs.mapM id with
      | ok as => simp [hx, pure, Except.pure] at h
      | error e' => simpa [isOk] using ih (by simpa [hx] using h)

theorem updateRoutes_reads {resp : Response}
    (hX : w.ua.rTarget = none ∨ resp.routable = false → ∀ e, X e μ) :
    Reads w μ (fun _ μ' => μ' = μ) X (UacStateTrying.updateRoutes resp) := by
  refine .next (followContact_reads fun h => hX (.inr (by simp [Response.routable, h]))) fun _ => ?_
  refine .step (.ofLazy fun e he => hX (.inr ?_) _) fun _ _ => ?_
  · simp [Response.routable, mapM_error he]
  · exact .next (.upd_other (fun _ => rfl) fun _ _ => rfl) fun _ =>
      followRoutes_reads fun h => hX (.inl h) _

theorem challenges_reads {resp : Response} (hX : ∀ e, (w.ua.passAuth = true ∧
      (resp.scode = 401 ∧ resp.wwwAuthenticate.all isOk = false ∨
        resp.scode = 407 ∧ resp.proxyAuthenticate ≠ [])) → X e μ) :
    Reads w μ (fun _ μ' => μ' = μ) X (UacStateTrying.challenges resp) := by
  refine .getUA_bind fun w' hw' _ => .ite (fun hp => ?_) fun _ => .pure rfl
  have hpass : w.ua.passAuth = true := hw'.passAuth ▸ hp
  refine .ite (fun h => ?_) fun _ => .ite (fun h => ?_) fun _ => .pure rfl
  · exact .step (.ofLazy fun e he => hX _ ⟨hpass, .inl ⟨h.1, mapM_error he⟩⟩) fun _ _ => .pure rfl
  · exact .raise (hX _ ⟨hpass, .inr h⟩)

/-- What a final response is reported as, unless it cannot be read. -/
theorem rejection_reads {resp : Response} {challenges : M (List Header)}
    (hc : Reads w μ (fun _ μ' => μ' = μ) X challenges)
    (hX : ∀ e, (resp.scode = 301 ∨ resp.scode = 302) ∧ resp.contacts ≠ [] ∧
        (resp.contacts.take 1).all isOk = false ∨
      resp.scode = 300 ∧ resp.contacts ≠ [] ∧ resp.contacts.all isOk = false → X e μ) :
    Reads w μ (fun e μ' => e.rtime = resp.rtime ∧ μ' = μ) X
      (UacStateTrying.rejection resp challenges) := by
  refine .getUA_bind fun _ _ _ => .ite (fun h => ?_) fun _ => .ite (fun h => ?_) fun _ => ?_
  · refine .step (.ofLazy fun e he => hX _ (.inl ⟨h.1, h.2, mapM_error he⟩)) fun _ _ => ?_
    exact .step .newEvent fun e he => .pure ⟨he.2, rfl⟩
  · refine .step (.ofLazy fun e he => hX _ (.inr ⟨h.1, h.2, mapM_error he⟩)) fun _ _ => ?_
    exact .step .newEvent fun e he => .pure ⟨he.2, rfl⟩
  · refine .step .newEvent fun e he => .next hc fun _ => ?_
    exact .step (P := fun e' => e'.rtime = e.rtime) (.pure ⟨rfl, rfl⟩) fun _ he' =>
      .pure ⟨he'.trans he.2, rfl⟩

section TryingOrRinging
variable {resp : Response} (hs : s.calling)
include hs

/-- A 2xx; `μ` is the meter once the timers are stopped. -/
theorem answered_reads (hcode : 200 ≤ resp.scode) (hlt : resp.scode < 300)
    (hμ : μ = (w.meter.heard s resp.scode).expireOff)
    (hunread : ∀ e, w.Unreadable s resp → X e μ)
    (hraise : ∀ e, .raise e ∈ w.io.sdps →
      (w.connects resp → X e (μ.onTime.connected resp.rtime)) ∧
      X e μ.late) :
    Reads w μ (fun r => Tick w s (.response resp) r.res) X (UacStateTrying.answered resp) := by
  have hroutable (h : resp.routable = false) : resp.legible s w.ua.passAuth = false := by
    simp [Response.legible, hlt, h]
  refine .next (updateRoutes_reads fun h e => hunread e (.inr (h.imp_right hroutable))) fun _ => ?_
  refine .getUA_bind fun _ _ _ => ?_
  refine .step (.ofLazy fun e he => hunread _ (.inr (.inr (hroutable ?_)))) fun tag htag => ?_
  · simp [Response.routable, he, isOk]
  cases tag with
  | none =>
    refine .step .newEvent fun _ _ => .next .enqueue fun _ => ?_
    refine .next (.sendBYE fun h => hunread _ (.inl ⟨hlt, htag, h⟩)) fun _ => .next .setDisconnectTs fun _ => ?_
    refine gotoWith_reads fun c hc => tick_to hc ?_
    have hsetup : μ.hangUp.notBefore w.io.now resp.rtime = w.meter.notBefore w.io.now resp.rtime := by
      rw [hμ, notBefore_heard]
    rw [hsetup, hμ]
    exact .untagged hs hcode hlt htag
  | some tag =>
    refine .next (.upd_other (fun _ => rfl) fun _ _ => rfl) fun _ => .getUA_bind fun w' _ hμ' => ?_
    have hlate : w'.ua.lateMedia = w.meter.lateMedia := by
      have hμ₁ : w'.ua.lateMedia = μ.lateMedia := (congrArg Meter.lateMedia hμ' :)
      rw [hμ₁, hμ]
      exact lateMedia_heard s resp.scode
    refine .ite (fun h => ?_) fun _ => ?_
    · have hconnects : w.connects resp := ⟨by rw [Response.untagged, htag], by rwa [hlate] at h⟩
      refine .next (.upd (g := Meter.onTime) (fun _ => rfl) fun _ _ => rfl) fun _ => ?_
      refine .step .newEvent fun _ _ => .next .startCreditTimer fun _ => ?_
      refine .next (.upd (g := fun ν => ν.connect resp.rtime) (fun _ => rfl) fun _ _ => rfl) fun _ => ?_
      refine .step (P := fun r => ∃ c, r = .change c ∧ c.state = .connected)
        (gotoWith_reads fun c hc => ⟨⟨c, rfl, hc⟩, rfl⟩) ?_
      rintro _ ⟨c, rfl, hc⟩
      refine .next (.queueRemote fun e he => (hraise e he).1 hconnects) fun _ => .pure (tick_to hc ?_)
      rw [hμ]
      exact .answered hs hcode hlt hconnects
    · refine .step .newEvent fun _ _ => ?_
      refine .next (.upd (g := Meter.late) (fun _ => rfl) fun _ _ => rfl) fun _ => ?_
      refine .next (.queueRemote fun e he => (hraise e he).2) fun _ => goto_reads ?_
      rw [hμ]
      exact .late hs hcode

/-- A failure or a redirect; `μ` is the meter once the timers are stopped. -/
theorem rejected_reads {challenges : M (List Header)}
    (hlt : ¬ resp.scode < 300) (hμ : μ = (w.meter.heard s resp.scode).expireOff)
    (hunread : ∀ e, w.Unreadable s resp → X e μ)
    (hc : Reads w μ (fun _ μ' => μ' = μ) X challenges) :
    Reads w μ (fun r => Tick w s (.response resp) r.res) X
      (UacStateTrying.rejected resp challenges) := by
  refine .step (rejection_reads hc fun e h => hunread e (.inr (.inr ?_))) fun _ _ => ?_
  · rw [Response.legible, if_neg hlt, Response.reportable]
    rcases h with ⟨h₁, h₂, h₃⟩ | ⟨h₁, h₂, h₃⟩
    · rw [if_pos ⟨h₁, h₂⟩, h₃]
    · rw [if_neg (by omega), if_pos ⟨h₁, h₂⟩, h₃]
  refine .next .enqueue fun _ => .next .setDisconnectTs fun _ => .getUA_bind fun _ _ _ => ?_
  refine gotoWith_reads fun c hc => tick_to hc ?_
  have hsetup : μ.notBefore w.io.now resp.rtime = w.meter.notBefore w.io.now resp.rtime := by
    rw [hμ]
    exact notBefore_heard s resp.scode _ _
  rw [hsetup, hμ]
  exact .rejected hs (by omega) (.inl rfl)

def Raises (w : World) (s : UaState) (resp : Response) (ex : Raised) (ν : Meter) : Prop :=
  (resp.scode < 200 ∧ ν = w.meter.heard s resp.scode ∧ (ex.isSdp → .raise ex ∈ w.io.sdps)) ∨
  (200 ≤ resp.scode ∧ ν = (w.meter.heard s resp.scode).expireOff ∧ w.Unreadable s resp) ∨
  (200 ≤ resp.scode ∧ resp.scode < 300 ∧ .raise ex ∈ w.io.sdps ∧
    (w.connects resp ∧
        ν = (w.meter.heard s resp.scode).expireOff.onTime.connected resp.rtime ∨
      ν = (w.meter.heard s resp.scode).expireOff.late))

omit hs in
theorem abandon_reads {ν : Meter} (hX : ∀ e, ¬ w.Calm → X e ν) (hlow : resp.scode < 200 → ∀ e, X e ν) :
    Reads w ν (fun _ μ' => μ' = if 200 ≤ resp.scode ∧ resp.scode < 300 then ν.hangUp else ν) X
      (UacStateTrying.abandon resp.scode) := by
  refine .ite (fun h => ?_) fun h => .ite (fun h' => ?_) fun h' => ?_
  · rw [if_neg (by omega)]
    exact .cancelTransaction fun e _ => hlow h e
  · rw [if_pos ⟨by omega, h'⟩]
    exact .sendBYE fun h => hX _ h
  · rw [if_neg (by omega)]
    exact .pure rfl

theorem guardSdp_ticks {h : M Ret}
    (hh : Reads w w.meter (fun r => Tick w s (.response resp) r.res) (Raises w s resp) h) :
    Ticks w s (.response resp) w.meter (UacStateTrying.guardSdp h resp) := by
  refine .tryCatch hh fun ex ν hν => .ite (fun hsdp => ?_) fun hsdp => ?_
  · refine .getUA_bind fun _ _ _ => .step .newEvent fun _ _ => ?_
    have hraised (e : Raised) (hwhy : ¬ w.Calm ∨ resp.scode < 200) :
        Tick w s (.response resp) (.raised e) ν := by
      rcases hν with ⟨hc, rfl, -⟩ | ⟨hc, rfl, h⟩ | ⟨hc, hlt, hex, h⟩
      · exact .provisional hs hc (.inl rfl)
      · exact .unread hs hc h
      · exact .broken hs hc hlt hex (.inl (hwhy.resolve_right (by omega))) h
    refine .next (abandon_reads (fun e h => hraised e (.inl h)) fun h e => hraised e (.inr h)) fun _ => ?_
    refine .next .enqueue fun _ => ?_
    refine .next (.upd (g := fun ν => ν.disconnect resp.rtime) (fun _ => rfl) fun _ _ => rfl) fun _ => ?_
    refine gotoWith_reads fun c hc => tick_to hc ?_
    rcases hν with ⟨hc, rfl, hex⟩ | ⟨hc, rfl, h⟩ | ⟨hc, hlt, hex, h⟩
    · rw [if_neg (by omega)]
      exact .unheard hs hc (hex hsdp)
    · by_cases hlt : resp.scode < 300
      · rw [if_pos ⟨hc, hlt⟩]
        exact .spoiled hs hc hlt (.inr ⟨h, rfl⟩)
      · rw [if_neg (by omega)]
        exact .rejected hs (by omega) (.inr ⟨h, rfl⟩)
    · rw [if_pos ⟨hc, hlt⟩]
      exact .spoiled hs hc hlt (.inl ⟨⟨ex, hex⟩, h⟩)
  · refine .throw ?_
    rcases hν with ⟨hc, rfl, -⟩ | ⟨hc, rfl, h⟩ | ⟨hc, hlt, hex, h⟩
    · exact .provisional hs hc (.inl rfl)
    · exact .unread hs hc h
    · exact .broken hs hc hlt hex (.inr (by simpa using hsdp)) h

omit hs in
theorem heard_unread (hcode : 200 ≤ resp.scode) (e : Raised)
    (h : w.Unreadable s resp) :
    Raises w s resp e (w.meter.heard s resp.scode).expireOff := .inr (.inl ⟨hcode, rfl, h⟩)

end TryingOrRinging

theorem uacTrying_recvResponse_ticks {resp : Response} :
    Ticks w .uacTrying (.response resp) w.meter (UacStateTrying.recvResponse resp) := by
  refine guardSdp_ticks rfl ?_
  have hprov {r : Res} (hc : resp.scode < 200) (hr : r.keeps ∨ r = .to .uacRinging) :
      Tick w .uacTrying (.response resp) r (w.meter.heard .uacTrying resp.scode) :=
    .provisional rfl hc hr
  refine .next (.upd_other (fun _ => rfl) fun _ _ => rfl) fun _ => .next .replied fun _ => ?_
  refine .getUA_bind fun _ _ _ => .ite (fun h100 => ?_) fun h100 => ?_
  · have hheard : w.meter.replied resp.scode = w.meter.heard .uacTrying resp.scode := by
      simp [Meter.heard, h100]
    rw [hheard]
    refine .next (.upd_other (fun _ => rfl) fun _ _ => rfl) fun _ => .step .newEvent fun _ _ => ?_
    exact .next .enqueue fun _ => .pure (hprov (by omega) (.inl rfl))
  · have hheard : (w.meter.replied resp.scode).progressed (resp.scode < 200) =
        w.meter.heard .uacTrying resp.scode := by simp [Meter.heard, h100]
    refine .next .progressed fun _ => ?_
    rw [hheard]
    refine .ite (fun hc => ?_) fun hc => ?_
    · refine .step .newEvent fun _ _ => .next (.queueRemote fun _ he => .inl ⟨hc, rfl, fun _ => he⟩) fun _ => ?_
      refine .next (.upd_other (fun _ => rfl) fun _ _ => rfl) fun _ => ?_
      exact gotoRinging_reads fun c hc' => tick_to hc' (hprov hc (.inr rfl))
    · have hc : 200 ≤ resp.scode := by omega
      refine .next .cancelExpireTimer fun _ => .ite (fun hlt => ?_) fun hlt => ?_
      · exact answered_reads rfl hc hlt rfl (heard_unread hc) fun e he =>
          ⟨fun h => .inr (.inr ⟨hc, hlt, he, .inl ⟨h, rfl⟩⟩), .inr (.inr ⟨hc, hlt, he, .inr rfl⟩)⟩
      · refine rejected_reads rfl hlt rfl (heard_unread hc) ?_
        refine challenges_reads fun e h => heard_unread hc e (.inr (.inr ?_))
        obtain ⟨hp, ⟨h₁, h₂⟩ | ⟨h₁, h₂⟩⟩ := h <;>
          simp [Response.legible, Response.reportable, h₁, h₂, hp]

theorem calling_idle {e : CCEvent} {r : Res} (hs : s.calling) (hr : r.keeps)
    (hd : e.final → ¬ w.Calm ∨ w.ua.tr = false) : Tick w s (.event e) r w.meter := by
  have hs' : s = .uacTrying ∨ s = .uacRinging := by simpa [UaState.calling] using hs
  refine .idle hr (fun e' also he hk => ?_) (by simp)
  cases he
  refine ⟨?_, fun _ => hd (by simp [CCEvent.final, hk]), ?_, ?_⟩ <;> rcases hs' with rfl | rfl <;>
    simp [UaState.progressing]

theorem uacTrying_recvEvent_ticks {e : CCEvent} :
    Ticks w .uacTrying (.event e) w.meter (UacStateTrying.recvEvent e) := by
  refine .ite (fun hk => ?_) fun hk => .pure (calling_idle rfl rfl fun h => absurd h hk)
  refine .next (.cancelTransaction fun _ h => calling_idle rfl rfl fun _ => h) fun _ => ?_
  refine .next .cancelExpireTimer fun _ => .next .cancelNoProgressTimer fun _ => ?_
  refine .next .cancelNoReplyTimer fun _ => .next .setDisconnectTs fun _ => ?_
  exact gotoWith_reads fun c hc => tick_to hc (.cancels hk)

theorem uacRinging_recvResponse_ticks {resp : Response} :
    Ticks w .uacRinging (.response resp) w.meter (UacStateRinging.recvResponse resp) := by
  refine guardSdp_ticks rfl ?_
  have hheard : w.meter.heard .uacRinging resp.scode = w.meter := rfl
  refine .getUA_bind fun _ _ _ => .ite (fun hc => ?_) fun hc => ?_
  · have hraises (e : Raised) (he : e.isSdp → .raise e ∈ w.io.sdps) :
        Raises w .uacRinging resp e w.meter := .inl ⟨hc, rfl, he⟩
    refine .next (.upd_other (fun _ => rfl) fun _ _ => rfl) fun _ => .step .newEvent fun _ _ => ?_
    refine .next (.getUA_bind fun _ _ _ => .ite (fun _ => .call rfl fun _ => hraises _ (by simp [Raised.isSdp]))
      fun _ => .pure rfl) fun _ => ?_
    exact .next (.queueRemote fun _ he => hraises _ fun _ => he) fun _ => .pure (.provisional rfl hc (.inl rfl))
  · have hc : 200 ≤ resp.scode := by omega
    refine .next .cancelExpireTimer fun _ => .ite (fun hlt => ?_) fun hlt => ?_
    · exact answered_reads rfl hc hlt rfl (heard_unread hc) fun e he =>
        ⟨fun h => .inr (.inr ⟨hc, hlt, he, .inl ⟨h, rfl⟩⟩), .inr (.inr ⟨hc, hlt, he, .inr rfl⟩)⟩
    · exact rejected_reads rfl hlt rfl (heard_unread hc) (.pure rfl)

theorem uacRinging_recvEvent_ticks {e : CCEvent} :
    Ticks w .uacRinging (.event e) w.meter (UacStateRinging.recvEvent e) := by
  refine .ite (fun hk => ?_) fun hk => .pure (calling_idle rfl rfl fun h => absurd h hk)
  refine .next (.cancelTransaction fun _ h => calling_idle rfl rfl fun _ => h) fun _ => ?_
  refine .next .cancelExpireTimer fun _ => .next .setDisconnectTs fun _ => ?_
  exact gotoWith_reads fun c hc => tick_to hc (.cancelsRinging hk)

theorem updateFailed_reads {event : CCEvent} {byeReason disconnectReason : Option Text}
    (hX : ∀ e, X e μ)
    (hK : ∀ c, c.state = .disconnected →
      K (.change c) (μ.hangUp.creditOff.disconnect event.rtime)) :
    Reads w μ K X (UacStateUpdating.updateFailed event byeReason disconnectReason) := by
  refine .next .enqueue fun _ => .next (.sendBYE fun _ => hX _) fun _ => .next .cancelCreditTimer fun _ => ?_
  refine .next (.upd (g := fun ν => ν.disconnect event.rtime) (fun _ => rfl) fun _ _ => rfl) fun _ => ?_
  refine .getUA_bind fun _ _ _ => .step .newEvent fun _ _ => .next .enqueue fun _ => ?_
  exact gotoWith_reads hK

theorem uacUpdating_recvResponse_ticks {resp : Response} :
    Ticks w .uacUpdating (.response resp) w.meter (UacStateUpdating.recvResponse resp) := by
  have hidle {r : Res} (hr : r.keeps) : Tick w .uacUpdating (.response resp) r w.meter :=
    idle_tick hr (by simp) fun _ _ => rfl
  have hupdated : Tick w .uacUpdating (.response resp) (.to .connected) w.meter :=
    .updated (.inr rfl) (by simp)
  refine .ite (fun hc => .ite (fun _ => ?_) fun _ => .pure (hidle rfl)) fun hc => ?_
  · exact .getUA_bind fun _ _ _ => .step .newEvent fun _ _ => .next .enqueue fun _ => .pure (hidle rfl)
  have hc : 200 ≤ resp.scode := by omega
  have hfails {c : Change} {t : Time} (ht : t = resp.rtime) (hs : c.state = .disconnected)
      (hwhy : resp.scode = 408 ∨ resp.scode = 481 ∨ resp.scode < 300 ∧ ∃ ex, .raise ex ∈ w.io.sdps) :
      Tick w .uacUpdating (.response resp) (Ret.change c).res (w.meter.hangUp.creditOff.disconnect t) :=
    ht ▸ tick_to hs (.failsUpdate hwhy hc)
  refine .ite (fun hlt => ?_) fun hlt => ?_
  · refine .getUA_bind fun _ _ _ => .step .newEvent fun _ _ => ?_
    refine .step (P := fun failure => ∀ ex, failure = some ex → .raise ex ∈ w.io.sdps) ?_ fun failure hf => ?_
    · refine .tryCatch (Y := fun ex μ' => .raise ex ∈ w.io.sdps ∧ μ' = w.meter)
        (.next (.queueRemote fun _ h => ⟨h, rfl⟩) fun _ => .pure ⟨by simp, rfl⟩) fun ex _ h => .pure ⟨?_, h.2⟩
      rintro _ ⟨⟩
      exact h.1
    cases failure with
    | none => exact goto_reads hupdated
    | some ex =>
      have hex := hf ex rfl
      refine .step .newEvent fun event hevent => .ite (fun _ => ?_) fun _ => ?_
      · exact updateFailed_reads (fun _ => hidle rfl) fun _ hc => hfails hevent.2 hc (.inr (.inr ⟨hlt, ex, hex⟩))
      · refine .get_bind fun _ _ _ => ?_
        exact updateFailed_reads (fun _ => hidle rfl) fun _ hc => hfails hevent.2 hc (.inr (.inr ⟨hlt, ex, hex⟩))
  · refine .step (rejection_reads (.next (.upd_other (fun _ => rfl) fun _ _ => rfl) fun _ => .pure rfl)
      fun _ _ => hidle rfl) fun event hevent => .ite (fun hcode => ?_) fun _ => ?_
    · exact updateFailed_reads (fun _ => hidle rfl) fun _ hc => hfails hevent hc (hcode.imp_right .inl)
    · exact .next .enqueue fun _ => goto_reads hupdated

theorem uacUpdating_recvEvent_ticks {e : CCEvent} :
    Ticks w .uacUpdating (.event e) w.meter (UacStateUpdating.recvEvent e) := by
  have hidle (ex : Raised) (h : ¬ w.Calm ∨ w.ua.tr = false) :
      Tick w .uacUpdating (.event e) (.raised ex) w.meter :=
    connected_idle rfl rfl fun _ _ => h.imp_right fun h => .inr ⟨rfl, h⟩
  refine .ite (fun hk => ?_) fun hk => .pure (connected_idle rfl rfl fun also h => absurd ?_ hk)
  · refine .next (.cancelTransaction fun ex h => hidle ex h) fun _ => ?_
    refine .next (.sendBYE fun h => hidle _ (.inl h)) fun _ => .next .cancelCreditTimer fun _ => ?_
    refine .next (.upd (g := fun ν => ν.disconnect e.rtime) (fun _ => rfl) fun _ _ => rfl) fun _ => ?_
    exact gotoWith_reads fun c hc => tick_to hc (.hangsUp rfl hk)
  · simp [CCEvent.final, h]

theorem uacUpdating_recvRequest_ticks {req : Request} :
    Ticks w .uacUpdating (.request req) w.meter (UacStateUpdating.recvRequest req) := by
  have hidle {r : Res} (hr : r.keeps) : Tick w .uacUpdating (.request req) r w.meter :=
    idle_tick hr (by simp) (by simp)
  unfold UacStateUpdating.recvRequest
  split
  · exact .next (.call rfl fun _ => hidle rfl) fun _ => .pure (hidle rfl)
  · refine .next (.cancelTransaction fun _ _ => hidle rfl) fun _ => .next (.call rfl fun _ => hidle rfl)
      fun _ => .next .cancelCreditTimer fun _ => ?_
    exact disconnectFromRequest_reads fun c hc => tick_to hc (.hungUp rfl (by simp [*]))
  · exact .pure (hidle rfl)

theorem uacCancelling_recvResponse_ticks {resp : Response} :
    Ticks w .uacCancelling (.response resp) w.meter (UacStateCancelling.recvResponse resp) := by
  have hidle {r : Res} (hr : r.keeps) : Tick w .uacCancelling (.response resp) r w.meter :=
    idle_tick hr (by simp) fun _ _ => rfl
  refine .ite (fun _ => .pure (hidle rfl)) fun _ => ?_
  refine .next .upd_te fun _ => .ite (fun _ => ?_) fun _ => ?_
  · refine .next (updateRoutes_reads fun _ _ => hidle rfl) fun _ => ?_
    refine .step (.ofLazy fun _ _ => hidle rfl) fun _ _ => ?_
    refine .next (.upd_other (fun _ => rfl) fun _ _ => rfl) fun _ => .next (.sendBYE fun _ => hidle rfl)
      fun _ => ?_
    exact goto_reads .tooLate
  · exact goto_reads .gone

end Calling

section Connected

theorem runConnCbs_reads {rtime : Time} (hX : ∀ e, X e μ) :
    Reads w μ (fun _ μ' => μ' = μ) X (UaStateConnected.runConnCbs rtime) :=
  .getUA_bind fun _ _ _ => .ite (fun _ => .call rfl fun _ => hX _) fun _ => .pure rfl

theorem reinviteBody_reads {req : Request} (hX : ∀ e, X e μ) :
    Reads w μ (fun _ μ' => μ' = μ) X (UaStateConnected.reinviteBody req) := by
  unfold UaStateConnected.reinviteBody
  split
  · exact .pure rfl
  · refine .getUA_bind fun _ _ _ => .ite (fun _ => .raise (hX _)) fun _ => .get_bind fun _ _ _ => ?_
    exact .weaken (.ofLazy fun _ _ => hX _) (fun _ _ h => h.2) fun _ _ h => h

theorem connected_recvRequest_ticks {req : Request} :
    Ticks w .connected (.request req) w.meter (UaStateConnected.recvRequest req) := by
  have hidle {r : Res} (hr : r.keeps) : Tick w .connected (.request req) r w.meter :=
    idle_tick hr (by simp) (by simp)
  unfold UaStateConnected.recvRequest
  split
  · unfold UaStateConnected.recvRequestRefer
    split
    · exact .next (.call rfl fun _ => hidle rfl) fun _ => .pure (hidle rfl)
    · refine .next (.call rfl fun _ => hidle rfl) fun _ => .step (.ofLazy fun _ _ => hidle rfl) fun _ _ => ?_
      refine .getUA_bind fun _ _ _ => .step .newEvent fun _ _ => .next .enqueue fun _ => ?_
      exact .step .newEvent fun _ _ => .pure (hidle rfl)
  · refine .next (.upd_uasResp (fun _ => rfl) fun _ _ => rfl) fun _ => .next (.call rfl fun _ => hidle rfl)
      fun _ => ?_
    refine .next (reinviteBody_reads fun _ => hidle rfl) fun _ => .getUA_bind fun _ _ _ => ?_
    refine .ite (fun _ => ?_) fun _ => .step .newEvent fun _ _ => ?_
    · exact .next (.sendUasResponse fun _ _ => hidle rfl) fun _ => .pure (hidle rfl)
    · exact .next (.queueRemote fun _ _ => hidle rfl) fun _ => goto_reads (.updates ‹_›)
  · refine .next (.call rfl fun _ => hidle rfl) fun _ => .next (getRequestAlso_reads fun _ => hidle rfl)
      fun _ => .next .cancelCreditTimer fun _ => ?_
    exact disconnectFromRequest_reads fun c hc => tick_to hc (.hungUp rfl (by simp [*]))
  · refine .next (.call rfl fun _ => hidle rfl) fun _ => .getUA_bind fun _ _ _ => ?_
    exact .step .newEvent fun _ _ => .next .enqueue fun _ => .pure (hidle rfl)
  · exact .next (.call rfl fun _ => hidle rfl) fun _ => .pure (hidle rfl)
  · exact .pure (hidle rfl)

theorem connected_recvACK_ticks {req : Request} :
    Ticks w .connected (.ack req) w.meter (UaStateConnected.recvACK req) := by
  have hacks {r : Res} (hr : r.keeps) : Tick w .connected (.ack req) r
      (w.meter.expireOff.creditOff.connected req.rtime) := .acks hr
  refine .getUA_bind fun _ _ _ => .step .newEvent fun _ _ => .next .cancelExpireTimer fun _ => ?_
  refine .next .cancelCreditTimer fun _ => .next .startCreditTimer fun _ => ?_
  refine .next (.upd (g := fun ν => ν.connect req.rtime) (fun _ => rfl) fun _ _ => rfl) fun _ => ?_
  refine .next (runConnCbs_reads fun _ => hacks rfl) fun _ => ?_
  exact .next (.queueRemote fun _ _ => hacks rfl) fun _ => .pure (hacks rfl)

theorem leave_ticks {e : CCEvent} {also : Option Text} (hk : e.final) :
    Ticks w .connected (.event e) w.meter (UaStateConnected.leave e also) := by
  have hidle (ex : Raised) (h : ¬ w.Calm) : Tick w .connected (.event e) (.raised ex) w.meter :=
    connected_idle rfl rfl fun _ _ => .inl h
  have hrest : Reads w w.meter.hangUp (fun r => Tick w .connected (.event e) r.res)
      (fun ex => Tick w .connected (.event e) (.raised ex)) (do
        cancelCreditTimer
        upd fun ua => { ua with disconnectTs := some e.rtime }
        gotoWith .disconnected .disc e.rtime e.origin) :=
    .next .cancelCreditTimer fun _ =>
      .next (.upd (g := fun ν => ν.disconnect e.rtime) (fun _ => rfl) fun _ _ => rfl) fun _ =>
        gotoWith_reads fun c hc => tick_to hc (.hangsUp rfl hk)
  refine .getUA_bind fun _ _ _ => ?_
  dsimp only
  split
  · exact .step (.genRequest (by simp)) fun _ hr => .next (.hangUp (.inr hr) (hidle _)) fun _ => hrest
  · exact .next (.sendBYE (hidle _)) fun _ => hrest

theorem report_reads {e : CCEvent} {scode : ℤ} {reason : Text} {why : Option Text}
    {warning : Option Header} (hK : K .none μ) :
    Reads w μ K X (UaStateConnected.refuse e scode reason why warning) :=
  .step .newEvent fun _ _ => .next .enqueue fun _ => .pure hK

theorem recvEventUpdate_ticks {e : CCEvent} {body : Option Body} {mf : Option ℤ}
    (hk : e.kind = .update body mf) :
    Ticks w .connected (.event e) w.meter (UaStateConnected.recvEventUpdate e body mf) := by
  have hidle {r : Res} (hr : r.keeps) : Tick w .connected (.event e) r w.meter :=
    connected_idle rfl hr fun _ h => by simp [hk] at h
  refine .getUA_bind fun _ _ _ => ?_
  split
  · exact .raise (hidle rfl)
  · exact .raise (hidle rfl)
  · refine .ite (fun _ => .step .newEvent fun _ _ => ?_) fun _ => .ite (fun _ => ?_) fun _ => ?_
    · exact .next .enqueue fun _ => .pure (hidle rfl)
    · refine .tryCatch (Y := fun _ μ' => μ' = w.meter)
        (.next (.discard (.onSdpChange fun _ _ => rfl)) fun _ => .pure (hidle rfl)) ?_
      rintro ex _ rfl
      exact .ite (fun _ => report_reads (hidle rfl)) fun _ => .get_bind fun _ _ _ => report_reads (hidle rfl)
    · refine .ite (fun _ => report_reads (hidle rfl)) fun _ => .step (.genRequest (by simp)) fun req hreq => ?_
      refine .next (.upd_other (fun _ => rfl) fun _ _ => rfl) fun _ => ?_
      exact .next (.newUacTransaction hreq fun _ => hidle rfl) fun _ => goto_reads (.reinvites hk)

theorem recvEventConnect_ticks {e : CCEvent} {code : Code} {reason : Text} {body : Option Body}
    (hk : e.kind = .connect code reason body) :
    Ticks w .connected (.event e) w.meter (UaStateConnected.recvEventConnect e body) := by
  have hidle {r : Res} (hr : r.keeps) : Tick w .connected (.event e) r w.meter :=
    connected_idle rfl hr fun _ h => by simp [hk] at h
  refine .getUA_bind fun w' _ hμ => .ite (fun _ => .pure (hidle rfl)) fun hp => ?_
  have hpending : w.meter.pendingTr = true := by
    have : w'.ua.pendingTr = w.meter.pendingTr := (congrArg Meter.pendingTr hμ :)
    simpa [this] using hp
  have hwaits {r : Res} (hr : r.keeps) : Tick w .connected (.event e) r w.meter.expireOff :=
    .waits hr hk hpending
  have haccepts {r : Res} (hr : r.keeps) (p : Bool) : Tick w .connected (.event e) r
      { w.meter.expireOff.creditOff.connected e.rtime with pendingTr := p } := .accepts hr hk hpending
  have hacked {r : Res} (hr : r.keeps) : Tick w .connected (.event e) r
      (w.meter.expireOff.creditOff.connected e.rtime) := haccepts hr _
  refine .next .cancelExpireTimer fun _ => ?_
  refine .next (delayLocalSdpUpdate_reads fun _ => hwaits rfl) fun _ => ?_
  refine .ite (fun _ => .pure (hwaits rfl)) fun _ => .next .cancelCreditTimer fun _ => ?_
  refine .next .startCreditTimer fun _ => ?_
  refine .next (.upd (g := fun ν => ν.connect e.rtime) (fun _ => rfl) fun _ _ => rfl) fun _ => ?_
  refine .next (.upd_other (fun _ => rfl) fun _ _ => rfl) fun _ => .next (.call rfl fun _ => hacked rfl)
    fun _ => ?_
  refine .next (.upd (g := fun ν => { ν with pendingTr := false }) (fun _ => rfl) fun _ _ => rfl)
    fun _ => ?_
  exact .next (runConnCbs_reads fun _ => haccepts rfl false) fun _ => .pure (haccepts rfl false)

theorem connected_recvEvent_ticks {e : CCEvent} :
    Ticks w .connected (.event e) w.meter (UaStateConnected.recvEvent e) := by
  have hidle {r : Res} (hr : r.keeps) (hk : ∀ also, e.kind ≠ .disconnect also) :
      Tick w .connected (.event e) r w.meter :=
    connected_idle rfl hr fun also h => absurd h (hk also)
  unfold UaStateConnected.recvEvent
  split
  case h_1 also hk => exact leave_ticks (by simp [CCEvent.final, hk])
  case h_2 _ _ _ hk => exact leave_ticks (by simp [CCEvent.final, hk])
  case h_3 data hk =>
    unfold UaStateConnected.recvEventRedirect
    split
    · exact leave_ticks (by simp [CCEvent.final, hk])
    · refine .getUA_bind fun _ _ _ => .next (.discard (.weaken (.genRequest (by simp)) ?_ fun _ _ h => h))
        fun _ => .raise (hidle rfl (by simp [hk]))
      exact fun _ _ h => h.2
  case h_4 body mf hk => exact recvEventUpdate_ticks hk
  case h_5 body hk =>
    refine .step (.genRequest (by simp)) fun req hreq => .next (.call (by simp [Act.hangsUp, hreq])
      fun _ => hidle rfl (by simp [hk])) fun _ => .pure (hidle rfl (by simp [hk]))
  case h_6 code reason body hk => exact recvEventConnect_ticks hk
  case h_7 hk _ _ _ _ _ => exact .pure (hidle rfl fun also => hk also)

end Connected

theorem handler_ticks (w : World) (s : UaState) (d : Dispatch) :
    Ticks w s d w.meter (handler s d) := by
  cases d with
  | event e =>
    have hidle (hs : s.progressing = false ∧ s.calling = false ∧ s.isConnected = false ∧ s ≠ .uacIdle) :
        Ticks w s (.event e) w.meter (pure .none) := by
      refine .pure (.idle rfl (fun e also _ _ => ?_) (by simp))
      cases s <;> simp_all [UaState.progressing, UaState.calling, UaState.isConnected]
    cases s with
    | uasTrying => exact uasTrying_recvEvent_ticks
    | uasRinging => exact uasRinging_recvEvent_ticks
    | uasUpdating => exact uasUpdating_recvEvent_ticks
    | uacIdle => exact uacIdle_recvEvent_ticks
    | uacTrying => exact uacTrying_recvEvent_ticks
    | uacRinging => exact uacRinging_recvEvent_ticks
    | uacUpdating => exact uacUpdating_recvEvent_ticks
    | connected => exact connected_recvEvent_ticks
    | uasIdle | uacCancelling | failed | disconnected | dead => exact hidle (by decide)
  | request req =>
    have hidle {r : Res} (hr : r.keeps) : Tick w s (.request req) r w.meter :=
      idle_tick hr (by simp) (by simp)
    cases s with
    | uasIdle => exact uasIdle_recvRequest_ticks
    | uasRinging => exact uasRinging_recvRequest_ticks
    | uasUpdating => exact uasUpdating_recvRequest_ticks
    | uacUpdating => exact uacUpdating_recvRequest_ticks
    | connected => exact connected_recvRequest_ticks
    | disconnected => exact .next (.call rfl fun _ => hidle rfl) fun _ => .pure (hidle rfl)
    | uasTrying | uacIdle | uacTrying | uacRinging | uacCancelling | failed | dead =>
      exact .pure (hidle rfl)
  | response resp =>
    have hidle (hs : s.calling = false) : Ticks w s (.response resp) w.meter (pure .none) :=
      .pure (idle_tick rfl (by simp) fun _ _ => hs)
    cases s with
    | uacTrying => exact uacTrying_recvResponse_ticks
    | uacRinging => exact uacRinging_recvResponse_ticks
    | uacUpdating => exact uacUpdating_recvResponse_ticks
    | uacCancelling => exact uacCancelling_recvResponse_ticks
    | uasIdle | uasTrying | uasRinging | uasUpdating | uacIdle | connected | failed | disconnected
    | dead => exact hidle rfl
  | ack req =>
    have hidle (e : Raised) : Tick w s (.ack req) (.raised e) w.meter := idle_tick rfl (by simp) (by simp)
    cases s with
    | connected => exact connected_recvACK_ticks
    | uasIdle | uasTrying | uasRinging | uasUpdating | uacIdle | uacTrying | uacRinging | uacUpdating
    | uacCancelling | failed | disconnected | dead => exact .raise (hidle _)

end Handlers
end SippyB2bua.Ua
