import Mathlib.Algebra.Order.Group.Nat
import SippyB2bua.Ua.Handlers

/-!
# The state machine is closed

A handler returns `None` or a tuple with a state class, so that `changeState`
installs a state object, and after a final response to a re-INVITE the state is
left. Two entries of the table of `UasStateUpdating` are helpers that return a
status code, `recvACK` exists in one of the three states that count as connected,
and a call that raises after the response was sent leaves the state as it was.
-/

namespace SippyB2bua.Ua
open Lib (Text wp wp_mono Ends run)

/-- `None`, or a tuple whose first item is a state class. -/
def Ret.Closed : Ret → Prop
  | .none | .change _ | .inject _ => True
  | .code _ | .scode _ => False

/-- `recvACK` is called in a state that counts as connected. -/
def UaState.reads (s : UaState) : Dispatch → Bool
  | .ack _ => s.isConnected
  | _ => true

def UaState.hasHandler (s : UaState) : Dispatch → Bool
  | .ack _ => s = .connected
  | _ => true

def Act.isFinal : Act → Bool
  | .response _ (.num n) _ _ _ => 200 ≤ n
  | _ => false

@[simp] theorem isFinal_num {cseq n : ℤ} {reason : Text} {body : Option Body} {hs : List Header} :
    (Act.response cseq (.num n) reason body hs).isFinal = decide (200 ≤ n) := rfl

@[simp] theorem isFinal_ack {cseq : ℤ} {reason : Text} {body : Option Body} {hs : List Header} :
    (Act.response cseq .ack reason body hs).isFinal = false := rfl

@[simp] theorem isFinal_request {r : SentRequest} : (Act.request r).isFinal = false := rfl

@[simp] theorem isFinal_reply {m : Method} {n : ℤ} : (Act.reply m n).isFinal = false := rfl

/-- A final response to the request that is pending was sent. -/
def Answered (w w' : World) : Prop := w.log.countP Act.isFinal < w'.log.countP Act.isFinal

/-- The handler exists; what it returns is closed; and a final response that is sent in
`UasStateUpdating` leaves that state. -/
def Proper (s : UaState) (d : Dispatch) (w : World) : Prop :=
  s.reads d → s.hasHandler d ∧ wp (handler s d)
    (fun ret w' => ret.Closed ∧ (s = .uasUpdating → Answered w w' →
      ∃ c, ret = .change c ∧ c.state ≠ .uasUpdating))
    (fun _ w' => s = .uasUpdating → ¬ Answered w w') w

/-- A response goes out: there is a request, and the call for it does not raise. -/
def Sends (w : World) : Prop := w.ua.uasResp.isSome ∧ w.io.faults.headD false = false

def FailsNext (w : World) : Prop := w.io.faults.tail.headD false = true

/-- The messages that go wrong. -/
def Breaks (s : UaState) (w : World) : Dispatch → Prop
  | .event e => s = .uasUpdating ∧ Sends w ∧ match e.kind with
    | .ring none | .redirect none => True
    | .ring (some (code, _, body)) => code ≠ .ack ∧ ¬ (w.ua.onLocal ∧ ∃ b ∈ body, b.needsUpdate)
    | .redirect (some (code, _, _, _)) => code ≠ .ack
    | .disconnect _ => FailsNext w
    | _ => False
  | .request req => s = .uasUpdating ∧ Sends w ∧ match req.method, req.referTo with
    | .bye, _ => FailsNext w
    | .refer, some referTo => FailsNext w ∨ referTo.toOption = none
    | _, _ => False
  | .response _ => False
  | .ack _ => s = .uasUpdating ∨ s = .uacUpdating

theorem Outcome.closed {s : UaState} {q : List CCEvent} {ret : Ret} (h : Outcome s q ret)
    (hs : s ≠ .uasUpdating) : ret.Closed := by
  cases ret with
  | none | change _ | inject _ => trivial
  | code _ | scode _ => exact hs h

theorem proper_of_ne {s : UaState} (hs : s ≠ .uasUpdating) {d : Dispatch}
    (hd : s.reads d → s.hasHandler d) (w : World) : Proper s d w := by
  intro hr
  refine ⟨hd hr, wp_mono (handler_does s d).wp ?_ fun _ _ _ h => absurd h hs⟩
  rintro ret w' ⟨q, -, h⟩
  exact ⟨h.closed hs, fun h' => absurd h' hs⟩

section Updating
variable {Q : PUnit → World → Prop} {E : Raised → World → Prop} {w : World}

theorem wp_sendUasResponse {code : Code} {reason : Text} {body : Option Body} {hs : List Header} :
    wp (sendUasResponse code reason body hs) Q E w ↔
      match w.ua.uasResp with
      | none => E ⟨.attributeError, []⟩ w
      | some cseq => match code with
        | .ack => E ⟨.typeError, []⟩ w
        | .num n => wp (call (.response cseq code reason body hs)) (fun _ w => Q ⟨⟩ (if n ≥ 200 then
          { w with ua := { w.ua with uasFinal := true, cancelCb := none } } else w)) E w := by
  unfold sendUasResponse
  rw [Lib.wp_bind, wp_getUA]
  cases w.ua.uasResp with
  | none => rfl
  | some cseq =>
    cases code with
    | ack => rfl
    | num n =>
      dsimp only
      rw [Lib.wp_bind]
      by_cases hn : n ≥ 200 <;> simp [hn]

end Updating

/-- What `UasStateUpdating` owes when it handles a message. -/
theorem proper_updating {d : Dispatch} (hd : ∀ req, d ≠ .ack req) {w : World} :
    Proper .uasUpdating d w ↔ wp (handler .uasUpdating d)
      (fun ret w' => ret.Closed ∧ (Answered w w' → ∃ c, ret = .change c ∧ c.state ≠ .uasUpdating))
      (fun _ w' => ¬ Answered w w') w := by
  cases d <;> simp_all [Proper, UaState.reads, UaState.hasHandler]

theorem proper_disconnect {w : World} {e : CCEvent} {also : Option Text}
    (hk : e.kind = .disconnect also) :
    Proper .uasUpdating (.event e) w ↔ ¬ (Sends w ∧ FailsNext w) := by
  rw [proper_updating (by simp)]
  simp only [handler, stateRecvEvent, UasStateUpdating.recvEvent, hk,
    UasStateUpdating.recvEventDisconnect, Lib.wp_bind, wp_sendUasResponse]
  cases hr : w.ua.uasResp with
  | none => simp [Sends, hr, Answered]
  | some cseq =>
    simp [wp_call, sendBYE, genRequest, newTransaction, gotoWith, changeWith, cancelCreditTimer, Sends,
      FailsNext, Answered, Ret.Closed, hr]

theorem proper_bye {w : World} {req : Request} (hm : req.method = .bye) :
    Proper .uasUpdating (.request req) w ↔ ¬ (Sends w ∧ FailsNext w) := by
  rw [proper_updating (by simp)]
  simp only [handler, stateRecvRequest, UasStateUpdating.recvRequest, hm, Lib.wp_bind, wp_sendUasResponse]
  cases hr : w.ua.uasResp with
  | none => simp [Sends, hr, Answered]
  | some cseq =>
    simp [UasStateGeneric.disconnectFromRequest, wp_call, gotoWith, changeWith, cancelCreditTimer, Sends,
      FailsNext, Answered, Ret.Closed, hr]

theorem proper_refer {w : World} {req : Request} (hm : req.method = .refer) :
    Proper .uasUpdating (.request req) w ↔
      ¬ (Sends w ∧ ∃ r ∈ req.referTo, FailsNext w ∨ r.toOption = none) := by
  rw [proper_updating (by simp)]
  simp only [handler, stateRecvRequest, UasStateUpdating.recvRequest, hm]
  cases hto : req.referTo with
  | none => simp [wp_call, Answered, Ret.Closed]
  | some referTo =>
    simp only [Lib.wp_bind, wp_sendUasResponse]
    cases hr : w.ua.uasResp with
    | none => simp [Sends, hr, Answered]
    | some cseq =>
      simp [UasStateGeneric.disconnectFromRequest, wp_call, gotoWith, changeWith, cancelCreditTimer, Sends,
        FailsNext, Answered, Ret.Closed, hr]
      cases referTo <;> simp [Except.toOption]

theorem proper_fail {w : World} {e : CCEvent} {data : Option (Code × Text)} {cs : List Header}
    {warning : Option Header} (hk : e.kind = .fail data cs warning) :
    Proper .uasUpdating (.event e) w := by
  rw [proper_updating (by simp)]
  simp only [handler, stateRecvEvent, UasStateUpdating.recvEvent, hk, UasStateUpdating.recvEventFail,
    UasStateGeneric.sendFailResponse, Lib.wp_bind, wp_upd]
  split
  · rw [wp_sendUasResponse]
    split <;> simp [wp_call, goto, Answered, Ret.Closed]
  · rename_i code reason
    rw [wp_sendUasResponse]
    split
    · simp [Answered]
    · cases code <;> simp [wp_call, goto, Answered, Ret.Closed]

theorem proper_redirect {w : World} {e : CCEvent}
    {data : Option (Code × Text × Option Body × Option (List Target))} (hk : e.kind = .redirect data) :
    Proper .uasUpdating (.event e) w ↔ ¬ (Sends w ∧ ∀ d ∈ data, d.1 ≠ .ack) := by
  rw [proper_updating (by simp)]
  simp only [handler, stateRecvEvent, UasStateUpdating.recvEvent, hk, Lib.wp_map,
    UasStateGeneric.redirectResponse]
  cases hr : w.ua.uasResp with
  | none => split <;> simp [wp_sendUasResponse, Sends, hr, Answered]
  | some cseq =>
    split
    · simp [wp_sendUasResponse, wp_call, Answered, Ret.Closed, Sends, hr]
    · rename_i code _ _ _
      cases code <;> simp [wp_sendUasResponse, wp_call, Answered, Ret.Closed, Sends, hr]

theorem wp_delayLocalSdpUpdate {w : World} {e : CCEvent} {body : Option Body}
    {Q : Bool → World → Prop} {E : Raised → World → Prop} :
    wp (UasStateGeneric.delayLocalSdpUpdate e body) Q E w ↔
      if w.ua.onLocal ∧ ∃ b ∈ body, b.needsUpdate then
        wp (onSdpChange false e) (fun _ => Q true) E w
      else Q false w := by
  cases body with
  | none => simp [UasStateGeneric.delayLocalSdpUpdate]
  | some b => by_cases h : w.ua.onLocal = true ∧ b.needsUpdate = true <;> simp_all [UasStateGeneric.delayLocalSdpUpdate]

theorem proper_ring {w : World} {e : CCEvent} {data : Option (Code × Text × Option Body)}
    (hk : e.kind = .ring data) :
    Proper .uasUpdating (.event e) w ↔ ¬ (Sends w ∧ ∀ d ∈ data, d.1 ≠ .ack ∧
      ¬ (w.ua.onLocal ∧ ∃ b ∈ d.2.2, b.needsUpdate)) := by
  rw [proper_updating (by simp)]
  simp only [handler, stateRecvEvent, UasStateUpdating.recvEvent, hk, Lib.wp_bind,
    UasStateGeneric.ringResponse]
  split
  · simp only [Lib.wp_bind, wp_upd, wp_sendUasResponse]
    cases hr : w.ua.uasResp with
    | none => simp [Sends, hr, Answered]
    | some cseq => simp [wp_call, Answered, Ret.Closed, Sends, hr]
  · rename_i code reason body
    simp only [Lib.wp_bind, wp_delayLocalSdpUpdate]
    split
    · rw [wp_onSdpChange]
      split <;> simp_all [Answered, Ret.Closed]
    · simp only [Lib.wp_ite, Lib.wp_bind, wp_upd, wp_sendUasResponse]
      cases hr : w.ua.uasResp with
      | none => simp [Sends, hr, Answered]
      | some cseq => cases code <;> simp_all [wp_call, Answered, Ret.Closed, Sends]

theorem proper_connect {w : World} {e : CCEvent} {code : Code} {reason : Text} {body : Option Body}
    (hk : e.kind = .connect code reason body) : Proper .uasUpdating (.event e) w := by
  rw [proper_updating (by simp)]
  simp only [handler, stateRecvEvent, UasStateUpdating.recvEvent, hk, Lib.wp_bind,
    UasStateUpdating.recvEventConnect, UasStateGeneric.getConnectData, wp_delayLocalSdpUpdate]
  split
  · rw [wp_onSdpChange]
    split <;> simp [Answered, Ret.Closed]
  · simp only [Lib.wp_ite, Lib.wp_bind, wp_upd, Lib.wp_pure, wp_sendUasResponse]
    cases hr : w.ua.uasResp with
    | none => simp [Answered]
    | some cseq => cases code <;> simp [wp_call, goto, Answered, Ret.Closed]

theorem proper_reinvite {w : World} {req : Request} (hm : req.method = .invite) :
    Proper .uasUpdating (.request req) w := by
  rw [proper_updating (by simp)]
  simp [handler, stateRecvRequest, UasStateUpdating.recvRequest, hm, wp_call, Answered, Ret.Closed]

/-- A dispatch keeps the machine closed exactly when it is none of those that break it. -/
theorem proper_iff_not_breaks (s : UaState) (d : Dispatch) (w : World) :
    Proper s d w ↔ ¬ Breaks s w d := by
  by_cases hs : s = .uasUpdating
  · subst hs
    cases d with
    | ack req => simp [Proper, Breaks, UaState.reads, UaState.hasHandler, UaState.isConnected]
    | response resp =>
      rw [proper_updating (by simp)]
      simp [handler, stateRecvResponse, Breaks, Answered, Ret.Closed]
    | event e =>
      have hother (h : stateRecvEvent .uasUpdating e = pure .none) :
          Proper .uasUpdating (.event e) w := by
        rw [proper_updating (by simp)]
        simp [handler, h, Answered, Ret.Closed]
      cases hk : e.kind with
      | ring data => cases data <;> simp [proper_ring hk, Breaks, hk]
      | redirect data => cases data <;> simp [proper_redirect hk, Breaks, hk]
      | disconnect also => simp [proper_disconnect hk, Breaks, hk]
      | fail data cs warning => simp [proper_fail hk, Breaks, hk]
      | connect code reason body => simp [proper_connect hk, Breaks, hk]
      | setup _ _ | preConnect _ _ _ | update _ _ | info _ =>
        simp [hother (by simp [stateRecvEvent, UasStateUpdating.recvEvent, hk]), Breaks, hk]
    | request req =>
      have hother (h : stateRecvRequest .uasUpdating req = pure .none) :
          Proper .uasUpdating (.request req) w := by
        rw [proper_updating (by simp)]
        simp [handler, h, Answered, Ret.Closed]
      cases hm : req.method with
      | invite => simp [proper_reinvite hm, Breaks, hm]
      | bye => simp [proper_bye hm, Breaks, hm]
      | refer => cases hr : req.referTo <;> simp [proper_refer hm, Breaks, hm, hr]
      | _ => simp [hother (by simp [stateRecvRequest, UasStateUpdating.recvRequest, hm]), Breaks, hm]
  · cases d with
    | event e => simpa [Breaks, hs] using proper_of_ne hs (by simp [UaState.hasHandler]) w
    | request req => simpa [Breaks, hs] using proper_of_ne hs (by simp [UaState.hasHandler]) w
    | response resp => simpa [Breaks] using proper_of_ne hs (by simp [UaState.hasHandler]) w
    | ack req =>
      cases s with
      | uasUpdating => exact absurd rfl hs
      | uacUpdating => simp [Proper, Breaks, UaState.reads, UaState.hasHandler, UaState.isConnected]
      | _ =>
        refine ⟨fun _ => by simp [Breaks], fun _ => proper_of_ne hs ?_ w⟩
        simp [UaState.reads, UaState.hasHandler, UaState.isConnected]

theorem changeState_installs (c : Change) :
    Ends (fun _ w => w.ua.state = some c.state) (changeState c) := by
  refine .bind fun _ => .bind fun _ w => ?_
  rw [Lib.wp_bind, wp_upd]
  cases c.callback with
  | none => rfl
  | some cb =>
    rw [wp_call]
    split
    · trivial
    · rfl

theorem cancel_installs (fn : CancelFn) (rtime : Time) (reason : Option Text) (w : World) :
    wp (UA.cancel fn rtime reason)
      (fun _ w' => w' = w ∨ w'.ua.state = some .disconnected) (fun _ _ => True) w := by
  have hleft (cb : Option (Callback × Option Time × Option Origin)) (w : World) :
      wp (changeState ⟨.disconnected, cb⟩) (fun _ w' => w'.ua.state = some .disconnected)
        (fun _ _ => True) w := changeState_installs ⟨.disconnected, cb⟩ w
  cases fn with
  | generic => exact .inl rfl
  | progressing =>
    simp only [UA.cancel, changeWith, Lib.wp_bind, wp_getUA, wp_newEvent, wp_upd, Lib.wp_pure]
    exact wp_mono (hleft _ _) (fun _ _ h => .inr h) fun _ _ h => h
  | updating =>
    refine Ends.bind (fun _ w => ?_) w
    simp only [cancelCreditTimer, changeWith, Lib.wp_bind, wp_getUA, wp_newEvent, wp_upd, Lib.wp_pure]
    exact wp_mono (hleft _ _) (fun _ _ h => .inr h) fun _ _ h => h

def sampleBody (content : Text) : Body := ⟨content, content, true⟩

/-- An incoming call is answered and gets a re-INVITE. -/
def reinvited : Mach := run Mach.step (.start .new)
  [.input (.request { Request.bare .invite 1 with body := some (sampleBody ['x']) }) .calm,
   .tau .calm, .ret, .tau .calm, .tau .calm,
   .input (.event ⟨.connect (.num 200) textOK (some (sampleBody ['y'])), 0, none, 10, none⟩) .calm,
   .tau .calm,
   .input (.request { Request.bare .invite 2 with body := some (sampleBody ['z']) }) .calm,
   .tau .calm, .ret, .tau .calm, .tau .calm]

/-- A ring for the re-INVITE makes the handler return a status code. -/
theorem reinvited_ring_breaks : reinvited.ua.state = some .uasUpdating ∧
    ¬ Proper .uasUpdating (.event ⟨.ring none, 0, none, 11, none⟩)
      ⟨reinvited.ua, reinvited.seq, .calm, []⟩ := by
  refine ⟨by decide, ?_⟩
  rw [proper_iff_not_breaks, not_not]
  exact ⟨rfl, ⟨by decide, rfl⟩, trivial⟩

/-- The handlers are closed but for the messages that break them, and what `changeState`
and a CANCEL install is a state object. -/
theorem machine_closed (s : UaState) (d : Dispatch) (w : World) :
    (Proper s d w ↔ ¬ Breaks s w d) ∧
    (∀ c, Ends (fun _ w => w.ua.state = some c.state) (changeState c)) ∧
    ∀ fn rtime reason, wp (UA.cancel fn rtime reason)
      (fun _ w' => w' = w ∨ w'.ua.state = some .disconnected) (fun _ _ => True) w :=
  ⟨proper_iff_not_breaks s d w, changeState_installs, fun fn rtime reason => cancel_installs fn rtime reason w⟩

end SippyB2bua.Ua
