import SippyB2bua.Ua.Effect

/-!
# What each handler does

For each state and each message the effects of the handler: what is sent, which
events are queued, which SDP is forgotten, and which state comes next.
-/

namespace SippyB2bua.Ua
open Lib (Text)

/-- What a state object is given. -/
inductive Dispatch
  | event (e : CCEvent)
  | request (req : Request)
  | response (resp : Response)
  | ack (req : Request)

def handler (s : UaState) : Dispatch → M Ret
  | .event e => stateRecvEvent s e
  | .request req => stateRecvRequest s req
  | .response resp => stateRecvResponse s resp
  | .ack req => stateRecvACK s req

/-- What every handler may do. The others are an INVITE and what a handler leaves to
its caller: events, the callbacks of a call that is over and the end of the registration. -/
def Act.plain : Act → Bool
  | .request r => r.method ≠ .invite
  | .event _ | .callback .disc _ _ | .callback .fail _ _ | .callback .dead _ _ | .unregConsumer => false
  | _ => true

def Kind.invites : Kind → Bool
  | .setup _ _ | .update _ _ => true
  | _ => false

def UaState.emits : UaState → Kind → Bool
  | .uasIdle, .setup _ _ => true
  | .uasRinging, .disconnect _ | .uasUpdating, .disconnect _ => true
  | .uacTrying, k | .uacRinging, k => match k with
    | .ring _ | .connect _ _ _ | .preConnect _ _ _ | .fail _ _ _ | .redirect _ => true
    | _ => false
  | .uacUpdating, k => match k with
    | .ring _ | .connect _ _ _ | .fail _ _ _ | .redirect _ | .disconnect _ => true
    | _ => false
  | .connected, k => match k with
    | .update _ _ | .disconnect _ | .info _ | .connect _ _ _ | .fail _ _ _ => true
    | _ => false
  | _, _ => false

def UaState.leads : UaState → UaState → Bool
  | .uasIdle, .uasTrying => true
  | .uasTrying, s => s = .uasRinging || s = .connected || s = .failed || s = .disconnected
  | .uasRinging, s => s = .connected || s = .failed || s = .disconnected
  | .uasUpdating, s | .uacUpdating, s => s = .connected || s = .disconnected
  | .uacIdle, s => s = .uacTrying || s = .dead
  | .uacTrying, s =>
    s = .uacRinging || s = .connected || s = .failed || s = .uacCancelling
  | .uacRinging, s => s = .connected || s = .failed || s = .uacCancelling
  | .uacCancelling, s => s = .disconnected || s = .dead
  | .connected, s => s = .uasUpdating || s = .uacUpdating || s = .disconnected
  | _, _ => false

def Response.redirects (resp : Response) : Bool :=
  (resp.scode = 300 || resp.scode = 301 || resp.scode = 302) && !resp.contacts.isEmpty

/-- The messages for which a state resets `lSDP`. -/
def UaState.forgetsL : UaState → Dispatch → Bool
  | s, .event e => match s, e.kind with
    | .uasTrying, k | .uasRinging, k | .uasUpdating, k => match k with
      | .ring (some (_, _, body)) | .connect _ _ body | .preConnect _ _ body => body.isNone
      | .ring none => true
      | _ => false
    | .uacIdle, .setup data _ => data.body.isNone
    | .connected, .connect _ _ body => body.isNone
    | _, _ => false
  | .uacUpdating, .response resp => 300 ≤ resp.scode && !resp.redirects
  | _, _ => false

/-- The messages for which a state resets `rSDP`. -/
def UaState.forgetsR : UaState → Dispatch → Bool
  | .uasIdle, .request req => req.body.isNone
  | .uacTrying, .response resp | .uacRinging, .response resp => resp.scode < 300 && resp.body.isNone
  | .uacUpdating, .response resp => 200 ≤ resp.scode && resp.scode < 300 && resp.body.isNone
  | .uasUpdating, .event e => match e.kind with
    | .fail _ _ _ => true
    | _ => false
  | .connected, .ack req => req.body.isNone
  | _, _ => false

def effects (s : UaState) (d : Dispatch) : Effects where
  act a := a.plain ∨ ∃ e r, d = .event e ∧ e.kind.invites ∧ s.terminated = false ∧ a = .request r
  event e := s.emits e.kind
  await p := p.event.final = false ∧
    (p.remote = true → s.emits p.event.kind) ∧ (p.remote = false → d = .event p.event)
  keepsL := s.forgetsL d = false
  keepsR := s.forgetsR d = false

/-- How a handler of the state ends, after it has queued `q`. An event that ends the
call is queued by a handler that leaves the call, but for a re-INVITE that failed. -/
def Outcome (s : UaState) (q : List CCEvent) : Ret → Prop
  | .none => s = .connected ∨ ∀ e ∈ q, e.final = false
  | .change c => s.leads c.state ∧
    (c.state.terminated ∨ s = .uacUpdating ∨ ∀ e ∈ q, e.final = false)
  | .inject e => s = .connected ∧ e.kind = .disconnect none
  | .code _ | .scode _ => s = .uasUpdating

theorem bye_act {s : UaState} {d : Dispatch} {r : SentRequest} (h : r.method = .bye) :
    (effects s d).act (.request r) := .inl (by simp [Act.plain, h])

section Shared
variable {fx : Effects} {w₀ : World} {ns : List ℕ} {q : List CCEvent} {s : UaState} {d : Dispatch}
variable {K : List CCEvent → Ret → Prop}

theorem goto_does {s' : UaState} (h : K q (.change ⟨s', none⟩)) : Does fx w₀ ns q K (goto s') :=
  .pure h

theorem changeWith_does {s' : UaState} {c : Callback} {rtime : Time} {origin : Option Origin} :
    Does fx w₀ ns q (fun q' c' => q' = q ∧ c'.state = s') (changeWith s' c rtime origin) :=
  .getUA_bind fun _ _ => .pure ⟨rfl, rfl⟩

theorem gotoWith_does {s' : UaState} {c : Callback} {rtime : Time} {origin : Option Origin}
    (h : ∀ c, c.state = s' → K q (.change c)) : Does fx w₀ ns q K (gotoWith s' c rtime origin) :=
  .step changeWith_does fun c hc => .pure (h c hc)

theorem gotoRinging_does {s' : UaState} {rtime : Time} {origin : Option Origin}
    (h : ∀ c, c.state = s' → K q (.change c)) : Does fx w₀ ns q K (gotoRinging s' rtime origin) :=
  .getUA_bind fun _ _ => .pure (h _ rfl)

theorem followRoutes_does (hab : w₀.Calm → q = []) :
    Does fx w₀ ns q (fun q' _ => q' = q) followRoutes := by
  refine .getUA_bind fun ua _ => ?_
  split
  · split
    · exact .raise hab
    · exact .upd fun _ => rfl
  · refine .ite (fun _ => .upd fun _ => rfl) fun _ => ?_
    exact .ite (fun _ => .upd fun _ => rfl) fun _ => .upd fun _ => rfl

theorem armSetupTimers_does {rtime : Time} :
    Does fx w₀ ns q (fun q' _ => q' = q) (armSetupTimers rtime) := by
  refine .next (.upd fun ua => ?_) fun _ => .upd fun ua => ?_
  · split <;> rfl
  · split <;> rfl

theorem armFirst_does : Does fx w₀ ns q (fun q' _ => q' = q) UasStateIdle.armFirst :=
  .getUA_bind fun _ _ => .ite (fun _ => .upd fun _ => rfl) fun _ =>
    .getUA_bind fun _ _ => .ite (fun _ => .upd fun _ => rfl) fun _ => .pure rfl

theorem getAuthorization_does {req : Request} (hab : w₀.Calm → q = []) :
    Does fx w₀ ns q (fun q' _ => q' = q) (UasStateIdle.getAuthorization req) := by
  unfold UasStateIdle.getAuthorization
  split
  · exact .pure rfl
  · exact .map (.ofLazy hab) fun _ _ h => h.1

end Shared

@[simp] theorem emits_withBody (s : UaState) (e : CCEvent) (b : Body) :
    s.emits (e.withBody b).kind = s.emits e.kind := by
  obtain ⟨kind, _, _, _, _⟩ := e
  cases s <;> cases kind <;> rfl

section Answering
variable {w₀ : World} {ns : List ℕ} {q : List CCEvent} {s : UaState} {d : Dispatch}
variable {K : List CCEvent → Ret → Prop}

theorem queueRemote_does {body : Option Body} {event : CCEvent} (hemits : s.emits event.kind)
    (hfinal : event.final = false) (hn : event.seq ∈ ns)
    (hbody : s.forgetsR d = false → body.isSome) (hab : w₀.Calm → q = []) :
    Does (effects s d) w₀ ns q (fun q' _ => ∃ es, q' = q ++ es ∧ ∀ e ∈ es, e.final = false)
      (queueRemote body event) := by
  have hawait : (effects s d).await ⟨true, event⟩ := ⟨hfinal, fun _ => hemits, by simp⟩
  refine .weaken (.queueRemote hawait hn hemits (fun b => by simpa [effects] using hemits) hbody hab) ?_
  rintro _ _ ⟨es, rfl, h⟩
  refine ⟨es, rfl, fun e he => ?_⟩
  obtain rfl | ⟨b, rfl⟩ := h e he
  · exact hfinal
  · simpa using hfinal

theorem uasIdle_recvRequest {req : Request} :
    Does (effects .uasIdle (.request req)) w₀ [] [] (Outcome .uasIdle)
      (UasStateIdle.recvRequest req) := by
  unfold UasStateIdle.recvRequest
  refine .ite (fun _ => .pure (.inr (by simp))) fun _ => ?_
  refine .next (.upd fun _ => rfl) fun _ => .get_bind fun w => .next (.upd fun _ => rfl) fun _ => ?_
  refine .step (.ofLazy fun _ => rfl) fun contact _ => .next (.upd fun _ => rfl) fun _ => ?_
  refine .step (.ofLazy fun _ => rfl) fun routes _ => .next (.upd fun _ => rfl) fun _ => ?_
  refine .next (followRoutes_does fun _ => rfl) fun _ => .next (.upd fun _ => rfl) fun _ => ?_
  refine .next (.call (.inl rfl)) fun _ => .next (.upd fun _ => rfl) fun _ => ?_
  refine .next (.act (.inl rfl)) fun _ => .next (getAuthorization_does fun _ => rfl) fun _ => ?_
  refine .next (.upd fun _ => rfl) fun _ => .newEvent_bind fun n => ?_
  refine .next armSetupTimers_does fun _ => .next armFirst_does fun _ => ?_
  refine .bind (queueRemote_does rfl rfl (by simp) (by simp [UaState.forgetsR]) fun _ => rfl) ?_
  rintro _ _ ⟨es, rfl, hes⟩
  refine .next (.upd fun _ => rfl) fun _ => goto_does ⟨rfl, .inr (.inr hes)⟩

theorem reply_act {m : Method} {n : ℤ} : (effects s d).act (.reply m n) := .inl rfl

theorem response_act {n : ℤ} {code : Code} {reason : Text} {body : Option Body}
    {hs : List Header} : (effects s d).act (.response n code reason body hs) := .inl rfl

theorem disconnectFromRequest_does {req : Request} {also : Option Text} {copyReason : Bool}
    (hemits : ∀ also, s.emits (.disconnect also)) (hleads : s.leads .disconnected) :
    Does (effects s d) w₀ ns q (Outcome s)
      (UasStateGeneric.disconnectFromRequest req also copyReason) := by
  refine .getUA_bind fun ua _ => .newEvent_bind fun n => ?_
  refine .bind (.enqueue (by simp) (hemits also)) fun _ _ _ => .next (.upd fun _ => rfl) fun _ => ?_
  exact gotoWith_does fun c hc => ⟨hc ▸ hleads, .inl (by rw [hc]; rfl)⟩

theorem getRequestAlso_does {req : Request} (hab : w₀.Calm → q = []) :
    Does (effects s d) w₀ ns q (fun q' _ => q' = q) (UasStateGeneric.getRequestAlso req) := by
  unfold UasStateGeneric.getRequestAlso
  split
  · exact .pure rfl
  · exact .map (.ofLazy hab) fun _ _ h => h.1

theorem delayLocalSdpUpdate_does {event : CCEvent} {body : Option Body}
    (hd : d = .event event) (hfinal : event.final = false) (hab : w₀.Calm → q = []) :
    Does (effects s d) w₀ ns q (fun q' _ => q' = q)
      (UasStateGeneric.delayLocalSdpUpdate event body) := by
  refine .getUA_bind fun ua hua => ?_
  have hon : ua.onLocal = w₀.ua.onLocal := congrArg Frame.onLocal hua
  cases body with
  | none => exact .pure rfl
  | some body =>
    refine .ite (fun h => ?_) fun _ => .pure rfl
    have hl : w₀.ua.onLocal = true := by
      rw [← hon]
      exact (Bool.and_eq_true _ _ ▸ h).1
    have hawait : (effects s d).await ⟨false, event⟩ := ⟨hfinal, by simp, fun _ => hd⟩
    exact .next (.discard (.onSdpChange hawait (by simp) (fun _ => hl) hab)) fun _ => .pure rfl

theorem ringResponse_does {event : CCEvent} {data : Option (Code × Text × Option Body)}
    (hs : s = .uasTrying ∨ s = .uasRinging ∨ s = .uasUpdating) (hk : event.kind = .ring data)
    (hab : w₀.Calm → q = []) :
    Does (effects s (.event event)) w₀ ns q (fun q' _ => q' = q)
      (UasStateGeneric.ringResponse event data) := by
  have hfinal : event.final = false := by simp [CCEvent.final, hk]
  unfold UasStateGeneric.ringResponse
  split
  · refine .next (.upd_lSDP fun h => ?_) fun _ => .next (.sendUasResponse (fun _ => response_act) hab)
      fun _ => .pure rfl
    rcases hs with rfl | rfl | rfl <;> simp [effects, UaState.forgetsL, hk] at h
  · refine .next (delayLocalSdpUpdate_does rfl hfinal hab) fun _ => .ite (fun _ => .pure rfl) fun _ => ?_
    refine .next (.upd_lSDP fun h => ?_) fun _ => .next (.sendUasResponse (fun _ => response_act) hab)
      fun _ => .pure rfl
    rcases hs with rfl | rfl | rfl <;>
      simpa [effects, UaState.forgetsL, hk, Option.isSome_iff_ne_none] using h

theorem getConnectData_does {event : CCEvent} {body : Option Body}
    (hfinal : event.final = false) (hbody : s.forgetsL (.event event) = false → body.isSome)
    (hab : w₀.Calm → q = []) :
    Does (effects s (.event event)) w₀ ns q (fun q' _ => q' = q)
      (UasStateGeneric.getConnectData event body) :=
  .next (delayLocalSdpUpdate_does rfl hfinal hab) fun _ => .ite (fun _ => .pure rfl) fun _ =>
    .next (.upd_lSDP hbody) fun _ => .pure rfl

theorem sendFailResponse_does {event : CCEvent} {data : Option (Code × Text)}
    (hab : w₀.Calm → q = []) :
    Does (effects s d) w₀ ns q (fun q' _ => q' = q)
      (UasStateGeneric.sendFailResponse event data) := by
  unfold UasStateGeneric.sendFailResponse
  split <;> exact .sendUasResponse (fun _ => response_act) hab

theorem redirectResponse_does {event : CCEvent}
    {data : Option (Code × Text × Option Body × Option (List Target))} (hab : w₀.Calm → q = []) :
    Does (effects s d) w₀ ns q (fun q' _ => q' = q)
      (UasStateGeneric.redirectResponse event data) := by
  unfold UasStateGeneric.redirectResponse
  split <;> exact .next (.sendUasResponse (fun _ => response_act) hab) fun _ => .pure rfl

theorem answer_body {event : CCEvent} {code : Code} {reason : Text} {body : Option Body}
    (hs : s = .uasTrying ∨ s = .uasRinging ∨ s = .uasUpdating)
    (hk : event.kind = .connect code reason body ∨ event.kind = .preConnect code reason body) :
    event.final = false ∧ (s.forgetsL (.event event) = false → body.isSome) := by
  rcases hs with rfl | rfl | rfl <;> rcases hk with hk | hk <;>
    simp [CCEvent.final, UaState.forgetsL, hk, Option.isSome_iff_ne_none]

section Progressing
variable (hs : s = .uasTrying ∨ s = .uasRinging)
include hs

theorem progressing_leads {c : Change} (hc : c.state.terminated)
    (h : c.state = .failed ∨ c.state = .disconnected) : Outcome s q (.change c) := by
  refine ⟨?_, .inl hc⟩
  rcases hs with rfl | rfl <;> rcases h with h | h <;> simp [UaState.leads, h]

theorem recvEventConnect_does {event : CCEvent} {code : Code} {reason : Text} {body : Option Body}
    (hk : event.kind = .connect code reason body) :
    Does (effects s (.event event)) w₀ ns [] (Outcome s)
      (UasStateProgressing.recvEventConnect event code reason body) := by
  obtain ⟨hfinal, hbody⟩ := answer_body (s := s) (by tauto) (.inl hk)
  refine .next (getConnectData_does hfinal hbody fun _ => rfl) fun _ => ?_
  refine .ite (fun _ => ?_) fun _ => .pure (.inr (by simp))
  refine .next (.sendUasResponse (fun _ => response_act) fun _ => rfl) fun _ => ?_
  refine .next (.upd fun _ => rfl) fun _ => .next .startCreditTimer fun _ => ?_
  refine .next (.upd fun _ => rfl) fun _ => gotoWith_does fun c hc => ⟨?_, by simp⟩
  rcases hs with rfl | rfl <;> simp [UaState.leads, hc]

theorem recvEventPreConnect_does {event : CCEvent} {code : Code} {reason : Text}
    {body : Option Body} (hk : event.kind = .preConnect code reason body) :
    Does (effects s (.event event)) w₀ ns [] (Outcome s)
      (UasStateProgressing.recvEventPreConnect event code reason body) := by
  obtain ⟨hfinal, hbody⟩ := answer_body (s := s) (by tauto) (.inr hk)
  refine .next (getConnectData_does hfinal hbody fun _ => rfl) fun _ => ?_
  refine .ite (fun _ => ?_) fun _ => .pure (.inr (by simp))
  refine .next (.sendUasResponse (fun _ => response_act) fun _ => rfl) fun _ => ?_
  refine .next (.upd fun _ => rfl) fun _ => goto_does ⟨?_, by simp⟩
  rcases hs with rfl | rfl <;> simp [UaState.leads]

theorem recvEventRedirect_does {event : CCEvent}
    {data : Option (Code × Text × Option Body × Option (List Target))} :
    Does (effects s d) w₀ ns [] (Outcome s) (UasStateProgressing.recvEventRedirect event data) := by
  refine .next (.discard (redirectResponse_does fun _ => rfl)) fun _ => ?_
  refine .next (.upd fun _ => rfl) fun _ => .next (.upd fun _ => rfl) fun _ => ?_
  exact gotoWith_does fun c hc => progressing_leads hs (by rw [hc]; rfl) (.inl hc)

theorem recvEventFail_does {event : CCEvent} {data : Option (Code × Text)} :
    Does (effects s d) w₀ ns [] (Outcome s) (UasStateProgressing.recvEventFail event data) := by
  refine .next (sendFailResponse_does fun _ => rfl) fun _ => ?_
  refine .next (.upd fun _ => rfl) fun _ => .next (.upd fun _ => rfl) fun _ => ?_
  exact gotoWith_does fun c hc => progressing_leads hs (by rw [hc]; rfl) (.inl hc)

theorem recvEventDisconnect_does {event : CCEvent} :
    Does (effects s d) w₀ ns [] (Outcome s) (UasStateProgressing.recvEventDisconnect event) := by
  refine .next (.sendUasResponse (fun _ => response_act) fun _ => rfl) fun _ => ?_
  refine .next (.upd fun _ => rfl) fun _ => .next (.upd fun _ => rfl) fun _ => ?_
  exact gotoWith_does fun c hc => progressing_leads hs (by rw [hc]; rfl) (.inr hc)

end Progressing
theorem progressed_does {fx : Effects} {b : Bool} :
    Does fx w₀ ns q (fun q' _ => q' = q) (progressed b) := by
  refine .getUA_bind fun _ _ => .ite (fun _ => .next (.upd fun _ => rfl) fun _ => ?_) fun _ => .pure rfl
  exact .getUA_bind fun _ _ => .ite (fun _ => .upd fun _ => rfl) fun _ => .pure rfl

theorem runRingCbs_does {rtime : Time} {origin : Option Origin} :
    Does (effects s d) w₀ ns q (fun q' _ => q' = q) (runRingCbs rtime origin) :=
  .getUA_bind fun _ _ => .ite (fun _ => .call (.inl rfl)) fun _ => .pure rfl

theorem leaving_does {h : M Ret} (hh : Does (effects s d) w₀ ns q (Outcome s) h) :
    Does (effects s d) w₀ ns q (Outcome s) (UasStateTrying.leaving h) := by
  refine .bind hh fun q' ret hret => ?_
  cases ret with
  | none => exact .pure hret
  | change c => exact .next (.upd fun _ => rfl) fun _ => .pure hret
  | inject e => exact .next (.upd fun _ => rfl) fun _ => .pure hret
  | code c => exact .next (.upd fun _ => rfl) fun _ => .pure hret
  | scode c => exact .next (.upd fun _ => rfl) fun _ => .pure hret

theorem uasTrying_recvEvent {e : CCEvent} :
    Does (effects .uasTrying (.event e)) w₀ ns [] (Outcome .uasTrying)
      (UasStateTrying.recvEvent e) := by
  unfold UasStateTrying.recvEvent
  split
  case h_1 data hk =>
    refine .ite (fun _ => .pure (.inr (by simp))) fun _ => ?_
    refine .next (ringResponse_does (by simp) hk fun _ => rfl) fun code => ?_
    cases code with
    | none => exact .pure (.inr (by simp))
    | some code =>
      refine .next progressed_does fun _ => .next (.upd fun _ => rfl) fun _ => ?_
      exact gotoRinging_does fun c hc => ⟨by simp [UaState.leads, hc], by simp⟩
  case h_2 code reason body hk => exact leaving_does (recvEventConnect_does (.inl rfl) hk)
  case h_3 code reason body hk => exact leaving_does (recvEventPreConnect_does (.inl rfl) hk)
  case h_4 => exact leaving_does (recvEventRedirect_does (.inl rfl))
  case h_5 => exact leaving_does (recvEventFail_does (.inl rfl))
  case h_6 => exact leaving_does (recvEventDisconnect_does (.inl rfl))
  case h_7 => exact .pure (.inr (by simp))

theorem uasRinging_recvEvent {e : CCEvent} :
    Does (effects .uasRinging (.event e)) w₀ ns [] (Outcome .uasRinging)
      (UasStateRinging.recvEvent e) := by
  unfold UasStateRinging.recvEvent
  split
  case h_1 data hk =>
    refine .next (ringResponse_does (by simp) hk fun _ => rfl) fun code => ?_
    cases code with
    | none => exact .pure (.inr (by simp))
    | some code =>
      exact .next (.upd fun _ => rfl) fun _ => .next runRingCbs_does fun _ => .pure (.inr (by simp))
  case h_2 code reason body hk => exact recvEventConnect_does (.inr rfl) hk
  case h_3 code reason body hk => exact recvEventPreConnect_does (.inr rfl) hk
  case h_4 => exact recvEventRedirect_does (.inr rfl)
  case h_5 => exact recvEventFail_does (.inr rfl)
  case h_6 => exact recvEventDisconnect_does (.inr rfl)
  case h_7 => exact .pure (.inr (by simp))

theorem uasRinging_recvRequest {req : Request} :
    Does (effects .uasRinging (.request req)) w₀ ns [] (Outcome .uasRinging)
      (UasStateRinging.recvRequest req) := by
  unfold UasStateRinging.recvRequest
  split
  · refine .next (.sendUasResponse (fun _ => response_act) fun _ => rfl) fun _ => ?_
    refine .next (.call reply_act) fun _ => .next (getRequestAlso_does fun _ => rfl) fun _ => ?_
    exact .next (.upd fun _ => rfl) fun _ => disconnectFromRequest_does (fun _ => rfl) rfl
  · exact .pure (.inr (by simp))

theorem uasUpdating_recvEvent {e : CCEvent} :
    Does (effects .uasUpdating (.event e)) w₀ ns [] (Outcome .uasUpdating)
      (UasStateUpdating.recvEvent e) := by
  unfold UasStateUpdating.recvEvent
  split
  case h_1 data hk =>
    refine .next (ringResponse_does (by simp) hk fun _ => rfl) fun code => ?_
    cases code with
    | none => exact .pure (.inr (by simp))
    | some code => exact .pure rfl
  case h_2 code reason body hk =>
    obtain ⟨hfinal, hbody⟩ := answer_body (s := .uasUpdating) (by simp) (.inl hk)
    refine .next (getConnectData_does hfinal hbody fun _ => rfl) fun _ => ?_
    refine .ite (fun _ => ?_) fun _ => .pure (.inr (by simp))
    refine .next (.sendUasResponse (fun _ => response_act) fun _ => rfl) fun _ => ?_
    exact goto_does ⟨rfl, by simp⟩
  case h_3 => exact .map (redirectResponse_does fun _ => rfl) fun _ _ _ => rfl
  case h_4 data _ _ hk =>
    refine .next (.upd_rSDP fun h => by simp [effects, UaState.forgetsR, hk] at h) fun _ => ?_
    refine .next (sendFailResponse_does fun _ => rfl) fun _ => goto_does ⟨rfl, by simp⟩
  case h_5 =>
    refine .next (.sendUasResponse (fun _ => response_act) fun _ => rfl) fun _ => ?_
    refine .next (.sendBYE fun _ => bye_act) fun _ => .next (.upd fun _ => rfl) fun _ => ?_
    refine .next (.upd fun _ => rfl) fun _ => ?_
    exact gotoWith_does fun c hc => ⟨by rw [hc]; rfl, by simp⟩
  case h_6 => exact .pure (.inr (by simp))

theorem uasUpdating_recvRequest {req : Request} :
    Does (effects .uasUpdating (.request req)) w₀ ns [] (Outcome .uasUpdating)
      (UasStateUpdating.recvRequest req) := by
  unfold UasStateUpdating.recvRequest
  split
  · exact .next (.call reply_act) fun _ => .pure (.inr (by simp))
  · refine .next (.sendUasResponse (fun _ => response_act) fun _ => rfl) fun _ => ?_
    refine .next (.call reply_act) fun _ => .next (.upd fun _ => rfl) fun _ => ?_
    exact disconnectFromRequest_does (fun _ => rfl) rfl
  · split
    · exact .next (.call reply_act) fun _ => .pure (.inr (by simp))
    · refine .next (.sendUasResponse (fun _ => response_act) fun _ => rfl) fun _ => ?_
      refine .next (.call reply_act) fun _ => .step (.ofLazy fun _ => rfl) fun _ _ => ?_
      exact .next (.upd fun _ => rfl) fun _ => disconnectFromRequest_does (fun _ => rfl) rfl
  · exact .pure (.inr (by simp))

end Answering

section Calling
variable {w₀ : World} {ns : List ℕ} {q : List CCEvent} {s : UaState} {d : Dispatch}

theorem passAuth_does {req : SentRequest} {auth : Option Text} :
    Does (effects s d) w₀ ns q (fun q' r => q' = q ∧ r.method = req.method)
      (UacStateIdle.passAuth req auth) := by
  refine .getUA_bind fun ua _ => ?_
  split
  · exact .next (.upd fun _ => rfl) fun _ => .pure ⟨rfl, rfl⟩
  · exact .pure ⟨rfl, rfl⟩

theorem uacArmSetupTimers_does {rtime : Time} :
    Does (effects s d) w₀ ns q (fun q' _ => q' = q) (UacStateIdle.armSetupTimers rtime) := by
  refine .next armSetupTimers_does fun _ => .next (.upd fun _ => rfl) fun _ => ?_
  refine .getUA_bind fun ua _ => ?_
  split
  · exact .upd fun _ => rfl
  · exact armFirst_does

theorem setTarget_does {cld : Option Text} (hab : w₀.Calm → q = []) :
    Does (effects s d) w₀ ns q (fun q' _ => q' = q) (UacStateIdle.setTarget cld) := by
  refine .getUA_bind fun ua _ => ?_
  split
  · exact .raise hab
  · exact .upd fun _ => rfl

theorem uacIdle_recvEvent {e : CCEvent} :
    Does (effects .uacIdle (.event e)) w₀ ns [] (Outcome .uacIdle) (UacStateIdle.recvEvent e) := by
  unfold UacStateIdle.recvEvent
  split
  case h_1 data mf hk =>
    have hfinal : e.final = false := by simp [CCEvent.final, hk]
    refine .next (.upd fun _ => rfl) fun _ => ?_
    refine .next (delayLocalSdpUpdate_does rfl hfinal fun _ => rfl) fun _ => ?_
    refine .ite (fun _ => .pure (.inr (by simp))) fun _ => .next (.upd fun _ => rfl) fun _ => ?_
    refine .get_bind fun w => .next (.upd fun _ => rfl) fun _ => .next (.act (.inl rfl)) fun _ => ?_
    refine .next (setTarget_does fun _ => rfl) fun _ => .get_bind fun w => ?_
    refine .next (.upd fun _ => rfl) fun _ => .next (.upd_lSDP fun h => ?_) fun _ => ?_
    · simpa [effects, UaState.forgetsL, hk, Option.isSome_iff_ne_none] using h
    refine .step (.genRequest (by simp)) fun req _ => .step passAuth_does fun req' _ => ?_
    have hreq : (effects .uacIdle (.event e)).act (.request req') :=
      .inr ⟨e, req', rfl, by rw [hk]; rfl, rfl, rfl⟩
    refine .next (.newUacTransaction hreq) fun _ => .next uacArmSetupTimers_does fun _ => ?_
    exact goto_does ⟨rfl, by simp⟩
  case h_2 =>
    refine .ite (fun _ => .next .setDisconnectTs fun _ => ?_) fun _ => .pure (.inr (by simp))
    exact gotoWith_does fun c hc => ⟨by simp [UaState.leads, hc], by simp⟩

theorem updateRoutes_does {fx : Effects} {resp : Response} (hab : w₀.Calm → q = []) :
    Does fx w₀ ns q (fun q' _ => q' = q) (UacStateTrying.updateRoutes resp) := by
  have hcontact : Does fx w₀ ns q (fun q' _ => q' = q) (UacStateTrying.followContact resp) := by
    unfold UacStateTrying.followContact
    split
    · exact .pure rfl
    · exact .step (.ofLazy hab) fun _ _ => .upd fun _ => rfl
  refine .next hcontact fun _ => .step (.ofLazy hab) fun _ _ => .next (.upd fun _ => rfl) fun _ => ?_
  exact followRoutes_does hab

/-- Once its event is queued the call is over, unless this is a re-INVITE. -/
theorem outcome_failed {c : Change} (hs : s = .uacTrying ∨ s = .uacRinging) (hc : c.state = .failed) :
    Outcome s q (.change c) := by
  refine ⟨?_, .inl (by rw [hc]; rfl)⟩
  rcases hs with rfl | rfl <;> simp [UaState.leads, hc]

section TryingOrRinging
variable (hs : s = .uacTrying ∨ s = .uacRinging)
include hs

theorem calling_emits {k : Kind} (hk : match k with
    | .ring _ | .connect _ _ _ | .preConnect _ _ _ | .fail _ _ _ | .redirect _ => True
    | _ => False) : s.emits k := by
  rcases hs with rfl | rfl <;> cases k <;> simp_all [UaState.emits]

theorem calling_body {resp : Response} (h : resp.scode < 300) :
    s.forgetsR (.response resp) = false → resp.body.isSome := by
  rcases hs with rfl | rfl <;> simp [UaState.forgetsR, h, Option.isSome_iff_ne_none]

theorem answered_does {resp : Response} (hscode : resp.scode < 300) :
    Does (effects s (.response resp)) w₀ ns [] (Outcome s) (UacStateTrying.answered resp) := by
  refine .next (updateRoutes_does fun _ => rfl) fun _ => .getUA_bind fun ua _ => ?_
  refine .step (.ofLazy fun _ => rfl) fun tag _ => ?_
  cases tag with
  | none =>
    refine .newEvent_bind fun n => .bind (.enqueue (by simp) (calling_emits hs trivial)) ?_
    intro q' _ _
    refine .next (.sendBYE fun _ => bye_act) fun _ => .next .setDisconnectTs fun _ => ?_
    exact gotoWith_does fun c hc => outcome_failed hs hc
  | some tag =>
    have hconn : s.leads .connected := by rcases hs with rfl | rfl <;> rfl
    refine .next (.upd fun _ => rfl) fun _ => .getUA_bind fun ua _ => .ite (fun _ => ?_) fun _ => ?_
    · refine .next (.upd fun _ => rfl) fun _ => .newEvent_bind fun n => ?_
      refine .next .startCreditTimer fun _ => .next (.upd fun _ => rfl) fun _ => ?_
      refine .bind (L := fun q' r => q' = [] ∧ ∃ c, r = .change c ∧ c.state = .connected)
        (gotoWith_does fun c hc => ⟨rfl, c, rfl, hc⟩) ?_
      rintro _ _ ⟨rfl, c, rfl, hc⟩
      refine .bind (queueRemote_does (calling_emits hs trivial) rfl (by simp)
        (calling_body hs hscode) fun _ => rfl) ?_
      rintro _ _ ⟨es, rfl, hes⟩
      exact .pure ⟨hc ▸ hconn, .inr (.inr hes)⟩
    · refine .newEvent_bind fun n => .next (.upd fun _ => rfl) fun _ => ?_
      refine .bind (queueRemote_does (calling_emits hs trivial) rfl (by simp)
        (calling_body hs hscode) fun _ => rfl) ?_
      rintro _ _ ⟨es, rfl, hes⟩
      exact goto_does ⟨hconn, .inr (.inr hes)⟩

end TryingOrRinging

theorem challenges_does {fx : Effects} {resp : Response} (hab : w₀.Calm → q = []) :
    Does fx w₀ ns q (fun q' _ => q' = q) (UacStateTrying.challenges resp) := by
  refine .getUA_bind fun ua _ => .ite (fun _ => ?_) fun _ => .pure rfl
  refine .ite (fun _ => .step (.ofLazy hab) fun _ _ => .pure rfl) fun _ => ?_
  exact .ite (fun _ => .raise hab) fun _ => .pure rfl

theorem rejection_bind {fx : Effects} {resp : Response} {challenges : M (List Header)}
    {α : Type} {K : List CCEvent → α → Prop} {f : CCEvent → M α}
    (hch : ∀ n, resp.redirects = false →
      Does fx w₀ (n :: ns) q (fun q' _ => q' = q) challenges)
    (hab : w₀.Calm → q = [])
    (hf : ∀ n (event : CCEvent), event.seq = n →
      ((∃ d, event.kind = .redirect d) ∨ ∃ d cs w, event.kind = .fail d cs w) →
      Does fx w₀ (n :: ns) q K (f event)) :
    Does fx w₀ ns q K (UacStateTrying.rejection resp challenges >>= f) := by
  unfold UacStateTrying.rejection
  simp only [bind_assoc]
  refine .getUA_bind fun ua _ => ?_
  split
  · simp only [bind_assoc, pure_bind]
    refine .step (.ofLazy hab) fun _ _ => .newEvent_bind fun n => ?_
    exact hf n _ rfl (.inl ⟨_, rfl⟩)
  · split
    · simp only [bind_assoc, pure_bind]
      refine .step (.ofLazy hab) fun _ _ => .newEvent_bind fun n => ?_
      exact hf n _ rfl (.inl ⟨_, rfl⟩)
    · simp only [bind_assoc, pure_bind]
      refine .newEvent_bind fun n => .next (hch n ?_) fun _ => hf n _ rfl (.inr ⟨_, _, _, rfl⟩)
      simp only [Response.redirects]
      grind

theorem rejection_emits {e : CCEvent} (hs : s = .uacTrying ∨ s = .uacRinging ∨ s = .uacUpdating)
    (he : (∃ d, e.kind = .redirect d) ∨ ∃ d cs w, e.kind = .fail d cs w) : s.emits e.kind := by
  rcases hs with rfl | rfl | rfl <;> obtain ⟨_, h⟩ | ⟨_, _, _, h⟩ := he <;> rw [h] <;> rfl

theorem rejected_does {resp : Response} {challenges : M (List Header)}
    (hs : s = .uacTrying ∨ s = .uacRinging)
    (hch : ∀ n, Does (effects s d) w₀ (n :: ns) [] (fun q' _ => q' = []) challenges) :
    Does (effects s d) w₀ ns [] (Outcome s) (UacStateTrying.rejected resp challenges) := by
  refine rejection_bind (fun n _ => hch n) (fun _ => rfl) fun n e hn he => ?_
  refine .bind (.enqueue (by simp [hn]) (rejection_emits (by tauto) he)) fun q' _ _ => ?_
  refine .next .setDisconnectTs fun _ => .getUA_bind fun ua _ => ?_
  exact gotoWith_does fun c hc => outcome_failed hs hc

theorem replied_does {fx : Effects} {scode : ℤ} :
    Does fx w₀ ns q (fun q' _ => q' = q) (UacStateTrying.replied scode) := by
  refine .getUA_bind fun _ _ => .ite (fun _ => .next (.upd fun _ => rfl) fun _ => ?_) fun _ => .pure rfl
  refine .getUA_bind fun _ _ => .ite (fun _ => .upd fun _ => rfl) fun _ => ?_
  exact .getUA_bind fun _ _ => .ite (fun _ => .upd fun _ => rfl) fun _ => .pure rfl

theorem abandon_does {scode : ℤ} (hab : w₀.Calm → q = []) :
    Does (effects s d) w₀ ns q (fun q' _ => q' = q) (UacStateTrying.abandon scode) :=
  .ite (fun _ => .cancelTransaction (.inl rfl) hab) fun _ =>
    .ite (fun _ => .sendBYE fun _ => bye_act) fun _ => .pure rfl

theorem guardSdp_does {h : M Ret} {resp : Response} (hs : s = .uacTrying ∨ s = .uacRinging)
    (hh : Does (effects s d) w₀ ns [] (Outcome s) h) :
    Does (effects s d) w₀ ns [] (Outcome s) (UacStateTrying.guardSdp h resp) := by
  refine .tryCatch hh fun ex q' hab => .ite (fun _ => ?_) fun _ => .throw hab
  refine .getUA_bind fun ua _ => .newEvent_bind fun n => .next (abandon_does hab) fun _ => ?_
  refine .bind (.enqueue (by simp) (calling_emits hs trivial)) fun q'' _ _ => ?_
  exact .next (.upd fun _ => rfl) fun _ => gotoWith_does fun c hc => outcome_failed hs hc

theorem uacTrying_recvResponse {resp : Response} :
    Does (effects .uacTrying (.response resp)) w₀ ns [] (Outcome .uacTrying)
      (UacStateTrying.recvResponse resp) := by
  refine guardSdp_does (.inl rfl) ?_
  refine .next (.upd fun _ => rfl) fun _ => .next replied_does fun _ => .getUA_bind fun ua _ => ?_
  refine .ite (fun _ => .next (.upd fun _ => rfl) fun _ => .newEvent_bind fun n => ?_) fun _ => ?_
  · refine .bind (.enqueue (by simp) rfl) ?_
    rintro _ _ rfl
    exact .pure (.inr (by simp [CCEvent.final]))
  refine .next progressed_does fun _ => .ite (fun h => .newEvent_bind fun n => ?_) fun _ => ?_
  · refine .bind (queueRemote_does rfl rfl (by simp) (calling_body (.inl rfl) (by omega))
      fun _ => rfl) ?_
    rintro _ _ ⟨es, rfl, hes⟩
    refine .next (.upd fun _ => rfl) fun _ => gotoRinging_does fun c hc => ?_
    exact ⟨by rw [hc]; rfl, .inr (.inr hes)⟩
  · refine .next (.upd fun _ => rfl) fun _ => .ite (fun h => answered_does (.inl rfl) h) fun _ => ?_
    exact rejected_does (.inl rfl) fun _ => challenges_does fun _ => rfl

theorem uacTrying_recvEvent {e : CCEvent} :
    Does (effects .uacTrying (.event e)) w₀ ns [] (Outcome .uacTrying)
      (UacStateTrying.recvEvent e) := by
  refine .ite (fun _ => ?_) fun _ => .pure (.inr (by simp))
  refine .next (.cancelTransaction (.inl rfl) fun _ => rfl) fun _ => .next (.upd fun _ => rfl) fun _ => ?_
  refine .next (.upd fun _ => rfl) fun _ => .next (.upd fun _ => rfl) fun _ => ?_
  exact .next .setDisconnectTs fun _ => gotoWith_does fun c hc => ⟨by rw [hc]; rfl, by simp⟩

theorem uacRinging_recvResponse {resp : Response} :
    Does (effects .uacRinging (.response resp)) w₀ ns [] (Outcome .uacRinging)
      (UacStateRinging.recvResponse resp) := by
  refine guardSdp_does (.inr rfl) ?_
  refine .getUA_bind fun ua _ => .ite (fun h => ?_) fun _ => .next (.upd fun _ => rfl) fun _ => ?_
  · refine .next (.upd fun _ => rfl) fun _ => .newEvent_bind fun n => .next runRingCbs_does fun _ => ?_
    refine .bind (queueRemote_does rfl rfl (by simp) (calling_body (.inr rfl) (by omega))
      fun _ => rfl) ?_
    rintro _ _ ⟨es, rfl, hes⟩
    exact .pure (.inr hes)
  · exact .ite (fun h => answered_does (.inr rfl) h) fun _ => rejected_does (.inr rfl) fun _ => .pure rfl

theorem uacRinging_recvEvent {e : CCEvent} :
    Does (effects .uacRinging (.event e)) w₀ ns [] (Outcome .uacRinging)
      (UacStateRinging.recvEvent e) := by
  refine .ite (fun _ => ?_) fun _ => .pure (.inr (by simp))
  refine .next (.cancelTransaction (.inl rfl) fun _ => rfl) fun _ => .next (.upd fun _ => rfl) fun _ => ?_
  exact .next .setDisconnectTs fun _ => gotoWith_does fun c hc => ⟨by rw [hc]; rfl, by simp⟩

theorem updateFailed_does {event : CCEvent} {byeReason disconnectReason : Option Text}
    (hn : event.seq ∈ ns) (hemits : UaState.uacUpdating.emits event.kind) :
    Does (effects .uacUpdating d) w₀ ns q (Outcome .uacUpdating)
      (UacStateUpdating.updateFailed event byeReason disconnectReason) := by
  refine .bind (.enqueue hn hemits) fun _ _ _ => .next (.sendBYE fun _ => bye_act) fun _ => ?_
  refine .next (.upd fun _ => rfl) fun _ => .next (.upd fun _ => rfl) fun _ => .getUA_bind fun ua _ => ?_
  refine .newEvent_bind fun n => .bind (.enqueue (by simp) rfl) fun _ _ _ => ?_
  exact gotoWith_does fun c hc => ⟨by rw [hc]; rfl, by simp⟩

theorem uacUpdating_recvResponse {resp : Response} :
    Does (effects .uacUpdating (.response resp)) w₀ ns [] (Outcome .uacUpdating)
      (UacStateUpdating.recvResponse resp) := by
  refine .ite (fun _ => .ite (fun _ => ?_) fun _ => .pure (.inr (by simp))) fun h => ?_
  · refine .getUA_bind fun ua _ => .newEvent_bind fun n => .bind (.enqueue (by simp) rfl) ?_
    rintro _ _ rfl
    exact .pure (.inr (by simp [CCEvent.final]))
  refine .ite (fun h' => ?_) fun h' => ?_
  · refine .getUA_bind fun ua _ => .newEvent_bind fun n => .bind (L := fun _ _ => True)
      (.tryCatch (.bind (queueRemote_does rfl rfl (by simp) ?_ fun _ => rfl)
        fun _ _ _ => .pure trivial) fun _ _ _ => .pure trivial) fun q' failure _ => ?_
    · have : 200 ≤ resp.scode := by omega
      simp [UaState.forgetsR, h', Option.isSome_iff_ne_none, this]
    cases failure with
    | none => exact goto_does ⟨rfl, by simp⟩
    | some ex =>
      refine .newEvent_bind fun n => .ite (fun _ => ?_) fun _ => ?_
      · exact updateFailed_does (by simp) rfl
      · exact .get_bind fun _ => updateFailed_does (by simp) rfl
  · refine rejection_bind (fun n hr => .next (.upd_lSDP fun hk => ?_) fun _ => .pure rfl)
      (fun _ => rfl) fun n e hn he => ?_
    · have : 300 ≤ resp.scode := by omega
      simp [effects, UaState.forgetsL, hr, this] at hk
    have hem := rejection_emits (s := .uacUpdating) (by simp) he
    refine .ite (fun _ => updateFailed_does (by simp [hn]) hem) fun _ => ?_
    exact .bind (.enqueue (by simp [hn]) hem) fun _ _ _ => goto_does ⟨rfl, by simp⟩

theorem uacUpdating_recvEvent {e : CCEvent} :
    Does (effects .uacUpdating (.event e)) w₀ ns [] (Outcome .uacUpdating)
      (UacStateUpdating.recvEvent e) := by
  refine .ite (fun _ => ?_) fun _ => .pure (.inr (by simp))
  refine .next (.cancelTransaction (.inl rfl) fun _ => rfl) fun _ => ?_
  refine .next (.sendBYE fun _ => bye_act) fun _ => .next (.upd fun _ => rfl) fun _ => ?_
  exact .next (.upd fun _ => rfl) fun _ => gotoWith_does fun c hc => ⟨by rw [hc]; rfl, by simp⟩

theorem uacUpdating_recvRequest {req : Request} :
    Does (effects .uacUpdating (.request req)) w₀ ns [] (Outcome .uacUpdating)
      (UacStateUpdating.recvRequest req) := by
  unfold UacStateUpdating.recvRequest
  split
  · exact .next (.call reply_act) fun _ => .pure (.inr (by simp))
  · refine .next (.cancelTransaction (.inl rfl) fun _ => rfl) fun _ => .next (.call reply_act) fun _ => ?_
    exact .next (.upd fun _ => rfl) fun _ => disconnectFromRequest_does (fun _ => rfl) rfl
  · exact .pure (.inr (by simp))

theorem uacCancelling_recvResponse {resp : Response} :
    Does (effects .uacCancelling (.response resp)) w₀ ns [] (Outcome .uacCancelling)
      (UacStateCancelling.recvResponse resp) := by
  refine .ite (fun _ => .pure (.inr (by simp))) fun _ => .next (.upd fun _ => rfl) fun _ => ?_
  refine .ite (fun _ => ?_) fun _ => goto_does ⟨rfl, by simp⟩
  refine .next (updateRoutes_does fun _ => rfl) fun _ => .step (.ofLazy fun _ => rfl) fun tag _ => ?_
  refine .next (.upd fun _ => rfl) fun _ => .next (.sendBYE fun _ => bye_act) fun _ => ?_
  exact goto_does ⟨rfl, by simp⟩

end Calling

section Connected
variable {w₀ : World} {ns : List ℕ} {q : List CCEvent} {s : UaState} {d : Dispatch}

theorem runConnCbs_does {rtime : Time} :
    Does (effects s d) w₀ ns q (fun q' _ => q' = q) (UaStateConnected.runConnCbs rtime) :=
  .getUA_bind fun _ _ => .ite (fun _ => .call (.inl rfl)) fun _ => .pure rfl

theorem reinviteBody_does {req : Request} (hab : w₀.Calm → q = []) :
    Does (effects s d) w₀ ns q (fun q' _ => q' = q) (UaStateConnected.reinviteBody req) := by
  unfold UaStateConnected.reinviteBody
  split
  · exact .pure rfl
  · refine .getUA_bind fun _ _ => .ite (fun _ => .raise hab) fun _ => .get_bind fun w => ?_
    exact .weaken (.ofLazy hab) fun _ _ h => h.1

theorem connected_recvRequest {req : Request} :
    Does (effects .connected (.request req)) w₀ ns [] (Outcome .connected)
      (UaStateConnected.recvRequest req) := by
  unfold UaStateConnected.recvRequest
  split
  · unfold UaStateConnected.recvRequestRefer
    split
    · exact .next (.call reply_act) fun _ => .pure (.inl rfl)
    · refine .next (.call reply_act) fun _ => .step (.ofLazy fun _ => rfl) fun also _ => ?_
      refine .getUA_bind fun ua _ => .newEvent_bind fun n => .bind (.enqueue (by simp) rfl) ?_
      exact fun _ _ _ => .newEvent_bind fun n => .pure ⟨rfl, rfl⟩
  · refine .next (.upd fun _ => rfl) fun _ => .next (.call response_act) fun _ => ?_
    refine .next (reinviteBody_does fun _ => rfl) fun body => .getUA_bind fun ua _ => ?_
    refine .ite (fun _ => ?_) fun _ => .newEvent_bind fun n => ?_
    · exact .next (.sendUasResponse (fun _ => response_act) fun _ => rfl) fun _ => .pure (.inl rfl)
    · refine .bind (queueRemote_does rfl rfl (by simp) (by simp) fun _ => rfl) ?_
      rintro _ _ ⟨es, rfl, hes⟩
      exact goto_does ⟨rfl, .inr (.inr hes)⟩
  · refine .next (.call reply_act) fun _ => .next (getRequestAlso_does fun _ => rfl) fun _ => ?_
    exact .next (.upd fun _ => rfl) fun _ => disconnectFromRequest_does (fun _ => rfl) rfl
  · refine .next (.call reply_act) fun _ => .getUA_bind fun ua _ => .newEvent_bind fun n => ?_
    exact .bind (.enqueue (by simp) rfl) fun _ _ _ => .pure (.inl rfl)
  · exact .next (.call reply_act) fun _ => .pure (.inl rfl)
  · exact .pure (.inl rfl)

theorem connected_recvACK {req : Request} :
    Does (effects .connected (.ack req)) w₀ ns [] (Outcome .connected)
      (UaStateConnected.recvACK req) := by
  refine .getUA_bind fun ua _ => .newEvent_bind fun n => .next (.upd fun _ => rfl) fun _ => ?_
  refine .next (.upd fun _ => rfl) fun _ => .next .startCreditTimer fun _ => ?_
  refine .next (.upd fun _ => rfl) fun _ => .next runConnCbs_does fun _ => ?_
  refine .bind (queueRemote_does rfl rfl (by simp) ?_ fun _ => rfl) fun _ _ _ => .pure (.inl rfl)
  simp [UaState.forgetsR, Option.isSome_iff_ne_none]

theorem leave_does {event : CCEvent} {redirect : Option Text} :
    Does (effects .connected d) w₀ ns [] (Outcome .connected)
      (UaStateConnected.leave event redirect) := by
  have hrest : Does (effects .connected d) w₀ ns [] (Outcome .connected) (do
      cancelCreditTimer
      upd fun ua => { ua with disconnectTs := some event.rtime }
      gotoWith .disconnected .disc event.rtime event.origin) :=
    .next (.upd fun _ => rfl) fun _ => .next (.upd fun _ => rfl) fun _ =>
      gotoWith_does fun c hc => ⟨by rw [hc]; rfl, by simp⟩
  refine .getUA_bind fun ua _ => ?_
  dsimp only
  split
  · refine .step (.genRequest (by simp)) fun req hreq => .next (.call (.inl ?_)) fun _ => hrest
    simp [Act.plain, hreq]
  · exact .next (.sendBYE fun _ => bye_act) fun _ => hrest

theorem refuse_does {event : CCEvent} {scode : ℤ} {reason : Text} {why : Option Text}
    {warning : Option Header} :
    Does (effects .connected d) w₀ ns q (Outcome .connected)
      (UaStateConnected.refuse event scode reason why warning) :=
  .newEvent_bind fun n => .bind (.enqueue (by simp) rfl) fun _ _ _ => .pure (.inl rfl)

theorem recvEventUpdate_does {e : CCEvent} {body : Option Body} {mf : Option ℤ}
    (hk : e.kind = .update body mf) :
    Does (effects .connected (.event e)) w₀ ns [] (Outcome .connected)
      (UaStateConnected.recvEventUpdate e body mf) := by
  have hfinal : e.final = false := by simp [CCEvent.final, hk]
  refine .getUA_bind fun ua hua => ?_
  have hon : ua.onLocal = w₀.ua.onLocal := congrArg Frame.onLocal hua
  split
  · exact .raise fun _ => rfl
  · exact .raise fun _ => rfl
  · refine .ite (fun _ => .newEvent_bind fun n => ?_) fun _ => .ite (fun h => ?_) fun _ => ?_
    · exact .bind (.enqueue (by simp) rfl) fun _ _ _ => .pure (.inl rfl)
    · have hl : w₀.ua.onLocal = true := hon ▸ (Bool.and_eq_true _ _ ▸ h).1
      refine .tryCatch (.next (.discard (.onSdpChange ⟨hfinal, by simp, fun _ => rfl⟩ (by simp)
        (fun _ => hl) fun _ => rfl)) fun _ => .pure (.inl rfl)) fun ex q' _ => ?_
      exact .ite (fun _ => refuse_does) fun _ => .get_bind fun _ => refuse_does
    · refine .ite (fun _ => refuse_does) fun _ => .step (.genRequest (by simp)) fun req _ => ?_
      have hreq : (effects .connected (.event e)).act (.request req) :=
        .inr ⟨e, req, rfl, by rw [hk]; rfl, rfl, rfl⟩
      refine .next (.upd_lSDP (by simp)) fun _ => .next (.newUacTransaction hreq) fun _ => ?_
      exact goto_does ⟨rfl, by simp⟩

theorem connected_recvEvent {e : CCEvent} :
    Does (effects .connected (.event e)) w₀ ns [] (Outcome .connected)
      (UaStateConnected.recvEvent e) := by
  unfold UaStateConnected.recvEvent
  split
  case h_1 => exact leave_does
  case h_2 => exact leave_does
  case h_3 data _ =>
    unfold UaStateConnected.recvEventRedirect
    split
    · exact leave_does
    · refine .getUA_bind fun ua _ => .next (.discard (.weaken (.genRequest (by simp)) ?_)) fun _ => ?_
      · exact fun _ _ h => h.1
      · exact .raise fun _ => rfl
  case h_4 body mf hk => exact recvEventUpdate_does hk
  case h_5 =>
    refine .step (.genRequest (by simp)) fun req hreq => .next (.call (.inl ?_)) fun _ => .pure (.inl rfl)
    simp [Act.plain, hreq]
  case h_6 code reason body hk =>
    have hfinal : e.final = false := by simp [CCEvent.final, hk]
    refine .getUA_bind fun ua _ => .ite (fun _ => .pure (.inl rfl)) fun _ => ?_
    refine .next (.upd fun _ => rfl) fun _ => ?_
    refine .next (delayLocalSdpUpdate_does rfl hfinal fun _ => rfl) fun _ => ?_
    refine .ite (fun _ => .pure (.inl rfl)) fun _ => .next (.upd fun _ => rfl) fun _ => ?_
    refine .next .startCreditTimer fun _ => .next (.upd fun _ => rfl) fun _ => ?_
    refine .next (.upd_lSDP ?_) fun _ => .next (.call (.inl rfl)) fun _ => ?_
    · simp [effects, UaState.forgetsL, hk, Option.isSome_iff_ne_none]
    · exact .next (.upd fun _ => rfl) fun _ => .next runConnCbs_does fun _ => .pure (.inl rfl)
  case h_7 => exact .pure (.inl rfl)

end Connected

theorem handler_does {w₀ : World} (s : UaState) (d : Dispatch) :
    Does (effects s d) w₀ [] [] (Outcome s) (handler s d) := by
  have hnone : Does (effects s d) w₀ [] [] (Outcome s) (pure .none) := .pure (.inr (by simp))
  cases d with
  | event e =>
    cases s with
    | uasTrying => exact uasTrying_recvEvent
    | uasRinging => exact uasRinging_recvEvent
    | uasUpdating => exact uasUpdating_recvEvent
    | uacIdle => exact uacIdle_recvEvent
    | uacTrying => exact uacTrying_recvEvent
    | uacRinging => exact uacRinging_recvEvent
    | uacUpdating => exact uacUpdating_recvEvent
    | connected => exact connected_recvEvent
    | uasIdle | uacCancelling | failed | disconnected | dead => exact hnone
  | request req =>
    cases s with
    | uasIdle => exact uasIdle_recvRequest
    | uasRinging => exact uasRinging_recvRequest
    | uasUpdating => exact uasUpdating_recvRequest
    | uacUpdating => exact uacUpdating_recvRequest
    | connected => exact connected_recvRequest
    | disconnected => exact .next (.call reply_act) fun _ => hnone
    | uasTrying | uacIdle | uacTrying | uacRinging | uacCancelling | failed | dead => exact hnone
  | response resp =>
    cases s with
    | uacTrying => exact uacTrying_recvResponse
    | uacRinging => exact uacRinging_recvResponse
    | uacUpdating => exact uacUpdating_recvResponse
    | uacCancelling => exact uacCancelling_recvResponse
    | uasIdle | uasTrying | uasRinging | uasUpdating | uacIdle | connected | failed | disconnected
    | dead => exact hnone
  | ack req =>
    cases s with
    | connected => exact connected_recvACK
    | uasIdle | uasTrying | uasRinging | uasUpdating | uacIdle | uacTrying | uacRinging | uacUpdating
    | uacCancelling | failed | disconnected | dead => exact .raise fun _ => rfl

end SippyB2bua.Ua
