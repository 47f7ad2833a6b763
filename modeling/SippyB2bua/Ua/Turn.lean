import SippyB2bua.Ua.Tick

/-!
# What a method does to the meter

A method gives a message to the state object, changes the state, or does something of its
own to the user agent. `Turn` tells the state and the meter that it leaves behind, and
`Mach.turns` that every step of a user agent is a turn or leaves both alone.
-/

namespace SippyB2bua.Ua
open Lib (Text Alarm wp wp_mono wp_bind wp_and Ends Keeps)

section Readiness

/-- What the handlers of a state rely on. -/
structure Ready (s : UaState) (ua : UA) : Prop where
  resp : s.progressing ∨ s = .uasUpdating → ua.uasResp.isSome
  tr : s.calling ∨ s = .uacUpdating → ua.tr
  target : s.calling → ua.rTarget.isSome

variable {α β : Type}

theorem Since.next {L : World → β → Meter → Prop} {p : M β} {f : β → M α}
    (h : ∀ w, Reads w w.meter (L w) (fun _ _ => True) p) (hf : ∀ b, Keeps Since (f b)) :
    Keeps Since (p >>= f) :=
  .bind .trans (fun w => wp_mono (h w w (.refl w) rfl) (fun _ _ h => h.1) fun _ _ h => h.1) hf

theorem Since.get {f : World → M α} (hf : ∀ w, Keeps Since (f w)) : Keeps Since (get >>= f) :=
  .bind .trans (fun w => .refl w) hf

theorem Since.getUA {f : UA → M α} (hf : ∀ ua, Keeps Since (f ua)) : Keeps Since (getUA >>= f) :=
  .bind .trans (fun w => .refl w) hf

theorem keeps_since {p : M β} {f : β → M α} (hp : Keeps Since p) (hf : ∀ b, Keeps Since (f b)) :
    Keeps Since (p >>= f) := .bind .trans hp hf

theorem Since.pure (a : α) : Keeps Since (pure a : M α) := fun w => .refl w

/-- A handler that asks for another state has seen to `P`. -/
def Starts (P : UA → Prop) (p : M Ret) : Prop := Ends (fun r w' => ∀ s, r.res = .to s → P w'.ua) p

theorem newUacTransaction_since {req : SentRequest} : Keeps Since (newUacTransaction req) :=
  keeps_since (Since.call _) fun _ w => { Since.refl w with tr := fun _ => rfl }

namespace Starts
variable {P : UA → Prop}

theorem pure {r : Ret} (h : ∀ s, r.res ≠ .to s) : Starts P (pure r) := fun _ s hs => absurd hs (h s)

theorem ite {c : Prop} [Decidable c] {p p' : M Ret} (hp : Starts P p) (hp' : Starts P p') :
    Starts P (if c then p else p') := fun w =>
  (Lib.wp_ite c p p').mpr ⟨fun _ => hp w, fun _ => hp' w⟩

theorem bind {p : M β} {f : β → M Ret} (h : ∀ b, Starts P (f b)) : Starts P (p >>= f) := Ends.bind h

theorem after {p : M β} {f : β → M Ret} (hp : Ends (fun _ w' => P w'.ua) p)
    (hf : ∀ b, Keeps Since (f b)) (hP : ∀ w w', Since w w' → P w.ua → P w'.ua) :
    Starts P (p >>= f) := by
  intro w
  rw [wp_bind]
  refine wp_mono (hp w) (fun b w₁ h₁ => ?_) fun _ _ h => h
  exact wp_mono (hf b w₁) (fun _ w₂ h₂ _ _ => hP w₁ w₂ h₂ h₁) fun _ _ _ => trivial

end Starts

theorem uasIdle_starts {req : Request} :
    Starts (·.uasResp.isSome) (UasStateIdle.recvRequest req) := by
  refine .ite (.pure (by simp [Ret.res])) (.after (fun _ => rfl) (fun _ => ?_) fun _ _ h => h.uasResp)
  refine Since.get fun _ => Since.next (fun _ => .upd_other (fun _ => rfl) fun _ _ => rfl) fun _ => ?_
  refine Since.next (fun _ => .ofLazy fun _ _ => trivial) fun _ => ?_
  refine Since.next (fun _ => .upd_rTarget (fun _ => rfl) fun _ _ => rfl) fun _ => ?_
  refine Since.next (fun _ => .ofLazy fun _ _ => trivial) fun _ => ?_
  refine Since.next (fun _ => .upd_other (fun _ => rfl) fun _ _ => rfl) fun _ => ?_
  refine Since.next (fun _ => followRoutes_reads fun _ => trivial) fun _ => ?_
  refine Since.next (fun _ => .upd_other (fun _ => rfl) fun _ _ => rfl) fun _ => ?_
  refine Since.next (fun _ => .call rfl fun _ => trivial) fun _ => ?_
  refine Since.next (fun _ => .upd_other (fun _ => rfl) fun _ _ => rfl) fun _ => ?_
  refine Since.next (fun _ => .act rfl) fun _ => ?_
  refine Since.next (fun _ => getAuthorization_reads fun _ => trivial) fun _ => ?_
  refine Since.next (fun _ => .upd_other (fun _ => rfl) fun _ _ => rfl) fun _ => ?_
  refine Since.next (fun _ => .newEvent) fun _ => Since.next (fun _ => .armSetupTimers) fun _ => ?_
  refine Since.next (fun _ => .armFirst) fun _ => Since.next (fun _ => .queueRemote fun _ _ => trivial) fun _ => ?_
  exact Since.next (fun _ => .upd (g := fun ν => ν.setup req.rtime) (fun _ => rfl) fun _ _ => rfl) fun _ =>
    Since.pure _

theorem setTarget_aims {cld : Option Text} :
    Ends (fun _ w' => w'.ua.rTarget.isSome) (UacStateIdle.setTarget cld) := by
  refine .bind fun ua => ?_
  split
  · exact fun _ => trivial
  · exact fun _ => rfl

theorem uacIdle_aims {e : CCEvent} {data : Setup} {mf : Option ℤ} :
    Starts (·.rTarget.isSome) (UacStateIdle.setup e data mf) := by
  refine .bind fun _ => .bind fun _ => .ite (.pure (by simp [Ret.res])) ?_
  refine .bind fun _ => .bind fun _ => .bind fun _ => .bind fun _ => ?_
  refine .after setTarget_aims (fun _ => ?_) fun _ _ h => h.rTarget
  refine Since.get fun _ => Since.next (fun _ => .upd_other (fun _ => rfl) fun _ _ => rfl) fun _ => ?_
  refine Since.next (fun _ => .upd_other (fun _ => rfl) fun _ _ => rfl) fun _ => ?_
  refine Since.next (fun _ => .genRequest (by simp)) fun _ => Since.next (fun _ => passAuth_reads) fun _ => ?_
  refine keeps_since newUacTransaction_since fun _ => ?_
  exact Since.next (fun _ => .uacArmSetupTimers) fun _ => Since.pure _

theorem newUacTransaction_starts {req : SentRequest} :
    Ends (fun _ w' => w'.ua.tr) (newUacTransaction req) := .bind fun _ _ => rfl

theorem uacIdle_starts {e : CCEvent} {data : Setup} {mf : Option ℤ} :
    Starts (·.tr) (UacStateIdle.setup e data mf) := by
  refine .bind fun _ => .bind fun _ => .ite (.pure (by simp [Ret.res])) ?_
  refine .bind fun _ => .bind fun _ => .bind fun _ => .bind fun _ => .bind fun _ => .bind fun _ => ?_
  refine .bind fun _ => .bind fun _ => .bind fun _ => .bind fun _ => ?_
  refine .after newUacTransaction_starts (fun _ => ?_) fun _ _ h => h.tr
  exact Since.next (fun _ => .uacArmSetupTimers) fun _ => Since.pure _

theorem reinvite_starts {e : CCEvent} {body : Body} {mf : Option ℤ} :
    Starts (·.tr) (UaStateConnected.reinvite e body mf) := by
  refine .ite (.bind fun _ => .bind fun _ => .pure (by simp [Ret.res])) ?_
  refine .bind fun _ => .bind fun _ => .after newUacTransaction_starts (fun _ => ?_) fun _ _ h => h.tr
  exact Since.pure _

theorem recvRequestInvite_starts {req : Request} :
    Starts (·.uasResp.isSome) (UaStateConnected.recvRequestInvite req) := by
  refine .after (fun _ => rfl) (fun _ => ?_) fun _ _ h => h.uasResp
  refine keeps_since (Since.call _) fun _ => Since.next (fun _ => reinviteBody_reads fun _ => trivial) fun _ => ?_
  refine Since.getUA fun _ w => (Lib.wp_ite _ _ _).mpr ⟨fun _ => ?_, fun _ => ?_⟩
  · exact Since.next (fun _ => .sendUasResponse fun _ _ => trivial) (fun _ => Since.pure _) w
  · refine Since.next (fun _ => .newEvent) (fun _ => ?_) w
    exact Since.next (fun _ => .queueRemote fun _ _ => trivial) fun _ => Since.pure _

theorem Starts.tryCatch {P : UA → Prop} {p : M Ret} {h : Raised → M Ret} (hp : Starts P p)
    (hh : ∀ e, Starts P (h e)) : Starts P (tryCatch p h) := by
  intro w
  rw [Lib.wp_tryCatch]
  exact wp_mono (hp w) (fun _ _ h => h) fun e w' _ => hh e w'

theorem recvEventUpdate_starts {e : CCEvent} {body : Option Body} {mf : Option ℤ} :
    Starts (·.tr) (UaStateConnected.recvEventUpdate e body mf) := by
  have hrefuse {e : CCEvent} {scode : ℤ} {reason : Text} {why : Option Text} {warning : Option Header} :
      Starts (·.tr) (UaStateConnected.refuse e scode reason why warning) :=
    .bind fun _ => .bind fun _ => .pure (by simp [Ret.res])
  refine .bind fun ua => ?_
  split
  · exact fun _ => trivial
  · exact fun _ => trivial
  · refine .ite (.bind fun _ => .bind fun _ => .pure (by simp [Ret.res])) (.ite ?_ reinvite_starts)
    exact .tryCatch (.bind fun _ => .pure (by simp [Ret.res])) fun _ => .ite hrefuse (.bind fun _ => hrefuse)

/-- What a handler has seen to that asks for a state which relies on it. -/
def Started (ua : UA) : UaState → Dispatch → Prop
  | .uasIdle, .request _ => ua.uasResp.isSome
  | .uacIdle, .event e => ∀ data mf, e.kind = .setup data mf → ua.tr ∧ ua.rTarget.isSome
  | .connected, .request req => req.method = .invite → ua.uasResp.isSome
  | .connected, .event e => ∀ b mf, e.kind = .update b mf → ua.tr
  | _, _ => True

theorem handler_started (s : UaState) (d : Dispatch) :
    Ends (fun r w' => ∀ s', r.res = .to s' → Started w'.ua s d) (handler s d) := by
  have hany (h : ∀ ua, Started ua s d) : Ends (fun r w' => ∀ s', r.res = .to s' → Started w'.ua s d)
      (handler s d) := fun w => by
    unfold Lib.wp
    split
    · exact fun _ _ => h _
    · trivial
  cases d with
  | event e =>
    cases s with
    | uacIdle =>
      by_cases hk : ∃ data mf, e.kind = .setup data mf
      · obtain ⟨data, mf, hk⟩ := hk
        have hsetup : handler .uacIdle (.event e) = UacStateIdle.setup e data mf := by
          simp [handler, stateRecvEvent, UacStateIdle.recvEvent, hk]
        rw [hsetup]
        intro w
        exact wp_mono (wp_and (uacIdle_starts w) (uacIdle_aims w))
          (fun _ _ h s' hs' _ _ _ => ⟨h.1 s' hs', h.2 s' hs'⟩) fun _ _ _ => trivial
      · exact hany fun _ data mf h => absurd ⟨data, mf, h⟩ hk
    | connected =>
      by_cases hk : ∃ b mf, e.kind = .update b mf
      · obtain ⟨b, mf, hk⟩ := hk
        have hupdate : handler .connected (.event e) = UaStateConnected.recvEventUpdate e b mf := by
          simp [handler, stateRecvEvent, UaStateConnected.recvEvent, hk]
        rw [hupdate]
        exact fun w => wp_mono (recvEventUpdate_starts w) (fun _ _ h s' hs' _ _ _ => h s' hs')
          fun _ _ _ => trivial
      · exact hany fun _ b mf h => absurd ⟨b, mf, h⟩ hk
    | uasIdle | uasTrying | uasRinging | uasUpdating | uacTrying | uacRinging | uacUpdating
    | uacCancelling | failed | disconnected | dead => exact hany fun _ => trivial
  | request req =>
    cases s with
    | uasIdle => exact uasIdle_starts
    | connected =>
      by_cases hm : req.method = .invite
      · have hinvite : handler .connected (.request req) = UaStateConnected.recvRequestInvite req := by
          simp [handler, stateRecvRequest, UaStateConnected.recvRequest, hm]
        rw [hinvite]
        exact fun w => wp_mono (recvRequestInvite_starts w) (fun _ _ h s' hs' _ => h s' hs')
          fun _ _ _ => trivial
      · exact hany fun _ h => absurd h hm
    | uacIdle | uasTrying | uasRinging | uasUpdating | uacTrying | uacRinging | uacUpdating
    | uacCancelling | failed | disconnected | dead => exact hany fun _ => trivial
  | response resp => exact hany fun _ => by cases s <;> trivial
  | ack req => exact hany fun _ => by cases s <;> trivial

theorem Ready.since {s : UaState} {w w' : World} (h : Ready s w.ua) (hs : Since w w') :
    Ready s w'.ua :=
  ⟨fun hr => hs.uasResp (h.resp hr), fun ht => hs.tr (h.tr ht), fun ht => hs.rTarget (h.target ht)⟩

theorem Ready.of_plain {s : UaState} {ua : UA} (h : s = .connected ∨ s.terminated) : Ready s ua := by
  constructor <;> cases s <;> simp_all [UaState.progressing, UaState.calling, UaState.terminated]

theorem Tick.ready {w w' : World} {s s' : UaState} {d : Dispatch} {μ : Meter}
    (h : Tick w s d (.to s') μ) (hs : Ready s w.ua) (hw : Since w w') (hd : Started w'.ua s d) :
    Ready s' w'.ua := by
  cases h with
  | updates hm => exact ⟨fun _ => hd hm, by simp [UaState.calling], by simp [UaState.calling]⟩
  | reinvites hk =>
    exact ⟨by simp [UaState.progressing], fun _ => hd _ _ hk, by simp [UaState.calling]⟩
  | trying => exact ⟨fun _ => hd, by simp [UaState.calling], by simp [UaState.calling]⟩
  | rings =>
    have htrying := hs.since hw
    exact ⟨fun _ => htrying.resp (.inl rfl), by simp [UaState.calling], by simp [UaState.calling]⟩
  | invites hk =>
    have := hd _ _ hk
    exact ⟨by simp [UaState.progressing], fun _ => this.1, fun _ => this.2⟩
  | provisional hcalling _ hr =>
    obtain rfl : s' = .uacRinging := by simpa [Res.keeps] using hr
    have hcalled := hs.since hw
    exact ⟨by simp [UaState.progressing], fun _ => hcalled.tr (.inl hcalling),
      fun _ => hcalled.target hcalling⟩
  | refuses _ _ hs' => exact .of_plain (.inr (by rcases hs' with rfl | rfl <;> rfl))
  | idle hr => simp [Res.keeps] at hr
  | acks hr => simp [Res.keeps] at hr
  | waits hr => simp [Res.keeps] at hr
  | accepts hr => simp [Res.keeps] at hr
  | sets hr => simp [Res.keeps] at hr
  | updated | answers | preAnswers | answered | late => exact .of_plain (.inl rfl)
  | stopped | hungUp | hangsUp | failsUpdate | drops | unheard | untagged | spoiled | rejected | cancels
  | cancelsRinging | tooLate | gone => exact .of_plain (.inr rfl)

theorem handler_spec {w : World} {s : UaState} (d : Dispatch) (hs : Ready s w.ua) :
    wp (handler s d)
      (fun r w' => Since w w' ∧ Tick w s d r.res w'.meter ∧ ∀ s', r.res = .to s' → Ready s' w'.ua)
      (fun e w' => Since w w' ∧ Tick w s d (.raised e) w'.meter) w := by
  refine wp_mono (wp_and (handler_ticks w s d w (.refl w) rfl) (handler_started s d w)) ?_ fun _ _ h => h.1
  rintro r w' ⟨⟨hw, ht⟩, hd⟩
  exact ⟨hw, ht, fun s' hs' => Tick.ready (hs' ▸ ht) hs hw (hd s' hs')⟩

end Readiness

namespace Meter

def leave (μ : Meter) (s : Option UaState) : Meter :=
  if s = some .connected then { μ.expireOff with kaTr := false, pendingTr := false } else μ

/-- The meter once a state object was made. -/
def enter (μ : Meter) : UaState → Meter
  | .connected => { μ with kaTr := false }
  | .dead => { μ with
      expireTimer := μ.expireTimer.drop, noProgressTimer := μ.noProgressTimer.drop
      creditTimer := μ.creditTimer.drop }
  | _ => μ

end Meter

/-- How a change of state ends that was asked for with the meter `ν`. -/
inductive Shift (w : World) (s : Option UaState) (ν : Meter) (s' : UaState) :
    Option UaState → Meter → Prop
  | done : Shift w s ν s' (some s') ((ν.leave s).enter s')
  | stuck (p : Bool) (hs : s = some .connected) (hw : ¬ w.Calm) (hν : ν.kaTr ∨ ν.pendingTr) :
      Shift w s ν s' s { ν with kaTr := p }
  | unburied (hs' : s' = .dead) (hw : ¬ w.Calm) : Shift w s ν s' s ((ν.leave s).enter .dead)

/-- What holds of every user agent that runs. -/
structure UA.Sound (ua : UA) : Prop where
  ready : ∀ s ∈ ua.state, Ready s ua
  ends : 0 < ua.goDeads ∨ ua.te → ua.isOver

section Shifting
variable {w₀ w : World}

theorem UA.Sound.since (h : w₀.ua.Sound) (hw : Since w₀ w) : w.ua.Sound where
  ready s hs := (h.ready s (hw.state ▸ hs)).since hw
  ends hends := by
    have hover : w.ua.isOver = w₀.ua.isOver := by simp [UA.isOver, hw.state]
    rw [hover]
    exact h.ends (hends.imp (fun h => hw.goDeads ▸ h) hw.te)

/-- The state that is left need not come to an end when a call raises. -/
theorem leaveState_shift :
    wp leaveState (fun _ w' => Since w w' ∧ w'.meter = w.meter.leave w.ua.state)
      (fun _ w' => Since w w' ∧ w.ua.state = some .connected ∧ ¬ w.Calm ∧
        (w.meter.kaTr ∨ w.meter.pendingTr) ∧ ∃ p, w'.meter = { w.meter with kaTr := p }) w := by
  unfold leaveState
  rw [wp_bind, wp_getUA, Lib.wp_ite]
  refine ⟨fun hs => ?_, fun hs => ⟨.refl w, by simp [Meter.leave, hs]⟩⟩
  have hreads : Reads w w.meter (fun _ μ => μ = w.meter.leave w.ua.state)
      (fun _ μ => ¬ w.Calm ∧ (w.meter.kaTr ∨ w.meter.pendingTr) ∧ ∃ p, μ = { w.meter with kaTr := p })
      UaStateConnected.onStateChange := by
    refine .next (ν := { w.meter with kaTr := false }) ?_ fun _ => ?_
    · refine .getUA_bind fun w' _ hμ => .ite (fun h => ?_) fun h => .pure ?_
      · have hka : w.meter.kaTr = true := hμ ▸ h
        refine .next (.call rfl fun hw => ⟨hw, .inl hka, _, rfl⟩) fun _ => ?_
        exact .upd (g := fun ν => { ν with kaTr := false }) (fun _ => rfl) fun _ _ => rfl
      · have hka : w.meter.kaTr = false := by simpa using (hμ ▸ h : ¬ w.meter.kaTr = true)
        rw [← hka]
    refine .next (ν := { w.meter with kaTr := false, pendingTr := false }) ?_ fun _ => ?_
    · refine .getUA_bind fun w' _ hμ => .ite (fun h => ?_) fun h => .pure ?_
      · have hp : w.meter.pendingTr = true := (congrArg Meter.pendingTr hμ :) ▸ h
        refine .next (.call rfl fun hw => ⟨hw, .inr hp, _, rfl⟩) fun _ => ?_
        exact .upd (g := fun ν => { ν with pendingTr := false }) (fun _ => rfl) fun _ _ => rfl
      · have hp : w.meter.pendingTr = false := by
          simpa using ((congrArg Meter.pendingTr hμ :) ▸ h : ¬ w.meter.pendingTr = true)
        rw [← hp]
    refine .weaken .cancelExpireTimer ?_ fun _ _ h => h
    rintro _ _ rfl
    simp [Meter.leave, hs, Meter.expireOff]
  exact wp_mono (hreads w (.refl w) rfl) (fun _ _ h => h) fun _ _ h => ⟨h.1, hs, h.2⟩

/-- What the constructor of a state class leaves alone. -/
structure Built (s' : UaState) (w w' : World) : Prop where
  state : w'.ua.state = w.ua.state
  resp : w'.ua.uasResp = w.ua.uasResp
  target : w'.ua.rTarget = w.ua.rTarget
  cancelCb : w'.ua.cancelCb = w.ua.cancelCb
  tr : s' ≠ .dead → w'.ua.tr = w.ua.tr
  deadCbs : s' ≠ .dead → w'.ua.deadCbs = w.ua.deadCbs
  ends : s'.terminated = false ∨ s' = .dead → w'.ua.goDeads = w.ua.goDeads ∧ w'.ua.te = w.ua.te

theorem construct_shift {s' : UaState} :
    wp (construct s')
      (fun _ w' => Built s' w w' ∧ w'.meter = w.meter.enter s' ∧ (s' = .dead → w'.ua.deadCbs = false))
      (fun _ w' => Built s' w w' ∧ w'.meter = w.meter.enter .dead ∧ s' = .dead ∧ ¬ w.Calm ∧
        w'.ua.deadCbs = w.ua.deadCbs) w := by
  cases s' with
  | dead =>
    have hburied {v : World}
        (hua : v.ua = w.ua.buried ∨ v.ua = { w.ua.buried with deadCbs := false })
        (hlog : v.log.countP Act.hangsUp = w.log.countP Act.hangsUp) :
        Built .dead w v ∧ v.meter = w.meter.enter .dead := by
      refine ⟨by constructor <;> rcases hua with h | h <;> simp [h, UA.buried], ?_⟩
      unfold World.meter
      rw [hlog]
      rcases hua with h | h <;> rw [h] <;> rfl
    simp only [construct, unregister, runDeadCbs, wp_bind, wp_getUA, Lib.wp_ite, wp_act, wp_upd, Lib.wp_pure,
      wp_call]
    refine ⟨fun _ => ⟨fun _ => ?_, fun _ => ?_⟩, fun _ => ⟨fun _ => ?_, fun _ => ?_⟩⟩
    · split
      · obtain ⟨hb, hm⟩ := hburied (v := ⟨_, w.seq, _, w.log ++ [.unregConsumer]⟩) (.inl rfl)
          (by simp [Act.hangsUp])
        exact ⟨hb, hm, trivial, (Since.refl w).faulty ‹_›, rfl⟩
      · exact and_assoc.mp ⟨hburied (.inr rfl) (by simp [Act.hangsUp]), fun _ => trivial⟩
    · exact and_assoc.mp ⟨hburied (.inr rfl) (by simp [Act.hangsUp]), fun _ => trivial⟩
    · split
      · obtain ⟨hb, hm⟩ := hburied (v := ⟨_, w.seq, _, w.log⟩) (.inl rfl) rfl
        exact ⟨hb, hm, trivial, (Since.refl w).faulty ‹_›, rfl⟩
      · exact and_assoc.mp ⟨hburied (.inr rfl) (by simp [Act.hangsUp]), fun _ => trivial⟩
    · exact and_assoc.mp ⟨hburied (.inr rfl) rfl, fun _ => trivial⟩
  | connected | failed | disconnected | uacCancelling | uasIdle | uasTrying | uasRinging | uasUpdating
  | uacIdle | uacTrying | uacRinging | uacUpdating =>
    exact ⟨by constructor <;> simp [UaState.terminated], rfl, by simp⟩

/-- Death leaves a user agent with nothing that its old state could not have, but for `dead_cbs`,
which are called then and at no other time. -/
structure Buries (ua ua' : UA) : Prop where
  sound : ua'.state = some .dead → UA.Sound { ua' with state := ua.state }
  called : ua'.deadCbs = ua.deadCbs ∨ ua'.deadCbs = false ∧ ua'.state = some .dead
  dead : ua'.state = some .dead → ua'.deadCbs = false ∨ ua'.state = ua.state

theorem Buries.of_state {ua ua' : UA} (h : ua'.state = ua.state) (hsound : ua'.Sound)
    (hcbs : ua'.deadCbs = ua.deadCbs) : Buries ua ua' :=
  ⟨fun _ => h ▸ hsound, .inl hcbs, fun _ => .inr h⟩

/-- How a change of state leaves a user agent behind. -/
structure Shifted (w₀ w : World) (s' : UaState) (w' : World) : Prop where
  shift : Shift w₀ w.ua.state w.meter s' w'.ua.state w'.meter
  sound : w'.ua.Sound
  cancelCb : w'.ua.cancelCb = some .updating → w.ua.cancelCb = some .updating
  buries : Buries w.ua w'.ua

theorem changeState_shift {c : Change} (hw : w₀.Calm → w.Calm) (hsound : w.ua.Sound)
    (hready : Ready c.state w.ua) (hover : w.ua.isOver → c.state.terminated)
    (hdead : c.state = .dead → ∀ s ∈ w.ua.state, ∀ ua, Ready s ua) :
    wp (changeState c) (fun _ => Shifted w₀ w c.state) (fun _ => Shifted w₀ w c.state) w := by
  have hloud (h : ¬ w.Calm) : ¬ w₀.Calm := h ∘ hw
  unfold changeState
  rw [wp_bind]
  refine wp_mono leaveState_shift (fun _ w₁ ⟨h₁, hμ₁⟩ => ?_) fun _ w₁ ⟨h₁, hs, hcalm, hν, p, hμ₁⟩ => ?_
  · have hends {w₂ : World} (h₂ : Built c.state w₁ w₂) (hc : c.state.terminated = false ∨ c.state = .dead)
        (h : 0 < w₂.ua.goDeads ∨ w₂.ua.te) : w.ua.isOver := by
      obtain ⟨hg, ht⟩ := h₂.ends hc
      exact hsound.ends (h.imp (fun h => h₁.goDeads ▸ hg ▸ h) fun h => h₁.te (ht ▸ h))
    rw [wp_bind]
    refine wp_mono construct_shift (fun _ w₂ ⟨h₂, hμ₂, hcalled⟩ => ?_) fun _ w₂ ⟨h₂, hμ₂, hd, hcalm, hcbs⟩ => ?_
    · have hinstalled {w' : World}
          (hua : w'.ua = { w₂.ua with state := some c.state, stateNo := w₂.ua.stateNo + 1 })
          (hlog : w'.log.countP Act.hangsUp = w₂.log.countP Act.hangsUp) : Shifted w₀ w c.state w' := by
        have hmeter : w'.meter = (w.meter.leave w.ua.state).enter c.state := by
          rw [← hμ₁, ← hμ₂]
          unfold World.meter
          rw [hlog, hua]
          rfl
        refine ⟨?_, ⟨?_, ?_⟩, ?_, ?_⟩
        · rw [hmeter, hua]
          exact .done
        · rw [hua]
          rintro s ⟨⟩
          refine ⟨fun h => ?_, fun h => ?_, fun h => ?_⟩
          · exact h₂.resp ▸ h₁.uasResp (hready.resp h)
          · have hne : c.state ≠ .dead := by rintro hd; simp [hd, UaState.calling] at h
            exact h₂.tr hne ▸ h₁.tr (hready.tr h)
          · exact h₂.target ▸ h₁.rTarget (hready.target h)
        · intro h
          have hnew : w'.ua.isOver = c.state.terminated := by simp [UA.isOver, hua]
          rw [hnew]
          refine Bool.eq_true_of_not_eq_false fun hlive => ?_
          have hover' : w.ua.isOver := hends h₂ (.inl hlive) (by simpa [hua] using h)
          simp [hover hover'] at hlive
        · rw [hua]
          exact fun h => h₁.cancelCb (h₂.cancelCb ▸ h)
        · have hcbs : w'.ua.deadCbs = w₂.ua.deadCbs := by rw [hua]
          have hstate : w'.ua.state = some c.state := by rw [hua]
          refine ⟨fun hd => ?_, ?_, fun hd => .inl (hcbs.trans (hcalled (Option.some.inj (hstate.symm.trans hd))))⟩
          · replace hd : c.state = .dead := Option.some.inj (hstate.symm.trans hd)
            refine ⟨fun s hs => hdead hd s hs _, fun h => hends h₂ (.inr hd) ?_⟩
            simpa [hua] using h
          · by_cases hd : c.state = .dead
            · exact .inr ⟨hcbs.trans (hcalled hd), hd ▸ hstate⟩
            · exact .inl (hcbs.trans ((h₂.deadCbs hd).trans h₁.deadCbs))
      rw [wp_bind, wp_upd]
      cases c.callback with
      | none => exact hinstalled rfl rfl
      | some cb =>
        rw [wp_call]
        split
        · exact hinstalled rfl rfl
        · exact hinstalled rfl (by simp [Act.hangsUp])
    · have hsound₂ : w₂.ua.Sound := by
        refine ⟨?_, fun h => ?_⟩
        · rw [h₂.state, h₁.state]
          exact fun s hs => hdead hd s hs _
        · have hsame : w₂.ua.isOver = w.ua.isOver := by simp [UA.isOver, h₂.state, h₁.state]
          exact hsame ▸ hends h₂ (.inr hd) h
      refine ⟨?_, hsound₂, fun h => h₁.cancelCb (h₂.cancelCb ▸ h),
        .of_state (h₂.state.trans h₁.state) hsound₂ (hcbs.trans h₁.deadCbs)⟩
      rw [hμ₂, hμ₁, h₂.state, h₁.state]
      exact .unburied hd (hloud fun h => hcalm (h₁.calm h))
  · refine ⟨?_, hsound.since h₁, h₁.cancelCb, .of_state h₁.state (hsound.since h₁) h₁.deadCbs⟩
    rw [hμ₁, h₁.state]
    exact .stuck p hs (hloud hcalm) hν

end Shifting

/-- The methods that give the state object a Disconnect, with the time that it carries and
the meter that it finds. -/
def Input.ending (μ : Meter) : Input → Option (Option Time × Meter)
  | .disconnect rtime _ => some (rtime, μ)
  | .noack => some (none, μ)
  | .keepAliveResp _ _ => some (none, { μ with kaTr := false })
  | .timeout (.expire d) => some (none, { μ with expireTimer := μ.expireTimer.fire d })
  | .timeout (.noProgress d) => some (none, { μ with noProgressTimer := μ.noProgressTimer.fire d })
  | .timeout (.noReply d) => some (none, { μ with noReplyTimer := μ.noReplyTimer.fire d })
  | .timeout (.credit d) => some (some d, { μ with creditTimer := μ.creditTimer.fire d })
  | .timeout .kaDisconnect => some (none, μ)
  | _ => none

def UA.stale (ua : UA) (req : Request) : Prop := ua.rCSeq.isSome ∧ req.cseq ≤ ua.rCSeq.getD 0

instance (ua : UA) (req : Request) : Decidable (ua.stale req) := inferInstanceAs (Decidable (_ ∧ _))

/-- What a method gives the state object, which finds the meter `μ`. -/
inductive Given (w : World) : Input → Dispatch → Meter → Prop
  | request {req : Request} (hnew : ¬ w.ua.stale req) : Given w (.request req) (.request req) w.meter
  | response {resp : Response} {hs : List Header} (hno : w.ua.answers resp = false) :
      Given w (.response resp hs) (.response resp) w.meter
  | event {e : CCEvent} : Given w (.event e) (.event e) w.meter
  | ack {req : Request} : Given w (.ack req) (.ack req) w.meter
  | updated {p : Pending} {body : Body} (hr : p.remote = false) :
      Given w (.sdpUpdated p body) (.event (p.event.withBody body)) w.meter
  | ending {i : Input} {rtime : Option Time} {μ : Meter} {o : Option Origin} {n : ℕ}
      (h : i.ending w.meter = some (rtime, μ)) :
      Given w i (.event ⟨.disconnect none, rtime.getD w.io.now, o, n, none⟩) μ

def Input.rests : Input → Bool
  | .noack | .disconnect _ _ | .resetCreditTime _ _ => false
  | .timeout (.keepAlive _) => true
  | .timeout _ => false
  | _ => true

def Input.probes : Input → Bool
  | .keepAliveResp _ _ | .timeout (.keepAlive _) => true
  | _ => false

/-- `resetCreditTime`. -/
def Meter.extend (μ : Meter) (times : List (ℕ × Option Time)) : Meter :=
  { μ with creditTimes := times.foldl (fun ts t => putCreditTime ts t.1 t.2) μ.creditTimes }

def Meter.reset (μ : Meter) (s : Option UaState) (rtime : Time) (times : List (ℕ × Option Time)) :
    Meter :=
  if s.any UaState.isConnected then ((μ.extend times).creditOff).start rtime else μ.extend times

def World.at (w : World) (s : Option UaState) : World := { w with ua := { w.ua with state := s } }

/-- The state and the meter that a method leaves behind. -/
inductive Turn (w : World) : Input → Option UaState → Meter → Prop
  | rests {i : Input} (hi : i.rests) : Turn w i w.ua.state w.meter
  | handled {i : Input} {d : Dispatch} {s : UaState} {w₁ : World} {r : Res} {ν : Meter}
      (hg : Given w i d w₁.meter) (hs : s ∈ w.ua.receiver d) (hw : Since (w.at (some s)) w₁)
      (ht : Tick w₁ s d r ν) (hr : r.keeps) : Turn w i (some s) ν
  | shifted {i : Input} {d : Dispatch} {s s' : UaState} {w₁ : World} {ν ν' : Meter}
      {st : Option UaState} (hg : Given w i d w₁.meter) (hs : s ∈ w.ua.receiver d)
      (hw : Since (w.at (some s)) w₁) (ht : Tick w₁ s d (.to s') ν)
      (h : Shift w₁ (some s) ν s' st ν') : Turn w i st ν'
  | cancelled {rtime : Time} {reason : Option Text} {st : Option UaState} {ν : Meter}
      (hcb : w.ua.cancelCb = some .progressing)
      (h : Shift w w.ua.state (w.meter.disconnect rtime) .disconnected st ν) :
      Turn w (.cancel rtime reason) st ν
  | unupdated {rtime : Time} {reason : Option Text} {st : Option UaState} {ν : Meter}
      (hcb : w.ua.cancelCb = some .updating)
      (h : Shift w w.ua.state (w.meter.hangUp.creditOff.disconnect rtime) .disconnected st ν) :
      Turn w (.cancel rtime reason) st ν
  | resets {rtime : Time} {times : List (ℕ × Option Time)} :
      Turn w (.resetCreditTime rtime times) w.ua.state (w.meter.reset w.ua.state rtime times)
  | probes {i : Input} {b : Bool} (hi : i.probes) : Turn w i w.ua.state { w.meter with kaTr := b }
  | dies {t : TimerId} {st : Option UaState} {ν : Meter} (ht : t = .goDead ∨ t = .goIdle)
      (h : Shift w w.ua.state w.meter .dead st ν) : Turn w (.timeout t) st ν
  | refers : Turn w .referResp w.ua.state w.meter.hangUp

/-- How a method leaves a user agent behind. -/
structure Turned (w : World) (i : Input) (w' : World) : Prop where
  turn : Turn w i w'.ua.state w'.meter
  sound : w'.ua.Sound
  cancelCb : w'.ua.cancelCb = some .updating → w.ua.cancelCb = some .updating
  buries : Buries w.ua w'.ua

theorem Tick.over {w : World} {s s' : UaState} {d : Dispatch} {μ : Meter}
    (h : Tick w s d (.to s') μ) (hs : s.terminated) : s'.terminated := by
  cases h with
  | tooLate | gone => rfl
  | idle hr | acks hr | waits hr | accepts hr | sets hr => simp [Res.keeps] at hr
  | updated h => rcases h with rfl | rfl <;> cases hs
  | hungUp h | hangsUp h => cases s <;> simp_all [UaState.isConnected, UaState.terminated]
  | answers h | preAnswers h | refuses h => cases s <;> simp_all [UaState.progressing, UaState.terminated]
  | provisional h | unheard h | untagged h | answered h | late h | spoiled h | rejected h =>
    cases s <;> simp_all [UaState.calling, UaState.terminated]
  | updates | reinvites | trying | rings | stopped | failsUpdate | invites | drops | cancels
  | cancelsRinging => cases hs

theorem Tick.dead {w : World} {s : UaState} {d : Dispatch} {μ : Meter}
    (h : Tick w s d (.to .dead) μ) (ua : UA) : Ready s ua := by
  cases h with
  | drops => constructor <;> simp [UaState.progressing, UaState.calling]
  | gone => exact .of_plain (.inr rfl)
  | idle hr | acks hr | waits hr | accepts hr | sets hr => simp [Res.keeps] at hr
  | refuses _ _ h => simp at h
  | provisional _ _ h => simp [Res.keeps] at h

/-- The state object that is given a message is the one there is, if it is not a new one. -/
theorem receiver_eq {ua : UA} {d : Dispatch} {s : UaState} (hs : s ∈ ua.receiver d) :
    ua.state = some s ∨ ua.state = none ∧ (s = .uasIdle ∨ s = .uacIdle) := by
  unfold UA.receiver at hs
  cases hstate : ua.state with
  | some s' => exact .inl (by simpa [hstate] using hs)
  | none =>
    refine .inr ⟨rfl, ?_⟩
    rw [hstate, Option.none_or] at hs
    split at hs
    · split at hs <;> simp_all
    · split at hs <;> simp_all
    · cases hs

section Turning
variable {w w₁ : World} {i : Input} {d : Dispatch} {s : UaState}

theorem Buries.woken {ua ua₁ ua₂ : UA} (hs : s ∈ ua.receiver d) (hstate : ua₁.state = some s)
    (hcbs : ua₁.deadCbs = ua.deadCbs) (h : Buries ua₁ ua₂) : Buries ua ua₂ := by
  refine ⟨fun hd => ?_, hcbs ▸ h.called, fun hd => ?_⟩
  · have hsound := h.sound hd
    rcases receiver_eq hs with hua | ⟨hua, hidle⟩
    · rw [hua, ← hstate]
      exact hsound
    · refine ⟨by simp [hua], fun hends => ?_⟩
      have hover := hsound.ends hends
      rcases hidle with rfl | rfl <;> simp [UA.isOver, hstate, UaState.terminated] at hover
  · rcases h.dead hd with hno | hsame
    · exact .inl hno
    · obtain rfl : s = .dead := Option.some.inj (hstate.symm.trans (hsame.symm.trans hd))
      rcases receiver_eq hs with hua | ⟨-, hidle⟩
      · exact .inr (hd.trans hua.symm)
      · simp at hidle

theorem finish_turned {k : Ret → List Todo} (hg : Given w i d w₁.meter) (hs : s ∈ w.ua.receiver d)
    (hw : Since (w.at (some s)) w₁) (hsound : w₁.ua.Sound) :
    wp (handler s d >>= fun ret => finish ret (k ret)) (fun _ => Turned w i)
      (fun _ => Turned w i) w₁ := by
  have hstate : w₁.ua.state = some s := hw.state
  have hkept {r : Res} {w₂ : World} (h : Since w₁ w₂) (ht : Tick w₁ s d r w₂.meter) (hr : r.keeps) :
      Turned w i w₂ := by
    refine ⟨?_, hsound.since h, fun hcb => hw.cancelCb (h.cancelCb hcb), ?_⟩
    · rw [h.state, hstate]
      exact .handled hg hs hw ht hr
    · exact .woken hs hstate hw.deadCbs (.of_state h.state (hsound.since h) h.deadCbs)
  rw [wp_bind]
  refine wp_mono (handler_spec d (hsound.ready s hstate)) (fun ret w₂ ⟨h, ht, hready⟩ => ?_)
    fun _ w₂ ⟨h, ht⟩ => hkept h ht rfl
  cases ret with
  | none => exact hkept h ht rfl
  | inject e => exact hkept h ht rfl
  | code c => exact hkept h ht rfl
  | scode c => exact hkept h ht rfl
  | change c =>
    have hstate₂ : w₂.ua.state = some s := h.state.trans hstate
    refine (wp_bind _ _).mpr (wp_mono (@changeState_shift w₁ w₂ c h.calm (hsound.since h) (hready _ rfl) ?_ ?_)
      (fun _ w₃ hc => ?_) fun _ w₃ hc => ?_)
    · intro hover
      exact ht.over (by simpa [UA.isOver, hstate₂] using hover)
    · intro hd s' hs' ua
      obtain rfl : s = s' := Option.some.inj (hstate₂.symm.trans hs')
      have ht : Tick w₁ s d (.to c.state) w₂.meter := ht
      exact Tick.dead (hd ▸ ht) ua
    · exact ⟨.shifted hg hs hw ht (hstate₂ ▸ hc.shift), hc.sound,
        fun hcb => hw.cancelCb (h.cancelCb (hc.cancelCb hcb)), .woken hs hstate₂ (h.deadCbs.trans hw.deadCbs) hc.buries⟩
    · exact ⟨.shifted hg hs hw ht (hstate₂ ▸ hc.shift), hc.sound,
        fun hcb => hw.cancelCb (h.cancelCb (hc.cancelCb hcb)), .woken hs hstate₂ (h.deadCbs.trans hw.deadCbs) hc.buries⟩

theorem changeState_first {s₀ : UaState} (hs₀ : s₀ = .uasIdle ∨ s₀ = .uacIdle) (hnone : w₁.ua.state = none) :
    wp (changeState ⟨s₀, none⟩)
      (fun _ w₂ => w₂ = { w₁ with ua := { w₁.ua with state := some s₀, stateNo := w₁.ua.stateNo + 1 } })
      (fun _ _ => False) w₁ := by
  rcases hs₀ with rfl | rfl <;> simp [changeState, leaveState, construct, hnone]

theorem wake_turned {b : Bool} {s₀ : UaState} (hs₀ : s₀ = .uasIdle ∨ s₀ = .uacIdle)
    (hsound : w₁.ua.Sound) :
    wp (UA.wake b s₀) (fun _ w₂ => w₂.ua.Sound ∧ w₂.meter = w₁.meter ∧
      w₂.ua.state = w₁.ua.state.or (if b then some s₀ else none) ∧ Since (w₁.at w₂.ua.state) w₂)
      (fun _ _ => False) w₁ := by
  unfold UA.wake
  rw [wp_bind, wp_getUA, Lib.wp_ite]
  refine ⟨fun ⟨hnone, hb⟩ => ?_, fun h => ⟨hsound, rfl, ?_, .refl w₁⟩⟩
  · have hends (h : 0 < w₁.ua.goDeads ∨ w₁.ua.te) : False := by
      simpa [UA.isOver, hnone] using hsound.ends h
    have hready : ∀ ua, Ready s₀ ua := fun ua => by
      constructor <;> rcases hs₀ with rfl | rfl <;> simp [UaState.progressing, UaState.calling]
    refine wp_mono (changeState_first hs₀ hnone) ?_ fun _ _ h => h
    rintro _ _ rfl
    refine ⟨⟨?_, fun h => absurd h hends⟩, rfl, by simp [hnone, hb], (Since.refl (w₁.at (some s₀))).of_rest rfl⟩
    rintro s ⟨⟩
    exact hready _
  · cases hs : w₁.ua.state <;> simp_all

theorem Since.at (h : Since w w₁) (st : Option UaState) : Since (w.at st) (w₁.at st) :=
  { h with state := rfl }

theorem rests_turned (hi : i.rests) (hw : Since w w₁) (hsound : w₁.ua.Sound)
    (hμ : w₁.meter = w.meter) : Turned w i w₁ := by
  refine ⟨?_, hsound, hw.cancelCb, .of_state hw.state hsound hw.deadCbs⟩
  rw [hw.state, hμ]
  exact .rests hi

theorem woken_turned {b : Bool} {s₀ : UaState} {k : Ret → List Todo}
    (hs₀ : s₀ = .uasIdle ∨ s₀ = .uacIdle) (hg : Given w i d w₁.meter)
    (hd : ∀ ua : UA, ua.receiver d = ua.state.or (if b then some s₀ else none))
    (hrests : w.ua.receiver d = none → i.rests ∧ w₁.meter = w.meter)
    (hw : Since w w₁) (hsound : w₁.ua.Sound) {f : UA → M (List Todo)}
    (hnone : ∀ ua, ua.state = none → f ua = pure [])
    (hsome : ∀ ua s, ua.state = some s → f ua = handler s d >>= fun ret => finish ret (k ret)) :
    wp (do UA.wake b s₀; f (← getUA)) (fun _ => Turned w i) (fun _ => Turned w i) w₁ := by
  rw [wp_bind]
  refine wp_mono (wake_turned hs₀ hsound) (fun _ w₂ ⟨hsound₂, hμ₂, hstate, hw₂⟩ => ?_)
    fun _ _ h => h.elim
  rw [wp_bind, wp_getUA]
  have hreceiver : w₂.ua.state = w.ua.receiver d := by rw [hstate, hw.state, hd]
  have hsince : Since (w.at w₂.ua.state) w₂ := (hw.at _).trans hw₂
  cases hs : w₂.ua.state with
  | none =>
    rw [hnone _ hs]
    obtain ⟨hi, hμ⟩ := hrests (hreceiver ▸ hs)
    have hidle : w.ua.state = none := by
      have hor := hreceiver.symm.trans hs
      rw [hd, Option.or_eq_none_iff] at hor
      exact hor.1
    refine rests_turned hi ?_ hsound₂ (hμ₂.trans hμ)
    rw [hs, ← hidle] at hsince
    exact hsince
  | some s =>
    rw [hsome _ s hs]
    exact finish_turned (hμ₂ ▸ hg) (hreceiver ▸ hs) (hs ▸ hsince) hsound₂

theorem recvEvent_turned {e : CCEvent} (hg : Given w i (.event e) w₁.meter)
    (hrests : w.ua.receiver (.event e) = none → i.rests ∧ w₁.meter = w.meter)
    (hw : Since w w₁) (hsound : w₁.ua.Sound) :
    wp (UA.recvEvent e) (fun _ => Turned w i) (fun _ => Turned w i) w₁ :=
  woken_turned (k := fun _ => [.emitPending]) (.inr rfl) hg (fun _ => rfl) hrests hw hsound
    (fun ua h => by simp [h]) fun ua s h => by simp [h, handler]

theorem recvRequest_turned {req : Request} (hsound : w.ua.Sound) :
    wp (UA.recvRequest req) (fun _ => Turned w (.request req)) (fun _ => Turned w (.request req)) w := by
  unfold UA.recvRequest
  rw [wp_bind, wp_getUA, Lib.wp_ite]
  refine ⟨fun _ => ?_, fun hnew => ?_⟩
  · have hact : Since w { w with log := w.log ++ [.reply req.method 500] } := (Since.refl w).of_rest rfl
    exact rests_turned rfl hact (hsound.since hact) (by simp [World.meter, Act.hangsUp])
  · rw [wp_bind, wp_upd]
    have hupd : Since w { w with ua := { w.ua with rCSeq := some req.cseq } } := (Since.refl w).of_rest rfl
    have hg : Given w (.request req) (.request req)
      (World.meter { w with ua := { w.ua with rCSeq := some req.cseq } }) := .request hnew
    refine woken_turned (b := decide (req.method = .invite)) (k := fun ret =>
      if ret.changes && req.method = .invite then [.emitPending, .accepted] else [.emitPending])
      (.inl rfl) hg (fun ua => ?_) (fun _ => ⟨rfl, rfl⟩) hupd (hsound.since hupd) (fun ua h => ?_)
      fun ua s h => ?_
    · simp [UA.receiver]
    · simp [h]
    · simp [h, handler]

theorem challenged_reads {resp : Response} {hs : List Header} :
    Reads w w.meter (fun _ μ => μ = w.meter) (fun _ μ => μ = w.meter) (UA.challenged resp hs) := by
  have hprocess {cs : List (Lazy Challenge)} {name : Text} {sent : SentRequest} :
      Reads w w.meter (fun _ μ => μ = w.meter) (fun _ μ => μ = w.meter)
        (UA.processChallenge cs resp.cseq name sent hs) := by
    refine .getUA_bind fun _ _ _ => .ite (fun _ => .pure rfl) fun _ => ?_
    refine .step (.ofLazy fun _ _ => rfl) fun cs _ => ?_
    split
    · exact .pure rfl
    · refine .step (.genRequest (by simp)) fun req hreq => .next (.newUacTransaction hreq fun _ => rfl) fun _ => ?_
      exact .next (.upd_other (fun _ => rfl) fun _ _ => rfl) fun _ => .pure rfl
  refine .getUA_bind fun ua _ _ => ?_
  split
  · exact .pure rfl
  · refine .ite (fun _ => .ite (fun _ => hprocess) fun _ => .ite (fun _ => hprocess) fun _ => .pure rfl)
      fun _ => .pure rfl

theorem challenged_answers {resp : Response} {hs : List Header} :
    wp (UA.challenged resp hs) (fun b _ => b = false → w.ua.answers resp = false) (fun _ _ => True) w := by
  have hprocess {cs : List (Lazy Challenge)} {name : Text} {sent : SentRequest} :
      wp (UA.processChallenge cs resp.cseq name sent hs)
        (fun b _ => b = false → w.ua.retries cs name sent = false) (fun _ _ => True) w := by
    unfold UA.processChallenge UA.retries
    rw [wp_bind, wp_getUA, Lib.wp_ite]
    refine ⟨fun hcred _ => ?_, fun _ => ?_⟩
    · rcases hcred with h | h | h <;> simp [h]
    · rw [wp_bind, wp_ofLazy]
      cases hcs : cs.mapM id with
      | error e => trivial
      | ok found =>
        dsimp only
        cases hfind : found.find? w.ua.answerable with
        | none =>
          have hany : found.any w.ua.answerable = false := by simpa using List.find?_eq_none.mp hfind
          exact fun _ => by simp [hany]
        | some challenge =>
          have htrue : Ends (fun b _ => b = true) (do
              let req ← genRequest .invite w.ua.lSDP (.pair challenge) hs none
              newUacTransaction req
              upd fun ua => { ua with reqs := ua.reqs.filter (·.1 ≠ resp.cseq) }
              return true) := .bind fun _ => .bind fun _ => .bind fun _ _ => rfl
          exact wp_mono (htrue w) (fun _ _ h hb => absurd (h.symm.trans hb) (by decide)) fun _ _ h => h
  unfold UA.challenged UA.answers
  rw [wp_bind, wp_getUA]
  cases hsent : w.ua.reqs.lookup resp.cseq with
  | none => exact fun _ => rfl
  | some sent =>
    dsimp only
    rw [Lib.wp_ite]
    refine ⟨fun hinvite => ?_, fun hother _ => ?_⟩
    · rw [Lib.wp_ite]
      refine ⟨fun h401 => ?_, fun h401 => ?_⟩
      · exact wp_mono hprocess (fun _ _ h hb => by simp [h401, h hb]) fun _ _ h => h
      · rw [Lib.wp_ite]
        refine ⟨fun h407 => ?_, fun h407 _ => by simp [h401, h407]⟩
        exact wp_mono hprocess (fun _ _ h hb => by simp [h407, h hb]) fun _ _ h => h
    · by_cases hm : resp.method = .invite <;> simp_all

theorem recvResponse_turned {resp : Response} {hs : List Header} (hsound : w.ua.Sound) :
    wp (UA.recvResponse resp hs) (fun _ => Turned w (.response resp hs))
      (fun _ => Turned w (.response resp hs)) w := by
  have hrests {w₁ : World} (hw : Since w w₁) (hμ : w₁.meter = w.meter) :
      Turned w (.response resp hs) w₁ := rests_turned rfl hw (hsound.since hw) hμ
  unfold UA.recvResponse
  rw [wp_bind, wp_getUA]
  split
  · exact hrests (.refl w) rfl
  · exact hrests (.refl w) rfl
  · rename_i s _ hstate
    rw [wp_bind]
    refine wp_mono (wp_and (challenged_reads w (.refl w) rfl) challenged_answers)
      (fun b w₁ ⟨⟨hw, hμ⟩, hno⟩ => ?_) fun _ w₁ ⟨⟨hw, hμ⟩, _⟩ => hrests hw hμ
    rw [Lib.wp_ite]
    refine ⟨fun _ => hrests hw hμ, fun hb => ?_⟩
    rw [wp_bind, wp_upd]
    have hupd : Since w { w₁ with ua := if resp.scode ≥ 200 then
        { w₁.ua with reqs := w₁.ua.reqs.filter (·.1 ≠ resp.cseq) } else w₁.ua } := by
      refine hw.of_rest ?_
      split <;> rfl
    have hmeter : World.meter { w₁ with ua := if resp.scode ≥ 200 then
        { w₁.ua with reqs := w₁.ua.reqs.filter (·.1 ≠ resp.cseq) } else w₁.ua } = w.meter := by
      rw [← hμ]
      unfold World.meter
      split <;> rfl
    have hsame : w.at (some s) = w := by rw [← hstate]; rfl
    refine finish_turned (d := .response resp) (k := fun _ => [.emitPending]) ?_
      (by simp [UA.receiver, hstate]) (hsame.symm ▸ hupd) (hsound.since hupd)
    rw [hmeter]
    exact .response (hno (Bool.eq_false_of_not_eq_true hb))

theorem recvACK_turned {req : Request} (hw : Since w w₁) (hsound : w₁.ua.Sound)
    (hμ : w₁.meter = w.meter) :
    wp (UA.recvACK req) (fun _ => Turned w (.ack req)) (fun _ => Turned w (.ack req)) w₁ := by
  have hrests : Turned w (.ack req) w₁ := rests_turned rfl hw hsound hμ
  unfold UA.recvACK
  rw [wp_bind, wp_getUA]
  split
  · exact hrests
  · rename_i s hstate
    rw [Lib.wp_ite]
    refine ⟨fun _ => ?_, fun _ => hrests⟩
    have hreceiver : w.ua.state = some s := hw.state ▸ hstate
    have hsame : w.at (some s) = w := by rw [← hreceiver]; rfl
    refine finish_turned (d := .ack req) ?_ (by simp [UA.receiver, hreceiver]) (hsame.symm ▸ hw) hsound
    rw [hμ]
    exact .ack

theorem disconnect_turned {rtime : Option Time} {origin : Option Origin} (hw : Since w w₁)
    (hsound : w₁.ua.Sound) (hi : i.ending w.meter = some (rtime, w₁.meter)) :
    wp (UA.disconnect rtime origin) (fun _ => Turned w i) (fun _ => Turned w i) w₁ := by
  simp only [UA.disconnect, now, wp_bind, Lib.wp_get, Lib.wp_pure, wp_newEvent, wp_enqueue]
  refine recvEvent_turned ?_ ?_ (hw.of_rest rfl) (hsound.since ((Since.refl w₁).of_rest rfl))
  · have hgiven := Given.ending (w := w) (o := origin) (n := w₁.seq + 1) hi
    rw [← hw.now] at hgiven
    exact hgiven
  · simp [UA.receiver, UA.wakes]

theorem keepAlive_reads {n : ℕ} :
    Reads w w.meter (fun _ μ => ∃ b, μ = { w.meter with kaTr := b })
      (fun _ μ => ∃ b, μ = { w.meter with kaTr := b }) (UaStateConnected.keepAlive n) := by
  refine .getUA_bind fun _ _ _ => .ite (fun _ => ?_) fun _ => .pure ⟨_, rfl⟩
  refine .step (.genRequest (by simp)) fun req hreq => ?_
  refine .next (.upd_other (fun _ => rfl) fun _ _ => rfl) fun _ => ?_
  refine .next (.call (by simp [Act.hangsUp, hreq]) fun _ => ⟨_, rfl⟩) fun _ => ?_
  exact .weaken (.upd (g := fun ν => { ν with kaTr := true }) (fun _ => rfl) fun _ _ => rfl)
    (fun _ _ h => ⟨true, h⟩) fun _ _ h => h

theorem keepAliveResp_reads {n : ℕ} {resp : Response} :
    Reads w w.meter (fun r μ => (∃ b, μ = { w.meter with kaTr := b }) ∧
        (r = .disconnect → μ = { w.meter with kaTr := false }))
      (fun _ μ => ∃ b, μ = { w.meter with kaTr := b }) (UaStateConnected.keepAliveResp n resp) := by
  have hnone {ν : Meter} (hν : ∃ b, ν = { w.meter with kaTr := b }) : (∃ b, ν = { w.meter with kaTr := b }) ∧
      (UaStateConnected.KaDone.none = .disconnect → ν = { w.meter with kaTr := false }) := ⟨hν, by simp⟩
  refine .getUA_bind fun ua _ _ => .ite (fun _ => .pure (hnone ⟨_, rfl⟩)) fun _ => ?_
  split
  · refine .next (ν := w.meter) ?_ fun _ => .pure (hnone ⟨_, rfl⟩)
    refine .step (.ofLazy fun _ _ => ⟨_, rfl⟩) fun _ _ => .getUA_bind fun _ _ _ => ?_
    -- the challenge is passed where a pair is expected
    refine .bind (L := fun _ _ => False) ?_ fun _ _ h => h.elim
    exact .getUA_bind fun _ _ _ => .bind (.raise ⟨_, rfl⟩) fun _ _ h => h
  · refine .ite (fun _ => .pure (hnone ⟨_, rfl⟩)) fun _ => ?_
    refine .next (.upd (g := fun ν => { ν with kaTr := false }) (fun _ => rfl) fun _ _ => rfl) fun _ => ?_
    refine .ite (fun _ => .ite (fun _ => ?_) fun _ => .pure ⟨⟨_, rfl⟩, fun _ => rfl⟩) fun _ => ?_
    · exact .next (.upd_other (fun _ => rfl) fun _ _ => rfl) fun _ => .pure (hnone ⟨_, rfl⟩)
    · exact .next (.upd_other (fun _ => rfl) fun _ _ => rfl) fun _ => .pure (hnone ⟨_, rfl⟩)

theorem left_turned {c : Change} (hw : w.Calm → w₁.Calm) (hstate : w₁.ua.state = w.ua.state)
    (hcbs : w₁.ua.deadCbs = w.ua.deadCbs) (hsound : w₁.ua.Sound)
    (hcb : w₁.ua.cancelCb = some .updating → w.ua.cancelCb = some .updating)
    (hc : c.state.terminated) (hdead : c.state = .dead → ∀ s ∈ w₁.ua.state, ∀ ua, Ready s ua)
    (hturn : ∀ st ν, Shift w w₁.ua.state w₁.meter c.state st ν → Turn w i st ν) :
    wp (changeState c) (fun _ => Turned w i) (fun _ => Turned w i) w₁ := by
  have hturned {w' : World} (h : Shifted w w₁ c.state w') : Turned w i w' :=
    ⟨hturn _ _ h.shift, h.sound, fun h' => hcb (h.cancelCb h'),
      ⟨fun hd => hstate ▸ h.buries.sound hd, hcbs ▸ h.buries.called, fun hd => hstate ▸ h.buries.dead hd⟩⟩
  exact wp_mono (changeState_shift hw hsound (.of_plain (.inr hc)) (fun _ => hc) hdead)
    (fun _ _ h => hturned h) fun _ _ h => hturned h

theorem cancel_turned {rtime : Time} {reason : Option Text} (hsound : w.ua.Sound) :
    wp (Input.cancel rtime reason).run (fun _ => Turned w (.cancel rtime reason))
      (fun _ => Turned w (.cancel rtime reason)) w := by
  have hw : Since w { w with ua := { w.ua with cancelCb := none } } :=
    { Since.refl w with cancelCb := by simp }
  simp only [Input.run, wp_bind, wp_getUA, wp_upd]
  cases hcb : w.ua.cancelCb with
  | none => exact rests_turned rfl hw (hsound.since hw) rfl
  | some fn =>
    cases fn with
    | generic => exact rests_turned rfl hw (hsound.since hw) rfl
    | progressing =>
      simp only [Option.getD_some, UA.cancel, changeWith, wp_bind, wp_getUA, wp_newEvent, wp_upd, Lib.wp_pure]
      exact left_turned id rfl rfl ((hsound.since hw).since ((Since.refl _).of_rest rfl)) (by simp) rfl (by simp)
        fun st ν h => .cancelled hcb h
    | updating =>
      simp only [Option.getD_some, UA.cancel, wp_bind]
      have hbye : Reads w w.meter (fun _ μ => μ = w.meter.hangUp) (fun _ μ => μ = w.meter) (sendBYE []) :=
        .sendBYE fun _ => rfl
      refine wp_mono (hbye _ hw rfl) (fun _ w₂ ⟨h₂, hμ₂⟩ => ?_) fun _ w₂ ⟨h₂, hμ₂⟩ =>
        rests_turned rfl h₂ (hsound.since h₂) hμ₂
      simp only [cancelCreditTimer, changeWith, wp_bind, wp_getUA, wp_newEvent, wp_upd, Lib.wp_pure]
      refine wp_mono (left_turned (i := .cancel rtime reason) h₂.calm h₂.state h₂.deadCbs
        ((hsound.since h₂).since ((Since.refl _).of_rest rfl)) h₂.cancelCb rfl (by simp) fun st ν h => ?_)
        (fun _ _ h => ⟨h.turn, h.sound, h.cancelCb, h.buries⟩) fun _ _ h => h
      have hmeter : w₂.meter.creditOff.disconnect rtime = w.meter.hangUp.creditOff.disconnect rtime := by
        rw [hμ₂]
      have hstate : w₂.ua.state = w.ua.state := h₂.state
      refine .unupdated hcb ?_
      rw [← hmeter, ← hstate]
      exact h

theorem resetCreditTime_reads {rtime : Time} {times : List (ℕ × Option Time)} :
    Reads w w.meter (fun _ μ => μ = w.meter.reset w.ua.state rtime times)
      (fun _ μ => μ = w.meter.reset w.ua.state rtime times) (UA.resetCreditTime rtime times) := by
  refine .next (.upd (g := fun ν => ν.extend times) (fun _ => rfl) fun _ _ => rfl) fun _ => ?_
  refine .getUA_bind fun w' hw' _ => ?_
  have hstate : w'.ua.state = w.ua.state := hw'.state
  unfold Meter.reset
  rw [← hstate]
  cases hs : w'.ua.state with
  | none => exact .raise (by simp)
  | some s =>
    refine .ite (fun hc => ?_) fun hc => .pure (by simp [hc])
    refine .next .cancelCreditTimer fun _ => .next .startCreditTimer fun _ => .pure ?_
    simp [hc]

theorem timeout_turned {t : TimerId} (ht : t.scheduled w.ua) (hsound : w.ua.Sound) :
    wp (timeout t) (fun _ => Turned w (.timeout t)) (fun _ => Turned w (.timeout t)) w := by
  have hends {w₁ : World} (hw : Since w w₁) (hi : Input.ending w.meter (.timeout t) = some (none, w₁.meter)) :
      wp (UA.disconnect none none) (fun _ => Turned w (.timeout t)) (fun _ => Turned w (.timeout t)) w₁ :=
    disconnect_turned hw (hsound.since hw) hi
  have hprobes {w₁ : World} (hw : Since w w₁) (h : ∃ b, w₁.meter = { w.meter with kaTr := b })
      (hi : Input.probes (.timeout t)) : Turned w (.timeout t) w₁ := by
    obtain ⟨b, hμ⟩ := h
    refine ⟨?_, hsound.since hw, hw.cancelCb, .of_state hw.state (hsound.since hw) hw.deadCbs⟩
    rw [hμ, hw.state]
    exact .probes hi
  -- a user agent that is about to die has nothing to rely on
  have hover (h : 0 < w.ua.goDeads ∨ w.ua.te) (s : UaState) (hs : s ∈ w.ua.state) (ua : UA) :
      Ready s ua := by
    have hs : w.ua.state = some s := hs
    have hterminated := hsound.ends h
    exact .of_plain (.inr (by simpa [UA.isOver, hs] using hterminated))
  cases t with
  | expire d => exact hends ((Since.refl w).of_rest rfl) rfl
  | noProgress d => exact hends ((Since.refl w).of_rest rfl) rfl
  | noReply d => exact hends ((Since.refl w).of_rest rfl) rfl
  | kaDisconnect => exact hends ((Since.refl w).of_rest rfl) rfl
  | credit d =>
    have hw : Since w { w with ua := { w.ua with creditTimer := w.ua.creditTimer.fire d } } :=
      (Since.refl w).of_rest rfl
    exact disconnect_turned hw (hsound.since hw) rfl
  | keepAlive n =>
    have hw : Since w { w with ua := { w.ua with kaTimers := w.ua.kaTimers.erase n } } :=
      (Since.refl w).of_rest rfl
    simp only [timeout, wp_bind, wp_upd]
    exact wp_mono (keepAlive_reads _ (.refl _) rfl) (fun _ _ h => hprobes (hw.trans h.1) h.2 rfl)
      fun _ _ h => hprobes (hw.trans h.1) h.2 rfl
  | goDead =>
    have hd : 0 < w.ua.goDeads := by simpa [TimerId.scheduled] using ht
    simp only [timeout, wp_bind, wp_upd]
    exact left_turned id rfl rfl ⟨fun s hs => hover (.inl hd) s hs _, fun _ => hsound.ends (.inl hd)⟩ id rfl
      (fun _ => hover (.inl hd)) fun st ν h => .dies (.inl rfl) h
  | goIdle =>
    simp only [timeout, wp_bind, wp_upd]
    exact left_turned id rfl rfl ⟨fun s hs => hover (.inr ht) s hs _, fun _ => hsound.ends (.inr ht)⟩ id rfl
      (fun _ => hover (.inr ht)) fun st ν h => .dies (.inr rfl) h

theorem input_turned {i : Input} (hi : i.possible w.ua) (hsound : w.ua.Sound) :
    wp i.run (fun _ => Turned w i) (fun _ => Turned w i) w := by
  have hrest {ua : UA} {seq : ℕ} {log : List Act} (hr : ua.rest = w.ua.rest) :
      Since w ⟨ua, seq, w.io, log⟩ := (Since.refl w).of_rest hr
  cases i with
  | request req => exact recvRequest_turned hsound
  | response resp hs => exact recvResponse_turned hsound
  | event e => exact recvEvent_turned .event (fun _ => ⟨rfl, rfl⟩) (.refl w) hsound
  | ack req =>
    have hw : Since w { w with ua := { w.ua with ackCbs := w.ua.ackCbs - 1 } } := hrest rfl
    simp only [Input.run, wp_bind, wp_upd]
    exact recvACK_turned hw (hsound.since hw) rfl
  | cancel rtime reason => exact cancel_turned hsound
  | noack =>
    have hw : Since w { w with ua := { w.ua with noackCbs := w.ua.noackCbs - 1 } } := hrest rfl
    simp only [Input.run, wp_bind, wp_upd]
    exact disconnect_turned hw (hsound.since hw) rfl
  | disconnect rtime origin => exact disconnect_turned (.refl w) hsound rfl
  | timeout t => exact timeout_turned hi hsound
  | resetCreditTime rtime times =>
    have hturned {w₁ : World} (hw : Since w w₁)
        (hμ : w₁.meter = w.meter.reset w.ua.state rtime times) : Turned w (.resetCreditTime rtime times) w₁ := by
      refine ⟨?_, hsound.since hw, hw.cancelCb, .of_state hw.state (hsound.since hw) hw.deadCbs⟩
      rw [hμ, hw.state]
      exact .resets
    exact wp_mono (resetCreditTime_reads w (.refl w) rfl) (fun _ _ h => hturned h.1 h.2)
      fun _ _ h => hturned h.1 h.2
  | keepAliveResp n resp =>
    simp only [Input.run, wp_bind]
    have hprobes {w₁ : World} (hw : Since w w₁) (h : ∃ b, w₁.meter = { w.meter with kaTr := b }) :
        Turned w (.keepAliveResp n resp) w₁ := by
      obtain ⟨b, hμ⟩ := h
      refine ⟨?_, hsound.since hw, hw.cancelCb, .of_state hw.state (hsound.since hw) hw.deadCbs⟩
      rw [hμ, hw.state]
      exact .probes rfl
    apply wp_mono (keepAliveResp_reads w (.refl w) rfl)
    · rintro r w₁ ⟨hw, hb, hd⟩
      cases r with
      | none => exact hprobes hw hb
      | disconnect => exact disconnect_turned hw (hsound.since hw) (by rw [hd rfl]; rfl)
    · exact fun _ _ h => hprobes h.1 h.2
  | referResp =>
    have hbye : Reads w w.meter (fun _ μ => μ = w.meter.hangUp) (fun _ μ => μ = w.meter) (sendBYE []) :=
      .sendBYE fun _ => rfl
    simp only [Input.run, wp_bind]
    apply wp_mono (hbye w (.refl w) rfl)
    · rintro _ w₁ ⟨hw, hμ⟩
      refine ⟨?_, hsound.since hw, hw.cancelCb, .of_state hw.state (hsound.since hw) hw.deadCbs⟩
      rw [hμ, hw.state]
      exact .refers
    · rintro _ w₁ ⟨hw, hμ⟩
      exact rests_turned rfl hw (hsound.since hw) hμ
  | sdpUpdated p body =>
    have hw : Since w { w with ua := UA.resolved p w.ua } := hrest rfl
    simp only [Input.run, wp_bind, wp_upd, UA.sdpUpdated, Lib.wp_ite]
    refine ⟨fun _ => ?_, fun hr => ?_⟩
    · exact rests_turned rfl (hrest rfl) (hsound.since (hrest rfl)) rfl
    · exact recvEvent_turned (.updated (by simpa using hr)) (fun _ => ⟨rfl, rfl⟩) hw (hsound.since hw)
  | sdpFailed p ex =>
    have hw : Since w { w with ua := UA.resolved p w.ua } := hrest rfl
    simp only [Input.run, wp_bind, wp_upd, UA.sdpFailed, Lib.wp_ite]
    refine ⟨fun _ => ?_, fun _ => ?_⟩
    · exact rests_turned rfl (hrest rfl) (hsound.since (hrest rfl)) rfl
    · exact rests_turned rfl hw (hsound.since hw) rfl

end Turning
def Mach.hangups (m : Mach) : ℕ := m.log.countP Act.hangsUp

def Mach.meter (m m' : Mach) : Meter := m'.ua.meter (m'.hangups - m.hangups)

inductive Metered (m : Mach) (l : Label) (m' : Mach) : Prop
  | method (i : Input) (io : Io) (hi : l.method m = some i) (hio : l.io = some io)
      (hposs : i.possible m.ua) (hlog : m.hangups ≤ m'.hangups)
      (turn : Turn (m.world io) i m'.ua.state (m.meter m'))
      (cancelCb : m'.ua.cancelCb = some .updating → m.ua.cancelCb = some .updating)
  | other (hstate : m'.ua.state = m.ua.state) (hmeter : ∀ n, m'.ua.meter n = m.ua.meter n)
      (hlog : m'.hangups = m.hangups) (hcb : m.ua.cancels m'.ua.cancelCb)

/-- An assignment to fields that do not count, to the callback for a CANCEL, or to `dead_cbs`. -/
theorem UA.Sound.of_rest {ua ua' : UA} (h : ua.Sound)
    (hr : { ua'.rest with cancelCb := none, deadCbs := false } =
      { ua.rest with cancelCb := none, deadCbs := false }) : ua'.Sound := by
  have hstate : ua'.state = ua.state := congrArg Rest.state hr
  have htr : ua'.tr = ua.tr := congrArg Rest.tr hr
  have hresp : ua'.uasResp = ua.uasResp := congrArg Rest.uasResp hr
  have htarget : ua'.rTarget = ua.rTarget := congrArg Rest.rTarget hr
  have hdead : ua'.goDeads = ua.goDeads := congrArg Rest.goDeads hr
  have hte : ua'.te = ua.te := congrArg Rest.te hr
  refine ⟨fun s hs => ?_, fun hends => ?_⟩
  · have hready := h.ready s (hstate ▸ hs)
    exact ⟨hresp ▸ hready.resp, htr ▸ hready.tr, htarget ▸ hready.target⟩
  · rw [UA.isOver, hstate]
    exact h.ends (hdead ▸ hte ▸ hends)

theorem Mach.step_turned {m : Mach} (l : Label) (hsound : m.ua.Sound) :
    (∃ i io w' todo, l.method m = some i ∧ l.io = some io ∧ i.possible m.ua ∧
      Turned (m.world io) i w' ∧ m.step l = ⟨w'.ua, w'.seq, todo, m.log ++ w'.log⟩) ∨
    (m.step l).ua.Sound ∧ (m.step l).ua.state = m.ua.state ∧ (∀ n, (m.step l).ua.meter n = m.ua.meter n) ∧
      (m.step l).hangups = m.hangups ∧ m.ua.cancels (m.step l).ua.cancelCb ∧
      (m.step l).ua.deadCbs = m.ua.deadCbs := by
  obtain ⟨i, io, rest, hi, -, hposs, hio, h⟩ | ⟨io, d, es, todo, hl, hd, hnew, htodo, h⟩ |
    ⟨es, n, cb, todo, hes, hdrop, htodo, hcb, h⟩ := m.step_cases l
  · have hturned := input_turned (w := m.world io) hposs hsound
    unfold Lib.wp at hturned
    cases hrun : i.run (m.world io) with
    | ok td w' =>
      rw [hrun] at hturned
      exact .inl ⟨i, io, w', _, hi, hio, hposs, hturned, h.trans (exec_ok rest hrun)⟩
    | error e w' =>
      rw [hrun] at hturned
      exact .inl ⟨i, io, w', _, hi, hio, hposs, hturned, h.trans (exec_error rest hrun)⟩
  · rw [h]
    exact .inr ⟨hsound.of_rest rfl, rfl, fun _ => rfl, by simp [Mach.hangups, Act.hangsUp], .inl rfl, rfl⟩
  · rw [h]
    exact .inr ⟨hsound.of_rest rfl, rfl, fun _ => rfl, rfl, hcb, rfl⟩

theorem Mach.metered {m : Mach} (l : Label) (hsound : m.ua.Sound) :
    (m.step l).ua.Sound ∧ Metered m l (m.step l) := by
  obtain ⟨i, io, w', todo, hi, hio, hposs, ht, hm⟩ | ⟨hs, hstate, hmeter, hlog, hcb, -⟩ := m.step_turned l hsound
  · rw [hm]
    have hmeter : m.meter ⟨w'.ua, w'.seq, todo, m.log ++ w'.log⟩ = w'.meter := by
      simp [Mach.meter, Mach.hangups, World.meter]
    refine ⟨ht.sound, .method i io hi hio hposs (by simp [Mach.hangups]) ?_ ht.cancelCb⟩
    rw [hmeter]
    exact ht.turn
  · exact ⟨hs, .other hstate hmeter hlog hcb⟩

theorem Mach.step_buries {m : Mach} (l : Label) (hsound : m.ua.Sound) : Buries m.ua (m.step l).ua := by
  obtain ⟨i, io, w', todo, -, -, -, ht, hm⟩ | ⟨hs, hstate, -, -, -, hcbs⟩ := m.step_turned l hsound
  · rw [hm]
    exact ht.buries
  · exact .of_state hstate hs hcbs

theorem UA.Sound.receiver {ua : UA} (h : ua.Sound) {d : Dispatch} {s : UaState}
    (hs : s ∈ ua.receiver d) : Ready s ua := by
  rcases receiver_eq hs with hstate | ⟨-, hidle⟩
  · exact h.ready s hstate
  · rcases hidle with rfl | rfl <;> constructor <;> simp [UaState.progressing, UaState.calling]

/-- A user agent as the constructor leaves it, whatever its configuration is. -/
structure UA.Unused (ua : UA) : Prop where
  state : ua.state = none
  goDeads : ua.goDeads = 0
  te : ua.te = false
  cancelCb : ua.cancelCb = none
  creditTimer : ua.creditTimer = .off
  expireTimer : ua.expireTimer = .off
  noProgressTimer : ua.noProgressTimer = .off
  noReplyTimer : ua.noReplyTimer = .off
  setupTs : ua.setupTs = none
  connectTs : ua.connectTs = none
  disconnectTs : ua.disconnectTs = none

theorem UA.Unused.sound {ua : UA} (h : ua.Unused) : ua.Sound where
  ready s hs := by simp [h.state] at hs
  ends he := by simp [h.goDeads, h.te] at he

/-- What every step keeps, when it is taken as it may be, holds after every run. -/
theorem run_metered {I : Mach → Prop} {ok : Mach → Label → Prop}
    (hstep : ∀ m l, ok m l → m.ua.Sound → I m → Metered m l (m.step l) → I (m.step l)) {ua : UA}
    (hua : ua.Unused) (hstart : I (.start ua)) {ls : List Label}
    (hls : Lib.Along Mach.step ok (.start ua) ls) : I (Lib.run Mach.step (.start ua) ls) :=
  (hls.invariant (I := fun m => m.ua.Sound ∧ I m) (fun m l hok h =>
    have hm := m.metered l h.1
    ⟨hm.1, hstep m l hok h.1 h.2 hm.2⟩) ⟨hua.sound, hstart⟩).2

end SippyB2bua.Ua
