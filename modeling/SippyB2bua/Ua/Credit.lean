import Mathlib.Data.List.Induction
import SippyB2bua.Ua.Hangup

/-!
# The credit timer

The timer that ends a call when its credit is used up. It is started where a call is
connected, before the connected state is certain, and cancelled where the call is left.
-/

namespace SippyB2bua.Ua
open Lib (Text Alarm run Along)

/-- The limits of a call, the timer that keeps them, and the time from which on it is paid for. -/
structure Credit where
  /-- What the next connection adds to the limits. -/
  unspent : Option Time
  times : List (ℕ × Option Time)
  timer : Alarm
  since : Option Time

/-- The timer runs in a connected state only, and there it keeps the earliest limit. -/
structure Credit.Paid (c : Credit) (s : Option UaState) : Prop where
  tight : c.timer.Tight
  off : s.any UaState.isConnected = false → c.timer.ref = none
  running : s.any UaState.isConnected → c.since.isSome → c.timer.ref = Meter.earliest c.times
  fresh : s.any UaState.isConnected = false → s.any UaState.terminated = false → c.since = none

namespace Credit.Paid
variable {c : Credit} {s : Option UaState} {s' : UaState}

theorem connected (h : c.Paid s) (hs : s.any UaState.isConnected) (hs' : s'.isConnected) :
    c.Paid (some s') where
  tight := h.tight
  off hno := by simp [hs'] at hno
  running _ := h.running hs
  fresh hno := by simp [hs'] at hno

theorem proceeds (h : c.Paid s) (hs : s.any UaState.isConnected = false)
    (ht : s.any UaState.terminated = false) (hs' : s'.isConnected = false) : c.Paid (some s') where
  tight := h.tight
  off _ := h.off hs
  running hc := by simp [hs'] at hc
  fresh _ _ := h.fresh hs ht

theorem joins (h : c.Paid s) (hs : s.any UaState.isConnected = false)
    (ht : s.any UaState.terminated = false) : c.Paid (some s') where
  tight := h.tight
  off _ := h.off hs
  running _ hc := by simp [h.fresh hs ht] at hc
  fresh _ _ := h.fresh hs ht

theorem ends (h : c.Paid s) (hs : s.any UaState.isConnected = false) (hs' : s'.terminated) :
    c.Paid (some s') where
  tight := h.tight
  off _ := h.off hs
  running hc := by cases s' <;> simp_all [UaState.isConnected, UaState.terminated]
  fresh _ hno := by simp [hs'] at hno

theorem off_eq (h : c.Paid s) (hs : s.any UaState.isConnected = false) : c.timer = .off := by
  have htight := h.tight
  have hoff := h.off hs
  obtain ⟨unspent, times, ⟨ref, live⟩, since⟩ := c
  simp_all [Alarm.Tight, Alarm.off]

end Credit.Paid

namespace Meter
variable {μ : Meter}

def credit (μ : Meter) : Credit := ⟨μ.creditTime, μ.creditTimes, μ.creditTimer, μ.connectTs⟩

@[simp] theorem credit_expireOff : μ.expireOff.credit = μ.credit := rfl
@[simp] theorem credit_noProgressOff : μ.noProgressOff.credit = μ.credit := rfl
@[simp] theorem credit_noReplyOff : μ.noReplyOff.credit = μ.credit := rfl
@[simp] theorem credit_hangUp : μ.hangUp.credit = μ.credit := rfl
@[simp] theorem credit_late : μ.late.credit = μ.credit := rfl
@[simp] theorem credit_onTime : μ.onTime.credit = μ.credit := rfl
@[simp] theorem credit_setup (t : Time) : (μ.setup t).credit = μ.credit := rfl
@[simp] theorem credit_disconnect (t : Time) : (μ.disconnect t).credit = μ.credit := rfl
@[simp] theorem credit_offered (t : Time) (b : Bool) : (μ.offered t b).credit = μ.credit := rfl

@[simp] theorem credit_left (s : UaState) : (μ.left s).credit = μ.credit := by
  unfold left
  split <;> rfl

@[simp] theorem credit_progressed (b : Bool) : (μ.progressed b).credit = μ.credit := by
  unfold progressed
  split_ifs <;> rfl

@[simp] theorem credit_replied (scode : ℤ) : (μ.replied scode).credit = μ.credit := by
  unfold replied
  split_ifs <;> rfl

@[simp] theorem credit_heard (s : UaState) (scode : ℤ) : (μ.heard s scode).credit = μ.credit := by
  unfold heard
  split_ifs <;> simp

@[simp] theorem credit_deadlines (t : Time) : (μ.deadlines t).credit = μ.credit := by
  unfold deadlines expireBy progressBy
  split <;> split <;> rfl

@[simp] theorem credit_armFirst : μ.armFirst.credit = μ.credit := by
  unfold armFirst
  split_ifs <;> rfl

@[simp] theorem credit_invited (t : Time) : (μ.invited t).credit = μ.credit := by simp [invited]

@[simp] theorem credit_inviting (t : Time) : (μ.inviting t).credit = μ.credit := by
  have hreply : (μ.deadlines t).replyDeadline.credit = μ.credit := credit_deadlines t
  unfold inviting armReply
  split
  · exact hreply
  · rw [credit_armFirst, hreply]

@[simp] theorem credit_leave (s : Option UaState) : (μ.leave s).credit = μ.credit := by
  unfold leave
  split <;> rfl

theorem start_ref (t : Time) (hoff : μ.creditTimer = .off) :
    (μ.start t).creditTimer.Tight ∧
      (μ.start t).creditTimer.ref = earliest (μ.start t).creditTimes := by
  have htimer : (μ.spend t).creditTimer = .off := hoff
  unfold start armCredit
  cases he : earliest (μ.spend t).creditTimes with
  | none => exact ⟨by rw [htimer]; exact Lib.Alarm.tight_off, by rw [htimer, he]; rfl⟩
  | some d => exact ⟨by rw [htimer]; exact Lib.Alarm.tight_off.arm rfl d, he.symm⟩

theorem start_paid {s : UaState} (t : Time) (hoff : μ.creditTimer = .off) (hs : s.isConnected) :
    (μ.start t).credit.Paid (some s) where
  tight := (start_ref t hoff).1
  off hno := by simp [hs] at hno
  running _ _ := (start_ref t hoff).2
  fresh hno := by simp [hs] at hno

theorem connected_paid {s : UaState} (t : Time) (hoff : μ.creditTimer = .off) (hs : s.isConnected) :
    (μ.connected t).credit.Paid (some s) where
  tight := (start_ref t hoff).1
  off hno := by simp [hs] at hno
  running _ _ := (start_ref t hoff).2
  fresh hno := by simp [hs] at hno

theorem creditOff_eq (h : μ.creditTimer.Tight) : μ.creditOff.creditTimer = .off := h.cancel

theorem creditOff_paid {s : UaState} (h : μ.creditTimer.Tight) (hs : s.terminated) :
    μ.creditOff.credit.Paid (some s) where
  tight := by
    rw [show μ.creditOff.credit.timer = .off from creditOff_eq h]
    exact Lib.Alarm.tight_off
  off _ := by
    rw [show μ.creditOff.credit.timer = .off from creditOff_eq h]
    rfl
  running hc := by cases s <;> simp_all [UaState.isConnected, UaState.terminated]
  fresh _ hno := by simp [hs] at hno

end Meter

def Dispatch.ends : Dispatch → Bool
  | .event e => e.final
  | .request req => req.method = .bye
  | _ => false

def World.premature (w : World) (s : UaState) (resp : Response) : Bool :=
  s.calling && 200 ≤ resp.scode && resp.scode < 300 && w.connects resp && w.io.sdps.any SdpRet.raises

/-- The timer is as it should be in the state that comes next, and in the connected state where
that need not be left. -/
def Meter.Settles (μ : Meter) (s : UaState) (d : Dispatch) : Res → Prop
  | .to s' => μ.credit.Paid (some s') ∧ (s = .connected → μ.credit.Paid (some s) ∨ d.ends)
  | _ => μ.credit.Paid (some s)

theorem settles_keeps {μ : Meter} {s : UaState} {d : Dispatch} {r : Res} (hr : r.keeps)
    (h : μ.credit.Paid (some s)) : μ.Settles s d r := by
  cases r <;> first | exact h | simp [Res.keeps] at hr

theorem settles_to {μ : Meter} {s s' : UaState} {d : Dispatch} (hs : s ≠ .connected)
    (h : μ.credit.Paid (some s')) : μ.Settles s d (.to s') := ⟨h, fun hc => absurd hc hs⟩

theorem calling_ne {s : UaState} (hs : s.calling) :
    s.isConnected = false ∧ s.terminated = false ∧ s ≠ .connected := by
  cases s <;> simp_all [UaState.calling, UaState.isConnected, UaState.terminated]

theorem progressing_ne {s : UaState} (hs : s.progressing) :
    s.isConnected = false ∧ s.terminated = false ∧ s ≠ .connected := by
  cases s <;> simp_all [UaState.progressing, UaState.isConnected, UaState.terminated]

theorem Tick.settles {w : World} {s : UaState} {d : Dispatch} {r : Res} {μ : Meter} (h : Tick w s d r μ)
    (hw : w.meter.credit.Paid (some s)) (hd : ∀ resp, d = .response resp → ¬ w.premature s resp) :
    μ.Settles s d r := by
  have hoff (hs : s.isConnected = false) : w.meter.creditTimer = .off := hw.off_eq hs
  have hbroken {resp : Response} (hs : s.calling) (hcode : 200 ≤ resp.scode) (hlt : resp.scode < 300)
      (hconn : w.connects resp) (hex : ∃ ex, .raise ex ∈ w.io.sdps) (he : d = .response resp) : False := by
    obtain ⟨ex, hex⟩ := hex
    exact hd resp he (by simp [World.premature, hs, hcode, hlt, hconn, raises_of_mem hex])
  cases h with
  | idle hr => exact settles_keeps hr hw
  | updated hs =>
    rcases hs with rfl | rfl <;> exact settles_to (by simp) (hw.connected rfl rfl)
  | updates | reinvites => exact ⟨hw.connected rfl rfl, fun _ => .inl hw⟩
  | invited => exact settles_keeps rfl (by simpa using hw)
  | trying => exact settles_to (by simp) (by simpa using hw.proceeds rfl rfl rfl)
  | rings => exact settles_to (by simp) (by simpa using hw.proceeds rfl rfl rfl)
  | answers hs =>
    obtain ⟨hc, -, hne⟩ := progressing_ne hs
    refine settles_to hne ?_
    rw [Meter.credit_left]
    exact Meter.connected_paid _ (hoff hc) rfl
  | preAnswers hs =>
    obtain ⟨hc, ht, hne⟩ := progressing_ne hs
    exact settles_to hne (by simpa using hw.joins hc ht)
  | refuses hs _ hs' =>
    obtain ⟨hc, -, hne⟩ := progressing_ne hs
    rcases hs' with rfl | rfl <;> exact settles_to hne (by simpa using hw.ends hc rfl)
  | stopped => exact settles_to (by simp) (by simpa using hw.ends rfl rfl)
  | hungUp hs hm =>
    refine ⟨by simpa using Meter.creditOff_paid hw.tight rfl, fun hc => .inr ?_⟩
    rcases hm with hm | ⟨rfl, -⟩
    · simpa [Dispatch.ends] using hm
    · cases hc
  | hangsUp hs hk => exact ⟨Meter.creditOff_paid (μ := w.meter.hangUp) hw.tight rfl, fun _ => .inr hk⟩
  | failsUpdate =>
    exact settles_to (by simp) (Meter.creditOff_paid (μ := w.meter.hangUp) hw.tight rfl)
  | acks hr => exact settles_keeps hr (Meter.connected_paid _ (Meter.creditOff_eq hw.tight) rfl)
  | waits hr => exact settles_keeps hr hw
  | accepts hr => exact settles_keeps hr (Meter.connected_paid _ (Meter.creditOff_eq hw.tight) rfl)
  | sets hr => exact settles_keeps hr (by simpa using hw)
  | invites => exact settles_to (by simp) (by simpa using hw.proceeds rfl rfl rfl)
  | drops => exact settles_to (by simp) (by simpa using hw.ends rfl rfl)
  | provisional hs _ hr =>
    obtain ⟨hc, ht, hne⟩ := calling_ne hs
    rcases hr with hr | rfl
    · exact settles_keeps hr (by simpa using hw)
    · exact settles_to hne (by simpa using hw.proceeds hc ht rfl)
  | unheard hs | untagged hs | rejected hs =>
    obtain ⟨hc, -, hne⟩ := calling_ne hs
    exact settles_to hne (by simpa using hw.ends hc rfl)
  | unread => exact settles_keeps rfl (by simpa using hw)
  | @answered _ resp hs =>
    obtain ⟨hc, -, hne⟩ := calling_ne hs
    have hheard : (w.meter.heard s resp.scode).credit = w.meter.credit := Meter.credit_heard _ _
    refine settles_to hne (Meter.connected_paid _ ?_ rfl)
    exact (congrArg Credit.timer hheard).trans (hoff hc)
  | late hs =>
    obtain ⟨hc, ht, hne⟩ := calling_ne hs
    exact settles_to hne (by simpa using hw.joins hc ht)
  | broken hs hcode hlt hex he hν =>
    rcases hν with ⟨hconn, -⟩ | rfl
    · exact (hbroken hs hcode hlt hconn ⟨_, hex⟩ rfl).elim
    · exact settles_keeps rfl (by simpa using hw)
  | spoiled hs hcode hlt hν =>
    obtain ⟨hc, -, hne⟩ := calling_ne hs
    rcases hν with ⟨hex, ⟨hconn, -⟩ | rfl⟩ | ⟨-, rfl⟩
    · exact (hbroken hs hcode hlt hconn hex rfl).elim
    · exact settles_to hne (by simpa using hw.ends hc rfl)
    · exact settles_to hne (by simpa using hw.ends hc rfl)
  | cancels | cancelsRinging | tooLate | gone =>
    exact settles_to (by simp) (by simpa using hw.ends rfl rfl)

theorem Tick.dies {w : World} {s : UaState} {d : Dispatch} {μ : Meter} (h : Tick w s d (.to .dead) μ) :
    (s = .uacIdle ∨ s = .uacCancelling) ∧ (μ = w.meter ∨ ∃ t, μ = w.meter.disconnect t) := by
  cases h with
  | idle hr | acks hr | waits hr | accepts hr | sets hr => simp [Res.keeps] at hr
  | provisional _ _ hr => simp [Res.keeps] at hr
  | refuses _ _ hs' => simp at hs'
  | drops => exact ⟨.inl rfl, .inr ⟨_, rfl⟩⟩
  | gone => exact ⟨.inr rfl, .inl rfl⟩

theorem Tick.hangs_up {w : World} {s : UaState} {e : CCEvent} {also : Option Text} {r : Res} {μ : Meter}
    (h : Tick w s (.event e) r μ) (he : e.kind = .disconnect also) (hcalm : w.Calm)
    (hready : Ready s w.ua) (hs : s.isConnected) :
    r = .to .disconnected ∧ μ.credit = w.meter.creditOff.credit := by
  cases h with
  | idle _ hstuck =>
    obtain ⟨huas, huac, hconn, -⟩ := hstuck e also rfl he
    have hresp : s = .uasUpdating → False := fun h => by
      rcases huas (.inr h) with h' | h'
      · exact h' hcalm
      · simpa [h'] using hready.resp (.inr h)
    have htr : s = .uacUpdating → False := fun h => by
      rcases huac (.inr h) with h' | h'
      · exact h' hcalm
      · simpa [h'] using hready.tr (.inr h)
    cases s with
    | connected => exact absurd hcalm (hconn rfl)
    | uasUpdating => exact (hresp rfl).elim
    | uacUpdating => exact (htr rfl).elim
    | _ => cases hs
  | updated _ hd => exact absurd he (hd e also rfl)
  | hangsUp => exact ⟨rfl, rfl⟩
  | reinvites hk | waits _ hk | accepts _ hk => rw [he] at hk; cases hk
  | answers hs' | preAnswers hs' | refuses hs' =>
    obtain ⟨hc, -⟩ := progressing_ne hs'
    simp [hc] at hs
  | rings | sets | invites | drops | cancels | cancelsRinging => cases hs

theorem Credit.Paid.dropped {c : Credit} {s : Option UaState} (h : c.Paid s)
    (hs : s.any UaState.isConnected = false) : Credit.Paid { c with timer := c.timer.drop } s where
  tight := by
    rw [h.off_eq hs]
    exact Lib.Alarm.tight_off
  off _ := rfl
  running hc := by simp [hs] at hc
  fresh := h.fresh

theorem enter_paid {μ : Meter} {s : Option UaState} {s' : UaState} (h : μ.credit.Paid s)
    (hs : s' = .dead → s.any UaState.isConnected = false) : (μ.enter s').credit.Paid s := by
  cases s' with
  | dead => exact h.dropped (hs rfl)
  | _ => exact h

theorem Shift.paid {w : World} {s st : Option UaState} {s' : UaState} {ν μ : Meter}
    (h : Shift w s ν s' st μ) (hν : ν.credit.Paid (some s'))
    (hstuck : s = some .connected → ¬ w.Calm → ν.kaTr ∨ ν.pendingTr → ν.credit.Paid s)
    (hdead : s' = .dead → s.any UaState.isConnected = false ∧ ν.credit.Paid s) :
    μ.credit.Paid st := by
  cases h with
  | done =>
    refine enter_paid (by simpa using hν) fun h => ?_
    subst h
    rfl
  | stuck p hs hw hpending => exact hstuck hs hw hpending
  | unburied hs' =>
    obtain ⟨hs, hp⟩ := hdead hs'
    exact enter_paid (by simpa using hp) fun _ => hs

/-- The credit timer is given to the state object as it is, but for its own timeout. -/
theorem Given.credit {w : World} {i : Input} {d : Dispatch} {μ : Meter} (h : Given w i d μ)
    (hi : ∀ t, i ≠ .timeout (.credit t)) : μ.credit = w.meter.credit := by
  cases h with
  | ending h =>
    cases i with
    | timeout t =>
      cases t with
      | credit t => exact absurd rfl (hi t)
      | _ => simp [Input.ending] at h <;> obtain ⟨-, rfl⟩ := h <;> rfl
    | disconnect | noack | keepAliveResp =>
      simp only [Input.ending, Option.some.injEq, Prod.mk.injEq] at h
      obtain ⟨-, rfl⟩ := h
      rfl
    | _ => cases h
  | _ => rfl

theorem Given.gives {w : World} {i : Input} {d : Dispatch} {μ : Meter} (h : Given w i d μ)
    (hd : ∀ e, d ≠ .event e) : i.gives w = some d := by
  cases h with
  | event | updated | ending => exact absurd rfl (hd _)
  | request hnew => exact if_neg hnew
  | response hno => simp [Input.gives, hno]
  | ack => rfl

def World.harmless (w : World) : Dispatch → Bool
  | .response resp => !w.ua.state.any fun s => w.premature s resp
  | d => !d.ends || w.leavable

/-- What may harm the credit timer is done only where it has no effect. -/
def World.keepsCredit (w : World) : Input → Bool
  | .cancel _ _ =>
    w.leavable && (w.ua.cancelCb ≠ some .progressing || !w.ua.state.any UaState.isConnected)
  | .timeout (.credit _) => w.quiet
  | i => (i.gives w).all w.harmless

theorem reset_paid {μ : Meter} {s : Option UaState} {t : Time} {times : List (ℕ × Option Time)}
    (h : μ.credit.Paid s) : (μ.reset s t times).credit.Paid s := by
  unfold Meter.reset
  cases hs : s.any UaState.isConnected with
  | false =>
    rw [if_neg (by simp)]
    exact ⟨h.tight, h.off, fun hc => by simp [hs] at hc, h.fresh⟩
  | true =>
    rw [if_pos rfl]
    cases s with
    | none => cases hs
    | some s => exact Meter.start_paid t (Meter.creditOff_eq (μ := μ.extend times) h.tight) hs

theorem Given.gives_event {w : World} {i : Input} {e : CCEvent} {μ : Meter} (h : Given w i (.event e) μ) :
    ∃ e', i.gives w = some (.event e') ∧ e'.final = e.final := by
  cases h with
  | event => exact ⟨e, rfl, rfl⟩
  | updated hr => exact ⟨_, by simp [Input.gives, hr], rfl⟩
  | ending h => cases i <;> simp_all [Input.gives, Input.ending, CCEvent.final]

theorem premature_since {w w₁ : World} {s : UaState} {resp : Response} (hlate : w₁.ua.lateMedia = w.ua.lateMedia)
    (hsdps : w₁.io.sdps <:+ w.io.sdps) (h : w₁.premature s resp) : w.premature s resp := by
  simp only [World.premature, World.connects, hlate, Bool.and_eq_true] at h ⊢
  obtain ⟨x, hx, hr⟩ := List.any_eq_true.mp h.2
  exact ⟨h.1, List.any_eq_true.mpr ⟨x, hsdps.subset hx, hr⟩⟩

theorem Given.harmless {w : World} {i : Input} {d d' : Dispatch} {μ : Meter} (h : Given w i d μ)
    (hi : ∀ t, i ≠ .timeout (.credit t)) (hok : w.keepsCredit i) (hd' : i.gives w = some d') :
    w.harmless d' := by
  unfold World.keepsCredit at hok
  split at hok
  · cases h with
    | ending h => cases h
  · exact absurd rfl (hi _)
  · simpa [hd'] using hok

theorem Given.spares {w w₁ : World} {i : Input} {d : Dispatch} {s : UaState}
    (h : Given w i d w₁.meter) (hi : ∀ t, i ≠ .timeout (.credit t)) (hs : s ∈ w.ua.receiver d)
    (hw : Since (w.at (some s)) w₁) (hok : w.keepsCredit i) :
    (∀ resp, d = .response resp → ¬ w₁.premature s resp) ∧ (d.ends → w.leavable) := by
  have hlate : w₁.ua.lateMedia = w.ua.lateMedia := h.kept.2.2
  cases d with
  | event e =>
    obtain ⟨e', he', hfinal⟩ := h.gives_event
    refine ⟨by simp, fun hends => ?_⟩
    have hends : e'.final = true := hfinal.trans hends
    simpa [World.harmless, Dispatch.ends, hends] using h.harmless hi hok he'
  | request req =>
    refine ⟨by simp, fun hends => ?_⟩
    simpa [World.harmless, hends] using h.harmless hi hok (h.gives (by simp))
  | ack req => exact ⟨by simp, fun hends => by simp [Dispatch.ends] at hends⟩
  | response resp =>
    have hharmless := h.harmless hi hok (h.gives (by simp))
    refine ⟨?_, fun hends => by simp [Dispatch.ends] at hends⟩
    rintro resp' he hpremature
    obtain rfl : resp = resp' := by simpa using he
    rcases receiver_eq hs with hstate | ⟨hstate, -⟩
    · have := premature_since (w := w) hlate hw.sdps hpremature
      simp [World.harmless, hstate, this] at hharmless
    · simp [UA.receiver, hstate] at hs

theorem Turn.paid {w : World} {i : Input} {st : Option UaState} {μ : Meter} (h : Turn w i st μ)
    (hsound : w.ua.Sound) (hi : i.possible w.ua) (hok : w.keepsCredit i)
    (hw : w.meter.credit.Paid w.ua.state) : μ.credit.Paid st := by
  have hfound {s : UaState} {d : Dispatch} {ν : Meter} (hs : s ∈ w.ua.receiver d)
      (hν : ν.credit = w.meter.credit) : ν.credit.Paid (some s) := by
    rw [hν]
    rcases receiver_eq hs with hstate | ⟨hstate, hidle⟩
    · rwa [← hstate]
    · rw [hstate] at hw
      rcases hidle with rfl | rfl <;> exact hw.proceeds rfl rfl rfl
  have hstate {s : UaState} {d : Dispatch} (hs : s ∈ w.ua.receiver d) (hc : s = .connected) :
      w.ua.state = some .connected := by
    rcases receiver_eq hs with hstate | ⟨-, hidle⟩
    · rw [hstate, hc]
    · rcases hidle with rfl | rfl <;> cases hc
  have htimeout {d : Dispatch} {s : UaState} {w₁ : World} {r : Res} {ν : Meter} {t : Time}
      (hit : i = .timeout (.credit t)) (hg : Given w i d w₁.meter) (hs : s ∈ w.ua.receiver d)
      (hw₁ : Since (w.at (some s)) w₁) (ht : Tick w₁ s d r ν) :
      w₁.Calm ∧ r = .to .disconnected ∧ ν.credit.Paid (some .disconnected) := by
    subst hit
    have hlive : t ∈ w.ua.creditTimer.live := by simpa [Input.possible, TimerId.scheduled] using hi
    have hcalm : w.Calm := World.quiet_iff.mp hok
    have hcalm₁ : w₁.Calm := hw₁.calm hcalm
    have hconn : w.ua.state.any UaState.isConnected := by
      by_contra hno
      have hoff : w.ua.creditTimer = .off := hw.off_eq (by simpa using hno)
      simp [hoff, Alarm.off] at hlive
    have hs' : s.isConnected := by
      rcases receiver_eq hs with h | ⟨h, -⟩
      · simpa [h] using hconn
      · simp [h] at hconn
    have hready : Ready s w₁.ua := by
      have h := hsound.receiver hs
      exact Ready.since (w := w.at (some s)) ⟨h.resp, h.tr, h.target⟩ hw₁
    generalize hμ : w₁.meter = μ₁ at hg
    cases hg with
    | ending h =>
      obtain ⟨rfl, rfl⟩ : _ ∧ { w.meter with creditTimer := w.meter.creditTimer.fire t } = μ₁ := by
        simpa [Input.ending] using h
      obtain ⟨rfl, hcredit⟩ := ht.hangs_up rfl hcalm₁ hready hs'
      refine ⟨hcalm₁, rfl, ?_⟩
      have htight : w₁.meter.creditTimer.Tight := by
        rw [hμ]
        exact (Alarm.Tight.fire hw.tight hlive) ▸ Lib.Alarm.tight_off
      rw [hcredit]
      exact Meter.creditOff_paid htight rfl
  cases h with
  | rests | probes => exact hw
  | @handled _ d s w₁ r ν hg hs hw₁ ht hr =>
    by_cases hcredit : ∃ t, i = .timeout (.credit t)
    · obtain ⟨t, hit⟩ := hcredit
      obtain ⟨-, rfl, -⟩ := htimeout hit hg hs hw₁ ht
      cases hr
    · have hi : ∀ t, i ≠ .timeout (.credit t) := fun t h => hcredit ⟨t, h⟩
      have hsettles := ht.settles (hfound hs (hg.credit hi)) (hg.spares hi hs hw₁ hok).1
      cases r <;> first | exact hsettles | cases hr
  | @shifted _ d s s' w₁ ν _ _ hg hs hw₁ ht hshift =>
    by_cases hcredit : ∃ t, i = .timeout (.credit t)
    · obtain ⟨t, hit⟩ := hcredit
      obtain ⟨hcalm, hto, hpaid⟩ := htimeout hit hg hs hw₁ ht
      obtain rfl : s' = .disconnected := by simpa using hto
      exact hshift.paid hpaid (fun _ h => absurd hcalm h) (by simp)
    · have hi : ∀ t, i ≠ .timeout (.credit t) := fun t h => hcredit ⟨t, h⟩
      obtain ⟨hpremature, hleave⟩ := hg.spares hi hs hw₁ hok
      have hfound := hfound hs (hg.credit hi)
      obtain ⟨hpaid, hstuck⟩ := ht.settles hfound hpremature
      refine hshift.paid hpaid (fun hc hcalm hpending => ?_) ?_
      · have hc : s = .connected := Option.some.inj hc
        rcases hstuck hc with h | hends
        · exact h
        · obtain ⟨-, hka, hp⟩ := hg.dialog
          obtain ⟨hkaν, hpν⟩ := ht.pending hc
          have hpending : w.ua.kaTr ∨ w.ua.pendingTr :=
            hpending.imp (fun h => hka (hkaν ▸ h)) fun h => hp ▸ hpν ▸ h
          have hcalm' : w.Calm := calm_of_leavable (hleave hends) (hstate hs hc) hpending
          exact absurd (hw₁.calm hcalm') hcalm
      · rintro rfl
        obtain ⟨hs, hν⟩ := ht.dies
        have hcredit : ν.credit = w₁.meter.credit := by rcases hν with rfl | ⟨t, rfl⟩ <;> rfl
        refine ⟨?_, hcredit ▸ hfound⟩
        rcases hs with rfl | rfl <;> rfl
  | cancelled hcb hshift =>
    simp only [World.keepsCredit, hcb, Bool.and_eq_true, Bool.or_eq_true, Bool.not_eq_true', decide_eq_true_eq,
      ne_eq, not_true, false_or] at hok
    refine hshift.paid (by simpa using hw.ends hok.2 rfl) (fun hc => ?_) (by simp)
    simp [hc, UaState.isConnected] at hok
  | unupdated _ hshift =>
    simp only [World.keepsCredit, Bool.and_eq_true] at hok
    refine hshift.paid (Meter.creditOff_paid (μ := w.meter.hangUp) hw.tight rfl) (fun hc hcalm hp => ?_)
      (by simp)
    exact absurd (calm_of_leavable hok.1 hc hp) hcalm
  | resets => exact reset_paid hw
  | dies ht hshift =>
    have hover : w.ua.isOver := by
      refine hsound.ends ?_
      rcases ht with rfl | rfl
      · exact .inl (by simpa [Input.possible, TimerId.scheduled] using hi)
      · exact .inr (by simpa [Input.possible, TimerId.scheduled] using hi)
    have hs : w.ua.state.any UaState.isConnected = false := by
      have hover : w.ua.state.any UaState.terminated := hover
      cases hstate : w.ua.state with
      | none => rfl
      | some s => cases s <;> simp_all [UaState.terminated, UaState.isConnected]
    refine hshift.paid (hw.ends hs rfl) (fun hc => ?_) fun _ => ⟨hs, hw⟩
    simp [hc, UaState.isConnected] at hs
  | refers => simpa using hw

/-- What may harm the credit timer in a step. -/
def Mach.keepsCredit (m : Mach) (l : Label) : Bool :=
  match l.method m, l.io with
  | some i, some io => (m.world io).keepsCredit i
  | _, _ => true

theorem paid_step {m : Mach} {l : Label} (hok : m.keepsCredit l) (hsound : m.ua.Sound)
    (h : (m.ua.meter 0).credit.Paid m.ua.state) (hm : Metered m l (m.step l)) :
    ((m.step l).ua.meter 0).credit.Paid (m.step l).ua.state := by
  cases hm with
  | other hstate hmeter _ _ =>
    rw [hstate, hmeter]
    exact h
  | method i io hi hio hposs _ hturn _ =>
    have hkeeps : (m.world io).keepsCredit i := by simpa [Mach.keepsCredit, hi, hio] using hok
    exact hturn.paid hsound hposs hkeeps h

/-- A call is given its time once, when it is connected. -/
structure Credit.Same (c c' : Credit) : Prop where
  unspent : c'.unspent = c.unspent
  times : c'.times = c.times
  since : c'.since = c.since

/-- The call is connected, and its time is spent. -/
structure Credit.Connects (c c' : Credit) (t : Time) : Prop where
  unspent : c'.unspent = none
  times : c'.times = match c.unspent with
    | none => c.times
    | some x => putCreditTime c.times 0 (some (t + x))
  since : c'.since = some t

theorem Credit.Same.of_eq {c c' : Credit} (h : c' = c) : c.Same c' := by
  rw [h]
  exact ⟨rfl, rfl, rfl⟩

theorem Credit.Same.trans {c c' c'' : Credit} (h : c.Same c') (h' : c'.Same c'') : c.Same c'' :=
  ⟨h'.unspent.trans h.unspent, h'.times.trans h.times, h'.since.trans h.since⟩

theorem Credit.Connects.congr {c₀ c c' c'' : Credit} {t : Time} (h₀ : c₀.Same c) (h : c.Connects c' t)
    (h' : c'.Same c'') : c₀.Connects c'' t where
  unspent := h'.unspent.trans h.unspent
  times := by rw [h'.times, h.times, h₀.unspent, h₀.times]
  since := h'.since.trans h.since

namespace Meter
variable {μ : Meter}

theorem creditOff_same : μ.credit.Same μ.creditOff.credit := ⟨rfl, rfl, rfl⟩

theorem connected_connects (t : Time) : μ.credit.Connects (μ.connected t).credit t := by
  unfold connected start armCredit
  split
  · exact ⟨rfl, rfl, rfl⟩
  · exact ⟨rfl, rfl, rfl⟩

end Meter

/-- A handler leaves the terms of the call as they are, or connects it. -/
theorem Tick.spends {w : World} {s : UaState} {d : Dispatch} {r : Res} {μ : Meter} (h : Tick w s d r μ) :
    w.meter.credit.Same μ.credit ∨ ∃ t, w.meter.credit.Connects μ.credit t := by
  have hsame {ν : Meter} (hν : ν.credit = w.meter.credit) : w.meter.credit.Same ν.credit := .of_eq hν
  have hconnects {ν ν' : Meter} {t : Time} (hν : w.meter.credit.Same ν.credit)
      (hν' : ν'.credit = (ν.connected t).credit) : ∃ t, w.meter.credit.Connects ν'.credit t :=
    ⟨t, (Meter.connected_connects t).congr hν (.of_eq hν')⟩
  cases h with
  | answers => exact .inr (hconnects (hsame Meter.credit_expireOff) (Meter.credit_left _))
  | acks | accepts => exact .inr (hconnects (Meter.creditOff_same (μ := w.meter.expireOff)) rfl)
  | answered => exact .inr (hconnects (hsame (by simp)) rfl)
  | broken _ _ _ _ _ hν =>
    rcases hν with ⟨-, rfl⟩ | rfl
    · exact .inr (hconnects (hsame (by simp)) rfl)
    · exact .inl (hsame (by simp))
  | spoiled _ _ _ hν =>
    rcases hν with ⟨-, ⟨-, rfl⟩ | rfl⟩ | ⟨-, rfl⟩
    · exact .inr (hconnects (hsame (by simp)) rfl)
    · exact .inl (hsame (by simp))
    · exact .inl (hsame (by simp))
  | hungUp => exact .inl Meter.creditOff_same
  | hangsUp | failsUpdate => exact .inl (Meter.creditOff_same (μ := w.meter.hangUp))
  | _ => exact .inl (hsame (by simp))

theorem Shift.spends {w : World} {s st : Option UaState} {s' : UaState} {ν μ : Meter}
    (h : Shift w s ν s' st μ) : ν.credit.Same μ.credit := by
  have hleft {t : UaState} : ν.credit.Same ((ν.leave s).enter t).credit := by
    have hleave : ν.credit.Same (ν.leave s).credit := .of_eq (by simp)
    exact hleave.trans (by cases t <;> exact ⟨rfl, rfl, rfl⟩)
  cases h with
  | done => exact hleft
  | stuck => exact ⟨rfl, rfl, rfl⟩
  | unburied => exact hleft

theorem Given.spends {w : World} {i : Input} {d : Dispatch} {μ : Meter} (h : Given w i d μ) :
    w.meter.credit.Same μ.credit := by
  cases h with
  | ending h =>
    cases i with
    | timeout t => cases t <;> simp [Input.ending] at h <;> obtain ⟨-, rfl⟩ := h <;> exact ⟨rfl, rfl, rfl⟩
    | disconnect | noack | keepAliveResp =>
      simp only [Input.ending, Option.some.injEq, Prod.mk.injEq] at h
      obtain ⟨-, rfl⟩ := h
      exact ⟨rfl, rfl, rfl⟩
    | _ => cases h
  | _ => exact ⟨rfl, rfl, rfl⟩

/-- A method that does not set the limits itself. -/
theorem Turn.spends {w : World} {i : Input} {st : Option UaState} {μ : Meter} (h : Turn w i st μ)
    (hi : ∀ t times, i ≠ .resetCreditTime t times) :
    w.meter.credit.Same μ.credit ∨ ∃ t, w.meter.credit.Connects μ.credit t := by
  cases h with
  | rests | probes => exact .inl ⟨rfl, rfl, rfl⟩
  | handled hg hs hw ht hr =>
    rcases ht.spends with h | ⟨t, h⟩
    · exact .inl (hg.spends.trans h)
    · exact .inr ⟨t, h.congr hg.spends (.of_eq rfl)⟩
  | shifted hg hs hw ht hshift =>
    rcases ht.spends with h | ⟨t, h⟩
    · exact .inl ((hg.spends.trans h).trans hshift.spends)
    · exact .inr ⟨t, h.congr hg.spends hshift.spends⟩
  | cancelled _ hshift => exact .inl (hshift.spends)
  | unupdated _ hshift => exact .inl ((Meter.creditOff_same (μ := w.meter.hangUp)).trans hshift.spends)
  | resets => exact absurd rfl (hi _ _)
  | dies _ hshift => exact .inl hshift.spends
  | refers => exact .inl ⟨rfl, rfl, rfl⟩

/-- The limits of the call are set from outside. -/
def Label.resets : Label → Bool
  | .input (.resetCreditTime _ _) _ => true
  | _ => false

theorem spends_step {m : Mach} {l : Label} (hl : l.resets = false) (hm : Metered m l (m.step l)) :
    (m.ua.meter 0).credit.Same ((m.step l).ua.meter 0).credit ∨
      ∃ t, (m.ua.meter 0).credit.Connects ((m.step l).ua.meter 0).credit t := by
  cases hm with
  | other _ hmeter _ _ => exact .inl (.of_eq (congrArg Meter.credit (hmeter 0)))
  | method i io hi _ _ _ hturn _ =>
    refine hturn.spends fun t times hreset => ?_
    subst hreset
    rcases method_cases hi with ⟨io', rfl⟩ | ⟨e, io', rest, -, he, -⟩
    · cases hl
    · cases he

/-- The call was connected by a step of the run, at the time that its limit counts from. -/
def ConnectedAt (ua : UA) (limit : Time) (ls : List Label) (T : Time) : Prop :=
  ∃ ls₁ l ls₂, ls = ls₁ ++ l :: ls₂ ∧ (run Mach.step (.start ua) ls₁).ua.connectTs = none ∧
    (run Mach.step (.start ua) (ls₁ ++ [l])).ua.connectTs = some T ∧
    (run Mach.step (.start ua) ls).ua.creditTimes = [(0, some (T + limit))]

/-- Either the call has its time still, or it was connected once and its limit counts from then. -/
theorem limit_run {ua : UA} (hua : ua.Unused) (htimes : ua.creditTimes = []) {limit : Time}
    (hlimit : ua.creditTime = some limit) {ls : List Label} (hls : ∀ l ∈ ls, l.resets = false) :
    let ua' := (run Mach.step (.start ua) ls).ua
    (ua'.creditTime = some limit ∧ ua'.creditTimes = [] ∧ ua'.connectTs = none) ∨
      (∃ T, ConnectedAt ua limit ls T) ∧ ua'.creditTime = none := by
  induction ls using List.reverseRecOn with
  | nil => exact .inl ⟨hlimit, htimes, hua.connectTs⟩
  | append_singleton ls l ih =>
    obtain ⟨m, hm⟩ : ∃ m, m = run Mach.step (.start ua) ls := ⟨_, rfl⟩
    have hstep : run Mach.step (.start ua) (ls ++ [l]) = m.step l := by
      rw [Lib.run_append, ← hm]
      rfl
    have hsound : m.ua.Sound := hm ▸
      Lib.run_invariant (I := fun m : Mach => m.ua.Sound) (fun m l h => (m.metered l h).1) hua.sound ls
    have hih := ih fun l' hl' => hls l' (List.mem_append_left _ hl')
    rw [← hm] at hih
    have hspends := spends_step (hls l (by simp)) (m.metered l hsound).2
    dsimp only at hih ⊢
    rw [hstep]
    rcases hih with ⟨hunspent, hnone, hsince⟩ | ⟨⟨T, ls₁, l', ls₂, rfl, hbefore, hafter, hspent⟩, hunspent⟩
    · rcases hspends with hsame | ⟨t, hconnects⟩
      · exact .inl ⟨hsame.unspent.trans hunspent, hsame.times.trans hnone, hsame.since.trans hsince⟩
      · have htimes : (m.step l).ua.creditTimes = [(0, some (t + limit))] := by
          refine hconnects.times.trans ?_
          rw [show (m.ua.meter 0).credit.unspent = some limit from hunspent,
            show (m.ua.meter 0).credit.times = [] from hnone]
          rfl
        refine .inr ⟨⟨t, ls, l, [], rfl, ?_, ?_, ?_⟩, hconnects.unspent⟩
        · rw [← hm]
          exact hsince
        · rw [hstep]
          exact hconnects.since
        · rw [hstep]
          exact htimes
    · rw [← hm] at hspent
      have hkept : (m.step l).ua.creditTimes = m.ua.creditTimes ∧ (m.step l).ua.creditTime = none := by
        rcases hspends with hsame | ⟨t, hconnects⟩
        · exact ⟨hsame.times, hsame.unspent.trans hunspent⟩
        · refine ⟨hconnects.times.trans ?_, hconnects.unspent⟩
          rw [show (m.ua.meter 0).credit.unspent = none from hunspent]
          rfl
      refine .inr ⟨⟨T, ls₁, l', ls₂ ++ [l], by simp, hbefore, hafter, ?_⟩, hkept.2⟩
      rw [hstep, hkept.1]
      exact hspent

theorem paid_run {ua : UA} (hua : ua.Unused) {ls : List Label}
    (hls : Along Mach.step (fun m l => m.keepsCredit l) (.start ua) ls) :
    ((run Mach.step (.start ua) ls).ua.meter 0).credit.Paid (run Mach.step (.start ua) ls).ua.state := by
  refine run_metered (I := fun m => (m.ua.meter 0).credit.Paid m.ua.state)
    (fun m l hok hsound h hm => paid_step hok hsound h hm) hua ?_ hls
  have hoff : ((Mach.start ua).ua.meter 0).credit.timer = .off := hua.creditTimer
  exact ⟨hoff ▸ Lib.Alarm.tight_off, fun _ => by rw [hoff]; rfl,
    fun hc => by simp [Mach.start, hua.state] at hc, fun _ _ => hua.connectTs⟩

/-- A call that is connected runs until its time is used up. -/
theorem paid_until {ua : UA} (hua : ua.Unused) (htimes : ua.creditTimes = []) {limit : Time}
    (hlimit : ua.creditTime = some limit) {ls : List Label} (hresets : ∀ l ∈ ls, l.resets = false)
    (hls : Along Mach.step (fun m l => m.keepsCredit l) (.start ua) ls)
    (hconn : (run Mach.step (.start ua) ls).ua.state.any UaState.isConnected)
    (hsince : (run Mach.step (.start ua) ls).ua.connectTs.isSome) :
    ∃ T, ConnectedAt ua limit ls T ∧ (run Mach.step (.start ua) ls).ua.creditTimer.live = [T + limit] := by
  have hpaid := paid_run hua hls
  rcases limit_run hua htimes hlimit hresets with ⟨-, -, hnone⟩ | ⟨⟨T, hat⟩, -⟩
  · rw [hnone] at hsince
    cases hsince
  · refine ⟨T, hat, ?_⟩
    obtain ⟨_, _, _, -, -, -, hspent⟩ := hat
    have hearliest : Meter.earliest (run Mach.step (.start ua) ls).ua.creditTimes = some (T + limit) := by
      rw [hspent]
      rfl
    have href : (run Mach.step (.start ua) ls).ua.creditTimer.ref = some (T + limit) :=
      (hpaid.running hconn hsince).trans hearliest
    have htight : (run Mach.step (.start ua) ls).ua.creditTimer.live =
        (run Mach.step (.start ua) ls).ua.creditTimer.ref.toList := hpaid.tight
    rw [htight, href]
    rfl

/-- At most one credit timer runs, in a connected state only, and in a call that is paid for it
runs until the earliest limit. -/
theorem credit_timer {ua : UA} (hua : ua.Unused) {ls : List Label}
    (hls : Along Mach.step (fun m l => m.keepsCredit l) (.start ua) ls) :
    let ua' := (run Mach.step (.start ua) ls).ua
    ua'.creditTimer.live.length ≤ 1 ∧
      (ua'.creditTimer.live ≠ [] → ua'.state.any UaState.isConnected) ∧
      (ua'.state.any UaState.isConnected → ua'.connectTs.isSome →
        ∀ t, Meter.earliest ua'.creditTimes = some t → ua'.creditTimer.live = [t]) := by
  intro ua'
  have hpaid : (ua'.meter 0).credit.Paid ua'.state := paid_run hua hls
  have htight : ua'.creditTimer.live = ua'.creditTimer.ref.toList := hpaid.tight
  refine ⟨?_, fun hlive => ?_, fun hc hsince t ht => ?_⟩
  · rw [htight]
    cases ua'.creditTimer.ref <;> simp
  · by_contra hno
    have hoff : ua'.creditTimer.ref = none := hpaid.off (by simpa using hno)
    exact hlive (by rw [htight, hoff]; rfl)
  · have href : ua'.creditTimer.ref = some t := (hpaid.running hc hsince).trans ht
    rw [htight, href]
    rfl

def creditedUA : UA := { namedUA with creditTime := some (60 * second), onRemote := true }

theorem creditedUA_unused : creditedUA.Unused := by constructor <;> rfl

def creditedAnswer (sdp : SdpRet) : Label :=
  .input (.response { Response.bare 200 .invite 1 with
    rtime := 100 * second, body := some (sampleBody ['y']) } []) { Io.calm with sdps := [sdp] }

def creditedCall (sdp : SdpRet) : Mach :=
  run Mach.step (.start creditedUA) (billedCall.take 2 ++ [creditedAnswer sdp])

/-- A call that is answered runs until its credit is used up. -/
theorem credit_timer_runs :
    (creditedCall (.body (sampleBody ['z']))).ua.creditTimer.live = [160 * second] :=
  (@credit_timer _ creditedUA_unused
    (billedCall.take 2 ++ [creditedAnswer (.body (sampleBody ['z']))]) (by decide)).2.2 (by decide) (by decide) _ (by decide)

/-- The SDP of the answer cannot be handled: the call has failed, and its credit timer runs. -/
theorem brokenAnswer_keeps_timer :
    let ua := (creditedCall (.raise ⟨.sdpParse, []⟩)).ua
    ua.state = some .failed ∧ ua.creditTimer = ⟨some (160 * second), [160 * second]⟩ := by decide

end SippyB2bua.Ua
