import SippyB2bua.Ua.Bill

/-!
# At most one BYE

A user agent that has sent a BYE or a REFER has left its call for good. Only the responses
to a REFER, a connected state that cannot be left, and a CANCEL that comes too late make it
send another BYE.
-/

namespace SippyB2bua.Ua
open Lib (Text run Along)

def UaState.ended (s : UaState) : Bool := s.terminated && s ≠ .uacCancelling

namespace Meter
variable {μ : Meter}

@[simp] theorem hangups_hangUp : μ.hangUp.hangups = μ.hangups + 1 := rfl
@[simp] theorem hangups_expireOff : μ.expireOff.hangups = μ.hangups := rfl
@[simp] theorem hangups_noProgressOff : μ.noProgressOff.hangups = μ.hangups := rfl
@[simp] theorem hangups_noReplyOff : μ.noReplyOff.hangups = μ.hangups := rfl
@[simp] theorem hangups_creditOff : μ.creditOff.hangups = μ.hangups := rfl
@[simp] theorem hangups_late : μ.late.hangups = μ.hangups := rfl
@[simp] theorem hangups_onTime : μ.onTime.hangups = μ.hangups := rfl
@[simp] theorem hangups_setup (t : Time) : (μ.setup t).hangups = μ.hangups := rfl
@[simp] theorem hangups_connect (t : Time) : (μ.connect t).hangups = μ.hangups := rfl
@[simp] theorem hangups_disconnect (t : Time) : (μ.disconnect t).hangups = μ.hangups := rfl

@[simp] theorem hangups_offered (t : Time) (b : Bool) : (μ.offered t b).hangups = μ.hangups := rfl

@[simp] theorem hangups_start (t : Time) : (μ.start t).hangups = μ.hangups := by
  unfold start armCredit
  split <;> rfl

@[simp] theorem hangups_connected (t : Time) : (μ.connected t).hangups = μ.hangups := by
  unfold connected
  rw [hangups_connect, hangups_start]

@[simp] theorem hangups_left (s : UaState) : (μ.left s).hangups = μ.hangups := by
  unfold left
  split <;> rfl

@[simp] theorem hangups_progressed (b : Bool) : (μ.progressed b).hangups = μ.hangups := by
  unfold progressed
  split_ifs <;> rfl

@[simp] theorem hangups_replied (scode : ℤ) : (μ.replied scode).hangups = μ.hangups := by
  unfold replied
  split_ifs <;> rfl

@[simp] theorem hangups_heard (s : UaState) (scode : ℤ) : (μ.heard s scode).hangups = μ.hangups := by
  unfold heard
  split_ifs <;> simp

@[simp] theorem hangups_deadlines (t : Time) : (μ.deadlines t).hangups = μ.hangups := by
  unfold deadlines expireBy progressBy
  split <;> split <;> rfl

@[simp] theorem hangups_armFirst : μ.armFirst.hangups = μ.hangups := by
  unfold armFirst
  split_ifs <;> rfl

@[simp] theorem hangups_invited (t : Time) : (μ.invited t).hangups = μ.hangups := by simp [invited]

@[simp] theorem hangups_inviting (t : Time) : (μ.inviting t).hangups = μ.hangups := by
  have hreply : (μ.deadlines t).replyDeadline.hangups = μ.hangups := hangups_deadlines t
  unfold inviting armReply
  split
  · exact hreply
  · rw [hangups_armFirst, hreply]

@[simp] theorem hangups_leave (s : Option UaState) : (μ.leave s).hangups = μ.hangups := by
  unfold leave
  split <;> rfl

@[simp] theorem hangups_enter (s : UaState) : (μ.enter s).hangups = μ.hangups := by cases s <;> rfl

@[simp] theorem hangups_reset (s : Option UaState) (t : Time) (times : List (ℕ × Option Time)) :
    (μ.reset s t times).hangups = μ.hangups := by
  unfold reset
  split
  · rw [hangups_start]
    rfl
  · rfl

end Meter

theorem Tick.hangups {w : World} {s : UaState} {d : Dispatch} {r : Res} {μ : Meter} (h : Tick w s d r μ) :
    μ.hangups = w.meter.hangups ∨
      μ.hangups = w.meter.hangups + 1 ∧ s.ended = false ∧
        (s = .connected → ∃ e, d = .event e ∧ e.final) ∧
        ∃ s', r = .to s' ∧ (s' = .failed ∨ s' = .disconnected) := by
  have hcalling (hs : s.calling) : s.ended = false ∧ s ≠ .connected := by
    cases s <;> simp_all [UaState.calling, UaState.ended, UaState.terminated]
  cases h with
  | idle | updated | updates | reinvites | invited | trying | rings | answers | preAnswers | refuses
  | stopped | hungUp | acks | waits | accepts | sets | invites | drops | provisional | unheard | unread
  | answered | late | rejected | cancels | cancelsRinging | gone => exact .inl (by simp)
  | hangsUp hs hk =>
    refine .inr ⟨by simp, ?_, fun _ => ⟨_, rfl, hk⟩, _, rfl, .inr rfl⟩
    cases s <;> simp_all [UaState.isConnected, UaState.ended, UaState.terminated]
  | failsUpdate => exact .inr ⟨by simp, rfl, by simp, _, rfl, .inr rfl⟩
  | untagged hs =>
    exact .inr ⟨by simp, (hcalling hs).1, fun h => absurd h (hcalling hs).2, _, rfl, .inl rfl⟩
  | broken hs hcode hlt hex he hν =>
    rcases hν with ⟨-, rfl⟩ | rfl <;> exact .inl (by simp)
  | @spoiled _ _ ν hs hcode hlt hν =>
    have hν : ν.hangups = w.meter.hangups := by
      rcases hν with ⟨-, ⟨-, rfl⟩ | rfl⟩ | ⟨-, rfl⟩ <;> simp
    exact .inr ⟨by simp [hν], (hcalling hs).1, fun h => absurd h (hcalling hs).2, _, rfl, .inl rfl⟩
  | tooLate => exact .inr ⟨by simp, rfl, by simp, _, rfl, .inr rfl⟩

theorem Tick.pending {w : World} {s s' : UaState} {d : Dispatch} {μ : Meter} (h : Tick w s d (.to s') μ)
    (hs : s = .connected) : μ.kaTr = w.meter.kaTr ∧ μ.pendingTr = w.meter.pendingTr := by
  subst hs
  cases h with
  | idle hr | acks hr | waits hr | accepts hr => simp [Res.keeps] at hr
  | updated h => simp at h
  | updates | reinvites | hungUp | hangsUp => exact ⟨rfl, rfl⟩
  | answers h | preAnswers h | refuses h => simp [UaState.progressing] at h
  | provisional h | unheard h | untagged h | answered h | late h | spoiled h | rejected h =>
    simp [UaState.calling] at h

theorem Given.dialog {w : World} {i : Input} {d : Dispatch} {μ : Meter} (h : Given w i d μ) :
    μ.hangups = w.meter.hangups ∧ (μ.kaTr → w.ua.kaTr) ∧ μ.pendingTr = w.ua.pendingTr := by
  cases h with
  | ending h =>
    cases i with
    | timeout t => cases t <;> simp [Input.ending] at h <;> obtain ⟨-, rfl⟩ := h <;> exact ⟨rfl, id, rfl⟩
    | disconnect | noack =>
      simp only [Input.ending, Option.some.injEq, Prod.mk.injEq] at h
      obtain ⟨-, rfl⟩ := h
      exact ⟨rfl, id, rfl⟩
    | keepAliveResp =>
      simp only [Input.ending, Option.some.injEq, Prod.mk.injEq] at h
      obtain ⟨-, rfl⟩ := h
      exact ⟨rfl, by simp, rfl⟩
    | _ => cases h
  | _ => exact ⟨rfl, id, rfl⟩

def Input.ends (w : World) : Input → Bool
  | .cancel _ _ => true
  | i => (i.gives w).any fun d =>
    match d with
    | .event e => e.final
    | _ => false

theorem Given.ends {w : World} {i : Input} {e : CCEvent} {μ : Meter} (h : Given w i (.event e) μ)
    (he : e.final) : i.ends w := by
  cases h with
  | event => exact he
  | updated hr => simpa [Input.ends, Input.gives, hr] using he
  | ending h => cases i <;> simp_all [Input.ends, Input.gives, Input.ending, CCEvent.final]

theorem Tick.not_ended {w : World} {s s' : UaState} {d : Dispatch} {μ : Meter}
    (h : Tick w s d (.to s') μ) : s.ended = false := by
  cases h with
  | idle hr | acks hr | waits hr | accepts hr | sets hr => simp [Res.keeps] at hr
  | updated h => rcases h with rfl | rfl <;> rfl
  | hungUp h | hangsUp h =>
    cases s <;> simp_all [UaState.isConnected, UaState.ended, UaState.terminated]
  | answers h | preAnswers h | refuses h =>
    cases s <;> simp_all [UaState.progressing, UaState.ended, UaState.terminated]
  | provisional h | unheard h | untagged h | answered h | late h | spoiled h | rejected h =>
    cases s <;> simp_all [UaState.calling, UaState.ended, UaState.terminated]
  | updates | reinvites | trying | rings | stopped | failsUpdate | invites | drops | cancels
  | cancelsRinging | tooLate | gone => rfl

theorem Shift.hangups {w : World} {s st : Option UaState} {s' : UaState} {ν μ : Meter}
    (h : Shift w s ν s' st μ) : μ.hangups = ν.hangups := by
  cases h with
  | done => simp
  | stuck => rfl
  | unburied => simp

def UA.ended (ua : UA) : Bool := ua.state.any UaState.ended

theorem Shift.ended {w : World} {s st : Option UaState} {s' : UaState} {ν μ : Meter}
    (h : Shift w s ν s' st μ) (hs' : s'.ended) (hs : s.any UaState.ended) : st.any UaState.ended := by
  cases h with
  | done => exact hs'
  | stuck => exact hs
  | unburied => exact hs

/-- A user agent that has left its call sends no BYE, unless it is made to. -/
theorem Turn.ended {w : World} {i : Input} {st : Option UaState} {μ : Meter} (h : Turn w i st μ)
    (hs : w.ua.ended) (hrefer : i ≠ .referResp)
    (hcancel : ∀ rtime reason, i = .cancel rtime reason → w.ua.cancelCb ≠ some .updating) :
    μ.hangups = w.meter.hangups ∧ st.any UaState.ended := by
  have hreceiver {s : UaState} {d : Dispatch} (h : s ∈ w.ua.receiver d) : s.ended := by
    rcases receiver_eq h with h | ⟨h, -⟩
    · simpa [UA.ended, h] using hs
    · simp [UA.ended, h] at hs
  cases h with
  | rests | probes => exact ⟨rfl, hs⟩
  | handled hg hr _ ht =>
    refine ⟨?_, hreceiver hr⟩
    rcases ht.hangups with h | ⟨-, h, -⟩
    · exact h.trans hg.dialog.1
    · simp [hreceiver hr] at h
  | shifted _ hr _ ht => exact absurd ht.not_ended (by simp [hreceiver hr])
  | cancelled _ h => exact ⟨h.hangups, h.ended rfl hs⟩
  | unupdated hcb => exact absurd hcb (hcancel _ _ rfl)
  | resets => exact ⟨by simp, hs⟩
  | dies _ h => exact ⟨h.hangups, h.ended rfl hs⟩
  | refers => exact absurd rfl hrefer

def World.leavable (w : World) : Bool :=
  w.ua.state ≠ some .connected || !(w.ua.kaTr || w.ua.pendingTr) || w.quiet

theorem calm_of_leavable {w : World} (h : w.leavable) (hs : w.ua.state = some .connected)
    (hp : w.ua.kaTr ∨ w.ua.pendingTr) : w.Calm := by
  have hpending : (w.ua.kaTr || w.ua.pendingTr) = true := by simpa using hp
  refine World.quiet_iff.mp ?_
  simpa [World.leavable, hs, hpending] using h

theorem Turn.hungUp {w : World} {i : Input} {st : Option UaState} {μ : Meter} (h : Turn w i st μ)
    (hrefer : i ≠ .referResp) (hleave : i.ends w → w.leavable) :
    μ.hangups = w.meter.hangups ∨
      μ.hangups = w.meter.hangups + 1 ∧ st.any UaState.ended := by
  cases h with
  | rests | probes => exact .inl rfl
  | handled hg hr _ ht =>
    rcases ht.hangups with h | ⟨-, -, -, s', h, -⟩
    · exact .inl (h.trans hg.dialog.1)
    · subst h
      rename_i hkeeps
      simp [Res.keeps] at hkeeps
  | @shifted _ d s s' w₁ ν _ _ hg hr hw ht hshift =>
    obtain ⟨hhangups, hka, hpending⟩ := hg.dialog
    rcases ht.hangups with h | ⟨h, -, hconn, s'', hto, hs''⟩
    · exact .inl (hshift.hangups.trans (h.trans hhangups))
    · obtain rfl : s' = s'' := by simpa using hto
      refine .inr ⟨hshift.hangups.trans (h.trans (congrArg (· + 1) hhangups)), ?_⟩
      cases hshift with
      | done => rcases hs'' with rfl | rfl <;> rfl
      | unburied hdead => rcases hs'' with rfl | rfl <;> cases hdead
      | stuck p hs hcalm hν =>
        obtain rfl : s = .connected := Option.some.inj hs
        obtain ⟨e, rfl, he⟩ := hconn rfl
        obtain ⟨hkaν, hpendingν⟩ := ht.pending rfl
        have hstate : w.ua.state = some .connected := by
          rcases receiver_eq hr with h | ⟨-, h⟩
          · exact h
          · rcases h with h | h <;> cases h
        have hp : w.ua.kaTr ∨ w.ua.pendingTr := by
          refine hν.imp (fun h => hka (hkaν ▸ h)) fun h => ?_
          rw [← hpending, ← hpendingν]
          exact h
        have hcalm' : w.Calm := calm_of_leavable (hleave (hg.ends he)) hstate hp
        exact absurd (hw.calm hcalm') hcalm
  | cancelled _ h => exact .inl h.hangups
  | unupdated _ hshift =>
    refine .inr ⟨hshift.hangups, ?_⟩
    cases hshift with
    | done => rfl
    | stuck p hs hcalm hν => exact absurd (calm_of_leavable (hleave rfl) hs hν) hcalm
    | unburied hdead => cases hdead
  | resets => exact .inl (by simp)
  | dies _ h => exact .inl h.hangups
  | refers => exact absurd rfl hrefer

theorem Turn.referred {w : World} {st : Option UaState} {μ : Meter} (h : Turn w .referResp st μ) :
    st = w.ua.state ∧ μ.hangups ≤ w.meter.hangups + 1 := by
  cases h with
  | rests => exact ⟨rfl, Nat.le_succ _⟩
  | probes => exact ⟨rfl, Nat.le_succ _⟩
  | refers => exact ⟨rfl, le_refl _⟩
  | handled hg | shifted hg =>
    cases hg with
    | ending h => cases h

def Act.sends (method : Method) : Act → Bool
  | .request r => r.method = method
  | _ => false

def Mach.sent (m : Mach) (method : Method) : ℕ := m.log.countP (Act.sends method)

/-- What may end the call once more is done only where that has no effect. -/
def Mach.endsOnce (m : Mach) (l : Label) : Bool :=
  match l.method m, l.io with
  | some .referResp, some _ => 0 < m.sent .refer && m.sent .bye = 0
  | some (.cancel _ _), some io =>
    (m.ua.cancelCb ≠ some .updating || m.hangups = 0) && (m.world io).leavable
  | some i, some io => !i.ends (m.world io) || (m.world io).leavable
  | _, _ => true

theorem Mach.sent_le_hangups (m : Mach) {method : Method} (h : method = .bye ∨ method = .refer) :
    m.sent method ≤ m.hangups := by
  refine List.countP_mono_left fun a _ ha => ?_
  cases a with
  | request r => rcases h with rfl | rfl <;> simp_all [Act.sends, Act.hangsUp]
  | _ => simp [Act.sends] at ha

theorem Mach.step_log (m : Mach) (l : Label) : ∃ acts, (m.step l).log = m.log ++ acts := by
  obtain ⟨i, io, rest, -, -, -, -, h⟩ | ⟨io, d, es, todo, -, -, -, -, h⟩ |
    ⟨es, n, cb, todo, -, -, -, -, h⟩ := m.step_cases l
  · rw [h]
    unfold Mach.exec
    split <;> exact ⟨_, rfl⟩
  · exact ⟨[.event d], by rw [h]⟩
  · exact ⟨[], by rw [h, List.append_nil]⟩

theorem Mach.step_sent (m : Mach) (l : Label) :
    (m.step l).sent .bye + m.hangups ≤ m.sent .bye + (m.step l).hangups := by
  obtain ⟨acts, h⟩ := m.step_log l
  have hacts : acts.countP (Act.sends .bye) ≤ acts.countP Act.hangsUp :=
    (⟨m.ua, m.seq, [], acts⟩ : Mach).sent_le_hangups (.inl rfl)
  simp only [Mach.sent, Mach.hangups, h, List.countP_append]
  omega

/-- At most one BYE was sent, and none or one REFER before the call was left. -/
structure Mach.HungUp (m : Mach) : Prop where
  once : m.sent .bye ≤ 1
  left : 0 < m.hangups → m.ua.ended

theorem hungUp_step {m : Mach} {l : Label} (hok : m.endsOnce l) (h : m.HungUp)
    (hm : Metered m l (m.step l)) : (m.step l).HungUp := by
  have hsent := m.step_sent l
  have hbyes : m.sent .bye ≤ m.hangups := m.sent_le_hangups (.inl rfl)
  cases hm with
  | other hstate _ hlog _ =>
    rw [hlog] at hsent
    refine ⟨?_, fun hm => ?_⟩
    · have := h.once
      omega
    · rw [UA.ended, hstate]
      exact h.left (hlog ▸ hm)
  | method i io hi hio hposs hlog hturn _ =>
    unfold Mach.endsOnce at hok
    rw [hi, hio] at hok
    by_cases hrefer : i = .referResp
    · -- the response to a REFER is the only one that is answered with a BYE
      subst hrefer
      simp only [Bool.and_eq_true, decide_eq_true_eq] at hok
      have hrefers : m.sent .refer ≤ m.hangups := m.sent_le_hangups (.inr rfl)
      obtain ⟨hstate, hle⟩ := hturn.referred
      have hone : (m.step l).hangups - m.hangups ≤ 1 := hle
      refine ⟨by omega, fun _ => ?_⟩
      rw [UA.ended, hstate]
      exact h.left (by omega)
    · have hleave : i.ends (m.world io) → (m.world io).leavable := by
        intro hends
        cases i <;> simp_all
      have hcancel : 0 < m.hangups → ∀ rtime reason, i = .cancel rtime reason →
          (m.world io).ua.cancelCb ≠ some .updating := by
        rintro hpos rtime reason rfl
        simp only [Bool.and_eq_true, Bool.or_eq_true, decide_eq_true_eq] at hok
        exact hok.1.resolve_right (by omega)
      rcases Nat.eq_zero_or_pos m.hangups with hnone | hpos
      · rcases hturn.hungUp hrefer hleave with h' | ⟨h', hended⟩
        · have hnone' : (m.step l).hangups - m.hangups = 0 := h'
          exact ⟨by omega, fun hm => absurd hm (by omega)⟩
        · have hone : (m.step l).hangups - m.hangups = 1 := h'
          exact ⟨by omega, fun _ => hended⟩
      · obtain ⟨h', hended⟩ := hturn.ended (h.left hpos) hrefer (hcancel hpos)
        have hsame : (m.step l).hangups - m.hangups = 0 := h'
        have := h.once
        exact ⟨by omega, fun _ => hended⟩

/-- A user agent sends at most one BYE. -/
theorem one_bye {ua : UA} (hua : ua.Unused) {ls : List Label}
    (hls : Along Mach.step (fun m l => m.endsOnce l) (.start ua) ls) :
    (run Mach.step (.start ua) ls).sent .bye ≤ 1 := by
  refine (run_metered (I := Mach.HungUp) (fun m l hok _ h hm => hungUp_step hok h hm) hua ?_ hls).once
  exact ⟨Nat.zero_le 1, fun h => absurd h (Nat.lt_irrefl 0)⟩

def transfer : Input :=
  .event ⟨.disconnect (some ['t']), 130 * second, none, 12, none⟩

def transferredCall : List Label :=
  billedCall ++ [.input transfer .calm, .tau .calm, .input .referResp .calm]

theorem one_bye_transferred : (run Mach.step (.start namedUA) transferredCall).sent .bye ≤ 1 :=
  one_bye namedUA_unused (by decide)

/-- The REFER is answered with a 100 and a 202, and a BYE is sent for each of them. -/
theorem answeredRefer_two_byes :
    let m := run Mach.step (.start namedUA) (transferredCall ++ [.input .referResp .calm])
    m.sent .refer = 1 ∧ ¬ m.sent .bye ≤ 1 := by decide

end SippyB2bua.Ua
