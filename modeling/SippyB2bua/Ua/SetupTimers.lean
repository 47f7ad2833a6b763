import SippyB2bua.Ua.Credit

/-!
# The timers of the setup

Three timers watch over a call that is being set up: the first answer, the first progress and
the end of the setup each have a limit. One hands over to the next, and a user agent with a
limit for the whole setup is to have one of them running until its call is answered.
-/

namespace SippyB2bua.Ua
open Lib (Text Alarm run Along)

/-- The limits of the setup, and the timers that keep them. -/
structure Watch where
  expireTime : Option Time
  expireMtime : Time
  expire : Alarm
  noProgressTime : Option Time
  noProgressMtime : Time
  noProgress : Alarm
  noReply : Alarm

namespace Watch
variable {t : Watch}

/-- No timer is running. -/
structure Idle (t : Watch) : Prop where
  limited : t.expireTime.isSome
  expire : t.expire = .off
  noProgress : t.noProgress = .off
  noReply : t.noReply = .off

/-- One timer is running, and it ends before the setup has to. -/
inductive Runs (t : Watch) : Prop
  | expire (he : t.expire = Alarm.off.arm t.expireMtime) (hp : t.noProgress = .off)
      (hr : t.noReply = .off)
  | noProgress (he : t.expire = .off) (hp : t.noProgress = Alarm.off.arm t.noProgressMtime)
      (hr : t.noReply = .off) (ht : t.noProgressTime.isSome)
  | noReply (d : Time) (he : t.expire = .off) (hp : t.noProgress = .off)
      (hr : t.noReply = Alarm.off.arm d) (hd : d ≤ t.expireMtime)

structure Clamped (t : Watch) : Prop where
  limited : t.expireTime.isSome
  progress : t.noProgressTime.isSome → t.noProgressMtime ≤ t.expireMtime

/-- No timer is running that could not be stopped. -/
structure Loose (t : Watch) : Prop where
  limited : t.expireTime.isSome
  expire : t.expire.Tight
  noProgress : t.noProgress.Tight
  noReply : t.noReply.Tight

def live (t : Watch) : List Time := t.expire.live ++ t.noProgress.live ++ t.noReply.live

theorem Idle.loose (h : t.Idle) : t.Loose where
  limited := h.limited
  expire := h.expire ▸ Lib.Alarm.tight_off
  noProgress := h.noProgress ▸ Lib.Alarm.tight_off
  noReply := h.noReply ▸ Lib.Alarm.tight_off

theorem Loose.idle (h : t.Loose) (hlive : t.live = []) : t.Idle := by
  have hoff {a : Alarm} (ha : a.Tight) (hl : a.live = []) : a = .off := by
    obtain ⟨ref, live⟩ := a
    cases ref <;> simp_all [Alarm.Tight, Alarm.off]
  simp only [live, List.append_eq_nil_iff] at hlive
  exact ⟨h.limited, hoff h.expire hlive.1.1, hoff h.noProgress hlive.1.2, hoff h.noReply hlive.2⟩

theorem Runs.live (h : t.Runs) (hc : t.Clamped) : ∃ d, t.live = [d] ∧ d ≤ t.expireMtime := by
  cases h with
  | expire he hp hr => exact ⟨t.expireMtime, by simp [Watch.live, he, hp, hr, Alarm.off, Alarm.arm], Int.le_refl _⟩
  | noProgress he hp hr ht =>
    exact ⟨t.noProgressMtime, by simp [Watch.live, he, hp, hr, Alarm.off, Alarm.arm], hc.progress ht⟩
  | noReply d he hp hr hd => exact ⟨d, by simp [Watch.live, he, hp, hr, Alarm.off, Alarm.arm], hd⟩

end Watch

def UaState.settingUp (s : UaState) : Bool := s.calling || s.progressing

/-- The timers are as they should be in a state. -/
def Watch.Fits (t : Watch) : Option UaState → Prop
  | none | some .uacIdle => t.Idle
  | some .uasIdle => t.Loose
  | some s => s.settingUp → t.Runs ∧ t.Clamped

namespace Meter
variable {μ : Meter}

def watch (μ : Meter) : Watch where
  expireTime := μ.expireTime
  expireMtime := μ.expireMtime
  expire := μ.expireTimer
  noProgressTime := μ.noProgressTime
  noProgressMtime := μ.noProgressMtime
  noProgress := μ.noProgressTimer
  noReply := μ.noReplyTimer

@[simp] theorem watch_setup (t : Time) : (μ.setup t).watch = μ.watch := rfl
@[simp] theorem watch_offered (t : Time) (b : Bool) : (μ.offered t b).watch = μ.watch := rfl
@[simp] theorem watch_hangUp : μ.hangUp.watch = μ.watch := rfl

@[simp] theorem watch_start (t : Time) : (μ.start t).watch = μ.watch := by
  unfold start armCredit
  split <;> rfl

@[simp] theorem watch_reset (s : Option UaState) (t : Time) (times : List (ℕ × Option Time)) :
    (μ.reset s t times).watch = μ.watch := by
  unfold reset
  split
  · rw [watch_start]
    rfl
  · rfl

theorem expireBy_some {e : Time} (t : Time) (he : μ.expireTime = some e) :
    μ.expireBy t = { μ with expireMtime := t + e } := by
  unfold expireBy
  rw [he]

theorem progressBy_none (t : Time) (hp : μ.noProgressTime = none) : μ.progressBy t = μ := by
  unfold progressBy
  rw [hp]

theorem progressBy_some {p : Time} (t : Time) (hp : μ.noProgressTime = some p) :
    μ.progressBy t = { μ with
      noProgressMtime := t + p
      noProgressTime := if UacStateIdle.shorter p μ.expireTime then some p else none } := by
  unfold progressBy
  simp only [hp, Option.filter_some]

structure Dated (μ : Meter) (t : Time) : Prop where
  idle : μ.watch.Idle
  clamped : μ.watch.Clamped
  limit : ∀ r, UacStateIdle.shorter r μ.expireTime → t + r ≤ μ.expireMtime

theorem deadlines_dated (t : Time) (h : μ.watch.Idle) : (μ.deadlines t).Dated t := by
  obtain ⟨e, he⟩ := Option.isSome_iff_exists.mp h.limited
  have he : μ.expireTime = some e := he
  have hshorter {r : Time} (hr : UacStateIdle.shorter r μ.expireTime) : t + r ≤ t + e := by
    rw [he] at hr
    have hr : r < e := by simpa [UacStateIdle.shorter] using hr
    exact Int.add_le_add_left (Int.le_of_lt hr) t
  unfold deadlines
  rw [expireBy_some t he]
  rcases Option.eq_none_or_eq_some μ.noProgressTime with hp | ⟨p, hp⟩
  · rw [progressBy_none (μ := { μ with expireMtime := t + e }) t hp]
    exact ⟨⟨h.limited, h.expire, h.noProgress, h.noReply⟩,
      ⟨h.limited, fun hs => by simp [watch, hp] at hs⟩, fun r hr => hshorter hr⟩
  · rw [progressBy_some (μ := { μ with expireMtime := t + e }) t hp]
    refine ⟨⟨h.limited, h.expire, h.noProgress, h.noReply⟩, ⟨h.limited, fun hs => ?_⟩,
      fun r hr => hshorter hr⟩
    refine hshorter ?_
    by_contra hno
    simp [watch, hno] at hs

theorem runs_armExpire (h : μ.watch.Idle) : μ.armExpire.watch.Runs :=
  .expire (congrArg (Alarm.arm · μ.expireMtime) h.expire) h.noProgress h.noReply

theorem runs_armNoProgress (h : μ.watch.Idle) (ht : μ.noProgressTime.isSome) :
    μ.armNoProgress.watch.Runs :=
  .noProgress h.expire (congrArg (Alarm.arm · μ.noProgressMtime) h.noProgress) h.noReply ht

theorem armFirst_runs (h : μ.watch.Idle) : μ.armFirst.watch.Runs := by
  unfold armFirst
  split_ifs with hp he
  · exact runs_armNoProgress h hp
  · exact runs_armExpire h
  · exact absurd h.limited he

theorem armFirst_clamped (h : μ.watch.Clamped) : μ.armFirst.watch.Clamped := by
  unfold armFirst
  split_ifs <;> exact ⟨h.limited, h.progress⟩

theorem invited_runs (t : Time) (h : μ.watch.Idle) :
    (μ.invited t).watch.Runs ∧ (μ.invited t).watch.Clamped :=
  have hdated := deadlines_dated t h
  ⟨armFirst_runs hdated.idle, armFirst_clamped hdated.clamped⟩

theorem armFirst_loose (h : μ.watch.Idle) : μ.armFirst.watch.Loose := by
  have harm {a : Alarm} (ha : a = .off) (d : Time) : (a.arm d).Tight := by
    rw [ha]
    exact Lib.Alarm.tight_off.arm rfl d
  obtain ⟨hlimited, he, hp, hr⟩ := h.loose
  unfold armFirst
  split_ifs
  · exact ⟨hlimited, he, harm h.noProgress _, hr⟩
  · exact ⟨hlimited, harm h.expire _, hp, hr⟩
  · exact ⟨hlimited, he, hp, hr⟩

theorem invited_loose (t : Time) (h : μ.watch.Idle) : (μ.invited t).watch.Loose :=
  armFirst_loose (deadlines_dated t h).idle

theorem inviting_runs (t : Time) (h : μ.watch.Idle) :
    (μ.inviting t).watch.Runs ∧ (μ.inviting t).watch.Clamped := by
  obtain ⟨hidle, hclamped, hlimit⟩ := deadlines_dated t h
  have hidle : (μ.deadlines t).replyDeadline.watch.Idle := ⟨hidle.1, hidle.2, hidle.3, hidle.4⟩
  have hclamped : (μ.deadlines t).replyDeadline.watch.Clamped := ⟨hclamped.1, hclamped.2⟩
  unfold inviting armReply
  cases hr : (μ.deadlines t).replyDeadline.noReplyTime with
  | none => exact ⟨armFirst_runs hidle, armFirst_clamped hclamped⟩
  | some r =>
    obtain ⟨-, hr⟩ := Option.filter_eq_some_iff.mp hr
    simp only [Bool.and_eq_true] at hr
    refine ⟨.noReply (t + r) hidle.expire hidle.noProgress ?_ (hlimit r hr.1.2),
      ⟨hclamped.1, hclamped.2⟩⟩
    exact congrArg (Alarm.arm · (t + r)) hidle.noReply

theorem progressed_runs (h : μ.watch.Runs) (hc : μ.watch.Clamped) :
    (μ.progressed true).watch.Runs ∧ (μ.progressed true).watch.Clamped := by
  unfold progressed
  cases h with
  | expire he hp hr =>
    have hp' : μ.noProgressTimer.ref = none := congrArg Alarm.ref hp
    rw [hp']
    exact ⟨.expire he hp hr, hc⟩
  | noReply d he hp hr hd =>
    have hp' : μ.noProgressTimer.ref = none := congrArg Alarm.ref hp
    rw [hp']
    exact ⟨.noReply d he hp hr hd, hc⟩
  | noProgress he hp hr ht =>
    have hp' : μ.noProgressTimer.ref.isSome := by
      rw [show μ.noProgressTimer = _ from hp]
      rfl
    have hoff : μ.noProgressTimer.cancel = .off := by
      rw [show μ.noProgressTimer = _ from hp]
      exact (Lib.Alarm.tight_off.arm rfl _).cancel
    rw [if_pos hp', if_pos ⟨rfl, hc.limited⟩]
    exact ⟨runs_armExpire ⟨hc.limited, he, hoff, hr⟩, ⟨hc.limited, hc.progress⟩⟩

theorem replied_runs {scode : ℤ} (hcode : scode < 200) (h : μ.watch.Runs) (hc : μ.watch.Clamped) :
    (μ.replied scode).watch.Runs ∧ (μ.replied scode).watch.Clamped := by
  unfold replied
  cases h with
  | expire he hp hr =>
    have hr' : μ.noReplyTimer.ref = none := congrArg Alarm.ref hr
    rw [hr']
    exact ⟨.expire he hp hr, hc⟩
  | noProgress he hp hr ht =>
    have hr' : μ.noReplyTimer.ref = none := congrArg Alarm.ref hr
    rw [hr']
    exact ⟨.noProgress he hp hr ht, hc⟩
  | noReply d he hp hr hd =>
    have hr' : μ.noReplyTimer.ref.isSome := by
      rw [show μ.noReplyTimer = _ from hr]
      rfl
    have hoff : μ.noReplyTimer.cancel = .off := by
      rw [show μ.noReplyTimer = _ from hr]
      exact (Lib.Alarm.tight_off.arm rfl _).cancel
    have hidle : μ.noReplyOff.watch.Idle := ⟨hc.limited, he, hp, hoff⟩
    rw [if_pos hr']
    split_ifs with h100 hprovisional
    · exact ⟨runs_armNoProgress hidle h100.2, ⟨hc.limited, hc.progress⟩⟩
    · exact ⟨runs_armExpire hidle, ⟨hc.limited, hc.progress⟩⟩
    · exact absurd ⟨hcode, hc.limited⟩ hprovisional

theorem heard_runs {s : UaState} {scode : ℤ} (hcode : scode < 200) (h : μ.watch.Runs)
    (hc : μ.watch.Clamped) : (μ.heard s scode).watch.Runs ∧ (μ.heard s scode).watch.Clamped := by
  obtain ⟨hr, hrc⟩ := replied_runs hcode h hc
  unfold heard
  split_ifs
  · exact ⟨hr, hrc⟩
  · rw [decide_eq_true hcode]
    exact progressed_runs hr hrc
  · exact ⟨h, hc⟩

end Meter

/-- An SDP callback that raises what a handler is prepared for, if nothing else raises. -/
def SdpRet.bearable (quiet : Bool) : SdpRet → Bool
  | .raise ex => quiet && ex.isSdp
  | _ => true

def World.decides (w : World) (s : UaState) (resp : Response) : Bool :=
  resp.legible s w.ua.passAuth &&
    (300 ≤ resp.scode || (!resp.untagged || w.quiet) && w.io.sdps.all (SdpRet.bearable w.quiet))

theorem fits_other {t : Watch} {s : UaState} (hs : s.settingUp = false) (huas : s ≠ .uasIdle)
    (huac : s ≠ .uacIdle) : t.Fits (some s) := by
  cases s with
  | uasIdle => exact absurd rfl huas
  | uacIdle => exact absurd rfl huac
  | _ => exact fun h => absurd h (by simp [hs])

theorem fits_over {t : Watch} {s : UaState} (hs : s.terminated) : t.Fits (some s) := by
  cases s <;> simp_all [UaState.terminated, Watch.Fits, UaState.settingUp, UaState.calling,
    UaState.progressing]

theorem Watch.Fits.runs {t : Watch} {s : UaState} (h : t.Fits (some s)) (hs : s.settingUp) :
    t.Runs ∧ t.Clamped := by
  cases s with
  | uasIdle | uacIdle => cases hs
  | _ => exact h hs

theorem fits_runs {t : Watch} {s : UaState} (hs : s.settingUp) (h : t.Runs ∧ t.Clamped) :
    t.Fits (some s) := by
  cases s with
  | uasIdle | uacIdle => cases hs
  | _ => exact fun _ => h

theorem calling_settingUp {s : UaState} (hs : s.calling) : s.settingUp := by simp [UaState.settingUp, hs]

theorem World.decides.readable {w : World} {s : UaState} {resp : Response} (h : w.decides s resp)
    (hready : Ready s w.ua) (hs : s.calling) : ¬ w.Unreadable s resp := by
  simp only [World.decides, Bool.and_eq_true, Bool.or_eq_true, decide_eq_true_eq, Bool.not_eq_true'] at h
  rintro (⟨hlt, htag, hcalm⟩ | htarget | hlegible)
  · rcases h.2 with h300 | ⟨h', -⟩
    · omega
    · rcases h' with h' | h'
      · simp [Response.untagged, htag] at h'
      · exact hcalm (World.quiet_iff.mp h')
  · simpa [htarget] using hready.target hs
  · simp [hlegible] at h

theorem World.decides.sound {w : World} {s : UaState} {resp : Response} {ex : Raised}
    (h : w.decides s resp) (hlt : resp.scode < 300) (hex : .raise ex ∈ w.io.sdps) :
    w.Calm ∧ ex.isSdp := by
  simp only [World.decides, Bool.and_eq_true, Bool.or_eq_true, decide_eq_true_eq] at h
  rcases h.2 with h300 | ⟨-, hall⟩
  · omega
  · have hex := List.all_eq_true.mp hall _ hex
    simp only [SdpRet.bearable, Bool.and_eq_true] at hex
    exact ⟨World.quiet_iff.mp hex.1, hex.2⟩

def Meter.Watches (μ : Meter) (s : UaState) : Res → Prop
  | .to s' => μ.watch.Fits (some s')
  | _ => μ.watch.Fits (some s)

theorem watches_keeps {μ : Meter} {s : UaState} {r : Res} (hr : r.keeps) (h : μ.watch.Fits (some s)) :
    μ.Watches s r := by
  cases r <;> first | exact h | simp [Res.keeps] at hr

/-- A handler keeps one timer running for as long as the call is being set up. -/
theorem Tick.watches {w : World} {s : UaState} {d : Dispatch} {r : Res} {μ : Meter} (h : Tick w s d r μ)
    (hw : w.meter.watch.Fits (some s)) (hready : Ready s w.ua)
    (hresp : ∀ resp, d = .response resp → s.calling → 200 ≤ resp.scode → w.decides s resp)
    (hreq : ∀ req, d = .request req → req.method = .invite → s = .uasIdle → w.meter.watch.live = []) :
    μ.Watches s r := by
  have hother {s' : UaState} {ν : Meter} (hs' : s'.settingUp = false) (huas : s' ≠ .uasIdle)
      (huac : s' ≠ .uacIdle) : ν.Watches s (.to s') := fits_other hs' huas huac
  have hstays {ν : Meter} (hr : r.keeps) (hs : s.settingUp = false) (huas : s ≠ .uasIdle)
      (huac : s ≠ .uacIdle) : ν.Watches s r := watches_keeps hr (fits_other hs huas huac)
  cases h with
  | idle hr => exact watches_keeps hr hw
  | invited hm =>
    have hidle := Watch.Loose.idle hw (hreq _ rfl hm rfl)
    exact Meter.invited_loose _ hidle
  | trying hm =>
    have hidle := Watch.Loose.idle hw (hreq _ rfl hm rfl)
    exact fun _ => Meter.invited_runs _ hidle
  | rings =>
    obtain ⟨hruns, hclamped⟩ := hw.runs rfl
    exact fun _ => Meter.progressed_runs hruns hclamped
  | acks hr | waits hr | accepts hr => exact hstays hr rfl (by simp) (by simp)
  | sets hr => exact watches_keeps hr hw
  | invites => exact fun _ => Meter.inviting_runs _ hw
  | provisional hs hcode hr =>
    obtain ⟨hruns, hclamped⟩ := hw.runs (calling_settingUp hs)
    have hheard := Meter.heard_runs (s := s) hcode hruns hclamped
    rcases hr with hr | rfl
    · exact watches_keeps hr (fits_runs (calling_settingUp hs) hheard)
    · exact fun _ => hheard
  | unread hs hcode hwhy => exact absurd hwhy (World.decides.readable (hresp _ rfl hs hcode) hready hs)
  | broken hs hcode hlt hex he =>
    obtain ⟨hcalm, hsdp⟩ := World.decides.sound (hresp _ rfl hs hcode) hlt hex
    rcases he with he | he
    · exact absurd hcalm he
    · simp [hsdp] at he
  | refuses _ _ hs' => rcases hs' with rfl | rfl <;> exact hother rfl (by simp) (by simp)
  | updated | updates | reinvites | answers | preAnswers | stopped | hungUp | hangsUp | failsUpdate | drops
  | unheard | untagged | answered | late | spoiled | rejected | cancels | cancelsRinging | tooLate | gone =>
    exact hother rfl (by simp) (by simp)

theorem Tick.gives_up {w : World} {s : UaState} {e : CCEvent} {also : Option Text} {r : Res} {μ : Meter}
    (h : Tick w s (.event e) r μ) (he : e.kind = .disconnect also) (hcalm : w.Calm)
    (hready : Ready s w.ua) (hs : s.settingUp) : ∃ s', r = .to s' ∧ s'.terminated ∧ s' ≠ .dead := by
  cases h with
  | idle _ hstuck =>
    obtain ⟨huas, huac, -, -⟩ := hstuck e also rfl he
    simp only [UaState.settingUp, Bool.or_eq_true] at hs
    rcases hs with hs | hs
    · rcases huac (.inl hs) with h | h
      · exact absurd hcalm h
      · simpa [h] using hready.tr (.inl hs)
    · rcases huas (.inl hs) with h | h
      · exact absurd hcalm h
      · simpa [h] using hready.resp (.inl hs)
  | refuses _ _ hs' => rcases hs' with rfl | rfl <;> exact ⟨_, rfl, rfl, by simp⟩
  | cancels | cancelsRinging => exact ⟨_, rfl, rfl, by simp⟩
  | updated _ hd => exact absurd he (hd e also rfl)
  | rings hk | answers _ hk | preAnswers _ hk => rw [he] at hk; cases hk
  | hangsUp hs' => cases s <;> simp_all [UaState.isConnected, UaState.settingUp, UaState.calling,
      UaState.progressing]
  | reinvites | waits | accepts | sets | invites | drops => cases hs

theorem Tick.from_connected {w : World} {s' : UaState} {d : Dispatch} {μ : Meter}
    (h : Tick w .connected d (.to s') μ) :
    s'.settingUp = false ∧ s' ≠ .uasIdle ∧ s' ≠ .uacIdle := by
  cases h with
  | idle hr | acks hr | waits hr | accepts hr => simp [Res.keeps] at hr
  | updated h => simp at h
  | updates | reinvites | hungUp | hangsUp => exact ⟨rfl, by simp, by simp⟩
  | answers h | preAnswers h | refuses h => simp [UaState.progressing] at h
  | provisional h | unheard h | untagged h | answered h | late h | spoiled h | rejected h =>
    simp [UaState.calling] at h

theorem Shift.watches {w : World} {s st : Option UaState} {s' : UaState} {ν μ : Meter}
    (h : Shift w s ν s' st μ) (hν : ν.watch.Fits (some s'))
    (hs : s = some .connected → s'.settingUp = false ∧ s' ≠ .uasIdle ∧ s' ≠ .uacIdle)
    (hdead : s' = .dead → s = some .uacIdle ∧ ν.watch.Idle ∨ s.any UaState.terminated) :
    μ.watch.Fits st := by
  cases h with
  | done =>
    by_cases hc : s = some .connected
    · obtain ⟨hs', huas, huac⟩ := hs hc
      exact fits_other hs' huas huac
    · have hleave : ν.leave s = ν := if_neg hc
      rw [hleave]
      cases s' with
      | dead => exact fun h => by cases h
      | _ => exact hν
  | stuck p hc =>
    rw [hc]
    exact fun h => by cases h
  | unburied hs' =>
    rcases hdead hs' with ⟨rfl, hidle⟩ | hover
    · have hdrop {a : Alarm} (ha : a = .off) : a.drop = .off := by rw [ha]; rfl
      exact ⟨hidle.limited, hdrop hidle.expire, hdrop hidle.noProgress, hidle.noReply⟩
    · cases s with
      | none => cases hover
      | some s => exact fits_over hover

def Input.overdue : Input → Bool
  | .timeout (.expire _) | .timeout (.noProgress _) | .timeout (.noReply _) => true
  | _ => false

theorem Given.watch {w : World} {i : Input} {d : Dispatch} {μ : Meter} (h : Given w i d μ)
    (hi : i.overdue = false) : μ.watch = w.meter.watch := by
  cases h with
  | ending h =>
    cases i with
    | timeout t =>
      cases t with
      | expire | noProgress | noReply => cases hi
      | _ => simp [Input.ending] at h <;> obtain ⟨-, rfl⟩ := h <;> rfl
    | disconnect | noack | keepAliveResp =>
      simp only [Input.ending, Option.some.injEq, Prod.mk.injEq] at h
      obtain ⟨-, rfl⟩ := h
      rfl
    | _ => cases h
  | _ => rfl

theorem Given.overdue {w : World} {i : Input} {d : Dispatch} {μ : Meter} (h : Given w i d μ)
    (hi : i.overdue) : ∃ e, d = .event e ∧ e.kind = .disconnect none := by
  cases h with
  | ending h => exact ⟨_, rfl, rfl⟩
  | _ => cases hi

theorem Given.loose {w : World} {i : Input} {d : Dispatch} {μ : Meter} (h : Given w i d μ)
    (hi : i.possible w.ua) (hover : i.overdue) (hw : w.meter.watch.Loose) : μ.watch.Loose := by
  have hfire {a : Alarm} {t : Time} (ha : a.Tight) (ht : t ∈ a.live) : (a.fire t).Tight := by
    rw [ha.fire ht]
    exact Lib.Alarm.tight_off
  cases h with
  | ending h =>
    cases i with
    | timeout t =>
      cases t with
      | expire t =>
        obtain ⟨-, rfl⟩ := by simpa [Input.ending] using h
        have ht : t ∈ w.ua.expireTimer.live := by simpa [Input.possible, TimerId.scheduled] using hi
        exact ⟨hw.limited, hfire hw.expire ht, hw.noProgress, hw.noReply⟩
      | noProgress t =>
        obtain ⟨-, rfl⟩ := by simpa [Input.ending] using h
        have ht : t ∈ w.ua.noProgressTimer.live := by simpa [Input.possible, TimerId.scheduled] using hi
        exact ⟨hw.limited, hw.expire, hfire hw.noProgress ht, hw.noReply⟩
      | noReply t =>
        obtain ⟨-, rfl⟩ := by simpa [Input.ending] using h
        have ht : t ∈ w.ua.noReplyTimer.live := by simpa [Input.possible, TimerId.scheduled] using hi
        exact ⟨hw.limited, hw.expire, hw.noProgress, hfire hw.noReply ht⟩
      | _ => cases hover
    | _ => cases hover
  | _ => cases hover

theorem overdue_live {w : World} {i : Input} (h : w.meter.watch.Idle) (hover : i.overdue)
    (hi : i.possible w.ua) : False := by
  have hnot {a : Alarm} {t : Time} (ha : a = .off) (ht : t ∈ a.live) : False := by
    simp [ha, Alarm.off] at ht
  cases i with
  | timeout t =>
    have ht : t.scheduled w.ua := hi
    cases t with
    | expire t =>
      have ht : t ∈ w.ua.expireTimer.live := by simpa [TimerId.scheduled] using ht
      exact hnot h.expire ht
    | noProgress t =>
      have ht : t ∈ w.ua.noProgressTimer.live := by simpa [TimerId.scheduled] using ht
      exact hnot h.noProgress ht
    | noReply t =>
      have ht : t ∈ w.ua.noReplyTimer.live := by simpa [TimerId.scheduled] using ht
      exact hnot h.noReply ht
    | _ => cases hover
  | _ => cases hover

/-- The message does not make the user agent lose the timers of the setup. -/
def World.minds (w : World) : Dispatch → Bool
  | .response resp =>
    resp.scode < 200 || w.ua.state.all fun s => !s.calling || w.decides s resp
  | .request req =>
    !(req.method = .invite && w.ua.state = some .uasIdle) || w.meter.watch.live.isEmpty
  | _ => true

/-- What may harm the timers of the setup is done only where it has no effect. -/
def World.keepsWatch (w : World) (i : Input) : Bool :=
  if i.overdue then !w.ua.state.any UaState.settingUp || w.quiet
  else (i.gives w).all w.minds

theorem decides_since {w w₁ : World} {s : UaState} {resp : Response} (hw : Since (w.at (some s)) w₁)
    (h : w.decides s resp) : w₁.decides s resp := by
  have hquiet (hq : w.quiet) : w₁.quiet := World.quiet_iff.mpr (hw.calm (World.quiet_iff.mp hq))
  have hpass : w₁.ua.passAuth = w.ua.passAuth := hw.passAuth
  simp only [World.decides, hpass, Bool.and_eq_true, Bool.or_eq_true] at h ⊢
  refine ⟨h.1, h.2.imp_right fun ⟨htag, hall⟩ => ⟨htag.imp_right hquiet, ?_⟩⟩
  refine List.all_eq_true.mpr fun x hx => ?_
  have hx := List.all_eq_true.mp hall x (hw.sdps.subset hx)
  cases x with
  | raise ex =>
    simp only [SdpRet.bearable, Bool.and_eq_true] at hx ⊢
    exact ⟨hquiet hx.1, hx.2⟩
  | _ => rfl

theorem Given.minds {w w₁ : World} {i : Input} {d : Dispatch} {s : UaState}
    (h : Given w i d w₁.meter) (hs : s ∈ w.ua.receiver d) (hw : Since (w.at (some s)) w₁)
    (hi : i.overdue = false) (hfits : w.meter.watch.Fits w.ua.state) (hok : w.keepsWatch i) :
    (∀ resp, d = .response resp → s.calling → 200 ≤ resp.scode → w₁.decides s resp) ∧
      (∀ req, d = .request req → req.method = .invite → s = .uasIdle → w₁.meter.watch.live = []) := by
  have hminds (hd : ∀ e, d ≠ .event e) : w.minds d := by
    have hgives := h.gives hd
    simpa [World.keepsWatch, hi, hgives] using hok
  refine ⟨?_, ?_⟩
  · rintro resp rfl hcalling hcode
    have hminds := hminds (by simp)
    have hstate : w.ua.state = some s := by
      rcases receiver_eq hs with h | ⟨-, rfl | rfl⟩
      · exact h
      · cases hcalling
      · cases hcalling
    have hlt : ¬ resp.scode < 200 := by omega
    refine decides_since hw ?_
    simpa [World.minds, hstate, hlt, hcalling] using hminds
  · rintro req rfl hm rfl
    rw [h.watch hi]
    rcases receiver_eq hs with hstate | ⟨hstate, -⟩
    · simpa [World.minds, hstate, hm] using hminds (by simp)
    · rw [hstate] at hfits
      simp [Watch.live, hfits.expire, hfits.noProgress, hfits.noReply, Alarm.off]

theorem Turn.watches {w : World} {i : Input} {st : Option UaState} {μ : Meter} (h : Turn w i st μ)
    (hsound : w.ua.Sound) (hi : i.possible w.ua) (hok : w.keepsWatch i)
    (hw : w.meter.watch.Fits w.ua.state) : μ.watch.Fits st := by
  have hready {s : UaState} {d : Dispatch} {w₁ : World} (hs : s ∈ w.ua.receiver d)
      (hw₁ : Since (w.at (some s)) w₁) : Ready s w₁.ua := by
    have h := hsound.receiver hs
    exact Ready.since (w := w.at (some s)) ⟨h.resp, h.tr, h.target⟩ hw₁
  have hfound {s : UaState} {d : Dispatch} {ν : Meter} (hs : s ∈ w.ua.receiver d)
      (hν : ν.watch = w.meter.watch) : ν.watch.Fits (some s) := by
    rw [hν]
    rcases receiver_eq hs with hstate | ⟨hstate, hidle⟩
    · rwa [← hstate]
    · rw [hstate] at hw
      rcases hidle with rfl | rfl
      · exact Watch.Idle.loose hw
      · exact hw
  -- a handler that ends the setup, or that is given the timers as they should be
  have hgiven {s : UaState} {d : Dispatch} {w₁ : World} {r : Res} {ν : Meter} (hg : Given w i d w₁.meter)
      (hs : s ∈ w.ua.receiver d) (hw₁ : Since (w.at (some s)) w₁) (ht : Tick w₁ s d r ν) :
      (∃ s', r = .to s' ∧ s'.terminated ∧ s' ≠ .dead ∧ s ≠ .connected) ∨
        w₁.meter.watch.Fits (some s) ∧ ν.Watches s r := by
    cases hover : i.overdue with
    | false =>
      have hfits := hfound hs (hg.watch hover)
      obtain ⟨hresp, hreq⟩ := hg.minds hs hw₁ hover hw hok
      exact .inr ⟨hfits, ht.watches hfits (hready hs hw₁) hresp hreq⟩
    | true =>
      obtain ⟨e, rfl, he⟩ := hg.overdue hover
      cases hset : s.settingUp with
      | true =>
        have hstate : w.ua.state = some s := by
          rcases receiver_eq hs with h | ⟨-, rfl | rfl⟩
          · exact h
          · cases hset
          · cases hset
        have hcalm : w.Calm := by
          refine World.quiet_iff.mp ?_
          simpa [World.keepsWatch, hover, hstate, hset] using hok
        obtain ⟨s', hto, hs', hdead⟩ := ht.gives_up he (hw₁.calm hcalm) (hready hs hw₁) hset
        refine .inl ⟨s', hto, hs', hdead, ?_⟩
        rintro rfl
        cases hset
      | false =>
        have hfits : w₁.meter.watch.Fits (some s) := by
          have hidle (h : w.meter.watch.Idle) : False := overdue_live h hover hi
          by_cases huas : s = .uasIdle
          · subst huas
            refine hg.loose hi hover ?_
            rcases receiver_eq hs with hstate | ⟨hstate, -⟩
            · rwa [hstate] at hw
            · rw [hstate] at hw
              exact (hidle hw).elim
          · by_cases huac : s = .uacIdle
            · subst huac
              rcases receiver_eq hs with hstate | ⟨hstate, -⟩
              · rw [hstate] at hw
                exact (hidle hw).elim
              · rw [hstate] at hw
                exact (hidle hw).elim
            · exact fits_other hset huas huac
        exact .inr ⟨hfits, ht.watches hfits (hready hs hw₁) (by simp) (by simp)⟩
  cases h with
  | rests | probes | refers => exact hw
  | resets => simpa using hw
  | @handled _ d s w₁ r ν hg hs hw₁ ht hr =>
    rcases hgiven hg hs hw₁ ht with ⟨s', rfl, -⟩ | ⟨-, h⟩
    · cases hr
    · cases r <;> first | exact h | simp [Res.keeps] at hr
  | @shifted _ d s s' w₁ ν _ _ hg hs hw₁ ht hshift =>
    rcases hgiven hg hs hw₁ ht with ⟨s'', hto, hover, hdead, hc⟩ | ⟨hfits, h⟩
    · obtain rfl : s' = s'' := by simpa using hto
      exact hshift.watches (fits_over hover) (fun h => absurd (Option.some.inj h) hc)
        fun h => absurd h hdead
    · refine hshift.watches h (fun hc => ?_) ?_
      · obtain rfl : s = .connected := Option.some.inj hc
        exact ht.from_connected
      · rintro rfl
        obtain ⟨rfl | rfl, hν⟩ := ht.dies
        · refine .inl ⟨rfl, ?_⟩
          rcases hν with rfl | ⟨t, rfl⟩ <;> exact hfits
        · exact .inr rfl
  | cancelled _ hshift | unupdated _ hshift =>
    exact hshift.watches (fits_over rfl) (fun _ => ⟨rfl, by simp, by simp⟩) (by simp)
  | dies ht hshift =>
    have hover : w.ua.isOver := by
      refine hsound.ends ?_
      rcases ht with rfl | rfl
      · exact .inl (by simpa [Input.possible, TimerId.scheduled] using hi)
      · exact .inr (by simpa [Input.possible, TimerId.scheduled] using hi)
    exact hshift.watches (fits_over rfl) (fun _ => ⟨rfl, by simp, by simp⟩) fun _ => .inr hover

/-- What may harm the timers of the setup in a step. -/
def Mach.keepsWatch (m : Mach) (l : Label) : Bool :=
  match l.method m, l.io with
  | some i, some io => (m.world io).keepsWatch i
  | _, _ => true

theorem watches_step {m : Mach} {l : Label} (hok : m.keepsWatch l) (hsound : m.ua.Sound)
    (h : (m.ua.meter 0).watch.Fits m.ua.state) (hm : Metered m l (m.step l)) :
    ((m.step l).ua.meter 0).watch.Fits (m.step l).ua.state := by
  cases hm with
  | other hstate hmeter _ _ =>
    rw [hstate, hmeter]
    exact h
  | method i io hi hio hposs _ hturn _ =>
    have hkeeps : (m.world io).keepsWatch i := by simpa [Mach.keepsWatch, hi, hio] using hok
    exact hturn.watches hsound hposs hkeeps h

/-- While a call is being set up, one of its three timers is running, and it ends before the setup
has to. -/
theorem setup_timers {ua : UA} (hua : ua.Unused) (hlimit : ua.expireTime.isSome) {ls : List Label}
    (hls : Along Mach.step (fun m l => m.keepsWatch l) (.start ua) ls) :
    let ua' := (run Mach.step (.start ua) ls).ua
    ua'.state.any UaState.settingUp →
      ∃ d, ua'.expireTimer.live ++ ua'.noProgressTimer.live ++ ua'.noReplyTimer.live = [d] ∧
        d ≤ ua'.expireMtime := by
  intro ua' hstate
  have hfits : (ua'.meter 0).watch.Fits ua'.state := by
    refine run_metered (I := fun m => (m.ua.meter 0).watch.Fits m.ua.state)
      (fun m l hok hsound h hm => watches_step hok hsound h hm) hua ?_ hls
    have hnone : (Mach.start ua).ua.state = none := hua.state
    rw [hnone]
    exact ⟨hlimit, hua.expireTimer, hua.noProgressTimer, hua.noReplyTimer⟩
  cases hs : ua'.state with
  | none => simp [hs] at hstate
  | some s =>
    rw [hs] at hfits hstate
    obtain ⟨hruns, hclamped⟩ := hfits.runs hstate
    exact hruns.live hclamped

/-- A user agent that gives up after five minutes, or when nothing comes for ten seconds. -/
def limitedUA : UA := { namedUA with
  expireTime := some (300 * second), noProgressTime := some (60 * second)
  noReplyTime := some (10 * second) }

theorem limitedUA_unused : limitedUA.Unused := by constructor <;> rfl

/-- The call rings. -/
theorem setup_timers_ringing :
    let ua := (run Mach.step (.start limitedUA) (billedCall.take 2 ++
      [.input (.response (.bare 100 .invite 1) []) .calm, .tau .calm, .ret, .tau .calm,
       .input (.response (.bare 180 .invite 1) []) .calm])).ua
    ∃ d, ua.expireTimer.live ++ ua.noProgressTimer.live ++ ua.noReplyTimer.live = [d] ∧
      d ≤ ua.expireMtime :=
  setup_timers limitedUA_unused rfl (by decide) (by decide)

def misdirectedCall : Mach := run Mach.step (.start limitedUA) (billedCall.take 2 ++
  [.input (.response { Response.bare 302 .invite 1 with contacts := [.error .other] } []) .calm])

/-- It goes on without a timer. -/
theorem misdirectedCall_untimed : misdirectedCall.ua.state = some .uacTrying ∧
    misdirectedCall.ua.expireTimer.live ++ misdirectedCall.ua.noProgressTimer.live ++
      misdirectedCall.ua.noReplyTimer.live = [] := by decide

end SippyB2bua.Ua
