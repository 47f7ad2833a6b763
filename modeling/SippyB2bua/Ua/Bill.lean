import SippyB2bua.Ua.Turn

/-!
# What a call is billed by

A call is billed by three times: when it was set up, when it was connected and when it was
disconnected. They are taken from the messages and events that a user agent is given, and
most handlers store them as they are.
-/

namespace SippyB2bua.Ua
open Lib (Text run Along)

/-- What a handler does with the time of its message. -/
inductive Mark
  | setup | connect | disconnect
  /-- `disconnect_ts`, where the time is compared with `setup_ts` and gives way to the clock. -/
  | compared
  deriving DecidableEq

/-- `setup_ts`, `connect_ts` and `disconnect_ts`. -/
structure Bill where
  setup : Option Time
  connect : Option Time
  disconnect : Option Time

def before : Option Time → Option Time → Bool
  | some a, some b => a ≤ b
  | _, _ => true

@[simp] theorem before_some (a b : Time) : before (some a) (some b) = decide (a ≤ b) := rfl
@[simp] theorem before_none_left (t : Option Time) : before none t = true := rfl
@[simp] theorem before_none_right (t : Option Time) : before t none = true := by cases t <;> rfl

namespace Bill
variable {b : Bill}

def ordered (b : Bill) : Bool :=
  before b.setup b.connect && before b.connect b.disconnect && before b.setup b.disconnect

def past (b : Bill) (t : Time) : Bool := before b.setup (some t) && before b.connect (some t)

/-- The times once a handler has stored the time `t`, or the clock. -/
def store (b : Bill) (clock t : Time) : Mark → Bill
  | .setup => { b with setup := some t }
  | .connect => { b with connect := some t }
  | .disconnect => { b with disconnect := some t }
  | .compared => { b with disconnect := some (if before b.setup (some t) then t else clock) }

/-- The time of a message comes in order, or the clock that takes its place. -/
def timely (b : Bill) (clock t : Time) : Mark → Bool
  | .setup => before (some t) b.connect && before (some t) b.disconnect
  | .connect => before b.setup (some t) && before (some t) b.disconnect
  | .disconnect => b.past t
  | .compared => b.past t || !before b.setup (some t) && b.past clock

variable {clock t : Time} {k : Mark}

theorem ordered_disconnect (hb : b.ordered) (hp : b.past t) :
    ({ b with disconnect := some t } : Bill).ordered := by
  simp only [ordered, Bool.and_eq_true] at hb
  simp only [past, Bool.and_eq_true] at hp
  simp [ordered, hp.1, hp.2, hb.1.1]

theorem ordered_store (hb : b.ordered) (hk : b.timely clock t k) : (b.store clock t k).ordered := by
  have hsplit := hb
  simp only [ordered, Bool.and_eq_true] at hsplit
  obtain ⟨⟨hsc, hcd⟩, hsd⟩ := hsplit
  cases k with
  | setup =>
    simp only [timely, Bool.and_eq_true] at hk
    simp [ordered, store, hk.1, hk.2, hcd]
  | connect =>
    simp only [timely, Bool.and_eq_true] at hk
    simp [ordered, store, hk.1, hk.2, hsd]
  | disconnect => exact ordered_disconnect hb hk
  | compared =>
    refine ordered_disconnect hb ?_
    simp only [timely, Bool.or_eq_true, Bool.and_eq_true, Bool.not_eq_true'] at hk
    split
    · rename_i ht
      exact hk.resolve_right fun h => absurd (ht.symm.trans h.1) (by decide)
    · rename_i ht
      refine (hk.resolve_left fun h => ht ?_).2
      exact (Bool.and_eq_true_iff.mp h).1

theorem ordered_store_both (hb : b.ordered) (hk : b.timely clock t .connect) :
    ((b.store clock t .connect).store clock t .disconnect).ordered := by
  refine ordered_store (ordered_store hb hk) ?_
  simp only [timely, Bool.and_eq_true] at hk
  simp [timely, past, store, hk.1]

end Bill

namespace Meter
variable {μ : Meter}

def bill (μ : Meter) : Bill := ⟨μ.setupTs, μ.connectTs, μ.disconnectTs⟩

@[simp] theorem bill_expireOff : μ.expireOff.bill = μ.bill := rfl
@[simp] theorem bill_noProgressOff : μ.noProgressOff.bill = μ.bill := rfl
@[simp] theorem bill_noReplyOff : μ.noReplyOff.bill = μ.bill := rfl
@[simp] theorem bill_creditOff : μ.creditOff.bill = μ.bill := rfl
@[simp] theorem bill_hangUp : μ.hangUp.bill = μ.bill := rfl
@[simp] theorem bill_late : μ.late.bill = μ.bill := rfl
@[simp] theorem bill_onTime : μ.onTime.bill = μ.bill := rfl

@[simp] theorem bill_setup (t : Time) : (μ.setup t).bill = { μ.bill with setup := some t } := rfl

@[simp] theorem bill_connect (t : Time) :
    (μ.connect t).bill = { μ.bill with connect := some t } := rfl

@[simp] theorem bill_disconnect (t : Time) :
    (μ.disconnect t).bill = { μ.bill with disconnect := some t } := rfl

theorem store_compared (clock t : Time) :
    μ.bill.store clock t .compared = { μ.bill with disconnect := some (μ.notBefore clock t) } := by
  unfold Bill.store notBefore bill
  cases μ.setupTs <;> simp

@[simp] theorem bill_start (t : Time) : (μ.start t).bill = μ.bill := by
  unfold start armCredit
  split <;> rfl

@[simp] theorem bill_connected (t : Time) :
    (μ.connected t).bill = { μ.bill with connect := some t } := by
  unfold connected
  rw [bill_connect, bill_start]

@[simp] theorem bill_left (s : UaState) : (μ.left s).bill = μ.bill := by
  unfold left
  split <;> rfl

@[simp] theorem bill_progressed (b : Bool) : (μ.progressed b).bill = μ.bill := by
  unfold progressed
  split_ifs <;> rfl

@[simp] theorem bill_replied (scode : ℤ) : (μ.replied scode).bill = μ.bill := by
  unfold replied
  split_ifs <;> rfl

@[simp] theorem bill_heard (s : UaState) (scode : ℤ) : (μ.heard s scode).bill = μ.bill := by
  unfold heard
  split_ifs <;> simp

@[simp] theorem bill_deadlines (t : Time) : (μ.deadlines t).bill = μ.bill := by
  unfold deadlines expireBy progressBy
  split <;> split <;> rfl

@[simp] theorem bill_armFirst : μ.armFirst.bill = μ.bill := by
  unfold armFirst
  split_ifs <;> rfl

@[simp] theorem bill_invited (t : Time) : (μ.invited t).bill = μ.bill := by simp [invited]

@[simp] theorem bill_inviting (t : Time) : (μ.inviting t).bill = μ.bill := by
  have hreply : (μ.deadlines t).replyDeadline.bill = μ.bill := bill_deadlines t
  unfold inviting armReply
  split
  · exact hreply
  · rw [bill_armFirst, hreply]

@[simp] theorem bill_leave (s : Option UaState) : (μ.leave s).bill = μ.bill := by
  unfold leave
  split <;> rfl

@[simp] theorem bill_enter (s : UaState) : (μ.enter s).bill = μ.bill := by cases s <;> rfl

end Meter

def SdpRet.raises : SdpRet → Bool
  | .raise _ => true
  | _ => false

def World.quiet (w : World) : Bool := w.io.faults.all (!·)

theorem World.quiet_iff {w : World} : w.quiet ↔ w.Calm := by
  simp [World.quiet, World.Calm]

/-- What a state object does with the time of an event. -/
def eventMarks (w : World) (s : UaState) (e : CCEvent) : List Mark :=
  match e.kind with
  | .setup _ _ => if s = .uacIdle ∧ w.ua.setupTs = none then [.setup] else []
  | .connect _ _ _ =>
    if s.progressing ∨ s = .connected ∧ w.ua.pendingTr then [.connect] else []
  | .disconnect _ | .fail _ _ _ | .redirect _ =>
    if s.progressing ∨ s.isConnected then [.disconnect]
    else if s.calling ∨ s = .uacIdle then [.compared]
    else []
  | _ => []

def requestMarks (s : UaState) (req : Request) : List Mark :=
  match req.method with
  | .invite => if s = .uasIdle then [.setup] else []
  | .bye => if s.isConnected ∨ s = .uasRinging then [.disconnect] else []
  | .refer => if s = .uasUpdating then [.disconnect] else []
  | _ => []

/-- A handler gives the call up with the time of the response if the SDP or a header cannot be
read, or the BYE cannot be sent. -/
def World.givesUp (w : World) (s : UaState) (resp : Response) : Prop :=
  resp.scode < 300 ∧ w.io.sdps.any SdpRet.raises ∨
    200 ≤ resp.scode ∧ (resp.untagged ∧ w.quiet = false ∨ resp.legible s w.ua.passAuth = false)

instance (w : World) (s : UaState) (resp : Response) : Decidable (w.givesUp s resp) :=
  inferInstanceAs (Decidable (_ ∨ _))

def responseMarks (w : World) (s : UaState) (resp : Response) : List Mark :=
  if s.calling then
    (if 200 ≤ resp.scode ∧ resp.scode < 300 ∧ w.connects resp then [.connect] else []) ++
    (if 300 ≤ resp.scode ∨ 200 ≤ resp.scode ∧ resp.untagged then [.compared] else []) ++
    (if w.givesUp s resp then [.disconnect] else [])
  else if s = .uacUpdating ∧ 200 ≤ resp.scode ∧ (resp.scode = 408 ∨ resp.scode = 481 ∨
      resp.scode < 300 ∧ w.io.sdps.any SdpRet.raises) then [.disconnect]
  else []

def marks (w : World) (s : UaState) : Dispatch → List Mark
  | .event e => eventMarks w s e
  | .request req => requestMarks s req
  | .response resp => responseMarks w s resp
  | .ack _ => if s = .connected then [.connect] else []

def Dispatch.time : Dispatch → Time
  | .event e => e.rtime
  | .request req => req.rtime
  | .response resp => resp.rtime
  | .ack req => req.rtime

theorem raises_of_mem {sdps : List SdpRet} {ex : Raised} (h : .raise ex ∈ sdps) :
    sdps.any SdpRet.raises := List.any_eq_true.mpr ⟨_, h, rfl⟩

theorem eventMarks_final {w : World} {s : UaState} {e : CCEvent} (h : e.final) :
    eventMarks w s e =
      if s.progressing ∨ s.isConnected then [.disconnect]
      else if s.calling ∨ s = .uacIdle then [.compared]
      else [] := by
  unfold eventMarks
  cases hk : e.kind <;> simp_all [CCEvent.final]

/-- `setup_ts` of a call that goes out is set once. -/
theorem bill_offered {w : World} {e : CCEvent} {data : Setup} {mf : Option ℤ} (late : Bool)
    (hk : e.kind = .setup data mf) :
    (w.meter.offered e.rtime late).bill = w.meter.bill ∨
      .setup ∈ marks w .uacIdle (.event e) ∧
        (w.meter.offered e.rtime late).bill = w.meter.bill.store w.io.now e.rtime .setup := by
  cases hs : w.ua.setupTs with
  | none => exact .inr (by simp [marks, eventMarks, hk, hs, Meter.bill, Meter.offered, World.meter,
      UA.meter, Bill.store])
  | some t => exact .inl (by simp [hs, Meter.bill, Meter.offered, World.meter, UA.meter])

theorem Tick.bill {w : World} {s : UaState} {d : Dispatch} {r : Res} {μ : Meter} (h : Tick w s d r μ)
    (htarget : s.calling → w.ua.rTarget.isSome) :
    μ.bill = w.meter.bill ∨
      (∃ k ∈ marks w s d, μ.bill = w.meter.bill.store w.io.now d.time k) ∨
      .connect ∈ marks w s d ∧
        μ.bill = (w.meter.bill.store w.io.now d.time .connect).store w.io.now d.time .disconnect := by
  have one {ν : Meter} (k : Mark) (hk : k ∈ marks w s d)
      (hν : ν.bill = w.meter.bill.store w.io.now d.time k) : ν.bill = w.meter.bill ∨
        (∃ k ∈ marks w s d, ν.bill = w.meter.bill.store w.io.now d.time k) ∨
        .connect ∈ marks w s d ∧
          ν.bill = (w.meter.bill.store w.io.now d.time .connect).store w.io.now d.time .disconnect :=
    .inr (.inl ⟨k, hk, hν⟩)
  -- a state that is calling has a target
  have hgives (resp : Response) (hu : w.Unreadable s resp) (hs : s.calling) (hcode : 200 ≤ resp.scode) :
      w.givesUp s resp := by
    rcases hu with ⟨-, htag, hcalm⟩ | h | h
    · have hloud : w.quiet = false := Bool.eq_false_of_not_eq_true (hcalm ∘ World.quiet_iff.mp)
      exact .inr ⟨hcode, .inl ⟨by simp [Response.untagged, htag], hloud⟩⟩
    · simpa [h] using htarget hs
    · exact .inr ⟨hcode, .inr h⟩
  have hraises {resp : Response} {ex : Raised} (hlt : resp.scode < 300) (hex : .raise ex ∈ w.io.sdps) :
      w.givesUp s resp := .inl ⟨hlt, raises_of_mem hex⟩
  cases h with
  | idle | updated | updates | reinvites | invited | rings | preAnswers | waits | late | unread | provisional
  | tooLate | gone => exact .inl (by simp)
  | @trying req hm => exact one .setup (by simp [marks, requestMarks, hm]) (by simp [Bill.store, Dispatch.time])
  | @answers _ e _ _ _ hs hk =>
    exact one .connect (by simp [marks, eventMarks, hk, hs]) (by simp [Bill.store, Dispatch.time])
  | @refuses _ _ e hs hk hs' =>
    exact one .disconnect (by simp [marks, eventMarks_final hk, hs]) (by simp [Bill.store, Dispatch.time])
  | @stopped req hm =>
    exact one .disconnect (by simp [marks, requestMarks, hm]) (by simp [Bill.store, Dispatch.time])
  | @hungUp _ req hs hm =>
    refine one .disconnect ?_ (by simp [Bill.store, Dispatch.time])
    rcases hm with hm | ⟨rfl, hm⟩
    · simp [marks, requestMarks, hm, hs]
    · simp [marks, requestMarks, hm]
  | @hangsUp _ e hs hk =>
    exact one .disconnect (by simp [marks, eventMarks_final hk, hs]) (by simp [Bill.store, Dispatch.time])
  | @failsUpdate resp hwhy hcode =>
    refine one .disconnect ?_ (by simp [Bill.store, Dispatch.time])
    have hwhy : resp.scode = 408 ∨ resp.scode = 481 ∨ resp.scode < 300 ∧ w.io.sdps.any SdpRet.raises :=
      hwhy.imp_right (.imp_right (.imp_right fun h => h.elim fun _ => raises_of_mem))
    simpa [marks, responseMarks, UaState.calling, hcode] using hwhy
  | @acks req _ hr => exact one .connect (by simp [marks]) (by simp [Bill.store, Dispatch.time])
  | @accepts e _ _ _ _ _ hr hk hp =>
    have hp : w.ua.pendingTr = true := hp
    have hbill : (w.meter.expireOff.creditOff.connected e.rtime).bill =
        w.meter.bill.store w.io.now e.rtime .connect := by simp [Bill.store]
    exact one .connect (by simp [marks, eventMarks, hk, hp]) hbill
  | @sets e _ data mf late hr hk =>
    exact (bill_offered late hk).imp_right fun h => .inl ⟨_, h.1, h.2⟩
  | @invites e data mf late hk =>
    rw [Meter.bill_inviting]
    exact (bill_offered late hk).imp_right fun h => .inl ⟨_, h.1, h.2⟩
  | @drops e hk =>
    refine one .compared ?_ (by simp [Dispatch.time, Meter.store_compared])
    simp [marks, eventMarks_final hk, UaState.progressing, UaState.isConnected]
  | @unheard _ resp ex hs hcode hex =>
    have hlt : resp.scode < 300 := by omega
    have hgive := hraises hlt hex
    exact one .disconnect (by simp [marks, responseMarks, hs, hgive]) (by simp [Bill.store, Dispatch.time])
  | @untagged _ resp hs hcode hlt htag =>
    refine one .compared ?_ (by simp [Dispatch.time, Meter.store_compared])
    simp [marks, responseMarks, hs, hcode, Response.untagged, htag]
  | @answered _ resp hs hcode hlt hconn =>
    exact one .connect (by simp [marks, responseMarks, hs, hcode, hlt, hconn])
      (by simp [Bill.store, Dispatch.time])
  | @broken _ resp _ _ _ hs hcode hlt hex he hν =>
    rcases hν with ⟨hconn, rfl⟩ | rfl
    · exact one .connect (by simp [marks, responseMarks, hs, hcode, hlt, hconn])
        (by simp [Bill.store, Dispatch.time])
    · exact .inl (by simp)
  | @spoiled _ resp _ hs hcode hlt hν =>
    rcases hν with ⟨⟨ex, hex⟩, ⟨hconn, rfl⟩ | rfl⟩ | ⟨hu, rfl⟩
    · exact .inr (.inr ⟨by simp [marks, responseMarks, hs, hcode, hlt, hconn],
        by simp [Bill.store, Dispatch.time]⟩)
    · have hgive := hraises hlt hex
      exact one .disconnect (by simp [marks, responseMarks, hs, hgive]) (by simp [Bill.store, Dispatch.time])
    · have hgive := hgives resp hu hs hcode
      exact one .disconnect (by simp [marks, responseMarks, hs, hgive]) (by simp [Bill.store, Dispatch.time])
  | @rejected _ resp hs hcode t ht =>
    rcases ht with rfl | ⟨hu, rfl⟩
    · refine one .compared ?_ (by simp [Dispatch.time, Meter.store_compared])
      simp [marks, responseMarks, hs, hcode]
    · have hgive := hgives resp hu hs (by omega)
      exact one .disconnect (by simp [marks, responseMarks, hs, hgive]) (by simp [Bill.store, Dispatch.time])
  | @cancels e hk =>
    refine one .compared ?_ (by simp [Dispatch.time, Meter.store_compared])
    simp [marks, eventMarks_final hk, UaState.progressing, UaState.isConnected, UaState.calling]
  | @cancelsRinging e hk =>
    refine one .compared ?_ (by simp [Dispatch.time, Meter.store_compared])
    simp [marks, eventMarks_final hk, UaState.progressing, UaState.isConnected, UaState.calling]

/-- What a method gives the state object, but for the origin and the number of an event. -/
def Input.gives (w : World) : Input → Option Dispatch
  | .request req => if w.ua.stale req then none else some (.request req)
  | .response resp _ => if w.ua.answers resp then none else some (.response resp)
  | .event e => some (.event e)
  | .ack req => some (.ack req)
  | .sdpUpdated p body => if p.remote then none else some (.event (p.event.withBody body))
  | i => (i.ending w.meter).map fun p => .event ⟨.disconnect none, p.1.getD w.io.now, none, 0, none⟩

/-- What is done with the time of a method. -/
def Input.marks (w : World) (i : Input) : List Mark :=
  match i with
  | .cancel _ _ =>
    if w.ua.cancelCb = some .progressing ∨ w.ua.cancelCb = some .updating then [.disconnect] else []
  | i =>
    match i.gives w with
    | none => []
    | some d => (w.ua.receiver d).elim [] fun s => Ua.marks w s d

/-- The time that a method comes with; where there is none it is the clock. -/
def Input.time (w : World) : Input → Time
  | .request req => req.rtime
  | .response resp _ => resp.rtime
  | .event e => e.rtime
  | .ack req => req.rtime
  | .cancel rtime _ => rtime
  | .sdpUpdated p _ => p.event.rtime
  | i => ((i.ending w.meter).bind fun p => p.1).getD w.io.now

theorem Given.kept {w : World} {i : Input} {d : Dispatch} {μ : Meter} (h : Given w i d μ) :
    μ.bill = w.meter.bill ∧ μ.pendingTr = w.meter.pendingTr ∧ μ.lateMedia = w.meter.lateMedia := by
  cases h with
  | ending h =>
    cases i with
    | timeout t => cases t <;> simp [Input.ending] at h <;> obtain ⟨-, rfl⟩ := h <;> exact ⟨rfl, rfl, rfl⟩
    | disconnect | noack | keepAliveResp =>
      simp only [Input.ending, Option.some.injEq, Prod.mk.injEq] at h
      obtain ⟨-, rfl⟩ := h
      exact ⟨rfl, rfl, rfl⟩
    | _ => cases h
  | _ => exact ⟨rfl, rfl, rfl⟩

theorem Given.time {w : World} {i : Input} {d : Dispatch} {μ : Meter} (h : Given w i d μ) :
    d.time = i.time w := by
  cases h with
  | @ending i rtime μ o n h =>
    have hi : i.time w = ((i.ending w.meter).bind fun p => p.1).getD w.io.now := by
      cases i <;> first | rfl | cases h
    rw [hi, h]
    rfl
  | _ => rfl

theorem marks_mono {w w₁ : World} {s : UaState} {d : Dispatch} {k : Mark}
    (hsetup : w₁.ua.setupTs = w.ua.setupTs) (hpending : w₁.ua.pendingTr = w.ua.pendingTr)
    (hlate : w₁.ua.lateMedia = w.ua.lateMedia) (hw : Since (w.at (some s)) w₁)
    (hk : k ∈ Ua.marks w₁ s d) : k ∈ Ua.marks w s d := by
  have hraises (h : w₁.io.sdps.any SdpRet.raises) : w.io.sdps.any SdpRet.raises := by
    obtain ⟨x, hx, hr⟩ := List.any_eq_true.mp h
    exact List.any_eq_true.mpr ⟨x, hw.sdps.subset hx, hr⟩
  have hquiet (h : w₁.quiet = false) : w.quiet = false := by
    refine Bool.eq_false_of_not_eq_true fun hq => ?_
    have hcalm : w₁.Calm := hw.calm (World.quiet_iff.mp hq)
    exact absurd (h.symm.trans (World.quiet_iff.mpr hcalm)) (by decide)
  have hpass : w₁.ua.passAuth = w.ua.passAuth := hw.passAuth
  cases d with
  | request req => exact hk
  | ack req => exact hk
  | event e => simpa only [Ua.marks, eventMarks, hsetup, hpending] using hk
  | response resp =>
    have hgive (h : w₁.givesUp s resp) : w.givesUp s resp := by
      unfold World.givesUp at h ⊢
      rw [hpass] at h
      exact h.imp (.imp_right hraises) (.imp_right (.imp_left (.imp_right hquiet)))
    simp only [Ua.marks, responseMarks, World.connects, hlate] at hk ⊢
    grind

theorem Given.marks {w w₁ : World} {i : Input} {d : Dispatch} {s : UaState} {k : Mark}
    (h : Given w i d w₁.meter) (hs : s ∈ w.ua.receiver d) (hw : Since (w.at (some s)) w₁)
    (hk : k ∈ Ua.marks w₁ s d) : k ∈ i.marks w := by
  obtain ⟨hbill, hpending, hlate⟩ := h.kept
  have hmono : k ∈ Ua.marks w s d := marks_mono (congrArg Bill.setup hbill) hpending hlate hw hk
  have hs : w.ua.receiver d = some s := hs
  have hgives (d' : Dispatch) (hi : ∀ rtime reason, i ≠ .cancel rtime reason) (hd : i.gives w = some d')
      (hr : w.ua.receiver d' = some s) (hk : k ∈ Ua.marks w s d') : k ∈ i.marks w := by
    unfold Input.marks
    split
    · exact absurd rfl (hi _ _)
    · rw [hd]
      simpa [hr] using hk
  generalize w₁.meter = μ at h
  cases h with
  | request hnew => exact hgives _ (by simp) (if_neg hnew) hs hmono
  | response hno => exact hgives _ (by simp) (by simp [Input.gives, hno]) hs hmono
  | event => exact hgives _ (by simp) rfl hs hmono
  | ack => exact hgives _ (by simp) rfl hs hmono
  | updated hr => exact hgives _ (by simp) (by simp [Input.gives, hr]) hs hmono
  | @ending i rtime μ o n h =>
    refine hgives (.event ⟨.disconnect none, rtime.getD w.io.now, none, 0, none⟩) ?_ ?_ hs hmono
    · rintro _ _ rfl
      cases h
    · cases i <;> simp_all [Input.gives, Input.ending]

theorem Shift.bill {w : World} {s st : Option UaState} {s' : UaState} {ν μ : Meter}
    (h : Shift w s ν s' st μ) : μ.bill = ν.bill := by
  cases h with
  | done => simp
  | stuck => rfl
  | unburied => simp

theorem Turn.ordered {w : World} {i : Input} {st : Option UaState} {μ : Meter} (h : Turn w i st μ)
    (hsound : w.ua.Sound) (hok : ∀ k ∈ i.marks w, w.meter.bill.timely w.io.now (i.time w) k)
    (ho : w.meter.bill.ordered) : μ.bill.ordered := by
  have htick {d : Dispatch} {s : UaState} {w₁ : World} {r : Res} {ν : Meter} (hg : Given w i d w₁.meter)
      (hs : s ∈ w.ua.receiver d) (hw : Since (w.at (some s)) w₁) (ht : Tick w₁ s d r ν) :
      ν.bill.ordered := by
    have htarget (hc : s.calling) : w₁.ua.rTarget.isSome :=
      hw.rTarget ((hsound.receiver hs).target hc)
    have hnow : w₁.io.now = w.io.now := hw.now
    have htimely {k : Mark} (hk : k ∈ Ua.marks w₁ s d) : w₁.meter.bill.timely w₁.io.now d.time k := by
      rw [hg.kept.1, hnow, hg.time]
      exact hok k (hg.marks hs hw hk)
    rw [← hg.kept.1] at ho
    rcases ht.bill htarget with h | ⟨k, hk, h⟩ | ⟨hk, h⟩
    · rw [h]
      exact ho
    · rw [h]
      exact Bill.ordered_store ho (htimely hk)
    · rw [h]
      exact Bill.ordered_store_both ho (htimely hk)
  cases h with
  | rests => exact ho
  | handled hg hs hw ht => exact htick hg hs hw ht
  | shifted hg hs hw ht h => exact h.bill ▸ htick hg hs hw ht
  | @cancelled rtime _ _ _ hcb h =>
    rw [h.bill, Meter.bill_disconnect]
    exact Bill.ordered_disconnect ho (hok .disconnect (by simp [Input.marks, hcb]))
  | @unupdated rtime _ _ _ hcb h =>
    rw [h.bill, Meter.bill_disconnect]
    exact Bill.ordered_disconnect ho (hok .disconnect (by simp [Input.marks, hcb]))
  | resets =>
    unfold Meter.reset
    split
    · rw [Meter.bill_start]
      exact ho
    · exact ho
  | probes => exact ho
  | dies _ h => exact h.bill ▸ ho
  | refers => exact ho

def UA.bill (ua : UA) : Bill := ⟨ua.setupTs, ua.connectTs, ua.disconnectTs⟩

def Mach.timely (m : Mach) (l : Label) : Bool :=
  match l.method m, l.io with
  | some i, some io =>
    (i.marks (m.world io)).all (m.ua.bill.timely io.now (i.time (m.world io)))
  | _, _ => true

/-- `getAcct`, at a time. -/
def UA.getAcct (ua : UA) (now : Time) : Lazy (Time × Time × Bool × Bool) :=
  match ua.setupTs, ua.connectTs with
  | none, _ => .error .typeError
  | some setup, some connect =>
    .ok (ua.disconnectTs.getD now - connect, connect - setup, true, ua.disconnectTs.isSome)
  | some setup, none => .ok (0, ua.disconnectTs.getD now - setup, false, ua.disconnectTs.isSome)

def namedUA : UA := { UA.new with rAddr0 := some ((['f'], 5060), ['u']) }

theorem namedUA_unused : namedUA.Unused := by constructor <;> rfl

/-- A call to the far end that is set up after 40 seconds and answered after 100. -/
def billedCall : List Label :=
  [.input (.event ⟨.setup ⟨none, none, some ['1'], some (sampleBody ['x']), none, none⟩ none,
     40 * second, none, 9, none⟩) .calm, .tau .calm,
   .input (.response { Response.bare 200 .invite 1 with
     rtime := 100 * second, body := some (sampleBody ['y']) } []) .calm,
   .tau .calm, .ret, .tau .calm]

end SippyB2bua.Ua
