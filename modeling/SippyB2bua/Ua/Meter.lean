import SippyB2bua.Ua.Step

/-!
# What a call is metered by

The timers of a user agent, the limits they keep, the times that a call is billed by and
the requests that end a dialog. `Reads` is a judgement about programs that tells what they
make of this part, and from which state of the calls out of the user agent an exception can
come; it has a rule for each primitive.
-/

namespace SippyB2bua.Ua
open Lib (Text Alarm wp wp_mono wp_bind wp_tryCatch Keeps)

def Act.hangsUp : Act → Bool
  | .request r => r.method = .bye ∨ r.method = .refer
  | _ => false

/-- The part of a user agent that its timers and its bill depend on. -/
structure Meter where
  creditTime : Option Time
  creditTimes : List (ℕ × Option Time)
  creditTimer : Alarm
  expireTime : Option Time
  expireMtime : Time
  expireTimer : Alarm
  noProgressTime : Option Time
  noProgressMtime : Time
  noProgressTimer : Alarm
  noReplyTime : Option Time
  noReplyTimer : Alarm
  setupTs : Option Time
  connectTs : Option Time
  disconnectTs : Option Time
  lateMedia : Bool
  kaTr : Bool
  pendingTr : Bool
  /-- How many requests were sent that end a dialog. -/
  hangups : ℕ

def UA.meter (ua : UA) (hangups : ℕ) : Meter where
  creditTime := ua.creditTime
  creditTimes := ua.creditTimes
  creditTimer := ua.creditTimer
  expireTime := ua.expireTime
  expireMtime := ua.expireMtime
  expireTimer := ua.expireTimer
  noProgressTime := ua.noProgressTime
  noProgressMtime := ua.noProgressMtime
  noProgressTimer := ua.noProgressTimer
  noReplyTime := ua.noReplyTime
  noReplyTimer := ua.noReplyTimer
  setupTs := ua.setupTs
  connectTs := ua.connectTs
  disconnectTs := ua.disconnectTs
  lateMedia := ua.lateMedia
  kaTr := ua.kaTr
  pendingTr := ua.pendingTr
  hangups := hangups

def World.meter (w : World) : Meter := w.ua.meter (w.log.countP Act.hangsUp)

namespace Meter

def expireOff (μ : Meter) : Meter := { μ with expireTimer := μ.expireTimer.cancel }
def noProgressOff (μ : Meter) : Meter := { μ with noProgressTimer := μ.noProgressTimer.cancel }
def noReplyOff (μ : Meter) : Meter := { μ with noReplyTimer := μ.noReplyTimer.cancel }
def creditOff (μ : Meter) : Meter := { μ with creditTimer := μ.creditTimer.cancel }

def limits (μ : Meter) (rtime : Time) : List (ℕ × Option Time) :=
  match μ.creditTime with
  | none => μ.creditTimes
  | some t => putCreditTime μ.creditTimes 0 (some (rtime + t))

def earliest (times : List (ℕ × Option Time)) : Option Time := (times.filterMap (·.2)).min?

def spend (μ : Meter) (rtime : Time) : Meter :=
  { μ with creditTime := none, creditTimes := μ.limits rtime }

def armCredit (μ : Meter) : Meter :=
  match earliest μ.creditTimes with
  | none => μ
  | some t => { μ with creditTimer := μ.creditTimer.arm t }

/-- `startCreditTimer`. -/
def start (μ : Meter) (rtime : Time) : Meter := (μ.spend rtime).armCredit

def armExpire (μ : Meter) : Meter := { μ with expireTimer := μ.expireTimer.arm μ.expireMtime }

def armNoProgress (μ : Meter) : Meter :=
  { μ with noProgressTimer := μ.noProgressTimer.arm μ.noProgressMtime }

def armNoReply (μ : Meter) (deadline : Time) : Meter :=
  { μ with noReplyTimer := μ.noReplyTimer.arm deadline }

def progressed (μ : Meter) (provisional : Bool) : Meter :=
  if μ.noProgressTimer.ref.isSome then
    if provisional ∧ μ.expireTime.isSome then μ.noProgressOff.armExpire else μ.noProgressOff
  else μ

def replied (μ : Meter) (scode : ℤ) : Meter :=
  if μ.noReplyTimer.ref.isSome then
    if scode = 100 ∧ μ.noProgressTime.isSome then μ.noReplyOff.armNoProgress
    else if scode < 200 ∧ μ.expireTime.isSome then μ.noReplyOff.armExpire
    else μ.noReplyOff
  else μ

def expireBy (μ : Meter) (rtime : Time) : Meter :=
  match μ.expireTime with
  | none => μ
  | some t => { μ with expireMtime := rtime + t }

def progressBy (μ : Meter) (rtime : Time) : Meter :=
  match μ.noProgressTime with
  | none => μ
  | some t => { μ with
      noProgressMtime := rtime + t
      noProgressTime := (some t).filter fun t => UacStateIdle.shorter t μ.expireTime }

/-- `armSetupTimers`. -/
def deadlines (μ : Meter) (rtime : Time) : Meter := (μ.expireBy rtime).progressBy rtime

def armFirst (μ : Meter) : Meter :=
  if μ.noProgressTime.isSome then μ.armNoProgress
  else if μ.expireTime.isSome then μ.armExpire
  else μ

/-- `UacStateIdle.armSetupTimers`, without the timer that is started. -/
def replyDeadline (μ : Meter) : Meter :=
  { μ with noReplyTime := μ.noReplyTime.filter fun t =>
      t < 32 * second && UacStateIdle.shorter t μ.expireTime &&
        UacStateIdle.shorter t μ.noProgressTime }

/-- The timer of a UAC that is started first. -/
def armReply (μ : Meter) (rtime : Time) : Meter :=
  match μ.noReplyTime with
  | some t => μ.armNoReply (rtime + t)
  | none => μ.armFirst

def connect (μ : Meter) (t : Time) : Meter := { μ with connectTs := some t }
def disconnect (μ : Meter) (t : Time) : Meter := { μ with disconnectTs := some t }
def hangUp (μ : Meter) : Meter := { μ with hangups := μ.hangups + 1 }

/-- The time that `setDisconnectTs` stores. -/
def notBefore (μ : Meter) (now rtime : Time) : Time :=
  match μ.setupTs with
  | none => rtime
  | some setup => if setup ≤ rtime then rtime else now

end Meter

/-- What else a handler's way depends on, besides the meter. -/
structure Rest where
  state : Option UaState
  tr : Bool
  uasResp : Option ℤ
  rTarget : Option Target
  cancelCb : Option CancelFn
  passAuth : Bool
  goDeads : ℕ
  te : Bool
  deadCbs : Bool

def UA.rest (ua : UA) : Rest :=
  ⟨ua.state, ua.tr, ua.uasResp, ua.rTarget, ua.cancelCb, ua.passAuth, ua.goDeads, ua.te, ua.deadCbs⟩

structure Since (w₀ w : World) : Prop where
  state : w.ua.state = w₀.ua.state
  now : w.io.now = w₀.io.now
  calm : w₀.Calm → w.Calm
  sdps : w.io.sdps <:+ w₀.io.sdps
  tr : w₀.ua.tr → w.ua.tr
  uasResp : w₀.ua.uasResp.isSome → w.ua.uasResp.isSome
  rTarget : w₀.ua.rTarget.isSome → w.ua.rTarget.isSome
  cancelCb : w.ua.cancelCb = some .updating → w₀.ua.cancelCb = some .updating
  passAuth : w.ua.passAuth = w₀.ua.passAuth
  goDeads : w.ua.goDeads = w₀.ua.goDeads
  te : w.ua.te → w₀.ua.te
  deadCbs : w.ua.deadCbs = w₀.ua.deadCbs

theorem Since.refl (w : World) : Since w w where
  state := rfl
  now := rfl
  calm h := h
  sdps := List.suffix_rfl
  tr h := h
  uasResp h := h
  rTarget h := h
  cancelCb h := h
  passAuth := rfl
  goDeads := rfl
  te h := h
  deadCbs := rfl

theorem Since.trans {w₀ w₁ w₂ : World} (h : Since w₀ w₁) (h' : Since w₁ w₂) : Since w₀ w₂ where
  state := h'.state.trans h.state
  now := h'.now.trans h.now
  calm := h'.calm ∘ h.calm
  sdps := h'.sdps.trans h.sdps
  tr := h'.tr ∘ h.tr
  uasResp := h'.uasResp ∘ h.uasResp
  rTarget := h'.rTarget ∘ h.rTarget
  cancelCb := h.cancelCb ∘ h'.cancelCb
  passAuth := h'.passAuth.trans h.passAuth
  goDeads := h'.goDeads.trans h.goDeads
  te := h.te ∘ h'.te
  deadCbs := h'.deadCbs.trans h.deadCbs

theorem Since.of_rest {w₀ w : World} {ua : UA} {seq : ℕ} {log : List Act} (h : Since w₀ w)
    (hr : ua.rest = w.ua.rest) : Since w₀ ⟨ua, seq, w.io, log⟩ := by
  have hstate : ua.state = w.ua.state := congrArg Rest.state hr
  have htr : ua.tr = w.ua.tr := congrArg Rest.tr hr
  have hresp : ua.uasResp = w.ua.uasResp := congrArg Rest.uasResp hr
  have htarget : ua.rTarget = w.ua.rTarget := congrArg Rest.rTarget hr
  have hcb : ua.cancelCb = w.ua.cancelCb := congrArg Rest.cancelCb hr
  have hpass : ua.passAuth = w.ua.passAuth := congrArg Rest.passAuth hr
  have hdead : ua.goDeads = w.ua.goDeads := congrArg Rest.goDeads hr
  have hte : ua.te = w.ua.te := congrArg Rest.te hr
  have hcbs : ua.deadCbs = w.ua.deadCbs := congrArg Rest.deadCbs hr
  exact {
    state := hstate.trans h.state
    now := h.now
    calm := h.calm
    sdps := h.sdps
    tr := fun hw => htr ▸ h.tr hw
    uasResp := fun hw => hresp ▸ h.uasResp hw
    rTarget := fun hw => htarget ▸ h.rTarget hw
    cancelCb := fun hw => h.cancelCb (hcb ▸ hw)
    passAuth := hpass.trans h.passAuth
    goDeads := hdead.trans h.goDeads
    te := fun hw => h.te (hte ▸ hw)
    deadCbs := hcbs.trans h.deadCbs }

theorem Since.called {w₀ w : World} (h : Since w₀ w) :
    Since w₀ { w with io := { w.io with faults := w.io.faults.tail } } :=
  { h with calm := fun hw b hb => h.calm hw b (List.mem_of_mem_tail hb) }

theorem Since.faulty {w₀ w : World} (h : Since w₀ w) (hf : w.io.faults.headD false = true) :
    ¬ w₀.Calm := by
  intro hcalm
  cases hw : w.io.faults with
  | nil => simp [hw] at hf
  | cons fault faults =>
    have : fault = false := h.calm hcalm fault (by simp [hw])
    simp [hw, this] at hf

theorem Since.call (a : Act) : Keeps Since (call a) := by
  intro w
  rw [wp_call]
  split
  · exact (Since.refl w).called
  · exact (Since.refl w).called.of_rest rfl

variable {w₀ : World} {μ : Meter} {α β : Type}

/-- Started with the meter `μ`, the program returns with `K` or raises with `X`. -/
def Reads (w₀ : World) (μ : Meter) (K : α → Meter → Prop) (X : Raised → Meter → Prop)
    (p : M α) : Prop :=
  ∀ w, Since w₀ w → w.meter = μ →
    wp p (fun a w' => Since w₀ w' ∧ K a w'.meter) (fun e w' => Since w₀ w' ∧ X e w'.meter) w

namespace Reads
variable {K : α → Meter → Prop} {L : β → Meter → Prop} {X : Raised → Meter → Prop}

theorem pure {a : α} (h : K a μ) : Reads w₀ μ K X (pure a : M α) :=
  fun _ hw hμ => ⟨hw, hμ ▸ h⟩

theorem throw {e : Raised} (h : X e μ) : Reads w₀ μ K X (throw e : M α) :=
  fun _ hw hμ => ⟨hw, hμ ▸ h⟩

theorem raise {e : Exn} (h : X ⟨e, []⟩ μ) : Reads w₀ μ K X (Ua.raise e : M α) := throw h

theorem bind {p : M β} {f : β → M α} (hp : Reads w₀ μ L X p)
    (hf : ∀ b μ', L b μ' → Reads w₀ μ' K X (f b)) : Reads w₀ μ K X (p >>= f) := by
  intro w hw hμ
  rw [wp_bind]
  refine wp_mono (hp w hw hμ) (fun b w' h => ?_) fun _ _ h => h
  exact hf b w'.meter h.2 w' h.1 rfl

/-- A program that leaves the meter alone, and whose result `P` holds of. -/
theorem step {P : β → Prop} {p : M β} {f : β → M α}
    (hp : Reads w₀ μ (fun b μ' => P b ∧ μ' = μ) X p)
    (hf : ∀ b, P b → Reads w₀ μ K X (f b)) : Reads w₀ μ K X (p >>= f) :=
  hp.bind fun b _ h => h.2 ▸ hf b h.1

theorem next {ν : Meter} {p : M β} {f : β → M α} (hp : Reads w₀ μ (fun _ μ' => μ' = ν) X p)
    (hf : ∀ b, Reads w₀ ν K X (f b)) : Reads w₀ μ K X (p >>= f) :=
  hp.bind fun b _ h => h ▸ hf b

theorem weaken {K' : α → Meter → Prop} {X' : Raised → Meter → Prop} {p : M α}
    (hp : Reads w₀ μ K' X' p) (hK : ∀ a μ', K' a μ' → K a μ') (hX : ∀ e μ', X' e μ' → X e μ') :
    Reads w₀ μ K X p := fun w hw hμ =>
  wp_mono (hp w hw hμ) (fun _ _ h => ⟨h.1, hK _ _ h.2⟩) fun _ _ h => ⟨h.1, hX _ _ h.2⟩

theorem map {p : M β} {f : β → α} (hp : Reads w₀ μ L X p) (hf : ∀ b μ', L b μ' → K (f b) μ') :
    Reads w₀ μ K X (f <$> p) := by
  intro w hw hμ
  rw [Lib.wp_map]
  exact wp_mono (hp w hw hμ) (fun _ _ h => ⟨h.1, hf _ _ h.2⟩) fun _ _ h => h

theorem ite {c : Prop} [Decidable c] {p p' : M α} (hp : c → Reads w₀ μ K X p)
    (hp' : ¬ c → Reads w₀ μ K X p') : Reads w₀ μ K X (if c then p else p') := by
  split
  · exact hp ‹_›
  · exact hp' ‹_›

theorem discard {ν : Meter} {p : M β} (hp : Reads w₀ μ (fun _ μ' => μ' = ν) X p) :
    Reads w₀ μ (fun _ μ' => μ' = ν) X (discard p) := hp.map fun _ _ h => h

theorem tryCatch {p : M α} {h : Raised → M α} {Y : Raised → Meter → Prop}
    (hp : Reads w₀ μ K Y p) (hh : ∀ e μ', Y e μ' → Reads w₀ μ' K X (h e)) :
    Reads w₀ μ K X (tryCatch p h) := by
  intro w hw hμ
  rw [wp_tryCatch]
  exact wp_mono (hp w hw hμ) (fun _ _ h => h) fun e w' h' => hh e w'.meter h'.2 w' h'.1 rfl

theorem getUA_bind {f : UA → M α} (hf : ∀ w, Since w₀ w → w.meter = μ → Reads w₀ μ K X (f w.ua)) :
    Reads w₀ μ K X (getUA >>= f) := fun w hw hμ => hf w hw hμ w hw hμ

theorem get_bind {f : World → M α} (hf : ∀ w, Since w₀ w → w.meter = μ → Reads w₀ μ K X (f w)) :
    Reads w₀ μ K X (get >>= f) := fun w hw hμ => hf w hw hμ w hw hμ

theorem upd {f : UA → UA} {g : Meter → Meter} (hr : ∀ ua, (f ua).rest = ua.rest)
    (hg : ∀ ua n, (f ua).meter n = g (ua.meter n)) :
    Reads w₀ μ (fun _ μ' => μ' = g μ) X (upd f) := fun w hw hμ =>
  ⟨hw.of_rest (hr w.ua), hμ ▸ hg w.ua _⟩

theorem upd_other {f : UA → UA} (hr : ∀ ua, (f ua).rest = ua.rest)
    (hg : ∀ ua n, (f ua).meter n = ua.meter n) : Reads w₀ μ (fun _ μ' => μ' = μ) X (Ua.upd f) :=
  upd (g := id) hr hg

theorem upd_tr : Reads w₀ μ (fun _ μ' => μ' = μ) X (Ua.upd fun ua => { ua with tr := true }) :=
  fun _ hw hμ => ⟨{ hw with tr := fun _ => rfl }, hμ⟩

theorem upd_te : Reads w₀ μ (fun _ μ' => μ' = μ) X (Ua.upd fun ua => { ua with te := false }) :=
  fun _ hw hμ => ⟨{ hw with te := by simp }, hμ⟩

theorem upd_uasResp {cseq : ℤ} {f : UA → UA}
    (hr : ∀ ua, (f ua).rest = { ua.rest with uasResp := some cseq })
    (hg : ∀ ua n, (f ua).meter n = ua.meter n) : Reads w₀ μ (fun _ μ' => μ' = μ) X (Ua.upd f) := by
  intro w hw hμ
  have hresp : (f w.ua).uasResp = some cseq := congrArg Rest.uasResp (hr w.ua)
  have hset : Since w₀ { w with ua := { w.ua with uasResp := some cseq } } :=
    { hw with uasResp := fun _ => rfl }
  exact ⟨hset.of_rest (hr w.ua), hμ ▸ hg w.ua _⟩

theorem upd_rTarget {t : Target} {f : UA → UA}
    (hr : ∀ ua, (f ua).rest = { ua.rest with rTarget := some t })
    (hg : ∀ ua n, (f ua).meter n = ua.meter n) : Reads w₀ μ (fun _ μ' => μ' = μ) X (Ua.upd f) := by
  intro w hw hμ
  have hset : Since w₀ { w with ua := { w.ua with rTarget := some t } } :=
    { hw with rTarget := fun _ => rfl }
  exact ⟨hset.of_rest (hr w.ua), hμ ▸ hg w.ua _⟩

theorem act {a : Act} (ha : a.hangsUp = false) : Reads w₀ μ (fun _ μ' => μ' = μ) X (act a) := by
  intro w hw hμ
  refine ⟨hw.of_rest rfl, ?_⟩
  rw [← hμ]
  simp [World.meter, ha]

theorem call {a : Act} (ha : a.hangsUp = false) (hX : ¬ w₀.Calm → X ⟨.other, []⟩ μ) :
    Reads w₀ μ (fun _ μ' => μ' = μ) X (call a) := by
  intro w hw hμ
  rw [wp_call]
  split
  · exact ⟨hw.called, hμ ▸ hX (hw.faulty ‹_›)⟩
  · refine ⟨hw.called.of_rest rfl, ?_⟩
    rw [← hμ]
    simp [World.meter, ha]

theorem hangUp {r : SentRequest} (hr : r.method = .bye ∨ r.method = .refer)
    (hX : ¬ w₀.Calm → X ⟨.other, []⟩ μ) :
    Reads w₀ μ (fun _ μ' => μ' = μ.hangUp) X (Ua.call (.request r)) := by
  intro w hw hμ
  rw [wp_call]
  split
  · exact ⟨hw.called, hμ ▸ hX (hw.faulty ‹_›)⟩
  · refine ⟨hw.called.of_rest rfl, ?_⟩
    rw [← hμ]
    simp [World.meter, Act.hangsUp, hr, Meter.hangUp, UA.meter]

theorem newEvent {kind : Kind} {rtime : Time} {origin : Option Origin} :
    Reads w₀ μ (fun e μ' => (e.kind = kind ∧ e.rtime = rtime) ∧ μ' = μ) X
      (newEvent kind rtime origin) :=
  fun _ hw hμ => ⟨hw.of_rest rfl, ⟨rfl, rfl⟩, hμ⟩

theorem enqueue {e : CCEvent} : Reads w₀ μ (fun _ μ' => μ' = μ) X (enqueue e) :=
  upd_other (fun _ => rfl) fun _ _ => rfl

theorem now : Reads w₀ μ (fun t μ' => t = w₀.io.now ∧ μ' = μ) X now :=
  fun _ hw hμ => ⟨hw, hw.now, hμ⟩

theorem ofLazy {x : Lazy α} (hX : ∀ e, x = .error e → X ⟨e, []⟩ μ) :
    Reads w₀ μ (fun a μ' => x = .ok a ∧ μ' = μ) X (ofLazy x) := by
  cases x with
  | ok a => exact pure ⟨rfl, rfl⟩
  | error e => exact raise (hX e rfl)

theorem onSdpChange {remote : Bool} {event : CCEvent}
    (hX : ∀ e, .raise e ∈ w₀.io.sdps → X e μ) :
    Reads w₀ μ (fun _ μ' => μ' = μ) X (onSdpChange remote event) := by
  intro w hw hμ
  rw [wp_onSdpChange]
  have hw' : Since w₀ { w with io := { w.io with sdps := w.io.sdps.tail } } :=
    { hw with sdps := (List.tail_suffix _).trans hw.sdps }
  cases hs : w.io.sdps.headD .pending with
  | body b => exact ⟨hw', hμ⟩
  | pending => exact ⟨hw'.of_rest rfl, hμ⟩
  | raise e =>
    refine ⟨hw', hμ ▸ hX e (hw.sdps.subset ?_)⟩
    cases hl : w.io.sdps with
    | nil => simp [hl] at hs
    | cons r rs =>
      rw [hl] at hs
      exact hs ▸ List.mem_cons_self

theorem remoteBody {body : Option Body} {event : CCEvent}
    (hX : ∀ e, .raise e ∈ w₀.io.sdps → X e μ) :
    Reads w₀ μ (fun _ μ' => μ' = μ) X (remoteBody body event) := by
  unfold Ua.remoteBody
  cases body with
  | none => exact next (upd_other (fun _ => rfl) fun _ _ => rfl) fun _ => pure rfl
  | some body =>
    refine getUA_bind fun w _ _ => ite (fun _ => ?_) fun _ => ?_
    · refine next (onSdpChange hX) fun r => ?_
      cases r with
      | none => exact pure rfl
      | some body => exact next (upd_other (fun _ => rfl) fun _ _ => rfl) fun _ => pure rfl
    · exact next (upd_other (fun _ => rfl) fun _ _ => rfl) fun _ => pure rfl

theorem queueRemote {body : Option Body} {event : CCEvent}
    (hX : ∀ e, .raise e ∈ w₀.io.sdps → X e μ) :
    Reads w₀ μ (fun _ μ' => μ' = μ) X (queueRemote body event) := by
  refine next (remoteBody hX) fun r => ?_
  cases r with
  | none => exact pure rfl
  | some event => exact enqueue

theorem genRequest {method : Method} {body : Option Body} {cqop : Cqop} {hs : List Header}
    {mf : Option ℤ} (hcqop : ∀ c, cqop ≠ .bare c) :
    Reads w₀ μ (fun r μ' => r.method = method ∧ μ' = μ) X
      (genRequest method body cqop hs mf) := by
  unfold Ua.genRequest
  refine getUA_bind fun w _ _ => ?_
  cases cqop with
  | none =>
    exact next (pure rfl) fun _ => next (upd_other (fun _ => rfl) fun _ _ => rfl) fun _ => pure ⟨rfl, rfl⟩
  | pair c =>
    exact next (pure rfl) fun _ => next (upd_other (fun _ => rfl) fun _ _ => rfl) fun _ => pure ⟨rfl, rfl⟩
  | bare c => exact absurd rfl (hcqop c)

theorem sendBYE {hs : List Header} (hX : ¬ w₀.Calm → X ⟨.other, []⟩ μ) :
    Reads w₀ μ (fun _ μ' => μ' = μ.hangUp) X (sendBYE hs) :=
  step (genRequest (by simp)) fun _ hr => hangUp (.inl hr) hX

theorem newUacTransaction {r : SentRequest} (hr : r.method = .invite)
    (hX : ¬ w₀.Calm → X ⟨.other, []⟩ μ) :
    Reads w₀ μ (fun _ μ' => μ' = μ) X (newUacTransaction r) :=
  next (call (by simp [Act.hangsUp, hr]) hX) fun _ => upd_tr

/-- There is an INVITE to answer, or a call raises, or the code is none. -/
theorem sendUasResponse {code : Code} {reason : Text} {body : Option Body} {hs : List Header}
    (hX : ∀ e, ¬ w₀.Calm ∨ w₀.ua.uasResp = none ∨ code = .ack → X e μ) :
    Reads w₀ μ (fun _ μ' => μ' = μ) X (sendUasResponse code reason body hs) := by
  refine getUA_bind fun w hw _ => ?_
  cases hr : w.ua.uasResp with
  | none =>
    refine raise (hX _ (.inr (.inl ?_)))
    have hno : ¬ w₀.ua.uasResp.isSome := fun h => by simpa [hr] using hw.uasResp h
    simpa using hno
  | some cseq =>
    cases code with
    | ack => exact raise (hX _ (.inr (.inr rfl)))
    | num n =>
      refine next (call rfl fun h => hX _ (.inl h)) fun _ => ?_
      refine ite (fun _ w' hw' hμ => ?_) fun _ => pure rfl
      exact ⟨{ hw' with cancelCb := by simp }, hμ⟩

theorem cancelTransaction (hX : ∀ e, ¬ w₀.Calm ∨ w₀.ua.tr = false → X e μ) :
    Reads w₀ μ (fun _ μ' => μ' = μ) X cancelTransaction := by
  refine getUA_bind fun w hw _ => ite (fun _ => call rfl fun h => hX _ (.inl h)) fun htr => ?_
  refine raise (hX _ (.inr ?_))
  simpa using fun h => htr (hw.tr h)

theorem cancelExpireTimer : Reads w₀ μ (fun _ μ' => μ' = μ.expireOff) X cancelExpireTimer :=
  upd (fun _ => rfl) fun _ _ => rfl

theorem cancelNoProgressTimer :
    Reads w₀ μ (fun _ μ' => μ' = μ.noProgressOff) X cancelNoProgressTimer :=
  upd (fun _ => rfl) fun _ _ => rfl

theorem cancelNoReplyTimer : Reads w₀ μ (fun _ μ' => μ' = μ.noReplyOff) X cancelNoReplyTimer :=
  upd (fun _ => rfl) fun _ _ => rfl

theorem cancelCreditTimer : Reads w₀ μ (fun _ μ' => μ' = μ.creditOff) X cancelCreditTimer :=
  upd (fun _ => rfl) fun _ _ => rfl

theorem armExpireTimer : Reads w₀ μ (fun _ μ' => μ' = μ.armExpire) X armExpireTimer :=
  upd (fun _ => rfl) fun _ _ => rfl

theorem armNoProgressTimer : Reads w₀ μ (fun _ μ' => μ' = μ.armNoProgress) X armNoProgressTimer :=
  upd (fun _ => rfl) fun _ _ => rfl

theorem startCreditTimer {rtime : Time} :
    Reads w₀ μ (fun _ μ' => μ' = μ.start rtime) X (startCreditTimer rtime) := by
  refine next (upd (g := fun ν => ν.spend rtime) (fun ua => ?_) fun ua n => ?_) fun _ =>
    upd (g := Meter.armCredit) (fun ua => ?_) fun ua n => ?_
  · cases ua.creditTime <;> rfl
  · cases hc : ua.creditTime <;> simp [Meter.spend, UA.meter, Meter.limits, hc]
  · cases (ua.creditTimes.filterMap (·.2)).min? <;> rfl
  · cases hm : (ua.creditTimes.filterMap (·.2)).min? <;>
      simp [Meter.armCredit, Meter.earliest, UA.meter, hm]

theorem progressed {provisional : Bool} :
    Reads w₀ μ (fun _ μ' => μ' = μ.progressed provisional) X (progressed provisional) := by
  refine getUA_bind fun w _ hμ => ?_
  have hw : w.ua.noProgressTimer = μ.noProgressTimer := hμ ▸ rfl
  unfold Meter.progressed
  rw [hw]
  refine ite (fun h => ?_) fun h => ?_
  · rw [if_pos h]
    refine next cancelNoProgressTimer fun _ => getUA_bind fun w' _ hμ' => ?_
    have hw' : w'.ua.expireTime = μ.expireTime := (congrArg Meter.expireTime hμ' :)
    rw [hw']
    refine ite (fun h' => ?_) fun h' => ?_
    · rw [if_pos h']
      exact armExpireTimer
    · rw [if_neg h']
      exact pure rfl
  · rw [if_neg h]
    exact pure rfl

theorem replied {scode : ℤ} :
    Reads w₀ μ (fun _ μ' => μ' = μ.replied scode) X (UacStateTrying.replied scode) := by
  refine getUA_bind fun w _ hμ => ?_
  have hw : w.ua.noReplyTimer = μ.noReplyTimer := hμ ▸ rfl
  unfold Meter.replied
  rw [hw]
  refine ite (fun h => ?_) fun h => ?_
  · rw [if_pos h]
    refine next cancelNoReplyTimer fun _ => getUA_bind fun w' _ hμ' => ?_
    have hp : w'.ua.noProgressTime = μ.noProgressTime := (congrArg Meter.noProgressTime hμ' :)
    rw [hp]
    refine ite (fun h' => ?_) fun h' => ?_
    · rw [if_pos h']
      exact armNoProgressTimer
    · rw [if_neg h']
      refine getUA_bind fun w'' _ hμ'' => ?_
      have he : w''.ua.expireTime = μ.expireTime := (congrArg Meter.expireTime hμ'' :)
      rw [he]
      refine ite (fun h'' => ?_) fun h'' => ?_
      · rw [if_pos h'']
        exact armExpireTimer
      · rw [if_neg h'']
        exact pure rfl
  · rw [if_neg h]
    exact pure rfl

theorem armFirst : Reads w₀ μ (fun _ μ' => μ' = μ.armFirst) X UasStateIdle.armFirst := by
  refine getUA_bind fun w _ hμ => ?_
  have hp : w.ua.noProgressTime = μ.noProgressTime := hμ ▸ rfl
  unfold Meter.armFirst
  rw [hp]
  refine ite (fun h => ?_) fun h => ?_
  · rw [if_pos h]
    exact armNoProgressTimer
  · rw [if_neg h]
    refine getUA_bind fun w' _ hμ' => ?_
    have he : w'.ua.expireTime = μ.expireTime := hμ' ▸ rfl
    rw [he]
    refine ite (fun h' => ?_) fun h' => ?_
    · rw [if_pos h']
      exact armExpireTimer
    · rw [if_neg h']
      exact pure rfl

theorem armSetupTimers {rtime : Time} :
    Reads w₀ μ (fun _ μ' => μ' = μ.deadlines rtime) X (armSetupTimers rtime) := by
  refine next (upd (g := fun ν => ν.expireBy rtime) (fun ua => ?_) fun ua n => ?_) fun _ =>
    upd (g := fun ν => ν.progressBy rtime) (fun ua => ?_) fun ua n => ?_
  · cases ua.expireTime <;> rfl
  · cases hc : ua.expireTime <;> simp [Meter.expireBy, UA.meter, hc]
  · cases ua.noProgressTime <;> rfl
  · cases hp : ua.noProgressTime with
    | none => simp [Meter.progressBy, UA.meter, hp]
    | some t =>
      cases he : ua.expireTime with
      | none => simp [Meter.progressBy, UacStateIdle.shorter, Option.filter, UA.meter, hp, he]
      | some expire =>
        by_cases hle : expire ≤ t
        · have hlt : ¬ t < expire := Int.not_lt.mpr hle
          simp [Meter.progressBy, UacStateIdle.shorter, Option.filter, UA.meter, hp, he, hle, hlt]
        · have hlt : t < expire := Int.not_le.mp hle
          simp [Meter.progressBy, UacStateIdle.shorter, Option.filter, UA.meter, hp, he, hle, hlt]

theorem uacArmSetupTimers {rtime : Time} :
    Reads w₀ μ (fun _ μ' => μ' = ((μ.deadlines rtime).replyDeadline).armReply rtime) X
      (UacStateIdle.armSetupTimers rtime) := by
  refine next armSetupTimers fun _ => next (upd (g := Meter.replyDeadline) (fun _ => rfl)
    fun _ _ => rfl) fun _ => getUA_bind fun w _ hμ => ?_
  have hr : w.ua.noReplyTime = (μ.deadlines rtime).replyDeadline.noReplyTime :=
    (congrArg Meter.noReplyTime hμ :)
  unfold Meter.armReply
  rw [hr]
  cases (μ.deadlines rtime).replyDeadline.noReplyTime with
  | none => exact armFirst
  | some t =>
    exact upd (g := fun ν => ν.armNoReply (rtime + t)) (fun _ => rfl) fun _ _ => rfl

theorem setDisconnectTs {rtime : Time} :
    Reads w₀ μ (fun _ μ' => μ' = μ.disconnect (μ.notBefore w₀.io.now rtime)) X
      (setDisconnectTs rtime) := by
  refine step now fun t ht => ?_
  refine upd (g := fun ν => ν.disconnect (ν.notBefore w₀.io.now rtime)) (fun _ => rfl) fun ua n => ?_
  rw [ht]
  rfl

end Reads
end SippyB2bua.Ua
