import SippyB2bua.Ua.Closed

/-!
# What a method does

A method of `UA` is a handler followed by a change of state. Beside what the handler
does it may drop the callbacks of the user agent. `Grows` is what remains true of the
two together; it is closed under composition, so it holds of every call from outside
except that a completed SDP update queues an event that was made earlier. A method
that is not loud says nothing when the call is over.
-/

namespace SippyB2bua.Ua
open Lib (Text wp wp_mono wp_bind Keeps)

def Act.isEvent : Act → Bool
  | .event _ => true
  | _ => false

def Act.isInvite : Act → Bool
  | .request r => r.method = .invite
  | _ => false

/-- Neither an event handed over nor an INVITE. -/
def Act.Calm (a : Act) : Prop := a.isEvent = false ∧ a.isInvite = false

/-- Not an event handed over. -/
def Act.Inner (a : Act) : Prop := a.isEvent = false

def UA.isOver (ua : UA) : Bool := ua.state.any UaState.terminated

/-- What is allowed to a method: acts, events whose local SDP update it starts, and
whether it keeps an SDP that there is. -/
structure Limits where
  act : Act → Prop
  awaits : CCEvent → Prop
  keepsL : Prop
  keepsR : Prop

/-- Any method stays within the limits, but for the INVITEs that some methods send. -/
def Limits.Wide (lim : Limits) : Prop := ∀ a : Act, a.Calm → lim.act a

def Limits.only (A : Act → Prop) : Limits := ⟨A, fun _ => True, False, False⟩

/-- From one world to another, with `q` added to the event queue. -/
structure Grows (lim : Limits) (q : List CCEvent) (w w' : World) : Prop where
  seq : w.seq ≤ w'.seq
  elastSeq : w'.ua.elastSeq = w.ua.elastSeq
  eventCb : w'.ua.eventCb → w.ua.eventCb
  isOver : w.ua.isOver → w'.ua.isOver
  equeue : w'.ua.equeue = w.ua.equeue ++ q
  queued : ∀ e ∈ q, Fresh w w' e.seq
  pending : ∃ ps, w'.ua.pending = w.ua.pending ++ ps ∧ ∀ p ∈ ps,
    (p.remote = true → Fresh w w' p.event.seq) ∧ (p.remote = false → lim.awaits p.event)
  log : ∃ l, w'.log = w.log ++ l ∧ ∀ a ∈ l, lim.act a
  lSDP : lim.keepsL → w.ua.lSDP.isSome → w'.ua.lSDP.isSome
  rSDP : lim.keepsR → w.ua.rSDP.isSome → w'.ua.rSDP.isSome

variable {lim : Limits} {q q' : List CCEvent} {w w' w'' : World}

theorem Fresh.earlier {n : ℕ} (h : Fresh w' w'' n) (hle : w.seq ≤ w'.seq) : Fresh w w'' n :=
  ⟨hle.trans h.1, h.2⟩

namespace Grows

theorem refl (w : World) : Grows lim [] w w where
  seq := le_rfl
  elastSeq := rfl
  eventCb h := h
  isOver h := h
  equeue := by simp
  queued := by simp
  pending := ⟨[], by simp⟩
  log := ⟨[], by simp⟩
  lSDP _ h := h
  rSDP _ h := h

theorem trans (h : Grows lim q w w') (h' : Grows lim q' w' w'') : Grows lim (q ++ q') w w'' where
  seq := h.seq.trans h'.seq
  elastSeq := h'.elastSeq.trans h.elastSeq
  eventCb hcb := h.eventCb (h'.eventCb hcb)
  isOver ho := h'.isOver (h.isOver ho)
  equeue := by rw [h'.equeue, h.equeue, List.append_assoc]
  queued := by
    intro e he
    rcases List.mem_append.mp he with he | he
    · exact (h.queued e he).later h'.seq
    · exact (h'.queued e he).earlier h.seq
  pending := by
    obtain ⟨ps, hps, hf⟩ := h.pending
    obtain ⟨ps', hps', hf'⟩ := h'.pending
    refine ⟨ps ++ ps', by rw [hps', hps, List.append_assoc], fun p hp => ?_⟩
    rcases List.mem_append.mp hp with hp | hp
    · exact (hf p hp).imp_left fun hp hr => (hp hr).later h'.seq
    · exact (hf' p hp).imp_left fun hp hr => (hp hr).earlier h.seq
  log := by
    obtain ⟨l, hl, ha⟩ := h.log
    obtain ⟨l', hl', ha'⟩ := h'.log
    refine ⟨l ++ l', by rw [hl', hl, List.append_assoc], fun a ha'' => ?_⟩
    rcases List.mem_append.mp ha'' with h₁ | h₁
    · exact ha a h₁
    · exact ha' a h₁
  lSDP hk hs := h'.lSDP hk (h.lSDP hk hs)
  rSDP hk hs := h'.rSDP hk (h.rSDP hk hs)

end Grows

theorem Moves.grows {fx : Effects} (h : Moves fx q w w') (hA : ∀ a, fx.act a → lim.act a)
    (hP : ∀ p, fx.await p → p.remote = false → lim.awaits p.event)
    (hL : lim.keepsL → fx.keepsL) (hR : lim.keepsR → fx.keepsR) : Grows lim q w w' where
  seq := h.seq
  elastSeq := congrArg Frame.elastSeq h.frame
  eventCb hcb := (show w'.ua.eventCb = w.ua.eventCb from congrArg Frame.eventCb h.frame) ▸ hcb
  isOver ho := by
    have hstate : w'.ua.state = w.ua.state := congrArg Frame.state h.frame
    rwa [UA.isOver, hstate]
  equeue := h.equeue
  queued e he := (h.queued e he).2
  pending := by
    obtain ⟨ps, hps, hf⟩ := h.pending
    exact ⟨ps, hps, fun p hp => ⟨fun hr => ((hf p hp).2.1 hr).2, hP p (hf p hp).1⟩⟩
  log := by
    obtain ⟨l, hl, ha⟩ := h.log
    exact ⟨l, hl, fun a h => hA a (ha a h)⟩
  lSDP hk := h.lSDP (hL hk)
  rSDP hk := h.rSDP (hR hk)

theorem effects_calm {s : UaState} {d : Dispatch} {a : Act} (h : (effects s d).act a)
    (hd : ∀ e, d = .event e → s.terminated = false → e.kind.invites = false) : a.Calm := by
  obtain h | ⟨e, r, he, hinv, hs, -⟩ := h
  · cases a <;> simp_all [Act.plain, Act.Calm, Act.isEvent, Act.isInvite]
  · exact absurd hinv (by simp [hd e he hs])

theorem terminated_emits {s : UaState} (hs : s.terminated) (k : Kind) : s.emits k = false := by
  cases s <;> first | rfl | simp [UaState.terminated] at hs

theorem terminated_leads {s s' : UaState} (hs : s.terminated) (h : s.leads s') :
    s'.terminated := by
  cases s <;> simp [UaState.terminated] at hs <;> cases s' <;>
    simp_all [UaState.leads, UaState.terminated]

section ChangeState

theorem keeps_upd {f : UA → UA} (hview : ∀ ua, (f ua).equeue = ua.equeue ∧ (f ua).pending = ua.pending ∧
    (f ua).elastSeq = ua.elastSeq ∧ (f ua).state = ua.state ∧ (f ua).lSDP = ua.lSDP ∧
    (f ua).rSDP = ua.rSDP ∧ ((f ua).eventCb → ua.eventCb)) :
    Keeps (Grows lim []) (upd f) := by
  intro w
  obtain ⟨h₁, h₂, h₃, h₄, h₅, h₆, h₇⟩ := hview w.ua
  exact { @Grows.refl lim w with
    elastSeq := h₃
    eventCb := h₇
    isOver := by simp [UA.isOver, h₄]
    equeue := by simp [h₁]
    pending := ⟨[], by simp [h₂], by simp⟩
    lSDP := by simp [h₅]
    rSDP := by simp [h₆] }

theorem keeps_view {f : UA → UA} (hf : ∀ ua, (f ua).view = ua.view) :
    Keeps (Grows lim []) (upd f) :=
  keeps_upd fun ua => by
    have h := hf ua
    have hcb : (f ua).eventCb = ua.eventCb := congrArg (fun v => v.frame.eventCb) h
    exact ⟨congrArg View.equeue h, congrArg View.pending h,
      congrArg (fun v => v.frame.elastSeq) h, congrArg (fun v => v.frame.state) h,
      congrArg View.lSDP h, congrArg View.rSDP h, fun h => hcb ▸ h⟩

theorem Grows.act {a : Act} (ha : lim.act a) : Grows lim [] w { w with log := w.log ++ [a] } :=
  { @Grows.refl lim w with log := ⟨[a], rfl, by simpa using ha⟩ }

theorem keeps_act {a : Act} (ha : lim.act a) : Keeps (Grows lim []) (act a) := fun _ => .act ha

theorem keeps_call {a : Act} (ha : lim.act a) : Keeps (Grows lim []) (call a) := by
  intro w
  rw [wp_call]
  split
  · exact { @Grows.refl lim w with }
  · exact { Grows.act (w := w) ha with }

theorem keeps_bind {α β : Type} {p : M α} {f : α → M β} (hp : Keeps (Grows lim []) p)
    (hf : ∀ a, Keeps (Grows lim []) (f a)) : Keeps (Grows lim []) (p >>= f) :=
  .bind (fun h h' => h.trans h') hp hf

theorem keeps_getUA {β : Type} {f : UA → M β} (hf : ∀ ua, Keeps (Grows lim []) (f ua)) :
    Keeps (Grows lim []) (getUA >>= f) := keeps_bind (fun w => .refl w) hf

theorem keeps_pure {α : Type} (a : α) : Keeps (Grows lim []) (pure a : M α) := fun w => .refl w

theorem keeps_ite {α : Type} {c : Prop} [Decidable c] {p p' : M α} (hp : Keeps (Grows lim []) p)
    (hp' : Keeps (Grows lim []) p') : Keeps (Grows lim []) (if c then p else p') := by
  split
  · exact hp
  · exact hp'

variable (hA : lim.Wide)
include hA

theorem leaveState_grows : Keeps (Grows lim []) leaveState := by
  have hcall {a : Act} (ha : a.Calm) {f : UA → UA} (hf : ∀ ua, (f ua).view = ua.view) :
      Keeps (Grows lim []) (do call a; upd f) :=
    keeps_bind (keeps_call (hA a ha)) fun _ => keeps_view hf
  refine keeps_getUA fun ua => keeps_ite ?_ (keeps_pure _)
  refine keeps_bind (keeps_getUA fun ua => keeps_ite (hcall ⟨rfl, rfl⟩ fun _ => rfl) (keeps_pure _))
    fun _ => keeps_bind (keeps_getUA fun ua => keeps_ite (hcall ⟨rfl, rfl⟩ fun _ => rfl) (keeps_pure _))
    fun _ => ?_
  exact keeps_upd fun ua => ⟨rfl, rfl, rfl, rfl, rfl, rfl, id⟩

theorem construct_grows (s : UaState) : Keeps (Grows lim []) (construct s) := by
  cases s with
  | dead =>
    refine keeps_bind (keeps_getUA fun _ => keeps_ite (keeps_act (hA _ ⟨rfl, rfl⟩)) (keeps_pure _))
      fun _ => keeps_bind (keeps_upd fun _ => ⟨rfl, rfl, rfl, rfl, rfl, rfl, by simp [UA.buried]⟩)
      fun _ => ?_
    refine keeps_getUA fun _ => keeps_bind (keeps_ite (keeps_call (hA _ ⟨rfl, rfl⟩)) (keeps_pure _))
      fun _ => keeps_upd fun _ => ⟨rfl, rfl, rfl, rfl, rfl, rfl, id⟩
  | connected | uacCancelling | failed | disconnected =>
    simp only [construct]
    exact keeps_upd fun _ => ⟨rfl, rfl, rfl, rfl, rfl, rfl, id⟩
  | uasIdle | uasTrying | uasRinging | uasUpdating | uacIdle | uacTrying | uacRinging | uacUpdating =>
    exact keeps_pure _

theorem changeState_grows {c : Change} (hc : w.ua.isOver → c.state.terminated) :
    wp (changeState c) (fun _ w' => Grows lim [] w w') (fun _ w' => Grows lim [] w w') w := by
  unfold changeState
  rw [wp_bind]
  refine wp_mono (leaveState_grows hA w) (fun _ w₁ h₁ => ?_) fun _ _ h => h
  rw [wp_bind]
  refine wp_mono (construct_grows hA c.state w₁) (fun _ w₂ h₂ => ?_) fun _ _ h => h₁.trans h
  rw [wp_bind, wp_upd]
  have h₃ : Grows lim [] w
      { w₂ with ua := { w₂.ua with state := some c.state, stateNo := w₂.ua.stateNo + 1 } } :=
    { h₁.trans h₂ with isOver := fun h => hc h }
  cases c.callback with
  | none => exact h₃
  | some cb => exact wp_mono (keeps_call (hA _ ⟨rfl, rfl⟩) _) (fun _ _ h => h₃.trans h) fun _ _ h => h₃.trans h

theorem end_grows {c : Change} (hc : c.state.terminated) : Keeps (Grows lim []) (changeState c) :=
  fun _ => changeState_grows hA fun _ => hc

end ChangeState

/-- What a method leaves behind: its events are fresh, and if it queued one it will call
`emitPendingEvents`. -/
structure Leaves (lim : Limits) (loud : Prop) (w : World) (q : List CCEvent) (td : List Todo)
    (w' : World) : Prop where
  grows : Grows lim q w w'
  fresh : ∀ e, .emitEvent e ∈ td → Fresh w w' e.seq
  emits : q ≠ [] → .emitPending ∈ td
  frames : ∀ e, .recvEvent e ∈ td → e.final
  silent : w.ua.isOver → ¬ loud → q = [] ∧ ∀ e, .emitEvent e ∉ td

/-- A method that is run in `w`, however it ends. -/
def Works (lim : Limits) (loud : Prop) (w : World) (p : M (List Todo)) : Prop :=
  wp p (fun td w' => ∃ q, Leaves lim loud w q td w')
    (fun _ w' => ∃ q, Leaves lim loud w q [.emitPending] w') w

/-- The timeouts that run `UA.disconnect`. -/
def TimerId.loud : TimerId → Bool
  | .keepAlive _ | .goDead | .goIdle => false
  | _ => true

/-- A challenge that the user agent would answer with a new INVITE. -/
def UA.retries (ua : UA) (challenges : List (Lazy Challenge)) (authHfname : Text)
    (sent : SentRequest) : Bool :=
  ua.username.isSome && ua.password.isSome && !sent.hasHF authHfname &&
    match challenges.mapM id with
    | .ok challenges => challenges.any ua.answerable
    | .error _ => false

/-- A response to an INVITE that the user agent would answer with a new INVITE. -/
def UA.answers (ua : UA) (resp : Response) : Bool :=
  match ua.reqs.lookup resp.cseq with
  | none => false
  | some sent => resp.method = .invite && !ua.passAuth &&
    (resp.scode = 401 && ua.retries resp.wwwAuthenticate hfAuthorization sent ||
     resp.scode = 407 && ua.retries resp.proxyAuthenticate hfProxyAuthorization sent)

/-- The message that a call from outside gives to the state object. -/
def Input.dispatch : Input → Option Dispatch
  | .request req => some (.request req)
  | .response resp _ => some (.response resp)
  | .event e => some (.event e)
  | .ack req => some (.ack req)
  | .sdpUpdated p body => if p.remote then none else some (.event (p.event.withBody body))
  | _ => none

def Input.invites (ua : UA) : Input → Bool
  | .event e => !ua.isOver && e.kind.invites
  | .sdpUpdated p _ => !ua.isOver && !p.remote && p.event.kind.invites
  | .response resp _ => ua.answers resp
  | .timeout (.keepAlive _) => !ua.isOver
  | _ => false

/-- The calls from outside for which a call that is over queues an event. -/
def Input.loud (ua : UA) : Input → Bool
  | .timeout t => t.loud
  | .noack | .disconnect _ _ => true
  | .cancel _ _ => ua.cancelCb.any (· ≠ .generic)
  | .sdpFailed _ ex => ex.isSdp
  | _ => false

section Methods
variable {loud : Prop}

theorem Leaves.quiet {td : List Todo} (hg : Grows lim [] w w')
    (htd : ∀ e, .emitEvent e ∉ td ∧ .recvEvent e ∉ td) : Leaves lim loud w [] td w' :=
  ⟨hg, fun e he => absurd he (htd e).1, by simp, fun e he => absurd he (htd e).2,
    fun _ _ => ⟨rfl, fun e => (htd e).1⟩⟩

theorem Leaves.after {td : List Todo} (hg : Grows lim [] w w') (h : Leaves lim loud w' q td w'') :
    Leaves lim loud w q td w'' where
  grows := hg.trans h.grows
  fresh e he := (h.fresh e he).earlier hg.seq
  emits := h.emits
  frames := h.frames
  silent ho := h.silent (hg.isOver ho)

theorem Works.seq {α : Type} {p : M α} {f : α → M (List Todo)} {P : α → World → Prop}
    (hp : wp p (fun a w' => Grows lim [] w w' ∧ P a w') (fun _ w' => Grows lim [] w w') w)
    (hf : ∀ a w', P a w' → Works lim loud w' (f a)) : Works lim loud w (p >>= f) := by
  unfold Works
  rw [wp_bind]
  refine wp_mono hp (fun a w' h => ?_) fun e w' h => ⟨[], .quiet h (by simp)⟩
  obtain ⟨h, ha⟩ := h
  refine wp_mono (hf a w' ha) (fun td w'' h' => ?_) fun e w'' h' => ?_
  · obtain ⟨q, h'⟩ := h'
    exact ⟨q, .after h h'⟩
  · obtain ⟨q, h'⟩ := h'
    exact ⟨q, .after h h'⟩

theorem Works.after {α : Type} {p : M α} {f : α → M (List Todo)} (hp : Keeps (Grows lim []) p)
    (hf : ∀ a w', Works lim loud w' (f a)) : Works lim loud w (p >>= f) :=
  .seq (P := fun _ _ => True) (wp_mono (hp w) (fun _ _ h => ⟨h, trivial⟩) fun _ _ h => h)
    fun a w' _ => hf a w'

theorem Works.getUA {f : UA → M (List Todo)} (h : Works lim loud w (f w.ua)) :
    Works lim loud w (getUA >>= f) := by
  unfold Works
  rw [wp_bind, wp_getUA]
  exact h

theorem Works.upd {f : UA → UA} {g : PUnit → M (List Todo)}
    (hf : ∀ ua, (f ua).equeue = ua.equeue ∧ (f ua).pending = ua.pending ∧
      (f ua).elastSeq = ua.elastSeq ∧ (f ua).state = ua.state ∧ (f ua).lSDP = ua.lSDP ∧
      (f ua).rSDP = ua.rSDP ∧ ((f ua).eventCb → ua.eventCb))
    (h : Works lim loud { w with ua := f w.ua } (g ⟨⟩)) : Works lim loud w (upd f >>= g) := by
  refine .seq (P := fun _ w' => w' = { w with ua := f w.ua }) ⟨keeps_upd hf w, rfl⟩ ?_
  rintro _ _ rfl
  exact h

theorem Works.pure {td : List Todo} (h : ∀ e, .emitEvent e ∉ td ∧ .recvEvent e ∉ td) : Works lim loud w (pure td) :=
  ⟨[], .quiet (.refl w) h⟩

theorem Works.throw {e : Raised} : Works lim loud w (throw e) := ⟨[], .quiet (.refl w) (by simp)⟩

theorem Works.lively {p : M (List Todo)} (h : Works lim True w p) (ho : ¬ (w.ua.isOver ∧ ¬ loud)) :
    Works lim loud w p := by
  have hleaves {q : List CCEvent} {td : List Todo} {w' : World} (h : Leaves lim True w q td w') :
      Leaves lim loud w q td w' := { h with silent := fun h₁ h₂ => absurd ⟨h₁, h₂⟩ ho }
  refine wp_mono h (fun td w' h => ?_) fun _ w' h => ?_
  · obtain ⟨q, h⟩ := h
    exact ⟨q, hleaves h⟩
  · obtain ⟨q, h⟩ := h
    exact ⟨q, hleaves h⟩

/-- The state object that a message is given to. -/
def UA.receiver (ua : UA) (d : Dispatch) : Option UaState :=
  ua.state.or (match d with
    | .request req => if req.method = .invite then some .uasIdle else none
    | .event e => if UA.wakes e then some .uacIdle else none
    | _ => none)

/-- The message does not make the user agent forget an SDP that is to be kept. -/
def Spares (lim : Limits) (ua : UA) (d : Dispatch) : Prop :=
  ∀ s ∈ ua.receiver d, (lim.keepsL → s.forgetsL d = false) ∧ (lim.keepsR → s.forgetsR d = false)

def Allows (lim : Limits) (ua : UA) (d : Dispatch) : Prop :=
  ∀ e, d = .event e → (ua.isOver = false → e.kind.invites → ∀ r, lim.act (.request r)) ∧
    (e.final = false → lim.awaits e)

theorem spares_only {A : Act → Prop} {ua : UA} {d : Dispatch} : Spares (.only A) ua d :=
  fun _ _ => ⟨False.elim, False.elim⟩

/-- A Disconnect makes no user agent forget anything, and no INVITE is sent for it. -/
theorem spares_disconnect {ua : UA} {also : Option Text} {t : Time} {o : Option Origin} {n : ℕ}
    {r : Option Text} : Spares lim ua (.event ⟨.disconnect also, t, o, n, r⟩) := by
  intro s _
  cases s <;> simp [UaState.forgetsL, UaState.forgetsR]

variable (hA : lim.Wide)
include hA

/-- The handler, the change of state, and `emitPendingEvents` in the end. -/
theorem handler_method {s : UaState} {d : Dispatch} (hs : w.ua.state = some s)
    (hact : Allows lim w.ua d)
    (hspares : (lim.keepsL → s.forgetsL d = false) ∧ (lim.keepsR → s.forgetsR d = false))
    {rest : Ret → List Todo}
    (hrest : ∀ r, .emitPending ∈ rest r ∧ ∀ e, .emitEvent e ∉ rest r ∧ .recvEvent e ∉ rest r) :
    Works lim loud w (handler s d >>= fun ret => finish ret (rest ret)) := by
  have hover : w.ua.isOver = s.terminated := by simp [UA.isOver, hs]
  have hcalm (a : Act) (ha : (effects s d).act a) : lim.act a := by
    by_cases hd : ∃ e, d = .event e ∧ s.terminated = false ∧ e.kind.invites
    · obtain ⟨e, rfl, hs', he⟩ := hd
      obtain ha | ⟨e', r, he', -, -, rfl⟩ := ha
      · exact hA a (by cases a <;> simp_all [Act.plain, Act.Calm, Act.isEvent, Act.isInvite])
      · exact (hact e rfl).1 (hover.trans hs') he r
    · refine hA a (effects_calm ha fun e he hs' => ?_)
      simpa using fun hinv => hd ⟨e, he, hs', hinv⟩
  have hawaits (p : Pending) (hp : (effects s d).await p) (hr : p.remote = false) :
      lim.awaits p.event := (hact p.event (hp.2.2 hr)).2 hp.1
  have hsilent {q : List CCEvent} {w' : World} (h : Moves (effects s d) q w w')
      (ho : w.ua.isOver) : q = [] := by
    refine List.eq_nil_iff_forall_not_mem.mpr fun e he => ?_
    have hem : s.emits e.kind := (h.queued e he).1
    exact absurd hem (by simp [terminated_emits (hover ▸ ho)])
  unfold Works
  rw [wp_bind]
  refine wp_mono (handler_does s d).wp (fun ret w' h => ?_) fun _ w' h => ?_
  · obtain ⟨q, hm, hout⟩ := h
    have hg := hm.grows hcalm hawaits hspares.1 hspares.2
    have hleaves {w'' : World} {td : List Todo} (h : Grows lim [] w' w'') (hp : .emitPending ∈ td)
        (he : ∀ e, .emitEvent e ∉ td) (hr : ∀ e, .recvEvent e ∈ td → e.final) :
        ∃ q, Leaves lim loud w q td w'' :=
      ⟨q, by simpa using hg.trans h, fun e h => absurd h (he e), fun _ => hp, hr,
        fun ho _ => ⟨hsilent hm ho, he⟩⟩
    have hrest₁ := (hrest ret).1
    have hrest₂ (e : CCEvent) := ((hrest ret).2 e).1
    have hrest₃ (e : CCEvent) (he : .recvEvent e ∈ rest ret) : e.final :=
      absurd he ((hrest ret).2 e).2
    cases ret with
    | none => exact hleaves (.refl _) hrest₁ hrest₂ hrest₃
    | change c =>
      have hstate : w'.ua.state = some s := (congrArg Frame.state hm.frame).trans hs
      have hc (h : w'.ua.isOver) : c.state.terminated :=
        terminated_leads (by simpa [UA.isOver, hstate] using h) hout.1
      simp only [finish, wp_bind, Lib.wp_pure]
      refine wp_mono (changeState_grows hA hc) (fun _ w'' h => ?_) fun _ w'' h => ?_
      · exact hleaves h hrest₁ hrest₂ hrest₃
      · exact hleaves h (by simp) (by simp) (by simp)
    | inject e =>
      refine hleaves (.refl _) (List.mem_cons_of_mem _ hrest₁) (by simpa using hrest₂) fun e' he' => ?_
      rcases List.mem_cons.mp he' with he' | he'
      · obtain rfl : e' = e := by simpa using he'
        simp [CCEvent.final, hout.2]
      · exact hrest₃ e' he'
    | code c => exact hleaves (.refl _) (by simp) (by simp) (by simp)
    | scode c => exact hleaves (.refl _) (by simp) (by simp) (by simp)
  · obtain ⟨q, hm, -⟩ := h
    exact ⟨q, hm.grows hcalm hawaits hspares.1 hspares.2, by simp, by simp, by simp,
      fun ho _ => ⟨hsilent hm ho, by simp⟩⟩

theorem state_method {d : Dispatch} {rest : Ret → List Todo}
    (hrest : ∀ r, .emitPending ∈ rest r ∧ ∀ e, .emitEvent e ∉ rest r ∧ .recvEvent e ∉ rest r)
    (hact : Allows lim w.ua d)
    (hspares : Spares lim w.ua d) {s : UaState} (hs : w.ua.state = some s) :
    Works lim loud w (handler s d >>= fun ret => finish ret (rest ret)) :=
  handler_method hA hs hact (hspares s (by simp [UA.receiver, hs])) hrest

theorem wake_grows {b : Bool} {s : UaState} :
    wp (UA.wake b s)
      (fun _ w' => Grows lim [] w w' ∧ w'.ua.state = w.ua.state.or (if b then some s else none))
      (fun _ w' => Grows lim [] w w') w := by
  simp only [UA.wake, wp_bind, wp_getUA, Lib.wp_ite, Lib.wp_pure]
  refine ⟨fun h => ?_, fun h => ⟨.refl w, ?_⟩⟩
  · have hgrows := changeState_grows (w := w) (c := ⟨s, none⟩) hA (by simp [UA.isOver, h.1])
    refine wp_mono (Lib.wp_and hgrows (changeState_installs ⟨s, none⟩ w)) (fun _ w' h' => ?_)
      fun _ _ h => h.1
    exact ⟨h'.1, by simp [h, h'.2]⟩
  · cases hs : w.ua.state with
    | none => simp_all
    | some s => rfl

/-- The state object that a message is given to is the one after the user agent woke up. -/
theorem woken_method {b : Bool} {s₀ : UaState} {d : Dispatch} {f : UA → M (List Todo)}
    (hd : w.ua.receiver d = w.ua.state.or (if b then some s₀ else none)) (hact : Allows lim w.ua d) (hspares : Spares lim w.ua d)
    (hf : ∀ w', Allows lim w'.ua d → Spares lim w'.ua d → Works lim loud w' (f w'.ua)) :
    Works lim loud w (do UA.wake b s₀; f (← getUA)) := by
  refine .seq (P := fun _ w' => w'.ua.state = w.ua.state.or (if b then some s₀ else none))
    (wake_grows hA) fun _ w' hw' =>
      .getUA (hf w' (fun e he => ⟨fun ho => (hact e he).1 ?_, (hact e he).2⟩) fun s hs => ?_)
  · cases hw : w.ua.state <;> simp_all [UA.isOver]
  · have hsame : w'.ua.receiver d = w.ua.receiver d := by
      unfold UA.receiver at hd ⊢
      cases hw : w.ua.state with
      | none =>
        simp only [hw, Option.none_or] at hd hw'
        rw [hw', hd, Option.none_or, Option.or_self]
      | some s => simp [hw', hw]
    exact hspares s (hsame ▸ hs)

theorem recvRequest_method {req : Request} (hspares : Spares lim w.ua (.request req)) :
    Works lim loud w (UA.recvRequest req) := by
  refine .getUA ?_
  split
  · exact .after (keeps_act (hA _ ⟨rfl, rfl⟩)) fun _ _ => .pure (by simp)
  refine .upd (fun _ => ⟨rfl, rfl, rfl, rfl, rfl, rfl, id⟩) ?_
  refine woken_method hA (d := .request req) (by simp [UA.receiver]) (by simp [Allows]) hspares ?_
  intro w' hact hspares
  split
  · exact .pure (by simp)
  · refine state_method hA (d := .request req) (fun r => ?_) hact hspares ‹_›
    split <;> simp

theorem recvEvent_method {e : CCEvent} (hact : Allows lim w.ua (.event e))
    (hspares : Spares lim w.ua (.event e)) : Works lim loud w (UA.recvEvent e) := by
  refine woken_method hA (d := .event e) rfl hact hspares fun w' hact hspares => ?_
  split
  · exact .pure (by simp)
  · exact state_method hA (d := .event e) (by simp) hact hspares ‹_›

theorem recvACK_method {req : Request} (hspares : Spares lim w.ua (.ack req)) :
    Works lim loud w (UA.recvACK req) := by
  refine .getUA ?_
  split
  · exact .pure (by simp)
  · split
    · exact state_method hA (d := .ack req) (by simp) (by simp [Allows]) hspares ‹_›
    · exact .pure (by simp)

omit hA in
theorem genRequest_grows {method : Method} {body : Option Body} {cqop : Cqop} {hs : List Header}
    {mf : Option ℤ} : Keeps (Grows lim []) (genRequest method body cqop hs mf) := by
  have hupd {req : SentRequest} {f : UA → UA} (hf : ∀ ua, (f ua).view = ua.view) :
      Keeps (Grows lim []) (do upd f; return req) :=
    keeps_bind (keeps_view hf) fun _ => keeps_pure _
  refine keeps_getUA fun ua => ?_
  dsimp only
  cases cqop with
  | none => exact keeps_bind (keeps_pure _) fun _ => hupd fun _ => rfl
  | pair c => exact keeps_bind (keeps_pure _) fun _ => hupd fun _ => rfl
  | bare c => exact fun w => .refl w

theorem sendBYE_grows {hs : List Header} : Keeps (Grows lim []) (sendBYE hs) := by
  intro w
  unfold sendBYE genRequest
  simp only [wp_bind, wp_getUA, Lib.wp_pure, wp_upd]
  have hstart := @keeps_view lim (fun ua => { ua with reqs := ua.reqs, lCSeq := ua.lCSeq + 1 })
    (fun _ => rfl) w
  refine wp_mono (keeps_call (hA _ ⟨rfl, rfl⟩) _) (fun _ _ h => ?_) fun _ _ h => ?_
  · exact hstart.trans h
  · exact hstart.trans h

omit hA in
theorem processChallenge_grows {cs : List (Lazy Challenge)} {cseq : ℤ} {name : Text}
    {sent : SentRequest} {hs : List Header} (hinv : w.ua.retries cs name sent → ∀ r, lim.act (.request r)) :
    wp (UA.processChallenge cs cseq name sent hs)
      (fun b w' => Grows lim [] w w' ∧ (b = false → w' = w) ∧ (b → w.ua.retries cs name sent))
      (fun _ w' => Grows lim [] w w') w := by
  unfold UA.processChallenge
  rw [wp_bind, wp_getUA, Lib.wp_ite]
  refine ⟨fun _ => ⟨.refl w, fun _ => rfl, by simp⟩, fun hcred => ?_⟩
  rw [wp_bind, wp_ofLazy]
  cases hcs : cs.mapM id with
  | error e => exact .refl w
  | ok found =>
    dsimp only
    split
    · exact ⟨.refl w, fun _ => rfl, by simp⟩
    · rename_i c hc
      have hretry : w.ua.retries cs name sent := by
        have hany : found.any w.ua.answerable :=
          List.any_eq_true.mpr ⟨c, List.mem_of_find?_eq_some hc, List.find?_some hc⟩
        simp only [not_or] at hcred
        simp [UA.retries, hcs, hany, Option.isSome_iff_ne_none, hcred]
      have hsend : Keeps (Grows lim []) (do
          let req ← genRequest .invite w.ua.lSDP (.pair c) hs none
          newUacTransaction req
          upd fun ua => { ua with reqs := ua.reqs.filter (·.1 ≠ cseq) }
          return true) := by
        refine keeps_bind genRequest_grows fun _ =>
          keeps_bind (keeps_bind (keeps_call (hinv hretry _)) fun _ => ?_) fun _ =>
          keeps_bind ?_ fun _ => keeps_pure _
        all_goals exact keeps_upd fun _ => ⟨rfl, rfl, rfl, rfl, rfl, rfl, id⟩
      have htrue : Lib.Ends (fun b _ => b = true) (do
          let req ← genRequest .invite w.ua.lSDP (.pair c) hs none
          newUacTransaction req
          upd fun ua => { ua with reqs := ua.reqs.filter (·.1 ≠ cseq) }
          return true) := .bind fun _ => .bind fun _ => .bind fun _ _ => rfl
      refine wp_mono (Lib.wp_and (hsend w) (htrue w)) (fun b _ h => ?_) fun _ _ h => h.1
      exact ⟨h.1, fun hb => absurd hb (by simp [h.2]), fun _ => hretry⟩

omit hA in
theorem challenged_grows {resp : Response} {hs : List Header}
    (hinv : w.ua.answers resp → ∀ r, lim.act (.request r)) :
    wp (UA.challenged resp hs)
      (fun b w' => Grows lim [] w w' ∧ (b = false → w' = w) ∧ (b → w.ua.answers resp))
      (fun _ w' => Grows lim [] w w') w := by
  have hno : Grows lim [] w w ∧ (false = false → w = w) ∧ (false → w.ua.answers resp) :=
    ⟨.refl w, fun _ => rfl, by simp⟩
  have hcase {cs : List (Lazy Challenge)} {name : Text} {sent : SentRequest}
      (heq : w.ua.answers resp = w.ua.retries cs name sent) :
      wp (UA.processChallenge cs resp.cseq name sent hs)
        (fun b w' => Grows lim [] w w' ∧ (b = false → w' = w) ∧ (b → w.ua.answers resp))
        (fun _ w' => Grows lim [] w w') w := by
    rw [heq] at hinv ⊢
    exact processChallenge_grows hinv
  unfold UA.challenged
  rw [wp_bind, wp_getUA]
  split
  · exact hno
  · rename_i sent hsent
    split
    · rename_i hinvite
      split
      · rename_i h401
        exact hcase (by simp [UA.answers, hsent, hinvite, h401])
      · split
        · rename_i h407
          exact hcase (by simp [UA.answers, hsent, hinvite, h407])
        · exact hno
    · exact hno

theorem unchallenged_method {s : UaState} {resp : Response} (hs : w.ua.state = some s)
    (hspares : Spares lim w.ua (.response resp)) : Works lim loud w (do
      upd fun ua =>
        if resp.scode ≥ 200 then { ua with reqs := ua.reqs.filter (·.1 ≠ resp.cseq) } else ua
      finish (← stateRecvResponse s resp) [.emitPending]) := by
  refine .upd (fun ua => ?_) (state_method hA (d := .response resp) (by simp) (by simp [Allows]) ?_ ?_)
  · split <;> exact ⟨rfl, rfl, rfl, rfl, rfl, rfl, id⟩
  · split <;> exact hspares
  · split <;> exact hs

theorem recvResponse_method {resp : Response} {hs : List Header}
    (hinv : w.ua.answers resp → ∀ r, lim.act (.request r)) (hspares : Spares lim w.ua (.response resp)) :
    Works lim loud w (UA.recvResponse resp hs) := by
  refine .getUA ?_
  split
  · exact .pure (by simp)
  · exact .pure (by simp)
  · rename_i s _ hs'
    refine .seq (P := fun b w' => b = false → w' = w) (wp_mono (challenged_grows hinv) ?_ ?_) ?_
    · exact fun b w' h => ⟨h.1, h.2.1⟩
    · exact fun _ _ h => h
    intro b w' hw'
    split
    · exact .pure (by simp)
    · obtain rfl := hw' (Bool.eq_false_of_not_eq_true ‹_›)
      exact unchallenged_method hA hs' hspares

omit hA in
theorem resetCreditTime_method {rtime : Time} {times : List (ℕ × Option Time)} :
    Works lim loud w (UA.resetCreditTime rtime times) := by
  have harm : Keeps (Grows lim []) (startCreditTimer rtime) :=
    keeps_bind (keeps_view fun ua => by split <;> rfl) fun _ => keeps_view fun ua => by split <;> rfl
  refine .after (keeps_view fun _ => rfl) fun _ _ => .getUA ?_
  split
  · exact .throw
  · split
    · exact .after (keeps_view fun _ => rfl) fun _ _ => .after harm fun _ _ => .pure (by simp)
    · exact .pure (by simp)

omit hA in
theorem current_alive {ua : UA} {n : ℕ} (h : UaStateConnected.current ua n) : ua.isOver = false := by
  simp only [UaStateConnected.current, Bool.and_eq_true, decide_eq_true_eq] at h
  simp [UA.isOver, h.1, UaState.terminated]

omit hA in
theorem keepAlive_grows {n : ℕ} (hinv : w.ua.isOver = false → ∀ r, lim.act (.request r)) :
    wp (UaStateConnected.keepAlive n) (fun _ w' => Grows lim [] w w') (fun _ w' => Grows lim [] w w')
      w := by
  unfold UaStateConnected.keepAlive
  rw [wp_bind, wp_getUA, Lib.wp_ite]
  refine ⟨fun hcur => ?_, fun _ => .refl w⟩
  have hsend : Keeps (Grows lim []) (do
      let req ← genRequest .invite w.ua.lSDP .none [] none
      upd fun ua => { ua with triedauth := false }
      newTransaction req
      upd fun ua => { ua with kaTr := true }) :=
    keeps_bind genRequest_grows fun _ => keeps_bind (keeps_view fun _ => rfl) fun _ =>
      keeps_bind (keeps_call (hinv (current_alive hcur) _)) fun _ => keeps_view fun _ => rfl
  exact hsend w

omit hA in
theorem keepAliveResp_grows (n : ℕ) (resp : Response) :
    Keeps (Grows lim []) (UaStateConnected.keepAliveResp n resp) := by
  have hraise (c : Challenge) (ua : UA) (f : SentRequest → M PUnit) :
      Keeps (Grows lim []) (genRequest .invite ua.lSDP (.bare c) [] none >>= f) := fun w => .refl w
  refine keeps_getUA fun ua => keeps_ite (keeps_pure _) ?_
  split
  · refine keeps_bind (keeps_bind ?_ fun c => keeps_getUA fun ua => hraise c ua _) fun _ => keeps_pure _
    exact fun w => by rw [wp_ofLazy]; split <;> exact .refl w
  · refine keeps_ite (keeps_pure _) (keeps_bind (keeps_view fun _ => rfl) fun _ => keeps_ite ?_ ?_)
    · refine keeps_ite (keeps_bind (keeps_upd ?_) fun _ => keeps_pure _) (keeps_pure _)
      exact fun _ => ⟨rfl, rfl, rfl, rfl, rfl, rfl, id⟩
    · exact keeps_bind (keeps_upd fun _ => ⟨rfl, rfl, rfl, rfl, rfl, rfl, id⟩) fun _ => keeps_pure _

omit hA in
theorem Grows.newEvent : Grows lim [] w { w with seq := w.seq + 1 } :=
  { @Grows.refl lim w with seq := Nat.le_succ _, queued := by simp, pending := ⟨[], by simp⟩ }

omit hA in
theorem Grows.enqueue {e : CCEvent} (he : e.seq = w.seq) :
    Grows lim [e] w { w with seq := w.seq + 1, ua := { w.ua with equeue := w.ua.equeue ++ [e] } } :=
  { @Grows.newEvent lim w with
    equeue := rfl
    queued := by simp [Fresh, he] }

omit hA in
/-- A user agent that wakes up for an event will call `emitPendingEvents`. -/
theorem recvEvent_pending {e : CCEvent} (he : UA.wakes e) :
    wp (UA.recvEvent e) (fun td _ => .emitPending ∈ td) (fun _ _ => True) w := by
  have hwake : wp (UA.wake (UA.wakes e) .uacIdle) (fun _ w' => w'.ua.state ≠ none)
      (fun _ _ => True) w := by
    simp only [UA.wake, wp_bind, wp_getUA, Lib.wp_ite, Lib.wp_pure, he]
    refine ⟨fun _ => ?_, by simp⟩
    refine wp_mono (changeState_installs _ w) (fun _ w' h => ?_) fun _ _ h => h
    simp [h]
  unfold UA.recvEvent
  rw [wp_bind]
  refine wp_mono hwake (fun _ w' h => ?_) fun _ _ h => h
  rw [wp_bind, wp_getUA]
  split
  · contradiction
  · rename_i s _
    have hfinish (ret : Ret) :
        Lib.Ends (fun td _ => .emitPending ∈ td) (finish ret [.emitPending]) := by
      cases ret with
      | none => exact fun _ => List.mem_singleton_self _
      | change c => exact .bind fun _ _ => List.mem_singleton_self _
      | inject e => exact fun _ => List.mem_cons_of_mem _ (List.mem_singleton_self _)
      | code c => exact fun _ => trivial
      | scode c => exact fun _ => trivial
    exact Lib.Ends.bind hfinish w'

/-- `UA.disconnect` queues an event whatever the state. -/
theorem disconnect_method {rtime : Option Time} {origin : Option Origin} :
    Works lim True w (UA.disconnect rtime origin) := by
  have hrecv {t : Time} {n : ℕ} {w : World} :
      Works lim True w (UA.recvEvent ⟨.disconnect none, t, origin, n, none⟩) :=
    recvEvent_method hA (by simp [Allows, Kind.invites, CCEvent.final]) spares_disconnect
  simp only [Works, UA.disconnect, wp_bind, now, Lib.wp_get, Lib.wp_pure, wp_newEvent, wp_enqueue]
  have hstart := (@Grows.enqueue lim w ⟨.disconnect none, rtime.getD w.io.now, origin, w.seq, none⟩ rfl).trans .newEvent
  refine wp_mono (Lib.wp_and hrecv (recvEvent_pending rfl)) (fun td w' h => ?_) fun _ w' h => ?_
  · obtain ⟨⟨q, h⟩, hpending⟩ := h
    exact ⟨_, hstart.trans h.grows, fun e he => (h.fresh e he).earlier hstart.seq,
      fun _ => hpending, h.frames, fun _ hno => absurd trivial hno⟩
  · obtain ⟨⟨q, h⟩, -⟩ := h
    exact ⟨_, hstart.trans h.grows, by simp, by simp, by simp, fun _ hno => absurd trivial hno⟩

omit hA in
theorem sdpFailed_method {ex : Raised} (hloud : ex.isSdp → loud) :
    Works lim loud w (UA.sdpFailed ex) := by
  unfold UA.sdpFailed
  split
  · simp only [Works, wp_bind, now, Lib.wp_get, Lib.wp_pure, wp_newEvent, wp_enqueue]
    exact ⟨_, Grows.enqueue rfl, by simp, by simp, by simp [CCEvent.final],
      fun _ hno => absurd (hloud ‹_›) hno⟩
  · exact .throw

theorem cancel_method {fn : CancelFn} {rtime : Time} {reason : Option Text} (hloud : fn ≠ .generic → loud) :
    Works lim loud w (UA.cancel fn rtime reason) := by
  cases fn with
  | generic => exact .pure (by simp)
  | progressing =>
    simp only [Works, UA.cancel, wp_bind, changeWith, wp_getUA, wp_newEvent, wp_upd, Lib.wp_pure]
    have hstart (t : Option Time) : Grows lim [] w
        { w with seq := w.seq + 1, ua := { w.ua with disconnectTs := t } } :=
      { @Grows.newEvent lim w with }
    refine wp_mono (end_grows hA rfl _) (fun _ w' h => ?_) fun _ w' h => ?_
    · have hlt : w.seq < w'.seq := h.seq
      exact ⟨[], (hstart _).trans h, by simpa [Fresh] using hlt, by simp, by simp, fun _ hno =>
        absurd (hloud (by simp)) hno⟩
    · exact ⟨[], .quiet ((hstart _).trans h) (by simp)⟩
  | updating =>
    refine .after (sendBYE_grows hA) fun _ _ => .after (keeps_view fun _ => rfl) fun _ _ => ?_
    refine .after (keeps_view fun _ => rfl) fun _ _ => .after (fun w => .refl w) fun ua w' => ?_
    refine .seq (P := fun c _ => c.state = .disconnected) ⟨.refl w', rfl⟩ fun c w' hc => ?_
    refine .after (end_grows hA (by rw [hc]; rfl)) fun _ w => ?_
    simp only [Works, wp_bind, wp_newEvent, Lib.wp_pure]
    exact ⟨[], .newEvent, by simp [Fresh], by simp, by simp, fun _ hno => absurd (hloud (by simp)) hno⟩

theorem disconnect_loud {rtime : Option Time} {origin : Option Origin} (hloud : loud) :
    Works lim loud w (UA.disconnect rtime origin) :=
  .lively (disconnect_method hA) fun h => h.2 hloud

theorem timeout_method {t : TimerId}
    (hinv : ∀ n, t = .keepAlive n → w.ua.isOver = false → ∀ r, lim.act (.request r))
    (hloud : t.loud → loud) : Works lim loud w (timeout t) := by
  have hdead {w : World} : Works lim loud w (do
      changeState ⟨.dead, none⟩
      return []) := .after (end_grows hA rfl) fun _ _ => .pure (by simp)
  cases t with
  | expire d | noProgress d | noReply d | credit d =>
    exact .after (keeps_view fun _ => rfl) fun _ _ => disconnect_loud hA (hloud rfl)
  | keepAlive n =>
    refine .upd (fun _ => ⟨rfl, rfl, rfl, rfl, rfl, rfl, id⟩) ?_
    refine .seq (P := fun _ _ => True) (wp_mono (keepAlive_grows (hinv n rfl)) ?_ fun _ _ h => h) ?_
    · exact fun _ _ h => ⟨h, trivial⟩
    · exact fun _ _ _ => .pure (by simp)
  | kaDisconnect =>
    exact .upd (fun _ => ⟨rfl, rfl, rfl, rfl, rfl, rfl, id⟩) (disconnect_loud hA (hloud rfl))
  | goDead | goIdle => exact .upd (fun _ => ⟨rfl, rfl, rfl, rfl, rfl, rfl, id⟩) hdead

theorem keepAliveResp_method {n : ℕ} {resp : Response} :
    Works lim loud w (Input.keepAliveResp n resp).run := by
  by_cases hcur : UaStateConnected.current w.ua n
  · refine .lively (.after (keepAliveResp_grows n resp) fun done w => ?_) fun h => ?_
    · cases done with
      | none => exact .pure (by simp)
      | disconnect => exact disconnect_method hA
    · simp [current_alive hcur] at h
  · have hnone : wp (UaStateConnected.keepAliveResp n resp) (fun done w' => done = .none ∧ w' = w)
        (fun _ _ => False) w := by
      unfold UaStateConnected.keepAliveResp
      rw [wp_bind, wp_getUA, Lib.wp_ite]
      exact ⟨fun _ => ⟨rfl, rfl⟩, fun h => absurd (Bool.eq_false_of_not_eq_true hcur) h⟩
    refine .seq (P := fun done _ => done = .none) (wp_mono hnone ?_ fun _ _ h => h.elim) ?_
    · rintro _ _ ⟨rfl, rfl⟩
      exact ⟨.refl _, rfl⟩
    · rintro _ _ rfl
      exact .pure (by simp)

/-- Every call from outside but the end of an SDP update. -/
theorem input_method {i : Input} (hi : ∀ p body ex, i ≠ .sdpUpdated p body ∧ i ≠ .sdpFailed p ex)
    (hinv : i.invites w.ua → ∀ r, lim.act (.request r))
    (hawaits : ∀ e, i.dispatch = some (.event e) → e.final = false → lim.awaits e)
    (hspares : ∀ d ∈ i.dispatch, Spares lim w.ua d) (hloud : i.loud w.ua → loud) :
    Works lim loud w i.run := by
  cases i with
  | request req => exact recvRequest_method hA (hspares _ rfl)
  | response resp hs => exact recvResponse_method hA hinv (hspares _ rfl)
  | event e =>
    refine recvEvent_method hA (fun e' he' => ?_) (hspares _ rfl)
    obtain rfl : e = e' := by simpa using he'
    exact ⟨fun ho hk => hinv (by simp [Input.invites, ho, hk]), hawaits e rfl⟩
  | ack req => exact .upd (fun _ => ⟨rfl, rfl, rfl, rfl, rfl, rfl, id⟩) (recvACK_method hA (hspares _ rfl))
  | cancel rtime reason =>
    refine .getUA (.upd (fun _ => ⟨rfl, rfl, rfl, rfl, rfl, rfl, id⟩) (cancel_method hA fun h => hloud ?_))
    cases hcb : w.ua.cancelCb <;> simp_all [Input.loud]
  | noack => exact .upd (fun _ => ⟨rfl, rfl, rfl, rfl, rfl, rfl, id⟩) (disconnect_loud hA (hloud rfl))
  | disconnect rtime origin => exact disconnect_loud hA (hloud rfl)
  | resetCreditTime rtime times => exact resetCreditTime_method
  | timeout t =>
    refine timeout_method hA (fun n hn ho => hinv ?_) hloud
    simp [hn, Input.invites, ho]
  | keepAliveResp n resp => exact keepAliveResp_method hA
  | referResp => exact .after (sendBYE_grows hA) fun _ _ => .pure (by simp)
  | sdpUpdated p body => exact absurd rfl (hi p body ⟨.other, []⟩).1
  | sdpFailed p ex => exact absurd rfl (hi p ⟨[], [], false⟩ ex).2

end Methods

section Machine

def Mach.world (m : Mach) (io : Io) : World := ⟨m.ua, m.seq + io.skip, io, []⟩

/-- A machine before and after a call that adds `q` to the queue. -/
structure Grown (lim : Limits) (q : List CCEvent) (m m' : Mach) : Prop where
  seq : m.seq ≤ m'.seq
  elastSeq : m'.ua.elastSeq = m.ua.elastSeq
  eventCb : m'.ua.eventCb → m.ua.eventCb
  isOver : m.ua.isOver → m'.ua.isOver
  equeue : m'.ua.equeue = m.ua.equeue ++ q
  queued : ∀ e ∈ q, m.seq ≤ e.seq ∧ e.seq < m'.seq
  pending : ∃ ps, m'.ua.pending = m.ua.pending ++ ps ∧ ∀ p ∈ ps,
    (p.remote = true → m.seq ≤ p.event.seq ∧ p.event.seq < m'.seq) ∧
    (p.remote = false → lim.awaits p.event)
  log : ∃ l, m'.log = m.log ++ l ∧ ∀ a ∈ l, lim.act a
  lSDP : lim.keepsL → m.ua.lSDP.isSome → m'.ua.lSDP.isSome
  rSDP : lim.keepsR → m.ua.rSDP.isSome → m'.ua.rSDP.isSome
  todo : ∀ e, .emitEvent e ∈ m'.todo → .emitEvent e ∈ m.todo ∨ m.seq ≤ e.seq ∧ e.seq < m'.seq
  frames : ∀ e, .recvEvent e ∈ m'.todo → .recvEvent e ∈ m.todo ∨ e.final

theorem Grows.grown {m : Mach} {io : Io} {w' : World} {todo : List Todo}
    (h : Grows lim q (m.world io) w')
    (htodo : ∀ e, .emitEvent e ∈ todo → .emitEvent e ∈ m.todo ∨ Fresh (m.world io) w' e.seq)
    (hframes : ∀ e, .recvEvent e ∈ todo → .recvEvent e ∈ m.todo ∨ e.final) :
    Grown lim q m ⟨w'.ua, w'.seq, todo, m.log ++ w'.log⟩ := by
  have hle {n : ℕ} (hn : Fresh (m.world io) w' n) : m.seq ≤ n ∧ n < w'.seq :=
    ⟨(Nat.le_add_right _ _).trans hn.1, hn.2⟩
  exact {
    seq := (Nat.le_add_right _ _).trans h.seq
    elastSeq := h.elastSeq
    eventCb := h.eventCb
    isOver := h.isOver
    equeue := h.equeue
    queued := fun e he => hle (h.queued e he)
    pending := by
      obtain ⟨ps, hps, hf⟩ := h.pending
      exact ⟨ps, hps, fun p hp => (hf p hp).imp_left fun hp hr => hle (hp hr)⟩
    log := by
      obtain ⟨l, hl, ha⟩ := h.log
      exact ⟨l, by simpa [Mach.world] using hl, ha⟩
    lSDP := h.lSDP
    rSDP := h.rSDP
    todo := fun e he => (htodo e he).imp_right hle
    frames := hframes }

section Exec
variable {m : Mach} {io : Io} {td : List Todo} {e : Raised} {w' : World} {p : M (List Todo)}

theorem exec_ok (rest : List Todo) (h : p (m.world io) = .ok td w') :
    m.exec io rest p = ⟨w'.ua, w'.seq, td ++ rest, m.log ++ w'.log⟩ := by
  unfold Mach.exec
  rw [show p ⟨m.ua, m.seq + io.skip, io, []⟩ = .ok td w' from h]

theorem exec_error (rest : List Todo) (h : p (m.world io) = .error e w') :
    m.exec io rest p = ⟨w'.ua, w'.seq, rest.dropWhile (· ≠ .callback), m.log ++ w'.log⟩ := by
  unfold Mach.exec
  rw [show p ⟨m.ua, m.seq + io.skip, io, []⟩ = .error e w' from h]

end Exec

/-- A method is run: what it queues, and which frames it leaves above the rest. -/
theorem exec_works {m : Mach} {io : Io} (rest : List Todo) {loud : Prop} {p : M (List Todo)}
    (hp : Works lim loud (m.world io) p) :
    ∃ q td w', Leaves lim loud (m.world io) q td w' ∧ ∃ todo,
      m.exec io rest p = ⟨w'.ua, w'.seq, todo, m.log ++ w'.log⟩ ∧
      (todo = td ++ rest ∧ p (m.world io) = .ok td w' ∨
        todo = rest.dropWhile (· ≠ Todo.callback) ∧ td = [.emitPending]) := by
  unfold Works wp at hp
  cases hrun : p (m.world io) with
  | ok td w' =>
    rw [hrun] at hp
    obtain ⟨q, h⟩ := hp
    exact ⟨q, td, w', h, td ++ rest, exec_ok rest hrun, .inl ⟨rfl, rfl⟩⟩
  | error e w' =>
    rw [hrun] at hp
    obtain ⟨q, h⟩ := hp
    exact ⟨q, _, w', h, _, exec_error rest hrun, .inr ⟨rfl, rfl⟩⟩

theorem exec_grown (m : Mach) (io : Io) {rest : List Todo} {loud : Prop} {p : M (List Todo)}
    (hrest : ∀ t ∈ rest, t ∈ m.todo) (hp : Works lim loud (m.world io) p) :
    ∃ q, Grown lim q m (m.exec io rest p) ∧ (m.ua.isOver → ¬ loud → q = [] ∧
      ∀ e, .emitEvent e ∈ (m.exec io rest p).todo → .emitEvent e ∈ m.todo) := by
  obtain ⟨q, td, w', h, todo, hexec, htodo⟩ := exec_works rest hp
  have hmem {t : Todo} (ht : t ∈ todo) : t ∈ td ∨ t ∈ m.todo := by
    obtain ⟨rfl, -⟩ | ⟨rfl, -⟩ := htodo
    · exact (List.mem_append.mp ht).imp_right (hrest t)
    · exact .inr (hrest t ((List.dropWhile_sublist _).subset ht))
  rw [hexec]
  refine ⟨q, h.grows.grown (fun e he => ?_) fun e he => ?_, fun ho hno => ?_⟩
  · exact (hmem he).symm.imp_right (h.fresh e)
  · exact (hmem he).symm.imp_right (h.frames e)
  · obtain ⟨hq, htd⟩ := h.silent ho hno
    exact ⟨hq, fun e he => (hmem he).resolve_left (htd e)⟩

@[simp] theorem withBody_invites (e : CCEvent) (b : Body) :
    (e.withBody b).kind.invites = e.kind.invites := by
  obtain ⟨kind, _, _, _, _⟩ := e
  cases kind <;> rfl

/-- A call from outside is a method, of a user agent that may have one SDP update less. -/
theorem exec_input (hA : lim.Wide) (loud : Prop) (m : Mach) {i : Input} (io : Io)
    (hi : ∀ p body, i = .sdpUpdated p body → p.remote = false)
    (hinv : i.invites m.ua → ∀ r, lim.act (.request r))
    (hawaits : ∀ e, i.dispatch = some (.event e) → e.final = false → lim.awaits e)
    (hspares : ∀ d ∈ i.dispatch, Spares lim m.ua d) (hloud : i.loud m.ua → loud) :
    ∃ m₁ prog, (m₁ = m ∨ ∃ p, m₁ = { m with ua := m.ua.resolved p }) ∧
      Works lim loud (m₁.world io) prog ∧ i.run (m.world io) = prog (m₁.world io) ∧
      ∀ rest, m.exec io rest i.run = m₁.exec io rest prog := by
  by_cases hnot : ∀ p body ex, i ≠ .sdpUpdated p body ∧ i ≠ .sdpFailed p ex
  · exact ⟨m, i.run, .inl rfl, input_method hA hnot hinv hawaits hspares hloud, rfl, fun _ => rfl⟩
  · cases i with
    | sdpUpdated p body =>
      have hr := hi p body rfl
      have hrun : UA.sdpUpdated p body = UA.recvEvent (p.event.withBody body) := by
        simp [UA.sdpUpdated, hr]
      refine ⟨{ m with ua := m.ua.resolved p }, UA.recvEvent (p.event.withBody body), .inr ⟨p, rfl⟩,
        recvEvent_method hA (fun e he => ?_) ?_, ?_, fun rest => ?_⟩
      · obtain rfl : p.event.withBody body = e := by simpa using he
        refine ⟨fun ho hk => hinv ?_, hawaits _ (by simp [Input.dispatch, hr])⟩
        have hover : m.ua.isOver = false := ho
        simpa [Input.invites, hr, hover] using hk
      · exact hspares (.event (p.event.withBody body)) (by simp [Input.dispatch, hr])
      · rw [← hrun]; rfl
      · rw [← hrun]; rfl
    | sdpFailed p ex =>
      exact ⟨{ m with ua := m.ua.resolved p }, UA.sdpFailed ex, .inr ⟨p, rfl⟩,
        sdpFailed_method hloud, rfl, fun _ => rfl⟩
    | _ => exact absurd (fun _ _ _ => ⟨by simp, by simp⟩) hnot

theorem exec_returns {m : Mach} {io : Io} {loud : Prop} {td : List Todo} {w' : World}
    {p : M (List Todo)} (rest : List Todo) (hp : Works lim loud (m.world io) p)
    (hok : p (m.world io) = .ok td w') :
    ∃ q, (m.exec io rest p).ua.equeue = m.ua.equeue ++ q ∧ (q ≠ [] → .emitPending ∈ td) ∧
      ((m.exec io rest p).ua.eventCb → m.ua.eventCb) ∧ (m.exec io rest p).todo = td ++ rest := by
  have hexec := exec_ok rest hok
  unfold Works wp at hp
  rw [hok] at hp
  obtain ⟨q, h⟩ := hp
  exact ⟨q, hexec ▸ h.grows.equeue, h.emits, by rw [hexec]; exact h.grows.eventCb, by rw [hexec]⟩

end Machine
end SippyB2bua.Ua
