import SippyB2bua.Ua.Lifetime
import SippyB2bua.Ua.Closed

/-!
# The registration of a user agent

The INVITE of a call registers its user agent with the transaction manager once Contact and routes
are read. No method that is called while the INVITE is handled undoes that.
-/

namespace SippyB2bua.Ua
open Lib (Keeps wp wp_bind wp_mono)

/-- Whether `req_consumers` has the user agent once it has done this. -/
def Act.registers (on : Bool) : Act → Bool
  | .regConsumer => true
  | .unregConsumer => false
  | _ => on

def registered (acts : List Act) : Bool := acts.foldl Act.registers false

theorem foldl_registers {acts : List Act} (h : .unregConsumer ∉ acts) (on : Bool) :
    acts.foldl Act.registers on = (on || decide (.regConsumer ∈ acts)) := by
  induction acts generalizing on with
  | nil => simp
  | cons a acts ih =>
    obtain ⟨ha, hacts⟩ := not_or.mp (List.mem_cons.not.mp h)
    rw [List.foldl_cons, ih hacts]
    cases a <;> simp_all [Act.registers]

theorem registered_append {acts acts' : List Act} (h : registered acts) (hno : .unregConsumer ∉ acts') :
    registered (acts ++ acts') := by
  have hon : acts.foldl Act.registers false = true := h
  rw [registered, List.foldl_append, foldl_registers hno, hon, Bool.true_or]

/-- A user agent whose call is over is to go to Dead. -/
def UA.Timed (ua : UA) : Prop := ua.state = some .failed ∨ ua.state = some .disconnected → 0 < ua.goDeads

/-- No registration is undone, and a call that ends is timed. -/
structure Lasts (w w' : World) : Prop where
  log : ∃ l, w'.log = w.log ++ l ∧ .unregConsumer ∉ l
  timed : w.ua.Timed → w'.ua.Timed

section Rules
variable {w w' w'' : World} {α β : Type}

theorem Lasts.refl (w : World) : Lasts w w := ⟨⟨[], by simp⟩, id⟩

theorem Lasts.trans (h : Lasts w w') (h' : Lasts w' w'') : Lasts w w'' := by
  obtain ⟨l, hl, hno⟩ := h.log
  obtain ⟨l', hl', hno'⟩ := h'.log
  refine ⟨⟨l ++ l', by rw [hl', hl, List.append_assoc], ?_⟩, h'.timed ∘ h.timed⟩
  rw [List.mem_append]
  exact fun hm => hm.elim hno hno'

theorem UA.Timed.congr {ua ua' : UA} (h : ua.Timed) (hs : ua'.state = ua.state) (hd : ua'.goDeads = ua.goDeads) :
    ua'.Timed := by
  unfold UA.Timed
  rw [hs, hd]
  exact h

theorem Lasts.same (hlog : w'.log = w.log) (hs : w'.ua.state = w.ua.state) (hd : w'.ua.goDeads = w.ua.goDeads) :
    Lasts w w' := ⟨⟨[], by simp [hlog]⟩, fun h => h.congr hs hd⟩

theorem Lasts.act {a : Act} (ha : a ≠ .unregConsumer) : Lasts w { w with log := w.log ++ [a] } :=
  ⟨⟨[a], rfl, by simpa using ha.symm⟩, id⟩

theorem Lasts.of_moves {fx : Effects} {q : List CCEvent} (h : Moves fx q w w')
    (hfx : ∀ a, fx.act a → a ≠ .unregConsumer) : Lasts w w' := by
  obtain ⟨l, hl, hact⟩ := h.log
  exact ⟨⟨l, hl, fun hm => hfx _ (hact _ hm) rfl⟩,
    fun ht => ht.congr (congrArg Frame.state h.frame) (congrArg Frame.goDeads h.frame)⟩

theorem effects_act {s : UaState} {d : Dispatch} {a : Act} (h : (effects s d).act a) : a ≠ .unregConsumer := by
  rcases h with h | ⟨_, _, -, -, -, rfl⟩
  · rintro rfl
    cases h
  · simp

theorem lasts_bind {p : M β} {f : β → M α} (hp : Keeps Lasts p) (hf : ∀ b, Keeps Lasts (f b)) : Keeps Lasts (p >>= f) :=
  .bind .trans hp hf

theorem lasts_getUA {f : UA → M α} (hf : ∀ ua, Keeps Lasts (f ua)) : Keeps Lasts (getUA >>= f) := fun w => hf w.ua w

theorem lasts_pure (a : α) : Keeps Lasts (pure a : M α) := .pure .refl a

theorem lasts_upd {f : UA → UA} (hs : ∀ ua, (f ua).state = ua.state) (hd : ∀ ua, (f ua).goDeads = ua.goDeads) :
    Keeps Lasts (upd f) := fun _ => .same rfl (hs _) (hd _)

theorem lasts_call {a : Act} (ha : a ≠ .unregConsumer) : Keeps Lasts (call a) := by
  intro w
  rw [wp_call]
  split
  · exact .same rfl rfl rfl
  · exact ⟨⟨[a], rfl, by simpa using ha.symm⟩, id⟩

theorem lasts_ite {c : Prop} [Decidable c] {p p' : M α} (hp : Keeps Lasts p) (hp' : Keeps Lasts p') :
    Keeps Lasts (if c then p else p') := by
  split
  · exact hp
  · exact hp'

theorem leaveState_lasts : Keeps Lasts leaveState := by
  have hcall {a : Act} (ha : a ≠ .unregConsumer) {f : UA → UA} (hs : ∀ ua, (f ua).state = ua.state)
      (hd : ∀ ua, (f ua).goDeads = ua.goDeads) : Keeps Lasts (do call a; upd f) :=
    lasts_bind (lasts_call ha) fun _ => lasts_upd hs hd
  refine lasts_getUA fun _ => lasts_ite ?_ (lasts_pure _)
  refine lasts_bind (lasts_getUA fun _ => lasts_ite ?_ (lasts_pure _)) fun _ => ?_
  · exact hcall (by simp) (fun _ => rfl) fun _ => rfl
  refine lasts_bind (lasts_getUA fun _ => lasts_ite ?_ (lasts_pure _)) fun _ => ?_
  · exact hcall (by simp) (fun _ => rfl) fun _ => rfl
  exact lasts_upd (fun _ => rfl) fun _ => rfl

theorem construct_timed {s : UaState} (hs : s ≠ .dead) :
    wp (construct s) (fun _ w' => w'.log = w.log ∧ (s = .failed ∨ s = .disconnected → 0 < w'.ua.goDeads))
      (fun _ _ => False) w := by
  cases s with
  | dead => exact absurd rfl hs
  | failed | disconnected => exact ⟨rfl, fun _ => Nat.succ_pos _⟩
  | _ => exact ⟨rfl, by simp⟩

theorem changeState_lasts {c : Change} (hc : c.state ≠ .dead) : Keeps Lasts (changeState c) := by
  intro w
  unfold changeState
  rw [wp_bind]
  refine wp_mono (leaveState_lasts w) (fun _ w₁ h₁ => ?_) fun _ _ h => h
  rw [wp_bind]
  refine wp_mono (construct_timed hc) (fun _ w₂ ⟨hlog, htimed⟩ => ?_) fun _ _ h => h.elim
  rw [wp_bind, wp_upd]
  have hinstalled : Lasts w { w₂ with ua := { w₂.ua with state := some c.state, stateNo := w₂.ua.stateNo + 1 } } := by
    obtain ⟨l, hl, hno⟩ := h₁.log
    exact ⟨⟨l, hlog.trans hl, hno⟩, fun _ h => htimed (h.imp Option.some.inj Option.some.inj)⟩
  split
  · exact hinstalled
  · exact wp_mono (lasts_call (by simp) _) (fun _ _ h => hinstalled.trans h) fun _ _ h => hinstalled.trans h

end Rules

section Methods
variable {w : World} {s : UaState} {d : Dispatch}

theorem finish_lasts {ret : Ret} {rest : List Todo} (h : ∀ s', ret.res = .to s' → s' ≠ .dead) :
    Keeps Lasts (finish ret rest) := by
  unfold finish
  cases ret with
  | none | inject => exact lasts_pure _
  | change c => exact lasts_bind (changeState_lasts (h _ rfl)) fun _ => lasts_pure _
  | code | scode => exact fun w => .refl w

theorem live_ne_dead (h : s.live) : s ≠ .dead := by
  rintro rfl
  cases h

/-- A message for the state object of a call that lives, but a response. -/
theorem handled_lasts {k : Ret → List Todo} (hs : w.ua.state = some s) (hsound : w.ua.Sound) (hlive : s.live)
    (hd : ∀ resp, d ≠ .response resp) :
    wp (handler s d >>= fun ret => finish ret (k ret)) (fun _ => Lasts w) (fun _ => Lasts w) w := by
  rw [wp_bind]
  refine wp_mono (Lib.wp_and (handler_spec d (hsound.ready s hs)) (handler_does s d).wp) ?_ ?_
  · rintro ret w' ⟨⟨-, ht, -⟩, q, hq, -⟩
    have hlasts : Lasts w w' := .of_moves hq fun _ => effects_act
    refine wp_mono (finish_lasts (fun s' hs' => ?_) w') (fun _ _ h => hlasts.trans h) fun _ _ h => hlasts.trans h
    rw [hs'] at ht
    exact live_ne_dead (ht.live hlive hd)
  · rintro e w' ⟨-, q, hq, -⟩
    exact .of_moves hq fun _ => effects_act

/-- A message for a call that lives and is woken by nothing. -/
theorem woken_lasts {b : Bool} {s₀ : UaState} {k : Ret → List Todo} {f : UA → M (List Todo)}
    (hs : w.ua.state = some s) (hsound : w.ua.Sound) (hlive : s.live) (hd : ∀ resp, d ≠ .response resp)
    (hsome : ∀ ua s, ua.state = some s → f ua = handler s d >>= fun ret => finish ret (k ret)) :
    wp (do UA.wake b s₀; f (← getUA)) (fun _ => Lasts w) (fun _ => Lasts w) w := by
  unfold UA.wake
  rw [wp_bind, wp_bind, wp_getUA, Lib.wp_ite]
  refine ⟨fun h => by simp [hs] at h, fun _ => ?_⟩
  rw [Lib.wp_pure, wp_bind, wp_getUA, hsome _ s hs]
  exact handled_lasts hs hsound hlive hd

theorem recvEvent_lasts {e : CCEvent} (hs : w.ua.state = some s) (hsound : w.ua.Sound) (hlive : s.live) :
    wp (UA.recvEvent e) (fun _ => Lasts w) (fun _ => Lasts w) w :=
  woken_lasts (d := .event e) (k := fun _ => [.emitPending]) hs hsound hlive (by simp)
    fun ua s h => by simp [h, handler]

theorem recvRequest_lasts {req : Request} (hs : w.ua.state = some s) (hsound : w.ua.Sound) (hlive : s.live) :
    wp (UA.recvRequest req) (fun _ => Lasts w) (fun _ => Lasts w) w := by
  unfold UA.recvRequest
  rw [wp_bind, wp_getUA, Lib.wp_ite]
  refine ⟨fun _ => Lasts.act (by simp), fun _ => ?_⟩
  rw [wp_bind, wp_upd]
  have hupd : Since w { w with ua := { w.ua with rCSeq := some req.cseq } } := (Since.refl w).of_rest rfl
  have hsame : Lasts w { w with ua := { w.ua with rCSeq := some req.cseq } } := .same rfl rfl rfl
  refine wp_mono (woken_lasts (d := .request req) (k := fun ret =>
    if ret.changes && req.method = .invite then [.emitPending, .accepted] else [.emitPending]) hs
    (hsound.since hupd) hlive (by simp) fun ua s h => by simp [h, handler]) ?_ ?_
  · exact fun _ _ h => hsame.trans h
  · exact fun _ _ h => hsame.trans h

theorem disconnect_lasts {rtime : Option Time} {origin : Option Origin} (hs : w.ua.state = some s)
    (hsound : w.ua.Sound) (hlive : s.live) :
    wp (UA.disconnect rtime origin) (fun _ => Lasts w) (fun _ => Lasts w) w := by
  simp only [UA.disconnect, now, wp_bind, Lib.wp_get, Lib.wp_pure, wp_newEvent, wp_enqueue]
  have hasked : Since w { w with
      ua := { w.ua with equeue := w.ua.equeue ++ [⟨.disconnect none, rtime.getD w.io.now, origin, w.seq, none⟩] }
      seq := w.seq + 1 + 1 } := (Since.refl w).of_rest rfl
  have hsame : Lasts w { w with
      ua := { w.ua with equeue := w.ua.equeue ++ [⟨.disconnect none, rtime.getD w.io.now, origin, w.seq, none⟩] }
      seq := w.seq + 1 + 1 } := .same rfl rfl rfl
  exact wp_mono (recvEvent_lasts hs (hsound.since hasked) hlive) (fun _ _ h => hsame.trans h) fun _ _ h => hsame.trans h

end Methods

section First
variable {w : World} {req : Request}

/-- The user agent is registered, for good. -/
structure Registers (w w' : World) : Prop where
  log : ∃ l, w'.log = w.log ++ l ∧ .regConsumer ∈ l ∧ .unregConsumer ∉ l
  timed : w'.ua.Timed

/-- An exception that comes before the registration. -/
structure Early (req : Request) (w w' : World) (e : Exn) : Prop where
  log : ∃ l, w'.log = w.log ++ l ∧ .regConsumer ∉ l ∧ ∀ a ∈ l, a.isFinal = false
  exn : e = .other ∨ e = .attributeError ∨ req.contact = .error e ∨ req.recordRoutes.mapM id = .error e

theorem Registers.lasts {w' w'' : World} (h : Registers w w') (h' : Lasts w' w'') : Registers w w'' := by
  obtain ⟨l, hl, hreg, hno⟩ := h.log
  obtain ⟨l', hl', hno'⟩ := h'.log
  refine ⟨⟨l ++ l', by rw [hl', hl, List.append_assoc], List.mem_append_left _ hreg, ?_⟩, h'.timed h.timed⟩
  rw [List.mem_append]
  exact fun hm => hm.elim hno hno'

theorem followRoutes_early {log : List Act} {st : Option UaState} (hlog : w.log = log) (hs : w.ua.state = st) :
    wp followRoutes (fun _ w' => w'.log = log ∧ w'.ua.state = st)
      (fun e w' => w'.log = log ∧ e.exn = .attributeError) w := by
  unfold followRoutes
  rw [wp_bind, wp_getUA]
  split
  · split
    · exact ⟨hlog, rfl⟩
    · exact ⟨hlog, hs⟩
  · rw [Lib.wp_ite, Lib.wp_ite]
    exact ⟨fun _ => ⟨hlog, hs⟩, fun _ => ⟨fun _ => ⟨hlog, hs⟩, fun _ => ⟨hlog, hs⟩⟩⟩

/-- Contact and routes are read and 100 is sent before the registration, the rest of the INVITE after. -/
theorem uasIdle_registers (hm : req.method = .invite) (hs : w.ua.state = some .uasIdle) :
    wp (UasStateIdle.recvRequest req) (fun ret w' => Registers w w' ∧ ret = .change ⟨.uasTrying, none⟩)
      (fun e w' => Registers w w' ∨ Early req w w' e.exn) w := by
  have hearly {w' : World} {e : Exn} (hlog : w'.log = w.log) (he : e = .other ∨ e = .attributeError ∨
      req.contact = .error e ∨ req.recordRoutes.mapM id = .error e) : Early req w w' e :=
    ⟨⟨[], by simp [hlog]⟩, he⟩
  let trying : Act := .response req.cseq (.num 100) textTrying none []
  have hregisters {w₂ w' : World} {q : List CCEvent} (hq : Moves (effects .uasIdle (.request req)) q w₂ w')
      (hlog : w₂.log = w.log ++ [trying] ++ [.regConsumer]) (hs₂ : w₂.ua.state = some .uasIdle) : Registers w w' := by
    have hreg : Registers w w₂ :=
      ⟨⟨[trying, .regConsumer], by simp [hlog], by simp, by simp [trying]⟩, by simp [UA.Timed, hs₂]⟩
    exact hreg.lasts (.of_moves hq fun _ => effects_act)
  unfold UasStateIdle.recvRequest
  rw [Lib.wp_ite]
  refine ⟨fun h => absurd hm h, fun _ => ?_⟩
  rw [wp_bind, wp_upd, wp_bind, Lib.wp_get, wp_bind, wp_upd, wp_bind, wp_ofLazy]
  cases hcontact : req.contact with
  | error e => exact .inr (hearly rfl (.inr (.inr (.inl hcontact))))
  | ok contact =>
    dsimp only
    rw [wp_bind, wp_upd, wp_bind, wp_ofLazy]
    cases hroutes : req.recordRoutes.mapM id with
    | error e => exact .inr (hearly rfl (.inr (.inr (.inr hroutes))))
    | ok routes =>
      dsimp only
      rw [wp_bind, wp_upd, wp_bind]
      refine wp_mono (followRoutes_early (show _ = w.log from rfl) hs) (fun _ w₁ ⟨hlog₁, hs₁⟩ => ?_)
        fun e w₁ ⟨hlog₁, he⟩ => ?_
      · rw [wp_bind, wp_upd, wp_bind, wp_call]
        split
        · exact .inr (hearly hlog₁ (.inl rfl))
        · rw [wp_bind, wp_upd, wp_bind, wp_act]
          have hlog : w₁.log ++ [trying] ++ [.regConsumer] = w.log ++ [trying] ++ [.regConsumer] := by rw [hlog₁]
          refine wp_mono (Does.wp (K := fun _ ret => ret = .change ⟨.uasTrying, none⟩)
            ((?_ : Does (effects .uasIdle (.request req)) _ [] [] _ _))) ?_ ?_
          · refine .next (getAuthorization_does fun _ => rfl) fun _ => .next (.upd fun _ => rfl) fun _ => ?_
            refine .newEvent_bind fun n => .next armSetupTimers_does fun _ => .next armFirst_does fun _ => ?_
            refine .bind (queueRemote_does rfl rfl (by simp) (by simp [UaState.forgetsR]) fun _ => rfl) ?_
            exact fun _ _ _ => .next (.upd fun _ => rfl) fun _ => .pure rfl
          · rintro ret w' ⟨q, hq, hret⟩
            exact ⟨hregisters hq hlog hs₁, hret⟩
          · rintro e w' ⟨q, hq, -⟩
            exact .inl (hregisters hq hlog hs₁)
      · exact .inr (hearly hlog₁ (.inr (.inl he)))

/-- The INVITE of a call registers its user agent, or is refused with an exception before it does. -/
theorem recvRequest_registers (hnone : w.ua.state = none) (hm : req.method = .invite) (hnew : ¬ w.ua.stale req) :
    wp (UA.recvRequest req) (fun _ => Registers w) (fun e w' => Registers w w' ∨ Early req w w' e.exn) w := by
  unfold UA.recvRequest UA.wake
  rw [wp_bind, wp_getUA, Lib.wp_ite]
  refine ⟨fun hold => absurd hold hnew, fun _ => ?_⟩
  rw [wp_bind, wp_upd, wp_bind, wp_bind, wp_getUA, Lib.wp_ite]
  refine ⟨fun _ => ?_, fun h => absurd ⟨hnone, decide_eq_true hm⟩ h⟩
  refine wp_mono (changeState_first (.inl rfl) hnone) ?_ fun _ _ h => h.elim
  rintro - w₁ hw₁
  have hlog : w₁.log = w.log := by rw [hw₁]
  have hs : w₁.ua.state = some .uasIdle := by rw [hw₁]
  clear hw₁
  rw [wp_bind, wp_getUA]
  simp only [hs]
  show wp (UasStateIdle.recvRequest req >>= fun ret => finish ret _) _ _ w₁
  rw [wp_bind]
  refine wp_mono (uasIdle_registers hm hs) ?_ ?_
  · rintro ret w₂ ⟨h, rfl⟩
    have hreg : Registers w w₂ := ⟨hlog ▸ h.log, h.timed⟩
    refine wp_mono (finish_lasts (fun s' hs' => ?_) w₂) (fun _ _ h' => hreg.lasts h') fun _ _ h' => .inl (hreg.lasts h')
    obtain rfl : UaState.uasTrying = s' := Res.to.inj hs'
    simp
  · exact fun e w₂ h => h.imp (fun h => ⟨hlog ▸ h.log, h.timed⟩) fun h => ⟨hlog ▸ h.log, h.exn⟩

end First

section Steps
variable {m : Mach} {l : Label} {w : World}

theorem input_lasts {i : Input} (hsound : w.ua.Sound) (hs : w.ua.state.any UaState.live) (hi : i.mild) :
    wp i.run (fun _ => Lasts w) (fun _ => Lasts w) w := by
  cases hstate : w.ua.state with
  | none => simp [hstate] at hs
  | some s =>
    have hlive : s.live := by simpa [hstate] using hs
    cases i with
    | request req => exact recvRequest_lasts hstate hsound hlive
    | event e => exact recvEvent_lasts hstate hsound hlive
    | disconnect rtime origin => exact disconnect_lasts hstate hsound hlive
    | _ => cases hi

theorem Mach.step_lasts (hsound : m.ua.Sound) (hs : m.ua.state.any UaState.live) (hl : l.mild) :
    (∃ acts, (m.step l).log = m.log ++ acts ∧ .unregConsumer ∉ acts) ∧ (m.ua.Timed → (m.step l).ua.Timed) := by
  obtain ⟨i, io, rest, hi, -, -, -, h⟩ | ⟨io, d, es, todo, -, -, -, -, h⟩ | ⟨es, n, cb, todo, -, -, -, -, h⟩ :=
    m.step_cases l
  · have hlasts := input_lasts (w := m.world io) hsound hs (mild_of_method hl hi)
    have hnext {w' : World} {td : List Todo} (hw' : Lasts (m.world io) w')
        (h : m.step l = ⟨w'.ua, w'.seq, td, m.log ++ w'.log⟩) :
        (∃ acts, (m.step l).log = m.log ++ acts ∧ .unregConsumer ∉ acts) ∧ (m.ua.Timed → (m.step l).ua.Timed) := by
      obtain ⟨acts, hacts, hno⟩ := hw'.log
      replace hacts : w'.log = acts := by simpa [Mach.world] using hacts
      rw [h]
      exact ⟨⟨acts, by rw [hacts], hno⟩, hw'.timed⟩
    unfold Lib.wp at hlasts
    cases hrun : i.run (m.world io) with
    | ok td w' =>
      rw [hrun] at hlasts
      exact hnext hlasts (h.trans (exec_ok rest hrun))
    | error e w' =>
      rw [hrun] at hlasts
      exact hnext hlasts (h.trans (exec_error rest hrun))
  · rw [h]
    exact ⟨⟨[.event d], rfl, by simp⟩, fun ht => ht.congr rfl rfl⟩
  · rw [h]
    exact ⟨⟨[], by simp⟩, fun ht => ht.congr rfl rfl⟩

end Steps

end SippyB2bua.Ua
