import SippyB2bua.Ua.Machine

/-!
# What a handler may do

A handler leaves the state object, the configuration and the last sequence number
alone; it adds to the log, to the event queue and to the SDP updates that are
waited for. `Does` is a judgement about programs with a rule for each primitive:
what the additions are is a parameter, and every event that is added was made
while the handler ran.
-/

namespace SippyB2bua.Ua
open Lib (Text wp wp_mono wp_bind wp_map wp_tryCatch)

structure Frame where
  state : Option UaState
  stateNo : ℕ
  eventCb : Bool
  cbs : Bool
  deadCbs : Bool
  username : Option Text
  password : Option Text
  authEnalgs : Option (List (Option Text))
  passAuth : Bool
  elastSeq : Option ℕ
  onLocal : Bool
  onRemote : Bool
  kaTimers : List ℕ
  kaDisconnects : ℕ
  goDeads : ℕ
  noackCbs : ℕ

def UA.frame (ua : UA) : Frame :=
  ⟨ua.state, ua.stateNo, ua.eventCb, ua.cbs, ua.deadCbs, ua.username, ua.password, ua.authEnalgs,
    ua.passAuth, ua.elastSeq, ua.onLocal, ua.onRemote, ua.kaTimers, ua.kaDisconnects, ua.goDeads,
    ua.noackCbs⟩

/-- What an assignment that is of no interest here leaves alone. -/
structure View where
  frame : Frame
  equeue : List CCEvent
  pending : List Pending
  lSDP : Option Body
  rSDP : Option Body

def UA.view (ua : UA) : View := ⟨ua.frame, ua.equeue, ua.pending, ua.lSDP, ua.rSDP⟩

/-- What a program may log, queue and wait for, and whether it keeps an SDP that
there is. -/
structure Effects where
  act : Act → Prop
  event : CCEvent → Prop
  await : Pending → Prop
  keepsL : Prop
  keepsR : Prop

/-- No call out of the user agent raises. -/
def World.Calm (w : World) : Prop := ∀ fault ∈ w.io.faults, fault = false

/-- A sequence number given out between two worlds. -/
def Fresh (w w' : World) (n : ℕ) : Prop := w.seq ≤ n ∧ n < w'.seq

/-- From one world to another, with `q` added to the event queue. -/
structure Moves (fx : Effects) (q : List CCEvent) (w w' : World) : Prop where
  frame : w'.ua.frame = w.ua.frame
  seq : w.seq ≤ w'.seq
  calm : w.Calm → w'.Calm
  log : ∃ l, w'.log = w.log ++ l ∧ ∀ a ∈ l, fx.act a
  equeue : w'.ua.equeue = w.ua.equeue ++ q
  queued : ∀ e ∈ q, fx.event e ∧ Fresh w w' e.seq
  pending : ∃ ps, w'.ua.pending = w.ua.pending ++ ps ∧ ∀ p ∈ ps, fx.await p ∧
    (p.remote = true → w.ua.onRemote ∧ Fresh w w' p.event.seq) ∧
    (p.remote = false → w.ua.onLocal)
  lSDP : fx.keepsL → w.ua.lSDP.isSome → w'.ua.lSDP.isSome
  rSDP : fx.keepsR → w.ua.rSDP.isSome → w'.ua.rSDP.isSome

variable {fx : Effects} {w₀ : World} {ns : List ℕ} {q : List CCEvent} {α β : Type}

theorem Fresh.later {w w' w'' : World} {n : ℕ} (h : Fresh w w' n) (hle : w'.seq ≤ w''.seq) :
    Fresh w w'' n := ⟨h.1, h.2.trans_le hle⟩

theorem Moves.refl (w : World) : Moves fx [] w w where
  frame := rfl
  seq := le_rfl
  calm h := h
  log := ⟨[], by simp⟩
  equeue := by simp
  queued := by simp
  pending := ⟨[], by simp⟩
  lSDP _ h := h
  rSDP _ h := h

/-- Started after effects as `fx` says, with `q` queued and the events with the numbers
`ns` fresh, the program has such effects and returns with `K`. Unless a call out of the
user agent raises, an exception comes before anything was queued. -/
def Does (fx : Effects) (w₀ : World) (ns : List ℕ) (q : List CCEvent)
    (K : List CCEvent → α → Prop) (p : M α) : Prop :=
  ∀ w, Moves fx q w₀ w → (∀ n ∈ ns, Fresh w₀ w n) →
    wp p (fun a w' => ∃ q', Moves fx q' w₀ w' ∧ (∀ n ∈ ns, Fresh w₀ w' n) ∧ K q' a)
      (fun _ w' => ∃ q', Moves fx q' w₀ w' ∧ (∀ n ∈ ns, Fresh w₀ w' n) ∧ (w₀.Calm → q' = [])) w

theorem Does.wp {K : List CCEvent → α → Prop} {p : M α} (h : Does fx w₀ [] [] K p) :
    wp p (fun a w' => ∃ q, Moves fx q w₀ w' ∧ K q a)
      (fun _ w' => ∃ q, Moves fx q w₀ w' ∧ (w₀.Calm → q = [])) w₀ :=
  wp_mono (h w₀ (.refl w₀) (by simp)) (fun _ _ ⟨q, h⟩ => ⟨q, h.1, h.2.2⟩)
    fun _ _ ⟨q, h⟩ => ⟨q, h.1, h.2.2⟩

namespace Does
variable {K : List CCEvent → α → Prop} {L : List CCEvent → β → Prop}

theorem pure {a : α} (h : K q a) : Does fx w₀ ns q K (pure a : M α) :=
  fun _ hw hns => ⟨q, hw, hns, h⟩

theorem throw {e : Raised} (h : w₀.Calm → q = []) : Does fx w₀ ns q K (throw e : M α) :=
  fun _ hw hns => ⟨q, hw, hns, h⟩

theorem raise {e : Exn} (h : w₀.Calm → q = []) : Does fx w₀ ns q K (Ua.raise e : M α) := throw h

theorem bind {p : M β} {f : β → M α} (hp : Does fx w₀ ns q L p)
    (hf : ∀ q' b, L q' b → Does fx w₀ ns q' K (f b)) : Does fx w₀ ns q K (p >>= f) := by
  intro w hw hns
  rw [wp_bind]
  refine wp_mono (hp w hw hns) (fun b w' h => ?_) fun _ _ h => h
  obtain ⟨q', hw', hns', hb⟩ := h
  exact hf q' b hb w' hw' hns'

/-- A program that queues nothing, and whose result `P` holds of. -/
theorem step {P : β → Prop} {p : M β} {f : β → M α}
    (hp : Does fx w₀ ns q (fun q' b => q' = q ∧ P b) p)
    (hf : ∀ b, P b → Does fx w₀ ns q K (f b)) : Does fx w₀ ns q K (p >>= f) :=
  hp.bind fun _ b h => h.1 ▸ hf b h.2

theorem next {p : M β} {f : β → M α} (hp : Does fx w₀ ns q (fun q' _ => q' = q) p)
    (hf : ∀ b, Does fx w₀ ns q K (f b)) : Does fx w₀ ns q K (p >>= f) :=
  hp.bind fun _ b h => h ▸ hf b

theorem pure_bind {a : β} {f : β → M α} (h : Does fx w₀ ns q K (f a)) :
    Does fx w₀ ns q K (Pure.pure a >>= f) := h

theorem map {p : M β} {f : β → α} (hp : Does fx w₀ ns q L p) (hf : ∀ q' b, L q' b → K q' (f b)) :
    Does fx w₀ ns q K (f <$> p) := by
  intro w hw hns
  rw [wp_map]
  refine wp_mono (hp w hw hns) (fun b w' h => ?_) fun _ _ h => h
  obtain ⟨q', hw', hns', hb⟩ := h
  exact ⟨q', hw', hns', hf q' b hb⟩

theorem weaken {K' : List CCEvent → α → Prop} {p : M α} (hp : Does fx w₀ ns q K' p)
    (h : ∀ q' a, K' q' a → K q' a) : Does fx w₀ ns q K p := by
  intro w hw hns
  refine wp_mono (hp w hw hns) (fun b w' h' => ?_) fun _ _ h => h
  obtain ⟨q', hw', hns', hb⟩ := h'
  exact ⟨q', hw', hns', h q' b hb⟩

theorem ite {c : Prop} [Decidable c] {p p' : M α} (hp : c → Does fx w₀ ns q K p)
    (hp' : ¬ c → Does fx w₀ ns q K p') : Does fx w₀ ns q K (if c then p else p') := by
  split
  · exact hp ‹_›
  · exact hp' ‹_›

theorem discard {p : M β} (hp : Does fx w₀ ns q (fun q' _ => q' = q) p) :
    Does fx w₀ ns q (fun q' _ => q' = q) (discard p) := hp.map fun _ _ h => h

/-- The handler of an exception starts with whatever was queued before it. -/
theorem tryCatch {p : M α} {h : Raised → M α} (hp : Does fx w₀ ns q K p)
    (hh : ∀ e q', (w₀.Calm → q' = []) → Does fx w₀ ns q' K (h e)) :
    Does fx w₀ ns q K (tryCatch p h) := by
  intro w hw hns
  rw [wp_tryCatch]
  refine wp_mono (hp w hw hns) (fun _ _ h => h) fun e w' h' => ?_
  obtain ⟨q', hw', hns', hab⟩ := h'
  exact hh e q' hab w' hw' hns'

theorem getUA_bind {f : UA → M α} (hf : ∀ ua, ua.frame = w₀.ua.frame → Does fx w₀ ns q K (f ua)) :
    Does fx w₀ ns q K (getUA >>= f) := fun w hw hns => hf w.ua hw.frame w hw hns

theorem get_bind {f : World → M α} (hf : ∀ w, Does fx w₀ ns q K (f w)) :
    Does fx w₀ ns q K (get >>= f) := fun w hw hns => hf w w hw hns

theorem upd {f : UA → UA} (hf : ∀ ua, (f ua).view = ua.view) :
    Does fx w₀ ns q (fun q' _ => q' = q) (upd f) := by
  intro w hw hns
  have hv := hf w.ua
  refine ⟨q, ?_, hns, rfl⟩
  exact {
    frame := (congrArg View.frame hv).trans hw.frame
    seq := hw.seq
    calm := hw.calm
    log := hw.log
    equeue := (congrArg View.equeue hv).trans hw.equeue
    queued := hw.queued
    pending := by
      have := congrArg View.pending hv
      obtain ⟨ps, hps, h⟩ := hw.pending
      exact ⟨ps, this.trans hps, h⟩
    lSDP := by
      have : (f w.ua).lSDP = w.ua.lSDP := congrArg View.lSDP hv
      exact fun hk h => this ▸ hw.lSDP hk h
    rSDP := by
      have : (f w.ua).rSDP = w.ua.rSDP := congrArg View.rSDP hv
      exact fun hk h => this ▸ hw.rSDP hk h }

theorem upd_lSDP {b : Option Body} (hb : fx.keepsL → b.isSome) :
    Does fx w₀ ns q (fun q' _ => q' = q) (Ua.upd fun ua => { ua with lSDP := b }) :=
  fun _ hw hns => ⟨q, { hw with lSDP := fun hk _ => hb hk }, hns, rfl⟩

theorem upd_rSDP {b : Option Body} (hb : fx.keepsR → b.isSome) :
    Does fx w₀ ns q (fun q' _ => q' = q) (Ua.upd fun ua => { ua with rSDP := b }) :=
  fun _ hw hns => ⟨q, { hw with rSDP := fun hk _ => hb hk }, hns, rfl⟩

theorem act {a : Act} (ha : fx.act a) : Does fx w₀ ns q (fun q' _ => q' = q) (act a) := by
  intro w hw hns
  obtain ⟨l, hl, hact⟩ := hw.log
  refine ⟨q, { hw with log := ⟨l ++ [a], ?_, ?_⟩ }, hns, rfl⟩
  · simp [hl]
  · simpa [or_imp, forall_and] using ⟨hact, ha⟩

theorem call {a : Act} (ha : fx.act a) : Does fx w₀ ns q (fun q' _ => q' = q) (call a) := by
  intro w hw hns
  unfold Ua.call
  rw [wp_bind, Lib.wp_get]
  cases hf : w.io.faults with
  | nil => exact act ha w hw hns
  | cons fault faults =>
    have hw' : Moves fx q w₀ { w with io := { w.io with faults := faults } } :=
      { hw with calm := fun h b hb => hw.calm h b (hf ▸ List.mem_cons_of_mem _ hb) }
    rw [wp_bind, Lib.wp_modify, Lib.wp_ite]
    refine ⟨fun hfault => ⟨q, hw', hns, fun h => ?_⟩, fun _ => act ha _ hw' hns⟩
    have : fault = false := hw.calm h fault (by simp [hf])
    simp [this] at hfault

theorem newEvent_bind {kind : Kind} {rtime : Time} {origin : Option Origin} {f : CCEvent → M α}
    (hf : ∀ n, Does fx w₀ (n :: ns) q K (f ⟨kind, rtime, origin, n, none⟩)) :
    Does fx w₀ ns q K (newEvent kind rtime origin >>= f) := by
  intro w hw hns
  have hle : w.seq ≤ w.seq + 1 := by omega
  have hw' : Moves fx q w₀ { w with seq := w.seq + 1 } := { hw with
    seq := hw.seq.trans hle
    queued := fun e he => ⟨(hw.queued e he).1, (hw.queued e he).2.later hle⟩
    pending := by
      obtain ⟨ps, hps, h⟩ := hw.pending
      refine ⟨ps, hps, fun p hp => ⟨(h p hp).1, fun hr => ?_, (h p hp).2.2⟩⟩
      obtain ⟨hon, hf⟩ := (h p hp).2.1 hr
      exact ⟨hon, hf.later hle⟩ }
  have hns' : ∀ n ∈ w.seq :: ns, Fresh w₀ { w with seq := w.seq + 1 } n := by
    simp only [List.mem_cons, forall_eq_or_imp]
    exact ⟨⟨hw.seq, by simp⟩, fun n hn => (hns n hn).later hle⟩
  have h := hf w.seq _ hw' hns'
  refine wp_mono h (fun a w' h' => ?_) fun _ w' h' => ?_
  all_goals
    obtain ⟨q', h₁, h₂, h₃⟩ := h'
    exact ⟨q', h₁, fun n hn => h₂ n (List.mem_cons_of_mem _ hn), h₃⟩

theorem enqueue {e : CCEvent} (hn : e.seq ∈ ns) (he : fx.event e) :
    Does fx w₀ ns q (fun q' _ => q' = q ++ [e]) (enqueue e) := by
  intro w hw hns
  refine ⟨q ++ [e], { hw with equeue := ?_, queued := ?_ }, hns, rfl⟩
  · simp [hw.equeue]
  · intro e' he'
    rcases List.mem_append.mp he' with h | h
    · exact hw.queued e' h
    · rw [List.mem_singleton.mp h]
      exact ⟨he, hns _ hn⟩

theorem ofLazy {x : Lazy α} (h : w₀.Calm → q = []) :
    Does fx w₀ ns q (fun q' a => q' = q ∧ x = .ok a) (ofLazy x) := by
  cases x with
  | ok a => exact pure ⟨rfl, rfl⟩
  | error e => exact raise h

theorem modify_io {g : Io → Io} (hg : ∀ io, (g io).faults = io.faults) :
    Does fx w₀ ns q (fun q' _ => q' = q) (modify fun w => { w with io := g w.io } : M PUnit) :=
  fun w hw hns => ⟨q, { hw with calm := fun h => by simpa only [World.Calm, hg w.io] using hw.calm h },
    hns, rfl⟩

theorem upd_pending {p : Pending} (hawait : fx.await p)
    (hr : p.remote = true → w₀.ua.onRemote ∧ p.event.seq ∈ ns)
    (hl : p.remote = false → w₀.ua.onLocal) :
    Does fx w₀ ns q (fun q' _ => q' = q)
      (Ua.upd fun ua => { ua with pending := ua.pending ++ [p] }) := by
  intro w hw hns
  obtain ⟨ps, hps, h⟩ := hw.pending
  refine ⟨q, { hw with pending := ⟨ps ++ [p], ?_, fun p' hp' => ?_⟩ }, hns, rfl⟩
  · simp [hps]
  · rcases List.mem_append.mp hp' with hp' | hp'
    · exact h p' hp'
    · rw [List.mem_singleton.mp hp']
      exact ⟨hawait, fun hp => ⟨(hr hp).1, hns _ (hr hp).2⟩, hl⟩

theorem onSdpChange {remote : Bool} {event : CCEvent} (hawait : fx.await ⟨remote, event⟩)
    (hr : remote = true → w₀.ua.onRemote ∧ event.seq ∈ ns)
    (hl : remote = false → w₀.ua.onLocal) (hab : w₀.Calm → q = []) :
    Does fx w₀ ns q (fun q' _ => q' = q) (onSdpChange remote event) := by
  refine get_bind fun w => next (modify_io (g := fun io => { io with sdps := w.io.sdps.tail })
    fun _ => rfl) fun _ => ?_
  split
  · exact pure rfl
  · exact throw hab
  · exact next (upd_pending hawait hr hl) fun _ => pure rfl

theorem remoteBody {body : Option Body} {event : CCEvent} (hawait : fx.await ⟨true, event⟩)
    (hn : event.seq ∈ ns) (hkeeps : fx.keepsR → body.isSome) (hab : w₀.Calm → q = []) :
    Does fx w₀ ns q (fun q' r => q' = q ∧
      ∀ e, r = some e → e = event ∨ ∃ b, e = event.withBody b) (remoteBody body event) := by
  unfold Ua.remoteBody
  cases body with
  | none =>
    refine next (upd_rSDP fun h => by simpa using hkeeps h) fun _ => ?_
    exact pure ⟨rfl, fun e he => .inl (Option.some.inj he).symm⟩
  | some body =>
    refine getUA_bind fun ua hua => ?_
    have hon : ua.onRemote = w₀.ua.onRemote := congrArg Frame.onRemote hua
    refine ite (fun h => ?_) fun _ => ?_
    · refine next (onSdpChange hawait (fun _ => ⟨hon ▸ h, hn⟩) (by simp) hab) fun r => ?_
      cases r with
      | none => exact pure ⟨rfl, by simp⟩
      | some body =>
        refine next (upd_rSDP (by simp)) fun _ => ?_
        exact pure ⟨rfl, fun e he => .inr ⟨body, (Option.some.inj he).symm⟩⟩
    · refine next (upd_rSDP (by simp)) fun _ => ?_
      exact pure ⟨rfl, fun e he => .inl (Option.some.inj he).symm⟩

theorem queueRemote {body : Option Body} {event : CCEvent} (hawait : fx.await ⟨true, event⟩)
    (hn : event.seq ∈ ns) (he : fx.event event) (heb : ∀ b, fx.event (event.withBody b))
    (hkeeps : fx.keepsR → body.isSome) (hab : w₀.Calm → q = []) :
    Does fx w₀ ns q (fun q' _ => ∃ es, q' = q ++ es ∧
      ∀ e ∈ es, e = event ∨ ∃ b, e = event.withBody b) (queueRemote body event) := by
  refine step (remoteBody hawait hn hkeeps hab) fun r hr => ?_
  cases r with
  | none => exact pure ⟨[], by simp⟩
  | some e =>
    obtain rfl | ⟨b, rfl⟩ := hr e rfl
    · exact weaken (enqueue hn he) fun q' _ h => ⟨[e], h, by simp⟩
    · exact weaken (enqueue hn (heb b)) fun q' _ h => ⟨[event.withBody b], h, by simp⟩

theorem genRequest {method : Method} {body : Option Body} {cqop : Cqop} {hs : List Header}
    {mf : Option ℤ} (hab : ∀ c, cqop = .bare c → w₀.Calm → q = []) :
    Does fx w₀ ns q (fun q' r => q' = q ∧ r.method = method)
      (genRequest method body cqop hs mf) := by
  unfold Ua.genRequest
  refine getUA_bind fun ua _ => ?_
  dsimp only
  cases cqop with
  | none => exact pure_bind (next (upd fun _ => rfl) fun _ => pure ⟨rfl, rfl⟩)
  | pair c => exact pure_bind (next (upd fun _ => rfl) fun _ => pure ⟨rfl, rfl⟩)
  | bare c => exact next (raise (hab c rfl)) fun _ => next (upd fun _ => rfl) fun _ => pure ⟨rfl, rfl⟩

theorem newUacTransaction {req : SentRequest} (h : fx.act (.request req)) :
    Does fx w₀ ns q (fun q' _ => q' = q) (newUacTransaction req) :=
  next (call h) fun _ => upd fun _ => rfl

theorem sendBYE {hs : List Header} (h : ∀ r, r.method = .bye → fx.act (.request r)) :
    Does fx w₀ ns q (fun q' _ => q' = q) (sendBYE hs) :=
  step (genRequest (by simp)) fun r hr => call (h r hr)

theorem sendUasResponse {code : Code} {reason : Text} {body : Option Body} {hs : List Header}
    (h : ∀ cseq, fx.act (.response cseq code reason body hs)) (hab : w₀.Calm → q = []) :
    Does fx w₀ ns q (fun q' _ => q' = q) (sendUasResponse code reason body hs) := by
  refine getUA_bind fun ua _ => ?_
  cases ua.uasResp with
  | none => exact raise hab
  | some cseq =>
    cases code with
    | ack => exact raise hab
    | num n => exact next (call (h cseq)) fun _ => ite (fun _ => upd fun _ => rfl) fun _ => pure rfl

theorem cancelTransaction (h : fx.act .cancelTransaction) (hab : w₀.Calm → q = []) :
    Does fx w₀ ns q (fun q' _ => q' = q) cancelTransaction :=
  getUA_bind fun _ _ => ite (fun _ => call h) fun _ => raise hab

theorem startCreditTimer {rtime : Time} :
    Does fx w₀ ns q (fun q' _ => q' = q) (startCreditTimer rtime) := by
  refine next (upd fun ua => ?_) fun _ => upd fun ua => ?_
  · split <;> rfl
  · split <;> rfl

theorem now : Does fx w₀ ns q (fun q' _ => q' = q) now := get_bind fun _ => pure rfl

theorem setDisconnectTs {rtime : Time} :
    Does fx w₀ ns q (fun q' _ => q' = q) (setDisconnectTs rtime) :=
  next now fun _ => upd fun _ => rfl

end Does
end SippyB2bua.Ua
