import SippyB2bua.Ua.Step

/-!
# An answer that waits for its SDP

The event for an answer gets its number when the response comes in and is queued when
the SDP update is complete. `emitPendingEvents` drops it if an event with a later
number was handed over in between. As long as that event is one that ends the call,
nothing is lost.
-/

namespace SippyB2bua.Ua
open Lib (run Along returns returns_iff)

abbrev anyMethod : Limits := .only fun _ => True

theorem recvEvent_works {w : World} {e : CCEvent} : Works anyMethod True w (UA.recvEvent e) :=
  recvEvent_method (fun _ _ => trivial) (fun _ _ => ⟨fun _ _ _ => trivial, fun _ => trivial⟩) spares_only

theorem input_works (m : Mach) {i : Input} (io : Io)
    (hi : ∀ p body, i = .sdpUpdated p body → p.remote = false) :
    ∃ m₁ prog, (m₁ = m ∨ ∃ p, m₁ = { m with ua := m.ua.resolved p }) ∧
      Works anyMethod True (m₁.world io) prog ∧ i.run (m.world io) = prog (m₁.world io) ∧
      ∀ rest, m.exec io rest i.run = m₁.exec io rest prog :=
  exec_input (fun _ _ => trivial) True m io hi (fun _ _ => trivial) (fun _ _ _ => trivial)
    (fun _ _ => spares_only) fun _ => trivial

theorem step_any (m : Mach) (l : Label) : Stepped anyMethod True m l (m.step l) :=
  m.stepped (fun _ _ => trivial) l (fun _ _ _ _ => trivial) (fun _ _ _ _ _ => trivial)
    (fun _ _ _ _ => spares_only) fun _ _ _ => trivial

def UA.awaited (ua : UA) : List CCEvent := (ua.pending.filter (·.remote)).map (·.event)

abbrev Delivered (log : List Act) (e : CCEvent) : Prop := .event e ∈ log

def Act.ends : Act → Bool
  | .event e => e.final
  | _ => false

/-- A Disconnect, a Fail or a Redirect was handed over. -/
abbrev Ended (log : List Act) : Prop := ∃ a ∈ log, a.ends

/-- The event, if it is handed over, ends the call or is older than the answer with the number
`k`, as long as that is queued or awaited. -/
abbrev Mach.inTurn (k : ℕ) (m : Mach) (d : CCEvent) (es : List CCEvent) : Prop :=
  (∀ n ∈ m.ua.elastSeq, n < d.seq) → d.final = false →
    ∀ e ∈ m.ua.awaited ++ es, e.seq = k → e.answer → d.seq < k

/-- No event but one that ends the call overtakes the answer, before the call has ended. -/
def Orderly (k : ℕ) (m : Mach) : Label → Prop
  | .tau _ => Ended m.log ∨ ∀ h ∈ m.handing, m.inTurn k h.1 h.2
  | _ => True

instance (k : ℕ) (m : Mach) (l : Label) : Decidable (Orderly k m l) := by
  unfold Orderly
  split <;> infer_instance

/-- The numbers of all events are in the past, and the answer is older than an event
that was handed over only if the call has ended. -/
structure Ordered (k : ℕ) (m : Mach) : Prop where
  last : ∀ n ∈ m.ua.elastSeq, n < m.seq
  queued : ∀ e ∈ m.ua.equeue, e.seq < m.seq
  awaited : ∀ e ∈ m.ua.awaited, e.seq < m.seq
  emitted : ∀ e, .emitEvent e ∈ m.todo → e.seq < m.seq
  answers : ∀ e ∈ m.ua.awaited ++ m.ua.equeue, e.seq = k → e.answer →
    (∃ n ∈ m.ua.elastSeq, k ≤ n) → Ended m.log

section Order
variable {k : ℕ}

theorem Ended.append {log l : List Act} (h : Ended log) : Ended (log ++ l) := by
  obtain ⟨a, ha, he⟩ := h
  exact ⟨a, List.mem_append_left _ ha, he⟩

theorem Ordered.grown {lim : Limits} {q : List CCEvent} {m m' : Mach} (h : Ordered k m)
    (hg : Grown lim q m m') : Ordered k m' := by
  have hlast (n : ℕ) (hn : n ∈ m'.ua.elastSeq) : n < m.seq := h.last n (hg.elastSeq ▸ hn)
  obtain ⟨ps, hps, hnew⟩ := hg.pending
  have hawaited (e : CCEvent) (he : e ∈ m'.ua.awaited) :
      e ∈ m.ua.awaited ∨ m.seq ≤ e.seq ∧ e.seq < m'.seq := by
    simp only [UA.awaited, hps, List.filter_append, List.map_append, List.mem_append] at he
    refine he.imp_right fun he => ?_
    obtain ⟨p, hp, rfl⟩ := List.mem_map.mp he
    obtain ⟨hp, hr⟩ := List.mem_filter.mp hp
    exact (hnew p hp).1 hr
  have hqueue (e : CCEvent) (he : e ∈ m'.ua.equeue) :
      e ∈ m.ua.equeue ∨ m.seq ≤ e.seq ∧ e.seq < m'.seq := by
    rw [hg.equeue] at he
    exact (List.mem_append.mp he).imp_right (hg.queued e)
  refine ⟨fun n hn => (hlast n hn).trans_le hg.seq, fun e he => ?_, fun e he => ?_, fun e he => ?_,
    fun e he hk hans ⟨n, hn, hle⟩ => ?_⟩
  · exact (hqueue e he).elim (fun he => (h.queued e he).trans_le hg.seq) fun he => he.2
  · exact (hawaited e he).elim (fun he => (h.awaited e he).trans_le hg.seq) fun he => he.2
  · exact (hg.todo e he).elim (fun he => (h.emitted e he).trans_le hg.seq) fun he => he.2
  · obtain ⟨l, hl, -⟩ := hg.log
    have hlt := hlast n hn
    have hold : e ∈ m.ua.awaited ++ m.ua.equeue := by
      rcases List.mem_append.mp he with he | he
      · exact List.mem_append_left _ ((hawaited e he).resolve_right fun h => by omega)
      · exact List.mem_append_right _ ((hqueue e he).resolve_right fun h => by omega)
    exact hl ▸ (h.answers e hold hk hans ⟨n, hg.elastSeq ▸ hn, hle⟩).append

theorem Ordered.sub {m m' : Mach} (h : Ordered k m) (hseq : m'.seq = m.seq)
    (hlast : m'.ua.elastSeq = m.ua.elastSeq) (hlog : m'.log = m.log)
    (hawaited : ∀ e ∈ m'.ua.awaited, e ∈ m.ua.awaited)
    (hqueue : ∀ e ∈ m'.ua.equeue, e ∈ m.ua.equeue) (htodo : ∀ t ∈ m'.todo, t ∈ m.todo) :
    Ordered k m' where
  last n hn := hseq ▸ h.last n (hlast ▸ hn)
  queued e he := hseq ▸ h.queued e (hqueue e he)
  awaited e he := hseq ▸ h.awaited e (hawaited e he)
  emitted e he := hseq ▸ h.emitted e (htodo _ he)
  answers e he hk hans hn := by
    rw [hlog]
    rw [hlast] at hn
    refine h.answers e ?_ hk hans hn
    exact List.mem_append.mpr ((List.mem_append.mp he).imp (hawaited e) (hqueue e))

theorem awaited_sublist {ua ua' : UA} (h : ua'.pending.Sublist ua.pending) {e : CCEvent}
    (he : e ∈ ua'.awaited) : e ∈ ua.awaited := ((h.filter _).map _).subset he

theorem mem_awaited {ua : UA} {p : Pending} (hp : p ∈ ua.pending) (hr : p.remote = true) :
    p.event ∈ ua.awaited := List.mem_map_of_mem (List.mem_filter.mpr ⟨hp, hr⟩)

theorem answer_withBody (e : CCEvent) (b : Body) : (e.withBody b).answer = e.answer := by
  obtain ⟨kind, _, _, _, _⟩ := e
  cases kind <;> rfl

theorem Ordered.awaiting {m : Mach} {ps : List Pending} (h : Ordered k m)
    (hps : ps.Sublist m.ua.pending) : Ordered k { m with ua := m.ua.awaiting ps } :=
  h.sub rfl rfl rfl (fun _ => awaited_sublist hps) (fun _ h => h) fun _ h => h

theorem Ordered.completed {m : Mach} {p : Pending} {body : Body} {skip : ℕ} {rest : List Todo}
    (h : Ordered k m) (hp : p ∈ m.ua.pending) (hr : p.remote = true) (hrest : ∀ t ∈ rest, t ∈ m.todo) :
    Ordered k ⟨m.ua.completed p body, m.seq + skip, .emitPending :: rest, m.log⟩ := by
  have hresolved := h.awaiting (List.erase_sublist (a := p))
  have hlt : p.event.seq < m.seq := h.awaited _ (mem_awaited hp hr)
  have hle : m.seq ≤ m.seq + skip := Nat.le_add_right _ _
  have hqueue (e : CCEvent) (he : e ∈ (m.ua.completed p body).equeue) :
      e ∈ m.ua.equeue ∨ e = p.event.withBody body := by simpa [UA.completed] using he
  refine ⟨fun n hn => (h.last n hn).trans_le hle, fun e he => ?_,
    fun e he => (hresolved.awaited e he).trans_le hle, fun e he => ?_, fun e he hk hans hn => ?_⟩
  · rcases hqueue e he with he | rfl
    · exact (h.queued e he).trans_le hle
    · exact hlt.trans_le hle
  · exact (h.emitted e (hrest _ (by simpa using he))).trans_le hle
  · rcases List.mem_append.mp he with he | he
    · exact hresolved.answers e (List.mem_append_left _ he) hk hans hn
    · rcases hqueue e he with he | rfl
      · exact h.answers e (List.mem_append_right _ he) hk hans hn
      · refine h.answers p.event (List.mem_append_left _ (mem_awaited hp hr)) hk ?_ hn
        rwa [answer_withBody] at hans

theorem Ordered.handed {m : Mach} {d : CCEvent} {es : List CCEvent} {todo : List Todo} (h : Ordered k m)
    (hd : m.handing = some (d, es)) (hnew : ¬ m.ua.Stale d) (htodo : ∀ t ∈ todo, t ∈ m.todo)
    (hok : Ended m.log ∨ m.inTurn k d es) :
    Ordered k ⟨m.ua.handed d es, m.seq, .callback :: todo, m.log ++ [.event d]⟩ := by
  obtain ⟨-, hes, -, hd⟩ := handing_mem hd
  have hlt : d.seq < m.seq := hd.elim (h.queued d) (h.emitted d)
  have hfresh (n : ℕ) (hn : n ∈ m.ua.elastSeq) : n < d.seq :=
    not_le.mp fun hle => hnew ⟨n, hn, hle⟩
  refine ⟨fun n hn => Option.some.inj hn ▸ hlt, fun e he => h.queued e (hes.subset he), h.awaited,
    fun e he => h.emitted e (htodo _ (by simpa using he)), fun e he hk hans hn => ?_⟩
  obtain ⟨n, hn, hle⟩ := hn
  obtain rfl : d.seq = n := Option.some.inj hn
  cases hf : d.final with
  | true => exact ⟨.event d, List.mem_append_right _ (List.mem_singleton_self _), hf⟩
  | false =>
    rcases hok with hended | hturn
    · exact hended.append
    · have hlt := hturn hfresh hf e he hk hans
      omega

theorem Ordered.step {m : Mach} {l : Label} (h : Ordered k m) (hok : Orderly k m l) :
    Ordered k (m.step l) := by
  have hs := step_any m l
  generalize m.step l = m' at hs ⊢
  cases hs with
  | method ps q m' hps hg _ => exact (h.awaiting hps).grown hg
  | completed p body io rest _ hr hp hrest => exact h.completed hp hr hrest
  | handed io d es todo hl hd hnew htodo =>
    subst hl
    exact h.handed hd hnew htodo (hok.imp_right fun hok => hok _ hd)
  | settled es n cb todo hes _ htodo _ =>
    exact h.sub rfl rfl rfl (fun _ h => h) (fun _ h => hes.subset h) htodo

end Order

/-- The event is still queued, or it was handed over, or one that ends the call was. -/
def Kept (e : CCEvent) (m : Mach) : Prop := e ∈ m.ua.equeue ∨ Delivered m.log e ∨ Ended m.log

theorem Kept.later {e : CCEvent} {m m' : Mach} (h : Kept e m)
    (hq : e ∈ m.ua.equeue → e ∈ m'.ua.equeue) (hlog : ∃ l, m'.log = m.log ++ l) : Kept e m' := by
  obtain ⟨l, hl⟩ := hlog
  rcases h with h | h | h
  · exact .inl (hq h)
  · exact .inr (.inl (hl ▸ List.mem_append_left l h))
  · exact .inr (.inr (hl ▸ h.append))

theorem Kept.grown {lim : Limits} {q : List CCEvent} {e : CCEvent} {m m' : Mach} (h : Kept e m)
    (hg : Grown lim q m m') : Kept e m' := by
  obtain ⟨l, hl, -⟩ := hg.log
  exact h.later (fun he => hg.equeue ▸ List.mem_append_left q he) ⟨l, hl⟩

theorem Kept.step {e : CCEvent} {m : Mach} {l : Label} (hm : Ordered e.seq m) (hans : e.answer)
    (h : Kept e m) : Kept e (m.step l) := by
  have hs := step_any m l
  generalize m.step l = m' at hs ⊢
  cases hs with
  | method ps q m' hps hg _ =>
    have hawaiting : Kept e { m with ua := m.ua.awaiting ps } := h
    exact hawaiting.grown hg
  | completed p body io rest _ _ _ _ =>
    exact h.later (fun he => List.mem_append_left _ he) ⟨[], by simp⟩
  | handed io d es todo _ hd _ _ =>
    rcases h with h | h | h
    · rcases (handing_mem hd).2.2.1 e h with he | rfl
      · exact .inl he
      · exact .inr (.inl (List.mem_append_right _ (List.mem_singleton_self _)))
    · exact .inr (.inl (List.mem_append_left _ h))
    · exact .inr (.inr h.append)
  | settled es n cb todo _ hdrop _ _ =>
    rcases h with h | h | h
    · rcases hdrop e h with he | hold
      · exact .inl he
      · -- the answer is dropped, so that the call has ended
        exact .inr (.inr (hm.answers e (List.mem_append_right _ h) rfl hans hold))
    · exact .inr (.inl h)
    · exact .inr (.inr h)

/-- Neither a method nor `event_cb` raises in the step. -/
def Returns (m : Mach) : Label → Prop
  | .input i io => m.idle → i.possible m.ua → returns i.run (m.world io)
  | .tau io => match m.todo with
    | .recvEvent e :: _ => returns (UA.recvEvent e) (m.world io)
    | _ => True
  | .ret => True
  | .throw => False

instance (m : Mach) (l : Label) : Decidable (Returns m l) := by
  unfold Returns
  split
  · infer_instance
  · split <;> infer_instance
  · infer_instance
  · infer_instance

def Drains (m : Mach) : Prop := m.ua.equeue ≠ [] → m.ua.eventCb = true → .emitPending ∈ m.todo

theorem Drains.exec {m : Mach} {io : Io} {rest td : List Todo} {w' : World} {p : M (List Todo)}
    (hp : Works anyMethod True (m.world io) p) (hok : p (m.world io) = .ok td w')
    (h : m.ua.equeue ≠ [] → m.ua.eventCb = true → .emitPending ∈ rest) :
    Drains (m.exec io rest p) := by
  obtain ⟨q, hqueue, hq, hcb, htodo⟩ := exec_returns rest hp hok
  intro hne hcb'
  rw [htodo]
  by_cases hnil : q = []
  · subst hnil
    exact List.mem_append_right _ (h (by simpa [hqueue] using hne) (hcb hcb'))
  · exact List.mem_append_left _ (hq hnil)

theorem emit_equeue {m : Mach} {d : CCEvent} {rest : List Todo} :
    (m.emit d rest).ua.equeue = m.ua.equeue := by
  unfold Mach.emit
  split <;> rfl

theorem emit_todo {m : Mach} {d : CCEvent} {rest : List Todo} {t : Todo} (ht : t ∈ rest) :
    t ∈ (m.emit d rest).todo := by
  unfold Mach.emit
  split
  · exact ht
  · exact List.mem_cons_of_mem _ ht

theorem Drains.tau {m : Mach} {io : Io} (h : Drains m) (hret : Returns m (.tau io)) :
    Drains (m.tau io) := by
  have hrest {t : Todo} {rest : List Todo} (ht : m.todo = t :: rest) (hne : t ≠ .emitPending)
      (hq : m.ua.equeue ≠ []) (hcb : m.ua.eventCb = true) : .emitPending ∈ rest := by
    have := h hq hcb
    rw [ht] at this
    exact (List.mem_cons.mp this).resolve_left fun h => hne h.symm
  unfold Mach.tau
  split
  · exact h
  · exact h
  · rename_i rest ht
    split
    · exact fun _ _ => emit_todo (ht ▸ List.mem_cons_self)
    · rename_i hnone
      intro hq hcb
      obtain ⟨e, es, hes⟩ := List.exists_cons_of_ne_nil hq
      exact absurd hcb (by simpa using hnone e es hes)
  · rename_i e rest ht
    split
    · rename_i hcb
      intro hq _
      rw [emit_equeue] at hq
      exact emit_todo (hrest ht (by simp) hq hcb)
    · rename_i hcb
      exact fun _ hcb' => absurd hcb' hcb
  · rename_i e rest ht
    obtain ⟨td, w', hok⟩ := returns_iff.mp (by simpa [Returns, ht] using hret)
    exact Drains.exec recvEvent_works hok (hrest ht (by simp))
  · rename_i rest ht
    exact hrest ht (by simp)

theorem Drains.step {m : Mach} {l : Label} (h : Drains m) (hret : Returns m l) :
    Drains (m.step l) := by
  cases l with
  | input i io =>
    rw [Mach.step_input]
    split
    · rename_i hi
      obtain ⟨hidle, hposs⟩ := Bool.and_eq_true_iff.mp hi
      obtain ⟨td, w', hok⟩ := returns_iff.mp (hret hidle hposs)
      by_cases hr : ∀ p body, i = .sdpUpdated p body → p.remote = false
      · obtain ⟨m₁, prog, hm₁, hworks, hrun, hexec⟩ := input_works m io hr
        rw [hexec]
        rw [hrun] at hok
        obtain rfl | ⟨p, rfl⟩ := hm₁
        · exact Drains.exec hworks hok h
        · exact Drains.exec hworks hok h
      · push Not at hr
        obtain ⟨p, body, rfl, hr⟩ := hr
        rw [exec_sdpUpdated (by simpa using hr)]
        exact fun _ _ => List.mem_cons_self
    · exact h
  | tau io => exact h.tau hret
  | ret =>
    obtain ⟨ua, seq, todo, log⟩ := m
    match todo with
    | [] | .emitPending :: _ | .emitEvent _ :: _ | .recvEvent _ :: _ | .accepted :: _ => exact h
    | .callback :: rest =>
      intro hq hcb
      exact (List.mem_cons.mp (h hq hcb)).resolve_left (by simp)
  | throw => exact absurd hret id

theorem start_ordered {k : ℕ} {ua : UA} (hqueue : ua.equeue = []) (hpending : ua.pending = [])
    (hlast : ua.elastSeq = none) : Ordered k (.start ua) where
  last := by simp [Mach.start, hlast]
  queued := by simp [Mach.start, hqueue]
  awaited := by simp [Mach.start, UA.awaited, hpending]
  emitted := by simp [Mach.start]
  answers := by simp [Mach.start, UA.awaited, hpending, hqueue]

/-- An answer whose SDP update is complete stays in the queue until it is handed over, and
it is handed over when the user agent has nothing left to do, unless the call has ended. -/
theorem answer_delivered {ua : UA} {ls ls' : List Label} {p : Pending} {body : Body} {io : Io}
    (hqueue : ua.equeue = []) (hpending : ua.pending = []) (hlast : ua.elastSeq = none)
    (horderly : Along Mach.step (Orderly p.event.seq) (.start ua) (ls ++ .input (.sdpUpdated p body) io :: ls'))
    (hidle : (run Mach.step (.start ua) ls).idle)
    (hp : p ∈ (run Mach.step (.start ua) ls).ua.pending) (hr : p.remote = true)
    (hans : p.event.answer) :
    let m₁ := run Mach.step (.start ua) ls
    let m := run Mach.step m₁ (.input (.sdpUpdated p body) io :: ls')
    Kept (p.event.withBody body) m ∧
      (Along Mach.step Returns m₁ (.input (.sdpUpdated p body) io :: ls') → m.todo = [] →
        m.ua.eventCb = true → Delivered m.log (p.event.withBody body) ∨ Ended m.log) := by
  intro m₁ m
  obtain ⟨hbefore, hafter⟩ := Lib.along_append.mp horderly
  have hm₁ : Ordered p.event.seq m₁ :=
    hbefore.invariant (fun _ _ hok h => h.step hok) (start_ordered hqueue hpending hlast)
  have hposs : (Input.sdpUpdated p body).possible m₁.ua := by simpa [Input.possible] using hp
  have hstep : m₁.step (.input (.sdpUpdated p body) io) =
      m₁.exec io m₁.todo (Input.sdpUpdated p body).run := by
    rw [Mach.step_input, if_pos (Bool.and_eq_true_iff.mpr ⟨hidle, hposs⟩)]
  have hstart : Kept (p.event.withBody body) (m₁.step (.input (.sdpUpdated p body) io)) := by
    rw [hstep, exec_sdpUpdated hr]
    exact .inl (by simp [UA.completed])
  have hkept : Kept (p.event.withBody body) m := by
    have hboth := hafter.2.invariant (I := fun m => Ordered p.event.seq m ∧ Kept (p.event.withBody body) m)
      (fun _ _ hok h => ⟨h.1.step hok, h.2.step h.1 (by rwa [answer_withBody])⟩)
      ⟨hm₁.step hafter.1, hstart⟩
    exact hboth.2
  refine ⟨hkept, fun hreturns htodo hcb => ?_⟩
  have hdrains : Drains m := hreturns.2.invariant (fun _ _ hok h => h.step hok) (by
    rw [hstep, exec_sdpUpdated hr]
    exact fun _ _ => List.mem_cons_self)
  rcases hkept with h | h
  · exact absurd (hdrains (List.ne_nil_of_mem h) hcb) (by simp [htodo])
  · exact h

section Overtaken

/-- A call with SDP callbacks that was answered; the SDP of the answer is awaited. -/
def answeredCall : List Label :=
  [.input (.event ⟨.setup ⟨none, none, some ['1'], some (sampleBody ['x']), none, none⟩ none, 0,
     none, 9, none⟩) .calm,
   .tau .calm,
   .input (.response { Response.bare 200 .invite 1 with body := some (sampleBody ['y']) } []) .calm,
   .tau .calm]

def sdpCaller : UA := { UA.new with rAddr0 := some ((['f'], 5060), ['u']), onRemote := true }

def awaitedAnswer : Pending :=
  ⟨true, ⟨.connect (.num 200) [] (some (sampleBody ['y'])), 0, some .callee, 0, none⟩⟩

/-- Nothing overtakes the answer. -/
theorem answer_delivered_alone :
    let m := run Mach.step (.start sdpCaller)
      (answeredCall ++ .input (.sdpUpdated awaitedAnswer (sampleBody ['z'])) .calm ::
        [.tau .calm, .ret, .tau .calm])
    Delivered m.log (awaitedAnswer.event.withBody (sampleBody ['z'])) ∨ Ended m.log := by
  have h := @answer_delivered sdpCaller answeredCall [.tau .calm, .ret, .tau .calm] awaitedAnswer
    (sampleBody ['z']) .calm rfl rfl rfl (by decide) (by decide) (by decide) rfl rfl
  exact h.2 (by decide) (by decide) (by decide)

/-- An INFO that comes before the SDP update is complete. -/
theorem info_overtakes_answer :
    let m₁ := run Mach.step (.start sdpCaller) (answeredCall ++
      [.input (.request (.bare .info 1)) .calm, .tau .calm, .ret, .tau .calm])
    let m := run Mach.step m₁
      [.input (.sdpUpdated awaitedAnswer (sampleBody ['z'])) .calm, .tau .calm, .tau .calm]
    awaitedAnswer ∈ m₁.ua.pending ∧ m.todo = [] ∧ m.ua.eventCb = true ∧
      ¬ Delivered m.log (awaitedAnswer.event.withBody (sampleBody ['z'])) ∧ ¬ Ended m.log := by
  decide

end Overtaken
end SippyB2bua.Ua
