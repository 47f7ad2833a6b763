import SippyB2bua.Ua.Method

/-!
# What a step is

A step of a user agent runs a method, completes the SDP update of an event from the far
end, hands an event over, or does nothing but bookkeeping. What holds of each of the four
holds of every step, and so of every run.
-/

namespace SippyB2bua.Ua

/-- The event that the next step hands over or drops, and the events left in the queue. -/
def Mach.handing (m : Mach) : Option (CCEvent × List CCEvent) :=
  match m.ua.eventCb, m.todo, m.ua.equeue with
  | true, .emitPending :: _, e :: es => some (e, es)
  | true, .emitEvent e :: _, es => some (e, es)
  | _, _, _ => none

def UA.Stale (ua : UA) (e : CCEvent) : Prop := ∃ n ∈ ua.elastSeq, e.seq ≤ n

instance (ua : UA) (e : CCEvent) : Decidable (ua.Stale e) := by
  unfold UA.Stale
  infer_instance

def UA.settled (ua : UA) (es : List CCEvent) (n : ℕ) (cb : Option CancelFn) : UA :=
  { ua with equeue := es, noackCbs := n, cancelCb := cb }

def UA.handed (ua : UA) (d : CCEvent) (es : List CCEvent) : UA :=
  { ua with equeue := es, elastSeq := some d.seq }

def UA.awaiting (ua : UA) (ps : List Pending) : UA := { ua with pending := ps }

/-- After the SDP update of an event from the far end. -/
def UA.completed (ua : UA) (p : Pending) (body : Body) : UA :=
  { ua with
    pending := ua.pending.erase p, rSDP := some body.getCopy
    equeue := ua.equeue ++ [p.event.withBody body] }

def UA.cancels (ua : UA) (cb : Option CancelFn) : Prop :=
  cb = ua.cancelCb ∨ cb = none ∨ cb = some (ua.state.elim .generic cancelFn)

def Todo.input : Todo → Option Input
  | .recvEvent e => some (.event e)
  | _ => none

def Label.method (m : Mach) : Label → Option Input
  | .input i _ => some i
  | .tau _ => m.todo.head?.bind Todo.input
  | _ => none

def Label.io : Label → Option Io
  | .input _ io | .tau io => some io
  | _ => none

theorem method_cases {m : Mach} {l : Label} {i : Input} (h : l.method m = some i) :
    (∃ io, l = .input i io) ∨
      ∃ e io rest, l = .tau io ∧ i = .event e ∧ m.todo = .recvEvent e :: rest := by
  cases l with
  | input i' io => exact .inl ⟨io, by rw [Option.some.inj h]⟩
  | tau io =>
    cases ht : m.todo with
    | nil => simp [Label.method, ht] at h
    | cons t rest =>
      cases t with
      | recvEvent e =>
        obtain rfl : .event e = i := by simpa [Label.method, ht, Todo.input] using h
        exact .inr ⟨e, io, rest, rfl, rfl, rfl⟩
      | emitPending | emitEvent | accepted | callback => simp [Label.method, ht, Todo.input] at h
  | ret => cases h
  | throw => cases h

section Emit
variable {m : Mach} {d : CCEvent} {rest : List Todo}

theorem emit_stale (h : m.ua.Stale d) : m.emit d rest = { m with todo := rest } := if_pos h

theorem emit_fresh (h : ¬ m.ua.Stale d) :
    m.emit d rest = ⟨m.ua.handed d m.ua.equeue, m.seq, .callback :: rest, m.log ++ [.event d]⟩ := if_neg h

theorem tau_emitEvent {io : Io} (ht : m.todo = .emitEvent d :: rest) (hcb : m.ua.eventCb = true) :
    m.tau io = m.emit d rest := by
  unfold Mach.tau
  split <;> simp_all

theorem tau_emitPending {io : Io} {es : List CCEvent} (ht : m.todo = .emitPending :: rest)
    (hcb : m.ua.eventCb = true) (hq : m.ua.equeue = d :: es) :
    m.tau io = { m with ua := { m.ua with equeue := es } }.emit d m.todo := by
  unfold Mach.tau
  split
  case h_3 =>
    split
    · rename_i hq' _
      obtain ⟨rfl, rfl⟩ := List.cons.inj (hq.symm.trans hq')
      rfl
    · rename_i hno
      exact absurd hcb (hno _ _ hq)
  all_goals simp_all

theorem handing_mem {es : List CCEvent} (h : m.handing = some (d, es)) :
    m.ua.eventCb ∧ es <:+ m.ua.equeue ∧ (∀ e ∈ m.ua.equeue, e ∈ es ∨ e = d) ∧
      (d ∈ m.ua.equeue ∨ .emitEvent d ∈ m.todo) := by
  unfold Mach.handing at h
  split at h
  · rename_i hcb _ hq
    cases h
    exact ⟨hcb, hq ▸ List.suffix_cons _ _, fun e he => (List.mem_cons.mp (hq ▸ he)).symm,
      .inl (hq ▸ List.mem_cons_self)⟩
  · rename_i hcb ht
    cases h
    exact ⟨hcb, List.suffix_rfl, fun e he => .inl he, .inr (ht ▸ List.mem_cons_self)⟩
  · cases h

end Emit

/-- The machine after the SDP update of an event from the far end is complete. -/
theorem exec_sdpUpdated {m : Mach} {io : Io} {rest : List Todo} {p : Pending} {body : Body}
    (hr : p.remote = true) :
    m.exec io rest (Input.sdpUpdated p body).run =
      ⟨m.ua.completed p body, m.seq + io.skip, .emitPending :: rest, m.log⟩ := by
  obtain ⟨remote, event⟩ := p
  cases hr
  exact congrArg (Mach.mk _ _ _) (List.append_nil m.log)

theorem Mach.step_cases (m : Mach) (l : Label) :
    (∃ i io rest, l.method m = some i ∧ (∀ t ∈ rest, t ∈ m.todo) ∧
      i.possible m.ua ∧ l.io = some io ∧
      m.step l = m.exec io rest i.run) ∨
    (∃ io d es todo, l = .tau io ∧ m.handing = some (d, es) ∧ ¬ m.ua.Stale d ∧
      (∀ t ∈ todo, t ∈ m.todo) ∧
      m.step l = ⟨m.ua.handed d es, m.seq, .callback :: todo, m.log ++ [.event d]⟩) ∨
    ∃ es n cb todo, es <:+ m.ua.equeue ∧ (∀ e ∈ m.ua.equeue, e ∈ es ∨ m.ua.Stale e) ∧
      (∀ t ∈ todo, t ∈ m.todo) ∧ m.ua.cancels cb ∧ m.step l = ⟨m.ua.settled es n cb, m.seq, todo, m.log⟩ := by
  obtain ⟨ua, seq, todo, log⟩ := m
  have hstay {m' : Mach} (rest : List Todo) (h : ∀ t ∈ rest, t ∈ todo) (hm : m' = ⟨ua, seq, rest, log⟩) :
      ∃ es n cb todo', es <:+ ua.equeue ∧ (∀ e ∈ ua.equeue, e ∈ es ∨ ua.Stale e) ∧
        (∀ t ∈ todo', t ∈ todo) ∧ ua.cancels cb ∧ m' = ⟨ua.settled es n cb, seq, todo', log⟩ :=
    ⟨ua.equeue, ua.noackCbs, ua.cancelCb, rest, List.suffix_rfl, fun _ => .inl, h, .inl rfl, hm⟩
  have hreturn (hl : l = .ret ∨ l = .throw) := @Mach.step_return ⟨ua, seq, todo, log⟩ l hl
  cases l with
  | input i io =>
    rw [Mach.step_input]
    split
    · rename_i hi
      have hposs : i.possible ua := (Bool.and_eq_true_iff.mp hi).2
      exact .inl ⟨i, io, todo, rfl, fun _ h => h, hposs, rfl, rfl⟩
    · exact .inr (.inr (hstay todo (fun _ h => h) rfl))
  | ret =>
    obtain ⟨todo', h, hmem⟩ := hreturn (.inl rfl)
    exact .inr (.inr (hstay todo' hmem h))
  | throw =>
    obtain ⟨todo', h, hmem⟩ := hreturn (.inr rfl)
    exact .inr (.inr (hstay todo' hmem h))
  | tau io =>
    match todo with
    | [] => exact .inr (.inr (hstay _ (by simp) rfl))
    | .callback :: rest => exact .inr (.inr (hstay _ (by simp) rfl))
    | .recvEvent e :: rest =>
      exact .inl ⟨.event e, io, rest, rfl, fun _ => List.mem_cons_of_mem _, rfl, rfl, rfl⟩
    | .accepted :: rest =>
      refine .inr (.inr ⟨ua.equeue, _, _, rest, List.suffix_rfl, fun _ => .inl,
        fun _ => List.mem_cons_of_mem _, .inr ?_, rfl⟩)
      dsimp only
      split
      · exact .inl rfl
      · exact .inr rfl
    | .emitEvent e :: rest =>
      have hrest : ∀ t ∈ rest, t ∈ Todo.emitEvent e :: rest := fun _ => List.mem_cons_of_mem _
      cases hcb : ua.eventCb with
      | false => exact .inr (.inr (hstay rest hrest (by simp [Mach.step, Mach.tau, hcb])))
      | true =>
        have htau := @tau_emitEvent ⟨ua, seq, .emitEvent e :: rest, log⟩ e rest io rfl hcb
        by_cases hold : ua.Stale e
        · exact .inr (.inr (hstay rest hrest (htau.trans (emit_stale hold))))
        · exact .inr (.inl ⟨io, e, ua.equeue, rest, rfl, by simp [Mach.handing, hcb], hold, hrest,
            htau.trans (emit_fresh hold)⟩)
    | .emitPending :: rest =>
      have hrest : ∀ t ∈ rest, t ∈ Todo.emitPending :: rest := fun _ => List.mem_cons_of_mem _
      cases hcb : ua.eventCb with
      | false => exact .inr (.inr (hstay rest hrest (by simp [Mach.step, Mach.tau, hcb])))
      | true =>
        cases hq : ua.equeue with
        | nil => exact .inr (.inr (hq ▸ hstay rest hrest (by simp [Mach.step, Mach.tau, hcb, hq])))
        | cons e es =>
          have htau := @tau_emitPending ⟨ua, seq, .emitPending :: rest, log⟩ e rest io es rfl hcb hq
          by_cases hold : ua.Stale e
          · refine .inr (.inr ⟨es, ua.noackCbs, ua.cancelCb, .emitPending :: rest, List.suffix_cons e es,
              fun e' he' => ?_, by simp, .inl rfl, htau.trans (emit_stale hold)⟩)
            rcases List.mem_cons.mp he' with rfl | he'
            · exact .inr hold
            · exact .inl he'
          · exact .inr (.inl ⟨io, e, es, .emitPending :: rest, rfl, by simp [Mach.handing, hcb, hq], hold,
              by simp, htau.trans (emit_fresh hold)⟩)

/-- What a step from the machine to another one is, as far as the limits go. -/
inductive Stepped (lim : Limits) (loud : Prop) (m : Mach) (l : Label) : Mach → Prop
  /-- A method was run, of a user agent that may have one SDP update less. -/
  | method (ps : List Pending) (q : List CCEvent) (m' : Mach) (hps : ps.Sublist m.ua.pending)
      (hg : Grown lim q { m with ua := m.ua.awaiting ps } m')
      (silent : m.ua.isOver → ¬ loud → q = [] ∧
        ∀ e, .emitEvent e ∈ m'.todo → .emitEvent e ∈ m.todo) : Stepped lim loud m l m'
  | completed (p : Pending) (body : Body) (io : Io) (rest : List Todo)
      (hl : l = .input (.sdpUpdated p body) io) (hr : p.remote = true) (hp : p ∈ m.ua.pending)
      (hrest : ∀ t ∈ rest, t ∈ m.todo) :
      Stepped lim loud m l ⟨m.ua.completed p body, m.seq + io.skip, .emitPending :: rest, m.log⟩
  | handed (io : Io) (d : CCEvent) (es : List CCEvent) (todo : List Todo) (hl : l = .tau io)
      (hd : m.handing = some (d, es)) (hnew : ¬ m.ua.Stale d) (htodo : ∀ t ∈ todo, t ∈ m.todo) :
      Stepped lim loud m l ⟨m.ua.handed d es, m.seq, .callback :: todo, m.log ++ [.event d]⟩
  | settled (es : List CCEvent) (n : ℕ) (cb : Option CancelFn) (todo : List Todo)
      (hes : es <:+ m.ua.equeue) (hdrop : ∀ e ∈ m.ua.equeue, e ∈ es ∨ m.ua.Stale e)
      (htodo : ∀ t ∈ todo, t ∈ m.todo) (hcb : m.ua.cancels cb) :
      Stepped lim loud m l ⟨m.ua.settled es n cb, m.seq, todo, m.log⟩

variable {lim : Limits} {loud : Prop}

theorem Mach.stepped (hA : lim.Wide) (m : Mach) (l : Label)
    (hinv : ∀ i ∈ l.method m, i.invites m.ua → ∀ r, lim.act (.request r))
    (hawaits : ∀ i ∈ l.method m, ∀ e, i.dispatch = some (.event e) → e.final = false → lim.awaits e)
    (hspares : ∀ i ∈ l.method m, ∀ d ∈ i.dispatch, Spares lim m.ua d)
    (hloud : ∀ i ∈ l.method m, i.loud m.ua → loud) : Stepped lim loud m l (m.step l) := by
  obtain ⟨i, io, rest, hi, hrest, hposs, hio, h⟩ | ⟨io, d, es, todo, hl, hd, hnew, htodo, h⟩ |
    ⟨es, n, cb, todo, hes, hdrop, htodo, hcb, h⟩ := m.step_cases l
  · by_cases hr : ∀ p body, i = .sdpUpdated p body → p.remote = false
    · obtain ⟨m₁, prog, hm₁, hworks, -, hexec⟩ := exec_input hA loud m io hr (hinv i hi) (hawaits i hi)
        (hspares i hi) (hloud i hi)
      rw [h, hexec]
      obtain rfl | ⟨p, rfl⟩ := hm₁
      · obtain ⟨q, hg, hsilent⟩ := exec_grown m₁ io hrest hworks
        exact .method m₁.ua.pending q _ (List.Sublist.refl _) hg hsilent
      · obtain ⟨q, hg, hsilent⟩ := exec_grown { m with ua := m.ua.resolved p } io hrest hworks
        exact .method (m.ua.pending.erase p) q _ List.erase_sublist hg hsilent
    · push Not at hr
      obtain ⟨p, body, rfl, hr⟩ := hr
      have hr : p.remote = true := by simpa using hr
      rw [h, exec_sdpUpdated hr]
      obtain ⟨io', rfl⟩ | ⟨e, io', rest', -, he, -⟩ := method_cases hi
      · obtain rfl : io' = io := Option.some.inj hio
        exact .completed p body _ rest rfl hr (by simpa [Input.possible] using hposs) hrest
      · cases he
  · exact h ▸ .handed io d es todo hl hd hnew htodo
  · exact h ▸ .settled es n cb todo hes hdrop htodo hcb

end SippyB2bua.Ua
