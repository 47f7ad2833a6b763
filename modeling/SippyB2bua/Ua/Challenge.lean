import SippyB2bua.Ua.Terminated

/-!
# How often a call is placed

An event of the other side makes a user agent send one INVITE, at once or when the SDP
of the event is complete, and a challenge that can be answered makes it send one more.
`Costs` counts the two things an event can turn into, an INVITE or an SDP update that is
waited for. As long as no kind of challenge is answered twice there are three INVITEs
at most; an answer to the other kind of challenge drops the earlier credentials, so that
the kinds can take turns for ever.
-/

namespace SippyB2bua.Ua
open Lib (Text wp wp_mono wp_bind Keeps run Along)

def CCEvent.calls (n : ℕ) (e : CCEvent) : Bool := e.seq = n && e.kind.invites

def UA.waits (n : ℕ) (ua : UA) : ℕ := ua.pending.countP fun p => !p.remote && p.event.calls n

def load (n : ℕ) (w : World) : ℕ := w.log.countP Act.isInvite + w.ua.waits n

/-- The program sends INVITEs and starts updates `k` times at most. -/
def Costs {α : Type} (n k : ℕ) (p : M α) : Prop := Keeps (fun w w' => load n w' ≤ load n w + k) p

namespace Costs
variable {α β : Type} {n k j : ℕ} {w w' : World}

theorem pure (a : α) : Costs n k (pure a : M α) := fun _ => Nat.le_add_right _ _

theorem throw (e : Raised) : Costs n k (throw e : M α) := fun _ => Nat.le_add_right _ _

theorem raise (e : Exn) : Costs n k (Ua.raise e : M α) := throw _

theorem bind {p : M β} {f : β → M α} (hp : Costs n k p) (hf : ∀ b, Costs n j (f b)) :
    Costs n (k + j) (p >>= f) := by
  intro w
  rw [wp_bind]
  refine wp_mono (hp w) (fun b w' h => ?_) fun _ w' h => by omega
  exact wp_mono (hf b w') (fun _ _ h' => by omega) fun _ _ h' => by omega

theorem mono {p : M α} (h : Costs n k p) (hkj : k ≤ j) : Costs n j p :=
  fun w => wp_mono (h w) (fun _ _ h => by omega) fun _ _ h => by omega

theorem next {p : M β} {f : β → M α} (hp : Costs n 0 p) (hf : ∀ b, Costs n k (f b)) :
    Costs n k (p >>= f) := by simpa using hp.bind hf

theorem before {p : M β} {f : β → M α} (hp : Costs n k p) (hf : ∀ b, Costs n 0 (f b)) :
    Costs n k (p >>= f) := hp.bind hf

theorem get {f : World → M α} (hf : ∀ w, Costs n k (f w)) : Costs n k (get >>= f) := fun w => hf w w

theorem getUA {f : UA → M α} (hf : ∀ ua, Costs n k (f ua)) : Costs n k (Ua.getUA >>= f) :=
  fun w => hf w.ua w

theorem ite {c : Prop} [Decidable c] {p q : M α} (hp : Costs n k p) (hq : Costs n k q) :
    Costs n k (if c then p else q) := by
  split
  · exact hp
  · exact hq

theorem tryCatch {p : M α} {h : Raised → M α} (hp : Costs n k p) (hh : ∀ e, Costs n j (h e)) :
    Costs n (k + j) (tryCatch p h) := by
  intro w
  rw [Lib.wp_tryCatch]
  refine wp_mono (hp w) (fun _ w' h => by omega) fun e w' h => ?_
  exact wp_mono (hh e w') (fun _ _ h' => by omega) fun _ _ h' => by omega

theorem upd {f : UA → UA} (hf : ∀ ua, (f ua).pending = ua.pending) : Costs n 0 (upd f) := by
  intro w
  simp [load, UA.waits, hf]

theorem call {a : Act} : Costs n 1 (call a) := by
  intro w
  rw [wp_call]
  split
  · exact Nat.le_add_right _ _
  · have : List.countP Act.isInvite [a] ≤ 1 := List.countP_le_length
    simp only [load, List.countP_append]
    omega

theorem calm_call {a : Act} (ha : a.isInvite = false) : Costs n 0 (Ua.call a) := by
  intro w
  rw [wp_call]
  split
  · exact Nat.le_add_right _ _
  · simp [load, ha]

theorem calm_act {a : Act} (ha : a.isInvite = false) : Costs n 0 (act a) := by
  intro w
  simp [load, ha]

theorem newEvent {kind : Kind} {t : Time} {o : Option Origin} : Costs n 0 (newEvent kind t o) :=
  fun _ => Nat.le_add_right _ _

theorem enqueue {e : CCEvent} : Costs n 0 (enqueue e) := fun _ => Nat.le_add_right _ _

theorem ofLazy {x : Lazy α} : Costs n 0 (ofLazy x) := by
  intro w
  rw [wp_ofLazy]
  split <;> exact Nat.le_add_right _ _

theorem onSdpChange {remote : Bool} {e : CCEvent} : Costs n 1 (onSdpChange remote e) := by
  intro w
  rw [wp_onSdpChange]
  split
  · exact Nat.le_add_right _ _
  · exact Nat.le_add_right _ _
  · have : List.countP (fun p : Pending => !p.remote && p.event.calls n) [⟨remote, e⟩] ≤ 1 :=
      List.countP_le_length
    simp only [load, UA.waits, List.countP_append]
    omega

theorem genRequest {method : Method} {body : Option Body} {cqop : Cqop} {hs : List Header}
    {mf : Option ℤ} : Costs n 0 (genRequest method body cqop hs mf) := by
  refine getUA fun ua => ?_
  dsimp only
  cases cqop with
  | none => exact next (pure _) fun _ => next (upd fun _ => rfl) fun _ => pure _
  | pair c => exact next (pure _) fun _ => next (upd fun _ => rfl) fun _ => pure _
  | bare c => exact next (raise _) fun _ => next (upd fun _ => rfl) fun _ => pure _

theorem newUacTransaction {req : SentRequest} : Costs n 1 (newUacTransaction req) :=
  before call fun _ => upd fun _ => rfl

end Costs

section Handlers
variable {n : ℕ} {e : CCEvent}

theorem leaveState_costs : Costs n 0 leaveState := by
  refine .getUA fun ua => .ite ?_ (.pure _)
  refine .next (.getUA fun ua => .ite (.next (.calm_call rfl) fun _ => .upd fun _ => rfl) (.pure _))
    fun _ => ?_
  refine .next (.getUA fun ua => .ite (.next (.calm_call rfl) fun _ => .upd fun _ => rfl) (.pure _))
    fun _ => ?_
  exact .upd fun _ => rfl

theorem construct_costs (s : UaState) : Costs n 0 (construct s) := by
  cases s with
  | dead =>
    refine .next (.getUA fun _ => .ite (.calm_act rfl) (.pure _)) fun _ => .next (.upd fun _ => rfl) fun _ => ?_
    exact .getUA fun _ => .next (.ite (.calm_call rfl) (.pure _)) fun _ => .upd fun _ => rfl
  | connected | uacCancelling | failed | disconnected => exact .upd fun _ => rfl
  | uasIdle | uasTrying | uasRinging | uasUpdating | uacIdle | uacTrying | uacRinging | uacUpdating =>
    exact .pure _

theorem changeState_costs (c : Change) : Costs n 0 (changeState c) := by
  refine .next leaveState_costs fun _ => .next (construct_costs c.state) fun _ => ?_
  refine .next (.upd fun _ => rfl) fun _ => ?_
  cases c.callback with
  | none => exact .pure _
  | some cb => exact .calm_call rfl

theorem finish_costs (ret : Ret) (rest : List Todo) : Costs n 0 (finish ret rest) := by
  cases ret with
  | none => exact .pure _
  | change c => exact .next (changeState_costs c) fun _ => .pure _
  | inject e => exact .pure _
  | code c => exact .raise _
  | scode c => exact .raise _

theorem delayed_costs {α : Type} {body : Option Body} {a : α} {p : M α} (hp : Costs n 1 p) :
    Costs n 1 (do
      if ← UasStateGeneric.delayLocalSdpUpdate e body then return a
      p) := by
  intro w
  rw [wp_bind, wp_delayLocalSdpUpdate]
  split
  · exact wp_mono (Costs.onSdpChange w) (fun _ _ h => h) fun _ _ h => h
  · exact hp w

theorem armFirst_costs : Costs n 0 UasStateIdle.armFirst :=
  .getUA fun _ => .ite (.upd fun _ => rfl) (.getUA fun _ => .ite (.upd fun _ => rfl) (.pure _))

theorem setup_costs {data : Setup} {mf : Option ℤ} : Costs n 1 (UacStateIdle.setup e data mf) := by
  have htarget : Costs n 0 (UacStateIdle.setTarget data.cld) := by
    refine .getUA fun ua => ?_
    split
    · exact .raise _
    · exact .upd fun _ => rfl
  have hpass (req : SentRequest) : Costs n 0 (UacStateIdle.passAuth req data.auth) := by
    refine .getUA fun ua => ?_
    split
    · exact .next (.upd fun _ => rfl) fun _ => .pure _
    · exact .pure _
  have harm : Costs n 0 (UacStateIdle.armSetupTimers e.rtime) := by
    refine .next (.next (.upd fun ua => ?_) fun _ => .upd fun ua => ?_) fun _ =>
      .next (.upd fun _ => rfl) fun _ => .getUA fun ua => ?_
    · split <;> rfl
    · split <;> rfl
    · split
      · exact .upd fun _ => rfl
      · exact armFirst_costs
  refine .next (.upd fun _ => rfl) fun _ => delayed_costs ?_
  refine .next (.upd fun _ => rfl) fun _ => .get fun w => .next (.upd fun _ => rfl) fun _ => ?_
  refine .next (.calm_act rfl) fun _ => .next htarget fun _ => .get fun w => ?_
  refine .next (.upd fun _ => rfl) fun _ => .next (.upd fun _ => rfl) fun _ => ?_
  refine .next .genRequest fun req => .next (hpass req) fun req => ?_
  exact Costs.newUacTransaction.before fun _ => .next harm fun _ => .pure _

theorem refuse_costs {scode : ℤ} {reason : Text} {why : Option Text} {warning : Option Header} :
    Costs n 0 (UaStateConnected.refuse e scode reason why warning) :=
  .next .newEvent fun _ => .next .enqueue fun _ => .pure _

theorem recvEventUpdate_costs {body : Option Body} {mf : Option ℤ} :
    Costs n 1 (UaStateConnected.recvEventUpdate e body mf) := by
  refine .getUA fun ua => ?_
  split
  · exact .raise _
  · exact .raise _
  · refine .ite (.next .newEvent fun _ => .next .enqueue fun _ => .pure _) (.ite ?_ (.ite ?_ ?_))
    · have hdelay : Costs n 1 (discard <| onSdpChange false e) :=
        fun w => (Lib.wp_discard _).mpr (Costs.onSdpChange w)
      exact Costs.tryCatch (hdelay.before fun _ => .pure _) fun ex =>
        .ite refuse_costs (.get fun _ => refuse_costs)
    · exact refuse_costs.mono (Nat.zero_le _)
    · refine .next .genRequest fun req => .next (.upd fun _ => rfl) fun _ => ?_
      exact Costs.newUacTransaction.before fun _ => .pure _

theorem stateRecvEvent_costs (s : UaState) (he : e.kind.invites) : Costs n 1 (stateRecvEvent s e) := by
  have hfinal : e.final = false := by
    cases hk : e.kind <;> simp_all [CCEvent.final, Kind.invites]
  have hnone : Costs n 1 (pure .none : M Ret) := .pure _
  cases s with
  | uacIdle =>
    simp only [stateRecvEvent, UacStateIdle.recvEvent]
    split
    · exact setup_costs
    · simpa [hfinal] using hnone
  | connected =>
    simp only [stateRecvEvent, UaStateConnected.recvEvent]
    split <;> simp_all [Kind.invites]
    exact recvEventUpdate_costs
  | uacTrying | uacRinging | uacUpdating =>
    simpa [stateRecvEvent, UacStateTrying.recvEvent, UacStateRinging.recvEvent,
      UacStateUpdating.recvEvent, hfinal] using hnone
  | uasTrying | uasRinging | uasUpdating =>
    simp only [stateRecvEvent, UasStateTrying.recvEvent, UasStateRinging.recvEvent,
      UasStateUpdating.recvEvent]
    split <;> simp_all [Kind.invites]
  | uasIdle | uacCancelling | failed | disconnected | dead => exact hnone

/-- An event that is given to a user agent turns into an INVITE or an update, or into nothing. -/
theorem recvEvent_costs (he : e.kind.invites) : Costs n 1 (UA.recvEvent e) := by
  have hwake : Costs n 0 (UA.wake (UA.wakes e) .uacIdle) :=
    .getUA fun ua => .ite (changeState_costs _) (.pure _)
  refine .next hwake fun _ => .getUA fun ua => ?_
  split
  · exact .pure _
  · exact (stateRecvEvent_costs _ he).before fun ret => finish_costs ret _

theorem challenged_costs {resp : Response} {hs : List Header} : Costs n 1 (UA.challenged resp hs) := by
  have hprocess {cs : List (Lazy Challenge)} {name : Text} {sent : SentRequest} :
      Costs n 1 (UA.processChallenge cs resp.cseq name sent hs) := by
    refine .getUA fun ua => .ite (.pure _) (.next .ofLazy fun cs => ?_)
    split
    · exact .pure _
    · refine .next .genRequest fun req => Costs.newUacTransaction.before fun _ => ?_
      exact .next (.upd fun _ => rfl) fun _ => .pure _
  refine .getUA fun ua => ?_
  split
  · exact .pure _
  · exact .ite (.ite hprocess (.ite hprocess (.pure _))) (.pure _)

end Handlers

section Methods
variable {n : ℕ} {w w' : World} {q : List CCEvent}

abbrev steady (n : ℕ) : Limits :=
  { Limits.only (·.isInvite = false) with awaits := fun e => e.calls n = false }

theorem waits_append {ua ua' : UA} {ps : List Pending} (h : ua'.pending = ua.pending ++ ps)
    (hps : ∀ p ∈ ps, p.remote = false → p.event.calls n = false) : ua'.waits n = ua.waits n := by
  have hzero : ps.countP (fun p => !p.remote && p.event.calls n) = 0 := by
    refine List.countP_eq_zero.mpr fun p hp => ?_
    cases hr : p.remote <;> simp_all
  rw [UA.waits, UA.waits, h, List.countP_append, hzero, Nat.add_zero]

theorem Grows.load (h : Grows (steady n) q w w') : load n w' = load n w := by
  obtain ⟨l, hl, ha⟩ := h.log
  obtain ⟨ps, hps, hp⟩ := h.pending
  have hzero : l.countP Act.isInvite = 0 := List.countP_eq_zero.mpr fun a h => ne_true_of_eq_false (ha a h)
  rw [Ua.load, Ua.load, hl, List.countP_append, hzero, waits_append hps fun p h => (hp p h).2, Nat.add_zero]

theorem Works.costs {loud : Prop} {p : M (List Todo)} (h : Works (steady n) loud w p) :
    wp p (fun _ w' => Ua.load n w' = Ua.load n w) (fun _ w' => Ua.load n w' = Ua.load n w) w := by
  refine wp_mono h (fun _ _ h => ?_) fun _ _ h => ?_
  · obtain ⟨q, h⟩ := h
    exact h.grows.load
  · obtain ⟨q, h⟩ := h
    exact h.grows.load

theorem steady_wide : (steady n).Wide := fun _ h => h.2

theorem spares_steady {ua : UA} {d : Dispatch} : Spares (steady n) ua d :=
  fun _ _ => ⟨False.elim, False.elim⟩

/-- A response makes the user agent send an INVITE only if it is a challenge. -/
theorem recvResponse_costs {resp : Response} {hs : List Header} :
    wp (UA.recvResponse resp hs)
      (fun _ w' => Ua.load n w' ≤ Ua.load n w + if w.ua.answers resp then 1 else 0)
      (fun _ w' => Ua.load n w' ≤ Ua.load n w + if w.ua.answers resp then 1 else 0) w := by
  by_cases hans : w.ua.answers resp
  · simp only [hans, if_true]
    unfold UA.recvResponse
    rw [wp_bind, wp_getUA]
    split
    · exact Nat.le_add_right _ _
    · exact Nat.le_add_right _ _
    · rename_i s _ hs'
      have hch : wp (UA.challenged resp hs) (fun b w' => b = false → w' = w) (fun _ _ => True) w :=
        wp_mono (@challenged_grows (.only fun _ => True) _ _ _ fun _ _ => trivial)
          (fun _ _ h => h.2.1) fun _ _ _ => trivial
      rw [wp_bind]
      refine wp_mono (Lib.wp_and (challenged_costs w) hch) (fun b w' h => ?_) fun _ _ h => h.1
      obtain ⟨hload, hb⟩ := h
      split
      · exact hload
      · obtain rfl := hb (Bool.eq_false_of_not_eq_true ‹_›)
        have hworks := @unchallenged_method (steady n) _ True steady_wide _ resp hs' spares_steady
        exact wp_mono hworks.costs (fun _ _ h => h.le.trans (Nat.le_succ _))
          fun _ _ h => h.le.trans (Nat.le_succ _)
  · simp only [hans, Bool.false_eq_true, if_false]
    refine wp_mono (Works.costs (@recvResponse_method _ _ True steady_wide _ _ (by simp [hans])
      spares_steady)) (fun _ _ h => h.le) fun _ _ h => h.le

end Methods
section Runs
variable {n : ℕ} {m : Mach}

def Act.inviteCSeq : Act → Option ℤ
  | .request r => if r.method = .invite then some r.cseq else none
  | _ => none

def invitesOf (log : List Act) : List ℤ := log.filterMap Act.inviteCSeq

theorem invitesOf_length (log : List Act) : (invitesOf log).length = log.countP Act.isInvite := by
  induction log with
  | nil => rfl
  | cons a log ih =>
    have ha : a.inviteCSeq.isSome = a.isInvite := by
      cases a with
      | request r => by_cases h : r.method = .invite <;> simp [Act.inviteCSeq, Act.isInvite, h]
      | _ => rfl
    rw [List.countP_cons, ← ih, ← ha, invitesOf, invitesOf, List.filterMap_cons]
    cases a.inviteCSeq <;> simp

/-- The INVITEs that an event has caused, and the challenges that were answered for it. -/
structure Cause where
  sent : List ℤ
  kinds : List ℤ

/-- What a step adds to it: the INVITEs sent for the event itself, for its SDP update that is
complete, or for a response to an INVITE that it has caused. -/
def Cause.after (n : ℕ) (m : Mach) (c : Cause) (l : Label) : Cause :=
  let new := invitesOf ((m.step l).log.drop m.log.length)
  match l with
  | .input (.event e) _ => if e.calls n then { c with sent := c.sent ++ new } else c
  | .input (.sdpUpdated p _) _ =>
    if !p.remote && p.event.calls n then { c with sent := c.sent ++ new } else c
  | .input (.response resp _) _ =>
    if resp.cseq ∈ c.sent then
      ⟨c.sent ++ new, if new = [] then c.kinds else c.kinds ++ [resp.scode]⟩
    else c
  | _ => c

def follow (n : ℕ) (s : Mach × Cause) (l : Label) : Mach × Cause := (s.1.step l, s.2.after n s.1 l)

def Label.delivers (n : ℕ) : Label → Bool
  | .input (.event e) _ => e.calls n
  | _ => false

/-- A challenge that can be answered, of a kind that was answered before. -/
def Repeats (s : Mach × Cause) : Label → Bool
  | .input (.response resp _) _ =>
    decide (resp.cseq ∈ s.2.sent) && s.1.ua.answers resp && decide (resp.scode ∈ s.2.kinds)
  | _ => false

/-- What the event can still turn into is paid for by the challenges that were answered. -/
structure Counted (n future : ℕ) (s : Mach × Cause) : Prop where
  total : s.2.sent.length + s.1.ua.waits n + future ≤ 1 + s.2.kinds.length
  nodup : s.2.kinds.Nodup
  codes : s.2.kinds ⊆ [401, 407]
  frames : ∀ e, .recvEvent e ∈ s.1.todo → e.final

theorem frames_step {l : Label} (h : ∀ e, .recvEvent e ∈ m.todo → e.final) :
    ∀ e, .recvEvent e ∈ (m.step l).todo → e.final := by
  have hs := step_any m l
  generalize m.step l = m' at hs ⊢
  intro e he
  cases hs with
  | method ps q m' hps hg _ => exact (hg.frames e he).elim (h e) id
  | completed p body io rest _ _ _ hrest => exact h e (hrest _ (by simpa using he))
  | handed io d es todo _ _ _ htodo => exact h e (htodo _ (by simpa using he))
  | settled es n cb todo _ _ htodo _ => exact h e (htodo _ he)

/-- An INVITE may be sent, but the event is not awaited. -/
abbrev loose (n : ℕ) : Limits :=
  { Limits.only (fun _ => True) with awaits := fun e => e.calls n = false }

@[simp] theorem withBody_calls (e : CCEvent) (b : Body) : (e.withBody b).calls n = e.calls n := by
  rw [CCEvent.calls, withBody_invites]
  rfl

theorem waits_step {l : Label} (hframes : ∀ e, .recvEvent e ∈ m.todo → e.final)
    (hevent : l.delivers n = false)
    (hsdp : ∀ p body io, l = .input (.sdpUpdated p body) io → p.remote = false → p.event.calls n = false) :
    (m.step l).ua.waits n ≤ m.ua.waits n := by
  have hawaits (i : Input) (hi : i ∈ l.method m) (e : CCEvent) (he : i.dispatch = some (.event e))
      (hfinal : e.final = false) : e.calls n = false := by
    obtain ⟨io, rfl⟩ | ⟨e', io, rest, -, rfl, ht⟩ := method_cases hi
    · cases i with
      | event e' =>
        obtain rfl : e' = e := by simpa [Input.dispatch] using he
        exact hevent
      | sdpUpdated p body =>
        cases hr : p.remote with
        | true => simp [Input.dispatch, hr] at he
        | false =>
          have hcalls := hsdp p body io rfl hr
          simp only [Input.dispatch, hr] at he
          obtain rfl : p.event.withBody body = e := by simpa using he
          simpa using hcalls
      | _ => simp [Input.dispatch] at he
    · obtain rfl : e' = e := by simpa [Input.dispatch] using he
      simp [hframes e' (by simp [ht])] at hfinal
  have hs : Stepped (loose n) True m l (m.step l) := m.stepped (fun _ _ => trivial) l
    (fun _ _ _ _ => trivial) hawaits (fun _ _ _ _ _ _ => ⟨False.elim, False.elim⟩) fun _ _ _ => trivial
  generalize m.step l = m' at hs ⊢
  cases hs with
  | method ps q m' hps hg _ =>
    obtain ⟨qs, hqs, hq⟩ := hg.pending
    exact (waits_append hqs fun p h => (hq p h).2).le.trans hps.countP_le
  | completed p body io rest _ _ _ _ => exact List.erase_sublist.countP_le
  | handed io d es todo _ _ _ _ => exact le_rfl
  | settled es n cb todo _ _ _ _ => exact le_rfl

theorem exec_endState (m : Mach) (io : Io) (rest : List Todo) (p : M (List Todo)) :
    ∃ todo, m.exec io rest p = ⟨(Lib.endState p (m.world io)).ua, (Lib.endState p (m.world io)).seq,
      todo, m.log ++ (Lib.endState p (m.world io)).log⟩ := by
  unfold Mach.exec Lib.endState Mach.world
  cases p ⟨m.ua, m.seq + io.skip, io, []⟩ with
  | ok todo w => exact ⟨_, rfl⟩
  | error e w => exact ⟨_, rfl⟩

theorem exec_load {io : Io} (rest : List Todo) {k : ℕ} {p : M (List Todo)}
    (h : wp p (fun _ w' => load n w' ≤ load n (m.world io) + k)
      (fun _ w' => load n w' ≤ load n (m.world io) + k) (m.world io)) :
    ∃ l, (m.exec io rest p).log = m.log ++ l ∧
      (invitesOf l).length + (m.exec io rest p).ua.waits n ≤ m.ua.waits n + k := by
  have hend := Lib.endState_of_wp h
  have hstart : load n (m.world io) = m.ua.waits n := by simp [load, Mach.world]
  obtain ⟨todo, hexec⟩ := exec_endState m io rest p
  rw [hexec]
  refine ⟨_, rfl, ?_⟩
  rw [invitesOf_length]
  rwa [load, hstart] at hend

theorem exec_local {io : Io} {rest : List Todo} {p : Pending} {body : Body} (hr : p.remote = false) :
    m.exec io rest (Input.sdpUpdated p body).run =
      { m with ua := m.ua.resolved p }.exec io rest (UA.recvEvent (p.event.withBody body)) := by
  have hrun : UA.sdpUpdated p body = UA.recvEvent (p.event.withBody body) := by simp [UA.sdpUpdated, hr]
  rw [← hrun]
  rfl

theorem answers_code {ua : UA} {resp : Response} (h : ua.answers resp) :
    resp.scode = 401 ∨ resp.scode = 407 := by
  unfold UA.answers at h
  split at h
  · simp at h
  · simp only [Bool.and_eq_true, Bool.or_eq_true, decide_eq_true_eq] at h
    exact h.2.imp And.left And.left

abbrev newInvites (m : Mach) (l : Label) : List ℤ := invitesOf ((m.step l).log.drop m.log.length)

theorem spent_input {i : Input} (io : Io) {k : ℕ}
    (h : wp i.run (fun _ w' => load n w' ≤ load n (m.world io) + k)
      (fun _ w' => load n w' ≤ load n (m.world io) + k) (m.world io)) :
    (newInvites m (.input i io)).length + (m.step (.input i io)).ua.waits n ≤ m.ua.waits n + k := by
  unfold newInvites
  rw [Mach.step_input]
  split
  · obtain ⟨l, hl, hle⟩ := exec_load m.todo h
    rwa [hl, List.drop_left]
  · simp [invitesOf]

theorem spent_local {p : Pending} (body : Body) (io : Io) (hr : p.remote = false) (hp : p.event.calls n) :
    (newInvites m (.input (.sdpUpdated p body) io)).length +
      (m.step (.input (.sdpUpdated p body) io)).ua.waits n ≤ m.ua.waits n := by
  unfold newInvites
  rw [Mach.step_input]
  split
  · rename_i hposs
    have hmem : p ∈ m.ua.pending := by
      simpa [Input.possible] using (Bool.and_eq_true_iff.mp hposs).2
    have hcount : (m.ua.resolved p).waits n + 1 = m.ua.waits n := by
      rw [UA.waits, UA.waits, (List.perm_cons_erase hmem).countP_eq, List.countP_cons_of_pos (by simp [hr, hp])]
      rfl
    have hinv : (p.event.withBody body).kind.invites := by
      have := hp
      simp only [CCEvent.calls, Bool.and_eq_true] at this
      simpa using this.2
    rw [exec_local hr]
    obtain ⟨l, hl, hle⟩ := exec_load (m := { m with ua := m.ua.resolved p }) m.todo
      (recvEvent_costs (n := n) hinv _)
    rw [hl, List.drop_left]
    exact hle.trans hcount.le
  · simp [invitesOf]

theorem unanswered_input {resp : Response} {hs : List Header} {io : Io} (h : ¬ m.ua.answers resp) :
    newInvites m (.input (.response resp hs) io) = [] := by
  unfold newInvites
  rw [Mach.step_input]
  split
  · have hworks : Works uninviting True (m.world io) (UA.recvResponse resp hs) :=
      recvResponse_method uninviting_wide (fun h' => absurd h' h) spares_only
    obtain ⟨q, hg, -⟩ := exec_grown m io (fun _ h => h) hworks
    obtain ⟨l, hl, hcalm⟩ := hg.log
    have hnone : (invitesOf l).length = 0 := by
      rw [invitesOf_length]
      exact List.countP_eq_zero.mpr fun a ha => ne_true_of_eq_false (hcalm a ha)
    rw [show m.exec io m.todo (Input.response resp hs).run =
      m.exec io m.todo (UA.recvResponse resp hs) from rfl, hl, List.drop_left]
    exact List.eq_nil_of_length_eq_zero hnone
  · simp [invitesOf]

theorem Counted.step {future : ℕ} {s : Mach × Cause} {l : Label}
    (h : Counted n (future + if l.delivers n then 1 else 0) s) (hl : ¬ Repeats s l) :
    Counted n future (follow n s l) := by
  obtain ⟨m, c⟩ := s
  have hframes := frames_step (l := l) h.frames
  have htotal : c.sent.length + m.ua.waits n + (future + if l.delivers n then 1 else 0) ≤
      1 + c.kinds.length := h.total
  -- a step of which the account takes no notice
  have hidle (hevent : l.delivers n = false)
      (hsdp : ∀ p body io, l = .input (.sdpUpdated p body) io → p.remote = false → p.event.calls n = false)
      (hafter : c.after n m l = c) : Counted n future (follow n (m, c) l) := by
    have hwaits : (m.step l).ua.waits n ≤ m.ua.waits n := waits_step h.frames hevent hsdp
    simp only [hevent, Bool.false_eq_true, if_false] at htotal
    refine ⟨?_, by rw [follow, hafter]; exact h.nodup, by rw [follow, hafter]; exact h.codes, hframes⟩
    rw [follow, hafter]
    dsimp only
    omega
  -- a step whose INVITEs are sent for the event
  have hpaid (kinds : List ℤ) (hafter : c.after n m l = ⟨c.sent ++ newInvites m l, kinds⟩)
      (hnodup : kinds.Nodup) (hcodes : kinds ⊆ [401, 407])
      (hspent : (newInvites m l).length + (m.step l).ua.waits n + c.kinds.length ≤
        m.ua.waits n + (if l.delivers n then 1 else 0) + kinds.length) :
      Counted n future (follow n (m, c) l) := by
    refine ⟨?_, by rw [follow, hafter]; exact hnodup, by rw [follow, hafter]; exact hcodes, hframes⟩
    rw [follow, hafter, List.length_append]
    dsimp only
    omega
  cases l with
  | tau io => exact hidle rfl (by simp) rfl
  | ret => exact hidle rfl (by simp) rfl
  | throw => exact hidle rfl (by simp) rfl
  | input i io =>
    cases i with
    | event e =>
      by_cases he : e.calls n
      · refine hpaid c.kinds (if_pos he) h.nodup h.codes ?_
        have hinv : e.kind.invites := (Bool.and_eq_true_iff.mp he).2
        have := spent_input (n := n) (m := m) (i := .event e) io (recvEvent_costs hinv (m.world io))
        simp only [Label.delivers, he, if_true]
        omega
      · exact hidle (by simpa [Label.delivers] using he) (by simp) (if_neg he)
    | sdpUpdated p body =>
      by_cases hp : (!p.remote && p.event.calls n) = true
      · refine hpaid c.kinds (if_pos hp) h.nodup h.codes ?_
        simp only [Bool.and_eq_true, Bool.not_eq_true'] at hp
        have := spent_local (m := m) body io hp.1 hp.2
        simp only [Label.delivers, Bool.false_eq_true, if_false]
        omega
      · refine hidle rfl ?_ (if_neg hp)
        rintro p' body' io' h' hr
        obtain ⟨⟨rfl, -⟩, -⟩ : (p = p' ∧ body = body') ∧ io = io' := by simpa using h'
        simpa [hr] using hp
    | response resp hs =>
      by_cases hc : resp.cseq ∈ c.sent
      · have hspent := spent_input (n := n) (m := m) (i := .response resp hs) io
          recvResponse_costs
        by_cases hnew : newInvites m (.input (.response resp hs) io) = []
        · have hafter : c.after n m (.input (.response resp hs) io) =
              ⟨c.sent ++ newInvites m (.input (.response resp hs) io), c.kinds⟩ :=
            (if_pos hc).trans (by rw [if_pos hnew])
          refine hpaid _ hafter h.nodup h.codes ?_
          have : (m.step (.input (.response resp hs) io)).ua.waits n ≤ m.ua.waits n :=
            waits_step h.frames rfl (by simp)
          simp only [hnew, Label.delivers, List.length_nil, Bool.false_eq_true, if_false]
          omega
        · have hans : m.ua.answers resp := not_not.mp fun h => hnew (unanswered_input h)
          have hafter : c.after n m (.input (.response resp hs) io) =
              ⟨c.sent ++ newInvites m (.input (.response resp hs) io), c.kinds ++ [resp.scode]⟩ :=
            (if_pos hc).trans (by rw [if_neg hnew])
          have hfresh : resp.scode ∉ c.kinds := fun hk => hl (by simp [Repeats, hc, hans, hk])
          refine hpaid _ hafter (List.nodup_append.mpr ⟨h.nodup, by simp, ?_⟩) ?_ ?_
          · rintro k hk _ hk' rfl
            exact hfresh (List.mem_singleton.mp hk' ▸ hk)
          · refine List.append_subset.mpr ⟨h.codes, ?_⟩
            rcases answers_code hans with h | h <;> simp [h]
          · simp only [show (m.world io).ua = m.ua from rfl, hans, if_true] at hspent
            simp only [Label.delivers, List.length_append, List.length_singleton, Bool.false_eq_true, if_false]
            omega
      · exact hidle rfl (by simp) (if_neg hc)
    | _ => exact hidle rfl (by simp) rfl

theorem Counted.run {s : Mach × Cause} {ls : List Label}
    (h : Counted n (ls.countP (·.delivers n)) s)
    (hls : Along (follow n) (fun s l => ¬ Repeats s l) s ls) :
    Counted n 0 (run (follow n) s ls) := by
  induction ls generalizing s with
  | nil => exact h
  | cons l ls ih => exact ih (Counted.step (by simpa [List.countP_cons] using h) hls.1) hls.2

theorem Counted.sent_le {s : Mach × Cause} (h : Counted n 0 s) : s.2.sent.length ≤ 3 := by
  have hkinds : s.2.kinds.length ≤ [(401 : ℤ), 407].length :=
    h.nodup.length_le_of_subset h.codes
  have := h.total
  simp only [List.length_cons, List.length_nil] at hkinds
  omega

end Runs

section Reported
variable {w : World}

def CCEvent.isFail (e : CCEvent) : Bool :=
  match e.kind with
  | .fail _ _ _ => true
  | _ => false

/-- A failure waits to be handed over. -/
def Fails (w : World) : Prop := ∃ e ∈ w.ua.equeue, e.isFail

/-- The program returns, and leaves `passAuth` alone. -/
def Smooth {α : Type} (p : M α) : Prop :=
  ∀ w, wp p (fun _ w' => w'.ua.passAuth = w.ua.passAuth) (fun _ _ => False) w

namespace Smooth
variable {α β : Type} {p : M α} {w : World}

theorem pure (a : α) : Smooth (pure a : M α) := fun _ => rfl

theorem upd {f : UA → UA} (hf : ∀ ua, (f ua).passAuth = ua.passAuth) : Smooth (upd f) := fun w => hf w.ua

theorem next {Q : β → World → Prop} {f : α → M β} (hp : Smooth p)
    (hf : ∀ a w', w'.ua.passAuth = w.ua.passAuth → wp (f a) Q (fun _ _ => False) w') :
    wp (p >>= f) Q (fun _ _ => False) w := by
  rw [wp_bind]
  exact wp_mono (hp w) (fun a w' h => hf a w' h) fun _ _ h => h

theorem bind {f : α → M β} (hp : Smooth p) (hf : ∀ a, Smooth (f a)) : Smooth (p >>= f) :=
  fun _ => hp.next fun a w' h => wp_mono (hf a w') (fun _ _ h' => h'.trans h) fun _ _ h => h

theorem getUA {f : UA → M β} (hf : ∀ ua, Smooth (f ua)) : Smooth (getUA >>= f) := fun w => hf w.ua w

theorem ite {c : Prop} [Decidable c] {q : M α} (hp : Smooth p) (hq : Smooth q) :
    Smooth (if c then p else q) := by
  split
  · exact hp
  · exact hq

end Smooth

theorem replied_smooth (scode : ℤ) : Smooth (UacStateTrying.replied scode) := by
  refine .getUA fun ua => .ite (.bind (.upd fun _ => rfl) fun _ => .getUA fun ua => ?_) (.pure _)
  exact .ite (.upd fun _ => rfl) (.getUA fun ua => .ite (.upd fun _ => rfl) (.pure _))

theorem progressed_smooth (b : Bool) : Smooth (progressed b) := by
  refine .getUA fun ua => .ite (.bind (.upd fun _ => rfl) fun _ => .getUA fun ua => ?_) (.pure _)
  exact .ite (.upd fun _ => rfl) (.pure _)

theorem wp_rejection {resp : Response} {challenges : M (List Header)} {Q : CCEvent → World → Prop}
    {E : Raised → World → Prop} (hcode : resp.scode = 401 ∨ resp.scode = 407)
    (hch : ∀ w', w'.ua = w.ua → wp challenges (fun _ w'' => ∀ e : CCEvent, e.isFail → Q e w'') E w') :
    wp (UacStateTrying.rejection resp challenges) Q E w := by
  have h301 : ¬ ((resp.scode = 301 ∨ resp.scode = 302) ∧ resp.contacts ≠ []) := by omega
  have h300 : ¬ (resp.scode = 300 ∧ resp.contacts ≠ []) := by omega
  simp only [UacStateTrying.rejection, wp_bind, wp_getUA, if_neg h301, if_neg h300, wp_newEvent, Lib.wp_pure]
  exact wp_mono (hch _ rfl) (fun _ _ h => h _ rfl) fun _ _ h => h

theorem rejected_fails {resp : Response} {challenges : M (List Header)}
    (hcode : resp.scode = 401 ∨ resp.scode = 407)
    (hch : ∀ w', w'.ua = w.ua → wp challenges (fun _ _ => True) (fun _ _ => False) w') :
    wp (UacStateTrying.rejected resp challenges) (fun _ w' => Fails w') (fun _ _ => False) w := by
  unfold UacStateTrying.rejected
  rw [wp_bind]
  refine wp_rejection hcode fun w' hw' => wp_mono (hch w' hw') (fun _ w'' _ e he => ?_) fun _ _ h => h
  exact ⟨e, by simp, he⟩

theorem challenges_skipped {resp : Response} (h : w.ua.passAuth = false) :
    wp (UacStateTrying.challenges resp) (fun _ _ => True) (fun _ _ => False) w := by
  unfold UacStateTrying.challenges
  rw [wp_bind, wp_getUA, if_neg (by simp [h])]
  trivial

theorem trying_fails {resp : Response} (hpass : w.ua.passAuth = false)
    (hcode : resp.scode = 401 ∨ resp.scode = 407) :
    wp (UacStateTrying.handleResponse resp) (fun _ w' => Fails w') (fun _ _ => False) w := by
  have h100 : ¬ resp.scode = 100 := by omega
  have h200 : ¬ resp.scode < 200 := by omega
  have h300 : ¬ resp.scode < 300 := by omega
  unfold UacStateTrying.handleResponse
  simp only [if_neg h100, if_neg h200, if_neg h300]
  refine Smooth.next (.upd fun _ => rfl) fun _ w₁ h₁ => Smooth.next (replied_smooth _) fun _ w₂ h₂ => ?_
  rw [wp_bind, wp_getUA]
  refine Smooth.next (progressed_smooth _) fun _ w₃ h₃ => Smooth.next (.upd fun _ => rfl) fun _ w₄ h₄ => ?_
  have hpass₄ : w₄.ua.passAuth = false := by rw [h₄, h₃, h₂, h₁, hpass]
  exact rejected_fails hcode fun w' hw' => challenges_skipped (hw' ▸ hpass₄)

theorem ringing_fails {resp : Response} (hcode : resp.scode = 401 ∨ resp.scode = 407) :
    wp (UacStateRinging.handleResponse resp) (fun _ w' => Fails w') (fun _ _ => False) w := by
  have h200 : ¬ resp.scode < 200 := by omega
  have h300 : ¬ resp.scode < 300 := by omega
  unfold UacStateRinging.handleResponse
  simp only [if_neg h200, if_neg h300]
  rw [wp_bind, wp_getUA]
  exact Smooth.next (.upd fun _ => rfl) fun _ _ _ => rejected_fails hcode fun _ _ => trivial

theorem updating_fails {resp : Response} (hcode : resp.scode = 401 ∨ resp.scode = 407) :
    wp (UacStateUpdating.recvResponse resp) (fun _ w' => Fails w') (fun _ _ => False) w := by
  have h200 : ¬ resp.scode < 200 := by omega
  have h300 : ¬ resp.scode < 300 := by omega
  have h408 : ¬ (resp.scode = 408 ∨ resp.scode = 481) := by omega
  unfold UacStateUpdating.recvResponse
  simp only [if_neg h200, if_neg h300, if_neg h408]
  rw [wp_bind]
  exact wp_rejection hcode fun w' _ e he => ⟨e, by simp, he⟩

theorem handler_fails {s : UaState} {resp : Response} (hpass : w.ua.passAuth = false)
    (hs : s = .uacTrying ∨ s = .uacRinging ∨ s = .uacUpdating)
    (hcode : resp.scode = 401 ∨ resp.scode = 407) :
    wp (stateRecvResponse s resp) (fun _ w' => Fails w') (fun _ _ => False) w := by
  have hguard {h : M Ret} (hh : wp h (fun _ w' => Fails w') (fun _ _ => False) w) :
      wp (UacStateTrying.guardSdp h resp) (fun _ w' => Fails w') (fun _ _ => False) w := by
    unfold UacStateTrying.guardSdp
    rw [Lib.wp_tryCatch]
    exact wp_mono hh (fun _ _ h => h) fun _ _ h => h.elim
  rcases hs with rfl | rfl | rfl
  · exact hguard (trying_fails hpass hcode)
  · exact hguard (ringing_fails hcode)
  · exact updating_fails hcode

def Response.readable (resp : Response) : Bool :=
  (resp.wwwAuthenticate.mapM id).toOption.isSome && (resp.proxyAuthenticate.mapM id).toOption.isSome

theorem processChallenge_declines {cs : List (Lazy Challenge)} {cseq : ℤ} {name : Text}
    {sent : SentRequest} {hs : List Header} (hno : w.ua.retries cs name sent = false)
    (hread : (cs.mapM id).toOption.isSome) :
    wp (UA.processChallenge cs cseq name sent hs) (fun b w' => b = false ∧ w' = w) (fun _ _ => False) w := by
  unfold UA.processChallenge
  rw [wp_bind, wp_getUA, Lib.wp_ite]
  refine ⟨fun _ => ⟨rfl, rfl⟩, fun hcred => ?_⟩
  simp only [not_or, ← Option.isSome_iff_ne_none] at hcred
  rw [wp_bind, wp_ofLazy]
  unfold UA.retries at hno
  cases hcs : cs.mapM id with
  | error e => simp [hcs, Except.toOption] at hread
  | ok found =>
    have hany : ∀ c ∈ found, ¬ w.ua.answerable c := by simpa [hcs, hcred] using hno
    dsimp only
    rw [List.find?_eq_none.mpr hany]
    exact ⟨rfl, rfl⟩

theorem challenged_declines {resp : Response} {hs : List Header} (hno : w.ua.answers resp = false)
    (hread : resp.readable) :
    wp (UA.challenged resp hs) (fun b w' => b = false ∧ w' = w) (fun _ _ => False) w := by
  obtain ⟨hwww, hproxy⟩ := Bool.and_eq_true_iff.mp hread
  unfold UA.answers at hno
  unfold UA.challenged
  rw [wp_bind, wp_getUA]
  split
  · exact ⟨rfl, rfl⟩
  · rename_i sent hsent
    simp only [hsent] at hno
    split
    · rename_i hinvite
      simp only [hinvite, decide_true, Bool.not_false, Bool.true_and, Bool.or_eq_false_iff] at hno
      split
      · rename_i h
        exact processChallenge_declines (by simpa [h] using hno.1) hwww
      · split
        · rename_i h
          exact processChallenge_declines (by simpa [h] using hno.2) hproxy
        · exact ⟨rfl, rfl⟩
    · exact ⟨rfl, rfl⟩

def SameQueue (w w' : World) : Prop := w'.ua.equeue = w.ua.equeue

theorem SameQueue.trans {a b c : World} (h : SameQueue a b) (h' : SameQueue b c) : SameQueue a c :=
  Eq.trans h' h

theorem changeState_equeue (c : Change) : Keeps SameQueue (changeState c) := by
  have hgrows {p : M PUnit} (hp : Keeps (Grows anyMethod []) p) : Keeps SameQueue p := fun w =>
    wp_mono (hp w) (fun _ _ h => h.equeue.trans (List.append_nil _))
      fun _ _ h => h.equeue.trans (List.append_nil _)
  have hwide : anyMethod.Wide := fun _ _ => trivial
  refine .bind (R := SameQueue) .trans (hgrows (leaveState_grows hwide)) fun _ =>
    .bind (R := SameQueue) .trans (hgrows (construct_grows hwide c.state)) fun _ =>
    .bind (R := SameQueue) .trans (fun _ => rfl) fun _ => ?_
  cases c.callback with
  | none => exact fun _ => rfl
  | some cb => exact hgrows (keeps_call trivial)

theorem finish_fails (ret : Ret) (h : Fails w) :
    wp (finish ret [.emitPending]) (fun td w' => Fails w' ∧ .emitPending ∈ td) (fun _ w' => Fails w') w := by
  cases ret with
  | none => exact ⟨h, by simp⟩
  | change c =>
    simp only [finish, wp_bind, Lib.wp_pure]
    refine wp_mono (changeState_equeue c w) (fun _ w' hq => ⟨?_, by simp⟩) fun _ w' hq => ?_
    · rwa [Fails, show w'.ua.equeue = w.ua.equeue from hq]
    · rwa [Fails, show w'.ua.equeue = w.ua.equeue from hq]
  | inject e => exact ⟨h, by simp⟩
  | code c => exact h
  | scode c => exact h

/-- A challenge that is not answered while the INVITE is pending is reported as a failure. -/
theorem recvResponse_fails {s : UaState} {resp : Response} {hs : List Header}
    (hstate : w.ua.state = some s) (hs' : s = .uacTrying ∨ s = .uacRinging ∨ s = .uacUpdating)
    (hpass : w.ua.passAuth = false) (hcode : resp.scode = 401 ∨ resp.scode = 407)
    (hread : resp.readable) (hno : w.ua.answers resp = false) :
    wp (UA.recvResponse resp hs) (fun td w' => Fails w' ∧ .emitPending ∈ td) (fun _ w' => Fails w') w := by
  unfold UA.recvResponse
  rw [wp_bind, wp_getUA, hstate]
  split
  · contradiction
  · rename_i hdead
    obtain rfl : s = .dead := by simpa using hdead
    simp at hs'
  · rename_i s' _ heq
    obtain rfl : s = s' := by simpa using heq
    rw [wp_bind]
    refine wp_mono (challenged_declines hno hread) (fun b w' h => ?_) fun _ _ h => h.elim
    obtain ⟨rfl, rfl⟩ := h
    rw [if_neg (by simp), wp_bind, wp_upd, wp_bind]
    refine wp_mono (handler_fails ?_ hs' hcode) (fun ret w' h => finish_fails ret h) fun _ _ h => h.elim
    split <;> exact hpass

end Reported

/-- An event causes three INVITEs at most, as long as no kind of challenge is answered twice
for it; and a challenge to a pending INVITE that is not answered is reported as a failure. -/
theorem three_invites_at_most {ua : UA} {n : ℕ} {ls : List Label} (hpending : ua.pending = [])
    (hone : ls.countP (·.delivers n) ≤ 1)
    (hls : Along (follow n) (fun s l => ¬ Repeats s l) (.start ua, ⟨[], []⟩) ls) :
    let reached := run (follow n) (.start ua, ⟨[], []⟩) ls
    reached.2.sent.length ≤ 3 ∧ ∀ s resp hs io, reached.1.ua.state = some s →
      s = .uacTrying ∨ s = .uacRinging ∨ s = .uacUpdating → reached.1.ua.passAuth = false →
      resp.scode = 401 ∨ resp.scode = 407 → resp.readable → reached.1.ua.answers resp = false →
      wp (UA.recvResponse resp hs) (fun td w => Fails w ∧ .emitPending ∈ td) (fun _ w => Fails w)
        (reached.1.world io) := by
  have hstart : Counted n (ls.countP (·.delivers n)) (.start ua, ⟨[], []⟩) := by
    refine ⟨?_, List.nodup_nil, by simp, by simp [Mach.start]⟩
    simpa [Mach.start, UA.waits, hpending] using hone
  exact ⟨(hstart.run hls).sent_le, fun s resp hs io h₁ h₂ h₃ h₄ h₅ h₆ => recvResponse_fails h₁ h₂ h₃ h₄ h₅ h₆⟩

def challengedCaller : UA := { UA.new with
  rAddr0 := some ((['f'], 5060), ['u']), username := some ['n'], password := some ['p'] }

def challengedCall (challenges : List Response) : List Label :=
  .input (.event ⟨.setup ⟨none, none, some ['1'], some (sampleBody ['x']), none, none⟩ none, 0,
    none, 9, none⟩) .calm :: .tau .calm :: challenges.map fun resp => .input (.response resp []) .calm

def challenge407 : Response := { Response.bare 407 .invite 2 with
  proxyAuthenticate := [.ok ⟨true, none, true, ['c']⟩] }

theorem three_invites_at_most_each :
    (run (follow 9) (.start challengedCaller, ⟨[], []⟩)
      (challengedCall [challenge401, challenge407])).2.sent.length ≤ 3 :=
  (three_invites_at_most rfl (by decide) (by decide)).1

/-- The credentials for the proxy replace those for the server, so that its challenge can be
answered again. -/
theorem fourth_invite :
    (run (follow 9) (.start challengedCaller, ⟨[], []⟩)
      (challengedCall [challenge401, challenge407, { challenge401 with cseq := 3 }])).2.sent =
      [1, 2, 3, 4] := by
  decide

end SippyB2bua.Ua
