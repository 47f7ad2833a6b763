import SippyB2bua.Ua.Challenge

/-!
# Re-INVITEs of a connected call

`UaStateConnected` reads the SDPs of the two ends without asking whether they are there:
the local one for an update from the other leg, the remote one for a re-INVITE without a
body. A call that keeps both takes every further re-INVITE. A re-INVITE that fails resets
one of them on each leg.
-/

namespace SippyB2bua.Ua
open Lib (Text wp wp_mono wp_bind Keeps run Along)

/-- An outgoing INVITE, or the final answer to a request. -/
def Act.reacts : Act → Bool
  | .request r => r.method = .invite
  | .response _ (.num n) _ _ _ | .reply _ n => 200 ≤ n
  | _ => false

/-- What has come of the messages so far: INVITEs, final answers, and events for the other
leg, queued or waiting for their SDP. -/
def tally (w : World) : ℕ := w.log.countP Act.reacts + w.ua.equeue.length + w.ua.pending.length

/-- The message is processed without an exception, and exactly one thing comes of it. -/
def Taken (p : M (List Todo)) (w : World) : Prop :=
  wp p (fun _ w' => tally w' = tally w + 1) (fun _ _ => False) w

/-- As long as no call out of the user agent raises, the program returns and `k` things come of it. -/
def Adds {α : Type} (k : ℕ) (p : M α) (w : World) : Prop :=
  w.Calm → wp p (fun _ w' => w'.Calm ∧ tally w' = tally w + k) (fun _ _ => False) w

theorem World.Calm.headD {w : World} (h : w.Calm) : w.io.faults.headD false = false := by
  cases hf : w.io.faults with
  | nil => rfl
  | cons fault faults => exact h fault (by simp [hf])

theorem World.Calm.tail {w : World} (h : w.Calm) : ∀ fault ∈ w.io.faults.tail, fault = false :=
  fun fault hmem => h fault (List.mem_of_mem_tail hmem)

namespace Adds
variable {α β : Type} {k j : ℕ} {w : World}

theorem pure (a : α) : Adds 0 (pure a : M α) w := fun h => ⟨h, rfl⟩

theorem bind {p : M β} {f : β → M α} (hp : Adds k p w) (hf : ∀ b w', Adds j (f b) w') :
    Adds (k + j) (p >>= f) w := by
  intro hcalm
  rw [wp_bind]
  refine wp_mono (hp hcalm) (fun b w' h => ?_) fun _ _ h => h
  exact wp_mono (hf b w' h.1) (fun _ _ h' => ⟨h'.1, by omega⟩) fun _ _ h => h

theorem next {p : M β} {f : β → M α} (hp : Adds 0 p w) (hf : ∀ b w', Adds k (f b) w') :
    Adds k (p >>= f) w := by simpa using hp.bind hf

theorem before {p : M β} {f : β → M α} (hp : Adds k p w) (hf : ∀ b w', Adds 0 (f b) w') :
    Adds k (p >>= f) w := hp.bind hf

theorem getUA {f : UA → M α} (hf : Adds k (f w.ua) w) : Adds k (Ua.getUA >>= f) w := hf

theorem get {f : World → M α} (hf : Adds k (f w) w) : Adds k (get >>= f) w := hf

theorem ite {c : Prop} [Decidable c] {p q : M α} (hp : c → Adds k p w) (hq : ¬ c → Adds k q w) :
    Adds k (if c then p else q) w := by
  split
  · exact hp ‹_›
  · exact hq ‹_›

theorem upd {f : UA → UA} (hq : ∀ ua, (f ua).equeue = ua.equeue) (hp : ∀ ua, (f ua).pending = ua.pending) :
    Adds 0 (upd f) w := fun h => ⟨h, by simp [tally, hq, hp]⟩

theorem call {a : Act} : Adds (if a.reacts then 1 else 0) (call a) w := by
  intro hcalm
  rw [wp_call, hcalm.headD]
  refine ⟨hcalm.tail, ?_⟩
  simp only [tally, List.countP_append, List.countP_singleton]
  omega

theorem act {a : Act} : Adds (if a.reacts then 1 else 0) (act a) w := by
  intro hcalm
  refine ⟨hcalm, ?_⟩
  simp only [tally, List.countP_append, List.countP_singleton]
  omega

theorem newEvent {kind : Kind} {t : Time} {o : Option Origin} : Adds 0 (newEvent kind t o) w :=
  fun h => ⟨h, rfl⟩

theorem enqueue {e : CCEvent} : Adds 1 (enqueue e) w := by
  intro h
  refine ⟨h, ?_⟩
  simp only [tally, List.length_append, List.length_singleton]
  omega

theorem genRequest {method : Method} {body : Option Body} {hs : List Header} {mf : Option ℤ}
    {f : SentRequest → M α} (hf : ∀ r w', r.method = method → Adds k (f r) w') :
    Adds k (Ua.genRequest method body .none hs mf >>= f) w := by
  intro hcalm
  rw [wp_bind]
  have hgen : wp (Ua.genRequest method body .none hs mf)
      (fun r w' => r.method = method ∧ w'.Calm ∧ tally w' = tally w) (fun _ _ => False) w :=
    ⟨rfl, hcalm, rfl⟩
  refine wp_mono hgen (fun r w' h => ?_) fun _ _ h => h
  exact wp_mono (hf r w' h.1 h.2.1) (fun _ _ h' => ⟨h'.1, by omega⟩) fun _ _ h => h

end Adds

section ChangeState
variable {w : World}

theorem leaveState_adds : Adds 0 leaveState w := by
  have hstop {w : World} : Adds 0 UaStateConnected.stopKeepAlive w :=
    .getUA (.ite (fun _ => Adds.call.before fun _ _ => .upd (fun _ => rfl) fun _ => rfl) fun _ => .pure _)
  have hack {w : World} : Adds 0 UaStateConnected.ackPending w :=
    .getUA (.ite (fun _ => Adds.call.before fun _ _ => .upd (fun _ => rfl) fun _ => rfl) fun _ => .pure _)
  refine .getUA (.ite (fun _ => ?_) fun _ => .pure _)
  exact .next hstop fun _ _ => .next hack fun _ _ => .upd (fun _ => rfl) fun _ => rfl

theorem construct_adds (s : UaState) : Adds 0 (construct s) w := by
  cases s with
  | dead =>
    refine .next (.getUA (.ite (fun _ => Adds.act) fun _ => .pure _)) fun _ _ => ?_
    refine .next (.upd (fun _ => rfl) fun _ => rfl) fun _ _ => .getUA ?_
    exact .next (.ite (fun _ => Adds.call) fun _ => .pure _) fun _ _ => .upd (fun _ => rfl) fun _ => rfl
  | connected | uacCancelling | failed | disconnected => exact .upd (fun _ => rfl) fun _ => rfl
  | uasIdle | uasTrying | uasRinging | uasUpdating | uacIdle | uacTrying | uacRinging | uacUpdating =>
    exact .pure _

theorem changeState_adds (c : Change) : Adds 0 (changeState c) w := by
  refine .next leaveState_adds fun _ _ => .next (construct_adds c.state) fun _ _ => ?_
  refine .next (.upd (fun _ => rfl) fun _ => rfl) fun _ _ => ?_
  cases c.callback with
  | none => exact .pure _
  | some cb => exact Adds.call

end ChangeState

section Messages
variable {w : World} {e : CCEvent} {b : Body} {mf : Option ℤ}

theorem refuse_adds {scode : ℤ} {reason : Text} {why : Option Text} {warning : Option Header} :
    Adds 1 (UaStateConnected.refuse e scode reason why warning) w :=
  .next .newEvent fun _ _ => Adds.enqueue.before fun _ _ => .pure _

theorem reinvite_adds : Adds 1 (UaStateConnected.reinvite e b mf) w := by
  refine .ite (fun _ => refuse_adds) fun _ => .genRequest fun req w hreq => ?_
  refine .next (.upd (fun _ => rfl) fun _ => rfl) fun _ w => ?_
  have hsend : Adds 1 (newUacTransaction req) w := by
    have hcall : Adds 1 (call (.request req)) w := by
      simpa [Act.reacts, hreq] using @Adds.call w (.request req)
    exact hcall.before fun _ _ => .upd (fun _ => rfl) fun _ => rfl
  exact hsend.before fun _ _ => .pure _

theorem delay_adds (hsdp : ∀ b, w.io.sdps.headD .pending ≠ .body b) :
    Adds 1 (tryCatch (do
        discard <| onSdpChange false e
        return .none) fun ex =>
          if ex.isSdp then UaStateConnected.refuse e ex.scode.1 ex.scode.2 ex.getReason none
          else do
            UaStateConnected.refuse e 400 "Malformed SDP Body".toList none
              (some (.warning (← get).io.host ex.arg))) w := by
  intro hcalm
  rw [Lib.wp_tryCatch, wp_bind, Lib.wp_discard, wp_onSdpChange]
  split
  · rename_i b hb
    exact absurd hb (hsdp b)
  · split
    all_goals exact refuse_adds hcalm
  · refine ⟨hcalm, ?_⟩
    simp only [tally, List.length_append, List.length_singleton]
    omega

theorem handled {d : Dispatch} {k : ℕ} {rest : Ret → List Todo} (h : Adds k (handler .connected d) w)
    (hcalm : w.Calm) :
    wp (handler .connected d >>= fun ret => finish ret (rest ret))
      (fun _ w' => tally w' = tally w + k) (fun _ _ => False) w := by
  rw [wp_bind]
  refine wp_mono (Lib.wp_and (h hcalm) (handler_does .connected d).wp) (fun ret w' h => ?_) fun _ _ h => h.1
  obtain ⟨⟨hcalm', htally⟩, q, -, hout⟩ := h
  cases ret with
  | none => exact htally
  | change c =>
    simp only [finish, wp_bind, Lib.wp_pure]
    exact wp_mono (changeState_adds c hcalm') (fun _ _ h => h.2.trans htally) fun _ _ h => h
  | inject e => exact htally
  | code c => exact absurd (show UaState.connected = .uasUpdating from hout) (by simp)
  | scode c => exact absurd (show UaState.connected = .uasUpdating from hout) (by simp)

/-- An update is taken exactly if there is a local SDP to compare it with. -/
theorem update_taken (hcalm : w.Calm) (hsdp : ∀ b, w.io.sdps.headD .pending ≠ .body b)
    (hstate : w.ua.state = some .connected) (he : e.kind = .update (some b) mf) :
    Taken (UA.recvEvent e) w ↔ w.ua.lSDP.isSome := by
  have hhandler : handler .connected (.event e) = UaStateConnected.recvEventUpdate e (some b) mf := by
    simp only [handler, stateRecvEvent, UaStateConnected.recvEvent, he]
  have hrecv : Taken (UA.recvEvent e) w ↔
      wp (handler .connected (.event e) >>= fun ret => finish ret [.emitPending])
        (fun _ w' => tally w' = tally w + 1) (fun _ _ => False) w := by
    unfold Taken UA.recvEvent UA.wake
    simp only [wp_bind, wp_getUA, hstate]
    rw [if_neg (by simp)]
    simp only [Lib.wp_pure, hstate, wp_bind]
    exact Iff.rfl
  rw [hrecv]
  cases hl : w.ua.lSDP with
  | none =>
    rw [hhandler, wp_bind]
    unfold UaStateConnected.recvEventUpdate
    rw [wp_bind, wp_getUA, hl]
    simp
  | some l =>
    refine iff_of_true (handled ?_ hcalm) rfl
    rw [hhandler]
    unfold UaStateConnected.recvEventUpdate
    refine .getUA ?_
    rw [hl]
    refine .ite (fun _ => ?_) fun _ => .ite (fun _ => delay_adds hsdp) fun _ => reinvite_adds
    exact .next .newEvent fun _ _ => Adds.enqueue.before fun _ _ => .pure _

/-- `on_remote_sdp_change` will raise. -/
def Io.declines (io : Io) : Bool :=
  match io.sdps.headD .pending with
  | .raise _ => true
  | _ => false

theorem queueRemote_taken {Q : PUnit → World → Prop} (hcalm : w.Calm)
    (hQ : ∀ w', w'.Calm → tally w' = tally w + 1 → Q ⟨⟩ w') :
    wp (queueRemote (some b) e) Q (fun _ _ => False) w ↔ ¬ (w.ua.onRemote ∧ w.io.declines) := by
  have henqueue (r : Option Body) (sdps : List SdpRet) (e : CCEvent) :
      Q ⟨⟩ { w with
        ua := { w.ua with rSDP := r, equeue := w.ua.equeue ++ [e] }
        io := { w.io with sdps := sdps } } := by
    refine hQ _ hcalm ?_
    simp only [tally, List.length_append, List.length_singleton]
    omega
  unfold queueRemote remoteBody
  simp only [wp_bind, wp_getUA, Lib.wp_ite]
  by_cases hon : w.ua.onRemote = true
  · rw [wp_onSdpChange]
    unfold Io.declines
    cases w.io.sdps.headD .pending with
    | body b => exact iff_of_true ⟨fun _ => henqueue _ _ _, fun h => absurd hon h⟩ (by simp)
    | raise ex => exact iff_of_false (fun h => h.1 hon) (by simp [hon])
    | pending =>
      refine iff_of_true ⟨fun _ => hQ _ hcalm ?_, fun h => absurd hon h⟩ (by simp)
      simp only [tally, List.length_append, List.length_singleton]
      omega
  · exact iff_of_true ⟨fun h => absurd h hon, fun _ => henqueue _ w.io.sdps _⟩ fun h => hon h.1

theorem sendOK_adds {body : Option Body} (h : w.ua.uasResp.isSome) :
    Adds 1 (sendUasResponse (.num 200) textOK body []) w := by
  refine .getUA ?_
  obtain ⟨cseq, hcseq⟩ := Option.isSome_iff_exists.mp h
  rw [hcseq]
  have hcall : Adds 1 (call (.response cseq (.num 200) textOK body [])) w :=
    @Adds.call w (.response cseq (.num 200) textOK body [])
  exact hcall.before fun _ _ => .ite (fun _ => .upd (fun _ => rfl) fun _ => rfl) fun _ => .pure _

/-- The body that a re-INVITE is read with: without its own the last SDP of the far end, if
there is one that can be put on hold. -/
def World.offered (w : World) (req : Request) : Option Body :=
  req.body.or (if w.ua.rSDP.isSome then w.io.held.toOption else none)

theorem reinviteBody_wp {req : Request} {Q : Body → World → Prop} :
    wp (UaStateConnected.reinviteBody req) Q (fun _ _ => False) w ↔
      ∃ b, w.offered req = some b ∧ Q b w := by
  unfold UaStateConnected.reinviteBody World.offered
  cases req.body with
  | some b => simp
  | none =>
    cases hr : w.ua.rSDP with
    | none => simp [hr]
    | some r => cases hheld : w.io.held <;> simp [hr, hheld, Except.toOption]

/-- The re-INVITE repeats the last SDP of the far end, and is answered at once. -/
def UA.repeated (ua : UA) (req : Request) : Bool :=
  req.body.any fun body => Body.str ua.rSDP = body.content

def World.takes (w : World) (req : Request) : Bool :=
  (w.offered req).isSome && (w.ua.repeated req || !w.ua.onRemote || !w.io.declines)

theorem takes_iff {req : Request} (hb : w.offered req = some b) :
    w.takes req ↔ (req.body.isSome ∧ Body.str w.ua.rSDP = b.content) ∨
      ¬ (w.ua.onRemote ∧ w.io.declines) := by
  simp only [World.takes, hb, UA.repeated, Option.isSome_some, Bool.true_and]
  unfold World.offered at hb
  cases hbody : req.body with
  | none => cases w.ua.onRemote <;> simp
  | some b' =>
    obtain rfl : b' = b := by simpa [hbody] using hb
    cases w.ua.onRemote <;> simp

theorem offer_taken {Q : Ret → World → Prop} {req : Request} (hcalm : w.Calm)
    (hresp : w.ua.uasResp.isSome) (hQ : ∀ ret w', w'.Calm → tally w' = tally w + 1 → Q ret w') :
    wp (do
      let ua ← getUA
      if req.body.isSome ∧ Body.str ua.rSDP = b.content then
        sendUasResponse (.num 200) textOK ua.lSDP []
        return .none
      let event ← newEvent (.update (some b) (attempt req.maxForwards)) req.rtime ua.origin
      let event := { event with reason := attempt req.reason }
      queueRemote (some b) event
      goto .uasUpdating) Q (fun _ _ => False) w ↔
    (req.body.isSome ∧ Body.str w.ua.rSDP = b.content) ∨ ¬ (w.ua.onRemote ∧ w.io.declines) := by
  rw [wp_bind, wp_getUA, Lib.wp_ite]
  by_cases hsame : req.body.isSome ∧ Body.str w.ua.rSDP = b.content
  · refine iff_of_true ⟨fun _ => ?_, fun h => absurd hsame h⟩ (.inl hsame)
    rw [wp_bind]
    exact wp_mono (sendOK_adds hresp hcalm) (fun _ w' h => hQ _ w' h.1 h.2) fun _ _ h => h
  · have hqueue := @queueRemote_taken { w with seq := w.seq + 1 }
      ⟨.update (some b) (attempt req.maxForwards), req.rtime, w.ua.origin, w.seq, attempt req.reason⟩ b
      (fun _ w' => Q (.change ⟨.uasUpdating, none⟩) w') hcalm fun w' => hQ _ w'
    simp only [wp_bind, wp_newEvent, hsame, goto, Lib.wp_pure, false_or, not_false_eq_true,
      forall_true_left, IsEmpty.forall_iff, true_and]
    exact hqueue

/-- A re-INVITE is not declined by a handler that gets as far as its body. -/
theorem recvRequestInvite_taken {Q : Ret → World → Prop} {req : Request} (hcalm : w.Calm)
    (hQ : ∀ ret w', w'.Calm → tally w' = tally w + 1 → Q ret w') :
    wp (UaStateConnected.recvRequestInvite req) Q (fun _ _ => False) w ↔ w.takes req := by
  unfold UaStateConnected.recvRequestInvite
  rw [wp_bind, wp_upd, wp_bind, wp_call, hcalm.headD, if_neg (by simp), wp_bind, reinviteBody_wp]
  have hoffer (b : Body) := @offer_taken { w with
      ua := { w.ua with uasResp := some req.cseq, uasFinal := false }
      io := { w.io with faults := w.io.faults.tail }
      log := w.log ++ [.response req.cseq (.num 100) textTrying none []] } b Q req hcalm.tail rfl
    (fun ret w' hcalm' htally => hQ ret w' hcalm' (htally.trans (by
      simp [tally, List.countP_append, Act.reacts])))
  constructor
  · rintro ⟨b, hb, h⟩
    exact (takes_iff (w := w) hb).mpr ((hoffer b).mp h)
  · intro h
    obtain ⟨b, hb⟩ := Option.isSome_iff_exists.mp (Bool.and_eq_true_iff.mp h).1
    exact ⟨b, hb, (hoffer b).mpr ((takes_iff hb).mp h)⟩

theorem invite_taken {req : Request} (hcalm : w.Calm) (hstate : w.ua.state = some .connected)
    (hreq : req.method = .invite) :
    Taken (UA.recvRequest req) w ↔
      (w.ua.rCSeq.isSome ∧ req.cseq ≤ w.ua.rCSeq.getD 0) ∨ w.takes req := by
  by_cases hold : w.ua.rCSeq.isSome ∧ req.cseq ≤ w.ua.rCSeq.getD 0
  · refine iff_of_true ?_ (.inl hold)
    unfold Taken UA.recvRequest
    rw [wp_bind, wp_getUA, if_pos hold]
    simp only [wp_bind, wp_act, Lib.wp_pure, tally, List.countP_append, List.countP_singleton,
      Act.reacts, Int.reduceLE, decide_true, if_true]
    omega
  · have hhandler : handler .connected (.request req) = UaStateConnected.recvRequestInvite req := by
      simp only [handler, stateRecvRequest, UaStateConnected.recvRequest, hreq]
    have hrecv : Taken (UA.recvRequest req) w ↔
        wp (handler .connected (.request req) >>= fun ret => finish ret
            (if ret.changes && req.method = .invite then [.emitPending, .accepted] else [.emitPending]))
          (fun _ w' => tally w' = tally w + 1) (fun _ _ => False)
          { w with ua := { w.ua with rCSeq := some req.cseq } } := by
      unfold Taken UA.recvRequest UA.wake
      simp only [wp_bind, wp_getUA, hold, if_false, wp_upd, hstate]
      rw [if_neg (by simp)]
      simp only [Lib.wp_pure, wp_bind]
      exact Iff.rfl
    rw [hrecv, or_iff_right hold]
    have htaken {Q : Ret → World → Prop} := @recvRequestInvite_taken
      { w with ua := { w.ua with rCSeq := some req.cseq } } Q req hcalm
    refine ⟨fun h => ?_, fun h => ?_⟩
    · rw [wp_bind, hhandler] at h
      exact (htaken (Q := fun _ _ => True) fun _ _ _ _ => trivial).mp
        (wp_mono h (fun _ _ _ => trivial) fun _ _ h => h)
    · refine handled (k := 1) (fun _ => ?_) hcalm
      rw [hhandler]
      exact (htaken fun _ _ hcalm' htally => ⟨hcalm', htally⟩).mpr h

end Messages

section Runs

def UA.forgets (ua : UA) (d : Dispatch) : Bool :=
  (ua.receiver d).any fun s => s.forgetsL d || s.forgetsR d

/-- A step in which the user agent forgets an SDP. -/
def Forgets (m : Mach) (l : Label) : Bool :=
  (l.method m).any fun i => i.dispatch.any m.ua.forgets

def UA.described (ua : UA) : Prop := ua.lSDP.isSome ∧ ua.rSDP.isSome

abbrev describing : Limits := ⟨fun _ => True, fun _ => True, True, True⟩

theorem spares_describing {ua : UA} {d : Dispatch} (h : ¬ ua.forgets d) : Spares describing ua d := by
  intro s hs
  simp only [UA.forgets, Option.mem_def.mp hs, Option.any_some, Bool.not_eq_true,
    Bool.or_eq_false_iff] at h
  exact ⟨fun _ => h.1, fun _ => h.2⟩

theorem Grown.described {q : List CCEvent} {m m' : Mach} (hg : Grown describing q m m')
    (h : m.ua.described) : m'.ua.described := ⟨hg.lSDP trivial h.1, hg.rSDP trivial h.2⟩

theorem described_step {m : Mach} {l : Label} (h : m.ua.described) (hl : ¬ Forgets m l) :
    (m.step l).ua.described := by
  have hspares (i : Input) (hi : i ∈ l.method m) (d : Dispatch) (hd : d ∈ i.dispatch) :
      Spares describing m.ua d :=
    spares_describing fun hf => hl (by simp [Forgets, Option.mem_def.mp hi, Option.mem_def.mp hd, hf])
  have hs : Stepped describing True m l (m.step l) := m.stepped (fun _ _ => trivial) l
    (fun _ _ _ _ => trivial) (fun _ _ _ _ _ => trivial) hspares fun _ _ _ => trivial
  generalize m.step l = m' at hs ⊢
  cases hs with
  | method ps q m' hps hg _ => exact hg.described h
  | completed p body io rest _ _ _ _ => exact ⟨h.1, rfl⟩
  | handed io d es todo _ _ _ _ => exact h
  | settled es n cb todo _ _ _ _ => exact h

/-- A further update or re-INVITE is taken. -/
def Usable (m : Mach) (io : Io) : Prop :=
  (∀ e b mf, e.kind = .update (some b) mf → Taken (UA.recvEvent e) (m.world io)) ∧
    ∀ req, req.method = .invite → req.body.isSome ∨ io.held.toOption.isSome →
      Taken (UA.recvRequest req) (m.world io)

theorem described_usable {m : Mach} {io : Io} (h : m.ua.described)
    (hstate : m.ua.state = some .connected) (hcalm : (m.world io).Calm)
    (hsdp : io.sdps.headD .pending = .pending) : Usable m io := by
  refine ⟨fun e b mf he => ?_, fun req hreq hbody => ?_⟩
  · exact (update_taken hcalm (fun b hb => by simpa using hsdp.symm.trans hb) hstate he).mpr h.1
  · refine (invite_taken hcalm hstate hreq).mpr (.inr ?_)
    have hdeclines : io.declines = false := by rw [Io.declines, hsdp]
    rcases hbody with hbody | hbody <;>
      simp [World.takes, World.offered, Mach.world, hdeclines, h.2, hbody]

/-- In a connected call an update is taken exactly if there is a local SDP, and a re-INVITE
exactly if it has a body or the remote SDP can be put on hold. Both are there as long as no
message made the user agent forget one. -/
theorem reinvites_taken (m₀ : Mach) (ls : List Label) :
    let m := run Mach.step m₀ ls
    m.ua.state = some .connected → ∀ io, (m.world io).Calm →
      (∀ e b mf, e.kind = .update (some b) mf → (∀ b, io.sdps.headD .pending ≠ .body b) →
        (Taken (UA.recvEvent e) (m.world io) ↔ m.ua.lSDP.isSome)) ∧
      (∀ req, req.method = .invite → (Taken (UA.recvRequest req) (m.world io) ↔
        (m.ua.rCSeq.isSome ∧ req.cseq ≤ m.ua.rCSeq.getD 0) ∨ (m.world io).takes req)) ∧
      (m₀.ua.described → Along Mach.step (fun m l => ¬ Forgets m l) m₀ ls →
        io.sdps.headD .pending = .pending → Usable m io) := by
  intro m hstate io hcalm
  refine ⟨fun e b mf he hsdp => ?_, fun req hreq => ?_, fun h hls hsdp => ?_⟩
  · exact update_taken hcalm hsdp hstate he
  · exact invite_taken hcalm hstate hreq
  · have hm : m.ua.described := hls.invariant (I := fun m => m.ua.described)
      (fun _ _ hok h => described_step h hok) h
    exact described_usable hm hstate hcalm hsdp

def sampleUpdate (content : Text) (seq : ℕ) : CCEvent :=
  ⟨.update (some (sampleBody content)) none, 0, none, seq, none⟩

def describedCall : Mach := run Mach.step
  (.start { UA.new with rAddr0 := some ((['f'], 5060), ['u']) })
  [.input (.event ⟨.setup ⟨none, none, some ['1'], some (sampleBody ['x']), none, none⟩ none, 0,
     none, 9, none⟩) .calm, .tau .calm,
   .input (.response { Response.bare 200 .invite 1 with body := some (sampleBody ['y']) } []) .calm,
   .tau .calm, .ret, .tau .calm]

/-- A re-INVITE from the other leg that is accepted. -/
theorem reinvites_taken_accepted :
    Taken (UA.recvEvent (sampleUpdate ['w'] 12)) ((run Mach.step describedCall
      [.input (.event (sampleUpdate ['z'] 11)) .calm, .tau .calm,
       .input (.response { Response.bare 200 .invite 2 with body := some (sampleBody ['v']) } []) .calm,
       .tau .calm, .ret, .tau .calm]).world .calm) := by
  have h := reinvites_taken describedCall
    [.input (.event (sampleUpdate ['z'] 11)) .calm, .tau .calm,
     .input (.response { Response.bare 200 .invite 2 with body := some (sampleBody ['v']) } []) .calm,
     .tau .calm, .ret, .tau .calm] (by decide) .calm (by simp [World.Calm, Mach.world, Io.calm])
  exact (h.2.2 ⟨by decide, by decide⟩ (by decide) rfl).1 _ (sampleBody ['w']) none rfl

def rejectedCall : Mach := run Mach.step describedCall
  [.input (.event (sampleUpdate ['z'] 11)) .calm, .tau .calm,
   .input (.response (.bare 488 .invite 2) []) .calm, .tau .calm, .ret, .tau .calm]

/-- The next one raises an exception. -/
theorem rejectedCall_not_taken : rejectedCall.ua.state = some .connected ∧ rejectedCall.todo = [] ∧
    ¬ Taken (UA.recvEvent (sampleUpdate ['w'] 12)) (rejectedCall.world .calm) := by
  refine ⟨by decide, by decide, fun h => ?_⟩
  have hl := (update_taken (by simp [World.Calm, Mach.world, Io.calm])
    (by simp [Mach.world, Io.calm]) (by decide) rfl).mp h
  exact absurd hl (by decide)

end Runs
end SippyB2bua.Ua
