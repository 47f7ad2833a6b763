import SippyB2bua.Ua.Credit

/-!
# A BYE from the far end

The 200 to a BYE is sent before its headers are read and before the state is left. What
raises after that leaves the call as it is, while the far end takes it to be over.
-/

namespace SippyB2bua.Ua
open Lib (Text Alarm run wp wp_mono wp_bind wp_ite)

def Io.raises (io : Io) (n : ℕ) : Bool := (io.faults.drop n).headD false

/-- What a BYE is to bring about, besides the state. -/
structure Leg where
  disconnectTs : Option Time
  creditTimer : Alarm
  equeue : List CCEvent
  answered : Bool

def World.leg (w : World) : Leg :=
  ⟨w.ua.disconnectTs, w.ua.creditTimer, w.ua.equeue, decide (.reply .bye 200 ∈ w.log)⟩

section Leaving
variable {w : World}

def World.leaveRaises (w : World) : Bool :=
  w.ua.state = some .connected &&
    (w.ua.kaTr && w.io.raises 0 || w.ua.pendingTr && w.io.raises w.ua.kaTr.toNat)

/-- The state is as it was, and as far as the leg goes nothing else has changed. -/
def SameLeg (w w' : World) : Prop := w'.ua.state = w.ua.state ∧ w'.leg = w.leg

/-- The calls out of a user agent, but the answer to a BYE, leave the leg alone. -/
theorem leg_act {w : World} {a : Act} {io : Io} (ha : a ≠ .reply .bye 200) :
    World.leg ⟨w.ua, w.seq, io, w.log ++ [a]⟩ = w.leg := by
  simp [World.leg, ha.symm]

theorem SameLeg.trans {w w₁ w₂ : World} (h : SameLeg w w₁) (h' : SameLeg w₁ w₂) : SameLeg w w₂ :=
  ⟨h'.1.trans h.1, h'.2.trans h.2⟩

/-- A call that is made if it is pending, and what is done about it. -/
theorem pending_leg {b : Bool} {a : Act} {f : UA → UA} (ha : a ≠ .reply .bye 200)
    (hf : ∀ w, SameLeg w { w with ua := f w.ua }) :
    wp (if b then do
        call a
        upd f
      else pure ⟨⟩)
      (fun _ w' => (b && w.io.raises 0) = false ∧ SameLeg w w' ∧
        w'.io.faults = w.io.faults.drop b.toNat ∧ (w'.ua = w.ua ∨ w'.ua = f w.ua))
      (fun _ w' => (b && w.io.raises 0) = true ∧ SameLeg w w') w := by
  rw [wp_ite]
  refine ⟨fun hb => ?_, fun hb => ?_⟩
  · have hraises : w.io.raises 0 = w.io.faults.headD false := rfl
    rw [wp_bind, wp_call, hb, Bool.true_and, hraises]
    split
    · rename_i h
      exact ⟨h, rfl, rfl⟩
    · rename_i h
      have hcalled : SameLeg w ⟨w.ua, w.seq, { w.io with faults := w.io.faults.tail }, w.log ++ [a]⟩ :=
        ⟨rfl, leg_act ha⟩
      exact ⟨by simpa using h, hcalled.trans (hf _), List.drop_one.symm, .inr rfl⟩
  · have hb : b = false := by simpa using hb
    subst hb
    exact ⟨rfl, ⟨rfl, rfl⟩, rfl, .inl rfl⟩

theorem leaveState_leg :
    wp leaveState (fun _ w' => w.leaveRaises = false ∧ SameLeg w w')
      (fun _ w' => w.leaveRaises = true ∧ SameLeg w w') w := by
  unfold leaveState
  rw [wp_bind, wp_getUA, wp_ite]
  refine ⟨fun hs => ?_, fun hs => ⟨by simp [World.leaveRaises, hs], rfl, rfl⟩⟩
  unfold UaStateConnected.onStateChange UaStateConnected.stopKeepAlive UaStateConnected.ackPending
  have hleave : w.leaveRaises =
      (w.ua.kaTr && w.io.raises 0 || w.ua.pendingTr && w.io.raises w.ua.kaTr.toNat) := by
    simp [World.leaveRaises, hs]
  rw [hleave, wp_bind, wp_bind, wp_getUA]
  refine wp_mono (pending_leg (f := fun ua => { ua with kaTr := false }) (by simp) fun w => ⟨rfl, rfl⟩)
    ?_ fun _ w' ⟨hka, h⟩ => ⟨by rw [hka, Bool.true_or], h⟩
  rintro _ w₁ ⟨hka, h₁, hfaults, hua⟩
  have hpending : w₁.ua.pendingTr = w.ua.pendingTr := by rcases hua with h | h <;> rw [h]
  have hraises : w₁.io.raises 0 = w.io.raises w.ua.kaTr.toNat := by
    simp only [Io.raises, hfaults, List.drop_zero]
  rw [hka, Bool.false_or, ← hpending, ← hraises, wp_bind, wp_bind, wp_getUA]
  refine wp_mono (pending_leg (f := fun ua => { ua with pendingTr := false }) (by simp) fun w => ⟨rfl, rfl⟩)
    ?_ fun _ w' ⟨hp, h⟩ => ⟨hp, h₁.trans h⟩
  rintro _ w₂ ⟨hp, h₂, -, -⟩
  have hcancel : SameLeg w₂ { w₂ with ua := { w₂.ua with expireTimer := w₂.ua.expireTimer.cancel } } :=
    ⟨rfl, rfl⟩
  exact ⟨hp, (h₁.trans h₂).trans hcancel⟩

/-- How a BYE ends that has come as far as to change the state. -/
structure Ending (w : World) (w' : World) : Prop where
  state : w'.ua.state = if w.leaveRaises then w.ua.state else some .disconnected
  leg : w'.leg = w.leg

theorem changeState_ending {c : Change} (hc : c.state = .disconnected) :
    wp (changeState c) (fun _ => Ending w) (fun _ => Ending w) w := by
  unfold changeState
  rw [wp_bind]
  refine wp_mono leaveState_leg ?_ fun _ w' ⟨h, hs⟩ => ⟨by rw [if_pos h]; exact hs.1, hs.2⟩
  rintro _ w₁ ⟨hleave, hsame⟩
  simp only [hc, construct, wp_bind, wp_upd]
  have hdone : w.leaveRaises = true → False := by simp [hleave]
  cases c.callback with
  | none =>
    refine ⟨by rw [if_neg hdone], ?_⟩
    exact hsame.2
  | some cb =>
    obtain ⟨which, rtime, origin⟩ := cb
    rw [wp_call]
    split
    · refine ⟨by rw [if_neg hdone], ?_⟩
      exact hsame.2
    · refine ⟨by rw [if_neg hdone], ?_⟩
      refine Eq.trans ?_ hsame.2
      exact @leg_act w₁ _ w₁.io (by simp)

/-- A BYE was taken: what is queued for it, and the state, if it could be left. -/
structure Dropped (w : World) (req : Request) (w' : World) : Prop where
  state : w'.ua.state = if w.leaveRaises then w.ua.state else some .disconnected
  since : w'.ua.disconnectTs = some req.rtime
  credit : w'.ua.creditTimer = w.ua.creditTimer
  answered : w'.leg.answered = w.leg.answered
  queued : ∃ e also, e.kind = .disconnect also ∧ e.rtime = req.rtime ∧ w'.ua.equeue = w.ua.equeue ++ [e]

theorem disconnectFromRequest_dropped {req : Request} {also : Option Text} {copyReason : Bool}
    {rest : List Todo} :
    wp (UasStateGeneric.disconnectFromRequest req also copyReason >>= fun ret => finish ret rest)
      (fun _ => Dropped w req) (fun _ => Dropped w req) w := by
  let e : CCEvent :=
    ⟨.disconnect also, req.rtime, w.ua.origin, w.seq, if copyReason then attempt req.reason else none⟩
  let w₁ : World := { w with
    ua := { w.ua with equeue := w.ua.equeue ++ [e], disconnectTs := some req.rtime }
    seq := w.seq + 1 }
  have hdropped {w' : World} (h : Ending w₁ w') : Dropped w req w' := by
    refine ⟨h.state, congrArg Leg.disconnectTs h.leg, congrArg Leg.creditTimer h.leg,
      (congrArg Leg.answered h.leg).trans rfl, e, also, rfl, rfl, congrArg Leg.equeue h.leg⟩
  simp only [UasStateGeneric.disconnectFromRequest, gotoWith, changeWith, finish, wp_bind, wp_getUA,
    wp_newEvent, wp_enqueue, wp_upd, Lib.wp_pure]
  exact wp_mono (changeState_ending (w := w₁) rfl) (fun _ _ h => hdropped h) fun _ _ h => hdropped h

end Leaving

/-- The call has ended for the user agent as it has for the far end. -/
structure Left (w : World) (req : Request) (w' : World) : Prop where
  state : w'.ua.state = some .disconnected
  since : w'.ua.disconnectTs = some req.rtime
  credit : w'.ua.creditTimer = w.ua.creditTimer.cancel
  queued : ∃ e also, e.kind = .disconnect also ∧ e.rtime = req.rtime ∧ w'.ua.equeue = w.ua.equeue ++ [e]

/-- Whether a BYE was answered with a 200, and what has become of the call. -/
def EndsLeg (w : World) (req : Request) : Prop :=
  wp (UA.recvRequest req) (fun _ w' => w'.leg.answered → Left w req w')
    (fun _ w' => w'.leg.answered → Left w req w') w

def World.later (w : World) (n : ℕ) : World :=
  { w with io := { w.io with faults := w.io.faults.drop n } }

/-- The 200 can be sent, but not what follows it done. -/
def World.halts (w : World) (req : Request) : Bool :=
  match w.ua.state with
  | some .connected => !w.io.raises 0 && (!req.also.all isOk || (w.later 1).leaveRaises)
  | some .uasRinging =>
    w.ua.uasResp.isSome && !w.io.raises 0 && !w.io.raises 1 && !req.also.all isOk
  | _ => false

def World.strands (w : World) (req : Request) : Bool :=
  !(w.ua.rCSeq.isSome && req.cseq ≤ w.ua.rCSeq.getD 0) && w.halts req

/-- What has become of the call, and whether that is what is expected. -/
structure Sorted (strands : Bool) (w : World) (req : Request) (w' : World) : Prop where
  stranded : strands = true → w'.leg.answered ∧ w'.ua.state ≠ some .disconnected
  left : strands = false → w'.leg.answered → Left w req w'

section States
variable {w : World} {req : Request} {rest : List Todo}

theorem Sorted.unanswered {b : Bool} {w' : World} (hb : b = false) (h : w'.leg.answered = false) :
    Sorted b w req w' :=
  ⟨fun h' => by simp [hb] at h', fun _ h' => by simp [h] at h'⟩

theorem wp_call_reply {a : Act} {Q : PUnit → World → Prop} {E : Raised → World → Prop}
    (hraise : w.io.raises 0 = true → E ⟨.other, []⟩ (w.later 1))
    (hdone : w.io.raises 0 = false → Q ⟨⟩ { w.later 1 with log := w.log ++ [a] }) :
    wp (call a) Q E w := by
  rw [wp_call]
  have hraises : w.io.raises 0 = w.io.faults.headD false := rfl
  have hlater : w.later 1 = { w with io := { w.io with faults := w.io.faults.tail } } := by
    simp [World.later]
  rw [hlater] at hraise hdone
  split
  · exact hraise (by rwa [hraises])
  · rename_i hf
    exact hdone (by rw [hraises]; exact Bool.eq_false_of_not_eq_true hf)

theorem getRequestAlso_cases {Q : Option Text → World → Prop} {E : Raised → World → Prop}
    (hok : req.also.all isOk = true → ∀ also, Q also w)
    (hbad : req.also.all isOk = false → ∀ e, E e w) :
    wp (UasStateGeneric.getRequestAlso req) Q E w := by
  unfold UasStateGeneric.getRequestAlso
  rcases hal : req.also with _ | also
  · exact hok (by rw [hal]; rfl) none
  · rw [Lib.wp_map, wp_ofLazy]
    cases also with
    | ok a => exact hok (by rw [hal]; rfl) _
    | error e => exact hbad (by rw [hal]; rfl) _

theorem connected_sorted (hs : w.ua.state = some .connected) (hlog : w.log = []) :
    let strands := !w.io.raises 0 && (!req.also.all isOk || (w.later 1).leaveRaises)
    wp (UaStateConnected.recvRequestBye req >>= fun ret => finish ret rest)
      (fun _ => Sorted strands w req) (fun _ => Sorted strands w req) w := by
  intro strands
  simp only [UaStateConnected.recvRequestBye, wp_bind]
  refine wp_call_reply (fun hf => ?_) fun hf => ?_
  · exact .unanswered (by simp [strands, hf]) (by simp [World.leg, World.later, hlog])
  · refine getRequestAlso_cases (fun hok also => ?_) fun hbad _ => ?_
    · simp only [cancelCreditTimer, wp_upd]
      let w₁ : World := { w.later 1 with
        ua := { w.ua with creditTimer := w.ua.creditTimer.cancel }, log := w.log ++ [.reply .bye 200] }
      have hleave : strands = w₁.leaveRaises := by
        have h : w₁.leaveRaises = (w.later 1).leaveRaises := rfl
        simp [strands, hf, hok, h]
      have hsorted {w' : World} (h : Dropped w₁ req w') : Sorted strands w req w' := by
        have hanswered : w'.leg.answered = true := by rw [h.answered]; simp [World.leg, w₁]
        refine ⟨fun hb => ⟨hanswered, ?_⟩, fun hb _ => ⟨?_, h.since, h.credit, h.queued⟩⟩
        · rw [h.state, if_pos (hleave ▸ hb)]
          have hstate : w₁.ua.state = some .connected := hs
          simp [hstate]
        · rw [h.state, if_neg (by simp [← hleave, hb])]
      exact (wp_bind _ _).mp (wp_mono (@disconnectFromRequest_dropped w₁ req also true rest)
        (fun _ _ h => hsorted h) fun _ _ h => hsorted h)
    · refine ⟨fun _ => ⟨by simp [World.leg], ?_⟩, fun hb => by simp [strands, hf, hbad] at hb⟩
      simp [World.later, hs]

theorem dropped_sorted {w₁ : World} {also : Option Text} {copyReason : Bool} (hw : w₁.leaveRaises = false)
    (hcredit : w₁.ua.creditTimer = w.ua.creditTimer.cancel) (hqueue : w₁.ua.equeue = w.ua.equeue) :
    wp (UasStateGeneric.disconnectFromRequest req also copyReason >>= fun ret => finish ret rest)
      (fun _ => Sorted false w req) (fun _ => Sorted false w req) w₁ := by
  have hsorted {w' : World} (h : Dropped w₁ req w') : Sorted false w req w' := by
    refine ⟨by simp, fun _ _ => ⟨?_, h.since, h.credit.trans hcredit, hqueue ▸ h.queued⟩⟩
    rw [h.state, hw, if_neg (by simp)]
  exact wp_mono disconnectFromRequest_dropped (fun _ _ h => hsorted h) fun _ _ h => hsorted h

theorem leaveRaises_false (hs : w.ua.state ≠ some .connected) : w.leaveRaises = false := by
  simp [World.leaveRaises, hs]

/-- Nothing but a call that raises keeps a response from being sent. -/
theorem sendUasResponse_cases {n : ℤ} {reason : Text} {body : Option Body} {hs : List Header}
    {Q : PUnit → World → Prop} {E : Raised → World → Prop} (hn : 200 ≤ n)
    (hnone : w.ua.uasResp = none → E ⟨.attributeError, []⟩ w)
    (hraise : w.ua.uasResp.isSome → w.io.raises 0 = true → E ⟨.other, []⟩ (w.later 1))
    (hdone : w.ua.uasResp.isSome → w.io.raises 0 = false → ∀ a, a ≠ .reply .bye 200 →
      Q ⟨⟩ { w.later 1 with
        ua := { w.ua with uasFinal := true, cancelCb := none }, log := w.log ++ [a] }) :
    wp (sendUasResponse (.num n) reason body hs) Q E w := by
  unfold sendUasResponse
  rw [wp_bind, wp_getUA]
  cases hresp : w.ua.uasResp with
  | none => exact hnone hresp
  | some cseq =>
    rw [wp_bind]
    refine wp_call_reply (hraise (by rw [hresp]; rfl)) fun hf => ?_
    rw [wp_ite]
    exact ⟨fun _ => hdone (by rw [hresp]; rfl) hf _ (by simp), fun h => absurd hn h⟩

theorem uasRinging_sorted (hm : req.method = .bye) (hs : w.ua.state = some .uasRinging)
    (hlog : w.log = []) (hcredit : w.ua.creditTimer = .off) :
    let strands :=
      w.ua.uasResp.isSome && !w.io.raises 0 && !w.io.raises 1 && !req.also.all isOk
    wp (UasStateRinging.recvRequest req >>= fun ret => finish ret rest)
      (fun _ => Sorted strands w req) (fun _ => Sorted strands w req) w := by
  intro strands
  have hoff : w.ua.creditTimer.cancel = w.ua.creditTimer := by rw [hcredit]; rfl
  simp only [UasStateRinging.recvRequest, hm, wp_bind]
  refine sendUasResponse_cases (by simp) (fun hnone => ?_) (fun _ hf => ?_) fun hresp hf a ha => ?_
  · exact .unanswered (by simp [strands, hnone]) (by simp [World.leg, hlog])
  · exact .unanswered (by simp [strands, hf]) (by simp [World.leg, World.later, hlog])
  have hlater : (w.later 1).io.raises 0 = w.io.raises 1 := by simp [Io.raises, World.later]
  refine wp_call_reply (fun hf' => ?_) fun hf' => ?_
  · have hf' : w.io.raises 1 = true := hlater ▸ hf'
    exact .unanswered (by simp [strands, hf']) (by simp [World.leg, World.later, hlog, ha.symm])
  · have hf' : w.io.raises 1 = false := hlater ▸ hf'
    refine getRequestAlso_cases (fun hok also => ?_) fun hbad _ => ?_
    · have hno : strands = false := by simp [strands, hok]
      rw [hno]
      simp only [cancelExpireTimer, wp_upd]
      refine (wp_bind _ _).mp (dropped_sorted (leaveRaises_false ?_) hoff.symm rfl)
      simp [World.later, hs]
    · refine ⟨fun _ => ⟨by simp [World.leg], ?_⟩, fun hb => ?_⟩
      · simp [World.later, hs]
      · simp [strands, hresp, hf, hf', hbad] at hb

theorem uasUpdating_sorted (hm : req.method = .bye) (hs : w.ua.state = some .uasUpdating)
    (hlog : w.log = []) :
    wp (UasStateUpdating.recvRequest req >>= fun ret => finish ret rest)
      (fun _ => Sorted false w req) (fun _ => Sorted false w req) w := by
  simp only [UasStateUpdating.recvRequest, hm, wp_bind]
  refine sendUasResponse_cases (by simp) (fun hnone => ?_) (fun _ hf => ?_) fun hresp hf a ha => ?_
  · exact .unanswered rfl (by simp [World.leg, hlog])
  · exact .unanswered rfl (by simp [World.leg, World.later, hlog])
  refine wp_call_reply (fun _ => ?_) fun _ => ?_
  · exact .unanswered rfl (by simp [World.leg, World.later, hlog, ha.symm])
  · simp only [cancelCreditTimer, wp_upd]
    refine (wp_bind _ _).mp (dropped_sorted (leaveRaises_false ?_) rfl rfl)
    simp [World.later, hs]

theorem uacUpdating_sorted (hm : req.method = .bye) (hs : w.ua.state = some .uacUpdating)
    (hlog : w.log = []) :
    wp (UacStateUpdating.recvRequest req >>= fun ret => finish ret rest)
      (fun _ => Sorted false w req) (fun _ => Sorted false w req) w := by
  simp only [UacStateUpdating.recvRequest, hm, wp_bind, cancelTransaction, wp_getUA, wp_ite]
  refine ⟨fun _ => ?_, fun _ => .unanswered rfl (by simp [World.leg, hlog])⟩
  refine wp_call_reply (fun _ => ?_) fun _ => wp_call_reply (fun _ => ?_) fun _ => ?_
  · exact .unanswered rfl (by simp [World.leg, World.later, hlog])
  · exact .unanswered rfl (by simp [World.leg, World.later, hlog])
  · simp only [cancelCreditTimer, wp_upd]
    refine (wp_bind _ _).mp (dropped_sorted (leaveRaises_false ?_) rfl rfl)
    simp [World.later, hs]

/-- The states in which a BYE is answered with a 200 and ends the call. -/
def UaState.hangable (s : UaState) : Bool := s.isConnected || s = .uasRinging

theorem handled_sorted {s : UaState} (hm : req.method = .bye) (hs : w.ua.state = some s)
    (hhang : s.hangable) (hlog : w.log = []) (hcredit : s = .uasRinging → w.ua.creditTimer = .off) :
    wp (stateRecvRequest s req >>= fun ret => finish ret rest) (fun _ => Sorted (w.halts req) w req)
      (fun _ => Sorted (w.halts req) w req) w := by
  unfold World.halts
  rw [hs]
  cases s with
  | connected =>
    have hrecv : stateRecvRequest .connected req = UaStateConnected.recvRequestBye req := by
      simp only [stateRecvRequest, UaStateConnected.recvRequest, hm]
    rw [hrecv]
    exact connected_sorted hs hlog
  | uasRinging => exact uasRinging_sorted hm hs hlog (hcredit rfl)
  | uasUpdating => exact uasUpdating_sorted hm hs hlog
  | uacUpdating => exact uacUpdating_sorted hm hs hlog
  | _ => cases hhang

theorem recvRequest_sorted {s : UaState} (hm : req.method = .bye) (hs : w.ua.state = some s)
    (hhang : s.hangable) (hlog : w.log = []) (hcredit : s = .uasRinging → w.ua.creditTimer = .off) :
    wp (UA.recvRequest req) (fun _ => Sorted (w.strands req) w req)
      (fun _ => Sorted (w.strands req) w req) w := by
  unfold UA.recvRequest UA.wake
  rw [wp_bind, wp_getUA, wp_ite]
  refine ⟨fun hold => ?_, fun hnew => ?_⟩
  · rw [wp_bind, wp_act]
    refine .unanswered ?_ (by simp [World.leg, hlog, hm])
    simp [World.strands, hold]
  · let w₀ : World := { w with ua := { w.ua with rCSeq := some req.cseq } }
    have hnew : (w.ua.rCSeq.isSome && decide (req.cseq ≤ w.ua.rCSeq.getD 0)) = false := by
      simpa using hnew
    have hstrands : w.strands req = w₀.halts req := by
      rw [World.strands, hnew]
      rfl
    have hsorted {w' : World} (h : Sorted (w.strands req) w₀ req w') : Sorted (w.strands req) w req w' :=
      ⟨h.stranded, fun hb ha =>
        have hleft := h.left hb ha
        ⟨hleft.state, hleft.since, hleft.credit, hleft.queued⟩⟩
    have hwake : w₀.ua.state ≠ none := by simp [w₀, hs]
    simp only [wp_bind, wp_upd, wp_getUA, wp_ite]
    refine ⟨fun h => absurd h.1 hwake, fun _ => ?_⟩
    rw [Lib.wp_pure]
    split
    · rename_i hnone
      exact absurd hnone hwake
    · rename_i s' hs'
      obtain rfl : s' = s := Option.some.inj (hs'.symm.trans hs)
      have hrest (ret : Ret) : (if ret.changes && req.method = .invite then [.emitPending, .accepted]
          else [.emitPending]) = [Todo.emitPending] := by simp [hm]
      simp only [hrest]
      rw [hstrands] at hsorted ⊢
      exact wp_mono (handled_sorted (w := w₀) hm hs hhang hlog hcredit) (fun _ _ h => hsorted h)
        fun _ _ h => hsorted h

end States

def UaState.early (s : UaState) : Bool :=
  s = .uasIdle || s = .uacIdle || s = .uasTrying || s = .uasRinging

section Early
variable {w : World}

theorem Tick.early {s s' : UaState} {d : Dispatch} {μ : Meter} (h : Tick w s d (.to s') μ)
    (hs' : s'.early) : s.early ∧ μ.credit = w.meter.credit := by
  cases h with
  | trying => exact ⟨rfl, by simp⟩
  | rings => exact ⟨rfl, by simp⟩
  | idle hr | acks hr | waits hr | accepts hr | sets hr => simp [Res.keeps] at hr
  | refuses _ _ h => rcases h with rfl | rfl <;> cases hs'
  | provisional _ _ hr =>
    obtain rfl : s' = .uacRinging := by simpa [Res.keeps] using hr
    cases hs'
  | _ => cases hs'

theorem Tick.early_keeps {s : UaState} {d : Dispatch} {r : Res} {μ : Meter} (h : Tick w s d r μ)
    (hr : r.keeps) (hs : s.early) : μ.credit = w.meter.credit := by
  have hcalling (h : s.calling) : False := by
    cases s <;> simp_all [UaState.early, UaState.calling]
  cases h with
  | idle | invited | sets => simp
  | acks | waits | accepts => cases hs
  | provisional h | unread h | broken h => exact (hcalling h).elim
  | _ => simp [Res.keeps] at hr

theorem Given.creditOff {i : Input} {d : Dispatch} {μ : Meter} (h : Given w i d μ)
    (hoff : w.ua.creditTimer = .off) : μ.creditTimer = .off := by
  by_cases hcredit : ∃ t, i = .timeout (.credit t)
  · obtain ⟨t, rfl⟩ := hcredit
    cases h with
    | ending h =>
      obtain ⟨-, rfl⟩ : _ ∧ { w.meter with creditTimer := w.meter.creditTimer.fire t } = μ := by
        simpa [Input.ending] using h
      have hfire : w.ua.creditTimer.fire t = .off := by rw [hoff]; rfl
      exact hfire
  · have hkept : μ.credit = w.meter.credit := h.credit fun t ht => hcredit ⟨t, ht⟩
    exact (congrArg Credit.timer hkept).trans hoff

theorem Turn.early {i : Input} {st : Option UaState} {μ : Meter} (h : Turn w i st μ)
    (hw : w.ua.state.all UaState.early → w.ua.creditTimer = .off) (hst : st.all UaState.early) :
    μ.creditTimer = .off := by
  have hreceiver {s : UaState} {d : Dispatch} (hr : s ∈ w.ua.receiver d) (hs : s.early) :
      w.ua.state.all UaState.early := by
    rcases receiver_eq hr with h | ⟨h, -⟩ <;> simp [h, hs]
  have hdrop {a : Alarm} (ha : a = .off) : a.drop = .off := by rw [ha]; rfl
  cases h with
  | rests | probes => exact hw hst
  | handled hg hr _ ht hkeeps =>
    have hcredit := ht.early_keeps hkeeps hst
    exact (congrArg Credit.timer hcredit).trans (hg.creditOff (hw (hreceiver hr hst)))
  | @shifted _ _ s s' w₁ ν _ _ hg hr _ ht hshift =>
    cases hshift with
    | done =>
      obtain ⟨hs, hcredit⟩ := ht.early hst
      have hoff : ν.creditTimer = .off :=
        (congrArg Credit.timer hcredit).trans (hg.creditOff (hw (hreceiver hr hs)))
      have hleave : (ν.leave (some s)).creditTimer = .off :=
        (congrArg Credit.timer (Meter.credit_leave _)).trans hoff
      cases s' with
      | dead => cases hst
      | _ => exact hleave
    | stuck p hc =>
      rw [hc] at hst
      cases hst
    | unburied hdead =>
      subst hdead
      obtain ⟨-, hν⟩ := ht.dies
      have hcredit : ν.creditTimer = w₁.meter.creditTimer := by rcases hν with rfl | ⟨t, rfl⟩ <;> rfl
      have hleave : (ν.leave (some s)).creditTimer = .off :=
        (congrArg Credit.timer (Meter.credit_leave _)).trans
          (hcredit.trans (hg.creditOff (hw (hreceiver hr hst))))
      exact hdrop hleave
  | cancelled _ hshift | unupdated _ hshift =>
    cases hshift with
    | done => cases hst
    | stuck p hc =>
      rw [hc] at hst
      cases hst
    | unburied hdead => cases hdead
  | resets =>
    have hoff := hw hst
    unfold Meter.reset
    rw [if_neg ?_]
    · exact hoff
    · intro hc
      cases hs : w.ua.state with
      | none => simp [hs] at hc
      | some s => cases s <;> simp_all [UaState.early, UaState.isConnected]
  | dies _ hshift =>
    cases hshift with
    | done => cases hst
    | stuck p hc =>
      rw [hc] at hst
      cases hst
    | unburied =>
      exact hdrop ((congrArg Credit.timer (Meter.credit_leave _)).trans (hw hst))
  | refers => exact hw hst

theorem early_off {ua : UA} (hua : ua.Unused) (ls : List Label) :
    let ua' := (run Mach.step (.start ua) ls).ua
    ua'.state.all UaState.early → ua'.creditTimer = .off := by
  refine (Lib.run_invariant (I := fun m : Mach => m.ua.Sound ∧
    (m.ua.state.all UaState.early → m.ua.creditTimer = .off)) (fun m l h => ?_)
    ⟨hua.sound, fun _ => ?_⟩ ls).2
  · obtain ⟨hsound, hm⟩ := m.metered l h.1
    refine ⟨hsound, fun hst => ?_⟩
    cases hm with
    | method _ _ _ _ _ _ hturn _ => exact hturn.early h.2 hst
    | other hstate hmeter _ _ =>
      rw [hstate] at hst
      exact (congrArg Meter.creditTimer (hmeter 0)).trans (h.2 hst)
  · exact hua.creditTimer

end Early

/-- A BYE that is answered with a 200 ends the call, unless its Also cannot be read or a call that
was pending raises. -/
theorem bye_ends_leg {ua : UA} (hua : ua.Unused) (ls : List Label) (io : Io) {req : Request}
    (hreq : req.method = .bye) :
    let w := (run Mach.step (.start ua) ls).world io
    w.ua.state.any UaState.hangable → (EndsLeg w req ↔ w.strands req = false) := by
  intro w hstate
  obtain ⟨s, hs, hhang⟩ : ∃ s, w.ua.state = some s ∧ s.hangable := by
    simpa [Option.any_eq_true] using hstate
  have hcredit : s = .uasRinging → w.ua.creditTimer = .off := by
    rintro rfl
    refine early_off hua ls ?_
    rw [show (run Mach.step (.start ua) ls).ua.state = some .uasRinging from hs]
    rfl
  have hsorted := recvRequest_sorted hreq hs hhang rfl hcredit
  cases hb : w.strands req with
  | false =>
    refine iff_of_true ?_ rfl
    rw [hb] at hsorted
    exact wp_mono hsorted (fun _ _ h => h.left rfl) fun _ _ h => h.left rfl
  | true =>
    refine iff_of_false (fun hends => ?_) (by simp)
    rw [hb] at hsorted
    obtain ⟨hanswered, hno⟩ := (Lib.endState_of_wp hsorted).stranded rfl
    exact hno (Lib.endState_of_wp hends hanswered).state

def hungUpWorld : World := (run Mach.step (.start namedUA) billedCall).world .calm

theorem bye_ends_leg_plain : EndsLeg hungUpWorld (.bare .bye 1) :=
  (bye_ends_leg namedUA_unused billedCall .calm rfl (by decide)).mpr (by decide)

/-- A BYE with an Also that cannot be read leaves the call connected. -/
theorem misreadBye_not_endsLeg :
    ¬ EndsLeg hungUpWorld { Request.bare .bye 1 with also := some (.error .other) } := by
  intro h
  have hleft := Lib.endState_of_wp h (by decide)
  exact absurd hleft.state (by decide)

end SippyB2bua.Ua
