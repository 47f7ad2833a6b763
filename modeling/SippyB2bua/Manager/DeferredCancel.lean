import SippyB2bua.Manager.ClientProtocol

/-!
# The CANCEL of an INVITE

Before the first provisional response `cancelTransaction` leaves a mark, and
the response starts the CANCEL; afterwards `cancelTransaction` starts it at
once. The mark does not keep the extra headers, and nothing remembers that a
CANCEL was started. With one call, whose extra headers come late enough, both
ways come to the same: one CANCEL transaction with the headers that were given.
-/

namespace SippyB2bua.Manager
open Lib (Text Dict Timer modifyAt run Along)

def CTr.fate (t : CTr) : Option CTid × TState × Option Req × Bool × Option Server :=
  (t.tid, t.state, t.cancel, t.cancelPending, t.userv)

def CTr.over (t : CTr) : Prop := ¬ t.open ∨ (t.tid = none ∧ t.cancel = none)

theorem CTr.over_of_fate {t t' : CTr} (h : t'.fate = t.fate) (hover : t.over) : t'.over := by
  simp only [CTr.fate, Prod.mk.injEq] at h
  unfold CTr.over CTr.open
  rw [h.1, h.2.1, h.2.2.1]
  exact hover

/-- Nothing is stored under `k`, the identifier of the CANCEL of transaction `c`, and that
transaction stays as it is, or is over if `p` allows it. -/
structure CancelKept (c : ℕ) (k : CTid) (p : Prop) (v w : CView) : Prop where
  slot : w.tclient k = v.tclient k ∨ w.tclient k = none
  fate : (w.cheap c).fate = (v.cheap c).fate ∨ p ∧ (w.cheap c).over
  others : ∀ c' r, c' ≠ c → (w.cheap c').cancel = some r → r.ctid = k →
    ∃ r', (v.cheap c').cancel = some r' ∧ r'.ctid = k
  next : v.cnext ≤ w.cnext
  frame : ∀ resp, w.cb = some (.final c resp) → v.cb = some (.final c resp) ∨ p

namespace CancelKept
variable {c c' : ℕ} {k : CTid} {p : Prop} {v w x : CView}

theorem refl (v : CView) : CancelKept c k p v v :=
  ⟨.inl rfl, .inl rfl, fun _ r _ hr hk => ⟨r, hr, hk⟩, Nat.le_refl _, fun _ => .inl⟩

theorem trans (h : CancelKept c k p v w) (h' : CancelKept c k p w x) : CancelKept c k p v x := by
  refine ⟨?_, ?_, fun c' r hne hr hk => ?_, h.next.trans h'.next, fun resp hcb => ?_⟩
  · rcases h'.slot with hs | hs
    · exact hs ▸ h.slot
    · exact .inr hs
  · rcases h'.fate with hf | hf
    · rcases h.fate with hw | ⟨hp, hover⟩
      · exact .inl (hf.trans hw)
      · exact .inr ⟨hp, CTr.over_of_fate hf hover⟩
    · exact .inr hf
  · obtain ⟨r', hr', hk'⟩ := h'.others c' r hne hr hk
    exact h.others c' r' hne hr' hk'
  · rcases h'.frame resp hcb with hw | hp
    · exact h.frame resp hw
    · exact .inr hp

theorem of_same (hcheap : w.cheap = v.cheap) (hnext : w.cnext = v.cnext)
    (htable : w.tclient = v.tclient)
    (hcb : ∀ resp, w.cb = some (.final c resp) → v.cb = some (.final c resp) ∨ p) :
    CancelKept c k p v w where
  slot := by rw [htable]; exact .inl rfl
  fate := by rw [hcheap]; exact .inl rfl
  others c' r _ hr hk := by rw [hcheap] at hr; exact ⟨r, hr, hk⟩
  next := hnext.ge
  frame := hcb

theorem of_aside (h : Aside v w) : CancelKept c k p v w := by
  refine of_same h.cheap h.cnext h.tclient fun resp hcb => .inl ?_
  rcases h.cb with heq | ⟨-, hfree⟩
  · exact heq ▸ hcb
  · exact absurd ⟨_, hcb, rfl⟩ hfree

theorem modify (f : CTr → CTr) (hw : w.cheap = modifyAt v.cheap c' f) (hnext : w.cnext = v.cnext)
    (hcb : w.cb = v.cb)
    (hslot : w.tclient = v.tclient ∨ ∃ k', w.tclient = v.tclient.del k')
    (hcancel : ∀ r, (f (v.cheap c')).cancel = some r → ∃ r', (v.cheap c').cancel = some r' ∧
      r'.ctid = r.ctid)
    (hfate : c' = c → (f (v.cheap c)).fate = (v.cheap c).fate ∨ p ∧ (f (v.cheap c)).over) :
    CancelKept c k p v w where
  slot := by
    rcases hslot with hs | ⟨k', hs⟩
    · rw [hs]; exact .inl rfl
    · rw [hs, Dict.del_apply]
      split
      · exact .inr rfl
      · exact .inl rfl
  fate := by
    rw [hw]
    by_cases hc : c = c'
    · subst hc
      simpa using hfate rfl
    · rw [Lib.modifyAt_other _ _ hc]
      exact .inl rfl
  others i r _ hr hk := by
    rw [hw] at hr
    by_cases hc : i = c'
    · subst hc
      rw [Lib.modifyAt_same] at hr
      obtain ⟨r', hr', heq⟩ := hcancel r hr
      exact ⟨r', hr', heq.trans hk⟩
    · rw [Lib.modifyAt_other _ _ hc] at hr
      exact ⟨r, hr, hk⟩
  next := hnext.ge
  frame _ := by rw [hcb]; exact .inl

theorem touch (c' : ℕ) (f : CTr → CTr) (hw : w.cheap = modifyAt v.cheap c' f)
    (hnext : w.cnext = v.cnext) (htable : w.tclient = v.tclient) (hcb : w.cb = v.cb)
    (hfate : ∀ t, (f t).fate = t.fate) : CancelKept c k p v w := by
  refine .modify f hw hnext hcb (.inl htable) (fun r hr => ⟨r, ?_, rfl⟩) fun _ => .inl (hfate _)
  have hcancel := congrArg (fun t => t.2.2.1) (hfate (v.cheap c'))
  exact hcancel.symm.trans hr

end CancelKept

namespace TM
section Kept
variable {c c' : ℕ} {k : CTid} {p : Prop} {env : Env} {tm : TM} {resp : Resp} {checksum rnd : Text}

theorem updC_kept (f : CTr → CTr)
    (hcancel : (f (tm.cheap c')).cancel = (tm.cheap c').cancel)
    (hfate : c' = c → (f (tm.cheap c)).fate = (tm.cheap c).fate ∨ p ∧ (f (tm.cheap c)).over) :
    CancelKept c k p tm.cview (tm.updC c' f).cview :=
  .modify f rfl rfl rfl (.inl rfl) (fun r hr => ⟨r, hcancel ▸ hr, rfl⟩) hfate

theorem removeClient_kept (hp : c' = c → p) :
    CancelKept c k p tm.cview (removeClient tm c').1.cview := by
  unfold removeClient
  split
  · exact .refl _
  · rename_i k' _
    split
    · exact .refl _
    · refine .modify CTr.cleanup rfl rfl rfl (.inr ⟨k', rfl⟩) (fun r hr => ?_) fun hc => ?_
      · exact absurd hr.symm (Option.some_ne_none _)
      · exact .inr ⟨hp hc, .inr ⟨rfl, rfl⟩⟩

theorem transmitData_kept {o : Origin} {userv : Server} {data : Text} {addr : TAddr}
    {cachesum : Option Text} {lossemul : ℕ} :
    CancelKept c k p tm.cview (transmitData env tm o userv data addr cachesum lossemul).1.cview := by
  unfold transmitData
  split
  · exact .refl _
  · cases cachesum with
    | none => exact .of_same rfl rfl rfl fun _ => .inl
    | some sum => exact .of_same rfl rfl rfl fun _ => .inl

theorem newTransaction_kept {msg : Option Req} {respCb compact : Bool} {userv : Except Exn Server}
    (hlt : c ≠ tm.cnext) (hmsg : ∀ r, msg = some r → r.ctid ≠ k ∧ (r.method = .invite →
      r.genCANCEL.ctid ≠ k)) :
    CancelKept c k p tm.cview (newTransaction env tm msg respCb compact userv).1.cview := by
  unfold newTransaction
  split
  · exact .refl _
  · rename_i msg
    obtain ⟨hk, hcancel⟩ := hmsg msg rfl
    split
    · exact .refl _
    · split
      · exact .refl _
      · exact .refl _
      · exact .refl _
      · exact .refl _
      · refine .trans ⟨.inl ?_, .inl ?_, fun i r _ hr hi => ?_, Nat.le_succ _,
          ?_⟩ transmitData_kept
        · exact Dict.set_other _ _ (Ne.symm hk)
        · exact congrArg CTr.fate (Function.update_of_ne hlt _ _)
        · by_cases hnew : i = tm.cnext
          · subst hnew
            simp only [cview, Function.update_self] at hr
            split at hr
            · rename_i hinvite
              rw [← Option.some.inj hr] at hi
              exact absurd hi (hcancel hinvite)
            · exact absurd hr.symm (Option.some_ne_none _)
          · simp only [cview, Function.update_of_ne hnew] at hr
            exact ⟨r, hr, hi⟩
        · exact fun _ => .inl

theorem startCancel_kept (hlt : c ≠ tm.cnext) (hother : ∀ r, (tm.cheap c').cancel = some r →
    r.ctid ≠ k ∧ r.method = .cancel) :
    CancelKept c k p tm.cview (startCancel env tm c').1.cview := by
  refine newTransaction_kept hlt fun r hr => ⟨(hother r hr).1, fun hinvite => ?_⟩
  rw [(hother r hr).2] at hinvite
  exact absurd hinvite (by decide)

theorem cancelTransaction_kept {eh : Option Text} (hlt : c ≠ tm.cnext) (hne : c' ≠ c)
    (hother : ∀ r, (tm.cheap c').cancel = some r → r.ctid ≠ k ∧ r.method = .cancel) :
    CancelKept c k p tm.cview (cancelTransaction env tm c' eh).1.cview := by
  unfold cancelTransaction
  split
  · exact updC_kept (fun t => { t with cancelPending := true }) rfl fun hc => absurd hc hne
  · cases eh with
    | none => exact startCancel_kept hlt hother
    | some eh =>
      let f : CTr → CTr := fun t => { t with
        cancel := t.cancel.map fun r => { r with rest := r.rest ++ eh } }
      have hsome : ∀ r, (f (tm.cheap c')).cancel = some r → ∃ r', (tm.cheap c').cancel = some r' ∧
          r'.ctid = r.ctid ∧ r'.method = r.method := by
        intro r hr
        obtain ⟨r', hr', rfl⟩ := Option.map_eq_some_iff.mp hr
        exact ⟨r', hr', rfl, rfl⟩
      have htouch : CancelKept c k p tm.cview (tm.updC c' f).cview := by
        refine .modify f rfl rfl rfl (.inl rfl) (fun r hr => ?_) fun hc => absurd hc hne
        obtain ⟨r', hr', heq, -⟩ := hsome r hr
        exact ⟨r', hr', heq⟩
      refine htouch.trans (startCancel_kept hlt fun r hr => ?_)
      obtain ⟨r', hr', heq, hm⟩ := hsome r (by simpa [updC] using hr)
      exact heq ▸ hm ▸ hother r' hr'

theorem notify_kept {f : Frame} {next : TM → Out} (hf : ∀ resp, f = .final c resp → p)
    (hnext : CancelKept c k p tm.cview (next tm).1.cview) :
    CancelKept c k p tm.cview (notify tm c' resp f next).1.cview := by
  unfold notify
  split
  · exact .of_same rfl rfl rfl fun resp hcb => .inr (hf resp (Option.some.inj hcb))
  · exact hnext

theorem andThen_kept {v : CView} {r : Out} {f : TM → Out} (hr : CancelKept c k p v r.1.cview)
    (hf : ∀ tm, CancelKept c k p v tm.cview → CancelKept c k p v (f tm).1.cview) :
    CancelKept c k p v (r.andThen f).1.cview := by
  unfold Out.andThen
  split
  · exact hf _ hr
  · exact hr

theorem acknowledge_kept (hp : c' = c → p) :
    CancelKept c k p tm.cview (acknowledge env tm c' resp checksum rnd).1.cview := by
  rcases acknowledge_cases env tm c' resp checksum rnd with
    ⟨ack, -, hfst, -⟩ | ⟨ack, u, data, addr, hview, -⟩ | ⟨ack, addr, -, hview, -⟩
  · rw [hfst]
    exact .touch c' (fun t => { t with ack := ack }) rfl rfl rfl rfl fun _ => rfl
  · rw [hview]
    exact .touch c' (fun t => { t with ack := some ack }) rfl rfl rfl rfl fun _ => rfl
  · rw [hview]
    refine updC_kept (fun t => { t with
      ack := some ack, state := .uack, ackRAddr := some addr, ackChecksum := checksum,
      teG := t.teG.arm }) rfl fun hc => .inr ⟨hp hc, .inl ?_⟩
    simp [CTr.open]

theorem afterFinal_kept (hp : c' = c → p) :
    CancelKept c k p tm.cview (afterFinal tm c').1.cview := by
  unfold afterFinal
  split
  · exact .refl _
  · exact removeClient_kept hp

theorem finalResponse_kept (hp : c' = c → p) :
    CancelKept c k p tm.cview (finalResponse env tm c' resp checksum rnd).1.cview := by
  unfold finalResponse
  refine andThen_kept ?_ fun tm' h => h.trans (notify_kept (fun _ heq => hp (Frame.final.inj heq).1)
    (afterFinal_kept hp))
  split
  · exact acknowledge_kept hp
  · exact .of_same rfl rfl rfl fun _ => .inl

/-- A provisional response, unless it is the first one of the transaction itself. -/
theorem provisional_kept (hlt : c ≠ tm.cnext) (hc : c' = c → (tm.cheap c').state ≠ .trying)
    (hother : c' ≠ c → ∀ r, (tm.cheap c').cancel = some r → r.ctid ≠ k ∧ r.method = .cancel) :
    CancelKept c k p tm.cview (provisional env tm c' resp checksum).1.cview := by
  have hend : ∀ tm' : TM, CancelKept c k p tm.cview tm'.cview → CancelKept c k p tm.cview
      (notify ((tm'.updC c' fun t => { t with teB := t.teB.arm }).remember checksum) c' resp
        (.provisional c') ok).1.cview := by
    intro tm' h
    have harm : CancelKept c k p tm'.cview
        ((tm'.updC c' fun t => { t with teB := t.teB.arm }).remember checksum).cview :=
      .touch c' (fun t => { t with teB := t.teB.arm }) rfl rfl rfl rfl fun _ => rfl
    exact h.trans (harm.trans (notify_kept (fun _ heq => Frame.noConfusion heq) (.refl _)))
  unfold provisional
  refine andThen_kept ?_ hend
  split
  · rename_i htry
    have hne : c' ≠ c := fun h => hc h htry
    have hring : CancelKept c k p tm.cview
        (tm.updC c' fun t => { t with state := .ringing }).cview :=
      updC_kept (fun t => { t with state := .ringing }) rfl fun h => absurd h hne
    dsimp only
    split
    · refine andThen_kept (hring.trans (startCancel_kept hlt fun r hr => ?_)) fun tm' h => ?_
      · exact hother hne r (by simpa [updC] using hr)
      · exact h.trans (updC_kept (fun t => { t with cancelPending := false }) rfl
          fun h => absurd h hne)
    · exact hring
  · exact .refl _

theorem incomingResponse_kept (hlt : c ≠ tm.cnext) (hp : c' = c → 200 ≤ resp.scode → p)
    (hc : c' = c → resp.scode < 200 → (tm.cheap c').state ≠ .trying)
    (hother : c' ≠ c → ∀ r, (tm.cheap c').cancel = some r → r.ctid ≠ k ∧ r.method = .cancel) :
    CancelKept c k p tm.cview (incomingResponse env tm c' resp checksum rnd).1.cview := by
  have hstop : CancelKept c k p tm.cview (tm.updC c' CTr.stopped).cview :=
    .touch c' CTr.stopped rfl rfl rfl rfl fun _ => rfl
  have hstate : ((tm.updC c' CTr.stopped).cheap c').state = (tm.cheap c').state := by
    simp [updC, CTr.stopped]
  have hcancel : ((tm.updC c' CTr.stopped).cheap c').cancel = (tm.cheap c').cancel := by
    simp [updC, CTr.stopped]
  unfold incomingResponse
  dsimp only
  split
  · split
    · rename_i hcode
      have hlt' : c ≠ (tm.updC c' CTr.stopped).cnext := hlt
      refine hstop.trans (provisional_kept hlt' ?_ ?_)
      · exact fun h => hstate ▸ hc h hcode
      · exact fun h => hcancel ▸ hother h
    · rename_i hcode
      exact hstop.trans (finalResponse_kept fun h => hp h (by omega))
  · exact .refl _

theorem sendACK_kept (hp : c' = c → (tm.cheap c').ackRAddr ≠ none → p) :
    CancelKept c k p tm.cview (sendACK env tm c').1.cview := by
  unfold sendACK
  dsimp only
  split
  · exact .of_same rfl rfl rfl fun _ => .inl
  · rename_i addr haddr
    have hstop : CancelKept c k p tm.cview ((tm.record (.callSendACK c')).updC c' fun t => { t with
        teG := t.teG.cancel }).cview :=
      .touch c' (fun t => { t with teG := t.teG.cancel }) rfl rfl rfl rfl fun _ => rfl
    split
    · refine hstop.trans (andThen_kept transmitData_kept fun tm' h => ?_)
      refine h.trans (removeClient_kept fun heq => hp heq ?_)
      exact fun hnone => Option.some_ne_none _ (haddr.symm.trans hnone)
    · exact hstop

theorem clientTimerA_kept : CancelKept c k p tm.cview (clientTimerA env tm c').1.cview := by
  have hfired : CancelKept c k p tm.cview
      (tm.updC c' fun t => { t with teA := t.teA.fired }).cview :=
    .touch c' (fun t => { t with teA := t.teA.fired }) rfl rfl rfl rfl fun _ => rfl
  unfold clientTimerA
  dsimp only
  split
  · exact hfired
  · refine hfired.trans (andThen_kept transmitData_kept fun tm' h => ?_)
    exact h.trans (.touch c' (fun t => { t with teA := t.teA.arm }) rfl rfl rfl rfl fun _ => rfl)

theorem timerB_kept (hp : c' = c → p) : CancelKept c k p tm.cview (timerB tm c').1.cview := by
  have hexpired : CancelKept c k p tm.cview (tm.updC c' fun t => { t with
      teB := t.teB.fire, teA := t.teA.cancel, state := .terminated, teC := t.teC.arm }).cview := by
    refine updC_kept (fun t => { t with
      teB := t.teB.fire, teA := t.teA.cancel, state := .terminated, teC := t.teC.arm }) rfl
      fun hc => .inr ⟨hp hc, .inl ?_⟩
    simp [CTr.open]
  unfold timerB
  dsimp only
  split
  · exact hexpired
  · exact hexpired.trans (notify_kept (fun _ heq => Frame.noConfusion heq) (.refl _))

theorem timerC_kept (hp : c' = c → p) : CancelKept c k p tm.cview (timerC tm c').1.cview := by
  have hfired : CancelKept c k p tm.cview (tm.updC c' fun t => { t with teC := t.teC.fire }).cview :=
    .touch c' (fun t => { t with teC := t.teC.fire }) rfl rfl rfl rfl fun _ => rfl
  exact hfired.trans (removeClient_kept hp)

theorem settle_kept {v : CView} {r : Out} (h : CancelKept c k p v r.1.cview) :
    CancelKept c k p v (settle r).cview := by
  unfold settle
  split
  · exact h
  · exact h.trans (.of_same rfl rfl rfl fun _ => .inl)

end Kept

/-- The response of the label is taken up by the client transaction. -/
def Taken (env : Env) (tm : TM) (c : ℕ) (l : Label) (resp : Resp) : Prop :=
  ∃ dg, l = .recv dg ∧ tm.cb = none ∧ 32 ≤ size dg ∧ tm.lookup (env.md5 dg.data) = none ∧
    Lib.Text.startsWith dg.data sip20 = true ∧ Matches env tm dg c resp ∧
    100 ≤ resp.scode ∧ resp.scode ≤ 999

/-- Labels with which the transaction may be over. -/
def Decides (env : Env) (tm : TM) (c : ℕ) (l : Label) : Prop :=
  (∃ resp, Taken env tm c l resp ∧ 200 ≤ resp.scode) ∨
  (∃ rnd, l = .fire .clientB c rnd ∧ tm.cb = none ∧ 0 < (tm.cheap c).teB.live) ∨
  (∃ rnd, l = .fire .clientC c rnd ∧ 0 < (tm.cheap c).teC.live) ∨
  (l = .call (.sendACK c) ∧ (tm.cheap c).ackRAddr ≠ none) ∨
  ∃ r rnd resp, l = .ret r rnd ∧ tm.cb = some (.final c resp)

section Step
variable {c : ℕ} {k : CTid} {env : Env} {tm : TM} {l : Label}

/-- No other transaction has `k` as the identifier of its CANCEL. -/
def Alone (c : ℕ) (k : CTid) (tm : TM) : Prop :=
  ∀ c' r, c' ≠ c → (tm.cheap c').cancel = some r → r.ctid ≠ k ∧ r.method = .cancel

theorem handleIncoming_kept {dg : Dgram} {p : Prop} (hcb : tm.cb = none) (hlt : c ≠ tm.cnext)
    (halone : Alone c k tm) (hp : ∀ resp, Taken env tm c (.recv dg) resp → 200 ≤ resp.scode → p)
    (hc : ∀ resp, Taken env tm c (.recv dg) resp → resp.scode < 200 →
      (tm.cheap c).state ≠ .trying) :
    CancelKept c k p tm.cview (handleIncoming env tm dg).1.cview := by
  have hnb : ¬ busy tm.cview.cb := by rw [cview, hcb]; exact not_busy_none
  have harr : CancelKept c k p tm.cview (tm.record (.arrived dg.data)).cview := .of_same rfl rfl rfl fun _ => .inl
  unfold handleIncoming
  dsimp only
  split
  · exact harr
  · rename_i hsize
    split
    · exact harr
    · exact harr.trans transmitData_kept
    · rename_i hlookup
      split
      · rename_i hsip
        unfold handleResponse
        split
        · exact .of_same rfl rfl rfl fun _ => .inl
        · rename_i received hparse
          split
          · exact .of_same rfl rfl rfl fun _ => .inl
          · rename_i hcode
            split
            · exact .of_same rfl rfl rfl fun _ => .inl
            · rename_i c' hc'
              split
              · exact harr
              · rename_i resp hfix
                obtain ⟨contacts, hresp⟩ := fixResponse_eq hfix
                have hscode : resp.scode = received.scode := by rw [hresp]
                have htaken : c' = c → Taken env tm c (.recv dg) resp := by
                  rintro rfl
                  exact ⟨dg, rfl, hcb, by omega, hlookup, hsip, ⟨received, hparse, hc', hfix⟩,
                    by omega, by omega⟩
                refine harr.trans (incomingResponse_kept hlt ?_ ?_ ?_)
                · exact fun heq => hp resp (htaken heq)
                · exact fun heq => heq ▸ hc resp (htaken heq)
                · exact fun hne r => halone c' r hne
      · exact .of_aside (handleRequest_aside hnb ((Aside.refl _).record rfl))

theorem fire_kept {kind : TimerId} {i : ℕ} {rnd : Text} (hcb : tm.cb = none) :
    CancelKept c k (Decides env tm c (.fire kind i rnd)) tm.cview (fire env tm kind i rnd).cview := by
  have hnb : ¬ busy tm.cview.cb := by rw [cview, hcb]; exact not_busy_none
  unfold fire
  cases kind with
  | serverA =>
    dsimp only
    split
    · exact settle_kept (.of_aside (timerA_aside (Aside.refl _)))
    · exact .refl _
  | serverD =>
    dsimp only
    split
    · exact settle_kept (.of_aside (timerD_aside hnb (Aside.refl _)))
    · exact .refl _
  | serverE =>
    dsimp only
    split
    · exact settle_kept (.of_aside (timerE_aside hnb (Aside.refl _)))
    · exact .refl _
  | serverF =>
    dsimp only
    split
    · exact settle_kept (.of_aside (timerF_aside (Aside.refl _)))
    · exact .refl _
  | clientA =>
    dsimp only
    split
    · exact settle_kept clientTimerA_kept
    · exact .refl _
  | clientB =>
    dsimp only
    split
    · rename_i hlive
      refine settle_kept (timerB_kept fun heq => .inr (.inl ⟨rnd, ?_, hcb, heq ▸ hlive⟩))
      rw [heq]
    · exact .refl _
  | clientC =>
    dsimp only
    split
    · rename_i hlive
      refine settle_kept (timerC_kept fun heq => .inr (.inr (.inl ⟨rnd, ?_, heq ▸ hlive⟩)))
      rw [heq]
    · exact .refl _
  | clientG =>
    dsimp only
    split
    · exact settle_kept (r := timerG tm i)
        (.touch i (fun t => { t with teG := t.teG.fire }) rfl rfl rfl rfl fun _ => rfl)
    · exact .refl _

theorem ret_kept {f : Frame} {r : Ret} {rnd : Text} (hcb : tm.cb = some f) :
    CancelKept c k (Decides env tm c (.ret r rnd)) tm.cview (ret env tm f r rnd).cview := by
  have hnone : CancelKept c k (Decides env tm c (.ret r rnd)) tm.cview
      (TM.cview { tm with cb := none }) :=
    .of_same rfl rfl rfl fun _ h => absurd h.symm (Option.some_ne_none _)
  unfold ret
  cases r with
  | value rval =>
    refine settle_kept (hnone.trans ?_)
    cases f with
    | req s g => exact .of_aside (afterRequest_aside (Aside.refl _))
    | ack s g => exact .of_same rfl rfl rfl fun _ => .inl
    | cancel s g => exact .refl _
    | noack s => exact .of_aside (timerDEnd_aside (Aside.refl _))
    | provisional c' => exact .refl _
    | final c' resp =>
      refine afterFinal_kept fun heq => .inr (.inr (.inr (.inr ⟨_, rnd, resp, rfl, ?_⟩)))
      rw [hcb, heq]
    | timeout c' => exact .refl _
  | raise e => exact settle_kept (hnone.trans (.of_aside (handleExn_aside (Aside.refl _))))

theorem step_kept (hlt : c ≠ tm.cnext) (halone : Alone c k tm) (hk : k.method = .cancel)
    (hnew : ∀ msg respCb compact userv, l = .call (.newTransaction msg respCb compact userv) →
      msg.genCANCEL.ctid ≠ k)
    (hcall : ∀ eh, l ≠ .call (.cancelTransaction c eh))
    (hring : ∀ resp, Taken env tm c l resp → resp.scode < 200 → (tm.cheap c).state ≠ .trying) :
    CancelKept c k (Decides env tm c l) tm.cview (step env tm l).cview := by
  cases l with
  | recv dg =>
    cases hcb : tm.cb with
    | none =>
      simp only [step, hcb]
      exact settle_kept (handleIncoming_kept hcb hlt halone (fun resp ht hcode => .inl ⟨resp, ht, hcode⟩) hring)
    | some f =>
      simp only [step, hcb]
      exact .refl _
  | fire kind i rnd =>
    cases hcb : tm.cb with
    | none =>
      simp only [step, hcb]
      exact fire_kept hcb
    | some f =>
      simp only [step, hcb]
      exact .refl _
  | purge =>
    cases hcb : tm.cb with
    | none =>
      simp only [step, hcb]
      exact .of_same rfl rfl rfl fun _ => .inl
    | some f =>
      simp only [step, hcb]
      exact .refl _
  | ret r rnd =>
    cases hcb : tm.cb with
    | none =>
      simp only [step, hcb]
      exact .refl _
    | some f =>
      simp only [step, hcb]
      exact ret_kept hcb
  | call a =>
    simp only [step]
    cases a with
    | sendResponse resp t ackCb lossemul rnd =>
      exact .of_aside (sendResponse_aside (Aside.refl _))
    | newTransaction msg respCb compact userv =>
      have hne := hnew msg respCb compact userv rfl
      refine newTransaction_kept hlt fun r hr => ⟨fun hid => ?_, fun _ => ?_⟩
      · rw [← Option.some.inj hr] at hid
        refine hne ?_
        rw [Req.genCANCEL_ctid, hid, ← hk]
      · rw [← Option.some.inj hr]
        exact hne
    | cancelTransaction c' eh =>
      have hne : c' ≠ c := fun heq => hcall eh (by rw [heq])
      exact cancelTransaction_kept hlt hne fun r => halone c' r hne
    | sendACK c' =>
      refine sendACK_kept fun heq haddr => .inr (.inr (.inr (.inl ⟨?_, heq ▸ haddr⟩)))
      rw [heq]
    | setUack c' => exact .touch c' (fun t => { t with uack := true }) rfl rfl rfl rfl fun _ => rfl
    | setAckBody c' body =>
      exact .touch c' (fun t => { t with ack := t.ack.map fun r => { r with body := body } })
        rfl rfl rfl rfl fun _ => rfl
    | clearRespCb c' =>
      exact .touch c' (fun t => { t with respCb := false }) rfl rfl rfl rfl fun _ => rfl
    | setCompact s compact => exact .refl _

end Step
end TM

/-- The datagram of the transaction that is stored under `k` between two states. -/
def TM.begun (tm tm' : TM) (k : CTid) : List Text :=
  if (tm.tclient k).isSome then [] else ((tm'.tclient k).map fun c => (tm'.cheap c).data).toList

theorem CancelKept.begun {c : ℕ} {k : CTid} {p : Prop} {tm tm' : TM}
    (h : CancelKept c k p tm.cview tm'.cview) : tm.begun tm' k = [] := by
  unfold TM.begun
  split
  · rfl
  · rename_i hfree
    have hnone : tm.tclient k = none := by simpa using hfree
    have hnone' : tm'.tclient k = none := by
      rcases h.slot with hs | hs
      · exact hs.trans hnone
      · exact hs
    rw [hnone']
    rfl

/-- The transaction `c` rings, and its CANCEL `r` is stored with the given datagram. -/
structure CancelStarted (c : ℕ) (v w : CView) (r : Req) (u : Server) (data : Text) : Prop where
  table : w.tclient = v.tclient.set r.ctid v.cnext
  data : (w.cheap v.cnext).data = data
  tid : (w.cheap c).tid = (v.cheap c).tid
  state : (w.cheap c).state = .ringing
  cancel : (w.cheap c).cancel = some r
  userv : (w.cheap c).userv = some u
  others : ∀ c' r', c' ≠ c → (w.cheap c').cancel = some r' → (v.cheap c').cancel = some r'
  next : v.cnext ≤ w.cnext
  frame : ∀ resp, w.cb = some (.final c resp) → v.cb = some (.final c resp)

namespace CancelStarted
variable {c : ℕ} {v w : CView} {r : Req} {u : Server} {data : Text} {env : Env} {tm : TM}

theorem touch (h : CancelStarted c v tm.cview r u data) (hlt : c < v.cnext) (f : CTr → CTr)
    (hf : ∀ t, (f t).tid = t.tid ∧ (f t).state = t.state ∧ (f t).cancel = t.cancel ∧
      (f t).userv = t.userv) : CancelStarted c v (tm.updC c f).cview r u data := by
  have hsame : (tm.updC c f).cview.cheap c = f (tm.cheap c) := Lib.modifyAt_same ..
  have hother (c' : ℕ) (hne : c' ≠ c) : (tm.updC c f).cview.cheap c' = tm.cheap c' :=
    Lib.modifyAt_other _ _ hne
  obtain ⟨htid, hstate, hcancel, huserv⟩ := hf (tm.cheap c)
  refine ⟨h.table, ?_, ?_, ?_, ?_, ?_, fun c' r' hne hr => ?_, h.next, h.frame⟩
  · rw [hother _ (Nat.ne_of_gt hlt)]
    exact h.data
  · rw [hsame, htid]
    exact h.tid
  · rw [hsame, hstate]
    exact h.state
  · rw [hsame, hcancel]
    exact h.cancel
  · rw [hsame, huserv]
    exact h.userv
  · rw [hother c' hne] at hr
    exact h.others c' r' hne hr

theorem begun {tm' : TM} (h : CancelStarted c tm.cview tm'.cview r u data)
    (hfree : tm.tclient r.ctid = none) : tm.begun tm' r.ctid = [data] := by
  have hslot : tm'.tclient r.ctid = some tm.cnext := by
    have htable : tm'.tclient = tm.tclient.set r.ctid tm.cnext := h.table
    rw [htable, Dict.set_same]
  have hdata : (tm'.cheap tm.cnext).data = data := h.data
  simp [TM.begun, hfree, hslot, hdata]

/-- `startCancel` once the transaction is ringing. -/
theorem start {f : CTr → CTr} (hcheap : tm.cheap = modifyAt v.cheap c f)
    (hnext : tm.cnext = v.cnext) (htable : tm.tclient = v.tclient) (hcb : tm.cb = v.cb)
    (hlt : c < v.cnext) (htid : (f (v.cheap c)).tid = (v.cheap c).tid)
    (hstate : (f (v.cheap c)).state = .ringing) (hcancel : (f (v.cheap c)).cancel = some r)
    (huserv : (f (v.cheap c)).userv = some u) (hfree : v.tclient r.ctid = none)
    (htarget : r.target ≠ none) (hmethod : r.method = .cancel) :
    CancelStarted c v (TM.startCancel env tm c).1.cview r u (env.reqStr r u false) := by
  obtain ⟨target, htarget⟩ := Option.ne_none_iff_exists'.mp htarget
  have hsame : tm.cheap c = f (v.cheap c) := by rw [hcheap, Lib.modifyAt_same]
  have hlife : TM.lifetime r = .ok 32 := by simp [TM.lifetime, hmethod]
  have hprep : TM.preparedAck r = .ok none := by simp [TM.preparedAck, hmethod]
  have hstart : TM.startCancel env tm c = TM.storeClient env tm r false false u
      (some target.1.1, target.1.2) 32 none := by
    simp [TM.startCancel, TM.newTransaction, hsame, hcancel, huserv, htable, hfree, htarget, hlife,
      hprep]
  have haside : Aside (tm.cview.started _ r.ctid)
      (TM.storeClient env tm r false false u (some target.1.1, target.1.2) 32 none).1.cview :=
    TM.transmitData_aside rfl (Aside.refl _)
  have hcb' : (TM.storeClient env tm r false false u (some target.1.1, target.1.2) 32 none).1.cb =
      tm.cb := TM.transmitData_cb ..
  rw [hstart]
  have hold (c' : ℕ) (hne : c' ≠ v.cnext) :
      (TM.storeClient env tm r false false u (some target.1.1, target.1.2) 32 none).1.cview.cheap c' =
        modifyAt v.cheap c f c' := by
    rw [haside.cheap, ← hcheap]
    exact Function.update_of_ne (fun heq => hne (heq.trans hnext)) _ _
  have hown := (hold c (Nat.ne_of_lt hlt)).trans (Lib.modifyAt_same ..)
  refine ⟨?_, ?_, ?_, ?_, ?_, ?_, fun c' r' hne hr => ?_, ?_, fun resp h => ?_⟩
  · rw [haside.tclient]
    exact congrArg₂ (fun t n => Dict.set t r.ctid n) htable hnext
  · rw [haside.cheap, ← hnext]
    simp [CView.started, TM.cview]
  · rw [hown, htid]
  · rw [hown, hstate]
  · rw [hown, hcancel]
  · rw [hown, huserv]
  · by_cases hnew : c' = v.cnext
    · rw [haside.cheap, hnew, ← hnext] at hr
      simp [CView.started, TM.cview, hmethod] at hr
    · rw [hold c' hnew, Lib.modifyAt_other _ _ hne] at hr
      exact hr
  · rw [haside.cnext, ← hnext]
    exact Nat.le_succ _
  · rw [← hcb, ← hcb']
    exact h

theorem settle {o : Out} (h : CancelStarted c v o.1.cview r u data) :
    CancelStarted c v (TM.settle o).cview r u data := by
  unfold TM.settle
  split
  · exact h
  · exact ⟨h.table, h.data, h.tid, h.state, h.cancel, h.userv, h.others, h.next, h.frame⟩

end CancelStarted

namespace TM
variable {c : ℕ} {k : CTid} {env : Env} {tm : TM} {l : Label} {resp : Resp} {r : Req} {u : Server}
  {checksum rnd : Text}

theorem step_taken (h : Taken env tm c l resp) : ∃ data checksum rnd, step env tm l =
    settle (incomingResponse env (tm.record (.arrived data)) c resp checksum rnd) := by
  obtain ⟨dg, rfl, hcb, hsize, hlookup, hsip, ⟨received, hparse, hc, hfix⟩, hlow, hhigh⟩ := h
  obtain ⟨contacts, hresp⟩ := fixResponse_eq hfix
  have hscode : resp.scode = received.scode := by rw [hresp]
  have hnsize : ¬ size dg < 32 := by omega
  have hcode : ¬ (received.scode < 100 ∨ received.scode > 999) := by omega
  have hlookup' : (tm.record (.arrived dg.data)).lookup (env.md5 dg.data) = none := hlookup
  have hc' : (tm.record (.arrived dg.data)).tclient received.ctid = some c := hc
  have hfix' : fixResponse (tm.record (.arrived dg.data)) c dg.ra received = .ok resp := hfix
  refine ⟨dg.data, env.md5 dg.data, dg.rnd, ?_⟩
  simp only [step, hcb, handleIncoming, hnsize, hlookup', hsip, handleResponse, hparse, hcode, hc',
    hfix', if_false, if_true]

theorem ring_started (h : Taken env tm c l resp) (hcode : resp.scode < 200) (hlt : c < tm.cnext)
    (htry : (tm.cheap c).state = .trying) (hpend : (tm.cheap c).cancelPending = true)
    (hcancel : (tm.cheap c).cancel = some r) (huserv : (tm.cheap c).userv = some u)
    (hfree : tm.tclient r.ctid = none) (htarget : r.target ≠ none) (hmethod : r.method = .cancel) :
    CancelStarted c tm.cview (step env tm l).cview r u (env.reqStr r u false) := by
  obtain ⟨data, checksum, rnd, hstep⟩ := step_taken h
  rw [hstep]
  refine .settle ?_
  let tm₁ := (tm.record (.arrived data)).updC c CTr.stopped
  let tm₂ := tm₁.updC c fun t => { t with state := .ringing }
  have htry₁ : (tm₁.cheap c).state = .trying := by simpa [tm₁, updC, record, CTr.stopped] using htry
  have hpend₂ : (tm₂.cheap c).cancelPending = true := by
    simpa [tm₂, tm₁, updC, record, CTr.stopped] using hpend
  have hopen : ((tm.record (.arrived data)).cheap c).state = .trying ∨
      ((tm.record (.arrived data)).cheap c).state = .ringing := .inl htry
  have hstart : CancelStarted c tm.cview (startCancel env tm₂ c).1.cview r u (env.reqStr r u false) := by
    refine .start (f := fun t => { t.stopped with state := .ringing }) ?_ rfl rfl rfl hlt rfl rfl
      hcancel huserv hfree htarget hmethod
    simp [tm₂, tm₁, updC, record, cview, modifyAt]
  have heq : incomingResponse env (tm.record (.arrived data)) c resp checksum rnd =
      ((startCancel env tm₂ c).andThen fun tm => ok (tm.updC c fun t => { t with
        cancelPending := false })).andThen fun tm =>
      notify ((tm.updC c fun t => { t with teB := t.teB.arm }).remember checksum) c resp
        (.provisional c) ok := by
    unfold incomingResponse
    dsimp only
    rw [if_pos hopen, if_pos hcode]
    show provisional env tm₁ c resp checksum = _
    unfold provisional
    rw [if_pos htry₁]
    dsimp only
    rw [if_pos hpend₂]
  rw [heq]
  unfold Out.andThen
  cases hraised : (startCancel env tm₂ c).2 with
  | some e =>
    dsimp only
    rw [hraised]
    exact hstart
  | none =>
    have hend := (hstart.touch hlt (fun t => { t with cancelPending := false })
      fun _ => ⟨rfl, rfl, rfl, rfl⟩).touch hlt (fun t => { t with teB := t.teB.arm })
      fun _ => ⟨rfl, rfl, rfl, rfl⟩
    dsimp only [ok]
    unfold notify
    split
    · exact ⟨hend.table, hend.data, hend.tid, hend.state, hend.cancel, hend.userv, hend.others,
        hend.next, fun _ heq => Frame.noConfusion (Option.some.inj heq)⟩
    · exact hend

theorem ring_kept (h : Taken env tm c l resp) (hcode : resp.scode < 200)
    (htry : (tm.cheap c).state = .trying) (hpend : (tm.cheap c).cancelPending = false) :
    CancelKept c k False (tm.updC c fun t => { t with state := .ringing }).cview
      (step env tm l).cview := by
  obtain ⟨data, checksum, rnd, hstep⟩ := step_taken h
  rw [hstep]
  refine settle_kept ?_
  let tm₁ := (tm.record (.arrived data)).updC c CTr.stopped
  let tm₂ := tm₁.updC c fun t => { t with state := .ringing }
  have htry₁ : (tm₁.cheap c).state = .trying := by simpa [tm₁, updC, record, CTr.stopped] using htry
  have hpend₂ : ¬ (tm₂.cheap c).cancelPending = true := by
    simpa [tm₂, tm₁, updC, record, CTr.stopped] using hpend
  have hopen : ((tm.record (.arrived data)).cheap c).state = .trying ∨
      ((tm.record (.arrived data)).cheap c).state = .ringing := .inl htry
  have heq : incomingResponse env (tm.record (.arrived data)) c resp checksum rnd =
      notify ((tm₂.updC c fun t => { t with teB := t.teB.arm }).remember checksum) c resp
        (.provisional c) ok := by
    unfold incomingResponse
    dsimp only
    rw [if_pos hopen, if_pos hcode]
    show provisional env tm₁ c resp checksum = _
    unfold provisional
    rw [if_pos htry₁]
    dsimp only
    rw [if_neg hpend₂]
    rfl
  rw [heq]
  refine .trans (w := ((tm₂.updC c fun t => { t with teB := t.teB.arm }).remember checksum).cview) ?_
    (notify_kept (fun _ heq => Frame.noConfusion heq) (.refl _))
  refine .touch c (fun t => { t with teA := t.teA.cancel, teB := t.teB.cancel.arm }) ?_ rfl rfl rfl
    fun _ => rfl
  simp only [tm₂, tm₁, updC, record, remember, cview, Lib.modifyAt_modifyAt]
  exact Lib.modifyAt_congr (by simp [CTr.stopped, htry])

end TM

def Label.cancels (c : ℕ) (l : Label) : Prop := ∃ eh, l = .call (.cancelTransaction c eh)

def Label.extra (c : ℕ) : Label → Text
  | .call (.cancelTransaction c' (some eh)) => if c' = c then eh else []
  | _ => []

/-- The manager, and what has happened to the INVITE's transaction `c` so far: the datagrams of the
CANCELs that were started, the extra headers that were given, and whether, before a final response
or the timeout decided it, `cancelTransaction` was called and a provisional response came. -/
structure Watch where
  tm : TM
  sent : List Text
  given : Text
  decided : Prop
  called : Prop
  rung : Prop

namespace Watch

def step (env : Env) (c : ℕ) (k : CTid) (w : Watch) (l : Label) : Watch where
  tm := TM.step env w.tm l
  sent := w.sent ++ w.tm.begun (TM.step env w.tm l) k
  given := w.given ++ l.extra c
  decided := w.decided ∨ (∃ resp, TM.Taken env w.tm c l resp ∧ 200 ≤ resp.scode) ∨
    ∃ rnd, l = .fire .clientB c rnd ∧ w.tm.cb = none ∧ 0 < (w.tm.cheap c).teB.live
  called := w.called ∨ (¬ w.decided ∧ l.cancels c)
  rung := w.rung ∨ (¬ w.decided ∧ ∃ resp, TM.Taken env w.tm c l resp ∧ resp.scode < 200)

def start (tm : TM) : Watch := ⟨tm, [], [], False, False, False⟩

/-- At most one CANCEL is started, it is started if it was asked for and a provisional response
came, and it carries the extra headers. -/
structure CancelledOnce (env : Env) (cancel : Req) (u : Server) (w : Watch) : Prop where
  once : w.sent.length ≤ 1
  started : w.called → w.rung → w.sent.length = 1
  carries : ∀ data ∈ w.sent, data = env.reqStr { cancel with rest := cancel.rest ++ w.given } u false

/-- Other transactions have identifiers of their own. The call is not repeated for a ringing
transaction once the CANCEL is gone from the table, and extra headers are given before a CANCEL is
started and not in the TRYING state. -/
structure Fits (c : ℕ) (k : CTid) (w : Watch) (l : Label) : Prop where
  new : ∀ msg respCb compact userv, l = .call (.newTransaction msg respCb compact userv) →
    msg.genCANCEL.ctid ≠ k
  again : l.cancels c → (w.tm.cheap c).state = .ringing → (w.tm.cheap c).tid ≠ none →
    w.sent = [] ∨ w.tm.tclient k ≠ none
  headers : l.extra c ≠ [] → w.sent = [] ∧ (w.tm.cheap c).state ≠ .trying

/-- What holds of a transaction that can still be cancelled, and of the CANCEL. -/
structure Stage (env : Env) (c : ℕ) (cancel : Req) (u : Server) (w : Watch) : Prop where
  inv : ClientInv env ⟨False, False⟩ w.tm.cview
  lt : c < w.tm.cnext
  alone : TM.Alone c cancel.ctid w.tm
  once : w.sent.length ≤ 1
  carries : ∀ data ∈ w.sent, data = env.reqStr { cancel with rest := cancel.rest ++ w.given } u false
  live : ¬ (w.tm.cheap c).over → (w.tm.cheap c).tid ≠ none ∧
    (w.tm.cheap c).cancel = some { cancel with rest := cancel.rest ++ w.given } ∧
    (w.tm.cheap c).userv = some u ∧ (w.sent = [] → w.tm.tclient cancel.ctid = none)
  trying : ¬ (w.tm.cheap c).over → (w.tm.cheap c).state = .trying → w.sent = [] ∧ w.given = [] ∧
    (w.called → (w.tm.cheap c).cancelPending = true) ∧ ¬ w.rung
  ringing : ¬ (w.tm.cheap c).over → (w.tm.cheap c).state = .ringing → w.called → w.sent ≠ []
  undecided : ¬ w.decided → ¬ (w.tm.cheap c).over ∧ ∀ resp, w.tm.cb ≠ some (.final c resp)
  started : w.called → w.rung → w.sent ≠ []

namespace Stage
variable {env : Env} {c : ℕ} {cancel : Req} {u : Server} {w : Watch} {l : Label}

theorem cancelledOnce (h : Stage env c cancel u w) : CancelledOnce env cancel u w := by
  refine ⟨h.once, fun hcalled hrung => ?_, h.carries⟩
  have hpos := List.length_pos_iff.mpr (h.started hcalled hrung)
  have honce := h.once
  omega

theorem open_of_not_over {t : CTr} (h : ¬ t.over) : t.open := by
  by_contra hclosed
  exact h (.inl hclosed)

/-- While it is undecided the transaction can only be decided by a final response or timer B. -/
theorem not_decides (h : Stage env c cancel u w) (hdec : ¬ (w.step env c cancel.ctid l).decided) :
    ¬ TM.Decides env w.tm c l := by
  simp only [Watch.step, not_or] at hdec
  obtain ⟨hw, hfinal, hexpired⟩ := hdec
  have hopen := open_of_not_over (h.undecided hw).1
  rintro (hf | hb | ⟨rnd, -, hlive⟩ | ⟨-, haddr⟩ | ⟨r, rnd, resp, -, hcb⟩)
  · exact hfinal hf
  · exact hexpired hb
  · exact hopen.ne_terminated ((h.inv.slot c).liveC hlive).1
  · exact hopen.ne_uack ((h.inv.slot c).deferred haddr)
  · exact (h.undecided hw).2 resp hcb

theorem of_kept {p : Prop} (h : Stage env c cancel u w)
    (hkept : CancelKept c cancel.ctid p w.tm.cview (TM.step env w.tm l).cview)
    (hinv : ClientInv env ⟨False, False⟩ (TM.step env w.tm l).cview)
    (hp : ¬ (w.step env c cancel.ctid l).decided → ¬ p)
    (hcall : l.cancels c → w.sent ≠ [] ∨ (w.tm.cheap c).over)
    (hextra : l.extra c = [] ∨ (w.sent = [] ∧ (w.tm.cheap c).over))
    (hring : ∀ resp, TM.Taken env w.tm c l resp → resp.scode < 200 →
      (w.tm.cheap c).state ≠ .trying) :
    Stage env c cancel u (w.step env c cancel.ctid l) := by
  have hsent : (w.step env c cancel.ctid l).sent = w.sent := by
    simp [Watch.step, hkept.begun]
  have hdecided : ¬ (w.step env c cancel.ctid l).decided → ¬ w.decided := fun hd hw => hd (.inl hw)
  have hover : (w.tm.cheap c).over → ((w.step env c cancel.ctid l).tm.cheap c).over := by
    intro ho
    rcases hkept.fate with hf | hf
    · exact CTr.over_of_fate hf ho
    · exact hf.2
  -- a transaction that can still be cancelled was left as it was
  have hsame : ¬ ((w.step env c cancel.ctid l).tm.cheap c).over →
      ((w.step env c cancel.ctid l).tm.cheap c).fate = (w.tm.cheap c).fate ∧
        ¬ (w.tm.cheap c).over ∧ (w.step env c cancel.ctid l).given = w.given := by
    intro ho
    have hbefore : ¬ (w.tm.cheap c).over := fun hw => ho (hover hw)
    refine ⟨?_, hbefore, ?_⟩
    · rcases hkept.fate with hf | hf
      · exact hf
      · exact absurd hf.2 ho
    · rcases hextra with he | he
      · simp [Watch.step, he]
      · exact absurd he.2 hbefore
  refine ⟨hinv, Nat.lt_of_lt_of_le h.lt hkept.next, fun c' r hne hr => ⟨fun hid => ?_, ?_⟩, ?_, ?_, ?_,
    ?_, ?_, ?_, ?_⟩
  · obtain ⟨r', hr', hid'⟩ := hkept.others c' r hne hr hid
    exact (h.alone c' r' hne hr').1 hid'
  · exact (hinv.slot c').cancels r hr
  · rw [hsent]
    exact h.once
  · rw [hsent]
    intro data hdata
    rcases hextra with he | he
    · rw [h.carries data hdata]
      simp [Watch.step, he]
    · rw [he.1] at hdata
      exact absurd hdata List.not_mem_nil
  · intro ho
    obtain ⟨hfate, hbefore, hgiven⟩ := hsame ho
    simp only [CTr.fate, Prod.mk.injEq] at hfate
    obtain ⟨htid, hcancel, huserv, hslot⟩ := h.live hbefore
    rw [hfate.1, hfate.2.2.1, hfate.2.2.2.2, hgiven, hsent]
    refine ⟨htid, hcancel, huserv, fun hnil => ?_⟩
    rcases hkept.slot with hs | hs
    · exact hs.trans (hslot hnil)
    · exact hs
  · intro ho hs
    obtain ⟨hfate, hbefore, hgiven⟩ := hsame ho
    simp only [CTr.fate, Prod.mk.injEq] at hfate
    rw [hfate.2.1] at hs
    obtain ⟨hnil, hempty, hpend, hrung⟩ := h.trying hbefore hs
    refine ⟨hsent.trans hnil, hgiven.trans hempty, ?_, ?_⟩
    · rw [hfate.2.2.2.1]
      rintro (hcalled | ⟨-, hcancels⟩)
      · exact hpend hcalled
      · rcases hcall hcancels with hne | hw
        · exact absurd hnil hne
        · exact absurd hw hbefore
    · rintro (hr | ⟨-, resp, htaken, hcode⟩)
      · exact hrung hr
      · exact hring resp htaken hcode hs
  · intro ho hs
    obtain ⟨hfate, hbefore, -⟩ := hsame ho
    simp only [CTr.fate, Prod.mk.injEq] at hfate
    rw [hfate.2.1] at hs
    rw [hsent]
    rintro (hcalled | ⟨-, hcancels⟩)
    · exact h.ringing hbefore hs hcalled
    · exact (hcall hcancels).resolve_right hbefore
  · intro hd
    obtain ⟨hbefore, hcb⟩ := h.undecided (hdecided hd)
    refine ⟨?_, fun resp hf => ?_⟩
    · rcases hkept.fate with hf | hf
      · exact fun ho => hbefore (CTr.over_of_fate hf.symm ho)
      · exact absurd hf.1 (hp hd)
    · rcases hkept.frame resp hf with hv | hpp
      · exact hcb resp hv
      · exact hp hd hpp
  · rw [hsent]
    rintro hcalled hrung
    rcases hcalled with hcalled | ⟨hw, hcancels⟩
    · rcases hrung with hrung | ⟨hw, resp, htaken, hcode⟩
      · exact h.started hcalled hrung
      · have hbefore := (h.undecided hw).1
        exact h.ringing hbefore ((open_of_not_over hbefore).resolve_left (hring resp htaken hcode))
          hcalled
    · exact (hcall hcancels).resolve_right (h.undecided hw).1

theorem of_started (h : Stage env c cancel u w) (hsent : w.sent = [])
    (hstarted : CancelStarted c w.tm.cview (TM.step env w.tm l).cview
      { cancel with rest := cancel.rest ++ (w.step env c cancel.ctid l).given } u
      (env.reqStr { cancel with rest := cancel.rest ++ (w.step env c cancel.ctid l).given } u false))
    (hinv : ClientInv env ⟨False, False⟩ (TM.step env w.tm l).cview)
    (htid : (w.tm.cheap c).tid ≠ none) (hfree : w.tm.tclient cancel.ctid = none) :
    Stage env c cancel u (w.step env c cancel.ctid l) := by
  have hbegun : (w.step env c cancel.ctid l).sent = [env.reqStr { cancel with
      rest := cancel.rest ++ (w.step env c cancel.ctid l).given } u false] := by
    have hnew := hstarted.begun hfree
    simp only [Watch.step, hsent, List.nil_append]
    exact hnew
  have hne : (w.step env c cancel.ctid l).sent ≠ [] := by
    rw [hbegun]
    exact List.cons_ne_nil _ _
  have hover : ¬ ((w.step env c cancel.ctid l).tm.cheap c).over := by
    rintro (hclosed | ⟨-, hnone⟩)
    · exact hclosed (.inr hstarted.state)
    · exact Option.some_ne_none _ (hstarted.cancel.symm.trans hnone)
  refine ⟨hinv, Nat.lt_of_lt_of_le h.lt hstarted.next, fun c' r hc hr => ?_, ?_, ?_, fun _ => ?_,
    fun _ hs => ?_, fun _ _ _ => hne, fun hd => ⟨hover, fun resp hcb => ?_⟩, fun _ _ => hne⟩
  · exact h.alone c' r hc (hstarted.others c' r hc hr)
  · rw [hbegun]
    exact Nat.le_refl 1
  · rw [hbegun]
    exact fun data hdata => List.mem_singleton.mp hdata
  · refine ⟨?_, hstarted.cancel, hstarted.userv, fun hnil => absurd hnil hne⟩
    exact fun hnone => htid (hstarted.tid.symm.trans hnone)
  · exact absurd (hstarted.state.symm.trans hs) (by decide)
  · exact (h.undecided fun hw => hd (.inl hw)).2 resp (hstarted.frame resp hcb)

theorem of_pending {eh : Option Text} (h : Stage env c cancel u w)
    (hl : l = .call (.cancelTransaction c eh)) (hover : ¬ (w.tm.cheap c).over)
    (hs : (w.tm.cheap c).state = .trying) (hextra : l.extra c = [])
    (hinv : ClientInv env ⟨False, False⟩ (TM.step env w.tm l).cview) :
    Stage env c cancel u (w.step env c cancel.ctid l) := by
  have hstep : TM.step env w.tm l = w.tm.updC c fun t => { t with cancelPending := true } := by
    simp [hl, TM.step, TM.api, TM.cancelTransaction, hs, TM.ok]
  have hcheap : (w.step env c cancel.ctid l).tm.cheap c =
      { w.tm.cheap c with cancelPending := true } := by
    simp only [Watch.step, hstep, TM.updC, Lib.modifyAt_same]
  have hbegun : w.tm.begun (TM.step env w.tm l) cancel.ctid = [] := by
    have hfree := (h.live hover).2.2.2 (h.trying hover hs).1
    rw [hstep]
    simp [TM.begun, TM.updC, hfree]
  have hsent : (w.step env c cancel.ctid l).sent = w.sent := by simp [Watch.step, hbegun]
  have hgiven : (w.step env c cancel.ctid l).given = w.given := by simp [Watch.step, hextra]
  have hnew : (w.step env c cancel.ctid l).rung → w.rung := by
    rintro (hr | ⟨-, resp, ⟨dg, hdg, -⟩, -⟩)
    · exact hr
    · exact absurd (hl.symm.trans hdg) (by simp)
  obtain ⟨htid, hcancel, huserv, hslot⟩ := h.live hover
  obtain ⟨hnil, hempty, -, hrung⟩ := h.trying hover hs
  have hcb : (TM.step env w.tm l).cb = w.tm.cb := by rw [hstep]; rfl
  refine ⟨hinv, ?_, fun c' r hc hr => ?_, ?_, ?_, fun _ => ?_, fun _ _ => ?_, fun _ hr => ?_,
    fun hd => ⟨?_, fun resp hf => ?_⟩, fun _ hr => absurd (hnew hr) hrung⟩
  · simp only [Watch.step, hstep, TM.updC]
    exact h.lt
  · simp only [Watch.step, hstep, TM.updC, Lib.modifyAt_other _ _ hc] at hr
    exact h.alone c' r hc hr
  · rw [hsent]
    exact h.once
  · rw [hsent, hnil]
    exact fun data hdata => absurd hdata List.not_mem_nil
  · rw [hcheap, hgiven]
    refine ⟨htid, hcancel, huserv, fun _ => ?_⟩
    simp only [Watch.step, hstep, TM.updC]
    exact hslot hnil
  · rw [hcheap]
    exact ⟨hsent.trans hnil, hgiven.trans hempty, fun _ => rfl, fun hr => hrung (hnew hr)⟩
  · rw [hcheap] at hr
    exact absurd (hs.symm.trans hr) (by decide)
  · rw [hcheap]
    exact hover
  · exact (h.undecided fun hw => hd (.inl hw)).2 resp (hcb.symm.trans hf)

theorem of_ring {resp : Resp} (h : Stage env c cancel u w) (hover : ¬ (w.tm.cheap c).over)
    (hs : (w.tm.cheap c).state = .trying) (hpend : (w.tm.cheap c).cancelPending = false)
    (htaken : TM.Taken env w.tm c l resp) (hcode : resp.scode < 200)
    (hinv : ClientInv env ⟨False, False⟩ (TM.step env w.tm l).cview) :
    Stage env c cancel u (w.step env c cancel.ctid l) := by
  have hkept : CancelKept c cancel.ctid False _ _ := TM.ring_kept htaken hcode hs hpend
  obtain ⟨htid, hcancel, huserv, hslot⟩ := h.live hover
  obtain ⟨hnil, hempty, hcalled, -⟩ := h.trying hover hs
  obtain ⟨dg, hdg, -⟩ := htaken
  have hfate := hkept.fate.resolve_right fun hf => hf.1
  simp only [CTr.fate, TM.cview, TM.updC, Lib.modifyAt_same, Prod.mk.injEq] at hfate
  have hsent : (w.step env c cancel.ctid l).sent = [] := by
    have hbegun : w.tm.begun (TM.step env w.tm l) cancel.ctid = [] := hkept.begun
    simp [Watch.step, hnil, hbegun]
  have hgiven : (w.step env c cancel.ctid l).given = w.given := by
    simp [Watch.step, hdg, Label.extra]
  have hnotcalled : ¬ (w.step env c cancel.ctid l).called := by
    rintro (hc | ⟨-, eh, heh⟩)
    · exact Bool.false_ne_true (hpend.symm.trans (hcalled hc))
    · exact absurd (hdg.symm.trans heh) (by simp)
  have hopen : ¬ ((w.step env c cancel.ctid l).tm.cheap c).over := by
    rintro (hclosed | ⟨hnone, -⟩)
    · exact hclosed (.inr hfate.2.1)
    · exact htid (hfate.1.symm.trans hnone)
  refine ⟨hinv, Nat.lt_of_lt_of_le h.lt hkept.next, fun c' r hc hr => ⟨fun hid => ?_, ?_⟩, ?_, ?_,
    fun _ => ?_, fun _ hr => ?_, fun _ _ hc => absurd hc hnotcalled,
    fun hd => ⟨hopen, fun resp' hcb => ?_⟩, fun hc => absurd hc hnotcalled⟩
  · obtain ⟨r', hr', hid'⟩ := hkept.others c' r hc hr hid
    simp only [TM.cview, TM.updC, Lib.modifyAt_other _ _ hc] at hr'
    exact (h.alone c' r' hc hr').1 hid'
  · exact (hinv.slot c').cancels r hr
  · rw [hsent]
    exact Nat.zero_le 1
  · rw [hsent]
    exact fun data hdata => absurd hdata List.not_mem_nil
  · rw [hgiven]
    refine ⟨fun hnone => htid (hfate.1.symm.trans hnone), hfate.2.2.1.trans hcancel,
      hfate.2.2.2.2.trans huserv, fun _ => ?_⟩
    rcases hkept.slot with hslot' | hslot'
    · exact hslot'.trans (hslot hnil)
    · exact hslot'
  · exact absurd (hfate.2.1.symm.trans hr) (by decide)
  · rcases hkept.frame resp' hcb with hv | hv
    · exact (h.undecided fun hw => hd (.inl hw)).2 resp' hv
    · exact hv

theorem of_call {eh : Option Text} (h : Stage env c cancel u w) (htarget : cancel.target ≠ none)
    (hmethod : cancel.method = .cancel) (hl : l = .call (.cancelTransaction c eh))
    (hover : ¬ (w.tm.cheap c).over) (hs : (w.tm.cheap c).state = .ringing) (hsent : w.sent = [])
    (hinv : ClientInv env ⟨False, False⟩ (TM.step env w.tm l).cview) :
    Stage env c cancel u (w.step env c cancel.ctid l) := by
  obtain ⟨htid, hcancel, huserv, hslot⟩ := h.live hover
  refine h.of_started hsent ?_ hinv htid (hslot hsent)
  have hgiven : (w.step env c cancel.ctid l).given = w.given ++ eh.getD [] := by
    cases eh <;> simp [Watch.step, hl, Label.extra]
  rw [hgiven, hl]
  cases eh with
  | none =>
    have hstep : TM.step env w.tm (.call (.cancelTransaction c none)) =
        (TM.startCancel env w.tm c).1 := by
      simp [TM.step, TM.api, TM.cancelTransaction, hs]
    rw [hstep, Option.getD_none, List.append_nil]
    refine .start (f := id) ?_ rfl rfl rfl h.lt rfl hs hcancel huserv (hslot hsent) htarget hmethod
    rw [Lib.modifyAt_id]
    rfl
  | some eh =>
    have hstep : TM.step env w.tm (.call (.cancelTransaction c (some eh))) =
        (TM.startCancel env (w.tm.updC c fun t => { t with
          cancel := t.cancel.map fun r => { r with rest := r.rest ++ eh } }) c).1 := by
      simp [TM.step, TM.api, TM.cancelTransaction, hs]
    rw [hstep, Option.getD_some]
    refine .start (f := fun t => { t with
      cancel := t.cancel.map fun r => { r with rest := r.rest ++ eh } }) rfl rfl rfl rfl h.lt rfl hs
      ?_ huserv (hslot hsent) htarget hmethod
    have hcancel : (w.tm.cview.cheap c).cancel = some { cancel with
      rest := cancel.rest ++ w.given } := hcancel
    simp [hcancel]

/-- A call while the CANCEL is in the table raises a `ValueError`. -/
theorem of_repeat {eh : Option Text} (h : Stage env c cancel u w)
    (hl : l = .call (.cancelTransaction c eh)) (hover : ¬ (w.tm.cheap c).over)
    (hs : (w.tm.cheap c).state = .ringing) (hsent : w.sent ≠ [])
    (hslot : w.tm.tclient cancel.ctid ≠ none) (hextra : l.extra c = [])
    (hinv : ClientInv env ⟨False, False⟩ (TM.step env w.tm l).cview) :
    Stage env c cancel u (w.step env c cancel.ctid l) := by
  have hcancel := (h.live hover).2.1
  have hoccupied : (w.tm.tclient cancel.ctid).isSome = true := Option.isSome_iff_ne_none.mpr hslot
  have hid (rest : Text) : Req.ctid { cancel with rest := rest } = cancel.ctid := rfl
  refine h.of_kept (p := False) ?_ hinv (fun _ => id) (fun _ => .inl hsent) (.inl hextra) ?_
  · rw [hl]
    cases eh with
    | none =>
      have hstep : TM.step env w.tm (.call (.cancelTransaction c none)) = w.tm := by
        simp [TM.step, TM.api, TM.cancelTransaction, hs, TM.startCancel, TM.newTransaction, hcancel,
          hid, hoccupied, TM.raise]
      rw [hstep]
      exact .refl _
    | some eh =>
      have hnil : eh = [] := by simpa [hl, Label.extra] using hextra
      have hstep : TM.step env w.tm (.call (.cancelTransaction c (some eh))) =
          w.tm.updC c fun t => { t with
            cancel := t.cancel.map fun r => { r with rest := r.rest ++ eh } } := by
        simp [TM.step, TM.api, TM.cancelTransaction, hs, TM.startCancel, TM.newTransaction, hcancel,
          hid, TM.updC, hoccupied, TM.raise]
      rw [hstep]
      refine .touch c (fun t => { t with
        cancel := t.cancel.map fun r => { r with rest := r.rest ++ eh } }) rfl rfl rfl rfl fun t => ?_
      simp [CTr.fate, hnil]
  · rintro resp ⟨dg, hdg, -⟩
    exact absurd (hl.symm.trans hdg) (by simp)

theorem of_call_over {eh : Option Text} (h : Stage env c cancel u w)
    (hl : l = .call (.cancelTransaction c eh)) (hover : (w.tm.cheap c).over)
    (hextra : l.extra c ≠ [] → w.sent = [])
    (hinv : ClientInv env ⟨False, False⟩ (TM.step env w.tm l).cview) :
    Stage env c cancel u (w.step env c cancel.ctid l) := by
  refine h.of_kept (p := True) ?_ hinv (fun hd _ => ?_) (fun _ => .inr hover) ?_ ?_
  · rw [hl]
    by_cases hs : (w.tm.cheap c).state = .ringing
    · have hcancel : (w.tm.cheap c).cancel = none := by
        rcases hover with hclosed | ⟨-, hnone⟩
        · exact absurd (.inr hs) hclosed
        · exact hnone
      cases eh with
      | none =>
        have hstep : TM.step env w.tm (.call (.cancelTransaction c none)) = w.tm := by
          simp [TM.step, TM.api, TM.cancelTransaction, hs, TM.startCancel, TM.newTransaction,
            hcancel, TM.raise]
        rw [hstep]
        exact .refl _
      | some eh =>
        let f : CTr → CTr := fun t => { t with
          cancel := t.cancel.map fun r => { r with rest := r.rest ++ eh } }
        have hstep : TM.step env w.tm (.call (.cancelTransaction c (some eh))) = w.tm.updC c f := by
          simp [TM.step, TM.api, TM.cancelTransaction, hs, TM.startCancel, TM.newTransaction,
            hcancel, TM.updC, TM.raise, f]
        have hnone : (f (w.tm.cheap c)).cancel = none := by simp [f, hcancel]
        rw [hstep]
        refine .modify f rfl rfl rfl (.inl rfl) (fun r hr => ?_) fun _ => .inl ?_
        · exact absurd (hnone.symm.trans hr).symm (Option.some_ne_none _)
        · exact Prod.ext rfl (Prod.ext rfl (Prod.ext (hnone.trans hcancel.symm) rfl))
    · have hstep : TM.step env w.tm (.call (.cancelTransaction c eh)) =
          w.tm.updC c fun t => { t with cancelPending := true } := by
        simp [TM.step, TM.api, TM.cancelTransaction, hs, TM.ok]
      rw [hstep]
      refine .modify (fun t => { t with cancelPending := true }) rfl rfl rfl (.inl rfl)
        (fun r hr => ⟨r, hr, rfl⟩) fun _ => .inr ⟨trivial, hover⟩
  · exact absurd hover (h.undecided fun hw => hd (.inl hw)).1
  · by_cases hnil : l.extra c = []
    · exact .inl hnil
    · exact .inr ⟨hextra hnil, hover⟩
  · rintro resp ⟨dg, hdg, -⟩
    exact absurd (hl.symm.trans hdg) (by simp)

theorem step (h : Stage env c cancel u w) (htarget : cancel.target ≠ none)
    (hmethod : cancel.method = .cancel) (hcseq : cancel.cseqMethod = .cancel)
    (hfits : Fits c cancel.ctid w l) : Stage env c cancel u (w.step env c cancel.ctid l) := by
  have hinv : ClientInv env ⟨False, False⟩ (TM.step env w.tm l).cview :=
    h.inv.step ⟨False.elim, False.elim⟩
  by_cases hcall : l.cancels c
  · obtain ⟨eh, hl⟩ := id hcall
    by_cases hover : (w.tm.cheap c).over
    · exact h.of_call_over hl hover (fun hne => (hfits.headers hne).1) hinv
    · rcases open_of_not_over hover with hs | hs
      · refine h.of_pending hl hover hs ?_ hinv
        by_contra hne
        exact (hfits.headers hne).2 hs
      · by_cases hsent : w.sent = []
        · exact h.of_call htarget hmethod hl hover hs hsent hinv
        · refine h.of_repeat hl hover hs hsent ?_ ?_ hinv
          · exact (hfits.again hcall hs (h.live hover).1).resolve_left hsent
          · by_contra hne
            exact hsent (hfits.headers hne).1
  · by_cases hring : ∃ resp, TM.Taken env w.tm c l resp ∧ resp.scode < 200 ∧
      (w.tm.cheap c).state = .trying
    · obtain ⟨resp, htaken, hcode, hs⟩ := hring
      obtain ⟨dg, hdg, -, -, -, -, ⟨received, -, hin, -⟩, -⟩ := id htaken
      have htid : (w.tm.cheap c).tid = some received.ctid := (h.inv.link.keyed _ _).mp hin
      have hover : ¬ (w.tm.cheap c).over := by
        rintro (hclosed | ⟨hnone, -⟩)
        · exact hclosed (.inl hs)
        · exact Option.some_ne_none _ (htid.symm.trans hnone)
      cases hpend : (w.tm.cheap c).cancelPending with
      | true =>
        obtain ⟨hlive, hcancel, huserv, hslot⟩ := h.live hover
        have hsent := (h.trying hover hs).1
        have hgiven : (w.step env c cancel.ctid l).given = w.given := by
          simp [Watch.step, hdg, Label.extra]
        refine h.of_started hsent ?_ hinv hlive (hslot hsent)
        rw [hgiven]
        exact TM.ring_started htaken hcode h.lt hs hpend hcancel huserv (hslot hsent) htarget hmethod
      | false => exact h.of_ring hover hs hpend htaken hcode hinv
    · have hring' : ∀ resp, TM.Taken env w.tm c l resp → resp.scode < 200 →
          (w.tm.cheap c).state ≠ .trying := fun resp ht hcode hs => hring ⟨resp, ht, hcode, hs⟩
      refine h.of_kept (TM.step_kept (Nat.ne_of_lt h.lt) h.alone hcseq hfits.new
        (fun eh hl => hcall ⟨eh, hl⟩) hring') hinv h.not_decides (fun hc => absurd hc hcall) (.inl ?_)
        hring'
      unfold Label.extra
      split
      · rename_i c' eh
        refine if_neg fun heq => hcall ⟨some eh, ?_⟩
        rw [heq]
      · rfl

end Stage
end Watch

/-- The identifier is neither in the table nor that of a CANCEL to come. -/
def Unused (k : CTid) (tm : TM) : Prop :=
  tm.tclient k = none ∧ ∀ c r, (tm.cheap c).cancel = some r → r.ctid ≠ k

theorem Unused.step {env : Env} {tm : TM} {k : CTid} {l : Label} (h : Unused k tm)
    (hinv : ClientInv env ⟨False, False⟩ tm.cview) (hk : k.method = .cancel)
    (hnew : ∀ msg respCb compact userv, l = .call (.newTransaction msg respCb compact userv) →
      msg.genCANCEL.ctid ≠ k) : Unused k (TM.step env tm l) := by
  have hcancels (c : ℕ) (r : Req) (hr : (tm.cheap c).cancel = some r) : r.method = .cancel :=
    (hinv.slot c).cancels r hr
  -- what the step does, seen from a transaction that does not exist yet
  have hkept (a : ℕ) : ∃ c, c ≠ a ∧ ∃ p, CancelKept c k p tm.cview (TM.step env tm l).cview := by
    obtain ⟨b, hb⟩ : ∃ b, ∀ c eh, l = .call (.cancelTransaction c eh) → c = b := by
      by_cases hl : ∃ c eh, l = .call (.cancelTransaction c eh)
      · obtain ⟨b, eh, rfl⟩ := hl
        exact ⟨b, fun c eh' heq => by cases heq; rfl⟩
      · exact ⟨0, fun c eh heq => absurd ⟨c, eh, heq⟩ hl⟩
    refine ⟨tm.cnext + a + b + 1, by omega, _, TM.step_kept (by omega) ?_ hk hnew ?_ ?_⟩
    · exact fun c' r _ hr => ⟨h.2 c' r hr, hcancels c' r hr⟩
    · intro eh heq
      have := hb _ eh heq
      omega
    · rintro resp ⟨dg, -, -, -, -, -, ⟨received, -, hin, -⟩, -⟩ hcode
      have htid := (hinv.link.keyed _ _).mp hin
      have hnone := hinv.link.beyond (tm.cnext + a + b + 1) (by simp only [TM.cview]; omega)
      exact absurd (htid.symm.trans hnone) (Option.some_ne_none _)
  refine ⟨?_, fun c r hr hid => ?_⟩
  · obtain ⟨c, -, p, hc⟩ := hkept 0
    rcases hc.slot with hs | hs
    · exact hs.trans h.1
    · exact hs
  · obtain ⟨c', hne, p, hc⟩ := hkept c
    obtain ⟨r', hr', hid'⟩ := hc.others c r hne.symm hr hid
    exact h.2 c r' hr' hid'

/-- The state in which `newTransaction` leaves the manager when it stores a request. -/
theorem TM.newTransaction_stored {env : Env} {tm : TM} {msg : Req} {respCb compact : Bool} {u : Server}
    (hlink : tm.cview.Linked)
    (hstored : (newTransaction env tm (some msg) respCb compact (.ok u)).1.tclient msg.ctid =
      some tm.cnext) :
    msg.target ≠ none ∧ ∃ t : CTr, t.tid = some msg.ctid ∧ t.state = .trying ∧
      (msg.method = .invite → t.cancel = some msg.genCANCEL) ∧ t.cancelPending = false ∧
      t.userv = some u ∧
      (newTransaction env tm (some msg) respCb compact (.ok u)).1.cb = tm.cb ∧
      Aside (tm.cview.started t msg.ctid)
        (newTransaction env tm (some msg) respCb compact (.ok u)).1.cview := by
  have hnot : tm.tclient msg.ctid ≠ some tm.cnext := fun hin => by
    have htid := (hlink.keyed _ _).mp hin
    exact absurd (htid.symm.trans (hlink.beyond tm.cnext (Nat.le_refl _))) (Option.some_ne_none _)
  unfold newTransaction at hstored ⊢
  dsimp only at hstored ⊢
  split at hstored
  · exact absurd hstored hnot
  · rename_i hfree
    rw [if_neg hfree]
    cases htarget : msg.target with
    | none =>
      rw [htarget] at hstored
      exact absurd hstored hnot
    | some target =>
      rw [htarget] at hstored
      cases hlife : lifetime msg with
      | error e =>
        rw [hlife] at hstored
        exact absurd hstored hnot
      | ok expires =>
        cases hack : preparedAck msg with
        | error e =>
          rw [hlife, hack] at hstored
          exact absurd hstored hnot
        | ok ack =>
          refine ⟨Option.some_ne_none _, _, rfl, rfl, ?_, rfl, rfl, transmitData_cb ..,
            transmitData_aside rfl (Aside.refl _)⟩
          exact fun hinvite => if_pos hinvite

/-- In every run after an INVITE was started, whose steps fit: at most one CANCEL is started for it,
it is started if it is asked for and a provisional response comes, one after the other in either
order and before a final response, and it carries the extra headers. -/
theorem deferred_cancel (env : Env) (natTraversal : Bool) (provisionalRetr : ℕ) (reqCb : Bool)
    (before after : List Label) {tm tm' : TM} {msg : Req} {respCb compact : Bool} {u : Server}
    (hrun : tm = run (TM.step env) (TM.init natTraversal provisionalRetr reqCb) before)
    (hinvite : msg.method = .invite) (hcseq : msg.cseqMethod = .invite)
    (hstart : tm' = TM.step env tm (.call (.newTransaction msg respCb compact (.ok u))))
    (hstored : tm'.tclient msg.ctid = some tm.cnext)
    (hbefore : ∀ msg' respCb compact userv, .call (.newTransaction msg' respCb compact userv) ∈ before →
      msg'.genCANCEL.ctid ≠ msg.genCANCEL.ctid)
    (hfits : Along (Watch.step env tm.cnext msg.genCANCEL.ctid)
      (Watch.Fits tm.cnext msg.genCANCEL.ctid) (Watch.start tm') after) :
    Watch.CancelledOnce env msg.genCANCEL u
      (run (Watch.step env tm.cnext msg.genCANCEL.ctid) (Watch.start tm') after) := by
  have hcseq' : msg.genCANCEL.cseqMethod = .cancel := rfl
  have hinv : ClientInv env ⟨False, False⟩ tm.cview := hrun ▸ ClientInv.run ..
  have hunused : Unused msg.genCANCEL.ctid tm := by
    have hall : Along (TM.step env) (fun _ l => ∀ msg' respCb compact userv,
        l = .call (.newTransaction msg' respCb compact userv) →
        msg'.genCANCEL.ctid ≠ msg.genCANCEL.ctid)
        (TM.init natTraversal provisionalRetr reqCb) before := by
      clear hrun
      generalize TM.init natTraversal provisionalRetr reqCb = tm₀
      induction before generalizing tm₀ with
      | nil => trivial
      | cons l ls ih =>
        refine ⟨fun msg' a b c heq => hbefore msg' a b c (heq ▸ List.mem_cons_self), ?_⟩
        exact ih (fun msg' a b c hmem => hbefore msg' a b c (List.mem_cons_of_mem _ hmem)) _
    have hboth : ClientInv env ⟨False, False⟩ tm.cview ∧ Unused msg.genCANCEL.ctid tm := by
      rw [hrun]
      refine hall.invariant (I := fun tm : TM => ClientInv env ⟨False, False⟩ tm.cview ∧
        Unused msg.genCANCEL.ctid tm) ?_ ⟨ClientInv.init .., rfl, fun c r hr => ?_⟩
      · exact fun tm l hnew h => ⟨h.1.step ⟨False.elim, False.elim⟩, h.2.step h.1 hcseq' hnew⟩
      · exact absurd hr.symm (Option.some_ne_none _)
    exact hboth.2
  have hnew : tm' = (TM.newTransaction env tm (some msg) respCb compact (.ok u)).1 := hstart
  obtain ⟨htarget, t, htid, hs, hcancel, hpend, huserv, hcb, haside⟩ :=
    TM.newTransaction_stored hinv.link (hnew ▸ hstored)
  rw [← hnew] at hcb haside
  have hown : tm'.cheap tm.cnext = t := by
    have hcheap : tm'.cheap = Function.update tm.cheap tm.cnext t := haside.cheap
    rw [hcheap, Function.update_self]
  have hopen : ¬ t.over := by
    rintro (hclosed | ⟨hnone, -⟩)
    · exact hclosed (.inl hs)
    · exact Option.some_ne_none _ (htid.symm.trans hnone)
  have hfirst : Watch.Stage env tm.cnext msg.genCANCEL u (Watch.start tm') := by
    have hnil : ({ msg.genCANCEL with rest := msg.genCANCEL.rest ++ [] } : Req) = msg.genCANCEL := rfl
    refine ⟨?_, ?_, fun c' r hne hr => ?_, Nat.zero_le 1, fun data hd => absurd hd List.not_mem_nil,
      fun _ => ?_, fun _ _ => ⟨rfl, rfl, False.elim, id⟩, fun _ _ => False.elim,
      fun _ => ⟨?_, fun resp hf => ?_⟩, False.elim⟩
    · rw [Watch.start, hstart]
      exact hinv.step ⟨False.elim, False.elim⟩
    · have hnext : tm'.cnext = tm.cnext + 1 := haside.cnext
      rw [Watch.start, hnext]
      exact Nat.lt_succ_self _
    · have hcheap : tm'.cheap = Function.update tm.cheap tm.cnext t := haside.cheap
      rw [Watch.start, hcheap, Function.update_of_ne hne] at hr
      exact ⟨hunused.2 c' r hr, (hinv.slot c').cancels r hr⟩
    · have htable : tm'.tclient = tm.tclient.set msg.ctid tm.cnext := haside.tclient
      have hother : msg.genCANCEL.ctid ≠ msg.ctid := fun heq => by
        have hm : Method.cancel = msg.cseqMethod := congrArg CTid.method heq
        exact absurd (hm.trans hcseq) (by decide)
      rw [Watch.start, hown, hnil]
      refine ⟨?_, hcancel hinvite, huserv, fun _ => ?_⟩
      · rw [htid]
        exact Option.some_ne_none _
      · rw [htable, Dict.set_other _ _ hother]
        exact hunused.1
    · rw [Watch.start, hown]
      exact hopen
    · -- no callback of the new transaction can be running
      have hdelivering : tm.cview.delivering tm.cnext := ⟨resp, hcb.symm.trans hf⟩
      exact ((hinv.slot tm.cnext).fresh (Nat.le_refl _)).2.2.1 hdelivering
  exact (hfits.invariant (I := Watch.Stage env tm.cnext msg.genCANCEL u)
    (fun w l hl hw => hw.step htarget rfl rfl hl) hfirst).cancelledOnce

namespace Sample

def reasonHeader : Text := "Reason: Q.850; cause=16\r\n".toList

def cancelReplyText : Text := "SIP/2.0 200 OK\r\nCSeq: 1 CANCEL\r\n\r\n".toList

def headerEnv : Env :=
  { env [] [(replyText 180, reply 180), (cancelReplyText, invite.genCANCEL.genResponse 200 [] [])] with
    reqStr := fun r _ _ => methodText r.method ++ " sip:b@203.0.113.1 SIP/2.0\r\n".toList ++ r.rest }

def calling : TM := TM.step headerEnv (TM.init false 0 true) startInvite

def ringing : List Label := [.recv (dgram (replyText 180)), .ret (.value .none) []]

def cancelWith (eh : Option Text) : Label := .call (.cancelTransaction 0 eh)

def watched (ls : List Label) : Watch :=
  run (Watch.step headerEnv 0 invite.genCANCEL.ctid) (Watch.start calling) ls

end Sample

section Witness
open Sample

theorem deferred_cancel_ringing : Watch.CancelledOnce headerEnv invite.genCANCEL server
    (watched (ringing ++ [cancelWith (some reasonHeader)])) := by
  have hfits : Along (Watch.step headerEnv 0 invite.genCANCEL.ctid)
      (Watch.Fits 0 invite.genCANCEL.ctid) (Watch.start calling)
      (ringing ++ [cancelWith (some reasonHeader)]) := by
    refine ⟨⟨?_, ?_, fun h => absurd rfl h⟩, ⟨?_, ?_, fun h => absurd rfl h⟩,
      ⟨?_, fun _ _ _ => .inl (by decide +kernel), fun _ => ⟨by decide +kernel, by decide +kernel⟩⟩, trivial⟩
    · exact fun _ _ _ _ heq => by cases heq
    · rintro ⟨eh, heq⟩
      cases heq
    · exact fun _ _ _ _ heq => by cases heq
    · rintro ⟨eh, heq⟩
      cases heq
    · exact fun _ _ _ _ heq => by cases heq
  have hrun : TM.init false 0 true = run (TM.step headerEnv) (TM.init false 0 true) [] := rfl
  have hstart : calling = TM.step headerEnv (TM.init false 0 true) (.call (.newTransaction invite true
    false (.ok server))) := rfl
  exact deferred_cancel headerEnv false 0 true [] _ hrun rfl rfl hstart (by decide +kernel)
    (fun _ _ _ _ hmem => absurd hmem List.not_mem_nil) hfits

/-- The extra headers are lost if the call comes before the first provisional response, and a second
call starts a second CANCEL once the first one is answered. -/
theorem extra_headers_lost :
    ¬ Watch.CancelledOnce headerEnv invite.genCANCEL server
      (watched (cancelWith (some reasonHeader) :: ringing)) ∧
    ¬ Watch.CancelledOnce headerEnv invite.genCANCEL server
      (watched (ringing ++ [cancelWith none, .recv (dgram cancelReplyText), cancelWith none])) := by
  refine ⟨fun h => ?_, fun h => ?_⟩
  · have hcarries := h.carries "CANCEL sip:b@203.0.113.1 SIP/2.0\r\n".toList (by decide +kernel)
    exact absurd hcarries (by decide +kernel)
  · exact absurd h.once (by decide +kernel)

end Witness

end SippyB2bua.Manager
