import SippyB2bua.Manager.ClientProtocol

/-!
# The ACK that a callback asks to defer

A callback that wants to send the ACK of a 2xx response itself sets `uack` on
the transaction and calls `sendACK` later. The manager looks at `uack` before
it makes the callback, so the ACK is out by then: the transaction goes the
ordinary way, is removed when the callback returns, and `sendACK` has nothing
to send. This is so in every run, whatever happens afterwards.
-/

namespace SippyB2bua.Manager
open Lib (Text Dict Timer modifyAt run Along)

def Act.isAck (c : ℕ) : Act → Bool
  | .sent (.ack c') _ _ _ | .sent (.sendACK c') _ _ _ => c' = c
  | _ => false

/-- The callback for a 2xx response to an INVITE is running, and neither is the
ACK deferred yet nor was `sendACK` called. -/
def Asks (tm : TM) (c : ℕ) : Prop :=
  (∃ resp, tm.cb = some (.final c resp) ∧ 200 ≤ resp.scode ∧ resp.scode < 300) ∧
  (tm.cheap c).needack = true ∧ (tm.cheap c).uack = false ∧ .callSendACK c ∉ tm.log

/-- The callback sets `uack`, and the run goes on. -/
def afterUack (env : Env) (tm : TM) (c : ℕ) (ms : List Label) : TM :=
  run (TM.step env) tm (.call (.setUack c) :: ms)

/-- What the callback may expect of a deferred ACK: none is transmitted before
`sendACK` is called, the transaction is in the table then and has its ACK, and
that ACK and no other is transmitted. -/
structure AckDeferred (env : Env) (tm : TM) (c : ℕ) (ms : List Label) : Prop where
  held : ∀ log, log <+: (afterUack env tm c ms).log → .callSendACK c ∉ log →
    ∀ a ∈ log, a.isAck c = false
  alive : ∀ ms₁ ms₂, ms = ms₁ ++ .call (.sendACK c) :: ms₂ →
    .callSendACK c ∉ (afterUack env tm c ms₁).log →
    (∃ k, (afterUack env tm c ms₁).tclient k = some c) ∧
      ((afterUack env tm c ms₁).cheap c).ack ≠ none
  sent : ∀ ms₁ ms₂, ms = ms₁ ++ .call (.sendACK c) :: ms₂ →
    .callSendACK c ∉ (afterUack env tm c ms₁).log →
    ∃ ack u addr, ((afterUack env tm c ms₁).cheap c).ack = some ack ∧
      (afterUack env tm c ms).log.filter (Act.isAck c) =
        [.sent (.sendACK c) u
          (env.reqStr ack u ((afterUack env tm c ms₁).cheap c).compact) addr]

theorem CMove.log_grows {env : Env} {m : CMode} {v v' : CView} (h : CMove env m v v') :
    v.log <+: v'.log := by
  cases h with
  | aside h =>
    obtain ⟨as, -, hlog⟩ := h.log
    exact ⟨as, hlog.symm⟩
  | _ => first | exact List.prefix_append _ _ | exact List.prefix_refl _

theorem CMoves.log_grows {env : Env} {m : CMode} {v v' : CView} (h : CMoves env m v v') :
    v.log <+: v'.log := by
  induction h with
  | refl => exact List.prefix_refl _
  | tail _ hmove ih => exact ih.trans hmove.log_grows

/-- The transaction is over, or its callback is running and will remove it. -/
def Leaving (v : CView) (c : ℕ) : Prop :=
  c < v.cnext ∧ (((v.cheap c).tid = none ∧ (v.cheap c).ack = none) ∨
    (v.delivering c ∧ (v.cheap c).open ∧ (v.cheap c).tid ≠ none ∧ (v.cheap c).ackRAddr = none ∧
      (v.cheap c).teC.live = 0))

theorem Leaving.not_free {v : CView} {c : ℕ} (h : Leaving v c) (hcb : v.cb = none) :
    (v.cheap c).tid = none := by
  rcases h.2 with h | ⟨hd, -⟩
  · exact h.1
  · exact absurd hd (not_delivering hcb)

theorem Leaving.ackRAddr {v : CView} {c : ℕ} (h : Leaving v c)
    (hne : (v.cheap c).ack ≠ none) : (v.cheap c).ackRAddr = none := by
  rcases h.2 with ⟨-, hack⟩ | ⟨-, -, -, haddr, -⟩
  · exact absurd hack hne
  · exact haddr

theorem Leaving.keep {v v' : CView} {c : ℕ} (h : Leaving v c) (hnext : v.cnext ≤ v'.cnext)
    (htid : (v'.cheap c).tid = (v.cheap c).tid)
    (hack : (v.cheap c).ack = none → (v'.cheap c).ack = none)
    (hstate : (v'.cheap c).state = (v.cheap c).state)
    (haddr : (v'.cheap c).ackRAddr = (v.cheap c).ackRAddr)
    (hC : (v'.cheap c).teC = (v.cheap c).teC)
    (hcb : v.delivering c → v'.delivering c) : Leaving v' c := by
  refine ⟨Nat.lt_of_lt_of_le h.1 hnext, ?_⟩
  rcases h.2 with ⟨hnone, hak⟩ | ⟨hd, ho, hne, ha, hl⟩
  · exact .inl ⟨htid.trans hnone, hack hak⟩
  · refine .inr ⟨hcb hd, ?_, ?_, haddr.trans ha, by rw [hC]; exact hl⟩
    · simpa [CTr.open, hstate] using ho
    · rw [htid]; exact hne

theorem Leaving.other {v v' : CView} {c : ℕ} (h : Leaving v c) (hsame : v'.cheap c = v.cheap c)
    (hnext : v'.cnext = v.cnext) (hcb : v.delivering c → v'.delivering c) : Leaving v' c :=
  h.keep hnext.ge (by rw [hsame]) (by rw [hsame]; exact id) (by rw [hsame]) (by rw [hsame])
    (by rw [hsame]) hcb

theorem Leaving.not_delivering_other {v : CView} {c c' : ℕ} {resp : Resp} (hc : c ≠ c')
    (hcb : v.cb = some (.final c' resp)) : ¬ v.delivering c := by
  rintro ⟨resp', hd⟩
  cases hcb.symm.trans hd
  exact hc rfl

theorem Leaving.move {env : Env} {m : CMode} {v v' : CView} {c : ℕ} (hr : m.returns)
    (h : Leaving v c) (hm : CMove env m v v') : Leaving v' c := by
  have hfree : v.cb = none → v.delivering c → v'.delivering c := fun hcb hd =>
    absurd hd (not_delivering hcb)
  -- a response, or the end of timer B, is handled for another transaction only
  have hrecv : ∀ {c'}, v.cb = none → (v.cheap c').tid ≠ none →
      (c ≠ c' → v'.cheap c = v.cheap c) → v'.cnext = v.cnext → Leaving v' c := by
    intro c' hcb htid hheap hnext
    refine h.other (hheap ?_) hnext (hfree hcb)
    rintro rfl
    exact htid (h.not_free hcb)
  cases hm with
  | aside ha =>
    refine h.keep ha.cnext.ge (by rw [ha.cheap]) (by rw [ha.cheap]; exact id) (by rw [ha.cheap])
      (by rw [ha.cheap]) (by rw [ha.cheap]) ?_
    rintro ⟨resp, hd⟩
    rcases ha.cb with hcb | ⟨hnb, -⟩
    · exact ⟨resp, hcb.trans hd⟩
    · exact absurd ⟨_, hd, rfl⟩ hnb
  | returned c' hcb =>
    refine h.keep (Nat.le_refl _) rfl id rfl rfl rfl ?_
    rintro ⟨resp, hd⟩
    rcases hcb with hcb | hcb <;> cases hcb.symm.trans hd
  | start t k ht hk =>
    have hsame : (v.started t k).cheap c = v.cheap c :=
      Function.update_of_ne (Nat.ne_of_lt h.1) _ _
    exact h.keep (Nat.le_succ _) (by rw [hsame]) (by rw [hsame]; exact id) (by rw [hsame])
      (by rw [hsame]) (by rw [hsame]) id
  | touch c' f hf =>
    by_cases hc : c = c'
    · subst hc
      exact h.keep (Nat.le_refl _) (by simpa using hf.tid) (by simpa using hf.ack.mpr)
        (by simpa using hf.state) (by simpa using hf.ackRAddr) (by simpa using hf.teC) id
    · exact h.other (by simp [Lib.modifyAt_other _ _ hc]) rfl id
  | ring c' pending hcb hs htid =>
    exact hrecv hcb htid (fun hc => by simp [Lib.modifyAt_other _ _ hc]) rfl
  | tell c' resp hcb hs htid hcode horigin =>
    exact h.keep (Nat.le_refl _) rfl id rfl rfl rfl (hfree hcb)
  | stall c' state ack hcb hs htid hstate hack hcalm =>
    exact hrecv hcb htid (fun hc => by simp [Lib.modifyAt_other _ _ hc]) rfl
  | answer c' ack as resp hcb hs htid hack hcode horigin has =>
    exact hrecv hcb htid (fun hc => by simp [Lib.modifyAt_other _ _ hc]) rfl
  | answerMute c' k ack as hcb hs htid has =>
    exact hrecv hcb (by rw [htid]; simp) (fun hc => by simp [Lib.modifyAt_other _ _ hc]) rfl
  | defer c' ack addr checksum cb as hcb hs htid huack horigin has =>
    exact hrecv hcb htid (fun hc => by simp [Lib.modifyAt_other _ _ hc]) rfl
  | finish c' resp k hcb hs htid =>
    by_cases hc : c = c'
    · subst hc
      exact ⟨h.1, .inl (by simp [CTr.cleanup])⟩
    · exact h.other (by simp [Lib.modifyAt_other _ _ hc]) rfl fun hd => absurd hd (not_delivering_other hc hcb)
  | finishLost c' resp hcb hs =>
    by_cases hc : c = c'
    · subst hc
      rcases h.2 with hgone | ⟨-, ho, hne, -⟩
      · exact ⟨h.1, .inl hgone⟩
      · rcases hs with hs | hs | hs
        · exact absurd hs ho.ne_uack
        · exact absurd hs hne
        · exact absurd hr hs
    · exact h.keep (Nat.le_refl _) rfl id rfl rfl rfl fun hd =>
        absurd hd (not_delivering_other hc hcb)
  | expireB c' cb as hcb hlive has =>
    by_cases hc : c = c'
    · subst hc
      rcases h.2 with ⟨htid, hack⟩ | ⟨hd, -⟩
      · exact ⟨h.1, .inl (by simpa using ⟨htid, hack⟩)⟩
      · exact absurd hd (not_delivering hcb)
    · exact h.other (by simp [Lib.modifyAt_other _ _ hc]) rfl (hfree hcb)
  | expireC c' k hlive htid =>
    by_cases hc : c = c'
    · subst hc
      exact ⟨h.1, .inl (by simp [CTr.cleanup])⟩
    · exact h.other (by simp [Lib.modifyAt_other _ _ hc]) rfl id
  | expireCLost c' hlive htid =>
    by_cases hc : c = c'
    · subst hc
      rcases h.2 with hgone | ⟨-, -, hne, -⟩
      · exact ⟨h.1, .inl (by simpa using hgone)⟩
      · exact absurd htid hne
    · exact h.other (by simp [Lib.modifyAt_other _ _ hc]) rfl id
  | expireA c' rearm hlive hr =>
    by_cases hc : c = c'
    · subst hc
      exact h.keep (Nat.le_refl _) (by simp) (by simp) (by simp) (by simp) (by simp) id
    · exact h.other (by simp [Lib.modifyAt_other _ _ hc]) rfl id
  | expireG c' hlive =>
    by_cases hc : c = c'
    · subst hc
      exact h.keep (Nat.le_refl _) (by simp) (by simp) (by simp) (by simp) (by simp) id
    · exact h.other (by simp [Lib.modifyAt_other _ _ hc]) rfl id
  | sendAckEarly c' haddr => exact h.keep (Nat.le_refl _) rfl id rfl rfl rfl id
  | sendAckFailed c' haddr =>
    by_cases hc : c = c'
    · subst hc
      exact h.keep (Nat.le_refl _) (by simp) (by simp) (by simp) (by simp) (by simp) id
    · exact h.other (by simp [Lib.modifyAt_other _ _ hc]) rfl id
  | sendAck c' k u ack addr haddr hack htid =>
    by_cases hc : c = c'
    · subst hc
      exact ⟨h.1, .inl (by simp [CTr.cleanup])⟩
    · exact h.other (by simp [Lib.modifyAt_other _ _ hc]) rfl id
  | sendAckLost c' u data addr haddr htid hack =>
    by_cases hc : c = c'
    · subst hc
      exact absurd (h.ackRAddr hack) haddr
    · exact h.other (by simp [Lib.modifyAt_other _ _ hc]) rfl id

/-- `sendACK` transmits nothing for a transaction that is leaving. -/
theorem Leaving.mute {env : Env} {m : CMode} {v v' : CView} {c : ℕ} (h : Leaving v c)
    (hm : CMove env m v v') {u : Server} {data : Text} {addr : TAddr}
    (hmem : .sent (.sendACK c) u data addr ∈ v'.log) : .sent (.sendACK c) u data addr ∈ v.log := by
  have hnew : ∀ {as : List Act}, .sent (.sendACK c) u data addr ∉ as →
      .sent (.sendACK c) u data addr ∈ v.log ++ as → .sent (.sendACK c) u data addr ∈ v.log := by
    intro as has hmem
    exact (List.mem_append.mp hmem).resolve_right has
  have hsent : ∀ {c' needack as}, AckSent c' needack as →
      .sent (.sendACK c) u data addr ∉ as := by
    intro c' needack as has
    unfold AckSent at has
    split at has
    · obtain ⟨u', data', addr', rfl⟩ := has
      simp
    · simp [has]
  cases hm with
  | aside ha =>
    obtain ⟨as, has, hlog⟩ := ha.log
    refine hnew (fun hin => ?_) (hlog ▸ hmem)
    simpa [Act.ofClient, Origin.ofClient] using has _ hin
  | returned | start | touch | ring | stall | finishLost | expireA | expireG | expireCLost =>
    exact hmem
  | tell | finish | expireC | sendAckEarly | sendAckFailed => exact hnew (by simp) hmem
  | answer c' ack as resp hcb hs htid hack hcode horigin has =>
    exact hnew (by simpa using hsent has) hmem
  | answerMute c' k ack as hcb hs htid has => exact hnew (by simpa using hsent has) hmem
  | defer c' ack addr' checksum cb as hcb hs htid huack horigin has =>
    refine hnew ?_ hmem
    rcases has with ⟨-, rfl⟩ | ⟨resp, -, -, -, rfl⟩ <;> simp
  | expireB c' cb as hcb hlive has =>
    refine hnew ?_ hmem
    rcases has with ⟨-, rfl⟩ | ⟨resp, -, -, rfl⟩ <;> simp
  | sendAck c' k u' ack addr' haddr hack htid =>
    refine hnew ?_ hmem
    simp only [List.mem_cons, Act.sent.injEq, Origin.sendACK.injEq, reduceCtorEq, false_or,
      List.not_mem_nil, or_false, not_and]
    rintro rfl
    exact absurd (h.ackRAddr (by simp [hack])) (by simp [haddr])
  | sendAckLost c' u' data' addr' haddr htid hack =>
    refine hnew ?_ hmem
    simp only [List.mem_cons, Act.sent.injEq, Origin.sendACK.injEq, reduceCtorEq, false_or,
      List.not_mem_nil, or_false, not_and]
    rintro rfl
    exact absurd (h.ackRAddr hack) haddr

theorem Leaving.moves {env : Env} {m : CMode} {v v' : CView} {c : ℕ} (hr : m.returns)
    (h : Leaving v c) (hm : CMoves env m v v') : Leaving v' c ∧
      ∀ u data addr, .sent (.sendACK c) u data addr ∈ v'.log →
        .sent (.sendACK c) u data addr ∈ v.log := by
  induction hm with
  | refl => exact ⟨h, fun _ _ _ => id⟩
  | tail _ hmove ih =>
    exact ⟨ih.1.move hr hmove, fun u data addr hmem => ih.2 u data addr (ih.1.mute hmove hmem)⟩

namespace TM

theorem run_log_grows {env : Env} {tm : TM} (h : ClientInv env ⟨False, False⟩ tm.cview)
    (ls : List Label) : tm.log <+: (run (step env) tm ls).log := by
  induction ls generalizing tm with
  | nil => exact List.prefix_refl _
  | cons l ls ih =>
    have hkept : Kept env ⟨False, False⟩ tm l := ⟨False.elim, False.elim⟩
    exact (step_cmoves h.link hkept).log_grows.trans (ih (h.step hkept))

theorem run_leaving {env : Env} {tm : TM} {c : ℕ} {ls : List Label}
    (hinv : ClientInv env ⟨False, False⟩ tm.cview) (h : Leaving tm.cview c)
    (hret : Along (step env) FinalReturns tm ls) :
    Leaving (run (step env) tm ls).cview c ∧
      ∀ u data addr, .sent (.sendACK c) u data addr ∈ (run (step env) tm ls).log →
        .sent (.sendACK c) u data addr ∈ tm.log := by
  induction ls generalizing tm with
  | nil => exact ⟨h, fun _ _ _ => id⟩
  | cons l ls ih =>
    have hkept : Kept env ⟨True, False⟩ tm l :=
      ⟨fun _ c resp e rnd hcb heq => absurd heq (hret.1 c resp e rnd hcb), False.elim⟩
    have hstep := h.moves (m := ⟨True, False⟩) trivial (step_cmoves hinv.link hkept)
    have hrest := ih (hinv.step ⟨False.elim, False.elim⟩) hstep.1 hret.2
    exact ⟨hrest.1, fun u data addr hmem => hstep.2 u data addr (hrest.2 u data addr hmem)⟩

end TM

section Asks
variable {env : Env} {natTraversal : Bool} {provisionalRetr : ℕ} {reqCb : Bool} {ls : List Label}
  {tm : TM} {c : ℕ}

theorem Asks.open (hinv : ClientInv env ⟨False, False⟩ tm.cview) (h : Asks tm c) :
    tm.cview.delivering c ∧ (tm.cheap c).open ∧ (tm.cheap c).tid ≠ none := by
  obtain ⟨⟨resp, hcb, -⟩, -, huack, -⟩ := h
  have hd : tm.cview.delivering c := ⟨resp, hcb⟩
  rcases (hinv.slot c).frame hd with hu | ⟨ho, htid⟩
  · have hflag : (tm.cheap c).uack = true := (hinv.slot c).flagged hu
    simp [huack] at hflag
  · exact ⟨hd, ho, htid⟩

theorem Asks.acked (hinv : ClientInv env ⟨False, False⟩ tm.cview) (h : Asks tm c) :
    Acked c tm.log :=
  hinv.acked c (h.open hinv).1 (h.open hinv).2.1 h.2.1

theorem Asks.leaving (hinv : ClientInv env ⟨False, False⟩ tm.cview) (h : Asks tm c) :
    Leaving tm.cview c := by
  obtain ⟨hd, ho, htid⟩ := h.open hinv
  have hok := hinv.slot c
  refine ⟨?_, .inr ⟨hd, ho, htid, ?_, (hok.stopped_live ho).2.2.1⟩⟩
  · by_contra hge
    exact htid (hinv.link.beyond c (Nat.not_lt.mp hge))
  · by_contra ha
    exact ho.ne_uack (hok.deferred ha)

/-- Whenever a callback asks to defer the ACK of a 2xx response, the ACK has been
transmitted already. If the callbacks return, `sendACK` never transmits one, and
once this callback has returned the transaction is not in the table and has no
ACK left. -/
theorem ack_never_deferred
    (htm : tm = run (TM.step env) (TM.init natTraversal provisionalRetr reqCb) ls)
    (h : Asks tm c) (ms : List Label) :
    ¬ AckDeferred env tm c ms ∧
    (Along (TM.step env) TM.FinalReturns tm (.call (.setUack c) :: ms) →
      (∀ u data addr, .sent (.sendACK c) u data addr ∈ (afterUack env tm c ms).log →
        .sent (.sendACK c) u data addr ∈ tm.log) ∧
      ((∀ resp, (afterUack env tm c ms).cb ≠ some (.final c resp)) →
        (∀ k, (afterUack env tm c ms).tclient k ≠ some c) ∧
          ((afterUack env tm c ms).cheap c).ack = none)) := by
  have hinv : ClientInv env ⟨False, False⟩ tm.cview :=
    htm ▸ ClientInv.run env natTraversal provisionalRetr reqCb ls
  refine ⟨fun hdef => ?_, fun hret => ?_⟩
  · obtain ⟨u, data, addr, hmem⟩ := h.acked hinv
    have hnot := hdef.held tm.log (TM.run_log_grows hinv _) h.2.2.2 _ hmem
    simp [Act.isAck] at hnot
  · obtain ⟨hleave, hmute⟩ := TM.run_leaving hinv (h.leaving hinv) hret
    refine ⟨hmute, fun hcb => ?_⟩
    rcases hleave.2 with ⟨htid, hack⟩ | ⟨⟨resp, hd⟩, -⟩
    · refine ⟨fun k hk => ?_, hack⟩
      have hlater : ClientInv env ⟨False, False⟩ (afterUack env tm c ms).cview := by
        rw [afterUack, htm, ← Lib.run_append]
        exact ClientInv.run env natTraversal provisionalRetr reqCb _
      have hkey := (hlater.link.keyed k c).mp hk
      rw [afterUack, htid] at hkey
      cases hkey
    · exact absurd hd (hcb resp)

end Asks

namespace Sample

def answering : List Label := [startInvite, .recv (dgram (replyText 200))]

def lateAck : List Label :=
  [.ret (.value .none) [], .call (.setAckBody 0 (some "v=0".toList)), .call (.sendACK 0)]

theorem answering_asks : Asks (run (TM.step replyEnv) (TM.init false 0 true) answering) 0 :=
  ⟨⟨reply 200, by decide +kernel, by decide, by decide⟩, by decide +kernel, by decide +kernel,
    by decide +kernel⟩

end Sample

open Sample in
theorem ack_never_deferred_late :
    ¬ AckDeferred replyEnv (run (TM.step replyEnv) (TM.init false 0 true) answering) 0 lateAck :=
  (ack_never_deferred rfl answering_asks lateAck).1

open Sample in
theorem lateAck_not_deferred :
    ¬ ∀ (env : Env) (ls ms : List Label) (c : ℕ),
      Asks (run (TM.step env) (TM.init false 0 true) ls) c →
        AckDeferred env (run (TM.step env) (TM.init false 0 true) ls) c ms := by
  intro hall
  obtain ⟨-, halive, -⟩ := hall replyEnv answering lateAck 0 answering_asks
  have hack := (halive (lateAck.take 2) [] rfl (by decide +kernel)).2
  exact hack (by decide +kernel)

end SippyB2bua.Manager
