import SippyB2bua.Manager.ClientProtocol

/-!
# Client transactions that can still end

A transaction in the table has a timer scheduled or waits for `sendACK`, so it
does not stay there for ever. The handler of a response stops the timers before
it reads the To tag, the Contact and the Record-Routes, sends the ACK, starts a
deferred CANCEL and makes the callback; what any of these raises leaves the
transaction in the table with nothing to end it. `Harmless` lists the responses
and callbacks with which that does not happen.
-/

namespace SippyB2bua.Manager
open Lib (Text Dict Timer modifyAt run Along)

/-- A timer of the transaction is scheduled, or it waits for `sendACK`. -/
def CTr.awake (t : CTr) : Prop :=
  0 < t.teA.live ∨ 0 < t.teB.live ∨ 0 < t.teC.live ∨ 0 < t.teG.live ∨ t.state = .uack

instance (t : CTr) : Decidable t.awake :=
  inferInstanceAs (Decidable (_ ∨ _ ∨ _ ∨ _ ∨ _))

/-- No transaction is stuck: each one in the table is awake, unless its final
response is just being delivered. -/
def NoStuckClient (tm : TM) : Prop :=
  ∀ k c, tm.tclient k = some c → (∀ resp, tm.cb ≠ some (.final c resp)) → (tm.cheap c).awake

namespace TM

/-- The ACK of a final response can be made from its headers and, unless it is
deferred, transmitted. -/
structure AckPossible (env : Env) (t : CTr) (resp : Resp) (rnd : Text) : Prop where
  tag : ∃ tag, resp.toTag = .ok tag
  route : resp.scode < 300 → (∃ target, contactTarget resp = .ok target) ∧
    ∃ rrs, readAll resp.recordRoutes = .ok rrs
  sent : t.uack = false → ∀ u ack ack' addr, t.userv = some u →
    routedAck t ack resp rnd = .ok (ack', addr) → env.sendOk u addr = true

/-- The CANCEL that was asked for before the first provisional response can be sent. -/
def CancelPossible (env : Env) (tm : TM) (c : ℕ) : Prop :=
  ∃ r u target, (tm.cheap c).cancel = some r ∧ (tm.cheap c).userv = some u ∧
    tm.tclient r.ctid = none ∧ r.target = some target ∧
    env.sendOk u (some target.1.1, target.1.2) = true

/-- Nothing raises before the upper layer learns of the response. -/
structure Heard (env : Env) (tm : TM) (c : ℕ) (resp : Resp) (rnd : Text) : Prop where
  ack : 200 ≤ resp.scode → (tm.cheap c).needack = true → AckPossible env (tm.cheap c) resp rnd
  cancel : resp.scode < 200 → (tm.cheap c).state = .trying → (tm.cheap c).cancelPending = true →
    CancelPossible env tm c

/-- A response that is heard, or a callback of a final response that returns, or
any other step. -/
structure Harmless (env : Env) (tm : TM) (l : Label) : Prop where
  heard : ∀ dg c resp, l = .recv dg → Matches env tm dg c resp → (tm.cheap c).open →
    Heard env tm c resp dg.rnd
  returns : ∀ c resp e rnd, tm.cb = some (.final c resp) → l = .ret (.raise e) rnd →
    (tm.cheap c).state = .uack ∨ (tm.cheap c).tid = none

section Heard
variable {env : Env} {tm : TM} {c : ℕ} {resp : Resp} {checksum rnd : Text} {m : CMode}

theorem routedAck_stopped (t : CTr) (ack : Req) (resp : Resp) (rnd : Text) (ack' : Option Req) :
    routedAck { t.stopped with ack := ack' } ack resp rnd = routedAck t ack resp rnd := rfl

theorem routedAck_ok {t : CTr} (h : AckPossible env t resp rnd) (ack : Req) :
    ∃ ack' addr, routedAck t ack resp rnd = .ok (ack', addr) := by
  unfold routedAck
  split
  · rename_i h2
    obtain ⟨⟨target, htarget⟩, rrs, hrrs⟩ := h.route h2.2
    simp [htarget, hrrs, Except.bind, Except.map]
  · exact ⟨ack, t.address, rfl⟩

theorem settleAck_ok (hready : (tm.cheap c).userv ≠ none ∧
    ((tm.cheap c).needack = true → (tm.cheap c).ack ≠ none))
    (h : (tm.cheap c).needack = true → AckPossible env (tm.cheap c) resp rnd) :
    (settleAck env (tm.updC c CTr.stopped) c resp checksum rnd).2 = none := by
  unfold settleAck
  split
  · rename_i hneed
    have hneed : (tm.cheap c).needack = true := by simpa [updC, CTr.stopped] using hneed
    have hpos := h hneed
    obtain ⟨tag, htag⟩ := hpos.tag
    obtain ⟨u, hu⟩ := Option.ne_none_iff_exists'.mp hready.1
    obtain ⟨ack, hack⟩ := Option.ne_none_iff_exists'.mp (hready.2 hneed)
    obtain ⟨ack', addr, hroute⟩ := routedAck_ok hpos (tagAck tag ack)
    have hu' : ((tm.updC c CTr.stopped).cheap c).userv = some u := by
      simpa [updC, CTr.stopped] using hu
    have hack' : ((tm.updC c CTr.stopped).cheap c).ack = some ack := by
      simpa [updC, CTr.stopped] using hack
    have hroute' : routedAck (((tm.updC c CTr.stopped).updC c fun t => { t with
        ack := some (tagAck tag ack) }).cheap c) (tagAck tag ack) resp rnd = .ok (ack', addr) := by
      rw [← hroute, ← routedAck_stopped (tm.cheap c) _ _ _ (some (tagAck tag ack))]
      simp [updC]
    simp only [acknowledge, hack', hu', htag, hroute', dispatchAck]
    split
    · rename_i huack
      have huack : (tm.cheap c).uack = false := by simpa [updC, CTr.stopped] using huack
      have hsend := hpos.sent huack u _ _ _ hu hroute
      simp [transmitData, hsend, ok]
    · rfl
  · rfl

theorem startCancel_ok {tm' : TM} (h : CancelPossible env tm c) (htab : tm'.tclient = tm.tclient)
    (hcancel : (tm'.cheap c).cancel = (tm.cheap c).cancel)
    (huserv : (tm'.cheap c).userv = (tm.cheap c).userv)
    (hmethod : ∀ r, (tm.cheap c).cancel = some r → r.method = .cancel) :
    (startCancel env tm' c).2 = none := by
  obtain ⟨r, u, target, hr, hu, hfree, htarget, hsend⟩ := h
  have hlife : lifetime r = .ok 32 := by simp [lifetime, hmethod r hr]
  have hprep : preparedAck r = .ok none := by simp [preparedAck, hmethod r hr]
  simp [startCancel, newTransaction, hcancel, huserv, hr, hu, htab, hfree, htarget, hlife, hprep,
    storeClient, transmitData, hsend, ok]

theorem Heard.undisturbed {new fin : Prop} {rs : List Resp} {n : ℕ}
    (h : Heard env tm c resp rnd) (hok : (tm.cheap c).Ok m new fin rs n)
    (htid : (tm.cheap c).tid ≠ none) (a : Act) :
    Undisturbed env (tm.record a) c resp checksum rnd where
  ack hcode := settleAck_ok (hok.ready htid) (h.ack hcode)
  cancel hcode htry hpend := startCancel_ok (h.cancel hcode htry hpend) rfl
    (by simp [updC, record, CTr.stopped]) (by simp [updC, record, CTr.stopped]) hok.cancels

end Heard
end TM

theorem ClientInv.kept {env : Env} {m : CMode} {tm : TM} {l : Label}
    (h : ClientInv env m tm.cview) (hl : TM.Harmless env tm l) : TM.Kept env m tm l where
  returns _ := hl.returns
  calm _ dg c resp heq hmatch hs := by
    obtain ⟨received, hparse, hin, hfix⟩ := id hmatch
    have htid : (tm.cheap c).tid = some received.ctid := (h.link.keyed _ c).mp hin
    exact (hl.heard dg c resp heq hmatch hs).undisturbed (h.slot c) (by simp [htid]) _

theorem ClientInv.noStuckClient {env : Env} {m : CMode} {tm : TM} (hc : m.calm) (hr : m.returns)
    (h : ClientInv env m tm.cview) : NoStuckClient tm := by
  intro k c hk hcb
  have hok := h.slot c
  have hkey : (tm.cheap c).tid = some k := (h.link.keyed k c).mp hk
  have htid : (tm.cheap c).tid ≠ none := by simp [hkey]
  have hnf : ¬ tm.cview.delivering c := fun ⟨resp, hd⟩ => hcb resp hd
  rcases hok.states with hs | hs | hs
  · exact .inr (.inl (hok.timed hc hr hs htid hnf))
  · exact .inr (.inr (.inl (hok.waits htid hs)))
  · exact .inr (.inr (.inr (.inr hs)))

/-- In every run of harmless steps no client transaction is stuck in any state. -/
theorem no_stuck_client {env : Env} {natTraversal : Bool} {provisionalRetr : ℕ} {reqCb : Bool}
    {ls : List Label}
    (h : Along (TM.step env) (TM.Harmless env) (TM.init natTraversal provisionalRetr reqCb) ls) :
    NoStuckClient (run (TM.step env) (TM.init natTraversal provisionalRetr reqCb) ls) := by
  have hinv : ClientInv env ⟨True, True⟩
      (run (TM.step env) (TM.init natTraversal provisionalRetr reqCb) ls).cview :=
    h.invariant (I := fun tm : TM => ClientInv env ⟨True, True⟩ tm.cview)
      (fun tm l hl hI => hI.step (hI.kept hl))
      (ClientInv.init env _ natTraversal provisionalRetr reqCb)
  exact hinv.noStuckClient trivial trivial

namespace Sample

theorem fixResponse_reply (tm : TM) (c : ℕ) (ra : RemoteAddress) (n : ℕ) :
    TM.fixResponse tm c ra (reply n) = .ok (reply n) := by
  unfold TM.fixResponse
  split <;> split <;> rfl

/-- A response without Contact and Record-Route disturbs nothing unless a CANCEL
is pending. -/
theorem recv_harmless {tm : TM} {data : Text} {n : ℕ}
    (hparse : replyEnv.parseResp data = some (reply n))
    (hc : ∀ c, tm.tclient (reply n).ctid = some c → (tm.cheap c).cancelPending = false) :
    TM.Harmless replyEnv tm (.recv (dgram data)) where
  heard dg c resp heq hmatch _ := by
    cases heq
    obtain ⟨received, hreceived, hin, hfix⟩ := hmatch
    cases hparse.symm.trans hreceived
    rw [fixResponse_reply] at hfix
    cases hfix
    refine ⟨fun _ _ => ⟨⟨tag1, rfl⟩, fun _ => ⟨⟨none, rfl⟩, [], rfl⟩, fun _ _ _ _ _ _ _ => rfl⟩,
      fun _ _ hpend => ?_⟩
    simp [hc c hin] at hpend
  returns c resp e rnd _ heq := by cases heq

theorem quiet_harmless {env : Env} {tm : TM} {l : Label} (hrecv : ∀ dg, l ≠ .recv dg)
    (hraise : ∀ e rnd, l ≠ .ret (.raise e) rnd) : TM.Harmless env tm l :=
  ⟨fun dg _ _ heq => absurd heq (hrecv dg), fun _ _ e rnd _ heq => absurd heq (hraise e rnd)⟩

/-- The To header of the answer is `<sip:b@203.0.113.1`, which cannot be parsed. -/
def brokenEnv : Env := env [] [(replyText 200, { reply 200 with toTag := .error .valueError })]

def brokenAnswer : List Label := [startInvite, .recv (dgram (replyText 200))]

end Sample

open Sample in
theorem no_stuck_client_answered :
    NoStuckClient (run (TM.step replyEnv) (TM.init false 0 true) answered) := by
  have hcancel : ∀ tm : TM, (tm.tclient (reply 200).ctid = some 0 ∧
      (tm.cheap 0).cancelPending = false) → ∀ n c, tm.tclient (reply n).ctid = some c →
        (tm.cheap c).cancelPending = false := by
    rintro tm ⟨hin, hpend⟩ n c hc
    cases hin.symm.trans hc
    exact hpend
  have hharmless : Along (TM.step replyEnv) (TM.Harmless replyEnv) (TM.init false 0 true)
      answered := by
    refine ⟨quiet_harmless (by simp [startInvite]) (by simp [startInvite]), ?_, quiet_harmless (by simp) (by simp), ?_,
      quiet_harmless (by simp) (by simp), trivial⟩
    · exact recv_harmless (n := 180) (by decide +kernel) (hcancel _ (by decide +kernel) 180)
    · exact recv_harmless (n := 200) (by decide +kernel) (hcancel _ (by decide +kernel) 200)
  exact no_stuck_client hharmless

open Sample in
theorem brokenAnswer_stuck :
    ¬ NoStuckClient (run (TM.step brokenEnv) (TM.init false 0 true) brokenAnswer) := by
  intro h
  have hcb : (run (TM.step brokenEnv) (TM.init false 0 true) brokenAnswer).cb = none := by
    decide +kernel
  exact absurd (h invite.ctid 0 (by decide +kernel) (by simp [hcb])) (by decide +kernel)

end SippyB2bua.Manager
