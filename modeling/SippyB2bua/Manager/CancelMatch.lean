import SippyB2bua.Manager.ServerMoves

/-!
# A CANCEL and its INVITE

An INVITE is stored under the branch of its top Via until its final response is sent, and a
CANCEL is looked up by its branch. So it finds an INVITE that is not answered yet. After the
final response the INVITE is stored under the To tag, where only the ACK looks.
-/

namespace SippyB2bua.Manager
open Lib (Text Dict Timer modifyAt run run_invariant)

structure STr.Stays (t t' : STr) : Prop where
  method : t'.method = t.method := by rfl
  needack : t'.needack = t.needack := by rfl
  confirmed : t.state = .confirmed → t'.state = .confirmed := by exact id
  active : t'.state = .trying ∨ t'.state = .ringing → t.state = .trying ∨ t.state = .ringing := by exact id
  kept : (t'.tid = t.tid ∧ t'.userv = t.userv ∧ t'.cancelId = t.cancelId) ∨
    (t'.tid = none ∧ t'.cancelId = none) := by exact .inl ⟨rfl, rfl, rfl⟩

theorem STr.Same.stays {t t' : STr} (h : t.Same t') : t.Stays t' where
  method := h.method
  needack := h.needack
  confirmed hs := h.state.trans hs
  active hs := by rwa [h.state] at hs
  kept := .inl ⟨h.tid, h.userv, h.cancelId⟩

theorem stays_modifyAt {heap : ℕ → STr} {s : ℕ} {f : STr → STr} (h : (heap s).Stays (f (heap s)))
    (s' : ℕ) : (heap s').Stays (modifyAt heap s f s') := by
  by_cases hs : s' = s
  · subst hs
    rwa [Lib.modifyAt_same]
  · rw [Lib.modifyAt_other _ _ hs]
    exact {}

structure CancelInv (v : SView) : Prop where
  key : ∀ k s, v.tserver k = some s → (v.sheap s).tid = some k
  used : ∀ s, (v.sheap s).tid ≠ none → (v.sheap s).userv ≠ none
  /-- An INVITE without a final response has the key that a CANCEL looks for. -/
  invite : ∀ s k, (v.sheap s).cancelId = some k → k.2 = 487 ∧ (v.sheap s).method = .invite ∧
    (v.sheap s).needack = true ∧
    ((v.sheap s).state = .trying ∨ (v.sheap s).state = .ringing → (v.sheap s).tid = some k.1)
  method : ∀ s, (v.sheap s).method ≠ .cancel
  fresh : ∀ s, v.snext ≤ s → (v.sheap s).tid = none
  gone : ∀ s g, v.cb = some (.ack s g) →
    (v.sheap s).state = .confirmed ∧ s < v.snext ∧ ∀ k, v.tserver k ≠ some s

namespace CancelInv
variable {v v' : SView} {s : ℕ} {k : STid}

theorem of_stays (h : CancelInv v) (hheap : ∀ s, (v.sheap s).Stays (v'.sheap s))
    (htable : ∀ k s, v'.tserver k = some s →
      v.tserver k = some s ∧ (v'.sheap s).tid = (v.sheap s).tid)
    (hnext : v'.snext = v.snext) (hcb : ∀ s g, v'.cb = some (.ack s g) → v.cb = some (.ack s g)) :
    CancelInv v' where
  key k s hk := by
    obtain ⟨hk, htid⟩ := htable k s hk
    exact htid.trans (h.key k s hk)
  used s hs := by
    rcases (hheap s).kept with ⟨htid, huserv, -⟩ | ⟨htid, -⟩
    · rw [huserv]
      exact h.used s (htid ▸ hs)
    · exact absurd htid hs
  invite s k hk := by
    have hs := hheap s
    rcases hs.kept with ⟨htid, -, hid⟩ | ⟨-, hid⟩
    · obtain ⟨hcode, hmethod, hack, hkey⟩ := h.invite s k (hid ▸ hk)
      exact ⟨hcode, hs.method.trans hmethod, hs.needack.trans hack,
        fun ho => htid.trans (hkey (hs.active ho))⟩
    · exact absurd (hid.symm.trans hk) (Option.some_ne_none k).symm
  method s := by
    rw [(hheap s).method]
    exact h.method s
  fresh s hs := by
    rcases (hheap s).kept with ⟨htid, -, -⟩ | ⟨htid, -⟩
    · exact htid.trans (h.fresh s (hnext ▸ hs))
    · exact htid
  gone s g hg := by
    obtain ⟨hstate, hlt, hno⟩ := h.gone s g (hcb s g hg)
    exact ⟨(hheap s).confirmed hstate, hnext ▸ hlt, fun k hk => hno k (htable k s hk).1⟩

theorem of_modify (h : CancelInv v) {f : STr → STr} {l1 l2 : Dict Text (Option Retransmit)} {cb : Option Frame}
    {log : List Act} (hf : (v.sheap s).Stays (f (v.sheap s)))
    (htid : (f (v.sheap s)).tid = (v.sheap s).tid ∨ ∀ k, v.tserver k ≠ some s)
    (hcb : ∀ s g, cb = some (.ack s g) → v.cb = some (.ack s g)) :
    CancelInv ⟨modifyAt v.sheap s f, v.snext, v.tserver, l1, l2, cb, log⟩ := by
  refine h.of_stays (stays_modifyAt hf) (fun k s' hs' => ⟨hs', ?_⟩) rfl hcb
  dsimp only
  by_cases heq : s' = s
  · subst heq
    rw [Lib.modifyAt_same]
    exact htid.resolve_right fun hno => hno k hs'
  · rw [Lib.modifyAt_other _ _ heq]

theorem of_del (h : CancelInv v) {f : STr → STr} {l1 l2 : Dict Text (Option Retransmit)} {cb : Option Frame}
    {log : List Act} (hk : (v.sheap s).tid = some k) (hf : (v.sheap s).Stays (f (v.sheap s)))
    (hcb : ∀ s g, cb = some (.ack s g) → v.cb = some (.ack s g)) :
    CancelInv ⟨modifyAt v.sheap s f, v.snext, v.tserver.del k, l1, l2, cb, log⟩ := by
  refine h.of_stays (stays_modifyAt hf) (fun k' s' hs' => ?_) rfl hcb
  obtain ⟨hne, hold⟩ := Dict.del_eq_some.1 hs'
  refine ⟨hold, ?_⟩
  have heq : s' ≠ s := by
    rintro rfl
    exact hne (Option.some.inj ((h.key k' s' hold).symm.trans hk))
  dsimp only
  rw [Lib.modifyAt_other _ _ heq]

theorem not_stored (h : CancelInv v) (hs : (v.sheap s).tid = none) (k : STid) : v.tserver k ≠ some s :=
  fun hk => absurd ((h.key k s hk).symm.trans hs) (Option.some_ne_none k)

theorem cleanup_stays {t t' : STr} (hm : t'.method = t.method) (ha : t'.needack = t.needack)
    (hs : t'.state = t.state ∨ t'.state = .completed ∧ t.state ≠ .confirmed ∨ t'.state = .confirmed) :
    t.Stays t'.cleanup where
  method := hm
  needack := ha
  confirmed h := by
    rcases hs with hs | ⟨-, hs⟩ | hs
    · exact hs.trans h
    · exact absurd h hs
    · exact hs
  active h := by
    have h : t'.state = .trying ∨ t'.state = .ringing := h
    rcases hs with hs | ⟨hs, -⟩ | hs
    · rwa [hs] at h
    · rw [hs] at h
      rcases h with h | h <;> exact absurd h (by decide)
    · rw [hs] at h
      rcases h with h | h <;> exact absurd h (by decide)
  kept := .inr ⟨rfl, rfl⟩

theorem open_ne_confirmed {t : STr} (h : t.open) : t.state ≠ .confirmed := by
  rcases h.1 with hs | hs <;> rw [hs] <;> decide

theorem ackMove (h : CancelInv v) {c : Text} (hm : AckMove s c v v') : CancelInv v' := by
  have hno (s' : ℕ) (g : Guard) : v.cb = some (.ack s' g) → v.cb = some (.ack s' g) := id
  cases hm with
  | broken hD => exact h.of_modify { confirmed := fun _ => rfl, active := by simp } (.inl rfl) hno
  | lost hlost => exact h.of_modify { confirmed := fun _ => rfl, active := by simp } (.inl rfl) hno
  | call k g hk hg =>
    have hdel : CancelInv ⟨modifyAt v.sheap s fun t => { t with
        state := .confirmed, teA := t.teA.cancel, teD := t.teD.cancel }, v.snext, v.tserver.del k, v.l1, v.l2,
        v.cb, v.log⟩ := h.of_del hk.1 { confirmed := fun _ => rfl, active := by simp } hno
    refine ⟨hdel.key, hdel.used, hdel.invite, hdel.method, hdel.fresh, fun s' g' hg' => ?_⟩
    obtain ⟨rfl, -⟩ := Frame.ack.inj (Option.some.inj hg')
    refine ⟨by dsimp only; rw [Lib.modifyAt_same], ?_, fun k' hk' => ?_⟩
    · by_contra hge
      exact absurd (hk.1.symm.trans (h.fresh s (Nat.not_lt.1 hge))) (Option.some_ne_none k)
    · obtain ⟨hne, hk'⟩ := Dict.del_eq_some.1 hk'
      exact hne (Option.some.inj ((h.key k' s hk').symm.trans hk.1))
  | done k hk => exact h.of_del hk.1 (cleanup_stays rfl rfl (.inr (.inr rfl))) hno

theorem move {env : Env} {m : Mode} (h : CancelInv v) (hm : SMove env m v v') : CancelInv v' := by
  have hno (s' : ℕ) (g : Guard) : v.cb = some (.ack s' g) → v.cb = some (.ack s' g) := id
  cases hm with
  | quiet as cb l1 has hcb hl1 =>
    refine h.of_stays (fun _ => {}) (fun _ _ hk => ⟨hk, rfl⟩) rfl fun s g hg => ?_
    dsimp only at hg
    rcases hcb with rfl | rfl | ⟨f, rfl, hf⟩
    · exact hg
    · exact absurd hg.symm (Option.some_ne_none _)
    · rw [Option.some.inj hg] at hf
      exact absurd hf (by simp [Frame.plain])
  | store t req htid hstate huserv hdata hmethod hack hA hD hnot horigin hfree hmiss hcancel =>
    have hne {s : ℕ} {k : STid} (hk : v.tserver k = some s) : s ≠ v.snext := by
      rintro rfl
      exact h.not_stored (h.fresh _ (Nat.le_refl _)) k hk
    have hold {s : ℕ} (hs : s ≠ v.snext) : Function.update v.sheap v.snext t s = v.sheap s :=
      Function.update_of_ne hs _ _
    refine ⟨fun k s hk => ?_, fun s hs => ?_, fun s k hk => ?_, fun s => ?_, fun s hs => ?_, fun s g hg => ?_⟩
    · dsimp only at hk ⊢
      rcases Dict.set_eq_some.1 hk with ⟨rfl, rfl⟩ | ⟨-, hk⟩
      · rw [Function.update_self]
        exact htid
      · rw [hold (hne hk)]
        exact h.key k s hk
    · dsimp only at hs ⊢
      by_cases heq : s = v.snext
      · rw [heq, Function.update_self]
        exact huserv
      · rw [hold heq] at hs ⊢
        exact h.used s hs
    · dsimp only at hk ⊢
      by_cases heq : s = v.snext
      · rw [heq, Function.update_self] at hk ⊢
        obtain ⟨rfl, hinvite⟩ := hcancel k hk
        exact ⟨rfl, hinvite, hack.2 hinvite, fun _ => htid⟩
      · rw [hold heq] at hk ⊢
        exact h.invite s k hk
    · dsimp only
      by_cases heq : s = v.snext
      · rw [heq, Function.update_self, hmethod]
        exact hnot.2
      · rw [hold heq]
        exact h.method s
    · dsimp only at hs ⊢
      rw [hold (by omega)]
      exact h.fresh s (by omega)
    · obtain ⟨hconf, hlt, hnone⟩ := h.gone s g hg
      refine ⟨?_, Nat.lt_succ_of_lt hlt, fun k hk => ?_⟩
      · dsimp only
        rw [hold (by omega)]
        exact hconf
      · rcases Dict.set_eq_some.1 hk with ⟨-, rfl⟩ | ⟨-, hk⟩
        · exact absurd hlt (Nat.lt_irrefl _)
        · exact hnone k hk
  | askUpper s g hs =>
    refine h.of_stays (fun _ => {}) (fun _ _ hk => ⟨hk, rfl⟩) rfl fun s' g' hg => ?_
    exact absurd (Option.some.inj hg) (by simp)
  | touch s f hf => exact h.of_modify hf.stays (.inl hf.tid) hno
  | draft s data addr hs hfail => exact h.of_modify {} (.inl rfl) hno
  | ring s scode r a teF hs ha hr hcode hcur =>
    exact h.of_modify { confirmed := fun hc => absurd hc (open_ne_confirmed hs), active := fun _ => hs.1 }
      (.inl rfl) hno
  | completeKeep s k tag scode r a ackCb hs ha hr hcode hcur hack hk hfree =>
    have hdone : CancelInv ⟨modifyAt v.sheap s fun t => { (t.drafted r).waitAck ackCb with
        teA := t.teA.arm }, v.snext, v.tserver.del k, v.l1, v.l2, v.cb, v.log⟩ := by
      apply h.of_del hk.1 _ hno
      exact { confirmed := fun hc => absurd hc (open_ne_confirmed hs), active := fun _ => hs.1 }
    have htid : (v.sheap s).tid.map (fun k => TM.rekey k tag) = some (TM.rekey k tag) := by
      rw [hk.1]
      rfl
    have hheap {s' : ℕ} (heq : s' ≠ s) (f : STr → STr) : modifyAt v.sheap s f s' = v.sheap s' :=
      Lib.modifyAt_other _ _ heq
    refine ⟨fun k' s' hk' => ?_, fun s' hs' => ?_, fun s' k' hk' => ?_, fun s' => ?_, fun s' hs' => ?_,
      fun s' g hg => ?_⟩
    · dsimp only at hk' ⊢
      rcases Dict.set_eq_some.1 hk' with ⟨rfl, rfl⟩ | ⟨-, hk'⟩
      · rw [Lib.modifyAt_same]
        exact htid
      · obtain ⟨hne, hold⟩ := Dict.del_eq_some.1 hk'
        have heq : s' ≠ s := by
          rintro rfl
          exact hne (Option.some.inj ((h.key k' s' hold).symm.trans hk.1))
        rw [hheap heq]
        exact h.key k' s' hold
    · dsimp only at hs' ⊢
      by_cases heq : s' = s
      · subst heq
        rw [Lib.modifyAt_same]
        exact hs.2
      · rw [hheap heq] at hs' ⊢
        exact h.used s' hs'
    · have hold := hdone.invite s' k'
      dsimp only at hold hk' ⊢
      by_cases heq : s' = s
      · subst heq
        rw [Lib.modifyAt_same] at hold hk' ⊢
        obtain ⟨hcode', hmethod, hneed, -⟩ := hold hk'
        exact ⟨hcode', hmethod, hneed, by simp [STr.waitAck, STr.finished]⟩
      · rw [hheap heq] at hk' ⊢
        exact h.invite s' k' hk'
    · have hold := hdone.method s'
      dsimp only at hold ⊢
      by_cases heq : s' = s
      · subst heq
        rw [Lib.modifyAt_same] at hold ⊢
        exact hold
      · rw [hheap heq]
        exact h.method s'
    · dsimp only at hs' ⊢
      have heq : s' ≠ s := by
        rintro rfl
        exact absurd (hk.1.symm.trans (h.fresh s' hs')) (Option.some_ne_none k)
      rw [hheap heq]
      exact h.fresh s' hs'
    · obtain ⟨hconf, hlt, hnone⟩ := h.gone s' g hg
      have heq : s' ≠ s := by
        rintro rfl
        exact open_ne_confirmed hs hconf
      refine ⟨by dsimp only; rwa [hheap heq], hlt, fun k' hk' => ?_⟩
      rcases Dict.set_eq_some.1 hk' with ⟨-, rfl⟩ | ⟨-, hk'⟩
      · exact heq rfl
      · exact hnone k' (Dict.del_eq_some.1 hk').2
  | completeDrop s k key scode r a hs ha hr hcode hcur hack hk =>
    exact h.of_del hk.1 (cleanup_stays rfl rfl (.inr (.inl ⟨rfl, open_ne_confirmed hs⟩))) hno
  | completeLost s key scode r a f hs ha hr hcode hcur hf hk =>
    rcases hf with hf | ⟨ackCb, hf⟩
    · refine h.of_modify ?_ (.inl (by rw [hf]; rfl)) hno
      rw [hf]
      exact { confirmed := fun hc => absurd hc (open_ne_confirmed hs), active := fun _ => hs.1 }
    · refine h.of_modify ?_ (.inl (by rw [hf]; rfl)) hno
      rw [hf]
      exact { confirmed := fun hc => absurd hc (open_ne_confirmed hs), active := fun _ => hs.1 }
  | expireD s k hlive hk => exact h.of_del hk.1 (cleanup_stays rfl rfl (.inl rfl)) hno
  | expireDLost s hlive hk => exact h.of_modify {} (.inl rfl) hno
  | noack s hlive hs =>
    refine h.of_modify {} (.inl rfl) fun s' g hg => ?_
    exact absurd (Option.some.inj hg) (by simp)
  | afterNoack s k hcb hk =>
    refine h.of_del hk.1 (cleanup_stays rfl rfl (.inl rfl)) fun s' g hg => ?_
    exact absurd hg.symm (Option.some_ne_none _)
  | afterNoackLost s hcb hk =>
    refine h.of_stays (fun _ => {}) (fun _ _ hk => ⟨hk, rfl⟩) rfl fun s g hg => ?_
    exact absurd hg.symm (Option.some_ne_none _)
  | retransA s u data addr hlive hu hdata => exact h.of_modify {} (.inl rfl) hno
  | missedA s hlive => exact h.of_modify {} (.inl rfl) hno
  | retransF s u data addr hs => exact h.of_stays (fun _ => {}) (fun _ _ hk => ⟨hk, rfl⟩) rfl hno
  | ack s k c hcb hk hs horigin hcur hm => exact h.ackMove hm
  | afterAck s g hcb hcur =>
    refine h.of_modify (cleanup_stays rfl rfl (.inl rfl)) (.inr (h.gone s g hcb).2.2) fun s' g' hg => ?_
    exact absurd hg.symm (Option.some_ne_none _)
  | dropped s g hcb hA hD tserver ht =>
    have hcb' (s' : ℕ) (g' : Guard) (hg : none = some (Frame.ack s' g')) : v.cb = some (.ack s' g') :=
      absurd hg.symm (Option.some_ne_none _)
    rcases ht with ⟨htid, rfl⟩ | ⟨k, htid, rfl⟩
    · exact h.of_modify (cleanup_stays rfl rfl (.inl rfl)) (.inr (h.not_stored htid)) hcb'
    · exact h.of_del htid (cleanup_stays rfl rfl (.inl rfl)) hcb'

theorem moves {env : Env} {m : Mode} (h : CancelInv v) (hm : SMoves env m v v') : CancelInv v' := by
  induction hm with
  | refl => exact h
  | tail _ hmove ih => exact ih.move hmove

theorem arrival {tm : TM} (h : CancelInv tm.sview) (l : Label) : CancelInv (TM.arrival tm l).sview := by
  unfold TM.arrival
  split
  · exact h.of_stays (fun _ => {}) (fun _ _ hk => ⟨hk, rfl⟩) rfl fun _ _ => id
  · exact h.of_stays (fun _ => {}) (fun _ _ hk => ⟨hk, rfl⟩) rfl fun _ _ => id
  · exact h

theorem step (env : Env) {tm : TM} (h : CancelInv tm.sview) (l : Label) : CancelInv (TM.step env tm l).sview :=
  (h.arrival l).moves (TM.step_moves (m := .any) (fun _ _ => trivial) fun _ _ _ _ =>
    ⟨False.elim, False.elim, False.elim⟩)

theorem init (natTraversal : Bool) (provisionalRetr : ℕ) (reqCb : Bool) :
    CancelInv (TM.init natTraversal provisionalRetr reqCb).sview := by
  constructor <;> simp [TM.init, TM.sview, STr.blank, STr.cancelId]

end CancelInv

def STr.active (t : STr) : Prop := t.state = .trying ∨ t.state = .ringing

/-- An INVITE for which a transaction is held; `r` is the response that its CANCEL would bring. -/
structure HeldInvite (tm : TM) (s : ℕ) (r : Resp) : Prop where
  stored : ∃ k, tm.tserver k = some s
  r487 : (tm.sheap s).r487 = some r
  state : (tm.sheap s).active ∨ (tm.sheap s).state = .completed

/-- A datagram with a CANCEL that was not seen before and is no loop. -/
structure CancelArrives (env : Env) (tm : TM) (dg : Dgram) (req : Req) : Prop where
  idle : tm.cb = none
  size : 32 ≤ TM.size dg
  unseen : tm.lookup (env.md5 dg.data) = none
  isReq : Lib.Text.startsWith dg.data TM.sip20 = false
  parsed : ∃ req₀, env.parseReq dg.data = .ok req₀ ∧ TM.fixRequest tm.natTraversal dg.ra req₀ = .ok req
  method : req.method = .cancel
  noLoop : req.ctids.findSome? tm.tclient = none

/-- The response can be sent to the address in its top Via. -/
def Deliverable (env : Env) (u : Option Server) (via : SipVia) : Prop :=
  ∃ addr, via.getTAddr = some addr ∧ ∀ u', u = some u' → env.sendOk u' addr = true

/-- The CANCEL is answered 200. Without a final response the 487 is sent and `cancel_cb` called,
and otherwise nothing more is done. -/
def Honoured (env : Env) (tm : TM) (dg : Dgram) (req : Req) (s : ℕ) : Prop :=
  ∃ u compact addr more, (TM.step env tm (.recv dg)).log = tm.log ++ [.arrived dg.data,
      .sent .stateless u (env.respStr (req.genResponse 200 TM.textOK []) u compact) addr] ++ more ∧
    ((tm.sheap s).state = .completed → more = []) ∧
    ((tm.sheap s).active → ∃ u' data addr' key, more = [.sent (.response s 487) u' data addr',
      .completed s key data] ++ if (tm.sheap s).cancelCb then [.cancelCb s] else [])

namespace TM
variable {env : Env} {tm : TM} {s : ℕ} {dg : Dgram} {req : Req} {k : STid}

/-- A CANCEL goes through the request part of `handleIncoming`. -/
theorem step_cancel (h : CancelArrives env tm dg req) : step env tm (.recv dg) = settle
    (incomingRequest env (tm.record (.arrived dg.data)) ⟨req, env.md5 dg.data, dg.server⟩ dg.userv
      dg.consumer dg.rnd) := by
  obtain ⟨req₀, hparse, hfix⟩ := h.parsed
  have hsize : ¬ size dg < 32 := Nat.not_lt.2 h.size
  have hlookup : (tm.record (.arrived dg.data)).lookup (env.md5 dg.data) = none := h.unseen
  have hnat : (tm.record (.arrived dg.data)).natTraversal = tm.natTraversal := rfl
  simp only [step, h.idle, handleIncoming, hsize, hlookup, h.isReq, handleRequest, hparse, hnat, hfix,
    if_false, Bool.false_eq_true]

theorem step_found (h : CancelArrives env tm dg req) (hs : tm.tserver req.tid = some s) :
    step env tm (.recv dg) = settle
      (existing env (tm.record (.arrived dg.data)) s ⟨req, env.md5 dg.data, dg.server⟩ dg.rnd) := by
  have htable : (tm.record (.arrived dg.data)).tserver = tm.tserver := rfl
  have hclient : (tm.record (.arrived dg.data)).tclient = tm.tclient := rfl
  simp only [step_cancel h, incomingRequest, hclient, h.noLoop, h.method, htable, hs, reduceCtorEq, if_false]

theorem step_missed (h : CancelArrives env tm dg req) (hs : tm.tserver req.tid = none) :
    step env tm (.recv dg) = settle (transmitResp env (tm.record (.arrived dg.data)) dg.server
      (req.genResponse 481 noSuchCall []) (env.md5 dg.data) false) := by
  have htable : (tm.record (.arrived dg.data)).tserver = tm.tserver := rfl
  have hclient : (tm.record (.arrived dg.data)).tclient = tm.tclient := rfl
  simp only [step_cancel h, incomingRequest, hclient, h.noLoop, h.method, htable, hs, reduceCtorEq, if_false,
    if_true]

theorem transmitResp_ok (tm : TM) {u : Server} {resp : Resp} (c : Text) (compact : Bool)
    (h : Deliverable env (some u) resp.via) : ∃ addr tm', transmitResp env tm u resp c compact = ok tm' ∧
      tm'.log = tm.log ++ [.sent .stateless u (env.respStr resp u compact) addr] ∧
      tm'.sheap = tm.sheap ∧ tm'.tserver = tm.tserver := by
  obtain ⟨addr, hvia, hsend⟩ := h
  refine ⟨addr, { tm.record (.sent .stateless u (env.respStr resp u compact) addr) with
    l1rcache := tm.l1rcache.set c (some ⟨u, env.respStr resp u compact, addr, 0⟩) }, ?_, rfl, rfl, rfl⟩
  simp [transmitResp, hvia, transmitData, hsend u rfl, record, ok]

theorem sendResponseTo_final {u : Server} {resp : Resp} (ackCb : Bool) (rnd : Text) {tag : Option Text}
    (hu : (tm.sheap s).userv = some u) (htag : resp.toTag = .ok tag)
    (hsend : Deliverable env (some u) resp.via) (hcode : 200 ≤ resp.scode)
    (hack : (tm.sheap s).needack = true) (htid : (tm.sheap s).tid = some k) (hk : tm.tserver k = some s) :
    ∃ data addr key, (sendResponseTo env tm resp s true ackCb 0 rnd).2 = none ∧
      (sendResponseTo env tm resp s true ackCb 0 rnd).1.log =
        tm.log ++ [.sent (.response s resp.scode) u data addr, .completed s key data] ∧
      ((sendResponseTo env tm resp s true ackCb 0 rnd).1.sheap s).cancelCb = (tm.sheap s).cancelCb := by
  obtain ⟨addr, hvia, hsend⟩ := hsend
  have hcode' : ¬ resp.scode < 200 := by omega
  refine ⟨env.respStr { resp with toTag := .ok (responseTag resp rnd tag) } u (tm.sheap s).compact, addr,
    rekey k (responseTag resp rnd tag), ?_⟩
  simp [sendResponseTo, htag, hu, hvia, transmitData, hsend u rfl, updS, record, ok, Out.andThen, hcode',
    complete, hack, delServer, htid, hk, responseTag]

theorem existing_cancel (tm : TM) (g : Guard) {u : Server} (rnd : Text) (hm : g.req.method = .cancel)
    (hne : (tm.sheap s).method ≠ .cancel) (hu : (tm.sheap s).userv = some u)
    (hsend : Deliverable env (some u) g.req.via) : ∃ addr tm', tm'.log = tm.log ++ [.sent .stateless u
        (env.respStr (g.req.genResponse 200 textOK []) u (tm.sheap s).compact) addr] ∧
      tm'.sheap = tm.sheap ∧ tm'.tserver = tm.tserver ∧
      ((tm.sheap s).active → existing env tm s g rnd = doCancel env tm' s (some g) rnd) ∧
      (¬ (tm.sheap s).active → existing env tm s g rnd = tm'.ok) := by
  have hmethod : ¬ g.req.method = (tm.sheap s).method := fun heq => hne (heq.symm.trans hm)
  have hvia : Deliverable env (some u) (g.req.genResponse 200 textOK []).via := hsend
  obtain ⟨addr, tm', hresp, hlog, hheap, htable⟩ := transmitResp_ok tm g.checksum (tm.sheap s).compact hvia
  have heq : existing env tm s g rnd = if (tm'.sheap s).state = .trying ∨ (tm'.sheap s).state = .ringing then
      doCancel env tm' s (some g) rnd else tm'.ok := by
    unfold existing
    dsimp only
    rw [if_neg hmethod, if_pos hm, hu]
    dsimp only
    rw [hresp]
    rfl
  rw [hheap] at heq
  refine ⟨addr, tm', hlog, hheap, htable, fun hactive => ?_, fun hactive => ?_⟩
  · rw [heq]
    exact if_pos hactive
  · rw [heq]
    exact if_neg hactive

theorem doCancel_log (env : Env) (tm : TM) {u : Server} {r : Resp} (g : Option Guard) (rnd : Text) {tag : Option Text}
    (hr : (tm.sheap s).r487 = some r) (hcode : r.scode = 487) (hu : (tm.sheap s).userv = some u)
    (htag : r.toTag = .ok tag) (hsend : Deliverable env (some u) r.via)
    (hack : (tm.sheap s).needack = true) (htid : (tm.sheap s).tid = some k) (hk : tm.tserver k = some s) :
    ∃ data addr key, (settle (doCancel env tm s g rnd)).log = tm.log ++
      ([.sent (.response s 487) u data addr, .completed s key data] ++
        if (tm.sheap s).cancelCb then [.cancelCb s] else []) := by
  obtain ⟨data, addr, key, hok, hlog, hcb⟩ := sendResponseTo_final false rnd hu htag hsend (by omega)
    hack htid hk
  refine ⟨data, addr, key, ?_⟩
  rw [hcode] at hlog
  unfold doCancel
  rw [hr]
  dsimp only
  unfold Out.andThen
  rw [hok]
  dsimp only
  rw [hcb]
  split
  · simp [settle, ok, record, call, hlog]
  · simp [settle, ok, hlog]

end TM

section Matched
variable {env : Env} {tm : TM} {s : ℕ} {r : Resp} {dg : Dgram} {req : Req}

theorem CancelInv.found (h : CancelInv tm.sview) (hheld : HeldInvite tm s r) (hid : r.tid = req.tid)
    (hactive : (tm.sheap s).active) : tm.tserver req.tid = some s := by
  obtain ⟨k, hk⟩ := hheld.stored
  have hcancel : (tm.sheap s).cancelId = some (r.tid, r.scode) := by rw [STr.cancelId, hheld.r487]; rfl
  have hkey := (h.invite s _ hcancel).2.2.2 hactive
  have heq : r.tid = k := Option.some.inj (hkey.symm.trans (h.key k s hk))
  rw [← hid, heq]
  exact hk

theorem CancelInv.honoured (h : CancelInv tm.sview) (harr : CancelArrives env tm dg req)
    (hheld : HeldInvite tm s r) (hid : r.tid = req.tid)
    (hreply : ∀ s', tm.tserver req.tid = some s' → Deliverable env (tm.sheap s').userv req.via)
    (hrefuse : (tm.sheap s).active →
      (∃ tag, r.toTag = .ok tag) ∧ Deliverable env (tm.sheap s).userv r.via)
    (hcond : (tm.sheap s).active ∨ ∃ s', tm.tserver req.tid = some s' ∧ ¬ (tm.sheap s').active) :
    Honoured env tm dg req s := by
  -- the transaction that the table has for the branch
  obtain ⟨s', hs', hsame⟩ : ∃ s', tm.tserver req.tid = some s' ∧
      ((tm.sheap s').active ↔ (tm.sheap s).active) ∧ ((tm.sheap s).active → s' = s) := by
    by_cases hactive : (tm.sheap s).active
    · exact ⟨s, h.found hheld hid hactive, Iff.rfl, fun _ => rfl⟩
    · obtain ⟨s', hs', hdone⟩ := hcond.resolve_left hactive
      exact ⟨s', hs', iff_of_false hdone hactive, fun ha => absurd ha hactive⟩
  obtain ⟨u, hu⟩ : ∃ u, (tm.sheap s').userv = some u :=
    Option.ne_none_iff_exists'.1 (h.used s' fun hnone => h.not_stored hnone _ hs')
  obtain ⟨addr, tm', hlog, hheap, htable, hopen, hdone⟩ := TM.existing_cancel
    (tm.record (.arrived dg.data)) ⟨req, env.md5 dg.data, dg.server⟩ dg.rnd harr.method (h.method s') hu
    (hu ▸ hreply s' hs')
  have hlog : tm'.log = tm.log ++ [.arrived dg.data, .sent .stateless u
      (env.respStr (req.genResponse 200 TM.textOK []) u (tm.sheap s').compact) addr] :=
    hlog.trans (List.append_assoc _ _ _)
  refine ⟨u, (tm.sheap s').compact, addr, ?_⟩
  by_cases hactive : (tm.sheap s).active
  · obtain rfl := hsame.2 hactive
    obtain ⟨⟨tag, htag⟩, hsend⟩ := hrefuse hactive
    have hcancel : (tm.sheap s').cancelId = some (r.tid, r.scode) := by
      rw [STr.cancelId, hheld.r487]
      rfl
    obtain ⟨hcode, -, hack, hkey⟩ := h.invite s' _ hcancel
    have hheap' : tm'.sheap s' = tm.sheap s' := congrFun hheap s'
    obtain ⟨data, addr', key, hmore⟩ := TM.doCancel_log env tm'
      (some ⟨req, env.md5 dg.data, dg.server⟩) dg.rnd (k := req.tid) (hheap' ▸ hheld.r487) hcode
      (hheap' ▸ hu) htag (hu ▸ hsend) (hheap' ▸ hack) (hheap' ▸ hid ▸ hkey hactive) (htable ▸ hs')
    refine ⟨_, ?_, fun hcompleted => ?_, fun _ => ⟨u, data, addr', key, rfl⟩⟩
    · rw [TM.step_found harr hs', hopen hactive, hmore, hlog, hheap']
    · unfold STr.active at hactive
      rw [hcompleted] at hactive
      rcases hactive with ha | ha <;> exact absurd ha (by decide)
  · refine ⟨[], ?_, fun _ => rfl, fun ha => absurd ha hactive⟩
    rw [TM.step_found harr hs', hdone fun ha => hactive (hsame.1.1 ha), List.append_nil]
    exact hlog

theorem cancel_missed (harr : CancelArrives env tm dg req) (hs : tm.tserver req.tid = none)
    (hsend : Deliverable env (some dg.server) req.via) :
    ∃ addr, (TM.step env tm (.recv dg)).log = tm.log ++ [.arrived dg.data, .sent .stateless dg.server
      (env.respStr (req.genResponse 481 TM.noSuchCall []) dg.server false) addr] := by
  have hvia : Deliverable env (some dg.server) (req.genResponse 481 TM.noSuchCall []).via := hsend
  obtain ⟨addr, tm', hresp, hlog, -⟩ := TM.transmitResp_ok
    (tm.record (.arrived dg.data)) (env.md5 dg.data) false hvia
  refine ⟨addr, ?_⟩
  rw [TM.step_missed harr hs, hresp]
  exact hlog.trans (List.append_assoc _ _ _)

end Matched

/-- In every run: a CANCEL of an INVITE for which a transaction is held is answered 200, and it is
cancelled exactly if no final response was sent, if the table has under the key of the CANCEL that
INVITE, or another transaction that is answered too. Otherwise the answer is 481. -/
theorem cancel_matched (env : Env) (natTraversal : Bool) (provisionalRetr : ℕ) (reqCb : Bool)
    (ls : List Label) {tm : TM} (hrun : tm = run (TM.step env) (TM.init natTraversal provisionalRetr reqCb) ls)
    {dg : Dgram} {req : Req} {s : ℕ} {r : Resp} (harr : CancelArrives env tm dg req) (hheld : HeldInvite tm s r)
    (hid : r.tid = req.tid)
    (hreply : ∀ u, u = some dg.server ∨ (∃ s', tm.tserver req.tid = some s' ∧ u = (tm.sheap s').userv) →
      Deliverable env u req.via)
    (hrefuse : (tm.sheap s).active →
      (∃ tag, r.toTag = .ok tag) ∧ Deliverable env (tm.sheap s).userv r.via) :
    ((tm.sheap s).active ∨ (∃ s', tm.tserver req.tid = some s' ∧ ¬ (tm.sheap s').active) →
      Honoured env tm dg req s) ∧
    (tm.tserver req.tid = none → ∃ addr, (TM.step env tm (.recv dg)).log = tm.log ++ [.arrived dg.data,
      .sent .stateless dg.server (env.respStr (req.genResponse 481 TM.noSuchCall []) dg.server false) addr]) := by
  have hinv : CancelInv tm.sview := by
    rw [hrun]
    exact run_invariant (I := fun tm : TM => CancelInv tm.sview) (fun _ l h => h.step env l)
      (CancelInv.init natTraversal provisionalRetr reqCb) ls
  refine ⟨hinv.honoured harr hheld hid (fun s' hs' => ?_) hrefuse, fun hs => ?_⟩
  · exact hreply _ (.inr ⟨s', hs', rfl⟩)
  · exact cancel_missed harr hs (hreply _ (.inl rfl))

namespace Sample

def cancelEnv : Env := env
  [(text .invite branch1 none, req .invite branch1 none),
    (text .cancel branch1 none, req .cancel branch1 none)] []

/-- The upper layer takes the INVITE and answers with `resp`, if there is one. -/
def taken (resp : Option Resp) : List Label :=
  [.recv (dgram (text .invite branch1 none)), .ret (.value (.triple resp true false)) "t1".toList]

def invited (resp : Option Resp) : TM :=
  run (TM.step cancelEnv) (TM.init false 0 true) (taken resp)

def busyHere : Resp := (req .invite branch1 none).genResponse 486 [] []

def cancel : Dgram := dgram (text .cancel branch1 none)

end Sample

section Witness
open Sample

theorem cancel_reads : 32 ≤ TM.size cancel ∧ Lib.Text.startsWith cancel.data TM.sip20 = false ∧
    cancelEnv.parseReq cancel.data = .ok (req .cancel branch1 none) ∧
      TM.fixRequest false cancel.ra (req .cancel branch1 none) = .ok (req .cancel branch1 none) := by
  decide +kernel

theorem cancel_arrives {resp : Option Resp} (hidle : (invited resp).cb = none)
    (hunseen : (invited resp).lookup (cancelEnv.md5 cancel.data) = none)
    (hnat : (invited resp).natTraversal = false)
    (hloop : (req .cancel branch1 none).ctids.findSome? (invited resp).tclient = none) :
    CancelArrives cancelEnv (invited resp) cancel (req .cancel branch1 none) := by
  obtain ⟨hsize, hreq, hparse, hfix⟩ := cancel_reads
  rw [← hnat] at hfix
  exact ⟨hidle, hsize, hunseen, hreq, ⟨req .cancel branch1 none, hparse, hfix⟩, rfl, hloop⟩

def terminated : Resp := (req .invite branch1 none).genResponse 487 TM.requestTerminated []

theorem cancel_matched_ringing : Honoured cancelEnv (invited none) cancel (req .cancel branch1 none) 0 := by
  obtain ⟨hidle, hunseen, hnat, hloop, hstate, hstored, h487, hid, haddr⟩ :
      (invited none).cb = none ∧ (invited none).lookup (cancelEnv.md5 cancel.data) = none ∧
        (invited none).natTraversal = false ∧
        (req .cancel branch1 none).ctids.findSome? (invited none).tclient = none ∧
        ((invited none).sheap 0).state = .trying ∧ (invited none).tserver terminated.tid = some 0 ∧
        ((invited none).sheap 0).r487 = some terminated ∧ terminated.tid = (req .cancel branch1 none).tid ∧
        terminated.via.getTAddr = some (some "203.0.113.7".toList, 5060) := by
    decide +kernel
  have harr := cancel_arrives hidle hunseen hnat hloop
  have hactive : ((invited none).sheap 0).active := .inl hstate
  have hheld : HeldInvite (invited none) 0 terminated := ⟨⟨terminated.tid, hstored⟩, h487, .inl hactive⟩
  have hsend (u : Option Server) : Deliverable cancelEnv u terminated.via := ⟨_, haddr, fun _ _ => rfl⟩
  have hrun : invited none = run (TM.step cancelEnv) (TM.init false 0 true) (taken none) := rfl
  exact (cancel_matched cancelEnv false 0 true (taken none) hrun harr hheld hid
    (fun u _ => hsend u) fun _ => ⟨⟨none, rfl⟩, hsend _⟩).1 (.inl hactive)

/-- The INVITE is answered 486 and waits for its ACK when the CANCEL comes. -/
theorem late_cancel_missed : HeldInvite (invited (some busyHere)) 0 terminated ∧
    CancelArrives cancelEnv (invited (some busyHere)) cancel (req .cancel branch1 none) ∧
    terminated.tid = (req .cancel branch1 none).tid ∧
    ¬ Honoured cancelEnv (invited (some busyHere)) cancel (req .cancel branch1 none) 0 := by
  obtain ⟨hidle, hunseen, hnat, hloop, hstate, hstored, h487, hid, hlast⟩ :
      (invited (some busyHere)).cb = none ∧
        (invited (some busyHere)).lookup (cancelEnv.md5 cancel.data) = none ∧
        (invited (some busyHere)).natTraversal = false ∧
        (req .cancel branch1 none).ctids.findSome? (invited (some busyHere)).tclient = none ∧
        ((invited (some busyHere)).sheap 0).state = .completed ∧
        (invited (some busyHere)).tserver { terminated.tid with last := some "t1".toList } = some 0 ∧
        ((invited (some busyHere)).sheap 0).r487 = some terminated ∧
        terminated.tid = (req .cancel branch1 none).tid ∧
        (TM.step cancelEnv (invited (some busyHere)) (.recv cancel)).log.getLast? =
          some (.sent .stateless server "SIP/2.0 481 Call Leg/Transaction Does Not Exist".toList
            (some "203.0.113.7".toList, 5060)) := by
    decide +kernel
  refine ⟨⟨⟨_, hstored⟩, h487, .inr hstate⟩, cancel_arrives hidle hunseen hnat hloop, hid, ?_⟩
  rintro ⟨u, compact, addr, more, hlog, hmore, -⟩
  rw [hmore hstate, List.append_nil] at hlog
  have hok : (TM.step cancelEnv (invited (some busyHere)) (.recv cancel)).log.getLast? =
      some (.sent .stateless u (cancelEnv.respStr ((req .cancel branch1 none).genResponse 200 TM.textOK [])
        u compact) addr) := by
    rw [hlog]
    simp
  have hdata := (Act.sent.inj (Option.some.inj (hlast.symm.trans hok))).2.2.1
  exact absurd hdata (by change _ ≠ "SIP/2.0 200 OK".toList; decide +kernel)

end Witness

end SippyB2bua.Manager
