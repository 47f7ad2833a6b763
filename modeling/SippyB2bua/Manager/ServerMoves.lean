import Mathlib.Logic.Relation
import SippyB2bua.Manager.Step

/-!
# What a step does to the server transactions

The server side of the manager is its heap of server transactions, the table,
the suspended callback and the log. Every step of the manager is a sequence of
`SMove`s on that view; what holds along all moves holds along all runs. A
final response on an INVITE moves the transaction to another key, and `strict`
asks that no other transaction is stored under that key.
-/

namespace SippyB2bua.Manager
open Lib (Text Dict Timer modifyAt)

structure SView where
  sheap : ℕ → STr
  snext : ℕ
  tserver : Dict STid ℕ
  l1 : Dict Text (Option Retransmit)
  l2 : Dict Text (Option Retransmit)
  cb : Option Frame
  log : List Act

def TM.sview (tm : TM) : SView :=
  ⟨tm.sheap, tm.snext, tm.tserver, tm.l1rcache, tm.l2rcache, tm.cb, tm.log⟩

/-- What is known about a step: no final response takes over a key, every response
is transmitted, and no transaction is answered whose checksum is among those
that the step writes to the cache on its own account. -/
structure Mode where
  strict : Prop
  sends : Prop
  clean : Prop
  cur : Text → Prop

def Mode.any : Mode := ⟨False, False, False, fun _ => True⟩

def Origin.ofServer : Origin → Bool
  | .response _ _ | .timerA _ | .timerF _ => true
  | _ => false

def Act.ofServer : Act → Bool
  | .sent o _ _ _ => o.ofServer
  | .discarded o _ => o.ofServer
  | .arrived _ | .purged | .completed _ _ _ | .noackCb _ | .delKeyError _ => true
  | _ => false

def Frame.plain : Frame → Bool
  | .req _ _ | .ack _ _ | .noack _ => false
  | _ => true

def STr.open (t : STr) : Prop := (t.state = .trying ∨ t.state = .ringing) ∧ t.userv ≠ none

def STr.cancelId (t : STr) : Option (STid × ℤ) := t.r487.map fun r => (r.tid, r.scode)

/-- Changes that concern the provisional timers and the callbacks only. -/
structure STr.Same (t t' : STr) : Prop where
  tid : t'.tid = t.tid := by rfl
  state : t'.state = t.state := by rfl
  method : t'.method = t.method := by rfl
  checksum : t'.checksum = t.checksum := by rfl
  data : t'.data = t.data := by rfl
  address : t'.address = t.address := by rfl
  userv : t'.userv = t.userv := by rfl
  needack : t'.needack = t.needack := by rfl
  cancelId : t'.cancelId = t.cancelId := by rfl
  teA : t'.teA = t.teA := by rfl
  teD : t'.teD = t.teD := by rfl

/-- `t.tid in self.tserver`. -/
def SView.keyed (v : SView) (s : ℕ) (k : STid) : Prop :=
  (v.sheap s).tid = some k ∧ v.tserver k ≠ none

def Act.answers (a : Act) (s : ℕ) (scode : ℤ) (data : Text) : Prop :=
  (∃ u addr, a = .sent (.response s scode) u data addr) ∨ a = .discarded (.response s scode) data

/-- The cache entry from which the transmission is repeated, through the server of
the transaction. -/
def Act.repeats (env : Env) (userv : Option Server) (a : Act) (r : Retransmit) : Prop :=
  userv = some r.userv ∧ ∀ o u data addr, a = .sent o u data addr →
    r = ⟨u, data, addr, 0⟩ ∧ env.sendOk u addr = true

def Received (env : Env) (log : List Act) (checksum : Text) (req : Req) : Prop :=
  ∃ data, .arrived data ∈ log ∧ env.md5 data = checksum ∧
    Lib.Text.startsWith data TM.sip20 = false ∧ env.parseReq data = .ok req

def STr.drafted (t : STr) (r : Retransmit) : STr :=
  { t with data := some r.data, address := some r.address }

/-- The transaction as a final response leaves it: the timers of the provisional
phase are stopped. -/
def STr.finished (t : STr) : STr :=
  { t with state := .completed, teE := t.teE.cancel, teF := t.teF.cancel }

def STr.waitAck (t : STr) (ackCb : Bool) : STr :=
  { t.finished with ackCb := ackCb, teD := t.teD.arm }

/-- The ACK of the completed transaction `s`, in a datagram with the given checksum. -/
inductive AckMove (s : ℕ) (checksum : Text) : SView → SView → Prop
  | broken {v : SView} (hD : (v.sheap s).teD.ref = false) :
      AckMove s checksum v { v with
        sheap := modifyAt v.sheap s fun t => { t with state := .confirmed, teA := t.teA.cancel } }
  | lost {v : SView} (hlost : ∀ k, ¬ v.keyed s k) :
      AckMove s checksum v { v with
        sheap := modifyAt v.sheap s fun t => { t with
          state := .confirmed, teA := t.teA.cancel, teD := t.teD.cancel }
        log := v.log ++ [.delKeyError s] }
  | call {v : SView} (k : STid) (g : Guard) (hk : v.keyed s k) (hg : g.checksum = checksum) :
      AckMove s checksum v { v with
        sheap := modifyAt v.sheap s fun t => { t with
          state := .confirmed, teA := t.teA.cancel, teD := t.teD.cancel }
        tserver := v.tserver.del k
        cb := some (.ack s g)
        log := v.log ++ [.ackCb s] }
  | done {v : SView} (k : STid) (hk : v.keyed s k) :
      AckMove s checksum v { v with
        sheap := modifyAt v.sheap s fun t => STr.cleanup { t with
          state := .confirmed, teA := t.teA.cancel, teD := t.teD.cancel }
        tserver := v.tserver.del k
        l1 := v.l1.set checksum none }

inductive SMove (env : Env) (m : Mode) : SView → SView → Prop
  | quiet {v : SView} (as : List Act) (cb : Option Frame) (l1 : Dict Text (Option Retransmit))
      (has : ∀ a ∈ as, a.ofServer = false)
      (hcb : cb = v.cb ∨ cb = none ∨ ∃ f, cb = some f ∧ f.plain = true)
      (hl1 : ∀ c, ¬ m.cur c → l1 c = v.l1 c) :
      SMove env m v { v with log := v.log ++ as, cb := cb, l1 := l1 }
  | store {v : SView} (t : STr) (req : Req) (htid : t.tid = some req.tid)
      (hstate : t.state = .trying) (huserv : t.userv ≠ none) (hdata : t.data = none)
      (hmethod : t.method = req.method) (hack : t.needack = true ↔ t.method = .invite)
      (hA : t.teA = .off) (hD : t.teD = .off) (hnot : req.method ≠ .ack ∧ req.method ≠ .cancel)
      (horigin : Received env v.log t.checksum req) (hfree : v.tserver req.tid = none)
      (hmiss : v.l1 t.checksum = none ∧ v.l2 t.checksum = none)
      (hcancel : ∀ k, t.cancelId = some k → k = (req.tid, 487) ∧ t.method = .invite) :
      SMove env m v { v with
        sheap := Function.update v.sheap v.snext t
        snext := v.snext + 1
        tserver := v.tserver.set req.tid v.snext }
  | askUpper {v : SView} (s : ℕ) (g : Guard) (hs : (v.sheap s).state ≠ .confirmed) :
      SMove env m v { v with cb := some (.req s g) }
  | touch {v : SView} (s : ℕ) (f : STr → STr) (hf : (v.sheap s).Same (f (v.sheap s))) :
      SMove env m v { v with sheap := modifyAt v.sheap s f }
  | draft {v : SView} (s : ℕ) (data : Text) (addr : Option TAddr → Option TAddr)
      (hs : (v.sheap s).open) (hfail : ¬ m.sends) :
      SMove env m v { v with
        sheap := modifyAt v.sheap s fun t =>
          { t with data := some data, address := addr t.address } }
  | ring {v : SView} (s : ℕ) (scode : ℤ) (r : Retransmit) (a : Act) (teF : Timer → Timer)
      (hs : (v.sheap s).open) (ha : a.answers s scode r.data) (hr : a.repeats env (v.sheap s).userv r)
      (hcode : scode < 200) (hcur : m.clean → ¬ m.cur (v.sheap s).checksum) :
      SMove env m v { v with
        sheap := modifyAt v.sheap s fun t =>
          { t.drafted r with state := .ringing, teF := teF t.teF }
        l1 := v.l1.set (v.sheap s).checksum (some r)
        log := v.log ++ [a] }
  | completeKeep {v : SView} (s : ℕ) (k : STid) (tag : Option Text) (scode : ℤ) (r : Retransmit)
      (a : Act) (ackCb : Bool) (hs : (v.sheap s).open) (ha : a.answers s scode r.data)
      (hr : a.repeats env (v.sheap s).userv r) (hcode : 200 ≤ scode) (hcur : m.clean → ¬ m.cur (v.sheap s).checksum)
      (hack : (v.sheap s).needack = true) (hk : v.keyed s k)
      (hfree : m.strict → ∀ s', v.tserver (TM.rekey k tag) = some s' → s' = s) :
      SMove env m v { v with
        sheap := modifyAt v.sheap s fun t => { (t.drafted r).waitAck ackCb with
          tid := t.tid.map fun k => TM.rekey k tag, teA := t.teA.arm }
        tserver := (v.tserver.del k).set (TM.rekey k tag) s
        l1 := v.l1.set (v.sheap s).checksum (some r)
        log := v.log ++ [a, .completed s (TM.rekey k tag) r.data] }
  | completeDrop {v : SView} (s : ℕ) (k key : STid) (scode : ℤ) (r : Retransmit) (a : Act)
      (hs : (v.sheap s).open) (ha : a.answers s scode r.data) (hr : a.repeats env (v.sheap s).userv r)
      (hcode : 200 ≤ scode) (hcur : m.clean → ¬ m.cur (v.sheap s).checksum)
      (hack : (v.sheap s).needack = false) (hk : v.keyed s k) :
      SMove env m v { v with
        sheap := modifyAt v.sheap s fun t => (t.drafted r).finished.cleanup
        tserver := v.tserver.del k
        l1 := v.l1.set (v.sheap s).checksum (some r)
        log := v.log ++ [a, .completed s key r.data] }
  | completeLost {v : SView} (s : ℕ) (key : STid) (scode : ℤ) (r : Retransmit) (a : Act)
      (f : STr → STr) (hs : (v.sheap s).open) (ha : a.answers s scode r.data) (hr : a.repeats env (v.sheap s).userv r)
      (hcode : 200 ≤ scode) (hcur : m.clean → ¬ m.cur (v.sheap s).checksum)
      (hf : (∀ t, f t = (t.drafted r).finished) ∨ ∃ ackCb, ∀ t, f t = (t.drafted r).waitAck ackCb)
      (hk : ∀ k, ¬ v.keyed s k) :
      SMove env m v { v with
        sheap := modifyAt v.sheap s f
        l1 := v.l1.set (v.sheap s).checksum (some r)
        log := v.log ++ [a, .completed s key r.data, .delKeyError s] }
  | expireD {v : SView} (s : ℕ) (k : STid) (hlive : 0 < (v.sheap s).teD.live)
      (hk : v.keyed s k) :
      SMove env m v { v with
        sheap := modifyAt v.sheap s fun t =>
          STr.cleanup { t with teD := t.teD.fire, teA := t.teA.cancel }
        tserver := v.tserver.del k }
  | expireDLost {v : SView} (s : ℕ) (hlive : 0 < (v.sheap s).teD.live)
      (hk : ∀ k, ¬ v.keyed s k) :
      SMove env m v { v with
        sheap := modifyAt v.sheap s fun t => { t with teD := t.teD.fire, teA := t.teA.cancel }
        log := v.log ++ [.delKeyError s] }
  | noack {v : SView} (s : ℕ) (hlive : 0 < (v.sheap s).teD.live)
      (hs : (v.sheap s).state ≠ .confirmed) :
      SMove env m v { v with
        sheap := modifyAt v.sheap s fun t => { t with teD := t.teD.fire, teA := t.teA.cancel }
        cb := some (.noack s)
        log := v.log ++ [.noackCb s] }
  | afterNoack {v : SView} (s : ℕ) (k : STid) (hcb : v.cb = some (.noack s))
      (hk : v.keyed s k) :
      SMove env m v { v with
        sheap := modifyAt v.sheap s STr.cleanup
        tserver := v.tserver.del k
        cb := none }
  | afterNoackLost {v : SView} (s : ℕ) (hcb : v.cb = some (.noack s))
      (hk : ∀ k, ¬ v.keyed s k) :
      SMove env m v { v with log := v.log ++ [.delKeyError s], cb := none }
  | retransA {v : SView} (s : ℕ) (u : Server) (data : Text) (addr : TAddr)
      (hlive : 0 < (v.sheap s).teA.live) (hu : (v.sheap s).userv = some u)
      (hdata : (v.sheap s).data = some data) :
      SMove env m v { v with
        sheap := modifyAt v.sheap s fun t => { t with teA := t.teA.fired.arm }
        log := v.log ++ [.sent (.timerA s) u data addr] }
  | missedA {v : SView} (s : ℕ) (hlive : 0 < (v.sheap s).teA.live) :
      SMove env m v { v with sheap := modifyAt v.sheap s fun t => { t with teA := t.teA.fired } }
  | retransF {v : SView} (s : ℕ) (u : Server) (data : Text) (addr : TAddr)
      (hs : (v.sheap s).state = .ringing) :
      SMove env m v { v with log := v.log ++ [.sent (.timerF s) u data addr] }
  | ack {v v' : SView} (s : ℕ) (k : STid) (checksum : Text) (hcb : v.cb = none)
      (hk : v.tserver k = some s) (hs : (v.sheap s).state = .completed)
      (horigin : ∃ req, Received env v.log checksum req ∧ req.method = .ack)
      (hcur : m.cur checksum) (hm : AckMove s checksum v v') : SMove env m v v'
  | afterAck {v : SView} (s : ℕ) (g : Guard) (hcb : v.cb = some (.ack s g))
      (hcur : m.cur g.checksum) :
      SMove env m v { v with
        sheap := modifyAt v.sheap s STr.cleanup
        l1 := v.l1.set g.checksum none
        cb := none }
  | dropped {v : SView} (s : ℕ) (g : Guard) (hcb : v.cb = some (.req s g))
      (hA : (v.sheap s).teA.ref = false) (hD : (v.sheap s).teD.ref = false)
      (tserver : Dict STid ℕ)
      (ht : ((v.sheap s).tid = none ∧ tserver = v.tserver) ∨
        ∃ k, (v.sheap s).tid = some k ∧ tserver = v.tserver.del k) :
      SMove env m v { v with
        sheap := modifyAt v.sheap s STr.cleanup
        tserver := tserver
        cb := none }

abbrev SMoves (env : Env) (m : Mode) : SView → SView → Prop := Relation.ReflTransGen (SMove env m)

section Chains
variable {env : Env} {m : Mode} {v w : SView}

theorem SMoves.then (h : SMoves env m v w) {x : SView} (hm : SMove env m w x) :
    SMoves env m v x := Relation.ReflTransGen.tail h hm

theorem SMoves.record (h : SMoves env m v w) {a : Act} (ha : a.ofServer = false) :
    SMoves env m v { w with log := w.log ++ [a] } :=
  h.then (.quiet [a] w.cb w.l1 (by simpa using ha) (.inl rfl) fun _ _ => rfl)

theorem SMoves.call (h : SMoves env m v w) {f : Frame} (hf : f.plain = true) :
    SMoves env m v { w with cb := some f } := by
  simpa using h.then (.quiet [] (some f) w.l1 (by simp) (.inr (.inr ⟨f, rfl, hf⟩)) fun _ _ => rfl)

theorem SMoves.returned (h : SMoves env m v w) : SMoves env m v { w with cb := none } := by
  simpa using h.then (.quiet [] none w.l1 (by simp) (.inr (.inl rfl)) fun _ _ => rfl)

theorem SMoves.cache (h : SMoves env m v w) {c : Text} (hc : m.cur c) (e : Option Retransmit) :
    SMoves env m v { w with l1 := w.l1.set c e } := by
  have hl1 : ∀ c', ¬ m.cur c' → w.l1.set c e c' = w.l1 c' := by
    intro c' hc'
    refine Lib.Dict.set_other _ _ ?_
    rintro rfl
    exact hc' hc
  simpa using h.then (.quiet [] w.cb (w.l1.set c e) (by simp) (.inl rfl) hl1)

theorem SMoves.touch (h : SMoves env m v w) (s : ℕ) {f : STr → STr}
    (hf : (w.sheap s).Same (f (w.sheap s))) :
    SMoves env m v { w with sheap := modifyAt w.sheap s f } := h.then (.touch s f hf)

theorem SMoves.andThen {r : Out} {f : TM → Out} (hr : SMoves env m v r.1.sview)
    (hf : r.2 = none → SMoves env m v r.1.sview → SMoves env m v (f r.1).1.sview) :
    SMoves env m v (r.andThen f).1.sview := by
  unfold Out.andThen
  split
  · rename_i h
    exact hf h hr
  · exact hr

end Chains

namespace TM

@[simp] theorem sview_sheap (tm : TM) : tm.sview.sheap = tm.sheap := rfl
@[simp] theorem sview_snext (tm : TM) : tm.sview.snext = tm.snext := rfl
@[simp] theorem sview_tserver (tm : TM) : tm.sview.tserver = tm.tserver := rfl
@[simp] theorem sview_cb (tm : TM) : tm.sview.cb = tm.cb := rfl
@[simp] theorem sview_log (tm : TM) : tm.sview.log = tm.log := rfl

theorem sview_updS (tm : TM) (s : ℕ) (f : STr → STr) :
    (tm.updS s f).sview = { tm.sview with sheap := modifyAt tm.sview.sheap s f } := rfl

section Client
variable {m : Mode} {v : SView} {tm : TM} {env : Env} {c : ℕ} {resp : Resp} {checksum rnd : Text}

theorem updC_moves {f : CTr → CTr} (h : SMoves env m v tm.sview) :
    SMoves env m v (tm.updC c f).sview := h

theorem remember_moves (hc : m.cur checksum) (h : SMoves env m v tm.sview) :
    SMoves env m v (tm.remember checksum).sview := h.cache hc none

theorem transmitData_moves {o : Origin} {userv : Server} {data : Text} {addr : TAddr}
    {cachesum : Option Text} {lossemul : ℕ} (ho : o.ofServer = false)
    (hc : ∀ c, cachesum = some c → m.cur c) (h : SMoves env m v tm.sview) :
    SMoves env m v (transmitData env tm o userv data addr cachesum lossemul).1.sview := by
  unfold transmitData
  split
  · exact h
  · have ha : (if lossemul = 0 then Act.sent o userv data addr
        else .discarded o data).ofServer = false := by split <;> exact ho
    cases cachesum with
    | none => exact h.record ha
    | some c => exact (h.record ha).cache (hc c rfl) _

theorem transmitResp_moves {userv : Server} {compact : Bool} (hc : m.cur checksum)
    (h : SMoves env m v tm.sview) :
    SMoves env m v (transmitResp env tm userv resp checksum compact).1.sview := by
  unfold transmitResp
  split
  · exact h
  · exact transmitData_moves rfl (fun _ heq => Option.some.inj heq ▸ hc) h

theorem newTransaction_moves {msg : Option Req} {respCb compact : Bool}
    {userv : Except Exn Server} (h : SMoves env m v tm.sview) :
    SMoves env m v (newTransaction env tm msg respCb compact userv).1.sview := by
  unfold newTransaction
  split
  · exact h
  · split
    · exact h
    · split
      · exact h
      · exact h
      · exact h
      · exact h
      · unfold storeClient
        exact transmitData_moves rfl (by simp) h

theorem startCancel_moves (h : SMoves env m v tm.sview) :
    SMoves env m v (startCancel env tm c).1.sview := newTransaction_moves h

theorem cancelTransaction_moves {eh : Option Text} (h : SMoves env m v tm.sview) :
    SMoves env m v (cancelTransaction env tm c eh).1.sview := by
  unfold cancelTransaction
  split
  · exact h
  · dsimp only
    split <;> exact startCancel_moves h

theorem removeClient_moves (h : SMoves env m v tm.sview) :
    SMoves env m v (removeClient tm c).1.sview := by
  unfold removeClient
  split
  · exact h
  · split
    · exact h
    · exact h.record rfl

theorem sendACK_moves (hc : (tm.cheap c).ackRAddr ≠ none → m.cur (tm.cheap c).ackChecksum)
    (h : SMoves env m v tm.sview) : SMoves env m v (sendACK env tm c).1.sview := by
  have hrec : SMoves env m v (tm.record (.callSendACK c)).sview := h.record rfl
  simp only [sendACK]
  split
  · exact hrec
  · rename_i addr haddr
    split
    · refine .andThen ?_ fun _ h => removeClient_moves h
      refine transmitData_moves rfl (fun c' heq => ?_) hrec
      have hsum : (tm.cheap c).ackChecksum = c' := by simpa [updC, record] using heq
      exact hsum ▸ hc (by simp [show (tm.cheap c).ackRAddr = some addr from haddr])
    · exact hrec

theorem notify_moves {f : Frame} {k : TM → Out} (hf : f.plain = true)
    (hk : SMoves env m v (k tm).1.sview) (h : SMoves env m v tm.sview) :
    SMoves env m v (notify tm c resp f k).1.sview := by
  unfold notify
  split
  · exact (h.record (a := .response c resp) rfl).call hf
  · exact hk

theorem afterFinal_moves (h : SMoves env m v tm.sview) :
    SMoves env m v (afterFinal tm c).1.sview := by
  unfold afterFinal
  split
  · exact h
  · exact removeClient_moves h

theorem provisional_moves (hc : m.cur checksum) (h : SMoves env m v tm.sview) :
    SMoves env m v (provisional env tm c resp checksum).1.sview := by
  unfold provisional
  refine .andThen ?_ fun _ h => notify_moves rfl (remember_moves hc (updC_moves h))
    (remember_moves hc h)
  split
  · dsimp only
    split
    · exact .andThen (startCancel_moves h) fun _ h => h
    · exact h
  · exact h

theorem acknowledge_moves (hc : m.cur checksum) (h : SMoves env m v tm.sview) :
    SMoves env m v (acknowledge env tm c resp checksum rnd).1.sview := by
  unfold acknowledge
  split
  · exact h
  · dsimp only
    split
    · exact h
    · simp only [dispatchAck]
      split
      · exact transmitData_moves rfl (fun _ heq => Option.some.inj heq ▸ hc) h
      · exact remember_moves hc h
  · exact h

theorem finalResponse_moves (hc : m.cur checksum) (h : SMoves env m v tm.sview) :
    SMoves env m v (finalResponse env tm c resp checksum rnd).1.sview := by
  unfold finalResponse
  refine .andThen ?_ fun _ h => notify_moves rfl (afterFinal_moves h) h
  split
  · exact acknowledge_moves hc h
  · exact remember_moves hc h

theorem handleResponse_moves {dg : Dgram} (hc : m.cur checksum) (h : SMoves env m v tm.sview) :
    SMoves env m v (handleResponse env tm dg checksum).1.sview := by
  unfold handleResponse
  split
  · exact remember_moves hc h
  · split
    · exact remember_moves hc h
    · split
      · exact remember_moves hc h
      · split
        · exact h
        · unfold incomingResponse
          dsimp only
          split
          · split
            · exact provisional_moves hc h
            · exact finalResponse_moves hc h
          · exact h

theorem clientTimerA_moves (h : SMoves env m v tm.sview) :
    SMoves env m v (clientTimerA env tm c).1.sview := by
  unfold clientTimerA
  dsimp only
  split
  · exact h
  · exact .andThen (transmitData_moves rfl (by simp) h) fun _ h => h

theorem timerB_moves (h : SMoves env m v tm.sview) : SMoves env m v (timerB tm c).1.sview := by
  unfold timerB
  dsimp only
  split
  · exact h
  · exact notify_moves rfl h h

theorem timerC_moves (h : SMoves env m v tm.sview) : SMoves env m v (timerC tm c).1.sview :=
  removeClient_moves (updC_moves h)

theorem settle_moves {r : Out} (h : SMoves env m v r.1.sview) :
    SMoves env m v (settle r).sview := by
  unfold settle
  split
  · exact h
  · exact h.record rfl

end Client

section Server
variable {m : Mode} {v : SView} {tm : TM} {env : Env} {s : ℕ} {resp : Resp} {rnd : Text}

/-- The key that a final response moves the transaction to is not that of another
transaction. -/
def NoTakeOver (tm : TM) (s : ℕ) (resp : Resp) (rnd : Text) : Prop :=
  ∀ tag, resp.toTag = .ok tag → 200 ≤ resp.scode → (tm.sheap s).needack = true →
    ∀ k s', (tm.sheap s).tid = some k →
      tm.tserver (rekey k (responseTag resp rnd tag)) = some s' → s' = s

def Sendable (env : Env) (tm : TM) (s : ℕ) (resp : Resp) : Prop :=
  ∃ addr, resp.via.getTAddr = some addr ∧
    ∀ u, (tm.sheap s).userv = some u → env.sendOk u addr = true

/-- What the mode asks of a response on a transaction. -/
structure Free (env : Env) (m : Mode) (tm : TM) (s : ℕ) (resp : Resp) (rnd : Text) : Prop where
  rekey : m.strict → NoTakeOver tm s resp rnd
  sends : m.sends → Sendable env tm s resp
  clean : m.clean → ¬ m.cur (tm.sheap s).checksum

theorem Free.of_same {tm' : TM} {resp' : Resp} (h : Free env m tm s resp rnd)
    (hs : (tm.sheap s).Same (tm'.sheap s)) (ht : tm'.tserver = tm.tserver)
    (htag : resp'.toTag = resp.toTag) (hcode : resp'.scode = resp.scode)
    (hvia : resp'.via = resp.via) : Free env m tm' s resp' rnd := by
  refine ⟨?_, ?_, ?_⟩
  · simpa [NoTakeOver, htag, hcode, hs.needack, hs.tid, ht, responseTag] using h.rekey
  · simpa [Sendable, hvia, hs.userv] using h.sends
  · simpa [hs.checksum] using h.clean

theorem not_keyed_of_tid_none {v : SView} (h : (v.sheap s).tid = none) : ∀ k, ¬ v.keyed s k := by
  rintro k ⟨hk, -⟩
  simp [h] at hk

theorem not_keyed_of_missing {v : SView} {k : STid} (h : (v.sheap s).tid = some k)
    (hk : v.tserver k = none) : ∀ k, ¬ v.keyed s k := by
  rintro k' ⟨hk', hne⟩
  rw [h, Option.some.injEq] at hk'
  exact hne (hk' ▸ hk)

/-- The final response `a` has been transmitted and cached. -/
theorem complete_moves {w : SView} {tag : Option Text} {ackCb : Bool} {a : Act} {scode : ℤ}
    {r : Retransmit}
    (hw : tm.sview = { w with
      sheap := modifyAt w.sheap s fun t => t.drafted r
      l1 := w.l1.set (w.sheap s).checksum (some r)
      log := w.log ++ [a] })
    (ha : a.answers s scode r.data) (hr : a.repeats env (w.sheap s).userv r) (hcode : 200 ≤ scode)
    (hs : (w.sheap s).open) (hcur : m.clean → ¬ m.cur (w.sheap s).checksum)
    (hfree : m.strict → (w.sheap s).needack = true → ∀ k s', (w.sheap s).tid = some k →
      w.tserver (rekey k tag) = some s' → s' = s)
    (h : SMoves env m v w) : SMoves env m v (complete tm s tag ackCb).1.sview := by
  have hsheap : tm.sheap = _ := congrArg SView.sheap hw
  have hsnext : tm.snext = _ := congrArg SView.snext hw
  have htserver : tm.tserver = _ := congrArg SView.tserver hw
  have hl1 : tm.l1rcache = _ := congrArg SView.l1 hw
  have hl2 : tm.l2rcache = _ := congrArg SView.l2 hw
  have hcb : tm.cb = _ := congrArg SView.cb hw
  have hlog : tm.log = _ := congrArg SView.log hw
  by_cases hack : (w.sheap s).needack = true
  · cases htid : (w.sheap s).tid with
    | none =>
      have := h.then (.completeLost s (rekey ⟨[], none, 0, none⟩ tag) scode r a
        (fun t => (t.drafted r).waitAck ackCb) hs ha hr hcode hcur (.inr ⟨ackCb, fun _ => rfl⟩)
        (not_keyed_of_tid_none htid))
      simpa [complete, updS, record, hsheap, hsnext, htserver, hl1, hl2, hcb, hlog, hack, htid,
        delServer, Out.andThen, raise, sview, STr.drafted, STr.waitAck, STr.finished] using this
    | some k =>
      by_cases hk : w.tserver k = none
      · have := h.then (.completeLost s (rekey k tag) scode r a
          (fun t => (t.drafted r).waitAck ackCb) hs ha hr hcode hcur (.inr ⟨ackCb, fun _ => rfl⟩)
          (not_keyed_of_missing htid hk))
        simpa [complete, updS, record, hsheap, hsnext, htserver, hl1, hl2, hcb, hlog, hack, htid,
          hk, delServer, Out.andThen, raise, sview, STr.drafted, STr.waitAck,
          STr.finished] using this
      · have := h.then (.completeKeep s k tag scode r a ackCb hs ha hr hcode hcur hack ⟨htid, hk⟩
          fun hst s' => hfree hst hack k s' htid)
        simpa [complete, updS, record, hsheap, hsnext, htserver, hl1, hl2, hcb, hlog, hack, htid,
          hk, delServer, Out.andThen, ok, sview, STr.drafted, STr.waitAck, STr.finished] using this
  · have hack' : (w.sheap s).needack = false := by simpa using hack
    cases htid : (w.sheap s).tid with
    | none =>
      have := h.then (.completeLost s (rekey ⟨[], none, 0, none⟩ tag) scode r a
        (fun t => (t.drafted r).finished) hs ha hr hcode hcur (.inl fun _ => rfl)
        (not_keyed_of_tid_none htid))
      simpa [complete, updS, record, hsheap, hsnext, htserver, hl1, hl2, hcb, hlog, hack', htid,
        delServer, Out.andThen, raise, sview, STr.drafted, STr.finished] using this
    | some k =>
      by_cases hk : w.tserver k = none
      · have := h.then (.completeLost s (rekey k tag) scode r a
          (fun t => (t.drafted r).finished) hs ha hr hcode hcur (.inl fun _ => rfl)
          (not_keyed_of_missing htid hk))
        simpa [complete, updS, record, hsheap, hsnext, htserver, hl1, hl2, hcb, hlog, hack', htid,
          hk, delServer, Out.andThen, raise, sview, STr.drafted, STr.finished] using this
      · have := h.then (.completeDrop s k (rekey k tag) scode r a hs ha hr hcode hcur hack'
          ⟨htid, hk⟩)
        simpa [complete, updS, record, hsheap, hsnext, htserver, hl1, hl2, hcb, hlog, hack', htid,
          hk, delServer, Out.andThen, ok, sview, STr.drafted, STr.finished] using this

@[simp] theorem transmitData_sheap (env : Env) (tm : TM) (o : Origin) (userv : Server)
    (data : Text) (addr : TAddr) (cachesum : Option Text) (lossemul : ℕ) :
    (transmitData env tm o userv data addr cachesum lossemul).1.sheap = tm.sheap := by
  unfold transmitData
  split
  · rfl
  · cases cachesum <;> rfl

@[simp] theorem transmitData_tserver (env : Env) (tm : TM) (o : Origin) (userv : Server)
    (data : Text) (addr : TAddr) (cachesum : Option Text) (lossemul : ℕ) :
    (transmitData env tm o userv data addr cachesum lossemul).1.tserver = tm.tserver := by
  unfold transmitData
  split
  · rfl
  · cases cachesum <;> rfl

theorem transmitData_answers {tm : TM} {scode : ℤ} {userv : Server} {data : Text} {addr : TAddr}
    {checksum : Text} {lossemul : ℕ} {r : Out}
    (hr : transmitData env tm (.response s scode) userv data addr (some checksum) lossemul = r) :
    (r = (tm, some .network) ∧ env.sendOk userv addr = false) ∨
    ∃ a : Act, a.answers s scode data ∧
      a.repeats env (some userv) ⟨userv, data, addr, lossemul - 1⟩ ∧ r.2 = none ∧ r.1.sview = { tm.sview with
        l1 := tm.sview.l1.set checksum (some ⟨userv, data, addr, lossemul - 1⟩)
        log := tm.log ++ [a] } := by
  subst hr
  unfold transmitData
  split
  · rename_i hfail
    exact .inl ⟨rfl, hfail.2⟩
  · rename_i hsend
    refine .inr ⟨if lossemul = 0 then .sent (.response s scode) userv data addr
      else .discarded (.response s scode) data, ?_, ⟨rfl, ?_⟩, rfl, rfl⟩
    · split
      · exact .inl ⟨userv, addr, rfl⟩
      · exact .inr rfl
    · intro o u d ad heq
      split at heq
      · rename_i hzero
        cases heq
        exact ⟨by simp [hzero], by simpa [hzero] using hsend⟩
      · cases heq

theorem sendResponseTo_moves {retrans ackCb : Bool} {lossemul : ℕ}
    (hret : retrans = true → (tm.sheap s).state = .trying ∨ (tm.sheap s).state = .ringing)
    (hfree : Free env m tm s resp rnd) (h : SMoves env m v tm.sview) :
    SMoves env m v (sendResponseTo env tm resp s retrans ackCb lossemul rnd).1.sview := by
  unfold sendResponseTo
  dsimp only
  split
  · exact h
  · rename_i hguard
    have hstate : (tm.sheap s).state = .trying ∨ (tm.sheap s).state = .ringing := by
      by_contra hno
      cases hr : retrans with
      | false => exact hguard ⟨hno, hr⟩
      | true => exact hno (hret hr)
    split
    · exact h
    · exact h
    · rename_i tag userv htag huserv
      have hopen : (tm.sheap s).open := ⟨hstate, by simp [huserv]⟩
      split
      · rename_i haddr
        refine h.then (.draft s _ id hopen fun hsend => ?_)
        obtain ⟨addr, haddr', -⟩ := hfree.sends hsend
        cases haddr.symm.trans haddr'
      · rename_i addr haddr
        generalize hr : transmitData env _ _ _ _ _ _ _ = r
        rcases transmitData_answers hr with ⟨rfl, hfail⟩ | ⟨a, ha, hrep, hok, hview⟩
        · have := h.then (.draft s (env.respStr { resp with
            toTag := .ok (responseTag resp rnd tag) } userv (tm.sheap s).compact)
            (fun _ => some addr) hopen fun hsend => by
              obtain ⟨addr', haddr', hsend⟩ := hfree.sends hsend
              cases haddr.symm.trans haddr'
              simp [hsend userv huserv] at hfail)
          simpa [Out.andThen, updS, sview] using this
        · rw [← huserv] at hrep
          simp only [Out.andThen, hok]
          split
          · rename_i hcode
            have := h.then (.ring s resp.scode _ a (fun teF =>
              if r.1.provisionalRetr > 0 ∧ resp.scode > 100 then teF.cancel.arm else teF)
              hopen ha hrep hcode hfree.clean)
            rw [ok, sview_updS, hview]
            simpa [updS, sview, STr.drafted] using this
          · rename_i hcode
            refine complete_moves (w := tm.sview) ?_ ha hrep (by simpa using hcode) hopen
              hfree.clean (fun hst => hfree.rekey hst tag htag (by simpa using hcode)) h
            rw [hview]
            simp [updS, sview, STr.drafted]

theorem sendResponse_moves {t : Option ℕ} {ackCb : Bool} {lossemul : ℕ}
    (hfree : ∀ s, (t = some s ∨ t = none ∧ tm.tserver resp.tid = some s) →
      Free env m tm s resp rnd) (h : SMoves env m v tm.sview) :
    SMoves env m v (sendResponse env tm resp t false ackCb lossemul rnd).1.sview := by
  unfold sendResponse
  split
  · exact sendResponseTo_moves (by simp) (hfree _ (.inl rfl)) h
  · split
    · exact h
    · rename_i s hs
      exact sendResponseTo_moves (by simp) (hfree s (.inr ⟨rfl, hs⟩)) h

theorem doCancel_moves {g : Option Guard}
    (hstate : (tm.sheap s).state = .trying ∨ (tm.sheap s).state = .ringing)
    (hfree : ∀ r, (tm.sheap s).r487 = some r → Free env m tm s r rnd)
    (h : SMoves env m v tm.sview) : SMoves env m v (doCancel env tm s g rnd).1.sview := by
  have hcall : ∀ tm' : TM, SMoves env m v tm'.sview → SMoves env m v (if (tm'.sheap s).cancelCb then
      ok ((tm'.record (.cancelCb s)).call (.cancel s g)) else tm'.ok).1.sview := by
    intro tm' h
    split
    · exact (h.record (a := .cancelCb s) rfl).call (f := .cancel s g) rfl
    · exact h
  unfold doCancel
  refine .andThen ?_ fun _ h => hcall _ h
  split
  · exact h
  · rename_i r hr
    exact sendResponseTo_moves (fun _ => hstate) (hfree r hr) h

theorem timerD_moves (hlive : 0 < (tm.sheap s).teD.live) (h : SMoves env m v tm.sview) :
    SMoves env m v (timerD tm s).1.sview := by
  unfold timerD
  dsimp only
  split
  · rename_i hno
    exact h.then (.noack s hlive (by simpa [updS] using hno.2))
  · cases htid : (tm.sheap s).tid with
    | none =>
      have := h.then (.expireDLost s hlive (not_keyed_of_tid_none htid))
      simpa [timerDEnd, updS, record, htid, delServer, Out.andThen, raise, sview] using this
    | some k =>
      by_cases hk : tm.tserver k = none
      · have := h.then (.expireDLost s hlive (not_keyed_of_missing htid hk))
        simpa [timerDEnd, updS, record, htid, hk, delServer, Out.andThen, raise, sview] using this
      · have := h.then (.expireD s k hlive ⟨htid, hk⟩)
        simpa [timerDEnd, updS, htid, hk, delServer, Out.andThen, ok, sview] using this

/-- The end of `timerD` once `noack_cb` has returned. -/
theorem timerDEnd_moves (hcb : tm.cb = some (.noack s)) (h : SMoves env m v tm.sview) :
    SMoves env m v (timerDEnd { tm with cb := none } s).1.sview := by
  cases htid : (tm.sheap s).tid with
  | none =>
    have := h.then (.afterNoackLost s hcb (not_keyed_of_tid_none htid))
    simpa [timerDEnd, record, htid, delServer, Out.andThen, raise, sview] using this
  | some k =>
    by_cases hk : tm.tserver k = none
    · have := h.then (.afterNoackLost s hcb (not_keyed_of_missing htid hk))
      simpa [timerDEnd, record, htid, hk, delServer, Out.andThen, raise, sview] using this
    · have := h.then (.afterNoack s k hcb ⟨htid, hk⟩)
      simpa [timerDEnd, updS, htid, hk, delServer, Out.andThen, ok, sview] using this

theorem cancelId_reason (r : Option Resp) (reason : Text) :
    ((r.map fun r => { r with reason := reason }).map fun r => (r.tid, r.scode)) =
      r.map fun r => (r.tid, r.scode) := by
  cases r <;> rfl

theorem timerE_moves (hfree : ∀ r, (tm.sheap s).r487 = some r → Free env m tm s r rnd)
    (h : SMoves env m v tm.sview) : SMoves env m v (timerE env tm s rnd).1.sview := by
  unfold timerE
  dsimp only
  have hfired := h.touch s (f := fun t => { t with teE := t.teE.fire, teF := t.teF.cancel }) {}
  split
  · rename_i hstate
    have hreason := hfired.touch s (f := fun t => { t with
      r487 := t.r487.map fun r => { r with reason := requestExpired } }) ⟨rfl, rfl, rfl, rfl, rfl, rfl, rfl,
        rfl, cancelId_reason _ _, rfl, rfl⟩
    refine doCancel_moves (by simpa [updS] using hstate) ?_ hreason
    intro r hr
    simp only [updS, Lib.modifyAt_modifyAt, Lib.modifyAt_same, Option.map_eq_some_iff] at hr
    obtain ⟨r', hr', rfl⟩ := hr
    refine (hfree r' hr').of_same ?_ rfl rfl rfl rfl
    simp only [updS, Lib.modifyAt_modifyAt, Lib.modifyAt_same]
    exact ⟨rfl, rfl, rfl, rfl, rfl, rfl, rfl, rfl, cancelId_reason _ _, rfl, rfl⟩
  · exact hfired

theorem retransmitS_moves {o : Origin} {cachesum : Option Text} (ho : o.ofServer = false)
    (hc : ∀ c, cachesum = some c → m.cur c) (h : SMoves env m v tm.sview) :
    SMoves env m v (retransmitS env tm o s cachesum).1.sview := by
  unfold retransmitS
  split
  · exact transmitData_moves ho hc h
  · exact h

theorem timerF_moves (h : SMoves env m v tm.sview) :
    SMoves env m v (timerF env tm s).1.sview := by
  have hfired := h.touch s (f := fun t => { t with teF := t.teF.fire }) {}
  unfold timerF
  dsimp only
  split
  · rename_i hring
    refine .andThen ?_ fun _ h => h.touch s (f := fun t => { t with teF := t.teF.arm }) {}
    unfold retransmitS
    split
    · unfold transmitData
      split
      · exact hfired
      · exact hfired.then (.retransF s _ _ _ hring.1)
    · exact hfired
  · exact hfired

theorem timerA_moves (hlive : 0 < (tm.sheap s).teA.live) (h : SMoves env m v tm.sview) :
    SMoves env m v (timerA env tm s).1.sview := by
  have hmissed := h.then (.missedA s hlive)
  unfold timerA retransmitS
  dsimp only
  split
  · rename_i u data addr hu hdata haddr
    unfold transmitData
    split
    · exact hmissed
    · have := h.then (.retransA s u data addr hlive (by simpa [updS] using hu)
        (by simpa [updS] using hdata))
      simpa [Out.andThen, ok, updS, record, sview] using this
  · exact hmissed

theorem recvAck_move (tm : TM) (s : ℕ) (g : Guard) :
    AckMove s g.checksum tm.sview (recvAck tm s g).1.sview := by
  by_cases hD : (tm.sheap s).teD.ref = false
  · have := @AckMove.broken s g.checksum tm.sview hD
    simpa [recvAck, updS, hD, raise, sview] using this
  · have hD' : (tm.sheap s).teD.ref = true := by simpa using hD
    cases htid : (tm.sheap s).tid with
    | none =>
      have := @AckMove.lost s g.checksum tm.sview (not_keyed_of_tid_none htid)
      simpa [recvAck, updS, record, htid, hD', delServer, Out.andThen, raise, sview] using this
    | some k =>
      by_cases hk : tm.tserver k = none
      · have := @AckMove.lost s g.checksum tm.sview
          (not_keyed_of_missing htid hk)
        simpa [recvAck, updS, record, htid, hk, hD', delServer, Out.andThen, raise,
          sview] using this
      · by_cases hcb : (tm.sheap s).ackCb = true
        · have := AckMove.call (v := tm.sview) k g ⟨htid, hk⟩ rfl
          simpa [recvAck, updS, record, call, htid, hk, hD', hcb, delServer, Out.andThen, ok,
            sview] using this
        · have := @AckMove.done s g.checksum tm.sview k ⟨htid, hk⟩
          simpa [recvAck, updS, remember, htid, hk, hD', hcb, delServer, Out.andThen, ok,
            sview] using this

def Guarded (env : Env) (tm : TM) (g : Guard) : Prop :=
  ∃ req, Received env tm.log g.checksum req ∧ g.req.tid = req.tid ∧ g.req.method = req.method

theorem transmitResp_sheap (env : Env) (tm : TM) (userv : Server) (resp : Resp) (c : Text)
    (b : Bool) : (transmitResp env tm userv resp c b).1.sheap = tm.sheap := by
  unfold transmitResp
  split <;> simp [raise]

theorem transmitResp_tserver (env : Env) (tm : TM) (userv : Server) (resp : Resp) (c : Text)
    (b : Bool) : (transmitResp env tm userv resp c b).1.tserver = tm.tserver := by
  unfold transmitResp
  split <;> simp [raise]

theorem existing_moves {g : Guard} {k : STid} (hcb : tm.cb = none) (hk : tm.tserver k = some s)
    (hc : m.cur g.checksum) (hg : Guarded env tm g)
    (hfree : g.req.method = .cancel → ∀ r, (tm.sheap s).r487 = some r → Free env m tm s r rnd)
    (h : SMoves env m v tm.sview) : SMoves env m v (existing env tm s g rnd).1.sview := by
  unfold existing
  dsimp only
  split
  · split
    · exact h
    · exact retransmitS_moves rfl (fun _ heq => Option.some.inj heq ▸ hc) h
  · split
    · rename_i hcancel
      split
      · exact h
      · refine .andThen (transmitResp_moves hc h) fun _ h => ?_
        split
        · rename_i hstate
          refine doCancel_moves hstate (fun r hr => ?_) h
          rw [transmitResp_sheap] at hr
          refine (hfree hcancel r hr).of_same ?_ (transmitResp_tserver ..) rfl rfl rfl
          rw [transmitResp_sheap]
          exact {}
        · exact h
    · split
      · rename_i hack
        obtain ⟨req, hreq, -, hm⟩ := hg
        exact h.then (.ack s k g.checksum hcb hk hack.2 ⟨req, hreq, hm.symm.trans hack.1⟩ hc
          (recvAck_move tm s g))
      · exact h

theorem r487_cancelId {req : Req} {k : STid × ℤ}
    (h : ((if decide (req.method = .invite) then some (req.genResponse 487 requestTerminated [])
      else none).map fun r => (r.tid, r.scode)) = some k) : k = (req.tid, 487) ∧ req.method = .invite := by
  split at h
  · rename_i hinvite
    exact ⟨(Option.some.inj h).symm, of_decide_eq_true hinvite⟩
  · exact absurd h.symm (Option.some_ne_none k)

theorem newServer_moves {g : Guard} {userv : Except Exn Server} {consumer : Option Bool}
    (hc : m.cur g.checksum) (hg : Guarded env tm g)
    (hnot : g.req.method ≠ .ack ∧ g.req.method ≠ .cancel) (hfree : tm.tserver g.req.tid = none)
    (hmiss : tm.l1rcache g.checksum = none ∧ tm.l2rcache g.checksum = none)
    (h : SMoves env m v tm.sview) : SMoves env m v (newServer tm g userv consumer).1.sview := by
  obtain ⟨req, hreq, htid, hmethod⟩ := hg
  have hstart : ∀ u, SMoves env m v
      (newServer.start tm g consumer (decide (g.req.method = .invite)) u).1.sview := by
    intro u
    have hstored := h.then (.store (v := tm.sview) {
      tid := some g.req.tid, state := .trying, method := g.req.method, checksum := g.checksum,
      data := none, address := none, userv := some u, compact := consumer.getD false,
      needack := decide (g.req.method = .invite),
      r487 := if decide (g.req.method = .invite) then
        some (g.req.genResponse 487 requestTerminated []) else none,
      ackCb := false, noackCb := false, cancelCb := false, teA := .off, teD := .off,
      teE := if decide (g.req.method = .invite) then Timer.off.arm else .off, teF := .off }
      req (congrArg some htid) rfl (by simp) rfl hmethod (by simp) rfl rfl (hmethod ▸ hnot) hreq
      (htid ▸ hfree) hmiss fun k hk => htid ▸ r487_cancelId hk)
    rw [← htid] at hstored
    unfold newServer.start
    dsimp only
    split
    · exact (hstored.record (a := .request tm.snext g.req g.checksum) rfl).then
        (.askUpper tm.snext g (by simp))
    · exact hstored.cache hc none
  unfold newServer
  dsimp only
  split
  · exact h
  · split
    · exact h
    · exact hstart _
  · exact hstart _

theorem incomingRequest_moves {g : Guard} {userv : Except Exn Server} {consumer : Option Bool}
    (hcb : tm.cb = none) (hc : m.cur g.checksum) (hg : Guarded env tm g)
    (hmiss : tm.l1rcache g.checksum = none ∧ tm.l2rcache g.checksum = none)
    (hfree : g.req.method = .cancel → ∀ s r, tm.tserver g.req.tid = some s →
      (tm.sheap s).r487 = some r → Free env m tm s r rnd)
    (h : SMoves env m v tm.sview) :
    SMoves env m v (incomingRequest env tm g userv consumer rnd).1.sview := by
  unfold incomingRequest
  split
  · exact transmitResp_moves hc h
  · split
    · exact h
    · rename_i tid htid
      split
      · rename_i s hs
        refine existing_moves hcb hs hc hg (fun hcancel r hr => hfree hcancel s r ?_ hr) h
        rw [if_neg (by simp [hcancel])] at htid
        cases htid
        exact hs
      · rename_i hnone
        split
        · exact h.cache hc none
        · split
          · exact transmitResp_moves hc h
          · rename_i hack hcancel
            rw [if_neg hack] at htid
            cases htid
            exact newServer_moves hc hg ⟨hack, hcancel⟩ hnone hmiss h

theorem afterRequest_moves {g : Guard} {rval : Rval} (hcb : tm.cb = some (.req s g))
    (hfree : ∀ resp c n, rval = .triple (some resp) c n → Free env m tm s resp rnd)
    (h : SMoves env m v tm.sview) :
    SMoves env m v (afterRequest env { tm with cb := none } s rval rnd).1.sview := by
  cases rval with
  | none =>
    simp only [afterRequest]
    split
    · exact h.returned
    · rename_i hrefs
      simp only [not_or, Bool.not_eq_true] at hrefs
      cases htid : (tm.sheap s).tid with
      | none =>
        exact h.then (.dropped s g hcb hrefs.1 hrefs.2.1 tm.tserver (.inl ⟨htid, rfl⟩))
      | some k =>
        exact h.then (.dropped s g hcb hrefs.1 hrefs.2.1 (tm.tserver.del k)
          (.inr ⟨k, htid, rfl⟩))
  | triple resp c n =>
    have hset := h.returned.touch s (f := fun t => { t with cancelCb := c, noackCb := n }) {}
    cases resp with
    | none => exact hset
    | some resp =>
      refine sendResponseTo_moves (by simp) ((hfree resp c n rfl).of_same ?_ rfl rfl rfl rfl) hset
      simp only [updS, Lib.modifyAt_same]
      exact {}

end Server

/-- The responses a step may hand to `sendResponse`: the upper layer sends one or
returns one from a callback or fails with a media error, or the transaction is
cancelled or expires and its 487 is sent. -/
inductive Answers (env : Env) (tm : TM) : Label → ℕ → Resp → Text → Prop
  | call (resp : Resp) (s : ℕ) (ackCb : Bool) (lossemul : ℕ) (rnd : Text) :
      Answers env tm (.call (.sendResponse resp (some s) ackCb lossemul rnd)) s resp rnd
  | callByBranch (resp : Resp) (s : ℕ) (ackCb : Bool) (lossemul : ℕ) (rnd : Text)
      (hs : tm.tserver resp.tid = some s) :
      Answers env tm (.call (.sendResponse resp none ackCb lossemul rnd)) s resp rnd
  | returned (s : ℕ) (g : Guard) (resp : Resp) (c n : Bool) (rnd : Text)
      (hcb : tm.cb = some (.req s g)) :
      Answers env tm (.ret (.value (.triple (some resp) c n)) rnd) s resp rnd
  | failed (f : Frame) (g : Guard) (e : Exn) (s : ℕ) (rnd : Text) (hcb : tm.cb = some f)
      (hg : Frame.guard f = some g) (he : e = .rtpProxy ∨ e = .sdpParse)
      (hs : tm.tserver (errorResponse e g.req).tid = some s) :
      Answers env tm (.ret (.raise e) rnd) s (errorResponse e g.req) rnd
  | expired (s : ℕ) (r : Resp) (rnd : Text) (hr : (tm.sheap s).r487 = some r) :
      Answers env tm (.fire .serverE s rnd) s r rnd
  | cancelled (dg : Dgram) (req : Req) (s : ℕ) (r : Resp) (hparse : env.parseReq dg.data = .ok req)
      (hcancel : req.method = .cancel) (hs : tm.tserver req.tid = some s)
      (hr : (tm.sheap s).r487 = some r) : Answers env tm (.recv dg) s r dg.rnd

/-- No final response of the step moves a transaction to a key under which
another one is stored. -/
def RekeyFree (env : Env) (tm : TM) (l : Label) : Prop :=
  ∀ s resp rnd, Answers env tm l s resp rnd → NoTakeOver tm s resp rnd

def AllSent (env : Env) (tm : TM) (l : Label) : Prop :=
  ∀ s resp rnd, Answers env tm l s resp rnd → Sendable env tm s resp

/-- The checksums a step may write to the cache besides those of the transactions
it answers. -/
def Foreign (env : Env) (tm : TM) : Label → Text → Prop
  | .recv dg, c => c = env.md5 dg.data ∧ tm.lookup c = none
  | .ret _ _, c => ∃ s g, tm.cb = some (.ack s g) ∧ c = g.checksum
  | .call (.sendACK i), c => (tm.cheap i).ackRAddr ≠ none ∧ c = (tm.cheap i).ackChecksum
  | _, _ => False

theorem lookup_eq_none {tm : TM} {c : Text} (h : tm.lookup c = none) :
    tm.l1rcache c = none ∧ tm.l2rcache c = none := by
  unfold lookup at h
  split at h
  · cases h
  · rename_i hl1; exact ⟨hl1, h⟩

section Steps
variable {m : Mode} {v : SView} {tm : TM} {env : Env}

theorem handleIncoming_moves {dg : Dgram} (hcb : tm.cb = none)
    (hcur : ∀ c, Foreign env tm (.recv dg) c → m.cur c)
    (hfree : ∀ s resp rnd, Answers env tm (.recv dg) s resp rnd → Free env m tm s resp rnd)
    (h : SMoves env m v (tm.record (.arrived dg.data)).sview) :
    SMoves env m v (handleIncoming env tm dg).1.sview := by
  unfold handleIncoming
  dsimp only
  split
  · exact h
  · split
    · exact h
    · exact transmitData_moves rfl (by simp) h
    · rename_i hlookup
      have hc : m.cur (env.md5 dg.data) := hcur _ ⟨rfl, hlookup⟩
      split
      · exact handleResponse_moves hc h
      · rename_i hreq
        unfold handleRequest
        split
        · exact h
        · exact remember_moves hc h
        · rename_i req hparse
          split
          · exact remember_moves hc h
          · rename_i fixed hfixed
            have hg : Guarded env (tm.record (.arrived dg.data))
                ⟨fixed, env.md5 dg.data, dg.server⟩ :=
              ⟨req, ⟨dg.data, by simp [record], rfl, by simpa using hreq, hparse⟩,
                fixRequest_tid hfixed, fixRequest_method hfixed⟩
            refine incomingRequest_moves hcb hc hg (lookup_eq_none hlookup)
              (fun hcancel s r hs hr => ?_) h
            have hs' : tm.tserver req.tid = some s := by rw [← fixRequest_tid hfixed]; exact hs
            refine (hfree s r dg.rnd (.cancelled dg req s r hparse
              (by rw [← fixRequest_method hfixed]; exact hcancel) hs' hr)).of_same ?_ rfl rfl rfl rfl
            exact {}

theorem fire_moves {k : TimerId} {i : ℕ} {rnd : Text}
    (hfree : ∀ s resp rnd', Answers env tm (.fire k i rnd) s resp rnd' →
      Free env m tm s resp rnd') (h : SMoves env m v tm.sview) :
    SMoves env m v (fire env tm k i rnd).sview := by
  cases k with
  | serverA =>
    simp only [fire]
    split
    · rename_i hlive; exact settle_moves (timerA_moves hlive h)
    · exact h
  | serverD =>
    simp only [fire]
    split
    · rename_i hlive; exact settle_moves (timerD_moves hlive h)
    · exact h
  | serverE =>
    simp only [fire]
    split
    · exact settle_moves (timerE_moves (fun r hr => hfree i r rnd (.expired i r rnd hr)) h)
    · exact h
  | serverF =>
    simp only [fire]
    split
    · exact settle_moves (timerF_moves h)
    · exact h
  | clientA =>
    simp only [fire]
    split
    · exact settle_moves (clientTimerA_moves h)
    · exact h
  | clientB =>
    simp only [fire]
    split
    · exact settle_moves (timerB_moves h)
    · exact h
  | clientC =>
    simp only [fire]
    split
    · exact settle_moves (timerC_moves h)
    · exact h
  | clientG =>
    simp only [fire]
    split
    · exact settle_moves (r := timerG tm i) h
    · exact h

theorem api_moves {a : Api} (hcur : ∀ c, Foreign env tm (.call a) c → m.cur c)
    (hfree : ∀ s resp rnd, Answers env tm (.call a) s resp rnd → Free env m tm s resp rnd)
    (h : SMoves env m v tm.sview) : SMoves env m v (api env tm a).sview := by
  cases a with
  | sendResponse resp t ackCb lossemul rnd =>
    refine sendResponse_moves (fun s hs => hfree s resp rnd ?_) h
    rcases hs with rfl | ⟨rfl, hs⟩
    · exact .call resp s ackCb lossemul rnd
    · exact .callByBranch resp s ackCb lossemul rnd hs
  | newTransaction msg respCb compact userv => exact newTransaction_moves h
  | cancelTransaction c eh => exact cancelTransaction_moves h
  | sendACK c => exact sendACK_moves (fun hne => hcur _ ⟨hne, rfl⟩) h
  | setUack c => exact h
  | setAckBody c body => exact h
  | clearRespCb c => exact h
  | setCompact s compact => exact h.touch s (f := fun t => { t with compact := compact }) {}

theorem ret_moves {f : Frame} {r : Ret} {rnd : Text} (hcb : tm.cb = some f)
    (hcur : ∀ c, Foreign env tm (.ret r rnd) c → m.cur c)
    (hfree : ∀ s resp rnd', Answers env tm (.ret r rnd) s resp rnd' →
      Free env m tm s resp rnd') (h : SMoves env m v tm.sview) :
    SMoves env m v (ret env tm f r rnd).sview := by
  unfold ret
  cases r with
  | value rval =>
    refine settle_moves ?_
    cases f with
    | req s g =>
      refine afterRequest_moves hcb (fun resp c n hr => ?_) h
      subst hr
      exact hfree s resp rnd (.returned s g resp c n rnd hcb)
    | ack s g => exact h.then (.afterAck s g hcb (hcur _ ⟨s, g, hcb, rfl⟩))
    | cancel s g => exact h.returned
    | noack s => exact timerDEnd_moves hcb h
    | provisional c => exact h.returned
    | final c resp =>
      have hret : SMoves env m v ({ tm with cb := none } : TM).sview := h.returned
      exact afterFinal_moves hret
    | timeout c => exact h.returned
  | raise e =>
    refine settle_moves ?_
    have hret : SMoves env m v (TM.sview { tm with cb := none }) := h.returned
    unfold handleExn
    split
    · rename_i g hg
      refine .andThen (sendResponse_moves (fun s hs => ?_) hret) fun _ h => h
      rcases hs with hs | ⟨-, hs⟩
      · cases hs
      · exact (hfree s _ rnd (.failed f g .rtpProxy s rnd hcb hg (.inl rfl) hs)).of_same (by exact {}) rfl
          rfl rfl rfl
    · rename_i g hg
      refine sendResponse_moves (fun s hs => ?_) hret
      rcases hs with hs | ⟨-, hs⟩
      · cases hs
      · exact (hfree s _ rnd (.failed f g .sdpParse s rnd hcb hg (.inr rfl) hs)).of_same (by exact {}) rfl
          rfl rfl rfl
    · exact hret

end Steps

/-- What a step begins with: the datagram is logged, or the caches are rotated. -/
def arrival (tm : TM) (l : Label) : TM :=
  match l, tm.cb with
  | .recv dg, none => tm.record (.arrived dg.data)
  | .purge, none => tm.rCachePurge
  | _, _ => tm

theorem step_moves {m : Mode} {env : Env} {tm : TM} {l : Label}
    (hcur : ∀ c, Foreign env tm l c → m.cur c)
    (hfree : ∀ s resp rnd, Answers env tm l s resp rnd → Free env m tm s resp rnd) :
    SMoves env m (arrival tm l).sview (step env tm l).sview := by
  cases l with
  | recv dg =>
    cases hcb : tm.cb with
    | none =>
      simp only [step, arrival, hcb]
      exact settle_moves (handleIncoming_moves hcb hcur hfree .refl)
    | some f => simp only [step, arrival, hcb]; exact .refl
  | fire k i rnd =>
    cases hcb : tm.cb with
    | none => simp only [step, arrival, hcb]; exact fire_moves hfree .refl
    | some f => simp only [step, arrival, hcb]; exact .refl
  | purge =>
    cases hcb : tm.cb with
    | none => simp only [step, arrival, hcb]; exact .refl
    | some f => simp only [step, arrival, hcb]; exact .refl
  | call a => simp only [step, arrival]; exact api_moves hcur hfree .refl
  | ret r rnd =>
    cases hcb : tm.cb with
    | none => simp only [step, arrival, hcb]; exact .refl
    | some f => simp only [step, arrival, hcb]; exact ret_moves hcb hcur hfree .refl

end TM

end SippyB2bua.Manager
