import Mathlib.Logic.Relation
import SippyB2bua.Manager.Step

/-!
# What a step does to the client transactions

The client side of the manager is its heap of client transactions, the table,
the suspended callback and the log. The handlers of requests and the server
timers leave it aside; every other step is a sequence of `CMove`s on that view.
A response that is handled stops the timers first, and a `CMove.stall` is what
remains of it when a later part raises.
-/

namespace SippyB2bua.Manager
open Lib (Text Dict Timer modifyAt)

structure CView where
  cheap : ℕ → CTr
  cnext : ℕ
  tclient : Dict CTid ℕ
  cb : Option Frame
  log : List Act

def TM.cview (tm : TM) : CView := ⟨tm.cheap, tm.cnext, tm.tclient, tm.cb, tm.log⟩

/-- What is known about a step: no callback for a final response raises while the
transaction is to be removed, and nothing raises between the stop of the timers
and the callback. -/
structure CMode where
  returns : Prop
  calm : Prop

def Origin.ofClient : Origin → Bool
  | .ack _ | .sendACK _ => true
  | _ => false

def Act.ofClient : Act → Bool
  | .sent o _ _ _ => o.ofClient
  | .response _ _ | .removed _ | .callSendACK _ => true
  | _ => false

def Frame.ofClient : Frame → Bool
  | .provisional _ | .final _ _ | .timeout _ => true
  | _ => false

def busy (cb : Option Frame) : Prop := ∃ f, cb = some f ∧ f.ofClient = true

theorem not_busy_none : ¬ busy none := by simp [busy]

theorem not_busy_some {f : Frame} (h : f.ofClient = false) : ¬ busy (some f) := by
  rintro ⟨f', heq, hf'⟩
  cases heq
  simp [h] at hf'

/-- The client side is the same, apart from what a server transaction logs and calls. -/
structure Aside (v w : CView) : Prop where
  cheap : w.cheap = v.cheap
  cnext : w.cnext = v.cnext
  tclient : w.tclient = v.tclient
  cb : w.cb = v.cb ∨ (¬ busy v.cb ∧ ¬ busy w.cb)
  log : ∃ as, (∀ a ∈ as, a.ofClient = false) ∧ w.log = v.log ++ as

namespace Aside
variable {v w : CView}

theorem refl (v : CView) : Aside v v :=
  ⟨rfl, rfl, rfl, .inl rfl, [], by simp, by simp⟩

theorem record (h : Aside v w) {a : Act} (ha : a.ofClient = false) :
    Aside v { w with log := w.log ++ [a] } := by
  obtain ⟨as, has, hlog⟩ := h.log
  refine ⟨h.cheap, h.cnext, h.tclient, h.cb, as ++ [a], ?_, by simp [hlog]⟩
  intro b hb
  rcases List.mem_append.mp hb with hb | hb
  · exact has b hb
  · rw [List.mem_singleton.mp hb]; exact ha

theorem call (h : Aside v w) (hv : ¬ busy v.cb) {cb : Option Frame} (hcb : ¬ busy cb) :
    Aside v { w with cb := cb } :=
  ⟨h.cheap, h.cnext, h.tclient, .inr ⟨hv, hcb⟩, h.log⟩

theorem andThen {r : Out} {f : TM → Out} (hr : Aside v r.1.cview)
    (hf : r.2 = none → Aside v r.1.cview → Aside v (f r.1).1.cview) :
    Aside v (r.andThen f).1.cview := by
  unfold Out.andThen
  split
  · rename_i h
    exact hf h hr
  · exact hr

end Aside

namespace TM
section Server
variable {v : CView} {tm : TM} {env : Env} {s : ℕ} {resp : Resp} {rnd : Text}

theorem updS_aside {f : STr → STr} (h : Aside v tm.cview) : Aside v (tm.updS s f).cview := h

theorem record_aside {a : Act} (h : Aside v tm.cview) (ha : a.ofClient = false) :
    Aside v (tm.record a).cview := h.record ha

theorem transmitData_aside {o : Origin} {userv : Server} {data : Text} {addr : TAddr}
    {cachesum : Option Text} {lossemul : ℕ} (ho : o.ofClient = false) (h : Aside v tm.cview) :
    Aside v (transmitData env tm o userv data addr cachesum lossemul).1.cview := by
  unfold transmitData
  split
  · exact h
  · have ha : (if lossemul = 0 then Act.sent o userv data addr
        else .discarded o data).ofClient = false := by
      split
      · exact ho
      · rfl
    cases cachesum with
    | none => exact h.record ha
    | some c => exact h.record ha

theorem transmitData_cb (env : Env) (tm : TM) (o : Origin) (userv : Server) (data : Text)
    (addr : TAddr) (cachesum : Option Text) (lossemul : ℕ) :
    (transmitData env tm o userv data addr cachesum lossemul).1.cb = tm.cb := by
  unfold transmitData
  split
  · rfl
  · cases cachesum <;> rfl

theorem transmitResp_aside {userv : Server} {c : Text} {compact : Bool} (h : Aside v tm.cview) :
    Aside v (transmitResp env tm userv resp c compact).1.cview := by
  unfold transmitResp
  split
  · exact h
  · exact transmitData_aside rfl h

theorem delServer_aside (h : Aside v tm.cview) : Aside v (delServer tm s).1.cview := by
  unfold delServer
  split
  · exact h.record rfl
  · split
    · exact h.record rfl
    · exact h

theorem complete_aside {tag : Option Text} {ackCb : Bool} (h : Aside v tm.cview) :
    Aside v (complete tm s tag ackCb).1.cview := by
  unfold complete
  dsimp only
  split
  · refine .andThen (delServer_aside (updS_aside (record_aside h rfl))) fun _ h => ?_
    split <;> exact h
  · exact .andThen (delServer_aside (record_aside h rfl)) fun _ h => h

theorem sendResponseTo_aside {retrans ackCb : Bool} {lossemul : ℕ} (h : Aside v tm.cview) :
    Aside v (sendResponseTo env tm resp s retrans ackCb lossemul rnd).1.cview := by
  unfold sendResponseTo
  dsimp only
  split
  · exact h
  · split
    · exact h
    · exact h
    · split
      · exact h
      · refine .andThen (transmitData_aside rfl (updS_aside h)) fun _ h => ?_
        split
        · exact h
        · exact complete_aside h

theorem sendResponse_aside {t : Option ℕ} {retrans ackCb : Bool} {lossemul : ℕ}
    (h : Aside v tm.cview) :
    Aside v (sendResponse env tm resp t retrans ackCb lossemul rnd).1.cview := by
  unfold sendResponse
  split
  · exact sendResponseTo_aside h
  · split
    · exact h
    · exact sendResponseTo_aside h

theorem doCancel_aside {g : Option Guard} (hv : ¬ busy v.cb) (h : Aside v tm.cview) :
    Aside v (doCancel env tm s g rnd).1.cview := by
  have hcall : ∀ tm' : TM, Aside v tm'.cview → Aside v (if (tm'.sheap s).cancelCb then
      ok ((tm'.record (.cancelCb s)).call (.cancel s g)) else tm'.ok).1.cview := by
    intro tm' h
    split
    · exact (h.record (a := .cancelCb s) rfl).call hv (not_busy_some (f := .cancel s g) rfl)
    · exact h
  unfold doCancel
  refine .andThen ?_ fun _ h => hcall _ h
  split
  · exact h
  · exact sendResponseTo_aside h

theorem timerDEnd_aside (h : Aside v tm.cview) : Aside v (timerDEnd tm s).1.cview :=
  .andThen (delServer_aside h) fun _ h => h

theorem timerD_aside (hv : ¬ busy v.cb) (h : Aside v tm.cview) :
    Aside v (timerD tm s).1.cview := by
  unfold timerD
  dsimp only
  split
  · exact (h.record (a := .noackCb s) rfl).call hv (not_busy_some (f := .noack s) rfl)
  · exact timerDEnd_aside (updS_aside h)

theorem timerE_aside (hv : ¬ busy v.cb) (h : Aside v tm.cview) :
    Aside v (timerE env tm s rnd).1.cview := by
  unfold timerE
  dsimp only
  split
  · exact doCancel_aside hv (updS_aside h)
  · exact h

theorem retransmitS_aside {o : Origin} {cachesum : Option Text} (ho : o.ofClient = false)
    (h : Aside v tm.cview) : Aside v (retransmitS env tm o s cachesum).1.cview := by
  unfold retransmitS
  split
  · exact transmitData_aside ho h
  · exact h

theorem timerF_aside (h : Aside v tm.cview) : Aside v (timerF env tm s).1.cview := by
  unfold timerF
  dsimp only
  split
  · exact .andThen (retransmitS_aside rfl (updS_aside h)) fun _ h => h
  · exact h

theorem timerA_aside (h : Aside v tm.cview) : Aside v (timerA env tm s).1.cview :=
  .andThen (retransmitS_aside rfl (updS_aside h)) fun _ h => h

theorem recvAck_aside {g : Guard} (hv : ¬ busy v.cb) (h : Aside v tm.cview) :
    Aside v (recvAck tm s g).1.cview := by
  unfold recvAck
  dsimp only
  split
  · exact h
  · refine .andThen (delServer_aside (updS_aside h)) fun _ h => ?_
    split
    · exact (h.record (a := .ackCb s) rfl).call hv (not_busy_some (f := .ack s g) rfl)
    · exact h

theorem existing_aside {g : Guard} (hv : ¬ busy v.cb) (h : Aside v tm.cview) :
    Aside v (existing env tm s g rnd).1.cview := by
  unfold existing
  dsimp only
  split
  · split
    · exact h
    · exact retransmitS_aside rfl h
  · split
    · split
      · exact h
      · refine .andThen (transmitResp_aside h) fun _ h => ?_
        split
        · exact doCancel_aside hv h
        · exact h
    · split
      · exact recvAck_aside hv h
      · exact h

theorem newServer_aside {g : Guard} {userv : Except Exn Server} {consumer : Option Bool}
    (hv : ¬ busy v.cb) (h : Aside v tm.cview) :
    Aside v (newServer tm g userv consumer).1.cview := by
  have hstart : ∀ b u, Aside v (newServer.start tm g consumer b u).1.cview := by
    intro b u
    unfold newServer.start
    dsimp only
    split
    · exact (h.record (a := .request tm.snext g.req g.checksum) rfl).call hv
        (not_busy_some (f := .req tm.snext g) rfl)
    · exact h
  unfold newServer
  dsimp only
  split
  · exact h
  · split
    · exact h
    · exact hstart _ _
  · exact hstart _ _

theorem incomingRequest_aside {g : Guard} {userv : Except Exn Server} {consumer : Option Bool}
    (hv : ¬ busy v.cb) (h : Aside v tm.cview) :
    Aside v (incomingRequest env tm g userv consumer rnd).1.cview := by
  unfold incomingRequest
  split
  · exact transmitResp_aside h
  · split
    · exact h
    · split
      · exact existing_aside hv h
      · split
        · exact h
        · split
          · exact transmitResp_aside h
          · exact newServer_aside hv h

theorem handleRequest_aside {dg : Dgram} {checksum : Text} (hv : ¬ busy v.cb)
    (h : Aside v tm.cview) : Aside v (handleRequest env tm dg checksum).1.cview := by
  unfold handleRequest
  split
  · exact h
  · exact h
  · split
    · exact h
    · exact incomingRequest_aside hv h

theorem afterRequest_aside {rval : Rval} (h : Aside v tm.cview) :
    Aside v (afterRequest env tm s rval rnd).1.cview := by
  unfold afterRequest
  split
  · dsimp only
    split
    · exact h
    · split <;> exact h
  · dsimp only
    split
    · exact h
    · exact sendResponseTo_aside (updS_aside h)

theorem handleExn_aside {e : Exn} {g : Option Guard} (h : Aside v tm.cview) :
    Aside v (handleExn env tm e g rnd).1.cview := by
  unfold handleExn
  split
  · exact .andThen (sendResponse_aside h) fun _ h => h
  · exact sendResponse_aside h
  · exact h

end Server
end TM

def CTr.open (t : CTr) : Prop := t.state = .trying ∨ t.state = .ringing

def CTr.stopped (t : CTr) : CTr :=
  { t with teA := if t.state = .trying then t.teA.cancel else t.teA, teB := t.teB.cancel }

def CTr.rung (pending : Bool → Bool) (t : CTr) : CTr :=
  { t.stopped with
    state := .ringing, cancelPending := pending t.cancelPending, teB := t.teB.cancel.arm }

theorem CTr.rung_eq (pending : Bool → Bool) : CTr.rung pending = fun t => { t.stopped with
    state := .ringing, cancelPending := pending t.cancelPending, teB := t.teB.cancel.arm } := rfl

/-- Changes of what the upper layer may set. -/
structure CTr.Same (t t' : CTr) : Prop where
  tid : t'.tid = t.tid := by rfl
  state : t'.state = t.state := by rfl
  userv : t'.userv = t.userv := by rfl
  needack : t'.needack = t.needack := by rfl
  ack : t'.ack = none ↔ t.ack = none := by rfl
  respCb : t'.respCb = true → t.respCb = true := by exact id
  r408 : t'.r408 = t.r408 := by rfl
  cancel : t'.cancel.map Req.method = t.cancel.map Req.method := by rfl
  uack : t.uack = true → t'.uack = true := by exact id
  ackRAddr : t'.ackRAddr = t.ackRAddr := by rfl
  ackChecksum : t'.ackChecksum = t.ackChecksum := by rfl
  teA : t'.teA = t.teA := by rfl
  teB : t'.teB = t.teB := by rfl
  teC : t'.teC = t.teC := by rfl
  teG : t'.teG = t.teG := by rfl

/-- A transaction as `newTransaction` stores it. -/
structure CTr.Fresh (t : CTr) (k : CTid) : Prop where
  tid : t.tid = some k
  state : t.state = .trying
  userv : t.userv ≠ none
  ack : t.needack = true → t.ack ≠ none
  r408 : ∀ r, t.r408 = some r → ∃ msg : Req, r = msg.genResponse 408 TM.requestTimeout []
  cancel : ∀ r, t.cancel = some r → r.method = .cancel
  ackRAddr : t.ackRAddr = none
  teA : t.teA = Timer.off.arm
  teB : t.teB = Timer.off.arm
  teC : t.teC = .off
  teG : t.teG = .off

/-- The response of a datagram that has arrived, with its Contact fixed up. -/
def Answered (env : Env) (log : List Act) (resp : Resp) : Prop :=
  ∃ data received contacts, .arrived data ∈ log ∧ env.parseResp data = some received ∧
    resp = { received with contacts := contacts }

def SumOfResponse (env : Env) (log : List Act) (checksum : Text) : Prop :=
  ∃ data, .arrived data ∈ log ∧ env.md5 data = checksum ∧
    Lib.Text.startsWith data TM.sip20 = true

def CView.started (v : CView) (t : CTr) (k : CTid) : CView :=
  { v with
    cheap := Function.update v.cheap v.cnext t
    cnext := v.cnext + 1
    tclient := v.tclient.set k v.cnext }

def AckSent (c : ℕ) (needack : Bool) (as : List Act) : Prop :=
  if needack then ∃ u data addr, as = [.sent (.ack c) u data addr] else as = []

inductive CMove (env : Env) (m : CMode) : CView → CView → Prop
  | aside {v w : CView} (h : Aside v w) : CMove env m v w
  | returned {v : CView} (c : ℕ)
      (hcb : v.cb = some (.provisional c) ∨ v.cb = some (.timeout c)) :
      CMove env m v { v with cb := none }
  | start {v : CView} (t : CTr) (k : CTid) (ht : t.Fresh k) (hfree : v.tclient k = none) :
      CMove env m v (v.started t k)
  | touch {v : CView} (c : ℕ) (f : CTr → CTr) (hf : (v.cheap c).Same (f (v.cheap c))) :
      CMove env m v { v with cheap := modifyAt v.cheap c f }
  | ring {v : CView} (c : ℕ) (pending : Bool → Bool) (hcb : v.cb = none)
      (hs : (v.cheap c).open) (htid : (v.cheap c).tid ≠ none) :
      CMove env m v { v with
        cheap := modifyAt v.cheap c (CTr.rung pending) }
  | tell {v : CView} (c : ℕ) (resp : Resp) (hcb : v.cb = none)
      (hs : (v.cheap c).state = .ringing) (htid : (v.cheap c).tid ≠ none)
      (hcode : resp.scode < 200) (horigin : Answered env v.log resp) :
      CMove env m v { v with
        cb := some (.provisional c)
        log := v.log ++ [.response c resp] }
  | stall {v : CView} (c : ℕ) (state : TState → TState) (ack : Option Req) (hcb : v.cb = none)
      (hs : (v.cheap c).open) (htid : (v.cheap c).tid ≠ none)
      (hstate : state = id ∨ state = fun _ => .ringing)
      (hack : (v.cheap c).ack ≠ none → ack ≠ none) (hcalm : ¬ m.calm) :
      CMove env m v { v with
        cheap := modifyAt v.cheap c fun t =>
          { t.stopped with state := state t.state, ack := ack } }
  | answer {v : CView} (c : ℕ) (ack : Option Req) (as : List Act) (resp : Resp)
      (hcb : v.cb = none) (hs : (v.cheap c).open) (htid : (v.cheap c).tid ≠ none)
      (hack : (v.cheap c).ack ≠ none → ack ≠ none) (hcode : 200 ≤ resp.scode)
      (horigin : Answered env v.log resp) (has : AckSent c (v.cheap c).needack as) :
      CMove env m v { v with
        cheap := modifyAt v.cheap c fun t => { t.stopped with ack := ack }
        cb := some (.final c resp)
        log := v.log ++ (as ++ [.response c resp]) }
  | answerMute {v : CView} (c : ℕ) (k : CTid) (ack : Option Req) (as : List Act)
      (hcb : v.cb = none) (hs : (v.cheap c).open) (htid : (v.cheap c).tid = some k)
      (has : AckSent c (v.cheap c).needack as) :
      CMove env m v { v with
        cheap := modifyAt v.cheap c fun t => CTr.cleanup { t.stopped with ack := ack }
        tclient := v.tclient.del k
        log := v.log ++ (as ++ [.removed c]) }
  | defer {v : CView} (c : ℕ) (ack : Req) (addr : TAddr) (checksum : Text) (cb : Option Frame)
      (as : List Act) (hcb : v.cb = none) (hs : (v.cheap c).open) (htid : (v.cheap c).tid ≠ none)
      (huack : (v.cheap c).uack = true) (horigin : SumOfResponse env v.log checksum)
      (has : (cb = none ∧ as = []) ∨ ∃ resp, 200 ≤ resp.scode ∧ Answered env v.log resp ∧
        cb = some (.final c resp) ∧ as = [.response c resp]) :
      CMove env m v { v with
        cheap := modifyAt v.cheap c fun t => { t.stopped with
          ack := some ack, state := .uack, ackRAddr := some addr, ackChecksum := checksum,
          teG := t.teG.arm }
        cb := cb
        log := v.log ++ as }
  | finish {v : CView} (c : ℕ) (resp : Resp) (k : CTid) (hcb : v.cb = some (.final c resp))
      (hs : (v.cheap c).state ≠ .uack) (htid : (v.cheap c).tid = some k) :
      CMove env m v { v with
        cheap := modifyAt v.cheap c CTr.cleanup
        tclient := v.tclient.del k
        cb := none
        log := v.log ++ [.removed c] }
  | finishLost {v : CView} (c : ℕ) (resp : Resp) (hcb : v.cb = some (.final c resp))
      (hs : (v.cheap c).state = .uack ∨ (v.cheap c).tid = none ∨ ¬ m.returns) :
      CMove env m v { v with cb := none }
  | expireB {v : CView} (c : ℕ) (cb : Option Frame) (as : List Act) (hcb : v.cb = none)
      (hlive : 0 < (v.cheap c).teB.live)
      (has : (cb = none ∧ as = []) ∨ ∃ resp, (v.cheap c).r408 = some resp ∧
        cb = some (.timeout c) ∧ as = [.response c resp]) :
      CMove env m v { v with
        cheap := modifyAt v.cheap c fun t => { t with
          teB := t.teB.fire, teA := t.teA.cancel, state := .terminated, teC := t.teC.arm }
        cb := cb
        log := v.log ++ as }
  | expireC {v : CView} (c : ℕ) (k : CTid) (hlive : 0 < (v.cheap c).teC.live)
      (htid : (v.cheap c).tid = some k) :
      CMove env m v { v with
        cheap := modifyAt v.cheap c fun t => CTr.cleanup { t with teC := t.teC.fire }
        tclient := v.tclient.del k
        log := v.log ++ [.removed c] }
  | expireCLost {v : CView} (c : ℕ) (hlive : 0 < (v.cheap c).teC.live)
      (htid : (v.cheap c).tid = none) :
      CMove env m v { v with cheap := modifyAt v.cheap c fun t => { t with teC := t.teC.fire } }
  | expireA {v : CView} (c : ℕ) (rearm : Timer → Timer) (hlive : 0 < (v.cheap c).teA.live)
      (hr : rearm = id ∨ rearm = Timer.arm) :
      CMove env m v { v with
        cheap := modifyAt v.cheap c fun t => { t with teA := rearm t.teA.fired } }
  | expireG {v : CView} (c : ℕ) (hlive : 0 < (v.cheap c).teG.live) :
      CMove env m v { v with cheap := modifyAt v.cheap c fun t => { t with teG := t.teG.fire } }
  | sendAckEarly {v : CView} (c : ℕ) (haddr : (v.cheap c).ackRAddr = none) :
      CMove env m v { v with log := v.log ++ [.callSendACK c] }
  | sendAckFailed {v : CView} (c : ℕ) (haddr : (v.cheap c).ackRAddr ≠ none) :
      CMove env m v { v with
        cheap := modifyAt v.cheap c fun t => { t with teG := t.teG.cancel }
        log := v.log ++ [.callSendACK c] }
  | sendAck {v : CView} (c : ℕ) (k : CTid) (u : Server) (ack : Req) (addr : TAddr)
      (haddr : (v.cheap c).ackRAddr = some addr) (hack : (v.cheap c).ack = some ack)
      (htid : (v.cheap c).tid = some k) :
      CMove env m v { v with
        cheap := modifyAt v.cheap c fun t => CTr.cleanup { t with teG := t.teG.cancel }
        tclient := v.tclient.del k
        log := v.log ++ [.callSendACK c,
          .sent (.sendACK c) u (env.reqStr ack u (v.cheap c).compact) addr, .removed c] }
  | sendAckLost {v : CView} (c : ℕ) (u : Server) (data : Text) (addr : TAddr)
      (haddr : (v.cheap c).ackRAddr ≠ none) (htid : (v.cheap c).tid = none)
      (hack : (v.cheap c).ack ≠ none) :
      CMove env m v { v with
        cheap := modifyAt v.cheap c fun t => { t with teG := t.teG.cancel }
        log := v.log ++ [.callSendACK c, .sent (.sendACK c) u data addr] }

abbrev CMoves (env : Env) (m : CMode) : CView → CView → Prop := Relation.ReflTransGen (CMove env m)

theorem CMoves.then {env : Env} {m : CMode} {v w x : CView} (h : CMoves env m v w)
    (hm : CMove env m w x) : CMoves env m v x := Relation.ReflTransGen.tail h hm

/-- Transactions are stored under their identifier until they are cleaned up. -/
structure CView.Linked (v : CView) : Prop where
  keyed : ∀ k c, v.tclient k = some c ↔ (v.cheap c).tid = some k
  beyond : ∀ c, v.cnext ≤ c → (v.cheap c).tid = none

namespace TM
section Client
variable {m : CMode} {v : CView} {tm : TM} {env : Env} {c : ℕ} {resp : Resp} {checksum rnd : Text}

/-- `newTransaction` either raises with nothing changed or stores a transaction. -/
theorem newTransaction_cases (env : Env) (tm : TM) (msg : Option Req) (respCb compact : Bool)
    (userv : Except Exn Server) :
    ((newTransaction env tm msg respCb compact userv).1 = tm ∧
      (newTransaction env tm msg respCb compact userv).2 ≠ none) ∨
    ∃ t k, t.Fresh k ∧ tm.tclient k = none ∧
      (newTransaction env tm msg respCb compact userv).1.cb = tm.cb ∧
      Aside (tm.cview.started t k) (newTransaction env tm msg respCb compact userv).1.cview := by
  unfold newTransaction
  split
  · exact .inl ⟨rfl, by simp [raise]⟩
  · rename_i msg
    split
    · exact .inl ⟨rfl, by simp [raise]⟩
    · rename_i hfree
      split
      · exact .inl ⟨rfl, by simp [raise]⟩
      · exact .inl ⟨rfl, by simp [raise]⟩
      · exact .inl ⟨rfl, by simp [raise]⟩
      · exact .inl ⟨rfl, by simp [raise]⟩
      · rename_i target u expires ack htarget hexpires hack
        refine .inr ⟨_, msg.ctid, ?_, by simpa using hfree, transmitData_cb ..,
          transmitData_aside rfl (Aside.refl _)⟩
        refine ⟨rfl, rfl, by simp, fun hneed => ?_, fun r hr => ?_, fun r hr => ?_, rfl, rfl, rfl,
          rfl, rfl⟩
        · simp only [decide_eq_true_eq] at hneed
          simp only [preparedAck, hneed, if_true] at hack
          rintro rfl
          cases hgen : msg.genACK <;> simp [hgen, Except.map] at hack
        · cases respCb with
          | false => simp at hr
          | true => exact ⟨msg, by simpa using hr.symm⟩
        · by_cases hinvite : msg.method = .invite
          · simp only [hinvite, if_true, Option.some.injEq] at hr
            rw [← hr]
            rfl
          · simp [hinvite] at hr

theorem newTransaction_cmoves {msg : Option Req} {respCb compact : Bool}
    {userv : Except Exn Server} (h : CMoves env m v tm.cview) :
    CMoves env m v (newTransaction env tm msg respCb compact userv).1.cview := by
  rcases newTransaction_cases env tm msg respCb compact userv with ⟨heq, -⟩ | ⟨t, k, ht, hk, -, has⟩
  · rw [heq]; exact h
  · exact (h.then (.start t k ht hk)).then (.aside has)

theorem cancelTransaction_cmoves {eh : Option Text} (h : CMoves env m v tm.cview) :
    CMoves env m v (cancelTransaction env tm c eh).1.cview := by
  unfold cancelTransaction
  split
  · exact h.then (.touch c (fun t => { t with cancelPending := true }) {})
  · dsimp only
    split
    · exact newTransaction_cmoves h
    · rename_i eh
      have htouch : CMoves env m v (tm.updC c fun t => { t with
          cancel := t.cancel.map fun r => { r with rest := r.rest ++ eh } }).cview :=
        h.then (.touch c (fun t => { t with
          cancel := t.cancel.map fun r => { r with rest := r.rest ++ eh } })
          { cancel := by simp [Function.comp_def] })
      exact newTransaction_cmoves htouch

theorem sendACK_cmoves (hlink : tm.cview.Linked) (h : CMoves env m v tm.cview) :
    CMoves env m v (sendACK env tm c).1.cview := by
  simp only [sendACK]
  split
  · rename_i haddr
    exact h.then (.sendAckEarly c haddr)
  · rename_i addr haddr
    have haddr : (tm.cheap c).ackRAddr = some addr := haddr
    have hfail : CMoves env m v ((tm.record (.callSendACK c)).updC c fun t =>
        { t with teG := t.teG.cancel }).cview :=
      h.then (.sendAckFailed c (by simp [cview, haddr]))
    split
    · rename_i u ack hu hack
      simp only [updC, record, Lib.modifyAt_same] at hu hack
      unfold transmitData
      split
      · exact hfail
      · dsimp only [ok]
        cases htid : (tm.cheap c).tid with
        | none =>
          have hmove := h.then (.sendAckLost c u (env.reqStr ack u (tm.cheap c).compact) addr
            (by simp [cview, haddr]) htid (by simp [cview, hack]))
          simpa [Out.andThen, removeClient, updC, record, htid, raise, cview] using hmove
        | some k =>
          have hk : tm.tclient k = some c := (hlink.keyed k c).mpr htid
          have hmove := h.then (.sendAck c k u ack addr haddr hack htid)
          simpa [Out.andThen, removeClient, updC, record, htid, hk, ok, cview] using hmove
    · exact hfail

theorem clientTimerA_cmoves (hlive : 0 < (tm.cheap c).teA.live) (h : CMoves env m v tm.cview) :
    CMoves env m v (clientTimerA env tm c).1.cview := by
  have hmissed : CMoves env m v (tm.updC c fun t => { t with teA := t.teA.fired }).cview :=
    h.then (.expireA c id hlive (.inl rfl))
  simp only [clientTimerA]
  split
  · exact hmissed
  · rename_i u hu
    unfold transmitData
    split
    · exact hmissed
    · have hmove := (h.then (.expireA c Timer.arm hlive (.inr rfl))).then
        (.aside ((Aside.refl _).record (a := .sent (.retransmit c) u (tm.cheap c).data
          (tm.cheap c).address) rfl))
      simpa [Out.andThen, updC, record, ok, cview] using hmove

theorem timerB_cmoves (hcb : tm.cb = none) (hlive : 0 < (tm.cheap c).teB.live)
    (h : CMoves env m v tm.cview) : CMoves env m v (timerB tm c).1.cview := by
  have hmute := h.then (.expireB c none [] hcb hlive (.inl ⟨rfl, rfl⟩))
  unfold timerB
  dsimp only
  split
  · simpa [updC, ok, cview, hcb] using hmute
  · rename_i r408 hr
    simp only [updC, Lib.modifyAt_same] at hr
    unfold notify
    split
    · exact h.then (.expireB c (some (.timeout c)) [.response c r408] hcb hlive
        (.inr ⟨r408, hr, rfl, rfl⟩))
    · simpa [updC, ok, cview, hcb] using hmute

theorem timerC_cmoves (hlink : tm.cview.Linked) (hlive : 0 < (tm.cheap c).teC.live)
    (h : CMoves env m v tm.cview) : CMoves env m v (timerC tm c).1.cview := by
  unfold timerC
  cases htid : (tm.cheap c).tid with
  | none =>
    simpa [removeClient, updC, htid, raise, cview] using h.then (.expireCLost c hlive htid)
  | some k =>
    have hk : tm.tclient k = some c := (hlink.keyed k c).mpr htid
    simpa [removeClient, updC, record, htid, hk, ok, cview] using h.then (.expireC c k hlive htid)

theorem afterFinal_cmoves (hlink : tm.cview.Linked) (hcb : tm.cb = some (.final c resp))
    (h : CMoves env m v tm.cview) :
    CMoves env m v (afterFinal { tm with cb := none } c).1.cview := by
  unfold afterFinal
  split
  · rename_i hs
    exact h.then (.finishLost c resp hcb (.inl hs))
  · rename_i hs
    cases htid : (tm.cheap c).tid with
    | none =>
      simpa [removeClient, htid, raise, cview] using
        h.then (.finishLost c resp hcb (.inr (.inl htid)))
    | some k =>
      have hk : tm.tclient k = some c := (hlink.keyed k c).mpr htid
      simpa [removeClient, updC, record, htid, hk, ok, cview] using
        h.then (.finish c resp k hcb hs htid)

/-- The outcomes of `acknowledge`: it raises, transmits the ACK or defers it. -/
theorem acknowledge_cases (env : Env) (tm : TM) (c : ℕ) (resp : Resp) (checksum rnd : Text) :
    (∃ ack, ((tm.cheap c).ack ≠ none → ack ≠ none) ∧
      (acknowledge env tm c resp checksum rnd).1 = tm.updC c (fun t => { t with ack := ack }) ∧
      (acknowledge env tm c resp checksum rnd).2 ≠ none) ∨
    (∃ ack u data addr,
      (acknowledge env tm c resp checksum rnd).1.cview =
        ((tm.updC c fun t => { t with ack := some ack }).record (.sent (.ack c) u data addr)).cview ∧
      (acknowledge env tm c resp checksum rnd).2 = none) ∨
    ∃ ack addr, (tm.cheap c).uack = true ∧
      (acknowledge env tm c resp checksum rnd).1.cview = (tm.updC c fun t => { t with
        ack := some ack, state := .uack, ackRAddr := some addr, ackChecksum := checksum,
        teG := t.teG.arm }).cview ∧
      (acknowledge env tm c resp checksum rnd).2 = none := by
  have hself : tm.updC c (fun t => { t with ack := (tm.cheap c).ack }) = tm := by
    simp [updC, modifyAt]
  unfold acknowledge
  split
  · exact .inl ⟨(tm.cheap c).ack, id, hself.symm, by simp [raise]⟩
  · rename_i ack u tag hack hu htag
    dsimp only
    split
    · exact .inl ⟨some (tagAck tag ack), by simp, rfl, by simp [raise]⟩
    · rename_i ack' addr hroute
      simp only [dispatchAck]
      split
      · unfold transmitData
        split
        · exact .inl ⟨some ack', by simp, by simp [updC, raise], by simp [raise]⟩
        · exact .inr (.inl ⟨ack', u, _, addr, by simp [updC, record, ok, cview]; rfl, rfl⟩)
      · rename_i huack
        exact .inr (.inr ⟨ack', addr, by simpa [updC] using huack,
          by simp [updC, remember, ok, cview], rfl⟩)
  · exact .inl ⟨(tm.cheap c).ack, id, hself.symm, by simp [raise]⟩

/-- The part of `finalResponse` that precedes the callback. -/
def settleAck (env : Env) (tm : TM) (c : ℕ) (resp : Resp) (checksum rnd : Text) : Out :=
  if (tm.cheap c).needack then acknowledge env tm c resp checksum rnd else ok (tm.remember checksum)

theorem finalResponse_cmoves (hcb : tm.cb = none) (hs : (tm.cheap c).open)
    (hlink : tm.cview.Linked) (htid : (tm.cheap c).tid ≠ none) (hcode : 200 ≤ resp.scode)
    (horigin : Answered env tm.log resp) (hsum : SumOfResponse env tm.log checksum)
    (hcalm : m.calm → (settleAck env (tm.updC c CTr.stopped) c resp checksum rnd).2 = none)
    (h : CMoves env m v tm.cview) :
    CMoves env m v (finalResponse env (tm.updC c CTr.stopped) c resp checksum rnd).1.cview := by
  obtain ⟨k, hk⟩ := Option.ne_none_iff_exists'.mp htid
  have hlinked : tm.tclient k = some c := (hlink.keyed k c).mpr hk
  have hstate : (tm.cheap c).state ≠ .uack := by rcases hs with hs | hs <;> simp [hs]
  -- what follows once the ACK is out, if there is one to send
  have hanswer : ∀ (tm' : TM) (ack : Option Req) (as : List Act),
      ((tm.cheap c).ack ≠ none → ack ≠ none) → AckSent c (tm.cheap c).needack as →
      tm'.cview = { tm.cview with
        cheap := modifyAt tm.cheap c fun t => { t.stopped with ack := ack }
        log := tm.log ++ as } →
      CMoves env m v (notify tm' c resp (.final c resp) fun tm => tm.afterFinal c).1.cview := by
    intro tm' ack as hack has hview
    have hcheap : tm'.cheap = _ := congrArg CView.cheap hview
    have hcnext : tm'.cnext = _ := congrArg CView.cnext hview
    have htclient : tm'.tclient = _ := congrArg CView.tclient hview
    have hcb' : tm'.cb = _ := congrArg CView.cb hview
    have hlog : tm'.log = _ := congrArg CView.log hview
    have hstate' : ((tm.cheap c).stopped).state ≠ .uack := hstate
    have hk' : ((tm.cheap c).stopped).tid = some k := hk
    unfold notify
    split
    · have hmove := h.then (.answer c ack as resp hcb hs htid hack hcode horigin has)
      simpa [ok, call, record, cview, hcheap, hcnext, htclient, hcb', hlog] using hmove
    · have hmove := h.then (.answerMute c k ack as hcb hs hk has)
      simpa [afterFinal, removeClient, hcheap, hcnext, htclient, hcb', hlog, hstate', hk', hlinked,
        ok, updC, record, cview] using hmove
  unfold finalResponse
  by_cases hneed : (tm.cheap c).needack = true
  · have hneed' : ((tm.updC c CTr.stopped).cheap c).needack = true := by
      simpa [updC, CTr.stopped] using hneed
    simp only [hneed', if_true]
    rcases acknowledge_cases env (tm.updC c CTr.stopped) c resp checksum rnd with
      ⟨ack, hack, hfst, hsnd⟩ | ⟨ack, u, data, addr, hview, hsnd⟩ | ⟨ack, addr, huack, hview, hsnd⟩
    · have hcalm' : ¬ m.calm := fun hm => hsnd (by simpa [settleAck, hneed'] using hcalm hm)
      have hmove := h.then (.stall c id ack hcb hs htid (.inl rfl)
        (by simpa [updC, CTr.stopped, cview] using hack) hcalm')
      unfold Out.andThen
      split
      · rename_i hnone
        exact absurd hnone hsnd
      · rw [hfst]
        simpa [updC, cview, CTr.stopped] using hmove
    · simp only [Out.andThen, hsnd]
      refine hanswer _ (some ack) [.sent (.ack c) u data addr] (by simp)
        (by simp [AckSent, hneed]) ?_
      rw [hview]
      simp [updC, record, cview]
    · have huack : (tm.cheap c).uack = true := by simpa [updC, CTr.stopped] using huack
      simp only [Out.andThen, hsnd]
      generalize (acknowledge env (tm.updC c CTr.stopped) c resp checksum rnd).1 = tm' at hview
      have hcheap : tm'.cheap = _ := congrArg CView.cheap hview
      have hcnext : tm'.cnext = _ := congrArg CView.cnext hview
      have htclient : tm'.tclient = _ := congrArg CView.tclient hview
      have hcb' : tm'.cb = _ := congrArg CView.cb hview
      have hlog : tm'.log = _ := congrArg CView.log hview
      unfold notify
      split
      · have hmove := h.then (.defer c ack addr checksum (some (.final c resp)) [.response c resp]
          hcb hs htid huack hsum (.inr ⟨resp, hcode, horigin, rfl, rfl⟩))
        simpa [ok, call, record, updC, cview, hcheap, hcnext, htclient, hcb', hlog, CTr.stopped]
          using hmove
      · have hmove := h.then (.defer c ack addr checksum none [] hcb hs htid huack hsum
          (.inl ⟨rfl, rfl⟩))
        simpa [afterFinal, ok, updC, cview, hcheap, hcnext, htclient, hcb', hlog, hcb, CTr.stopped]
          using hmove
  · have hneed' : ((tm.updC c CTr.stopped).cheap c).needack = false := by
      simpa [updC, CTr.stopped] using hneed
    simp only [hneed']
    refine hanswer _ (tm.cheap c).ack [] id (by simp [AckSent, hneed]) ?_
    simp [updC, remember, cview, ok, CTr.stopped, modifyAt]

def ringEnd (tm : TM) (c : ℕ) (resp : Resp) (checksum : Text) : Out :=
  notify ((tm.updC c fun t => { t with teB := t.teB.arm }).remember checksum) c resp
    (.provisional c) ok

theorem ringEnd_cmoves {tm' : TM} {w : CView} {p : Bool → Bool}
    (hcb : tm.cb = none) (hs : (tm.cheap c).open) (htid : (tm.cheap c).tid ≠ none)
    (hcode : resp.scode < 200) (horigin : Answered env tm.log resp)
    (hw : w = { tm.cview with cheap := modifyAt tm.cheap c (CTr.rung p) })
    {x : CView} (hx : CMoves env m w x) (hcheap : x.cheap c = w.cheap c) (hxcb : x.cb = none)
    (hlog : ∃ as, x.log = tm.log ++ as)
    (hview : (tm'.updC c fun t => { t with teB := t.teB.arm }).cview = x)
    (h : CMoves env m v tm.cview) : CMoves env m v (ringEnd tm' c resp checksum).1.cview := by
  have hring : CMoves env m v w := hw ▸ h.then (.ring c p hcb hs htid)
  have hall : CMoves env m v x := hring.trans hx
  unfold ringEnd notify
  split
  · obtain ⟨as, hlog⟩ := hlog
    have hc : x.cheap c = CTr.rung p (tm.cheap c) := by rw [hcheap, hw]; simp
    have horigin' : Answered env x.log resp := by
      obtain ⟨data, received, contacts, hmem, hrest⟩ := horigin
      exact ⟨data, received, contacts, by rw [hlog]; exact List.mem_append_left _ hmem, hrest⟩
    have hmove := hall.then (.tell c resp hxcb (by rw [hc]; rfl) (by rw [hc]; exact htid) hcode
      horigin')
    rw [← hview] at hmove
    exact hmove
  · rw [← hview] at hall
    exact hall

theorem provisional_cmoves (hcb : tm.cb = none) (hs : (tm.cheap c).open)
    (hlink : tm.cview.Linked) (htid : (tm.cheap c).tid ≠ none) (hcode : resp.scode < 200)
    (horigin : Answered env tm.log resp)
    (hcalm : m.calm → (tm.cheap c).state = .trying → (tm.cheap c).cancelPending = true →
      (startCancel env ((tm.updC c CTr.stopped).updC c fun t => { t with state := .ringing })
        c).2 = none)
    (h : CMoves env m v tm.cview) :
    CMoves env m v (provisional env (tm.updC c CTr.stopped) c resp checksum).1.cview := by
  have hlt : c < tm.cnext := by
    by_contra hge
    exact htid (hlink.beyond c (Nat.not_lt.mp hge))
  unfold provisional
  by_cases htry : (tm.cheap c).state = .trying
  · have htry' : ((tm.updC c CTr.stopped).cheap c).state = .trying := by
      simpa [updC, CTr.stopped] using htry
    simp only [htry', if_true]
    by_cases hpend : (tm.cheap c).cancelPending = true
    · have hpend' : (((tm.updC c CTr.stopped).updC c fun t => { t with
          state := TState.ringing }).cheap c).cancelPending = true := by
        simpa [updC, CTr.stopped] using hpend
      simp only [hpend', if_true]
      have hcalm := fun hm => hcalm hm htry hpend
      have hstall : ¬ m.calm → CMoves env m v ((tm.updC c CTr.stopped).updC c fun t =>
          { t with state := .ringing }).cview := by
        intro hm
        have hmove := h.then (.stall c (fun _ => .ringing) (tm.cheap c).ack hcb hs htid (.inr rfl)
          id hm)
        have hsame : modifyAt tm.cheap c (fun t => { t.stopped with
            state := .ringing, ack := (tm.cheap c).ack }) =
            modifyAt tm.cheap c (fun t => { t.stopped with state := .ringing }) :=
          Lib.modifyAt_congr rfl
        simpa [updC, cview, hsame] using hmove
      unfold startCancel at hcalm ⊢
      rcases newTransaction_cases env ((tm.updC c CTr.stopped).updC c fun t => { t with
        state := TState.ringing }) _ false false _ with ⟨hfst, hsnd⟩ | ⟨t, k, ht, hk, hcb', has⟩
      · have hm : ¬ m.calm := fun hm => hsnd (hcalm hm)
        obtain ⟨e, he⟩ := Option.ne_none_iff_exists'.mp hsnd
        simp only [Out.andThen, he, hfst]
        exact hstall hm
      · generalize newTransaction env ((tm.updC c CTr.stopped).updC c fun t => { t with
          state := TState.ringing }) _ false false _ = r at hcalm hcb' has ⊢
        cases hr : r.2 with
        | some e =>
          have hm : ¬ m.calm := fun hm => by simp [hr] at hcalm; exact hcalm hm
          simp only [Out.andThen, hr]
          exact ((hstall hm).then (.start t k ht hk)).then (.aside has)
        | none =>
          simp only [Out.andThen, hr]
          have hne : c ≠ tm.cnext := Nat.ne_of_lt hlt
          refine ringEnd_cmoves (w := { tm.cview with
              cheap := modifyAt tm.cheap c (CTr.rung fun _ => false) }) hcb hs htid hcode horigin
            rfl (.tail (.tail .refl (.start t k ht hk)) (.aside ?_)) ?_ ?_ ?_ rfl h
          · refine ⟨?_, has.cnext, has.tclient, has.cb, has.log⟩
            have hcheap := has.cheap
            simp only [cview, CView.started, updC, ok] at hcheap ⊢
            rw [hcheap, Lib.modifyAt_update_of_ne _ _ _ hne, Lib.modifyAt_update_of_ne _ _ _ hne]
            simp [CTr.rung_eq, CTr.stopped]
          · have hcheap := has.cheap
            simp only [cview, CView.started, updC, ok] at hcheap ⊢
            rw [hcheap, Lib.modifyAt_update_of_ne _ _ _ hne, Lib.modifyAt_update_of_ne _ _ _ hne]
            simp [Function.update_of_ne hne, CTr.rung_eq, CTr.stopped]
          · exact hcb'.trans hcb
          · obtain ⟨as, -, hlog⟩ := has.log
            exact ⟨as, hlog⟩
    · have hpend' : (((tm.updC c CTr.stopped).updC c fun t => { t with
          state := TState.ringing }).cheap c).cancelPending = false := by
        simpa [updC, CTr.stopped] using hpend
      simp only [hpend']
      exact ringEnd_cmoves (p := id) hcb hs htid hcode horigin rfl .refl rfl hcb ⟨[], by
        simp [cview]⟩ (by simp [updC, cview, ok, CTr.rung_eq, CTr.stopped]) h
  · have htry' : ((tm.updC c CTr.stopped).cheap c).state ≠ .trying := by
      simpa [updC, CTr.stopped] using htry
    simp only [htry', if_false]
    have hring : (tm.cheap c).state = .ringing := hs.resolve_left htry
    refine ringEnd_cmoves (p := id) hcb hs htid hcode horigin rfl .refl rfl hcb ⟨[], by
      simp [cview]⟩ ?_ h
    have hsame : modifyAt tm.cheap c (fun t => { t.stopped with teB := t.teB.cancel.arm }) =
        modifyAt tm.cheap c (CTr.rung id) := Lib.modifyAt_congr (by
      simp [CTr.rung_eq, CTr.stopped, hring])
    simp [updC, cview, ok, ← hsame, CTr.stopped]

/-- Nothing raises before the upper layer learns of the response. -/
structure Undisturbed (env : Env) (tm : TM) (c : ℕ) (resp : Resp) (checksum rnd : Text) : Prop where
  ack : 200 ≤ resp.scode → (settleAck env (tm.updC c CTr.stopped) c resp checksum rnd).2 = none
  cancel : resp.scode < 200 → (tm.cheap c).state = .trying → (tm.cheap c).cancelPending = true →
    (startCancel env ((tm.updC c CTr.stopped).updC c fun t => { t with state := .ringing })
      c).2 = none

theorem incomingResponse_cmoves (hcb : tm.cb = none) (hlink : tm.cview.Linked)
    (htid : (tm.cheap c).tid ≠ none) (horigin : Answered env tm.log resp)
    (hsum : SumOfResponse env tm.log checksum)
    (hcalm : m.calm → (tm.cheap c).open → Undisturbed env tm c resp checksum rnd)
    (h : CMoves env m v tm.cview) :
    CMoves env m v (incomingResponse env tm c resp checksum rnd).1.cview := by
  unfold incomingResponse
  dsimp only
  split
  · rename_i hs
    split
    · rename_i hcode
      exact provisional_cmoves hcb hs hlink htid hcode horigin
        (fun hm => (hcalm hm hs).cancel hcode) h
    · rename_i hcode
      exact finalResponse_cmoves hcb hs hlink htid (by omega) horigin hsum
        (fun hm => (hcalm hm hs).ack (by omega)) h
  · exact h

theorem fixResponse_eq {ra : RemoteAddress} {fixed : Resp}
    (h : fixResponse tm c ra resp = .ok fixed) :
    ∃ contacts, fixed = { resp with contacts := contacts } := by
  simp only [fixResponse, Except.bind, Except.map] at h
  split at h
  · cases h
  · split at h
    · cases h
    · cases h; exact ⟨_, rfl⟩

def Matches (env : Env) (tm : TM) (dg : Dgram) (c : ℕ) (resp : Resp) : Prop :=
  ∃ received, env.parseResp dg.data = some received ∧ tm.tclient received.ctid = some c ∧
    fixResponse tm c dg.ra received = .ok resp

theorem handleResponse_cmoves {dg : Dgram} (hcb : tm.cb = none) (hlink : tm.cview.Linked)
    (harr : .arrived dg.data ∈ tm.log) (hsip : Lib.Text.startsWith dg.data sip20 = true)
    (hcalm : m.calm → ∀ c resp, Matches env tm dg c resp → (tm.cheap c).open →
      Undisturbed env tm c resp (env.md5 dg.data) dg.rnd)
    (h : CMoves env m v tm.cview) :
    CMoves env m v (handleResponse env tm dg (env.md5 dg.data)).1.cview := by
  unfold handleResponse
  split
  · exact h
  · rename_i received hparse
    split
    · exact h
    · split
      · exact h
      · rename_i c hc
        split
        · exact h
        · rename_i resp hfix
          obtain ⟨contacts, hresp⟩ := fixResponse_eq hfix
          refine incomingResponse_cmoves hcb hlink ?_ ⟨dg.data, received, contacts, harr, hparse,
            hresp⟩ ⟨dg.data, harr, rfl, hsip⟩
            (fun hm => hcalm hm c resp ⟨received, hparse, hc, hfix⟩) h
          have htid : (tm.cheap c).tid = some received.ctid := (hlink.keyed _ _).mp hc
          simp [htid]

end Client

theorem settle_cmoves {env : Env} {m : CMode} {v : CView} {r : Out}
    (h : CMoves env m v r.1.cview) : CMoves env m v (settle r).cview := by
  unfold settle
  split
  · exact h
  · exact h.then (.aside ((Aside.refl _).record rfl))

section Steps
variable {m : CMode} {tm : TM} {env : Env}

/-- What a mode asks of a step. -/
structure Kept (env : Env) (m : CMode) (tm : TM) (l : Label) : Prop where
  returns : m.returns → ∀ c resp e rnd, tm.cb = some (.final c resp) → l = .ret (.raise e) rnd →
    (tm.cheap c).state = .uack ∨ (tm.cheap c).tid = none
  calm : m.calm → ∀ dg c resp, l = .recv dg → Matches env tm dg c resp → (tm.cheap c).open →
    Undisturbed env (tm.record (.arrived dg.data)) c resp (env.md5 dg.data) dg.rnd

theorem handleIncoming_cmoves {dg : Dgram} (hcb : tm.cb = none) (hlink : tm.cview.Linked)
    (hkept : Kept env m tm (.recv dg)) :
    CMoves env m tm.cview (handleIncoming env tm dg).1.cview := by
  have harr : CMoves env m tm.cview (tm.record (.arrived dg.data)).cview :=
    .single (.aside ((Aside.refl _).record rfl))
  have hnb : ¬ busy tm.cview.cb := by rw [cview, hcb]; exact not_busy_none
  unfold handleIncoming
  dsimp only
  split
  · exact harr
  · split
    · exact harr
    · exact .single (.aside (transmitData_aside rfl ((Aside.refl _).record rfl)))
    · split
      · rename_i hsip
        refine handleResponse_cmoves hcb ⟨hlink.keyed, hlink.beyond⟩ (by simp [record]) hsip
          (fun hm c resp hmatch hs => ?_) harr
        exact hkept.calm hm dg c resp rfl hmatch hs
      · exact .single (.aside (handleRequest_aside hnb ((Aside.refl _).record rfl)))

theorem fire_cmoves {k : TimerId} {i : ℕ} {rnd : Text} (hcb : tm.cb = none)
    (hlink : tm.cview.Linked) : CMoves env m tm.cview (fire env tm k i rnd).cview := by
  have hnb : ¬ busy tm.cview.cb := by rw [cview, hcb]; exact not_busy_none
  have haside : ∀ {r : Out}, Aside tm.cview r.1.cview → CMoves env m tm.cview (settle r).cview :=
    fun h => settle_cmoves (.single (.aside h))
  unfold fire
  cases k with
  | serverA =>
    dsimp only
    split
    · exact haside (timerA_aside (Aside.refl _))
    · exact .refl
  | serverD =>
    dsimp only
    split
    · exact haside (timerD_aside hnb (Aside.refl _))
    · exact .refl
  | serverE =>
    dsimp only
    split
    · exact haside (timerE_aside hnb (Aside.refl _))
    · exact .refl
  | serverF =>
    dsimp only
    split
    · exact haside (timerF_aside (Aside.refl _))
    · exact .refl
  | clientA =>
    dsimp only
    split
    · rename_i hlive; exact settle_cmoves (clientTimerA_cmoves hlive .refl)
    · exact .refl
  | clientB =>
    dsimp only
    split
    · rename_i hlive; exact settle_cmoves (timerB_cmoves hcb hlive .refl)
    · exact .refl
  | clientC =>
    dsimp only
    split
    · rename_i hlive; exact settle_cmoves (timerC_cmoves hlink hlive .refl)
    · exact .refl
  | clientG =>
    dsimp only
    split
    · rename_i hlive
      exact settle_cmoves (r := timerG tm i) (.single (.expireG i hlive))
    · exact .refl

theorem api_cmoves {a : Api} (hlink : tm.cview.Linked) :
    CMoves env m tm.cview (api env tm a).cview := by
  cases a with
  | sendResponse resp t ackCb lossemul rnd =>
    exact .single (.aside (sendResponse_aside (Aside.refl _)))
  | newTransaction msg respCb compact userv => exact newTransaction_cmoves .refl
  | cancelTransaction c eh => exact cancelTransaction_cmoves .refl
  | sendACK c => exact sendACK_cmoves hlink .refl
  | setUack c => exact .single (.touch c (fun t => { t with uack := true }) { uack := fun _ => rfl })
  | setAckBody c body =>
    exact .single (.touch c (fun t => { t with ack := t.ack.map fun r => { r with body := body } })
      { ack := by simp })
  | clearRespCb c =>
    exact .single (.touch c (fun t => { t with respCb := false }) { respCb := by simp })
  | setCompact s compact => exact .refl

theorem ret_cmoves {f : Frame} {r : Ret} {rnd : Text} (hcb : tm.cb = some f)
    (hlink : tm.cview.Linked) (hkept : Kept env m tm (.ret r rnd)) :
    CMoves env m tm.cview (ret env tm f r rnd).cview := by
  have hserver : f.ofClient = false → Aside tm.cview (TM.cview { tm with cb := none }) := by
    intro hf
    exact (Aside.refl _).call (by rw [cview, hcb]; exact not_busy_some hf) not_busy_none
  unfold ret
  cases r with
  | value rval =>
    refine settle_cmoves ?_
    cases f with
    | req s g => exact .single (.aside (afterRequest_aside (hserver rfl)))
    | ack s g => exact .single (.aside (hserver rfl))
    | cancel s g => exact .single (.aside (hserver rfl))
    | noack s => exact .single (.aside (timerDEnd_aside (hserver rfl)))
    | provisional c => exact .single (.returned c (.inl hcb))
    | final c resp => exact afterFinal_cmoves hlink hcb .refl
    | timeout c => exact .single (.returned c (.inr hcb))
  | raise e =>
    have hnone : CMoves env m tm.cview (TM.cview { tm with cb := none }) := by
      cases f with
      | provisional c => exact .single (.returned c (.inl hcb))
      | final c resp =>
        refine .single (.finishLost c resp hcb ?_)
        by_cases hm : m.returns
        · exact (hkept.returns hm c resp e rnd hcb rfl).imp_right .inl
        · exact .inr (.inr hm)
      | timeout c => exact .single (.returned c (.inr hcb))
      | _ => exact .single (.aside (hserver rfl))
    exact settle_cmoves (hnone.then (.aside (handleExn_aside (Aside.refl _))))

theorem step_cmoves {l : Label} (hlink : tm.cview.Linked) (hkept : Kept env m tm l) :
    CMoves env m tm.cview (step env tm l).cview := by
  cases l with
  | recv dg =>
    cases hcb : tm.cb with
    | none => simp only [step, hcb]; exact settle_cmoves (handleIncoming_cmoves hcb hlink hkept)
    | some f => simp only [step, hcb]; exact .refl
  | fire k i rnd =>
    cases hcb : tm.cb with
    | none => simp only [step, hcb]; exact fire_cmoves hcb hlink
    | some f => simp only [step, hcb]; exact .refl
  | purge =>
    cases hcb : tm.cb with
    | none => simp only [step, hcb]; exact .single (.aside ((Aside.refl _).record rfl))
    | some f => simp only [step, hcb]; exact .refl
  | call a => simp only [step]; exact api_cmoves hlink
  | ret r rnd =>
    cases hcb : tm.cb with
    | none => simp only [step, hcb]; exact .refl
    | some f => simp only [step, hcb]; exact ret_cmoves hcb hlink hkept

end Steps
end TM

end SippyB2bua.Manager
