import SippyB2bua.Rtpp.Reply
import SippyB2bua.Rtpp.Session

/-!
# Playing, copying and recording

The operations of a session on its media are chains of commands: what needs a session that is
not there yet sends an update first, and the result of a command starts the next one. The end
of the chain is `result_callback`. The chain breaks where an update fails, as the functions that
take its result do not take the exception that comes with a failure.
-/

namespace SippyB2bua.Rtpp
open Lib (Text Sequencer Along run)
open Sdp

/-- The parameters of `start_recording`. -/
structure Recording where
  rname : Option Text
  index : ℕ
  rflags : Option Text
  onlyA : Bool
  deriving DecidableEq, Repr

/-- The functions that the result of an update is passed to, with what they are bound to. -/
inductive After
  | play (n : SideName) (promptName : Text) (times : ℤ) (index k : ℕ)
  | startRecordingA (r : Recording) (k : ℕ)
  deriving DecidableEq, Repr

/-- What the result of a command is passed to. -/
inductive Next
  | nobody
  /-- The callback of the operation `k`. -/
  | user (k : ℕ)
  /-- An update for a description. -/
  | sdpChange (n : SideName)
  | update (n : SideName) (index : ℕ) (after : After)
  | startRecordingO (r : Recording) (k : ℕ)
  deriving DecidableEq, Repr

structure Task where
  cmd : Cmd
  next : Next
  deriving DecidableEq, Repr

/-- What happens to the operations, which are numbered as they come. -/
inductive MediaNote
  | called (k : ℕ) (result : Option Text)
  /-- A command of the operation other than an update is passed on. -/
  | sent (k : ℕ) (command : Text)
  /-- The update of the operation fails. -/
  | failed (k : ℕ)
  /-- The call of the operation raises. -/
  | raised (k : ℕ) (e : Exn)
  /-- A result raises. -/
  | escaped (e : Exn)
  deriving DecidableEq, Repr

structure Media where
  client : Option Client
  seq : Sequencer Task
  callId : Text
  fromTag : Text
  toTag : Text
  caller : Side
  callee : Side
  maxIndex : ℤ
  notifySocket : Option Text
  notifyTag : Option Text
  mediaTimeoutIndex : Option ℤ
  /-- The callbacks that `callFromThread` has still to call. -/
  thread : List ℕ
  ops : ℕ
  log : List MediaNote

/-- `update_params()` with an index. -/
def plainParams (index : ℕ) : UpdateParams where
  remoteIp := "0.0.0.0".toList
  remotePort := 0
  atype := "IP4".toList
  options := []
  index := index
  subcommands := []
  body := 0
  sect := 0
  sects := []

namespace Media

def session (m : Media) : Session where
  client := m.client
  seq := .empty
  callId := m.callId
  fromTag := m.fromTag
  toTag := m.toTag
  caller := m.caller
  callee := m.callee
  maxIndex := m.maxIndex
  notifySocket := m.notifySocket
  notifyTag := m.notifyTag
  mediaTimeoutIndex := m.mediaTimeoutIndex
  insertNortpp := false
  myAddress := []
  originId := 0
  bodies := []
  log := []

def side (m : Media) (n : SideName) : Side := m.session.side n

def setSide (m : Media) (n : SideName) (x : Side) : Media :=
  match n with
  | .caller => { m with caller := x }
  | .callee => { m with callee := x }

def note (m : Media) (x : MediaNote) : Media := { m with log := m.log ++ [x] }

/-- `rtpp_seq.send_command`. -/
def send (m : Media) (cmd : Cmd) (next : Next) : Media := { m with seq := m.seq.sendCommand ⟨cmd, next⟩ }

/-- A command of the operation `k`. -/
def command (m : Media) (k : ℕ) (text : Text) (next : Next) : Media :=
  (m.note (.sent k text)).send (.other text) next

/-- `' '.join`. -/
def line (ws : List Text) : Text := [' '].intercalate ws

def playCommand (m : Media) (n : SideName) (promptName : Text) (times : ℤ) (index : ℕ) : Text :=
  line ['P' :: Text.ofInt times, m.session.name index, promptName, strValue (m.side n).codecs,
    (m.session.gettags n).1, (m.session.gettags n).2]

def stopCommand (m : Media) (n : SideName) (index : ℕ) : Text :=
  line [['S'], m.session.name index, (m.session.gettags n).1, (m.session.gettags n).2]

def copyCommand (m : Media) (n : SideName) (remoteIp : Text) (remotePort : ℤ) (index : ℕ) : Text :=
  line [['C'], m.session.name index, "udp:".toList ++ remoteIp ++ ':' :: Text.ofInt remotePort,
    (m.session.gettags n).1, (m.session.gettags n).2]

/-- `make_command('a')` without a name; with one, that of the given side. -/
def recordCommand (m : Media) (r : Recording) (n : SideName) : Text :=
  let tags := m.session.gettags n
  match r.rname with
  | none => line ['R' :: strValue r.rflags, m.session.name r.index, tags.1, tags.2]
  | some rname =>
    let suffix := match n with
      | .caller => ".a"
      | .callee => ".o"
    line ['C' :: strValue r.rflags, m.session.name r.index, rname ++ suffix.toList, tags.1, tags.2]

/-- `max_index` covers an index. -/
def raiseIndex (m : Media) (index : ℕ) : Media := { m with maxIndex := max m.maxIndex index }

def askedPort (m : Media) (n : SideName) : Media :=
  m.setSide n.other { m.side n.other with conf := { (m.side n.other).conf with needsNewPort := false } }

/-- `_rtpps_side.update` for an operation. -/
def update (m : Media) (n : SideName) (index : ℕ) (after : After) : Media × Option Exn :=
  let m := m.raiseIndex index
  match m.client with
  | none => (m, some .attributeError)
  | some rtpc =>
    ((m.askedPort n).send (m.session.updateCmd rtpc n (plainParams index)) (.update n index after), none)

/-- `__play`. -/
def playNow (m : Media) (n : SideName) (promptName : Text) (times : ℤ) (index k : ℕ) : Media :=
  m.command k (m.playCommand n promptName times index) (.user k)

def play (m : Media) (n : SideName) (promptName : Text) (times : ℤ) (index k : ℕ) : Media × Option Exn :=
  if (m.side n).sessionExists = false then ({ m with thread := m.thread ++ [k] }, none)
  else if (m.side n.other).sessionExists = false then
    m.update n.other index (.play n promptName times index k)
  else (m.playNow n promptName times index k, none)

def stopPlay (m : Media) (n : SideName) (index k : ℕ) : Media × Option Exn :=
  if (m.side n).sessionExists = false then ({ m with thread := m.thread ++ [k] }, none)
  else (m.command k (m.stopCommand n index) (.user k), none)

/-- `_copy`. Without a session, `up.rtpps` is the side itself, which has no `max_index`. -/
def copy (m : Media) (n : SideName) (remoteIp : Text) (remotePort : ℤ) (index k : ℕ) : Media × Option Exn :=
  if (m.side n).sessionExists = false then (m, some .attributeError)
  else (m.command k (m.copyCommand n remoteIp remotePort index) (.user k), none)

/-- `next_stage` of a recording. -/
def nextStage (r : Recording) (k : ℕ) : Next :=
  if r.onlyA ∨ r.rname = none then .user k else .startRecordingO r k

/-- `_start_recording_a` with a result. -/
def startRecordingA (m : Media) (r : Recording) (k : ℕ) : Media :=
  m.command k (m.recordCommand r .caller) (nextStage r k)

def startRecordingO (m : Media) (r : Recording) (k : ℕ) (result : Option Text) : Media :=
  match result with
  | none => m.note (.called k none)
  | some _ => m.command k (m.recordCommand r .callee) (.user k)

def startRecording (m : Media) (r : Recording) (k : ℕ) : Media × Option Exn :=
  if m.caller.sessionExists = false then m.update .caller r.index (.startRecordingA r k)
  else (m.startRecordingA r k, none)

def after (m : Media) : After → Media
  | .play n promptName times index k => m.playNow n promptName times index k
  | .startRecordingA r k => m.startRecordingA r k

end Media

def After.op : After → ℕ
  | .play _ _ _ _ k => k
  | .startRecordingA _ k => k

namespace Media

/-- `update_result`. The function behind the callback takes no exception: called with one, it
raises. -/
def updateResult (m : Media) (n : SideName) (index : ℕ) (a : After) (result : Option Text) :
    Media × Option Exn :=
  let m := m.setSide n { m.side n with sessionExists := true }
  let o := (plainParams index).process m.client result
  match o.raised, o.calls with
  | none, [.ok _] => (m.after a, none)
  | none, _ => (m.note (.failed a.op), some .typeError)
  | some e, _ => (m.note (.failed a.op), some e)

/-- The function that a result is passed to. -/
def proceed (m : Media) (next : Next) (result : Option Text) : Media × Option Exn :=
  match next with
  | .nobody => (m, none)
  | .user k => (m.note (.called k result), none)
  | .sdpChange n => (m.setSide n { m.side n with sessionExists := true }, none)
  | .update n index a => m.updateResult n index a result
  | .startRecordingO r k => (m.startRecordingO r k result, none)

/-- The result of the command in flight. A sequencer that was deleted goes on deleting itself, if
the callback has come back. -/
def result (m : Media) (r : Option Text) : Media :=
  match m.seq.inflight with
  | none => m
  | some task =>
    let p := { m with seq := m.seq.next }.proceed task.next r
    match p.2 with
    | none => if p.1.seq.deleted then { p.1 with seq := p.1.seq.delete } else p.1
    | some e => p.1.note (.escaped e)

def delete (m : Media) : Media :=
  if m.client.isNone then m
  else
    let indexes := ((List.range (m.maxIndex + 1).toNat).reverse.map Int.ofNat).filter fun i =>
      m.mediaTimeoutIndex != some i
    let m := indexes.foldl (fun m i => m.send (.delete (m.session.name i) m.fromTag m.toTag) .nobody) m
    { m with maxIndex := min m.maxIndex (-1), client := none, seq := m.seq.delete }

def noteRaised (m : Media) (k : ℕ) : Option Exn → Media
  | none => m
  | some e => m.note (.raised k e)

def begin (m : Media) (f : ℕ → Media × Option Exn) : Media :=
  { (f m.ops).1 with ops := m.ops + 1 }.noteRaised m.ops (f m.ops).2

def ofSession (s : Session) : Media where
  client := s.client
  seq := .empty
  callId := s.callId
  fromTag := s.fromTag
  toTag := s.toTag
  caller := s.caller
  callee := s.callee
  maxIndex := s.maxIndex
  notifySocket := s.notifySocket
  notifyTag := s.notifyTag
  mediaTimeoutIndex := s.mediaTimeoutIndex
  thread := []
  ops := 0
  log := []

inductive Label
  | play (n : SideName) (promptName : Text) (times : ℤ) (index : ℕ)
  | stopPlay (n : SideName) (index : ℕ)
  | copy (n : SideName) (remoteIp : Text) (remotePort : ℤ) (index : ℕ)
  | startRecording (r : Recording)
  | result (r : Option Text)
  /-- The event loop makes the next call for a thread. -/
  | dispatch
  /-- An update for a description. -/
  | sdpChange (n : SideName) (cmd : Cmd) (codecs : Option Text)
  | other (cmd : Cmd)
  | configure (n : SideName) (conf : SideConf)
  | client (rtpc : Client)
  | delete

def step (m : Media) : Label → Media
  | .play n promptName times index => m.begin (m.play n promptName times index)
  | .stopPlay n index => m.begin (m.stopPlay n index)
  | .copy n remoteIp remotePort index => m.begin (m.copy n remoteIp remotePort index)
  | .startRecording r => m.begin (m.startRecording r)
  | .result r => m.result r
  | .dispatch =>
    match m.thread with
    | [] => m
    | k :: ks => { m with thread := ks }.note (.called k none)
  | .sdpChange n cmd codecs => (m.setSide n { m.side n with codecs := codecs }).send cmd (.sdpChange n)
  | .other cmd => m.send cmd .nobody
  | .configure n conf => m.setSide n { m.side n with conf := conf }
  | .client rtpc => { m with client := m.client.map fun _ => rtpc }
  | .delete => m.delete

end Media

def Next.op : Next → Option ℕ
  | .nobody => none
  | .user k => some k
  | .sdpChange _ => none
  | .update _ _ a => some a.op
  | .startRecordingO _ k => some k

def Next.asks : Next → Bool
  | .update _ _ _ => true
  | _ => false

/-- What is counted for an operation: calls of its callback, the places that still hold it, its
updates among them, its commands, and its updates that failed. -/
@[ext] structure Account where
  called : ℕ
  pending : ℕ
  asked : ℕ
  sent : ℕ
  failed : ℕ
  deriving DecidableEq

namespace Account

def zero : Account := ⟨0, 0, 0, 0, 0⟩

def plus (a b : Account) : Account :=
  ⟨a.called + b.called, a.pending + b.pending, a.asked + b.asked, a.sent + b.sent, a.failed + b.failed⟩

@[simp] theorem plus_zero (a : Account) : a.plus zero = a := rfl

theorem plus_assoc (a b c : Account) : (a.plus b).plus c = a.plus (b.plus c) := by
  simp only [plus, Nat.add_assoc]

theorem plus_comm (a b : Account) : a.plus b = b.plus a := by
  simp only [plus, Nat.add_comm]

/-- The callback is called once at most, nothing is sent while the update is out, and neither is
there anything after it failed. -/
structure Sound (a : Account) : Prop where
  once : a.called + a.pending ≤ 1
  first : 0 < a.asked → a.sent = 0 ∧ a.failed = 0
  failed : 0 < a.failed → a.called + a.pending = 0 ∧ a.sent = 0

theorem sound_zero : zero.Sound := ⟨by decide, by decide, by decide⟩

end Account

/-- `a` for the operation `k`, if it is the one in question. -/
def only (j k : ℕ) (a : Account) : Account := if j = k then a else .zero

/-- What a place that holds the result counts. -/
def Next.weight (next : Next) (k : ℕ) : Account :=
  match next.op with
  | none => .zero
  | some j => only j k ⟨0, 1, if next.asks then 1 else 0, 0, 0⟩

def MediaNote.weight (x : MediaNote) (k : ℕ) : Account :=
  match x with
  | .called j _ => only j k ⟨1, 0, 0, 0, 0⟩
  | .sent j _ => only j k ⟨0, 0, 0, 1, 0⟩
  | .failed j => only j k ⟨0, 0, 0, 0, 1⟩
  | .raised _ _ | .escaped _ => .zero

namespace Account

def sum (as : List Account) : Account := as.foldr plus zero

theorem sum_append (as bs : List Account) : sum (as ++ bs) = (sum as).plus (sum bs) := by
  induction as with
  | nil =>
    rw [plus_comm]
    rfl
  | cons a as ih => rw [List.cons_append, sum, List.foldr_cons, ← sum, ih, ← plus_assoc]; rfl

end Account

namespace Media

def account (m : Media) (k : ℕ) : Account :=
  ((Account.sum (m.log.map fun x => x.weight k)).plus
    (Account.sum (m.thread.map fun j => only j k ⟨0, 1, 0, 0, 0⟩))).plus
      (Account.sum (m.seq.waiting.map fun t => t.next.weight k))

def broken (m : Media) : Bool := m.log.any fun x => match x with
  | .escaped _ => true
  | _ => false

/-- Each operation is in one place or its callback was called, and no result has raised. -/
structure Completes (m : Media) : Prop where
  returns : m.broken = false
  once : ∀ k < m.ops, (m.account k).called + (m.account k).pending = 1

/-- No command follows an update that failed. -/
def Spares (m : Media) : Prop := ∀ k, 0 < (m.account k).failed → (m.account k).sent = 0

structure Inv (m : Media) : Prop where
  seq : m.seq.Sound
  fresh : ∀ k, m.ops ≤ k → m.account k = .zero
  accounts : ∀ k, (m.account k).Sound

/-- A session in any state, before the first operation. -/
structure Start (m : Media) : Prop where
  seq : m.seq.Sound
  idle : ∀ t ∈ m.seq.waiting, t.next.op = none
  thread : m.thread = []
  ops : m.ops = 0
  log : m.log = []

section Accounts
variable {m : Media} {k : ℕ} {cmd : Cmd} {next : Next} {n : SideName}

theorem account_note (m : Media) (x : MediaNote) (k : ℕ) :
    (m.note x).account k = (m.account k).plus (x.weight k) := by
  have hlog : Account.sum ((m.log ++ [x]).map fun x => x.weight k) =
      (Account.sum (m.log.map fun x => x.weight k)).plus (x.weight k) := by
    rw [List.map_append, Account.sum_append]
    rfl
  simp only [account, note, hlog, Account.plus]
  ext <;> dsimp only <;> omega

theorem weight_asked (next : Next) (k : ℕ) : (next.weight k).asked ≤ (next.weight k).pending := by
  unfold Next.weight only
  repeat' split
  all_goals simp [Account.zero]

theorem MediaNote.weight_asked (x : MediaNote) (k : ℕ) : (x.weight k).asked = 0 := by
  unfold MediaNote.weight only
  repeat' split
  all_goals rfl

theorem MediaNote.weight_pending (x : MediaNote) (k : ℕ) : (x.weight k).pending = 0 := by
  unfold MediaNote.weight only
  repeat' split
  all_goals rfl

theorem account_asked (m : Media) (k : ℕ) : (m.account k).asked ≤ (m.account k).pending := by
  have hlog : (Account.sum (m.log.map fun x => x.weight k)).asked = 0 := by
    induction m.log with
    | nil => rfl
    | cons x xs ih => exact (congrArg₂ (· + ·) (MediaNote.weight_asked x k) ih)
  have hthread : (Account.sum (m.thread.map fun j => only j k ⟨0, 1, 0, 0, 0⟩)).asked = 0 := by
    induction m.thread with
    | nil => rfl
    | cons j js ih =>
      have hj : (only j k ⟨0, 1, 0, 0, 0⟩).asked = 0 := by
        unfold only
        split <;> rfl
      exact (congrArg₂ (· + ·) hj ih)
  have hseq : (Account.sum (m.seq.waiting.map fun t => t.next.weight k)).asked ≤
      (Account.sum (m.seq.waiting.map fun t => t.next.weight k)).pending := by
    induction m.seq.waiting with
    | nil => exact le_rfl
    | cons t ts ih => exact Nat.add_le_add (weight_asked t.next k) ih
  simp only [account, Account.plus, hlog, hthread]
  omega

theorem account_send (hs : m.seq.Sound) (hlive : m.seq.live = true) (cmd : Cmd) (next : Next) (k : ℕ) :
    (m.send cmd next).account k = (m.account k).plus (next.weight k) := by
  simp only [account, send, hs.waiting_sendCommand hlive, List.map_append, Account.sum_append,
    ← Account.plus_assoc]
  rfl

theorem send_dead (hlive : m.seq.live = false) (cmd : Cmd) (next : Next) : m.send cmd next = m := by
  rw [send, Sequencer.sendCommand, hlive]
  rfl

theorem account_take {task : Task} (hs : m.seq.Sound) (h : m.seq.inflight = some task) (k : ℕ) :
    m.account k = ({ m with seq := m.seq.next }.account k).plus (task.next.weight k) := by
  simp only [account, hs.waiting_next h, List.map_cons, Account.sum, List.foldr_cons, Account.plus]
  ext <;> dsimp only <;> omega

theorem account_delete (m : Media) (k : ℕ) : ({ m with seq := m.seq.delete } : Media).account k = m.account k := by
  simp only [account, Sequencer.waiting_delete]

@[simp] theorem account_setSide (x : Side) : (m.setSide n x).account k = m.account k := by cases n <;> rfl
@[simp] theorem seq_setSide (x : Side) : (m.setSide n x).seq = m.seq := by cases n <;> rfl
@[simp] theorem ops_setSide (x : Side) : (m.setSide n x).ops = m.ops := by cases n <;> rfl
@[simp] theorem client_setSide (x : Side) : (m.setSide n x).client = m.client := by cases n <;> rfl
@[simp] theorem broken_setSide (x : Side) : (m.setSide n x).broken = m.broken := by cases n <;> rfl

@[simp] theorem seq_note (x : MediaNote) : (m.note x).seq = m.seq := rfl
@[simp] theorem ops_note (x : MediaNote) : (m.note x).ops = m.ops := rfl
@[simp] theorem broken_note_sent {text : Text} : (m.note (.sent k text)).broken = m.broken := by
  simp [broken, note]

@[simp] theorem account_noteRaised (j : ℕ) (o : Option Exn) : (m.noteRaised j o).account k = m.account k := by
  cases o with
  | none => rfl
  | some e => exact account_note m _ k

@[simp] theorem broken_noteRaised (j : ℕ) (o : Option Exn) : (m.noteRaised j o).broken = m.broken := by
  cases o with
  | none => rfl
  | some e => simp [noteRaised, broken, note]

@[simp] theorem seq_noteRaised (j : ℕ) (o : Option Exn) : (m.noteRaised j o).seq = m.seq := by cases o <;> rfl
@[simp] theorem ops_noteRaised (j : ℕ) (o : Option Exn) : (m.noteRaised j o).ops = m.ops := by cases o <;> rfl

@[simp] theorem ops_send : (m.send cmd next).ops = m.ops := rfl
@[simp] theorem broken_send : (m.send cmd next).broken = m.broken := rfl

theorem weight_none (h : next.op = none) : next.weight k = .zero := by
  rw [Next.weight, h]

theorem only_ne {j : ℕ} (h : j ≠ k) (a : Account) : only j k a = .zero := if_neg h
theorem only_self (a : Account) : only k k a = a := if_pos rfl

end Accounts

/-- The session can do what the label asks for: it was not deleted, a side whose media are copied has
a session, and an update for an operation is granted. -/
def Granted (client : Option Client) (r : Option Text) : Prop :=
  ∃ reply word rest port, r = some reply ∧ replyWords reply = word :: rest ∧ word.head? ≠ some 'E' ∧
    Text.int word = some port ∧ port ≠ 0 ∧ (rest ≠ [] ∨ client.isSome)

def Meets (m : Media) : Label → Prop
  | .play n _ _ _ => (m.side n).sessionExists = true →
    m.seq.live = true ∧ ((m.side n.other).sessionExists = true ∨ m.client.isSome)
  | .stopPlay n _ => (m.side n).sessionExists = true → m.seq.live = true
  | .copy n _ _ _ => (m.side n).sessionExists = true ∧ m.seq.live = true
  | .startRecording _ => m.seq.live = true ∧ (m.caller.sessionExists = true ∨ m.client.isSome)
  | .result r => ∀ task, m.seq.inflight = some task → task.next.asks = true → Granted m.client r
  | _ => True

/-- What a call does: the operation `j` gets a place exactly if `ok`. -/
structure Begun (m : Media) (j : ℕ) (ok : Prop) (m' : Media) : Prop where
  seq : m'.seq.Sound
  broken : m'.broken = m.broken
  account : ∃ d : Account, d.Sound ∧ (d.called + d.pending = 1 ↔ ok) ∧
    ∀ k, m'.account k = (m.account k).plus (only j k d)

section Begin
variable {m m' : Media} {n : SideName} {j index : ℕ} {text : Text} {next : Next} {ok : Prop}

theorem begun_defer (hs : m.seq.Sound) (j : ℕ) : Begun m j True { m with thread := m.thread ++ [j] } := by
  refine ⟨hs, rfl, ⟨0, 1, 0, 0, 0⟩, ⟨by decide, by decide, by decide⟩, by simp, fun k => ?_⟩
  have hthread : Account.sum ((m.thread ++ [j]).map fun j => only j k ⟨0, 1, 0, 0, 0⟩) =
      (Account.sum (m.thread.map fun j => only j k ⟨0, 1, 0, 0, 0⟩)).plus (only j k ⟨0, 1, 0, 0, 0⟩) := by
    rw [List.map_append, Account.sum_append]
    rfl
  simp only [account, hthread, Account.plus]
  ext <;> dsimp only <;> omega

theorem account_command (hs : m.seq.Sound) (hlive : m.seq.live = true) (hop : next.op = some j)
    (hask : next.asks = false) (k : ℕ) :
    (m.command j text next).account k = (m.account k).plus (only j k ⟨0, 1, 0, 1, 0⟩) := by
  have hs' : (m.note (.sent j text)).seq.Sound := hs
  have hlive' : (m.note (.sent j text)).seq.live = true := hlive
  rw [command, account_send hs' hlive', account_note, Account.plus_assoc]
  simp only [Next.weight, hop, hask, MediaNote.weight, only]
  split <;> rfl

theorem begun_command (hs : m.seq.Sound) (hop : next.op = some j) (hask : next.asks = false) :
    Begun m j (m.seq.live = true) (m.command j text next) := by
  cases hlive : m.seq.live with
  | true =>
    exact ⟨hs.sendCommand _, broken_note_sent, ⟨0, 1, 0, 1, 0⟩, ⟨by decide, by decide, by decide⟩,
      by simp, account_command hs hlive hop hask⟩
  | false =>
    have hlive' : (m.note (.sent j text)).seq.live = false := hlive
    rw [command, send_dead hlive']
    refine ⟨hs, broken_note_sent, ⟨0, 0, 0, 1, 0⟩, ⟨by decide, by decide, by decide⟩, by simp, fun k => ?_⟩
    rw [account_note]
    rfl

theorem begun_update (hs : m.seq.Sound) (a : After) :
    Begun m a.op (m.client.isSome = true ∧ m.seq.live = true) (m.update n index a).1 := by
  have hseq : ((m.raiseIndex index).askedPort n).seq = m.seq := seq_setSide _
  have hbroken : ((m.raiseIndex index).askedPort n).broken = m.broken := broken_setSide _
  have haccount (k : ℕ) : ((m.raiseIndex index).askedPort n).account k = m.account k := account_setSide _
  have hclient : (m.raiseIndex index).client = m.client := rfl
  have hnone (m' : Media) (hs' : m'.seq.Sound) (hb : m'.broken = m.broken) (hacc : ∀ k, m'.account k = m.account k)
      (ok : Prop) (hok : ¬ ok) : Begun m a.op ok m' := by
    refine ⟨hs', hb, .zero, Account.sound_zero, by simp [Account.zero, hok], fun k => ?_⟩
    rw [hacc, only, ite_self, Account.plus_zero]
  unfold update
  simp only [hclient]
  cases hc : m.client with
  | none =>
    have hok : ¬ ((none : Option Client).isSome = true ∧ m.seq.live = true) := fun h => Bool.false_ne_true h.1
    exact hnone (m.raiseIndex index) hs rfl (fun _ => rfl) _ hok
  | some rtpc =>
    have hs₀ : ((m.raiseIndex index).askedPort n).seq.Sound := hseq ▸ hs
    cases hlive : m.seq.live with
    | true =>
      refine ⟨hs₀.sendCommand _, hbroken, ⟨0, 1, 1, 0, 0⟩, ⟨by decide, by decide, by decide⟩,
        by simp, fun k => ?_⟩
      rw [account_send hs₀ (hseq ▸ hlive), haccount]
      rfl
    | false =>
      dsimp only
      rw [send_dead (hseq ▸ hlive)]
      exact hnone _ hs₀ hbroken haccount _ fun h => Bool.false_ne_true h.2

theorem Begun.congr (h : Begun m j ok m') {ok' : Prop} (hok : ok ↔ ok') : Begun m j ok' m' := by
  rw [← propext hok]
  exact h

theorem play_begun (hs : m.seq.Sound) (n : SideName) (promptName : Text) (times : ℤ) (index j : ℕ) :
    Begun m j (m.Meets (.play n promptName times index)) (m.play n promptName times index j).1 := by
  unfold play Meets
  by_cases hside : (m.side n).sessionExists = false
  · rw [if_pos hside]
    exact (begun_defer hs j).congr (by simp [hside])
  · rw [if_neg hside]
    rw [Bool.not_eq_false] at hside
    by_cases hother : (m.side n.other).sessionExists = false
    · rw [if_pos hother]
      exact (begun_update hs (.play n promptName times index j)).congr (by simp [hside, hother, and_comm])
    · rw [if_neg hother]
      rw [Bool.not_eq_false] at hother
      exact (begun_command hs rfl rfl).congr (by simp [hside, hother])

theorem stopPlay_begun (hs : m.seq.Sound) (n : SideName) (index j : ℕ) :
    Begun m j (m.Meets (.stopPlay n index)) (m.stopPlay n index j).1 := by
  unfold stopPlay Meets
  by_cases hside : (m.side n).sessionExists = false
  · rw [if_pos hside]
    exact (begun_defer hs j).congr (by simp [hside])
  · rw [if_neg hside]
    rw [Bool.not_eq_false] at hside
    exact (begun_command hs rfl rfl).congr (by simp [hside])

theorem copy_begun (hs : m.seq.Sound) (n : SideName) (remoteIp : Text) (remotePort : ℤ) (index j : ℕ) :
    Begun m j (m.Meets (.copy n remoteIp remotePort index)) (m.copy n remoteIp remotePort index j).1 := by
  unfold copy Meets
  by_cases hside : (m.side n).sessionExists = false
  · rw [if_pos hside]
    refine ⟨hs, rfl, .zero, Account.sound_zero, by simp [Account.zero, hside], fun k => ?_⟩
    rw [only, ite_self]
    rfl
  · rw [if_neg hside]
    rw [Bool.not_eq_false] at hside
    exact (begun_command hs rfl rfl).congr (by simp [hside])

theorem nextStage_op (r : Recording) (j : ℕ) : (nextStage r j).op = some j ∧ (nextStage r j).asks = false := by
  unfold nextStage
  split <;> exact ⟨rfl, rfl⟩

theorem startRecording_begun (hs : m.seq.Sound) (r : Recording) (j : ℕ) :
    Begun m j (m.Meets (.startRecording r)) (m.startRecording r j).1 := by
  unfold startRecording Meets
  by_cases hside : m.caller.sessionExists = false
  · rw [if_pos hside]
    exact (begun_update hs (.startRecordingA r j)).congr (by simp [hside, and_comm])
  · rw [if_neg hside]
    rw [Bool.not_eq_false] at hside
    exact (begun_command hs (nextStage_op r j).1 (nextStage_op r j).2).congr (by simp [hside])

end Begin

theorem begin_spec {m : Media} {f : ℕ → Media × Option Exn} {ok : Prop} (hinv : m.Inv)
    (h : Begun m m.ops ok (f m.ops).1) :
    (m.begin f).Inv ∧ (m.Completes → ((m.begin f).Completes ↔ ok)) := by
  obtain ⟨hseq, hbroken, d, hd, hok, haccount⟩ := h
  have hops : (m.begin f).ops = m.ops + 1 := ops_noteRaised _ _
  have hseq' : (m.begin f).seq = (f m.ops).1.seq := seq_noteRaised _ _
  have hbroken' : (m.begin f).broken = m.broken := (broken_noteRaised _ _).trans hbroken
  have hacc (k : ℕ) : (m.begin f).account k = (m.account k).plus (only m.ops k d) :=
    (account_noteRaised _ _).trans (haccount k)
  have hother (k : ℕ) (hk : k ≠ m.ops) : (m.begin f).account k = m.account k := by
    rw [hacc, only_ne (Ne.symm hk), Account.plus_zero]
  have hnew : (m.begin f).account m.ops = d := by
    rw [hacc, hinv.fresh m.ops le_rfl, only_self, Account.plus_comm, Account.plus_zero]
  constructor
  · refine ⟨hseq' ▸ hseq, fun k hk => ?_, fun k => ?_⟩
    · rw [hother k (by omega)]
      exact hinv.fresh k (by omega)
    · by_cases hk : k = m.ops
      · rw [hk, hnew]
        exact hd
      · rw [hother k hk]
        exact hinv.accounts k
  · intro hc
    rw [← hok]
    constructor
    · intro h
      rw [← hnew]
      exact h.once m.ops (by omega)
    · intro hone
      refine ⟨hbroken'.trans hc.returns, fun k hk => ?_⟩
      by_cases hk' : k = m.ops
      · rw [hk', hnew]
        exact hone
      · rw [hother k hk']
        exact hc.once k (by omega)

/-- What becomes of an operation whose command has its result. -/
def outcome (granted : Bool) (result : Option Text) : Next → Account
  | .update _ _ _ => if granted then ⟨0, 1, 0, 1, 0⟩ else ⟨0, 0, 0, 0, 1⟩
  | .startRecordingO _ _ => if result.isNone then ⟨1, 0, 0, 0, 0⟩ else ⟨0, 1, 0, 1, 0⟩
  | _ => ⟨1, 0, 0, 0, 0⟩

def earned (next : Next) (granted : Bool) (result : Option Text) (k : ℕ) : Account :=
  match next.op with
  | none => .zero
  | some j => only j k (outcome granted result next)

def grants (client : Option Client) (index : ℕ) (result : Option Text) : Bool :=
  let o := (plainParams index).process client result
  match o.raised, o.calls with
  | none, [.ok _] => true
  | _, _ => false

theorem grants_iff (client : Option Client) (index : ℕ) (result : Option Text) :
    grants client index result = true ↔ Granted client result := by
  have hfalse (h : grants client index result = false) (hno : ¬ Granted client result) :
      grants client index result = true ↔ Granted client result := by simp [h, hno]
  cases result with
  | none => exact hfalse rfl fun ⟨_, _, _, _, hr, _⟩ => nomatch hr
  | some reply =>
    cases hw : replyWords reply with
    | nil =>
      refine hfalse ?_ fun ⟨_, _, _, _, hr, hcons, _⟩ => ?_
      · rw [grants, process_nil hw]
        rfl
      · rw [← Option.some.inj hr, hw] at hcons
        exact nomatch hcons
    | cons word rest =>
      by_cases hE : word.head? = some 'E'
      · refine hfalse ?_ fun ⟨_, _, _, _, hr, hcons, hne, _⟩ => ?_
        · rw [grants, process_refused hw hE]
          rfl
        · rw [← Option.some.inj hr, hw] at hcons
          exact hne ((List.cons.inj hcons).1 ▸ hE)
      · have hsub : (plainParams index).subProcess (replyResults reply) = ([], .ok (.ok [])) := rfl
        have hcond : Granted client (some reply) ↔
            ∃ port, Text.int word = some port ∧ port ≠ 0 ∧ (replyAddress client reply).isSome := by
          rw [replyAddress_isSome client hw]
          constructor
          · rintro ⟨_, _, _, port, hr, hcons, _, hint, hport, haddr⟩
            rw [← Option.some.inj hr, hw] at hcons
            obtain ⟨rfl, rfl⟩ := List.cons.inj hcons
            exact ⟨port, hint, hport, haddr⟩
          · rintro ⟨port, hint, hport, haddr⟩
            exact ⟨reply, word, rest, port, rfl, hw, hE, hint, hport, haddr⟩
        unfold grants
        rw [hcond, process_eq hw hE, hsub]
        dsimp only
        cases Text.int word with
        | none => simp [Outcome.raise]
        | some port =>
          dsimp only
          by_cases hzero : port = 0
          · rw [if_pos hzero]
            simp [Outcome.report, hzero]
          · rw [if_neg hzero]
            cases replyAddress client reply <;> simp [Outcome.raise, Outcome.succeed, hzero]

theorem grants_index (client : Option Client) (index : ℕ) (result : Option Text) :
    grants client index result = grants client 0 result := by
  rw [Bool.eq_iff_iff, grants_iff, grants_iff]

/-- What the function does that takes a result. -/
structure Proceeded (m : Media) (next : Next) (result : Option Text) (p : Media × Option Exn) : Prop where
  seq : p.1.seq.Sound
  ops : p.1.ops = m.ops
  broken : p.1.broken = m.broken
  raises : p.2 = none ↔ (next.asks = true → grants m.client 0 result = true)
  account : ∀ k, p.1.account k = (m.account k).plus (earned next (grants m.client 0 result) result k)

section Proceed
variable {m : Media} {n : SideName} {index : ℕ} {result : Option Text} {next : Next}

theorem after_spec (hs : m.seq.Sound) (hlive : m.seq.live = true) (a : After) :
    (m.after a).seq.Sound ∧ (m.after a).ops = m.ops ∧ (m.after a).broken = m.broken ∧
      ∀ k, (m.after a).account k = (m.account k).plus (only a.op k ⟨0, 1, 0, 1, 0⟩) := by
  cases a with
  | play n promptName times index j =>
    exact ⟨hs.sendCommand _, rfl, broken_note_sent, account_command hs hlive rfl rfl⟩
  | startRecordingA r j =>
    exact ⟨hs.sendCommand _, rfl, broken_note_sent,
      account_command hs hlive (nextStage_op r j).1 (nextStage_op r j).2⟩

/-- An update of an operation: the function behind the callback runs, or there is an exception. -/
theorem updateResult_cases (m : Media) (n : SideName) (index : ℕ) (a : After) (result : Option Text) :
    grants m.client 0 result = true ∧
        m.updateResult n index a result = ((m.setSide n { m.side n with sessionExists := true }).after a, none) ∨
      grants m.client 0 result = false ∧ ∃ e, m.updateResult n index a result =
        ((m.setSide n { m.side n with sessionExists := true }).note (.failed a.op), some e) := by
  rw [← grants_index m.client index]
  unfold grants updateResult
  simp only [client_setSide]
  generalize (plainParams index).process m.client result = o
  obtain ⟨handed, calls, raised⟩ := o
  cases raised with
  | some e => exact .inr ⟨rfl, e, rfl⟩
  | none =>
    match calls with
    | [.ok ur] => exact .inl ⟨rfl, rfl⟩
    | [] => exact .inr ⟨rfl, _, rfl⟩
    | .error ex :: _ => exact .inr ⟨rfl, _, rfl⟩
    | .ok ur :: _ :: _ => exact .inr ⟨rfl, _, rfl⟩

theorem proceed_spec (hs : m.seq.Sound) (hlive : m.seq.live = true) (next : Next) (result : Option Text) :
    Proceeded m next result (m.proceed next result) := by
  cases next with
  | nobody => exact ⟨hs, rfl, rfl, by simp [proceed, Next.asks], fun _ => rfl⟩
  | user j =>
    refine ⟨hs, rfl, ?_, by simp [proceed, Next.asks], fun k => account_note _ _ _⟩
    simp [proceed, broken, note]
  | sdpChange n =>
    refine ⟨?_, ops_setSide _, broken_setSide _, by simp [proceed, Next.asks], fun k => account_setSide _⟩
    rw [proceed, seq_setSide]
    exact hs
  | update n index a =>
    have hs' : (m.setSide n { m.side n with sessionExists := true }).seq.Sound := by
      rw [seq_setSide]
      exact hs
    have hlive' : (m.setSide n { m.side n with sessionExists := true }).seq.live = true := by
      rw [seq_setSide]
      exact hlive
    rw [proceed]
    rcases updateResult_cases m n index a result with ⟨hg, hr⟩ | ⟨hg, e, hr⟩
    · obtain ⟨hseq, hops, hbroken, hacc⟩ := after_spec hs' hlive' a
      rw [hr]
      refine ⟨hseq, hops.trans (ops_setSide _), hbroken.trans (broken_setSide _), by simp [hg], fun k => ?_⟩
      rw [hacc, account_setSide, hg]
      rfl
    · rw [hr]
      refine ⟨hs', ops_setSide _, ?_, by simp [hg, Next.asks], fun k => ?_⟩
      · rw [← @broken_setSide m n { m.side n with sessionExists := true }]
        simp [broken, note]
      · rw [account_note, account_setSide, hg]
        rfl
  | startRecordingO r j =>
    cases result with
    | none =>
      refine ⟨hs, rfl, ?_, by simp [proceed, Next.asks], fun k => account_note _ _ _⟩
      simp [proceed, startRecordingO, broken, note]
    | some t =>
      exact ⟨hs.sendCommand _, rfl, broken_note_sent, by simp [proceed, Next.asks], account_command hs hlive rfl rfl⟩

end Proceed

section Earned
variable {x : Account} {next : Next} {granted : Bool} {result : Option Text} {k : ℕ}

theorem earned_cases (next : Next) (granted : Bool) (result : Option Text) (k : ℕ) :
    next.weight k = .zero ∧ earned next granted result k = .zero ∨
      next.weight k = ⟨0, 1, if next.asks then 1 else 0, 0, 0⟩ ∧
        earned next granted result k = outcome granted result next := by
  unfold Next.weight earned
  cases next.op with
  | none => exact .inl ⟨rfl, rfl⟩
  | some j =>
    by_cases hj : j = k
    · exact .inr ⟨if_pos hj, if_pos hj⟩
    · exact .inl ⟨if_neg hj, if_neg hj⟩

theorem earned_sound (hx : x.asked ≤ x.pending) (h : (x.plus (next.weight k)).Sound) :
    (x.plus (earned next granted result k)).Sound := by
  rcases earned_cases next granted result k with ⟨hw, he⟩ | ⟨hw, he⟩
  · rw [he, ← hw]
    exact h
  · rw [hw] at h
    rw [he]
    obtain ⟨honce, hfirst, hfailed⟩ := h
    obtain ⟨called, pending, asked, sent, failed⟩ := x
    simp only [Account.plus] at honce hfirst hfailed hx
    cases next with
    | update n index a =>
      simp only [Next.asks, if_true] at hfirst hfailed
      cases granted <;> constructor <;> simp [Account.plus, outcome] <;> omega
    | startRecordingO r j =>
      simp only [Next.asks, Bool.false_eq_true, if_false] at hfirst hfailed
      cases result <;> constructor <;> simp [Account.plus, outcome] <;> omega
    | nobody | user j | sdpChange n =>
      simp only [Next.asks, Bool.false_eq_true, if_false] at hfirst hfailed
      constructor <;> simp [Account.plus, outcome] <;> omega

theorem earned_count (h : next.asks = true → granted = true) :
    (x.plus (earned next granted result k)).called + (x.plus (earned next granted result k)).pending =
      (x.plus (next.weight k)).called + (x.plus (next.weight k)).pending := by
  rcases earned_cases next granted result k with ⟨hw, he⟩ | ⟨hw, he⟩
  · rw [he, hw]
  · rw [he, hw]
    cases next with
    | update n index a =>
      rw [h rfl]
      simp only [Account.plus, outcome, if_true]
    | startRecordingO r j =>
      cases result with
      | none =>
        simp only [Account.plus, outcome, Option.isNone_none, if_true]
        omega
      | some t => simp [Account.plus, outcome]
    | nobody | user j | sdpChange n =>
      simp only [Account.plus, outcome]
      omega

theorem earned_fresh (h : x.plus (next.weight k) = .zero) : x.plus (earned next granted result k) = .zero := by
  rcases earned_cases next granted result k with ⟨hw, he⟩ | ⟨hw, he⟩
  · rw [hw] at h
    rw [he]
    exact h
  · rw [hw] at h
    have hpending := congrArg Account.pending h
    simp [Account.plus, Account.zero] at hpending

end Earned

theorem result_spec {m : Media} (hinv : m.Inv) (r : Option Text) :
    (m.result r).Inv ∧ (m.Completes → ((m.result r).Completes ↔ m.Meets (.result r))) := by
  unfold result
  cases hin : m.seq.inflight with
  | none =>
    have hmeets : m.Meets (.result r) := fun task htask => nomatch hin.symm.trans htask
    exact ⟨hinv, fun hc => iff_of_true hc hmeets⟩
  | some task =>
    have hlive : m.seq.live = true := hinv.seq.live (by rw [hin]; rfl)
    have hlive' : ({ m with seq := m.seq.next } : Media).seq.live = true := (Sequencer.live_next _).trans hlive
    obtain ⟨hseq, hops, hbroken, hraises, hacc⟩ := proceed_spec hinv.seq.next hlive' task.next r
    have htake := account_take hinv.seq hin
    have hmeets : m.Meets (.result r) ↔ (task.next.asks = true → grants m.client 0 r = true) := by
      simp [Meets, hin, grants_iff]
    rw [hmeets]
    dsimp only
    generalize ({ m with seq := m.seq.next } : Media).proceed task.next r = p at *
    -- the accounts do not see whether the sequencer is deleted, nor an exception that is noted
    have hend (m' : Media) (hs : m'.seq.Sound) (ho : m'.ops = m.ops) (ha : ∀ k, m'.account k = p.1.account k) :
        m'.Inv := by
      refine ⟨hs, fun k hk => ?_, fun k => ?_⟩
      · rw [ha, hacc]
        exact earned_fresh ((htake k).symm.trans (hinv.fresh k (ho ▸ hk)))
      · rw [ha, hacc]
        exact earned_sound (account_asked _ k) (htake k ▸ hinv.accounts k)
    cases hp : p.2 with
    | some e =>
      have hno : ¬ (task.next.asks = true → grants m.client 0 r = true) := fun h =>
        absurd (hp.symm.trans (hraises.mpr h)) (by simp)
      refine ⟨hend _ hseq hops fun k => account_note _ _ _, fun _ => iff_of_false (fun h => ?_) hno⟩
      have := h.returns
      simp [broken, note] at this
    | none =>
      have hyes := hraises.mp hp
      have hcompletes (m' : Media) (ho : m'.ops = m.ops) (hb : m'.broken = p.1.broken)
          (ha : ∀ k, m'.account k = p.1.account k) (hc : m.Completes) : m'.Completes := by
        refine ⟨(hb.trans hbroken).trans hc.returns, fun k hk => ?_⟩
        rw [ha, hacc, earned_count hyes]
        have hone := hc.once k (ho ▸ hk)
        rwa [htake k] at hone
      dsimp only
      split
      · exact ⟨hend _ hseq.delete hops fun k => account_delete _ _,
          fun hc => iff_of_true (hcompletes _ hops rfl (fun k => account_delete _ _) hc) hyes⟩
      · exact ⟨hend _ hseq hops fun _ => rfl, fun hc => iff_of_true (hcompletes _ hops rfl (fun _ => rfl) hc) hyes⟩

theorem idle_spec {m m' : Media} (hinv : m.Inv) (hs : m'.seq.Sound) (hops : m'.ops = m.ops)
    (hbroken : m'.broken = m.broken) (haccount : ∀ k, m'.account k = m.account k) :
    m'.Inv ∧ (m.Completes → m'.Completes) := by
  constructor
  · refine ⟨hs, fun k hk => ?_, fun k => ?_⟩
    · rw [haccount]
      exact hinv.fresh k (hops ▸ hk)
    · rw [haccount]
      exact hinv.accounts k
  · intro hc
    refine ⟨hbroken.trans hc.returns, fun k hk => ?_⟩
    rw [haccount]
    exact hc.once k (hops ▸ hk)

theorem account_send_idle {m : Media} (hs : m.seq.Sound) {next : Next} (hop : next.op = none) (cmd : Cmd) (k : ℕ) :
    (m.send cmd next).account k = m.account k := by
  cases hlive : m.seq.live with
  | true => rw [account_send hs hlive, weight_none hop, Account.plus_zero]
  | false => rw [send_dead hlive]

theorem account_dispatch {m : Media} {j : ℕ} {js : List ℕ} (h : m.thread = j :: js) (k : ℕ) :
    ∃ x : Account, m.account k = x.plus (only j k ⟨0, 1, 0, 0, 0⟩) ∧
      (({ m with thread := js } : Media).note (.called j none)).account k = x.plus (only j k ⟨1, 0, 0, 0, 0⟩) := by
  refine ⟨({ m with thread := js } : Media).account k, ?_, account_note _ _ k⟩
  simp only [account, h, List.map_cons, Account.sum, List.foldr_cons, Account.plus]
  ext <;> dsimp only <;> omega

theorem dispatch_spec {m : Media} {j : ℕ} {js : List ℕ} (hinv : m.Inv) (h : m.thread = j :: js) :
    (({ m with thread := js } : Media).note (.called j none)).Inv ∧
      (m.Completes → (({ m with thread := js } : Media).note (.called j none)).Completes) := by
  constructor
  · refine ⟨hinv.seq, fun k hk => ?_, fun k => ?_⟩
    · obtain ⟨x, hx, hx'⟩ := account_dispatch h k
      have hzero := hinv.fresh k hk
      rw [hx] at hzero
      rw [hx']
      unfold only at hzero ⊢
      split at hzero
      · have hpending := congrArg Account.pending hzero
        simp [Account.plus, Account.zero] at hpending
      · rw [if_neg ‹_›]
        exact hzero
    · obtain ⟨x, hx, hx'⟩ := account_dispatch h k
      obtain ⟨honce, hfirst, hfailed⟩ := hx ▸ hinv.accounts k
      rw [hx']
      unfold only at honce hfirst hfailed ⊢
      split at honce
      · simp only [if_pos ‹j = k›, Account.plus] at hfirst hfailed honce ⊢
        constructor <;> dsimp only <;> omega
      · rw [if_neg ‹_›] at hfirst hfailed ⊢
        exact ⟨honce, hfirst, hfailed⟩
  · intro hc
    refine ⟨?_, fun k hk => ?_⟩
    · rw [← hc.returns]
      simp [broken, note]
    · obtain ⟨x, hx, hx'⟩ := account_dispatch h k
      have hone := hx ▸ hc.once k hk
      rw [hx']
      unfold only at hone ⊢
      split at hone
      · simp only [if_pos ‹j = k›, Account.plus] at hone ⊢
        omega
      · rw [if_neg ‹_›]
        exact hone

theorem delete_spec {m : Media} (hinv : m.Inv) : m.delete.Inv ∧ (m.Completes → m.delete.Completes) := by
  unfold delete
  split
  · exact ⟨hinv, id⟩
  · dsimp only
    generalize ((List.range (m.maxIndex + 1).toNat).reverse.map Int.ofNat).filter _ = indexes
    suffices h : ∀ m' : Media, m'.Inv → m'.ops = m.ops → m'.broken = m.broken →
        (∀ k, m'.account k = m.account k) →
        let last := indexes.foldl
          (fun m i => m.send (.delete (m.session.name i) m.fromTag m.toTag) .nobody) m'
        last.seq.Sound ∧ last.ops = m.ops ∧ last.broken = m.broken ∧ ∀ k, last.account k = m.account k by
      obtain ⟨hs, hops, hbroken, hacc⟩ := h m hinv rfl rfl fun _ => rfl
      exact idle_spec hinv hs.delete hops hbroken fun k => (account_delete _ k).trans (hacc k)
    induction indexes with
    | nil => exact fun m' hinv' ho hb ha => ⟨hinv'.seq, ho, hb, ha⟩
    | cons i is ih =>
      intro m' hinv' ho hb ha
      have hsend (cmd : Cmd) : (∀ k, (m'.send cmd .nobody).account k = m'.account k) :=
        account_send_idle hinv'.seq rfl cmd
      have hinv'' (cmd : Cmd) : (m'.send cmd .nobody).Inv :=
        (@idle_spec m' (m'.send cmd .nobody) hinv' (hinv'.seq.sendCommand _) rfl rfl (hsend cmd)).1
      exact ih _ (hinv'' _) ho hb fun k => (hsend _ k).trans (ha k)

theorem step_spec {m : Media} (hinv : m.Inv) (l : Label) :
    (m.step l).Inv ∧ (m.Completes → ((m.step l).Completes ↔ m.Meets l)) := by
  have hidle {m' : Media} (h : m'.Inv ∧ (m.Completes → m'.Completes)) :
      m'.Inv ∧ (m.Completes → (m'.Completes ↔ True)) := ⟨h.1, fun hc => iff_of_true (h.2 hc) trivial⟩
  cases l with
  | play n promptName times index => exact begin_spec hinv (play_begun hinv.seq n promptName times index m.ops)
  | stopPlay n index => exact begin_spec hinv (stopPlay_begun hinv.seq n index m.ops)
  | copy n remoteIp remotePort index => exact begin_spec hinv (copy_begun hinv.seq n remoteIp remotePort index m.ops)
  | startRecording r => exact begin_spec hinv (startRecording_begun hinv.seq r m.ops)
  | result r => exact result_spec hinv r
  | dispatch =>
    apply hidle
    unfold step
    cases h : m.thread with
    | nil => exact ⟨hinv, id⟩
    | cons j js => exact dispatch_spec hinv h
  | sdpChange n cmd codecs =>
    apply hidle
    have hs : (m.setSide n { m.side n with codecs := codecs }).seq.Sound := by
      rw [seq_setSide]
      exact hinv.seq
    refine idle_spec hinv (hs.sendCommand _) (ops_setSide _) (broken_setSide _) fun k => ?_
    rw [step, account_send_idle hs rfl, account_setSide]
  | other cmd =>
    exact hidle (idle_spec hinv (hinv.seq.sendCommand _) rfl rfl (account_send_idle hinv.seq rfl cmd))
  | configure n conf =>
    apply hidle
    refine idle_spec hinv ?_ (ops_setSide _) (broken_setSide _) fun k => account_setSide _
    rw [step, seq_setSide]
    exact hinv.seq
  | client rtpc => exact hidle (idle_spec hinv hinv.seq rfl rfl fun _ => rfl)
  | delete => exact hidle (delete_spec hinv)

theorem Start.spec {m : Media} (h : m.Start) : m.Inv ∧ m.Completes := by
  have hacc (k : ℕ) : m.account k = .zero := by
    have hseq (ts : List Task) (hidle : ∀ t ∈ ts, t.next.op = none) :
        Account.sum (ts.map fun t => t.next.weight k) = .zero := by
      induction ts with
      | nil => rfl
      | cons t ts ih =>
        rw [List.map_cons, Account.sum, List.foldr_cons, ← Account.sum, weight_none (hidle t List.mem_cons_self),
          ih fun t ht => hidle t (List.mem_cons_of_mem _ ht)]
        rfl
    rw [account, h.log, h.thread, hseq _ h.idle]
    rfl
  constructor
  · refine ⟨h.seq, fun k _ => hacc k, fun k => ?_⟩
    rw [hacc]
    exact Account.sound_zero
  · refine ⟨?_, fun k hk => ?_⟩
    · rw [broken, h.log]
      rfl
    · rw [h.ops] at hk
      exact absurd hk (Nat.not_lt_zero k)

theorem inv_run {m : Media} (hinv : m.Inv) (ls : List Label) : (run step m ls).Inv :=
  @Lib.run_invariant _ _ step Inv (fun _ l h => (step_spec h l).1) m hinv ls

theorem Inv.spares {m : Media} (h : m.Inv) : m.Spares := fun k hk => ((h.accounts k).failed hk).2

end Media

/-- The results that follow from a place at most. -/
def Next.stages : Next → ℕ
  | .nobody | .user _ | .sdpChange _ => 1
  | .update _ _ (.play _ _ _ _ _) => 2
  | .update _ _ (.startRecordingA _ _) => 3
  | .startRecordingO _ _ => 2

theorem Next.stages_pos (next : Next) : 0 < next.stages := by
  unfold Next.stages
  repeat' split
  all_goals decide

namespace Media

def stages (m : Media) : ℕ := (m.seq.waiting.map fun t => t.next.stages).sum

def finish (m : Media) (rs : List (Option Text)) : Media :=
  run step m (rs.map .result ++ List.replicate m.thread.length .dispatch)

/-- With the results that are due there is nothing left that waits, and then each callback was
called once if no operation was lost. -/
def Settles (m : Media) : Prop := ∀ rs, m.stages ≤ rs.length →
  (m.finish rs).seq.waiting = [] ∧ (m.finish rs).thread = [] ∧
    ((m.finish rs).Completes → ∀ k < (m.finish rs).ops, ((m.finish rs).account k).called = 1)

theorem stages_send {m : Media} (hs : m.seq.Sound) (cmd : Cmd) (next : Next) :
    (m.send cmd next).stages ≤ m.stages + next.stages := by
  cases hlive : m.seq.live with
  | true =>
    rw [stages, send, hs.waiting_sendCommand hlive, List.map_append, List.sum_append]
    rfl
  | false =>
    rw [send_dead hlive]
    omega

theorem stages_command {m : Media} (hs : m.seq.Sound) (k : ℕ) (text : Text) (next : Next) :
    (m.command k text next).stages ≤ m.stages + next.stages := @stages_send (m.note _) hs _ next

theorem stages_setSide {m : Media} {n : SideName} (x : Side) : (m.setSide n x).stages = m.stages := by
  rw [stages, seq_setSide, ← stages]

theorem stages_after {m : Media} (hs : m.seq.Sound) (n : SideName) (index : ℕ) (a : After) :
    (m.after a).stages < m.stages + (Next.update n index a).stages := by
  cases a with
  | play n' promptName times index' k =>
    have hsend := stages_command hs k (m.playCommand n' promptName times index') (.user k)
    exact Nat.lt_succ_of_le hsend
  | startRecordingA r k =>
    have hsend := stages_command hs k (m.recordCommand r .caller) (nextStage r k)
    have hnext : (nextStage r k).stages ≤ 2 := by
      unfold nextStage
      split <;> simp [Next.stages]
    simp only [after, startRecordingA, Next.stages]
    omega

theorem stages_proceed {m : Media} (hs : m.seq.Sound) (next : Next) (result : Option Text) :
    (m.proceed next result).1.stages < m.stages + next.stages := by
  cases next with
  | nobody | user k => exact Nat.lt_succ_self _
  | sdpChange n =>
    rw [proceed, stages_setSide]
    exact Nat.lt_succ_self _
  | update n index a =>
    have hs' : (m.setSide n { m.side n with sessionExists := true }).seq.Sound := by
      rw [seq_setSide]
      exact hs
    have hsame : (m.setSide n { m.side n with sessionExists := true }).stages = m.stages := stages_setSide _
    rw [proceed, ← hsame]
    rcases updateResult_cases m n index a result with ⟨-, hr⟩ | ⟨-, e, hr⟩
    · rw [hr]
      exact stages_after hs' n index a
    · rw [hr]
      exact Nat.lt_add_of_pos_right (Next.stages_pos _)
  | startRecordingO r k =>
    cases result with
    | none => exact Nat.lt_add_of_pos_right (Next.stages_pos _)
    | some t =>
      have hsend := stages_command hs k (m.recordCommand r .callee) (.user k)
      exact Nat.lt_succ_of_le hsend

theorem stages_result {m : Media} (hs : m.seq.Sound) {task : Task} (hin : m.seq.inflight = some task)
    (r : Option Text) : (m.result r).stages < m.stages := by
  have hp := @stages_proceed { m with seq := m.seq.next } hs.next task.next r
  have htake : m.stages = task.next.stages + ({ m with seq := m.seq.next } : Media).stages := by
    rw [stages, hs.waiting_next hin]
    rfl
  unfold result
  rw [hin]
  dsimp only
  have hend {m' : Media} (h : m'.stages = (({ m with seq := m.seq.next } : Media).proceed task.next r).1.stages) :
      m'.stages < m.stages := by omega
  split
  · split
    · exact hend (by rw [stages, Sequencer.waiting_delete, ← stages])
    · exact hend rfl
  · exact hend rfl

@[simp] theorem thread_setSide {m : Media} {n : SideName} (x : Side) : (m.setSide n x).thread = m.thread := by
  cases n <;> rfl

theorem thread_result (m : Media) (r : Option Text) : (m.result r).thread = m.thread := by
  have hproceed (m' : Media) (next : Next) : (m'.proceed next r).1.thread = m'.thread := by
    cases next with
    | nobody | user k => rfl
    | sdpChange n => exact thread_setSide _
    | update n index a =>
      rw [proceed]
      rcases updateResult_cases m' n index a r with ⟨-, hr⟩ | ⟨-, e, hr⟩
      · rw [hr]
        cases a <;> exact thread_setSide _
      · rw [hr]
        exact thread_setSide _
    | startRecordingO q k => cases r <;> rfl
  unfold result
  cases m.seq.inflight with
  | none => rfl
  | some task =>
    dsimp only
    split
    · split <;> exact hproceed _ _
    · exact hproceed _ _

theorem run_results {m : Media} (hinv : m.Inv) {rs : List (Option Text)} (hlen : m.stages ≤ rs.length) :
    (run step m (rs.map .result)).seq.waiting = [] ∧ (run step m (rs.map .result)).thread = m.thread := by
  induction rs generalizing m with
  | nil =>
    refine ⟨?_, rfl⟩
    cases hw : m.seq.waiting with
    | nil => exact hw
    | cons t ts =>
      have hpos := t.next.stages_pos
      rw [stages, hw, List.map_cons, List.sum_cons, List.length_nil] at hlen
      omega
  | cons r rs ih =>
    rw [List.map_cons, Lib.run_cons, ← thread_result m r]
    apply ih (step_spec hinv (.result r)).1
    rw [List.length_cons] at hlen
    cases hin : m.seq.inflight with
    | none =>
      have hw : m.seq.waiting = [] := by
        rw [Sequencer.waiting, hin, hinv.seq.queue hin]
        rfl
      have hzero : m.stages = 0 := by
        rw [stages, hw]
        rfl
      have hsame : m.result r = m := by
        rw [result, hin]
      rw [step, hsame, hzero]
      exact Nat.zero_le _
    | some task =>
      have hless := stages_result hinv.seq hin r
      rw [step]
      omega

theorem run_dispatch (m : Media) (n : ℕ) (hn : m.thread.length = n) :
    (run step m (List.replicate n .dispatch)).seq = m.seq ∧
      (run step m (List.replicate n .dispatch)).thread = [] := by
  induction n generalizing m with
  | zero => exact ⟨rfl, List.length_eq_zero_iff.mp hn⟩
  | succ n ih =>
    obtain ⟨j, js, hjs⟩ := List.exists_cons_of_length_eq_add_one hn
    have hstep : step m .dispatch = ({ m with thread := js } : Media).note (.called j none) := by
      rw [step, hjs]
    rw [List.replicate_succ, Lib.run_cons, hstep]
    apply ih
    rw [hjs] at hn
    exact Nat.succ.inj hn

theorem Inv.settles {m : Media} (hinv : m.Inv) : m.Settles := by
  intro rs hlen
  obtain ⟨hwaiting, hthread⟩ := run_results hinv hlen
  obtain ⟨hseq, hdone⟩ := run_dispatch (run step m (rs.map .result)) m.thread.length (by rw [hthread])
  have hfinish : m.finish rs = run step (run step m (rs.map .result)) (List.replicate m.thread.length .dispatch) :=
    Lib.run_append _ _ _ _
  rw [← hfinish] at hseq hdone
  have hnone : (m.finish rs).seq.waiting = [] := by rw [hseq, hwaiting]
  refine ⟨hnone, hdone, fun hc k hk => ?_⟩
  have hpending : ((m.finish rs).account k).pending = 0 := by
    have hlog (log : List MediaNote) : (Account.sum (log.map fun x => x.weight k)).pending = 0 := by
      induction log with
      | nil => rfl
      | cons x xs ih => exact congrArg₂ (· + ·) (MediaNote.weight_pending x k) ih
    rw [account, hnone, hdone]
    exact hlog _
  have hone := hc.once k hk
  omega

/-- No command of an operation follows its update that failed; with the results that are due each
callback is called once, unless an operation is lost; and none is lost and no result raises, in
every state of the run, exactly if the session could do what it was asked for each time. -/
theorem media_completes_iff {m : Media} (h : m.Start) (ls : List Label) :
    (run step m ls).Spares ∧ (run step m ls).Settles ∧
      ((∀ ms, ms <+: ls → (run step m ms).Completes) ↔ Along step Meets m ls) := by
  obtain ⟨hinv, hc⟩ := h.spec
  have hrun := inv_run hinv ls
  refine ⟨hrun.spares, hrun.settles, ?_⟩
  apply @Lib.along_iff_prefix _ _ step Meets Inv Completes
  · exact fun m l h => (step_spec h l).1
  · exact fun m l h => (step_spec h l).2
  · exact hinv
  · exact hc

def held : Media :=
  let m := ofSession (Session.new localClient)
  m.setSide .caller { m.caller with sessionExists := true, codecs := some "0".toList }

def holdMusic : List Label := [.play .caller "moh".toList 1 0, .result (some "5000 2.2.2.2".toList), .result (some [])]

theorem held_start : held.Start := ⟨Sequencer.sound_empty, fun _ ht => (List.not_mem_nil ht).elim, rfl, rfl, rfl⟩

theorem media_completes_holdMusic :
    held.Start ∧ (run step held holdMusic).Spares ∧ (run step held holdMusic).Settles ∧
      ((∀ ms, ms <+: holdMusic → (run step held ms).Completes) ↔ Along step Meets held holdMusic) :=
  ⟨held_start, media_completes_iff held_start holdMusic⟩

/-- The update for the callee times out: the function that would play is called with an exception,
which it does not take, and the callback of the operation is lost. -/
theorem holdMusic_lost :
    (run step held [.play .caller "moh".toList 1 0, .result none]).log = [.failed 0, .escaped .typeError] ∧
      (run step held [.play .caller "moh".toList 1 0, .result none]).seq.waiting = [] ∧
        (run step held [.play .caller "moh".toList 1 0, .result none]).thread = [] ∧
          ¬ ((run step held [.play .caller "moh".toList 1 0, .result none]).broken = false ∧
            ((run step held [.play .caller "moh".toList 1 0, .result none]).account 0).called = 1) := by
  have hlog : (run step held [.play .caller "moh".toList 1 0, .result none]).log = [.failed 0, .escaped .typeError] := by
    rfl
  refine ⟨hlog, by rfl, by rfl, fun h => ?_⟩
  have hbroken := h.1
  rw [broken, hlog] at hbroken
  exact nomatch hbroken

end Media

end SippyB2bua.Rtpp
