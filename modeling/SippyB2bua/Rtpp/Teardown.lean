import Mathlib.Data.List.Nodup
import SippyB2bua.Address.LocalStr
import SippyB2bua.Lib.Ledger
import SippyB2bua.Rtpp.Media

/-!
# Taking a session down

The commands for descriptions, for playing and for recording share one sequencer. `delete` knows
the streams of the session by the highest index that an update was sent for; its commands are the
last for these streams, and they pass through the same queue.
-/

namespace SippyB2bua.Rtpp
open Lib (Text Ledger Sequencer run)
open Sdp

def Cmd.updates : Cmd → Option Text
  | .update _ session .. => some session
  | .delete .. | .other _ => none

def Cmd.deletes : Cmd → Option Text
  | .delete session _ _ => some session
  | .update .. | .other _ => none

inductive Callback
  | change (cb : Option (SideName × UpdateParams))
  | media (next : Next)

structure Queued where
  cmd : Cmd
  cb : Callback

/-- A session with all its operations. The sequencers of its parts stay empty. -/
structure RtpProxySession where
  session : Session
  thread : List ℕ
  ops : ℕ
  log : List MediaNote
  ledger : Ledger Queued

namespace RtpProxySession

def media (t : RtpProxySession) : Media :=
  { Media.ofSession t.session with thread := t.thread, ops := t.ops, log := t.log }

/-- What a function leaves of the session. Its commands go to the sequencer. -/
def setSession (t : RtpProxySession) (s : Session) : RtpProxySession :=
  { t with
    session := { s with seq := .empty }
    ledger := t.ledger.sendAll (s.seq.waiting.map fun c => ⟨c.cmd, .change c.cb⟩) }

def setMedia (t : RtpProxySession) (m : Media) : RtpProxySession where
  session := { t.session with
    client := m.client
    caller := m.caller
    callee := m.callee
    maxIndex := m.maxIndex }
  thread := m.thread
  ops := m.ops
  log := m.log
  ledger := t.ledger.sendAll (m.seq.waiting.map fun c => ⟨c.cmd, .media c.next⟩)

/-- `rtpp_seq.result_callback` for the command in flight. -/
def result (t : RtpProxySession) (r : Option Text) : RtpProxySession :=
  match t.ledger.seq.inflight with
  | none => t
  | some c =>
    let t := { t with ledger := t.ledger.next }
    match c.cb with
    | .change none => t
    | .change (some (n, up)) => t.setSession (t.session.updateResult n up r).1
    | .media next => t.setMedia (t.media.proceed next r).1

def delete (t : RtpProxySession) : RtpProxySession :=
  if t.session.client.isNone then t
  else
    let t := t.setSession t.session.delete
    { t with ledger := t.ledger.delete }

inductive Label
  | sdpChange (n : SideName) (body : MsgBody)
  | play (n : SideName) (promptName : Text) (times : ℤ) (index : ℕ)
  | stopPlay (n : SideName) (index : ℕ)
  | copy (n : SideName) (remoteIp : Text) (remotePort : ℤ) (index : ℕ)
  | startRecording (r : Recording)
  | result (r : Option Text)
  /-- The callback for a result has come back: a sequencer that was deleted goes on with that. What
  the callback does to the session are steps before this one. -/
  | returned
  | dispatch
  | configure (n : SideName) (conf : SideConf)
  | client (rtpc : Client)
  | mediaTimeout (index : Option ℤ)
  | delete

def step (mixed : Text → Except Exn Unit) (t : RtpProxySession) : Label → RtpProxySession
  | .sdpChange n body =>
    let r := t.session.onSdpChange mixed n body
    t.setSession (r.1.note (.change t.session.bodies.length r.2.1 r.2.2))
  | .play n promptName times index => t.setMedia (t.media.begin (t.media.play n promptName times index))
  | .stopPlay n index => t.setMedia (t.media.begin (t.media.stopPlay n index))
  | .copy n remoteIp remotePort index => t.setMedia (t.media.begin (t.media.copy n remoteIp remotePort index))
  | .startRecording r => t.setMedia (t.media.begin (t.media.startRecording r))
  | .result r => t.result r
  | .returned => if t.ledger.seq.deleted then { t with ledger := t.ledger.delete } else t
  | .dispatch =>
    match t.thread with
    | [] => t
    | k :: ks => { t with thread := ks, log := t.log ++ [.called k none] }
  | .configure n conf => { t with session := t.session.setSide n { t.session.side n with conf := conf } }
  | .client rtpc => { t with session := { t.session with client := t.session.client.map fun _ => rtpc } }
  | .mediaTimeout index => { t with session := { t.session with mediaTimeoutIndex := index } }
  | .delete => t.delete

/-- A new session. -/
structure Fresh (t : RtpProxySession) : Prop where
  session : t.session.Fresh
  ledger : t.ledger = .empty

def deletions (t : RtpProxySession) (i : ℕ) : ℕ :=
  t.ledger.taken.countP fun c => c.cmd.deletes = some (t.session.name i)

def Updated (t : RtpProxySession) (i : ℕ) : Prop :=
  ∃ c ∈ t.ledger.taken, c.cmd.updates = some (t.session.name i)

/-- What is left of a session that was deleted in the state `t`. -/
structure TornDown (mixed : Text → Except Exn Unit) (t t' : RtpProxySession) : Prop where
  /-- Nothing is ended before. -/
  before : ∀ i, t.deletions i = 0
  once : ∀ i : ℕ, t'.Updated i →
    t'.deletions i = if t.session.mediaTimeoutIndex = some (i : ℤ) then 0 else 1
  last : ∀ pre d post, t'.ledger.handed = pre ++ d :: post → d.cmd.deletes.isSome →
    t.ledger.taken <+: pre ∧ ∀ c ∈ post, c.cmd.updates = none
  /-- With the results that are due, the server has got every command. -/
  handed : ∀ rs : List (Option Text), t'.ledger.seq.comqueue.length ≤ rs.length →
    t'.ledger.taken <+: (run (step mixed) t' (rs.map .result)).ledger.handed

end RtpProxySession

def streamName (callId : Text) (index : ℤ) : Text := callId ++ "-".toList ++ Text.ofInt index

theorem streamName_inj {callId : Text} {i j : ℤ} : streamName callId i = streamName callId j ↔ i = j := by
  rw [streamName, streamName, List.append_right_inj, Address.ofInt_inj]

/-- What `delete` has to know, and the commands that are there. -/
structure View where
  isOpen : Bool
  callId : Text
  maxIndex : ℤ
  cmds : List Cmd

namespace View

/-- `delete` will end the stream that the command asks for. -/
def Fits (v : View) : Cmd → Prop
  | .update _ session .. => v.isOpen ∧ ∃ i : ℕ, session = streamName v.callId i ∧ (i : ℤ) ≤ v.maxIndex
  | .delete .. => False
  | .other _ => True

structure Keeps (v w : View) : Prop where
  isOpen : w.isOpen = v.isOpen
  callId : w.callId = v.callId
  maxIndex : v.maxIndex ≤ w.maxIndex
  cmds : ∀ c ∈ w.cmds, c ∈ v.cmds ∨ w.Fits c

variable {u v w : View}

theorem Fits.mono {c : Cmd} (h : v.Fits c) (hopen : w.isOpen = v.isOpen) (hcall : w.callId = v.callId)
    (hmax : v.maxIndex ≤ w.maxIndex) : w.Fits c := by
  cases c with
  | update options session remoteIp remotePort fromTag toTag notify subcommands =>
    obtain ⟨ho, i, hi, hle⟩ := h
    exact ⟨hopen.trans ho, i, by rw [hi, hcall], Int.le_trans hle hmax⟩
  | delete session fromTag toTag => exact h
  | other text => exact h

theorem Keeps.refl (v : View) : v.Keeps v := ⟨rfl, rfl, Int.le_refl _, fun _ hc => .inl hc⟩

theorem Keeps.of_eq (h : w = v) : v.Keeps w := h ▸ .refl w

theorem Keeps.trans (h : u.Keeps v) (h' : v.Keeps w) : u.Keeps w := by
  apply Keeps.mk (h'.isOpen.trans h.isOpen) (h'.callId.trans h.callId) (Int.le_trans h.maxIndex h'.maxIndex)
  intro c hc
  rcases h'.cmds c hc with hc | hc
  · rcases h.cmds c hc with hc | hc
    · exact .inl hc
    · exact .inr (hc.mono h'.isOpen h'.callId h'.maxIndex)
  · exact .inr hc

end View

namespace Session
variable {s : Session}

def view (s : Session) : View := ⟨s.client.isSome, s.callId, s.maxIndex, s.seq.waiting.map (·.cmd)⟩

@[simp] theorem view_setSide (s : Session) (n : SideName) (x : Side) : (s.setSide n x).view = s.view := by
  cases n <;> rfl

@[simp] theorem view_note (s : Session) (x : Note) : (s.note x).view = s.view := rfl
@[simp] theorem view_setBody (s : Session) (k : ℕ) (b : MsgBody) : (s.setBody k b).view = s.view := rfl

@[simp] theorem view_setOrigin (s : Session) (n : SideName) (b : SdpBody) (o : SdpOrigin) :
    (s.setOrigin n b o).1.view = s.view := view_setSide _ n _

theorem send_keeps {c : Command} (h : s.view.Fits c.cmd) :
    s.view.Keeps ({ s with seq := s.seq.sendCommand c } : Session).view := by
  refine ⟨rfl, rfl, Int.le_refl _, fun d hd => ?_⟩
  obtain ⟨q, hq, rfl⟩ := List.mem_map.1 hd
  rcases Sequencer.mem_waiting_sendCommand hq with hq | rfl
  · exact .inl (List.mem_map_of_mem hq)
  · exact .inr h

theorem update_keeps (s : Session) (n : SideName) (up : UpdateParams) :
    s.view.Keeps (s.update n up).1.view := by
  have hraise : s.view.Keeps ({ s with maxIndex := max s.maxIndex up.index } : Session).view :=
    ⟨rfl, rfl, Int.le_max_left _ _, fun _ h => .inl h⟩
  unfold update
  dsimp only
  split
  · exact hraise
  · rename_i rtpc hc
    apply hraise.trans
    apply View.Keeps.trans (.of_eq (view_setSide _ n.other _))
    apply send_keeps
    rw [view_setSide]
    exact ⟨by simp [view, hc], up.index, rfl, Int.le_max_right _ _⟩

theorem updateAll_keeps (n : SideName) (k : ℕ) (b : SdpBody) (sects : List ℕ) (s : Session)
    (l : List (ℕ × ℕ)) : s.view.Keeps (updateAll n k b sects s l).1.view := by
  induction l generalizing s with
  | nil => exact .refl _
  | cons p l ih =>
    rw [updateAll]
    cases s.prepare n k b sects p.2 p.1 with
    | error e => exact .refl _
    | ok up =>
      have hup := s.update_keeps n up
      revert hup
      dsimp only
      obtain ⟨s', _ | e⟩ := s.update n up
      · exact fun hup => hup.trans (ih s')
      · exact fun hup => hup

theorem onSdpChange_keeps (mixed : Text → Except Exn Unit) (s : Session) (n : SideName) (body : MsgBody) :
    s.view.Keeps (s.onSdpChange mixed n body).1.view := by
  unfold onSdpChange _onSdpChange
  dsimp only
  split
  · exact .refl _
  · split
    · exact .refl _
    · exact .refl _
    · split
      · exact .refl _
      · split
        · exact .refl _
        · apply View.Keeps.trans _ (updateAll_keeps n _ _ _ _ _)
          exact .of_eq (view_setSide _ n _)

@[simp] theorem view_complete (s : Session) (n : SideName) (k : ℕ) (body : MsgBody) (b : SdpBody) :
    (s.complete n k body b).1.view = s.view := by
  unfold complete
  split
  · rfl
  · exact view_setOrigin s n b _

@[simp] theorem view_sdpChangeFinish (s : Session) (n : SideName) (up : UpdateParams)
    (r : Except Exn UpdateResult) : (s.sdpChangeFinish n up r).1.view = s.view := by
  unfold sdpChangeFinish
  split
  · rfl
  · split
    · rfl
    · split
      · split
        · rfl
        · split
          · rfl
          · dsimp only
            split
            · rfl
            · split
              · rfl
              · exact view_complete _ n _ _ _
      · rfl

@[simp] theorem view_updateResult (s : Session) (n : SideName) (up : UpdateParams) (r : Option Text) :
    (s.updateResult n up r).1.view = s.view := by
  unfold updateResult
  dsimp only
  split
  · exact view_setSide s n _
  · rw [view_sdpChangeFinish, view_note, view_setSide]
  · rw [view_sdpChangeFinish, view_note, view_setSide]

end Session

namespace Media
variable {m : Media}

def view (m : Media) : View := ⟨m.client.isSome, m.callId, m.maxIndex, m.seq.waiting.map (·.cmd)⟩

@[simp] theorem view_setSide (m : Media) (n : SideName) (x : Side) : (m.setSide n x).view = m.view := by
  cases n <;> rfl

@[simp] theorem view_note (m : Media) (x : MediaNote) : (m.note x).view = m.view := rfl

@[simp] theorem view_noteRaised (m : Media) (k : ℕ) (e : Option Exn) : (m.noteRaised k e).view = m.view := by
  cases e <;> rfl

theorem send_keeps {cmd : Cmd} (h : m.view.Fits cmd) (next : Next) : m.view.Keeps (m.send cmd next).view := by
  refine ⟨rfl, rfl, Int.le_refl _, fun d hd => ?_⟩
  obtain ⟨q, hq, rfl⟩ := List.mem_map.1 hd
  rcases Sequencer.mem_waiting_sendCommand hq with hq | rfl
  · exact .inl (List.mem_map_of_mem hq)
  · exact .inr h

theorem command_keeps (m : Media) (k : ℕ) (text : Text) (next : Next) :
    m.view.Keeps (m.command k text next).view := @send_keeps (m.note _) (.other text) trivial next

theorem update_keeps (m : Media) (n : SideName) (index : ℕ) (a : After) :
    m.view.Keeps (m.update n index a).1.view := by
  have hraise : m.view.Keeps (m.raiseIndex index).view := ⟨rfl, rfl, Int.le_max_left _ _, fun _ h => .inl h⟩
  unfold update
  dsimp only
  split
  · exact hraise
  · rename_i rtpc hc
    apply hraise.trans
    apply View.Keeps.trans (.of_eq (view_setSide _ n.other _))
    apply send_keeps
    rw [view_setSide]
    exact ⟨by simp [view, hc], index, rfl, Int.le_max_right _ _⟩

theorem play_keeps (m : Media) (n : SideName) (promptName : Text) (times : ℤ) (index k : ℕ) :
    m.view.Keeps (m.play n promptName times index k).1.view := by
  unfold play
  split
  · exact .refl _
  · split
    · exact m.update_keeps _ _ _
    · exact m.command_keeps _ _ _

theorem stopPlay_keeps (m : Media) (n : SideName) (index k : ℕ) :
    m.view.Keeps (m.stopPlay n index k).1.view := by
  unfold stopPlay
  split
  · exact .refl _
  · exact m.command_keeps _ _ _

theorem copy_keeps (m : Media) (n : SideName) (remoteIp : Text) (remotePort : ℤ) (index k : ℕ) :
    m.view.Keeps (m.copy n remoteIp remotePort index k).1.view := by
  unfold copy
  split
  · exact .refl _
  · exact m.command_keeps _ _ _

theorem startRecording_keeps (m : Media) (r : Recording) (k : ℕ) :
    m.view.Keeps (m.startRecording r k).1.view := by
  unfold startRecording
  split
  · exact m.update_keeps _ _ _
  · exact m.command_keeps _ _ _

theorem begin_keeps {f : ℕ → Media × Option Exn} (h : m.view.Keeps (f m.ops).1.view) :
    m.view.Keeps (m.begin f).view := by
  apply h.trans (.of_eq _)
  exact view_noteRaised _ _ _

theorem proceed_keeps (m : Media) (next : Next) (result : Option Text) :
    m.view.Keeps (m.proceed next result).1.view := by
  cases next with
  | nobody | user k => exact .refl _
  | sdpChange n => exact .of_eq (view_setSide m n _)
  | update n index a =>
    have hside : m.view.Keeps (m.setSide n { m.side n with sessionExists := true }).view :=
      .of_eq (view_setSide m n _)
    rw [proceed]
    rcases updateResult_cases m n index a result with ⟨-, hr⟩ | ⟨-, e, hr⟩
    · rw [hr]
      apply hside.trans
      cases a <;> exact command_keeps _ _ _ _
    · rw [hr]
      exact hside
  | startRecordingO r k =>
    cases result with
    | none => exact .refl _
    | some t => exact m.command_keeps _ _ _

end Media

namespace RtpProxySession
variable {mixed : Text → Except Exn Unit} {t t' t'' : RtpProxySession} {l : Label} {ls : List Label}

def view (t : RtpProxySession) : View :=
  ⟨t.session.client.isSome, t.session.callId, t.session.maxIndex, t.ledger.taken.map (·.cmd)⟩

/-- Only new commands are taken, and all of them will be followed by a deletion. -/
structure Moves (t t' : RtpProxySession) : Prop where
  isOpen : t'.view.isOpen = t.view.isOpen
  callId : t'.view.callId = t.view.callId
  maxIndex : t.view.maxIndex ≤ t'.view.maxIndex
  taken : ∃ new, t'.ledger.taken = t.ledger.taken ++ new ∧ ∀ c ∈ new, t'.view.Fits c.cmd

theorem Moves.of_eq (hopen : t'.session.client.isSome = t.session.client.isSome)
    (hcall : t'.session.callId = t.session.callId) (hmax : t'.session.maxIndex = t.session.maxIndex)
    (htaken : t'.ledger.taken = t.ledger.taken) : Moves t t' :=
  ⟨hopen, hcall, Int.le_of_eq hmax.symm, [], by rw [htaken, List.append_nil], fun _ hc => nomatch hc⟩

theorem Moves.refl (t : RtpProxySession) : Moves t t := .of_eq rfl rfl rfl rfl

theorem Moves.trans (h : Moves t t') (h' : Moves t' t'') : Moves t t'' := by
  obtain ⟨new, hnew, hfits⟩ := h.taken
  obtain ⟨new', hnew', hfits'⟩ := h'.taken
  apply Moves.mk (h'.isOpen.trans h.isOpen) (h'.callId.trans h.callId) (Int.le_trans h.maxIndex h'.maxIndex)
  refine ⟨new ++ new', by rw [hnew', hnew, List.append_assoc], fun c hc => ?_⟩
  rcases List.mem_append.1 hc with hc | hc
  · exact (hfits c hc).mono h'.isOpen h'.callId h'.maxIndex
  · exact hfits' c hc

theorem Moves.of_keeps {v w : View} {new : List Queued} (h : v.Keeps w) (hv : v.cmds = [])
    (hopen : v.isOpen = t.view.isOpen) (hcall : v.callId = t.view.callId) (hmax : v.maxIndex = t.view.maxIndex)
    (hopen' : t'.view.isOpen = w.isOpen) (hcall' : t'.view.callId = w.callId)
    (hmax' : t'.view.maxIndex = w.maxIndex) (hnew : new.map (·.cmd) = w.cmds)
    (hledger : t'.ledger = t.ledger.sendAll new) : Moves t t' := by
  apply Moves.mk (hopen'.trans (h.isOpen.trans hopen)) (hcall'.trans (h.callId.trans hcall))
  · rw [← hmax, hmax']
    exact h.maxIndex
  · refine ⟨if t.ledger.seq.live then new else [], by rw [hledger, Ledger.taken_sendAll], fun c hc => ?_⟩
    have hmem : c ∈ new := by
      split at hc
      · exact hc
      · exact nomatch hc
    have hcmd : c.cmd ∈ w.cmds := hnew ▸ List.mem_map_of_mem hmem
    rcases h.cmds _ hcmd with hold | hfits
    · rw [hv] at hold
      exact nomatch hold
    · exact hfits.mono hopen' hcall' (Int.le_of_eq hmax'.symm)

theorem setSession_moves {s : Session} (hempty : t.session.seq = .empty) (h : t.session.view.Keeps s.view) :
    Moves t (t.setSession s) := by
  apply Moves.of_keeps h _ rfl rfl rfl rfl rfl rfl _ rfl
  · rw [Session.view, hempty]
    rfl
  · rw [List.map_map]
    rfl

theorem setMedia_moves {m : Media} (h : t.media.view.Keeps m.view) : Moves t (t.setMedia m) := by
  refine Moves.of_keeps h rfl rfl rfl rfl rfl h.callId.symm rfl ?_ rfl
  rw [List.map_map]
  rfl

/-- The streams that `delete` ends, the last one first. -/
def ended (t : RtpProxySession) : List ℤ :=
  ((List.range (t.session.maxIndex + 1).toNat).reverse.map Int.ofNat).filter fun i =>
    t.session.mediaTimeoutIndex != some i

structure Inv (t : RtpProxySession) : Prop where
  ledger : t.ledger.Sound
  empty : t.session.seq = .empty
  live : t.session.client.isSome → t.ledger.seq.live = true ∧ t.ledger.seq.deleted = false

theorem Inv.setSession {s : Session} (h : Inv t) (hopen : s.client.isSome = t.session.client.isSome) :
    Inv (t.setSession s) := by
  refine ⟨h.ledger.sendAll _, rfl, fun hs => ?_⟩
  rw [RtpProxySession.setSession, Ledger.live_sendAll, Ledger.deleted_sendAll]
  exact h.live (hopen ▸ hs)

theorem Inv.setMedia {m : Media} (h : Inv t) (hopen : m.client.isSome = t.session.client.isSome) :
    Inv (t.setMedia m) := by
  refine ⟨h.ledger.sendAll _, h.empty, fun hs => ?_⟩
  rw [RtpProxySession.setMedia, Ledger.live_sendAll, Ledger.deleted_sendAll]
  exact h.live (hopen ▸ hs)

theorem Inv.next (h : Inv t) : Inv { t with ledger := t.ledger.next } := by
  refine ⟨h.ledger.next, h.empty, fun hs => ?_⟩
  rw [Ledger.next, Sequencer.live_next, Sequencer.deleted_next]
  exact h.live hs

theorem result_spec (h : Inv t) (r : Option Text) : Inv (t.result r) ∧ Moves t (t.result r) := by
  unfold result
  cases t.ledger.seq.inflight with
  | none => exact ⟨h, .refl t⟩
  | some c =>
    have hnext := h.next
    have hmoves : Moves t { t with ledger := t.ledger.next } := .of_eq rfl rfl rfl rfl
    obtain ⟨cmd, cb⟩ := c
    cases cb with
    | change cb =>
      cases cb with
      | none => exact ⟨hnext, hmoves⟩
      | some p =>
        have hkeeps : t.session.view.Keeps (t.session.updateResult p.1 p.2 r).1.view :=
          .of_eq (Session.view_updateResult _ _ _ _)
        exact ⟨hnext.setSession hkeeps.isOpen, hmoves.trans (setSession_moves h.empty hkeeps)⟩
    | media next =>
      have hkeeps := t.media.proceed_keeps next r
      exact ⟨hnext.setMedia hkeeps.isOpen, hmoves.trans (setMedia_moves hkeeps)⟩

theorem delete_eq (hc : t.session.client.isSome) : t.delete =
    { t.setSession t.session.delete with ledger := (t.setSession t.session.delete).ledger.delete } := by
  have hopen : ¬ t.session.client.isNone := by simp [Option.isSome_iff_ne_none.mp hc]
  rw [delete, if_neg hopen]

theorem taken_delete (h : Inv t) (hc : t.session.client.isSome) :
    ∃ ds, t.delete.ledger.taken = t.ledger.taken ++ ds ∧ ds.map (·.cmd) =
      t.ended.map fun i => .delete (t.session.name i) t.session.fromTag t.session.toTag := by
  have hwaiting := Sequencer.sound_empty.waiting_foldl rfl
    (t.ended.map fun i => (⟨.delete (t.session.name i) t.session.fromTag t.session.toTag, none⟩ : Command))
  rw [List.foldl_map] at hwaiting
  have hleft : t.session.delete.seq.waiting =
      t.ended.map fun i => ⟨.delete (t.session.name i) t.session.fromTag t.session.toTag, none⟩ := by
    have hopen : ¬ t.session.client.isNone := by simp [Option.isSome_iff_ne_none.mp hc]
    rw [Session.delete, if_neg hopen, h.empty]
    exact (Sequencer.waiting_delete _).trans hwaiting
  refine ⟨t.session.delete.seq.waiting.map fun c => ⟨c.cmd, .change c.cb⟩, ?_, ?_⟩
  · have htaken := t.ledger.taken_sendAll (t.session.delete.seq.waiting.map fun c => ⟨c.cmd, .change c.cb⟩)
    rw [(h.live hc).1, if_pos rfl] at htaken
    rw [delete_eq hc]
    exact htaken
  · rw [hleft, List.map_map, List.map_map]
    rfl

theorem Inv.delete (h : Inv t) : Inv t.delete := by
  cases hc : t.session.client.isSome with
  | false =>
    have hclosed : t.session.client.isNone := by simpa using hc
    rw [RtpProxySession.delete, if_pos hclosed]
    exact h
  | true =>
    have hopen : ¬ t.session.client.isNone := by simp [Option.isSome_iff_ne_none.mp hc]
    rw [delete_eq hc]
    refine ⟨(h.ledger.sendAll _).delete, rfl, fun hs => ?_⟩
    rw [RtpProxySession.setSession, Session.delete, if_neg hopen] at hs
    exact nomatch hs

theorem Inv.returned (h : Inv t) : Inv (step mixed t .returned) ∧ Moves t (step mixed t .returned) := by
  rw [step]
  split
  · rename_i hdeleted
    refine ⟨⟨h.ledger.delete, h.empty, fun hs => ?_⟩, .of_eq rfl rfl rfl rfl⟩
    have hlive := (h.live hs).2
    rw [hdeleted] at hlive
    exact nomatch hlive
  · exact ⟨h, .refl t⟩

theorem step_spec (h : Inv t) (l : Label) (hl : l = .delete → t.session.client.isSome = false) :
    Inv (step mixed t l) ∧ Moves t (step mixed t l) := by
  have hmedia {m : Media} (hkeeps : t.media.view.Keeps m.view) : Inv (t.setMedia m) ∧ Moves t (t.setMedia m) :=
    ⟨h.setMedia hkeeps.isOpen, setMedia_moves hkeeps⟩
  cases l with
  | sdpChange n body =>
    have hkeeps := t.session.onSdpChange_keeps mixed n body
    exact ⟨h.setSession hkeeps.isOpen, setSession_moves h.empty hkeeps⟩
  | play n promptName times index => exact hmedia (Media.begin_keeps (Media.play_keeps _ _ _ _ _ _))
  | stopPlay n index => exact hmedia (Media.begin_keeps (Media.stopPlay_keeps _ _ _ _))
  | copy n remoteIp remotePort index => exact hmedia (Media.begin_keeps (Media.copy_keeps _ _ _ _ _ _))
  | startRecording r => exact hmedia (Media.begin_keeps (Media.startRecording_keeps _ _ _))
  | result r => exact result_spec h r
  | returned => exact h.returned
  | dispatch =>
    rw [step]
    split
    · exact ⟨h, .refl t⟩
    · exact ⟨⟨h.ledger, h.empty, h.live⟩, .of_eq rfl rfl rfl rfl⟩
  | configure n conf => cases n <;> exact ⟨⟨h.ledger, h.empty, h.live⟩, .of_eq rfl rfl rfl rfl⟩
  | client rtpc =>
    have hsome : (t.session.client.map fun _ => rtpc).isSome = t.session.client.isSome := Option.isSome_map
    exact ⟨⟨h.ledger, h.empty, fun hs => h.live (hsome ▸ hs)⟩, .of_eq hsome rfl rfl rfl⟩
  | mediaTimeout index => exact ⟨⟨h.ledger, h.empty, h.live⟩, .of_eq rfl rfl rfl rfl⟩
  | delete =>
    have hclosed : t.session.client.isNone := by simpa using hl rfl
    rw [step, RtpProxySession.delete, if_pos hclosed]
    exact ⟨h, .refl t⟩

theorem run_spec (h : Inv t) (hls : .delete ∈ ls → t.session.client.isSome = false) :
    Inv (run (step mixed) t ls) ∧ Moves t (run (step mixed) t ls) := by
  induction ls generalizing t with
  | nil => exact ⟨h, .refl t⟩
  | cons l ls ih =>
    obtain ⟨hinv, hmoves⟩ := @step_spec mixed t h l fun hl => hls (hl ▸ List.mem_cons_self)
    obtain ⟨hinv', hmoves'⟩ := ih hinv fun hl => hmoves.isOpen.trans (hls (List.mem_cons_of_mem l hl))
    exact ⟨hinv', hmoves.trans hmoves'⟩

theorem handed_result (h : Inv t) (r : Option Text) :
    min (t.ledger.handed.length + 1) t.ledger.taken.length ≤ (t.result r).ledger.handed.length := by
  have hqueue := h.ledger.seq.queue
  have hnext := h.ledger.handed_next
  unfold result
  cases hin : t.ledger.seq.inflight with
  | none =>
    have hall := h.ledger.order
    rw [hqueue hin, List.append_nil] at hall
    rw [hall]
    exact Nat.min_le_right _ _
  | some c =>
    apply Nat.le_trans hnext
    obtain ⟨cmd, (_ | ⟨n, up⟩) | next⟩ := c
    · exact Nat.le_refl _
    · exact Ledger.handed_sendAll _ _
    · exact Ledger.handed_sendAll _ _

theorem handed_results (h : Inv t) (rs : List (Option Text)) :
    t.ledger.taken <+: (run (step mixed) t (rs.map .result)).ledger.taken ∧
      min (t.ledger.handed.length + rs.length) t.ledger.taken.length ≤
        (run (step mixed) t (rs.map .result)).ledger.handed.length := by
  induction rs generalizing t with
  | nil => exact ⟨List.prefix_rfl, Nat.min_le_left _ _⟩
  | cons r rs ih =>
    obtain ⟨hinv, hmoves⟩ := result_spec h r
    obtain ⟨new, hnew, -⟩ := hmoves.taken
    have hfirst : t.ledger.taken <+: (t.result r).ledger.taken := ⟨new, hnew.symm⟩
    obtain ⟨htaken, hhanded⟩ := ih hinv
    have hone := handed_result h r
    have hlen := hfirst.length_le
    refine ⟨hfirst.trans htaken, ?_⟩
    rw [List.map_cons, Lib.run_cons, step, List.length_cons]
    omega

theorem Inv.handed (h : Inv t) {rs : List (Option Text)} (hlen : t.ledger.seq.comqueue.length ≤ rs.length) :
    t.ledger.taken <+: (run (step mixed) t (rs.map .result)).ledger.handed := by
  obtain ⟨htaken, hhanded⟩ := @handed_results mixed t h rs
  have hinv := (@run_spec mixed t (rs.map .result) h (fun hd => by simp at hd)).1
  apply List.prefix_of_prefix_length_le htaken hinv.ledger.handed_prefix
  have hall := congrArg List.length h.ledger.order
  rw [List.length_append] at hall
  omega

theorem Fits_deletes {v : View} {c : Cmd} (h : v.Fits c) : c.deletes = none := by
  cases c with
  | update | other => rfl
  | delete => exact h.elim

theorem Fits_closed {v : View} {c : Cmd} (h : v.Fits c) (hv : v.isOpen = false) : c.updates = none := by
  cases c with
  | update =>
    have ho := h.1
    rw [hv] at ho
    exact nomatch ho
  | delete | other => rfl

theorem mem_ended {i : ℕ} : (i : ℤ) ∈ t.ended ↔ (i : ℤ) ≤ t.session.maxIndex ∧ t.session.mediaTimeoutIndex ≠ some (i : ℤ) := by
  have hrange : (i : ℤ) ∈ (List.range (t.session.maxIndex + 1).toNat).reverse.map Int.ofNat ↔
      (i : ℤ) ≤ t.session.maxIndex := by
    rw [List.mem_map]
    constructor
    · rintro ⟨j, hj, heq⟩
      rw [List.mem_reverse, List.mem_range] at hj
      have hij : (j : ℤ) = i := heq
      omega
    · intro hi
      refine ⟨i, ?_, rfl⟩
      rw [List.mem_reverse, List.mem_range]
      omega
  rw [ended, List.mem_filter, hrange, bne_iff_ne]

theorem nodup_ended (t : RtpProxySession) : t.ended.Nodup := by
  apply List.Nodup.filter
  apply List.Nodup.map Int.ofNat_injective
  exact List.nodup_reverse.mpr List.nodup_range

theorem countP_ended (i : ℕ) :
    (t.ended.map fun j => Cmd.delete (t.session.name j) t.session.fromTag t.session.toTag).countP
        (fun c => c.deletes = some (t.session.name i)) = if (i : ℤ) ∈ t.ended then 1 else 0 := by
  rw [List.countP_map, ← t.nodup_ended.count]
  apply List.countP_congr
  intro j _
  have hname : t.session.name j = t.session.name i ↔ j = i := streamName_inj
  simp [Cmd.deletes, hname]

theorem prefix_of_first {α : Type*} {p : α → Prop} {as bs pre post : List α} {d : α}
    (h : pre ++ d :: post <+: as ++ bs) (has : ∀ c ∈ as, ¬ p c) (hd : p d) :
    as <+: pre ∧ post ⊆ bs := by
  induction as generalizing pre with
  | nil =>
    refine ⟨List.nil_prefix, fun c hc => h.subset ?_⟩
    exact List.mem_append_right _ (List.mem_cons_of_mem d hc)
  | cons a as ih =>
    cases pre with
    | nil =>
      obtain ⟨rfl, -⟩ := List.cons_prefix_cons.mp h
      exact absurd hd (has d List.mem_cons_self)
    | cons b pre =>
      obtain ⟨rfl, hrest⟩ := List.cons_prefix_cons.mp h
      obtain ⟨hpre, hpost⟩ := ih hrest fun c hc => has c (List.mem_cons_of_mem b hc)
      exact ⟨List.cons_prefix_cons.mpr ⟨rfl, hpre⟩, hpost⟩

theorem Fresh.inv (h : Fresh t) : Inv t := by
  refine ⟨?_, h.session.seq, fun _ => ?_⟩
  · rw [h.ledger]
    exact Ledger.sound_empty
  · rw [h.ledger]
    exact ⟨rfl, rfl⟩

/-- What the run of a session until its deletion and the run after it add. -/
structure Ends (t t' : RtpProxySession) : Prop where
  name : t'.session.name = t.session.name
  fits : ∀ c ∈ t.ledger.taken, t.view.Fits c.cmd
  taken : ∃ ds new, t'.ledger.taken = t.ledger.taken ++ (ds ++ new) ∧
    (ds.map (·.cmd) = t.ended.map fun i => .delete (t.session.name i) t.session.fromTag t.session.toTag) ∧
    ∀ c ∈ new, c.cmd.updates = none ∧ c.cmd.deletes = none

theorem run_ends (h : Fresh t) (hls : .delete ∉ ls) (ls' : List Label) :
    Inv (run (step mixed) t (ls ++ .delete :: ls')) ∧
      Ends (run (step mixed) t ls) (run (step mixed) t (ls ++ .delete :: ls')) := by
  obtain ⟨hinv, hmoves⟩ := @run_spec mixed t ls h.inv fun hd => absurd hd hls
  obtain ⟨new, hnew, hfits⟩ := hmoves.taken
  rw [Lib.run_append, Lib.run_cons, step]
  generalize run (step mixed) t ls = u at *
  have hopen : u.session.client.isSome := hmoves.isOpen.trans h.session.client
  obtain ⟨ds, hds, hcmds⟩ := taken_delete hinv hopen
  have hview : u.delete.view.isOpen = false ∧ u.delete.view.callId = u.view.callId := by
    have hclient : ¬ u.session.client.isNone := by simp [Option.isSome_iff_ne_none.mp hopen]
    rw [delete_eq hopen, setSession, Session.delete, if_neg hclient]
    exact ⟨rfl, rfl⟩
  obtain ⟨hinv', hmoves'⟩ := @run_spec mixed _ ls' hinv.delete fun _ => hview.1
  obtain ⟨new', hnew', hfits'⟩ := hmoves'.taken
  refine ⟨hinv', ?_, ?_, ds, new', ?_, hcmds, ?_⟩
  · funext i
    exact congrArg (streamName · i) (hmoves'.callId.trans hview.2)
  · rw [h.ledger] at hnew
    rw [hnew]
    exact hfits
  · rw [hnew', hds, List.append_assoc]
  · intro c hc
    exact ⟨Fits_closed (hfits' c hc) (hmoves'.isOpen.trans hview.1), Fits_deletes (hfits' c hc)⟩

theorem Ends.before (h : Ends t t') (i : ℕ) : t.deletions i = 0 := by
  apply List.countP_eq_zero.mpr
  intro c hc
  rw [Fits_deletes (h.fits c hc)]
  simp

theorem Ends.index_le (h : Ends t t') {i : ℕ} (hi : t'.Updated i) : (i : ℤ) ≤ t.session.maxIndex := by
  obtain ⟨ds, new, htaken, hcmds, hnew⟩ := h.taken
  obtain ⟨c, hc, hupdates⟩ := hi
  rw [htaken, List.mem_append, List.mem_append] at hc
  rcases hc with hc | hc | hc
  · have hfits := h.fits c hc
    obtain ⟨cmd, cb⟩ := c
    cases cmd with
    | update =>
      obtain ⟨-, j, hj, hle⟩ := hfits
      have hname : streamName t.session.callId j = streamName t.session.callId i := by
        rw [h.name] at hupdates
        exact hj.symm.trans (Option.some.inj hupdates)
      have hji : (j : ℤ) = i := streamName_inj.mp hname
      rw [← hji]
      exact hle
    | delete => exact hfits.elim
    | other => exact nomatch hupdates
  · have hmem : c.cmd ∈ ds.map (·.cmd) := List.mem_map_of_mem hc
    rw [hcmds] at hmem
    obtain ⟨j, -, hj⟩ := List.mem_map.mp hmem
    rw [← hj] at hupdates
    exact nomatch hupdates
  · rw [(hnew c hc).1] at hupdates
    exact nomatch hupdates

theorem Ends.once (h : Ends t t') {i : ℕ} (hi : t'.Updated i) :
    t'.deletions i = if t.session.mediaTimeoutIndex = some (i : ℤ) then 0 else 1 := by
  have hbefore := h.before i
  have hle := h.index_le hi
  obtain ⟨ds, new, htaken, hcmds, hnew⟩ := h.taken
  have hds : ds.countP (fun c => c.cmd.deletes = some (t.session.name i)) =
      if (i : ℤ) ∈ t.ended then 1 else 0 := by
    rw [← countP_ended, ← hcmds, List.countP_map]
    rfl
  have hzero : new.countP (fun c => c.cmd.deletes = some (t.session.name i)) = 0 := by
    apply List.countP_eq_zero.mpr
    intro c hc
    rw [(hnew c hc).2]
    simp
  rw [deletions] at hbefore
  rw [deletions, h.name, htaken, List.countP_append, List.countP_append, hbefore, hds, hzero, Nat.zero_add,
    Nat.add_zero]
  by_cases hm : t.session.mediaTimeoutIndex = some (i : ℤ)
  · rw [if_pos hm, if_neg fun hmem => (mem_ended.mp hmem).2 hm]
  · rw [if_neg hm, if_pos (mem_ended.mpr ⟨hle, hm⟩)]

theorem Ends.last (h : Ends t t') (hinv : Inv t') {pre post : List Queued} {d : Queued}
    (hhanded : t'.ledger.handed = pre ++ d :: post) (hd : d.cmd.deletes.isSome) :
    t.ledger.taken <+: pre ∧ ∀ c ∈ post, c.cmd.updates = none := by
  obtain ⟨ds, new, htaken, hcmds, hnew⟩ := h.taken
  have hprefix := hinv.ledger.handed_prefix
  rw [hhanded, htaken] at hprefix
  have hfirst : ∀ c ∈ t.ledger.taken, ¬ c.cmd.deletes.isSome := by
    intro c hc
    rw [Fits_deletes (h.fits c hc)]
    simp
  obtain ⟨hpre, hpost⟩ := prefix_of_first hprefix hfirst hd
  refine ⟨hpre, fun c hc => ?_⟩
  rcases List.mem_append.mp (hpost hc) with hmem | hmem
  · have hcmd : c.cmd ∈ ds.map (·.cmd) := List.mem_map_of_mem hmem
    rw [hcmds] at hcmd
    obtain ⟨j, -, hj⟩ := List.mem_map.mp hcmd
    rw [← hj]
    rfl
  · exact (hnew c hmem).1

/-- The first `delete` of a session ends every stream that an update was ever sent for, but the one
that timed out: each once, and behind everything that was sent before. -/
theorem delete_completes (h : Fresh t) (hls : .delete ∉ ls) (ls' : List Label) :
    TornDown mixed (run (step mixed) t ls) (run (step mixed) t (ls ++ .delete :: ls')) := by
  obtain ⟨hinv, hends⟩ := @run_ends mixed t ls h hls ls'
  exact ⟨hends.before, fun i hi => hends.once hi, fun pre d post hh hd => hends.last hinv hh hd,
    fun rs hlen => hinv.handed hlen⟩

def new (rtpc : Client) : RtpProxySession := ⟨Session.new rtpc, [], 0, [], .empty⟩

theorem new_fresh (rtpc : Client) : (new rtpc).Fresh := ⟨Session.new_fresh rtpc, rfl⟩

def recording : List Label := [.startRecording ⟨none, 2, none, false⟩]

theorem delete_completes_recording :
    TornDown (fun _ => .error .other) (run (step fun _ => .error .other) (new localClient) recording)
        (run (step fun _ => .error .other) (new localClient)
          (recording ++ .delete :: [.result (some "5000 2.2.2.2".toList), .delete])) ∧
      (run (step fun _ => .error .other) (new localClient)
        (recording ++ .delete :: [.result (some "5000 2.2.2.2".toList), .delete])).deletions 2 = 1 := by
  refine ⟨delete_completes (new_fresh localClient) ?_ _, by rfl⟩
  simp [recording]

end RtpProxySession

end SippyB2bua.Rtpp
