import Mathlib.Algebra.GroupWithZero.Nat
import Mathlib.Data.List.Perm.Basic
import SippyB2bua.Lib.Run
import SippyB2bua.Lib.Sequencer

/-!
# The command sequencer, with what runs inside what

`Rtp_proxy_cmd_sequencer` hands its commands to a client, which may complete a command while it
is being handed over. The completion takes the next command before it calls back, and a callback
may send commands and delete the sequencer. The stack holds the calls that have not returned.
-/

namespace SippyB2bua.Rtpp
open Lib (Sequencer Along run run_invariant)

variable {α β : Type*}

/-- A call that has not returned. -/
inductive Call (α β : Type*)
  /-- `rtp_proxy_client.send_command`; then a callback is called with a result, if it was called
  from `result_callback`. -/
  | client (after : Option (α × β))
  /-- A callback, called from `result_callback`. -/
  | callback

structure CmdSequencer (α β : Type*) where
  seq : Sequencer α
  stack : List (Call α β)
  /-- The commands that were sent while there was a client, and the others. -/
  sent : List α
  dropped : List α
  /-- The commands that the client got, and those of them that it has not completed. -/
  handed : List α
  outstanding : List α
  completed : List (α × β)
  called : List (α × β)

namespace CmdSequencer

def init : CmdSequencer α β := ⟨.empty, [], [], [], [], [], [], []⟩

def hand (s : CmdSequencer α β) (c : α) (after : Option (α × β)) : CmdSequencer α β :=
  { s with handed := s.handed ++ [c], outstanding := s.outstanding ++ [c], stack := .client after :: s.stack }

def sendCommand (s : CmdSequencer α β) (c : α) : CmdSequencer α β :=
  if s.seq.live then
    let t := { s with seq := s.seq.sendCommand c, sent := s.sent ++ [c] }
    if s.seq.inflight.isSome then t else t.hand c none
  else { s with dropped := s.dropped ++ [c] }

/-- The end of `result_callback`. -/
def settle (s : CmdSequencer α β) : CmdSequencer α β :=
  if s.seq.deleted then { s with seq := s.seq.delete } else s

/-- `if result_callback != None: result_callback(..)`. -/
def callBack (hasCb : α → Bool) (s : CmdSequencer α β) (c : α) (r : β) : CmdSequencer α β :=
  if hasCb c then { s with called := s.called ++ [(c, r)], stack := .callback :: s.stack } else s.settle

def resultCallback (hasCb : α → Bool) (s : CmdSequencer α β) (r : β) : CmdSequencer α β :=
  match s.seq.inflight with
  | none => s
  | some c =>
    let t := { s with seq := s.seq.next }
    match t.seq.inflight with
    | some d => t.hand d (some (c, r))
    | none => t.callBack hasCb c r

def ret (hasCb : α → Bool) (s : CmdSequencer α β) : CmdSequencer α β :=
  match s.stack with
  | [] => s
  | .client none :: stack => { s with stack := stack }
  | .client (some (c, r)) :: stack => { s with stack := stack }.callBack hasCb c r
  | .callback :: stack => { s with stack := stack }.settle

def running (s : CmdSequencer α β) : Bool :=
  match s.stack with
  | .client _ :: _ => false
  | _ => true

inductive Step (α β : Type*)
  | send (c : α)
  /-- The client completes a command, from the event loop or inside any call. -/
  | complete (c : α) (r : β)
  | ret
  | delete

def step [DecidableEq α] (hasCb : α → Bool) (s : CmdSequencer α β) : Step α β → CmdSequencer α β
  | .send c => if s.running then s.sendCommand c else s
  | .complete c r =>
    if c ∈ s.outstanding then
      { s with
        outstanding := s.outstanding.erase c
        completed := s.completed ++ [(c, r)] }.resultCallback hasCb r
    else s
  | .ret => s.ret hasCb
  | .delete => if s.running then { s with seq := s.seq.delete } else s

def Call.due (hasCb : α → Bool) : Call α β → Option (α × β)
  | .client (some p) => if hasCb p.1 then some p else none
  | _ => none

def due (hasCb : α → Bool) (s : CmdSequencer α β) : List (α × β) := s.stack.filterMap (Call.due hasCb)

structure Inv (hasCb : α → Bool) (s : CmdSequencer α β) : Prop where
  sound : s.seq.Sound
  fifo : s.handed ++ s.seq.comqueue = s.sent
  one : s.outstanding = s.seq.inflight.toList
  done : s.completed.map Prod.fst ++ s.outstanding = s.handed
  calls : (s.called ++ s.due hasCb).Perm (s.completed.filter fun p => hasCb p.1)

section Steps
variable {hasCb : α → Bool} {s : CmdSequencer α β} {c : α} {r : β}

theorem Inv.delete (h : Inv hasCb s) : Inv hasCb { s with seq := s.seq.delete } := by
  refine ⟨h.sound.delete, ?_, ?_, h.done, h.calls⟩
  · exact (congrArg (s.handed ++ ·) (Sequencer.comqueue_delete s.seq)).trans h.fifo
  · exact h.one.trans (congrArg Option.toList (Sequencer.inflight_delete s.seq)).symm

theorem Inv.settle (h : Inv hasCb s) : Inv hasCb s.settle := by
  unfold CmdSequencer.settle
  split
  · exact h.delete
  · exact h

/-- A callback that is due is called now, whatever the stack below. -/
theorem Inv.callBack (hsound : s.seq.Sound) (hfifo : s.handed ++ s.seq.comqueue = s.sent)
    (hone : s.outstanding = s.seq.inflight.toList)
    (hdone : s.completed.map Prod.fst ++ s.outstanding = s.handed)
    (hcalls : (s.called ++ (if hasCb c then [(c, r)] else []) ++ s.due hasCb).Perm
      (s.completed.filter fun p => hasCb p.1)) :
    Inv hasCb (s.callBack hasCb c r) := by
  unfold CmdSequencer.callBack
  cases hc : hasCb c with
  | true =>
    rw [hc] at hcalls
    exact ⟨hsound, hfifo, hone, hdone, hcalls⟩
  | false =>
    rw [hc] at hcalls
    apply Inv.settle
    refine ⟨hsound, hfifo, hone, hdone, ?_⟩
    simpa using hcalls

theorem Inv.sendCommand (h : Inv hasCb s) (c : α) : Inv hasCb (s.sendCommand c) := by
  have hs := h.sound.sendCommand c
  unfold CmdSequencer.sendCommand
  split
  · next hl =>
    dsimp only
    split
    · next hi =>
      have hseq := Sequencer.sendCommand_busy hl hi c
      refine ⟨hs, ?_, ?_, h.done, h.calls⟩
      · simp only [hseq, ← h.fifo, List.append_assoc]
      · simp only [hseq]
        exact h.one
    · next hi =>
      have hi : s.seq.inflight = none := Option.not_isSome_iff_eq_none.1 hi
      have hseq := Sequencer.sendCommand_idle hl hi c
      have hq : s.seq.comqueue = [] := h.sound.queue hi
      have hout : s.outstanding = [] := h.one.trans (congrArg Option.toList hi)
      refine ⟨hs, ?_, ?_, ?_, h.calls⟩
      · simp only [hand, hseq, hq, ← h.fifo, List.append_nil]
      · simp only [hand, hseq, hout]
        rfl
      · simp only [hand, hout, ← h.done, List.append_nil, List.nil_append]
  · exact ⟨h.sound, h.fifo, h.one, h.done, h.calls⟩

theorem Inv.ret (h : Inv hasCb s) : Inv hasCb (s.ret hasCb) := by
  obtain ⟨hsound, hfifo, hone, hdone, hcalls⟩ := h
  unfold CmdSequencer.ret
  unfold due at hcalls
  split
  · exact ⟨hsound, hfifo, hone, hdone, hcalls⟩
  · next stack hstack =>
    rw [hstack] at hcalls
    exact ⟨hsound, hfifo, hone, hdone, hcalls⟩
  · next c r stack hstack =>
    rw [hstack] at hcalls
    refine Inv.callBack (s := { s with stack := stack }) hsound hfifo hone hdone ?_
    cases hc : hasCb c <;> simpa [Call.due, hc, due] using hcalls
  · next stack hstack =>
    rw [hstack] at hcalls
    apply Inv.settle
    exact ⟨hsound, hfifo, hone, hdone, hcalls⟩

theorem Inv.complete [DecidableEq α] (h : Inv hasCb s) (hc : c ∈ s.outstanding) (r : β) :
    Inv hasCb ({ s with
      outstanding := s.outstanding.erase c
      completed := s.completed ++ [(c, r)] }.resultCallback hasCb r) := by
  obtain ⟨hsound, hfifo, hone, hdone, hcalls⟩ := h
  have hi : s.seq.inflight = some c := by
    rw [hone, Option.mem_toList] at hc
    exact hc
  have hout : s.outstanding = [c] := by
    rw [hone, hi]
    rfl
  have hlive : s.seq.live = true := hsound.live (by rw [hi]; rfl)
  have hdone' : (s.completed ++ [(c, r)]).map Prod.fst = s.handed := by
    rw [List.map_append, ← hdone, hout]
    rfl
  have hcalls' : (s.called ++ (if hasCb c then [(c, r)] else []) ++ s.due hasCb).Perm
      ((s.completed ++ [(c, r)]).filter fun p => hasCb p.1) := by
    have hlast : ([(c, r)].filter fun p => hasCb p.1) = if hasCb c then [(c, r)] else [] := by
      cases hb : hasCb c <;> simp [hb]
    rw [List.filter_append, hlast, List.append_assoc]
    refine List.Perm.trans ?_ (hcalls.append_right _)
    rw [List.append_assoc]
    exact List.perm_append_comm.append_left _
  unfold CmdSequencer.resultCallback
  simp only [hi, hout, List.erase_cons_head]
  cases hq : s.seq.comqueue with
  | nil =>
    have hnext : s.seq.next = { s.seq with inflight := none, comqueue := [] } := by
      rw [Sequencer.next_live hlive, hq]
      rfl
    rw [hq] at hfifo
    simp only [hnext]
    apply Inv.callBack
    · exact hnext ▸ hsound.next
    · exact hfifo
    · rfl
    · exact (List.append_nil _).trans hdone'
    · exact hcalls'
  | cons d queue =>
    have hnext : s.seq.next = { s.seq with inflight := some d, comqueue := queue } := by
      rw [Sequencer.next_live hlive, hq]
      rfl
    rw [hq] at hfifo
    simp only [hnext, hand]
    refine ⟨hnext ▸ hsound.next, ?_, rfl, ?_, ?_⟩
    · rw [← hfifo, List.append_assoc]
      rfl
    · rw [← hdone']
      rfl
    · cases hb : hasCb c with
      | true =>
        rw [hb] at hcalls'
        simpa [due, Call.due, hb] using hcalls'
      | false =>
        rw [hb] at hcalls'
        simpa [due, Call.due, hb] using hcalls'

theorem Inv.step [DecidableEq α] (h : Inv hasCb s) (l : Step α β) : Inv hasCb (s.step hasCb l) := by
  cases l with
  | send c =>
    rw [CmdSequencer.step]
    split
    · exact h.sendCommand c
    · exact h
  | complete c r =>
    rw [CmdSequencer.step]
    split
    · next hc => exact h.complete hc r
    · exact h
  | ret => exact h.ret
  | delete =>
    rw [CmdSequencer.step]
    split
    · exact h.delete
    · exact h

theorem inv_init : Inv hasCb (init : CmdSequencer α β) :=
  ⟨Sequencer.sound_empty, rfl, rfl, rfl, List.Perm.refl _⟩

end Steps

/-- What the users of a sequencer rely on. -/
structure Faithful (hasCb : α → Bool) (s : CmdSequencer α β) : Prop where
  /-- The client gets the commands in the order in which they were sent, the rest are queued. -/
  fifo : s.handed ++ s.seq.comqueue = s.sent
  /-- At most one command is with the client, and none only if none is queued. -/
  one : s.outstanding.length ≤ 1
  idle : s.seq.inflight = none → s.outstanding = [] ∧ s.seq.comqueue = []
  /-- The client completes the commands in their order. -/
  done : s.completed.map Prod.fst ++ s.outstanding = s.handed
  /-- The callbacks that were called, and those that calls on the stack are about to call, are those
  of the completed commands, each with the result of its own command. -/
  calls : (s.called ++ s.due hasCb).Perm (s.completed.filter fun p => hasCb p.1)
  /-- When nothing is running and nothing is in flight, all that was sent is completed. -/
  finished : s.stack = [] → s.outstanding = [] →
    s.completed.map Prod.fst = s.sent ∧ s.called.Perm (s.completed.filter fun p => hasCb p.1)

theorem Inv.faithful {hasCb : α → Bool} {s : CmdSequencer α β} (h : Inv hasCb s) : Faithful hasCb s := by
  have hidle (hi : s.seq.inflight = none) : s.outstanding = [] ∧ s.seq.comqueue = [] :=
    ⟨h.one.trans (congrArg Option.toList hi), h.sound.queue hi⟩
  refine ⟨h.fifo, ?_, hidle, h.done, h.calls, fun hstack hout => ⟨?_, ?_⟩⟩
  · rw [h.one]
    cases s.seq.inflight <;> simp
  · have hi : s.seq.inflight = none := by
      rw [← Option.toList_eq_nil_iff, ← h.one]
      exact hout
    rw [← h.fifo, (hidle hi).2, ← h.done, hout, List.append_nil, List.append_nil]
  · have := h.calls
    rw [due, hstack] at this
    simpa using this

/-- A sequencer that nobody deleted has its client and has taken all commands. -/
structure Kept (s : CmdSequencer α β) : Prop where
  live : s.seq.live = true
  deleted : s.seq.deleted = false
  dropped : s.dropped = []

section Kept
variable {hasCb : α → Bool} {s : CmdSequencer α β}

theorem Kept.settle (h : Kept s) : Kept s.settle := by
  rw [CmdSequencer.settle, if_neg (by simp [h.deleted])]
  exact h

theorem Kept.callBack (h : Kept s) (c : α) (r : β) : Kept (s.callBack hasCb c r) := by
  unfold CmdSequencer.callBack
  split
  · exact ⟨h.live, h.deleted, h.dropped⟩
  · exact h.settle

theorem Kept.step [DecidableEq α] (h : Kept s) {l : Step α β} (hl : l ≠ .delete) :
    Kept (s.step hasCb l) := by
  cases l with
  | send c =>
    rw [CmdSequencer.step]
    split
    · rw [CmdSequencer.sendCommand, if_pos h.live]
      have hseq : (s.seq.sendCommand c).live = true ∧ (s.seq.sendCommand c).deleted = false :=
        ⟨(Sequencer.live_sendCommand ..).trans h.live, (Sequencer.deleted_sendCommand ..).trans h.deleted⟩
      dsimp only
      split
      · exact ⟨hseq.1, hseq.2, h.dropped⟩
      · exact ⟨hseq.1, hseq.2, h.dropped⟩
    · exact h
  | complete c r =>
    rw [CmdSequencer.step]
    split
    · unfold CmdSequencer.resultCallback
      have hseq : s.seq.next.live = true ∧ s.seq.next.deleted = false :=
        ⟨(Sequencer.live_next ..).trans h.live, (Sequencer.deleted_next ..).trans h.deleted⟩
      dsimp only
      split
      · exact ⟨h.live, h.deleted, h.dropped⟩
      · split
        · exact ⟨hseq.1, hseq.2, h.dropped⟩
        · apply Kept.callBack
          exact ⟨hseq.1, hseq.2, h.dropped⟩
    · exact h
  | ret =>
    rw [CmdSequencer.step, CmdSequencer.ret]
    split
    · exact h
    · exact ⟨h.live, h.deleted, h.dropped⟩
    · apply Kept.callBack
      exact ⟨h.live, h.deleted, h.dropped⟩
    · apply Kept.settle
      exact ⟨h.live, h.deleted, h.dropped⟩
  | delete => exact absurd rfl hl

theorem Kept.run [DecidableEq α] (h : Kept s) {ls : List (Step α β)} (hd : ∀ l ∈ ls, l ≠ .delete) :
    Kept (Lib.run (CmdSequencer.step hasCb) s ls) := by
  induction ls generalizing s with
  | nil => exact h
  | cons l ls ih =>
    rw [List.forall_mem_cons] at hd
    exact ih (h.step hd.1) hd.2

end Kept

def sends [DecidableEq α] (hasCb : α → Bool) : CmdSequencer α β → List (Step α β) → List α
  | _, [] => []
  | s, .send c :: ls =>
    if s.running then c :: sends hasCb (s.step hasCb (.send c)) ls
    else sends hasCb (s.step hasCb (.send c)) ls
  | s, l :: ls => sends hasCb (s.step hasCb l) ls

section Sends
variable {hasCb : α → Bool} {s : CmdSequencer α β}

theorem taken_settle : s.settle.sent = s.sent ∧ s.settle.dropped = s.dropped := by
  unfold settle
  split <;> exact ⟨rfl, rfl⟩

theorem taken_callBack (c : α) (r : β) :
    (s.callBack hasCb c r).sent = s.sent ∧ (s.callBack hasCb c r).dropped = s.dropped := by
  unfold callBack
  split
  · exact ⟨rfl, rfl⟩
  · exact taken_settle

theorem taken_resultCallback (r : β) :
    (s.resultCallback hasCb r).sent = s.sent ∧ (s.resultCallback hasCb r).dropped = s.dropped := by
  unfold resultCallback
  dsimp only
  split
  · exact ⟨rfl, rfl⟩
  · split
    · exact ⟨rfl, rfl⟩
    · exact taken_callBack ..

theorem taken_ret : (s.ret hasCb).sent = s.sent ∧ (s.ret hasCb).dropped = s.dropped := by
  unfold ret
  split
  · exact ⟨rfl, rfl⟩
  · exact ⟨rfl, rfl⟩
  · exact taken_callBack ..
  · exact taken_settle

variable (hasCb) in
/-- Only a call of `send_command` adds to the commands, one of the two lists. -/
theorem taken_step [DecidableEq α] {l : Step α β} (hl : ∀ c, l ≠ .send c) :
    (s.step hasCb l).sent = s.sent ∧ (s.step hasCb l).dropped = s.dropped := by
  cases l with
  | send c => exact absurd rfl (hl c)
  | complete c r =>
    rw [step]
    split
    · exact taken_resultCallback r
    · exact ⟨rfl, rfl⟩
  | ret => exact taken_ret
  | delete =>
    rw [step]
    split <;> exact ⟨rfl, rfl⟩

/-- A sequencer without a client never gets one again, and one that has a client dropped nothing. -/
def Closed (s : CmdSequencer α β) : Prop := s.seq.live = true → s.dropped = []

theorem live_settle (h : s.settle.seq.live = true) : s.seq.live = true := by
  unfold settle at h
  split at h
  · exact Sequencer.live_of_delete h
  · exact h

theorem live_callBack {c : α} {r : β} (h : (s.callBack hasCb c r).seq.live = true) : s.seq.live = true := by
  unfold callBack at h
  split at h
  · exact h
  · exact live_settle h

theorem live_step [DecidableEq α] {l : Step α β} (h : (s.step hasCb l).seq.live = true) :
    s.seq.live = true := by
  cases l with
  | send c =>
    rw [step] at h
    split at h
    · unfold sendCommand at h
      split at h
      · assumption
      · exact h
    · exact h
  | complete c r =>
    rw [step] at h
    split at h
    · unfold resultCallback at h
      dsimp only at h
      split at h
      · exact h
      · split at h
        · exact (Sequencer.live_next _).symm.trans h
        · exact (Sequencer.live_next _).symm.trans (live_callBack h)
    · exact h
  | ret =>
    rw [step, ret] at h
    split at h
    · exact h
    · exact h
    · next stack _ => exact live_callBack (s := { s with stack := stack }) h
    · next stack _ => exact live_settle (s := { s with stack := stack }) h
  | delete =>
    rw [step] at h
    split at h
    · exact Sequencer.live_of_delete h
    · exact h

variable (hasCb) in
/-- A command that is sent goes to the end of the commands so far, taken or dropped. -/
theorem taken_send [DecidableEq α] (h : Closed s) (c : α) :
    Closed (s.step hasCb (.send c)) ∧
      (s.step hasCb (.send c)).sent ++ (s.step hasCb (.send c)).dropped =
        s.sent ++ s.dropped ++ if s.running then [c] else [] := by
  rw [step]
  split
  · unfold sendCommand
    split
    · next hlive =>
      have hd := h hlive
      have htaken : s.sent ++ [c] ++ s.dropped = s.sent ++ s.dropped ++ [c] := by
        rw [hd, List.append_nil, List.append_nil]
      dsimp only
      split
      · exact ⟨fun _ => hd, htaken⟩
      · exact ⟨fun _ => hd, htaken⟩
    · next hlive => exact ⟨fun h' => absurd h' hlive, (List.append_assoc ..).symm⟩
  · exact ⟨h, (List.append_nil _).symm⟩

variable (hasCb) in
theorem taken_run [DecidableEq α] (h : Closed s) (ls : List (Step α β)) :
    (run (step hasCb) s ls).sent ++ (run (step hasCb) s ls).dropped =
      s.sent ++ s.dropped ++ sends hasCb s ls := by
  induction ls generalizing s with
  | nil => exact (List.append_nil _).symm
  | cons l ls ih =>
    by_cases hl : ∃ c, l = .send c
    · obtain ⟨c, rfl⟩ := hl
      obtain ⟨hclosed, htaken⟩ := taken_send hasCb h c
      rw [Lib.run_cons, ih hclosed, htaken, sends, List.append_assoc]
      congr 1
      split <;> rfl
    · have hne : ∀ c, l ≠ .send c := fun c hc => hl ⟨c, hc⟩
      obtain ⟨hsent, hdropped⟩ := taken_step (s := s) hasCb hne
      have hclosed : Closed (s.step hasCb l) := fun hlive => hdropped.trans (h (live_step hlive))
      have hsends : sends hasCb s (l :: ls) = sends hasCb (s.step hasCb l) ls := by
        cases l with
        | send c => exact absurd rfl (hne c)
        | complete c r => rfl
        | ret => rfl
        | delete => rfl
      rw [Lib.run_cons, ih hclosed, hsent, hdropped, hsends]

theorem sent_step [DecidableEq α] (l : Step α β) : s.sent <+: (s.step hasCb l).sent := by
  cases l with
  | send c =>
    rw [step]
    split
    · unfold sendCommand
      split
      · dsimp only
        split
        · exact List.prefix_append ..
        · exact List.prefix_append ..
      · exact List.prefix_refl _
    · exact List.prefix_refl _
  | complete c r => exact ⟨[], by rw [(taken_step hasCb (by simp)).1, List.append_nil]⟩
  | ret => exact ⟨[], by rw [(taken_step hasCb (by simp)).1, List.append_nil]⟩
  | delete => exact ⟨[], by rw [(taken_step hasCb (by simp)).1, List.append_nil]⟩

end Sends

/-- A call that has not returned makes the callback that is due and returns from it. -/
def Call.work : Call α β → ℕ
  | .client none => 1
  | .client (some _) => 2
  | .callback => 1

/-- What is left to do if nothing more is sent: calls that are to return, commands that are to be
completed. -/
def work (s : CmdSequencer α β) : ℕ :=
  (s.stack.map Call.work).sum + 3 * (s.outstanding.length + s.seq.comqueue.length)

/-- A call returns, or a command is completed. -/
def Busy (s : CmdSequencer α β) : Step α β → Prop
  | .ret => s.stack ≠ []
  | .complete c _ => c ∈ s.outstanding
  | _ => False

section Work
variable {hasCb : α → Bool} {s : CmdSequencer α β} {c : α} {r : β}

theorem work_settle : s.settle.work = s.work := by
  unfold settle
  split
  · unfold work
    rw [Sequencer.comqueue_delete]
  · rfl

theorem work_callBack : (s.callBack hasCb c r).work ≤ s.work + 1 := by
  unfold callBack
  split
  · simp only [work, Call.work, List.map_cons, List.sum_cons]
    omega
  · rw [work_settle]
    omega

theorem work_ret (h : s.stack ≠ []) : (s.ret hasCb).work < s.work := by
  unfold ret
  split
  · next hstack => exact absurd hstack h
  · next hstack =>
    simp only [work, hstack, Call.work, List.map_cons, List.sum_cons]
    omega
  · next stack hstack =>
    refine Nat.lt_of_le_of_lt work_callBack ?_
    simp only [work, hstack, Call.work, List.map_cons, List.sum_cons]
    omega
  · next hstack =>
    rw [work_settle]
    simp only [work, hstack, Call.work, List.map_cons, List.sum_cons]
    omega

/-- A command that is completed makes at most one call to be returned from, with its callback. -/
theorem work_complete [DecidableEq α] (h : Inv hasCb s) (hc : c ∈ s.outstanding) :
    (s.step hasCb (.complete c r)).work < s.work := by
  have hi : s.seq.inflight = some c := by
    rw [h.one, Option.mem_toList] at hc
    exact hc
  have hout : s.outstanding = [c] := by
    rw [h.one, hi]
    rfl
  have hlive : s.seq.live = true := h.sound.live (by rw [hi]; rfl)
  rw [step, if_pos hc, resultCallback]
  simp only [hi, hout, List.erase_cons_head]
  cases hq : s.seq.comqueue with
  | nil =>
    have hnext : s.seq.next = { s.seq with inflight := none, comqueue := [] } := by
      rw [Sequencer.next_live hlive, hq]
      rfl
    simp only [hnext]
    refine Nat.lt_of_le_of_lt work_callBack ?_
    simp only [work, hout, hq, List.length_nil, List.length_singleton]
    omega
  | cons d queue =>
    have hnext : s.seq.next = { s.seq with inflight := some d, comqueue := queue } := by
      rw [Sequencer.next_live hlive, hq]
      rfl
    simp only [hnext, hand, work, hout, hq, Call.work, List.map_cons, List.sum_cons, List.length_cons,
      List.length_append, List.length_nil]
    omega

theorem Inv.work_run [DecidableEq α] (h : Inv hasCb s) {ls : List (Step α β)}
    (hb : Along (CmdSequencer.step hasCb) Busy s ls) :
    ls.length + (run (CmdSequencer.step hasCb) s ls).work ≤ s.work := by
  induction ls generalizing s with
  | nil => exact Nat.le_of_eq (Nat.zero_add _)
  | cons l ls ih =>
    obtain ⟨hl, hb⟩ := hb
    have hrest := ih (h.step l) hb
    have hstep : (s.step hasCb l).work < s.work := by
      cases l with
      | send c => exact hl.elim
      | complete c r => exact work_complete h hl
      | ret => exact work_ret hl
      | delete => exact hl.elim
    rw [Lib.run_cons, List.length_cons]
    omega

end Work

/-- In whatever order commands are sent, completed and called back and the sequencer is deleted: the
commands go to the client one at a time in the order of sending and each callback is called once with
the result of its own command. The commands of the run are the ones that were taken and then the ones
that came without a client, so none is lost that was sent before a deletion; and when no more are
sent, the work ends. -/
theorem sequencer_faithful [DecidableEq α] (hasCb : α → Bool) (ls ls' : List (Step α β)) :
    Faithful hasCb (run (step hasCb) init (ls ++ ls')) ∧
      (run (step hasCb) init (ls ++ ls')).sent ++ (run (step hasCb) init (ls ++ ls')).dropped =
        sends hasCb init (ls ++ ls') ∧
      ((∀ l ∈ ls, l ≠ .delete) → sends hasCb init ls <+: (run (step hasCb) init (ls ++ ls')).sent) ∧
      ∀ ms, Along (step hasCb) Busy (run (step hasCb) init (ls ++ ls')) ms →
        ms.length ≤ (run (step hasCb) init (ls ++ ls')).work := by
  have h : Inv hasCb (run (step hasCb) init (ls ++ ls')) :=
    run_invariant (I := Inv hasCb) (fun _ l h => h.step l) inv_init _
  have hinit : Kept (init : CmdSequencer α β) := ⟨rfl, rfl, rfl⟩
  have htaken (ls : List (Step α β)) := taken_run hasCb (s := init) (fun _ => rfl) ls
  refine ⟨h.faithful, htaken _, fun hd => ?_, fun ms hms => ?_⟩
  · have hsends := htaken ls
    rw [(hinit.run hd).dropped, List.append_nil] at hsends
    rw [← show _ = sends hasCb init ls from hsends, Lib.run_append]
    exact Lib.run_rel (R := fun s t : CmdSequencer α β => s.sent <+: t.sent) (fun s => List.prefix_refl s.sent)
      (fun _ _ _ h h' => h.trans h') (fun _ l => sent_step l) _ ls'
  · have := h.work_run hms
    omega

/-- The client completes the first command before `send_command` returns, its callback sends the
second, and the sequencer is deleted while that is with the client; the third comes too late. -/
def reentrantRun : List (Step ℕ ℕ) :=
  [.send 1, .complete 1 10, .send 2, .ret, .ret, .ret, .delete, .complete 2 20, .ret, .send 3]

theorem sequencer_faithful_reentrant :
    [1, 2] <+: (run (step fun _ => true) init reentrantRun).sent ∧
      (run (step fun _ => true) init reentrantRun).sent ++ (run (step fun _ => true) init reentrantRun).dropped =
        [1, 2, 3] ∧
      (run (step fun _ => true) init reentrantRun).called.Perm [(1, 10), (2, 20)] := by
  obtain ⟨hfaithful, hsends, hkept, -⟩ :=
    sequencer_faithful (fun _ => true) (reentrantRun.take 6) (reentrantRun.drop 6)
  exact ⟨hkept (by simp [reentrantRun]), hsends, (hfaithful.finished (by decide) (by decide)).2⟩

end CmdSequencer

end SippyB2bua.Rtpp
