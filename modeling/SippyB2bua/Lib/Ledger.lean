import SippyB2bua.Lib.Sequencer

/-!
# What went through a sequencer

A ledger keeps, beside a sequencer, the commands that the sequencer took and those that it handed
to the server, both in their order. What was taken and not handed is what waits in the queue.
-/

namespace SippyB2bua.Lib

structure Ledger (α : Type*) where
  seq : Sequencer α
  taken : List α
  handed : List α

namespace Ledger
variable {α : Type*} {q : Ledger α}

def empty : Ledger α := ⟨.empty, [], []⟩

def sendCommand (q : Ledger α) (c : α) : Ledger α where
  seq := q.seq.sendCommand c
  taken := if q.seq.live then q.taken ++ [c] else q.taken
  handed := if q.seq.live && q.seq.inflight.isNone then q.handed ++ [c] else q.handed

def sendAll (q : Ledger α) (cs : List α) : Ledger α := cs.foldl sendCommand q

def next (q : Ledger α) : Ledger α where
  seq := q.seq.next
  taken := q.taken
  handed := q.handed ++ q.seq.next.inflight.toList

def delete (q : Ledger α) : Ledger α := { q with seq := q.seq.delete }

/-- The queue holds what was taken and not yet handed on. -/
structure Sound (q : Ledger α) : Prop where
  seq : q.seq.Sound
  order : q.handed ++ q.seq.comqueue = q.taken

theorem sound_empty : (empty : Ledger α).Sound := ⟨Sequencer.sound_empty, rfl⟩

theorem Sound.handed_prefix (h : q.Sound) : q.handed <+: q.taken := ⟨_, h.order⟩

theorem Sound.sendCommand (h : q.Sound) (c : α) : (q.sendCommand c).Sound := by
  apply Sound.mk (h.seq.sendCommand c)
  have hqueue := h.seq.queue
  obtain ⟨⟨live, queue, inflight, deleted⟩, taken, handed⟩ := q
  have horder : handed ++ queue = taken := h.order
  subst horder
  cases live with
  | false => rfl
  | true =>
    cases inflight with
    | some d => exact (List.append_assoc handed queue [c]).symm
    | none =>
      have hempty : queue = [] := hqueue rfl
      subst hempty
      simp [Ledger.sendCommand, Sequencer.sendCommand]

theorem Sound.sendAll (h : q.Sound) (cs : List α) : (q.sendAll cs).Sound := by
  induction cs generalizing q with
  | nil => exact h
  | cons c cs ih => exact ih (h.sendCommand c)

theorem Sound.next (h : q.Sound) : q.next.Sound := by
  apply Sound.mk h.seq.next
  obtain ⟨⟨live, queue, inflight, deleted⟩, taken, handed⟩ := q
  have horder : handed ++ queue = taken := h.order
  subst horder
  cases live with
  | false => simp [Ledger.next, Sequencer.next]
  | true => cases queue <;> simp [Ledger.next, Sequencer.next]

theorem Sound.delete (h : q.Sound) : q.delete.Sound := by
  apply Sound.mk h.seq.delete
  rw [Ledger.delete, Sequencer.comqueue_delete]
  exact h.order

theorem live_sendAll (q : Ledger α) (cs : List α) : (q.sendAll cs).seq.live = q.seq.live := by
  induction cs generalizing q with
  | nil => rfl
  | cons c cs ih => exact (ih _).trans (Sequencer.live_sendCommand _ _)

theorem deleted_sendAll (q : Ledger α) (cs : List α) : (q.sendAll cs).seq.deleted = q.seq.deleted := by
  induction cs generalizing q with
  | nil => rfl
  | cons c cs ih => exact (ih _).trans (Sequencer.deleted_sendCommand _ _)

theorem taken_sendAll (q : Ledger α) (cs : List α) :
    (q.sendAll cs).taken = q.taken ++ if q.seq.live then cs else [] := by
  induction cs generalizing q with
  | nil => simp [sendAll]
  | cons c cs ih =>
    have hlive : (q.sendCommand c).seq.live = q.seq.live := Sequencer.live_sendCommand _ _
    rw [sendAll, List.foldl_cons, ← sendAll, ih, hlive]
    cases h : q.seq.live <;> simp [sendCommand, h]

theorem handed_sendAll (q : Ledger α) (cs : List α) : q.handed.length ≤ (q.sendAll cs).handed.length := by
  induction cs generalizing q with
  | nil => exact Nat.le_refl _
  | cons c cs ih =>
    apply Nat.le_trans _ (ih _)
    cases h : q.seq.live && q.seq.inflight.isNone <;> simp [sendCommand, h]

theorem Sound.handed_next (h : q.Sound) :
    min (q.handed.length + 1) q.taken.length ≤ q.next.handed.length := by
  have hlive := h.seq.live
  have hqueue := h.seq.queue
  obtain ⟨⟨live, queue, inflight, deleted⟩, taken, handed⟩ := q
  have horder : handed ++ queue = taken := h.order
  subst horder
  cases queue with
  | nil => simp [Ledger.next]
  | cons c queue =>
    cases inflight with
    | none => exact nomatch hqueue rfl
    | some d =>
      have hl : live = true := hlive rfl
      subst hl
      simp [Ledger.next, Sequencer.next]

end Ledger

end SippyB2bua.Lib
