import Mathlib.Data.List.Basic

/-!
# A sequencer of commands

Commands go to a server one at a time. One of them is in flight, the others wait in a queue
and follow in the order in which they were sent. A sequencer that is deleted works off what
it has taken and takes nothing new after that.
-/

namespace SippyB2bua.Lib

structure Sequencer (α : Type*) where
  live : Bool
  comqueue : List α
  inflight : Option α
  deleted : Bool

namespace Sequencer
variable {α : Type*} {q : Sequencer α} {c : α}

def empty : Sequencer α := ⟨true, [], none, false⟩

def sendCommand (q : Sequencer α) (c : α) : Sequencer α :=
  if q.live then
    if q.inflight.isSome then { q with comqueue := q.comqueue ++ [c] }
    else { q with inflight := some c }
  else q

def next (q : Sequencer α) : Sequencer α :=
  if q.live then { q with inflight := q.comqueue.head?, comqueue := q.comqueue.tail }
  else { q with inflight := none }

def delete (q : Sequencer α) : Sequencer α :=
  if q.inflight.isSome then { q with deleted := true } else { q with live := false }

def waiting (q : Sequencer α) : List α := q.inflight.toList ++ q.comqueue

/-- A queue behind no command is empty, and a sequencer without a server has no command. -/
structure Sound (q : Sequencer α) : Prop where
  queue : q.inflight = none → q.comqueue = []
  live : q.inflight.isSome → q.live = true

@[simp] theorem waiting_empty : (empty : Sequencer α).waiting = [] := rfl

theorem sound_empty : (empty : Sequencer α).Sound := ⟨fun _ => rfl, fun h => nomatch h⟩

theorem Sound.sendCommand (h : q.Sound) (c : α) : (q.sendCommand c).Sound := by
  obtain ⟨live, queue, _ | d, deleted⟩ := q
  · cases live
    · exact h
    · exact ⟨(fun h' => nomatch h'), fun _ => rfl⟩
  · have hlive : live = true := h.live rfl
    subst hlive
    exact ⟨(fun h' => nomatch h'), fun _ => rfl⟩

theorem Sound.delete (h : q.Sound) : q.delete.Sound := by
  obtain ⟨live, queue, _ | d, deleted⟩ := q
  · exact ⟨h.queue, fun h' => nomatch h'⟩
  · exact ⟨(fun h' => nomatch h'), h.live⟩

theorem sendCommand_busy (hlive : q.live = true) (hi : q.inflight.isSome) (c : α) :
    q.sendCommand c = { q with comqueue := q.comqueue ++ [c] } := by
  rw [sendCommand, if_pos hlive, if_pos hi]

theorem sendCommand_idle (hlive : q.live = true) (hi : q.inflight = none) (c : α) :
    q.sendCommand c = { q with inflight := some c } := by
  rw [sendCommand, if_pos hlive, if_neg (by simp [hi])]

theorem next_live (hlive : q.live = true) :
    q.next = { q with inflight := q.comqueue.head?, comqueue := q.comqueue.tail } := by
  rw [next, if_pos hlive]

theorem Sound.waiting_sendCommand (h : q.Sound) (hlive : q.live = true) (c : α) :
    (q.sendCommand c).waiting = q.waiting ++ [c] := by
  obtain ⟨live, queue, _ | d, deleted⟩ := q
  · have hq : queue = [] := h.queue rfl
    subst hq hlive
    rfl
  · subst hlive
    rfl

theorem live_sendCommand (q : Sequencer α) (c : α) : (q.sendCommand c).live = q.live := by
  obtain ⟨_ | _, queue, _ | d, deleted⟩ := q <;> rfl

theorem Sound.waiting_foldl (h : q.Sound) (hlive : q.live = true) (cs : List α) :
    (cs.foldl Sequencer.sendCommand q).waiting = q.waiting ++ cs := by
  induction cs generalizing q with
  | nil => exact (List.append_nil _).symm
  | cons c cs ih =>
    have hlive' : (q.sendCommand c).live = true := (live_sendCommand q c).trans hlive
    rw [List.foldl_cons, ih (h.sendCommand c) hlive', h.waiting_sendCommand hlive, List.append_assoc,
      List.singleton_append]

theorem mem_waiting_sendCommand {d : α} (h : d ∈ (q.sendCommand c).waiting) : d ∈ q.waiting ∨ d = c := by
  unfold sendCommand at h
  split at h
  · split at h
    · rw [waiting, ← List.append_assoc, List.mem_append, List.mem_singleton] at h
      exact h
    · rcases List.mem_cons.1 h with rfl | h
      · exact .inr rfl
      · exact .inl (List.mem_append_right _ h)
  · exact .inl h

theorem mem_waiting_next {d : α} (h : d ∈ q.next.waiting) : d ∈ q.waiting := by
  obtain ⟨_ | _, queue, inflight, deleted⟩ := q
  · exact List.mem_append_right _ h
  · cases queue with
    | nil => exact nomatch h
    | cons c queue => exact List.mem_append_right _ h

theorem deleted_sendCommand (q : Sequencer α) (c : α) : (q.sendCommand c).deleted = q.deleted := by
  obtain ⟨_ | _, queue, _ | d, deleted⟩ := q <;> rfl

@[simp] theorem comqueue_delete (q : Sequencer α) : q.delete.comqueue = q.comqueue := by
  obtain ⟨live, queue, _ | d, deleted⟩ := q <;> rfl

@[simp] theorem inflight_delete (q : Sequencer α) : q.delete.inflight = q.inflight := by
  obtain ⟨live, queue, _ | d, deleted⟩ := q <;> rfl

@[simp] theorem waiting_delete (q : Sequencer α) : q.delete.waiting = q.waiting := by
  obtain ⟨live, queue, _ | d, deleted⟩ := q <;> rfl

theorem live_of_delete (h : q.delete.live = true) : q.live = true := by
  unfold delete at h
  split at h
  · exact h
  · exact nomatch h

theorem live_next (q : Sequencer α) : q.next.live = q.live := by
  obtain ⟨_ | _, queue, inflight, deleted⟩ := q <;> rfl

theorem deleted_next (q : Sequencer α) : q.next.deleted = q.deleted := by
  obtain ⟨_ | _, queue, inflight, deleted⟩ := q <;> rfl

theorem Sound.waiting_next (h : q.Sound) (hc : q.inflight = some c) :
    q.waiting = c :: q.next.waiting := by
  obtain ⟨live, queue, inflight, deleted⟩ := q
  have hlive : live = true := h.live (by simp_all)
  subst hlive
  cases hc
  cases queue <;> rfl

theorem Sound.next (h : q.Sound) : q.next.Sound := by
  obtain ⟨live, queue, inflight, deleted⟩ := q
  cases live
  · exact ⟨fun _ => h.queue (by simpa using h.live), fun h' => nomatch h'⟩
  · refine ⟨fun hnone => ?_, fun _ => rfl⟩
    cases queue with
    | nil => rfl
    | cons => exact nomatch hnone

end Sequencer

end SippyB2bua.Lib
