import Mathlib.Algebra.Order.Ring.Rat
import SippyB2bua.Lib.Heap
import SippyB2bua.Lib.Run

/-!
# The timers of the event dispatcher

`EventDispatcher2` keeps the listeners that were started in a heap. `dispatchTimers` takes those that
are due one after the other and calls them; a callback may register, start and cancel others, and it
may break the loop. A listener that is cancelled stays in the heap until it gets to the root, or until
there are so many of them that the loop builds the heap anew. Listeners are numbered in the order of
their registration. Times are rational numbers and added up exactly, where the source rounds to floats.
-/

namespace SippyB2bua.Core
open Lib (Along run)
open Lib.Heap (heappush heappop heapify Ordered)

structure EventListener where
  itime : ℚ
  /-- The interval, or the time itself. -/
  ival : ℚ
  absTime : Bool
  nticks : ℤ
  /-- `None` until the listener is started. -/
  etime : Option ℚ
  /-- `cb_func` and `ed`, which `cleanup` sets to `None` together. -/
  alive : Bool
  randomizeRuns : Bool

def EventListener.periodic (el : EventListener) : Bool := el.nticks = -1 ∨ 1 < el.nticks

inductive Act
  | go (id : ℕ) (nticks : ℤ) (etime : ℚ)
  | cancel (id : ℕ)
  /-- `cb_func` is called for the time `etime`. -/
  | call (id : ℕ) (etime lastTs : ℚ)
  deriving DecidableEq

namespace Act

def id : Act → ℕ
  | go id _ _ => id
  | cancel id => id
  | call id _ _ => id

def asked : Act → Option (ℤ × ℚ)
  | go _ nticks etime => some (nticks, etime)
  | _ => none

def isCall : Act → Bool
  | call _ _ _ => true
  | _ => false

end Act

structure EventDispatcher2 where
  els : ℕ → EventListener
  next : ℕ
  tlisteners : Array ℕ
  twasted : ℤ
  lastTs : ℚ
  endloop : Bool
  /-- The listener whose callback runs, and whether it is cleaned up after it. -/
  running : Option (ℕ × Bool)
  log : List Act

namespace EventDispatcher2

def init (lastTs : ℚ) : EventDispatcher2 where
  els _ := ⟨0, 0, false, 0, none, false, false⟩
  next := 0
  tlisteners := #[]
  twasted := 0
  lastTs := lastTs
  endloop := false
  running := none
  log := []

def etime (s : EventDispatcher2) (id : ℕ) : ℚ := (s.els id).etime.getD 0

def setEl (s : EventDispatcher2) (id : ℕ) (el : EventListener) : EventDispatcher2 :=
  { s with els := Function.update s.els id el }

def regTimer (s : EventDispatcher2) (now ival : ℚ) (nticks : ℤ) (absTime : Bool) : EventDispatcher2 :=
  let s := { s with lastTs := now }
  if nticks = 0 then s
  else { s with next := s.next + 1 }.setEl s.next ⟨now, ival, absTime, nticks, none, true, false⟩

/-- `go`; `ival` is what the randomizer makes of the interval. Without a dispatcher it raises. -/
def go (s : EventDispatcher2) (id : ℕ) (ival : ℚ) : EventDispatcher2 :=
  let el := s.els id
  if el.alive then
    let el := if el.absTime then { el with etime := some el.ival, nticks := 1 }
      else { el with etime := some (el.itime + if el.randomizeRuns then ival else el.ival) }
    let s := s.setEl id el
    { s with
      tlisteners := heappush s.etime s.tlisteners id
      log := s.log ++ [.go id el.nticks (s.etime id)] }
  else s

def cleanup (s : EventDispatcher2) (id : ℕ) : EventDispatcher2 :=
  s.setEl id { s.els id with alive := false, randomizeRuns := false }

def cancel (s : EventDispatcher2) (id : ℕ) : EventDispatcher2 :=
  { s with
    twasted := if (s.els id).alive then s.twasted + 1 else s.twasted
    log := s.log ++ [Act.cancel id] }.cleanup id

/-- A periodic listener as it is put back. -/
def again (s : EventDispatcher2) (id : ℕ) (ival : ℚ) : EventListener :=
  let el := s.els id
  { el with
    nticks := if 1 < el.nticks then el.nticks - 1 else el.nticks
    etime := some (s.etime id + if el.randomizeRuns then ival else el.ival) }

/-- A listener that has been taken from the heap is called, and put back if it is periodic. -/
def callBack (s : EventDispatcher2) (id : ℕ) (ival : ℚ) : EventDispatcher2 :=
  let s := { s with log := s.log ++ [Act.call id (s.etime id) s.lastTs] }
  if (s.els id).periodic then
    let s := s.setEl id (s.again id ival)
    { s with tlisteners := heappush s.etime s.tlisteners id, running := some (id, false) }
  else { s with running := some (id, true) }

/-- One turn of the loop of `dispatchTimers`, as far as the call. -/
def dispatch (s : EventDispatcher2) (ival : ℚ) : EventDispatcher2 :=
  if s.running.isSome ∨ s.endloop then s
  else match s.tlisteners[0]? with
    | none => s
    | some el =>
      if (s.els el).alive ∧ s.lastTs < s.etime el then s
      else match heappop s.etime s.tlisteners with
        | none => s
        | some (el, rest) =>
          let s := { s with tlisteners := rest }
          if (s.els el).alive then s.callBack el ival else { s with twasted := s.twasted - 1 }

/-- The rest of the turn, when the callback has returned or raised. -/
def ret (s : EventDispatcher2) : EventDispatcher2 :=
  match s.running with
  | none => s
  | some (id, cleanup) =>
    let s := { s with running := none }
    if s.endloop = false ∧ cleanup then s.cleanup id else s

/-- `dispatchTimers` returns with nothing to do. -/
def Finished (s : EventDispatcher2) : Prop :=
  s.running = none ∧ s.endloop = false ∧
    ∀ el, s.tlisteners[0]? = some el → (s.els el).alive ∧ s.lastTs < s.etime el

instance (s : EventDispatcher2) : Decidable s.Finished :=
  inferInstanceAs (Decidable (_ ∧ _ ∧ ∀ el ∈ s.tlisteners[0]?, _))

/-- What the loop does when `dispatchTimers` has returned. -/
def turn (s : EventDispatcher2) (now : ℚ) : EventDispatcher2 :=
  if s.Finished then
    let s := if (s.tlisteners.size : ℤ) < s.twasted * 2 then
        { s with tlisteners := heapify s.etime (s.tlisteners.filter fun id => (s.els id).alive), twasted := 0 }
      else s
    { s with lastTs := now }
  else s

inductive Label
  | regTimer (now ival : ℚ) (nticks : ℤ) (absTime : Bool)
  | spreadRuns (id : ℕ)
  | go (id : ℕ) (ival : ℚ)
  | cancel (id : ℕ)
  | breakLoop
  | dispatch (ival : ℚ)
  | ret
  | turn (now : ℚ)
  /-- `loop` is called. -/
  | loop (now : ℚ)

def step (s : EventDispatcher2) : Label → EventDispatcher2
  | .regTimer now ival nticks absTime => s.regTimer now ival nticks absTime
  | .spreadRuns id => s.setEl id { s.els id with randomizeRuns := true }
  | .go id ival => s.go id ival
  | .cancel id => s.cancel id
  | .breakLoop => { s with endloop := true }
  | .dispatch ival => s.dispatch ival
  | .ret => s.ret
  | .turn now => s.turn now
  | .loop now => { s with endloop := false, lastTs := now }

/-- Listeners are used after their registration, and started once; callbacks do not call `loop`. -/
def Meets (s : EventDispatcher2) : Label → Prop
  | .spreadRuns id => id < s.next
  | .go id _ => id < s.next ∧ (s.els id).etime = none
  | .cancel id => id < s.next
  | .loop _ => s.running = none
  | _ => True

instance (s : EventDispatcher2) : ∀ l, Decidable (s.Meets l)
  | .spreadRuns id => inferInstanceAs (Decidable (id < s.next))
  | .go id _ => inferInstanceAs (Decidable (id < s.next ∧ (s.els id).etime = none))
  | .cancel id => inferInstanceAs (Decidable (id < s.next))
  | .loop _ => inferInstanceAs (Decidable (s.running = none))
  | .regTimer _ _ _ _ | .breakLoop | .dispatch _ | .ret | .turn _ => .isTrue trivial

def about (id : ℕ) (log : List Act) : List Act := log.filter fun a => a.id = id

def calls (l : List Act) : ℕ := l.countP Act.isCall

/-- No more calls than were asked for; `-1` asks for any number, what is less for one. -/
def Within (n : ℤ) (k : ℕ) : Prop := n = -1 ∨ (k : ℤ) ≤ max n 1

def Spent (n : ℤ) (k : ℕ) : Prop := n ≠ -1 ∧ (k : ℤ) = max n 1

/-- `nticks` of a listener that waits for its next call after `k` calls of `n`. -/
def Left (n nticks : ℤ) (k : ℕ) : Prop :=
  (n = -1 ∧ nticks = -1) ∨ (1 ≤ nticks ∧ nticks + k = n) ∨ (n < -1 ∧ nticks = n ∧ k = 0)

theorem Left.within {n nticks : ℤ} {k : ℕ} (h : Left n nticks k) : Within n k := by
  unfold Within
  rcases h with ⟨h, -⟩ | ⟨h₁, h₂⟩ | ⟨h₁, h₂, h₃⟩ <;> omega

theorem Left.last {n nticks : ℤ} {k : ℕ} (h : Left n nticks k) (hp : ¬ (nticks = -1 ∨ 1 < nticks)) :
    Spent n (k + 1) := by
  unfold Spent
  rcases h with ⟨h₁, h₂⟩ | ⟨h₁, h₂⟩ | ⟨h₁, h₂, h₃⟩ <;> omega

theorem Left.next {n nticks : ℤ} {k : ℕ} (h : Left n nticks k) (hp : nticks = -1 ∨ 1 < nticks) :
    Left n (if 1 < nticks then nticks - 1 else nticks) (k + 1) := by
  unfold Left at h ⊢
  split <;> omega

theorem left_first {n : ℤ} (h : n ≠ 0) : Left n n 0 := by
  unfold Left
  omega

/-- A listener with the log `l` about it, which is in the heap or not. -/
structure Fate (el : EventListener) (queued : Prop) (l : List Act) : Prop where
  nticks : el.alive → el.etime = none → el.nticks ≠ 0
  idle : el.etime = none → ¬ queued ∧ l.findSome? Act.asked = none ∧ calls l = 0
  waits : queued → ∃ n e, l.findSome? Act.asked = some (n, e) ∧ Left n el.nticks (calls l) ∧
    (el.alive → el.randomizeRuns = false → el.etime = some (e + calls l * el.ival)) ∧
    (el.alive = false → ∃ id, Act.cancel id ∈ l)
  ended : ¬ queued → ∀ n e, l.findSome? Act.asked = some (n, e) →
    Spent n (calls l) ∨ (∃ id, Act.cancel id ∈ l) ∧ Within n (calls l)
  lives : el.alive → ∀ id, Act.cancel id ∉ l
  once : ∀ a ∈ l, ∀ p, Act.asked a = some p → l.findSome? Act.asked = some p

theorem once_append {l : List Act} (h : ∀ a ∈ l, ∀ p, Act.asked a = some p → l.findSome? Act.asked = some p)
    {b : Act} (hb : b.asked = none) :
    ∀ a ∈ l ++ [b], ∀ p, Act.asked a = some p → (l ++ [b]).findSome? Act.asked = some p := by
  intro a ha p hp
  rcases List.mem_append.mp ha with ha | ha
  · rw [List.findSome?_append, h a ha p hp, Option.some_or]
  · rw [List.mem_singleton.mp ha, hb] at hp
    exact absurd hp (by simp)

theorem Fate.congr {el : EventListener} {q q' : Prop} {l : List Act} (h : Fate el q l) (hq : q ↔ q') : Fate el q' l :=
  propext hq ▸ h

def deadIn (s : EventDispatcher2) (l : List ℕ) : ℕ := l.countP fun id => !(s.els id).alive

def dead (s : EventDispatcher2) : ℕ := s.deadIn s.tlisteners.toList

/-- No listener is called after it was cancelled, or before its time. -/
structure Kept (log : List Act) : Prop where
  stopped : log.Pairwise fun a b => ∀ id e t, a = Act.cancel id → b ≠ Act.call id e t
  due : ∀ id e t, Act.call id e t ∈ log → e ≤ t

structure Inv (s : EventDispatcher2) : Prop where
  ordered : Ordered s.etime 0 s.tlisteners
  nodup : s.tlisteners.toList.Nodup
  wasted : (s.dead : ℤ) ≤ s.twasted
  unborn : ∀ id, s.next ≤ id → (s.els id).etime = none ∧ about id s.log = []
  busy : ∀ id, s.running = some (id, true) → id ∉ s.tlisteners.toList ∧ (s.els id).etime ≠ none
  fate : ∀ id, Fate (s.els id) (id ∈ s.tlisteners.toList) (about id s.log)
  kept : Kept s.log

section Steps
variable {s t : EventDispatcher2} {id id' : ℕ} {el : EventListener} {a : Act} {log : List Act} {now ival : ℚ}

theorem about_other (h : a.id ≠ id) : about id (log ++ [a]) = about id log := by
  simp [about, h]

theorem about_self (log : List Act) (h : a.id = id) : about id (log ++ [a]) = about id log ++ [a] := by
  simp [about, h]

theorem mem_about : a ∈ about id log ↔ a ∈ log ∧ a.id = id := by
  simp [about]

theorem setEl_self (s : EventDispatcher2) (id : ℕ) (el : EventListener) : (s.setEl id el).els id = el :=
  Function.update_self ..

theorem setEl_other (s : EventDispatcher2) (el : EventListener) (h : id' ≠ id) :
    (s.setEl id el).els id' = s.els id' := Function.update_of_ne h ..

theorem etime_congr (h : t.els id = s.els id) : t.etime id = s.etime id := by
  rw [etime, h, etime]

theorem Inv.queued_lt (h : Inv s) (hq : id ∈ s.tlisteners.toList) : id < s.next := by
  by_contra hle
  exact ((h.fate id).idle (h.unborn id (not_lt.mp hle)).1).1 hq

theorem ordered_other {xs : Array ℕ} (h : Ordered s.etime 0 xs) (hq : id ∉ xs.toList)
    (hels : ∀ id', id' ≠ id → t.els id' = s.els id') : Ordered t.etime 0 xs := by
  apply h.congr
  intro x hx
  apply etime_congr (hels x _)
  rintro rfl
  exact hq (Array.mem_toList_iff.mpr hx)

theorem deadIn_other {l : List ℕ} (hq : id ∉ l) (hels : ∀ id', id' ≠ id → t.els id' = s.els id') :
    t.deadIn l = s.deadIn l := by
  apply List.countP_congr
  intro x hx
  have hne : x ≠ id := fun heq => hq (heq.symm ▸ hx)
  rw [hels x hne]

theorem Kept.append (h : Kept log) (ha : a.isCall = false) : Kept (log ++ [a]) := by
  have hne (id : ℕ) (e t : ℚ) : a ≠ .call id e t := by
    rintro rfl
    cases ha
  constructor
  · refine List.pairwise_append.mpr ⟨h.stopped, List.pairwise_singleton _ _, fun b _ c hc id e t _ => ?_⟩
    rw [List.mem_singleton.mp hc]
    exact hne id e t
  · intro id e t hmem
    rcases List.mem_append.mp hmem with hmem | hmem
    · exact h.due id e t hmem
    · exact absurd (List.mem_singleton.mp hmem).symm (hne id e t)

theorem Inv.one (h : Inv s) (hid : id < t.next) (hnext : s.next ≤ t.next)
    (hels : ∀ id', id' ≠ id → t.els id' = s.els id')
    (hqueue : ∀ id', id' ≠ id → (id' ∈ t.tlisteners.toList ↔ id' ∈ s.tlisteners.toList))
    (habout : ∀ id', id' ≠ id → about id' t.log = about id' s.log)
    (hrun : ∀ id', t.running = some (id', true) →
      (id' ≠ id ∧ s.running = some (id', true)) ∨
        (id' = id ∧ id ∉ t.tlisteners.toList ∧ (t.els id).etime ≠ none))
    (hordered : Ordered t.etime 0 t.tlisteners) (hnodup : t.tlisteners.toList.Nodup)
    (hwasted : (t.dead : ℤ) ≤ t.twasted)
    (hfate : Fate (t.els id) (id ∈ t.tlisteners.toList) (about id t.log))
    (hlog : Kept t.log) : Inv t := by
  refine ⟨hordered, hnodup, hwasted, fun id' hle => ?_, fun id' hbusy => ?_, fun id' => ?_, hlog⟩
  · have hne : id' ≠ id := by omega
    rw [hels id' hne, habout id' hne]
    exact h.unborn id' (hnext.trans hle)
  · rcases hrun id' hbusy with ⟨hne, hold⟩ | ⟨rfl, hself⟩
    · obtain ⟨hout, hsome⟩ := h.busy id' hold
      rw [hqueue id' hne, hels id' hne]
      exact ⟨hout, hsome⟩
    · exact hself
  · by_cases hne : id' = id
    · subst hne
      exact hfate
    · rw [hels id' hne, habout id' hne, hqueue id' hne]
      exact h.fate id'

theorem Inv.setLastTs (h : Inv s) (now : ℚ) : Inv { s with lastTs := now } :=
  ⟨h.ordered, h.nodup, h.wasted, h.unborn, h.busy, h.fate, h.kept⟩

theorem Inv.regTimer (h : Inv s) (now ival : ℚ) (nticks : ℤ) (absTime : Bool) :
    Inv (s.regTimer now ival nticks absTime) := by
  unfold EventDispatcher2.regTimer
  dsimp only
  split
  · exact h.setLastTs now
  · rename_i hn
    obtain ⟨hnone, habout⟩ := h.unborn s.next le_rfl
    have hq : s.next ∉ s.tlisteners.toList := fun hq => lt_irrefl _ (h.queued_lt hq)
    have hels (id' : ℕ) (hne : id' ≠ s.next) :
        ({ s with lastTs := now, next := s.next + 1 }.setEl s.next
          ⟨now, ival, absTime, nticks, none, true, false⟩).els id' = s.els id' := setEl_other _ _ hne
    apply h.one (Nat.lt_succ_self s.next) (Nat.le_succ _) hels (fun _ _ => Iff.rfl) (fun _ _ => rfl)
    · intro id' hrun
      refine .inl ⟨fun heq => ?_, hrun⟩
      exact (h.busy id' hrun).2 (heq ▸ hnone)
    · exact ordered_other h.ordered hq hels
    · exact h.nodup
    · exact (congrArg Nat.cast (deadIn_other hq hels)).trans_le h.wasted
    · rw [setEl_self]
      change Fate _ _ (about s.next s.log)
      rw [habout]
      refine ⟨fun _ _ => hn, fun _ => ⟨hq, rfl, rfl⟩, fun hin => absurd hin hq, fun _ n e hask => ?_,
        fun _ id => List.not_mem_nil, fun a ha => absurd ha List.not_mem_nil⟩
      exact absurd hask (by simp)
    · exact h.kept

theorem Inv.setEl (h : Inv s) (hid : id < s.next) (hetime : el.etime = (s.els id).etime)
    (hdead : ((s.setEl id el).dead : ℤ) ≤ s.twasted)
    (hfate : Fate el (id ∈ s.tlisteners.toList) (about id s.log)) : Inv (s.setEl id el) := by
  have hels (id' : ℕ) (hne : id' ≠ id) := setEl_other s el hne
  have hsame (x : ℕ) : ((s.setEl id el).els x).etime = (s.els x).etime := by
    by_cases hx : x = id
    · rw [hx, setEl_self, hetime]
    · rw [hels x hx]
  apply h.one (t := s.setEl id el) hid le_rfl hels (fun _ _ => Iff.rfl) (fun _ _ => rfl)
  · intro id' hrun
    by_cases hne : id' = id
    · subst hne
      obtain ⟨hout, hsome⟩ := h.busy id' hrun
      exact .inr ⟨rfl, hout, (hsame id').symm ▸ hsome⟩
    · exact .inl ⟨hne, hrun⟩
  · apply h.ordered.congr
    intro x _
    rw [etime, hsame x, etime]
  · exact h.nodup
  · exact hdead
  · rw [setEl_self]
    exact hfate
  · exact h.kept

theorem Inv.spreadRuns (h : Inv s) (hid : id < s.next) :
    Inv (s.setEl id { s.els id with randomizeRuns := true }) := by
  have hfate := h.fate id
  refine h.setEl hid rfl ?_ ⟨hfate.nticks, hfate.idle, fun hin => ?_, hfate.ended, hfate.lives,
    hfate.once⟩
  · have hdead : (s.setEl id { s.els id with randomizeRuns := true }).dead = s.dead := by
      apply List.countP_congr
      intro x _
      by_cases hx : x = id
      · rw [hx, setEl_self]
      · rw [setEl_other s _ hx]
    rw [hdead]
    exact h.wasted
  · obtain ⟨n, e, hask, hleft, -, hdead⟩ := hfate.waits hin
    exact ⟨n, e, hask, hleft, fun _ hno => absurd hno (by simp), hdead⟩

theorem push_spec {xs : Array ℕ} (h : Ordered s.etime 0 xs) (hnodup : xs.toList.Nodup) (hq : id ∉ xs.toList)
    (hels : ∀ id', id' ≠ id → t.els id' = s.els id') (hheap : t.tlisteners = heappush t.etime xs id)
    (halive : (t.els id).alive = true) :
    Ordered t.etime 0 t.tlisteners ∧ t.tlisteners.toList.Nodup ∧ t.dead = s.deadIn xs.toList ∧
      ∀ x, x ∈ t.tlisteners.toList ↔ x = id ∨ x ∈ xs.toList := by
  have hperm := Lib.Heap.heappush_perm t.etime xs id
  rw [← hheap] at hperm
  refine ⟨?_, ?_, ?_, fun x => ?_⟩
  · rw [hheap]
    exact Lib.Heap.heappush_ordered (ordered_other h hq hels) id
  · rw [hperm.nodup_iff]
    exact List.nodup_cons.mpr ⟨hq, hnodup⟩
  · unfold dead deadIn
    rw [hperm.countP_eq, List.countP_cons_of_neg (by simp [halive])]
    exact deadIn_other hq hels
  · rw [hperm.mem_iff, List.mem_cons]

theorem Fate.go {n : ℤ} {e : ℚ} {l : List Act} (h : Fate (s.els id) False l)
    (hnone : (s.els id).etime = none) (hn : n ≠ 0) (hel : el.nticks = n) (halive : (s.els id).alive)
    (htime : el.randomizeRuns = false → el.etime = some e) (hsome : el.etime ≠ none) (hel' : el.alive = true) :
    Fate el True (l ++ [.go id n e]) := by
  obtain ⟨-, hask, hcalls⟩ := h.idle hnone
  have hcalls' : calls (l ++ [Act.go id n e]) = 0 := by
    rw [calls, List.countP_append, ← calls, hcalls]
    rfl
  refine ⟨fun _ hno => absurd hno hsome, fun hno => absurd hno hsome, fun _ => ⟨n, e, ?_, ?_, ?_, ?_⟩,
    fun hout => absurd trivial hout, fun _ id' hmem => ?_, fun a ha p hp => ?_⟩
  · rw [List.findSome?_append, hask]
    rfl
  · rw [hcalls', hel]
    exact left_first hn
  · intro _ hrand
    rw [hcalls', htime hrand, Nat.cast_zero, zero_mul, add_zero]
  · intro hdead
    exact absurd (hel'.symm.trans hdead) (by decide)
  · rcases List.mem_append.mp hmem with hmem | hmem
    · exact h.lives halive id' hmem
    · exact absurd (List.mem_singleton.mp hmem) (by simp)
  · rcases List.mem_append.mp ha with ha | ha
    · exact absurd (h.once a ha p hp) (by simp [hask])
    · obtain rfl := List.mem_singleton.mp ha
      rw [List.findSome?_append, hask, Option.none_or]
      exact hp

theorem Inv.go (h : Inv s) (hid : id < s.next) (hnone : (s.els id).etime = none) (ival : ℚ) :
    Inv (s.go id ival) := by
  unfold EventDispatcher2.go
  dsimp only
  split
  · rename_i halive
    have hfate := h.fate id
    obtain ⟨hq, -, -⟩ := hfate.idle hnone
    generalize hel : (if (s.els id).absTime then _ else _ : EventListener) = el
    have hel' : el.alive = true ∧ el.nticks ≠ 0 ∧ el.etime ≠ none := by
      rw [← hel]
      split
      · exact ⟨halive, by simp, by simp⟩
      · exact ⟨halive, hfate.nticks halive hnone, by simp⟩
    obtain ⟨hlive, hn, hsome⟩ := hel'
    have hetime : (s.setEl id el).etime id = el.etime.getD 0 := by rw [etime, setEl_self]
    have hels (id' : ℕ) (hne : id' ≠ id) := setEl_other s el hne
    obtain ⟨hordered, hnodup, hdead, hmem⟩ := push_spec h.ordered h.nodup (t := { s.setEl id el with
        tlisteners := heappush (s.setEl id el).etime s.tlisteners id
        log := s.log ++ [.go id el.nticks ((s.setEl id el).etime id)] }) hq hels rfl
      ((congrArg EventListener.alive (setEl_self s id el)).trans hlive)
    refine h.one hid le_rfl hels (fun x hx => ?_) (fun x hx => about_other hx.symm) (fun x hrun => .inl ⟨?_, hrun⟩)
      hordered hnodup (hdead ▸ h.wasted) ?_ (h.kept.append rfl)
    · exact (hmem x).trans (or_iff_right hx)
    · rintro rfl
      exact (h.busy x hrun).2 hnone
    · refine Fate.congr ?_ (iff_of_true trivial ((hmem id).mpr (.inl rfl)))
      have habout : about id (s.log ++ [.go id el.nticks (el.etime.getD 0)]) =
        about id s.log ++ [.go id el.nticks (el.etime.getD 0)] := about_self s.log rfl
      change Fate ((s.setEl id el).els id) True (about id (s.log ++ [_]))
      rw [setEl_self, hetime, habout]
      refine (hfate.congr (iff_of_false hq not_false)).go hnone hn rfl halive (fun _ => ?_) hsome hlive
      obtain ⟨e, he⟩ := Option.ne_none_iff_exists'.mp hsome
      rw [he, Option.getD_some]
  · exact h

theorem Fate.cancel {q : Prop} {l : List Act} (h : Fate el q l) (id : ℕ) :
    Fate { el with alive := false, randomizeRuns := false } q (l ++ [.cancel id]) := by
  have hcalls : calls (l ++ [.cancel id]) = calls l := by
    rw [calls, List.countP_append]
    rfl
  have hask : (l ++ [Act.cancel id]).findSome? Act.asked = l.findSome? Act.asked := by
    rw [List.findSome?_append]
    exact Option.or_none
  have hmem : Act.cancel id ∈ l ++ [.cancel id] := List.mem_append_right l (List.mem_singleton_self _)
  refine ⟨fun hlive => absurd hlive Bool.false_ne_true, fun hnone => ?_, fun hq => ?_, fun hq n e he => ?_,
    fun hlive => absurd hlive Bool.false_ne_true, once_append h.once rfl⟩
  · rw [hask, hcalls]
    exact h.idle hnone
  · obtain ⟨n, e, he, hleft, -, -⟩ := h.waits hq
    rw [hask, hcalls]
    exact ⟨n, e, he, hleft, fun hlive => absurd hlive Bool.false_ne_true, fun _ => ⟨id, hmem⟩⟩
  · rw [hask] at he
    rw [hcalls]
    rcases h.ended hq n e he with hspent | ⟨-, hwithin⟩
    · exact .inl hspent
    · exact .inr ⟨⟨id, hmem⟩, hwithin⟩

/-- One more listener in the heap that is not wanted, if it was in the heap and was wanted. -/
theorem Inv.dead_cleanup (h : Inv s) (id : ℕ) :
    ((s.cleanup id).dead : ℤ) ≤ if (s.els id).alive then s.twasted + 1 else s.twasted := by
  have hle : (s.cleanup id).dead ≤ s.dead + if (s.els id).alive then 1 else 0 := by
    have hcount : ∀ l : List ℕ, l.Nodup → l.countP (fun x => !((s.cleanup id).els x).alive) ≤
        l.countP (fun x => !(s.els x).alive) + if (s.els id).alive then 1 else 0 := by
      intro l hl
      induction l with
      | nil => exact Nat.zero_le _
      | cons x l ih =>
        obtain ⟨hx, hl⟩ := List.nodup_cons.mp hl
        rw [List.countP_cons, List.countP_cons]
        by_cases heq : x = id
        · subst heq
          have htail : l.countP (fun y => !((s.cleanup x).els y).alive) = l.countP fun y => !(s.els y).alive := by
            apply List.countP_congr
            intro y hy
            have hne : y ≠ x := fun heq => hx (heq ▸ hy)
            rw [show (s.cleanup x).els y = s.els y from setEl_other s _ hne]
          rw [htail, show (s.cleanup x).els x = _ from setEl_self s x _]
          cases (s.els x).alive <;> simp
        · rw [show (s.cleanup id).els x = s.els x from setEl_other s _ heq]
          have hrest := ih hl
          omega
    exact hcount _ h.nodup
  have hwasted : (s.dead : ℤ) ≤ s.twasted := h.wasted
  split at hle <;> rename_i halive
  · rw [if_pos halive]
    omega
  · rw [if_neg halive]
    omega

theorem Inv.cancel (h : Inv s) (hid : id < s.next) : Inv (s.cancel id) := by
  have hels (id' : ℕ) (hne : id' ≠ id) : (s.cancel id).els id' = s.els id' := setEl_other _ _ hne
  have hself : (s.cancel id).els id = { s.els id with alive := false, randomizeRuns := false } :=
    Function.update_self ..
  have hetime (x : ℕ) : ((s.cancel id).els x).etime = (s.els x).etime := by
    by_cases hx : x = id
    · rw [hx, hself]
    · rw [hels x hx]
  refine h.one (t := s.cancel id) hid le_rfl hels (fun _ _ => Iff.rfl) (fun x hx => about_other hx.symm)
    (fun x hrun => ?_) ?_ h.nodup (h.dead_cleanup id) ?_ (h.kept.append rfl)
  · by_cases hx : x = id
    · subst hx
      obtain ⟨hout, hsome⟩ := h.busy x hrun
      exact .inr ⟨rfl, hout, (hetime x).symm ▸ hsome⟩
    · exact .inl ⟨hx, hrun⟩
  · apply h.ordered.congr
    intro x _
    rw [etime, hetime x, etime]
  · have habout : about id (s.log ++ [.cancel id]) = about id s.log ++ [.cancel id] := about_self s.log rfl
    rw [hself]
    change Fate _ _ (about id (s.log ++ [_]))
    rw [habout]
    exact (h.fate id).cancel id

theorem Fate.call {q : Prop} {l : List Act} {e t : ℚ} {n' : ℤ} {time : Option ℚ} (h : Fate el True l)
    (halive : el.alive = true)
    (hagain : q → ∀ n k, Left n el.nticks k → Left n n' (k + 1))
    (hlast : ¬ q → ∀ n k, Left n el.nticks k → Spent n (k + 1))
    (htime : time ≠ none)
    (hnext : q → el.randomizeRuns = false → time = some (el.etime.getD 0 + el.ival)) :
    Fate { el with nticks := n', etime := time } q (l ++ [.call id e t]) := by
  have hcalls : calls (l ++ [.call id e t]) = calls l + 1 := by
    rw [calls, List.countP_append]
    rfl
  obtain ⟨n, e₀, he, hold, hsched, -⟩ := h.waits trivial
  have hask : (l ++ [Act.call id e t]).findSome? Act.asked = some (n, e₀) := by
    rw [List.findSome?_append, he, Option.some_or]
  refine ⟨fun _ hno => absurd hno htime, fun hno => absurd hno htime, fun hq => ⟨n, e₀, hask, ?_, ?_, ?_⟩,
    fun hq n' e' he' => ?_, fun _ id' hmem => ?_, once_append h.once rfl⟩
  · rw [hcalls]
    exact hagain hq n (calls l) hold
  · intro _ hrand
    rw [hcalls, hnext hq hrand, hsched halive hrand, Option.getD_some]
    rw [Nat.cast_succ, add_mul, one_mul, add_assoc]
  · intro hdead
    exact absurd (halive.symm.trans hdead) (by decide)
  · obtain ⟨rfl, -⟩ := Prod.mk.inj (Option.some.inj (hask.symm.trans he'))
    rw [hcalls]
    exact .inl (hlast hq n (calls l) hold)
  · rcases List.mem_append.mp hmem with hmem | hmem
    · exact h.lives halive id' hmem
    · exact absurd (List.mem_singleton.mp hmem) (by simp)

theorem Fate.leave {l : List Act} (h : Fate el True l) (hdead : el.alive = false) : Fate el False l := by
  obtain ⟨n, e, hask, hleft, -, hcancel⟩ := h.waits trivial
  refine ⟨h.nticks, fun hnone => absurd trivial (h.idle hnone).1, False.elim, fun _ n' e' hask' => ?_, h.lives,
    h.once⟩
  obtain ⟨rfl, -⟩ := Prod.mk.inj (Option.some.inj (hask.symm.trans hask'))
  exact .inr ⟨hcancel hdead, hleft.within⟩

/-- What taking a listener from the heap leaves. -/
structure Popped (s : EventDispatcher2) (id : ℕ) (rest : Array ℕ) : Prop where
  out : id ∉ rest.toList
  mem : ∀ x, x ∈ s.tlisteners.toList ↔ x = id ∨ x ∈ rest.toList
  ordered : Ordered s.etime 0 rest
  nodup : rest.toList.Nodup
  dead : s.dead = s.deadIn rest.toList + if (s.els id).alive then 0 else 1
  first : ∀ x ∈ s.tlisteners.toList, s.etime id ≤ s.etime x

theorem Inv.pop {rest : Array ℕ} (h : Inv s) (hpop : heappop s.etime s.tlisteners = some (id, rest)) :
    s.tlisteners[0]? = some id ∧ Popped s id rest := by
  obtain ⟨hroot, hperm, hordered⟩ := Lib.Heap.heappop_spec hpop
  have hnodup : (id :: rest.toList).Nodup := hperm.nodup_iff.mp h.nodup
  obtain ⟨hout, hrest⟩ := List.nodup_cons.mp hnodup
  refine ⟨hroot, hout, fun x => ?_, hordered h.ordered, hrest, ?_, fun x hx => ?_⟩
  · rw [hperm.mem_iff, List.mem_cons]
  · unfold dead deadIn
    rw [hperm.countP_eq, List.countP_cons]
    cases (s.els id).alive <;> rfl
  · obtain ⟨i, hi, hget⟩ := List.mem_iff_getElem.mp hx
    exact h.ordered.root_le i id x hroot (Array.getElem?_eq_some_iff.mpr ⟨hi, hget⟩)

theorem Inv.log_call (h : Inv s) (halive : (s.els id).alive = true) {e t : ℚ} (hdue : e ≤ t) :
    Kept (s.log ++ [.call id e t]) := by
  constructor
  · refine List.pairwise_append.mpr ⟨h.kept.stopped, List.pairwise_singleton _ _, ?_⟩
    rintro a ha b hb id' e' t' rfl rfl
    obtain ⟨rfl, -, -⟩ := Act.call.inj (List.mem_singleton.mp hb)
    exact (h.fate id').lives halive id' (mem_about.mpr ⟨ha, rfl⟩)
  · intro id' e' t' hmem
    rcases List.mem_append.mp hmem with hmem | hmem
    · exact h.kept.due id' e' t' hmem
    · obtain ⟨rfl, rfl, rfl⟩ := Act.call.inj (List.mem_singleton.mp hmem)
      exact hdue

theorem Inv.callBack {rest : Array ℕ} (h : Inv s) (hp : Popped s id rest) (halive : (s.els id).alive = true)
    (hdue : s.etime id ≤ s.lastTs) (ival : ℚ) : Inv ({ s with tlisteners := rest }.callBack id ival) := by
  have hin : id ∈ s.tlisteners.toList := (hp.mem id).mpr (.inl rfl)
  have hid : id < s.next := h.queued_lt hin
  have hfate : Fate (s.els id) True (about id s.log) := (h.fate id).congr (iff_of_true hin trivial)
  have hsome : (s.els id).etime ≠ none := fun hnone => ((h.fate id).idle hnone).1 hin
  have habout : about id (s.log ++ [.call id (s.etime id) s.lastTs]) =
    about id s.log ++ [.call id (s.etime id) s.lastTs] := about_self s.log rfl
  have hdead : (s.deadIn rest.toList : ℤ) ≤ s.twasted := by
    have hall := h.wasted
    rw [hp.dead, if_pos halive, Nat.add_zero] at hall
    exact hall
  unfold EventDispatcher2.callBack
  dsimp only
  split
  · rename_i hperiodic
    have hperiodic' : (s.els id).nticks = -1 ∨ 1 < (s.els id).nticks := by
      simpa [EventListener.periodic] using hperiodic
    change Inv { s.setEl id (s.again id ival) with
      tlisteners := heappush (s.setEl id (s.again id ival)).etime rest id
      log := s.log ++ [.call id (s.etime id) s.lastTs]
      running := some (id, false) }
    have hels (id' : ℕ) (hne : id' ≠ id) := setEl_other s (s.again id ival) hne
    obtain ⟨hordered, hnodup, hcount, hmem⟩ := push_spec hp.ordered hp.nodup
      (t := { s.setEl id (s.again id ival) with
        tlisteners := heappush (s.setEl id (s.again id ival)).etime rest id
        log := s.log ++ [.call id (s.etime id) s.lastTs]
        running := some (id, false) }) hp.out hels rfl
      ((congrArg EventListener.alive (setEl_self s id _)).trans halive)
    refine h.one hid le_rfl hels (fun x hx => ?_) (fun x hx => about_other hx.symm) (fun x hrun => ?_)
      hordered hnodup (hcount ▸ hdead) ?_ (h.log_call halive hdue)
    · exact (hmem x).trans ((or_iff_right hx).trans ((hp.mem x).trans (or_iff_right hx)).symm)
    · exact absurd hrun (by simp)
    · refine Fate.congr ?_ (iff_of_true trivial ((hmem id).mpr (.inl rfl)))
      change Fate ((s.setEl id _).els id) True (about id (s.log ++ [_]))
      rw [setEl_self, habout]
      refine hfate.call halive (fun _ m k hleft => hleft.next hperiodic') (fun hno => absurd trivial hno)
        (by simp) fun _ hrand => ?_
      rw [hrand]
      rfl
  · rename_i hlast
    have hlast' : ¬ ((s.els id).nticks = -1 ∨ 1 < (s.els id).nticks) := by
      simpa [EventListener.periodic] using hlast
    refine h.one hid le_rfl (fun _ _ => rfl) (fun x hx => ?_) (fun x hx => about_other hx.symm) (fun x hrun => ?_)
      hp.ordered hp.nodup hdead ?_ (h.log_call halive hdue)
    · exact ((hp.mem x).trans (or_iff_right hx)).symm
    · obtain ⟨rfl, -⟩ := Prod.mk.inj (Option.some.inj hrun)
      exact .inr ⟨rfl, hp.out, hsome⟩
    · refine Fate.congr ?_ (iff_of_false not_false hp.out)
      change Fate (s.els id) False (about id (s.log ++ [.call id (s.etime id) s.lastTs]))
      rw [habout]
      exact hfate.call halive False.elim (fun _ n k hleft => hleft.last hlast') hsome False.elim

/-- A turn of `dispatchTimers` stops, drops a listener that is not wanted, or calls the first of all. -/
theorem Inv.dispatch_cases (h : Inv s) (ival : ℚ) :
    (s.dispatch ival = s ∧ (s.running = none → s.endloop = false → s.Finished)) ∨
      ∃ id rest, heappop s.etime s.tlisteners = some (id, rest) ∧ Popped s id rest ∧
        (((s.els id).alive = false ∧
            s.dispatch ival = { s with tlisteners := rest, twasted := s.twasted - 1 }) ∨
          ((s.els id).alive = true ∧ s.etime id ≤ s.lastTs ∧
            s.dispatch ival = { s with tlisteners := rest }.callBack id ival)) := by
  unfold EventDispatcher2.dispatch
  split
  · rename_i hbusy
    refine .inl ⟨rfl, fun hrun hend => ?_⟩
    rw [hrun, hend] at hbusy
    exact absurd hbusy (by simp)
  · cases htop : s.tlisteners[0]? with
    | none =>
      refine .inl ⟨rfl, fun hrun hend => ⟨hrun, hend, fun el hel => ?_⟩⟩
      exact absurd (htop.symm.trans hel) (by simp)
    | some id =>
      dsimp only
      split
      · rename_i hlater
        refine .inl ⟨rfl, fun hrun hend => ⟨hrun, hend, fun el hel => ?_⟩⟩
        obtain rfl := Option.some.inj (htop.symm.trans hel)
        exact hlater
      · rename_i hdue
        cases hpop : heappop s.etime s.tlisteners with
        | none =>
          have hne : s.tlisteners ≠ #[] := by
            rintro hnil
            rw [hnil] at htop
            exact absurd htop (by simp)
          have hsome : (heappop s.etime s.tlisteners).isSome := Lib.Heap.heappop_isSome.mpr hne
          rw [hpop] at hsome
          exact absurd hsome (by simp)
        | some p =>
          obtain ⟨id', rest⟩ := p
          obtain ⟨hroot, hp⟩ := h.pop hpop
          obtain rfl := Option.some.inj (htop.symm.trans hroot)
          refine .inr ⟨id, rest, rfl, hp, ?_⟩
          cases halive : (s.els id).alive with
          | false => exact .inl ⟨rfl, if_neg (by simp [halive])⟩
          | true =>
            refine .inr ⟨rfl, ?_, if_pos halive⟩
            by_contra hlt
            exact hdue ⟨halive, not_le.mp hlt⟩

theorem Inv.dispatch (h : Inv s) (ival : ℚ) : Inv (s.dispatch ival) := by
  rcases h.dispatch_cases ival with ⟨heq, -⟩ | ⟨id, rest, -, hp, ⟨halive, heq⟩ | ⟨halive, hdue, heq⟩⟩
  · rwa [heq]
  · have hin : id ∈ s.tlisteners.toList := (hp.mem id).mpr (.inl rfl)
    have hfate := h.fate id
    rw [heq]
    refine h.one (h.queued_lt hin) le_rfl (fun _ _ => rfl) (fun x hx => ?_) (fun _ _ => rfl) (fun x hrun => ?_)
      hp.ordered hp.nodup ?_ ?_ h.kept
    · exact ((hp.mem x).trans (or_iff_right hx)).symm
    · refine .inl ⟨?_, hrun⟩
      rintro rfl
      exact (h.busy x hrun).1 hin
    · have hall : (s.dead : ℤ) ≤ s.twasted := h.wasted
      rw [hp.dead, if_neg (by simp [halive])] at hall
      change (s.deadIn rest.toList : ℤ) ≤ s.twasted - 1
      omega
    · exact ((hfate.congr (iff_of_true hin trivial)).leave halive).congr (iff_of_false not_false hp.out)
  · rw [heq]
    exact h.callBack hp halive hdue ival

theorem Inv.ret (h : Inv s) : Inv s.ret := by
  unfold EventDispatcher2.ret
  split
  · exact h
  · rename_i id cleanup hrun
    have hfree : Inv { s with running := none } :=
      ⟨h.ordered, h.nodup, h.wasted, h.unborn, fun _ hno => absurd hno (by simp), h.fate, h.kept⟩
    dsimp only
    split
    · rename_i hclean
      obtain ⟨-, rfl⟩ := hclean
      obtain ⟨hout, hsome⟩ := h.busy id hrun
      have hid : id < s.next := by
        by_contra hle
        exact hsome (h.unborn id (not_lt.mp hle)).1
      have hfate := h.fate id
      refine hfree.setEl hid rfl ?_ ⟨fun hlive => absurd hlive Bool.false_ne_true, hfate.idle,
        fun hin => absurd hin hout, hfate.ended, fun hlive => absurd hlive Bool.false_ne_true, hfate.once⟩
      exact (congrArg Nat.cast (deadIn_other hout fun x hx => setEl_other s _ hx)).trans_le h.wasted
    · exact hfree

def compacted (s : EventDispatcher2) : EventDispatcher2 :=
  { s with tlisteners := heapify s.etime (s.tlisteners.filter fun id => (s.els id).alive), twasted := 0 }

theorem compacted_spec (s : EventDispatcher2) : s.compacted.tlisteners.toList.Perm
    (s.tlisteners.toList.filter fun id => (s.els id).alive) ∧ Ordered s.etime 0 s.compacted.tlisteners := by
  rw [← Array.toList_filter]
  exact Lib.Heap.heapify_spec _

theorem mem_compacted : id ∈ s.compacted.tlisteners.toList ↔
    id ∈ s.tlisteners.toList ∧ (s.els id).alive = true := by
  rw [(compacted_spec s).1.mem_iff, List.mem_filter]

theorem Inv.compacted (h : Inv s) : Inv s.compacted ∧ s.compacted.dead = 0 := by
  obtain ⟨hperm, hordered⟩ := compacted_spec s
  have hmem (x : ℕ) : x ∈ s.compacted.tlisteners.toList ↔ x ∈ s.tlisteners.toList ∧ (s.els x).alive = true :=
    mem_compacted
  have hdead : s.compacted.dead = 0 := by
    apply List.countP_eq_zero.mpr
    intro x hx
    have halive : (s.compacted.els x).alive = true := ((hmem x).mp hx).2
    simp [halive]
  refine ⟨⟨hordered, ?_, by rw [hdead]; rfl, h.unborn, fun id hrun => ?_, fun id => ?_, h.kept⟩, hdead⟩
  · exact hperm.nodup_iff.mpr (h.nodup.filter _)
  · obtain ⟨hout, hsome⟩ := h.busy id hrun
    exact ⟨fun hin => hout ((hmem id).mp hin).1, hsome⟩
  · have hfate := h.fate id
    cases halive : (s.els id).alive with
    | true => exact hfate.congr ((hmem id).trans (and_iff_left halive)).symm
    | false =>
      have hout : id ∉ s.compacted.tlisteners.toList := fun hin =>
        absurd (((hmem id).mp hin).2.symm.trans halive) (by decide)
      refine Fate.congr ?_ (iff_of_false not_false hout)
      by_cases hin : id ∈ s.tlisteners.toList
      · exact (hfate.congr (iff_of_true hin trivial)).leave halive
      · exact hfate.congr (iff_of_false hin not_false)

theorem Inv.turn (h : Inv s) (now : ℚ) : Inv (s.turn now) := by
  unfold EventDispatcher2.turn
  split
  · dsimp only
    split
    · exact h.compacted.1.setLastTs now
    · exact h.setLastTs now
  · exact h

theorem Inv.step (h : Inv s) {l : Label} (hl : s.Meets l) : Inv (s.step l) := by
  cases l with
  | regTimer now ival nticks absTime => exact h.regTimer now ival nticks absTime
  | spreadRuns id => exact h.spreadRuns hl
  | go id ival => exact h.go hl.1 hl.2 ival
  | cancel id => exact h.cancel hl
  | breakLoop => exact ⟨h.ordered, h.nodup, h.wasted, h.unborn, h.busy, h.fate, h.kept⟩
  | dispatch ival => exact h.dispatch ival
  | ret => exact h.ret
  | turn now => exact h.turn now
  | loop now => exact ⟨h.ordered, h.nodup, h.wasted, h.unborn, h.busy, h.fate, h.kept⟩

theorem inv_init (lastTs : ℚ) : Inv (init lastTs) := by
  refine ⟨fun p c _ _ x y hx => absurd hx (by simp [init]), List.nodup_nil, le_rfl, fun id _ => ⟨rfl, rfl⟩,
    fun id hrun => absurd hrun (by simp [init]), fun id => ?_, List.Pairwise.nil, fun _ _ _ => nofun⟩
  exact ⟨fun hlive => absurd hlive Bool.false_ne_true, fun _ => ⟨List.not_mem_nil, rfl, rfl⟩,
    fun hin => absurd hin List.not_mem_nil, fun _ n e he => absurd he (by simp [about, init]),
    fun hlive => absurd hlive Bool.false_ne_true, fun a ha => absurd ha List.not_mem_nil⟩

theorem inv_run {lastTs : ℚ} {ls : List Label} (h : Along EventDispatcher2.step Meets (init lastTs) ls) :
    Inv (run EventDispatcher2.step (init lastTs) ls) :=
  h.invariant (fun _ _ hl hs => hs.step hl) (inv_init lastTs)

end Steps

def callsOf (s : EventDispatcher2) (id : ℕ) : ℕ := calls (about id s.log)

/-- What the dispatcher promises about the calls. -/
structure Sound (s : EventDispatcher2) : Prop where
  /-- A listener that was cancelled is not called again. -/
  stopped : s.log.Pairwise fun a b => ∀ id e t, a = Act.cancel id → b ≠ Act.call id e t
  due : ∀ id e t, Act.call id e t ∈ s.log → e ≤ t
  quota : ∀ id n e, Act.go id n e ∈ s.log → Within n (s.callsOf id)
  /-- A turn of the loop calls the first of those that are due. -/
  earliest : ∀ ival id e t, (s.dispatch ival).log = s.log ++ [.call id e t] →
    ∀ id' ∈ s.tlisteners.toList, e ≤ s.etime id'

/-- What it promises about the listeners that were started and not cancelled. -/
structure Complete (s : EventDispatcher2) : Prop where
  /-- As long as calls are left, a listener is in the heap, with the time of the next: the interval is
  added to the time of the first once for each call, in exact arithmetic. -/
  waits : ∀ id n e, Act.go id n e ∈ s.log → Act.cancel id ∉ s.log → ¬ Spent n (s.callsOf id) →
    id ∈ s.tlisteners.toList ∧
      ((s.els id).randomizeRuns = false → s.etime id = e + s.callsOf id * (s.els id).ival)
  /-- When `dispatchTimers` returns, nothing in the heap is due. -/
  nothingDue : s.Finished → ∀ id ∈ s.tlisteners.toList, s.lastTs < s.etime id
  /-- Until then a turn calls a listener or makes the heap smaller. -/
  progress : s.running = none → s.endloop = false → ¬ s.Finished → ∀ ival,
    (s.dispatch ival).running.isSome ∨ (s.dispatch ival).tlisteners.size < s.tlisteners.size
  /-- At most half of the heap is not wanted when the loop goes on. -/
  bounded : s.Finished → ∀ now, 2 * (s.turn now).dead ≤ (s.turn now).tlisteners.size

/-- What it promises about the heap. -/
structure Tidy (s : EventDispatcher2) : Prop where
  /-- The listeners in the heap that were cancelled are counted. -/
  wasted : 0 ≤ s.twasted ∧ (s.dead : ℤ) ≤ s.twasted
  ordered : Ordered s.etime 0 s.tlisteners
  /-- The loop, which may build the heap anew, removes no listener that is wanted and adds none. -/
  turned : ∀ now, ∀ id, (id ∈ (s.turn now).tlisteners.toList → id ∈ s.tlisteners.toList) ∧
    ((s.els id).alive → id ∈ s.tlisteners.toList → id ∈ (s.turn now).tlisteners.toList)
  reordered : ∀ now, Ordered (s.turn now).etime 0 (s.turn now).tlisteners

section Main
variable {s : EventDispatcher2} {id : ℕ}

theorem Inv.asked (h : Inv s) {n : ℤ} {e : ℚ} (hgo : Act.go id n e ∈ s.log) :
    (about id s.log).findSome? Act.asked = some (n, e) :=
  (h.fate id).once _ (mem_about.mpr ⟨hgo, rfl⟩) (n, e) rfl

theorem callBack_call (s : EventDispatcher2) (id : ℕ) (ival : ℚ) :
    (s.callBack id ival).log = s.log ++ [.call id (s.etime id) s.lastTs] ∧
      (s.callBack id ival).running.isSome = true := by
  unfold callBack
  dsimp only
  split
  · exact ⟨rfl, rfl⟩
  · exact ⟨rfl, rfl⟩

theorem Spent.within {n : ℤ} {k : ℕ} (h : Spent n k) : Within n k := .inr h.2.le

theorem Inv.sound (h : Inv s) : Sound s := by
  refine ⟨h.kept.stopped, h.kept.due, fun id n e hgo => ?_, fun ival id e t hlog id' hin => ?_⟩
  · have hask := h.asked hgo
    by_cases hin : id ∈ s.tlisteners.toList
    · obtain ⟨n', e', hask', hleft, -, -⟩ := (h.fate id).waits hin
      obtain ⟨rfl, -⟩ := Prod.mk.inj (Option.some.inj (hask.symm.trans hask'))
      exact hleft.within
    · rcases (h.fate id).ended hin n e hask with hspent | ⟨-, hwithin⟩
      · exact hspent.within
      · exact hwithin
  · have hne : s.log ≠ s.log ++ [.call id e t] := fun heq => by simpa using congrArg List.length heq
    rcases h.dispatch_cases ival with ⟨heq, -⟩ | ⟨first, rest, -, hp, ⟨-, heq⟩ | ⟨-, -, heq⟩⟩
    · exact absurd ((congrArg EventDispatcher2.log heq).symm.trans hlog) hne
    · exact absurd ((congrArg EventDispatcher2.log heq).symm.trans hlog) hne
    · rw [heq, (callBack_call _ first ival).1] at hlog
      have hcall := List.append_cancel_left hlog
      obtain ⟨-, rfl, -⟩ := Act.call.inj (List.singleton_inj.mp hcall)
      exact hp.first id' hin

theorem Inv.tidy (h : Inv s) : Tidy s := by
  refine ⟨⟨(Int.natCast_nonneg _).trans h.wasted, h.wasted⟩, h.ordered, fun now id => ?_,
    fun now => (h.turn now).ordered⟩
  unfold EventDispatcher2.turn
  split
  · dsimp only
    split
    · change (id ∈ s.compacted.tlisteners.toList → _) ∧ (_ → _ → id ∈ s.compacted.tlisteners.toList)
      exact ⟨fun hin => (mem_compacted.mp hin).1, fun halive hin => mem_compacted.mpr ⟨hin, halive⟩⟩
    · exact ⟨fun hin => hin, fun _ hin => hin⟩
  · exact ⟨fun hin => hin, fun _ hin => hin⟩

theorem Inv.complete (h : Inv s) : Complete s := by
  refine ⟨fun id n e hgo hcancel hspent => ?_, fun hfin id hin => ?_, fun hrun hend hfin ival => ?_,
    fun hfin now => ?_⟩
  · have hask := h.asked hgo
    have hno : ¬ ∃ id', Act.cancel id' ∈ about id s.log := by
      rintro ⟨id', hmem⟩
      obtain ⟨hmem, hid⟩ := mem_about.mp hmem
      exact hcancel (hid ▸ hmem)
    have hin : id ∈ s.tlisteners.toList := by
      by_contra hout
      rcases (h.fate id).ended hout n e hask with hover | ⟨hc, -⟩
      · exact hspent hover
      · exact hno hc
    obtain ⟨n', e', hask', -, hsched, hdead⟩ := (h.fate id).waits hin
    obtain ⟨rfl, rfl⟩ := Prod.mk.inj (Option.some.inj (hask.symm.trans hask'))
    refine ⟨hin, fun hrand => ?_⟩
    cases halive : (s.els id).alive with
    | false => exact absurd (hdead halive) hno
    | true =>
      rw [etime, hsched halive hrand]
      rfl
  · obtain ⟨i, hi, hget⟩ := List.mem_iff_getElem.mp hin
    have hid : s.tlisteners[i]? = some id := Array.getElem?_eq_some_iff.mpr ⟨hi, hget⟩
    have hpos : 0 < s.tlisteners.size := by
      rw [← Array.length_toList]
      exact Nat.zero_lt_of_lt hi
    have hroot : s.tlisteners[0]? = some s.tlisteners[0] := Array.getElem?_eq_getElem hpos
    exact (hfin.2.2 _ hroot).2.trans_le (h.ordered.root_le i _ _ hroot hid)
  · rcases h.dispatch_cases ival with ⟨-, hdone⟩ | ⟨id, rest, hpop, hp, ⟨-, heq⟩ | ⟨-, -, heq⟩⟩
    · exact absurd (hdone hrun hend) hfin
    · right
      have hlen := (Lib.Heap.heappop_spec hpop).2.1.length_eq
      rw [List.length_cons, Array.length_toList, Array.length_toList] at hlen
      rw [heq]
      change rest.size < s.tlisteners.size
      omega
    · left
      rw [heq]
      exact (callBack_call _ id ival).2
  · unfold EventDispatcher2.turn
    rw [if_pos hfin]
    dsimp only
    split
    · change 2 * s.compacted.dead ≤ _
      rw [h.compacted.2]
      exact Nat.zero_le _
    · have hwasted : (s.dead : ℤ) ≤ s.twasted := h.wasted
      change 2 * s.dead ≤ s.tlisteners.size
      omega

end Main

def twice : List Label :=
  [.regTimer 0 5 2 false, .go 0 5, .loop 6, .dispatch 5, .ret, .turn 12, .dispatch 5, .ret]

example : (run step (init 0) twice).callsOf 0 = 2 := by decide +kernel

/-- However listeners are registered, started and cancelled, also by callbacks: none is called after it
was cancelled, before its time or more often than was asked for, and those that are due are called in
the order of their times. -/
theorem timers_sound {lastTs : ℚ} {ls : List Label} (h : Along step Meets (init lastTs) ls) :
    Sound (run step (init lastTs) ls) :=
  (inv_run h).sound

theorem timers_sound_twice : Sound (run step (init 0) twice) :=
  timers_sound ⟨trivial, ⟨Nat.zero_lt_one, rfl⟩, rfl, trivial, trivial, trivial, trivial, trivial, trivial⟩

/-- The callback of a listener cancels two others, and the loop builds the heap anew. -/
def cancelling : List Label :=
  [.regTimer 0 5 2 false, .go 0 5, .regTimer 0 20 1 false, .go 1 20, .regTimer 0 30 1 false, .go 2 30,
   .loop 6, .dispatch 5, .cancel 1, .cancel 2, .ret, .turn 7]

/-- The timer queue is correct. A callback is run only of a listener that was not cancelled, that is due
and the first of all in the heap, and `n` times at most where that was asked for; the cancelled listeners
in the heap are counted, and building the heap anew loses none that is wanted. -/
theorem queue_correct {lastTs : ℚ} {ls : List Label} (h : Along step Meets (init lastTs) ls) :
    Sound (run step (init lastTs) ls) ∧
      (∀ id n e, Act.go id n e ∈ (run step (init lastTs) ls).log → 0 < n →
        ((run step (init lastTs) ls).callsOf id : ℤ) ≤ n) ∧
      Tidy (run step (init lastTs) ls) := by
  refine ⟨(inv_run h).sound, fun id n e hgo hn => ?_, (inv_run h).tidy⟩
  have hwithin : Within n ((run step (init lastTs) ls).callsOf id) := (inv_run h).sound.quota id n e hgo
  unfold Within at hwithin
  omega

theorem queue_correct_cancelling :
    Tidy (run step (init 0) cancelling) ∧ (run step (init 0) (cancelling.take 11)).twasted = 2 ∧
      (run step (init 0) cancelling).tlisteners = #[0] ∧ (run step (init 0) cancelling).twasted = 0 := by
  have hrun : Along step Meets (init 0) cancelling := by decide +kernel
  exact ⟨(queue_correct hrun).2.2, by decide +kernel, by decide +kernel, by decide +kernel⟩

end EventDispatcher2
end SippyB2bua.Core
