import Mathlib.Algebra.BigOperators.Group.Finset.Basic
import Mathlib.Data.Fintype.BigOperators
import Mathlib.Data.List.ReduceOption
import Mathlib.Tactic.Linarith
import SippyB2bua.Lib.Run
import SippyB2bua.Radius.Result

/-!
# The workers of an external command

Each worker has a process of its own. It takes the requests from one queue, writes each to its
process, reads lines up to an empty one and hands them to the event loop, where `process_result`
runs. A process that has ended is read as empty lines for ever.
-/

namespace SippyB2bua.Radius
open Lib (Text Bytes Along run)

/-- What `result_callback` is. -/
inductive Handler
  | authorisation
  | accounting (origin : Text)
  | none

def Handler.isNone : Handler → Bool
  | .none => true
  | _ => false

structure WorkItem where
  data : List Text
  handler : Handler
  cancelled : Bool

inductive Status
  /-- Waits for work. -/
  | idle
  /-- Reads the answer to the request `no`. -/
  | reading (no : ℕ) (result : List Bytes)
  /-- Was shut down. -/
  | stopped
  /-- Has left its loop with an exception. -/
  | dead

structure Worker where
  status : Status
  /-- The lines that are still to be read. -/
  stdout : List Bytes
  stdin : Text
  /-- The requests that the worker has read the answer to, with the lines. -/
  served : List (ℕ × List Bytes)

/-- The lines that `readline` gives. -/
def readlines (line : Bytes) : Bytes → List Bytes
  | [] => if line = [] then [] else [line]
  | x :: xs => if x = 10 then (line ++ [x]) :: readlines [] xs else readlines (line ++ [x]) xs

structure ExternalCommand (m : ℕ) where
  items : List WorkItem
  /-- The queue; `none` asks a worker to stop. -/
  work : List (Option ℕ)
  workers : Fin (m + 1) → Worker
  /-- The calls of `process_result` that the event loop has still to make. -/
  events : List (ℕ × List Bytes)
  log : List Text
  called : List (ℕ × Results)

namespace ExternalCommand
variable {m : ℕ}

/-- The processes write `outs`. -/
def init (outs : Fin (m + 1) → Bytes) : ExternalCommand m :=
  ⟨[], [], fun w => ⟨.idle, readlines [] (outs w), [], []⟩, [], [], []⟩

def setWorker (s : ExternalCommand m) (w : Fin (m + 1)) (x : Worker) : ExternalCommand m :=
  { s with workers := Function.update s.workers w x }

def processCommand (s : ExternalCommand m) (data : List Text) (handler : Handler) : ExternalCommand m :=
  { s with items := s.items ++ [⟨data, handler, false⟩], work := s.work ++ [some s.items.length] }

def cancel (s : ExternalCommand m) (no : ℕ) : ExternalCommand m :=
  { s with items := s.items.modify no fun item => { item with cancelled := true } }

def take (s : ExternalCommand m) (w : Fin (m + 1)) (piped : Bool) : ExternalCommand m :=
  let x := s.workers w
  match x.status, s.work with
  | .idle, none :: work =>
    -- the request to stop is relayed
    { s with work := work ++ [none] }.setWorker w { x with status := .stopped }
  | .idle, some no :: work =>
    let s := { s with work }
    match s.items[no]? with
    | none => s
    | some item =>
      if item.cancelled then s
      else if piped then
        s.setWorker w { x with status := .reading no [], stdin := x.stdin ++ batch item.data }
      else s.setWorker w { x with status := .dead }
  | _, _ => s

def read (s : ExternalCommand m) (w : Fin (m + 1)) : ExternalCommand m :=
  let x := s.workers w
  match x.status with
  | .reading no result =>
    let line := stripLine (x.stdout.headD [])
    if line = [] then
      { s with events := s.events ++ [(no, result)] }.setWorker w
        { x with status := .idle, stdout := x.stdout.tail, served := x.served ++ [(no, result)] }
    else s.setWorker w { x with status := .reading no (result ++ [line]), stdout := x.stdout.tail }
  | _ => s

/-- The callback runs, and logs what it was called with. -/
def callBack (s : ExternalCommand m) (no : ℕ) (delay : Text) (results : Results) : Handler → ExternalCommand m
  | .none => s
  | .authorisation =>
    { s with log := s.log ++ [authMessage delay results], called := s.called ++ [(no, results)] }
  | .accounting origin =>
    { s with log := s.log ++ [acctMessage origin delay results], called := s.called ++ [(no, results)] }

/-- The event loop calls `process_result`; what it raises is logged and nothing more. -/
def dispatch (s : ExternalCommand m) (delay : Text) : ExternalCommand m :=
  match s.events with
  | [] => s
  | (no, result) :: events =>
    let s := { s with events }
    match s.items[no]? with
    | none => s
    | some item =>
      if item.handler.isNone then s
      else match processResult result with
        | .error _ => s
        | .ok results => s.callBack no delay results item.handler

inductive Label (m : ℕ)
  | request (data : List Text) (handler : Handler)
  | cancel (no : ℕ)
  | shutdown
  | take (w : Fin (m + 1)) (piped : Bool)
  | read (w : Fin (m + 1))
  | dispatch (delay : Text)

def step (s : ExternalCommand m) : Label m → ExternalCommand m
  | .request data handler => s.processCommand data handler
  | .cancel no => s.cancel no
  | .shutdown => { s with work := s.work ++ [none] }
  | .take w piped => s.take w piped
  | .read w => s.read w
  | .dispatch delay => s.dispatch delay

/-- Nobody asks the workers to stop, a process that is written to still reads, and an answer that a
callback waits for can be read. -/
def Meets (s : ExternalCommand m) : Label m → Prop
  | .shutdown => False
  | .take _ piped => piped = true
  | .dispatch _ => ∀ no result, s.events.head? = some (no, result) →
    ∀ item, s.items[no]? = some item → item.handler.isNone = false → Readable result
  | _ => True

end ExternalCommand

def Worker.doing (x : Worker) : Option ℕ :=
  match x.status with
  | .reading no _ => some no
  | _ => none

def Worker.result (x : Worker) : List Bytes :=
  match x.status with
  | .reading _ result => result
  | _ => []

def Worker.serves (x : Worker) : Prop := x.status ≠ .stopped ∧ x.status ≠ .dead

/-- The lines between empty ones; `block` is what was read of the first. -/
def blocks (block : List Bytes) : List Bytes → List (List Bytes)
  | [] => [block]
  | l :: ls =>
    if stripLine l = [] then block :: blocks [] ls else blocks (block ++ [stripLine l]) ls

/-- The `k`-th reply block of a process that writes `out`; it is empty after the end of the file. -/
def replyBlock (out : Bytes) (k : ℕ) : List Bytes := ((blocks [] (readlines [] out))[k]?).getD []

namespace ExternalCommand
variable {m : ℕ}

def eventsOf (s : ExternalCommand m) (n : ℕ) : List (List Bytes) :=
  s.events.filterMap fun p => if p.1 = n then some p.2 else none

def calledOf (s : ExternalCommand m) (n : ℕ) : List Results :=
  s.called.filterMap fun p => if p.1 = n then some p.2 else none

/-- The place of a request that is not in the queue. -/
structure At (s : ExternalCommand m) (n : ℕ) (doing : Option (Fin (m + 1))) (events : List (List Bytes))
    (called : List Results) : Prop where
  doing : ∀ w, (s.workers w).doing = some n ↔ doing = some w
  events : s.eventsOf n = events
  called : s.calledOf n = called

/-- The callback, if there is one, was called once, with what a worker read for the request. -/
def Answered (s : ExternalCommand m) (n : ℕ) (item : WorkItem) : Prop :=
  ∃ w b, (n, b) ∈ (s.workers w).served ∧
    (item.handler.isNone = true ∧ s.At n none [] [] ∨
      item.handler.isNone = false ∧ ∃ r, processResult b = .ok r ∧ s.At n none [] [r])

inductive Tracks (s : ExternalCommand m) (n : ℕ) (item : WorkItem) : Prop
  | queued (hw : some n ∈ s.work) (h : s.At n none [] [])
  | dropped (hw : some n ∉ s.work) (hc : item.cancelled = true) (h : s.At n none [] [])
  | reading (w : Fin (m + 1)) (hw : some n ∉ s.work) (h : s.At n (some w) [] [])
  | arrived (w : Fin (m + 1)) (b : List Bytes) (hw : some n ∉ s.work)
    (hb : (n, b) ∈ (s.workers w).served) (h : s.At n none [b] [])
  | answered (hw : some n ∉ s.work) (h : s.Answered n item)

def line (s : ExternalCommand m) (w : Fin (m + 1)) : List ℕ :=
  (s.workers w).served.map Prod.fst ++ (s.workers w).doing.toList ++ s.work.reduceOption

structure Inv (outs : Fin (m + 1) → Bytes) (s : ExternalCommand m) : Prop where
  work : none ∉ s.work
  serves : ∀ w, (s.workers w).serves
  order : ∀ w, (s.line w).Pairwise (· < ·)
  bound : ∀ w, ∀ n ∈ s.line w, n < s.items.length
  fresh : ∀ n, s.items.length ≤ n → s.At n none [] []
  tracks : ∀ n item, s.items[n]? = some item → s.Tracks n item
  replies : ∀ w k, replyBlock (outs w) k = (((s.workers w).served.map Prod.snd ++
    blocks (s.workers w).result (s.workers w).stdout)[k]?).getD []

section Invariant
variable {outs : Fin (m + 1) → Bytes} {s t : ExternalCommand m} {n no : ℕ} {w v : Fin (m + 1)}
  {item : WorkItem}

/-- A step is about other requests. -/
structure Same (s t : ExternalCommand m) (n : ℕ) : Prop where
  work : some n ∈ t.work ↔ some n ∈ s.work
  doing : ∀ w, (t.workers w).doing = some n ↔ (s.workers w).doing = some n
  events : t.eventsOf n = s.eventsOf n
  called : t.calledOf n = s.calledOf n
  served : ∀ w, (s.workers w).served ⊆ (t.workers w).served

theorem Same.at {d : Option (Fin (m + 1))} {e : List (List Bytes)} {c : List Results}
    (h : Same s t n) (ha : s.At n d e c) : t.At n d e c :=
  ⟨fun w => (h.doing w).trans (ha.doing w), h.events.trans ha.events, h.called.trans ha.called⟩

theorem Same.tracks (h : Same s t n) (ht : s.Tracks n item) : t.Tracks n item := by
  cases ht with
  | queued hq ha => exact .queued (h.work.2 hq) (h.at ha)
  | dropped hq hc ha => exact .dropped (fun hw => hq (h.work.1 hw)) hc (h.at ha)
  | reading w hq ha => exact .reading w (fun hw => hq (h.work.1 hw)) (h.at ha)
  | arrived w b hq hb ha => exact .arrived w b (fun hw => hq (h.work.1 hw)) (h.served w hb) (h.at ha)
  | answered hq ha =>
    obtain ⟨w, b, hb, hans⟩ := ha
    refine .answered (fun hw => hq (h.work.1 hw)) ⟨w, b, h.served w hb, ?_⟩
    rcases hans with ⟨hn, ha⟩ | ⟨hn, r, hr, ha⟩
    · exact .inl ⟨hn, h.at ha⟩
    · exact .inr ⟨hn, r, hr, h.at ha⟩

theorem mem_line (w : Fin (m + 1)) (h : some n ∈ s.work) : n ∈ s.line w := by
  apply List.mem_append_right
  rwa [List.reduceOption_mem_iff]

theorem Inv.processCommand (h : Inv outs s) (data : List Text) (handler : Handler) :
    Inv outs (s.processCommand data handler) := by
  have hline (w : Fin (m + 1)) : (s.processCommand data handler).line w = s.line w ++ [s.items.length] := by
    simp [line, ExternalCommand.processCommand, List.reduceOption_append]
  have hsame {n : ℕ} (hn : n ≠ s.items.length) : Same s (s.processCommand data handler) n :=
    ⟨by simp [ExternalCommand.processCommand, hn], fun _ => Iff.rfl, rfl, rfl, fun _ => List.Subset.refl _⟩
  have hlen : (s.processCommand data handler).items.length = s.items.length + 1 := by
    simp [ExternalCommand.processCommand]
  refine ⟨?_, h.serves, fun w => ?_, fun w n hn => ?_, fun n hn => ?_, fun n item hi => ?_, h.replies⟩
  · simpa [ExternalCommand.processCommand] using h.work
  · rw [hline]
    apply List.pairwise_append.2 ⟨h.order w, List.pairwise_singleton _ _, fun a ha b hb => ?_⟩
    rw [List.mem_singleton.1 hb]
    exact h.bound w a ha
  · rw [hline, List.mem_append, List.mem_singleton] at hn
    rw [hlen]
    rcases hn with hn | rfl
    · exact Nat.lt_succ_of_lt (h.bound w n hn)
    · exact Nat.lt_succ_self _
  · rw [hlen] at hn
    exact (hsame (by omega)).at (h.fresh n (by omega))
  · by_cases hn : n = s.items.length
    · subst hn
      have hat := h.fresh _ (Nat.le_refl s.items.length)
      exact .queued (by simp [ExternalCommand.processCommand]) ⟨hat.doing, hat.events, hat.called⟩
    · apply (hsame hn).tracks (h.tracks n item _)
      rw [← hi]
      simp only [ExternalCommand.processCommand, List.getElem?_append]
      split
      · rfl
      · rw [List.getElem?_singleton, if_neg (by omega)]
        exact List.getElem?_eq_none (by omega)

theorem Tracks.cancel (h : s.Tracks n item) : s.Tracks n { item with cancelled := true } := by
  cases h with
  | queued hq ha => exact .queued hq ha
  | dropped hq hc ha => exact .dropped hq rfl ha
  | reading w hq ha => exact .reading w hq ha
  | arrived w b hq hb ha => exact .arrived w b hq hb ha
  | answered hq ha => exact .answered hq ha

theorem Inv.cancel (h : Inv outs s) (no : ℕ) : Inv outs (s.cancel no) := by
  have hsame (n : ℕ) : Same s (s.cancel no) n :=
    ⟨Iff.rfl, fun _ => Iff.rfl, rfl, rfl, fun _ => List.Subset.refl _⟩
  have hlen : (s.cancel no).items.length = s.items.length := List.length_modify ..
  refine ⟨h.work, h.serves, h.order, fun w n hn => ?_, fun n hn => ?_, fun n item hi => ?_, h.replies⟩
  · rw [hlen]
    exact h.bound w n hn
  · rw [hlen] at hn
    exact (hsame n).at (h.fresh n hn)
  · unfold ExternalCommand.cancel at hi
    dsimp only at hi
    rw [List.getElem?_modify] at hi
    cases hs : s.items[n]? with
    | none => simp [hs] at hi
    | some item' =>
      have ht := h.tracks n item' hs
      rw [hs] at hi
      by_cases heq : no = n
      · obtain rfl : { item' with cancelled := true } = item := by simpa [heq] using hi
        exact (hsame n).tracks ht.cancel
      · obtain rfl : item' = item := by simpa [heq] using hi
        exact (hsame n).tracks ht

theorem setWorker_workers (x : Worker) :
    (s.setWorker w x).workers v = if v = w then x else s.workers v := Function.update_apply ..

theorem Inv.ofWorker (h : Inv outs s) {x : Worker} (hitems : t.items = s.items)
    (hworkers : t.workers = Function.update s.workers w x) (hx : x.serves)
    (hwork : t.work.Sublist s.work)
    (hline : (x.served.map Prod.fst ++ x.doing.toList ++ t.work.reduceOption).Sublist (s.line w))
    (hfresh : ∀ n, s.items.length ≤ n → t.At n none [] [])
    (htracks : ∀ n item, s.items[n]? = some item → t.Tracks n item)
    (hreplies : ∀ k, replyBlock (outs w) k =
      ((x.served.map Prod.snd ++ blocks x.result x.stdout)[k]?).getD []) : Inv outs t := by
  have hother {v : Fin (m + 1)} (hv : v ≠ w) : (t.line v).Sublist (s.line v) := by
    unfold line
    rw [hworkers, Function.update_of_ne hv]
    exact (List.Sublist.refl _).append (hwork.filterMap _)
  have hline : (t.line w).Sublist (s.line w) := by
    unfold line at hline ⊢
    rwa [hworkers, Function.update_self]
  refine ⟨fun hn => h.work (hwork.subset hn), fun v => ?_, fun v => ?_, fun v n hn => ?_,
    hitems ▸ hfresh, hitems ▸ htracks, fun v => ?_⟩ <;> by_cases hv : v = w
  · rw [hworkers, hv, Function.update_self]
    exact hx
  · rw [hworkers, Function.update_of_ne hv]
    exact h.serves v
  · rw [hv]
    exact (h.order w).sublist hline
  · exact (h.order v).sublist (hother hv)
  · rw [hitems]
    rw [hv] at hn
    exact h.bound w n (hline.subset hn)
  · rw [hitems]
    exact h.bound v n ((hother hv).subset hn)
  · rw [hworkers, hv, Function.update_self]
    exact hreplies
  · rw [hworkers, Function.update_of_ne hv]
    exact h.replies v

theorem Inv.head (h : Inv outs s) {work : List (Option ℕ)} (hw : s.work = some no :: work) :
    no < s.items.length ∧ some no ∉ work ∧ s.At no none [] [] := by
  have hmem : some no ∈ s.work := hw ▸ List.mem_cons_self
  have hlt := h.bound 0 no (mem_line 0 hmem)
  refine ⟨hlt, fun hin => ?_, ?_⟩
  · have horder := (List.pairwise_append.1 (h.order 0)).2.1
    rw [hw, List.reduceOption_cons_of_some] at horder
    exact absurd ((List.pairwise_cons.1 horder).1 no (List.reduceOption_mem_iff.2 hin)) (Nat.lt_irrefl _)
  · cases h.tracks no _ (List.getElem?_eq_getElem hlt) with
    | queued _ ha => exact ha
    | dropped hq | reading _ hq | arrived _ _ hq | answered hq => exact absurd hmem hq

theorem mem_tail {work : List (Option ℕ)} (hw : s.work = some no :: work) (hn : n ≠ no) :
    some n ∈ work ↔ some n ∈ s.work := by simp [hw, hn]

theorem Inv.take (h : Inv outs s) (w : Fin (m + 1)) : Inv outs (s.take w true) := by
  unfold ExternalCommand.take
  simp only [↓reduceIte]
  split
  next work _ hw => exact absurd (hw ▸ List.mem_cons_self) h.work
  next no work hidle hw =>
    obtain ⟨hlt, hnot, hat⟩ := h.head hw
    have hsub : work.Sublist s.work := hw ▸ List.sublist_cons_self _ _
    have hdoing : (s.workers w).doing = none := by rw [Worker.doing, hidle]
    have hresult : (s.workers w).result = [] := by rw [Worker.result, hidle]
    rw [List.getElem?_eq_getElem hlt]
    dsimp only
    split
    next hcancelled =>
      have hsame {n : ℕ} (hn : n ≠ no) : Same s { s with work } n :=
        ⟨mem_tail hw hn, fun _ => Iff.rfl, rfl, rfl, fun _ => List.Subset.refl _⟩
      refine h.ofWorker (w := w) rfl (Function.update_eq_self ..).symm (h.serves w) hsub ?_
        (fun n hn => (hsame (by omega)).at (h.fresh n hn)) (fun n item hi => ?_) (h.replies w)
      · exact (List.Sublist.refl _).append (hsub.filterMap _)
      · by_cases hn : n = no
        · subst hn
          obtain rfl := Option.some.inj ((List.getElem?_eq_getElem hlt).symm.trans hi)
          exact .dropped hnot hcancelled ⟨hat.doing, hat.events, hat.called⟩
        · exact (hsame hn).tracks (h.tracks n item hi)
    next hcancelled =>
      set x : Worker := { s.workers w with
        status := .reading no [], stdin := (s.workers w).stdin ++ batch s.items[no].data }
      have hserved : x.served = (s.workers w).served := rfl
      have hsame {n : ℕ} (hn : n ≠ no) : Same s ({ s with work }.setWorker w x) n := by
        refine ⟨mem_tail hw hn, fun v => ?_, rfl, rfl, fun v => ?_⟩ <;> rw [setWorker_workers] <;> split
        next hv =>
          rw [hv, hdoing]
          simp [x, Worker.doing, Ne.symm hn]
        next => rfl
        next hv => rw [hv, hserved]; exact List.Subset.refl _
        next => exact List.Subset.refl _
      refine h.ofWorker (w := w) (x := x) rfl rfl ⟨nofun, nofun⟩ hsub ?_
        (fun n hn => (hsame (by omega)).at (h.fresh n hn)) (fun n item hi => ?_) (fun k => ?_)
      · rw [hserved, line, hdoing, hw]
        simp [x, Worker.doing]
        exact List.Sublist.refl _
      · by_cases hn : n = no
        · subst hn
          refine .reading w hnot ⟨fun v => ?_, hat.events, hat.called⟩
          rw [setWorker_workers]
          split
          next hv => simp [x, Worker.doing, hv]
          next hv =>
            rw [hat.doing v]
            simp [Ne.symm hv]
        · exact (hsame hn).tracks (h.tracks n item hi)
      · rw [h.replies w k, hresult]
        rfl
  next => exact h

theorem eventsOf_append {b : List Bytes} (ht : t.events = s.events ++ [(no, b)]) :
    t.eventsOf n = s.eventsOf n ++ if no = n then [b] else [] := by
  rw [eventsOf, ht, List.filterMap_append, eventsOf]
  by_cases hn : no = n <;> simp [hn]

theorem eventsOf_cons {b : List Bytes} (hs : s.events = (no, b) :: t.events) :
    s.eventsOf n = if no = n then b :: t.eventsOf n else t.eventsOf n := by
  rw [eventsOf, hs, List.filterMap_cons, eventsOf]
  by_cases hn : no = n <;> simp [hn]

theorem calledOf_append {r : Results} (ht : t.called = s.called ++ [(no, r)]) :
    t.calledOf n = s.calledOf n ++ if no = n then [r] else [] := by
  rw [calledOf, ht, List.filterMap_append, calledOf]
  by_cases hn : no = n <;> simp [hn]

theorem blocks_end {served : List (List Bytes)} {r ls : List Bytes} (h : stripLine (ls.headD []) = [])
    (k : ℕ) : ((served ++ blocks r ls)[k]?).getD [] =
      ((served ++ [r] ++ blocks [] ls.tail)[k]?).getD [] := by
  cases ls with
  | cons l ls =>
    rw [List.headD_cons] at h
    rw [blocks, if_pos h, List.tail_cons, List.append_assoc, List.singleton_append]
  | nil =>
    simp only [blocks, List.tail_nil]
    generalize served ++ [r] = xs
    rw [List.getElem?_append]
    split
    · rfl
    · rw [List.getElem?_eq_none (by omega), List.getElem?_singleton]
      split <;> rfl

theorem blocks_line {r ls : List Bytes} (h : stripLine (ls.headD []) ≠ []) :
    blocks r ls = blocks (r ++ [stripLine (ls.headD [])]) ls.tail := by
  cases ls with
  | nil => exact absurd rfl h
  | cons l ls =>
    rw [List.headD_cons] at h ⊢
    rw [blocks, if_neg h, List.tail_cons]

theorem Inv.reading (h : Inv outs s) (hw : (s.workers w).doing = some no) :
    no < s.items.length ∧ some no ∉ s.work ∧ s.At no (some w) [] [] := by
  have hlt : no < s.items.length := by
    apply h.bound w
    simp [line, hw]
  refine ⟨hlt, ?_⟩
  have hplace {d : Option (Fin (m + 1))} {e : List (List Bytes)} {c : List Results}
      (ha : s.At no d e c) : d = some w := (ha.doing w).1 hw
  cases h.tracks no _ (List.getElem?_eq_getElem hlt) with
  | reading v hq ha => exact ⟨hq, hplace ha ▸ ha⟩
  | queued _ ha | dropped _ _ ha | arrived _ _ _ _ ha => exact nomatch hplace ha
  | answered _ ha =>
    obtain ⟨_, _, _, ⟨_, ha⟩ | ⟨_, _, _, ha⟩⟩ := ha <;> exact nomatch hplace ha

theorem Inv.read (h : Inv outs s) (w : Fin (m + 1)) : Inv outs (s.read w) := by
  unfold ExternalCommand.read
  dsimp only
  split
  next no result hstatus =>
    have hdoing : (s.workers w).doing = some no := by rw [Worker.doing, hstatus]
    have hresult : (s.workers w).result = result := by rw [Worker.result, hstatus]
    obtain ⟨hlt, hnot, hat⟩ := h.reading hdoing
    split
    next hempty =>
      set x : Worker := { s.workers w with
        status := .idle, stdout := (s.workers w).stdout.tail
        served := (s.workers w).served ++ [(no, result)] }
      set t := { s with events := s.events ++ [(no, result)] }.setWorker w x with ht
      have hserved : x.served = (s.workers w).served ++ [(no, result)] := rfl
      have hevents (n : ℕ) : t.eventsOf n = s.eventsOf n ++ if no = n then [result] else [] :=
        eventsOf_append rfl
      have hsame {n : ℕ} (hn : n ≠ no) : Same s t n := by
        refine ⟨Iff.rfl, fun v => ?_, ?_, rfl, fun v => ?_⟩
        · rw [ht, setWorker_workers]
          split
          next hv =>
            rw [hv, hdoing]
            simp [x, Worker.doing, Ne.symm hn]
          next => rfl
        · rw [hevents, if_neg (Ne.symm hn), List.append_nil]
        · rw [ht, setWorker_workers]
          split
          next hv =>
            rw [hv, hserved]
            exact List.subset_append_left _ _
          next => exact List.Subset.refl _
      refine h.ofWorker (w := w) (x := x) rfl rfl ⟨nofun, nofun⟩ (List.Sublist.refl _) ?_
        (fun n hn => (hsame (by omega)).at (h.fresh n hn)) (fun n item hi => ?_) (fun k => ?_)
      · rw [hserved, line, hdoing]
        simp [x, Worker.doing, ht, setWorker]
      · by_cases hn : n = no
        · subst hn
          refine .arrived w result hnot ?_ ⟨fun v => ?_, ?_, hat.called⟩
          · rw [ht, setWorker_workers, if_pos rfl, hserved]
            exact List.mem_append_right _ (List.mem_singleton_self _)
          · rw [ht, setWorker_workers]
            split
            next => simp [x, Worker.doing]
            next hv =>
              rw [hat.doing v]
              simp [Ne.symm hv]
          · rw [hevents, if_pos rfl, hat.events, List.nil_append]
        · exact (hsame hn).tracks (h.tracks n item hi)
      · rw [h.replies w k, hresult, blocks_end hempty, hserved, List.map_append]
        rfl
    next hline =>
      set x : Worker := { s.workers w with
        status := .reading no (result ++ [stripLine ((s.workers w).stdout.headD [])])
        stdout := (s.workers w).stdout.tail }
      have hserved : x.served = (s.workers w).served := rfl
      have hsame (n : ℕ) : Same s (s.setWorker w x) n := by
        refine ⟨Iff.rfl, fun v => ?_, rfl, rfl, fun v => ?_⟩ <;> rw [setWorker_workers] <;> split
        next hv =>
          rw [hv, hdoing]
          rfl
        next => rfl
        next hv => rw [hv, hserved]; exact List.Subset.refl _
        next => exact List.Subset.refl _
      refine h.ofWorker (w := w) (x := x) rfl rfl ⟨nofun, nofun⟩ (List.Sublist.refl _) ?_
        (fun n hn => (hsame n).at (h.fresh n hn)) (fun n item hi => (hsame n).tracks (h.tracks n item hi))
        (fun k => ?_)
      · rw [hserved, line, hdoing]
        exact List.Sublist.refl _
      · rw [h.replies w k, hresult, blocks_line hline]
        rfl
  next => exact h

theorem Inv.event (h : Inv outs s) {b : List Bytes} (hs : s.events = (no, b) :: t.events) :
    no < s.items.length ∧ some no ∉ s.work ∧ (∃ w, (no, b) ∈ (s.workers w).served) ∧
      s.At no none [b] [] ∧ t.eventsOf no = [] := by
  have hevents : s.eventsOf no = b :: t.eventsOf no := by rw [eventsOf_cons hs, if_pos rfl]
  have hplace {d : Option (Fin (m + 1))} {c : List Results} (ha : s.At no d [] c) : False :=
    nomatch hevents.symm.trans ha.events
  have hlt : no < s.items.length := by
    by_contra hlt
    exact hplace (h.fresh no (by omega))
  refine ⟨hlt, ?_⟩
  cases h.tracks no _ (List.getElem?_eq_getElem hlt) with
  | arrived w b' hq hb ha =>
    obtain ⟨rfl, hnil⟩ := List.cons.inj (hevents.symm.trans ha.events)
    exact ⟨hq, ⟨w, hb⟩, ha, hnil⟩
  | queued _ ha | dropped _ _ ha | reading _ _ ha => exact (hplace ha).elim
  | answered _ ha =>
    obtain ⟨_, _, _, ⟨_, ha⟩ | ⟨_, _, _, ha⟩⟩ := ha <;> exact (hplace ha).elim

theorem Inv.ofEvent (h : Inv outs s) {b : List Bytes} (hs : s.events = (no, b) :: t.events)
    (hitems : t.items = s.items) (hwork : t.work = s.work) (hworkers : t.workers = s.workers)
    (hcalled : ∀ n, n ≠ no → t.calledOf n = s.calledOf n)
    (hans : ∀ item, s.items[no]? = some item → t.Answered no item) : Inv outs t := by
  obtain ⟨hlt, hnot, -⟩ := h.event hs
  have hsame {n : ℕ} (hn : n ≠ no) : Same s t n := by
    refine ⟨by rw [hwork], fun v => by rw [hworkers], ?_, hcalled n hn, fun v => ?_⟩
    · rw [eventsOf_cons hs, if_neg (Ne.symm hn)]
    · rw [hworkers]
      exact List.Subset.refl _
  have hline (w : Fin (m + 1)) : t.line w = s.line w := by rw [line, hworkers, hwork, line]
  refine ⟨hwork ▸ h.work, hworkers ▸ h.serves, fun w => ?_, fun w => ?_, fun n hn => ?_, fun n item hi => ?_,
    hworkers ▸ h.replies⟩
  · rw [hline]
    exact h.order w
  · rw [hline, hitems]
    exact h.bound w
  · rw [hitems] at hn
    exact (hsame (by omega)).at (h.fresh n hn)
  · rw [hitems] at hi
    by_cases hn : n = no
    · subst hn
      exact .answered (hwork ▸ hnot) (hans item hi)
    · exact (hsame hn).tracks (h.tracks n item hi)

theorem callBack_eq (s : ExternalCommand m) (no : ℕ) (delay : Text) (r : Results) {handler : Handler}
    (hh : handler.isNone = false) :
    ∃ message, s.callBack no delay r handler =
      { s with log := s.log ++ [message], called := s.called ++ [(no, r)] } := by
  cases handler with
  | none => exact nomatch hh
  | authorisation => exact ⟨_, rfl⟩
  | accounting origin => exact ⟨_, rfl⟩

theorem Inv.dispatch (h : Inv outs s) (delay : Text)
    (hread : ∀ no result, s.events.head? = some (no, result) → ∀ item, s.items[no]? = some item →
      item.handler.isNone = false → Readable result) : Inv outs (s.dispatch delay) := by
  unfold ExternalCommand.dispatch
  split
  next => exact h
  next no result events hevents =>
    obtain ⟨hlt, hnot, ⟨w, hserved⟩, hat, hnil⟩ := h.event (t := { s with events }) hevents
    have hitem := List.getElem?_eq_getElem hlt
    dsimp only
    rw [hitem]
    dsimp only
    split
    next hnone =>
      refine h.ofEvent hevents rfl rfl rfl (fun _ _ => rfl) fun item hi => ⟨w, result, hserved, .inl ?_⟩
      obtain rfl := Option.some.inj (hitem.symm.trans hi)
      exact ⟨hnone, hat.doing, hnil, hat.called⟩
    next hsome =>
      rw [Bool.not_eq_true] at hsome
      obtain ⟨r, hr⟩ := processResult_ok.2 (hread no result (by rw [hevents]; rfl) _ hitem hsome)
      rw [hr]
      dsimp only
      obtain ⟨message, heq⟩ := callBack_eq { s with events } no delay r hsome
      rw [heq]
      refine h.ofEvent (b := result) hevents rfl rfl rfl (fun n hn => ?_)
        fun item hi => ⟨w, result, hserved, .inr ?_⟩
      · rw [calledOf_append (s := s) rfl, if_neg (Ne.symm hn), List.append_nil]
      · obtain rfl := Option.some.inj (hitem.symm.trans hi)
        refine ⟨hsome, r, hr, hat.doing, hnil, ?_⟩
        rw [calledOf_append (s := s) rfl, if_pos rfl, hat.called, List.nil_append]

theorem Inv.step (h : Inv outs s) {l : Label m} (hl : s.Meets l) : Inv outs (s.step l) := by
  cases l with
  | request data handler => exact h.processCommand data handler
  | cancel no => exact h.cancel no
  | shutdown => exact hl.elim
  | take w piped =>
    obtain rfl : piped = true := hl
    exact h.take w
  | read w => exact h.read w
  | dispatch delay => exact h.dispatch delay hl

theorem inv_init (outs : Fin (m + 1) → Bytes) : Inv outs (init outs) := by
  have hline (w : Fin (m + 1)) : (init outs).line w = [] := rfl
  refine ⟨List.not_mem_nil, fun w => ⟨nofun, nofun⟩, fun w => ?_, fun w n hn => ?_, fun n hn => ?_,
    fun n item hi => (nomatch hi), fun w k => rfl⟩
  · rw [hline]
    exact List.Pairwise.nil
  · rw [hline] at hn
    exact nomatch hn
  · exact ⟨fun w => ⟨nofun, nofun⟩, rfl, rfl⟩

theorem inv_run {ls : List (Label m)} (h : Along step Meets (init outs) ls) :
    Inv outs (run step (init outs) ls) :=
  h.invariant (fun _ _ hl hs => hs.step hl) (inv_init outs)

end Invariant

/-- Steps of a worker and of the event loop. -/
def Label.serves : Label m → Bool
  | .take _ piped => piped
  | .read _ => true
  | .dispatch _ => true
  | _ => false

section Progress
variable {outs : Fin (m + 1) → Bytes} {s : ExternalCommand m} {w : Fin (m + 1)}

theorem sum_setWorker (f : Worker → ℕ) (s : ExternalCommand m) (w : Fin (m + 1)) (x : Worker) :
    ∑ v, f ((s.setWorker w x).workers v) + f (s.workers w) = ∑ v, f (s.workers v) + f x := by
  rw [← Finset.add_sum_erase _ _ (Finset.mem_univ w), ← Finset.add_sum_erase (a := w) _
    (fun v => f (s.workers v)) (Finset.mem_univ w)]
  have hself : (s.setWorker w x).workers w = x := by rw [setWorker_workers, if_pos rfl]
  have hother : ∑ v ∈ Finset.univ.erase w, f ((s.setWorker w x).workers v) =
      ∑ v ∈ Finset.univ.erase w, f (s.workers v) := by
    apply Finset.sum_congr rfl
    intro v hv
    rw [setWorker_workers, if_neg (Finset.ne_of_mem_erase hv)]
  rw [hself, hother]
  omega

theorem quiet_dispatch (h : s.dispatch [] = s) : s.events = [] := by
  unfold dispatch at h
  split at h
  next hevents => exact hevents
  next no result events hevents =>
    exfalso
    have hlen : events.length ≠ s.events.length := by rw [hevents, List.length_cons]; omega
    apply hlen
    rw [← h]
    dsimp only
    split
    · rfl
    · split
      · rfl
      · split
        · rfl
        · next item _ _ _ r _ => cases item.handler <;> rfl

theorem quiet_read (h : s.read w = s) : (s.workers w).doing = none := by
  unfold read at h
  dsimp only at h
  split at h
  next no result hstatus =>
    exfalso
    split at h
    · have hevents := congrArg (fun s => s.events.length) h
      simp [setWorker] at hevents
    · have hresult := congrArg (fun s => (s.workers w).result.length) h
      simp [setWorker_workers, Worker.result, hstatus] at hresult
  next hstatus =>
    unfold Worker.doing
    split
    next no result heq => exact absurd heq (hstatus no result)
    next => rfl

theorem quiet_take (hnone : none ∉ s.work) (hidle : (s.workers w).status = .idle)
    (h : s.take w true = s) : s.work = [] := by
  unfold take at h
  simp only [↓reduceIte, hidle] at h
  split at h
  next _ work _ hw => exact absurd (hw ▸ List.mem_cons_self) hnone
  next _ no work _ hw =>
    exfalso
    have hlen : work.length ≠ s.work.length := by rw [hw, List.length_cons]; omega
    apply hlen
    rw [← h]
    split
    · rfl
    · split <;> rfl
  next hne =>
    cases hw : s.work with
    | nil => rfl
    | cons x work =>
      cases x with
      | none => exact absurd (hw ▸ List.mem_cons_self) hnone
      | some no => exact absurd hw (hne no work rfl)

theorem Inv.settled (h : Inv outs s) (hquiet : ∀ l : Label m, l.serves = true → s.step l = s) {n : ℕ}
    {item : WorkItem} (hi : s.items[n]? = some item) (hc : item.cancelled = false) : s.Answered n item := by
  have hevents := quiet_dispatch (hquiet (.dispatch []) rfl)
  have hdoing (w : Fin (m + 1)) := quiet_read (hquiet (.read w) rfl)
  have hidle : (s.workers 0).status = .idle := by
    have hserves := h.serves 0
    have hnone := hdoing 0
    unfold Worker.serves at hserves
    unfold Worker.doing at hnone
    cases hstatus : (s.workers 0).status with
    | idle => rfl
    | reading no result => simp [hstatus] at hnone
    | stopped => exact absurd hstatus hserves.1
    | dead => exact absurd hstatus hserves.2
  have hwork := quiet_take h.work hidle (hquiet (.take 0 true) rfl)
  cases h.tracks n item hi with
  | queued hq => simp [hwork] at hq
  | dropped _ hd => simp [hc] at hd
  | reading w _ ha => exact nomatch (hdoing w).symm.trans ((ha.doing w).2 rfl)
  | arrived w b _ _ ha =>
    have hnil := ha.events
    simp [eventsOf, hevents] at hnil
  | answered _ ha => exact ha

end Progress

/-- `b'0\n\n'`. -/
def accepted : Bytes := [48, 10, 10]

end ExternalCommand

end SippyB2bua.Radius
