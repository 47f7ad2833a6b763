import SippyB2bua.Radius.Command

/-!
# Where a request is

A request that was put in the queue is in one place at most until its answer is dispatched:
in the queue, with the worker that reads its answer, or with the event loop. No step of the
workers brings it to a second one, whatever the processes write and whether they end.
-/

namespace SippyB2bua.Radius

/-- Whether a worker reads the answer to the request. -/
def Worker.reads (n : ℕ) (x : Worker) : ℕ := if x.doing = some n then 1 else 0

namespace ExternalCommand
variable {m : ℕ} {s : ExternalCommand m} {n : ℕ} {w : Fin (m + 1)} {x : Worker} {a b : ℕ}

/-- How often the request is in the queue, with a worker or with the event loop. -/
def places (s : ExternalCommand m) (n : ℕ) : ℕ :=
  s.work.count (some n) + ∑ w, (s.workers w).reads n + (s.events.map Prod.fst).count n

theorem places_setWorker (h : x.reads n + a ≤ (s.workers w).reads n + b) :
    (s.setWorker w x).places n + a ≤ s.places n + b := by
  have hsum := sum_setWorker (Worker.reads n) s w x
  have hwork : (s.setWorker w x).work = s.work := rfl
  have hevents : (s.setWorker w x).events = s.events := rfl
  unfold places
  rw [hwork, hevents]
  omega

theorem places_processCommand (data : List Lib.Text) (handler : Handler) :
    (s.processCommand data handler).places n = s.places n + if n = s.items.length then 1 else 0 := by
  have hcount : (s.work ++ [some s.items.length]).count (some n) =
      s.work.count (some n) + if n = s.items.length then 1 else 0 := by
    rw [List.count_append, List.count_singleton]
    by_cases hn : n = s.items.length
    · simp [hn]
    · simp [hn, Ne.symm hn]
  have hwork : (s.processCommand data handler).work = s.work ++ [some s.items.length] := rfl
  have hworkers : (s.processCommand data handler).workers = s.workers := rfl
  have hevents : (s.processCommand data handler).events = s.events := rfl
  unfold places
  rw [hwork, hcount, hworkers, hevents]
  omega

theorem places_take (s : ExternalCommand m) (w : Fin (m + 1)) (piped : Bool) :
    (s.take w piped).places n ≤ s.places n := by
  unfold take
  dsimp only
  split
  next work hidle hw =>
    have hplaces : { s with work := work ++ [none] : ExternalCommand m }.places n = s.places n := by
      simp [places, hw, List.count_append]
    refine Nat.le_trans (places_setWorker (a := 0) (b := 0) ?_) (Nat.le_of_eq hplaces)
    simp [Worker.reads, Worker.doing]
  next no work hidle hw =>
    have hplaces : { s with work : ExternalCommand m }.places n + (if no = n then 1 else 0) = s.places n := by
      simp only [places, hw, List.count_cons, beq_iff_eq, Option.some.injEq]
      omega
    split
    next => omega
    next item _ =>
      split
      next => omega
      next =>
        split
        next =>
          refine Nat.le_trans (places_setWorker (a := 0) (b := if no = n then 1 else 0) ?_)
            (Nat.le_of_eq hplaces)
          simp [Worker.reads, Worker.doing]
        next =>
          refine Nat.le_trans (places_setWorker (a := 0) (b := 0) ?_) (by omega)
          simp [Worker.reads, Worker.doing]
  next => exact Nat.le_refl _

theorem places_read (s : ExternalCommand m) (w : Fin (m + 1)) : (s.read w).places n ≤ s.places n := by
  unfold read
  dsimp only
  split
  next no result hstatus =>
    have hold : (s.workers w).reads n = if no = n then 1 else 0 := by
      simp [Worker.reads, Worker.doing, hstatus]
    split
    next =>
      have hplaces : { s with events := s.events ++ [(no, result)] : ExternalCommand m }.places n =
          s.places n + if no = n then 1 else 0 := by
        simp only [places, List.map_append, List.map_cons, List.map_nil, List.count_append,
          List.count_singleton, beq_iff_eq]
        omega
      refine Nat.le_of_add_le_add_right (b := if no = n then 1 else 0)
        (Nat.le_trans (places_setWorker (b := 0) ?_) (Nat.le_of_eq hplaces))
      have hsame : { s with events := s.events ++ [(no, result)] : ExternalCommand m }.workers w =
          s.workers w := rfl
      rw [hsame, hold]
      simp [Worker.reads, Worker.doing]
    next =>
      refine places_setWorker (a := 0) (b := 0) ?_
      rw [hold]
      simp [Worker.reads, Worker.doing]
  next => exact Nat.le_refl _

theorem items_take (s : ExternalCommand m) (w : Fin (m + 1)) (piped : Bool) : (s.take w piped).items = s.items := by
  unfold take
  dsimp only
  split
  · rfl
  · split
    · rfl
    · split
      · rfl
      · split <;> rfl
  · rfl

theorem items_read (s : ExternalCommand m) (w : Fin (m + 1)) : (s.read w).items = s.items := by
  unfold read
  dsimp only
  split
  · split <;> rfl
  · rfl

theorem items_dispatch (s : ExternalCommand m) (delay : Lib.Text) : (s.dispatch delay).items = s.items := by
  unfold dispatch
  split
  · rfl
  · dsimp only
    split
    · rfl
    · split
      · rfl
      · split
        · rfl
        · next item _ _ _ r _ => cases item.handler <;> rfl

/-- The event loop takes the first of what the workers handed over. -/
theorem places_dispatch (s : ExternalCommand m) (delay : Lib.Text) :
    (s.dispatch delay).places n + (if (s.events.head?.map Prod.fst) = some n then 1 else 0) = s.places n := by
  have hcall {t : ExternalCommand m} {no : ℕ} {r : Results} (h : Handler) :
      (t.callBack no delay r h).places n = t.places n := by cases h <;> rfl
  unfold dispatch
  split
  next hevents => simp [hevents]
  next no result events hevents =>
    have hplaces : { s with events : ExternalCommand m }.places n + (if no = n then 1 else 0) = s.places n := by
      simp only [places, hevents, List.map_cons, List.count_cons, beq_iff_eq]
      omega
    rw [hevents, List.head?_cons, Option.map_some]
    simp only [Option.some.injEq]
    split
    next => exact hplaces
    next item _ =>
      split
      next => exact hplaces
      next =>
        split
        next => exact hplaces
        next => rw [hcall, hplaces]

end ExternalCommand
end SippyB2bua.Radius
