import Mathlib.Logic.Function.Basic
import Mathlib.Data.Nat.Notation

/-!
# Dictionaries and object heaps

A dictionary is a finite-support lookup function with assignment and deletion.
Objects that are shared by reference live in a heap, a total function from
object numbers, which is updated in place.
-/

namespace SippyB2bua.Lib

variable {κ ν α : Type*} [DecidableEq κ]

abbrev Dict (κ ν : Type*) := κ → Option ν

namespace Dict

def empty : Dict κ ν := fun _ => none

def set (d : Dict κ ν) (k : κ) (v : ν) : Dict κ ν := Function.update d k (some v)

def del (d : Dict κ ν) (k : κ) : Dict κ ν := Function.update d k none

omit [DecidableEq κ] in
@[simp] theorem empty_apply (k : κ) : (empty : Dict κ ν) k = none := rfl

theorem set_apply (d : Dict κ ν) (k j : κ) (v : ν) :
    d.set k v j = if j = k then some v else d j := Function.update_apply d k (some v) j

theorem del_apply (d : Dict κ ν) (k j : κ) :
    d.del k j = if j = k then none else d j := Function.update_apply d k none j

@[simp] theorem set_same (d : Dict κ ν) (k : κ) (v : ν) : d.set k v k = some v := by
  simp [set_apply]

theorem set_other (d : Dict κ ν) {k j : κ} (v : ν) (h : j ≠ k) : d.set k v j = d j := by
  simp [set_apply, h]

@[simp] theorem del_same (d : Dict κ ν) (k : κ) : d.del k k = none := by simp [del_apply]

theorem del_other (d : Dict κ ν) {k j : κ} (h : j ≠ k) : d.del k j = d j := by
  simp [del_apply, h]

theorem set_eq_some {d : Dict κ ν} {k j : κ} {v w : ν} :
    d.set k v j = some w ↔ (j = k ∧ v = w) ∨ (j ≠ k ∧ d j = some w) := by
  by_cases h : j = k <;> simp [set_apply, h]

theorem del_eq_some {d : Dict κ ν} {k j : κ} {w : ν} :
    d.del k j = some w ↔ j ≠ k ∧ d j = some w := by
  by_cases h : j = k <;> simp [del_apply, h]

theorem del_eq_some_of_ne {d : Dict κ ν} {k j : κ} {v w : ν} (h : d k = some v) (hne : w ≠ v) :
    d.del k j = some w ↔ d j = some w := by
  rw [del_eq_some]
  refine ⟨And.right, fun hj => ⟨?_, hj⟩⟩
  rintro rfl
  exact hne (Option.some.inj (hj.symm.trans h))

end Dict

/-- In-place change of the object with number `i`. -/
def modifyAt (heap : ℕ → α) (i : ℕ) (f : α → α) : ℕ → α := Function.update heap i (f (heap i))

theorem modifyAt_apply (heap : ℕ → α) (i j : ℕ) (f : α → α) :
    modifyAt heap i f j = if j = i then f (heap i) else heap j :=
  Function.update_apply heap i (f (heap i)) j

@[simp] theorem modifyAt_same (heap : ℕ → α) (i : ℕ) (f : α → α) :
    modifyAt heap i f i = f (heap i) := by simp [modifyAt_apply]

theorem modifyAt_other (heap : ℕ → α) {i j : ℕ} (f : α → α) (h : j ≠ i) :
    modifyAt heap i f j = heap j := by simp [modifyAt_apply, h]

@[simp] theorem modifyAt_modifyAt (heap : ℕ → α) (i : ℕ) (f g : α → α) :
    modifyAt (modifyAt heap i f) i g = modifyAt heap i fun x => g (f x) := by
  funext j
  by_cases h : j = i <;> simp [modifyAt_apply, h]

theorem modifyAt_update_of_ne (heap : ℕ → α) {i j : ℕ} (f : α → α) (x : α) (h : i ≠ j) :
    modifyAt (Function.update heap j x) i f = Function.update (modifyAt heap i f) j x := by
  unfold modifyAt
  rw [Function.update_of_ne h, Function.update_comm h.symm]

theorem modifyAt_congr {heap : ℕ → α} {i : ℕ} {f g : α → α} (h : f (heap i) = g (heap i)) :
    modifyAt heap i f = modifyAt heap i g := by
  unfold modifyAt
  rw [h]

theorem modifyAt_id (heap : ℕ → α) (i : ℕ) : modifyAt heap i id = heap := by
  simp [modifyAt]

end SippyB2bua.Lib
