import Mathlib.Data.Nat.Notation

/-!
# One-shot timers held by reference

A timer field refers to the last timeout that was stored in it. The dispatcher
keeps a timeout whether or not a field still refers to it, so the number of
scheduled timeouts is counted apart from the reference: dropping the reference
without a cancellation, or storing a new timeout over a scheduled one, leaves
a timeout that nothing can cancel any more.
-/

namespace SippyB2bua.Lib

structure Timer where
  ref : Bool
  live : ℕ
  deriving DecidableEq, Repr

namespace Timer

/-- The field is `None` and nothing is scheduled. -/
def off : Timer := ⟨false, 0⟩

def arm (t : Timer) : Timer := ⟨true, t.live + 1⟩

/-- `if te != None: te.cancel(); te = None`. -/
def cancel (t : Timer) : Timer := if t.ref then ⟨false, t.live - 1⟩ else t

/-- The field is set to `None` without a cancellation. -/
def drop (t : Timer) : Timer := ⟨false, t.live⟩

/-- A scheduled timeout runs; its handler sets the field to `None` first. -/
def fire (t : Timer) : Timer := ⟨false, t.live - 1⟩

def fired (t : Timer) : Timer := ⟨t.ref, t.live - 1⟩

@[simp] theorem off_live : off.live = 0 := rfl
@[simp] theorem off_ref : off.ref = false := rfl
@[simp] theorem arm_live (t : Timer) : t.arm.live = t.live + 1 := rfl
@[simp] theorem arm_ref (t : Timer) : t.arm.ref = true := rfl
@[simp] theorem drop_live (t : Timer) : t.drop.live = t.live := rfl
@[simp] theorem drop_ref (t : Timer) : t.drop.ref = false := rfl
@[simp] theorem fire_live (t : Timer) : t.fire.live = t.live - 1 := rfl
@[simp] theorem fire_ref (t : Timer) : t.fire.ref = false := rfl
@[simp] theorem fired_live (t : Timer) : t.fired.live = t.live - 1 := rfl
@[simp] theorem fired_ref (t : Timer) : t.fired.ref = t.ref := rfl
@[simp] theorem cancel_off : off.cancel = off := rfl

def Tight (t : Timer) : Prop := t.live ≤ if t.ref then 1 else 0

theorem tight_off : off.Tight := Nat.le_refl 0

theorem Tight.live_of_ref {t : Timer} (h : t.Tight) (href : t.ref = false) : t.live = 0 := by
  simpa [Tight, href] using h

theorem tight_of_live {t : Timer} (h : t.live = 0) : t.Tight := by simp [Tight, h]

theorem Tight.cancel_live {t : Timer} (h : t.Tight) : t.cancel.live = 0 := by
  obtain ⟨ref, live⟩ := t
  cases ref <;> simp_all [Tight, Timer.cancel]

theorem Tight.fire_live {t : Timer} (h : t.Tight) : t.fire.live = 0 := by
  obtain ⟨ref, live⟩ := t
  cases ref <;> simp_all [Tight]

theorem Tight.fired_live {t : Timer} (h : t.Tight) : t.fired.live = 0 := h.fire_live

theorem tight_arm {t : Timer} (h : t.live = 0) : t.arm.Tight := by simp [Tight, h]

end Timer
end SippyB2bua.Lib
