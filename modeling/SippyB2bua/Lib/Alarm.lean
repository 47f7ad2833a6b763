import Mathlib.Data.List.Basic
import Mathlib.Data.Int.Notation

/-!
# Timeouts with a deadline

A timer field holds the deadline of the last timeout that was stored in it; the
dispatcher holds the deadlines of all timeouts that were started and neither
cancelled nor run. The two part when a field is overwritten or dropped.
-/

namespace SippyB2bua.Lib

structure Alarm where
  ref : Option ℤ
  live : List ℤ
  deriving DecidableEq, Repr

namespace Alarm

def off : Alarm := ⟨none, []⟩

def arm (a : Alarm) (deadline : ℤ) : Alarm := ⟨some deadline, deadline :: a.live⟩

/-- `if timer != None: timer.cancel(); timer = None`. -/
def cancel (a : Alarm) : Alarm :=
  match a.ref with
  | none => a
  | some d => ⟨none, a.live.erase d⟩

/-- The field is set to `None` without a cancellation. -/
def drop (a : Alarm) : Alarm := ⟨none, a.live⟩

/-- The timeout with the deadline runs; its handler sets the field to `None`. -/
def fire (a : Alarm) (deadline : ℤ) : Alarm := ⟨none, a.live.erase deadline⟩

def Tight (a : Alarm) : Prop := a.live = a.ref.toList

@[simp] theorem tight_off : off.Tight := rfl

theorem Tight.cancel {a : Alarm} (h : a.Tight) : a.cancel = off := by
  obtain ⟨ref, live⟩ := a
  cases ref <;> simp_all [Tight, Alarm.cancel, off]

theorem Tight.arm {a : Alarm} (h : a.Tight) (href : a.ref = none) (d : ℤ) : (a.arm d).Tight := by
  obtain ⟨ref, live⟩ := a
  simp_all [Tight, Alarm.arm]

theorem Tight.fire {a : Alarm} (h : a.Tight) {d : ℤ} (hd : d ∈ a.live) : a.fire d = off := by
  obtain ⟨ref, live⟩ := a
  cases ref <;> simp_all [Tight, Alarm.fire, off]

end Alarm
end SippyB2bua.Lib
