import Mathlib.Algebra.Order.Floor.Ring
import Mathlib.Tactic.Linarith
import Mathlib.Tactic.Ring

/-!
# Rounding half to even

The rounding to the next integer that settles a tie for the even one. It leaves the integers alone,
and a number is rounded to an integer or more from half below that integer on.
-/

namespace SippyB2bua.Lib

variable {K : Type*} [Field K] [LinearOrder K] [IsStrictOrderedRing K] [FloorRing K]

def roundHalfEven (x : K) : ℤ :=
  if Int.fract x < 1 / 2 then ⌊x⌋
  else if 1 / 2 < Int.fract x then ⌊x⌋ + 1
  else if ⌊x⌋ % 2 = 0 then ⌊x⌋ else ⌊x⌋ + 1

theorem roundHalfEven_intCast (n : ℤ) : roundHalfEven (n : K) = n := by
  simp [roundHalfEven]

/-- The number is not further below the integer than half, and nearer to an odd one. -/
def Reaches (n : ℤ) (x : K) : Prop := (n : K) - 1 / 2 < x ∨ (n : K) - 1 / 2 = x ∧ n % 2 = 0

omit [IsStrictOrderedRing K] in
theorem floor_le_roundHalfEven (x : K) : ⌊x⌋ ≤ roundHalfEven x ∧ roundHalfEven x ≤ ⌊x⌋ + 1 := by
  unfold roundHalfEven
  split_ifs <;> omega

theorem succ_le_roundHalfEven (x : K) : ⌊x⌋ + 1 ≤ roundHalfEven x ↔ Reaches (⌊x⌋ + 1) x := by
  have hx := Int.floor_add_fract x
  have hhalf : ((⌊x⌋ + 1 : ℤ) : K) - 1 / 2 = ⌊x⌋ + 1 / 2 := by
    push_cast
    ring
  unfold Reaches roundHalfEven
  rw [hhalf]
  split_ifs with hlt hgt heven
  · refine iff_of_false (by omega) ?_
    rintro (h | ⟨h, -⟩) <;> linarith
  · exact iff_of_true le_rfl (.inl (by linarith))
  · refine iff_of_false (by omega) ?_
    rintro (h | ⟨-, h⟩)
    · linarith
    · omega
  · exact iff_of_true le_rfl (.inr ⟨by linarith, by omega⟩)

theorem le_roundHalfEven {n : ℤ} {x : K} : n ≤ roundHalfEven x ↔ Reaches n x := by
  have hle := Int.floor_le x
  have hlt := Int.lt_floor_add_one x
  obtain ⟨hlow, hhigh⟩ := floor_le_roundHalfEven x
  rcases lt_trichotomy n (⌊x⌋ + 1) with hn | rfl | hn
  · have hcast : (n : K) ≤ ⌊x⌋ := by exact_mod_cast Int.lt_add_one_iff.mp hn
    exact iff_of_true (by omega) (.inl (by linarith))
  · exact succ_le_roundHalfEven x
  · have hcast : (⌊x⌋ : K) + 2 ≤ n := by exact_mod_cast (by omega : ⌊x⌋ + 2 ≤ n)
    refine iff_of_false (by omega) ?_
    rintro (h | ⟨h, -⟩) <;> linarith

theorem roundHalfEven_le_iff {x y : K} :
    roundHalfEven x ≤ roundHalfEven y ↔ ∀ n, Reaches n x → Reaches n y := by
  refine ⟨fun h n hn => le_roundHalfEven.mp ((le_roundHalfEven.mpr hn).trans h), fun h => ?_⟩
  exact le_roundHalfEven.mpr (h _ (le_roundHalfEven.mp le_rfl))

theorem roundHalfEven_eq_iff {x y : K} :
    roundHalfEven x = roundHalfEven y ↔ ∀ n, Reaches n x ↔ Reaches n y := by
  rw [le_antisymm_iff, roundHalfEven_le_iff, roundHalfEven_le_iff, ← forall_and]
  exact forall_congr' fun n => iff_def.symm

theorem roundHalfEven_mono {x y : K} (h : x ≤ y) : roundHalfEven x ≤ roundHalfEven y := by
  refine roundHalfEven_le_iff.mpr fun n hn => ?_
  rcases hn with hn | ⟨hn, heven⟩
  · exact .inl (hn.trans_le h)
  · rcases h.lt_or_eq with h | rfl
    · exact .inl (hn.trans_lt h)
    · exact .inr ⟨hn, heven⟩

theorem roundHalfEven_nonneg {x : K} : 0 ≤ roundHalfEven x ↔ -(1 / 2) ≤ x := by
  rw [le_roundHalfEven, Reaches, Int.cast_zero, zero_sub, le_iff_lt_or_eq]
  simp

theorem roundHalfEven_near (x : K) :
    (roundHalfEven x : K) - 1 / 2 ≤ x ∧ x ≤ (roundHalfEven x : K) + 1 / 2 := by
  constructor
  · rcases le_roundHalfEven.mp (le_refl (roundHalfEven x)) with h | ⟨h, -⟩
    · exact h.le
    · exact h.le
  · by_contra h
    have hnext : Reaches (roundHalfEven x + 1) x := by
      left
      push_cast
      linarith
    have := le_roundHalfEven.mpr hnext
    omega

end SippyB2bua.Lib
