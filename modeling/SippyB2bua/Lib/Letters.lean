import SippyB2bua.Lib.Words

/-!
# Letters

A change of case turns letters into letters and leaves all other characters, so no
property that letters lack depends on it.
-/

namespace SippyB2bua.Lib.Text
variable {c : Char}

theorem isAlpha_iff : c.isAlpha = true ↔
    (65 ≤ c.toNat ∧ c.toNat ≤ 90) ∨ (97 ≤ c.toNat ∧ c.toNat ≤ 122) := by
  have halpha : c.isAlpha =
      (decide (65 ≤ c.val ∧ c.val ≤ 90) || (decide (97 ≤ c.val) && decide (c.val ≤ 122))) := rfl
  rw [halpha]
  simp only [Bool.or_eq_true, Bool.and_eq_true, decide_eq_true_eq, UInt32.le_iff_toNat_le]
  exact Iff.rfl

theorem isSpace_of_isAlpha (h : c.isAlpha = true) : isSpace c = false := by
  rw [isAlpha_iff] at h
  simp only [isSpace, Bool.or_eq_false_iff, Bool.and_eq_false_iff, decide_eq_false_iff_not,
    beq_eq_false_iff_ne]
  omega

theorem isSpace_of_isLineEnd (h : isLineEnd c = true) : isSpace c = true := by
  simp only [isLineEnd, isSpace, Bool.or_eq_true, Bool.and_eq_true, decide_eq_true_eq,
    beq_iff_eq] at h ⊢
  omega

theorem isAlpha_toUpper (c : Char) : c.toUpper = c ∨ c.isAlpha = true ∧ c.toUpper.isAlpha = true := by
  unfold Char.toUpper
  split
  · rename_i hc
    have hlow : 97 ≤ c.toNat := UInt32.le_iff_toNat_le.mp hc.1
    have hhigh : c.toNat ≤ 122 := UInt32.le_iff_toNat_le.mp hc.2
    refine .inr ⟨isAlpha_iff.mpr (.inr ⟨hlow, hhigh⟩), isAlpha_iff.mpr (.inl ?_)⟩
    have hshift : ('A'.val - 'a'.val).toNat = 4294967264 := rfl
    simp only [Char.toNat, UInt32.toNat_add, hshift] at hlow hhigh ⊢
    omega
  · exact .inl rfl

theorem isAlpha_toLower (c : Char) : c.toLower = c ∨ c.isAlpha = true ∧ c.toLower.isAlpha = true := by
  unfold Char.toLower
  split
  · rename_i hc
    have hlow : 65 ≤ c.toNat := UInt32.le_iff_toNat_le.mp hc.1
    have hhigh : c.toNat ≤ 90 := UInt32.le_iff_toNat_le.mp hc.2
    refine .inr ⟨isAlpha_iff.mpr (.inl ⟨hlow, hhigh⟩), isAlpha_iff.mpr (.inr ?_)⟩
    have hshift : ('a'.val - 'A'.val).toNat = 32 := rfl
    simp only [Char.toNat, UInt32.toNat_add, hshift] at hlow hhigh ⊢
    omega
  · exact .inl rfl

theorem toLower_toLower (c : Char) : c.toLower.toLower = c.toLower := by
  unfold Char.toLower
  split
  · rename_i hc
    have hlow : 65 ≤ c.toNat := UInt32.le_iff_toNat_le.mp hc.1
    have hhigh : c.toNat ≤ 90 := UInt32.le_iff_toNat_le.mp hc.2
    have hshift : ('a'.val - 'A'.val).toNat = 32 := rfl
    rw [dif_neg]
    rintro ⟨-, hle⟩
    have hle : (c.val + ('a'.val - 'A'.val)).toNat ≤ 90 := UInt32.le_iff_toNat_le.mp hle
    simp only [Char.toNat, UInt32.toNat_add, hshift] at hlow hhigh hle
    omega
  · rfl

theorem lower_lower (s : Text) : lower (lower s) = lower s := by
  unfold lower
  rw [List.map_map]
  apply List.map_congr_left
  intro c _
  exact toLower_toLower c

section Case
variable {p : Char → Bool} (hp : ∀ c : Char, c.isAlpha = true → p c = false)
include hp

theorem toUpper_of (c : Char) : p c.toUpper = p c := by
  rcases isAlpha_toUpper c with heq | ⟨hc, hupper⟩
  · rw [heq]
  · rw [hp _ hc, hp _ hupper]

theorem toLower_of (c : Char) : p c.toLower = p c := by
  rcases isAlpha_toLower c with heq | ⟨hc, hlower⟩
  · rw [heq]
  · rw [hp _ hc, hp _ hlower]

theorem lower_of {s : Text} (h : ∀ c ∈ s, p c = false) : ∀ c ∈ lower s, p c = false := by
  intro c hc
  obtain ⟨d, hd, rfl⟩ := List.mem_map.mp hc
  rw [toLower_of hp]
  exact h d hd

end Case

end SippyB2bua.Lib.Text
