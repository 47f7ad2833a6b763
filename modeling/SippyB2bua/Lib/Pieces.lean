import SippyB2bua.Lib.Breaks

/-!
# Longer separators

A split at a separator of several characters cuts at its first place, then goes on behind
it; a piece comes back whole if the separator has no place in it and none across its end.
-/

namespace SippyB2bua.Lib.Text

section Pieces
variable {sep s t a b : Text}

theorem cut_eq_none : cut sep s = none ↔ ¬ sep <:+: s := by
  induction s with
  | nil => simp [cut]
  | cons c cs ih =>
    rw [cut, List.infix_cons_iff, not_or, ← ih]
    split
    next h => simp [List.isPrefixOf_iff_prefix.mp h]
    next h => simp [mt List.isPrefixOf_iff_prefix.mpr h]

/-- The first place of `sep` in `t` followed by `sep` is after `t`. -/
def Clear (sep t : Text) : Prop := ¬ sep <:+: t ++ sep.dropLast

instance (sep t : Text) : Decidable (Clear sep t) := inferInstanceAs (Decidable (¬ _))

theorem prefix_dropLast (hne : sep ≠ []) : sep <+: t ++ sep.dropLast ↔ sep <+: t ++ sep ∧ t ≠ [] := by
  have hlen : sep.dropLast.length + 1 = sep.length := by
    have := List.length_pos_iff.mpr hne
    rw [List.length_dropLast]
    omega
  have hpre : t ++ sep.dropLast <+: t ++ sep :=
    (List.prefix_append_right_inj t).mpr (List.dropLast_prefix sep)
  constructor
  · intro h
    refine ⟨h.trans hpre, ?_⟩
    rintro rfl
    have := h.length_le
    rw [List.nil_append] at this
    omega
  · rintro ⟨h, ht⟩
    refine List.prefix_of_prefix_length_le h hpre ?_
    have := List.length_pos_iff.mpr ht
    rw [List.length_append]
    omega

theorem clear_cons {c : Char} (hne : sep ≠ []) :
    Clear sep (c :: t) ↔ ¬ sep <+: c :: (t ++ sep) ∧ Clear sep t := by
  have hpre := prefix_dropLast (t := c :: t) hne
  simp only [List.cons_append, ne_eq, List.cons_ne_nil, not_false_eq_true, and_true] at hpre
  rw [Clear, List.cons_append, List.infix_cons_iff, not_or, hpre, Clear]

theorem clear_nil (hne : sep ≠ []) : Clear sep [] := by
  intro h
  have hlen := h.length_le
  have hpos := List.length_pos_iff.mpr hne
  rw [List.nil_append, List.length_dropLast] at hlen
  omega

theorem prefix_cut {c : Char} (s : Text) :
    sep.isPrefixOf (c :: (t ++ sep ++ s)) = true ↔ sep <+: c :: (t ++ sep) := by
  rw [List.isPrefixOf_iff_prefix]
  have hpre : c :: (t ++ sep) <+: c :: (t ++ sep ++ s) := ⟨s, rfl⟩
  refine ⟨fun h => List.prefix_of_prefix_length_le h hpre ?_, fun h => h.trans hpre⟩
  simp only [List.length_cons, List.length_append]
  omega

theorem cut_iff (hne : sep ≠ []) (s : Text) : cut sep (t ++ sep ++ s) = some (t, s) ↔ Clear sep t := by
  induction t with
  | nil => simp [cut_self hne, clear_nil hne]
  | cons c t ih =>
    rw [clear_cons hne, ← ih, List.cons_append, List.cons_append, cut]
    split
    next h =>
      have h' := (prefix_cut s).mp h
      simp [h']
    next h =>
      have h' := mt (prefix_cut s).mpr h
      simp [h', Prod.ext_iff]

/-- The text before the first separator ends no later than before any other one. -/
theorem cut_first (hne : sep ≠ []) (h : cut sep (t ++ sep ++ s) = some (a, b)) : a <+: t := by
  have heq := cut_eq h
  have hclear : Clear sep a := (cut_iff hne b).mp (by rw [← heq, h])
  have ha : a <+: t ++ sep ++ s := ⟨sep ++ b, by rw [heq, List.append_assoc]⟩
  have ht : t <+: t ++ sep ++ s := ⟨sep ++ s, by rw [List.append_assoc]⟩
  refine List.prefix_of_prefix_length_le ha ht (Nat.le_of_not_lt fun hlt => hclear ?_)
  -- otherwise the separator after `t` begins in `a`
  have hfull : a ++ sep.dropLast <+: t ++ sep ++ s := by
    rw [heq, List.append_assoc]
    exact (List.prefix_append_right_inj a).mpr ((List.dropLast_prefix sep).trans (List.prefix_append sep b))
  have hts : t ++ sep <+: a ++ sep.dropLast := by
    refine List.prefix_of_prefix_length_le ⟨s, rfl⟩ hfull ?_
    simp only [List.length_append, List.length_dropLast]
    omega
  exact (List.suffix_append t sep).isInfix.trans hts.isInfix

theorem piecesFrom_skip (skip : ℕ) (piece s : Text) :
    piecesFrom sep skip piece s = piecesFrom sep 0 piece (s.drop skip) := by
  induction s generalizing skip with
  | nil => simp [piecesFrom]
  | cons c cs ih =>
    cases skip with
    | zero => rfl
    | succ n => rw [piecesFrom, ih, List.drop_succ_cons]

theorem piecesFrom_cut (hne : sep ≠ []) (piece : Text) : piecesFrom sep 0 piece s =
    match cut sep s with
    | none => [piece.reverse ++ s]
    | some (a, b) => (piece.reverse ++ a) :: pieces sep b := by
  induction s generalizing piece with
  | nil => simp [piecesFrom, cut, hne]
  | cons c cs ih =>
    rw [piecesFrom, cut, startsWith]
    split
    · have hdrop : (c :: cs).drop sep.length = cs.drop (sep.length - 1) := by
        obtain ⟨n, hn⟩ := Nat.exists_eq_succ_of_ne_zero (mt List.length_eq_zero_iff.mp hne)
        rw [hn, List.drop_succ_cons, Nat.succ_sub_one]
      dsimp only
      rw [piecesFrom_skip, hdrop, List.append_nil, pieces]
    · rw [ih]
      cases cut sep cs <;> simp

theorem pieces_cut (hne : sep ≠ []) (s : Text) : pieces sep s =
    match cut sep s with
    | none => [s]
    | some (a, b) => a :: pieces sep b := piecesFrom_cut hne []

theorem pieces_uncut (hne : sep ≠ []) (h : ¬ sep <:+: s) : pieces sep s = [s] := by
  rw [pieces_cut hne, cut_eq_none.mpr h]

theorem pieces_cons (hne : sep ≠ []) (h : Clear sep t) (s : Text) :
    pieces sep (t ++ sep ++ s) = t :: pieces sep s := by
  rw [pieces_cut hne, (cut_iff hne s).mpr h]

theorem pieces_ne_nil (hne : sep ≠ []) (s : Text) : pieces sep s ≠ [] := by
  rw [pieces_cut hne]
  split <;> exact List.cons_ne_nil _ _

theorem length_of_mem_pieces (hne : sep ≠ []) (h : t ∈ pieces sep s) : t.length ≤ s.length := by
  induction hn : s.length using Nat.strongRecOn generalizing s with
  | ind n ih =>
    subst hn
    rw [pieces_cut hne] at h
    split at h
    · exact Nat.le_of_eq (congrArg List.length (List.mem_singleton.mp h))
    · rename_i a b hcut
      have hlen := congrArg List.length (cut_eq hcut)
      have hpos := List.length_pos_iff.mpr hne
      simp only [List.length_append] at hlen
      rcases List.mem_cons.mp h with rfl | h
      · omega
      · have := ih b.length (by omega) h rfl
        omega

end Pieces

end SippyB2bua.Lib.Text
