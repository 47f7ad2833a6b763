import SippyB2bua.Lib.Text
import Mathlib.Algebra.GroupWithZero.Nat

/-!
# Lines

Texts that end in a separator each, one after the other. Cut at the separator they come
out again exactly if none of them contains it.
-/

namespace SippyB2bua.Lib.Text

variable {sep : Char} {t t' s s' : Text} {ls ls' : List Text}

theorem splitAll_ne_nil (sep : Char) (s : Text) : splitAll sep s ≠ [] := by
  cases s with
  | nil => simp [splitAll]
  | cons c cs =>
    unfold splitAll
    split
    · simp
    · split <;> simp

theorem splitAll_append (h : sep ∉ t) (s : Text) :
    splitAll sep (t ++ sep :: s) = t :: splitAll sep s := by
  induction t with
  | nil => simp [splitAll]
  | cons c cs ih =>
    have hc : c ≠ sep := fun hc => h (hc ▸ List.mem_cons_self)
    have hcs : sep ∉ cs := fun hcs => h (List.mem_cons_of_mem c hcs)
    simp [splitAll, hc, ih hcs]

theorem splitAll_of_not_mem (h : sep ∉ t) : splitAll sep t = [t] := by
  induction t with
  | nil => rfl
  | cons c cs ih =>
    have hc : c ≠ sep := fun hc => h (hc ▸ List.mem_cons_self)
    have hcs : sep ∉ cs := fun hcs => h (List.mem_cons_of_mem c hcs)
    simp [splitAll, hc, ih hcs]

theorem length_splitAll (sep : Char) (s : Text) : (splitAll sep s).length = s.count sep + 1 := by
  induction s with
  | nil => rfl
  | cons c cs ih =>
    unfold splitAll
    split
    · rename_i hc
      rw [hc, List.length_cons, ih, List.count_cons_self]
    · rename_i hc
      rw [List.count_cons_of_ne hc, ← ih]
      split
      · rename_i hnil
        exact absurd hnil (splitAll_ne_nil sep cs)
      · rename_i t ts hts
        rw [hts]
        rfl

theorem splitAll_clean (h : t ∈ splitAll sep s) : sep ∉ t := by
  induction s generalizing t with
  | nil =>
    rw [List.mem_singleton.mp h]
    simp
  | cons c cs ih =>
    unfold splitAll at h
    split at h
    · rcases List.mem_cons.mp h with rfl | h
      · simp
      · exact ih h
    · rename_i hc
      split at h
      · rename_i hnil
        exact absurd hnil (splitAll_ne_nil sep cs)
      · rename_i t₀ ts hts
        rcases List.mem_cons.mp h with rfl | h
        · have ht₀ : sep ∉ t₀ := ih (hts ▸ List.mem_cons_self)
          simp [Ne.symm hc, ht₀]
        · exact ih (hts ▸ List.mem_cons_of_mem t₀ h)

theorem split1_append (h : sep ∉ t) (s : Text) : split1 sep (t ++ sep :: s) = (t, some s) := by
  induction t with
  | nil => simp [split1]
  | cons c cs ih =>
    have hc : c ≠ sep := fun hc => h (hc ▸ List.mem_cons_self)
    have hcs : sep ∉ cs := fun hcs => h (List.mem_cons_of_mem c hcs)
    simp [split1, hc, ih hcs]

theorem split1_of_not_mem (h : sep ∉ t) : split1 sep t = (t, none) := by
  induction t with
  | nil => rfl
  | cons c cs ih =>
    have hc : c ≠ sep := fun hc => h (hc ▸ List.mem_cons_self)
    have hcs : sep ∉ cs := fun hcs => h (List.mem_cons_of_mem c hcs)
    rw [split1, if_neg hc, ih hcs]

theorem split1_clean (sep : Char) (s : Text) : sep ∉ (split1 sep s).1 := by
  induction s with
  | nil => simp [split1]
  | cons c cs ih =>
    unfold split1
    split
    · simp
    · rename_i hc
      simp [Ne.symm hc, ih]

theorem split1_eq (h : split1 sep s = (t, some t')) : s = t ++ sep :: t' := by
  induction s generalizing t with
  | nil => simp [split1] at h
  | cons c cs ih =>
    unfold split1 at h
    split at h
    · rename_i hc
      simp only [Prod.mk.injEq, Option.some.injEq] at h
      obtain ⟨rfl, rfl⟩ := h
      rw [hc, List.nil_append]
    · simp only [Prod.mk.injEq] at h
      obtain ⟨rfl, h⟩ := h
      rw [List.cons_append, ← ih (Prod.ext rfl h)]

theorem split1_elim (h : sep ∉ t) (o : Option Text) :
    split1 sep (t ++ o.elim [] (sep :: ·)) = (t, o) := by
  cases o with
  | none =>
    rw [Option.elim_none, List.append_nil]
    exact split1_of_not_mem h
  | some s => exact split1_append h s

theorem elim_split1 (sep : Char) (s : Text) :
    (split1 sep s).1 ++ (split1 sep s).2.elim [] (sep :: ·) = s := by
  induction s with
  | nil => simp [split1]
  | cons c cs ih =>
    unfold split1
    split
    · rename_i hc
      simp [hc]
    · rw [List.cons_append, ih]

theorem splitAll_length (sep : Char) (s : Text) :
    ((splitAll sep s).map fun t => t.length + 1).sum = s.length + 1 := by
  induction s with
  | nil => rfl
  | cons c cs ih =>
    unfold splitAll
    split
    · simp only [List.map_cons, List.sum_cons, List.length_nil, List.length_cons, ih]
      omega
    · split
      · rename_i hnil
        exact absurd hnil (splitAll_ne_nil sep cs)
      · rename_i t ts hts
        rw [hts] at ih
        simp only [List.map_cons, List.sum_cons, List.length_cons] at ih ⊢
        omega

theorem splitAll_concat (h : sep ∉ t) (s : Text) :
    splitAll sep (s ++ sep :: t) = splitAll sep s ++ [t] := by
  induction s with
  | nil => simp [splitAll, splitAll_of_not_mem h]
  | cons c s ih =>
    rw [List.cons_append, splitAll, splitAll, ih]
    split
    · rfl
    · cases hs : splitAll sep s with
      | nil => exact absurd hs (splitAll_ne_nil sep s)
      | cons u us => rfl

theorem splitAll_end (h : sep ∉ t) (s : Text) :
    ∃ u us, splitAll sep (s ++ sep :: t) = u :: us ++ [t] := by
  rw [splitAll_concat h]
  cases hs : splitAll sep s with
  | nil => exact absurd hs (splitAll_ne_nil sep s)
  | cons u us => exact ⟨u, us, rfl⟩

theorem mem_of_mem_splitAll {c : Char} (h : t ∈ splitAll sep s) (hc : c ∈ t) : c ∈ s := by
  induction s generalizing t with
  | nil =>
    rw [List.mem_singleton.mp h] at hc
    exact hc
  | cons d cs ih =>
    unfold splitAll at h
    split at h
    · rcases List.mem_cons.mp h with rfl | h
      · exact absurd hc List.not_mem_nil
      · exact List.mem_cons_of_mem d (ih h hc)
    · split at h
      · rename_i hnil
        exact absurd hnil (splitAll_ne_nil sep cs)
      · rename_i t₀ ts hts
        rcases List.mem_cons.mp h with rfl | h
        · rcases List.mem_cons.mp hc with rfl | hc
          · exact List.mem_cons_self
          · exact List.mem_cons_of_mem d (ih (hts ▸ List.mem_cons_self) hc)
        · exact List.mem_cons_of_mem d (ih (hts ▸ List.mem_cons_of_mem t₀ h) hc)

theorem intercalate_splitAll (sep : Char) (s : Text) : [sep].intercalate (splitAll sep s) = s := by
  induction s with
  | nil => rfl
  | cons c cs ih =>
    unfold splitAll
    split
    · rename_i hc
      rw [List.intercalate_cons_of_ne_nil (splitAll_ne_nil sep cs), ih, hc]
      rfl
    · split
      · rename_i hnil
        exact absurd hnil (splitAll_ne_nil sep cs)
      · rename_i t ts hts
        rw [hts] at ih
        cases ts with
        | nil => rw [← ih]; simp
        | cons t' ts =>
          rw [List.intercalate_cons_of_ne_nil (List.cons_ne_nil t' ts)] at ih ⊢
          rw [← ih]
          rfl

theorem splitAll_single (h : splitAll sep s = [t]) : t = s := by
  induction s generalizing t with
  | nil => simpa [splitAll, eq_comm] using h
  | cons c cs ih =>
    unfold splitAll at h
    split at h
    · exact absurd (List.cons.inj h).2 (splitAll_ne_nil sep cs)
    · split at h
      · rename_i hnil
        exact absurd hnil (splitAll_ne_nil sep cs)
      · rename_i t' ts hts
        obtain ⟨rfl, rfl⟩ := List.cons.inj h
        rw [ih hts]

theorem not_mem_intercalate {c : Char} (hc : c ≠ sep) (h : ∀ l ∈ ls, c ∉ l) :
    c ∉ [sep].intercalate ls := by
  induction ls with
  | nil => exact List.not_mem_nil
  | cons l ls ih =>
    have hl : c ∉ l := h l List.mem_cons_self
    have hls : c ∉ [sep].intercalate ls := ih fun l hl => h l (List.mem_cons_of_mem _ hl)
    cases ls with
    | nil => rwa [List.intercalate_singleton]
    | cons l' ls =>
      rw [List.intercalate_cons_of_ne_nil (List.cons_ne_nil l' ls)]
      simp [hl, hc, hls]

theorem splitAll_intercalate (h : ∀ l ∈ ls, sep ∉ l) (hne : ls ≠ []) :
    splitAll sep ([sep].intercalate ls) = ls := by
  induction ls with
  | nil => exact absurd rfl hne
  | cons l ls ih =>
    have hl : sep ∉ l := h l List.mem_cons_self
    have hls : ∀ l ∈ ls, sep ∉ l := fun l hl => h l (List.mem_cons_of_mem _ hl)
    cases ls with
    | nil => rw [List.intercalate_singleton, splitAll_of_not_mem hl]
    | cons l' ls =>
      rw [List.intercalate_cons_of_ne_nil (List.cons_ne_nil l' ls), List.append_assoc,
        List.singleton_append, splitAll_append hl, ih hls (List.cons_ne_nil l' ls)]

theorem append_sep_inj (h : sep ∉ t) (h' : sep ∉ t') (heq : t ++ sep :: s = t' ++ sep :: s') :
    t = t' ∧ s = s' := by
  have hsplit := congrArg (split1 sep) heq
  rw [split1_append h, split1_append h'] at hsplit
  exact ⟨congrArg Prod.fst hsplit, Option.some.inj (congrArg Prod.snd hsplit)⟩

def unlines (sep : Char) (ls : List Text) : Text := ls.flatMap (· ++ [sep])

theorem unlines_cons (l : Text) : unlines sep (l :: ls) = l ++ sep :: unlines sep ls := by
  simp [unlines]

theorem unlines_eq (hne : ls ≠ []) : unlines sep ls = [sep].intercalate ls ++ [sep] := by
  induction ls with
  | nil => exact absurd rfl hne
  | cons l ls ih =>
    cases ls with
    | nil => simp [unlines]
    | cons l' ls =>
      have hls := ih (List.cons_ne_nil l' ls)
      rw [unlines_cons, hls, List.intercalate_cons_of_ne_nil (List.cons_ne_nil l' ls)]
      simp

theorem splitAll_unlines (h : ∀ l ∈ ls, sep ∉ l) : splitAll sep (unlines sep ls) = ls ++ [[]] := by
  induction ls with
  | nil => rfl
  | cons l ls ih =>
    have hl : sep ∉ l := h l List.mem_cons_self
    have hls : ∀ l ∈ ls, sep ∉ l := fun l hl => h l (List.mem_cons_of_mem _ hl)
    rw [unlines_cons, splitAll_append hl, ih hls, List.cons_append]

/-- The lines come out again exactly if none of them contains the separator. -/
theorem splitAll_unlines_iff : splitAll sep (unlines sep ls) = ls ++ [[]] ↔ ∀ l ∈ ls, sep ∉ l := by
  refine ⟨fun h l hl => ?_, splitAll_unlines⟩
  exact splitAll_clean (s := unlines sep ls) (h ▸ List.mem_append_left _ hl)

theorem unlines_inj (h : ∀ l ∈ ls, sep ∉ l) (h' : ∀ l ∈ ls', sep ∉ l)
    (heq : unlines sep ls = unlines sep ls') : ls = ls' := by
  have hsplit := congrArg (splitAll sep) heq
  rw [splitAll_unlines h, splitAll_unlines h'] at hsplit
  exact List.append_cancel_right hsplit

end SippyB2bua.Lib.Text
