import SippyB2bua.Lib.Words

/-!
# Line boundaries

`str.splitlines` cuts at more characters than CR and LF: at the vertical tab, the form
feed, the separators FS, GS and RS, the next line U+0085 and the line and paragraph
separators U+2028 and U+2029. `str.find` of a separator cuts at its first occurrence.
-/

namespace SippyB2bua.Lib.Text

/-- The texts before and after the first occurrence of `sep`. -/
def cut (sep : Text) : Text → Option (Text × Text)
  | [] => if sep = [] then some ([], []) else none
  | c :: cs =>
    if sep.isPrefixOf (c :: cs) then some ([], (c :: cs).drop sep.length)
    else (cut sep cs).map fun p => (c :: p.1, p.2)

def Unbroken (s : Text) : Prop := ∀ c ∈ s, isLineEnd c = false

instance (s : Text) : Decidable (Unbroken s) := List.decidableBAll _ s

def crlf : Text := ['\r', '\n']

section Splitlines
variable {c : Char} {s t l : Text}

theorem isLineEnd_cr : isLineEnd '\r' = true := by decide

theorem isLineEnd_lf : isLineEnd '\n' = true := by decide

theorem Unbroken.not_cr (h : Unbroken s) : '\r' ∉ s := fun hc =>
  Bool.false_ne_true ((h _ hc).symm.trans isLineEnd_cr)

theorem Unbroken.append (hs : Unbroken s) (ht : Unbroken t) : Unbroken (s ++ t) := by
  intro c hc
  rcases List.mem_append.mp hc with hc | hc
  · exact hs c hc
  · exact ht c hc

theorem unbroken_append : Unbroken (s ++ t) ↔ Unbroken s ∧ Unbroken t := by
  refine ⟨fun h => ⟨fun c hc => ?_, fun c hc => ?_⟩, fun h => h.1.append h.2⟩
  · exact h c (List.mem_append_left _ hc)
  · exact h c (List.mem_append_right _ hc)

theorem linesFrom_eq (hne : t ≠ []) : linesFrom t s =
    match splitlines s with
    | [] => [t.reverse]
    | l :: ls => (t.reverse ++ l) :: ls := by
  unfold splitlines
  induction s generalizing t with
  | nil => simp [linesFrom, closeWord, hne]
  | cons c s ih =>
    by_cases hcrlf : ∃ s', c = '\r' ∧ s = '\n' :: s'
    · obtain ⟨s', rfl, rfl⟩ := hcrlf
      simp [linesFrom]
    · have hstep (line : Text) : linesFrom line (c :: s) =
          if isLineEnd c then line.reverse :: linesFrom [] s else linesFrom (c :: line) s := by
        rw [linesFrom]
        exact fun s' hc hs => hcrlf ⟨s', hc, hs⟩
      rw [hstep, hstep]
      split
      · simp
      · rw [ih (List.cons_ne_nil c t), ih (List.cons_ne_nil c [])]
        cases linesFrom [] s <;> simp

theorem splitlines_cons (h : isLineEnd c = false) : splitlines (c :: s) =
    match splitlines s with
    | [] => [[c]]
    | l :: ls => (c :: l) :: ls := by
  have hcr : c ≠ '\r' := by
    rintro rfl
    exact Bool.false_ne_true (h.symm.trans isLineEnd_cr)
  have hline : splitlines (c :: s) = linesFrom [c] s := by
    unfold splitlines
    rw [linesFrom]
    · simp [h]
    · exact fun cs hc => absurd hc hcr
  rw [hline, linesFrom_eq (List.cons_ne_nil c [])]
  rfl

theorem splitlines_break (h : isLineEnd c = true) (hcr : ∀ cs, c = '\r' → s ≠ '\n' :: cs) :
    splitlines (c :: s) = [] :: splitlines s := by
  unfold splitlines
  rw [linesFrom]
  · simp [h]
  · exact fun cs hc => hcr cs hc

theorem splitlines_crlf : splitlines ('\r' :: '\n' :: s) = [] :: splitlines s := by
  unfold splitlines
  rw [linesFrom]
  rfl

theorem splitlines_cr_lf : splitlines ('\r' :: '\n' :: s) = splitlines ('\n' :: s) := by
  rw [splitlines_crlf, splitlines_break (by decide)]
  exact fun cs hc => absurd hc (by decide)

theorem splitlines_start (h : Unbroken t) (hne : t ≠ []) : splitlines (t ++ s) =
    match splitlines s with
    | [] => [t]
    | l :: ls => (t ++ l) :: ls := by
  induction t with
  | nil => exact absurd rfl hne
  | cons c t ih =>
    have hc := h c List.mem_cons_self
    have ht : Unbroken t := fun d hd => h d (List.mem_cons_of_mem c hd)
    rw [List.cons_append, splitlines_cons hc]
    by_cases hnil : t = []
    · subst hnil
      rw [List.nil_append]
      cases splitlines s <;> rfl
    · rw [ih ht hnil]
      cases splitlines s <;> rfl

theorem splitlines_append (h : Unbroken t) : splitlines (t ++ (crlf ++ s)) = t :: splitlines s := by
  induction t with
  | nil => exact splitlines_crlf
  | cons c t ih =>
    have hc := h c List.mem_cons_self
    have ht : Unbroken t := fun d hd => h d (List.mem_cons_of_mem c hd)
    rw [List.cons_append, splitlines_cons hc, ih ht]

theorem splitlines_unbroken (h : Unbroken t) (hne : t ≠ []) : splitlines t = [t] := by
  induction t with
  | nil => exact absurd rfl hne
  | cons c t ih =>
    have hc := h c List.mem_cons_self
    have ht : Unbroken t := fun d hd => h d (List.mem_cons_of_mem c hd)
    rw [splitlines_cons hc]
    by_cases hnil : t = []
    · rw [hnil]
      rfl
    · rw [ih ht hnil]

def linePieces (l : Text) : List Text := splitlines (l ++ crlf)

theorem linePieces_unbroken (h : Unbroken l) : linePieces l = [l] := by
  have hlines := splitlines_append (s := []) h
  rwa [List.append_nil] at hlines

theorem linePieces_ne_nil : linePieces l ≠ [] := by
  induction l with
  | nil => decide
  | cons c l ih =>
    unfold linePieces at ih ⊢
    intro hnil
    have hlines (ls : List Text) (hls : splitlines (l ++ crlf) = ls) (hne : ls ≠ []) :
        isLineEnd c = true := by
      cases hc : isLineEnd c with
      | true => rfl
      | false =>
        rw [List.cons_append, splitlines_cons hc, hls] at hnil
        cases ls with
        | nil => exact absurd rfl hne
        | cons m ms => exact absurd hnil (List.cons_ne_nil _ _)
    have hc := hlines _ rfl ih
    by_cases hcrlf : c = '\r' ∧ ∃ s', l ++ crlf = '\n' :: s'
    · obtain ⟨rfl, s', hs⟩ := hcrlf
      rw [List.cons_append, hs, splitlines_crlf] at hnil
      exact absurd hnil (List.cons_ne_nil _ _)
    · rw [List.cons_append, splitlines_break hc fun cs h₁ h₂ => hcrlf ⟨h₁, cs, h₂⟩] at hnil
      exact absurd hnil (List.cons_ne_nil _ _)

theorem splitlines_linePieces (h : '\r' ∉ l) :
    splitlines (l ++ (crlf ++ s)) = linePieces l ++ splitlines s := by
  induction l with
  | nil => exact splitlines_crlf
  | cons c l ih =>
    have hcr : '\r' ≠ c := fun hc => h (hc ▸ List.mem_cons_self)
    specialize ih fun hl => h (List.mem_cons_of_mem c hl)
    have hne := linePieces_ne_nil (l := l)
    unfold linePieces at ih hne ⊢
    rw [List.cons_append, List.cons_append]
    cases hc : isLineEnd c with
    | true =>
      rw [splitlines_break hc fun _ h' => absurd h'.symm hcr,
        splitlines_break hc fun _ h' => absurd h'.symm hcr, ih]
      rfl
    | false =>
      rw [splitlines_cons hc, splitlines_cons hc, ih]
      cases hls : splitlines (l ++ crlf) with
      | nil => exact absurd hls hne
      | cons m ms => rfl

theorem splitlines_intercalate {ls : List Text} (h : ∀ l ∈ ls, '\r' ∉ l) :
    splitlines (crlf.intercalate (ls ++ [t])) = ls.flatMap linePieces ++ splitlines t := by
  induction ls with
  | nil => simp
  | cons l ls ih =>
    have hls := ih fun m hm => h m (List.mem_cons_of_mem l hm)
    have hne : ls ++ [t] ≠ [] := by simp
    rw [List.cons_append, List.intercalate_cons_of_ne_nil hne, List.append_assoc,
      splitlines_linePieces (h l List.mem_cons_self), hls]
    simp

theorem lineInduction {motive : Text → Prop} (hnil : motive [])
    (hcrlf : ∀ s, motive s → motive ('\r' :: '\n' :: s))
    (hbreak : ∀ c s, isLineEnd c = true → (∀ s', c = '\r' → s ≠ '\n' :: s') → motive s → motive (c :: s))
    (hchar : ∀ c s, isLineEnd c = false → motive s → motive (c :: s)) : ∀ s, motive s
  | [] => hnil
  | c :: s => by
    by_cases hend : ∃ s', c = '\r' ∧ s = '\n' :: s'
    · obtain ⟨s', rfl, rfl⟩ := hend
      exact hcrlf s' (lineInduction hnil hcrlf hbreak hchar s')
    · cases hc : isLineEnd c with
      | true => exact hbreak c s hc (fun s' h h' => hend ⟨s', h, h'⟩) (lineInduction hnil hcrlf hbreak hchar s)
      | false => exact hchar c s hc (lineInduction hnil hcrlf hbreak hchar s)

theorem unbroken_of_mem_splitlines (h : l ∈ splitlines s) : Unbroken l := by
  have hempty : Unbroken [] := fun c hc => absurd hc List.not_mem_nil
  induction s using lineInduction generalizing l with
  | hnil => exact absurd h List.not_mem_nil
  | hcrlf s ih =>
    rw [splitlines_crlf] at h
    rcases List.mem_cons.mp h with rfl | h
    · exact hempty
    · exact ih h
  | hbreak c s hc hcr ih =>
    rw [splitlines_break hc hcr] at h
    rcases List.mem_cons.mp h with rfl | h
    · exact hempty
    · exact ih h
  | hchar c s hc ih =>
    rw [splitlines_cons hc] at h
    cases hls : splitlines s with
    | nil =>
      rw [hls] at h
      rw [List.mem_singleton.mp h]
      exact fun d hd => by rw [List.mem_singleton.mp hd]; exact hc
    | cons l' ls =>
      rw [hls] at h ih
      rcases List.mem_cons.mp h with rfl | h
      · intro d hd
        rcases List.mem_cons.mp hd with rfl | hd
        · exact hc
        · exact ih List.mem_cons_self d hd
      · exact ih (List.mem_cons_of_mem l' h)

end Splitlines

section Cut
variable {sep s t a b : Text} {x : Char}

theorem cut_eq (h : cut sep s = some (a, b)) : s = a ++ sep ++ b := by
  induction s generalizing a with
  | nil =>
    unfold cut at h
    split at h
    · rename_i hsep
      cases h
      rw [hsep]
      rfl
    · exact absurd h.symm (Option.some_ne_none _)
  | cons c cs ih =>
    unfold cut at h
    split at h
    · rename_i hpre
      cases h
      obtain ⟨rest, hrest⟩ := List.isPrefixOf_iff_prefix.mp hpre
      rw [← hrest, List.drop_left, List.nil_append]
    · obtain ⟨⟨a', b'⟩, hcut, heq⟩ := Option.map_eq_some_iff.mp h
      cases heq
      rw [ih hcut]
      rfl

theorem cut_append (h : x ∉ a) (sep s : Text) : cut (x :: sep) (a ++ s) =
    (cut (x :: sep) s).map fun p => (a ++ p.1, p.2) := by
  induction a with
  | nil =>
    cases hcut : cut (x :: sep) s <;> simp [hcut]
  | cons c a ih =>
    have hc : x ≠ c := fun hc => h (hc ▸ List.mem_cons_self)
    have ha : x ∉ a := fun hx => h (List.mem_cons_of_mem c hx)
    rw [List.cons_append, cut, ih ha]
    have hpre : (x :: sep).isPrefixOf (c :: (a ++ s)) = false := by
      simp [List.isPrefixOf, hc]
    rw [hpre]
    cases hcut : cut (x :: sep) s <;> simp

theorem cut_concat (h : cut sep s = some (a, b)) (t : Text) : cut sep (s ++ t) = some (a, b ++ t) := by
  induction s generalizing a with
  | nil =>
    unfold cut at h
    split at h
    · rename_i hsep
      cases h
      subst hsep
      cases t with
      | nil => rfl
      | cons c t => rfl
    · exact absurd h.symm (Option.some_ne_none _)
  | cons c cs ih =>
    unfold cut at h
    rw [List.cons_append, cut]
    split at h
    · rename_i hpre
      cases h
      obtain ⟨rest, hrest⟩ := List.isPrefixOf_iff_prefix.mp hpre
      have hpre' : sep.isPrefixOf (c :: (cs ++ t)) = true := by
        rw [List.isPrefixOf_iff_prefix, ← List.cons_append, ← hrest, List.append_assoc]
        exact List.prefix_append _ _
      rw [if_pos hpre', ← List.cons_append, ← hrest, List.append_assoc, List.drop_left, List.drop_left]
    · rename_i hpre
      obtain ⟨⟨a', b'⟩, hcut, heq⟩ := Option.map_eq_some_iff.mp h
      cases heq
      have hlen := cut_eq hcut
      have hpre' : sep.isPrefixOf (c :: (cs ++ t)) = false := by
        rw [Bool.eq_false_iff]
        intro hp
        apply hpre
        rw [List.isPrefixOf_iff_prefix, ← List.cons_append] at hp
        rw [List.isPrefixOf_iff_prefix]
        refine List.prefix_of_prefix_length_le hp (List.prefix_append _ _) ?_
        rw [hlen]
        simp only [List.length_cons, List.length_append]
        omega
      rw [hpre', ih hcut]
      rfl

theorem cut_self {sep : Text} (hne : sep ≠ []) (s : Text) : cut sep (sep ++ s) = some ([], s) := by
  cases sep with
  | nil => exact absurd rfl hne
  | cons x sep =>
    have hpre : (x :: sep).isPrefixOf (x :: (sep ++ s)) = true :=
      List.isPrefixOf_iff_prefix.mpr ⟨s, rfl⟩
    rw [List.cons_append, cut, hpre]
    simp

end Cut

end SippyB2bua.Lib.Text
