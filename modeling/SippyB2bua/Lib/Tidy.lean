import SippyB2bua.Lib.Breaks
import SippyB2bua.Lib.Trim

/-!
# Texts of lines

Lines with CR LF at the end of each come out again from `strip` and `splitlines` if they have no
boundary inside, start with a character that is not white space and do not end in any.
-/

namespace SippyB2bua.Lib.Text

variable {s t w : Text} {ls : List Text}

/-- One line of a text, without white space at its end. -/
structure Tidy (s : Text) : Prop where
  unbroken : Unbroken s
  rstrip : rstrip s = s

theorem PlainWord.unbroken (h : PlainWord w) : Unbroken w := by
  intro c hc
  cases hline : isLineEnd c with
  | false => rfl
  | true => exact absurd (isSpace_of_isLineEnd hline) (by rw [h.space c hc]; decide)

theorem PlainWord.tidy (h : PlainWord w) : Tidy w := ⟨h.unbroken, rdropWhile_clean h.space⟩

theorem rstrip_append (ht : rstrip t = t) (hne : t ≠ []) (s : Text) : rstrip (s ++ t) = s ++ t := by
  have happ := @rdropWhile_append isSpace s t
  have ht' : t.rdropWhile isSpace = t := ht
  rw [ht', if_neg hne] at happ
  exact happ

theorem PlainWord.tidy_append (h : PlainWord w) (hs : Unbroken s) : Tidy (s ++ w) :=
  ⟨hs.append h.unbroken, rstrip_append h.tidy.rstrip h.ne_nil s⟩

theorem Tidy.cons_append {c : Char} (h : Tidy t) (hc : isSpace c = false) (hs : Unbroken s) (hline : isLineEnd c = false) :
    Tidy (s ++ c :: t) := by
  refine ⟨hs.append fun d hd => ?_, ?_⟩
  · rcases List.mem_cons.mp hd with rfl | hd
    · exact hline
    · exact h.unbroken d hd
  · have hstop := @rdropWhile_stop isSpace c hc s t
    have ht : t.rdropWhile isSpace = t := h.rstrip
    rw [ht] at hstop
    exact hstop

def endLines (ls : List Text) : Text := ls.flatMap (· ++ crlf)

theorem endLines_append (ls ls' : List Text) : endLines (ls ++ ls') = endLines ls ++ endLines ls' :=
  List.flatMap_append

theorem splitlines_endLines (h : ∀ l ∈ ls, Unbroken l) (t : Text) :
    splitlines (endLines ls ++ t) = ls ++ splitlines t := by
  induction ls with
  | nil => rfl
  | cons l ls ih =>
    have hls := ih fun m hm => h m (List.mem_cons_of_mem l hm)
    have hcons : endLines (l :: ls) = l ++ (crlf ++ endLines ls) := by simp [endLines]
    rw [hcons, List.append_assoc, List.append_assoc, splitlines_append (h l List.mem_cons_self), hls]
    rfl

theorem splitlines_strip (h : ∀ m ∈ ls ++ [t], Unbroken m ∧ ∃ c ∈ m.head?, isSpace c = false) :
    splitlines (strip (endLines (ls ++ [t]))) = ls ++ [rstrip t] := by
  obtain ⟨ht, c, hc, hspace⟩ := h t (by simp)
  obtain ⟨t', rfl⟩ : ∃ t', t = c :: t' := by
    cases t with
    | nil => simp at hc
    | cons d t' => exact ⟨t', by simpa using hc⟩
  have hends : endLines (ls ++ [c :: t']) = endLines ls ++ (c :: t' ++ crlf) := by
    rw [endLines_append]
    simp [endLines]
  have hleft : lstrip (endLines ls ++ (c :: t' ++ crlf)) = endLines ls ++ (c :: t' ++ crlf) := by
    rw [lstrip_iff]
    cases ls with
    | nil => simpa [endLines] using hspace
    | cons l ls =>
      obtain ⟨-, d, hd, hdspace⟩ := h l (by simp)
      cases l with
      | nil => simp at hd
      | cons d' l => 
        obtain rfl : d' = d := by simpa using hd
        simpa [endLines] using hdspace
  have hright : rstrip (endLines ls ++ (c :: t' ++ crlf)) = endLines ls ++ c :: rstrip t' := by
    have hstop := @rdropWhile_stop isSpace c hspace (endLines ls) (t' ++ crlf)
    have hcrlf : (t' ++ crlf).rdropWhile isSpace = t'.rdropWhile isSpace := by
      rw [rdropWhile_append, if_pos (by decide)]
    rw [hcrlf] at hstop
    exact hstop
  have hlast : rstrip (c :: t') = c :: rstrip t' := @rdropWhile_stop isSpace c hspace [] t'
  have hsub : Unbroken (c :: rstrip t') := by
    intro d hd
    apply ht d
    rw [← hlast] at hd
    exact (List.rdropWhile_prefix isSpace (c :: t')).subset hd
  rw [strip, hends, hleft, hright, splitlines_endLines (fun m hm => (h m (by simp [hm])).1), hlast,
    splitlines_unbroken hsub (List.cons_ne_nil _ _)]

end SippyB2bua.Lib.Text
