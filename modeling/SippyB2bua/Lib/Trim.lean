import SippyB2bua.Lib.Letters
import Mathlib.Data.List.DropRight

/-!
# Trimming and words

What `strip` leaves is a part of the text and has nothing more to strip. The splits at
white space give words without any, and find the words of a text that joins them.
-/

namespace SippyB2bua.Lib.Text

/-- `strip` of the characters that meet a test. -/
def stripBy (p : Char → Bool) (s : Text) : Text := ((s.dropWhile p).reverse.dropWhile p).reverse

section StripBy
variable {p : Char → Bool} {s t : Text} {c : Char}

theorem rdropWhile_iff : s.rdropWhile p = s ↔ ∀ c ∈ s.getLast?, p c = false := by
  rcases s.eq_nil_or_concat with rfl | ⟨init, last, rfl⟩
  · simp
  · rw [List.rdropWhile_eq_self_iff]
    simp

theorem rdropWhile_length (s : Text) : (s.rdropWhile p).length ≤ s.length :=
  (s.rdropWhile_prefix p).length_le

theorem rdropWhile_stop (h : p c = false) (s t : Text) :
    (s ++ c :: t).rdropWhile p = s ++ c :: t.rdropWhile p := by
  have hstop : ¬ p c = true := by simp [h]
  induction t using List.reverseRecOn with
  | nil =>
    rw [List.rdropWhile_nil]
    exact List.rdropWhile_concat_neg p s c hstop
  | append_singleton t d ih =>
    rw [← List.cons_append, ← List.append_assoc, List.rdropWhile_concat, List.rdropWhile_concat, ih]
    split
    · rfl
    · simp

theorem rdropWhile_append (s t : Text) : (s ++ t).rdropWhile p =
    if t.rdropWhile p = [] then s.rdropWhile p else s ++ t.rdropWhile p := by
  simp only [List.rdropWhile, List.reverse_append, List.dropWhile_append, List.isEmpty_iff,
    List.reverse_eq_nil_iff]
  split <;> simp

theorem dropWhile_stop (h : p c = false) (s t : Text) :
    (s ++ c :: t).dropWhile p = s.dropWhile p ++ c :: t := by
  induction s with
  | nil => simp [h]
  | cons d s ih =>
    rw [List.cons_append, List.dropWhile_cons, List.dropWhile_cons]
    split
    · exact ih
    · rfl

theorem stripBy_stop (h : p c = false) (s t : Text) :
    stripBy p (s ++ c :: t) = s.dropWhile p ++ c :: t.rdropWhile p := by
  have hleft := dropWhile_stop h s t
  change ((s ++ c :: t).dropWhile p).rdropWhile p = _
  rw [hleft, rdropWhile_stop h]

theorem dropWhile_clean (h : ∀ c ∈ s, p c = false) : s.dropWhile p = s := by
  cases s with
  | nil => rfl
  | cons c s => simp [h c List.mem_cons_self]

theorem rdropWhile_clean (h : ∀ c ∈ s, p c = false) : s.rdropWhile p = s :=
  rdropWhile_iff.mpr fun c hc => h c (List.mem_of_getLast? hc)

theorem stripBy_clean (h : ∀ c ∈ s, p c = false) : stripBy p s = s := by
  change (s.dropWhile p).rdropWhile p = s
  rw [dropWhile_clean h, rdropWhile_clean h]

theorem stripBy_sublist (p : Char → Bool) (s : Text) : (stripBy p s).Sublist s :=
  (List.rdropWhile_prefix p (s.dropWhile p)).sublist.trans (List.dropWhile_sublist p)

end StripBy

section Strip
variable {s t : Text} {c : Char}

theorem strip_sublist (s : Text) : (strip s).Sublist s := by
  have hl : (lstrip s).Sublist s := List.dropWhile_sublist isSpace
  have hr : ((lstrip s).reverse.dropWhile isSpace).Sublist (lstrip s).reverse :=
    List.dropWhile_sublist isSpace
  have hr' := hr.reverse
  rw [List.reverse_reverse] at hr'
  exact hr'.trans hl

theorem strip_cons_space (h : isSpace c = true) : strip (c :: s) = strip s := by
  simp [strip, lstrip, h]

theorem strip_eq_of_length (h : s.length ≤ (strip s).length) : strip s = s :=
  (strip_sublist s).eq_of_length_le h

theorem lstrip_head (h : lstrip s = c :: t) : isSpace c = false := by
  have hhead := List.head?_dropWhile_not isSpace s
  unfold lstrip at h
  rw [h] at hhead
  simpa using hhead

theorem strip_head (h : strip (c :: s) = c :: s) : isSpace c = false := by
  cases hc : isSpace c with
  | false => rfl
  | true =>
    have hlen := (strip_sublist s).length_le
    rw [← strip_cons_space hc, h, List.length_cons] at hlen
    omega

theorem strip_map {f : Char → Char} (hf : ∀ c, isSpace (f c) = isSpace c) (s : Text) :
    strip (s.map f) = (strip s).map f := by
  have hcomp : isSpace ∘ f = isSpace := funext hf
  simp only [strip, rstrip, lstrip, List.dropWhile_map, ← List.map_reverse, hcomp]

theorem strip_length (s : Text) : (strip s).length =
    (((s.map isSpace).dropWhile id).reverse.dropWhile id).length := by
  simp only [strip, rstrip, lstrip, List.length_reverse, List.dropWhile_map, ← List.map_reverse,
    List.length_map]
  rfl

theorem strip_congr (h : s.map isSpace = t.map isSpace) (hs : strip s = s) : strip t = t := by
  have hlen := congrArg List.length h
  rw [List.length_map, List.length_map] at hlen
  apply strip_eq_of_length
  rw [strip_length, ← h, ← strip_length, hs, hlen]

theorem strip_lower (s : Text) : strip (lower s) = lower (strip s) :=
  strip_map (toLower_of fun _ => isSpace_of_isAlpha) s

theorem lstrip_lstrip (s : Text) : lstrip (lstrip s) = lstrip s :=
  List.dropWhile_idempotent isSpace s

theorem rstrip_rstrip (s : Text) : rstrip (rstrip s) = rstrip s := by
  simp only [rstrip, List.reverse_reverse, List.dropWhile_idempotent isSpace s.reverse]

theorem lstrip_rstrip (h : lstrip s = s) : lstrip (rstrip s) = rstrip s := by
  cases hs : rstrip s with
  | nil => rfl
  | cons c r =>
    have hpre : (rstrip s) <+: s := by
      have hsuf : s.reverse.dropWhile isSpace <:+ s.reverse := List.dropWhile_suffix isSpace
      rwa [← List.reverse_prefix, List.reverse_reverse] at hsuf
    rw [hs] at hpre
    obtain ⟨r', rfl⟩ := hpre
    exact lstrip_of_head (lstrip_head h)

theorem strip_strip (s : Text) : strip (strip s) = strip s := by
  have h : lstrip (strip s) = strip s := lstrip_rstrip (lstrip_lstrip s)
  rw [strip, h, strip, rstrip_rstrip]

theorem lstrip_iff : lstrip s = s ↔ ∀ c ∈ s.head?, isSpace c = false := by
  cases s with
  | nil => simp [lstrip]
  | cons c s =>
    constructor
    · intro h
      simpa using lstrip_head h
    · intro h
      exact lstrip_of_head (by simpa using h)

theorem rstrip_iff : rstrip s = s ↔ ∀ c ∈ s.getLast?, isSpace c = false := by
  have hrev : rstrip s = s ↔ lstrip s.reverse = s.reverse := by
    rw [rstrip, lstrip]
    exact List.reverse_eq_iff
  rw [hrev, lstrip_iff, List.head?_reverse]

theorem strip_iff : strip s = s ↔
    (∀ c ∈ s.head?, isSpace c = false) ∧ ∀ c ∈ s.getLast?, isSpace c = false := by
  rw [← lstrip_iff, ← rstrip_iff]
  constructor
  · intro h
    have hl : lstrip s = s := by
      rw [← h]
      exact lstrip_rstrip (lstrip_lstrip s)
    rw [strip, hl] at h
    exact ⟨hl, h⟩
  · rintro ⟨hl, hr⟩
    rw [strip, hl, hr]

theorem strip_append_sep (hc : isSpace c = false) (hs : strip s = s) (ht : strip t = t) :
    strip (s ++ c :: t) = s ++ c :: t := by
  rw [strip_iff] at hs ht ⊢
  constructor
  · cases s with
    | nil => simpa using hc
    | cons d s => simpa using hs.1
  · cases t with
    | nil => simpa using hc
    | cons d t => simpa using ht.2

theorem mem_strip_or (h : c ∈ s) : c ∈ strip s ∨ isSpace c = true := by
  rw [← List.takeWhile_append_dropWhile (p := isSpace) (l := s)] at h
  rcases List.mem_append.mp h with h | h
  · exact .inr (List.mem_takeWhile_imp h)
  · rw [← List.rdropWhile_append_rtakeWhile (p := isSpace) (l := s.dropWhile isSpace)] at h
    rcases List.mem_append.mp h with h | h
    · exact .inl h
    · exact .inr (List.mem_rtakeWhile_imp h)

end Strip

section Words
variable {s t r a b w rest : Text} {ws : List Text}

/-- A word without white space. -/
structure PlainWord (w : Text) : Prop where
  ne_nil : w ≠ []
  space : ∀ c ∈ w, isSpace c = false

instance (w : Text) : Decidable (PlainWord w) :=
  decidable_of_iff (w ≠ [] ∧ ∀ c ∈ w, isSpace c = false) ⟨fun h => ⟨h.1, h.2⟩, fun h => ⟨h.ne_nil, h.space⟩⟩

theorem mem_closeWord (hw : ∀ c ∈ w, isSpace c = false) (h : a ∈ closeWord w) : PlainWord a := by
  unfold closeWord at h
  split at h
  · exact absurd h List.not_mem_nil
  · rename_i hne
    rw [List.mem_singleton.mp h]
    exact ⟨fun hnil => hne (List.reverse_eq_nil_iff.mp hnil),
      fun c hc => hw c (List.mem_reverse.mp hc)⟩

theorem mem_wordsFrom (hw : ∀ c ∈ w, isSpace c = false) (h : a ∈ wordsFrom w s) : PlainWord a := by
  induction s generalizing w with
  | nil => exact mem_closeWord hw h
  | cons c s ih =>
    unfold wordsFrom at h
    split at h
    · rcases List.mem_append.mp h with h | h
      · exact mem_closeWord hw h
      · exact ih (fun d hd => absurd hd List.not_mem_nil) h
    · rename_i hc
      refine ih (fun d hd => ?_) h
      rcases List.mem_cons.mp hd with rfl | hd
      · exact Bool.eq_false_iff.mpr hc
      · exact hw d hd

theorem mem_words (h : a ∈ words s) : PlainWord a :=
  mem_wordsFrom (fun _ hc => absurd hc List.not_mem_nil) h

theorem wordsFrom_append (ha : ∀ c ∈ a, isSpace c = false) (w s : Text) :
    wordsFrom w (a ++ s) = wordsFrom (a.reverse ++ w) s := by
  induction a generalizing w with
  | nil => rfl
  | cons c a ih =>
    have hc := ha c List.mem_cons_self
    rw [List.cons_append, wordsFrom, hc, if_neg Bool.false_ne_true,
      ih fun d hd => ha d (List.mem_cons_of_mem c hd)]
    simp

theorem words_plain (ha : PlainWord a) : words a = [a] := by
  have h := wordsFrom_append ha.space [] []
  simpa [words, wordsFrom, closeWord, ha.ne_nil] using h

theorem words_append (ha : PlainWord a) (s : Text) : words (a ++ ' ' :: s) = a :: words s := by
  have hspace : isSpace ' ' = true := by decide
  rw [words, wordsFrom_append ha.space, wordsFrom, if_pos hspace]
  simp [closeWord, ha.ne_nil, words]

theorem lstrip_plain (ha : PlainWord a) (s : Text) : lstrip (a ++ s) = a ++ s := by
  cases hac : a with
  | nil => exact absurd hac ha.ne_nil
  | cons c a' => exact lstrip_of_head (ha.space c (hac ▸ List.mem_cons_self))

theorem lstrip_of_plain (ha : PlainWord a) : lstrip a = a := by simpa using lstrip_plain ha []

theorem splitSpace1_append (ha : PlainWord a) (hs : lstrip s = s) (hne : s ≠ []) :
    splitSpace1 (a ++ ' ' :: s) = some (a, some s) := by
  have hspace : isSpace ' ' = true := by decide
  have hna : ∀ c ∈ a, (!isSpace c) = true := fun c hc => by rw [ha.space c hc]; rfl
  have htake : (a ++ ' ' :: s).takeWhile (fun c => !isSpace c) = a := by
    rw [List.takeWhile_append_of_pos hna]
    simp [hspace]
  have hdrop : (a ++ ' ' :: s).dropWhile (fun c => !isSpace c) = ' ' :: s := by
    rw [List.dropWhile_append_of_pos hna]
    simp [hspace]
  have hrest : lstrip (' ' :: s) = s := by
    rw [← hs]
    simp only [lstrip, List.dropWhile_cons, hspace, if_true, List.dropWhile_idempotent isSpace s]
  unfold splitSpace1
  dsimp only
  rw [lstrip_plain ha, htake, hdrop, hrest]
  simp [ha.ne_nil, hne]

theorem splitSpace1_word {o : Option Text} (h : splitSpace1 s = some (a, o)) : PlainWord a := by
  unfold splitSpace1 at h
  dsimp only at h
  split at h
  · exact absurd h.symm (Option.some_ne_none _)
  · rename_i hne
    simp only [Option.some.injEq, Prod.mk.injEq] at h
    obtain ⟨rfl, -⟩ := h
    refine ⟨fun hnil => ?_, fun c hc => ?_⟩
    · cases hs : lstrip s with
      | nil => exact hne hs
      | cons c t =>
        rw [hs] at hnil
        simp [lstrip_head hs] at hnil
    · simpa using List.mem_takeWhile_imp hc

theorem splitSpace1_rest (h : splitSpace1 s = some (a, some r)) :
    lstrip r = r ∧ r ≠ [] ∧ r.Sublist s := by
  unfold splitSpace1 at h
  dsimp only at h
  split at h
  · exact absurd h.symm (Option.some_ne_none _)
  · split at h
    · simp at h
    · rename_i hrest
      simp only [Option.some.injEq, Prod.mk.injEq] at h
      obtain ⟨-, rfl⟩ := h
      exact ⟨lstrip_lstrip _, hrest, (List.dropWhile_sublist _).trans
        ((List.dropWhile_sublist _).trans (List.dropWhile_sublist _))⟩

theorem wordsMax_uncut (s : Text) : wordsMax 0 s = if lstrip s = [] then [] else [lstrip s] := rfl

theorem wordsMax_cut (n : ℕ) (s : Text) : wordsMax (n + 1) s =
    match splitSpace1 s with
    | none => []
    | some (w, none) => [w]
    | some (w, some rest) => w :: wordsMax n rest := rfl

theorem wordsMax_append (ha : PlainWord a) (hb : PlainWord b) (hr : lstrip r = r) (hne : r ≠ []) :
    wordsMax 2 (a ++ ' ' :: (b ++ ' ' :: r)) = [a, b, r] := by
  have hsplit := splitSpace1_append ha (lstrip_plain hb (' ' :: r)) (by simp)
  rw [wordsMax_cut, hsplit]
  dsimp only
  rw [wordsMax_cut, splitSpace1_append hb hr hne]
  dsimp only
  rw [wordsMax_uncut, hr, if_neg hne]

theorem wordsMax_head (h : wordsMax 2 s = a :: ws) : PlainWord a := by
  rw [wordsMax_cut] at h
  split at h
  · exact absurd h (by simp)
  · rename_i w hsplit
    cases h
    exact splitSpace1_word hsplit
  · rename_i w rest hsplit
    cases h
    exact splitSpace1_word hsplit

theorem wordsMax_rest (h : wordsMax 2 s = [a, b, r]) : lstrip r = r ∧ r ≠ [] ∧ r.Sublist s := by
  rw [wordsMax_cut] at h
  split at h
  · exact absurd h (by simp)
  · exact absurd h (by simp)
  · rename_i w rest hsplit
    obtain ⟨-, -, hsub⟩ := splitSpace1_rest hsplit
    rw [wordsMax_cut] at h
    split at h
    · exact absurd h (by simp)
    · exact absurd h (by simp)
    · rename_i w' rest' hsplit'
      obtain ⟨hrest, hne, hsub'⟩ := splitSpace1_rest hsplit'
      rw [wordsMax_uncut, hrest, if_neg hne] at h
      simp only [List.cons.injEq, and_true] at h
      obtain ⟨rfl, rfl, rfl⟩ := h
      exact ⟨hrest, hne, hsub'.trans hsub⟩

theorem splitSpace1_plain (ha : PlainWord a) : splitSpace1 a = some (a, none) := by
  have hna : ∀ c ∈ a, (!isSpace c) = true := fun c hc => by rw [ha.space c hc]; rfl
  have htake : a.takeWhile (fun c => !isSpace c) = a := List.takeWhile_eq_self_iff.mpr hna
  have hdrop : a.dropWhile (fun c => !isSpace c) = [] := List.dropWhile_eq_nil_iff.mpr hna
  have hstrip : lstrip a = a := lstrip_of_plain ha
  unfold splitSpace1
  dsimp only
  rw [hstrip, htake, hdrop, if_neg ha.ne_nil]
  rfl

theorem wordsMax_cons (ha : PlainWord a) (hs : lstrip s = s) (hne : s ≠ []) (n : ℕ) :
    wordsMax (n + 1) (a ++ ' ' :: s) = a :: wordsMax n s := by
  rw [wordsMax_cut, splitSpace1_append ha hs hne]

theorem wordsMax_zero (hs : lstrip s = s) (hne : s ≠ []) : wordsMax 0 s = [s] := by
  rw [wordsMax_uncut, hs, if_neg hne]

theorem wordsMax_plain (ha : PlainWord a) (n : ℕ) : wordsMax n a = [a] := by
  cases n with
  | zero => exact wordsMax_zero (lstrip_of_plain ha) ha.ne_nil
  | succ n => rw [wordsMax_cut, splitSpace1_plain ha]

theorem wordsMax_succ {n : ℕ} (h : wordsMax (n + 1) s = a :: ws) : PlainWord a ∧
    (ws = [] ∨ ∃ r, lstrip r = r ∧ r ≠ [] ∧ wordsMax n r = ws) := by
  rw [wordsMax_cut] at h
  split at h
  · exact absurd h (by simp)
  · rename_i w hsplit
    cases h
    exact ⟨splitSpace1_word hsplit, .inl rfl⟩
  · rename_i w rest hsplit
    cases h
    obtain ⟨hrest, hne, -⟩ := splitSpace1_rest hsplit
    exact ⟨splitSpace1_word hsplit, .inr ⟨rest, hrest, hne, rfl⟩⟩

theorem wordsMax_last (h : wordsMax 0 s = a :: ws) : lstrip a = a ∧ a ≠ [] ∧ ws = [] := by
  rw [wordsMax_uncut] at h
  split at h
  · exact absurd h (by simp)
  · cases h
    exact ⟨lstrip_lstrip s, ‹_›, rfl⟩

end Words

section Numbers
variable {s : Text} {c : Char} {n : ℤ}

theorem mem_of_digits {ds : Text} (h : digits s = some ds) (hc : c ∈ s) : c.isDigit = true ∨ c = '_' := by
  induction s using digits.induct generalizing ds with
  | case1 => exact absurd hc List.not_mem_nil
  | case2 d hd =>
    rw [List.mem_singleton.mp hc]
    exact .inl hd
  | case3 d hd =>
    rw [digits, if_neg hd] at h
    exact absurd h (by simp)
  | case4 d s hd ih =>
    rw [digits, if_pos hd] at h
    obtain ⟨ds', hds, -⟩ := Option.map_eq_some_iff.mp h
    rcases List.mem_cons.mp hc with rfl | hc
    · exact .inl hd
    rcases List.mem_cons.mp hc with rfl | hc
    · exact .inr rfl
    · exact ih hds hc
  | case5 d s hd =>
    rw [digits, if_neg hd] at h
    exact absurd h (by simp)
  | case6 d s hne hunder hd ih =>
    rw [digits.eq_4 d s hne hunder, if_pos hd] at h
    obtain ⟨ds', hds, -⟩ := Option.map_eq_some_iff.mp h
    rcases List.mem_cons.mp hc with rfl | hc
    · exact .inl hd
    · exact ih hds hc
  | case7 d s hne hunder hd =>
    rw [digits.eq_4 d s hne hunder, if_neg hd] at h
    exact absurd h (by simp)

theorem mem_of_int (h : int s = some n) (hc : c ∈ s) :
    isSpace c = true ∨ c = '-' ∨ c = '+' ∨ c = '_' ∨ c.isDigit = true := by
  rcases mem_strip_or hc with hc | hc
  · apply Or.inr
    unfold int at h
    split at h
    · rename_i ds hs
      obtain ⟨ds', hds, -⟩ := Option.map_eq_some_iff.mp h
      rw [hs] at hc
      rcases List.mem_cons.mp hc with rfl | hc
      · exact .inl rfl
      · have hmem := mem_of_digits hds hc
        tauto
    · rename_i ds hs
      obtain ⟨ds', hds, -⟩ := Option.map_eq_some_iff.mp h
      rw [hs] at hc
      rcases List.mem_cons.mp hc with rfl | hc
      · exact .inr (.inl rfl)
      · have hmem := mem_of_digits hds hc
        tauto
    · obtain ⟨ds', hds, -⟩ := Option.map_eq_some_iff.mp h
      have hmem := mem_of_digits hds hc
      tauto
  · exact .inl hc

theorem isDigit_of_mem_str {n : ℕ} (h : c ∈ str n) : c.isDigit = true :=
  Nat.isDigit_of_mem_toDigits (by decide) (by decide) h

theorem mem_of_ofInt (h : c ∈ ofInt n) : c = '-' ∨ c.isDigit = true := by
  cases n with
  | ofNat n => exact .inr (isDigit_of_mem_str h)
  | negSucc n =>
    rcases List.mem_cons.mp h with h | h
    · exact .inl h
    · exact .inr (isDigit_of_mem_str h)

theorem plain_str (n : ℕ) : PlainWord (str n) :=
  ⟨Nat.toDigits_ne_nil, fun _ hc => isSpace_of_isDigit (isDigit_of_mem_str hc)⟩

theorem plain_ofInt (n : ℤ) : PlainWord (ofInt n) := by
  cases n with
  | ofNat n => exact plain_str n
  | negSucc n =>
    refine ⟨List.cons_ne_nil _ _, fun c hc => ?_⟩
    rcases List.mem_cons.mp hc with rfl | hc
    · decide
    · exact (plain_str (n + 1)).space c hc

theorem strip_plain {w : Text} (h : PlainWord w) : strip w = w := stripBy_clean h.space

theorem int_ofInt (n : ℤ) : int (ofInt n) = some n := by
  cases n with
  | ofNat n => exact int_str n
  | negSucc n =>
    have hdigits : digits (str (n + 1)) = some (str (n + 1)) :=
      digits_of_digits Nat.toDigits_ne_nil fun c => isDigit_of_mem_str
    have hnum : Nat.ofDigitChars 10 (str (n + 1)) 0 = n + 1 := Nat.ofDigitChars_ten_toDigits
    have hstrip : strip ('-' :: str (n + 1)) = '-' :: str (n + 1) :=
      strip_plain (plain_ofInt (.negSucc n))
    simp only [ofInt, int, hstrip, hdigits, Option.map_some, hnum]
    rfl

end Numbers

end SippyB2bua.Lib.Text
