import SippyB2bua.Address.SipAddress
import SippyB2bua.Address.UrlParts
import SippyB2bua.Lib.Letters

/-!
# The parameters after an address

Parameters are split at semicolons, also within quotes, and a name that comes again moves to
the end. So they are read as they were printed exactly if no value has a semicolon and no name
comes twice.
-/

namespace SippyB2bua.Address
open Lib (Text Items)
open Lib.Text

/-- What may stand between quotes: a backslash comes with the character after it. -/
inductive QuotedText : Text → Prop
  | nil : QuotedText []
  | char {c : Char} {s : Text} : c ≠ '"' → c ≠ '\\' → QuotedText s → QuotedText (c :: s)
  | pair (c : Char) {s : Text} : QuotedText s → QuotedText ('\\' :: c :: s)

structure Token (s : Text) : Prop where
  ne_nil : s ≠ []
  chars : ∀ c ∈ s, c.isAlphanum = true ∨ c ∈ transtable

/-- A parameter without a value, or with a token or a quoted string. -/
def HeaderParam (p : Text × Option Text) : Prop :=
  Token p.1 ∧ ∀ v ∈ p.2, Token v ∨ ∃ s, QuotedText s ∧ v = '"' :: s ++ ['"']

variable {s t pre text k : Text} {p : Text × Option Text} {params d : Items (Option Text)} {ls : List Text}

theorem Token.not_mem (h : Token s) {c : Char} (halpha : c.isAlphanum = false) (hc : c ∉ transtable) : c ∉ s := by
  intro hmem
  rcases h.chars c hmem with hc' | hc'
  · exact absurd (halpha.symm.trans hc') (by simp)
  · exact hc hc'

theorem Token.of_all (hne : s ≠ []) (h : s.all (fun c => c.isAlphanum || transtable.contains c) = true) :
    Token s := by
  refine ⟨hne, fun c hc => ?_⟩
  simpa using List.all_eq_true.mp h c hc

theorem isSpace_alphanum {c : Char} (h : c.isAlphanum = true) : isSpace c = false := by
  rcases Bool.or_eq_true_iff.mp h with h | h
  · exact isSpace_of_isAlpha h
  · exact isSpace_of_isDigit h

theorem Token.isSpace (h : Token s) {c : Char} (hc : c ∈ s) : isSpace c = false := by
  rcases h.chars c hc with hc | hc
  · exact isSpace_alphanum hc
  · have hall : transtable.all (fun c => ! Lib.Text.isSpace c) = true := by decide
    simpa using List.all_eq_true.mp hall c hc

def paramPiece (p : Text × Option Text) : Text := p.1 ++ p.2.elim [] ('=' :: ·)

theorem flatMap_headerParam (params : Items (Option Text)) :
    params.flatMap headerParam = (params.map paramPiece).flatMap (';' :: ·) := by
  rw [List.flatMap_map]
  rfl

theorem splitAll_append_flatMap {sep : Char} (h : ∀ l ∈ ls, sep ∉ l) (s : Text) :
    splitAll sep (s ++ ls.flatMap (sep :: ·)) = splitAll sep s ++ ls := by
  induction ls generalizing s with
  | nil => simp
  | cons l ls ih =>
    have heq : s ++ (l :: ls).flatMap (sep :: ·) = (s ++ sep :: l) ++ ls.flatMap (sep :: ·) := by simp
    rw [heq, ih (fun x hx => h x (List.mem_cons_of_mem l hx)), splitAll_concat (h l List.mem_cons_self),
      List.append_assoc, List.singleton_append]

theorem foldl_readParam (h : ∀ p ∈ params, '=' ∉ p.1) : (params.map paramPiece).foldl readParam d =
    params.foldl (fun d p => Items.put d p.1 p.2) d := by
  induction params generalizing d with
  | nil => rfl
  | cons p params ih =>
    have hp : readParam d (paramPiece p) = Items.put d p.1 p.2 := by
      rw [readParam, paramPiece, split1_elim (h p List.mem_cons_self)]
    rw [List.map_cons, List.foldl_cons, List.foldl_cons, hp]
    exact ih fun q hq => h q (List.mem_cons_of_mem p hq)

/-- Parameters that come last are read as they are, after what they leave of the others. -/
theorem readParams_append (hparams : ∀ p ∈ params, HeaderParam p) (hnodup : params.keys.Nodup)
    (hvalues : ∀ p ∈ params, ∀ v ∈ p.2, ';' ∉ v) (pre : Text) :
    readParams (pre ++ params.flatMap headerParam) =
      (readParams pre).filter (fun p => p.1 ∉ params.keys) ++ params := by
  have hpiece : ∀ l ∈ params.map paramPiece, ';' ∉ l ∧ l ≠ [] := by
    intro l hl
    obtain ⟨p, hp, rfl⟩ := List.mem_map.mp hl
    have htoken := (hparams p hp).1
    refine ⟨fun hc => ?_, fun hnil => htoken.ne_nil (List.append_eq_nil_iff.mp hnil).1⟩
    rcases List.mem_append.mp hc with hc | hc
    · exact htoken.not_mem (by decide) (by decide) hc
    · cases hv : p.2 with
      | none =>
        rw [hv] at hc
        exact absurd hc List.not_mem_nil
      | some v =>
        rw [hv] at hc
        rcases List.mem_cons.mp hc with hc | hc
        · exact absurd hc (by decide)
        · exact hvalues p hp v hv hc
  have hfilter : (params.map paramPiece).filter (· ≠ []) = params.map paramPiece :=
    List.filter_eq_self.mpr fun l hl => by simpa using (hpiece l hl).2
  rw [readParams, flatMap_headerParam, splitAll_append_flatMap (fun l hl => (hpiece l hl).1),
    List.filter_append, List.foldl_append, hfilter,
    foldl_readParam fun p hp => (hparams p hp).1.not_mem (by decide) (by decide), Items.foldl_put hnodup]
  rfl

theorem nodup_readParams (text : Text) : (readParams text).keys.Nodup := by
  have hfold (ls : List Text) (d : Items (Option Text)) (hd : d.keys.Nodup) :
      (ls.foldl readParam d).keys.Nodup := by
    induction ls generalizing d with
    | nil => exact hd
    | cons l ls ih => exact ih _ (Items.nodup_put hd _ _)
  exact hfold _ [] (by simp [Items.keys])

theorem mem_keys_readParams : k ∈ (readParams text).keys ↔
    ∃ l ∈ splitAll ';' text, l ≠ [] ∧ (split1 '=' l).1 = k := by
  have hfold (ls : List Text) (d : Items (Option Text)) : k ∈ (ls.foldl readParam d).keys ↔
      k ∈ d.keys ∨ ∃ l ∈ ls, (split1 '=' l).1 = k := by
    induction ls generalizing d with
    | nil => simp
    | cons l ls ih =>
      rw [List.foldl_cons, ih, readParam, Items.mem_keys_put]
      simp [or_assoc, eq_comm]
  rw [readParams, hfold]
  simp [Items.keys, and_assoc]

theorem semicolon_readParams (text : Text) : ∀ p ∈ readParams text, ∀ v ∈ p.2, ';' ∉ v := by
  have hfold (ls : List Text) (hls : ∀ l ∈ ls, ';' ∉ l) (d : Items (Option Text))
      (hd : ∀ p ∈ d, ∀ v ∈ p.2, ';' ∉ v) : ∀ p ∈ ls.foldl readParam d, ∀ v ∈ p.2, ';' ∉ v := by
    induction ls generalizing d with
    | nil => exact hd
    | cons l ls ih =>
      refine ih (fun x hx => hls x (List.mem_cons_of_mem l hx)) _ ?_
      intro p hp v hv
      rcases List.mem_append.mp hp with hp | hp
      · exact hd p (List.mem_filter.mp hp).1 v hv
      · rw [List.mem_singleton.mp hp] at hv
        exact fun hc => hls l List.mem_cons_self
          (mem_split1 (List.mem_cons_of_mem _ (Option.mem_toList.mpr hv)) hc)
  exact hfold _ (fun l hl => splitAll_clean (List.mem_filter.mp hl).1) [] (by simp)

theorem headerParam_last (h : HeaderParam p) : ∀ c ∈ (headerParam p).getLast?, isSpace c = false := by
  obtain ⟨hname, hvalue⟩ := h
  obtain ⟨name, value⟩ := p
  have htoken {t : Text} (ht : Token t) (pre : Text) : ∀ c ∈ (pre ++ t).getLast?, isSpace c = false := by
    intro c hc
    rw [List.getLast?_append_of_ne_nil _ ht.ne_nil] at hc
    exact ht.isSpace (List.mem_of_getLast? hc)
  cases value with
  | none =>
    have heq : headerParam (name, none) = [';'] ++ name := by simp [headerParam]
    rw [heq]
    exact htoken hname _
  | some v =>
    have heq : headerParam (name, some v) = (';' :: name ++ ['=']) ++ v := by simp [headerParam]
    rw [heq]
    rcases hvalue v rfl with hv | ⟨s, -, rfl⟩
    · exact htoken hv _
    · intro c hc
      rw [← List.append_assoc, List.getLast?_concat] at hc
      rw [← Option.some.inj hc]
      decide

theorem params_last (h : ∀ p ∈ params, HeaderParam p) :
    ∀ c ∈ ('>' :: params.flatMap headerParam).getLast?, isSpace c = false := by
  rcases List.eq_nil_or_concat params with rfl | ⟨before, p, rfl⟩
  · intro c hc
    rw [← Option.some.inj hc]
    decide
  · rw [List.concat_eq_append] at h ⊢
    have heq : '>' :: (before ++ [p]).flatMap headerParam =
        ('>' :: before.flatMap headerParam) ++ headerParam p := by simp
    rw [heq, List.getLast?_append_of_ne_nil _ (by simp [headerParam])]
    exact headerParam_last (h p (by simp))

end SippyB2bua.Address
