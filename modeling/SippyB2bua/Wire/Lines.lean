import SippyB2bua.Wire.Layout
import SippyB2bua.Lib.Trim
import SippyB2bua.Lib.Lines
import Mathlib.Data.List.Forall2

/-!
# What a line makes

A start line is read back if its words have no white space and a reason, if there is one,
starts with none. A header line makes one header, or several if its class cuts the value
at commas; their values together are never longer than the line's.
-/

namespace SippyB2bua.Wire
open Lib (Text)
open Lib.Text (Unbroken PlainWord isSpace isLineEnd lower strip lstrip splitAll split1 words wordsMax
  ofInt str int isDigit_of_mem_str
  plain_str plain_ofInt int_ofInt strip_plain)

theorem unbroken_of_space {s : Text} (h : ∀ c ∈ s, isSpace c = false) : Unbroken s := by
  intro c hc
  cases hend : isLineEnd c with
  | false => rfl
  | true => exact absurd (h c hc) (by rw [Lib.Text.isSpace_of_isLineEnd hend]; decide)

theorem unbroken_of_sublist {s t : Text} (h : s.Sublist t) (ht : Unbroken t) : Unbroken s :=
  fun c hc => ht c (h.subset hc)

namespace StartLine

def Readable (url : Text → Bool) : MsgClass → StartLine → Prop
  | .sipRequest, request method ruri sipver =>
    PlainWord method ∧ PlainWord ruri ∧ PlainWord sipver ∧ url ruri = true
  | .sipResponse, response sipver _ reason =>
    PlainWord sipver ∧ lstrip reason = reason ∧ reason ≠ [] ∧ Unbroken reason
  | _, _ => False

variable {url : Text → Bool} {cls : MsgClass} {sl : StartLine} {l : Text}

theorem setSL_getSL (h : sl.Readable url cls) : setSL url cls sl.getSL = .ok sl := by
  cases cls with
  | sipRequest =>
    cases sl with
    | response => exact h.elim
    | request method ruri sipver =>
      obtain ⟨hm, hr, hv, hurl⟩ := h
      have hwords : words (method ++ ' ' :: (ruri ++ ' ' :: sipver)) = [method, ruri, sipver] := by
        rw [Lib.Text.words_append hm, Lib.Text.words_append hr, Lib.Text.words_plain hv]
      simp only [setSL, ofRequest, getSL, List.append_assoc, List.cons_append, hwords, hurl, if_true]
  | sipResponse =>
    cases sl with
    | request => exact h.elim
    | response sipver scode reason =>
      obtain ⟨hv, hr, hne, -⟩ := h
      have hwords := Lib.Text.wordsMax_append hv (plain_ofInt scode) hr hne
      simp only [setSL, ofResponse, getSL, List.append_assoc, List.cons_append, hwords, int_ofInt]

theorem readable_of_setSL (hl : Unbroken l) (h : setSL url cls l = .ok sl) : sl.Readable url cls := by
  cases cls with
  | sipRequest =>
    simp only [setSL, ofRequest] at h
    split at h
    · rename_i method ruri sipver hwords
      split at h
      · rename_i hurl
        cases h
        have hmem (w : Text) (hw : w ∈ [method, ruri, sipver]) : PlainWord w :=
          Lib.Text.mem_words (hwords ▸ hw)
        exact ⟨hmem method (by simp), hmem ruri (by simp), hmem sipver (by simp), hurl⟩
      · exact absurd h (by simp)
    · exact absurd h (by simp)
  | sipResponse =>
    simp only [setSL, ofResponse] at h
    split at h
    · rename_i sipver scode hwords
      split at h
      · cases h
        exact ⟨Lib.Text.wordsMax_head hwords, by decide, by decide, by decide⟩
      · exact absurd h (by simp)
    · rename_i sipver scode reason hwords
      split at h
      · cases h
        obtain ⟨hr, hne, hsub⟩ := Lib.Text.wordsMax_rest hwords
        exact ⟨Lib.Text.wordsMax_head hwords, hr, hne, unbroken_of_sublist hsub hl⟩
      · exact absurd h (by simp)
    · exact absurd h (by simp)

theorem getSL_unbroken (h : sl.Readable url cls) : Unbroken sl.getSL := by
  have hspace : Unbroken [' '] := by decide
  have hword {w : Text} (hw : PlainWord w) : Unbroken w := unbroken_of_space hw.space
  cases cls with
  | sipRequest =>
    cases sl with
    | response => exact h.elim
    | request method ruri sipver =>
      obtain ⟨hm, hr, hv, -⟩ := h
      have hall := ((hword hm).append hspace).append (((hword hr).append hspace).append (hword hv))
      simpa [getSL] using hall
  | sipResponse =>
    cases sl with
    | request => exact h.elim
    | response sipver scode reason =>
      obtain ⟨hv, -, -, hr⟩ := h
      have hall := ((hword hv).append hspace).append
        (((hword (plain_ofInt scode)).append hspace).append hr)
      simpa [getSL] using hall

end StartLine

structure CleanName (n : Text) : Prop where
  unbroken : Unbroken n
  colon : ':' ∉ n
  strip : Lib.Text.strip n = n

instance (n : Text) : Decidable (CleanName n) :=
  decidable_of_iff (Unbroken n ∧ ':' ∉ n ∧ strip n = n)
    ⟨fun ⟨a, b, c⟩ => ⟨a, b, c⟩, fun ⟨a, b, c⟩ => ⟨a, b, c⟩⟩

section Names
variable {n s l : Text} {t : HfType}

theorem isLineEnd_of_isAlpha (c : Char) (h : c.isAlpha = true) : isLineEnd c = false := by
  cases hend : isLineEnd c with
  | false => rfl
  | true =>
    have hspace := Lib.Text.isSpace_of_isLineEnd hend
    rw [Lib.Text.isSpace_of_isAlpha h] at hspace
    exact absurd hspace Bool.false_ne_true

theorem colon_of_isAlpha (c : Char) (h : c.isAlpha = true) : (c == ':') = false := by
  rw [beq_eq_false_iff_ne]
  rintro rfl
  exact absurd h (by decide)

theorem colon_not_mem : ':' ∉ n ↔ ∀ c ∈ n, (c == ':') = false := by
  simp only [beq_eq_false_iff_ne]
  refine ⟨fun h c hc hcolon => h (hcolon ▸ hc), fun h hmem => h ':' hmem rfl⟩

theorem CleanName.lower (h : CleanName n) : CleanName (lower n) where
  unbroken := Lib.Text.lower_of isLineEnd_of_isAlpha h.unbroken
  colon := colon_not_mem.mpr (Lib.Text.lower_of colon_of_isAlpha (colon_not_mem.mp h.colon))
  strip := by rw [Lib.Text.strip_lower, h.strip]

theorem cleanName_strip (hs : Unbroken n) (hcolon : ':' ∉ n) : CleanName (strip n) where
  unbroken := unbroken_of_sublist (Lib.Text.strip_sublist n) hs
  colon := fun h => hcolon ((Lib.Text.strip_sublist n).subset h)
  strip := Lib.Text.strip_strip n

theorem foldl_set_mem {ts : List HfType} {d : Lib.Dict Text HfType}
    (h : ts.foldl (fun d t => t.hfNames.foldl (fun d name => d.set name t) d) d n = some t) :
    d n = some t ∨ t ∈ ts := by
  have hnames (names : List Text) (u : HfType) (d : Lib.Dict Text HfType)
      (h : names.foldl (fun d name => d.set name u) d n = some t) : d n = some t ∨ t = u := by
    induction names generalizing d with
    | nil => exact .inl h
    | cons name names ih =>
      rcases ih _ h with h | h
      · rcases Lib.Dict.set_eq_some.mp h with ⟨-, h⟩ | ⟨-, h⟩
        · exact .inr h.symm
        · exact .inl h
      · exact .inr h
  induction ts generalizing d with
  | nil => exact .inl h
  | cons u ts ih =>
    rcases ih h with h | h
    · rcases hnames _ u d h with h | rfl
      · exact .inl h
      · exact .inr List.mem_cons_self
    · exact .inr (List.mem_cons_of_mem u h)

-- The characters of the names are written out before the names are read.
theorem cleanName_hfName : ∀ t ∈ HfType.all, CleanName t.hfName := by
  unfold HfType.hfName HfType.hfNames
  repeat rewrite [String.toList_ofList]
  decide +kernel

theorem CleanName.typeOf (h : CleanName n) : CleanName (SipHeader.typeOf n).hfName := by
  unfold SipHeader.typeOf
  cases ht : hfTypes n with
  | none => exact h.lower
  | some t =>
    rcases foldl_set_mem ht with hempty | hmem
    · exact absurd hempty (by simp)
    · exact cleanName_hfName t hmem

theorem strip_printedNames : ∀ m ∈ printedNames, CleanName m := by
  unfold printedNames classNames
  simp only [List.map_cons, List.map_nil]
  repeat rewrite [String.toList_ofList]
  decide +kernel

theorem CleanName.getCanName (h : CleanName n) (t : HfType) (compact : Bool) :
    CleanName (t.getCanName n compact) where
  unbroken := getCanName_of isLineEnd_of_isAlpha (fun m hm => (strip_printedNames m hm).unbroken) t
    h.unbroken compact
  colon := not_mem_getCanName (by decide) (fun m hm => (strip_printedNames m hm).colon) t h.colon compact
  strip := by
    rcases getCanName_mem t n compact with hmem | heq
    · exact (strip_printedNames _ hmem).strip
    · rw [heq]
      have hspace : n.map isSpace = (capitalize n).map isSpace := by
        cases n with
        | nil => rfl
        | cons c cs =>
          have hcs : (Lib.Text.lower cs).map isSpace = cs.map isSpace := by
            unfold Lib.Text.lower
            rw [List.map_map]
            exact List.map_congr_left fun d _ =>
              Lib.Text.toLower_of (fun _ => Lib.Text.isSpace_of_isAlpha) d
          have hc : isSpace c.toUpper = isSpace c :=
            Lib.Text.toUpper_of (fun _ => Lib.Text.isSpace_of_isAlpha) c
          rw [capitalize, List.map_cons, List.map_cons, hcs, hc]
      exact Lib.Text.strip_congr hspace h.strip

theorem CleanName.continues (h : CleanName n) (s : Text) : Wire.continues (n ++ ':' :: s) = false := by
  cases n with
  | nil => rfl
  | cons c n =>
    have hc := Lib.Text.strip_head h.strip
    have hspace : c ≠ ' ' := by
      rintro rfl
      exact absurd hc (by decide)
    have htab : c ≠ '\t' := by
      rintro rfl
      exact absurd hc (by decide)
    simp [Wire.continues, hspace, htab]

end Names

section Headers
variable {n s l body b : Text} {hs : List SipHeader} {t : HfType} {r r' : Read} {ls : List Text}

theorem addresses_length (s t : Text) :
    ((HfType.addresses s t).map fun b => b.length + 1).sum = s.length + t.length + 1 := by
  induction t generalizing s with
  | nil => rfl
  | cons c t ih =>
    unfold HfType.addresses
    split
    · simp only [List.map_cons, List.sum_cons, ih, List.length_nil, List.length_cons]
      omega
    · rw [ih]
      simp only [List.length_append, List.length_cons, List.length_nil]
      omega

theorem addresses_ne_nil (s t : Text) : HfType.addresses s t ≠ [] := by
  intro h
  have hlen := addresses_length s t
  rw [h] at hlen
  simp at hlen

theorem addresses_single (h : HfType.addresses s l = [b]) : b = s ++ l := by
  induction l generalizing s with
  | nil => simpa [HfType.addresses, eq_comm] using h
  | cons c l ih =>
    unfold HfType.addresses at h
    split at h
    · exact absurd (List.cons.inj h).2 (addresses_ne_nil [] l)
    · rw [ih h, List.append_assoc]
      rfl

theorem bodys_length (t : HfType) (body : Text) :
    ((t.bodys body).map fun b => b.length + 1).sum = body.length + 1 := by
  unfold HfType.bodys
  split
  · exact Lib.Text.splitAll_length ',' body
  all_goals first | (rw [addresses_length]; simp) | simp

theorem bodys_single (h : t.bodys body = [b]) : b = body := by
  unfold HfType.bodys at h
  split at h
  · exact Lib.Text.splitAll_single h
  all_goals first | exact addresses_single h | exact (List.cons.inj h).1.symm

theorem mem_of_mem_addresses {c : Char} (h : b ∈ HfType.addresses s l) (hc : c ∈ b) :
    c ∈ s ∨ c ∈ l := by
  induction l generalizing s with
  | nil =>
    rw [HfType.addresses, List.mem_singleton] at h
    exact .inl (h ▸ hc)
  | cons d l ih =>
    unfold HfType.addresses at h
    split at h
    · rcases List.mem_cons.mp h with rfl | h
      · exact .inl hc
      · rcases ih h with hs | hl
        · exact absurd hs List.not_mem_nil
        · exact .inr (List.mem_cons_of_mem d hl)
    · rcases ih h with hs | hl
      · rcases List.mem_append.mp hs with hs | hd
        · exact .inl hs
        · exact .inr (List.mem_cons.mpr (.inl (List.mem_singleton.mp hd)))
      · exact .inr (List.mem_cons_of_mem d hl)

theorem mem_of_mem_bodys {c : Char} (h : b ∈ t.bodys body) (hc : c ∈ b) : c ∈ body := by
  have haddr (h : b ∈ HfType.addresses [] body) : c ∈ body :=
    (mem_of_mem_addresses h hc).resolve_left List.not_mem_nil
  unfold HfType.bodys at h
  split at h
  · exact Lib.Text.mem_of_mem_splitAll h hc
  all_goals first | exact haddr h | exact List.mem_singleton.mp h ▸ hc

def lineType (n : Text) : HfType := SipHeader.typeOf (lower (strip n))

def lineHeader (n body : Text) : SipHeader := ⟨(lineType n).hfName, .raw (lineType n) body⟩

theorem ofText_ok {h : SipHeader} (hok : SipHeader.ofText (strip n) body = .ok h) :
    h = lineHeader n body := by
  unfold SipHeader.ofText at hok
  dsimp only at hok
  split at hok
  · exact absurd hok (by simp)
  · exact (Except.ok.inj hok).symm

theorem mapM_ok {f : Text → Except ParseExn SipHeader} {g : Text → SipHeader} {bs : List Text}
    (hf : ∀ b h, f b = .ok h → h = g b) (h : bs.mapM f = .ok hs) : hs = bs.map g := by
  induction bs generalizing hs with
  | nil => exact (Except.ok.inj h).symm
  | cons b bs ih =>
    rw [List.mapM_cons] at h
    cases hb : f b with
    | error e =>
      rw [hb] at h
      exact absurd h (by simp [bind, Except.bind])
    | ok x =>
      rw [hb] at h
      cases hbs : bs.mapM f with
      | error e =>
        rw [hbs] at h
        exact absurd h (by simp [bind, Except.bind])
      | ok xs =>
        rw [hbs] at h
        rw [List.map_cons, ← hf b x hb, ← ih hbs]
        exact (Except.ok.inj h).symm

theorem bodys_ne_nil (t : HfType) (body : Text) : t.bodys body ≠ [] := by
  intro h
  have hlen := bodys_length t body
  rw [h] at hlen
  simp at hlen

theorem ofLine_ok (hn : ':' ∉ n) (h : SipHeader.ofLine (n ++ ':' :: s) = .ok hs) :
    hs = ((lineType n).bodys (strip s)).map (lineHeader n) := by
  unfold SipHeader.ofLine at h
  rw [Lib.Text.split1_append hn] at h
  dsimp only at h
  cases hbodys : (lineType n).bodys (strip s) with
  | nil => exact absurd hbodys (bodys_ne_nil _ _)
  | cons b bs =>
    cases bs with
    | nil =>
      have htext : SipHeader.ofText (strip n) (strip s) = .ok (lineHeader n (strip s)) := by
        simp only [SipHeader.ofText, lineHeader, lineType] at hbodys ⊢
        rw [hbodys]
      rw [htext] at h
      rw [bodys_single hbodys]
      exact (Except.ok.inj h).symm
    | cons b' bs =>
      have htext : SipHeader.ofText (strip n) (strip s) = .error (b :: b' :: bs) := by
        simp only [SipHeader.ofText, lineType] at hbodys ⊢
        rw [hbodys]
      rw [htext] at h
      refine mapM_ok (fun body hd hok => ?_) h
      split at hok
      · rename_i header htext'
        cases hok
        exact ofText_ok htext'
      · exact absurd hok (by simp)

theorem ofLine_single (hn : ':' ∉ n) (hone : (lineType n).bodys (strip s) = [b]) :
    SipHeader.ofLine (n ++ ':' :: s) = .ok [lineHeader n (strip s)] := by
  have htext : SipHeader.ofText (strip n) (strip s) = .ok (lineHeader n (strip s)) := by
    simp only [SipHeader.ofText, lineHeader, lineType] at hone ⊢
    rw [hone]
  unfold SipHeader.ofLine
  rw [Lib.Text.split1_append hn]
  dsimp only
  rw [htext]

theorem ofLine_colon (h : SipHeader.ofLine l = .ok hs) : ∃ n s, l = n ++ ':' :: s ∧ ':' ∉ n := by
  unfold SipHeader.ofLine at h
  split at h
  · exact absurd h (by simp)
  · rename_i name bodys hsplit
    refine ⟨name, bodys, Lib.Text.split1_eq hsplit, ?_⟩
    have hclean := Lib.Text.split1_clean ':' l
    rwa [hsplit] at hclean

def SipHeader.pair (la : Option LocalAddr) (h : SipHeader) : Text × Text := (h.name, h.body.localStr la)

/-- The headers that are not about the body. -/
def Kept (h : SipHeader) : Bool := h.name ≠ contentType ∧ h.name ≠ contentLength

theorem foldl_add_kept (hs : List SipHeader) (r : Read) :
    (hs.foldl Read.add r).headers = r.headers ++ hs.filter Kept := by
  induction hs generalizing r with
  | nil => simp
  | cons h hs ih =>
    rw [List.foldl_cons, ih, Read.add]
    split
    · rename_i hname
      simp [Kept, hname]
    · split
      · rename_i hname
        simp [Kept, hname]
      · rename_i hct hcl
        simp [Kept, hct, hcl]

theorem readHeaders_kept (h : readHeaders r ls = .ok r') :
    ∃ hss, List.Forall₂ (fun l hs => SipHeader.ofLine l = .ok hs) ls hss ∧
      r'.headers = r.headers ++ hss.flatten.filter Kept := by
  induction ls generalizing r with
  | nil =>
    cases h
    exact ⟨[], .nil, by simp⟩
  | cons l ls ih =>
    rw [readHeaders] at h
    cases hl : SipHeader.ofLine l with
    | error e =>
      rw [hl] at h
      exact absurd h (by simp)
    | ok hs =>
      rw [hl] at h
      obtain ⟨hss, hlines, hheaders⟩ := ih h
      exact ⟨hs :: hss, .cons hl hlines, by rw [hheaders, foldl_add_kept]; simp⟩

theorem ofLine_clean (hl : Unbroken l) (h : SipHeader.ofLine l = .ok hs) :
    ∀ hd ∈ hs, CleanName hd.name ∧ ∀ la, Unbroken (hd.body.localStr la) := by
  obtain ⟨n, s, rfl, hn⟩ := ofLine_colon h
  obtain ⟨hunbroken, hs'⟩ := Lib.Text.unbroken_append.mp hl
  intro hd hmem
  rw [ofLine_ok hn h] at hmem
  obtain ⟨b, hb, rfl⟩ := List.mem_map.mp hmem
  refine ⟨(cleanName_strip hunbroken hn).lower.typeOf, fun la c hc => ?_⟩
  have hmem : c ∈ strip s := mem_of_mem_bodys hb hc
  exact hs' c (List.mem_cons_of_mem ':' ((Lib.Text.strip_sublist s).subset hmem))

theorem foldLines_unbroken (hl : Unbroken l) (hls : ∀ m ∈ ls, Unbroken m) :
    ∀ m ∈ foldLines l ls, Unbroken m := by
  induction ls generalizing l with
  | nil =>
    intro m hm
    rw [foldLines, List.mem_singleton] at hm
    exact hm ▸ hl
  | cons k ls ih =>
    have hk := hls k List.mem_cons_self
    have hrest := fun m hm => hls m (List.mem_cons_of_mem k hm)
    intro m hm
    rw [foldLines] at hm
    split at hm
    · refine ih (hl.append ?_) hrest m hm
      have hspace : Unbroken [' '] := by decide
      exact hspace.append (unbroken_of_sublist (Lib.Text.strip_sublist k) hk)
    · rcases List.mem_cons.mp hm with rfl | hm
      · exact hl
      · exact ih hk hrest m hm

theorem headerLines_unbroken (hls : ∀ m ∈ ls, Unbroken m) : ∀ m ∈ headerLines ls, Unbroken m := by
  cases ls with
  | nil => exact hls
  | cons l ls =>
    exact foldLines_unbroken (hls l List.mem_cons_self) fun m hm => hls m (List.mem_cons_of_mem l hm)

theorem headerLines_eq (hls : ∀ m ∈ ls, Wire.continues m = false) : headerLines ls = ls := by
  induction ls with
  | nil => rfl
  | cons l ls ih =>
    have hrest := ih fun m hm => hls m (List.mem_cons_of_mem l hm)
    cases ls with
    | nil => rfl
    | cons m ls =>
      have hm := hls m (List.mem_cons_of_mem l List.mem_cons_self)
      have hfold : headerLines (l :: m :: ls) = l :: headerLines (m :: ls) := by
        simp [headerLines, foldLines, hm]
      rw [hfold, hrest]

end Headers

end SippyB2bua.Wire
