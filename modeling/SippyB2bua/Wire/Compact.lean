import SippyB2bua.Wire.Layout
import Mathlib.Data.List.Forall2

/-!
# The compact form

In the compact form the names of eight classes are printed as one letter. The parser
knows the letter of each but `SipSupported`, which prints `k` and is not found under it:
the header comes back as a generic one. All other messages are read alike in both forms,
whatever their values contain.
-/

namespace SippyB2bua.Wire
open Lib (Text)
open Lib.Text (cut crlf splitlines split1 strip lower isLineEnd Unbroken linePieces)

/-- The names that the parser finds in both forms. -/
def compactNames : List (Text × Text) :=
  [("Call-ID".toList, "i".toList), ("Content-Length".toList, "l".toList),
    ("Content-Type".toList, "c".toList), ("Via".toList, "v".toList), ("Contact".toList, "m".toList),
    ("From".toList, "f".toList), ("To".toList, "t".toList)]

def supportedNames : Text × Text := ("Supported".toList, "k".toList)

theorem HfType.getCanName_compact (t : HfType) (name : Text) :
    t.getCanName name true = t.getCanName name false ∨
      (t.getCanName name false, t.getCanName name true) ∈ compactNames ∨
      t = .sipSupported := by
  cases t with
  | sipCallId => exact .inr (.inl (.head _))
  | sipContentLength => exact .inr (.inl (.tail _ (.head _)))
  | sipContentType => exact .inr (.inl (.tail _ (.tail _ (.head _))))
  | sipVia => exact .inr (.inl (.tail _ (.tail _ (.tail _ (.head _)))))
  | sipContact => exact .inr (.inl (.tail _ (.tail _ (.tail _ (.tail _ (.head _))))))
  | sipFrom => exact .inr (.inl (.tail _ (.tail _ (.tail _ (.tail _ (.tail _ (.head _)))))))
  | sipTo => exact .inr (.inl (.tail _ (.tail _ (.tail _ (.tail _ (.tail _ (.tail _ (.head _))))))))
  | sipSupported => exact .inr (.inr rfl)
  | _ => exact .inl rfl

/-- A printed name: no boundary, colon or white space is in it. -/
structure Word (s : Text) : Prop where
  ne_nil : s ≠ []
  unbroken : Unbroken s
  colon : ':' ∉ s
  strip : Lib.Text.strip s = s
  head : continues s = false

instance (s : Text) : Decidable (Word s) :=
  decidable_of_iff (s ≠ [] ∧ Unbroken s ∧ ':' ∉ s ∧ strip s = s ∧ continues s = false)
    ⟨fun ⟨a, b, c, d, e⟩ => ⟨a, b, c, d, e⟩, fun ⟨a, b, c, d, e⟩ => ⟨a, b, c, d, e⟩⟩

-- The characters of the names are written out before the names are read.
theorem word_of_mem : ∀ p ∈ compactNames, Word p.1 ∧ Word p.2 := by
  unfold compactNames
  repeat rewrite [String.toList_ofList]
  decide +kernel

theorem typeOf_compact : ∀ p ∈ compactNames,
    SipHeader.typeOf (lower p.1) = SipHeader.typeOf (lower p.2) := by
  unfold compactNames SipHeader.typeOf hfTypes HfType.hfNames
  repeat rewrite [String.toList_ofList]
  decide +kernel

/-- Two texts that are the same but for names at the start of lines; the flag tells whether a line
starts here. -/
inductive Alike : Bool → Text → Text → Prop
  | nil {b : Bool} : Alike b [] []
  | char {b : Bool} {s t : Text} (c : Char) (h : Alike (c = '\n') s t) : Alike b (c :: s) (c :: t)
  | name {s t : Text} {p : Text × Text} (hp : p ∈ compactNames) (h : Alike false s t) :
      Alike true (p.1 ++ ':' :: s) (p.2 ++ ':' :: t)

def LineAlike (l l' : Text) : Prop :=
  l = l' ∨ ∃ p ∈ compactNames, ∃ r, l = p.1 ++ ':' :: r ∧ l' = p.2 ++ ':' :: r

namespace Alike
variable {b : Bool} {s t a : Text} {c : Char}

theorem weaken (h : Alike false s t) : Alike b s t := by
  cases h with
  | nil => exact .nil
  | char c h => exact .char c h

theorem append (a : Text) (h : Alike false s t) : Alike b (a ++ s) (a ++ t) := by
  induction a generalizing b with
  | nil => exact h.weaken
  | cons c a ih => exact .char c ih

theorem crlf (h : Alike true s t) : Alike b (Lib.Text.crlf ++ s) (Lib.Text.crlf ++ t) :=
  .char '\r' (.char '\n' h)

theorem isPrefixOf_word {w sep : Text} (hw : Word w) (hc : isLineEnd c = true) (s : Text) :
    (c :: sep).isPrefixOf (w ++ s) = false := by
  cases hwc : w with
  | nil => exact absurd hwc hw.ne_nil
  | cons d w' =>
    have hd : isLineEnd d = false := hw.unbroken d (hwc ▸ List.mem_cons_self)
    have hne : c ≠ d := by
      rintro rfl
      exact Bool.false_ne_true (hd.symm.trans hc)
    simp [List.isPrefixOf, hne]

theorem isPrefixOf {sep : Text} (hsep : ∀ c ∈ sep, isLineEnd c = true) (h : Alike b s t) :
    sep.isPrefixOf s = sep.isPrefixOf t := by
  induction sep generalizing b s t with
  | nil => rfl
  | cons c sep ih =>
    have hc := hsep c List.mem_cons_self
    cases h with
    | nil => rfl
    | char d h =>
      have hrest := ih (fun d hd => hsep d (List.mem_cons_of_mem c hd)) h
      simp only [List.isPrefixOf, hrest]
    | name hp h =>
      obtain ⟨h₁, h₂⟩ := word_of_mem _ hp
      rw [isPrefixOf_word h₁ hc, isPrefixOf_word h₂ hc]

theorem cut_word {w sep : Text} (hw : Word w) (hc : isLineEnd c = true) (s : Text) :
    Lib.Text.cut (c :: sep) (w ++ ':' :: s) =
      (Lib.Text.cut (c :: sep) s).map fun p => (w ++ ':' :: p.1, p.2) := by
  have hno : c ∉ w ++ [':'] := by
    intro hmem
    rcases List.mem_append.mp hmem with hmem | hmem
    · exact Bool.false_ne_true ((hw.unbroken c hmem).symm.trans hc)
    · rw [List.mem_singleton.mp hmem] at hc
      exact absurd hc (by decide)
  have hcut := Lib.Text.cut_append hno sep s
  simpa using hcut

theorem cut {sep : Text} (hsep : ∀ d ∈ c :: sep, isLineEnd d = true) (h : Alike b s t) :
    (Lib.Text.cut (c :: sep) s = none ∧ Lib.Text.cut (c :: sep) t = none) ∨
      ∃ a a' r r', Lib.Text.cut (c :: sep) s = some (a, r) ∧
        Lib.Text.cut (c :: sep) t = some (a', r') ∧ Alike b a a' := by
  induction h with
  | nil => exact .inl ⟨rfl, rfl⟩
  | @char b s t d h ih =>
    have hpre := (Alike.char (b := b) d h).isPrefixOf hsep
    unfold Lib.Text.cut
    rw [← hpre]
    cases hfound : (c :: sep).isPrefixOf (d :: s) with
    | true => exact .inr ⟨_, _, _, _, rfl, rfl, .nil⟩
    | false =>
      rcases ih with ⟨hs, ht⟩ | ⟨a, a', r, r', hs, ht, ha⟩
      · exact .inl ⟨by simp [hs], by simp [ht]⟩
      · exact .inr ⟨d :: a, d :: a', r, r', by simp [hs], by simp [ht], .char d ha⟩
  | name hp h ih =>
    obtain ⟨h₁, h₂⟩ := word_of_mem _ hp
    have hc := hsep c List.mem_cons_self
    rw [cut_word h₁ hc, cut_word h₂ hc]
    rcases ih with ⟨hs, ht⟩ | ⟨a, a', r, r', hs, ht, ha⟩
    · exact .inl ⟨by simp [hs], by simp [ht]⟩
    · exact .inr ⟨_, _, r, r', by rw [hs]; rfl, by rw [ht]; rfl, .name hp ha⟩

theorem locateBody (h : Alike b s t) : Alike b (Wire.locateBody s).1 (Wire.locateBody t).1 := by
  have hends : ∀ bdel ∈ bodyDelims, ∃ c sep, bdel = c :: sep ∧ ∀ d ∈ c :: sep, isLineEnd d = true := by
    intro bdel hbdel
    simp only [bodyDelims, List.mem_cons, List.not_mem_nil, or_false] at hbdel
    rcases hbdel with rfl | rfl | rfl
    · exact ⟨_, _, rfl, List.all_eq_true.mp (by decide)⟩
    · exact ⟨_, _, rfl, List.all_eq_true.mp (by decide)⟩
    · exact ⟨_, _, rfl, List.all_eq_true.mp (by decide)⟩
  unfold Wire.locateBody
  generalize bodyDelims = bdels at hends
  induction bdels with
  | nil => exact h
  | cons bdel bdels ih =>
    obtain ⟨c, sep, rfl, hsep⟩ := hends bdel List.mem_cons_self
    rcases h.cut hsep with ⟨hs, ht⟩ | ⟨a, a', r, r', hs, ht, ha⟩
    · simp only [List.findSome?, hs, ht]
      exact ih fun d hd => hends d (List.mem_cons_of_mem _ hd)
    · simpa only [List.findSome?, hs, ht] using ha

end Alike

def LinesAlike (b : Bool) (ls ls' : List Text) : Prop :=
  List.Forall₂ LineAlike ls ls' ∧ (b = false → ls.head? = ls'.head?)

theorem LineAlike.refl (l : Text) : LineAlike l l := .inl rfl

theorem splitlines_word {w s : Text} (hw : Word w) : splitlines (w ++ ':' :: s) =
    match splitlines s with
    | [] => [w ++ [':']]
    | l :: ls => (w ++ ':' :: l) :: ls := by
  have hcolon : Unbroken [':'] := by decide
  have h := Lib.Text.splitlines_start (s := s) (hw.unbroken.append hcolon) (by simp)
  rw [List.append_assoc] at h
  rw [show w ++ ':' :: s = w ++ ([':'] ++ s) from rfl, h]
  cases splitlines s <;> simp

theorem Alike.splitlines {b : Bool} {s t : Text} (h : Alike b s t) :
    LinesAlike b (splitlines s) (splitlines t) := by
  induction h with
  | nil => exact ⟨.nil, fun _ => rfl⟩
  | @char b s t c h ih =>
    obtain ⟨hlines, hhead⟩ := ih
    cases hc : isLineEnd c with
    | false =>
      have hnl : decide (c = '\n') = false := by
        rw [decide_eq_false_iff_not]
        rintro rfl
        exact Bool.false_ne_true (hc.symm.trans Lib.Text.isLineEnd_lf)
      rw [Lib.Text.splitlines_cons hc, Lib.Text.splitlines_cons hc]
      specialize hhead hnl
      generalize Lib.Text.splitlines s = ls at hlines hhead
      generalize Lib.Text.splitlines t = ls' at hlines hhead
      cases hlines with
      | nil => exact ⟨.cons (.refl _) .nil, fun _ => rfl⟩
      | cons hl hls =>
        cases hhead
        exact ⟨.cons (.refl _) hls, fun _ => rfl⟩
    | true =>
      by_cases hcrlf : c = '\r' ∧ ∃ s', s = '\n' :: s'
      · obtain ⟨rfl, s', rfl⟩ := hcrlf
        cases h with
        | char _ h =>
          rw [Lib.Text.splitlines_cr_lf, Lib.Text.splitlines_cr_lf]
          exact ⟨hlines, fun _ => hhead (by decide)⟩
      · have hcr (cs : Text) (h₁ : c = '\r') (h₂ : s = '\n' :: cs) : False := hcrlf ⟨h₁, cs, h₂⟩
        have hcr' (cs : Text) (h₁ : c = '\r') (h₂ : t = '\n' :: cs) : False := by
          subst h₁ h₂
          cases h with
          | char _ h => exact hcr _ rfl rfl
        rw [Lib.Text.splitlines_break hc hcr, Lib.Text.splitlines_break hc hcr']
        exact ⟨.cons (.refl []) hlines, fun _ => rfl⟩
  | @name s t p hp h ih =>
    obtain ⟨hlines, hhead⟩ := ih
    obtain ⟨h₁, h₂⟩ := word_of_mem p hp
    rw [splitlines_word h₁, splitlines_word h₂]
    specialize hhead rfl
    generalize Lib.Text.splitlines s = ls at hlines hhead
    generalize Lib.Text.splitlines t = ls' at hlines hhead
    cases hlines with
    | nil => exact ⟨.cons (.inr ⟨p, hp, [], rfl, rfl⟩) .nil, fun hb => absurd hb (by decide)⟩
    | cons hl hls =>
      cases hhead
      exact ⟨.cons (.inr ⟨p, hp, _, rfl, rfl⟩) hls, fun hb => absurd hb (by decide)⟩

section Reading
variable {l l' : Text} {ls ls' : List Text}

theorem LineAlike.append (h : LineAlike l l') (s : Text) : LineAlike (l ++ s) (l' ++ s) := by
  rcases h with rfl | ⟨p, hp, r, rfl, rfl⟩
  · exact .refl _
  · exact .inr ⟨p, hp, r ++ s, by simp, by simp⟩

theorem continues_word {w : Text} (hw : Word w) (s : Text) : continues (w ++ s) = false := by
  have hhead := hw.head
  cases w with
  | nil => exact absurd rfl hw.ne_nil
  | cons c w => exact hhead

theorem LineAlike.continues (h : LineAlike l l') :
    (Wire.continues l = false ∧ Wire.continues l' = false) ∨ l = l' := by
  rcases h with rfl | ⟨p, hp, r, rfl, rfl⟩
  · exact .inr rfl
  · obtain ⟨h₁, h₂⟩ := word_of_mem p hp
    exact .inl ⟨continues_word h₁ _, continues_word h₂ _⟩

theorem foldLines_alike (hl : LineAlike l l') (hls : List.Forall₂ LineAlike ls ls') :
    List.Forall₂ LineAlike (foldLines l ls) (foldLines l' ls') := by
  induction hls generalizing l l' with
  | nil => exact .cons hl .nil
  | @cons m m' ms ms' hm hms ih =>
    rw [foldLines, foldLines]
    rcases hm.continues with ⟨h₁, h₂⟩ | rfl
    · rw [h₁, h₂]
      exact .cons hl (ih hm)
    · cases Wire.continues m with
      | true => exact ih (hl.append _)
      | false => exact .cons hl (ih hm)

theorem headerLines_alike (h : List.Forall₂ LineAlike ls ls') :
    List.Forall₂ LineAlike (headerLines ls) (headerLines ls') := by
  cases h with
  | nil => exact .nil
  | cons hl hls => exact foldLines_alike hl hls

theorem split1_word {w : Text} (h : ':' ∉ w) (s : Text) :
    split1 ':' (w ++ ':' :: s) = (w, some s) := by
  induction w with
  | nil => rfl
  | cons c w ih =>
    have hc : c ≠ ':' := fun hc => h (hc ▸ List.mem_cons_self)
    rw [List.cons_append, split1, if_neg hc, ih fun hw => h (List.mem_cons_of_mem c hw)]

theorem LineAlike.ofLine (h : LineAlike l l') : SipHeader.ofLine l = SipHeader.ofLine l' := by
  rcases h with rfl | ⟨p, hp, r, rfl, rfl⟩
  · rfl
  · obtain ⟨h₁, h₂⟩ := word_of_mem p hp
    have htext (bodys : Text) : SipHeader.ofText p.1 bodys = SipHeader.ofText p.2 bodys := by
      simp only [SipHeader.ofText, typeOf_compact p hp]
    unfold SipHeader.ofLine
    rw [split1_word h₁.colon, split1_word h₂.colon]
    simp only [h₁.strip, h₂.strip, htext]

theorem readHeaders_alike (h : List.Forall₂ LineAlike ls ls') (r : Read) :
    readHeaders r ls = readHeaders r ls' := by
  induction h generalizing r with
  | nil => rfl
  | cons hl hls ih =>
    rw [readHeaders, readHeaders, hl.ofLine]
    cases SipHeader.ofLine _ with
    | error e => rfl
    | ok hs => exact ih _

end Reading

def headersOf (r : StartLine × Read × Option Text) : List SipHeader := r.2.1.headers

theorem Alike.init {s t : Text} (h : Alike false s t) (url : Text → Bool) (cls : MsgClass) :
    (SipMsg.init url cls s).map headersOf = (SipMsg.init url cls t).map headersOf := by
  obtain ⟨hlines, hhead⟩ := h.locateBody.splitlines
  rw [init_eq, init_eq]
  specialize hhead rfl
  generalize Lib.Text.splitlines (Wire.locateBody s).1 = ls at hlines hhead ⊢
  generalize Lib.Text.splitlines (Wire.locateBody t).1 = ls' at hlines hhead ⊢
  have hread : readLines url cls ls = readLines url cls ls' := by
    cases hlines with
    | nil => rfl
    | cons hl hls =>
      cases hhead
      rw [readLines, readLines, readHeaders_alike (headerLines_alike hls)]
  rw [hread]
  cases readLines url cls ls' <;> rfl

section Forms
variable {la : Option LocalAddr} {m : SipMsg} {h : SipHeader}

abbrev ordinary (la : Option LocalAddr) : SipMsg.Form := .localStr la false
abbrev compact (la : Option LocalAddr) : SipMsg.Form := .localStr la true

theorem lineAlike_names {n n' : Text} (h : n' = n ∨ (n, n') ∈ compactNames) (s : Text) :
    LineAlike (n ++ ':' :: s) (n' ++ ':' :: s) := by
  rcases h with rfl | h
  · exact .refl _
  · exact .inr ⟨(n, n'), h, s, rfl, rfl⟩

theorem line_alike (hh : h.body.type ≠ .sipSupported) :
    LineAlike (SipMsg.line (ordinary la) h) (SipMsg.line (compact la) h) := by
  have hnames := h.body.type.getCanName_compact h.name
  rw [← or_assoc, or_iff_left hh] at hnames
  have hline := lineAlike_names hnames (' ' :: h.body.localStr la)
  simpa [SipMsg.line, SipHeader.localStr, SipHeader.canName, SipMsg.Form.localAddr,
    SipMsg.Form.compact] using hline

theorem trailer_alike (la : Option LocalAddr) (m : SipMsg) :
    List.Forall₂ LineAlike (m.trailer (ordinary la)).1 (m.trailer (compact la)).1 := by
  have htype : (SipMsg.typeName false, SipMsg.typeName true) ∈ compactNames := by decide
  have hlength : (SipMsg.lengthName false, SipMsg.lengthName true) ∈ compactNames := by decide
  unfold SipMsg.trailer
  cases m.body with
  | none => exact .cons (lineAlike_names (.inr hlength) _) .nil
  | some b =>
    have hl := lineAlike_names (.inr hlength) (' ' :: Lib.Text.str (b.localStr la).length)
    have ht := lineAlike_names (.inr htype) (' ' :: b.mtype)
    refine .cons ?_ (.cons ?_ .nil)
    · rw [List.append_assoc]
      exact ht
    · rw [List.append_assoc]
      exact hl

theorem trailer_body (la : Option LocalAddr) (m : SipMsg) : (m.trailer (ordinary la)).2 = (m.trailer (compact la)).2 := by
  unfold SipMsg.trailer
  cases m.body <;> rfl

theorem headers_alike (la : Option LocalAddr) {hs : List SipHeader}
    (hhs : ∀ h ∈ hs, h.body.type ≠ .sipSupported) :
    List.Forall₂ LineAlike (hs.map (SipMsg.line (ordinary la))) (hs.map (SipMsg.line (compact la))) := by
  rw [List.forall₂_map_left_iff, List.forall₂_map_right_iff, List.forall₂_same]
  exact fun h hh => line_alike (hhs h hh)

theorem Alike.lines {ls ls' : List Text} {s t : Text} (hls : List.Forall₂ LineAlike ls ls')
    (h : Alike true s t) :
    Alike true (ls.flatMap (fun l => l ++ Lib.Text.crlf) ++ s)
      (ls'.flatMap (fun l => l ++ Lib.Text.crlf) ++ t) := by
  induction hls with
  | nil => exact h
  | cons hl hls ih =>
    rw [List.flatMap_cons, List.flatMap_cons, List.append_assoc, List.append_assoc,
      List.append_assoc, List.append_assoc]
    rcases hl with rfl | ⟨p, hp, r, rfl, rfl⟩
    · exact .append _ (.crlf ih)
    · rw [List.append_assoc, List.append_assoc]
      exact .name hp (.append r (.crlf ih))

/-- Without `SipSupported` the printed forms are alike. -/
theorem print_alike (hm : ∀ h ∈ m.headers, h.body.type ≠ .sipSupported) :
    Alike false (m.print (ordinary la)) (m.print (compact la)) := by
  have hlines := List.rel_append (headers_alike la hm) (trailer_alike la m)
  have hbody : Alike true (crlf ++ (m.trailer (ordinary la)).2)
      (crlf ++ (m.trailer (compact la)).2) := by
    rw [trailer_body]
    have hnil : Alike false [] [] := .nil
    simpa using Alike.append (b := true) (crlf ++ (m.trailer (compact la)).2) hnil
  have hprint := Alike.append (b := false) (m.startLine la).getSL (.crlf (.lines hlines hbody))
  rw [print_eq, print_eq]
  simpa [SipMsg.Form.localAddr] using hprint

end Forms

section Lost
variable {url : Text → Bool} {cls : MsgClass} {la : Option LocalAddr} {m : SipMsg}

/-- No CR is in what stands before the body. -/
structure Clean (la : Option LocalAddr) (m : SipMsg) : Prop where
  startLine : '\r' ∉ (m.startLine la).getSL
  headers : ∀ h ∈ m.headers, '\r' ∉ h.name ∧ '\r' ∉ h.body.localStr la
  mtype : ∀ b ∈ m.body, '\r' ∉ b.mtype

theorem cr_not_mem_str (n : ℕ) : '\r' ∉ Lib.Text.str n := fun h =>
  absurd (Nat.isDigit_of_mem_toDigits (by decide) (by decide) h) (by decide)

theorem Clean.lines (hm : Clean la m) (compact : Bool) :
    ∀ l ∈ (m.startLine la).getSL :: (m.headers.map (SipMsg.line (.localStr la compact)) ++
      (m.trailer (.localStr la compact)).1), '\r' ∉ l := by
  intro l hl
  rw [List.mem_cons, List.mem_append] at hl
  rcases hl with rfl | hl | hl
  · exact hm.startLine
  · obtain ⟨h, hh, rfl⟩ := List.mem_map.mp hl
    obtain ⟨hname, hbody⟩ := hm.headers h hh
    have hprinted : ∀ n ∈ printedNames, '\r' ∉ n := by
      unfold printedNames classNames
      simp only [List.map_cons, List.map_nil]
      repeat rewrite [String.toList_ofList]
      decide +kernel
    have hcan : '\r' ∉ h.canName compact :=
      not_mem_getCanName (by decide) hprinted h.body.type hname compact
    have hsep : '\r' ∉ ": ".toList := by decide
    simp only [SipMsg.line, SipHeader.localStr, List.mem_append, not_or]
    exact ⟨⟨hcan, hsep⟩, hbody⟩
  · have hzero : '\r' ∉ SipMsg.lengthName compact ++ ": 0".toList := by
      cases compact <;> decide
    have htype : '\r' ∉ SipMsg.typeName compact ++ ": ".toList := by
      cases compact <;> decide
    have hlength : '\r' ∉ SipMsg.lengthName compact ++ ": ".toList := by
      cases compact <;> decide
    unfold SipMsg.trailer at hl
    cases hb : m.body with
    | none =>
      rw [hb] at hl
      rw [List.mem_singleton.mp hl]
      exact hzero
    | some b =>
      rw [hb] at hl
      rcases List.mem_cons.mp hl with rfl | hl
      · exact fun h => (List.mem_append.mp h).elim htype (hm.mtype b hb)
      · rw [List.mem_singleton.mp hl]
        exact fun h => (List.mem_append.mp h).elim hlength (cr_not_mem_str _)

/-- A name that the parser takes for a header other than those of the body, with one value. -/
structure Single (w : Text) : Prop where
  word : Word w
  bodys : ∀ b, (SipHeader.typeOf (lower w)).bodys b = [b]
  type : (SipHeader.typeOf (lower w)).hfName ≠ contentType
  length : (SipHeader.typeOf (lower w)).hfName ≠ contentLength

/-- The header that such a name makes stands between those of the lines before and after. -/
theorem read_single {w x p₀ : Text} {front rest : List Text} {sl : StartLine} {r : Read}
    (hw : Single w) (h : readLines url cls (p₀ :: (front ++ (w ++ ':' :: x) :: rest)) = .ok (sl, r)) :
    ∃ r₁ hd new, readHeaders .start (headerLines front) = .ok r₁ ∧
      hd.name = (SipHeader.typeOf (lower w)).hfName ∧ r.headers = r₁.headers ++ hd :: new := by
  obtain ⟨-, hread, -⟩ := readLines_ok.mp h
  obtain ⟨more, lines, hfold⟩ := foldLines_eq (w ++ ':' :: x) rest
  rw [headerLines_append (continues_word hw.word _), readHeaders_append] at hread
  cases hfront : readHeaders .start (headerLines front) with
  | error e =>
    rw [hfront] at hread
    exact absurd hread (by simp [Except.bind])
  | ok r₁ =>
    rw [hfront] at hread
    have hline : SipHeader.ofLine (w ++ ':' :: (x ++ more)) = .ok
        [⟨(SipHeader.typeOf (lower w)).hfName, .raw (SipHeader.typeOf (lower w)) (strip (x ++ more))⟩] := by
      unfold SipHeader.ofLine
      rw [split1_word hw.word.colon]
      simp only [SipHeader.ofText, hw.word.strip, hw.bodys]
    rw [show w ++ ':' :: x ++ more = w ++ ':' :: (x ++ more) by simp] at hfold
    have hread' : readHeaders r₁ ((w ++ ':' :: (x ++ more)) :: lines) = .ok r := by
      rw [← hfold]
      exact hread
    rw [readHeaders, hline] at hread'
    obtain ⟨new, hnew⟩ := readHeaders_headers hread'
    refine ⟨r₁, ⟨(SipHeader.typeOf (lower w)).hfName,
      .raw (SipHeader.typeOf (lower w)) (strip (x ++ more))⟩, new, rfl, rfl, ?_⟩
    rw [hnew, List.foldl_cons, List.foldl_nil, Read.add, if_neg hw.type, if_neg hw.length]
    simp

theorem linePieces_word {w : Text} (hw : Word w) (s : Text) :
    ∃ x more, linePieces (w ++ ':' :: s) = (w ++ ':' :: x) :: more := by
  unfold linePieces
  rw [List.append_assoc, List.cons_append, splitlines_word hw]
  cases splitlines (s ++ crlf) with
  | nil => exact ⟨[], [], rfl⟩
  | cons l ls => exact ⟨l, ls, rfl⟩

theorem typeOf_supportedNames :
    SipHeader.typeOf (lower supportedNames.1) = .sipSupported ∧
      SipHeader.typeOf (lower supportedNames.2) = .sipGenericHF supportedNames.2 := by
  unfold supportedNames SipHeader.typeOf hfTypes HfType.hfNames
  repeat rewrite [String.toList_ofList]
  decide +kernel

theorem single_supported : Single supportedNames.1 := by
  have hword : Word supportedNames.1 := by decide +kernel
  have htype := typeOf_supportedNames.1
  refine ⟨hword, ?_, ?_, ?_⟩ <;> rw [htype]
  · exact fun b => rfl
  · decide
  · decide

theorem single_k : Single supportedNames.2 := by
  have hword : Word supportedNames.2 := by decide +kernel
  have htype := typeOf_supportedNames.2
  refine ⟨hword, ?_, ?_, ?_⟩ <;> rw [htype]
  · exact fun b => rfl
  · decide
  · decide

theorem linePieces_alike {ls ls' : List Text} (h : List.Forall₂ LineAlike ls ls') :
    List.Forall₂ LineAlike (ls.flatMap linePieces) (ls'.flatMap linePieces) := by
  induction h with
  | nil => exact .nil
  | @cons l l' ls ls' hl hls ih =>
    have hcrlf : Alike true (l ++ crlf) (l' ++ crlf) := by
      have hlines := Alike.lines (.cons hl .nil) (.nil (b := true))
      simpa using hlines
    rw [List.flatMap_cons, List.flatMap_cons]
    exact List.rel_append hcrlf.splitlines.1 ih

theorem line_supported (la : Option LocalAddr) {h : SipHeader} (hh : h.body.type = .sipSupported) :
    SipMsg.line (ordinary la) h = supportedNames.1 ++ ':' :: ' ' :: h.body.localStr la ∧
      SipMsg.line (compact la) h = supportedNames.2 ++ ':' :: ' ' :: h.body.localStr la := by
  unfold SipMsg.line SipHeader.localStr SipHeader.canName
  rw [hh]
  exact ⟨rfl, rfl⟩

theorem supported_read (form : SipMsg.Form) {front back : List SipHeader} {h : SipHeader} {w s : Text}
    {sl : StartLine} {r : Read} (hm : m.headers = front ++ h :: back)
    (hlines : ∀ l ∈ (m.startLine form.localAddr).getSL :: (m.headers.map (SipMsg.line form) ++
      (m.trailer form).1), '\r' ∉ l)
    (hw : Single w) (hline : SipMsg.line form h = w ++ ':' :: s) {p₀ : Text} {more : List Text}
    (hstart : linePieces (m.startLine form.localAddr).getSL = p₀ :: more)
    (hread : readLines url cls (splitlines (locateBody (m.print form)).1) = .ok (sl, r)) :
    ∃ r₁ hd new, readHeaders .start
        (headerLines (more ++ (front.map (SipMsg.line form)).flatMap linePieces)) = .ok r₁ ∧
      hd.name = (SipHeader.typeOf (lower w)).hfName ∧ r.headers = r₁.headers ++ hd :: new := by
  obtain ⟨rest, haround⟩ := lines_around hm hlines
  obtain ⟨x, after, hpieces⟩ := linePieces_word hw.word s
  rw [haround, hstart, hline, hpieces] at hread
  have hlist : readLines url cls (p₀ :: ((more ++ (front.map (SipMsg.line form)).flatMap linePieces) ++
      (w ++ ':' :: x) :: (after ++ rest))) = .ok (sl, r) := by
    simpa using hread
  exact read_single hw hlist

theorem supported_lost (hclean : Clean la m) (hsup : ∃ h ∈ m.headers, h.body.type = .sipSupported)
    {p : StartLine × Read × Option Text}
    (hread : SipMsg.init url cls (m.print (ordinary la)) = .ok p) :
    (SipMsg.init url cls (m.print (compact la))).map headersOf ≠
      (SipMsg.init url cls (m.print (ordinary la))).map headersOf := by
  have hfind : (m.headers.find? fun h => h.body.type = .sipSupported).isSome := by
    simpa [List.find?_isSome] using hsup
  obtain ⟨h, hh⟩ := Option.isSome_iff_exists.mp hfind
  obtain ⟨hh, front, back, hm, hfront⟩ := List.find?_eq_some_iff_append.mp hh
  simp only [decide_eq_true_eq, Bool.not_eq_true', decide_eq_false_iff_not] at hh hfront
  obtain ⟨p₀, more, hstart⟩ := List.exists_cons_of_ne_nil
    (Lib.Text.linePieces_ne_nil (l := (m.startLine la).getSL))
  obtain ⟨hline, hline'⟩ := line_supported la hh
  intro heq
  rw [init_eq, init_eq] at heq
  rw [init_eq] at hread
  cases hplain : readLines url cls (splitlines (locateBody (m.print (ordinary la))).1) with
  | error e =>
    rw [hplain] at hread
    exact absurd hread (by simp [Except.map])
  | ok q =>
    rw [hplain] at heq
    cases hcompact : readLines url cls (splitlines (locateBody (m.print (compact la))).1) with
    | error e =>
      rw [hcompact] at heq
      exact absurd heq (by simp [Except.map])
    | ok q' =>
      rw [hcompact] at heq
      obtain ⟨r₁, hd, new, hr₁, hname, hheaders⟩ :=
        supported_read (ordinary la) hm (hclean.lines false) single_supported hline hstart hplain
      obtain ⟨r₁', hd', new', hr₁', hname', hheaders'⟩ :=
        supported_read (compact la) hm (hclean.lines true) single_k hline' hstart hcompact
      have halike := headerLines_alike (List.rel_append
        (List.forall₂_same.mpr fun l _ => LineAlike.refl l : List.Forall₂ LineAlike more more)
        (linePieces_alike (headers_alike la hfront)))
      have hsame : r₁ = r₁' := Except.ok.inj (hr₁.symm.trans ((readHeaders_alike halike _).trans hr₁'))
      have hlists : q'.2.headers = q.2.headers := Except.ok.inj heq
      rw [hheaders, hheaders', hsame] at hlists
      have hhd : hd' = hd := (List.cons.inj (List.append_cancel_left hlists)).1
      have hnames : (SipHeader.typeOf (lower supportedNames.1)).hfName =
          (SipHeader.typeOf (lower supportedNames.2)).hfName := by
        rw [← hname, ← hname', hhd]
      rw [typeOf_supportedNames.1, typeOf_supportedNames.2] at hnames
      exact absurd hnames (by decide +kernel)

/-- The parser knows every name of the compact form but one. -/
theorem typeOf_getCanName (t : HfType) (name : Text) (h : t.getCanName name true ≠ t.getCanName name false) :
    SipHeader.typeOf (lower (t.getCanName name true)) = t ↔ t ≠ .sipSupported := by
  cases t with
  | sipCallId | sipFrom | sipTo | sipVia | sipContentLength | sipContentType | sipContact
  | sipSupported =>
    unfold HfType.getCanName
    dsimp only
    unfold SipHeader.typeOf hfTypes HfType.hfNames
    repeat rewrite [String.toList_ofList]
    decide +kernel
  | _ => exact absurd rfl h

theorem compact_same (url : Text → Bool) (cls : MsgClass) (la : Option LocalAddr) (m : SipMsg) :
    (∀ (t : HfType) (name : Text), t.getCanName name true ≠ t.getCanName name false →
      (SipHeader.typeOf (lower (t.getCanName name true)) = t ↔ t ≠ .sipSupported)) ∧
    ((∀ h ∈ m.headers, h.body.type ≠ .sipSupported) →
      (SipMsg.init url cls (m.print (compact la))).map headersOf =
        (SipMsg.init url cls (m.print (ordinary la))).map headersOf) ∧
    (Clean la m → (∃ p, SipMsg.init url cls (m.print (ordinary la)) = .ok p) →
      ((SipMsg.init url cls (m.print (compact la))).map headersOf =
        (SipMsg.init url cls (m.print (ordinary la))).map headersOf ↔
        ∀ h ∈ m.headers, h.body.type ≠ .sipSupported)) := by
  have hsame (hm : ∀ h ∈ m.headers, h.body.type ≠ .sipSupported) :
      (SipMsg.init url cls (m.print (compact la))).map headersOf =
        (SipMsg.init url cls (m.print (ordinary la))).map headersOf :=
    ((print_alike hm).init url cls).symm
  refine ⟨typeOf_getCanName, hsame, fun hclean ⟨p, hp⟩ => ⟨fun heq h hh htype => ?_, hsame⟩⟩
  exact supported_lost hclean ⟨h, hh, htype⟩ hp heq

/-- A request with a `Supported` header. -/
def optionsMsg : SipMsg where
  startLine := fun _ => .request "OPTIONS".toList "sip:a@h".toList "SIP/2.0".toList
  headers :=
    [⟨"via".toList, .raw .sipVia "SIP/2.0/UDP h".toList⟩, ⟨"from".toList, .raw .sipFrom "<sip:b@h>".toList⟩,
      ⟨"to".toList, .raw .sipTo "<sip:a@h>".toList⟩, ⟨"cseq".toList, .raw .sipCSeq "1 OPTIONS".toList⟩,
      ⟨"supported".toList, .raw .sipSupported "timer".toList⟩]
  body := none

theorem supported_under_k :
    (SipMsg.init (fun _ => true) .sipRequest (optionsMsg.print (ordinary none))).isOk = true ∧
    ¬ (SipMsg.init (fun _ => true) .sipRequest (optionsMsg.print (compact none))).map headersOf =
      (SipMsg.init (fun _ => true) .sipRequest (optionsMsg.print (ordinary none))).map headersOf := by
  obtain ⟨hread, hnames⟩ :
      (SipMsg.init (fun _ => true) .sipRequest (optionsMsg.print (ordinary none))).isOk = true ∧
      ((SipMsg.init (fun _ => true) .sipRequest (optionsMsg.print (compact none))).map headersOf).map
          (List.map SipHeader.name) ≠
        ((SipMsg.init (fun _ => true) .sipRequest (optionsMsg.print (ordinary none))).map headersOf).map
          (List.map SipHeader.name) := by
    decide +kernel
  exact ⟨hread, fun heq => hnames (congrArg (Except.map (List.map SipHeader.name)) heq)⟩

end Lost

end SippyB2bua.Wire
