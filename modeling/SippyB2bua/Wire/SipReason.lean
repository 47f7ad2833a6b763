import SippyB2bua.Lib.Lines
import SippyB2bua.Lib.Trim
import SippyB2bua.Wire.Header

/-!
# The Reason header

The loop of the parser takes one parameter after the other off the text. What it leaves is always shorter
than what it was given, so it ends. A header of the grammar has a cause, perhaps a text in quotes, and any
further parameters; white space may be on both sides of each `;` and each `=`.
-/

namespace SippyB2bua.Wire
open Lib (Text)
open Lib.Text (isSpace lstrip rstrip strip split1 int ofInt)

inductive ReasonExn
  | valueError | assertionError
  deriving DecidableEq

structure SipReason where
  protocol : Text
  cause : ℤ
  reason : Option Text
  deriving DecidableEq

namespace SipReason

/-- The fields that the parameters set. -/
structure Read where
  cause : Option ℤ
  reason : Option Text
  deriving DecidableEq

def after (sep : Char) (s : Text) : Text := (split1 sep s).2.getD []

/-- One round of the loop; the text starts with a character that is not white space. -/
def turn (r : Read) (s : Text) : Except ReasonExn (Read × Text) :=
  let rpName := (split1 '=' s).1
  let reasonParams := lstrip (after '=' s)
  if ¬ (rpName = "cause".toList ∨ rpName = "text".toList) then .error .assertionError
  else if rpName = "text".toList ∧ reasonParams.head? = some '"' then
    .ok ({ r with reason := some (split1 '"' reasonParams.tail).1 }, after ';' (after '"' reasonParams.tail))
  else if rpName = "cause".toList then
    match int (split1 ';' reasonParams).1 with
    | none => .error .valueError
    | some n => .ok ({ r with cause := some n }, after ';' reasonParams)
  else .ok ({ r with reason := some (split1 ';' reasonParams).1 }, after ';' reasonParams)

theorem after_length (sep : Char) (s : Text) : (after sep s).length ≤ s.length := by
  unfold after
  cases h : (split1 sep s).2 with
  | none => exact Nat.zero_le _
  | some t =>
    have heq : s = (split1 sep s).1 ++ sep :: t := Lib.Text.split1_eq (Prod.ext rfl h)
    have hlen := congrArg List.length heq
    simp only [List.length_append, List.length_cons] at hlen
    rw [Option.getD_some]
    omega

theorem lstrip_length (s : Text) : (lstrip s).length ≤ s.length := (List.dropWhile_sublist _).length_le

theorem turn_length {r r' : Read} {s t : Text} (h : turn r s = .ok (r', t)) : t.length < s.length := by
  have hname : (split1 '=' s).1 = "cause".toList ∨ (split1 '=' s).1 = "text".toList → (after '=' s).length < s.length := by
    intro hn
    have hpos : 0 < (split1 '=' s).1.length := by
      rcases hn with hn | hn
      · rw [hn]
        decide
      · rw [hn]
        decide
    unfold after
    have helim := congrArg List.length (Lib.Text.elim_split1 '=' s)
    rw [List.length_append] at helim
    cases hs : (split1 '=' s).2 with
    | none =>
      rw [hs] at helim
      simp only [Option.elim_none, List.length_nil, Option.getD_none] at helim ⊢
      omega
    | some v =>
      rw [hs] at helim
      simp only [Option.elim_some, List.length_cons, Option.getD_some] at helim ⊢
      omega
  have hstrip := lstrip_length (after '=' s)
  have htail : (lstrip (after '=' s)).tail.length ≤ (lstrip (after '=' s)).length := by
    rw [List.length_tail]
    omega
  unfold turn at h
  dsimp only at h
  split_ifs at h with hn hq hc
  · cases h
    have h₁ := after_length ';' (after '"' (lstrip (after '=' s)).tail)
    have h₂ := after_length '"' (lstrip (after '=' s)).tail
    have h₃ := hname hn
    omega
  · have h₁ := after_length ';' (lstrip (after '=' s))
    have h₃ := hname hn
    split at h
    · exact nomatch h
    · cases h
      omega
  · cases h
    have h₁ := after_length ';' (lstrip (after '=' s))
    have h₃ := hname hn
    omega

/-- The loop of `parse`. -/
def params (r : Read) (s : Text) : Except ReasonExn Read :=
  if lstrip s = [] then .ok r
  else
    match _h : turn r (lstrip s) with
    | .error e => .error e
    | .ok (r', t) => params r' t
termination_by s.length
decreasing_by
  have hlt := turn_length _h
  have hle := lstrip_length s
  omega

def parse (body : Text) : Except ReasonExn SipReason :=
  match split1 ';' body with
  | (_, none) => .error .valueError
  | (protocol, some reasonParams) =>
    match params ⟨none, none⟩ reasonParams with
    | .error e => .error e
    | .ok ⟨none, _⟩ => .error .assertionError
    | .ok ⟨some cause, reason⟩ => .ok ⟨strip protocol, cause, reason⟩

def str (r : SipReason) : Text :=
  r.protocol ++ "; cause=".toList ++ ofInt r.cause ++ r.reason.elim [] fun t => "; text=\"".toList ++ t ++ ['"']

/-- `event.reason_rfc3326 = req.getHFBody('reason')`; what that raises is passed over. -/
def ofRequest (bodys : List Text) : Option SipReason :=
  bodys.head?.bind fun body => (parse body).toOption

def getExtraHeaders (reason : Option SipReason) : List SipHeader :=
  reason.toList.map fun r => ⟨HfType.sipReason.hfName, .sipReason, fun _ => r.str⟩

theorem params_nil {r : Read} {s : Text} (h : lstrip s = []) : params r s = .ok r := by
  rw [params, if_pos h]

theorem params_ok {r r' : Read} {s t : Text} (hne : lstrip s ≠ []) (h : turn r (lstrip s) = .ok (r', t)) :
    params r s = params r' t := by
  rw [params, if_neg hne]
  split
  · rename_i e he
    exact nomatch h.symm.trans he
  · rename_i hok
    cases h.symm.trans hok
    rfl

theorem params_error {r : Read} {s : Text} {e : ReasonExn} (hne : lstrip s ≠ []) (h : turn r (lstrip s) = .error e) :
    params r s = .error e := by
  rw [params, if_neg hne]
  split
  · rename_i he
    cases h.symm.trans he
    rfl
  · rename_i hok
    exact nomatch h.symm.trans hok

end SipReason

structure Blank where
  text : Text
  space : ∀ c ∈ text, isSpace c = true

structure Token where
  text : Text
  ne_nil : text ≠ []
  chars : ∀ c ∈ text, isSpace c = false ∧ c ≠ ';' ∧ c ≠ '=' ∧ c ≠ '"'

/-- A parameter, with the white space around its `=`. -/
inductive ReasonParam
  | cause (gap gap' : Blank) (digits : Text) (n : ℤ) (h : int digits = some n)
  | text (gap gap' : Blank) (value : Text) (h : '"' ∉ value)
  | extension (name : Token) (h : name.text ≠ "cause".toList ∧ name.text ≠ "text".toList) (value : Option (Blank × Text))

/-- A parameter and the white space between it and the `;` on either side. -/
structure ReasonField where
  lead : Blank
  param : ReasonParam
  trail : Blank

/-- A header of the grammar. -/
structure ReasonHeader where
  protocol : Token
  trail : Blank
  fields : List ReasonField

namespace ReasonParam

def str : ReasonParam → Text
  | cause gap gap' digits _ _ => "cause".toList ++ gap.text ++ '=' :: gap'.text ++ digits
  | text gap gap' value _ => "text".toList ++ gap.text ++ '=' :: gap'.text ++ '"' :: value ++ ['"']
  | extension name _ value => name.text ++ value.elim [] fun v => v.1.text ++ '=' :: v.2

section Str
variable {gap gap' : Blank} {name : Token}

@[simp] theorem str_cause {digits : Text} {n : ℤ} (h : int digits = some n) :
    (cause gap gap' digits n h).str = "cause".toList ++ gap.text ++ '=' :: gap'.text ++ digits := rfl

@[simp] theorem str_text {value : Text} (h : '"' ∉ value) :
    (text gap gap' value h).str = "text".toList ++ gap.text ++ '=' :: gap'.text ++ '"' :: value ++ ['"'] := rfl

@[simp] theorem str_extension (h : name.text ≠ "cause".toList ∧ name.text ≠ "text".toList)
    (value : Option (Blank × Text)) :
    (extension name h value).str = name.text ++ value.elim [] fun v => v.1.text ++ '=' :: v.2 := rfl

end Str

/-- A cause or a text with no white space before its `=`. -/
def Plain : ReasonParam → Prop
  | cause gap _ _ _ _ => gap.text = []
  | text gap _ _ _ => gap.text = []
  | extension _ _ _ => False

def apply (r : SipReason.Read) : ReasonParam → SipReason.Read
  | cause _ _ _ n _ => { r with cause := some n }
  | text _ _ value _ => { r with reason := some value }
  | extension _ _ _ => r

def cause? : ReasonParam → Option ℤ
  | cause _ _ _ n _ => some n
  | _ => none

def text? : ReasonParam → Option Text
  | text _ _ value _ => some value
  | _ => none

end ReasonParam

def ReasonField.str (f : ReasonField) : Text := f.lead.text ++ f.param.str ++ f.trail.text

namespace ReasonHeader

def params (fs : List ReasonField) : Text := [';'].intercalate (fs.map ReasonField.str)

def str (h : ReasonHeader) : Text := h.protocol.text ++ h.trail.text ++ ';' :: params h.fields

def causes (h : ReasonHeader) : List ℤ := h.fields.filterMap fun f => f.param.cause?
def texts (h : ReasonHeader) : List Text := h.fields.filterMap fun f => f.param.text?

/-- There are no parameters but the cause and the text, and no white space before a `=`. -/
def Plain (h : ReasonHeader) : Prop := ∀ f ∈ h.fields, f.param.Plain

end ReasonHeader

section Space
variable {s t a b : Text} {o : Option Text} {sep : Char} {n : ℤ}

theorem lstrip_blank (ha : ∀ c ∈ a, isSpace c = true) (s : Text) : lstrip (a ++ s) = lstrip s := by
  induction a with
  | nil => rfl
  | cons c a ih =>
    rw [List.cons_append, lstrip, List.dropWhile_cons, if_pos (ha c List.mem_cons_self)]
    exact ih fun d hd => ha d (List.mem_cons_of_mem c hd)

theorem rstrip_blank (hb : ∀ c ∈ b, isSpace c = true) (s : Text) : rstrip (s ++ b) = rstrip s := by
  have hnil : b.rdropWhile isSpace = [] := List.rdropWhile_eq_nil_iff.mpr hb
  have happ := @Lib.Text.rdropWhile_append isSpace s b
  rw [if_pos hnil] at happ
  exact happ

theorem lstrip_append (hne : lstrip s ≠ []) (t : Text) : lstrip (s ++ t) = lstrip s ++ t := by
  have happ := @List.dropWhile_append _ isSpace s t
  have hempty : (s.dropWhile isSpace).isEmpty = false := by
    rw [List.isEmpty_eq_false_iff]
    exact hne
  rw [hempty] at happ
  exact happ

theorem lstrip_eq_nil (h : lstrip s = []) : ∀ c ∈ s, isSpace c = true := by
  intro c hc
  exact List.dropWhile_eq_nil_iff.mp h c hc

theorem strip_blank (ha : ∀ c ∈ a, isSpace c = true) (hb : ∀ c ∈ b, isSpace c = true) (s : Text) :
    strip (a ++ s ++ b) = strip s := by
  have hleft : lstrip (a ++ s ++ b) = lstrip (s ++ b) := by rw [List.append_assoc, lstrip_blank ha]
  rw [strip, hleft, strip]
  by_cases hnil : lstrip s = []
  · have hs := lstrip_eq_nil hnil
    have hb' : lstrip b = [] := by
      have hall := lstrip_blank hb []
      rwa [List.append_nil] at hall
    rw [lstrip_blank hs, hb', hnil]
  · rw [lstrip_append hnil, rstrip_blank hb]

theorem int_congr (h : strip s = strip t) : int s = int t := by
  unfold int
  rw [h]

theorem strip_lstrip (s : Text) : strip (lstrip s) = strip s := by
  rw [strip, Lib.Text.lstrip_lstrip, strip]

theorem lstrip_int (h : int s = some n) : lstrip s ≠ [] := by
  intro hnil
  have hstrip : strip s = [] := by
    rw [strip, hnil]
    rfl
  have hnone : int s = none := by
    rw [int, hstrip]
    rfl
  cases h.symm.trans hnone

theorem semicolon_int (h : int s = some n) : ';' ∉ s := by
  intro hc
  rcases Lib.Text.mem_of_int h hc with hc | hc | hc | hc | hc
  · exact absurd hc (by decide)
  · exact absurd hc (by decide)
  · exact absurd hc (by decide)
  · exact absurd hc (by decide)
  · exact absurd hc (by decide)

theorem Blank.not_mem (b : Blank) {c : Char} (hc : isSpace c = false) : c ∉ b.text := by
  intro hmem
  rw [b.space c hmem] at hc
  exact absurd hc (by decide)

theorem Token.not_mem (t : Token) {c : Char} (hc : c = ';' ∨ c = '=' ∨ c = '"') : c ∉ t.text := by
  intro hmem
  obtain ⟨-, h₁, h₂, h₃⟩ := t.chars c hmem
  rcases hc with hc | hc | hc
  · exact h₁ hc
  · exact h₂ hc
  · exact h₃ hc

theorem Token.lstrip_append (t : Token) (s : Text) : lstrip (t.text ++ s) = t.text ++ s :=
  Lib.Text.lstrip_plain ⟨t.ne_nil, fun c hc => (t.chars c hc).1⟩ s

theorem after_elim (h : sep ∉ s) (o : Option Text) : SipReason.after sep (s ++ o.elim [] (sep :: ·)) = o.getD [] := by
  rw [SipReason.after, Lib.Text.split1_elim h]

theorem after_append (h : sep ∉ s) (t : Text) : SipReason.after sep (s ++ sep :: t) = t := by
  rw [SipReason.after, Lib.Text.split1_append h]
  rfl

end Space

section Turn
variable {r : SipReason.Read} {o : Option Text} {s : Text}

theorem turn_name {name : Text} (hname : '=' ∉ name) (s : Text) : (split1 '=' (name ++ '=' :: s)).1 = name ∧
    SipReason.after '=' (name ++ '=' :: s) = s :=
  ⟨by rw [Lib.Text.split1_append hname], after_append hname s⟩

theorem turn_cause (gap gap' trail : Blank) {digits : Text} {n : ℤ} (h : int digits = some n) (hgap : gap.text = []) :
    SipReason.turn r ((ReasonParam.cause gap gap' digits n h).str ++ (trail.text ++ o.elim [] (';' :: ·))) =
      .ok ({ r with cause := some n }, o.getD []) := by
  have hstr : (ReasonParam.cause gap gap' digits n h).str ++ (trail.text ++ o.elim [] (';' :: ·)) =
      "cause".toList ++ '=' :: (gap'.text ++ digits ++ trail.text ++ o.elim [] (';' :: ·)) := by
    rw [ReasonParam.str_cause, hgap]
    simp
  obtain ⟨hname, hafter⟩ := turn_name (by decide : '=' ∉ "cause".toList)
    (gap'.text ++ digits ++ trail.text ++ o.elim [] (';' :: ·))
  have hint : int (gap'.text ++ digits ++ trail.text) = some n := by
    rw [int_congr (strip_blank gap'.space trail.space digits), h]
  have hvalue : lstrip (gap'.text ++ digits ++ trail.text ++ o.elim [] (';' :: ·)) =
      lstrip (gap'.text ++ digits ++ trail.text) ++ o.elim [] (';' :: ·) := lstrip_append (lstrip_int hint) _
  have hsemi : ';' ∉ lstrip (gap'.text ++ digits ++ trail.text) := by
    intro hc
    exact semicolon_int hint ((List.dropWhile_sublist isSpace).subset hc)
  have hcause : int (lstrip (gap'.text ++ digits ++ trail.text)) = some n := by
    rw [int_congr (strip_lstrip _), hint]
  have hknown : ¬¬("cause".toList = "cause".toList ∨ "cause".toList = "text".toList) := not_not_intro (.inl rfl)
  have hne : "cause".toList ≠ "text".toList := by decide
  rw [SipReason.turn, hstr, hname, hafter, hvalue, Lib.Text.split1_elim hsemi, after_elim hsemi]
  dsimp only
  rw [if_neg hknown, if_neg fun h => hne h.1, if_pos rfl, hcause]

theorem turn_text (gap gap' trail : Blank) {value : Text} (h : '"' ∉ value) (hgap : gap.text = []) :
    SipReason.turn r ((ReasonParam.text gap gap' value h).str ++ (trail.text ++ o.elim [] (';' :: ·))) =
      .ok ({ r with reason := some value }, o.getD []) := by
  have hstr : (ReasonParam.text gap gap' value h).str ++ (trail.text ++ o.elim [] (';' :: ·)) =
      "text".toList ++ '=' :: (gap'.text ++ '"' :: (value ++ '"' :: (trail.text ++ o.elim [] (';' :: ·)))) := by
    rw [ReasonParam.str_text, hgap]
    simp
  obtain ⟨hname, hafter⟩ := turn_name (by decide : '=' ∉ "text".toList)
    (gap'.text ++ '"' :: (value ++ '"' :: (trail.text ++ o.elim [] (';' :: ·))))
  have hvalue : lstrip (gap'.text ++ '"' :: (value ++ '"' :: (trail.text ++ o.elim [] (';' :: ·)))) =
      '"' :: (value ++ '"' :: (trail.text ++ o.elim [] (';' :: ·))) := by
    rw [lstrip_blank gap'.space]
    exact Lib.Text.lstrip_of_head (by decide)
  have hsemi : ';' ∉ trail.text := trail.not_mem (by decide)
  rw [SipReason.turn, hstr, hname, hafter, hvalue]
  rw [if_neg (not_not.mpr (.inr rfl)), if_pos ⟨rfl, rfl⟩, List.tail_cons, Lib.Text.split1_append h, after_append h,
    after_elim hsemi]

theorem turn_unknown {name rest : Text} (hname : '=' ∉ name) (hrest : ∀ c ∈ rest.head?, isSpace c = true ∨ c = ';' ∨ c = '=')
    (h : ∀ w, w = "cause".toList ∨ w = "text".toList → name = w → ∃ c ∈ rest.head?, c ≠ '=') :
    SipReason.turn r (name ++ rest) = .error .assertionError := by
  have hsplit : (split1 '=' (name ++ rest)).1 = name ++ (split1 '=' rest).1 := by
    cases hr : (split1 '=' rest).2 with
    | none =>
      have helim := Lib.Text.elim_split1 '=' rest
      rw [hr, Option.elim_none, List.append_nil] at helim
      have hfst := Lib.Text.split1_clean '=' rest
      rw [helim] at hfst
      have hclean : '=' ∉ name ++ rest := by
        intro hc
        rcases List.mem_append.mp hc with hc | hc
        · exact hname hc
        · exact hfst hc
      rw [Lib.Text.split1_of_not_mem hclean, helim]
    | some t =>
      have heq : rest = (split1 '=' rest).1 ++ '=' :: t := Lib.Text.split1_eq (Prod.ext rfl hr)
      have hclean : '=' ∉ name ++ (split1 '=' rest).1 := by
        intro hc
        rcases List.mem_append.mp hc with hc | hc
        · exact hname hc
        · exact Lib.Text.split1_clean '=' rest hc
      have happ : name ++ rest = name ++ (split1 '=' rest).1 ++ '=' :: t := by
        rw [List.append_assoc, ← heq]
      rw [happ, Lib.Text.split1_append hclean]
  have hnot : ∀ w, w = "cause".toList ∨ w = "text".toList → name ++ (split1 '=' rest).1 ≠ w := by
    intro w hw heq
    have hchars : ∀ c ∈ w, isSpace c = false ∧ c ≠ ';' ∧ c ≠ '=' := by
      rcases hw with rfl | rfl
      · decide
      · decide
    cases rest with
    | nil =>
      obtain ⟨c, hc, -⟩ := h w hw (by simpa [split1] using heq)
      cases hc
    | cons c rest =>
      by_cases hc : c = '='
      · have hnil : (split1 '=' (c :: rest)).1 = [] := by rw [split1, if_pos hc]
        rw [hnil, List.append_nil] at heq
        obtain ⟨d, hd, hne⟩ := h w hw heq
        cases hd
        exact hne hc
      · have hmem : c ∈ w := by
          rw [← heq, split1, if_neg hc]
          simp
        obtain ⟨h₁, h₂, h₃⟩ := hchars c hmem
        rcases hrest c rfl with hs | hs | hs
        · rw [hs] at h₁
          exact absurd h₁ (by decide)
        · exact h₂ hs
        · exact h₃ hs
  have hunknown : ¬ (name ++ (split1 '=' rest).1 = "cause".toList ∨ name ++ (split1 '=' rest).1 = "text".toList) := by
    rintro (heq | heq)
    · exact hnot _ (.inl rfl) heq
    · exact hnot _ (.inr rfl) heq
  rw [SipReason.turn, hsplit, if_pos hunknown]

theorem ReasonParam.lstrip_str (p : ReasonParam) (s : Text) : lstrip (p.str ++ s) = p.str ++ s := by
  cases p with
  | cause gap gap' digits n h => exact Lib.Text.lstrip_of_head (by decide)
  | text gap gap' value h => exact Lib.Text.lstrip_of_head (by decide)
  | extension name h value =>
    rw [ReasonParam.str_extension, List.append_assoc]
    exact name.lstrip_append _

theorem ReasonParam.str_ne_nil (p : ReasonParam) : p.str ≠ [] := by
  cases p with
  | cause gap gap' digits n h => exact List.cons_ne_nil _ _
  | text gap gap' value h => exact List.cons_ne_nil _ _
  | extension name h value =>
    intro hnil
    exact name.ne_nil (List.append_eq_nil_iff.mp hnil).1

theorem turn_error {p : ReasonParam} (h : ¬ p.Plain) (trail : Blank) :
    SipReason.turn r (p.str ++ (trail.text ++ o.elim [] (';' :: ·))) = .error .assertionError := by
  have hgap (gap : Blank) (hne : gap.text ≠ []) (s : Text) :
      ∃ c ∈ (gap.text ++ '=' :: s).head?, isSpace c = true := by
    cases hg : gap.text with
    | nil => exact absurd hg hne
    | cons c g => exact ⟨c, rfl, gap.space c (hg ▸ List.mem_cons_self)⟩
  have hspace (c : Char) (hc : isSpace c = true) : c ≠ '=' := by
    rintro rfl
    exact absurd hc (by decide)
  -- a name that is known is followed by white space
  have hknown (name : Text) (hname : '=' ∉ name) (gap : Blank) (hne : gap.text ≠ []) (s : Text) :
      SipReason.turn r (name ++ (gap.text ++ '=' :: s)) = .error .assertionError := by
    obtain ⟨c, hc, hs⟩ := hgap gap hne s
    apply turn_unknown hname
    · intro d hd
      rw [Option.mem_def.mp hc] at hd
      cases hd
      exact .inl hs
    · intro w _ _
      exact ⟨c, hc, hspace c hs⟩
  cases p with
  | cause gap gap' digits n hint =>
    have hstr : (ReasonParam.cause gap gap' digits n hint).str ++ (trail.text ++ o.elim [] (';' :: ·)) =
        "cause".toList ++ (gap.text ++ '=' :: (gap'.text ++ digits ++ (trail.text ++ o.elim [] (';' :: ·)))) := by
      simp
    rw [hstr]
    exact hknown _ (by decide) gap h _
  | text gap gap' value hquote =>
    have hstr : (ReasonParam.text gap gap' value hquote).str ++ (trail.text ++ o.elim [] (';' :: ·)) =
        "text".toList ++ (gap.text ++ '=' :: (gap'.text ++ '"' :: value ++ ['"'] ++ (trail.text ++ o.elim [] (';' :: ·)))) := by
      simp
    rw [hstr]
    exact hknown _ (by decide) gap h _
  | extension name hname value =>
    have hother : ∀ w, w = "cause".toList ∨ w = "text".toList → name.text ≠ w := by
      rintro w (rfl | rfl)
      · exact hname.1
      · exact hname.2
    have heq : '=' ∉ name.text := name.not_mem (.inr (.inl rfl))
    rw [ReasonParam.str_extension, List.append_assoc]
    apply turn_unknown heq
    · intro c hc
      cases value with
      | some v =>
        obtain ⟨gap, v⟩ := v
        cases hg : gap.text with
        | nil =>
          rw [Option.elim_some, hg] at hc
          cases hc
          exact .inr (.inr rfl)
        | cons d g =>
          rw [Option.elim_some, hg] at hc
          cases hc
          exact .inl (gap.space c (hg ▸ List.mem_cons_self))
      | none =>
        rw [Option.elim_none, List.nil_append] at hc
        cases ht : trail.text with
        | cons d g =>
          rw [ht] at hc
          cases hc
          exact .inl (trail.space c (ht ▸ List.mem_cons_self))
        | nil =>
          rw [ht] at hc
          cases o with
          | none => exact nomatch hc
          | some t =>
            cases hc
            exact .inr (.inl rfl)
    · intro w hw heq
      exact absurd heq (hother w hw)

end Turn

section Params
variable {r : SipReason.Read} {f : ReasonField} {fs : List ReasonField}

def ReasonHeader.rest (fs : List ReasonField) : Option Text := if fs = [] then none else some (ReasonHeader.params fs)

theorem ReasonHeader.params_cons : ReasonHeader.params (f :: fs) =
    f.lead.text ++ (f.param.str ++ (f.trail.text ++ (ReasonHeader.rest fs).elim [] (';' :: ·))) := by
  unfold ReasonHeader.params ReasonHeader.rest
  cases fs with
  | nil => simp [ReasonField.str]
  | cons g gs =>
    rw [if_neg (List.cons_ne_nil g gs), List.map_cons, List.map_cons,
      List.intercalate_cons_of_ne_nil (List.cons_ne_nil _ _)]
    simp [ReasonField.str, ReasonHeader.params]

theorem ReasonHeader.rest_getD : (ReasonHeader.rest fs).getD [] = ReasonHeader.params fs := by
  unfold ReasonHeader.rest
  split
  · rename_i hnil
    rw [hnil]
    rfl
  · rfl

theorem turn_plain {p : ReasonParam} (h : p.Plain) (trail : Blank) (o : Option Text) :
    SipReason.turn r (p.str ++ (trail.text ++ o.elim [] (';' :: ·))) = .ok (p.apply r, o.getD []) := by
  cases p with
  | cause gap gap' digits n hint => exact turn_cause gap gap' trail hint h
  | text gap gap' value hquote => exact turn_text gap gap' trail hquote h
  | extension name hname value => exact absurd h id

/-- The loop reads all parameters if they are plain, and otherwise fails at the first that is not. -/
theorem params_fields (fs : List ReasonField) (r : SipReason.Read) : ((∀ f ∈ fs, f.param.Plain) ∧
      SipReason.params r (ReasonHeader.params fs) = .ok (fs.foldl (fun r f => f.param.apply r) r)) ∨
    ((¬ ∀ f ∈ fs, f.param.Plain) ∧ SipReason.params r (ReasonHeader.params fs) = .error .assertionError) := by
  induction fs generalizing r with
  | nil => exact .inl ⟨(fun f hf => absurd hf List.not_mem_nil), SipReason.params_nil rfl⟩
  | cons f fs ih =>
    have hstrip : lstrip (ReasonHeader.params (f :: fs)) =
        f.param.str ++ (f.trail.text ++ (ReasonHeader.rest fs).elim [] (';' :: ·)) := by
      rw [ReasonHeader.params_cons, lstrip_blank f.lead.space, f.param.lstrip_str]
    have hne : lstrip (ReasonHeader.params (f :: fs)) ≠ [] := by
      rw [hstrip]
      intro hnil
      exact f.param.str_ne_nil (List.append_eq_nil_iff.mp hnil).1
    by_cases hf : f.param.Plain
    · have hturn := @turn_plain r _ hf f.trail (ReasonHeader.rest fs)
      rw [← hstrip, ReasonHeader.rest_getD] at hturn
      rw [SipReason.params_ok hne hturn]
      rcases ih (f.param.apply r) with ⟨hfs, hok⟩ | ⟨hfs, herr⟩
      · left
        exact ⟨List.forall_mem_cons.mpr ⟨hf, hfs⟩, hok⟩
      · right
        exact ⟨fun hall => hfs (List.forall_mem_cons.mp hall).2, herr⟩
    · right
      have hturn := @turn_error r (ReasonHeader.rest fs) _ hf f.trail
      rw [← hstrip] at hturn
      exact ⟨fun hall => hf (List.forall_mem_cons.mp hall).1, SipReason.params_error hne hturn⟩

theorem foldl_apply (fs : List ReasonField) (r : SipReason.Read) : fs.foldl (fun r f => f.param.apply r) r =
    ⟨(fs.filterMap fun f => f.param.cause?).getLast?.or r.cause,
      (fs.filterMap fun f => f.param.text?).getLast?.or r.reason⟩ := by
  induction fs using List.reverseRecOn with
  | nil => rfl
  | append_singleton fs f ih =>
    rw [List.foldl_append, ih, List.foldl_cons, List.foldl_nil, List.filterMap_append, List.filterMap_append]
    cases hf : f.param <;> simp [ReasonParam.apply, ReasonParam.cause?, ReasonParam.text?, hf]

end Params

namespace ReasonHeader
variable {h : ReasonHeader} {n : ℤ} {t : Option Text}

theorem parse_str (h : ReasonHeader) (hn : h.causes = [n]) (ht : h.texts = t.toList) :
    (h.Plain ∧ SipReason.parse h.str = .ok ⟨h.protocol.text, n, t⟩) ∨
      (¬ h.Plain ∧ SipReason.parse h.str = .error .assertionError) := by
  have hsemi : ';' ∉ h.protocol.text ++ h.trail.text := by
    intro hc
    rcases List.mem_append.mp hc with hc | hc
    · exact h.protocol.not_mem (.inl rfl) hc
    · exact h.trail.not_mem (by decide) hc
  have hprotocol : strip (h.protocol.text ++ h.trail.text) = h.protocol.text := by
    have hblank := strip_blank (fun c hc => absurd hc List.not_mem_nil) h.trail.space h.protocol.text
    rw [List.nil_append] at hblank
    rw [hblank]
    exact Lib.Text.strip_plain ⟨h.protocol.ne_nil, fun c hc => (h.protocol.chars c hc).1⟩
  have hread : h.fields.foldl (fun r f => f.param.apply r) (⟨none, none⟩ : SipReason.Read) = ⟨some n, t⟩ := by
    unfold causes at hn
    unfold texts at ht
    rw [foldl_apply, hn, ht]
    cases t <;> rfl
  unfold SipReason.parse str
  rw [Lib.Text.split1_append hsemi]
  rcases params_fields h.fields ⟨none, none⟩ with ⟨hplain, hok⟩ | ⟨hplain, herr⟩
  · left
    refine ⟨hplain, ?_⟩
    dsimp only
    rw [hok, hread]
    dsimp only
    rw [hprotocol]
  · right
    refine ⟨hplain, ?_⟩
    dsimp only
    rw [herr]

def printed (protocol : Token) (n : ℤ) (t : Option Text) (ht : ∀ s ∈ t, '"' ∉ s) : ReasonHeader where
  protocol := protocol
  trail := ⟨[], fun c hc => absurd hc List.not_mem_nil⟩
  fields :=
    let none' : Blank := ⟨[], fun c hc => absurd hc List.not_mem_nil⟩
    let space : Blank := ⟨[' '], by decide⟩
    ⟨space, .cause none' none' (ofInt n) n (Lib.Text.int_ofInt n), none'⟩ ::
      (t.attach.map fun s => ⟨space, .text none' none' s.1 (ht s.1 s.2), none'⟩).toList

theorem printed_str (protocol : Token) (n : ℤ) (t : Option Text) (ht : ∀ s ∈ t, '"' ∉ s) :
    (printed protocol n t ht).str = SipReason.str ⟨protocol.text, n, t⟩ := by
  cases t with
  | none => simp [printed, str, params, ReasonField.str, SipReason.str]
  | some s => simp [printed, str, params, ReasonField.str, SipReason.str, List.intercalate]

theorem parse_printed (protocol : Token) (n : ℤ) (t : Option Text) (ht : ∀ s ∈ t, '"' ∉ s) :
    SipReason.parse (SipReason.str ⟨protocol.text, n, t⟩) = .ok ⟨protocol.text, n, t⟩ := by
  have hcauses : (printed protocol n t ht).causes = [n] := by
    cases t <;> rfl
  have htexts : (printed protocol n t ht).texts = t.toList := by
    cases t <;> rfl
  have hplain : (printed protocol n t ht).Plain := by
    intro f hf
    rcases List.mem_cons.mp hf with rfl | hf
    · rfl
    · obtain ⟨s, -, rfl⟩ := Option.map_eq_some_iff.mp (Option.mem_toList.mp hf)
      rfl
  rw [← printed_str protocol n t ht]
  exact ((printed protocol n t ht).parse_str hcauses htexts).elim (·.2) fun h => absurd hplain h.1

theorem no_quote (ht : h.texts = t.toList) : ∀ s ∈ t, '"' ∉ s := by
  intro s hs
  have hmem : s ∈ h.texts := by
    rw [ht]
    exact Option.mem_toList.mpr hs
  obtain ⟨f, -, hf⟩ := List.mem_filterMap.mp hmem
  cases hp : f.param with
  | cause gap gap' digits n hint =>
    rw [hp] at hf
    exact nomatch hf
  | text gap gap' value hquote =>
    rw [hp] at hf
    cases hf
    exact hquote
  | extension name hname value =>
    rw [hp] at hf
    exact nomatch hf

/-- A header of the grammar is read, printed so that it is read again, and relayed exactly if it has no parameters but the
cause and the text and no white space before a `=`. -/
theorem read_iff_plain (h : ReasonHeader) {n : ℤ} {t : Option Text} (hn : h.causes = [n]) (ht : h.texts = t.toList) :
    (SipReason.parse h.str = .ok ⟨h.protocol.text, n, t⟩ ∧
      SipReason.parse (SipReason.str ⟨h.protocol.text, n, t⟩) = .ok ⟨h.protocol.text, n, t⟩ ∧
      (SipReason.getExtraHeaders (SipReason.ofRequest [h.str])).map SipHeader.str =
        ["Reason: ".toList ++ SipReason.str ⟨h.protocol.text, n, t⟩]) ↔ h.Plain := by
  rcases h.parse_str hn ht with ⟨hplain, hok⟩ | ⟨hplain, herr⟩
  · refine iff_of_true ⟨hok, parse_printed h.protocol n t (no_quote ht), ?_⟩ hplain
    rw [SipReason.ofRequest, List.head?_cons, Option.bind_some, hok]
    rfl
  · refine iff_of_false (fun hread => ?_) hplain
    rw [herr] at hread
    exact nomatch hread.1

/-- White space on one side of the first parameter and around its `=`. -/
def spaced (before : Text) (hbefore : ∀ c ∈ before, isSpace c = true) (more : List ReasonField) : ReasonHeader where
  protocol := ⟨"Q.850".toList, by decide, by decide⟩
  trail := ⟨[], by decide⟩
  fields := ⟨⟨[' '], by decide⟩, .cause ⟨before, hbefore⟩ ⟨[' '], by decide⟩ "16".toList 16 (by decide), ⟨[], by decide⟩⟩ :: more

def foo : ReasonField where
  lead := ⟨[], by decide⟩
  param := .extension ⟨"foo".toList, by decide, by decide⟩ (by decide) none
  trail := ⟨[], by decide⟩

/-- `Q.850; cause= 16`, but neither `Q.850; cause = 16` nor `Q.850; cause= 16;foo` is read and relayed. -/
theorem spaced_dropped :
    ((spaced [' '] (by decide) []).causes = [16] ∧ (spaced [' '] (by decide) []).texts = [] ∧
      (spaced [' '] (by decide) []).str = "Q.850; cause = 16".toList ∧
      SipReason.parse (spaced [' '] (by decide) []).str = .error .assertionError ∧
      SipReason.getExtraHeaders (SipReason.ofRequest [(spaced [' '] (by decide) []).str]) = []) ∧
    (spaced [] (by decide) [foo]).causes = [16] ∧ (spaced [] (by decide) [foo]).texts = [] ∧
      (spaced [] (by decide) [foo]).str = "Q.850; cause= 16;foo".toList ∧
      SipReason.parse (spaced [] (by decide) [foo]).str = .error .assertionError := by
  have hgap : SipReason.parse (spaced [' '] (by decide) []).str = .error .assertionError := by
    rcases @parse_str 16 none (spaced [' '] (by decide) []) rfl rfl with ⟨hplain, -⟩ | ⟨-, herr⟩
    · have hnil := hplain _ List.mem_cons_self
      exact absurd hnil (List.cons_ne_nil _ _)
    · exact herr
  constructor
  · refine ⟨rfl, rfl, rfl, hgap, ?_⟩
    generalize (spaced [' '] (by decide) []).str = s at hgap
    rw [SipReason.ofRequest, List.head?_cons, Option.bind_some, hgap]
    rfl
  · refine ⟨rfl, rfl, rfl, ?_⟩
    rcases @parse_str 16 none (spaced [] (by decide) [foo]) rfl rfl with ⟨hplain, -⟩ | ⟨-, herr⟩
    · exact absurd (hplain foo (by simp [spaced])) id
    · exact herr

theorem read_iff_plain_spaced : SipReason.parse (spaced [] (by decide) []).str = .ok ⟨"Q.850".toList, 16, none⟩ := by
  have hplain : (spaced [] (by decide) []).Plain := by
    intro f hf
    rw [List.mem_singleton.mp hf]
    rfl
  exact ((@read_iff_plain (spaced [] (by decide) []) 16 none rfl rfl).mpr hplain).1

end ReasonHeader

end SippyB2bua.Wire
