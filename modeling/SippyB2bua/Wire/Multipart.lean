import SippyB2bua.Lib.Fallible
import SippyB2bua.Lib.Pieces
import SippyB2bua.Wire.Lines
import SippyB2bua.Wire.ContentType

/-!
# Bodies of several parts

A body of the type `multipart/mixed` is cut at its delimiter, and each section at its empty
line; of the headers before that line the Content-Type says what the part is, and the others
are kept beside it. What is printed starts each section with the Content-Type and has no
other header, and the text of a part goes up to the delimiter without a line break between
them. So a body comes back as it was exactly if its parts have no other headers, their types
are ones that the parser makes, and no delimiter begins in a section or in what closes the
body.
-/

namespace SippyB2bua.Wire
open Lib (Text)
open Lib.Text (crlf cut pieces split1 splitAll strip lstrip lower Clear)

inductive MixExn
  | keyError | assertionError
  | read (e : ParseExn)
  deriving DecidableEq

/-- `SipHeader(s)`, which keeps the name of the line. -/
def SipHeader.ofSection (s : Text) : Except ParseExn SipHeader :=
  match split1 ':' s with
  | (_, none) => .error .valueError
  | (n, some bodys) =>
    let name := lower (strip n)
    match (typeOf name).bodys (strip bodys) with
    | _ :: _ :: _ => .error .headerCsv
    | _ => .ok ⟨name, .raw (typeOf name) (strip bodys)⟩

/-- The `MsgBody` of a part, as it prints; `mtype` is `None` if the part had no Content-Type. -/
structure Part where
  str : Text
  localStr : Option LocalAddr → Text
  mtype : Option ContentType

namespace Part

/-- `MsgBody(content, mtype)`. -/
def raw (content : Text) (mtype : Option ContentType) : Part := ⟨content, fun _ => content, mtype⟩

/-- `f'{p.mtype}'`. -/
def typeText (p : Part) : Text := p.mtype.elim "None".toList ContentType.str

end Part

structure MultipartMixBody where
  parts : List Part
  partHeaders : List (List SipHeader)
  boundary : Text
  mtype : ContentType

namespace MultipartMixBody

def boundaryKey : Text := "boundary".toList

/-- The type that the class has before a boundary is set. -/
def mixed : ContentType := ⟨"multipart/mixed".toList, []⟩

/-- `setBoundary` on a new body with these parts. -/
def setBoundary (parts : List Part) (partHeaders : List (List SipHeader)) (bnd : Text) : MultipartMixBody :=
  ⟨parts, partHeaders, bnd, { mixed with params := ContentType.setParam mixed.params boundaryKey bnd }⟩

def readHeaders (ct : Option ContentType) (headers : List SipHeader) :
    List Text → Except ParseExn (Option ContentType × List SipHeader)
  | [] => .ok (ct, headers)
  | hl :: hls => match SipHeader.ofSection hl with
    | .error e => .error e
    | .ok h =>
      if h.name = contentType then
        match ContentType.parse (h.body.localStr none) with
        | .error e => .error e
        | .ok c => readHeaders (some c) headers hls
      else readHeaders ct (headers ++ [h]) hls

def emptyLine : Text := "\r\n\r\n".toList

def readPart (p : Text) : Except ParseExn (Part × List SipHeader) :=
  match cut emptyLine (lstrip p) with
  | none => .error .valueError
  | some (headersect, sect) =>
    (readHeaders none [] (pieces crlf headersect)).map fun r => (.raw sect r.1, r.2)

def readParts : List Text → Except ParseExn (List Part × List (List SipHeader))
  | [] => .ok ([], [])
  | p :: ps => do
    let (part, headers) ← readPart p
    let (parts, partHeaders) ← readParts ps
    .ok (part :: parts, headers :: partHeaders)

def delimiter (boundary : Text) : Text := '-' :: '-' :: boundary

/-- `MultipartMixBody(body, ctype)`. -/
def init (body : Text) (ctype : ContentType) : Except MixExn MultipartMixBody :=
  match ctype.params.lookup boundaryKey with
  | none => .error .keyError
  | some boundary =>
    let bparts := pieces (delimiter boundary) body
    if bparts.length ≤ 2 then .error .assertionError
    else if bparts.head? ≠ some [] then .error .assertionError
    else if bparts.getLast?.map strip ≠ some "--".toList then .error .assertionError
    else match readParts (bparts.tail.dropLast) with
      | .error e => .error (.read e)
      | .ok (parts, partHeaders) => .ok (setBoundary parts partHeaders boundary)

/-- The two ways to print a body. -/
inductive Form
  | str
  | localStr (localAddr : Option LocalAddr)

def partText : Form → Part → Text
  | .str, p => p.str
  | .localStr localAddr, p => p.localStr localAddr

/-- `str(body)` and `localStr`. -/
def print (form : Form) (mp : MultipartMixBody) : Text :=
  let bnd := delimiter mp.boundary ++ crlf
  let parts := mp.parts.map fun p =>
    bnd ++ "Content-Type: ".toList ++ p.typeText ++ emptyLine ++ partText form p
  parts.flatten ++ (bnd.take (bnd.length - 2) ++ "--\r\n".toList)

/-- What the printer writes between two delimiters. -/
def sectionText (form : Form) (p : Part) : Text :=
  crlf ++ "Content-Type: ".toList ++ p.typeText ++ emptyLine ++ partText form p

/-- The parts of the one have the types, the texts and the headers of those of the other. -/
structure Same (form : Form) (mp mp' : MultipartMixBody) : Prop where
  types : mp'.parts.map Part.mtype = mp.parts.map Part.mtype
  texts : mp'.parts.map (partText form) = mp.parts.map (partText form)
  headers : mp'.partHeaders.map (·.map (SipHeader.pair none)) =
    mp.partHeaders.map (·.map (SipHeader.pair none))

/-- The printed body is read, and has the same parts. -/
def Restored (form : Form) (mp : MultipartMixBody) : Prop :=
  ∃ mp', init (mp.print form) mp.mtype = .ok mp' ∧ Same form mp mp'

/-- A part has a Content-Type that the parser makes, in one line without white space around it. -/
structure Typed (p : Part) (c : ContentType) : Prop where
  mtype : p.mtype = some c
  proper : c.Proper
  strip : Lib.Text.strip c.str = c.str
  line : ¬ crlf <:+: c.str

/-- A body that comes back as it was. -/
structure Kept (form : Form) (mp : MultipartMixBody) : Prop where
  parts : mp.parts ≠ []
  typed : ∀ p ∈ mp.parts, ∃ c, Typed p c
  /-- No header of a part is printed but its Content-Type. -/
  headers : mp.partHeaders = mp.parts.map fun _ => []
  clear : ∀ p ∈ mp.parts, Clear (delimiter mp.boundary) (sectionText form p)
  closing : ¬ mp.boundary <+: crlf

section Sections
variable {form : Form} {p part : Part} {parts parts' : List Part} {headers headers' : List SipHeader}
  {partHeaders : List (List SipHeader)} {ct ct' : Option ContentType} {c : ContentType}
  {boundary a s t : Text} {ls : List Text}

theorem delimiter_ne_nil (boundary : Text) : delimiter boundary ≠ [] := List.cons_ne_nil _ _

theorem crlf_ne_nil : crlf ≠ [] := List.cons_ne_nil _ _

theorem emptyLine_ne_nil : emptyLine ≠ [] := List.cons_ne_nil _ _

theorem lstrip_section (s : Text) :
    lstrip (crlf ++ "Content-Type: ".toList ++ s) = "Content-Type: ".toList ++ s := rfl

/-- The value that the first line of a section makes. -/
theorem readHeaders_typeLine (t : Text) (ls : List Text) :
    readHeaders none [] (("Content-Type: ".toList ++ t) :: ls) =
      match ContentType.parse (strip t) with
      | .error e => .error e
      | .ok c => readHeaders (some c) [] ls := by
  have hsplit : split1 ':' ("Content-Type: ".toList ++ t) = ("Content-Type".toList, some (' ' :: t)) :=
    Lib.Text.split1_append (t := "Content-Type".toList) (by decide) (' ' :: t)
  have hstrip : strip (' ' :: t) = strip t := Lib.Text.strip_cons_space (by decide)
  have hname : lower (strip "Content-Type".toList) = contentType := by decide
  have htype : SipHeader.typeOf contentType = .sipContentType := by decide
  have hline : SipHeader.ofSection ("Content-Type: ".toList ++ t) =
      .ok ⟨contentType, .raw .sipContentType (strip t)⟩ := by
    unfold SipHeader.ofSection
    rw [hsplit]
    dsimp only
    rw [hname, htype, hstrip]
    rfl
  rw [readHeaders, hline]
  rfl

theorem ofSection_ok {h : SipHeader} (hs : SipHeader.ofSection s = .ok h) :
    ∃ n v, split1 ':' s = (n, some v) ∧ h.body.localStr none = strip v := by
  unfold SipHeader.ofSection at hs
  rcases hsplit : split1 ':' s with ⟨n, v⟩
  rw [hsplit] at hs
  cases v with
  | none => exact absurd hs (by simp)
  | some v =>
    refine ⟨n, v, rfl, ?_⟩
    dsimp only at hs
    split at hs
    · exact absurd hs (by simp)
    · cases hs
      rfl

/-- The type is the one given, or it is shorter than a line it was read from. -/
theorem readHeaders_type (h : readHeaders ct headers ls = .ok (ct', headers')) :
    ct' = ct ∨ ∃ c, ct' = some c ∧ ∃ l ∈ ls, c.str.length < l.length := by
  induction ls generalizing ct headers with
  | nil =>
    cases h
    exact .inl rfl
  | cons l ls ih =>
    unfold readHeaders at h
    split at h
    · exact absurd h (by simp)
    · rename_i hd hl
      have hrest (ct₁ : Option ContentType) (headers₁ : List SipHeader)
          (h : readHeaders ct₁ headers₁ ls = .ok (ct', headers')) :
          ct' = ct₁ ∨ ∃ c, ct' = some c ∧ ∃ l' ∈ l :: ls, c.str.length < l'.length :=
        (ih h).imp_right fun ⟨c, hc, l', hl', hlen⟩ => ⟨c, hc, l', List.mem_cons_of_mem l hl', hlen⟩
      split at h
      · split at h
        · exact absurd h (by simp)
        · rename_i c hc
          rcases hrest _ _ h with rfl | hlater
          · obtain ⟨n, v, hsplit, hv⟩ := ofSection_ok hl
            refine .inr ⟨c, rfl, l, List.mem_cons_self, ?_⟩
            have hlen := congrArg List.length (Lib.Text.split1_eq hsplit)
            have hstr := (ContentType.parse_length hc).1
            have hstrip := (Lib.Text.strip_sublist v).length_le
            rw [hv] at hstr
            rw [List.length_append, List.length_cons] at hlen
            omega
          · exact .inr hlater
      · exact hrest _ _ h

theorem sectionText_eq (form : Form) (p : Part) : sectionText form p =
    crlf ++ "Content-Type: ".toList ++ (p.typeText ++ emptyLine ++ partText form p) := by
  simp only [sectionText, List.append_assoc]

theorem partText_raw (form : Form) (t : Text) (ct : Option ContentType) : partText form (.raw t ct) = t := by
  cases form <;> rfl

theorem cut_type_emptyLine (s : Text) : cut emptyLine ("Content-Type: ".toList ++ s) =
    (cut emptyLine s).map fun p => ("Content-Type: ".toList ++ p.1, p.2) :=
  Lib.Text.cut_append (x := '\r') (by decide) ['\n', '\r', '\n'] s

theorem cut_type_crlf (s : Text) : cut crlf ("Content-Type: ".toList ++ s) =
    (cut crlf s).map fun p => ("Content-Type: ".toList ++ p.1, p.2) :=
  Lib.Text.cut_append (x := '\r') (by decide) ['\n'] s

theorem pieces_type (s : Text) : pieces crlf ("Content-Type: ".toList ++ s) =
    match cut crlf s with
    | none => ["Content-Type: ".toList ++ s]
    | some (a, b) => ("Content-Type: ".toList ++ a) :: pieces crlf b := by
  rw [Lib.Text.pieces_cut crlf_ne_nil, cut_type_crlf]
  cases cut crlf s <;> rfl

/-- No part ends before the name of its first header does. -/
theorem readPart_short (ha : a <+: crlf ++ "Content-Type: ".toList) : readPart a = .error .valueError := by
  have hcut : ∀ n ≤ 16, cut emptyLine (lstrip ((crlf ++ "Content-Type: ".toList).take n)) = none := by decide
  have hlen : a.length ≤ 16 := ha.length_le
  rw [readPart, List.prefix_iff_eq_take.mp ha, hcut _ hlen]

/-- The empty line cannot begin at the end of a text without line breaks. -/
theorem clear_emptyLine (h : ¬ crlf <:+: t) : Clear emptyLine t := by
  rintro ⟨u, v, heq⟩
  rw [List.append_assoc] at heq
  rcases List.append_eq_append_iff.mp heq with ⟨w, rfl, hw⟩ | ⟨w, rfl, hw⟩
  · match w with
    | [] => exact absurd hw (by simp [emptyLine])
    | [x] => exact absurd hw (by simp [emptyLine])
    | x :: y :: w =>
      have hxy : x = '\r' ∧ y = '\n' := by
        have := hw
        simp [emptyLine] at this
        exact ⟨this.1.symm, this.2.1.symm⟩
      exact h ⟨u, w, by simp [crlf, hxy]⟩
  · exact absurd (congrArg List.length hw) (by simp [emptyLine]; omega)

theorem readPart_section (hc : Typed p c) :
    readPart (sectionText form p) = .ok (.raw (partText form p) p.mtype, []) := by
  have htext : p.typeText = c.str := by rw [Part.typeText, hc.mtype, Option.elim_some]
  have hclear := clear_emptyLine hc.line
  have hcut : cut emptyLine (c.str ++ emptyLine ++ partText form p) = some (c.str, partText form p) :=
    (Lib.Text.cut_iff emptyLine_ne_nil _).mpr hclear
  have hpieces : pieces crlf ("Content-Type: ".toList ++ c.str) = ["Content-Type: ".toList ++ c.str] := by
    rw [pieces_type, Lib.Text.cut_eq_none.mpr hc.line]
  rw [sectionText_eq, readPart, lstrip_section, htext, cut_type_emptyLine, hcut]
  dsimp only [Option.map_some]
  rw [hpieces, readHeaders_typeLine, hc.strip, ContentType.parse_proper hc.proper, hc.mtype]
  rfl

/-- Lines that start with a Content-Type give a type that is no longer than they are, and one as
long only if they are a single line that prints as it is. -/
theorem readHeaders_section
    (h : readHeaders none [] (pieces crlf ("Content-Type: ".toList ++ s)) = .ok (ct, headers)) :
    ∃ c, ct = some c ∧ c.str.length ≤ s.length ∧ (s.length ≤ c.str.length →
      headers = [] ∧ strip s = s ∧ ¬ crlf <:+: s ∧ ContentType.parse s = .ok c) := by
  rw [pieces_type] at h
  split at h
  · rename_i hline
    rw [readHeaders_typeLine] at h
    split at h
    · exact absurd h (by simp)
    · rename_i c hc
      cases h
      have hstr := (ContentType.parse_length hc).1
      have hstrip := (Lib.Text.strip_sublist s).length_le
      refine ⟨c, rfl, by omega, fun hlen => ?_⟩
      have hs : strip s = s := Lib.Text.strip_eq_of_length (by omega)
      exact ⟨rfl, hs, Lib.Text.cut_eq_none.mp hline, hs ▸ hc⟩
  · rename_i s₀ s₁ hline
    have hlen := congrArg List.length (Lib.Text.cut_eq hline)
    have hcrlf : crlf.length = 2 := rfl
    simp only [List.length_append] at hlen
    rw [readHeaders_typeLine] at h
    split at h
    · exact absurd h (by simp)
    · rename_i c hc
      have hstr := (ContentType.parse_length hc).1
      have hstrip := (Lib.Text.strip_sublist s₀).length_le
      rcases readHeaders_type h with hct | ⟨c', hct, l, hl, hshort⟩
      · exact ⟨c, hct, by omega, fun hle => by omega⟩
      · have hl := Lib.Text.length_of_mem_pieces crlf_ne_nil hl
        exact ⟨c', hct, by omega, fun hle => by omega⟩

/-- A part that is read from the beginning of a section, and is the one printed there, has the
whole section. -/
theorem readPart_inv (ha : a <+: sectionText form p) (h : readPart a = .ok (part, headers))
    (htype : part.mtype = p.mtype) (htext : partText form part = partText form p) :
    a = sectionText form p ∧ headers = [] ∧ ∃ c, Typed p c := by
  rw [sectionText_eq] at ha ⊢
  rcases List.prefix_or_prefix_of_prefix ha (List.prefix_append _ _) with hshort | ⟨r, rfl⟩
  · rw [readPart_short hshort] at h
    exact absurd h (by simp)
  have hr : r <+: p.typeText ++ emptyLine ++ partText form p := (List.prefix_append_right_inj _).mp ha
  rw [readPart, lstrip_section, cut_type_emptyLine] at h
  cases hcut : cut emptyLine r with
  | none =>
    rw [hcut] at h
    exact absurd h (by simp)
  | some ub =>
    obtain ⟨u, b⟩ := ub
    rw [hcut] at h
    dsimp only [Option.map_some] at h
    cases hread : readHeaders none [] (pieces crlf ("Content-Type: ".toList ++ u)) with
    | error e =>
      rw [hread] at h
      exact absurd h (by simp [Except.map])
    | ok read =>
      rw [hread] at h
      cases h
      rw [partText_raw] at htext
      subst htext
      obtain ⟨c, hct, hle, hsame⟩ := readHeaders_section hread
      have hmtype : p.mtype = some c := htype.symm.trans hct
      have htypeText : p.typeText = c.str := by rw [Part.typeText, hmtype, Option.elim_some]
      have hreq := Lib.Text.cut_eq hcut
      rw [htypeText] at hr ⊢
      -- the type has no room for more than its own line
      have hu : u.length ≤ c.str.length := by
        have := hr.length_le
        rw [hreq] at this
        simp only [List.length_append] at this
        omega
      obtain ⟨hheaders, hstrip, hline, hparse⟩ := hsame hu
      have hrT : u ++ emptyLine ++ partText form p = c.str ++ emptyLine ++ partText form p := by
        rw [← hreq]
        refine hr.eq_of_length ?_
        rw [hreq]
        simp only [List.length_append]
        omega
      have huT : u = c.str := List.append_cancel_right (List.append_cancel_right hrT)
      rw [hreq, hrT]
      rw [huT] at hstrip hline
      exact ⟨rfl, hheaders, c, hmtype, ContentType.proper_of_parse hparse, hstrip, hline⟩

/-- What the printer writes behind the first delimiter. -/
def closingText (form : Form) (boundary : Text) (parts : List Part) : Text :=
  (parts.flatMap fun p => sectionText form p ++ delimiter boundary) ++ "--\r\n".toList

theorem print_eq (form : Form) (mp : MultipartMixBody) :
    mp.print form = delimiter mp.boundary ++ closingText form mp.boundary mp.parts := by
  have hbnd : (delimiter mp.boundary ++ crlf).take ((delimiter mp.boundary ++ crlf).length - 2) =
      delimiter mp.boundary := by
    have hlen : (delimiter mp.boundary ++ crlf).length - 2 = (delimiter mp.boundary).length := by
      rw [List.length_append]
      rfl
    rw [hlen, List.take_left]
  rw [print]
  rw [hbnd, closingText]
  induction mp.parts with
  | nil => rfl
  | cons p ps ih =>
    rw [List.map_cons, List.flatten_cons, List.flatMap_cons, List.append_assoc, ih]
    simp only [sectionText, List.append_assoc]

theorem closingText_cons (p : Part) (ps : List Part) : closingText form boundary (p :: ps) =
    sectionText form p ++ delimiter boundary ++ closingText form boundary ps := by
  simp only [closingText, List.flatMap_cons, List.append_assoc]

theorem delimiter_closing : delimiter boundary <:+: "--\r\n".toList ↔ boundary <+: crlf := by
  simp [delimiter, crlf, List.infix_cons_iff, List.cons_prefix_cons]

theorem pieces_closing (hclear : ∀ p ∈ parts, Clear (delimiter boundary) (sectionText form p))
    (hclosing : ¬ boundary <+: crlf) : pieces (delimiter boundary) (closingText form boundary parts) =
      parts.map (sectionText form) ++ ["--\r\n".toList] := by
  induction parts with
  | nil => exact Lib.Text.pieces_uncut (delimiter_ne_nil boundary) (mt delimiter_closing.mp hclosing)
  | cons p ps ih =>
    rw [closingText_cons, Lib.Text.pieces_cons (delimiter_ne_nil boundary) (hclear p List.mem_cons_self),
      ih fun q hq => hclear q (List.mem_cons_of_mem p hq), List.map_cons, List.cons_append]

theorem readParts_cons : readParts (a :: ls) = .ok (parts, partHeaders) ↔
    ∃ part headers parts' partHeaders', readPart a = .ok (part, headers) ∧
      readParts ls = .ok (parts', partHeaders') ∧ parts = part :: parts' ∧
      partHeaders = headers :: partHeaders' := by
  rw [readParts]
  constructor
  · intro h
    obtain ⟨⟨part, headers⟩, hpart, h⟩ := Lib.bind_ok.mp h
    obtain ⟨⟨parts', partHeaders'⟩, hparts, h⟩ := Lib.bind_ok.mp h
    cases h
    exact ⟨part, headers, parts', partHeaders', hpart, hparts, rfl, rfl⟩
  · rintro ⟨part, headers, parts', partHeaders', hpart, hparts, rfl, rfl⟩
    rw [hpart]
    dsimp only [bind, Except.bind]
    rw [hparts]

theorem readParts_sections (htyped : ∀ p ∈ parts, ∃ c, Typed p c) :
    readParts (parts.map (sectionText form)) =
      .ok (parts.map fun p => .raw (partText form p) p.mtype, parts.map fun _ => []) := by
  induction parts with
  | nil => rfl
  | cons p ps ih =>
    obtain ⟨c, hc⟩ := htyped p List.mem_cons_self
    exact readParts_cons.mpr ⟨_, _, _, _, readPart_section hc,
      ih fun q hq => htyped q (List.mem_cons_of_mem p hq), rfl, rfl⟩

/-- If the pieces behind the first delimiter are read as the parts that were printed there, each
of them is a whole section. -/
theorem closing_inv {last : Text}
    (hpieces : pieces (delimiter boundary) (closingText form boundary parts) = ls ++ [last])
    (hread : readParts ls = .ok (parts', partHeaders))
    (htypes : parts'.map Part.mtype = parts.map Part.mtype)
    (htexts : parts'.map (partText form) = parts.map (partText form)) :
    (∀ p ∈ parts, ∃ c, Typed p c) ∧ partHeaders = parts.map (fun _ => []) ∧
      (∀ p ∈ parts, Clear (delimiter boundary) (sectionText form p)) ∧ ¬ boundary <+: crlf := by
  have hne := delimiter_ne_nil boundary
  induction parts generalizing ls parts' partHeaders with
  | nil =>
    have hparts : parts' = [] := List.map_eq_nil_iff.mp htypes
    subst hparts
    cases ls with
    | nil =>
      cases hread
      refine ⟨by simp, rfl, by simp, fun hclosing => ?_⟩
      rw [Lib.Text.pieces_cut hne] at hpieces
      split at hpieces
      · rename_i hcut
        exact Lib.Text.cut_eq_none.mp hcut (delimiter_closing.mpr hclosing)
      · exact Lib.Text.pieces_ne_nil hne _ (List.tail_eq_of_cons_eq hpieces)
    | cons a ls =>
      obtain ⟨part, headers, parts', partHeaders', -, -, h, -⟩ := readParts_cons.mp hread
      exact absurd h (by simp)
  | cons p ps ih =>
    rw [closingText_cons, Lib.Text.pieces_cut hne] at hpieces
    split at hpieces
    · rename_i hcut
      exact absurd ⟨sectionText form p, closingText form boundary ps, rfl⟩ (Lib.Text.cut_eq_none.mp hcut)
    · rename_i a b hcut
      cases ls with
      | nil => exact absurd (List.tail_eq_of_cons_eq hpieces) (Lib.Text.pieces_ne_nil hne b)
      | cons a' ls =>
        obtain ⟨rfl, hrest⟩ := List.cons_eq_cons.mp hpieces
        obtain ⟨part, headers, parts₁, partHeaders₁, hpart, hread', rfl, rfl⟩ := readParts_cons.mp hread
        rw [List.map_cons, List.map_cons, List.cons_eq_cons] at htypes htexts
        obtain ⟨ha, rfl, hp⟩ :=
          readPart_inv (Lib.Text.cut_first hne hcut) hpart htypes.1 htexts.1
        have hb : b = closingText form boundary ps := by
          have heq := Lib.Text.cut_eq hcut
          rw [ha] at heq
          exact (List.append_cancel_left heq).symm
        rw [ha, hb] at hcut
        rw [hb] at hrest
        obtain ⟨htyped, hheaders, hclear, hclosing⟩ := ih hrest hread' htypes.2 htexts.2
        refine ⟨?_, by rw [hheaders, List.map_cons], ?_, hclosing⟩
        · exact List.forall_mem_cons.mpr ⟨hp, htyped⟩
        · exact List.forall_mem_cons.mpr ⟨(Lib.Text.cut_iff hne _).mp hcut, hclear⟩

end Sections

section Bodies
variable {form : Form} {parts : List Part} {partHeaders : List (List SipHeader)}
  {boundary body : Text} {ctype : ContentType} {mp : MultipartMixBody}

theorem lookup_boundary (parts : List Part) (partHeaders : List (List SipHeader)) (boundary : Text) :
    (setBoundary parts partHeaders boundary).mtype.params.lookup boundaryKey = some boundary := by
  change (ContentType.setParam [] boundaryKey boundary).lookup boundaryKey = some boundary
  generalize boundaryKey = key
  rw [ContentType.setParam_new List.not_mem_nil, List.nil_append, List.lookup_cons_self]

theorem init_ok : init body ctype = .ok mp ↔ ∃ boundary ls last parts partHeaders,
    ctype.params.lookup boundaryKey = some boundary ∧
      pieces (delimiter boundary) body = [] :: (ls ++ [last]) ∧ ls ≠ [] ∧ strip last = "--".toList ∧
      readParts ls = .ok (parts, partHeaders) ∧ mp = setBoundary parts partHeaders boundary := by
  unfold init
  cases hlookup : ctype.params.lookup boundaryKey with
  | none => simp
  | some boundary =>
    dsimp only
    constructor
    · intro h
      split at h
      · exact absurd h (by simp)
      rename_i hlen
      split at h
      · exact absurd h (by simp)
      rename_i hhead
      split at h
      · exact absurd h (by simp)
      rename_i hlast
      split at h
      · exact absurd h (by simp)
      rename_i parts partHeaders hread
      cases h
      rcases hpieces : pieces (delimiter boundary) body with _ | ⟨a, ps⟩
      · rw [hpieces] at hlen
        exact absurd (Nat.zero_le 2) hlen
      · rw [hpieces] at hlen hhead hlast hread
        rw [List.head?_cons, not_not, Option.some_inj] at hhead
        subst hhead
        rcases ps.eq_nil_or_concat with rfl | ⟨ls, last, rfl⟩
        · exact absurd hlen (by simp)
        · rw [List.concat_eq_append] at hpieces hlen hlast hread
          rw [List.tail_cons, List.dropLast_concat] at hread
          rw [← List.cons_append, List.getLast?_concat, not_not, Option.map_some, Option.some_inj] at hlast
          refine ⟨boundary, ls, last, parts, partHeaders, rfl, hpieces, ?_, hlast, hread, rfl⟩
          rintro rfl
          exact hlen (by simp)
    · rintro ⟨_, ls, last, parts, partHeaders, hsome, hpieces, hls, hlast, hread, rfl⟩
      cases hsome
      have hpos := List.length_pos_iff.mpr hls
      have hlen : ¬ ([] :: (ls ++ [last])).length ≤ 2 := by
        simp only [List.length_cons, List.length_append, List.length_nil]
        omega
      rw [hpieces, if_neg hlen, List.head?_cons, if_neg (not_not.mpr rfl), ← List.cons_append,
        List.getLast?_concat, Option.map_some, hlast, if_neg (not_not.mpr rfl), List.cons_append,
        List.tail_cons, List.dropLast_concat, hread]

theorem pieces_print (form : Form) (parts : List Part) (partHeaders : List (List SipHeader)) (boundary : Text) :
    pieces (delimiter boundary) ((setBoundary parts partHeaders boundary).print form) =
      [] :: pieces (delimiter boundary) (closingText form boundary parts) := by
  have hne := delimiter_ne_nil boundary
  have hprint : (setBoundary parts partHeaders boundary).print form =
      [] ++ delimiter boundary ++ closingText form boundary parts := print_eq form _
  rw [hprint, Lib.Text.pieces_cons hne (Lib.Text.clear_nil hne)]

theorem init_of_kept (h : (setBoundary parts partHeaders boundary).Kept form) :
    init ((setBoundary parts partHeaders boundary).print form) (setBoundary parts partHeaders boundary).mtype =
      .ok (setBoundary (parts.map fun p => .raw (partText form p) p.mtype) partHeaders boundary) := by
  have hclosing : pieces (delimiter boundary) (closingText form boundary parts) =
    parts.map (sectionText form) ++ ["--\r\n".toList] := pieces_closing h.clear h.closing
  have hpieces := pieces_print form parts partHeaders boundary
  rw [hclosing] at hpieces
  have hread : readParts (parts.map (sectionText form)) = .ok (parts.map fun p =>
    .raw (partText form p) p.mtype, parts.map fun _ => []) := readParts_sections h.typed
  have hheaders : partHeaders = parts.map fun _ => [] := h.headers
  refine init_ok.mpr ⟨boundary, _, _, _, _, lookup_boundary _ _ _, hpieces,
    mt List.map_eq_nil_iff.mp h.parts, by decide, hread, ?_⟩
  rw [hheaders]

theorem no_headers {f : SipHeader → Text × Text} (h : partHeaders.map (·.map f) = parts.map fun _ => []) :
    partHeaders = parts.map fun _ => [] := by
  rw [List.map_const'] at h ⊢
  obtain ⟨hlen, hall⟩ := List.eq_replicate_iff.mp h
  rw [List.length_map] at hlen
  exact List.eq_replicate_iff.mpr ⟨hlen, fun hs hmem =>
    List.map_eq_nil_iff.mp (hall _ (List.mem_map_of_mem hmem))⟩

theorem kept_of_restored (h : (setBoundary parts partHeaders boundary).Restored form) :
    (setBoundary parts partHeaders boundary).Kept form := by
  obtain ⟨mp', hinit, hsame⟩ := h
  obtain ⟨b, ls, last, parts', partHeaders', hlookup, hpieces, hls, -, hread, rfl⟩ := init_ok.mp hinit
  cases (lookup_boundary parts partHeaders boundary).symm.trans hlookup
  have hclosing := List.tail_eq_of_cons_eq ((pieces_print form parts partHeaders boundary).symm.trans hpieces)
  obtain ⟨htyped, hnone, hclear, hend⟩ := closing_inv hclosing hread hsame.types hsame.texts
  have hread' : partHeaders'.map (·.map (SipHeader.pair none)) = parts.map fun _ => [] := by
    rw [hnone, List.map_map]
    rfl
  refine ⟨?_, htyped, no_headers (hsame.headers.symm.trans hread'), hclear, hend⟩
  rintro rfl
  have hparts : parts' = [] := List.map_eq_nil_iff.mp hsame.types
  cases ls with
  | nil => exact hls rfl
  | cons a ls =>
    obtain ⟨_, _, _, _, -, -, hcons, -⟩ := readParts_cons.mp hread
    exact absurd (hcons.symm.trans hparts) (List.cons_ne_nil _ _)

theorem same_raw (form : Form) (parts : List Part) (partHeaders : List (List SipHeader)) (boundary : Text) :
    Same form (setBoundary parts partHeaders boundary)
      (setBoundary (parts.map fun p => .raw (partText form p) p.mtype) partHeaders boundary) := by
  refine ⟨?_, ?_, rfl⟩
  · simp only [setBoundary, List.map_map]
    rfl
  · simp only [setBoundary, List.map_map]
    exact List.map_congr_left fun p _ => partText_raw form _ _

theorem restored_iff : (setBoundary parts partHeaders boundary).Restored form ↔
    (setBoundary parts partHeaders boundary).Kept form :=
  ⟨kept_of_restored, fun h => ⟨_, init_of_kept h, same_raw form parts partHeaders boundary⟩⟩

theorem readPart_raw {a : Text} {part : Part} {headers : List SipHeader} (h : readPart a = .ok (part, headers)) :
    .raw (partText form part) part.mtype = part := by
  rw [readPart] at h
  split at h
  · exact absurd h (by simp)
  · obtain ⟨r, -, hr⟩ := Lib.map_ok.mp h
    cases hr
    rw [partText_raw]
    rfl

theorem readParts_raw {ls : List Text} (h : readParts ls = .ok (parts, partHeaders)) :
    parts.map (fun p => .raw (partText form p) p.mtype) = parts := by
  induction ls generalizing parts partHeaders with
  | nil =>
    cases h
    rfl
  | cons a ls ih =>
    obtain ⟨part, headers, parts', partHeaders', hpart, hread, rfl, rfl⟩ := readParts_cons.mp h
    rw [List.map_cons, readPart_raw hpart, ih hread]

/-- A body that was read comes back whole from what it prints exactly if it is kept. -/
theorem init_print_iff (h : init body ctype = .ok mp) :
    init (mp.print form) mp.mtype = .ok mp ↔ mp.Kept form := by
  obtain ⟨boundary, ls, last, parts, partHeaders, -, -, -, -, hread, rfl⟩ := init_ok.mp h
  constructor
  · exact fun hsame => kept_of_restored ⟨_, hsame, rfl, rfl, rfl⟩
  · intro hkept
    rw [init_of_kept hkept, readParts_raw hread]

end Bodies

/-- Whichever way a body is printed, what is read back has its parts, with their types, headers
and texts, exactly if the body is kept; and one that was itself read comes back as it was under
the same condition. -/
theorem multipart_kept_iff (form : Form) :
    (∀ parts partHeaders boundary, (setBoundary parts partHeaders boundary).Restored form ↔
      (setBoundary parts partHeaders boundary).Kept form) ∧
    ∀ body ctype mp, init body ctype = .ok mp →
      (init (mp.print form) mp.mtype = .ok mp ↔ mp.Kept form) :=
  ⟨fun _ _ _ => restored_iff, fun _ _ _ h => init_print_iff h⟩

/-- Two parts of plain text without other headers. -/
def plainParts : MultipartMixBody :=
  setBoundary [.raw "a\r\n".toList (some ⟨"text/plain".toList, []⟩),
    .raw "-".toList (some ⟨"text/plain".toList, []⟩)] [[], []] "b".toList

theorem plainParts_kept (form : Form) : plainParts.Kept form := by
  have htyped (t : Text) : Typed (.raw t (some ⟨"text/plain".toList, []⟩)) ⟨"text/plain".toList, []⟩ :=
    ⟨rfl, by decide, by decide, by decide +kernel⟩
  have htype (t : Text) : (Part.raw t (some ⟨"text/plain".toList, []⟩)).typeText = "text/plain".toList := rfl
  have hclear : ∀ t ∈ ["a\r\n".toList, "-".toList], Clear (delimiter "b".toList)
      (crlf ++ "Content-Type: ".toList ++ "text/plain".toList ++ emptyLine ++ t) := by decide +kernel
  refine ⟨List.cons_ne_nil _ _, ?_, rfl, ?_, by decide⟩
  · exact List.forall_mem_cons.mpr ⟨⟨_, htyped _⟩, List.forall_mem_singleton.mpr ⟨_, htyped _⟩⟩
  · refine List.forall_mem_cons.mpr ⟨?_, List.forall_mem_singleton.mpr ?_⟩
    · rw [sectionText, partText_raw, htype]
      exact hclear _ List.mem_cons_self
    · rw [sectionText, partText_raw, htype]
      exact hclear _ (List.mem_cons_of_mem _ List.mem_cons_self)

theorem multipart_kept_plain : plainParts.Restored .str ∧
    init (plainParts.print .str) plainParts.mtype = .ok plainParts ∧
      init (plainParts.print (.localStr none)) plainParts.mtype = .ok plainParts :=
  have hread : init (plainParts.print .str) plainParts.mtype = .ok plainParts :=
    init_of_kept (plainParts_kept .str)
  ⟨((multipart_kept_iff .str).1 _ _ _).mpr (plainParts_kept .str), hread,
    ((multipart_kept_iff (.localStr none)).2 _ _ _ hread).mpr (plainParts_kept _)⟩

/-- `test_multipart_unsorted_headers`: the Content-ID of a part is read, and is not printed. -/
theorem content_id_lost : ¬ delimiter "boundaryZZZ".toList <:+: "<?xml?>".toList ∧
    ¬ (setBoundary [.raw "<?xml?>".toList (some ⟨"application/EmergencyCallData.Control+xml".toList, []⟩)]
      [[⟨"content-id".toList, .raw (.sipGenericHF "content-id".toList)
        "<3456789012@atlanta.example.com>".toList⟩]] "boundaryZZZ".toList).Restored .str := by
  refine ⟨by decide +kernel, fun h => ?_⟩
  have hheaders := (kept_of_restored h).headers
  exact absurd (congrArg (·.map List.length) hheaders) (by decide)

end MultipartMixBody
end SippyB2bua.Wire
