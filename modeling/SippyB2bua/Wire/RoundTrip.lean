import SippyB2bua.Lib.Fallible
import SippyB2bua.Wire.Lines
import SippyB2bua.Wire.ContentType

/-!
# Printing and reading back

A message that was printed is read back as it was exactly if its start line and its
header lines are ones that the parser makes, no mandatory header is missing, and its body
is one that its class reads. The parser cuts lines at every boundary of `splitlines` and
the printer ends them with CR LF only, so a value with another boundary in it comes back
in parts.
-/

namespace SippyB2bua.Wire
open Lib (Text)
open Lib.Text (Unbroken PlainWord crlf splitlines linePieces strip lower str plain_str strip_plain)

/-- What a message says: its start line, the names and values of its headers, and its body with
the type. -/
def SipMsg.view (form : SipMsg.Form) (m : SipMsg) :
    StartLine × List (Text × Text) × Option (Text × Text) :=
  (m.startLine form.localAddr, m.headers.map (SipHeader.pair form.localAddr),
    m.body.map fun b => (bodyText form b, b.mtype))

/-- Reading what was printed gives the message back. -/
def Faithful (url : Text → Bool) (cls : MsgClass) (form : SipMsg.Form) (m : SipMsg) : Prop :=
  (SipMsg.ofText url cls (m.print form)).map (SipMsg.view form) = .ok (m.view form)

/-- A header whose line makes it again: the printed name leads to it, and the value is one
value of its class. -/
structure HeaderReadable (form : SipMsg.Form) (h : SipHeader) : Prop where
  clean : CleanName (h.canName form.compact)
  same : (lineType (h.canName form.compact)).hfName = h.name
  kept : Kept h = true
  unbroken : Unbroken (h.body.localStr form.localAddr)
  strip : Lib.Text.strip (h.body.localStr form.localAddr) = h.body.localStr form.localAddr
  single : ((lineType (h.canName form.compact)).bodys (h.body.localStr form.localAddr)).length = 1

structure BodyReadable (form : SipMsg.Form) (sl : StartLine) (b : MsgBody) : Prop where
  read : sl.readsBody = true
  ne_nil : SipMsg.bodyText form b ≠ []
  unbroken : Unbroken b.mtype
  strip : Lib.Text.strip b.mtype = b.mtype
  stable : ContentType.Stable b.mtype

structure Printable (url : Text → Bool) (cls : MsgClass) (form : SipMsg.Form) (m : SipMsg) : Prop where
  startLine : (m.startLine form.localAddr).Readable url cls
  headers : ∀ h ∈ m.headers, HeaderReadable form h
  mandatory : ∀ name ∈ Wire.mandatory, name ∈ m.headers.map SipHeader.name
  body : ∀ b ∈ m.body, BodyReadable form (m.startLine form.localAddr) b

section Reading
variable {url : Text → Bool} {cls : MsgClass} {form : SipMsg.Form} {m m' : SipMsg}

/-- No boundary is in the lines of the message, and every header line starts with a name. -/
structure Plain (form : SipMsg.Form) (m : SipMsg) : Prop where
  startLine : Unbroken (m.startLine form.localAddr).getSL
  headers : ∀ h ∈ m.headers, CleanName (h.canName form.compact) ∧
    Unbroken (h.body.localStr form.localAddr)
  mtype : ∀ b ∈ m.body, Unbroken b.mtype

def linesOf (form : SipMsg.Form) (m : SipMsg) : List Text :=
  m.headers.map (SipMsg.line form) ++ (m.trailer form).1

theorem line_eq (form : SipMsg.Form) (h : SipHeader) : SipMsg.line form h =
    h.canName form.compact ++ ':' :: ' ' :: h.body.localStr form.localAddr := by
  simp [SipMsg.line, SipHeader.localStr]

theorem cleanName_typeName (compact : Bool) : CleanName (SipMsg.typeName compact) := by
  cases compact <;> decide

theorem cleanName_lengthName (compact : Bool) : CleanName (SipMsg.lengthName compact) := by
  cases compact <;> decide

def IsLine (l : Text) : Prop := ∃ n v, l = n ++ ':' :: ' ' :: v ∧ CleanName n ∧ Unbroken v

theorem IsLine.unbroken {l : Text} (h : IsLine l) : Unbroken l := by
  obtain ⟨n, v, rfl, hn, hv⟩ := h
  have hsep : Unbroken [':', ' '] := by decide
  exact hn.unbroken.append (hsep.append hv)

theorem IsLine.ne_nil {l : Text} (h : IsLine l) : l ≠ [] := by
  obtain ⟨n, v, rfl, -, -⟩ := h
  simp

theorem IsLine.continues {l : Text} (h : IsLine l) : Wire.continues l = false := by
  obtain ⟨n, v, rfl, hn, -⟩ := h
  exact hn.continues _

theorem unbroken_str (n : ℕ) : Unbroken (str n) := unbroken_of_space (plain_str n).space

theorem isLine_of_mem (hm : Plain form m) : ∀ l ∈ linesOf form m, IsLine l := by
  intro l hl
  rcases List.mem_append.mp hl with hl | hl
  · obtain ⟨h, hh, rfl⟩ := List.mem_map.mp hl
    exact ⟨_, _, line_eq form h, (hm.headers h hh).1, (hm.headers h hh).2⟩
  · have hlength := cleanName_lengthName form.compact
    unfold SipMsg.trailer at hl
    cases hb : m.body with
    | none =>
      rw [hb] at hl
      rw [List.mem_singleton.mp hl]
      exact ⟨_, "0".toList, by simp, hlength, by decide⟩
    | some b =>
      rw [hb] at hl
      rcases List.mem_cons.mp hl with rfl | hl
      · exact ⟨_, b.mtype, by simp, cleanName_typeName form.compact, hm.mtype b hb⟩
      · rw [List.mem_singleton.mp hl]
        exact ⟨_, str (SipMsg.bodyText form b).length, by simp, hlength, unbroken_str _⟩

theorem splitlines_print (hm : Plain form m) :
    locateBody (m.print form) = (crlf.intercalate ((m.startLine form.localAddr).getSL :: linesOf form m),
        if (m.trailer form).2 = [] then none else some (m.trailer form).2) ∧
      splitlines (crlf.intercalate ((m.startLine form.localAddr).getSL :: linesOf form m)) =
        (m.startLine form.localAddr).getSL :: linesOf form m := by
  have hunbroken : ∀ l ∈ (m.startLine form.localAddr).getSL :: linesOf form m, Unbroken l := by
    intro l hl
    rcases List.mem_cons.mp hl with rfl | hl
    · exact hm.startLine
    · exact (isLine_of_mem hm l hl).unbroken
  refine ⟨locateBody_print fun l hl => (hunbroken l hl).not_cr, ?_⟩
  obtain ⟨front, last, htrailer⟩ := trailer_concat form m
  have hlines : (m.startLine form.localAddr).getSL :: linesOf form m =
      ((m.startLine form.localAddr).getSL :: (m.headers.map (SipMsg.line form) ++ front)) ++ [last] := by
    rw [linesOf, htrailer]
    simp
  have hlast : IsLine last := by
    refine isLine_of_mem hm last ?_
    rw [linesOf, htrailer]
    simp
  rw [hlines] at hunbroken ⊢
  rw [Lib.Text.splitlines_intercalate fun l hl => (hunbroken l (List.mem_append_left _ hl)).not_cr,
    Lib.Text.splitlines_unbroken hlast.unbroken hlast.ne_nil]
  congr 1
  generalize (m.startLine form.localAddr).getSL :: (m.headers.map (SipMsg.line form) ++ front) = ls
    at hunbroken
  induction ls with
  | nil => rfl
  | cons l ls ih =>
    rw [List.flatMap_cons, Lib.Text.linePieces_unbroken (hunbroken l List.mem_cons_self),
      ih fun l' hl' => hunbroken l' (List.mem_cons_of_mem l hl')]
    rfl

/-- What the body of a printed message is read as, if its class reads one. -/
def printedBody (form : SipMsg.Form) (m : SipMsg) : Except ParseExn (Option MsgBody) :=
  match m.body with
  | none => .ok none
  | some b =>
    if SipMsg.bodyText form b = [] then .ok none
    else (ContentType.parse (strip b.mtype)).map fun c => some (.raw (SipMsg.bodyText form b) c.str)

theorem strip_space (v : Text) : strip (' ' :: v) = strip v := Lib.Text.strip_cons_space (by decide)

theorem ofLine_value {n v b : Text} (hn : CleanName n) (hone : (lineType n).bodys (strip v) = [b]) :
    SipHeader.ofLine (n ++ ':' :: ' ' :: v) = .ok [lineHeader n (strip v)] := by
  have hline := ofLine_single (s := ' ' :: v) (b := b) hn.colon
  rw [strip_space] at hline
  exact hline hone

theorem lineType_typeName (compact : Bool) : lineType (SipMsg.typeName compact) = .sipContentType := by
  cases compact <;> decide +kernel

theorem lineType_lengthName (compact : Bool) :
    lineType (SipMsg.lengthName compact) = .sipContentLength := by
  cases compact <;> decide +kernel

theorem ofLine_type (compact : Bool) (v : Text) :
    SipHeader.ofLine (SipMsg.typeName compact ++ ':' :: ' ' :: v) =
      .ok [⟨contentType, .raw .sipContentType (strip v)⟩] := by
  have hline := ofLine_value (v := v) (b := strip v) (cleanName_typeName compact)
  rw [lineHeader, lineType_typeName] at hline
  exact hline rfl

theorem ofLine_length (compact : Bool) (v : Text) :
    SipHeader.ofLine (SipMsg.lengthName compact ++ ':' :: ' ' :: v) =
      .ok [⟨contentLength, .raw .sipContentLength (strip v)⟩] := by
  have hline := ofLine_value (v := v) (b := strip v) (cleanName_lengthName compact)
  rw [lineHeader, lineType_lengthName] at hline
  exact hline rfl

def lengthHeader (n : ℕ) : SipHeader := ⟨contentLength, .raw .sipContentLength (str n)⟩
def typeHeader (mtype : Text) : SipHeader := ⟨contentType, .raw .sipContentType mtype⟩

theorem readBody_none {headers : List SipHeader} {ct : Option SipHeader} {n : ℕ} {mbody : Option Text}
    (h : initBody n mbody = .ok none) :
    SipMsg.readBody ⟨headers, ct, some (lengthHeader n)⟩ mbody = .ok none := by
  have hint : Lib.Text.int ((lengthHeader n).body.localStr none) = some (n : ℤ) := Lib.Text.int_str n
  simp only [SipMsg.readBody, hint, h, bind, Except.bind]

theorem readBody_some {headers : List SipHeader} {mtype t : Text} {n : ℕ} {mbody : Option Text}
    (h : initBody n mbody = .ok (some t)) :
    SipMsg.readBody ⟨headers, some (typeHeader mtype), some (lengthHeader n)⟩ mbody =
      (ContentType.parse mtype).map fun c => some (.raw t c.str) := by
  have hint : Lib.Text.int ((lengthHeader n).body.localStr none) = some (n : ℤ) := Lib.Text.int_str n
  have htype : (typeHeader mtype).body.localStr none = mtype := rfl
  simp only [SipMsg.readBody, hint, h, bind, Except.bind, htype]
  cases ContentType.parse mtype <;> rfl

theorem initBody_self {t : Text} (h : t ≠ []) : initBody t.length (some t) = .ok (some t) := by
  have hlen : (t.length : ℤ) ≠ 0 := by
    have hpos := List.length_pos_iff.mpr h
    omega
  simp [initBody, h]

theorem readHeaders_trailer (form : SipMsg.Form) (m : SipMsg) (r : Read) :
    ∃ r', readHeaders r (m.trailer form).1 = .ok r' ∧ r'.headers = r.headers ∧
      SipMsg.readBody r' (if (m.trailer form).2 = [] then none else some (m.trailer form).2) =
        printedBody form m := by
  have hne : contentLength ≠ contentType := by decide
  obtain ⟨headers, ct, cl⟩ := r
  cases hb : m.body with
  | none =>
    have htrailer : m.trailer form = ([SipMsg.lengthName form.compact ++ ':' :: ' ' :: str 0], []) := by
      rw [SipMsg.trailer, hb]
      rfl
    have hline : SipHeader.ofLine (SipMsg.lengthName form.compact ++ ':' :: ' ' :: str 0) =
      .ok [lengthHeader 0] := ofLine_length form.compact (str 0)
    have hbody : printedBody form m = .ok none := by rw [printedBody, hb]
    rw [htrailer, hbody]
    refine ⟨⟨headers, ct, some (lengthHeader 0)⟩, ?_, rfl, readBody_none rfl⟩
    rw [readHeaders, hline]
    simp [Read.add, lengthHeader, hne, readHeaders]
  | some b =>
    have htrailer : m.trailer form = ([SipMsg.typeName form.compact ++ ':' :: ' ' :: b.mtype,
        SipMsg.lengthName form.compact ++ ':' :: ' ' :: str (SipMsg.bodyText form b).length],
        SipMsg.bodyText form b) := by
      rw [SipMsg.trailer, hb]
      simp
    have htype : SipHeader.ofLine (SipMsg.typeName form.compact ++ ':' :: ' ' :: b.mtype) =
      .ok [typeHeader (strip b.mtype)] := ofLine_type form.compact b.mtype
    have hlength := ofLine_length form.compact (str (SipMsg.bodyText form b).length)
    rw [strip_plain (plain_str _)] at hlength
    rw [htrailer, printedBody, hb]
    refine ⟨⟨headers, some (typeHeader (strip b.mtype)),
      some (lengthHeader (SipMsg.bodyText form b).length)⟩, ?_, rfl, ?_⟩
    · rw [readHeaders, htype]
      dsimp only
      rw [readHeaders, hlength]
      simp [Read.add, typeHeader, lengthHeader, hne, readHeaders]
    · dsimp only
      split
      · rename_i hnil
        rw [hnil]
        exact readBody_none rfl
      · rename_i hnil
        exact readBody_some (initBody_self hnil)

theorem ofText_print (hm : Plain form m) : SipMsg.ofText url cls (m.print form) = .ok m' ↔
    ∃ sl r body, StartLine.setSL url cls (m.startLine form.localAddr).getSL = .ok sl ∧
      readHeaders .start (m.headers.map (SipMsg.line form)) = .ok r ∧
      (∀ name ∈ mandatory, name ∈ r.headers.map SipHeader.name) ∧
      (if sl.readsBody then printedBody form m else .ok none) = .ok body ∧
      m' = ⟨fun _ => sl, r.headers, body⟩ := by
  obtain ⟨hlocate, hlines⟩ := splitlines_print hm
  have hfold : headerLines (linesOf form m) = linesOf form m :=
    headerLines_eq fun l hl => (isLine_of_mem hm l hl).continues
  have hinit (sl : StartLine) (r' : Read) (mbody : Option Text) :
      SipMsg.init url cls (m.print form) = .ok (sl, r', mbody) ↔
        (StartLine.setSL url cls (m.startLine form.localAddr).getSL = .ok sl ∧
        readHeaders .start (linesOf form m) = .ok r' ∧
        ∀ name ∈ mandatory, name ∈ r'.headers.map SipHeader.name) ∧
        mbody = if (m.trailer form).2 = [] then none else some (m.trailer form).2 := by
    rw [init_ok, hlocate, hlines, readLines_ok, hfold]
  rw [readMsg_ok]
  constructor
  · rintro ⟨sl, r', mbody, body, hok, hbody, rfl⟩
    obtain ⟨⟨hsl, hread, hmandatory⟩, rfl⟩ := (hinit sl r' mbody).mp hok
    obtain ⟨r, hr, htrailer⟩ := readHeaders_append_ok.mp hread
    obtain ⟨r'', hr'', hheaders, hprinted⟩ := readHeaders_trailer form m r
    cases Except.ok.inj (hr''.symm.trans htrailer)
    rw [hprinted] at hbody
    rw [hheaders] at hmandatory ⊢
    exact ⟨sl, r, body, hsl, hr, hmandatory, hbody, rfl⟩
  · rintro ⟨sl, r, body, hsl, hr, hmandatory, hbody, rfl⟩
    obtain ⟨r', hr', hheaders, hprinted⟩ := readHeaders_trailer form m r
    rw [← hheaders] at hmandatory ⊢
    rw [← hprinted] at hbody
    exact ⟨sl, r', _, body, (hinit sl r' _).mpr ⟨⟨hsl, readHeaders_append_ok.mpr ⟨r, hr, hr'⟩,
      hmandatory⟩, rfl⟩, hbody, rfl⟩

theorem Printable.plain (h : Printable url cls form m) : Plain form m where
  startLine := StartLine.getSL_unbroken h.startLine
  headers := fun hd hmem => ⟨(h.headers hd hmem).clean, (h.headers hd hmem).unbroken⟩
  mtype := fun b hb => (h.body b hb).unbroken

theorem HeaderReadable.ofLine {h : SipHeader} (hh : HeaderReadable form h) :
    SipHeader.ofLine (SipMsg.line form h) =
      .ok [lineHeader (h.canName form.compact) (h.body.localStr form.localAddr)] := by
  obtain ⟨b, hb⟩ := List.length_eq_one_iff.mp hh.single
  have hline := ofLine_value (v := h.body.localStr form.localAddr) (b := b) hh.clean
  rw [hh.strip] at hline
  rw [line_eq]
  exact hline hb

theorem readHeaders_readable {hs : List SipHeader} (hhs : ∀ h ∈ hs, HeaderReadable form h) (r : Read) :
    readHeaders r (hs.map (SipMsg.line form)) = .ok ⟨r.headers ++ hs.map (fun h =>
      lineHeader (h.canName form.compact) (h.body.localStr form.localAddr)), r.contentType,
      r.contentLength⟩ := by
  induction hs generalizing r with
  | nil => simp [readHeaders]
  | cons h hs ih =>
    have hh := hhs h List.mem_cons_self
    have hkept := hh.kept
    simp only [Kept, ← hh.same, Bool.decide_and, Bool.and_eq_true, decide_eq_true_eq] at hkept
    rw [List.map_cons, readHeaders, hh.ofLine]
    dsimp only
    rw [ih fun h' hh' => hhs h' (List.mem_cons_of_mem h hh')]
    simp [Read.add, lineHeader, hkept.1, hkept.2]

theorem faithful_of_printable (h : Printable url cls form m) : Faithful url cls form m := by
  have hread := readHeaders_readable h.headers .start
  have hpairs (la : Option LocalAddr) : (m.headers.map fun hd =>
      lineHeader (hd.canName form.compact) (hd.body.localStr form.localAddr)).map (SipHeader.pair la) =
        m.headers.map (SipHeader.pair form.localAddr) := by
    rw [List.map_map]
    refine List.map_congr_left fun hd hmem => ?_
    exact Prod.ext (h.headers hd hmem).same rfl
  have hnames : (m.headers.map fun hd => lineHeader (hd.canName form.compact)
      (hd.body.localStr form.localAddr)).map SipHeader.name = m.headers.map SipHeader.name := by
    rw [List.map_map]
    exact List.map_congr_left fun hd hmem => (h.headers hd hmem).same
  obtain ⟨body, hbody, hview⟩ : ∃ body, (if (m.startLine form.localAddr).readsBody
      then printedBody form m else .ok none) = Except.ok body ∧
      body.map (fun b => (SipMsg.bodyText form b, b.mtype)) =
        m.body.map fun b => (SipMsg.bodyText form b, b.mtype) := by
    cases hb : m.body with
    | none =>
      refine ⟨none, ?_, rfl⟩
      rw [printedBody, hb]
      split <;> rfl
    | some b =>
      obtain ⟨hreads, hne, -, hstrip, hstable⟩ := h.body b hb
      obtain ⟨c, hparse, hstr⟩ := ContentType.parse_stable hstable
      refine ⟨some (.raw (SipMsg.bodyText form b) b.mtype), ?_, ?_⟩
      · rw [if_pos hreads, printedBody, hb]
        dsimp only
        rw [if_neg hne, hstrip, hparse, Except.map, hstr]
      · cases form <;> rfl
  have hok : SipMsg.ofText url cls (m.print form) = .ok ⟨fun _ => m.startLine form.localAddr, _, body⟩ :=
    (ofText_print h.plain).mpr ⟨_, _, _, StartLine.setSL_getSL h.startLine, hread,
      by simpa [Read.start, hnames] using h.mandatory, hbody, rfl⟩
  rw [Faithful, hok, Except.map, SipMsg.view, SipMsg.view]
  dsimp only
  rw [hview, ← hpairs form.localAddr]
  simp [Read.start]

theorem foldl_add_contentType (hs : List SipHeader) (r : Read) :
    (hs.foldl Read.add r).contentType = r.contentType ∨
      ∃ hd ∈ hs, (hs.foldl Read.add r).contentType = some hd := by
  induction hs generalizing r with
  | nil => exact .inl rfl
  | cons h hs ih =>
    rcases ih (r.add h) with heq | ⟨hd, hmem, heq⟩
    · rw [List.foldl_cons, heq, Read.add]
      split
      · exact .inr ⟨h, List.mem_cons_self, rfl⟩
      · split
        · exact .inl rfl
        · exact .inl rfl
    · exact .inr ⟨hd, List.mem_cons_of_mem h hmem, heq⟩

theorem readHeaders_contentType {r r' : Read} {ls : List Text} (h : readHeaders r ls = .ok r') :
    r'.contentType = r.contentType ∨
      ∃ l ∈ ls, ∃ hs, SipHeader.ofLine l = .ok hs ∧ ∃ hd ∈ hs, r'.contentType = some hd := by
  induction ls generalizing r with
  | nil =>
    cases h
    exact .inl rfl
  | cons l ls ih =>
    rw [readHeaders] at h
    cases hl : SipHeader.ofLine l with
    | error e =>
      rw [hl] at h
      exact absurd h (by simp)
    | ok hs =>
      rw [hl] at h
      rcases ih h with heq | ⟨l', hl', hs', hok, hd, hmem, heq⟩
      · rcases foldl_add_contentType hs r with heq' | ⟨hd, hmem, heq'⟩
        · exact .inl (heq.trans heq')
        · exact .inr ⟨l, List.mem_cons_self, hs, hl, hd, hmem, heq.trans heq'⟩
      · exact .inr ⟨l', List.mem_cons_of_mem l hl', hs', hok, hd, hmem, heq⟩

theorem readBody_contentLength {r : Read} {mbody : Option Text} {b : MsgBody}
    (h : SipMsg.readBody r mbody = .ok (some b)) :
    ∃ mbody', SipMsg.readBody ⟨r.headers, r.contentType, none⟩ mbody' = .ok (some b) := by
  unfold SipMsg.readBody at h ⊢
  simp only [bind, Except.bind] at h ⊢
  cases hcl : r.contentLength with
  | none =>
    rw [hcl] at h
    exact ⟨mbody, h⟩
  | some hd =>
    rw [hcl] at h
    dsimp only at h
    split at h
    · exact absurd h (by simp)
    · split at h
      · exact absurd h (by simp)
      · rename_i mbody' _
        exact ⟨mbody', h⟩

theorem readBody_mtype {r : Read} {mbody : Option Text} {b : MsgBody}
    (h : SipMsg.readBody r mbody = .ok (some b)) : b.mtype = defaultType ∨
      ∃ hd c, r.contentType = some hd ∧ ContentType.parse (hd.body.localStr none) = .ok c ∧
        b.mtype = c.str := by
  obtain ⟨mbody', h⟩ := readBody_contentLength h
  unfold SipMsg.readBody at h
  simp only [bind, Except.bind] at h
  split at h
  · exact absurd h (by simp)
  · cases h
    exact .inl rfl
  · rename_i t hd hct
    split at h
    · exact absurd h (by simp)
    · rename_i c hparse
      cases h
      exact .inr ⟨hd, c, hct, hparse, rfl⟩

theorem exists_of_mem_right {α β : Type} {R : α → β → Prop} {xs : List α} {ys : List β} {y : β}
    (h : List.Forall₂ R xs ys) (hy : y ∈ ys) : ∃ x ∈ xs, R x y := by
  induction h with
  | nil => exact absurd hy List.not_mem_nil
  | @cons x y' xs ys hxy _ ih =>
    rcases List.mem_cons.mp hy with rfl | hy
    · exact ⟨x, List.mem_cons_self, hxy⟩
    · obtain ⟨x', hx', hR⟩ := ih hy
      exact ⟨x', List.mem_cons_of_mem x hx', hR⟩

theorem ofText_clean {buf : Text} (h : SipMsg.ofText url cls buf = .ok m') :
    (∀ la, (m'.startLine la).Readable url cls) ∧
      (∀ hd ∈ m'.headers, CleanName hd.name ∧ Kept hd = true ∧ ∀ la, Unbroken (hd.body.localStr la)) ∧
      ∀ b ∈ m'.body, Unbroken b.mtype := by
  obtain ⟨sl, r, mbody, body, hinit, hbody, rfl⟩ := readMsg_ok.mp h
  obtain ⟨hlines, -⟩ := init_ok.mp hinit
  have hunbroken (l : Text) (hl : l ∈ splitlines (locateBody buf).1) : Unbroken l :=
    Lib.Text.unbroken_of_mem_splitlines hl
  cases hls : splitlines (locateBody buf).1 with
  | nil =>
    rw [hls] at hlines
    exact absurd hlines (by simp [readLines])
  | cons l ls =>
    rw [hls] at hlines hunbroken
    obtain ⟨hsl, hread, -⟩ := readLines_ok.mp hlines
    have hclean := headerLines_unbroken fun m hm => hunbroken m (List.mem_cons_of_mem l hm)
    refine ⟨fun _ => StartLine.readable_of_setSL (hunbroken l List.mem_cons_self) hsl, ?_, ?_⟩
    · intro hd hmem
      obtain ⟨hss, hall, hheaders⟩ := readHeaders_kept hread
      rw [hheaders, Read.start, List.nil_append, List.mem_filter, List.mem_flatten] at hmem
      obtain ⟨⟨hs, hhs, hd'⟩, hkept⟩ := hmem
      obtain ⟨l', hl', hok⟩ := exists_of_mem_right hall hhs
      obtain ⟨hname, hvalue⟩ := ofLine_clean (hclean l' hl') hok hd hd'
      exact ⟨hname, hkept, hvalue⟩
    · intro b hb
      split at hbody
      · cases hb
        rcases readBody_mtype hbody with hdefault | ⟨hd, c, hct, hparse, hmtype⟩
        · rw [hdefault]
          decide
        · rcases readHeaders_contentType hread with heq | ⟨l', hl', hs, hok, hd', hmem, heq⟩
          · rw [hct] at heq
            exact absurd heq (by simp [Read.start])
          · cases Option.some.inj (hct.symm.trans heq)
            rw [hmtype]
            exact ContentType.parse_unbroken ((ofLine_clean (hclean l' hl') hok hd hmem).2 none) hparse
      · cases hbody
        exact absurd hb (by simp)

/-- Lists of pieces that weigh no more than what they stand for, and are the same when put
together, have one piece each. -/
theorem flatten_singles {α γ : Type} {f : α → γ} {weight : γ → ℕ} (hpos : ∀ c, 0 < weight c)
    {xs : List α} {css : List (List γ)}
    (h : List.Forall₂ (fun x cs => (cs.map weight).sum ≤ weight (f x)) xs css)
    (heq : css.flatten = xs.map f) : List.Forall₂ (fun x cs => cs = [f x]) xs css := by
  have htotal {xs : List α} {css : List (List γ)}
      (h : List.Forall₂ (fun x cs => (cs.map weight).sum ≤ weight (f x)) xs css) :
      (css.flatten.map weight).sum ≤ ((xs.map f).map weight).sum := by
    induction h with
    | nil => exact le_rfl
    | cons hx _ ih =>
      simp only [List.flatten_cons, List.map_append, List.sum_append, List.map_cons, List.sum_cons]
      omega
  induction h with
  | nil => exact .nil
  | @cons x cs xs css hx hrest ih =>
    rw [List.flatten_cons, List.map_cons] at heq
    cases cs with
    | nil =>
      have hle := htotal hrest
      rw [List.nil_append] at heq
      rw [heq, List.map_cons, List.sum_cons] at hle
      have hfx := hpos (f x)
      omega
    | cons c cs =>
      obtain ⟨rfl, heq⟩ := List.cons.inj heq
      have hcs : cs = [] := by
        cases cs with
        | nil => rfl
        | cons d cs =>
          simp only [List.map_cons, List.sum_cons] at hx
          have hd := hpos d
          omega
      subst hcs
      exact .cons rfl (ih (by simpa using heq))

def weight (p : Text × Text) : ℕ := p.2.length + 1

/-- The headers of a line have one name, so all or none are about the body. -/
theorem ofLine_pairs {n v : Text} {hs : List SipHeader} (hn : CleanName n)
    (h : SipHeader.ofLine (n ++ ':' :: ' ' :: v) = .ok hs) (la : Option LocalAddr) :
    (hs.filter Kept).map (SipHeader.pair la) = if Kept (lineHeader n []) then
      ((lineType n).bodys (strip v)).map fun b => ((lineType n).hfName, b) else [] := by
  have hkept (b : Text) : Kept (lineHeader n b) = Kept (lineHeader n []) := rfl
  have hhs := ofLine_ok hn.colon h
  rw [strip_space] at hhs
  rw [hhs]
  split
  · rename_i hk
    have hfilter : (((lineType n).bodys (strip v)).map (lineHeader n)).filter Kept =
        ((lineType n).bodys (strip v)).map (lineHeader n) := by
      rw [List.filter_eq_self]
      intro hd hmem
      obtain ⟨b, -, rfl⟩ := List.mem_map.mp hmem
      rw [hkept, hk]
    rw [hfilter, List.map_map]
    rfl
  · rename_i hk
    have hfilter : (((lineType n).bodys (strip v)).map (lineHeader n)).filter Kept = [] := by
      rw [List.filter_eq_nil_iff]
      intro hd hmem
      obtain ⟨b, -, rfl⟩ := List.mem_map.mp hmem
      rwa [hkept]
    rw [hfilter, List.map_nil]

theorem ofLine_weight {n v : Text} {hs : List SipHeader} (hn : CleanName n)
    (h : SipHeader.ofLine (n ++ ':' :: ' ' :: v) = .ok hs) (la : Option LocalAddr) :
    (((hs.filter Kept).map (SipHeader.pair la)).map weight).sum ≤ v.length + 1 := by
  have hlen := bodys_length (lineType n) (strip v)
  have hstrip := (Lib.Text.strip_sublist v).length_le
  rw [ofLine_pairs hn h la]
  split
  · rw [List.map_map]
    have hsum : (((lineType n).bodys (strip v)).map
        (weight ∘ fun b => ((lineType n).hfName, b))).sum = (strip v).length + 1 := hlen
    omega
  · simp

theorem readable_of_single {h : SipHeader} {hs : List SipHeader}
    (hclean : CleanName (h.canName form.compact)) (hvalue : Unbroken (h.body.localStr form.localAddr))
    (hline : SipHeader.ofLine (SipMsg.line form h) = .ok hs)
    (hsingle : (hs.filter Kept).map (SipHeader.pair form.localAddr) = [h.pair form.localAddr]) :
    HeaderReadable form h := by
  rw [line_eq] at hline
  rw [ofLine_pairs hclean hline] at hsingle
  split at hsingle
  · rename_i hkept
    obtain ⟨b, hb, hpair⟩ := List.map_eq_singleton_iff.mp hsingle
    have hsame : (lineType (h.canName form.compact)).hfName = h.name := congrArg Prod.fst hpair
    have hvalue' : b = h.body.localStr form.localAddr := congrArg Prod.snd hpair
    have hstrip : h.body.localStr form.localAddr = strip (h.body.localStr form.localAddr) :=
      hvalue'.symm.trans (bodys_single hb)
    refine ⟨hclean, hsame, ?_, hvalue, hstrip.symm, ?_⟩
    · rw [Kept, ← hsame]
      exact hkept
    · rw [hstrip, hb]
      rfl
  · exact absurd hsingle (by simp)

theorem headers_readable {r : Read} (hplain : Plain form m)
    (hread : readHeaders .start (m.headers.map (SipMsg.line form)) = .ok r)
    (hheaders : r.headers.map (SipHeader.pair form.localAddr) =
      m.headers.map (SipHeader.pair form.localAddr)) : ∀ h ∈ m.headers, HeaderReadable form h := by
  obtain ⟨hss, hlines, hkept⟩ := readHeaders_kept hread
  rw [List.forall₂_map_left_iff] at hlines
  have hflat : (hss.map fun hs => (hs.filter Kept).map (SipHeader.pair form.localAddr)).flatten =
      m.headers.map (SipHeader.pair form.localAddr) := by
    rw [← hheaders, hkept, Read.start, List.nil_append, List.filter_flatten, List.map_flatten,
      List.map_map]
    rfl
  have hweights : List.Forall₂ (fun h cs => (cs.map weight).sum ≤ weight (h.pair form.localAddr))
      m.headers (hss.map fun hs => (hs.filter Kept).map (SipHeader.pair form.localAddr)) := by
    rw [List.forall₂_map_right_iff]
    apply (Lib.forall₂_mem hlines).imp
    intro h hs hline
    have hok := hline.2
    rw [line_eq] at hok
    exact ofLine_weight (hplain.headers h hline.1).1 hok form.localAddr
  have hsingles := flatten_singles (fun c => Nat.succ_pos c.2.length) hweights hflat
  rw [List.forall₂_map_right_iff] at hsingles
  have hboth := hlines.mp (fun _ _ hok hsingle => And.intro hok hsingle) hsingles
  intro h hmem
  obtain ⟨hs, -, hok, hsingle⟩ := exists_of_mem_right hboth.flip hmem
  exact readable_of_single (hplain.headers h hmem).1 (hplain.headers h hmem).2 hok hsingle

theorem printable_of_faithful (h : Faithful url cls form m) : Printable url cls form m := by
  unfold Faithful at h
  cases hok : SipMsg.ofText url cls (m.print form) with
  | error e =>
    rw [hok] at h
    exact absurd h (by simp [Except.map])
  | ok m' =>
    rw [hok] at h
    obtain ⟨hsl, hheaders, hbody⟩ : m'.startLine form.localAddr = m.startLine form.localAddr ∧
        m'.headers.map (SipHeader.pair form.localAddr) =
          m.headers.map (SipHeader.pair form.localAddr) ∧
        m'.body.map (fun b => (SipMsg.bodyText form b, b.mtype)) =
          m.body.map fun b => (SipMsg.bodyText form b, b.mtype) := by
      have hview : m'.view form = m.view form := Except.ok.inj h
      simpa [SipMsg.view] using hview
    obtain ⟨hclean₁, hclean₂, hclean₃⟩ := ofText_clean hok
    have hstart : (m.startLine form.localAddr).Readable url cls := hsl ▸ hclean₁ form.localAddr
    have hplain : Plain form m := by
      refine ⟨StartLine.getSL_unbroken hstart, fun hd hmem => ?_, fun b hb => ?_⟩
      · have hpair : hd.pair form.localAddr ∈ m'.headers.map (SipHeader.pair form.localAddr) :=
          hheaders ▸ List.mem_map_of_mem hmem
        obtain ⟨hd', hmem', heq⟩ := List.mem_map.mp hpair
        obtain ⟨hname, -, hvalue⟩ := hclean₂ hd' hmem'
        have hname' : hd'.name = hd.name := congrArg Prod.fst heq
        have hvalue' : hd'.body.localStr form.localAddr = hd.body.localStr form.localAddr :=
          congrArg Prod.snd heq
        exact ⟨(hname' ▸ hname).getCanName _ _, hvalue' ▸ hvalue form.localAddr⟩
      · have hpair : some (SipMsg.bodyText form b, b.mtype) =
            m'.body.map fun b => (SipMsg.bodyText form b, b.mtype) := by
          rw [hbody, hb, Option.map_some]
        obtain ⟨b', hb', heq⟩ := Option.map_eq_some_iff.mp hpair.symm
        have hmtype : b'.mtype = b.mtype := congrArg Prod.snd heq
        exact hmtype ▸ hclean₃ b' hb'
    obtain ⟨sl, r, body, hread, hlines, hmandatory, hprinted, rfl⟩ := (ofText_print hplain).mp hok
    have hsl' : sl = m.startLine form.localAddr := hsl
    have hheaders' : r.headers.map (SipHeader.pair form.localAddr) =
      m.headers.map (SipHeader.pair form.localAddr) := hheaders
    have hbody' : body.map (fun b => (SipMsg.bodyText form b, b.mtype)) =
      m.body.map fun b => (SipMsg.bodyText form b, b.mtype) := hbody
    have hnames : r.headers.map SipHeader.name = m.headers.map SipHeader.name := by
      have hfst := congrArg (List.map Prod.fst) hheaders'
      rwa [List.map_map, List.map_map] at hfst
    refine ⟨hstart, ?_, hnames ▸ hmandatory, fun b hb => ?_⟩
    · exact headers_readable hplain hlines hheaders'
    · rw [hb, Option.map_some] at hbody'
      obtain ⟨b', rfl, heq⟩ := Option.map_eq_some_iff.mp hbody'
      rw [hsl'] at hprinted
      split at hprinted
      · rename_i hreads
        rw [printedBody, hb] at hprinted
        dsimp only at hprinted
        split at hprinted
        · exact absurd hprinted (by simp)
        · rename_i hne
          cases hparse : ContentType.parse (strip b.mtype) with
          | error e =>
            rw [hparse] at hprinted
            exact absurd hprinted (by simp [Except.map])
          | ok c =>
            rw [hparse] at hprinted
            have hstr : c.str = b.mtype := by
              have hb' : MsgBody.raw (SipMsg.bodyText form b) c.str = b' :=
                Option.some.inj (Except.ok.inj hprinted)
              rw [← hb'] at heq
              exact congrArg Prod.snd heq
            obtain ⟨hle, hstable⟩ := ContentType.parse_length hparse
            have hstrip : strip b.mtype = b.mtype := Lib.Text.strip_eq_of_length (hstr ▸ hle)
            rw [hstrip, hstr] at hstable
            exact ⟨hreads, hne, hplain.mtype b hb, hstrip, hstable rfl⟩
      · exact absurd hprinted (by simp)

theorem faithful_iff : Faithful url cls form m ↔ Printable url cls form m :=
  ⟨printable_of_faithful, faithful_of_printable⟩

theorem not_faithful_of_boundary {h : SipHeader} (hmem : h ∈ m.headers)
    (hvalue : ¬ Unbroken (h.body.localStr form.localAddr)) : ¬ Faithful url cls form m :=
  fun hf => hvalue ((faithful_iff.mp hf).headers h hmem).unbroken

/-- No boundary but CR and LF is in the text. -/
def OnlyCrLf (s : Text) : Prop := ∀ c ∈ s, Lib.Text.isLineEnd c = true → c = '\r' ∨ c = '\n'

instance (s : Text) : Decidable (OnlyCrLf s) := List.decidableBAll _ s

def texts (form : SipMsg.Form) (m : SipMsg) : List Text :=
  (m.startLine form.localAddr).getSL ::
    m.headers.flatMap (fun h => [h.name, h.body.localStr form.localAddr]) ++
    m.body.toList.map MsgBody.mtype

/-- A value with neither CR nor LF in it and nothing to strip. -/
structure OneLine (s : Text) : Prop where
  cr : '\r' ∉ s
  lf : '\n' ∉ s
  strip : Lib.Text.strip s = s

instance (s : Text) : Decidable (OneLine s) :=
  decidable_of_iff ('\r' ∉ s ∧ '\n' ∉ s ∧ strip s = s) ⟨fun ⟨a, b, c⟩ => ⟨a, b, c⟩, fun ⟨a, b, c⟩ => ⟨a, b, c⟩⟩

theorem unbroken_iff {s : Text} (h : OnlyCrLf s) : Unbroken s ↔ '\r' ∉ s ∧ '\n' ∉ s := by
  constructor
  · intro hs
    refine ⟨hs.not_cr, fun hlf => ?_⟩
    exact Bool.false_ne_true ((hs _ hlf).symm.trans Lib.Text.isLineEnd_lf)
  · intro ⟨hcr, hlf⟩ c hc
    cases hend : Lib.Text.isLineEnd c with
    | false => rfl
    | true =>
      rcases h c hc hend with rfl | rfl
      · exact absurd hc hcr
      · exact absurd hc hlf

/-- A message that its class reads as it is: the start line and the names are of the parser's
making, every value is a single one, and the body is one that is read. -/
structure Regular (url : Text → Bool) (cls : MsgClass) (form : SipMsg.Form) (m : SipMsg) : Prop where
  startLine : (m.startLine form.localAddr).Readable url cls
  names : ∀ h ∈ m.headers, CleanName (h.canName form.compact) ∧
    (lineType (h.canName form.compact)).hfName = h.name ∧ Kept h = true
  single : ∀ h ∈ m.headers,
    ((lineType (h.canName form.compact)).bodys (h.body.localStr form.localAddr)).length = 1
  mandatory : ∀ name ∈ Wire.mandatory, name ∈ m.headers.map SipHeader.name
  body : ∀ b ∈ m.body, (m.startLine form.localAddr).readsBody = true ∧ SipMsg.bodyText form b ≠ [] ∧
    OneLine b.mtype ∧ ContentType.Stable b.mtype

/-- Nothing in the message is cut at another boundary than the printer's, or printed under a name
that is not found again. -/
structure Undisturbed (form : SipMsg.Form) (m : SipMsg) : Prop where
  breaks : ∀ s ∈ texts form m, OnlyCrLf s
  supported : form.compact = true → ∀ h ∈ m.headers, h.body.type ≠ .sipSupported

theorem Undisturbed.value (hm : Undisturbed form m) {h : SipHeader} (hmem : h ∈ m.headers) :
    OnlyCrLf (h.body.localStr form.localAddr) := by
  apply hm.breaks
  unfold texts
  refine List.mem_append_left _ (List.mem_cons_of_mem _ ?_)
  exact List.mem_flatMap.mpr ⟨h, hmem, by simp⟩

theorem Undisturbed.mtype (hm : Undisturbed form m) {b : MsgBody} (hb : b ∈ m.body) :
    OnlyCrLf b.mtype := by
  apply hm.breaks
  unfold texts
  refine List.mem_append_right _ (List.mem_map_of_mem ?_)
  exact Option.mem_toList.mpr hb

theorem faithful_iff_regular (hvalues : ∀ h ∈ m.headers, OneLine (h.body.localStr form.localAddr))
    (hm : Undisturbed form m) : Faithful url cls form m ↔ Regular url cls form m := by
  rw [faithful_iff]
  constructor
  · intro h
    refine ⟨h.startLine, fun hd hmem => ?_, fun hd hmem => (h.headers hd hmem).single, h.mandatory,
      fun b hb => ?_⟩
    · have hh := h.headers hd hmem
      exact ⟨hh.clean, hh.same, hh.kept⟩
    · have hbody := h.body b hb
      obtain ⟨hcr, hlf⟩ := (unbroken_iff (hm.mtype hb)).mp hbody.unbroken
      exact ⟨hbody.read, hbody.ne_nil, ⟨hcr, hlf, hbody.strip⟩, hbody.stable⟩
  · intro h
    refine ⟨h.startLine, fun hd hmem => ?_, h.mandatory, fun b hb => ?_⟩
    · obtain ⟨hclean, hsame, hkept⟩ := h.names hd hmem
      obtain ⟨hcr, hlf, hstrip⟩ := hvalues hd hmem
      exact ⟨hclean, hsame, hkept, (unbroken_iff (hm.value hmem)).mpr ⟨hcr, hlf⟩, hstrip,
        h.single hd hmem⟩
    · obtain ⟨hread, hne, ⟨hcr, hlf, hstrip⟩, hstable⟩ := h.body b hb
      exact ⟨hread, hne, (unbroken_iff (hm.mtype hb)).mpr ⟨hcr, hlf⟩, hstrip, hstable⟩

end Reading

def answerMsg (scode : ℤ) : SipMsg where
  startLine := fun _ => .response "SIP/2.0".toList scode "Not Found".toList
  headers :=
    [⟨"via".toList, .raw .sipVia "SIP/2.0/UDP h".toList⟩, ⟨"from".toList, .raw .sipFrom "<sip:b@h>".toList⟩,
      ⟨"to".toList, .raw .sipTo "<sip:a@h>".toList⟩, ⟨"cseq".toList, .raw .sipCSeq "1 INVITE".toList⟩]
  body := some (.raw "v=0\r\n".toList defaultType)

theorem faithful_iff_regular_answer : Faithful (fun _ => true) .sipResponse .str (answerMsg 200) ↔
    Regular (fun _ => true) .sipResponse .str (answerMsg 200) :=
  faithful_iff_regular (by decide +kernel) ⟨by decide +kernel, fun h => absurd h Bool.false_ne_true⟩

/-- The body of a failure response is not read. -/
theorem failure_body_lost :
    (∀ h ∈ (answerMsg 404).headers, OneLine (h.body.localStr none)) ∧
      ¬ Faithful (fun _ => true) .sipResponse .str (answerMsg 404) := by
  refine ⟨by decide +kernel, fun h => ?_⟩
  have hbody := congrArg (Except.map fun v => v.2.2) h
  exact absurd hbody (by decide +kernel)

end SippyB2bua.Wire
