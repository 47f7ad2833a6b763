import SippyB2bua.SdpLines

/-!
# Reading what was printed

A description whose texts are single lines without white space at their ends is read back from what is
printed of it. The session part may have taken the connection of the first sections, and the reader gives it to
all sections that leave theirs out, which are those that have the same one.
-/

namespace SippyB2bua.Sdp
open Lib (Text)
open Lib.Text (Tidy Unbroken PlainWord words rstrip lower split1)

structure SdpConnecton.Tidy (c : SdpConnecton) : Prop where
  ntype : PlainWord c.ntype
  atype : PlainWord c.atype
  addr : PlainWord c.addr

/-- The formats are numbers exactly if the media are audio or video. -/
structure SdpMedia.Tidy (m : SdpMedia) : Prop where
  stype : PlainWord m.stype
  transport : PlainWord m.transport
  formats : match m.formats with
    | .payloads _ => lower m.stype = "audio".toList ∨ lower m.stype = "video".toList
    | .names fs => ¬ (lower m.stype = "audio".toList ∨ lower m.stype = "video".toList) ∧ ∀ f ∈ fs, PlainWord f

structure AHeader.Fits (P : Text → Prop) (a : AHeader) : Prop where
  name : ':' ∉ a.name
  str : P a.str

def TwoWords (x : Text) : Prop := ∃ w w', PlainWord w ∧ PlainWord w' ∧ x = w ++ ' ' :: w'

/-- The host of a socket, which is in brackets if it is an IPv6 address. -/
def Host (a : Text) : Prop := PlainWord (if a.head? = some '[' then a.tail.dropLast else a)

structure Origin.Tidy (o : Origin) : Prop where
  username : PlainWord o.username
  sessionId : PlainWord o.sessionId.str
  version : PlainWord o.version.str
  networkType : PlainWord o.networkType
  address : match o.address with
    | .text addressType address => PlainWord addressType ∧ PlainWord address
    | .my => True

/-- An origin line that was read is the one that was printed, up to an address of our own. -/
structure Origin.Same (o : Origin) (o' : SdpOrigin) : Prop where
  username : o'.username = o.username
  sessionId : o'.sessionId = .text o.sessionId.str
  version : o'.version = .text o.version.str
  networkType : o'.networkType = o.networkType
  address : ∀ addressType address, o.address = .text addressType address →
    o'.addressType = addressType ∧ o'.address = address

section Values
variable {c : SdpConnecton} {m : SdpMedia} {a : AHeader} {o : Origin} {v w s x : Text} {fs : List Text}

theorem unbroken_space (h : Unbroken s) : Unbroken (s ++ [' ']) := by
  apply h.append
  decide

theorem Host.twoWords (h : Host x) : TwoWords (localAddress x) := by
  unfold Host at h
  unfold localAddress
  split
  · rename_i hhead
    rw [if_pos hhead] at h
    exact ⟨"IP6".toList, _, by decide, h, rfl⟩
  · rename_i hhead
    rw [if_neg hhead] at h
    exact ⟨"IP4".toList, _, by decide, h, rfl⟩

theorem twoWords_my (h : PlainWord x) : TwoWords ("IP4 ".toList ++ x) :=
  ⟨"IP4".toList, x, by decide, h, rfl⟩

theorem words_formats (hw : PlainWord w) (hfs : ∀ f ∈ fs, PlainWord f) :
    words (w ++ fs.flatMap (' ' :: ·)) = w :: fs := by
  induction fs generalizing w with
  | nil =>
    rw [List.flatMap_nil, List.append_nil]
    exact Lib.Text.words_plain hw
  | cons f fs ih =>
    have hrest := ih (hfs f List.mem_cons_self) fun f' hf' => hfs f' (List.mem_cons_of_mem f hf')
    rw [List.flatMap_cons, List.cons_append, Lib.Text.words_append hw, hrest]

theorem tidy_formats (hs : Unbroken s) (hw : PlainWord w) (hfs : ∀ f ∈ fs, PlainWord f) :
    Tidy (s ++ (w ++ fs.flatMap (' ' :: ·))) := by
  induction fs generalizing s w with
  | nil =>
    rw [List.flatMap_nil, List.append_nil]
    exact hw.tidy_append hs
  | cons f fs ih =>
    have hrest := ih (unbroken_space (hs.append hw.unbroken)) (hfs f List.mem_cons_self) fun f' hf' =>
      hfs f' (List.mem_cons_of_mem f hf')
    simpa using hrest

theorem SdpConnecton.Tidy.parse (h : c.Tidy) : SdpConnecton.parse c.str = .ok c := by
  have hwords : words c.str = [c.ntype, c.atype, c.addr] := by
    rw [SdpConnecton.str, List.append_assoc, List.cons_append, Lib.Text.words_append h.ntype,
      Lib.Text.words_append h.atype, Lib.Text.words_plain h.addr]
  rw [SdpConnecton.parse, hwords]

theorem SdpConnecton.Tidy.str (h : c.Tidy) : Lib.Text.Tidy c.str := by
  have hstart := unbroken_space (unbroken_space h.ntype.unbroken |>.append h.atype.unbroken)
  have htidy := h.addr.tidy_append hstart
  simpa [SdpConnecton.str] using htidy

theorem SdpConnecton.parse_tidy (h : SdpConnecton.parse v = .ok c) : c.Tidy := by
  unfold SdpConnecton.parse at h
  split at h
  · rename_i ntype atype addr rest hwords
    cases h
    have hmem (w : Text) (hw : w ∈ words v) : PlainWord w := Lib.Text.mem_words hw
    exact ⟨hmem _ (by simp [hwords]), hmem _ (by simp [hwords]), hmem _ (by simp [hwords])⟩
  · exact nomatch h

theorem SdpMedia.Tidy.texts (h : m.Tidy) : ∀ f ∈ m.formats.texts, PlainWord f := by
  have hformats := h.formats
  cases hm : m.formats with
  | payloads pts =>
    intro f hf
    obtain ⟨n, -, rfl⟩ := List.mem_map.mp hf
    exact Lib.Text.plain_ofInt n
  | names fs =>
    rw [hm] at hformats
    exact hformats.2

theorem SdpMedia.words_str (h : m.Tidy) :
    words m.str = m.stype :: Lib.Text.ofInt m.port :: m.transport :: m.formats.texts := by
  have hrest := words_formats h.transport h.texts
  rw [SdpMedia.str]
  simp only [List.append_assoc, List.cons_append]
  rw [Lib.Text.words_append h.stype, Lib.Text.words_append (Lib.Text.plain_ofInt _), hrest]

theorem int_texts (pts : List ℤ) : (pts.map Lib.Text.ofInt).mapM int = .ok pts := by
  apply Lib.mapM_ok.mpr
  rw [List.forall₂_map_left_iff, List.forall₂_same]
  intro n _
  rw [int, Lib.Text.int_ofInt]
  rfl

theorem SdpMedia.Tidy.parse (h : m.Tidy) : SdpMedia.parse m.str = .ok m := by
  have hport : int (Lib.Text.ofInt m.port) = .ok m.port := by
    rw [int, Lib.Text.int_ofInt]
    rfl
  have hformats := h.formats
  rw [SdpMedia.parse, SdpMedia.words_str h]
  dsimp only
  rw [hport, Lib.ok_bind]
  obtain ⟨stype, port, transport, formats⟩ := m
  dsimp only at hformats ⊢
  cases formats with
  | payloads pts =>
    rw [if_pos hformats, Formats.texts, int_texts]
    rfl
  | names fs =>
    rw [if_neg hformats.1]
    rfl

theorem SdpMedia.Tidy.str (h : m.Tidy) : Lib.Text.Tidy m.str := by
  have hstart := unbroken_space (unbroken_space h.stype.unbroken |>.append (Lib.Text.plain_ofInt m.port).unbroken)
  have htidy := tidy_formats hstart h.transport h.texts
  simpa [SdpMedia.str] using htidy

theorem SdpMedia.parse_tidy (h : SdpMedia.parse v = .ok m) : m.Tidy := by
  unfold SdpMedia.parse at h
  split at h
  · rename_i stype port transport fs hwords
    have hmem (w : Text) (hw : w ∈ words v) : PlainWord w := Lib.Text.mem_words hw
    obtain ⟨p, -, h⟩ := Lib.bind_ok.mp h
    dsimp only at h
    split at h
    · rename_i hmedia
      obtain ⟨pts, -, heq⟩ := Lib.bind_ok.mp h
      cases heq
      exact ⟨hmem _ (by simp [hwords]), hmem _ (by simp [hwords]), hmedia⟩
    · rename_i hmedia
      cases h
      exact ⟨hmem _ (by simp [hwords]), hmem _ (by simp [hwords]), hmedia, fun f hf => hmem f (by simp [hwords, hf])⟩
  · obtain ⟨p, -, h⟩ := Lib.bind_ok.mp h
    exact nomatch h
  · exact nomatch h

theorem AHeader.str_ofText (v : Text) : (AHeader.ofText v).str = v := by
  have helim := Lib.Text.elim_split1 ':' v
  rw [AHeader.str, AHeader.ofText]
  dsimp only
  cases hsnd : (Lib.Text.split1 ':' v).2 with
  | none => simpa [hsnd] using helim
  | some t => simpa [hsnd] using helim

theorem AHeader.ofText_fits {P : Text → Prop} (h : P v) : (AHeader.ofText v).Fits P :=
  ⟨Lib.Text.split1_clean ':' v, by rwa [AHeader.str_ofText]⟩

theorem AHeader.Fits.ofText {P : Text → Prop} (h : a.Fits P) : AHeader.ofText a.str = a := by
  obtain ⟨name, value⟩ := a
  have hsplit := Lib.Text.split1_elim h.name value
  have hstr : AHeader.str ⟨name, value⟩ = name ++ value.elim [] (':' :: ·) := by
    cases value with
    | none => exact (List.append_nil name).symm
    | some v => rfl
  rw [AHeader.ofText, hstr, hsplit]

theorem words_origin (h : o.Tidy) (hx : o.address = .my → TwoWords x) : ∃ w w', PlainWord w ∧ PlainWord w' ∧
    (Header.origin o).written x = o.start ++ (w ++ ' ' :: w') ∧
      ∀ addressType address, o.address = .text addressType address → w = addressType ∧ w' = address := by
  have haddress := h.address
  cases ho : o.address with
  | text addressType address =>
    rw [ho] at haddress
    refine ⟨addressType, address, haddress.1, haddress.2, ?_, fun t a heq => ?_⟩
    · rw [Header.written, ho]
    · cases heq
      exact ⟨rfl, rfl⟩
  | my =>
    obtain ⟨w, w', hw, hw', rfl⟩ := hx ho
    refine ⟨w, w', hw, hw', ?_, fun t a heq => nomatch heq⟩
    rw [Header.written, ho]

theorem Origin.Tidy.parse (h : o.Tidy) (hx : o.address = .my → TwoWords x) :
    ∃ o', SdpOrigin.parse ((Header.origin o).written x) = .ok o' ∧ o.Same o' := by
  obtain ⟨w, w', hw, hw', hwritten, haddress⟩ := words_origin h hx
  have hwords : words ((Header.origin o).written x) =
      [o.username, o.sessionId.str, o.version.str, o.networkType, w, w'] := by
    rw [hwritten, Origin.start]
    simp only [List.append_assoc, List.cons_append, List.nil_append]
    rw [Lib.Text.words_append h.username, Lib.Text.words_append h.sessionId, Lib.Text.words_append h.version,
      Lib.Text.words_append h.networkType, Lib.Text.words_append hw, Lib.Text.words_plain hw']
  refine ⟨⟨o.username, .text o.sessionId.str, .text o.version.str, o.networkType, w, w'⟩, ?_, ?_⟩
  · rw [SdpOrigin.parse, hwords]
  · exact ⟨rfl, rfl, rfl, rfl, haddress⟩

theorem Origin.Tidy.str (h : o.Tidy) (hx : o.address = .my → TwoWords x) :
    Lib.Text.Tidy ((Header.origin o).written x) := by
  obtain ⟨w, w', hw, hw', hwritten, -⟩ := words_origin h hx
  have hstart : Unbroken o.start := by
    have hid := unbroken_space (unbroken_space h.username.unbroken |>.append h.sessionId.unbroken)
    have hversion := unbroken_space (hid.append h.version.unbroken)
    have hnetwork := unbroken_space (hversion.append h.networkType.unbroken)
    simpa [Origin.start] using hnetwork
  have htidy := hw'.tidy_append (unbroken_space (hstart.append hw.unbroken))
  rw [hwritten]
  simpa using htidy

theorem SdpOrigin.parse_tidy {o : SdpOrigin} (h : SdpOrigin.parse v = .ok o) : (Origin.ofSdpOrigin o).Tidy := by
  unfold SdpOrigin.parse at h
  split at h
  · rename_i username sid version ntype atype address hwords
    cases h
    have hmem (w : Text) (hw : w ∈ [username, sid, version, ntype, atype, address]) : PlainWord w :=
      Lib.Text.mem_words (hwords ▸ hw)
    exact ⟨hmem username (by simp), hmem sid (by simp), hmem version (by simp), hmem ntype (by simp),
      hmem atype (by simp), hmem address (by simp)⟩
  · exact nomatch h

end Values

/-- A header that is printed so that it can be read. -/
theorem eq_of_rel {α : Type} {x y : Option α} {str : α → Text} {parse : Text → Except Exn α}
    (h : ∀ a ∈ x, parse (str a) = .ok a) (hr : Option.Rel (fun v a => parse v = .ok a) (x.map str) y) : y = x := by
  cases x with
  | none => exact Lib.rel_none hr
  | some a =>
    obtain ⟨b, rfl, hb⟩ := Lib.rel_some hr
    exact congrArg some (Except.ok.inj (hb.symm.trans (h a rfl)))

theorem attributes_attributeLines {P : Text → Prop} {as : List AHeader} (h : ∀ a ∈ as, a.Fits P) :
    Line.attributes (attributeLines as) = as := by
  induction as with
  | nil => rfl
  | cons a as ih =>
    have hcons : attributeLines (a :: as) = [⟨"a".toList, a.str⟩] ++ attributeLines as := rfl
    rw [hcons, Line.attributes_append, ih fun a' ha' => h a' (List.mem_cons_of_mem a ha'), Line.attributes_single,
      if_pos rfl, (h a List.mem_cons_self).ofText]
    rfl

theorem attributes_headerLines {text : Header → Text} {header : Text → Option Header} {names : List Text}
    (h : "a".toList ∉ names) : Line.attributes (headerLines text header names) = [] := by
  apply Line.attributes_eq_nil
  intro l hl heq
  exact h (heq ▸ (mem_headerLines hl).1)

namespace SdpMediaDescription
variable {sect sect' : SdpMediaDescription} {noC : Bool} {name : Text} {top : Option Text}

/-- The texts of a section meet a condition. -/
structure Fits (P : Text → Prop) (sect : SdpMediaDescription) : Prop where
  media : ∀ m ∈ sect.mHeader, m.Tidy
  connection : ∀ c ∈ sect.cHeader, c.Tidy
  headers : ∀ name v, sect.headers.lookup name = some v → name ∈ generic ∧ P v
  attributes : ∀ a ∈ sect.aHeaders, a.Fits P

/-- The texts of a section are those of lines. -/
abbrev Tidy (sect : SdpMediaDescription) : Prop := sect.Fits Lib.Text.Tidy

/-- Sections with the same headers and the same attributes in order. -/
structure Same (sect sect' : SdpMediaDescription) : Prop where
  media : sect'.mHeader = sect.mHeader
  connection : sect'.cHeader = sect.cHeader
  headers : ∀ name, sect'.headers.lookup name = sect.headers.lookup name
  attributes : sect'.aHeaders = sect.aHeaders

def printed (noC : Bool) : List Text := allHeaders.filter fun name => !(noC && name == "c".toList)

theorem printed_facts : ∀ noC, (printed noC).Nodup ∧ (∀ name ∈ printed noC, name ∈ letters ∧ name ≠ "a".toList) ∧
    (∀ name ∈ generic, name ∈ printed noC) ∧ "m".toList ∈ printed noC ∧
      ("c".toList ∈ printed noC ↔ noC = false) ∧ ∃ rest, printed noC = "m".toList :: rest ∧ "m".toList ∉ rest := by
  intro noC
  cases noC with
  | true => exact ⟨by decide, by decide, by decide, by decide, by decide, ["i", "b", "k"].map String.toList, by decide⟩
  | false =>
    exact ⟨by decide, by decide, by decide, by decide, by decide, ["i", "c", "b", "k"].map String.toList, by decide⟩

theorem lastOf_lines (h : name ≠ "a".toList) : Line.lastOf name (sect.lines noC) =
    if name ∈ printed noC then (sect.header name).map (Header.written []) else none := by
  rw [lines, Line.lastOf_append, lastOf_attributeLines h, Option.none_or]
  exact lastOf_headerLines (printed_facts noC).1

theorem header_media : (sect.header "m".toList).map (Header.written []) = sect.mHeader.map SdpMedia.str := by
  rw [header, if_pos rfl, Option.map_map]
  rfl

theorem header_connection :
    (sect.header "c".toList).map (Header.written []) = sect.cHeader.map SdpConnecton.str := by
  rw [header, if_neg (by decide), if_pos rfl, Option.map_map]
  rfl

theorem header_generic (h : name ∈ generic) :
    (sect.header name).map (Header.written []) = sect.headers.lookup name := by
  obtain ⟨-, hm, hc⟩ := generic_names h
  rw [header, if_neg hm, if_neg hc, Option.map_map]
  exact Option.map_id'

theorem Fits.line {P : Text → Prop} (hP : ∀ v, Lib.Text.Tidy v → P v) (h : sect.Fits P) {l : Line}
    (hl : l ∈ sect.lines noC) : l.name ∈ letters ∧ P l.value ∧ ∀ s, ∃ s', Adds s l s' := by
  rcases List.mem_append.mp hl with hl | hl
  · obtain ⟨hname, h', hh', hvalue⟩ := mem_headerLines hl
    refine ⟨((printed_facts noC).2.1 l.name hname).1, ?_⟩
    rw [hvalue]
    unfold header at hh'
    split_ifs at hh' with hm hc
    · obtain ⟨m, hm', rfl⟩ := Option.map_eq_some_iff.mp hh'
      have htidy := h.media m hm'
      refine ⟨hP _ htidy.str, fun s => ⟨_, .media hm (m := m) ?_⟩⟩
      rw [hvalue]
      exact htidy.parse
    · obtain ⟨c, hc', rfl⟩ := Option.map_eq_some_iff.mp hh'
      have htidy := h.connection c hc'
      refine ⟨hP _ htidy.str, fun s => ⟨_, .connection hc (c := c) ?_⟩⟩
      rw [hvalue]
      exact htidy.parse
    · obtain ⟨v, hv, rfl⟩ := Option.map_eq_some_iff.mp hh'
      obtain ⟨hgeneric, htidy⟩ := h.headers l.name v hv
      exact ⟨htidy, fun s => ⟨_, .other hgeneric⟩⟩
  · obtain ⟨a, ha, rfl⟩ := List.mem_map.mp hl
    exact ⟨(by decide : "a".toList ∈ letters), (h.attributes a ha).str, fun s => ⟨_, .attr rfl⟩⟩

theorem Fits.isPart (h : sect.Tidy) (hm : sect.mHeader.isSome) : SdpBody.IsPart (sect.lines noC) := by
  refine ⟨?_, fun l hl => (h.line (fun _ hv => hv) hl).1⟩
  obtain ⟨m, hm⟩ := Option.isSome_iff_exists.mp hm
  obtain ⟨rest, hrest, hnot⟩ := (printed_facts noC).2.2.2.2.2
  have hheader : sect.header "m".toList = some (.media m) := by
    rw [header, if_pos rfl, hm]
    rfl
  have hprinted : headerLines (Header.written []) sect.header (printed noC) =
      ⟨"m".toList, m.str⟩ :: headerLines (Header.written []) sect.header rest := by
    rw [hrest, headerLines_cons, hheader]
    rfl
  refine ⟨⟨"m".toList, m.str⟩, headerLines (Header.written []) sect.header rest ++ attributeLines sect.aHeaders,
    ?_, rfl, fun l hl heq => ?_⟩
  · exact (congrArg (· ++ attributeLines sect.aHeaders) hprinted).trans List.cons_append
  · rcases List.mem_append.mp hl with hl | hl
    · exact hnot (heq ▸ (mem_headerLines hl).1)
    · obtain ⟨a, -, rfl⟩ := List.mem_map.mp hl
      have hname : "a".toList = "m".toList := heq
      exact absurd hname (by decide)

/-- A section that was printed comes back, with the connection of the session part if it left its own out. -/
theorem Fits.same (h : sect.Tidy) (hread : IsRead top (sect.lines noC) sect')
    (hin : noC = true → ∃ c, sect.cHeader = some c ∧ top = some c.str)
    (hout : noC = false → sect.cHeader.isSome ∨ top = none) : sect.Same sect' := by
  obtain ⟨-, hletters, hgeneric, hm, hc, -⟩ := printed_facts noC
  have hmedia := hread.media
  rw [lastOf_lines (by decide), if_pos hm, header_media] at hmedia
  refine ⟨eq_of_rel (fun m hm' => (h.media m hm').parse) hmedia, ?_, fun name => ?_, ?_⟩
  · have hconn := hread.connection
    rw [lastOf_lines (by decide), header_connection] at hconn
    cases noC with
    | true =>
      obtain ⟨c, hc', rfl⟩ := hin rfl
      rw [if_neg (fun hmem => nomatch hc.mp hmem), Option.none_or] at hconn
      obtain ⟨c', heq, hparse⟩ := Lib.rel_some hconn
      rw [heq, hc']
      exact congrArg some (Except.ok.inj (hparse.symm.trans (h.connection c hc').parse))
    | false =>
      rw [if_pos (hc.mpr rfl)] at hconn
      apply eq_of_rel fun c hc' => (h.connection c hc').parse
      rcases hout rfl with hsome | hnone
      · obtain ⟨c, hc'⟩ := Option.isSome_iff_exists.mp hsome
        rw [hc'] at hconn ⊢
        exact hconn
      · rwa [hnone, Option.or_none] at hconn
  · rw [hread.headers name]
    split
    · rename_i hname
      rw [lastOf_lines (generic_names hname).1, if_pos (hgeneric name hname), header_generic hname]
    · rename_i hname
      cases hlookup : sect.headers.lookup name with
      | none => rfl
      | some v => exact absurd (h.headers name v hlookup).1 hname
  · rw [hread.attributes, lines, Line.attributes_append, attributes_attributeLines h.attributes]
    have hnot : "a".toList ∉ printed noC := fun hmem => (hletters _ hmem).2 rfl
    rw [attributes_headerLines (show "a".toList ∉ allHeaders.filter _ from hnot)]
    rfl

end SdpMediaDescription

namespace Description
variable {d : Description} {b : SdpBody} {name x t : Text}

/-- The texts of a description meet a condition. -/
structure Fits (P : Text → Prop) (d : Description) : Prop where
  origin : ∀ o ∈ d.oHeader, o.Tidy
  connection : ∀ c ∈ d.cHeader, c.Tidy
  headers : ∀ name v, d.headers.lookup name = some v → name ∈ SdpBody.generic ∧ P v
  attributes : ∀ a ∈ d.aHeaders, a.Fits P
  sections : ∀ sect ∈ d.sections, sect.Fits P

/-- The texts of a description are those of lines. -/
abbrev Tidy (d : Description) : Prop := d.Fits Lib.Text.Tidy

/-- Nothing that a description needs is missing, and its connections are those of the sections if there are any. -/
structure Whole (d : Description) : Prop where
  origin : d.oHeader.isSome
  headers : ∀ name ∈ ["v", "s", "t"].map String.toList, (d.headers.lookup name).isSome
  media : ∀ sect ∈ d.sections, sect.mHeader.isSome
  connections : ∀ sect ∈ d.sections, sect.cHeader.isSome
  hoisted : d.sections = [] ∨ d.cHeader = none

/-- A description with the same headers, the same attributes and the same sections in order, up to
an address of our own. -/
structure Same (d : Description) (b : SdpBody) : Prop where
  origin : Option.Rel Origin.Same d.oHeader b.oHeader
  connection : b.cHeader = d.cHeader
  headers : ∀ name, b.headers.lookup name = d.headers.lookup name
  attributes : b.aHeaders = d.aHeaders
  sections : List.Forall₂ SdpMediaDescription.Same d.sections b.sections

theorem top_mem (h : d.top = some t) : ∃ sect ∈ d.sections, ∃ c, sect.cHeader = some c ∧ t = c.str := by
  unfold top at h
  cases hsingle : d.single with
  | some s =>
    obtain ⟨sect, c⟩ := s
    obtain ⟨hsections, hc⟩ := single_eq hsingle
    rw [hsingle] at h
    cases h
    exact ⟨sect, by simp [hsections], c, hc, rfl⟩
  | none =>
    rw [hsingle, Option.map_none, Option.none_or] at h
    obtain ⟨cs, hcs, heq⟩ := Option.bind_eq_some_iff.mp h
    split at heq
    · cases heq
      unfold candidates at hcs
      split at hcs
      · rename_i sect sect' rest _ hsections
        obtain ⟨c, hc, rfl⟩ := Option.map_eq_some_iff.mp hcs
        exact ⟨sect, by simp [hsections], c, hc, rfl⟩
      · exact absurd hcs.symm (Option.some_ne_none _)
    · exact absurd heq.symm (Option.some_ne_none _)

theorem mem_sessionLines {l : Line} (h : l ∈ d.sessionLines x) :
    (l.name ∈ allHeaders ∧ ∃ h' ∈ d.header l.name, l.value = h'.written x) ∨
      (∃ t, d.top = some t ∧ l = ⟨"c".toList, t⟩) ∨ ∃ a ∈ d.aHeaders, l = ⟨"a".toList, a.str⟩ := by
  have hfirst : ∀ n ∈ firstHalf, n ∈ allHeaders := by decide
  have hsecond : ∀ n ∈ secondHalf, n ∈ allHeaders := by decide
  rcases List.mem_append.mp h with h | h
  · cases htop : d.top with
    | none =>
      rw [htop] at h
      exact .inl (mem_headerLines h)
    | some t =>
      rw [htop] at h
      rcases List.mem_append.mp h with h | h
      · obtain ⟨hname, hvalue⟩ := mem_headerLines h
        exact .inl ⟨hfirst _ hname, hvalue⟩
      · rcases List.mem_cons.mp h with h | h
        · exact .inr (.inl ⟨t, rfl, h⟩)
        · obtain ⟨hname, hvalue⟩ := mem_headerLines h
          exact .inl ⟨hsecond _ hname, hvalue⟩
  · obtain ⟨a, ha, rfl⟩ := List.mem_map.mp h
    exact .inr (.inr ⟨a, ha, rfl⟩)

theorem header_origin (x : Text) :
    (d.header "o".toList).map (Header.written x) = d.oHeader.map fun o => (Header.origin o).written x := by
  rw [header, if_pos rfl, Option.map_map]
  rfl

theorem header_connection (x : Text) :
    (d.header "c".toList).map (Header.written x) = d.cHeader.map SdpConnecton.str := by
  rw [header, if_neg (by decide), if_pos rfl, Option.map_map]
  rfl

theorem header_generic (x : Text) (h : name ∈ SdpBody.generic) :
    (d.header name).map (Header.written x) = d.headers.lookup name := by
  obtain ⟨hc, -, ho⟩ := @SdpBody.generic_names ⟨name, []⟩ h
  rw [header, if_neg ho, if_neg hc, Option.map_map]
  exact Option.map_id'

theorem lastOf_connection (x : Text) :
    Line.lastOf "c".toList (d.sessionLines x) = d.top.or (d.cHeader.map SdpConnecton.str) := by
  rw [sessionLines, Line.lastOf_append, lastOf_attributeLines (by decide), Option.none_or]
  cases d.top with
  | none =>
    rw [Option.elim_none, lastOf_headerLines (by decide), if_pos (by decide), header_connection, Option.none_or]
  | some t =>
    have hsecond : Line.lastOf "c".toList (headerLines (Header.written x) d.header secondHalf) = none := by
      rw [lastOf_headerLines (by decide), if_neg (by decide)]
    rw [Option.elim_some, ← List.singleton_append, Line.lastOf_append, Line.lastOf_append, hsecond, Option.none_or,
      Line.lastOf_single, if_pos rfl, Option.some_or, Option.some_or]

theorem lastOf_sessionLines (hname : name ∈ allHeaders) (hc : name ≠ "c".toList) :
    Line.lastOf name (d.sessionLines x) = (d.header name).map (Header.written x) := by
  have ha : name ≠ "a".toList := by
    have hall : ∀ n ∈ allHeaders, n ≠ "a".toList := by decide
    exact hall name hname
  rw [sessionLines, Line.lastOf_append, lastOf_attributeLines ha, Option.none_or]
  cases d.top with
  | none => rw [Option.elim_none, lastOf_headerLines (by decide), if_pos hname]
  | some t =>
    have hhalves : ∀ n ∈ allHeaders, n ≠ "c".toList → (n ∈ secondHalf ∧ n ∉ firstHalf) ∨ (n ∉ secondHalf ∧ n ∈ firstHalf) := by
      decide
    have hc' : ("c".toList : Text) ≠ name := fun h => hc h.symm
    rw [Option.elim_some, ← List.singleton_append, Line.lastOf_append, Line.lastOf_append, Line.lastOf_single,
      if_neg hc', lastOf_headerLines (by decide), lastOf_headerLines (by decide)]
    rcases hhalves name hname hc with ⟨h₁, h₂⟩ | ⟨h₁, h₂⟩
    · rw [if_pos h₁, if_neg h₂, Option.or_none]
      exact Option.or_none
    · rw [if_neg h₁, if_pos h₂]
      rfl

theorem Fits.line {P : Text → Prop} (hP : ∀ v, Lib.Text.Tidy v → P v) (h : d.Fits P)
    (hx : d.own = true → TwoWords x) {l : Line} (hl : l ∈ d.sessionLines x) :
    (l.name ∈ letters ∧ l.name ≠ "m".toList) ∧ P l.value ∧ ∀ r, ∃ r', SdpBody.Adds r l r' := by
  have hletters : ∀ n ∈ allHeaders, n ∈ letters ∧ n ≠ "m".toList := by decide
  rcases mem_sessionLines hl with ⟨hname, h', hh', hvalue⟩ | ⟨t, htop, rfl⟩ | ⟨a, ha, rfl⟩
  · refine ⟨hletters _ hname, ?_⟩
    rw [hvalue]
    unfold header at hh'
    split_ifs at hh' with ho hc
    · obtain ⟨o, ho', rfl⟩ := Option.map_eq_some_iff.mp hh'
      have htidy := h.origin o ho'
      have hx' : o.address = .my → TwoWords x := fun hmy => hx (by simp [own, ho', hmy])
      obtain ⟨o', hparse, -⟩ := htidy.parse hx'
      refine ⟨hP _ (htidy.str hx'), fun r => ⟨_, .origin ho (o := o') ?_⟩⟩
      rw [hvalue]
      exact hparse
    · obtain ⟨c, hc', rfl⟩ := Option.map_eq_some_iff.mp hh'
      exact ⟨hP _ (h.connection c hc').str, fun r => ⟨_, .conn hc⟩⟩
    · obtain ⟨v, hv, rfl⟩ := Option.map_eq_some_iff.mp hh'
      obtain ⟨hgeneric, htidy⟩ := h.headers l.name v hv
      exact ⟨htidy, fun r => ⟨_, .other hgeneric⟩⟩
  · obtain ⟨sect, hsect, c, hc, rfl⟩ := top_mem htop
    exact ⟨(by decide : "c".toList ∈ letters ∧ "c".toList ≠ "m".toList),
      hP _ ((h.sections sect hsect).connection c hc).str, fun r => ⟨_, .conn rfl⟩⟩
  · exact ⟨(by decide : "a".toList ∈ letters ∧ "a".toList ≠ "m".toList), (h.attributes a ha).str,
      fun r => ⟨_, .attr rfl⟩⟩

theorem attributes_sessionLines {P : Text → Prop} (h : d.Fits P) : Line.attributes (d.sessionLines x) = d.aHeaders := by
  rw [sessionLines, Line.attributes_append, attributes_attributeLines h.attributes]
  cases d.top with
  | none =>
    rw [Option.elim_none, attributes_headerLines (by decide)]
    rfl
  | some t =>
    have hc : "c".toList ≠ "a".toList := by decide
    rw [Option.elim_some, ← List.singleton_append, Line.attributes_append, Line.attributes_append,
      attributes_headerLines (by decide), attributes_headerLines (by decide), Line.attributes_single, if_neg hc]
    rfl

theorem top_nil (h : d.sections = []) : d.top = none := by
  cases htop : d.top with
  | none => rfl
  | some t =>
    obtain ⟨sect, hsect, -⟩ := top_mem htop
    rw [h] at hsect
    exact absurd hsect List.not_mem_nil

theorem mem_parts {ls : List Line} (h : ls ∈ d.parts) : ∃ sect ∈ d.sections, ls = sect.lines (d.omits sect) := by
  obtain ⟨sect, hsect, rfl⟩ := List.mem_map.mp h
  exact ⟨sect, hsect, rfl⟩

/-- A section leaves out a connection that the session part has, and otherwise has one of its own. -/
theorem omits_connection (h : d.Whole) {sect : SdpMediaDescription} (hsect : sect ∈ d.sections) :
    (d.omits sect = true → ∃ c, sect.cHeader = some c ∧
      Line.lastOf "c".toList (d.sessionLines x) = some c.str) ∧ sect.cHeader.isSome := by
  refine ⟨fun homits => ?_, h.connections sect hsect⟩
  obtain ⟨c, hc⟩ := Option.isSome_iff_exists.mp (h.connections sect hsect)
  unfold omits at homits
  rw [hc, Bool.and_eq_true, beq_iff_eq] at homits
  refine ⟨c, hc, ?_⟩
  rw [lastOf_connection, ← homits.2]
  rfl

/-- All sections have a connection whose `localStr` can be compared. -/
theorem localStr_ok (h : d.Whole) (myAddress : Text) (la : Addr × Text) :
    ∃ s, d.localStr myAddress (some la) = .ok s := by
  obtain ⟨top, htop⟩ : ∃ top, d.localTop = .ok top := by
    unfold localTop
    split
    · exact ⟨none, rfl⟩
    · rename_i hcandidates
      unfold candidates at hcandidates
      split at hcandidates
      · rename_i sect sect' rest _ hsections
        obtain ⟨c, -, heq⟩ := Option.map_eq_some_iff.mp hcandidates
        have hsome := h.connections sect' (by simp [hsections])
        rw [(Prod.mk.inj heq).2] at hsome
        exact nomatch hsome
      · exact absurd hcandidates.symm (Option.some_ne_none _)
    · exact ⟨_, rfl⟩
  rw [localStr, htop]
  exact ⟨_, rfl⟩

theorem Fits.round_trip (h : d.Tidy) (hw : d.Whole) (hx : d.own = true → TwoWords x) :
    ∃ b, SdpBody.parse (d.written x) = .ok b ∧ d.Same b := by
  have hls : ∀ l ∈ d.sessionLines x, l.name ∈ letters ∧ l.name ≠ "m".toList := fun l hl => (h.line (fun _ hv => hv) hx hl).1
  have hparts : ∀ ls ∈ d.parts, SdpBody.IsPart ls := by
    intro ls hls
    obtain ⟨sect, hsect, rfl⟩ := mem_parts hls
    exact (h.sections sect hsect).isPart (hw.media sect hsect)
  have hlines : SdpBody.lines (d.written x) = (d.sessionLines x ++ d.parts.flatten).map Line.str := by
    rw [written_lines]
    apply lines_text_tidy
    intro l hl
    rcases List.mem_append.mp hl with hl | hl
    · exact ⟨(h.line (fun _ hv => hv) hx hl).1.1, (h.line (fun _ hv => hv) hx hl).2.1⟩
    · obtain ⟨ls, hls, hl⟩ := List.mem_flatten.mp hl
      obtain ⟨sect, hsect, rfl⟩ := mem_parts hls
      obtain ⟨hname, hvalue, -⟩ := (h.sections sect hsect).line (fun _ hv => hv) hl
      exact ⟨hname, hvalue⟩
  have hnames : ∀ n ∈ ["v", "s", "t"].map String.toList, n ∈ allHeaders ∧ n ≠ "c".toList ∧ n ∈ SdpBody.generic := by
    decide
  obtain ⟨b, hb⟩ : ∃ b, SdpBody.parse (d.written x) = .ok b := by
    apply SdpBody.parse_of_readable hlines hls hparts
    · exact fun l hl => (h.line (fun _ hv => hv) hx hl).2.2
    · intro ls hls l hl
      obtain ⟨sect, hsect, rfl⟩ := mem_parts hls
      exact ((h.sections sect hsect).line (fun _ hv => hv) hl).2.2
    · intro v hv
      rw [lastOf_connection, Option.or_eq_some_iff] at hv
      rcases hv with htop | ⟨-, hmap⟩
      · obtain ⟨sect, hsect, c, hc, rfl⟩ := top_mem htop
        exact ⟨c, ((h.sections sect hsect).connection c hc).parse⟩
      · obtain ⟨c, hc, rfl⟩ := Option.map_eq_some_iff.mp hmap
        exact ⟨c, (h.connection c hc).parse⟩
    · intro n hn
      rcases List.mem_cons.mp hn with rfl | hn
      · rw [lastOf_sessionLines (by decide) (by decide), header_origin, Option.isSome_map]
        exact hw.origin
      · obtain ⟨hall, hc, hgeneric⟩ := hnames n hn
        rw [lastOf_sessionLines hall hc, header_generic x hgeneric]
        exact hw.headers n hn
    · intro part hpart
      obtain ⟨sect, hsect, rfl⟩ := mem_parts hpart
      obtain ⟨homits, hsome⟩ := @omits_connection _ x hw _ hsect
      cases hcase : d.omits sect with
      | true =>
        obtain ⟨c, -, hlast⟩ := homits hcase
        rw [hlast, Option.isSome_or]
        simp
      | false =>
        have hmem : "c".toList ∈ SdpMediaDescription.printed false := by decide
        rw [SdpMediaDescription.lastOf_lines (by decide), if_pos hmem, SdpMediaDescription.header_connection,
          Option.isSome_or, Option.isSome_map, hsome]
        rfl
  have hbody := SdpBody.isBody_of_parse hlines hls hparts hb
  refine ⟨b, hb, ?_, ?_, fun name => ?_, ?_, ?_⟩
  · have horigin := hbody.origin
    rw [lastOf_sessionLines (by decide) (by decide), header_origin] at horigin
    cases ho : d.oHeader with
    | none =>
      rw [ho] at horigin
      rw [Lib.rel_none horigin]
      exact .none
    | some o =>
      rw [ho] at horigin
      obtain ⟨o', ho', hparse⟩ := Lib.rel_some horigin
      obtain ⟨o'', hparse', hsame⟩ := (h.origin o ho).parse fun hmy => hx (by simp [own, ho, hmy])
      rw [ho', Except.ok.inj (hparse.symm.trans hparse')]
      exact .some hsame
  · have hconn := hbody.connection
    by_cases hnil : d.sections = []
    · have hparts : d.parts = [] := by rw [parts, hnil, List.map_nil]
      rw [if_pos hparts, lastOf_connection, top_nil hnil, Option.none_or] at hconn
      exact eq_of_rel (fun c hc => (h.connection c hc).parse) hconn
    · have hparts : d.parts ≠ [] := by
        rw [parts, Ne, List.map_eq_nil_iff]
        exact hnil
      rw [if_neg hparts] at hconn
      rw [Lib.rel_none hconn, hw.hoisted.resolve_left hnil]
  · rw [hbody.headers name]
    split
    · rename_i hgeneric
      have hall : ∀ n ∈ SdpBody.generic, n ∈ allHeaders ∧ n ≠ "c".toList := by decide
      rw [lastOf_sessionLines (hall name hgeneric).1 (hall name hgeneric).2, header_generic x hgeneric]
    · rename_i hgeneric
      cases hlookup : d.headers.lookup name with
      | none => rfl
      | some v => exact absurd (h.headers name v hlookup).1 hgeneric
  · rw [hbody.attributes, attributes_sessionLines h]
  · have hsections := hbody.sections
    rw [parts, List.forall₂_map_left_iff] at hsections
    apply (Lib.forall₂_mem hsections).imp
    rintro sect sect' ⟨hsect, hread⟩
    obtain ⟨homits, hsome⟩ := @omits_connection _ x hw _ hsect
    exact (h.sections sect hsect).same hread homits fun _ => .inl hsome

end Description

/-- A value is a line's text from its `=` on. -/
theorem tidy_value {line name v : Text} (hline : Tidy line) (h : Lib.Text.split1 '=' line = (name, some v)) :
    Tidy v := by
  have heq := Lib.Text.split1_eq h
  have hstop := @Lib.Text.rdropWhile_stop Lib.Text.isSpace '=' (by decide) name v
  have hrstrip : rstrip (name ++ '=' :: v) = name ++ '=' :: rstrip v := hstop
  rw [← heq, hline.rstrip, heq] at hrstrip
  refine ⟨fun c hc => hline.unbroken c ?_, ?_⟩
  · rw [heq]
    simp [hc]
  · exact (List.cons.inj (List.append_cancel_left hrstrip)).2.symm

theorem fits_put {P : Text → Prop} {headers : List (Text × Text)} {names : List Text} {l : Line}
    (h : ∀ name v, headers.lookup name = some v → name ∈ names ∧ P v) (hname : l.name ∈ names) (hv : P l.value) :
    ∀ name v, (Lib.Items.put headers l.name l.value).lookup name = some v → name ∈ names ∧ P v := by
  intro name v hlookup
  rw [Lib.Items.lookup_put] at hlookup
  split at hlookup
  · rename_i heq
    cases hlookup
    exact ⟨heq ▸ hname, hv⟩
  · exact h name v hlookup

theorem SdpMediaDescription.fits_empty (P : Text → Prop) : SdpMediaDescription.empty.Fits P :=
  ⟨(fun _ h => nomatch h), (fun _ h => nomatch h), (fun _ _ h => nomatch h), fun _ h => nomatch h⟩

theorem SdpMediaDescription.Fits.adds {P : Text → Prop} {sect sect' : SdpMediaDescription} {l : Line} (h : sect.Fits P)
    (hl : SdpMediaDescription.Adds sect l sect') (hv : P l.value) : sect'.Fits P := by
  cases hl with
  | attr ha =>
    refine ⟨h.media, h.connection, h.headers, fun a hmem => ?_⟩
    rcases List.mem_append.mp hmem with hmem | hmem
    · exact h.attributes a hmem
    · rw [List.mem_singleton.mp hmem]
      exact AHeader.ofText_fits hv
  | media hm hparse =>
    refine ⟨fun m hmem => ?_, h.connection, h.headers, h.attributes⟩
    cases hmem
    exact SdpMedia.parse_tidy hparse
  | connection hc hparse =>
    refine ⟨h.media, fun c hmem => ?_, h.headers, h.attributes⟩
    cases hmem
    exact SdpConnecton.parse_tidy hparse
  | other hgeneric => exact ⟨h.media, h.connection, fits_put h.headers hgeneric hv, h.attributes⟩

namespace SdpBody
variable {P : Text → Prop} {b : SdpBody} {r r' : SdpBody × Option Text} {line : Text}

/-- What holds of the description along the lines. -/
structure Sound (P : Text → Prop) (b : SdpBody) : Prop where
  fits : (Description.ofSdpBody b).Fits P
  connection : b.cHeader = none

theorem sound_empty (P : Text → Prop) : Sound P empty :=
  ⟨⟨(fun _ h => nomatch h), (fun _ h => nomatch h), (fun _ _ h => nomatch h), (fun _ h => nomatch h), fun _ h => nomatch h⟩, rfl⟩

theorem Sound.adds {l : Line} (h : Sound P r.1) (hl : Adds r l r') (hv : P l.value) : Sound P r'.1 := by
  obtain ⟨⟨horigin, hconn, hheaders, has, hsections⟩, hnone⟩ := h
  cases hl with
  | conn hc => exact ⟨⟨horigin, hconn, hheaders, has, hsections⟩, hnone⟩
  | attr ha =>
    refine ⟨⟨horigin, hconn, hheaders, fun a hmem => ?_, hsections⟩, hnone⟩
    rcases List.mem_append.mp hmem with hmem | hmem
    · exact has a hmem
    · rw [List.mem_singleton.mp hmem]
      exact AHeader.ofText_fits hv
  | origin ho hparse =>
    refine ⟨⟨fun o hmem => ?_, hconn, hheaders, has, hsections⟩, hnone⟩
    cases hmem
    exact SdpOrigin.parse_tidy hparse
  | other hgeneric => exact ⟨⟨horigin, hconn, fits_put hheaders hgeneric hv, has, hsections⟩, hnone⟩

theorem Sound.sections {sects : List SdpMediaDescription} (h : Sound P b) (hsects : ∀ sect ∈ sects, sect.Fits P) :
    Sound P { b with sections := sects } :=
  ⟨⟨h.fits.origin, h.fits.connection, h.fits.headers, h.fits.attributes, hsects⟩, h.connection⟩

theorem fits_addToLast {sects sects' : List SdpMediaDescription} {l : Line} (h : ∀ sect ∈ sects, sect.Fits P)
    (hadd : addToLast sects l.name l.value = .ok sects') (hv : P l.value) : ∀ sect ∈ sects', sect.Fits P := by
  unfold addToLast at hadd
  split at hadd
  · exact nomatch hadd
  · rename_i sect hlast
    obtain ⟨sect', hsect', heq⟩ := Lib.bind_ok.mp hadd
    cases heq
    intro s hs
    rcases List.mem_append.mp hs with hs | hs
    · exact h s (List.dropLast_subset sects hs)
    · rw [List.mem_singleton.mp hs]
      exact (h sect (List.mem_of_getLast? hlast)).adds (SdpMediaDescription.addHeader_ok.mp hsect') hv

theorem Sound.addLine (h : Sound P r.1) (hline : ∀ name v, split1 '=' line = (name, some v) → P v)
    (hadd : addLine r line = .ok r') : Sound P r'.1 := by
  unfold SdpBody.addLine at hadd
  split at hadd
  · exact nomatch hadd
  · rename_i name v hsplit
    have hv := hline name v hsplit
    dsimp only at hadd
    split_ifs at hadd with hm hne hc
    · obtain ⟨sects, hsects, heq⟩ := Lib.bind_ok.mp hadd
      cases heq
      apply h.sections
      refine @fits_addToLast P _ _ ⟨lower name, v⟩ (fun sect hsect => ?_) hsects hv
      rcases List.mem_append.mp hsect with hsect | hsect
      · exact h.fits.sections sect hsect
      · rw [List.mem_singleton.mp hsect]
        exact SdpMediaDescription.fits_empty P
    · obtain ⟨sects, hsects, heq⟩ := Lib.bind_ok.mp hadd
      cases heq
      exact h.sections (@fits_addToLast P _ _ ⟨lower name, v⟩ h.fits.sections hsects hv)
    · cases hadd
      exact h
    · have hsession : addSession r ⟨lower name, v⟩ = .ok r' := by
        rw [addSession, if_neg hc]
        exact hadd
      exact h.adds (addSession_ok.mp hsession) hv

theorem Sound.fold {lines : List Text} (h : Sound P r.1)
    (hlines : ∀ l ∈ lines, ∀ name v, split1 '=' l = (name, some v) → P v)
    (hfold : lines.foldlM SdpBody.addLine r = .ok r') : Sound P r'.1 := by
  induction lines generalizing r with
  | nil =>
    cases hfold
    exact h
  | cons l lines ih =>
    rw [List.foldlM_cons] at hfold
    obtain ⟨r'', hl, hrest⟩ := Lib.bind_ok.mp hfold
    exact ih (h.addLine (hlines l List.mem_cons_self) hl) (fun m hm => hlines m (List.mem_cons_of_mem l hm)) hrest

theorem lookup_of_any {headers : List (Text × Text)} {name : Text} (h : headers.any (·.1 == name) = true) :
    (headers.lookup name).isSome := by
  obtain ⟨p, hp, hname⟩ := List.any_eq_true.mp h
  cases hlookup : headers.lookup name with
  | some v => rfl
  | none =>
    have hne := List.lookup_eq_none_iff.mp hlookup p hp
    rw [beq_iff_eq.mp hname] at hne
    simp at hne

theorem whole_of_sane (h : b.sane = true) (hhoisted : b.sections = [] ∨ b.cHeader = none) :
    (Description.ofSdpBody b).Whole := by
  unfold sane at h
  rw [Bool.and_eq_true, Bool.and_eq_true, List.all_eq_true, List.all_eq_true] at h
  obtain ⟨⟨ho, hheaders⟩, hsections⟩ := h
  refine ⟨?_, fun name hname => ?_, fun sect hsect => ?_, fun sect hsect => ?_, hhoisted⟩
  · unfold Description.ofSdpBody
    rwa [Option.isSome_map]
  · obtain ⟨n, hn, rfl⟩ := List.mem_map.mp hname
    exact lookup_of_any (hheaders n hn)
  · exact (Bool.and_eq_true_iff.mp (hsections sect hsect)).2
  · exact (Bool.and_eq_true_iff.mp (hsections sect hsect)).1

theorem Sound.spreadC {v : Text} (h : Sound P b) {b' : SdpBody} (hspread : b.spreadC v = .ok b') :
    (Description.ofSdpBody b').Fits P ∧ (b'.sections = [] ∨ b'.cHeader = none) := by
  unfold SdpBody.spreadC at hspread
  split at hspread
  · rename_i hnil
    rw [addHeader, if_neg (by decide), setHeader, if_neg (by decide), if_pos rfl] at hspread
    obtain ⟨c, hparse, heq⟩ := Lib.bind_ok.mp hspread
    cases heq
    refine ⟨⟨h.fits.origin, fun c' hc' => ?_, h.fits.headers, h.fits.attributes, h.fits.sections⟩, .inl hnil⟩
    cases hc'
    exact SdpConnecton.parse_tidy hparse
  · obtain ⟨sects, hsects, heq⟩ := Lib.bind_ok.mp hspread
    cases heq
    refine ⟨(h.sections fun sect' hsect' => ?_).fits, .inr h.connection⟩
    obtain ⟨sect, hsect, hadd⟩ := Lib.exists_of_forall₂ (Lib.mapM_ok.mp hsects).flip hsect'
    have htidy := h.fits.sections sect hsect
    split at hadd
    · rw [SdpMediaDescription.addHeader, if_neg (by decide), if_neg (by decide), if_pos rfl] at hadd
      obtain ⟨c, hparse, heq⟩ := Lib.bind_ok.mp hadd
      cases heq
      refine ⟨htidy.media, fun c' hc' => ?_, htidy.headers, htidy.attributes⟩
      cases hc'
      exact SdpConnecton.parse_tidy hparse
    · cases hadd
      exact htidy

theorem parse_fits {body : Text} (h : parse body = .ok b)
    (hlines : ∀ l ∈ lines body, ∀ name v, split1 '=' l = (name, some v) → P v) :
    (Description.ofSdpBody b).Fits P ∧ (Description.ofSdpBody b).Whole := by
  obtain ⟨r, hr, hspread, hsane⟩ := parse_eq_ok.mp h
  have hsound : Sound P r.1 := (sound_empty P).fold hlines hr
  cases hc : r.2 with
  | none =>
    rw [hc] at hspread
    cases hspread
    exact ⟨hsound.fits, whole_of_sane hsane (.inr hsound.connection)⟩
  | some v =>
    rw [hc] at hspread
    obtain ⟨hspread, hhoisted⟩ := hsound.spreadC hspread
    exact ⟨hspread, whole_of_sane hsane hhoisted⟩

theorem unbroken_of_mem_lines {body l : Text} (h : l ∈ lines body) : Unbroken l :=
  Lib.Text.unbroken_of_mem_splitlines (List.mem_of_mem_filter h)

/-- The texts of the description are those of lines if no line has white space at its end. -/
theorem parse_tidy {body : Text} (h : parse body = .ok b) (hlines : ∀ l ∈ lines body, rstrip l = l) :
    (Description.ofSdpBody b).Tidy ∧ (Description.ofSdpBody b).Whole :=
  parse_fits h fun l hl _ _ => tidy_value ⟨unbroken_of_mem_lines hl, hlines l hl⟩

end SdpBody

end SippyB2bua.Sdp
