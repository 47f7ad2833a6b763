import SippyB2bua.Lib.Fallible
import SippyB2bua.Lib.Items
import SippyB2bua.Lib.Lines
import SippyB2bua.Lib.Tidy
import SippyB2bua.SdpText

/-!
# The lines of a description

The reader goes over the lines one by one and the printer writes them one by one. What has been read of
a part is, for every name but `a`, the last line with that name, and what is printed of a part has one line
for each name that is there.
-/

namespace SippyB2bua.Sdp
open Lib (Text)
open Lib.Text (crlf endLines Tidy Unbroken split1 splitlines strip rstrip lower)

/-- A line `name=value`. -/
structure Line where
  name : Text
  value : Text
  deriving DecidableEq

namespace Line

def str (l : Line) : Text := l.name ++ '=' :: l.value

def text (ls : List Line) : Text := endLines (ls.map str)

def lastOf (name : Text) (ls : List Line) : Option Text := (ls.reverse.find? (·.name == name)).map value

def attributes (ls : List Line) : List AHeader :=
  (ls.filter (·.name == "a".toList)).map fun l => .ofText l.value

end Line

def letters : List Text := SdpBody.generic ++ ["o", "c", "a", "m"].map String.toList

section Names
variable {name : Text} {l : Line} {ls ls' : List Line}

theorem letters_lower (h : name ∈ letters) : lower name = name := by
  have hall : ∀ n ∈ letters, lower n = n := by decide
  exact hall name h

theorem letters_split (h : l.name ∈ letters) : split1 '=' l.str = (l.name, some l.value) := by
  have hall : ∀ n ∈ letters, '=' ∉ n := by decide
  exact Lib.Text.split1_append (hall l.name h) l.value

theorem letters_start (h : l.name ∈ letters) : ∃ c ∈ l.str.head?, Lib.Text.isSpace c = false := by
  have hall : ∀ n ∈ letters, n.head?.any (fun c => !Lib.Text.isSpace c) = true := by decide
  obtain ⟨c, hc, hspace⟩ := (Option.any_eq_true _ _).mp (hall l.name h)
  refine ⟨c, ?_, by simpa using hspace⟩
  rw [Line.str, List.head?_append, hc]
  rfl

theorem letters_unbroken (h : l.name ∈ letters) (hv : Unbroken l.value) : Unbroken l.str := by
  have hall : ∀ n ∈ letters, Unbroken n := by decide
  refine (hall l.name h).append fun c hc => ?_
  rcases List.mem_cons.mp hc with rfl | hc
  · decide
  · exact hv c hc

@[simp] theorem Line.lastOf_nil : Line.lastOf name [] = none := rfl

theorem Line.lastOf_append : Line.lastOf name (ls ++ ls') = (Line.lastOf name ls').or (Line.lastOf name ls) := by
  unfold Line.lastOf
  rw [List.reverse_append, List.find?_append]
  cases ls'.reverse.find? (·.name == name) <;> rfl

theorem Line.lastOf_single : Line.lastOf name [l] = if l.name = name then some l.value else none := by
  unfold Line.lastOf
  by_cases h : l.name = name
  · simp [h]
  · simp [h]

theorem Line.lastOf_concat : Line.lastOf name (ls ++ [l]) =
    if l.name = name then some l.value else Line.lastOf name ls := by
  rw [Line.lastOf_append, Line.lastOf_single]
  split
  · rfl
  · rfl

theorem Line.lastOf_eq_none (h : ∀ l ∈ ls, l.name ≠ name) : Line.lastOf name ls = none := by
  unfold Line.lastOf
  rw [Option.map_eq_none_iff, List.find?_eq_none]
  intro l hl
  simpa using h l (List.mem_reverse.mp hl)

theorem Line.lastOf_isSome (hl : l ∈ ls) (hname : l.name = name) : (Line.lastOf name ls).isSome := by
  cases h : Line.lastOf name ls with
  | some v => rfl
  | none =>
    rw [Line.lastOf, Option.map_eq_none_iff, List.find?_eq_none] at h
    exact absurd (beq_iff_eq.mpr hname) (h l (List.mem_reverse.mpr hl))

theorem Line.mem_of_lastOf {v : Text} (h : Line.lastOf name ls = some v) : ⟨name, v⟩ ∈ ls := by
  obtain ⟨l, hl, rfl⟩ := Option.map_eq_some_iff.mp h
  have hname : l.name = name := by simpa using List.find?_some hl
  rw [← hname]
  exact List.mem_reverse.mp (List.mem_of_find?_eq_some hl)

theorem Line.attributes_append : Line.attributes (ls ++ ls') = Line.attributes ls ++ Line.attributes ls' := by
  simp [Line.attributes]

theorem Line.attributes_single : Line.attributes [l] = if l.name = "a".toList then [.ofText l.value] else [] := by
  unfold Line.attributes
  rw [List.filter_cons]
  by_cases h : l.name = "a".toList
  · rw [if_pos (beq_iff_eq.mpr h), if_pos h]
    rfl
  · rw [if_neg fun hb => h (beq_iff_eq.mp hb), if_neg h]
    rfl

theorem Line.attributes_eq_nil (h : ∀ l ∈ ls, l.name ≠ "a".toList) : Line.attributes ls = [] := by
  unfold Line.attributes
  rw [List.map_eq_nil_iff, List.filter_eq_nil_iff]
  intro l hl
  simpa using h l hl

theorem Line.lastOf_same (h : l.name = name) : Line.lastOf name (ls ++ [l]) = some l.value := by
  rw [Line.lastOf_concat, if_pos h]

theorem Line.lastOf_other (h : l.name ≠ name) : Line.lastOf name (ls ++ [l]) = Line.lastOf name ls := by
  rw [Line.lastOf_concat, if_neg h]

theorem Line.attributes_same (h : l.name = "a".toList) :
    Line.attributes (ls ++ [l]) = Line.attributes ls ++ [.ofText l.value] := by
  rw [Line.attributes_append, Line.attributes_single, if_pos h]

theorem Line.attributes_other (h : l.name ≠ "a".toList) : Line.attributes (ls ++ [l]) = Line.attributes ls := by
  rw [Line.attributes_append, Line.attributes_single, if_neg h, List.append_nil]

def Line.Holds (names : List Text) (ls : List Line) (headers : List (Text × Text)) : Prop :=
  ∀ name, headers.lookup name = if name ∈ names then Line.lastOf name ls else none

variable {names : List Text} {headers : List (Text × Text)}

theorem Line.Holds.keep (h : Line.Holds names ls headers) (hl : l.name ∉ names) :
    Line.Holds names (ls ++ [l]) headers := by
  intro name
  rw [h name]
  split
  · rename_i hname
    have hne : l.name ≠ name := fun heq => hl (heq ▸ hname)
    rw [Line.lastOf_other hne]
  · rfl

theorem Line.Holds.put (h : Line.Holds names ls headers) (hl : l.name ∈ names) :
    Line.Holds names (ls ++ [l]) (Lib.Items.put headers l.name l.value) := by
  intro name
  rw [Lib.Items.lookup_put, h name]
  by_cases hname : name = l.name
  · rw [if_pos hname, hname, if_pos hl, Line.lastOf_same rfl]
  · have hne : l.name ≠ name := fun heq => hname heq.symm
    rw [if_neg hname, Line.lastOf_other hne]

end Names

def SdpBody.lines (body : Text) : List Text := (splitlines (strip body)).filter fun l => strip l != []

section Read
variable {ls : List Line} {l : Line}

theorem lines_text (h : ∀ m ∈ ls ++ [l], m.name ∈ letters ∧ Unbroken m.value) :
    SdpBody.lines (Line.text (ls ++ [l])) = (ls ++ [{ l with value := rstrip l.value }]).map Line.str := by
  have hstart : ∀ m ∈ ls.map Line.str ++ [l.str], Unbroken m ∧ ∃ c ∈ m.head?, Lib.Text.isSpace c = false := by
    intro m hm
    have hm' : m ∈ (ls ++ [l]).map Line.str := by simpa using hm
    obtain ⟨n, hn, rfl⟩ := List.mem_map.mp hm'
    exact ⟨letters_unbroken (h n hn).1 (h n hn).2, letters_start (h n hn).1⟩
  have hlast : rstrip l.str = (⟨l.name, rstrip l.value⟩ : Line).str :=
    @Lib.Text.rdropWhile_stop Lib.Text.isSpace '=' (by decide) l.name l.value
  have hlines : splitlines (strip (Line.text (ls ++ [l]))) =
      (ls ++ [{ l with value := rstrip l.value }]).map Line.str := by
    have hstrip := Lib.Text.splitlines_strip hstart
    rw [hlast] at hstrip
    simpa [Line.text] using hstrip
  rw [SdpBody.lines, hlines, List.filter_eq_self]
  intro m hm
  obtain ⟨n, hn, rfl⟩ := List.mem_map.mp hm
  have hname : n.name ∈ letters := by
    rcases List.mem_append.mp hn with hn | hn
    · exact (h n (by simp [hn])).1
    · rw [List.mem_singleton.mp hn]
      exact (h l (by simp)).1
  obtain ⟨c, hc, hspace⟩ := letters_start hname
  rw [bne_iff_ne]
  intro hnil
  rcases Lib.Text.mem_strip_or (List.mem_of_mem_head? hc) with hmem | hmem
  · rw [hnil] at hmem
    exact absurd hmem List.not_mem_nil
  · rw [hspace] at hmem
    exact Bool.false_ne_true hmem

theorem lines_text_tidy (h : ∀ m ∈ ls, m.name ∈ letters ∧ Tidy m.value) :
    SdpBody.lines (Line.text ls) = ls.map Line.str := by
  rcases ls.eq_nil_or_concat with rfl | ⟨init, last, rfl⟩
  · rfl
  · rw [List.concat_eq_append] at h ⊢
    rw [lines_text fun m hm => ⟨(h m hm).1, (h m hm).2.unbroken⟩, (h last (by simp)).2.rstrip]

end Read

namespace SdpMediaDescription
variable {ls : List Line} {l : Line} {sect sect' : SdpMediaDescription} {name v : Text}

def generic : List Text := ["i".toList, "b".toList, "k".toList]

def read (ls : List Line) : Except Exn SdpMediaDescription :=
  ls.foldlM (fun sect l => sect.addHeader l.name l.value) .empty

/-- What has been read of a section; `top` is the connection for sections that have none. -/
structure IsRead (top : Option Text) (ls : List Line) (sect : SdpMediaDescription) : Prop where
  names : ∀ l ∈ ls, l.name ∈ ["a", "m", "c"].map String.toList ∨ l.name ∈ generic
  media : Option.Rel (fun v m => SdpMedia.parse v = .ok m) (Line.lastOf "m".toList ls) sect.mHeader
  connection : Option.Rel (fun v c => SdpConnecton.parse v = .ok c) ((Line.lastOf "c".toList ls).or top) sect.cHeader
  headers : Line.Holds generic ls sect.headers
  attributes : sect.aHeaders = Line.attributes ls

inductive Adds (sect : SdpMediaDescription) (l : Line) : SdpMediaDescription → Prop
  | attr (h : l.name = "a".toList) : Adds sect l (sect.addAHeader (.ofText l.value))
  | media (h : l.name = "m".toList) {m : SdpMedia} (hm : SdpMedia.parse l.value = .ok m) :
      Adds sect l { sect with mHeader := some m }
  | connection (h : l.name = "c".toList) {c : SdpConnecton} (hc : SdpConnecton.parse l.value = .ok c) :
      Adds sect l { sect with cHeader := some c }
  | other (h : l.name ∈ generic) :
      Adds sect l { sect with headers := Lib.Items.put sect.headers l.name l.value }

theorem put_eq (headers : List (Text × Text)) (name v : Text) :
    headers.filter (·.1 != name) ++ [(name, v)] = Lib.Items.put headers name v := by
  rw [Lib.Items.put]
  congr 1
  apply List.filter_congr
  intro p _
  by_cases h : p.1 = name
  · simp [h]
  · simp [h]

theorem generic_names (h : name ∈ generic) : name ≠ "a".toList ∧ name ≠ "m".toList ∧ name ≠ "c".toList := by
  have hall : ∀ n ∈ generic, n ≠ "a".toList ∧ n ≠ "m".toList ∧ n ≠ "c".toList := by decide
  exact hall name h

theorem addHeader_ok : sect.addHeader l.name l.value = .ok sect' ↔ Adds sect l sect' := by
  unfold addHeader
  constructor
  · intro h
    split_ifs at h with ha hm hc hgeneric
    · cases h
      exact .attr ha
    · obtain ⟨m, hparse, heq⟩ := Lib.bind_ok.mp h
      cases heq
      exact .media hm hparse
    · obtain ⟨c, hparse, heq⟩ := Lib.bind_ok.mp h
      cases heq
      exact .connection hc hparse
    · rw [put_eq] at h
      cases h
      exact .other hgeneric
  · intro h
    cases h with
    | attr ha => rw [if_pos ha]
    | media hm hparse =>
      rw [hm, if_neg (by decide), if_pos rfl, hparse]
      rfl
    | connection hc hparse =>
      rw [hc, if_neg (by decide), if_neg (by decide), if_pos rfl, hparse]
      rfl
    | other hgeneric =>
      have hname := generic_names hgeneric
      have hgeneric' : l.name ∈ ["i".toList, "b".toList, "k".toList] := hgeneric
      rw [if_neg hname.1, if_neg hname.2.1, if_neg hname.2.2, if_pos hgeneric', put_eq]

theorem isRead_empty : IsRead none [] empty where
  names l h := absurd h List.not_mem_nil
  media := .none
  connection := .none
  headers name := by split <;> rfl
  attributes := rfl

theorem IsRead.adds (h : IsRead none ls sect) (hl : Adds sect l sect') : IsRead none (ls ++ [l]) sect' := by
  have hnames (hl : l.name ∈ ["a", "m", "c"].map String.toList ∨ l.name ∈ SdpMediaDescription.generic) :
      ∀ l' ∈ ls ++ [l], l'.name ∈ ["a", "m", "c"].map String.toList ∨ l'.name ∈ SdpMediaDescription.generic := by
    intro l' hl'
    rcases List.mem_append.mp hl' with hl' | hl'
    · exact h.names l' hl'
    · rw [List.mem_singleton.mp hl']
      exact hl
  cases hl with
  | attr ha =>
    refine ⟨hnames (.inl (by rw [ha]; decide)), ?_, ?_, h.headers.keep (by rw [ha]; decide), ?_⟩
    · rw [Line.lastOf_other (by rw [ha]; decide)]
      exact h.media
    · rw [Line.lastOf_other (by rw [ha]; decide)]
      exact h.connection
    · rw [Line.attributes_same ha, ← h.attributes]
      rfl
  | media hm hparse =>
    refine ⟨hnames (.inl (by rw [hm]; decide)), ?_, ?_, h.headers.keep (by rw [hm]; decide), ?_⟩
    · rw [Line.lastOf_same hm]
      exact .some hparse
    · rw [Line.lastOf_other (by rw [hm]; decide)]
      exact h.connection
    · rw [Line.attributes_other (by rw [hm]; decide)]
      exact h.attributes
  | connection hc hparse =>
    refine ⟨hnames (.inl (by rw [hc]; decide)), ?_, ?_, h.headers.keep (by rw [hc]; decide), ?_⟩
    · rw [Line.lastOf_other (by rw [hc]; decide)]
      exact h.media
    · rw [Line.lastOf_same hc]
      exact .some hparse
    · rw [Line.attributes_other (by rw [hc]; decide)]
      exact h.attributes
  | other hgeneric =>
    have hname := generic_names hgeneric
    refine ⟨hnames (.inr hgeneric), ?_, ?_, h.headers.put hgeneric, ?_⟩
    · rw [Line.lastOf_other hname.2.1]
      exact h.media
    · rw [Line.lastOf_other hname.2.2]
      exact h.connection
    · rw [Line.attributes_other hname.1]
      exact h.attributes

theorem read_ok (h : read ls = .ok sect) : IsRead none ls sect := by
  induction ls using List.reverseRecOn generalizing sect with
  | nil =>
    cases h
    exact isRead_empty
  | append_singleton ls l ih =>
    obtain ⟨sect', hls, hl⟩ := Lib.foldlM_concat_ok.mp h
    exact (ih hls).adds (addHeader_ok.mp hl)

theorem IsRead.spread {v : Text} (h : IsRead none ls sect)
    (hs : (if sect.cHeader = none then sect.addHeader "c".toList v else .ok sect) = .ok sect') :
    IsRead (some v) ls sect' := by
  have hconn := h.connection
  rw [Option.or_none] at hconn
  cases hlast : Line.lastOf "c".toList ls with
  | none =>
    rw [hlast] at hconn
    have hnone : sect.cHeader = none := Lib.rel_none hconn
    rw [if_pos hnone, addHeader, if_neg (by decide), if_neg (by decide), if_pos rfl] at hs
    obtain ⟨c, hparse, heq⟩ := Lib.bind_ok.mp hs
    cases heq
    refine ⟨h.names, h.media, ?_, h.headers, h.attributes⟩
    rw [hlast, Option.none_or]
    exact .some hparse
  | some w =>
    have hsome : sect.cHeader ≠ none := by
      rw [hlast] at hconn
      obtain ⟨c, hc, -⟩ := Lib.rel_some hconn
      rw [hc]
      exact Option.some_ne_none c
    rw [if_neg hsome] at hs
    cases hs
    refine ⟨h.names, h.media, ?_, h.headers, h.attributes⟩
    rw [hlast] at hconn ⊢
    exact hconn

theorem spread_of_parse {v : Text} {c : SdpConnecton} (hparse : SdpConnecton.parse v = .ok c)
    (sect : SdpMediaDescription) :
    ∃ sect', (if sect.cHeader = none then sect.addHeader "c".toList v else .ok sect) = .ok sect' := by
  split
  · exact ⟨_, (@addHeader_ok ⟨"c".toList, v⟩ _ _).mpr (.connection rfl hparse)⟩
  · exact ⟨sect, rfl⟩

theorem read_of_readable (h : ∀ l ∈ ls, ∀ sect, ∃ sect', Adds sect l sect') : ∃ sect, read ls = .ok sect := by
  apply Lib.foldlM_ok
  intro l hl sect
  obtain ⟨sect', hadd⟩ := h l hl sect
  exact ⟨sect', addHeader_ok.mpr hadd⟩

end SdpMediaDescription

namespace SdpBody
variable {ls : List Line} {l : Line} {r r' : SdpBody × Option Text} {parts : List (List Line)}

def addSession (r : SdpBody × Option Text) (l : Line) : Except Exn (SdpBody × Option Text) :=
  if l.name = "c".toList then .ok (r.1, some l.value)
  else do return (← r.1.addHeader l.name l.value, r.2)

def readSession (ls : List Line) : Except Exn (SdpBody × Option Text) := ls.foldlM addSession (.empty, none)

structure IsSession (ls : List Line) (r : SdpBody × Option Text) : Prop where
  origin : Option.Rel (fun v o => SdpOrigin.parse v = .ok o) (Line.lastOf "o".toList ls) r.1.oHeader
  headers : Line.Holds generic ls r.1.headers
  attributes : r.1.aHeaders = Line.attributes ls
  pending : r.2 = Line.lastOf "c".toList ls
  connection : r.1.cHeader = none
  sections : r.1.sections = []

/-- What one line does to the session part. -/
inductive Adds (r : SdpBody × Option Text) (l : Line) : SdpBody × Option Text → Prop
  | conn (h : l.name = "c".toList) : Adds r l (r.1, some l.value)
  | attr (h : l.name = "a".toList) : Adds r l ({ r.1 with aHeaders := r.1.aHeaders ++ [.ofText l.value] }, r.2)
  | origin (h : l.name = "o".toList) {o : SdpOrigin} (ho : SdpOrigin.parse l.value = .ok o) :
      Adds r l ({ r.1 with oHeader := some o }, r.2)
  | other (h : l.name ∈ generic) :
      Adds r l ({ r.1 with headers := Lib.Items.put r.1.headers l.name l.value }, r.2)

theorem generic_names (h : l.name ∈ generic) : l.name ≠ "c".toList ∧ l.name ≠ "a".toList ∧ l.name ≠ "o".toList := by
  have hall : ∀ n ∈ generic, n ≠ "c".toList ∧ n ≠ "a".toList ∧ n ≠ "o".toList := by decide
  exact hall l.name h

theorem addSession_ok : addSession r l = .ok r' ↔ Adds r l r' := by
  unfold addSession
  constructor
  · intro h
    split_ifs at h with hc
    · cases h
      exact .conn hc
    · obtain ⟨b, hb, heq⟩ := Lib.bind_ok.mp h
      cases heq
      unfold addHeader setHeader at hb
      split_ifs at hb with ha ho hgeneric
      · cases hb
        exact .attr ha
      · obtain ⟨o, hparse, heq⟩ := Lib.bind_ok.mp hb
        cases heq
        exact .origin ho hparse
      · rw [SdpMediaDescription.put_eq] at hb
        cases hb
        exact .other hgeneric
  · intro h
    cases h with
    | conn hc => rw [if_pos hc]
    | attr ha =>
      rw [ha, if_neg (by decide)]
      rfl
    | origin ho hparse =>
      rw [ho, if_neg (by decide), addHeader, if_neg (by decide), setHeader, if_pos rfl, hparse]
      rfl
    | other hgeneric =>
      have hname := generic_names hgeneric
      rw [if_neg hname.1, addHeader, if_neg hname.2.1, setHeader, if_neg hname.2.2, if_neg hname.1,
        if_pos hgeneric, SdpMediaDescription.put_eq]
      rfl

theorem isSession_empty : IsSession [] (.empty, none) where
  origin := .none
  headers name := by split <;> rfl
  attributes := rfl
  pending := rfl
  connection := rfl
  sections := rfl

theorem IsSession.adds (h : IsSession ls r) (hl : Adds r l r') : IsSession (ls ++ [l]) r' := by
  cases hl with
  | conn hc =>
    refine ⟨?_, h.headers.keep (by rw [hc]; decide), ?_, (Line.lastOf_same hc).symm, h.connection, h.sections⟩
    · rw [Line.lastOf_other (by rw [hc]; decide)]
      exact h.origin
    · rw [Line.attributes_other (by rw [hc]; decide)]
      exact h.attributes
  | attr ha =>
    refine ⟨?_, h.headers.keep (by rw [ha]; decide), ?_, ?_, h.connection, h.sections⟩
    · rw [Line.lastOf_other (by rw [ha]; decide)]
      exact h.origin
    · rw [Line.attributes_same ha, ← h.attributes]
    · rw [Line.lastOf_other (by rw [ha]; decide)]
      exact h.pending
  | origin ho hparse =>
    refine ⟨?_, h.headers.keep (by rw [ho]; decide), ?_, ?_, h.connection, h.sections⟩
    · rw [Line.lastOf_same ho]
      exact .some hparse
    · rw [Line.attributes_other (by rw [ho]; decide)]
      exact h.attributes
    · rw [Line.lastOf_other (by rw [ho]; decide)]
      exact h.pending
  | other hgeneric =>
    have hname := generic_names hgeneric
    refine ⟨?_, h.headers.put hgeneric, ?_, ?_, h.connection, h.sections⟩
    · rw [Line.lastOf_other hname.2.2]
      exact h.origin
    · rw [Line.attributes_other hname.2.1]
      exact h.attributes
    · rw [Line.lastOf_other hname.1]
      exact h.pending

theorem readSession_ok (h : readSession ls = .ok r) : IsSession ls r := by
  induction ls using List.reverseRecOn generalizing r with
  | nil =>
    cases h
    exact isSession_empty
  | append_singleton ls l ih =>
    obtain ⟨r', hls, hl⟩ := Lib.foldlM_concat_ok.mp h
    exact (ih hls).adds (addSession_ok.mp hl)

theorem readSession_of_readable (h : ∀ l ∈ ls, ∀ r, ∃ r', Adds r l r') : ∃ r, readSession ls = .ok r := by
  apply Lib.foldlM_ok
  intro l hl r
  obtain ⟨r', hadd⟩ := h l hl r
  exact ⟨r', addSession_ok.mpr hadd⟩

/-- The lines of a section: the first opens it, and it is the only one that does. -/
structure IsPart (ls : List Line) : Prop where
  opens : ∃ l rest, ls = l :: rest ∧ l.name = "m".toList ∧ ∀ l' ∈ rest, l'.name ≠ "m".toList
  named : ∀ l ∈ ls, l.name ∈ letters

theorem addLine_session (hl : l.name ∈ letters) (hm : l.name ≠ "m".toList) (hs : r.1.sections = []) :
    addLine r l.str = addSession r l := by
  have hs' : ¬ (r.1.sections ≠ []) := fun h => h hs
  unfold addLine addSession
  rw [letters_split hl]
  dsimp only
  rw [letters_lower hl, if_neg hm, if_neg hs']

theorem addLine_opens (hm : l.name = "m".toList) : addLine r l.str =
    do return ({ r.1 with sections := r.1.sections ++ [← SdpMediaDescription.empty.addHeader l.name l.value] }, r.2) := by
  have hl : l.name ∈ letters := by
    rw [hm]
    decide
  unfold addLine
  rw [letters_split hl]
  dsimp only
  rw [letters_lower hl, if_pos hm, addToLast, List.getLast?_concat]
  dsimp only
  rw [List.dropLast_concat]
  cases SdpMediaDescription.empty.addHeader l.name l.value <;> rfl

theorem addLine_last {b : SdpBody} {c : Option Text} {sects : List SdpMediaDescription} {sect : SdpMediaDescription}
    (hl : l.name ∈ letters) (hm : l.name ≠ "m".toList) : addLine ({ b with sections := sects ++ [sect] }, c) l.str =
    do return ({ b with sections := sects ++ [← sect.addHeader l.name l.value] }, c) := by
  have hne : sects ++ [sect] ≠ [] := by simp
  unfold addLine
  rw [letters_split hl]
  dsimp only
  rw [letters_lower hl, if_neg hm, if_pos hne, addToLast, List.getLast?_concat]
  dsimp only
  rw [List.dropLast_concat]
  cases sect.addHeader l.name l.value <;> rfl

theorem fold_session (h : ∀ l ∈ ls, l.name ∈ letters ∧ l.name ≠ "m".toList) (hs : r.1.sections = []) :
    (ls.map Line.str).foldlM addLine r = ls.foldlM addSession r := by
  induction ls generalizing r with
  | nil => rfl
  | cons l ls ih =>
    have hl := h l List.mem_cons_self
    rw [List.map_cons, List.foldlM_cons, List.foldlM_cons, addLine_session hl.1 hl.2 hs]
    cases hadd : addSession r l with
    | error e => rfl
    | ok r' =>
      have hs' : r'.1.sections = [] := by
        cases addSession_ok.mp hadd <;> exact hs
      exact ih (fun m hm => h m (List.mem_cons_of_mem l hm)) hs'

theorem fold_rest {b : SdpBody} {c : Option Text} {sects : List SdpMediaDescription} {sect : SdpMediaDescription}
    (h : ∀ l ∈ ls, l.name ∈ letters ∧ l.name ≠ "m".toList) :
    (ls.map Line.str).foldlM addLine ({ b with sections := sects ++ [sect] }, c) =
      do return ({ b with sections := sects ++
        [← ls.foldlM (fun sect l => sect.addHeader l.name l.value) sect] }, c) := by
  induction ls generalizing sect with
  | nil => rfl
  | cons l ls ih =>
    have hl := h l List.mem_cons_self
    rw [List.map_cons, List.foldlM_cons, List.foldlM_cons, addLine_last hl.1 hl.2]
    cases sect.addHeader l.name l.value with
    | error e => rfl
    | ok sect' => exact ih fun m hm => h m (List.mem_cons_of_mem l hm)

theorem fold_part {b : SdpBody} {c : Option Text} (h : IsPart ls) : (ls.map Line.str).foldlM addLine (b, c) =
    do return ({ b with sections := b.sections ++ [← SdpMediaDescription.read ls] }, c) := by
  obtain ⟨l, rest, rfl, hm, hrest⟩ := h.opens
  rw [List.map_cons, List.foldlM_cons, addLine_opens hm, SdpMediaDescription.read, List.foldlM_cons]
  cases SdpMediaDescription.empty.addHeader l.name l.value with
  | error e => rfl
  | ok sect => exact fold_rest fun m hm' => ⟨h.named m (List.mem_cons_of_mem l hm'), hrest m hm'⟩

theorem fold_parts {b : SdpBody} {c : Option Text} (h : ∀ ls ∈ parts, IsPart ls) :
    (parts.flatten.map Line.str).foldlM addLine (b, c) =
      do return ({ b with sections := b.sections ++ (← parts.mapM SdpMediaDescription.read) }, c) := by
  induction parts generalizing b with
  | nil =>
    rw [List.mapM_nil, pure_bind, List.append_nil]
    rfl
  | cons ls parts ih =>
    rw [List.flatten_cons, List.map_append, List.foldlM_append, fold_part (h ls List.mem_cons_self), List.mapM_cons]
    cases SdpMediaDescription.read ls with
    | error e => rfl
    | ok sect =>
      rw [Lib.ok_bind]
      refine (ih fun m hm => h m (List.mem_cons_of_mem ls hm)).trans ?_
      cases parts.mapM SdpMediaDescription.read with
      | error e => rfl
      | ok sects => simp [pure, Except.pure, bind, Except.bind]

theorem fold_lines (hls : ∀ l ∈ ls, l.name ∈ letters ∧ l.name ≠ "m".toList) (hparts : ∀ ls ∈ parts, IsPart ls) :
    ((ls ++ parts.flatten).map Line.str).foldlM addLine (.empty, none) = .ok r' ↔
      ∃ r sects, readSession ls = .ok r ∧ parts.mapM SdpMediaDescription.read = .ok sects ∧
        r' = ({ r.1 with sections := sects }, r.2) := by
  rw [List.map_append, List.foldlM_append, fold_session hls rfl, Lib.bind_ok]
  apply exists_congr
  intro r
  constructor
  · rintro ⟨hr, h⟩
    have hs := (readSession_ok hr).sections
    rw [fold_parts hparts, hs] at h
    obtain ⟨sects, hsects, heq⟩ := Lib.bind_ok.mp h
    exact ⟨sects, hr, hsects, (Except.ok.inj heq).symm⟩
  · rintro ⟨sects, hr, hsects, rfl⟩
    have hs := (readSession_ok hr).sections
    refine ⟨hr, ?_⟩
    rw [fold_parts hparts, hs, hsects]
    rfl

structure IsBody (ls : List Line) (parts : List (List Line)) (b : SdpBody) : Prop where
  origin : Option.Rel (fun v o => SdpOrigin.parse v = .ok o) (Line.lastOf "o".toList ls) b.oHeader
  headers : Line.Holds generic ls b.headers
  attributes : b.aHeaders = Line.attributes ls
  connection : Option.Rel (fun v c => SdpConnecton.parse v = .ok c)
    (if parts = [] then Line.lastOf "c".toList ls else none) b.cHeader
  sections : List.Forall₂ (SdpMediaDescription.IsRead (Line.lastOf "c".toList ls)) parts b.sections

theorem parse_eq_ok {body : Text} {b : SdpBody} : parse body = .ok b ↔
    ∃ r, (lines body).foldlM addLine (.empty, none) = .ok r ∧ r.2.elim (.ok r.1) r.1.spreadC = .ok b ∧
      b.sane = true := by
  have hparse : parse body = (lines body).foldlM addLine (.empty, none) >>= fun r =>
      r.2.elim (.ok r.1) r.1.spreadC >>= fun b => if b.sane then return b else .error .sdpParse := rfl
  have hsane (b' : SdpBody) : (if b'.sane = true then pure b' else Except.error Exn.sdpParse) = .ok b ↔
      b' = b ∧ b.sane = true := by
    split
    · rename_i h
      constructor
      · intro heq
        cases heq
        exact ⟨rfl, h⟩
      · rintro ⟨rfl, -⟩
        rfl
    · rename_i h
      refine iff_of_false (fun heq => nomatch heq) ?_
      rintro ⟨rfl, hb⟩
      exact h hb
  rw [hparse, Lib.bind_ok]
  apply exists_congr
  intro r
  rw [Lib.bind_ok]
  constructor
  · rintro ⟨hr, b', hb', h⟩
    obtain ⟨rfl, hb⟩ := (hsane b').mp h
    exact ⟨hr, hb', hb⟩
  · rintro ⟨hr, hspread, hb⟩
    exact ⟨hr, b, hspread, (hsane b).mpr ⟨rfl, hb⟩⟩

theorem parse_ok {body : Text} {b : SdpBody} (hlines : lines body = (ls ++ parts.flatten).map Line.str)
    (hls : ∀ l ∈ ls, l.name ∈ letters ∧ l.name ≠ "m".toList) (hparts : ∀ ls ∈ parts, IsPart ls) :
    parse body = .ok b ↔ ∃ r sects, readSession ls = .ok r ∧ parts.mapM SdpMediaDescription.read = .ok sects ∧
      r.2.elim (.ok { r.1 with sections := sects }) { r.1 with sections := sects }.spreadC = .ok b ∧
        b.sane = true := by
  rw [parse_eq_ok, hlines]
  constructor
  · rintro ⟨r', hr', hspread, hb⟩
    obtain ⟨r, sects, hr, hsects, rfl⟩ := (fold_lines hls hparts).mp hr'
    exact ⟨r, sects, hr, hsects, hspread, hb⟩
  · rintro ⟨r, sects, hr, hsects, hspread, hb⟩
    exact ⟨_, (fold_lines hls hparts).mpr ⟨r, sects, hr, hsects, rfl⟩, hspread, hb⟩

theorem isBody_of_spread {b : SdpBody} {sects : List SdpMediaDescription} (hr : readSession ls = .ok r)
    (hsects : parts.mapM SdpMediaDescription.read = .ok sects)
    (hspread : r.2.elim (.ok { r.1 with sections := sects }) { r.1 with sections := sects }.spreadC = .ok b) :
    IsBody ls parts b := by
  obtain ⟨b₀, top⟩ := r
  have hread := readSession_ok hr
  have hall : List.Forall₂ (SdpMediaDescription.IsRead none) parts sects :=
    (Lib.mapM_ok.mp hsects).imp fun _ _ => SdpMediaDescription.read_ok
  have hpending : top = Line.lastOf "c".toList ls := hread.pending
  have hconn : b₀.cHeader = none := hread.connection
  cases top with
  | none =>
    cases hspread
    refine ⟨hread.origin, hread.headers, hread.attributes, ?_, ?_⟩
    · dsimp only
      rw [hconn, ← hpending, ite_self]
      exact .none
    · rw [← hpending]
      exact hall
  | some v =>
    dsimp only [Option.elim_some] at hspread
    rw [spreadC] at hspread
    split at hspread
    · rename_i hnil
      dsimp only at hnil
      subst hnil
      obtain rfl : parts = [] := by
        cases hall
        rfl
      rw [addHeader, if_neg (by decide), setHeader, if_neg (by decide), if_pos rfl] at hspread
      obtain ⟨c, hparse, heq⟩ := Lib.bind_ok.mp hspread
      cases heq
      refine ⟨hread.origin, hread.headers, hread.attributes, ?_, .nil⟩
      rw [if_pos rfl, ← hpending]
      exact .some hparse
    · rename_i hne
      obtain ⟨sects', hsects', heq⟩ := Lib.bind_ok.mp hspread
      cases heq
      have hparts : parts ≠ [] := by
        rintro rfl
        cases hall
        exact hne rfl
      refine ⟨hread.origin, hread.headers, hread.attributes, ?_, ?_⟩
      · dsimp only
        rw [hconn, if_neg hparts]
        exact .none
      · rw [← hpending]
        exact Lib.forall₂_trans hall (Lib.mapM_ok.mp hsects') fun _ _ _ h₁ h₂ => h₁.spread h₂

theorem isBody_of_parse {body : Text} {b : SdpBody} (hlines : lines body = (ls ++ parts.flatten).map Line.str)
    (hls : ∀ l ∈ ls, l.name ∈ letters ∧ l.name ≠ "m".toList) (hparts : ∀ ls ∈ parts, IsPart ls)
    (h : parse body = .ok b) : IsBody ls parts b := by
  obtain ⟨r, sects, hr, hsects, hspread, -⟩ := (parse_ok hlines hls hparts).mp h
  exact isBody_of_spread hr hsects hspread

theorem any_of_lookup {headers : List (Text × Text)} {name : Text} (h : (headers.lookup name).isSome) :
    headers.any (·.1 == name) = true := by
  obtain ⟨v, hv⟩ := Option.isSome_iff_exists.mp h
  obtain ⟨pre, post, rfl, -⟩ := List.lookup_eq_some_iff.mp hv
  simp

theorem IsBody.sane {b : SdpBody} (h : IsBody ls parts b) (hparts : ∀ ls ∈ parts, IsPart ls)
    (hhas : ∀ name ∈ ["o", "v", "s", "t"].map String.toList, (Line.lastOf name ls).isSome)
    (hconn : ∀ part ∈ parts, ((Line.lastOf "c".toList part).or (Line.lastOf "c".toList ls)).isSome) :
    b.sane = true := by
  have hheaders (name : Text) (hname : name ∈ generic) (hlast : (Line.lastOf name ls).isSome) :
      b.headers.any (·.1 == name) = true := by
    apply any_of_lookup
    rwa [h.headers name, if_pos hname]
  have horigin : b.oHeader.isSome := by
    obtain ⟨v, hv⟩ := Option.isSome_iff_exists.mp (hhas "o".toList (by decide))
    have ho := h.origin
    rw [hv] at ho
    obtain ⟨o, ho, -⟩ := Lib.rel_some ho
    rw [ho]
    rfl
  have hsections : ∀ sect ∈ b.sections, (sect.cHeader.isSome && sect.mHeader.isSome) = true := by
    intro sect hsect
    obtain ⟨part, hpart, hread⟩ := Lib.exists_of_forall₂ h.sections.flip hsect
    obtain ⟨l, rest, rfl, hm, -⟩ := (hparts part hpart).opens
    obtain ⟨v, hv⟩ := Option.isSome_iff_exists.mp (hconn _ hpart)
    obtain ⟨w, hw⟩ := Option.isSome_iff_exists.mp (@Line.lastOf_isSome _ _ (l :: rest) List.mem_cons_self hm)
    have hc := hread.connection
    have hm := hread.media
    rw [hv] at hc
    rw [hw] at hm
    obtain ⟨c, hc, -⟩ := Lib.rel_some hc
    obtain ⟨m, hm, -⟩ := Lib.rel_some hm
    rw [hc, hm]
    rfl
  unfold SdpBody.sane
  rw [horigin, Bool.true_and, Bool.and_eq_true, List.all_eq_true, List.all_eq_true]
  refine ⟨?_, hsections⟩
  simp only [List.mem_cons, List.not_mem_nil, or_false, forall_eq_or_imp, forall_eq]
  exact ⟨hheaders _ (by decide) (hhas _ (by decide)), hheaders _ (by decide) (hhas _ (by decide)),
    hheaders _ (by decide) (hhas _ (by decide))⟩

/-- A description can be read if its lines can and none that it must have is missing. -/
theorem parse_of_readable {body : Text} (hlines : lines body = (ls ++ parts.flatten).map Line.str)
    (hls : ∀ l ∈ ls, l.name ∈ letters ∧ l.name ≠ "m".toList) (hparts : ∀ ls ∈ parts, IsPart ls)
    (hread : ∀ l ∈ ls, ∀ r, ∃ r', Adds r l r')
    (hreads : ∀ ls ∈ parts, ∀ l ∈ ls, ∀ sect, ∃ sect', SdpMediaDescription.Adds sect l sect')
    (htop : ∀ v, Line.lastOf "c".toList ls = some v → ∃ c, SdpConnecton.parse v = .ok c)
    (hhas : ∀ name ∈ ["o", "v", "s", "t"].map String.toList, (Line.lastOf name ls).isSome)
    (hconn : ∀ part ∈ parts, ((Line.lastOf "c".toList part).or (Line.lastOf "c".toList ls)).isSome) :
    ∃ b, parse body = .ok b := by
  obtain ⟨r, hr⟩ := readSession_of_readable hread
  obtain ⟨sects, hsects⟩ : ∃ sects, parts.mapM SdpMediaDescription.read = .ok sects :=
    Lib.mapM_of_ok fun ls hls => SdpMediaDescription.read_of_readable (hreads ls hls)
  have hpending := (readSession_ok hr).pending
  obtain ⟨b, hb⟩ : ∃ b, r.2.elim (.ok { r.1 with sections := sects })
      { r.1 with sections := sects }.spreadC = .ok b := by
    cases hc : r.2 with
    | none => exact ⟨_, rfl⟩
    | some v =>
      obtain ⟨c, hparse⟩ := htop v (hpending.symm.trans hc)
      rw [Option.elim_some, spreadC]
      split
      · rw [addHeader, if_neg (by decide), setHeader, if_neg (by decide), if_pos rfl, hparse]
        exact ⟨_, rfl⟩
      · obtain ⟨sects', hsects'⟩ := Lib.mapM_of_ok fun sect (_ : sect ∈ sects) =>
          SdpMediaDescription.spread_of_parse hparse sect
        dsimp only
        rw [hsects']
        exact ⟨_, rfl⟩
  have hbody := isBody_of_spread hr hsects hb
  exact ⟨b, (parse_ok hlines hls hparts).mpr ⟨r, sects, hr, hsects, hb, hbody.sane hparts hhas hconn⟩⟩

end SdpBody

/-- The lines of the headers with the given names, as far as they are there. -/
def headerLines (text : Header → Text) (header : Text → Option Header) (names : List Text) : List Line :=
  names.filterMap fun name => (header name).map fun h => ⟨name, text h⟩

def attributeLines (as : List AHeader) : List Line := as.map fun a => ⟨"a".toList, a.str⟩

section Print
variable {ls ls' : List Line} {text : Header → Text} {header : Text → Option Header} {names : List Text} {name : Text}

theorem Line.text_append (ls ls' : List Line) : Line.text (ls ++ ls') = Line.text ls ++ Line.text ls' := by
  rw [Line.text, List.map_append, Lib.Text.endLines_append]
  rfl

theorem Line.text_cons (l : Line) (ls : List Line) : Line.text (l :: ls) = l.str ++ crlf ++ Line.text ls := by
  rw [Line.text, List.map_cons, endLines, List.flatMap_cons]
  rfl

theorem headerLines_cons : headerLines text header (name :: names) =
    ((header name).elim [] fun h => [⟨name, text h⟩]) ++ headerLines text header names := by
  unfold headerLines
  rw [List.filterMap_cons]
  cases header name <;> rfl

theorem lines_eq (text : Header → Text) (header : Text → Option Header) (names : List Text) :
    lines text header names = Line.text (headerLines text header names) := by
  induction names with
  | nil => rfl
  | cons name names ih =>
    have hlines : lines text header (name :: names) =
        ((header name).elim [] fun h => name ++ '=' :: text h ++ crlf) ++ lines text header names := rfl
    rw [hlines, ih, headerLines_cons]
    cases header name with
    | none => rfl
    | some h => exact (Line.text_cons ⟨name, text h⟩ _).symm

theorem attributes_eq (as : List AHeader) : attributes as = Line.text (attributeLines as) := by
  induction as with
  | nil => rfl
  | cons a as ih =>
    have hattributes : attributes (a :: as) = "a=".toList ++ a.str ++ crlf ++ attributes as := rfl
    rw [hattributes, ih]
    exact (Line.text_cons ⟨"a".toList, a.str⟩ _).symm

theorem lastOf_headerLines (h : names.Nodup) : Line.lastOf name (headerLines text header names) =
    if name ∈ names then (header name).map text else none := by
  induction names with
  | nil => rfl
  | cons name' names ih =>
    obtain ⟨hname', hnames⟩ := List.nodup_cons.mp h
    have hone : Line.lastOf name ((header name').elim [] fun h => [⟨name', text h⟩]) =
        if name' = name then (header name').map text else none := by
      cases header name' with
      | none => simp
      | some h => exact Line.lastOf_single
    rw [headerLines_cons, Line.lastOf_append, ih hnames, hone]
    by_cases heq : name' = name
    · subst heq
      rw [if_neg hname', if_pos rfl, if_pos List.mem_cons_self, Option.none_or]
    · have hiff : name ∈ name' :: names ↔ name ∈ names := by
        rw [List.mem_cons]
        exact or_iff_right fun h => heq h.symm
      simp only [if_neg heq, Option.or_none, hiff]

theorem mem_headerLines {l : Line} (h : l ∈ headerLines text header names) :
    l.name ∈ names ∧ ∃ h' ∈ header l.name, l.value = text h' := by
  obtain ⟨name, hname, h⟩ := List.mem_filterMap.mp h
  obtain ⟨h', hh', rfl⟩ := Option.map_eq_some_iff.mp h
  exact ⟨hname, h', hh', rfl⟩

theorem lastOf_attributeLines (h : name ≠ "a".toList) (as : List AHeader) :
    Line.lastOf name (attributeLines as) = none := by
  apply Line.lastOf_eq_none
  intro l hl
  obtain ⟨a, -, rfl⟩ := List.mem_map.mp hl
  exact fun heq => h heq.symm

end Print

namespace SdpMediaDescription

/-- The lines of a section, without its connection if `noC` is set. -/
def lines (noC : Bool) (sect : SdpMediaDescription) : List Line :=
  headerLines (Header.written []) sect.header (allHeaders.filter fun name => !(noC && name == "c".toList)) ++
    attributeLines sect.aHeaders

theorem localStr_lines (noC : Bool) (sect : SdpMediaDescription) :
    sect.localStr [] none noC = Line.text (sect.lines noC) := by
  rw [localStr, Header.localStr_none, Header.str_written, sect.lines_written _ _ [], lines_eq, attributes_eq, lines,
    Line.text_append]

end SdpMediaDescription

namespace Description
variable {d : Description}

def top (d : Description) : Option Text := (d.single.map fun s => s.2.str).or d.strTop

def omits (d : Description) (sect : SdpMediaDescription) : Bool :=
  d.top.isSome && (sect.cHeader.map SdpConnecton.str) == d.top

/-- The lines before the first section, with the given address in an origin line of our own. -/
def sessionLines (x : Text) (d : Description) : List Line :=
  (d.top.elim (headerLines (Header.written x) d.header allHeaders) fun t =>
    headerLines (Header.written x) d.header firstHalf ++
      ⟨"c".toList, t⟩ :: headerLines (Header.written x) d.header secondHalf) ++ attributeLines d.aHeaders

def parts (d : Description) : List (List Line) := d.sections.map fun sect => sect.lines (d.omits sect)

theorem single_eq {sect : SdpMediaDescription} {c : SdpConnecton} (h : d.single = some (sect, c)) :
    d.sections = [sect] ∧ sect.cHeader = some c := by
  unfold single at h
  split at h
  · rename_i sect' hsections
    obtain ⟨c', hc, heq⟩ := Option.map_eq_some_iff.mp h
    cases heq
    exact ⟨hsections, hc⟩
  · exact absurd h.symm (Option.some_ne_none _)

theorem half_lines (x t : Text) (d : Description) : d.half (Header.written x) t =
    Line.text (headerLines (Header.written x) d.header firstHalf ++
      ⟨"c".toList, t⟩ :: headerLines (Header.written x) d.header secondHalf) := by
  rw [half, lines_eq, lines_eq, Line.text_append, Line.text_cons]
  simp only [Line.str, List.append_assoc]
  rfl

theorem written_lines (x : Text) (d : Description) :
    d.written x = Line.text (d.sessionLines x ++ d.parts.flatten) := by
  have hparts : Line.text d.parts.flatten =
      d.sections.flatMap fun sect => sect.localStr [] none (d.omits sect) := by
    rw [parts]
    induction d.sections with
    | nil => rfl
    | cons sect sects ih =>
      rw [List.map_cons, List.flatten_cons, Line.text_append, ih, ← SdpMediaDescription.localStr_lines]
      rfl
  have hwritten : d.written x = (d.top.elim (Sdp.lines (Header.written x) d.header allHeaders)
      (d.half (Header.written x))) ++ Sdp.attributes d.aHeaders ++
        d.sections.flatMap fun sect => sect.localStr [] none (d.omits sect) := by
    unfold written print
    cases hsingle : d.single with
    | none =>
      have htop : d.top = d.strTop := by rw [top, hsingle, Option.map_none, Option.none_or]
      unfold omits
      rw [htop]
      rfl
    | some s =>
      obtain ⟨sect, c⟩ := s
      obtain ⟨hsections, hc⟩ := single_eq hsingle
      have htop : d.top = some c.str := by rw [top, hsingle, Option.map_some, Option.some_or]
      have homits : d.omits sect = true := by
        rw [omits, htop, hc]
        simp
      have hlast : (d.sections.flatMap fun sect => sect.localStr [] none (d.omits sect)) =
          sect.localStr [] none true := by
        rw [hsections, List.flatMap_cons, homits]
        exact List.append_nil _
      rw [htop, hlast]
      rfl
  rw [hwritten, Line.text_append, hparts, sessionLines, Line.text_append, attributes_eq]
  cases d.top with
  | none => rw [Option.elim_none, Option.elim_none, lines_eq]
  | some t => rw [Option.elim_some, Option.elim_some, half_lines]

end Description

end SippyB2bua.Sdp
