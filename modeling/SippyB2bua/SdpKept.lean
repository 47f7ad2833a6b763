import SippyB2bua.SdpRoundTrip

/-!
# Lines that get lost

A part of a description keeps one line for each name besides its attributes, and the connection of the session
part is kept in the sections that it is for. Nothing else of a text that was accepted gets lost, apart from what
the reader takes for the end of a line and from superfluous digits.
-/

namespace SippyB2bua.Sdp
open Lib (Text)
open Lib.Text (Unbroken PlainWord words rstrip lower)

def Line.named (name : Text) (ls : List Line) : List Line := ls.filter fun l => l.name = name

def Line.single (name : Text) (v : Option Text) : List Line := v.toList.map fun t => ⟨name, t⟩

def ordinary (ls : List Line) : List Line := ls.filter fun l => l.name ≠ "c".toList

/-- The connections in effect for a section: its own, or those of the session part. -/
def inEffect (ls part : List Line) : List Line :=
  if Line.named "c".toList part = [] then Line.named "c".toList ls else Line.named "c".toList part

/-- All lines of a description are in another one, as often and in the same part; the connections
are in effect for the same sections. -/
structure Kept (ls : List Line) (parts : List (List Line)) (ls' : List Line) (parts' : List (List Line)) : Prop where
  session : (ordinary ls).Perm (ordinary ls')
  sections : List.Forall₂ (fun p p' => (ordinary p).Perm (ordinary p') ∧ (inEffect ls p).Perm (inEffect ls' p'))
    parts parts'
  connections : ∀ l ∈ Line.named "c".toList ls, l ∈ ls' ∨ ∃ p' ∈ parts', l ∈ p'

def Tight (v : Text) : Prop := [' '].intercalate (words v) = v

/-- The lines of a text of the grammar: the session part has at most one connection. -/
structure Conforming (ls : List Line) (parts : List (List Line)) : Prop where
  session : ∀ l ∈ ls, l.name ∈ letters ∧ l.name ≠ "m".toList
  connection : (Line.named "c".toList ls).length ≤ 1
  sections : ∀ p ∈ parts, SdpBody.IsPart p
  lines : ∀ l ∈ ls ++ parts.flatten, '\r' ∉ l.value ∧ '\n' ∉ l.value

/-- No line but an attribute has the name of another. -/
def Once (ls : List Line) : Prop := ∀ name, name ≠ "a".toList → (Line.named name ls).length ≤ 1

/-- The port, and the formats of audio and video, are written without superfluous digits. -/
def PlainNumbers (v : Text) : Prop :=
  match words v with
  | stype :: port :: _ :: fs => (∃ n, port = Lib.Text.ofInt n) ∧
    (lower stype = "audio".toList ∨ lower stype = "video".toList → ∀ f ∈ fs, ∃ n, f = Lib.Text.ofInt n)
  | _ => True

/-- A line that comes out as it went in: the reader takes nothing in it for the end of a line, and the words of
origins, connections and media are separated by single spaces. -/
structure Line.Plain (l : Line) : Prop where
  unbroken : Unbroken l.value
  tight : l.name ∈ ["o", "c", "m"].map String.toList → Tight l.value
  address : l.name = "c".toList → (words l.value).length = 3
  numbers : l.name = "m".toList → PlainNumbers l.value

/-- The lines of a text none of which gets lost. -/
structure Survives (ls : List Line) (parts : List (List Line)) : Prop where
  session : Once ls
  sections : ∀ p ∈ parts, Once p
  plain : ∀ l ∈ ls ++ parts.flatten, l.Plain
  last : ∀ l ∈ (ls ++ parts.flatten).getLast?, rstrip l.value = l.value
  used : parts ≠ [] → ∀ l ∈ Line.named "c".toList ls, ∃ p ∈ parts, Line.named "c".toList p = [] ∨ l ∈ p

section Named
variable {ls ls' : List Line} {l : Line} {name : Text} {v : Option Text} {text : Header → Text}
  {header : Text → Option Header} {names : List Text}

theorem Line.mem_named : l ∈ Line.named name ls ↔ l ∈ ls ∧ l.name = name := by
  rw [Line.named, List.mem_filter, decide_eq_true_eq]

theorem Line.named_append : Line.named name (ls ++ ls') = Line.named name ls ++ Line.named name ls' :=
  List.filter_append ls ls'

theorem Line.named_cons : Line.named name (l :: ls) =
    (if l.name = name then [l] else []) ++ Line.named name ls := by
  unfold Line.named
  rw [List.filter_cons]
  by_cases h : l.name = name
  · rw [if_pos (decide_eq_true h), if_pos h]
    rfl
  · rw [if_neg (by simpa using h), if_neg h]
    rfl

theorem Line.named_eq_nil (h : ∀ l ∈ ls, l.name ≠ name) : Line.named name ls = [] := by
  rw [Line.named, List.filter_eq_nil_iff]
  intro l hl
  simpa using h l hl

theorem Line.lastOf_named : Line.lastOf name ls = (Line.named name ls).getLast?.map Line.value := by
  induction ls using List.reverseRecOn with
  | nil => rfl
  | append_singleton ls l ih =>
    rw [Line.lastOf_concat, Line.named_append, Line.named_cons, ih]
    split
    · simp [Line.named]
    · simp [Line.named]

theorem Line.named_once (h : (Line.named name ls).length ≤ 1) :
    Line.named name ls = Line.single name (Line.lastOf name ls) := by
  have hname : ∀ l ∈ Line.named name ls, l.name = name := fun l hl => (Line.mem_named.mp hl).2
  rw [Line.lastOf_named]
  cases hls : Line.named name ls with
  | nil => rfl
  | cons l rest =>
    rw [hls] at h hname
    obtain rfl : rest = [] := List.eq_nil_of_length_eq_zero (by simpa using h)
    rw [← hname l List.mem_cons_self]
    rfl

theorem Line.length_single : (Line.single name v).length ≤ 1 := by
  cases v with
  | none => exact Nat.zero_le 1
  | some t => exact Nat.le_refl 1

theorem Line.named_headerLines (h : names.Nodup) : Line.named name (headerLines text header names) =
    if name ∈ names then Line.single name ((header name).map text) else [] := by
  induction names with
  | nil => rfl
  | cons name' names ih =>
    obtain ⟨hname', hnames⟩ := List.nodup_cons.mp h
    have hone : Line.named name ((header name').elim [] fun h => [⟨name', text h⟩]) =
        if name' = name then Line.single name' ((header name').map text) else [] := by
      cases header name' with
      | none => simp [Line.named, Line.single]
      | some h =>
        refine Line.named_cons.trans ?_
        split <;> rfl
    rw [headerLines_cons, Line.named_append, ih hnames, hone]
    by_cases heq : name' = name
    · subst heq
      rw [if_pos rfl, if_neg hname', if_pos List.mem_cons_self, List.append_nil]
    · have hiff : name ∈ name' :: names ↔ name ∈ names := by
        rw [List.mem_cons]
        exact or_iff_right fun h => heq h.symm
      simp only [if_neg heq, List.nil_append, hiff]

theorem Line.named_attributeLines (h : name ≠ "a".toList) (as : List AHeader) :
    Line.named name (attributeLines as) = [] := by
  apply Line.named_eq_nil
  intro l hl
  obtain ⟨a, -, rfl⟩ := List.mem_map.mp hl
  exact fun heq => h heq.symm

theorem Line.named_attributes (as : List AHeader) : Line.named "a".toList (attributeLines as) = attributeLines as := by
  unfold Line.named
  rw [List.filter_eq_self]
  intro l hl
  obtain ⟨a, -, rfl⟩ := List.mem_map.mp hl
  exact decide_eq_true rfl

theorem attributeLines_attributes (ls : List Line) :
    attributeLines (Line.attributes ls) = Line.named "a".toList ls := by
  induction ls with
  | nil => rfl
  | cons l ls ih =>
    have hcons : Line.attributes (l :: ls) = Line.attributes [l] ++ Line.attributes ls :=
      @Line.attributes_append [l] ls
    rw [hcons, Line.named_cons, ← ih, Line.attributes_single]
    split
    · rename_i hname
      obtain ⟨name, value⟩ := l
      dsimp only at hname
      subst hname
      have hstr := AHeader.str_ofText value
      simp only [attributeLines, List.map_append, List.map_cons, List.map_nil, hstr]
    · rfl

/-- Parts are the same up to the order if they have the same lines for every name. -/
theorem ordinary_perm : (ordinary ls).Perm (ordinary ls') ↔
    ∀ name, name ≠ "c".toList → (Line.named name ls).Perm (Line.named name ls') := by
  have hnamed (ls : List Line) (name : Text) (hname : name ≠ "c".toList) :
      Line.named name ls = (ordinary ls).filter fun l => l.name = name := by
    unfold Line.named ordinary
    rw [List.filter_filter]
    apply List.filter_congr
    intro l _
    by_cases h : l.name = name
    · have hne : l.name ≠ "c".toList := h ▸ hname
      rw [decide_eq_true h, decide_eq_true hne]
      rfl
    · rw [decide_eq_false h]
      rfl
  constructor
  · intro h name hname
    rw [hnamed ls name hname, hnamed ls' name hname]
    exact h.filter _
  · intro h
    apply List.perm_iff_count.mpr
    intro l
    by_cases hc : l.name = "c".toList
    · have hzero (ls : List Line) : (ordinary ls).count l = 0 := by
        rw [List.count_eq_zero]
        intro hl
        exact absurd hc (by simpa using (List.mem_filter.mp hl).2)
      rw [hzero, hzero]
    · have hcount (ls : List Line) : (ordinary ls).count l = (Line.named l.name ls).count l := by
        rw [hnamed ls l.name hc, List.count_filter (by simp)]
      rw [hcount, hcount, (h l.name hc).count_eq]

end Named

section Values
variable {v w x : Text} {ws ws' : List Text} {c : SdpConnecton} {m : SdpMedia}

def join (ws : List Text) : Text := [' '].intercalate ws

theorem join_cons (w : Text) (hne : ws ≠ []) : join (w :: ws) = w ++ ' ' :: join ws := by
  rw [join, List.intercalate_cons_of_ne_nil hne, List.append_assoc]
  rfl

theorem words_join (h : ∀ w ∈ ws, PlainWord w) : words (join ws) = ws := by
  induction ws with
  | nil => rfl
  | cons w ws ih =>
    have hw := h w List.mem_cons_self
    have hws := ih fun w' hw' => h w' (List.mem_cons_of_mem w hw')
    by_cases hnil : ws = []
    · rw [hnil, join, List.intercalate_singleton]
      exact Lib.Text.words_plain hw
    · rw [join_cons w hnil, Lib.Text.words_append hw, hws]

theorem join_ne_nil (h : ∀ w ∈ ws, PlainWord w) (hne : ws ≠ []) : join ws ≠ [] := by
  intro hnil
  have hwords := words_join h
  rw [hnil] at hwords
  exact hne hwords.symm

theorem rstrip_join (h : ∀ w ∈ ws, PlainWord w) : rstrip (join ws) = join ws := by
  induction ws with
  | nil => rfl
  | cons w ws ih =>
    have hws : ∀ w' ∈ ws, PlainWord w' := fun w' hw' => h w' (List.mem_cons_of_mem w hw')
    by_cases hnil : ws = []
    · rw [hnil, join, List.intercalate_singleton]
      exact (h w List.mem_cons_self).tidy.rstrip
    · have happ : w ++ ' ' :: join ws = (w ++ [' ']) ++ join ws := by simp
      rw [join_cons w hnil, happ]
      exact Lib.Text.rstrip_append (ih hws) (join_ne_nil hws hnil) (w ++ [' '])

theorem Tight.rstrip (h : Tight v) : rstrip v = v := by
  have hjoin := rstrip_join fun w (hw : w ∈ words v) => Lib.Text.mem_words hw
  rwa [join, h] at hjoin

theorem tight_join (h : ∀ w ∈ ws, PlainWord w) : Tight (join ws) := by
  rw [Tight, words_join h]
  rfl

theorem str_connection (h : SdpConnecton.parse v = .ok c) (ht : Tight v) (hlen : (words v).length = 3) : c.str = v := by
  unfold SdpConnecton.parse at h
  split at h
  · rename_i ntype atype addr rest hwords
    cases h
    rw [hwords] at hlen
    obtain rfl : rest = [] := List.eq_nil_of_length_eq_zero (by simpa using hlen)
    rw [← ht, hwords]
    simp [SdpConnecton.str, List.intercalate]
  · cases h

theorem written_origin {o : SdpOrigin} (h : SdpOrigin.parse v = .ok o) (ht : Tight v) :
    (Header.origin (.ofSdpOrigin o)).written x = v := by
  unfold SdpOrigin.parse at h
  split at h
  · rename_i hwords
    cases h
    rw [← ht, hwords]
    simp [Header.written, Origin.ofSdpOrigin, Origin.start, Num.str, List.intercalate]
  · cases h

theorem SdpMedia.str_join (m : SdpMedia) :
    m.str = join (m.stype :: Lib.Text.ofInt m.port :: m.transport :: m.formats.texts) := by
  have hrest (w : Text) (fs : List Text) : join (w :: fs) = w ++ fs.flatMap (' ' :: ·) := by
    induction fs generalizing w with
    | nil => simp [join]
    | cons f fs ih => rw [join_cons w (List.cons_ne_nil f fs), ih, List.flatMap_cons, List.cons_append]
  rw [hrest, SdpMedia.str]
  simp

theorem ofInt_ints {fs : List Text} {pts : List ℤ} (h : fs.mapM int = .ok pts) :
    pts.map Lib.Text.ofInt = fs ↔ ∀ f ∈ fs, ∃ n, f = Lib.Text.ofInt n := by
  constructor
  · rintro rfl f hf
    obtain ⟨n, -, rfl⟩ := List.mem_map.mp hf
    exact ⟨n, rfl⟩
  · intro hfs
    have hall := Lib.mapM_ok.mp h
    clear h
    induction hall with
    | nil => rfl
    | @cons f n fs pts hf _ ih =>
      obtain ⟨k, rfl⟩ := hfs f List.mem_cons_self
      rw [int, Lib.Text.int_ofInt] at hf
      cases hf
      rw [List.map_cons, ih fun f' hf' => hfs f' (List.mem_cons_of_mem _ hf')]

theorem ofInt_int {f : Text} {n : ℤ} (h : int f = .ok n) : Lib.Text.ofInt n = f ↔ ∃ k, f = Lib.Text.ofInt k := by
  constructor
  · rintro rfl
    exact ⟨n, rfl⟩
  · rintro ⟨k, rfl⟩
    rw [int, Lib.Text.int_ofInt] at h
    cases h
    rfl

theorem str_media (h : SdpMedia.parse v = .ok m) (ht : Tight v) : m.str = v ↔ PlainNumbers v := by
  have hplain := SdpMedia.parse_tidy h
  have hwords : words m.str = m.stype :: Lib.Text.ofInt m.port :: m.transport :: m.formats.texts :=
    SdpMedia.words_str hplain
  have heq : m.str = v ↔ words m.str = words v := by
    constructor
    · exact congrArg words
    · intro hw
      rw [SdpMedia.str_join, ← hwords, hw]
      exact ht
  rw [heq, hwords]
  unfold SdpMedia.parse at h
  unfold PlainNumbers
  split at h
  · rename_i stype port transport fs hv
    rw [hv]
    obtain ⟨p, hp, h⟩ := Lib.bind_ok.mp h
    dsimp only at h ⊢
    split at h
    · rename_i hmedia
      obtain ⟨pts, hpts, heq⟩ := Lib.bind_ok.mp h
      cases heq
      rw [← ofInt_int hp, ← ofInt_ints hpts, imp_iff_right hmedia]
      simp only [Formats.texts, List.cons.injEq, true_and]
    · rename_i hmedia
      cases h
      rw [← ofInt_int hp, iff_true_intro fun h => absurd h hmedia, and_true]
      simp only [Formats.texts, List.cons.injEq, true_and, and_true]
  · obtain ⟨p, -, h⟩ := Lib.bind_ok.mp h
    cases h
  · cases h

end Values

theorem Line.named_headerLines_nil {text : Header → Text} {header : Text → Option Header} {names : List Text} {name : Text}
    (h : name ∉ names) : Line.named name (headerLines text header names) = [] := by
  apply Line.named_eq_nil
  intro l hl heq
  exact h (heq ▸ (mem_headerLines hl).1)

namespace SdpMediaDescription
variable {sect : SdpMediaDescription} {noC : Bool} {name : Text} {ls : List Line} {top : Option Text}

theorem named_lines (h : name ≠ "a".toList) : Line.named name (sect.lines noC) =
    if name ∈ printed noC then Line.single name ((sect.header name).map (Header.written [])) else [] := by
  rw [lines, Line.named_append, Line.named_attributeLines h, List.append_nil]
  exact Line.named_headerLines (printed_facts noC).1

theorem named_attributes : Line.named "a".toList (sect.lines noC) = attributeLines sect.aHeaders := by
  have ha : "a".toList ∉ printed noC := fun h => ((printed_facts noC).2.1 _ h).2 rfl
  rw [lines, Line.named_append, Line.named_attributes]
  exact congrArg (· ++ attributeLines sect.aHeaders) (Line.named_headerLines_nil ha)

theorem IsRead.named (h : IsRead top ls sect) (ha : name ≠ "a".toList) (hc : name ≠ "c".toList) :
    Line.named name (sect.lines noC) = Line.single name (if name = "m".toList then sect.mHeader.map SdpMedia.str
      else Line.lastOf name ls) := by
  obtain ⟨-, -, hgeneric, hm, -, -⟩ := printed_facts noC
  rw [named_lines ha]
  by_cases hname : name = "m".toList
  · rw [hname, if_pos hm, if_pos rfl, header_media]
  · rw [if_neg hname]
    by_cases hmem : name ∈ generic
    · rw [if_pos (hgeneric name hmem), header_generic hmem, h.headers name, if_pos hmem]
    · have hprinted : name ∉ printed noC := by
        have hall : ∀ noC, ∀ n ∈ printed noC, n = "m".toList ∨ n = "c".toList ∨ n ∈ generic := by decide
        intro hn
        rcases hall noC name hn with hn | hn | hn
        · exact hname hn
        · exact hc hn
        · exact hmem hn
      have hnone : Line.lastOf name ls = none := by
        apply Line.lastOf_eq_none
        intro l hl heq
        rcases h.names l hl with hl | hl
        · simp only [List.map_cons, List.map_nil, List.mem_cons, List.not_mem_nil, or_false] at hl
          rw [heq] at hl
          rcases hl with hl | hl | hl
          · exact ha hl
          · exact hname hl
          · exact hc hl
        · exact hmem (heq ▸ hl)
      rw [if_neg hprinted, hnone]
      rfl

end SdpMediaDescription

namespace Description
variable {d : Description} {name x : Text}

theorem named_sessionLines (ha : name ≠ "a".toList) (hc : name ≠ "c".toList) : Line.named name (d.sessionLines x) =
    if name ∈ allHeaders then Line.single name ((d.header name).map (Header.written x)) else [] := by
  rw [sessionLines, Line.named_append, Line.named_attributeLines ha, List.append_nil]
  cases d.top with
  | none => exact Line.named_headerLines (by decide)
  | some t =>
    have hc' : ("c".toList : Text) ≠ name := fun h => hc h.symm
    have hhalves : allHeaders = firstHalf ++ "c".toList :: secondHalf := rfl
    have hdisjoint : ∀ n ∈ firstHalf, n ∉ secondHalf := by decide
    rw [Option.elim_some, Line.named_append, Line.named_cons, if_neg hc', List.nil_append,
      Line.named_headerLines (by decide), Line.named_headerLines (by decide)]
    by_cases hfirst : name ∈ firstHalf
    · have hall : name ∈ allHeaders := hhalves ▸ List.mem_append_left _ hfirst
      rw [if_pos hfirst, if_neg (hdisjoint name hfirst), if_pos hall, List.append_nil]
    · have hall : name ∈ allHeaders ↔ name ∈ secondHalf := by
        rw [hhalves, List.mem_append, List.mem_cons]
        constructor
        · rintro (h | h | h)
          · exact absurd h hfirst
          · exact absurd h hc
          · exact h
        · exact fun h => .inr (.inr h)
      rw [if_neg hfirst, List.nil_append]
      simp only [hall]

theorem named_connection : Line.named "c".toList (d.sessionLines x) =
    Line.single "c".toList (d.top.or (d.cHeader.map SdpConnecton.str)) := by
  rw [sessionLines, Line.named_append, Line.named_attributeLines (by decide), List.append_nil]
  cases d.top with
  | none =>
    rw [Option.elim_none, Line.named_headerLines (by decide), if_pos (by decide), header_connection, Option.none_or]
  | some t =>
    have hc : "c".toList = "c".toList := rfl
    rw [Option.elim_some, Line.named_append, Line.named_cons, if_pos hc, Line.named_headerLines_nil (by decide),
      Line.named_headerLines_nil (by decide)]
    rfl

theorem named_attributes : Line.named "a".toList (d.sessionLines x) = attributeLines d.aHeaders := by
  rw [sessionLines, Line.named_append, Line.named_attributes]
  cases d.top with
  | none =>
    rw [Option.elim_none, Line.named_headerLines_nil (by decide)]
    rfl
  | some t =>
    have hc : "c".toList ≠ "a".toList := by decide
    rw [Option.elim_some, Line.named_append, Line.named_cons, if_neg hc, Line.named_headerLines_nil (by decide),
      Line.named_headerLines_nil (by decide)]
    rfl

end Description

section Prints
variable {ls ls' : List Line} {l : Line} {name : Text} {v media : Option Text}

/-- What is printed of a part: its attributes, and for each header the last line; the media line is as given. -/
structure Prints (media : Option Text) (ls ls' : List Line) : Prop where
  attributes : Line.named "a".toList ls' = Line.named "a".toList ls
  headers : ∀ name, name ≠ "a".toList → name ≠ "c".toList →
    Line.named name ls' = Line.single name (if name = "m".toList then media else Line.lastOf name ls)

theorem Line.single_inj {v' : Option Text} (h : (Line.single name v).Perm (Line.single name v')) : v = v' := by
  cases v with
  | none =>
    cases v' with
    | none => rfl
    | some t => exact absurd h.length_eq (by simp [Line.single])
  | some t =>
    cases v' with
    | none => exact absurd h.length_eq (by simp [Line.single])
    | some t' =>
      have heq := List.perm_singleton.mp h
      exact congrArg some (Line.mk.inj (List.cons.inj heq).1).2

theorem Line.named_perm : (Line.named name ls).Perm (Line.single name v) ↔
    (Line.named name ls).length ≤ 1 ∧ Line.lastOf name ls = v := by
  constructor
  · intro h
    have hlen : (Line.named name ls).length ≤ 1 := h.length_eq ▸ Line.length_single
    rw [Line.named_once hlen] at h
    exact ⟨hlen, Line.single_inj h⟩
  · rintro ⟨hlen, rfl⟩
    rw [Line.named_once hlen]

/-- All lines of a part are printed if no two headers have the same name and the media line prints as it was read. -/
theorem Prints.perm_iff (h : Prints media ls ls') : (ordinary ls).Perm (ordinary ls') ↔
    (∀ name, name ≠ "a".toList → name ≠ "c".toList → (Line.named name ls).length ≤ 1) ∧
      Line.lastOf "m".toList ls = media := by
  rw [ordinary_perm]
  constructor
  · intro hperm
    have hone (name : Text) (ha : name ≠ "a".toList) (hc : name ≠ "c".toList) :
        (Line.named name ls).length ≤ 1 ∧
          Line.lastOf name ls = if name = "m".toList then media else Line.lastOf name ls := by
      have hname := hperm name hc
      rwa [h.headers name ha hc, Line.named_perm] at hname
    refine ⟨fun name ha hc => (hone name ha hc).1, ?_⟩
    have hm := (hone "m".toList (by decide) (by decide)).2
    rwa [if_pos rfl] at hm
  · rintro ⟨hlen, hm⟩ name hc
    by_cases ha : name = "a".toList
    · rw [ha, h.attributes]
    · rw [h.headers name ha hc, Line.named_perm]
      refine ⟨hlen name ha hc, ?_⟩
      split
      · rename_i hname
        rw [hname, hm]
      · rfl

/-- The last line loses the white space at its end. -/
def trim (ls : List Line) : List Line :=
  match ls.getLast? with
  | none => []
  | some l => ls.dropLast ++ [{ l with value := rstrip l.value }]

theorem trim_concat : trim (ls ++ [l]) = ls ++ [{ l with value := rstrip l.value }] := by
  unfold trim
  rw [List.getLast?_concat]
  dsimp only
  rw [List.dropLast_concat]

theorem mem_trim (h : l ∈ trim ls) : ∃ l' ∈ ls, l.name = l'.name ∧ (l = l' ∨ l.value = rstrip l'.value) := by
  rcases ls.eq_nil_or_concat with rfl | ⟨init, last, rfl⟩
  · exact absurd h List.not_mem_nil
  · rw [List.concat_eq_append] at h ⊢
    rw [trim_concat] at h
    rcases List.mem_append.mp h with h | h
    · exact ⟨l, List.mem_append_left _ h, rfl, .inl rfl⟩
    · rw [List.mem_singleton.mp h]
      exact ⟨last, by simp, rfl, .inr rfl⟩

/-- If the whole part is printed, its last line had no white space to lose. -/
theorem Prints.trim_eq (h : Prints media (trim ls) ls') (hperm : (ordinary ls).Perm (ordinary ls'))
    (hplain : ∀ l ∈ ls, l.Plain) : trim ls = ls := by
  rcases ls.eq_nil_or_concat with rfl | ⟨init, last, rfl⟩
  · rfl
  · rw [List.concat_eq_append] at h hperm hplain ⊢
    rw [trim_concat] at h ⊢
    by_cases hname : last.name ∈ ["o", "c", "m"].map String.toList
    · rw [((hplain last (by simp)).tight hname).rstrip]
    · have hc : last.name ≠ "c".toList := fun heq => hname (heq ▸ by decide)
      have hm : last.name ≠ "m".toList := fun heq => hname (heq ▸ by decide)
      have hlast := ordinary_perm.mp hperm last.name hc
      have hvalue : last = { last with value := rstrip last.value } := by
        by_cases ha : last.name = "a".toList
        · rw [ha, h.attributes, Line.named_append, Line.named_append, Line.named_cons, Line.named_cons, if_pos ha,
            if_pos ha] at hlast
          have hsingle := (List.perm_append_left_iff _).mp hlast
          exact (List.cons.inj (List.perm_singleton.mp hsingle)).1
        · have htrimmed : Line.lastOf last.name (init ++ [{ last with value := rstrip last.value }]) =
              some (rstrip last.value) := Line.lastOf_same rfl
          have hread : Line.lastOf last.name (init ++ [last]) = some last.value := Line.lastOf_same rfl
          rw [h.headers last.name ha hc, if_neg hm, htrimmed, Line.named_perm, hread] at hlast
          rw [← Option.some.inj hlast.2]
      rw [← hvalue]

end Prints

section Read
variable {ls : List Line} {parts : List (List Line)} {l : Line} {b : SdpBody} {v x : Text}
  {sect : SdpMediaDescription} {top : Option Text} {noC : Bool}

theorem SdpBody.IsBody.prints_session (h : IsBody ls parts b) (hnames : ∀ l ∈ ls, l.name ∈ letters ∧ l.name ≠ "m".toList)
    (htight : ∀ l ∈ ls, l.name = "o".toList → Tight l.value) :
    Prints none ls ((Description.ofSdpBody b).sessionLines x) := by
  have hlast : ∀ name, name ∈ Description.allHeaders → name ≠ "c".toList →
      ((Description.ofSdpBody b).header name).map (Header.written x) = Line.lastOf name ls := by
    intro name hname hc
    by_cases ho : name = "o".toList
    · have horigin := h.origin
      rw [ho, Description.header_origin]
      unfold Description.ofSdpBody
      cases hv : Line.lastOf "o".toList ls with
      | none =>
        rw [hv] at horigin
        rw [Lib.rel_none horigin]
        rfl
      | some v =>
        rw [hv] at horigin
        obtain ⟨o, ho', hparse⟩ := Lib.rel_some horigin
        rw [ho']
        exact congrArg some (written_origin hparse (htight _ (Line.mem_of_lastOf hv) rfl))
    · have hall : ∀ n ∈ Description.allHeaders, n ≠ "c".toList → n ≠ "o".toList → n ∈ generic := by decide
      have hgeneric := hall name hname hc ho
      have hlookup := h.headers name
      rw [if_pos hgeneric] at hlookup
      exact (Description.header_generic x hgeneric).trans hlookup
  refine ⟨?_, fun name ha hc => ?_⟩
  · rw [Description.named_attributes, ← attributeLines_attributes, ← h.attributes]
    rfl
  · rw [Description.named_sessionLines ha hc]
    by_cases hname : name ∈ Description.allHeaders
    · have hm : name ≠ "m".toList := fun heq => absurd (heq ▸ hname) (by decide)
      rw [if_pos hname, if_neg hm, hlast name hname hc]
    · rw [if_neg hname]
      split
      · rfl
      · rename_i hm
        have hnone : Line.lastOf name ls = none := by
          apply Line.lastOf_eq_none
          intro l hl heq
          have hall : ∀ n ∈ letters, n ≠ "m".toList → n ≠ "a".toList → n ∈ Description.allHeaders := by decide
          exact hname (heq ▸ hall l.name (hnames l hl).1 (heq ▸ hm) (heq ▸ ha))
        rw [hnone]
        rfl

theorem SdpMediaDescription.IsRead.prints (h : IsRead top ls sect) :
    Prints (sect.mHeader.map SdpMedia.str) ls (sect.lines noC) := by
  refine ⟨?_, fun name ha hc => h.named ha hc⟩
  rw [SdpMediaDescription.named_attributes, h.attributes, attributeLines_attributes]

end Read

section Plain
variable {c : SdpConnecton} {m : SdpMedia} {o : Origin} {d : Description} {l : Line} {v x : Text}
  {sect : SdpMediaDescription} {noC : Bool}

theorem SdpConnecton.Tidy.words_str (h : c.Tidy) : words c.str = [c.ntype, c.atype, c.addr] := by
  rw [SdpConnecton.str, List.append_assoc, List.cons_append, Lib.Text.words_append h.ntype,
    Lib.Text.words_append h.atype, Lib.Text.words_plain h.addr]

theorem SdpConnecton.Tidy.tight (h : c.Tidy) : Tight c.str := by
  rw [Tight, h.words_str]
  simp [SdpConnecton.str, List.intercalate]

theorem SdpMedia.Tidy.tight (h : m.Tidy) : Tight m.str := by
  rw [Tight, SdpMedia.words_str h, SdpMedia.str_join]
  rfl

theorem Origin.Tidy.tight (h : o.Tidy) (hx : o.address = .my → TwoWords x) : Tight ((Header.origin o).written x) := by
  obtain ⟨w, w', hw, hw', hwritten, -⟩ := words_origin h hx
  have hjoin : o.start ++ (w ++ ' ' :: w') =
      join [o.username, o.sessionId.str, o.version.str, o.networkType, w, w'] := by
    simp [Origin.start, join, List.intercalate]
  rw [hwritten, hjoin]
  apply tight_join
  intro a ha
  simp only [List.mem_cons, List.not_mem_nil, or_false] at ha
  rcases ha with rfl | rfl | rfl | rfl | rfl | rfl
  · exact h.username
  · exact h.sessionId
  · exact h.version
  · exact h.networkType
  · exact hw
  · exact hw'

theorem SdpConnecton.Tidy.plain (h : c.Tidy) : Line.Plain ⟨"c".toList, c.str⟩ where
  unbroken := h.str.unbroken
  tight _ := h.tight
  address _ := by rw [h.words_str]; rfl
  numbers heq := absurd (show "c".toList = "m".toList from heq) (by decide)

theorem SdpMedia.Tidy.plain (h : m.Tidy) : Line.Plain ⟨"m".toList, m.str⟩ where
  unbroken := h.str.unbroken
  tight _ := h.tight
  address heq := absurd (show "m".toList = "c".toList from heq) (by decide)
  numbers _ := (str_media h.parse h.tight).mp rfl

theorem Origin.Tidy.plain (h : o.Tidy) (hx : o.address = .my → TwoWords x) :
    Line.Plain ⟨"o".toList, (Header.origin o).written x⟩ where
  unbroken := (h.str hx).unbroken
  tight _ := h.tight hx
  address heq := absurd (show "o".toList = "c".toList from heq) (by decide)
  numbers heq := absurd (show "o".toList = "m".toList from heq) (by decide)

theorem Line.Plain.connection (h : Line.Plain ⟨"c".toList, v⟩) (hparse : SdpConnecton.parse v = .ok c) : c.str = v :=
  str_connection hparse (h.tight (show "c".toList ∈ ["o", "c", "m"].map String.toList by decide)) (h.address rfl)

theorem Line.Plain.media (h : Line.Plain ⟨"m".toList, v⟩) (hparse : SdpMedia.parse v = .ok m) : m.str = v :=
  (str_media hparse (h.tight (show "m".toList ∈ ["o", "c", "m"].map String.toList by decide))).mpr (h.numbers rfl)

theorem Line.Plain.generic (h : Unbroken l.value) (hname : l.name ∉ ["o", "c", "m"].map String.toList) : l.Plain where
  unbroken := h
  tight hmem := absurd hmem hname
  address heq := absurd (heq ▸ by decide) hname
  numbers heq := absurd (heq ▸ by decide) hname

theorem SdpMediaDescription.Fits.plain (h : sect.Fits Unbroken) (hl : l ∈ sect.lines noC) : l.Plain := by
  obtain ⟨name, value⟩ := l
  rcases List.mem_append.mp hl with hl | hl
  · obtain ⟨-, h', hh', hvalue⟩ := mem_headerLines hl
    dsimp only at hh' hvalue
    unfold header at hh'
    split_ifs at hh' with hm hc
    · obtain ⟨m, hm', rfl⟩ := Option.map_eq_some_iff.mp hh'
      rw [hvalue, hm]
      exact (h.media m hm').plain
    · obtain ⟨c, hc', rfl⟩ := Option.map_eq_some_iff.mp hh'
      rw [hvalue, hc]
      exact (h.connection c hc').plain
    · obtain ⟨v, hv, rfl⟩ := Option.map_eq_some_iff.mp hh'
      obtain ⟨hgeneric, hunbroken⟩ := h.headers name v hv
      have hall : ∀ n ∈ generic, n ∉ ["o", "c", "m"].map String.toList := by decide
      rw [hvalue]
      exact .generic hunbroken (hall name hgeneric)
  · obtain ⟨a, ha, heq⟩ := List.mem_map.mp hl
    rw [← heq]
    exact .generic (h.attributes a ha).str (show "a".toList ∉ ["o", "c", "m"].map String.toList by decide)

theorem Description.Fits.plain (h : d.Fits Unbroken) (hx : d.own = true → TwoWords x)
    (hl : l ∈ d.sessionLines x ++ d.parts.flatten) : l.Plain := by
  obtain ⟨name, value⟩ := l
  rcases List.mem_append.mp hl with hl | hl
  · rcases mem_sessionLines hl with ⟨hname, h', hh', hvalue⟩ | ⟨t, htop, heq⟩ | ⟨a, ha, heq⟩
    · dsimp only at hh' hvalue
      unfold header at hh'
      split_ifs at hh' with ho hc
      · obtain ⟨o, ho', rfl⟩ := Option.map_eq_some_iff.mp hh'
        rw [hvalue, ho]
        exact (h.origin o ho').plain fun hmy => hx (by simp [own, ho', hmy])
      · obtain ⟨c, hc', rfl⟩ := Option.map_eq_some_iff.mp hh'
        rw [hvalue, hc]
        exact (h.connection c hc').plain
      · obtain ⟨v, hv, rfl⟩ := Option.map_eq_some_iff.mp hh'
        obtain ⟨hgeneric, hunbroken⟩ := h.headers name v hv
        have hall : ∀ n ∈ SdpBody.generic, n ∉ ["o", "c", "m"].map String.toList := by decide
        rw [hvalue]
        exact .generic hunbroken (hall name hgeneric)
    · obtain ⟨sect, hsect, c, hc, rfl⟩ := top_mem htop
      rw [heq]
      exact ((h.sections sect hsect).connection c hc).plain
    · rw [heq]
      exact .generic (h.attributes a ha).str (show "a".toList ∉ ["o", "c", "m"].map String.toList by decide)
  · obtain ⟨p, hp, hl⟩ := List.mem_flatten.mp hl
    obtain ⟨sect, hsect, rfl⟩ := mem_parts hp
    exact (h.sections sect hsect).plain hl

end Plain

section Kept
variable {ls : List Line} {parts : List (List Line)} {p : List Line} {l : Line} {b : SdpBody} {d : Description} {x : Text}
  {sect : SdpMediaDescription} {c : SdpConnecton}

theorem Description.inEffect_sect (hw : d.Whole) (hsect : sect ∈ d.sections) (hc : sect.cHeader = some c) :
    inEffect (d.sessionLines x) (sect.lines (d.omits sect)) = Line.single "c".toList (some c.str) := by
  obtain ⟨homits, -⟩ := @omits_connection _ x hw _ hsect
  unfold inEffect
  rw [SdpMediaDescription.named_lines (by decide), named_connection]
  have hprinted := (SdpMediaDescription.printed_facts (d.omits sect)).2.2.2.2.1
  cases hcase : d.omits sect with
  | true =>
    obtain ⟨c', hc', hlast⟩ := homits hcase
    obtain rfl : c = c' := Option.some.inj (hc.symm.trans hc')
    rw [lastOf_connection] at hlast
    rw [hcase] at hprinted
    rw [if_neg fun hmem => absurd (hprinted.mp hmem) (by decide), if_pos rfl, hlast]
  | false =>
    rw [hcase] at hprinted
    rw [if_pos (hprinted.mpr rfl), SdpMediaDescription.header_connection, hc]
    exact if_neg (List.cons_ne_nil _ _)

theorem SdpMediaDescription.IsRead.connection_cases (h : IsRead (Line.lastOf "c".toList ls) p sect)
    (hc : sect.cHeader = some c) (hplain : ∀ l ∈ ls ++ p, l.Plain) :
    Line.lastOf "c".toList p = some c.str ∨ Line.named "c".toList p = [] ∧ Line.lastOf "c".toList ls = some c.str := by
  have hconn := h.connection
  rw [hc] at hconn
  cases hp : Line.lastOf "c".toList p with
  | some v =>
    rw [hp] at hconn
    obtain ⟨c', heq, hparse⟩ := Lib.rel_some hconn
    cases heq
    have hline := hplain _ (List.mem_append_right ls (Line.mem_of_lastOf hp))
    exact .inl (congrArg some (hline.connection hparse).symm)
  | none =>
    rw [hp, Option.none_or] at hconn
    have hnil : Line.named "c".toList p = [] := by
      rw [Line.lastOf_named, Option.map_eq_none_iff, List.getLast?_eq_none_iff] at hp
      exact hp
    cases hls : Line.lastOf "c".toList ls with
    | none =>
      rw [hls] at hconn
      exact nomatch Lib.rel_none hconn
    | some v =>
      rw [hls] at hconn
      obtain ⟨c', heq, hparse⟩ := Lib.rel_some hconn
      cases heq
      have hline := hplain _ (List.mem_append_left p (Line.mem_of_lastOf hls))
      exact .inr ⟨hnil, congrArg some (hline.connection hparse).symm⟩

theorem SdpMediaDescription.IsRead.kept_iff (h : IsRead (Line.lastOf "c".toList ls) p sect) (hw : d.Whole)
    (hsect : sect ∈ d.sections) (hone : (Line.named "c".toList ls).length ≤ 1) (hplain : ∀ l ∈ ls ++ p, l.Plain) :
    (ordinary p).Perm (ordinary (sect.lines (d.omits sect))) ∧
      (inEffect ls p).Perm (inEffect (d.sessionLines x) (sect.lines (d.omits sect))) ↔ Once p := by
  obtain ⟨c, hc⟩ := Option.isSome_iff_exists.mp (hw.connections sect hsect)
  have hmedia : Line.lastOf "m".toList p = sect.mHeader.map SdpMedia.str := by
    have hm := h.media
    cases hv : Line.lastOf "m".toList p with
    | none =>
      rw [hv] at hm
      rw [Lib.rel_none hm]
      rfl
    | some v =>
      rw [hv] at hm
      obtain ⟨m, hm, hparse⟩ := Lib.rel_some hm
      have hline := hplain _ (List.mem_append_right ls (Line.mem_of_lastOf hv))
      rw [hm]
      exact congrArg some (hline.media hparse).symm
  have hconn : (inEffect ls p).Perm (Line.single "c".toList (some c.str)) ↔ (Line.named "c".toList p).length ≤ 1 := by
    rcases h.connection_cases hc hplain with hlast | ⟨hnil, hlast⟩
    · have hne : Line.named "c".toList p ≠ [] := by
        intro hnil
        rw [Line.lastOf_named, hnil] at hlast
        exact nomatch hlast
      rw [inEffect, if_neg hne, Line.named_perm]
      exact and_iff_left hlast
    · rw [inEffect, if_pos hnil, Line.named_perm, hnil]
      exact iff_of_true ⟨hone, hlast⟩ (Nat.zero_le 1)
  rw [d.inEffect_sect hw hsect hc, hconn, h.prints.perm_iff, and_iff_left hmedia]
  constructor
  · rintro ⟨hrest, hc⟩ name ha
    by_cases hname : name = "c".toList
    · rwa [hname]
    · exact hrest name ha hname
  · intro hp
    exact ⟨fun name ha _ => hp name ha, hp "c".toList (by decide)⟩

theorem SdpBody.IsBody.printed_connection (h : IsBody ls parts b) (hw : (Description.ofSdpBody b).Whole)
    (hplain : ∀ l ∈ ls ++ parts.flatten, l.Plain) (hparts : parts ≠ []) (hl : l.name = "c".toList)
    (hmem : l ∈ (Description.ofSdpBody b).sessionLines x ∨ ∃ p' ∈ (Description.ofSdpBody b).parts, l ∈ p') :
    ∃ p ∈ parts, Line.named "c".toList p = [] ∨ l ∈ p := by
  obtain ⟨sect, hsect, c, hc, heq⟩ : ∃ sect ∈ b.sections, ∃ c, sect.cHeader = some c ∧ l = ⟨"c".toList, c.str⟩ := by
    rcases hmem with hmem | ⟨p', hp', hmem⟩
    · have hnamed := Line.mem_named.mpr ⟨hmem, hl⟩
      have hconn := h.connection
      rw [if_neg hparts] at hconn
      have hnone : (Description.ofSdpBody b).cHeader = none := Lib.rel_none hconn
      rw [Description.named_connection, hnone, Option.map_none, Option.or_none] at hnamed
      cases htop : (Description.ofSdpBody b).top with
      | none =>
        rw [htop] at hnamed
        exact absurd hnamed List.not_mem_nil
      | some t =>
        rw [htop] at hnamed
        obtain ⟨sect, hsect, c, hc, rfl⟩ := Description.top_mem htop
        exact ⟨sect, hsect, c, hc, List.mem_singleton.mp hnamed⟩
    · obtain ⟨sect, hsect, rfl⟩ := Description.mem_parts hp'
      have hnamed := Line.mem_named.mpr ⟨hmem, hl⟩
      obtain ⟨c, hc⟩ := Option.isSome_iff_exists.mp (hw.connections sect hsect)
      rw [SdpMediaDescription.named_lines (by decide), SdpMediaDescription.header_connection, hc] at hnamed
      refine ⟨sect, hsect, c, hc, ?_⟩
      split at hnamed
      · exact List.mem_singleton.mp hnamed
      · exact absurd hnamed List.not_mem_nil
  obtain ⟨p, hp, hread⟩ := Lib.exists_of_forall₂ h.sections.flip hsect
  have hpart : ∀ l ∈ ls ++ p, l.Plain := by
    intro l hl
    apply hplain
    rcases List.mem_append.mp hl with hl | hl
    · exact List.mem_append_left _ hl
    · exact List.mem_append_right _ (List.mem_flatten.mpr ⟨p, hp, hl⟩)
  refine ⟨p, hp, ?_⟩
  rcases hread.connection_cases hc hpart with hlast | ⟨hnil, -⟩
  · rw [heq]
    exact .inr (Line.mem_of_lastOf hlast)
  · exact .inl hnil

theorem mem_of_inEffect (h : l ∈ inEffect ls p) : l.name = "c".toList ∧ (l ∈ ls ∨ l ∈ p) := by
  unfold inEffect at h
  split at h
  · obtain ⟨hl, hname⟩ := Line.mem_named.mp h
    exact ⟨hname, .inl hl⟩
  · obtain ⟨hl, hname⟩ := Line.mem_named.mp h
    exact ⟨hname, .inr hl⟩

theorem mem_inEffect (hl : l ∈ Line.named "c".toList ls) (h : Line.named "c".toList p = [] ∨ l ∈ p) :
    l ∈ inEffect ls p := by
  unfold inEffect
  split
  · exact hl
  · rename_i hne
    exact Line.mem_named.mpr ⟨h.resolve_left hne, (Line.mem_named.mp hl).2⟩

theorem SdpBody.IsBody.kept_iff (h : IsBody ls parts b) (hw : (Description.ofSdpBody b).Whole)
    (hnames : ∀ l ∈ ls, l.name ∈ letters ∧ l.name ≠ "m".toList) (hone : (Line.named "c".toList ls).length ≤ 1)
    (hplain : ∀ l ∈ ls ++ parts.flatten, l.Plain) :
    Kept ls parts ((Description.ofSdpBody b).sessionLines x) (Description.ofSdpBody b).parts ↔
      Once ls ∧ (∀ p ∈ parts, Once p) ∧
        (parts ≠ [] → ∀ l ∈ Line.named "c".toList ls, ∃ p ∈ parts, Line.named "c".toList p = [] ∨ l ∈ p) := by
  have hpart : ∀ p ∈ parts, ∀ l ∈ ls ++ p, l.Plain := by
    intro p hp l hl
    apply hplain
    rcases List.mem_append.mp hl with hl | hl
    · exact List.mem_append_left _ hl
    · exact List.mem_append_right _ (List.mem_flatten.mpr ⟨p, hp, hl⟩)
  have htight : ∀ l ∈ ls, l.name = "o".toList → Tight l.value := by
    intro l hl ho
    exact (hplain l (List.mem_append_left _ hl)).tight (ho ▸ by decide)
  have hm : Line.lastOf "m".toList ls = none := Line.lastOf_eq_none fun l hl => (hnames l hl).2
  have hsession : (ordinary ls).Perm (ordinary ((Description.ofSdpBody b).sessionLines x)) ↔ Once ls := by
    rw [(h.prints_session hnames htight).perm_iff, and_iff_left hm]
    constructor
    · intro hrest name ha
      by_cases hname : name = "c".toList
      · rwa [hname]
      · exact hrest name ha hname
    · exact fun hls name ha _ => hls name ha
  have hsections : List.Forall₂ (fun p p' => (ordinary p).Perm (ordinary p') ∧
      (inEffect ls p).Perm (inEffect ((Description.ofSdpBody b).sessionLines x) p')) parts
        (Description.ofSdpBody b).parts ↔ ∀ p ∈ parts, Once p := by
    rw [Description.parts, List.forall₂_map_right_iff]
    apply Lib.forall₂_iff_left h.sections
    intro p hp sect hsect hread
    exact hread.kept_iff hw hsect hone (hpart p hp)
  constructor
  · rintro ⟨hs, hss, hconns⟩
    refine ⟨hsession.mp hs, hsections.mp hss, fun hne l hl => ?_⟩
    exact h.printed_connection hw hplain hne (Line.mem_named.mp hl).2 (hconns l hl)
  · rintro ⟨hs, hss, hused⟩
    have hall := hsections.mpr hss
    refine ⟨hsession.mpr hs, hall, fun l hl => ?_⟩
    by_cases hparts : parts = []
    · have hconn := h.connection
      rw [if_pos hparts] at hconn
      have hnil : (Description.ofSdpBody b).sections = [] := by
        have hlen := h.sections.length_eq
        rw [hparts] at hlen
        exact List.eq_nil_of_length_eq_zero hlen.symm
      have hsingle : Line.named "c".toList ls = Line.single "c".toList (b.cHeader.map SdpConnecton.str) := by
        rw [Line.named_once hone]
        cases hv : Line.lastOf "c".toList ls with
        | none =>
          rw [hv] at hconn
          rw [Lib.rel_none hconn]
          rfl
        | some v =>
          rw [hv] at hconn
          obtain ⟨c, hc, hparse⟩ := Lib.rel_some hconn
          have hline := hplain _ (List.mem_append_left _ (Line.mem_of_lastOf hv))
          rw [hc, Option.map_some, hline.connection hparse]
      have hnamed := @Description.named_connection (Description.ofSdpBody b) x
      rw [Description.top_nil hnil, Option.none_or] at hnamed
      rw [hsingle] at hl
      exact .inl (Line.mem_named.mp (hnamed ▸ hl)).1
    · obtain ⟨p, hp, hin⟩ := hused hparts l hl
      obtain ⟨p', hp', -, hperm⟩ := Lib.exists_of_forall₂ hall hp
      have hmem := hperm.mem_iff.mp (mem_inEffect hl hin)
      obtain ⟨-, hmem | hmem⟩ := mem_of_inEffect hmem
      · exact .inl hmem
      · exact .inr ⟨p', hp', hmem⟩

theorem Kept.mem {ls' : List Line} {parts' : List (List Line)} (h : Kept ls parts ls' parts')
    (hl : l ∈ ls ++ parts.flatten) : l ∈ ls' ++ parts'.flatten := by
  have hordinary {q q' : List Line} (hperm : (ordinary q).Perm (ordinary q')) (hl : l ∈ q) (hc : l.name ≠ "c".toList) :
      l ∈ q' := List.mem_of_mem_filter (hperm.mem_iff.mp (List.mem_filter.mpr ⟨hl, decide_eq_true hc⟩))
  rcases List.mem_append.mp hl with hl | hl
  · by_cases hc : l.name = "c".toList
    · rcases h.connections l (Line.mem_named.mpr ⟨hl, hc⟩) with hmem | ⟨p', hp', hmem⟩
      · exact List.mem_append_left _ hmem
      · exact List.mem_append_right _ (List.mem_flatten.mpr ⟨p', hp', hmem⟩)
    · exact List.mem_append_left _ (hordinary h.session hl hc)
  · obtain ⟨p, hp, hl⟩ := List.mem_flatten.mp hl
    obtain ⟨p', hp', hperm, heffect⟩ := Lib.exists_of_forall₂ h.sections hp
    by_cases hc : l.name = "c".toList
    · have hnamed := Line.mem_named.mpr ⟨hl, hc⟩
      have hne : Line.named "c".toList p ≠ [] := List.ne_nil_of_mem hnamed
      have hmem : l ∈ inEffect ls p := by
        rw [inEffect, if_neg hne]
        exact hnamed
      obtain ⟨-, hmem | hmem⟩ := mem_of_inEffect (heffect.mem_iff.mp hmem)
      · exact List.mem_append_left _ hmem
      · exact List.mem_append_right _ (List.mem_flatten.mpr ⟨p', hp', hmem⟩)
    · exact List.mem_append_right _ (List.mem_flatten.mpr ⟨p', hp', hordinary hperm hl hc⟩)

end Kept

section Text
variable {ls ls' : List Line} {parts : List (List Line)} {p : List Line} {l : Line} {b : SdpBody} {x : Text}

theorem trim_append (hne : p ≠ []) : trim (ls ++ p) = ls ++ trim p := by
  obtain ⟨init, last, rfl⟩ := List.eq_nil_or_concat p |>.resolve_left hne
  rw [List.concat_eq_append, ← List.append_assoc, trim_concat, trim_concat, List.append_assoc]

theorem trim_eq_iff : trim ls = ls ↔ ∀ l ∈ ls.getLast?, rstrip l.value = l.value := by
  rcases ls.eq_nil_or_concat with rfl | ⟨init, last, rfl⟩
  · exact iff_of_true rfl fun l hl => nomatch hl
  · rw [List.concat_eq_append, trim_concat, List.getLast?_concat]
    constructor
    · intro h l hl
      cases hl
      have heq := (List.cons.inj (List.append_cancel_left h)).1
      exact (Line.mk.inj heq).2
    · intro h
      rw [h last rfl]

/-- Only the last line of a text can come in otherwise than it was written. -/
theorem lines_trim (h : ∀ l ∈ ls, l.name ∈ letters ∧ Unbroken l.value) :
    SdpBody.lines (Line.text ls) = (trim ls).map Line.str := by
  rcases ls.eq_nil_or_concat with rfl | ⟨init, last, rfl⟩
  · rfl
  · rw [List.concat_eq_append] at h ⊢
    rw [lines_text h, trim_concat]

theorem SdpBody.IsPart.trim (h : IsPart p) : IsPart (trim p) := by
  obtain ⟨⟨l, rest, rfl, hl, hrest⟩, hnamed⟩ := h
  refine ⟨?_, fun l' hl' => ?_⟩
  · cases rest with
    | nil => exact ⟨_, [], rfl, hl, fun l' hl' => absurd hl' List.not_mem_nil⟩
    | cons l₂ rest =>
      have hcons : Sdp.trim (l :: l₂ :: rest) = [l] ++ Sdp.trim (l₂ :: rest) :=
        @trim_append [l] _ (List.cons_ne_nil l₂ rest)
      refine ⟨l, Sdp.trim (l₂ :: rest), hcons, hl, fun l' hl' => ?_⟩
      obtain ⟨l'', hl'', hname, -⟩ := mem_trim hl'
      rw [hname]
      exact hrest l'' hl''
  · obtain ⟨l'', hl'', hname, -⟩ := mem_trim hl'
    rw [hname]
    exact hnamed l'' hl''

theorem Conforming.named (h : Conforming ls parts) (hl : l ∈ ls ++ parts.flatten) : l.name ∈ letters := by
  rcases List.mem_append.mp hl with hl | hl
  · exact (h.session l hl).1
  · obtain ⟨p, hp, hl⟩ := List.mem_flatten.mp hl
    exact (h.sections p hp).named l hl

theorem Kept.trim_eq (hkept : Kept ls parts ((Description.ofSdpBody b).sessionLines x) (Description.ofSdpBody b).parts)
    (h : Conforming ls parts) (hb : SdpBody.parse (Line.text (ls ++ parts.flatten)) = .ok b)
    (hplain : ∀ l ∈ ls ++ parts.flatten, l.Plain) : trim (ls ++ parts.flatten) = ls ++ parts.flatten := by
  have hlines := lines_trim fun l hl => ⟨h.named hl, (hplain l hl).unbroken⟩
  rcases parts.eq_nil_or_concat with rfl | ⟨init, p, rfl⟩
  · rw [List.flatten_nil, List.append_nil] at hlines hb hplain ⊢
    have hnames : ∀ l ∈ trim ls, l.name ∈ letters ∧ l.name ≠ "m".toList := by
      intro l hl
      obtain ⟨l', hl', hname, -⟩ := mem_trim hl
      rw [hname]
      exact h.session l' hl'
    have htight : ∀ l ∈ trim ls, l.name = "o".toList → Tight l.value := by
      intro l hl ho
      obtain ⟨l', hl', hname, hvalue⟩ := mem_trim hl
      have ht := (hplain l' hl').tight (by rw [← hname, ho]; decide)
      rcases hvalue with rfl | hvalue
      · exact ht
      · rw [hvalue, ht.rstrip]
        exact ht
    have hflat : trim ls = trim ls ++ ([] : List (List Line)).flatten := (List.append_nil _).symm
    rw [hflat] at hlines
    have hbody := SdpBody.isBody_of_parse hlines hnames (fun q hq => absurd hq List.not_mem_nil) hb
    exact (hbody.prints_session hnames htight).trim_eq hkept.session hplain
  · rw [List.concat_eq_append] at *
    have hp : SdpBody.IsPart p := h.sections p (by simp)
    have hne : p ≠ [] := by
      obtain ⟨l, rest, rfl, -⟩ := hp.opens
      exact List.cons_ne_nil l rest
    have hflat (q : List Line) : ls ++ (init ++ [q]).flatten = ls ++ init.flatten ++ q := by simp
    rw [hflat, trim_append hne] at hlines ⊢
    rw [← hflat (Sdp.trim p), ← hflat p] at hlines
    have hsections : ∀ q ∈ init ++ [trim p], SdpBody.IsPart q := by
      intro q hq
      rcases List.mem_append.mp hq with hq | hq
      · exact h.sections q (List.mem_append_left _ hq)
      · rw [List.mem_singleton.mp hq]
        exact hp.trim
    have hbody := SdpBody.isBody_of_parse hlines h.session hsections hb
    have hkept' := hkept.sections
    rw [Description.parts, List.forall₂_map_right_iff] at hkept'
    obtain ⟨sect, hsect, hperm, -⟩ := Lib.forall₂_last hkept'
    obtain ⟨sect', hsect', hread⟩ := Lib.forall₂_last hbody.sections
    obtain rfl : sect = sect' := Option.some.inj (hsect.symm.trans hsect')
    have htrim := hread.prints.trim_eq hperm fun l hl => hplain l (by simp [hl])
    rw [htrim]

/-- All lines of a text of the grammar that is accepted are printed exactly if none of its parts has two headers with one
name, all its lines are plain, the last has no white space at its end, and the connection of the session part is not
overridden in all sections. -/
theorem lines_kept_iff (h : Conforming ls parts) (hb : SdpBody.parse (Line.text (ls ++ parts.flatten)) = .ok b)
    (myAddress : Text) :
    (Description.ofSdpBody b).str myAddress = Line.text
      ((Description.ofSdpBody b).sessionLines ("IP4 ".toList ++ myAddress) ++ (Description.ofSdpBody b).parts.flatten) ∧
    (Kept ls parts ((Description.ofSdpBody b).sessionLines ("IP4 ".toList ++ myAddress)) (Description.ofSdpBody b).parts ↔
      Survives ls parts) := by
  have hfits : (Description.ofSdpBody b).Fits Unbroken ∧ (Description.ofSdpBody b).Whole := by
    apply SdpBody.parse_fits hb
    intro line hline name v hsplit c hc
    apply SdpBody.unbroken_of_mem_lines hline
    rw [Lib.Text.split1_eq hsplit]
    simp [hc]
  have hown : (Description.ofSdpBody b).own = false := by
    unfold Description.own Description.ofSdpBody
    cases b.oHeader <;> rfl
  constructor
  · rw [Description.str_written, Description.written_lines]
  · constructor
    · intro hkept
      have hplain : ∀ l ∈ ls ++ parts.flatten, l.Plain := by
        intro l hl
        exact hfits.1.plain (fun hmy => absurd hmy (by rw [hown]; decide)) (hkept.mem hl)
      have htrim := hkept.trim_eq h hb hplain
      have hlines := lines_trim fun l hl => ⟨h.named hl, (hplain l hl).unbroken⟩
      rw [htrim] at hlines
      have hbody := SdpBody.isBody_of_parse hlines h.session h.sections hb
      obtain ⟨hsession, hsections, hused⟩ := (hbody.kept_iff hfits.2 h.session h.connection hplain).mp hkept
      exact ⟨hsession, hsections, hplain, trim_eq_iff.mp htrim, hused⟩
    · intro hs
      have hlines := lines_trim fun l hl => ⟨h.named hl, (hs.plain l hl).unbroken⟩
      rw [trim_eq_iff.mpr hs.last] at hlines
      have hbody := SdpBody.isBody_of_parse hlines h.session h.sections hb
      exact (hbody.kept_iff hfits.2 h.session h.connection hs.plain).mpr ⟨hs.session, hs.sections, hs.used⟩

end Text

theorem once_of_nodup {ls : List Line} (h : (ls.map Line.name).Nodup) : Once ls := by
  intro name _
  have hnamed : ((Line.named name ls).map Line.name).Nodup := h.sublist (List.filter_sublist.map Line.name)
  have hall : (Line.named name ls).map Line.name = List.replicate (Line.named name ls).length name := by
    rw [List.eq_replicate_iff, List.length_map]
    refine ⟨rfl, fun n hn => ?_⟩
    obtain ⟨l, hl, rfl⟩ := List.mem_map.mp hn
    exact (Line.mem_named.mp hl).2
  rw [hall] at hnamed
  exact List.nodup_replicate.mp hnamed

def callLines : List Line :=
  [⟨"v".toList, "0".toList⟩, ⟨"o".toList, "- 1 1 IN IP4 10.0.0.1".toList⟩, ⟨"s".toList, "-".toList⟩,
    ⟨"c".toList, "IN IP4 10.0.0.1".toList⟩, ⟨"t".toList, "0 0".toList⟩]

def limited (limits : List Text) : List Line :=
  ⟨"m".toList, "audio 4000 RTP/AVP 0".toList⟩ :: limits.map fun v => ⟨"b".toList, v⟩

/-- The call as it is read, of whose limits it has one. -/
def limitedBody (limit : Text) : SdpBody where
  oHeader := some ⟨"-".toList, .text "1".toList, .text "1".toList, "IN".toList, "IP4".toList, "10.0.0.1".toList⟩
  cHeader := none
  headers := [("v".toList, "0".toList), ("s".toList, "-".toList), ("t".toList, "0 0".toList)]
  aHeaders := []
  sections := [{
    mHeader := some ⟨"audio".toList, 4000, "RTP/AVP".toList, .payloads [0]⟩
    cHeader := some ⟨"IN".toList, "IP4".toList, "10.0.0.1".toList⟩
    headers := [("b".toList, limit)]
    aHeaders := []
    needsUpdate := true }]

theorem limited_conforming {limits : List Text} (h : ∀ v ∈ limits, '\r' ∉ v ∧ '\n' ∉ v) :
    Conforming callLines [limited limits] where
  session := by decide
  connection := by decide
  sections p hp := by
    rw [List.mem_singleton.mp hp]
    refine ⟨⟨_, _, rfl, rfl, fun l hl => ?_⟩, fun l hl => ?_⟩
    · obtain ⟨v, -, rfl⟩ := List.mem_map.mp hl
      exact (by decide : "b".toList ≠ "m".toList)
    · rcases List.mem_cons.mp hl with rfl | hl
      · exact (by decide : "m".toList ∈ letters)
      · obtain ⟨v, -, rfl⟩ := List.mem_map.mp hl
        exact (by decide : "b".toList ∈ letters)
  lines l hl := by
    have hcall : ∀ l ∈ callLines, '\r' ∉ l.value ∧ '\n' ∉ l.value := by decide
    have hmedia : '\r' ∉ "audio 4000 RTP/AVP 0".toList ∧ '\n' ∉ "audio 4000 RTP/AVP 0".toList := by decide
    rcases List.mem_append.mp hl with hl | hl
    · exact hcall l hl
    · rw [List.flatten_cons, List.flatten_nil, List.append_nil] at hl
      rcases List.mem_cons.mp hl with rfl | hl
      · exact hmedia
      · obtain ⟨v, hv, rfl⟩ := List.mem_map.mp hl
        exact h v hv

/-- Of two limits of the bandwidth of a stream the first gets lost. -/
theorem limited_lost : Conforming callLines [limited ["AS:64".toList, "TIAS:64000".toList]] ∧
    SdpBody.parse (Line.text (callLines ++ [limited ["AS:64".toList, "TIAS:64000".toList]].flatten)) =
      .ok (limitedBody "TIAS:64000".toList) ∧
    (Description.ofSdpBody (limitedBody "TIAS:64000".toList)).parts = [limited ["TIAS:64000".toList]] ∧
    ¬ Kept callLines [limited ["AS:64".toList, "TIAS:64000".toList]]
      ((Description.ofSdpBody (limitedBody "TIAS:64000".toList)).sessionLines "IP4 10.0.0.9".toList)
      (Description.ofSdpBody (limitedBody "TIAS:64000".toList)).parts := by
  have hparts : (Description.ofSdpBody (limitedBody "TIAS:64000".toList)).parts = [limited ["TIAS:64000".toList]] := by
    decide +kernel
  refine ⟨limited_conforming (by decide), by decide +kernel, hparts, fun h => ?_⟩
  have hsections := h.sections
  rw [hparts] at hsections
  cases hsections with
  | cons hone _ => exact absurd hone.1.length_eq (by decide)

theorem lines_kept_iff_limited :
    (Description.ofSdpBody (limitedBody "AS:64".toList)).str "10.0.0.9".toList =
      Line.text (callLines ++ [limited ["AS:64".toList]].flatten) ∧
    Kept callLines [limited ["AS:64".toList]]
      ((Description.ofSdpBody (limitedBody "AS:64".toList)).sessionLines ("IP4 ".toList ++ "10.0.0.9".toList))
      (Description.ofSdpBody (limitedBody "AS:64".toList)).parts := by
  have hparse : SdpBody.parse (Line.text (callLines ++ [limited ["AS:64".toList]].flatten)) =
      .ok (limitedBody "AS:64".toList) := by decide +kernel
  have hlines : (Description.ofSdpBody (limitedBody "AS:64".toList)).sessionLines ("IP4 ".toList ++ "10.0.0.9".toList) ++
      (Description.ofSdpBody (limitedBody "AS:64".toList)).parts.flatten =
        callLines ++ [limited ["AS:64".toList]].flatten := by decide +kernel
  have hall := lines_kept_iff (limited_conforming (by decide)) hparse "10.0.0.9".toList
  rw [hlines] at hall
  refine ⟨hall.1, hall.2.mpr ?_⟩
  have hplain : ∀ l ∈ callLines ++ [limited ["AS:64".toList]].flatten, Unbroken l.value ∧
      (l.name ∈ ["o", "c", "m"].map String.toList → [' '].intercalate (words l.value) = l.value) ∧
      (l.name = "c".toList → (words l.value).length = 3) ∧
      (l.name = "m".toList → l.value = "audio 4000 RTP/AVP 0".toList) := by decide +kernel
  have hmedia : SdpMedia.parse "audio 4000 RTP/AVP 0".toList =
      .ok ⟨"audio".toList, 4000, "RTP/AVP".toList, .payloads [0]⟩ := by decide +kernel
  have htight : Tight "audio 4000 RTP/AVP 0".toList := (by decide +kernel : [' '].intercalate (words _) = _)
  refine ⟨once_of_nodup (by decide), fun p hp => ?_, fun l hl => ?_, by decide +kernel, fun _ l hl => ?_⟩
  · rw [List.mem_singleton.mp hp]
    exact once_of_nodup (by decide)
  · obtain ⟨hunbroken, ht, haddress, hm⟩ := hplain l hl
    refine ⟨hunbroken, ht, haddress, fun hname => ?_⟩
    rw [hm hname]
    exact (str_media hmedia htight).mp (by decide +kernel)
  · exact ⟨_, List.mem_singleton.mpr rfl, .inl (by decide)⟩

end SippyB2bua.Sdp
