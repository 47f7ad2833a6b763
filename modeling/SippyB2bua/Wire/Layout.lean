import SippyB2bua.Wire.SipMsg
import SippyB2bua.Lib.Letters

/-!
# The layout of a printed message

A printed message is its lines, each with CR LF, an empty line and the body. Where no line
contains CR, the parser finds the empty line again. A line that does not continue another
divides the reading into two parts.
-/

namespace SippyB2bua.Wire
open Lib (Text)
open Lib.Text (cut crlf splitlines linePieces)

def classNames : List String :=
  ["CSeq", "i", "Call-ID", "f", "From", "t", "To", "Max-Forwards", "v", "Via", "l", "Content-Length",
    "c", "Content-Type", "Record-Route", "Route", "m", "Contact", "WWW-Authenticate", "Authorization",
    "User-Agent", "h323-conf-id", "cisco-GUID", "CC-Diversion", "Proxy-Authenticate",
    "Proxy-Authorization", "P-Asserted-Identity", "Allow", "k", "Supported", "RSeq", "RAck",
    "Diversion", "Path"]

def printedNames : List Text := classNames.map String.toList

theorem mem_printedNames {s : String} (h : s ∈ classNames) : s.toList ∈ printedNames :=
  List.mem_map_of_mem h

theorem getCanName_mem (t : HfType) (name : Text) (compact : Bool) :
    t.getCanName name compact ∈ printedNames ∨ t.getCanName name compact = capitalize name := by
  cases t with
  | sipExpires | sipServer | sipAlso | sipReferTo | sipReferredBy | sipReplaces | sipReason
  | sipWarning | sipGenericHF => exact .inr rfl
  | sipCallId | sipFrom | sipTo | sipVia | sipContentLength | sipContentType | sipContact
  | sipSupported | sipRecordRoute | sipRoute | sipCiscoGUID =>
    left
    unfold HfType.getCanName
    dsimp only
    split
    · exact mem_printedNames (by simp [classNames])
    · exact mem_printedNames (by simp [classNames])
  | _ =>
    left
    unfold HfType.getCanName
    exact mem_printedNames (by simp [classNames])

/-- No printed name has a character that is neither in the names of classes nor in the header's. -/
theorem getCanName_of {p : Char → Bool} (hp : ∀ c : Char, c.isAlpha = true → p c = false)
    (hnames : ∀ n ∈ printedNames, ∀ c ∈ n, p c = false) (t : HfType) {name : Text}
    (h : ∀ c ∈ name, p c = false) (compact : Bool) :
    ∀ c ∈ t.getCanName name compact, p c = false := by
  rcases getCanName_mem t name compact with hmem | heq
  · exact hnames _ hmem
  · rw [heq]
    cases name with
    | nil => exact h
    | cons d ds =>
      intro c hc
      rcases List.mem_cons.mp hc with rfl | hc
      · rw [Lib.Text.toUpper_of hp]
        exact h d List.mem_cons_self
      · exact Lib.Text.lower_of hp (fun e he => h e (List.mem_cons_of_mem d he)) c hc

theorem not_mem_getCanName {x : Char} (hx : x.isAlpha = false) (hnames : ∀ n ∈ printedNames, x ∉ n)
    (t : HfType) {name : Text} (h : x ∉ name) (compact : Bool) : x ∉ t.getCanName name compact := by
  have hp (c : Char) (hc : c.isAlpha = true) : (c == x) = false := by
    rw [beq_eq_false_iff_ne]
    rintro rfl
    exact Bool.false_ne_true (hx.symm.trans hc)
  have hne {n : Text} (hn : x ∉ n) : ∀ c ∈ n, (c == x) = false := by
    intro c hc
    rw [beq_eq_false_iff_ne]
    rintro rfl
    exact hn hc
  have hall := getCanName_of hp (fun n hn => hne (hnames n hn)) t (hne h) compact
  exact fun hmem => absurd (hall x hmem) (by simp)

section Locate
variable {l s body : Text} {ls : List Text}

def endOfLines : Text := crlf ++ crlf

theorem print_eq (form : SipMsg.Form) (m : SipMsg) : m.print form =
    (((m.startLine form.localAddr).getSL :: m.headers.map (SipMsg.line form) ++
      (m.trailer form).1).flatMap fun l => l ++ crlf) ++ (crlf ++ (m.trailer form).2) := by
  rw [SipMsg.print, List.append_assoc]

theorem cut_crlf (h : ∀ s', s ≠ '\r' :: s') :
    cut endOfLines (crlf ++ s) = (cut endOfLines s).map fun p => (crlf ++ p.1, p.2) := by
  have hpre₁ : endOfLines.isPrefixOf ('\r' :: '\n' :: s) = false := by
    cases s with
    | nil => rfl
    | cons c s =>
      have hc : '\r' ≠ c := by
        rintro rfl
        exact h s rfl
      simp [endOfLines, crlf, List.isPrefixOf, hc]
  have hpre₂ : endOfLines.isPrefixOf ('\n' :: s) = false := rfl
  rw [show crlf ++ s = '\r' :: '\n' :: s from rfl, cut, cut, hpre₁, hpre₂]
  cases cut endOfLines s <;> rfl

theorem cut_lines (h : ∀ l' ∈ l :: ls, '\r' ∉ l') (hne : ∀ l' ∈ ls, l' ≠ []) (body : Text) :
    cut endOfLines ((l :: ls).flatMap (fun l => l ++ crlf) ++ (crlf ++ body)) =
      some (crlf.intercalate (l :: ls), body) := by
  induction ls generalizing l with
  | nil =>
    have hne : endOfLines ≠ [] := by decide
    have hself := Lib.Text.cut_self hne body
    have hcut := Lib.Text.cut_append (h l List.mem_cons_self) ['\n', '\r', '\n'] (endOfLines ++ body)
    rw [show '\r' :: ['\n', '\r', '\n'] = endOfLines from rfl, hself] at hcut
    simpa [endOfLines] using hcut
  | cons m ls ih =>
    specialize ih (fun l' hl' => h l' (List.mem_cons_of_mem l hl'))
      fun l' hl' => hne l' (List.mem_cons_of_mem m hl')
    have hcut := Lib.Text.cut_append (h l List.mem_cons_self) ['\n', '\r', '\n']
      (crlf ++ ((m :: ls).flatMap (fun l => l ++ crlf) ++ (crlf ++ body)))
    have hhead (s' : Text) :
        (m :: ls).flatMap (fun l => l ++ crlf) ++ (crlf ++ body) ≠ '\r' :: s' := by
      cases hm : m with
      | nil => exact absurd hm (hne m List.mem_cons_self)
      | cons c m' =>
        intro heq
        have hc : c = '\r' := by
          simp only [List.flatMap_cons, List.cons_append, List.cons.injEq] at heq
          exact heq.1
        exact h m (List.mem_cons_of_mem l List.mem_cons_self) (hm ▸ hc ▸ List.mem_cons_self)
    rw [show '\r' :: ['\n', '\r', '\n'] = endOfLines from rfl, cut_crlf hhead, ih] at hcut
    rw [List.intercalate_cons_of_ne_nil (List.cons_ne_nil m ls)]
    simpa using hcut

theorem locateBody_lines (h : ∀ l' ∈ l :: ls, '\r' ∉ l') (hne : ∀ l' ∈ ls, l' ≠ []) :
    locateBody ((l :: ls).flatMap (fun l => l ++ crlf) ++ (crlf ++ body)) =
      (crlf.intercalate (l :: ls), if body = [] then none else some body) := by
  have hcut := cut_lines h hne body
  unfold locateBody bodyDelims
  rw [List.findSome?_cons, show "\r\n\r\n".toList = endOfLines from rfl, hcut]

theorem line_ne_nil (form : SipMsg.Form) (h : SipHeader) : SipMsg.line form h ≠ [] := by
  simp [SipMsg.line, SipHeader.localStr]

theorem trailer_ne_nil (form : SipMsg.Form) (m : SipMsg) : ∀ l ∈ (m.trailer form).1, l ≠ [] := by
  unfold SipMsg.trailer
  cases m.body with
  | none => simp
  | some b => simp

theorem trailer_concat (form : SipMsg.Form) (m : SipMsg) :
    ∃ front last, (m.trailer form).1 = front ++ [last] := by
  unfold SipMsg.trailer
  cases m.body with
  | none => exact ⟨[], _, rfl⟩
  | some b => exact ⟨[_], _, rfl⟩

theorem locateBody_print {form : SipMsg.Form} {m : SipMsg}
    (h : ∀ l ∈ (m.startLine form.localAddr).getSL :: (m.headers.map (SipMsg.line form) ++
      (m.trailer form).1), '\r' ∉ l) :
    locateBody (m.print form) =
      (crlf.intercalate ((m.startLine form.localAddr).getSL :: (m.headers.map (SipMsg.line form) ++
        (m.trailer form).1)), if (m.trailer form).2 = [] then none else some (m.trailer form).2) := by
  rw [print_eq, List.cons_append]
  apply locateBody_lines h
  intro l hl
  rcases List.mem_append.mp hl with hl | hl
  · obtain ⟨hd, -, rfl⟩ := List.mem_map.mp hl
    exact line_ne_nil form hd
  · exact trailer_ne_nil form m l hl

theorem lines_around {form : SipMsg.Form} {m : SipMsg} {front back : List SipHeader} {hd : SipHeader}
    (hm : m.headers = front ++ hd :: back)
    (h : ∀ l ∈ (m.startLine form.localAddr).getSL :: (m.headers.map (SipMsg.line form) ++
      (m.trailer form).1), '\r' ∉ l) :
    ∃ rest, splitlines (locateBody (m.print form)).1 =
      linePieces (m.startLine form.localAddr).getSL ++
        ((front.map (SipMsg.line form)).flatMap linePieces ++
          (linePieces (SipMsg.line form hd) ++ rest)) := by
  obtain ⟨tfront, last, htrailer⟩ := trailer_concat form m
  rw [locateBody_print h]
  rw [htrailer, ← List.append_assoc, ← List.cons_append] at h ⊢
  rw [Lib.Text.splitlines_intercalate fun l hl => h l (List.mem_append_left _ hl), hm]
  exact ⟨((back.map (SipMsg.line form)) ++ tfront).flatMap linePieces ++ splitlines last, by simp⟩

end Locate

section Reading
variable {l : Text} {ls ls' : List Text} {r r' : Read}

theorem foldLines_append (h : continues l = false) (first : Text) (ls : List Text) :
    foldLines first (ls ++ l :: ls') = foldLines first ls ++ foldLines l ls' := by
  induction ls generalizing first with
  | nil => simp [foldLines, h]
  | cons m ls ih =>
    cases hm : continues m with
    | true => simp [foldLines, hm, ih]
    | false => simp [foldLines, hm, ih]

theorem headerLines_append (h : continues l = false) (ls : List Text) :
    headerLines (ls ++ l :: ls') = headerLines ls ++ headerLines (l :: ls') := by
  cases ls with
  | nil => rfl
  | cons m ls => exact foldLines_append h m ls

theorem foldLines_eq (l : Text) (ls : List Text) :
    ∃ more rest, foldLines l ls = (l ++ more) :: rest := by
  induction ls generalizing l with
  | nil => exact ⟨[], [], by rw [List.append_nil, foldLines]⟩
  | cons m ls ih =>
    cases hm : continues m with
    | false => exact ⟨[], foldLines m ls, by simp [foldLines, hm]⟩
    | true =>
      obtain ⟨more, rest, hrest⟩ := ih (l ++ ' ' :: Lib.Text.strip m)
      refine ⟨' ' :: Lib.Text.strip m ++ more, rest, ?_⟩
      simp only [foldLines, hm, if_true, hrest]
      simp

theorem readHeaders_append (r : Read) (ls : List Text) :
    readHeaders r (ls ++ ls') = (readHeaders r ls).bind fun r => readHeaders r ls' := by
  induction ls generalizing r with
  | nil => rfl
  | cons l ls ih =>
    rw [List.cons_append, readHeaders, readHeaders]
    cases SipHeader.ofLine l with
    | error e => rfl
    | ok hs => exact ih _

theorem readHeaders_append_ok : readHeaders r (ls ++ ls') = .ok r' ↔
    ∃ r₁, readHeaders r ls = .ok r₁ ∧ readHeaders r₁ ls' = .ok r' := by
  rw [readHeaders_append]
  cases readHeaders r ls with
  | error e => simp [Except.bind]
  | ok r₁ => simp [Except.bind]

theorem Read.add_headers (r : Read) (h : SipHeader) : ∃ new, (r.add h).headers = r.headers ++ new := by
  unfold Read.add
  split
  · exact ⟨[], by simp⟩
  · split
    · exact ⟨[], by simp⟩
    · exact ⟨[h], rfl⟩

theorem foldl_add_headers (r : Read) (hs : List SipHeader) :
    ∃ new, (hs.foldl Read.add r).headers = r.headers ++ new := by
  induction hs generalizing r with
  | nil => exact ⟨[], by simp⟩
  | cons h hs ih =>
    obtain ⟨new, hnew⟩ := r.add_headers h
    obtain ⟨more, hmore⟩ := ih (r.add h)
    exact ⟨new ++ more, by rw [List.foldl_cons, hmore, hnew, List.append_assoc]⟩

theorem readHeaders_headers (h : readHeaders r ls = .ok r') :
    ∃ new, r'.headers = r.headers ++ new := by
  induction ls generalizing r with
  | nil =>
    cases h
    exact ⟨[], by simp⟩
  | cons l ls ih =>
    rw [readHeaders] at h
    cases hl : SipHeader.ofLine l with
    | error e =>
      rw [hl] at h
      exact absurd h (by simp)
    | ok hs =>
      rw [hl] at h
      obtain ⟨new, hnew⟩ := foldl_add_headers r hs
      obtain ⟨more, hmore⟩ := ih h
      exact ⟨new ++ more, by rw [hmore, hnew, List.append_assoc]⟩

end Reading

def Read.start : Read := ⟨[], none, none⟩

/-- What `SipMsg.__init__` makes of the lines before the body. -/
def readLines (url : Text → Bool) (cls : MsgClass) : List Text → Except ParseExn (StartLine × Read)
  | [] => .error .indexError
  | startline :: lines => do
    let sl ← StartLine.setSL url cls startline
    let r ← readHeaders .start (headerLines lines)
    match mandatory.find? fun name => name ∉ r.headers.map SipHeader.name with
    | some name => .error (.missed name)
    | none => .ok (sl, r)

section ReadLines
variable {url : Text → Bool} {cls : MsgClass} {l : Text} {ls : List Text} {sl : StartLine} {r : Read}

theorem init_eq (url : Text → Bool) (cls : MsgClass) (buf : Text) : SipMsg.init url cls buf =
    (readLines url cls (splitlines (locateBody buf).1)).map fun p => (p.1, p.2, (locateBody buf).2) := by
  unfold SipMsg.init
  obtain ⟨header, mbody⟩ := locateBody buf
  show (match splitlines header with
    | [] => _
    | startline :: lines => _) = _
  cases splitlines header with
  | nil => rfl
  | cons l ls =>
    simp only [readLines, bind, Except.bind, Read.start]
    cases StartLine.setSL url cls l with
    | error e => rfl
    | ok sl =>
      cases hr : readHeaders _ _ with
      | error e => rfl
      | ok r =>
        simp only [Except.map]
        cases List.find? _ _ <;> rfl

theorem readLines_ok : readLines url cls (l :: ls) = .ok (sl, r) ↔
    StartLine.setSL url cls l = .ok sl ∧ readHeaders .start (headerLines ls) = .ok r ∧
      ∀ name ∈ mandatory, name ∈ r.headers.map SipHeader.name := by
  simp only [readLines, bind, Except.bind]
  cases StartLine.setSL url cls l with
  | error e => simp
  | ok sl' =>
    cases readHeaders .start (headerLines ls) with
    | error e => simp
    | ok r' =>
      simp only [Except.ok.injEq]
      cases hfind : mandatory.find? fun name => name ∉ r'.headers.map SipHeader.name with
      | none =>
        have hall := List.find?_eq_none.mp hfind
        simp only [decide_eq_true_eq, not_not] at hall
        simp only [Except.ok.injEq, Prod.mk.injEq]
        refine ⟨fun ⟨h₁, h₂⟩ => ⟨h₁, h₂, h₂ ▸ hall⟩, fun ⟨h₁, h₂, _⟩ => ⟨h₁, h₂⟩⟩
      | some name =>
        have hmissed := List.find?_some hfind
        simp only [decide_eq_true_eq] at hmissed
        simp only [reduceCtorEq, false_iff]
        rintro ⟨-, rfl, hall⟩
        exact hmissed (hall name (List.mem_of_find?_eq_some hfind))

theorem init_ok {buf : Text} {mbody : Option Text} : SipMsg.init url cls buf = .ok (sl, r, mbody) ↔
    readLines url cls (splitlines (locateBody buf).1) = .ok (sl, r) ∧ mbody = (locateBody buf).2 := by
  rw [init_eq]
  cases readLines url cls (splitlines (locateBody buf).1) with
  | error e => simp [Except.map]
  | ok p =>
    obtain ⟨sl', r'⟩ := p
    simp only [Except.map, Except.ok.injEq, Prod.mk.injEq, and_assoc]
    exact ⟨fun ⟨h₁, h₂, h₃⟩ => ⟨h₁, h₂, h₃.symm⟩, fun ⟨h₁, h₂, h₃⟩ => ⟨h₁, h₂, h₃.symm⟩⟩

/-- A message is its start line, its headers and what is read of its body. -/
theorem readMsg_ok {buf : Text} {m : SipMsg} : SipMsg.ofText url cls buf = .ok m ↔
    ∃ sl r mbody body, SipMsg.init url cls buf = .ok (sl, r, mbody) ∧
      (if sl.readsBody then SipMsg.readBody r mbody else .ok none) = .ok body ∧
      m = ⟨fun _ => sl, r.headers, body⟩ := by
  cases hinit : SipMsg.init url cls buf with
  | error e => simp [SipMsg.ofText, hinit, bind, Except.bind]
  | ok p =>
    obtain ⟨sl, r, mbody⟩ := p
    have hbody (x : Except ParseExn (Option MsgBody)) :
        (x.bind fun body => Except.ok ⟨fun _ => sl, r.headers, body⟩) = .ok m ↔
          ∃ body, x = .ok body ∧ m = ⟨fun _ => sl, r.headers, body⟩ := by
      cases x with
      | error e => simp [Except.bind]
      | ok body => simp [Except.bind, eq_comm]
    have hread : SipMsg.ofText url cls buf = .ok m ↔ ∃ body,
        (if sl.readsBody then SipMsg.readBody r mbody else .ok none) = .ok body ∧
          m = ⟨fun _ => sl, r.headers, body⟩ := by
      rw [← hbody, SipMsg.ofText, hinit]
      simp only [bind, Except.bind]
      cases sl.readsBody <;> rfl
    rw [hread]
    constructor
    · rintro ⟨body, hok, rfl⟩
      exact ⟨sl, r, mbody, body, rfl, hok, rfl⟩
    · rintro ⟨sl', r', mbody', body, heq, hok, rfl⟩
      cases heq
      exact ⟨body, hok, rfl⟩

end ReadLines

end SippyB2bua.Wire
