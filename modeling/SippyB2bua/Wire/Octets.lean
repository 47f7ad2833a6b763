import SippyB2bua.Wire.Lines
import SippyB2bua.Wire.Layout
import SippyB2bua.Lib.Bytes

/-!
# Lengths in characters and in octets

`SipMsg` measures decoded text, the network server encodes it later. The printed
Content-Length counts the octets of a body that is ASCII only, and a received body of
which the Content-Length counts the octets is found as it is if it is ASCII, or if one of
the work-arounds for short bodies happens to make up for the difference.
-/

namespace SippyB2bua.Wire
open Lib (Text)
open Lib.Text (str)
open Lib.Bytes (encode)

def octets (t : Text) : ℕ := (encode t).length

def Ascii (t : Text) : Prop := ∀ c ∈ t, c.toNat < 128

instance (t : Text) : Decidable (Ascii t) := List.decidableBAll _ t

section Octets
variable {c : Char} {t t' : Text}

theorem octets_cons (c : Char) (t : Text) : octets (c :: t) = c.utf8Size + octets t := by
  simp [octets, encode]

theorem utf8Size_eq_one : c.utf8Size = 1 ↔ c.toNat < 128 := by
  rw [Char.utf8Size_eq_one_iff, UInt32.le_iff_toNat_le]
  have hval : c.val.toNat = c.toNat := rfl
  have hbound : (127 : UInt32).toNat = 127 := rfl
  omega

theorem length_le_octets (t : Text) : t.length ≤ octets t := by
  induction t with
  | nil => exact Nat.zero_le _
  | cons c t ih =>
    have hc := c.utf8Size_pos
    rw [octets_cons, List.length_cons]
    omega

theorem octets_eq_length : octets t = t.length ↔ Ascii t := by
  induction t with
  | nil => simp [octets, encode, Ascii]
  | cons c t ih =>
    have hc := c.utf8Size_pos
    have ht := length_le_octets t
    rw [Ascii, List.forall_mem_cons, ← utf8Size_eq_one, octets_cons, List.length_cons]
    constructor
    · intro h
      exact ⟨by omega, ih.mp (by omega)⟩
    · rintro ⟨hone, hrest⟩
      have hlen := ih.mpr hrest
      omega

theorem octets_eq_zero : octets t = 0 ↔ t = [] := by
  constructor
  · intro h
    have hlen := length_le_octets t
    exact List.length_eq_zero_iff.mp (by omega)
  · rintro rfl
    rfl

end Octets

/-- The last header line gives the number of octets that follow. -/
def PrintsOctets (form : SipMsg.Form) (m : SipMsg) : Prop :=
  (m.trailer form).1.getLast? =
    some (SipMsg.lengthName form.compact ++ ": ".toList ++ str (octets (m.trailer form).2))

theorem str_injective : Function.Injective str := by
  intro m n h
  have hint := Lib.Text.int_str m
  rw [h, Lib.Text.int_str n] at hint
  exact (Int.ofNat_inj.mp (Option.some.inj hint)).symm

theorem printsOctets_iff (form : SipMsg.Form) (m : SipMsg) :
    PrintsOctets form m ↔ Ascii (m.trailer form).2 := by
  have hlast : (m.trailer form).1.getLast? =
      some (SipMsg.lengthName form.compact ++ ": ".toList ++ str (m.trailer form).2.length) := by
    unfold SipMsg.trailer
    cases m.body with
    | none =>
      dsimp only
      simp [str]
    | some b => rfl
  rw [PrintsOctets, hlast, Option.some.injEq, List.append_cancel_left_eq, str_injective.eq_iff,
    eq_comm, octets_eq_length]

def bodyOf (p : Text) : Option Text := if p = [] then none else some p

/-- A datagram whose header was read, with the octets of `p` announced out of all that follows. -/
structure Framed (url : Text → Bool) (cls : MsgClass) (buf : Text) (sl : StartLine) (r : Read)
    (p rest : Text) : Prop where
  init : ∃ mbody, SipMsg.init url cls buf = .ok (sl, r, mbody) ∧ mbody.getD [] = p ++ rest
  length : ∃ h ∈ r.contentLength, Lib.Text.int (h.body.localStr none) = some (octets p : ℤ)

/-- The message is accepted with these characters as its body. -/
def Delivers (url : Text → Bool) (cls : MsgClass) (buf p : Text) : Prop :=
  ∃ m, SipMsg.ofText url cls buf = .ok m ∧ m.body.map MsgBody.str = bodyOf p

def TypeReadable (r : Read) : Prop :=
  ∀ h ∈ r.contentType, (ContentType.parse (h.body.localStr none)).toOption.isSome

/-- A body that looks truncated, up to six characters short, and ends with an empty line. -/
structure Mended (p rest : Text) : Prop where
  all : rest = []
  short : octets p < p.length + 7
  long : 7 < p.length
  ending : p.drop (p.length - 4) = "\r\n\r\n".toList

/-- The bodies that are found: the class reads them, and their length is not mistaken. -/
def Found (sl : StartLine) (r : Read) (p rest : Text) : Prop :=
  p = [] ∨ (sl.readsBody ∧ TypeReadable r ∧ (Ascii p ∨ Mended p rest))

section Reading
variable {url : Text → Bool} {cls : MsgClass} {buf p rest : Text} {sl : StartLine} {r : Read}
  {mbody : Option Text} {n : ℤ}

theorem repairBody_iff (hlong : (p ++ rest).length < octets p) :
    repairBody (octets p) (p ++ rest) = .ok p ↔ Mended p rest := by
  have hother {t : Text} (ht : p.length < t.length) : (.ok t : Except ParseExn Text) ≠ .ok p := by
    intro h
    rw [Except.ok.inj h] at ht
    omega
  have hall : p.length ≤ (p ++ rest).length := by simp
  unfold repairBody
  dsimp only
  split
  · rename_i hfirst
    obtain ⟨hshort, hlen, hending⟩ := hfirst
    have hrest : (.ok (p ++ rest) : Except ParseExn Text) = .ok p ↔ rest = [] := by simp
    rw [hrest]
    constructor
    · rintro rfl
      rw [List.append_nil] at hshort hlen hending
      exact ⟨rfl, by omega, hlen, hending⟩
    · exact Mended.all
  · rename_i hfirst
    have hmended : ¬ Mended p rest := by
      rintro ⟨rfl, hshort, hlen, hending⟩
      apply hfirst
      rw [List.append_nil]
      exact ⟨by omega, hlen, hending⟩
    refine iff_of_false ?_ hmended
    split
    · apply hother
      rw [List.length_append]
      simp [Lib.Text.crlf]
      omega
    · split
      · rename_i hthird
        have hthree := congrArg List.length hthird.2
        rw [List.length_drop, show "\r\n\n".toList.length = 3 by decide] at hthree
        apply hother
        rw [List.length_append, List.length_take, show "\r\n\r\n".toList.length = 4 by decide]
        omega
      · split
        · apply hother
          rw [List.length_append]
          simp [Lib.Text.crlf]
          omega
        · simp

/-- A body is taken as it is if its Content-Length is not mistaken for another one. -/
theorem initBody_iff (hmbody : mbody.getD [] = p ++ rest) (hne : mbody ≠ some []) :
    initBody (octets p) mbody = .ok (bodyOf p) ↔ p = [] ∨ Ascii p ∨ Mended p rest := by
  have hlen := length_le_octets p
  by_cases hp : p = []
  · subst hp
    simp [initBody, octets, encode, bodyOf]
  obtain rfl : mbody = some (p ++ rest) := by
    cases mbody with
    | none => exact absurd (List.append_eq_nil_iff.mp hmbody.symm).1 hp
    | some t => exact congrArg some hmbody
  have hpos : (octets p : ℤ) ≠ 0 := fun h => hp (octets_eq_zero.mp (by omega))
  have hbody : bodyOf p = some p := if_neg hp
  simp only [hp, false_or]
  rw [initBody, if_neg hpos, hbody]
  by_cases hascii : Ascii p
  · have hequal := octets_eq_length.mpr hascii
    simp only [hascii, true_or, iff_true]
    rw [if_neg (by simp; omega)]
    split
    · simp [upTo, hequal]
    · rename_i hlong
      obtain rfl : rest = [] := by
        rw [List.length_append] at hlong
        exact List.length_eq_zero_iff.mp (by omega)
      simp
  · have hmore : p.length < octets p :=
      lt_of_le_of_ne hlen fun h => hascii (octets_eq_length.mp h.symm)
    simp only [hascii, false_or]
    split
    · rename_i hshort
      rw [← repairBody_iff (by omega)]
      cases repairBody (octets p) (p ++ rest) <;> simp [Except.map]
    · rename_i hshort
      have hmended : ¬ Mended p rest := by
        rintro ⟨rfl, -, -, -⟩
        rw [List.append_nil] at hshort
        omega
      refine iff_of_false ?_ hmended
      rw [List.length_append] at hshort
      split
      · intro h
        have htake := congrArg (fun o => (o.getD []).length) (Except.ok.inj h)
        simp [upTo] at htake
        omega
      · intro h
        have htake := congrArg (fun o => (o.getD []).length) (Except.ok.inj h)
        simp at htake
        simp [htake] at hshort
        omega

theorem locateBody_ne (buf : Text) : (locateBody buf).2 ≠ some [] := by
  unfold locateBody
  split
  · simp
  · split
    · simp
    · rename_i hne
      simpa using hne

theorem readBody_length {h : SipHeader} (hlength : h ∈ r.contentLength)
    (hint : Lib.Text.int (h.body.localStr none) = some n) :
    (∃ b, SipMsg.readBody r mbody = .ok b ∧ b.map MsgBody.str = bodyOf p) ↔
      initBody n mbody = .ok (bodyOf p) ∧ (p = [] ∨ TypeReadable r) := by
  rw [Option.mem_def] at hlength
  cases hinit : initBody n mbody with
  | error e =>
    simp [SipMsg.readBody, hlength, hint, hinit, bind, Except.bind]
  | ok o =>
    cases o with
    | none =>
      by_cases hp : p = [] <;>
        simp [SipMsg.readBody, hlength, hint, hinit, bind, Except.bind, bodyOf, hp]
    | some t =>
      cases hct : r.contentType with
      | none =>
        by_cases hp : p = [] <;>
          simp [SipMsg.readBody, hlength, hint, hinit, bind, Except.bind, bodyOf, hp, hct,
            TypeReadable, MsgBody.raw]
      | some c =>
        cases hparse : ContentType.parse (c.body.localStr none) with
        | error e =>
          by_cases hp : p = [] <;>
            simp [SipMsg.readBody, hlength, hint, hinit, bind, Except.bind, bodyOf, hp, hct,
              TypeReadable, hparse, Except.toOption]
        | ok ct =>
          by_cases hp : p = [] <;>
            simp [SipMsg.readBody, hlength, hint, hinit, bind, Except.bind, bodyOf, hp, hct,
              TypeReadable, hparse, MsgBody.raw, Except.toOption]

theorem delivers_iff (hf : Framed url cls buf sl r p rest) :
    Delivers url cls buf p ↔ Found sl r p rest := by
  obtain ⟨⟨mbody, hinit, hmbody⟩, h, hlength, hint⟩ := hf
  have hne : mbody ≠ some [] := by
    rw [(init_ok.mp hinit).2]
    exact locateBody_ne buf
  have hdelivers : Delivers url cls buf p ↔
      ∃ b, (if sl.readsBody then SipMsg.readBody r mbody else .ok none) = .ok b ∧
        b.map MsgBody.str = bodyOf p := by
    constructor
    · rintro ⟨m, hm, hbody⟩
      obtain ⟨sl', r', mbody', b, hinit', hb, rfl⟩ := readMsg_ok.mp hm
      rw [hinit] at hinit'
      cases hinit'
      exact ⟨b, hb, hbody⟩
    · rintro ⟨b, hb, hbody⟩
      exact ⟨_, readMsg_ok.mpr ⟨sl, r, mbody, b, hinit, hb, rfl⟩, hbody⟩
  rw [hdelivers, Found]
  cases sl.readsBody with
  | false =>
    by_cases hp : p = [] <;> simp [bodyOf, hp]
  | true =>
    rw [if_pos rfl, readBody_length hlength hint, initBody_iff hmbody hne]
    by_cases hp : p = [] <;> simp [hp, and_comm]

end Reading

/-- The Content-Length of a message counts octets exactly where these are its characters, and
a body whose octets it counts is found exactly where no repair and no cut spoils it. -/
theorem content_length_octets (form : SipMsg.Form) (m : SipMsg) {url : Text → Bool} {cls : MsgClass}
    {buf p rest : Text} {sl : StartLine} {r : Read} (hf : Framed url cls buf sl r p rest) :
    (PrintsOctets form m ↔ Ascii (m.trailer form).2) ∧ (Delivers url cls buf p ↔ Found sl r p rest) :=
  ⟨printsOctets_iff form m, delivers_iff hf⟩

/-- A request with this body; its Content-Length counts the octets. -/
def greeting (body : Text) (length : ℕ) : Text :=
  ("MESSAGE sip:b@h SIP/2.0\r\nVia: SIP/2.0/UDP h\r\nFrom: <sip:a@h>\r\nTo: <sip:b@h>\r\n" ++
    "CSeq: 1 MESSAGE\r\nContent-Type: text/plain\r\nContent-Length: ").toList ++ str length ++
    "\r\n\r\n".toList ++ body

def anyUrl : Text → Bool := fun _ => true

def german : Text := "Grüße".toList
def english : Text := "Hello".toList

theorem greeting_framed (body : Text) (length : ℕ)
    (h : (SipMsg.init anyUrl .sipRequest (greeting body length)).toOption.map
      (fun x => (x.2.2, x.2.1.contentLength.map fun h => Lib.Text.int (h.body.localStr none))) =
        some (some body, some (some (octets body : ℤ)))) :
    ∃ sl r, Framed anyUrl .sipRequest (greeting body length) sl r body [] := by
  cases hinit : SipMsg.init anyUrl .sipRequest (greeting body length) with
  | error e =>
    rw [hinit] at h
    exact absurd h (by simp [Except.toOption])
  | ok x =>
    obtain ⟨sl, r, mbody⟩ := x
    rw [hinit] at h
    simp only [Except.toOption, Option.map_some, Option.some.injEq, Prod.mk.injEq] at h
    obtain ⟨rfl, hlength⟩ := h
    obtain ⟨hd, hmem, hint⟩ := Option.map_eq_some_iff.mp hlength
    exact ⟨sl, r, ⟨some body, hinit, (List.append_nil body).symm⟩, hd, hmem, hint⟩

def answer (body : Text) : SipMsg :=
  ⟨fun _ => .response "SIP/2.0".toList 200 "OK".toList, [], some (.raw body "text/plain".toList)⟩

theorem content_length_octets_english : ∃ sl r,
    (PrintsOctets .str (answer english) ↔ Ascii ((answer english).trailer .str).2) ∧
      (Delivers anyUrl .sipRequest (greeting english 5) english ↔ Found sl r english []) := by
  obtain ⟨sl, r, hf⟩ := greeting_framed english 5 (by decide +kernel)
  exact ⟨sl, r, content_length_octets .str (answer english) hf⟩

/-- Seven octets are announced for five characters: the request is refused. -/
theorem german_greeting_refused :
    ∃ sl r, Framed anyUrl .sipRequest (greeting german 7) sl r german [] ∧
      ¬ Delivers anyUrl .sipRequest (greeting german 7) german := by
  obtain ⟨sl, r, hf⟩ := greeting_framed german 7 (by decide +kernel)
  refine ⟨sl, r, hf, ?_⟩
  rw [delivers_iff hf]
  rintro (hnil | ⟨-, -, hascii | hmended⟩)
  · exact absurd hnil (by decide)
  · exact absurd hascii (by decide)
  · exact absurd hmended.long (by decide)

end SippyB2bua.Wire
