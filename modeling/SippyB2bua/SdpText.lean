import SippyB2bua.Lib.Breaks
import SippyB2bua.Lib.Fallible
import SippyB2bua.Lib.Template
import SippyB2bua.Sdp

/-!
# Printing bodies

`str` and `localStr` of a message body. An origin line that the program made has
`SipConf.my_address` for its address; `localStr` prints the address of the sending socket in
its place. All other headers print the same in both, so the two texts are one template with
the origin's address written into it.
-/

namespace SippyB2bua.Sdp
open Lib (Text Fills)
open Lib.Text (crlf)

inductive OriginAddress
  | text (addressType address : Text)
  /-- `IP4` and `SipConf.my_address`. -/
  | my
  deriving DecidableEq, Repr

structure Origin where
  username : Text
  sessionId : Num
  version : Num
  networkType : Text
  address : OriginAddress
  deriving DecidableEq, Repr

/-- `SdpOrigin()`. -/
def Origin.init (sessionId : ℤ) : Origin :=
  ⟨"-".toList, .own sessionId, .own sessionId, "IN".toList, .my⟩

def Origin.ofSdpOrigin (o : SdpOrigin) : Origin :=
  ⟨o.username, o.sessionId, o.version, o.networkType, .text o.addressType o.address⟩

/-- A description that is sent. -/
structure Description where
  oHeader : Option Origin
  cHeader : Option SdpConnecton
  headers : List (Text × Text)
  aHeaders : List AHeader
  sections : List SdpMediaDescription
  deriving DecidableEq, Repr

def Description.ofSdpBody (b : SdpBody) : Description :=
  ⟨b.oHeader.map .ofSdpOrigin, b.cHeader, b.headers, b.aHeaders, b.sections⟩

inductive Header
  | generic (t : Text)
  | origin (o : Origin)
  | connection (c : SdpConnecton)
  | media (m : SdpMedia)

def Num.str : Num → Text
  | .own n => Lib.Text.ofInt n
  | .text t => t

def AHeader.str (a : AHeader) : Text := a.value.elim a.name fun v => a.name ++ ':' :: v

def SdpConnecton.str (c : SdpConnecton) : Text := c.ntype ++ ' ' :: c.atype ++ ' ' :: c.addr

def SdpMedia.str (m : SdpMedia) : Text :=
  m.stype ++ ' ' :: Lib.Text.ofInt m.port ++ ' ' :: m.transport ++ m.formats.texts.flatMap (' ' :: ·)

def Origin.start (o : Origin) : Text :=
  o.username ++ ' ' :: o.sessionId.str ++ ' ' :: o.version.str ++ ' ' :: o.networkType ++ [' ']

variable (myAddress : Text)

def Origin.str (o : Origin) : Text :=
  o.start ++ match o.address with
    | .text addressType address => addressType ++ ' ' :: address
    | .my => "IP4 ".toList ++ myAddress

/-- The address type and the address of the socket; an IPv6 address loses its brackets. -/
def localAddress (localAddr : Text) : Text :=
  if localAddr.head? = some '[' then "IP6 ".toList ++ localAddr.tail.dropLast else "IP4 ".toList ++ localAddr

def Origin.localStr (localAddr : Option (Addr × Text)) (o : Origin) : Text :=
  match localAddr, o.address with
  | some la, .my => o.start ++ localAddress la.1.1
  | _, _ => o.str myAddress

def Header.str : Header → Text
  | generic t => t
  | origin o => o.str myAddress
  | connection c => c.str
  | media m => m.str

/-- `header.localStr(local_addr)`, which only an origin line heeds. -/
def Header.localStr (localAddr : Option (Addr × Text)) : Header → Text
  | generic t => t
  | origin o => o.localStr myAddress localAddr
  | connection c => c.str
  | media m => m.str

/-- The lines of the headers with the given names, as far as they are there. -/
def lines (text : Header → Text) (header : Text → Option Header) (names : List Text) : Text :=
  names.flatMap fun name => (header name).elim [] fun h => name ++ '=' :: text h ++ crlf

def attributes (as : List AHeader) : Text := as.flatMap fun a => "a=".toList ++ a.str ++ crlf

namespace SdpMediaDescription

def header (sect : SdpMediaDescription) (name : Text) : Option Header :=
  if name = "m".toList then sect.mHeader.map .media
  else if name = "c".toList then sect.cHeader.map .connection
  else (sect.headers.lookup name).map .generic

def allHeaders : List Text := ["m", "i", "c", "b", "k"].map String.toList

def str (sect : SdpMediaDescription) : Text :=
  lines (Header.str myAddress) sect.header allHeaders ++ attributes sect.aHeaders

def localStr (localAddr : Option (Addr × Text)) (noC : Bool) (sect : SdpMediaDescription) : Text :=
  lines (Header.localStr myAddress localAddr) sect.header
    (allHeaders.filter fun name => !(noC && name == "c".toList)) ++ attributes sect.aHeaders

end SdpMediaDescription

namespace Description

def header (d : Description) (name : Text) : Option Header :=
  if name = "o".toList then d.oHeader.map .origin
  else if name = "c".toList then d.cHeader.map .connection
  else (d.headers.lookup name).map .generic

def firstHalf : List Text := ["v", "o", "s", "i", "u", "e", "p"].map String.toList
def secondHalf : List Text := ["b", "t", "r", "z", "k"].map String.toList
def allHeaders : List Text := firstHalf ++ "c".toList :: secondHalf

def single (d : Description) : Option (SdpMediaDescription × SdpConnecton) :=
  match d.sections with
  | [sect] => sect.cHeader.map fun c => (sect, c)
  | _ => none

/-- The connections of the first two sections, of which the session may take one. -/
def candidates (d : Description) : Option (SdpConnecton × Option SdpConnecton) :=
  match d.cHeader, d.sections with
  | none, sect :: sect' :: _ => sect.cHeader.map fun c => (c, sect'.cHeader)
  | _, _ => none

/-- The session part with the connection `top` in its place. -/
def half (text : Header → Text) (d : Description) (top : Text) : Text :=
  lines text d.header firstHalf ++ "c=".toList ++ top ++ crlf ++ lines text d.header secondHalf

/-- The text of a description, from those of its headers and its sections; `top` is the
connection that the sections with the same one leave out. -/
def print (text : Header → Text) (sectText : Bool → SdpMediaDescription → Text) (top : Option Text)
    (d : Description) : Text :=
  match d.single with
  | some (sect, c) => d.half text (text (.connection c)) ++ attributes d.aHeaders ++ sectText true sect
  | none =>
    (top.elim (lines text d.header allHeaders) (d.half text)) ++ attributes d.aHeaders ++
      d.sections.flatMap fun sect =>
        sectText (top.isSome && (sect.cHeader.map fun c => text (.connection c)) == top) sect

/-- `sections_0_str`; `str` of a connection that is not there is `None`. -/
def strTop (d : Description) : Option Text :=
  d.candidates.bind fun cs =>
    if cs.1.str = cs.2.elim "None".toList SdpConnecton.str then some cs.1.str else none

def str (d : Description) : Text :=
  d.print (Header.str myAddress)
    (fun noC sect => if noC then sect.localStr myAddress none true else sect.str myAddress) d.strTop

/-- `sections_0_str`; a connection that is not there has no `localStr`. -/
def localTop (d : Description) : Lazy (Option Text) :=
  match d.candidates with
  | none => .ok none
  | some (_, none) => .error .attributeError
  | some (c, some c') => .ok (if c.str = c'.str then some c.str else none)

def localStr (localAddr : Option (Addr × Text)) (d : Description) : Lazy Text :=
  d.localTop.map fun top =>
    d.print (Header.localStr myAddress localAddr) (fun noC sect => sect.localStr myAddress localAddr noC) top

def own (d : Description) : Bool := d.oHeader.any fun o => o.address = .my

end Description

/-- The content of a message body; the parts of a multipart one have their types. -/
inductive Body
  | text (s : Text)
  | sdp (d : Description)
  | mixed (boundary : Text) (parts : List (Text × Body))

namespace Body

def partHeader (boundary mtype : Text) : Text :=
  "--".toList ++ boundary ++ crlf ++ "Content-Type: ".toList ++ mtype ++ crlf ++ crlf

def closing (boundary : Text) : Text := "--".toList ++ boundary ++ "--".toList ++ crlf

mutual

def str : Body → Text
  | text s => s
  | sdp d => d.str myAddress
  | mixed boundary parts => partsStr boundary parts ++ closing boundary

def partsStr (boundary : Text) : List (Text × Body) → Text
  | [] => []
  | (mtype, p) :: parts => partHeader boundary mtype ++ p.str ++ partsStr boundary parts

end

mutual

def localStr (localAddr : Option (Addr × Text)) : Body → Lazy Text
  | text s => .ok s
  | sdp d => d.localStr myAddress localAddr
  | mixed boundary parts => do return (← partsLocalStr localAddr boundary parts) ++ closing boundary

def partsLocalStr (localAddr : Option (Addr × Text)) (boundary : Text) : List (Text × Body) → Lazy Text
  | [] => .ok []
  | (mtype, p) :: parts => do
    let s ← p.localStr localAddr
    return partHeader boundary mtype ++ s ++ (← partsLocalStr localAddr boundary parts)

end

mutual

def own : Body → Bool
  | text _ => false
  | sdp d => d.own
  | mixed _ parts => partsOwn parts

def partsOwn : List (Text × Body) → Bool
  | [] => false
  | (_, p) :: parts => p.own || partsOwn parts

end

end Body

/-- A header with the given text for the address of its own origin line. -/
def Header.written (x : Text) : Header → Text
  | generic t => t
  | origin o => o.start ++ match o.address with
    | .text addressType address => addressType ++ ' ' :: address
    | .my => x
  | connection c => c.str
  | media m => m.str

def Header.own : Header → Bool
  | origin o => o.address = .my
  | _ => false

variable {myAddress} {la : Addr × Text} {d : Description}

theorem Header.str_written : Header.str myAddress = Header.written ("IP4 ".toList ++ myAddress) := by
  funext h
  cases h <;> rfl

theorem Header.localStr_written :
    Header.localStr myAddress (some la) = Header.written (localAddress la.1.1) := by
  funext h
  cases h with
  | origin o =>
    obtain ⟨_, _, _, _, address⟩ := o
    cases address <;> rfl
  | _ => rfl

theorem Header.localStr_none : Header.localStr myAddress none = Header.str myAddress := by
  funext h
  cases h <;> rfl

theorem Header.fills (h : Header) : Fills (fun x => h.written x) (h.own = true) := by
  cases h with
  | origin o =>
    obtain ⟨u, i, v, n, address⟩ := o
    cases address with
    | text addressType address =>
      have hconst := Fills.const (Origin.start ⟨u, i, v, n, .text addressType address⟩ ++
        (addressType ++ ' ' :: address))
      exact hconst.congr (by simp [Header.own])
    | my =>
      exact ((Fills.const (Origin.start ⟨u, i, v, n, .my⟩)).append .hole).congr (by simp [Header.own])
  | _ => exact (Fills.const _).congr (by simp [Header.own])

theorem lines_fills (header : Text → Option Header) (names : List Text) :
    Fills (fun x => lines (Header.written x) header names)
      (∃ name ∈ names, ∃ h ∈ header name, Header.own h = true) := by
  unfold lines
  apply Fills.flatMap names (fun name x => (header name).elim [] fun h => name ++ '=' :: h.written x ++ crlf)
  intro name _
  cases hname : header name with
  | none => exact (Fills.const []).congr (by simp)
  | some h =>
    have hline := ((Fills.const (name ++ ['='])).append h.fills).append (.const crlf)
    have heq : (fun x => name ++ '=' :: h.written x ++ crlf) =
        fun x => (name ++ ['=']) ++ h.written x ++ crlf := by
      funext x
      simp
    simp only [Option.elim_some, heq]
    exact hline.congr (by simp)

namespace SdpMediaDescription

theorem header_own {sect : SdpMediaDescription} {name : Text} {h : Header} (hh : sect.header name = some h) :
    h.own = false := by
  unfold header at hh
  split_ifs at hh <;> obtain ⟨_, _, rfl⟩ := Option.map_eq_some_iff.mp hh <;> rfl

theorem lines_written (sect : SdpMediaDescription) (names : List Text) (x y : Text) :
    lines (Header.written x) sect.header names = lines (Header.written y) sect.header names := by
  rw [(lines_fills sect.header names).eq_iff x y]
  rintro ⟨name, _, h, hh, hown⟩
  rw [header_own hh] at hown
  exact absurd hown (by decide)

theorem localStr_eq (sect : SdpMediaDescription) (noC : Bool) :
    sect.localStr myAddress (some la) noC = sect.localStr myAddress none noC := by
  rw [localStr, localStr, Header.localStr_written, Header.localStr_none, Header.str_written]
  rw [sect.lines_written _ _ ("IP4 ".toList ++ myAddress)]

theorem localStr_any (sect : SdpMediaDescription) (noC : Bool) :
    sect.localStr myAddress none noC = sect.localStr [] none noC := by
  rw [localStr, localStr, Header.localStr_none, Header.localStr_none, Header.str_written, Header.str_written]
  rw [sect.lines_written _ _ ("IP4 ".toList ++ [])]

theorem str_eq (sect : SdpMediaDescription) : sect.str myAddress = sect.localStr myAddress none false := by
  rw [str, localStr, Header.localStr_none]
  simp

end SdpMediaDescription

namespace Description

theorem header_own {name : Text} {h : Header} (hh : d.header name = some h) (hown : h.own = true) :
    d.own = true := by
  unfold header at hh
  split_ifs at hh
  · obtain ⟨o, ho, rfl⟩ := Option.map_eq_some_iff.mp hh
    rw [own, ho]
    exact hown
  all_goals
    obtain ⟨_, _, rfl⟩ := Option.map_eq_some_iff.mp hh
    cases hown

theorem own_header {names : List Text} (ho : "o".toList ∈ names) :
    (∃ name ∈ names, ∃ h ∈ d.header name, Header.own h = true) ↔ d.own = true := by
  constructor
  · rintro ⟨name, _, h, hh, hown⟩
    exact header_own hh hown
  · intro hown
    unfold own at hown
    obtain ⟨o, ho', haddr⟩ := (Option.any_eq_true _ _).mp hown
    refine ⟨"o".toList, ho, .origin o, ?_, haddr⟩
    rw [header, if_pos rfl, ho']
    rfl

theorem half_fills (d : Description) (top : Text) :
    Fills (fun x => d.half (Header.written x) top) (d.own = true) := by
  have hfirst := (lines_fills d.header firstHalf).congr (own_header (by decide))
  have hsecond := lines_fills d.header secondHalf
  have hparts := (((hfirst.append (.const "c=".toList)).append (.const top)).append (.const crlf)).append hsecond
  apply hparts.congr
  constructor
  · rintro ((((h | h) | h) | h) | ⟨name, _, h, hh, hown⟩)
    · exact h
    · exact h.elim
    · exact h.elim
    · exact h.elim
    · exact header_own hh hown
  · exact fun h => .inl (.inl (.inl (.inl h)))

/-- The text of a description is a template for the address of its own origin line. -/
theorem print_fills (d : Description) (sectText : Bool → SdpMediaDescription → Text) (top : Option Text) :
    Fills (fun x => d.print (Header.written x) sectText top) (d.own = true) := by
  unfold print
  cases d.single with
  | some s =>
    obtain ⟨sect, c⟩ := s
    have hparts := ((d.half_fills c.str).append (.const (attributes d.aHeaders))).append
      (.const (sectText true sect))
    exact hparts.congr (by simp)
  | none =>
    have hsections := Fills.const (d.sections.flatMap fun sect =>
      sectText (top.isSome && (sect.cHeader.map SdpConnecton.str) == top) sect)
    cases top with
    | none =>
      have hall := (lines_fills d.header allHeaders).congr (own_header (by decide))
      exact ((hall.append (.const (attributes d.aHeaders))).append hsections).congr (by simp)
    | some t =>
      exact (((d.half_fills t).append (.const (attributes d.aHeaders))).append hsections).congr (by simp)

theorem localTop_ok {top : Option Text} (h : d.localTop = .ok top) : top = d.strTop := by
  unfold localTop at h
  unfold strTop
  cases hc : d.candidates with
  | none =>
    rw [hc] at h
    exact (Except.ok.inj h).symm
  | some cs =>
    obtain ⟨c, c'⟩ := cs
    rw [hc] at h
    cases c' with
    | none => cases h
    | some c' => exact (Except.ok.inj h).symm

def written (x : Text) (d : Description) : Text :=
  d.print (Header.written x) (fun noC sect => sect.localStr [] none noC) d.strTop

theorem str_written (d : Description) : d.str myAddress = d.written ("IP4 ".toList ++ myAddress) := by
  have hsect : (fun (noC : Bool) (sect : SdpMediaDescription) =>
      if noC then sect.localStr myAddress none true else sect.str myAddress) =
      fun noC sect => sect.localStr [] none noC := by
    funext noC sect
    cases noC with
    | true => exact sect.localStr_any true
    | false => exact sect.str_eq.trans (sect.localStr_any false)
  rw [str, hsect, Header.str_written, written]

theorem localStr_written {s : Text} (h : d.localStr myAddress (some la) = .ok s) :
    s = d.written (localAddress la.1.1) := by
  unfold localStr at h
  obtain ⟨top, htop, rfl⟩ := Lib.map_ok.mp h
  have hsect : (fun (noC : Bool) (sect : SdpMediaDescription) => sect.localStr myAddress (some la) noC) =
      fun noC sect => sect.localStr [] none noC := by
    funext noC sect
    exact (sect.localStr_eq noC).trans (sect.localStr_any noC)
  rw [hsect, Header.localStr_written, localTop_ok htop, written]

/-- A description that `localStr` prints is the template of `str` with the local address. -/
theorem fills (d : Description) : ∃ f, Fills f (d.own = true) ∧ d.str myAddress = f ("IP4 ".toList ++ myAddress) ∧
    ∀ (la : Addr × Text) s, d.localStr myAddress (some la) = .ok s → s = f (localAddress la.1.1) :=
  ⟨fun x => d.written x, d.print_fills (fun noC sect => sect.localStr [] none noC) d.strTop, d.str_written,
    fun _ _ h => localStr_written h⟩

end Description

namespace Body

mutual

/-- The text of a body is a template for the address of the origin lines of our own. -/
theorem fills : (b : Body) → ∃ f, Fills f (b.own = true) ∧ b.str myAddress = f ("IP4 ".toList ++ myAddress) ∧
    ∀ (la : Addr × Text) s, b.localStr myAddress (some la) = .ok s → s = f (localAddress la.1.1)
  | text s => ⟨fun _ => s, (Fills.const s).congr (by simp [own]), rfl, fun _ _ h => (Except.ok.inj h).symm⟩
  | sdp d => d.fills
  | mixed boundary parts => by
    obtain ⟨f, hf, hstr, hlocal⟩ := parts_fills boundary parts
    refine ⟨fun x => f x ++ closing boundary, (hf.append (.const _)).congr (by simp [own]), ?_, ?_⟩
    · rw [str, hstr]
    · intro la s h
      rw [localStr] at h
      cases hp : partsLocalStr myAddress (some la) boundary parts with
      | error e =>
        rw [hp] at h
        cases h
      | ok t =>
        rw [hp] at h
        rw [← Except.ok.inj h, hlocal la t hp]

theorem parts_fills (boundary : Text) : (parts : List (Text × Body)) → ∃ f, Fills f (partsOwn parts = true) ∧
    partsStr myAddress boundary parts = f ("IP4 ".toList ++ myAddress) ∧
    ∀ (la : Addr × Text) s, partsLocalStr myAddress (some la) boundary parts = .ok s →
      s = f (localAddress la.1.1)
  | [] => ⟨fun _ => [], (Fills.const []).congr (by simp [partsOwn]), rfl, fun _ _ h => (Except.ok.inj h).symm⟩
  | (mtype, p) :: parts => by
    obtain ⟨f, hf, hstr, hlocal⟩ := fills p
    obtain ⟨g, hg, hstrs, hlocals⟩ := parts_fills boundary parts
    refine ⟨fun x => partHeader boundary mtype ++ f x ++ g x,
      (((Fills.const _).append hf).append hg).congr (by simp [partsOwn]), ?_, ?_⟩
    · rw [partsStr, hstr, hstrs]
    · intro la s h
      rw [partsLocalStr] at h
      cases hp : p.localStr myAddress (some la) with
      | error e =>
        rw [hp] at h
        cases h
      | ok t =>
        cases hps : partsLocalStr myAddress (some la) boundary parts with
        | error e =>
          rw [hp, hps] at h
          cases h
        | ok ts =>
          rw [hp, hps] at h
          rw [← Except.ok.inj h, hlocal la t hp, hlocals la ts hps]

end

/-- What is sent is what `str` gives exactly if no origin line of our own is in it, or the socket
has the very address that `str` prints. -/
theorem str_eq_iff {b : Body} {s : Text} (h : b.localStr myAddress (some la) = .ok s) :
    b.str myAddress = s ↔ (b.own = true → localAddress la.1.1 = "IP4 ".toList ++ myAddress) := by
  obtain ⟨f, hf, hstr, hlocal⟩ := @fills myAddress b
  rw [hstr, hlocal la s h, hf.eq_iff]
  exact forall_congr' fun _ => eq_comm

end Body

theorem localAddress_eq_iff {t : Text} :
    localAddress t = "IP4 ".toList ++ myAddress ↔ t = myAddress ∧ t.head? ≠ some '[' := by
  unfold localAddress
  by_cases h : t.head? = some '['
  · rw [if_pos h]
    constructor
    · intro heq
      cases heq
    · exact fun hne => absurd h hne.2
  · rw [if_neg h, List.append_cancel_left_eq]
    exact (and_iff_left h).symm

end SippyB2bua.Sdp
