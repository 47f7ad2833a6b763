import SippyB2bua.Address.UrlParts

/-!
# The text of a URL for a socket

`SipURL.localStr` prints the address, port and transport of the sending socket where the URL
has those of the configuration. The text is the one of `str` exactly if each of the three
prints the same. The host of an address is in brackets or has no colon, and has no semicolon,
so no other text can make up for a difference.
-/

namespace SippyB2bua.Address
open Lib (Text)
open Lib.Text (split1 ofInt split1_elim int_ofInt mem_of_ofInt)

/-- The host of the address of a socket, as `getSIPaddr` returns it. -/
structure HostAddress where
  text : Text
  host : HostText text
  semicolon : ';' ∉ text

structure SIPaddr where
  address : HostAddress
  port : ℤ
  transport : Text

/-- The tuple that `getSIPaddr` returns. -/
def SIPaddr.tuple (la : SIPaddr) : Addr × Text := ((la.address.text, la.port), la.transport)

/-- The URL has nothing that the socket changes: no address of the configuration but the very
one of the socket, and no port of it but the default one. A transport of the configuration has to
be the default one, and then the port is not printed if it is the default. -/
structure Settled (myAddress : HostAddress) (la : SIPaddr) (u : SipURL) : Prop where
  host : u.host = .myAddress → la.address.text = myAddress.text
  port : u.port = some .myPort → la.port = defaultPort ∧ u.transport ≠ some .myTransport
  transport : u.transport = some .myTransport →
    la.transport = RemoteAddress.udp ∧ u.port ≠ some (.number defaultPort)

variable {myAddress : HostAddress} {la : SIPaddr} {u : SipURL} {sep : Char}

def placeText (myAddress : Text) (u : SipURL) (localAddr : Option (Addr × Text)) : Text :=
  u.host.localStr myAddress localAddr ++ (portText u localAddr).elim [] (':' :: ·)

def firstParams (u : UrlParams) (localTransport : Option Text) : List Text :=
  printed "user" u.usertype ++ printed "transport" (u.transport.bind (Transport.localStr localTransport))

def lastParams (u : UrlParams) : List Text :=
  printed "ttl" (u.ttl.map ofInt) ++ printed "maddr" u.maddr ++ printed "method" u.method ++
  printed "tag" u.tag ++ u.other ++ if u.lr then ["lr".toList] else []

theorem localStr_parts (myAddress : Text) (u : SipURL) (localAddr : Option (Addr × Text)) :
    u.localStr myAddress localAddr = (u.scheme ++ ':' :: userText u) ++
      (placeText myAddress u localAddr ++
        (firstParams u.toUrlParams (localAddr.map Prod.snd)).flatMap (';' :: ·)) ++
      ((lastParams u.toUrlParams).flatMap (';' :: ·) ++ headersText u.headers) := by
  simp [SipURL.localStr, UrlParams.getParams, firstParams, lastParams, placeText]

theorem append_flatMap_inj {t t' : Text} {l l' : List Text} (h : sep ∉ t) (h' : sep ∉ t') :
    t ++ l.flatMap (sep :: ·) = t' ++ l'.flatMap (sep :: ·) ↔
      t = t' ∧ l.flatMap (sep :: ·) = l'.flatMap (sep :: ·) := by
  have helim (l : List Text) : ∃ o : Option Text, l.flatMap (sep :: ·) = o.elim [] (sep :: ·) := by
    cases l with
    | nil => exact ⟨none, rfl⟩
    | cons x l => exact ⟨some (x ++ l.flatMap (sep :: ·)), rfl⟩
  obtain ⟨o, ho⟩ := helim l
  obtain ⟨o', ho'⟩ := helim l'
  rw [ho, ho']
  constructor
  · intro heq
    have hsplit := congrArg (split1 sep) heq
    rw [split1_elim h, split1_elim h'] at hsplit
    obtain ⟨ht, rfl⟩ := Prod.mk.inj hsplit
    exact ⟨ht, rfl⟩
  · rintro ⟨rfl, h⟩
    rw [h]

theorem semicolon_portText (u : SipURL) (localAddr : Option (Addr × Text)) :
    ';' ∉ (portText u localAddr).elim [] (':' :: ·) := by
  intro hmem
  cases h : portText u localAddr with
  | none =>
    rw [h] at hmem
    exact List.not_mem_nil hmem
  | some t =>
    rw [h] at hmem
    obtain ⟨port, _, hport⟩ := Option.bind_eq_some_iff.mp h
    dsimp only at hport
    split_ifs at hport
    have ht : ';' ∈ t := by simpa using hmem
    rw [← Option.some.inj hport] at ht
    rcases mem_of_ofInt ht with hc | hc
    · exact absurd hc (by decide)
    · exact absurd hc (by decide)

theorem elim_colon_inj {o o' : Option Text} : o.elim [] (':' :: ·) = o'.elim [] (':' :: ·) ↔ o = o' := by
  cases o <;> cases o' <;> simp

theorem place_inj {host host' : HostAddress} {pt pt' : Option Text} :
    host.text ++ pt.elim [] (':' :: ·) = host'.text ++ pt'.elim [] (':' :: ·) ↔
      host.text = host'.text ∧ pt = pt' := by
  constructor
  · intro heq
    have hparts := congrArg (hostParts true) heq
    rw [hostParts_text host.host (.inr (.inr rfl)), hostParts_text host'.host (.inr (.inr rfl))] at hparts
    exact Prod.mk.inj (Except.ok.inj hparts)
  · rintro ⟨htext, rfl⟩
    rw [htext]

/-- A text with the place before a list of parameters is cut where the list starts. -/
theorem placeText_append_inj {l l' : List Text} :
    placeText myAddress.text u none ++ l.flatMap (';' :: ·) =
        placeText myAddress.text u (some la.tuple) ++ l'.flatMap (';' :: ·) ↔
      ((u.host = .myAddress → la.address.text = myAddress.text) ∧ portText u none = portText u (some la.tuple)) ∧
        l.flatMap (';' :: ·) = l'.flatMap (';' :: ·) := by
  unfold placeText
  cases hhost : u.host with
  | name t =>
    simp only [Host.localStr, List.append_assoc, List.append_cancel_left_eq]
    rw [append_flatMap_inj (semicolon_portText u none) (semicolon_portText u _), elim_colon_inj]
    simp
  | myAddress =>
    have hclean (host : HostAddress) (localAddr : Option (Addr × Text)) :
        ';' ∉ host.text ++ (portText u localAddr).elim [] (':' :: ·) := by
      intro hmem
      rcases List.mem_append.mp hmem with h | h
      · exact host.semicolon h
      · exact semicolon_portText u _ h
    have hlocal : Host.localStr myAddress.text (some la.tuple) .myAddress = la.address.text := rfl
    have hnone : Host.localStr myAddress.text none .myAddress = myAddress.text := rfl
    rw [hlocal, hnone, append_flatMap_inj (hclean _ _) (hclean _ _), place_inj, eq_comm (a := myAddress.text)]
    simp

theorem ofInt_inj {m n : ℤ} : ofInt m = ofInt n ↔ m = n := by
  constructor
  · intro h
    have hint := congrArg Lib.Text.int h
    rw [int_ofInt, int_ofInt] at hint
    exact Option.some.inj hint
  · exact congrArg ofInt

theorem firstParams_eq_iff :
    (firstParams u.toUrlParams none).flatMap (';' :: ·) =
        (firstParams u.toUrlParams (some la.transport)).flatMap (';' :: ·) ↔
      (u.transport = some .myTransport → la.transport = RemoteAddress.udp) := by
  unfold firstParams
  rw [List.flatMap_append, List.flatMap_append, List.append_cancel_left_eq]
  rcases htransport : u.transport with _ | (t | _)
  · simp
  · simp [Transport.localStr]
  · by_cases hudp : la.transport = RemoteAddress.udp
    · simp [Transport.localStr, Option.filter, hudp]
    · simp [Transport.localStr, printed, hudp]

theorem portText_eq_iff (hudp : u.transport = some .myTransport → la.transport = RemoteAddress.udp) :
    portText u none = portText u (some la.tuple) ↔
      (u.port = some .myPort → la.port = defaultPort ∧ u.transport ≠ some .myTransport) ∧
        (u.transport = some .myTransport → u.port ≠ some (.number defaultPort)) := by
  unfold portText
  by_cases hown : u.transport = some .myTransport
  · have hla := hudp hown
    rcases hport : u.port with _ | (n | _)
    · simp
    · simp [portNeeded, hown, SIPaddr.tuple, hla]
    · simp [portNeeded, hown, SIPaddr.tuple, hla]
      exact fun hne heq => hne (ofInt_inj.mp heq).symm
  · rcases hport : u.port with _ | (n | _)
    · simp
    · simp [portNeeded, hown]
    · simp [portNeeded, hown, SIPaddr.tuple, ofInt_inj]
      exact eq_comm

/-- A socket prints a URL as `str` does exactly if nothing in the URL is its to change. -/
theorem localStr_eq_iff :
    u.localStr myAddress.text none = u.localStr myAddress.text (some la.tuple) ↔
      Settled myAddress la u := by
  rw [localStr_parts, localStr_parts, List.append_cancel_right_eq, List.append_cancel_left_eq,
    placeText_append_inj]
  have htransport := @firstParams_eq_iff la u
  constructor
  · rintro ⟨⟨hhost, hport⟩, hparams⟩
    have hudp := htransport.mp hparams
    obtain ⟨hmy, hnumber⟩ := (portText_eq_iff hudp).mp hport
    exact ⟨hhost, hmy, fun hown => ⟨hudp hown, hnumber hown⟩⟩
  · rintro ⟨hhost, hmy, hown⟩
    have hudp := fun h => (hown h).1
    exact ⟨⟨hhost, (portText_eq_iff hudp).mpr ⟨hmy, fun h => (hown h).2⟩⟩, htransport.mpr hudp⟩

end SippyB2bua.Address
