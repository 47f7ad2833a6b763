import SippyB2bua.Address.LocalStr
import SippyB2bua.Lib.Fallible
import SippyB2bua.SdpText
import SippyB2bua.Security.DigestHeaders
import SippyB2bua.Wire.SipMsg

/-!
# What the digest covers

`genRequest` answers a challenge with `str` of the target and, for `auth-int`, of the body, and
`newTransaction` prints the same objects again with `localStr` for the socket that it sends
from. The digest covers what is sent exactly if the socket has nothing to change in either.
-/

namespace SippyB2bua.Security
open Lib (Text)
open Lib.Text (crlf)
open Address (HostAddress SIPaddr SipURL Settled)
open Wire (SipHeader HfType SipMsg)

structure MsgBody where
  content : Sdp.Body
  mtype : Text

structure SipRequest where
  method : Text
  ruri : SipURL
  sipver : Text
  headers : List SipHeader
  body : Option MsgBody

/-- A request with the answer to a challenge and what was hashed for its body. -/
structure AuthRequest extends SipRequest where
  auth : SipAuthorization
  sbody : Option Text

/-- What `genRequest` reads of a user agent; `headers` are those that `SipRequest` makes. -/
structure UA where
  rTarget : SipURL
  username : Text
  password : Text
  headers : List SipHeader
  extraHeaders : List SipHeader

variable (p : Primitives) (myAddress : HostAddress)

/-- `SipHeader(body = auth)`. -/
def SipAuthorization.header (aclass : HfType) (auth : SipAuthorization) : SipHeader :=
  ⟨aclass.hfName, aclass, fun _ => auth.str⟩

/-- `genRequest` with a challenge; `aclass` is the class of its answer. -/
def UA.genRequest (ua : UA) (aclass : HfType) (cnonce method : Text) (body : Option MsgBody)
    (challenge : SipWWWAuthenticate) (qop : Option Text) (extraHeaders : List SipHeader) :
    Except Exn AuthRequest := do
  let sbody := if qop = some qopAuthInt then body.map fun b => b.content.str myAddress.text else none
  let auth ← challenge.genAuthHF p cnonce ua.username ua.password method
    (ua.rTarget.localStr myAddress.text none) sbody qop
  return {
    method := method, ruri := ua.rTarget, sipver := "SIP/2.0".toList,
    headers := ua.headers ++ [auth.header aclass] ++ ua.extraHeaders ++ extraHeaders,
    body := body, auth := auth, sbody := sbody }

namespace SipRequest

def sentURI (r : SipRequest) (la : SIPaddr) : Text := r.ruri.localStr myAddress.text (some la.tuple)

def sentBody (r : SipRequest) (la : SIPaddr) : Lazy Text :=
  r.body.elim (.ok []) fun b => b.content.localStr myAddress.text (some la.tuple)

def localStr (r : SipRequest) (la : SIPaddr) (compact : Bool) : Lazy Text :=
  (r.sentBody myAddress la).map fun text =>
    SipMsg.print (.localStr (some la.tuple) compact)
      ⟨fun localAddr => .request r.method (r.ruri.localStr myAddress.text localAddr) r.sipver, r.headers,
        r.body.map fun b => ⟨text, fun _ => text, b.mtype⟩⟩

end SipRequest

/-- The digest is over the Request-URI and the body that are sent. -/
structure AuthRequest.Covers (r : AuthRequest) (qop : Option Text) (la : SIPaddr) (body : Text) : Prop where
  uri : r.auth.uri = some (r.sentURI myAddress la)
  entity : qop = some qopAuthInt → r.sbody.getD [] = body

variable {p} {myAddress} {ua : UA} {aclass : HfType} {cnonce method data : Text} {body : Option MsgBody}
variable {challenge : SipWWWAuthenticate} {qop : Option Text} {extraHeaders : List SipHeader}
variable {r : AuthRequest} {la : SIPaddr}

theorem print_parts (form : SipMsg.Form) (m : SipMsg) :
    m.print form = (m.startLine form.localAddr).getSL ++ crlf ++
      ((m.headers.map (SipMsg.line form) ++ (m.trailer form).1).flatMap fun l => l ++ crlf) ++ crlf ++
      (m.trailer form).2 := by
  simp [SipMsg.print]

theorem SipRequest.localStr_ok {r : SipRequest} (h : r.sentBody myAddress la = .ok data) (compact : Bool) :
    ∃ header, r.localStr myAddress la compact =
      .ok (r.method ++ ' ' :: r.sentURI myAddress la ++ ' ' :: r.sipver ++ crlf ++ header ++ crlf ++ data) := by
  unfold localStr
  simp only [h, Except.map, print_parts]
  cases hbody : r.body with
  | none =>
    unfold sentBody at h
    rw [hbody] at h
    rw [← Except.ok.inj h]
    exact ⟨_, rfl⟩
  | some b => exact ⟨_, rfl⟩

theorem genAuthHF_uri {uri username password : Text} {entity : Option Text} {auth : SipAuthorization}
    (h : challenge.genAuthHF p cnonce username password method uri entity qop = .ok auth) :
    auth.uri = some uri := by
  have hanswer : (challenge.answer cnonce username uri qop).uri = some uri := by
    unfold SipWWWAuthenticate.answer
    cases challenge.opaqueValue <;> dsimp only <;> split_ifs <;> rfl
  unfold SipWWWAuthenticate.genAuthHF SipAuthorization.genAuthResponse at h
  obtain ⟨ha1, _, h⟩ := Lib.bind_ok.mp h
  obtain ⟨response, _, h⟩ := Lib.bind_ok.mp h
  rw [← Except.ok.inj h]
  exact hanswer

theorem genRequest_ok
    (h : ua.genRequest p myAddress aclass cnonce method body challenge qop extraHeaders = .ok r) :
    r.ruri = ua.rTarget ∧ r.body = body ∧ r.auth.uri = some (ua.rTarget.localStr myAddress.text none) ∧
      r.sbody = if qop = some qopAuthInt then body.map fun b => b.content.str myAddress.text else none := by
  obtain ⟨auth, hauth, h⟩ := Lib.bind_ok.mp h
  rw [← Except.ok.inj h]
  exact ⟨rfl, rfl, genAuthHF_uri hauth, rfl⟩

/-- The body needs nothing from the socket: no origin line of our own is in it, or the socket has
the very address that `str` prints there, as an IPv4 address. -/
def BodySettled (myAddress : HostAddress) (la : SIPaddr) (body : Option MsgBody) : Prop :=
  ∀ b ∈ body, b.content.own = true →
    la.address.text = myAddress.text ∧ la.address.text.head? ≠ some '['

/-- The digest covers what is sent exactly if the socket changes nothing in the target and, for
`auth-int`, nothing in the body. -/
theorem digest_covers_iff
    (hreq : ua.genRequest p myAddress aclass cnonce method body challenge qop extraHeaders = .ok r)
    (hsent : r.sentBody myAddress la = .ok data) :
    r.Covers myAddress qop la data ↔
      Settled myAddress la ua.rTarget ∧ (qop = some qopAuthInt → BodySettled myAddress la body) := by
  obtain ⟨hruri, hbody, huri, hsbody⟩ := genRequest_ok hreq
  have hcovered : r.auth.uri = some (r.sentURI myAddress la) ↔ Settled myAddress la ua.rTarget := by
    rw [huri, SipRequest.sentURI, hruri, Option.some_inj, Address.localStr_eq_iff]
  have hentity (hqop : qop = some qopAuthInt) : r.sbody.getD [] = data ↔ BodySettled myAddress la body := by
    unfold SipRequest.sentBody at hsent
    rw [hbody] at hsent
    rw [hsbody, if_pos hqop]
    cases body with
    | none =>
      constructor
      · exact fun _ b hb => absurd hb (by simp)
      · exact fun _ => Except.ok.inj hsent
    | some b =>
      rw [Option.map_some, Option.getD_some, Sdp.Body.str_eq_iff hsent]
      constructor
      · intro h b' hb' hown
        cases hb'
        exact Sdp.localAddress_eq_iff.mp (h hown)
      · intro h hown
        exact Sdp.localAddress_eq_iff.mpr (h b rfl hown)
  constructor
  · rintro ⟨hu, he⟩
    exact ⟨hcovered.mp hu, fun hqop => (hentity hqop).mp (he hqop)⟩
  · rintro ⟨hu, hb⟩
    exact ⟨hcovered.mpr hu, fun hqop => (hentity hqop).mpr (hb hqop)⟩

section Sample

def sampleMyAddress : HostAddress := ⟨"127.0.0.1".toList, .inr ⟨by decide, by decide⟩, by decide⟩

def sampleSocket : SIPaddr :=
  ⟨⟨"10.0.0.1".toList, .inr ⟨by decide, by decide⟩, by decide⟩, 5060, RemoteAddress.udp⟩

/-- `SipURL('sip:bob@example.com')`. -/
def sampleTarget : SipURL :=
  { scheme := "sip".toList, username := some "bob".toList, userparams := [], password := none,
    host := .name "example.com".toList, port := none, headers := none }

/-- `SipURL('tel:123')`, converted. -/
def sampleOwnTarget : SipURL :=
  { scheme := "sip".toList, username := some "123".toList, userparams := [], password := none,
    host := .myAddress, port := some .myPort, transport := some .myTransport, headers := none }

/-- A description without media, with an origin line of our own. -/
def sampleBody : MsgBody where
  content := .sdp {
    oHeader := some (.init 7), cHeader := none,
    headers := [("v".toList, "0".toList), ("s".toList, "-".toList), ("t".toList, "0 0".toList)],
    aHeaders := [], sections := [] }
  mtype := Wire.defaultType

/-- The same description with the origin line of the other leg. -/
def relayedBody : MsgBody where
  content := .sdp {
    oHeader := some ⟨"bob".toList, .text "7".toList, .text "7".toList, "IN".toList, .text "IP4".toList "192.0.2.7".toList⟩,
    cHeader := none, headers := [("v".toList, "0".toList), ("s".toList, "-".toList), ("t".toList, "0 0".toList)],
    aHeaders := [], sections := [] }
  mtype := Wire.defaultType

def sampleUA (rTarget : SipURL) : UA := ⟨rTarget, "alice".toList, "secret".toList, [], []⟩

theorem digest_covers_bob :
    ∃ r data, (sampleUA sampleTarget).genRequest samplePrimitives sampleMyAddress .sipAuthorization
        "0a1b2c3d".toList "INVITE".toList (some relayedBody) sampleChallenge (some qopAuthInt) [] = .ok r ∧
      r.sentBody sampleMyAddress sampleSocket = .ok data ∧
      r.Covers sampleMyAddress (some qopAuthInt) sampleSocket data := by
  have hreq : ∃ r, (sampleUA sampleTarget).genRequest samplePrimitives sampleMyAddress .sipAuthorization
      "0a1b2c3d".toList "INVITE".toList (some relayedBody) sampleChallenge (some qopAuthInt) [] = .ok r := ⟨_, rfl⟩
  obtain ⟨r, hreq⟩ := hreq
  have hsent : ∃ data, r.sentBody sampleMyAddress sampleSocket = .ok data := by
    unfold SipRequest.sentBody
    rw [(genRequest_ok hreq).2.1]
    exact ⟨_, rfl⟩
  obtain ⟨data, hsent⟩ := hsent
  have hsettled : Settled sampleMyAddress sampleSocket sampleTarget := ⟨by decide, by decide, by decide⟩
  have hbody : BodySettled sampleMyAddress sampleSocket (some relayedBody) := by
    intro b hb hown
    cases hb
    exact absurd hown (by decide)
  exact ⟨r, data, hreq, hsent, (digest_covers_iff hreq hsent).mpr ⟨hsettled, fun _ => hbody⟩⟩

/-- A target of a telephone number and a description of our own: the digest is over the address of
the configuration, and the one of the socket is sent. -/
theorem digest_misses_own :
    SipURL.init true false "tel:123".toList = .ok sampleOwnTarget ∧
      sampleOwnTarget.localStr sampleMyAddress.text none = "sip:123@127.0.0.1:5060".toList ∧
      sampleOwnTarget.localStr sampleMyAddress.text (some sampleSocket.tuple) = "sip:123@10.0.0.1".toList ∧
      ∀ p : Primitives, ∃ r data, (sampleUA sampleOwnTarget).genRequest p sampleMyAddress .sipAuthorization
          "0a1b2c3d".toList "INVITE".toList (some sampleBody) sampleChallenge (some qopAuthInt) [] = .ok r ∧
        r.sentBody sampleMyAddress sampleSocket = .ok data ∧
        r.auth.uri ≠ some (r.sentURI sampleMyAddress sampleSocket) ∧ r.sbody ≠ some data := by
  have hdigested : sampleOwnTarget.localStr sampleMyAddress.text none = "sip:123@127.0.0.1:5060".toList := by
    decide
  have hlocal : sampleOwnTarget.localStr sampleMyAddress.text (some sampleSocket.tuple) =
      "sip:123@10.0.0.1".toList := by
    decide +kernel
  refine ⟨by decide, hdigested, hlocal, fun p => ?_⟩
  have hreq : ∃ r, (sampleUA sampleOwnTarget).genRequest p sampleMyAddress .sipAuthorization
      "0a1b2c3d".toList "INVITE".toList (some sampleBody) sampleChallenge (some qopAuthInt) [] = .ok r := ⟨_, rfl⟩
  obtain ⟨r, hreq⟩ := hreq
  obtain ⟨hruri, hbody, huri, hsbody⟩ := genRequest_ok hreq
  have hsent : ∃ data, sampleBody.content.localStr sampleMyAddress.text (some sampleSocket.tuple) = .ok data :=
    ⟨_, rfl⟩
  obtain ⟨data, hsent⟩ := hsent
  refine ⟨r, data, hreq, ?_, ?_, ?_⟩
  · rw [SipRequest.sentBody, hbody]
    exact hsent
  · rw [huri, SipRequest.sentURI, hruri]
    exact fun heq => absurd (hdigested.symm.trans ((Option.some.inj heq).trans hlocal)) (by decide)
  · rw [hsbody, if_pos rfl, Option.map_some, Ne, Option.some_inj, Sdp.Body.str_eq_iff hsent,
      Sdp.localAddress_eq_iff]
    exact fun h => absurd (h rfl).1 (by decide)

end Sample

end SippyB2bua.Security
