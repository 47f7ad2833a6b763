import SippyB2bua.Lib.Breaks
import SippyB2bua.Lib.Words
import SippyB2bua.Lib.Dict
import SippyB2bua.Via

/-!
# Header classes

Each class of headers lists the names under which the parser finds it, and prints a
name of its own in the ordinary and in the compact form. A body that was not parsed
prints the text it was made from; the classes of Via and of the address headers cut a
text with commas into several headers.
-/

namespace SippyB2bua.Wire
open Lib (Text Dict)
open Lib.Text (lower splitAll split1 strip)

inductive HfType
  | sipCSeq | sipCallId | sipFrom | sipTo | sipMaxForwards | sipVia | sipContentLength
  | sipContentType | sipExpires | sipRecordRoute | sipRoute | sipContact | sipWWWAuthenticate
  | sipAuthorization | sipServer | sipUserAgent | sipCiscoGUID | sipAlso | sipReferTo
  | sipCCDiversion | sipReferredBy | sipProxyAuthenticate | sipProxyAuthorization | sipReplaces
  | sipPAssertedIdentity | sipReason | sipAllow | sipSupported | sipRSeq | sipRAck | sipWarning
  | sipDiversion | sipPath
  /-- `SipGenericHF`, which takes its name from the header. -/
  | sipGenericHF (name : Text)
  deriving DecidableEq

namespace HfType

/-- `_hf_types`. -/
def all : List HfType :=
  [sipCSeq, sipCallId, sipFrom, sipTo, sipMaxForwards, sipVia, sipContentLength, sipContentType,
    sipExpires, sipRecordRoute, sipRoute, sipContact, sipWWWAuthenticate, sipAuthorization, sipServer,
    sipUserAgent, sipCiscoGUID, sipAlso, sipReferTo, sipCCDiversion, sipReferredBy,
    sipProxyAuthenticate, sipProxyAuthorization, sipReplaces, sipPAssertedIdentity, sipReason,
    sipAllow, sipSupported, sipRSeq, sipRAck, sipWarning, sipDiversion, sipPath]

def hfNames : HfType → List Text
  | sipCSeq => ["cseq".toList]
  | sipCallId => ["call-id".toList, "i".toList]
  | sipFrom => ["from".toList, "f".toList]
  | sipTo => ["to".toList, "t".toList]
  | sipMaxForwards => ["max-forwards".toList]
  | sipVia => ["via".toList, "v".toList]
  | sipContentLength => ["content-length".toList, "l".toList]
  | sipContentType => ["content-type".toList, "c".toList]
  | sipExpires => ["expires".toList]
  | sipRecordRoute => ["record-route".toList]
  | sipRoute => ["route".toList]
  | sipContact => ["contact".toList, "m".toList]
  | sipWWWAuthenticate => ["www-authenticate".toList]
  | sipAuthorization => ["authorization".toList]
  | sipServer => ["server".toList]
  | sipUserAgent => ["user-agent".toList]
  | sipCiscoGUID => ["cisco-guid".toList, "h323-conf-id".toList]
  | sipAlso => ["also".toList]
  | sipReferTo => ["refer-to".toList, "r".toList]
  | sipCCDiversion => ["cc-diversion".toList]
  | sipReferredBy => ["referred-by".toList]
  | sipProxyAuthenticate => ["proxy-authenticate".toList]
  | sipProxyAuthorization => ["proxy-authorization".toList]
  | sipReplaces => ["replaces".toList]
  | sipPAssertedIdentity => ["p-asserted-identity".toList]
  | sipReason => ["reason".toList]
  | sipAllow => ["allow".toList]
  | sipSupported => ["supported".toList]
  | sipRSeq => ["rseq".toList]
  | sipRAck => ["rack".toList]
  | sipWarning => ["warning".toList]
  | sipDiversion => ["diversion".toList]
  | sipPath => ["path".toList]
  | sipGenericHF name => [lower name]

/-- `hf_names[0]`. -/
def hfName (t : HfType) : Text := t.hfNames.headD []

end HfType

/-- `hf_types`: a later class takes a name over. -/
def hfTypes : Dict Text HfType :=
  HfType.all.foldl (fun d t => t.hfNames.foldl (fun d name => d.set name t) d) Dict.empty

/-- `str.capitalize` of a text without cased letters outside of ASCII. -/
def capitalize : Text → Text
  | [] => []
  | c :: cs => c.toUpper :: lower cs

namespace HfType

def getCanName (t : HfType) (name : Text) (compact : Bool) : Text :=
  match t with
  | sipCSeq => "CSeq".toList
  | sipCallId => if compact then "i".toList else "Call-ID".toList
  | sipFrom => if compact then "f".toList else "From".toList
  | sipTo => if compact then "t".toList else "To".toList
  | sipMaxForwards => "Max-Forwards".toList
  | sipVia => if compact then "v".toList else "Via".toList
  | sipContentLength => if compact then "l".toList else "Content-Length".toList
  | sipContentType => if compact then "c".toList else "Content-Type".toList
  | sipRecordRoute | sipRoute =>
    if name = "record-route".toList then "Record-Route".toList else "Route".toList
  | sipContact => if compact then "m".toList else "Contact".toList
  | sipWWWAuthenticate => "WWW-Authenticate".toList
  | sipAuthorization => "Authorization".toList
  | sipUserAgent => "User-Agent".toList
  | sipCiscoGUID =>
    if lower name = "h323-conf-id".toList then "h323-conf-id".toList else "cisco-GUID".toList
  | sipCCDiversion => "CC-Diversion".toList
  | sipProxyAuthenticate => "Proxy-Authenticate".toList
  | sipProxyAuthorization => "Proxy-Authorization".toList
  | sipPAssertedIdentity => "P-Asserted-Identity".toList
  | sipAllow => "Allow".toList
  | sipSupported => if compact then "k".toList else "Supported".toList
  | sipRSeq => "RSeq".toList
  | sipRAck => "RAck".toList
  | sipDiversion => "Diversion".toList
  | sipPath => "Path".toList
  | sipExpires | sipServer | sipAlso | sipReferTo | sipReferredBy | sipReplaces | sipReason
  | sipWarning | sipGenericHF _ => capitalize name

/-- A comma at this place of an address header ends the address. -/
def topLevel (s : Text) : Bool :=
  let onum := s.count '<'
  let cnum := s.count '>'
  let qnum := s.count '"'
  (onum == 0 && cnum == 0 && qnum == 0) || (onum > 0 && onum == cnum && qnum % 2 == 0)

/-- The addresses of a list that starts with `s`. -/
def addresses (s : Text) : Text → List Text
  | [] => [s]
  | c :: cs => if c = ',' ∧ topLevel s then s :: addresses [] cs else addresses (s ++ [c]) cs

/-- The texts into which the class cuts a body; more than one make an `ESipHeaderCSV`. -/
def bodys (t : HfType) (body : Text) : List Text :=
  match t with
  | sipVia => splitAll ',' body
  | sipFrom | sipTo | sipRecordRoute | sipRoute | sipContact | sipAlso | sipReferTo | sipCCDiversion
  | sipReferredBy | sipPAssertedIdentity | sipDiversion | sipPath => addresses [] body
  | _ => [body]

end HfType

/-- The address, port and transport that stand in for `my_address` in a message. -/
abbrev LocalAddr := Addr × Text

/-- The body of a header, as it prints. -/
structure HF where
  type : HfType
  localStr : Option LocalAddr → Text

def HF.raw (t : HfType) (body : Text) : HF := ⟨t, fun _ => body⟩

structure SipHeader where
  name : Text
  body : HF

namespace SipHeader

def canName (h : SipHeader) (compact : Bool) : Text := h.body.type.getCanName h.name compact

def localStr (h : SipHeader) (localAddr : Option LocalAddr) (compact : Bool) : Text :=
  h.canName compact ++ ": ".toList ++ h.body.localStr localAddr

/-- `str(header)`; no class prints its body there as it does not for a missing local address. -/
def str (h : SipHeader) : Text := h.localStr none false

def typeOf (name : Text) : HfType := (hfTypes name).getD (.sipGenericHF name)

/-- `SipHeader(name = name, bodys = bodys, fixname = True)`, or the texts of an
`ESipHeaderCSV`. -/
def ofText (name bodys : Text) : Except (List Text) SipHeader :=
  let t := typeOf (lower name)
  match t.bodys bodys with
  | b₁ :: b₂ :: bs => .error (b₁ :: b₂ :: bs)
  | _ => .ok ⟨t.hfName, .raw t bodys⟩

end SipHeader

end SippyB2bua.Wire
