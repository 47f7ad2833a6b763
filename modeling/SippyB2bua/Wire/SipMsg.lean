import SippyB2bua.Wire.Header

/-!
# Reading and printing messages

`SipMsg.__init__` looks for the empty line that ends the header, cuts the header into
lines, folds continuation lines and makes the headers. `init_body` compares the body with
the Content-Length; a request always calls it, a response only between 100 and 400. The
URL of a request is a text, with a test that tells what `SipURL` accepts.
-/

namespace SippyB2bua.Wire
open Lib (Text)
open Lib.Text (cut crlf splitlines split1 splitAll strip words wordsMax ofInt str)

inductive ParseExn
  | indexError | valueError | headerCsv
  | missed (name : Text)
  | sipParseError (arg : Text)
  deriving DecidableEq

inductive MsgClass
  | sipRequest | sipResponse
  deriving DecidableEq

inductive StartLine
  | request (method ruri sipver : Text)
  | response (sipver : Text) (scode : ℤ) (reason : Text)
  deriving DecidableEq

namespace StartLine

def getSL : StartLine → Text
  | request method ruri sipver => method ++ ' ' :: ruri ++ ' ' :: sipver
  | response sipver scode reason => sipver ++ ' ' :: ofInt scode ++ ' ' :: reason

def unspecified : Text := "Unspecified".toList

def ofRequest (url : Text → Bool) (startline : Text) : Except ParseExn StartLine :=
  match words startline with
  | [method, ruri, sipver] => if url ruri then .ok (request method ruri sipver) else .error .valueError
  | _ => .error .valueError

/-- A response without a reason has `Unspecified` for it. -/
def ofResponse (startline : Text) : Except ParseExn StartLine :=
  match wordsMax 2 startline with
  | [sipver, scode] => match Lib.Text.int scode with
    | some n => .ok (response sipver n unspecified)
    | none => .error .valueError
  | [sipver, scode, reason] => match Lib.Text.int scode with
    | some n => .ok (response sipver n reason)
    | none => .error .valueError
  | _ => .error .valueError

def setSL (url : Text → Bool) (cls : MsgClass) (startline : Text) : Except ParseExn StartLine :=
  match cls with
  | .sipRequest => ofRequest url startline
  | .sipResponse => ofResponse startline

/-- Whether the class calls `init_body`. -/
def readsBody : StartLine → Bool
  | request _ _ _ => true
  | response _ scode _ => 100 < scode ∧ scode < 400

end StartLine

def bodyDelims : List Text := ["\r\n\r\n".toList, "\r\r".toList, "\n\n".toList]

/-- The header part of a message and its body, if that is not empty. -/
def locateBody (buf : Text) : Text × Option Text :=
  match bodyDelims.findSome? fun bdel => cut bdel buf with
  | none => (buf, none)
  | some (header, mbody) => (header, if mbody = [] then none else some mbody)

def continues (line : Text) : Bool :=
  match line with
  | [] => true
  | c :: _ => c = ' ' || c = '\t'

def foldLines (line : Text) : List Text → List Text
  | [] => [line]
  | l :: ls => if continues l then foldLines (line ++ ' ' :: strip l) ls else line :: foldLines l ls

def headerLines : List Text → List Text
  | [] => []
  | l :: ls => foldLines l ls

def SipHeader.ofLine (line : Text) : Except ParseExn (List SipHeader) :=
  match split1 ':' line with
  | (_, none) => .error .valueError
  | (name, some bodys) => match SipHeader.ofText (strip name) (strip bodys) with
    | .ok header => .ok [header]
    | .error bodys => bodys.mapM fun body => match SipHeader.ofText (strip name) body with
      | .ok header => .ok header
      | .error _ => .error .headerCsv

def contentType : Text := "content-type".toList
def contentLength : Text := "content-length".toList

/-- The headers read so far; those of the body are kept apart. -/
structure Read where
  headers : List SipHeader
  contentType : Option SipHeader
  contentLength : Option SipHeader

def Read.add (r : Read) (h : SipHeader) : Read :=
  if h.name = Wire.contentType then { r with contentType := some h }
  else if h.name = Wire.contentLength then { r with contentLength := some h }
  else { r with headers := r.headers ++ [h] }

def readHeaders (r : Read) : List Text → Except ParseExn Read
  | [] => .ok r
  | line :: lines => match SipHeader.ofLine line with
    | .error e => .error e
    | .ok hs => readHeaders (hs.foldl Read.add r) lines

def mandatory : List Text := ["via".toList, "to".toList, "from".toList, "cseq".toList]

/-- `mbody[:n]`; a negative number counts from the end. -/
def upTo (n : ℤ) (s : Text) : Text :=
  if 0 ≤ n then s.take n.toNat else s.take (s.length - n.natAbs)

def missedBody (blen : ℤ) : Text :=
  "Missed SIP body, ".toList ++ ofInt blen ++ " bytes expected".toList

def truncatedBody (blen : ℤ) (mblen : ℕ) : Text :=
  "Truncated SIP body, ".toList ++ ofInt blen ++ " bytes expected, ".toList ++ str mblen ++
    " received".toList

/-- A body that is shorter than the Content-Length says, with its work-arounds. -/
def repairBody (blen : ℤ) (mbody : Text) : Except ParseExn Text :=
  let short := blen - mbody.length
  if short < 7 ∧ 7 < mbody.length ∧ mbody.drop (mbody.length - 4) = "\r\n\r\n".toList then .ok mbody
  else if short = 2 ∧ mbody.drop (mbody.length - 2) = crlf then .ok (mbody ++ crlf)
  else if short = 1 ∧ mbody.drop (mbody.length - 3) = "\r\n\n".toList then
    .ok (mbody.take (mbody.length - 3) ++ "\r\n\r\n".toList)
  else if short = 1 ∧ mbody.drop (mbody.length - 2) = crlf then .ok (mbody ++ crlf)
  else .error (.sipParseError (truncatedBody blen mbody.length))

/-- The part of `init_body` that settles what the body is. -/
def initBody (blen : ℤ) (mbody : Option Text) : Except ParseExn (Option Text) :=
  if blen = 0 then .ok none
  else match mbody with
    | none => .error (.sipParseError (missedBody blen))
    | some mbody =>
      if mbody.length < blen then (repairBody blen mbody).map some
      else if blen < mbody.length then .ok (some (upTo blen mbody))
      else .ok (some mbody)

/-- `SipContentType` after `parse`. -/
structure ContentType where
  name : Text
  params : List (Text × Text)

namespace ContentType

/-- `params[key] = value`. -/
def setParam (params : List (Text × Text)) (key value : Text) : List (Text × Text) :=
  if key ∈ params.map Prod.fst then params.map fun p => if p.1 = key then (key, value) else p
  else params ++ [(key, value)]

/-- `dict` of the split parameters; one without `=` raises a `ValueError`. -/
def readParams (params : List (Text × Text)) : List Text → Except ParseExn (List (Text × Text))
  | [] => .ok params
  | part :: parts => match split1 '=' part with
    | (_, none) => .error .valueError
    | (key, some value) => readParams (setParam params key value) parts

def parse (body : Text) : Except ParseExn ContentType :=
  match splitAll ';' body with
  | [] => .error .indexError
  | name :: parts => (readParams [] parts).map fun params => ⟨name, params⟩

def str (c : ContentType) : Text :=
  [';'].intercalate (c.name :: c.params.map fun p => p.1 ++ '=' :: p.2)

end ContentType

/-- A body as it prints, with the text of its type. -/
structure MsgBody where
  str : Text
  localStr : Option LocalAddr → Text
  mtype : Text

def MsgBody.raw (content mtype : Text) : MsgBody := ⟨content, fun _ => content, mtype⟩

/-- `DEFAULT_CTYPE`. -/
def defaultType : Text := "application/sdp".toList

structure SipMsg where
  startLine : Option LocalAddr → StartLine
  headers : List SipHeader
  body : Option MsgBody

namespace SipMsg

/-- `init_body`. -/
def readBody (r : Read) (mbody : Option Text) : Except ParseExn (Option MsgBody) := do
  let mbody ← match r.contentLength with
    | none => .ok mbody
    | some h => match Lib.Text.int (h.body.localStr none) with
      | none => .error .valueError
      | some blen => initBody blen mbody
  match mbody, r.contentType with
  | none, _ => .ok none
  | some mbody, none => .ok (some (.raw mbody defaultType))
  | some mbody, some h => do
    let mtype ← ContentType.parse (h.body.localStr none)
    .ok (some (.raw mbody mtype.str))

/-- `SipMsg.__init__` on the text of a message. -/
def init (url : Text → Bool) (cls : MsgClass) (buf : Text) :
    Except ParseExn (StartLine × Read × Option Text) :=
  let (header, mbody) := locateBody buf
  match splitlines header with
  | [] => .error .indexError
  | startline :: lines => do
    let sl ← StartLine.setSL url cls startline
    let r ← readHeaders ⟨[], none, none⟩ (headerLines lines)
    match mandatory.find? fun name => name ∉ r.headers.map SipHeader.name with
    | some name => .error (.missed name)
    | none => .ok (sl, r, mbody)

/-- The constructors of `SipRequest` and `SipResponse` on the text of a message. -/
def ofText (url : Text → Bool) (cls : MsgClass) (buf : Text) : Except ParseExn SipMsg := do
  let (sl, r, mbody) ← init url cls buf
  let body ← if sl.readsBody then readBody r mbody else .ok none
  .ok ⟨fun _ => sl, r.headers, body⟩

/-- The two ways to print a message. -/
inductive Form
  | str
  | localStr (localAddr : Option LocalAddr) (compact : Bool)

namespace Form

def localAddr : Form → Option LocalAddr
  | str => none
  | localStr localAddr _ => localAddr

def compact : Form → Bool
  | str => false
  | localStr _ compact => compact

end Form

def bodyText (form : Form) (b : MsgBody) : Text :=
  match form with
  | .str => b.str
  | .localStr localAddr _ => b.localStr localAddr

def line (form : Form) (h : SipHeader) : Text := h.localStr form.localAddr form.compact

def typeName (compact : Bool) : Text := if compact then "c".toList else "Content-Type".toList
def lengthName (compact : Bool) : Text := if compact then "l".toList else "Content-Length".toList

/-- The lines about the body, and the body. -/
def trailer (form : Form) (m : SipMsg) : List Text × Text :=
  match m.body with
  | none => ([lengthName form.compact ++ ": 0".toList], [])
  | some b => ([typeName form.compact ++ ": ".toList ++ b.mtype,
      lengthName form.compact ++ ": ".toList ++ str (bodyText form b).length], bodyText form b)

/-- `str(msg)` and `localStr`. -/
def print (form : Form) (m : SipMsg) : Text :=
  let lines := (m.startLine form.localAddr).getSL :: m.headers.map (line form) ++ (m.trailer form).1
  (lines.flatMap fun l => l ++ crlf) ++ crlf ++ (m.trailer form).2

end SipMsg

end SippyB2bua.Wire
