import SippyB2bua.Lib.Words
import SippyB2bua.Message

/-!
# Session descriptions

The body of a message as `MsgBody` and `SdpBody` hold it. A description keeps the headers
that have a structure of their own, its attributes and its media sections; the other
headers are kept as text. A body is parsed on demand, so its content is text until then.
-/

namespace SippyB2bua.Sdp
open Lib (Text)

structure AHeader where
  name : Text
  value : Option Text
  deriving DecidableEq, Repr

def AHeader.ofText (s : Text) : AHeader := ⟨(Text.split1 ':' s).1, (Text.split1 ':' s).2⟩

structure SdpConnecton where
  ntype : Text
  atype : Text
  addr : Text
  deriving DecidableEq, Repr

def SdpConnecton.parse (body : Text) : Except Exn SdpConnecton :=
  match Text.words body with
  | ntype :: atype :: addr :: _ => .ok ⟨ntype, atype, addr⟩
  | _ => .error .valueError

/-- The formats of a media line; those of audio and video are numbers. -/
inductive Formats
  | payloads (pts : List ℤ)
  | names (fs : List Text)
  deriving DecidableEq, Repr

/-- `[str(x) for x in formats]`. -/
def Formats.texts : Formats → List Text
  | .payloads pts => pts.map Text.ofInt
  | .names fs => fs

structure SdpMedia where
  stype : Text
  port : ℤ
  transport : Text
  formats : Formats
  deriving DecidableEq, Repr

/-- `int(s)` with its exception. -/
def int (s : Text) : Except Exn ℤ := (Text.int s).elim (.error .valueError) .ok

def SdpMedia.parse (body : Text) : Except Exn SdpMedia :=
  match Text.words body with
  | stype :: port :: transport :: fs => do
    let port ← int port
    let lstype := Text.lower stype
    if lstype = "audio".toList ∨ lstype = "video".toList then
      return ⟨stype, port, transport, .payloads (← fs.mapM int)⟩
    else return ⟨stype, port, transport, .names fs⟩
  | [_, port] => do
    let _ ← int port
    .error .indexError
  | _ => .error .indexError

/-- A number of the origin line: that of a parsed line is text. -/
inductive Num
  | own (n : ℤ)
  | text (t : Text)
  deriving DecidableEq, Repr

structure SdpOrigin where
  username : Text
  sessionId : Num
  version : Num
  networkType : Text
  addressType : Text
  address : Text
  deriving DecidableEq, Repr

def SdpOrigin.parse (body : Text) : Except Exn SdpOrigin :=
  match Text.words body with
  | [username, sid, version, ntype, atype, address] =>
    .ok ⟨username, .text sid, .text version, ntype, atype, address⟩
  | _ => .error .valueError

structure SdpMediaDescription where
  mHeader : Option SdpMedia
  cHeader : Option SdpConnecton
  /-- The `i`, `b` and `k` headers. -/
  headers : List (Text × Text)
  aHeaders : List AHeader
  needsUpdate : Bool
  deriving DecidableEq, Repr

namespace SdpMediaDescription

def empty : SdpMediaDescription := ⟨none, none, [], [], true⟩

def addAHeader (sect : SdpMediaDescription) (a : AHeader) : SdpMediaDescription :=
  { sect with aHeaders := sect.aHeaders ++ [a] }

def addTexts (sect : SdpMediaDescription) (ts : List Text) : SdpMediaDescription :=
  { sect with aHeaders := sect.aHeaders ++ ts.map AHeader.ofText }

def setTransport (sect : SdpMediaDescription) (t : Text) : SdpMediaDescription :=
  { sect with mHeader := sect.mHeader.map fun m => { m with transport := t } }

def addHeader (sect : SdpMediaDescription) (name header : Text) :
    Except Exn SdpMediaDescription :=
  if name = "a".toList then .ok (sect.addAHeader (.ofText header))
  else if name = "m".toList then do return { sect with mHeader := some (← SdpMedia.parse header) }
  else if name = "c".toList then do
    return { sect with cHeader := some (← SdpConnecton.parse header) }
  else if name ∈ ["i".toList, "b".toList, "k".toList] then
    .ok { sect with headers := sect.headers.filter (·.1 != name) ++ [(name, header)] }
  else .error .keyError

end SdpMediaDescription

structure SdpBody where
  oHeader : Option SdpOrigin
  cHeader : Option SdpConnecton
  /-- The other headers of the session part. -/
  headers : List (Text × Text)
  aHeaders : List AHeader
  sections : List SdpMediaDescription
  deriving DecidableEq, Repr

namespace SdpBody

def empty : SdpBody := ⟨none, none, [], [], []⟩

/-- The session headers that `f_types` knows as plain text. -/
def generic : List Text :=
  ["v", "s", "i", "u", "e", "p", "b", "t", "r", "z", "k"].map String.toList

/-- A header of the session part other than an attribute. -/
def setHeader (b : SdpBody) (name header : Text) : Except Exn SdpBody :=
  if name = "o".toList then do return { b with oHeader := some (← SdpOrigin.parse header) }
  else if name = "c".toList then do
    return { b with cHeader := some (← SdpConnecton.parse header) }
  else if name ∈ generic then
    .ok { b with headers := b.headers.filter (·.1 != name) ++ [(name, header)] }
  else .error .keyError

def addHeader (b : SdpBody) (name header : Text) : Except Exn SdpBody :=
  if name = "a".toList then .ok { b with aHeaders := b.aHeaders ++ [.ofText header] }
  else b.setHeader name header

/-- `sections[-1].addHeader(..)`. -/
def addToLast (sections : List SdpMediaDescription) (name header : Text) :
    Except Exn (List SdpMediaDescription) :=
  match sections.getLast? with
  | none => .error .indexError
  | some sect => do return sections.dropLast ++ [← sect.addHeader name header]

/-- One line of the text; the session's `c` header waits for the sections. -/
def addLine (r : SdpBody × Option Text) (line : Text) : Except Exn (SdpBody × Option Text) :=
  match Text.split1 '=' line with
  | (_, none) => .error .valueError
  | (name, some v) =>
    let name := Text.lower name
    let b := r.1
    if name = "m".toList then do
      let sections ← addToLast (b.sections ++ [.empty]) name v
      return ({ b with sections := sections }, r.2)
    else if b.sections ≠ [] then do
      return ({ b with sections := ← addToLast b.sections name v }, r.2)
    else if name = "c".toList then .ok (b, some v)
    else do return (← b.addHeader name v, r.2)

/-- The session's `c` header goes to the sections that have none. -/
def spreadC (b : SdpBody) (c : Text) : Except Exn SdpBody :=
  if b.sections = [] then b.addHeader "c".toList c
  else do
    let sections ← b.sections.mapM fun sect =>
      if sect.cHeader = none then sect.addHeader "c".toList c else .ok sect
    return { b with sections := sections }

def sane (b : SdpBody) : Bool :=
  b.oHeader.isSome && ["v", "s", "t"].all (fun n => b.headers.any (·.1 == n.toList)) &&
    b.sections.all fun sect => sect.cHeader.isSome && sect.mHeader.isSome

/-- `SdpBody(body)`. -/
def parse (body : Text) : Except Exn SdpBody := do
  let lines := (Text.splitlines (Text.strip body)).filter fun l => Text.strip l != []
  let (b, c) ← lines.foldlM addLine (SdpBody.empty, none)
  let b ← c.elim (.ok b) b.spreadC
  if b.sane then return b else .error .sdpParse

/-- `b += 'a=...'`: an attribute goes to the last section, if there is one. -/
def addAttribute (b : SdpBody) (a : AHeader) : SdpBody :=
  match b.sections.getLast? with
  | some sect => { b with sections := b.sections.dropLast ++ [sect.addAHeader a] }
  | none => { b with aHeaders := b.aHeaders ++ [a] }

end SdpBody

inductive Content
  | text (s : Text)
  | sdp (b : SdpBody)
  /-- A `MultipartMixBody`. -/
  | mixed
  deriving DecidableEq, Repr

structure MsgBody where
  content : Content
  /-- The name of the content type. -/
  mtype : Option Text
  needsUpdate : Bool
  parsed : Bool
  deriving DecidableEq, Repr

/-- `MsgBody(content, mtype)` of a text. -/
def MsgBody.ofText (s mtype : Text) : MsgBody := ⟨.text s, some mtype, true, false⟩

/-- `MsgBody.parse`; `mixed` reads a multipart text. -/
def MsgBody.parse (mixed : Text → Except Exn Unit) (b : MsgBody) : Except Exn MsgBody :=
  if b.parsed then .ok b
  else match b.mtype, b.content with
    | none, _ => .error .attributeError
    | some mtype, .text s =>
      if Text.lower mtype = "application/sdp".toList then do
        return { b with content := .sdp (← SdpBody.parse s), parsed := true }
      else if Text.lower mtype = "multipart/mixed".toList then do
        mixed s
        return { b with content := .mixed, parsed := true }
      else .ok { b with parsed := true }
    | some _, _ => .ok { b with parsed := true }

end SippyB2bua.Sdp
