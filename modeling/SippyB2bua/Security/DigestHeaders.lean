import SippyB2bua.Lib.Lines
import SippyB2bua.Lib.Trim
import SippyB2bua.Security.Digest

/-!
# The texts of the digest headers

An answer is cut at its commas and each piece at its first equals sign, quoted or not. A
challenge is cut at its quotes: what stands between two quotes is the value of the last name
before them, and what stands outside is a list of names and values without quotes.
-/

namespace SippyB2bua.Security
open Lib (Text)
open Lib.Text (split1 splitAll lower strip stripBy)

/-- `'%s'` of an attribute. -/
def attrStr (s : Option Text) : Text := s.getD "None".toList

/-- `name="value"`. -/
def quotedParam (name value : Text) : Text := name ++ '=' :: '"' :: value ++ ['"']

/-- `name=value`. -/
def bareParam (name value : Text) : Text := name ++ '=' :: value

def scheme : Text := "Digest ".toList

namespace SipAuthorization

/-- The parameters that the class knows; values lose their quotes. -/
def setKnown (auth : SipAuthorization) (ciName value : Text) : Option SipAuthorization :=
  let v := stripBy (· = '"') value
  if ciName = "username".toList then some { auth with username := some v }
  else if ciName = "uri".toList then some { auth with uri := some v }
  else if ciName = "realm".toList then some { auth with realm := some v }
  else if ciName = "nonce".toList then some { auth with nonce := some v }
  else if ciName = "response".toList then some { auth with response := some v }
  else if ciName = "qop".toList then some { auth with qop := some v }
  else if ciName = "cnonce".toList then some { auth with cnonce := some v }
  else if ciName = "nc".toList then some { auth with nc := some v }
  else if ciName = "algorithm".toList then some { auth with algorithm := some v }
  else none

def setParam (auth : SipAuthorization) (p : Text × Text) : SipAuthorization :=
  (auth.setKnown (lower p.1) p.2).getD { auth with otherparams := auth.otherparams ++ [p] }

def blank : SipAuthorization := { username := none, uri := none, realm := none, nonce := none }

def isGap (c : Char) : Bool := c = ',' ∨ c = ' '

/-- The name and the value of a piece, if it has both. -/
def pair (x : Text) : Option (Text × Text) :=
  match split1 '=' (stripBy isGap x) with
  | (name, some value) => some (name, value)
  | (_, none) => none

/-- `parse`, for a text that it accepts. -/
def parse (body : Text) : Option SipAuthorization := do
  let rest ← (split1 ' ' body).2
  let pairs ← (splitAll ',' rest).mapM pair
  return pairs.foldl setParam blank

def params (auth : SipAuthorization) : List Text :=
  [quotedParam "username".toList (attrStr auth.username), quotedParam "realm".toList (attrStr auth.realm),
    quotedParam "nonce".toList (attrStr auth.nonce), quotedParam "uri".toList (attrStr auth.uri),
    quotedParam "response".toList (attrStr auth.response)] ++
  (auth.algorithm.toList.map fun alg => bareParam "algorithm".toList alg) ++
  (auth.qop.toList.flatMap fun qop => [bareParam "qop".toList qop,
    bareParam "nc".toList (attrStr auth.nc), quotedParam "cnonce".toList (attrStr auth.cnonce)]) ++
  auth.otherparams.map fun p => bareParam p.1 p.2

def str (auth : SipAuthorization) : Text := scheme ++ [','].intercalate auth.params

end SipAuthorization

/-- A challenge with all its parameters. -/
structure Challenge extends SipWWWAuthenticate where
  otherparams : List (Text × Text)

namespace Challenge

def blank : Challenge :=
  { realm := none, nonce := none, qop := none, algorithm := none, opaqueValue := none, otherparams := [] }

def setParam (www : Challenge) (p : Text × Text) : Challenge :=
  if p.1 = "realm".toList then { www with realm := some p.2 }
  else if p.1 = "nonce".toList then { www with nonce := some p.2 }
  else if p.1 = "algorithm".toList then
    { www with algorithm := some (if p.2 = "md5".toList then "MD5".toList else p.2) }
  else if p.1 = "qop".toList then { www with qop := some ((splitAll ',' p.2).map strip) }
  else if p.1 = "opaque".toList then { www with opaqueValue := some p.2 }
  else { www with otherparams := www.otherparams ++ [p] }

/-- `x.strip().split('=', 1)`. -/
def nameValue (x : Text) : List Text :=
  match split1 '=' (strip x) with
  | (name, some value) => [name, value]
  | (name, none) => [name]

def isEdge (c : Char) : Bool := c = ' ' ∨ c = ',' ∨ c = '='

/-- What stands outside of the quotes, cut into pieces, with the quoted text that follows. -/
def pieces (chunk : Text) (quoted : Option Text) : List (List Text) :=
  let parts := (splitAll ',' (stripBy isEdge chunk)).map nameValue
  match quoted with
  | none => parts
  | some q => parts.dropLast ++ [parts.getLast?.getD [] ++ [q]]

/-- `name, value` of a piece; anything but two parts raises. -/
def pair : List Text → Option (Text × Text)
  | [name, value] => some (name, value)
  | _ => none

/-- The loop over the texts between the quotes. -/
def readParts (www : Challenge) : List Text → Option Challenge
  | [] => some www
  | [chunk] => do return (← (pieces chunk none).mapM pair).foldl setParam www
  | chunk :: quoted :: parts => do
    let pairs ← (pieces chunk (some quoted)).mapM pair
    readParts (pairs.foldl setParam www) parts

/-- `parse`, for a text that it accepts. An empty text after the last quote is left out. -/
def parse (body : Text) : Option Challenge := do
  let rest ← (split1 ' ' body).2
  let parts := splitAll '"' (strip rest)
  let parts := if parts.length % 2 ≠ 0 ∧ parts.getLast? = some [] then parts.dropLast else parts
  readParts blank parts

/-- `qop` as it prints; an empty list has no first element. -/
def qopParam : List Text → Option Text
  | [] => none
  | [qop] => some (bareParam "qop".toList qop)
  | qops => some (quotedParam "qop".toList ([','].intercalate qops))

def params (www : Challenge) : Option (List Text) := do
  let qop ← www.qop.toList.mapM qopParam
  return [quotedParam "realm".toList (attrStr www.realm), quotedParam "nonce".toList (attrStr www.nonce)] ++
    qop ++ (www.algorithm.toList.map fun alg => bareParam "algorithm".toList alg) ++
    (www.opaqueValue.toList.map fun value => quotedParam "opaque".toList value) ++
    www.otherparams.map fun p => quotedParam p.1 p.2

/-- `localStr()` of a challenge with a text for its realm. -/
def str (www : Challenge) : Option Text := www.params.map fun ps => scheme ++ [','].intercalate ps

end Challenge

end SippyB2bua.Security
