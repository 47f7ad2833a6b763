import SippyB2bua.Lib.Lines
import SippyB2bua.Message

/-!
# The user name of a SIP URL

`SipURL` cuts the user name out of a URL and decodes its percent escapes, as
`urllib.parse.unquote` does: runs of ASCII characters become bytes, and the bytes are
decoded as UTF-8 with U+FFFD for what is malformed.
-/

namespace SippyB2bua.SipURL
open Lib (Text)

def hexDigit (c : Char) : Option ℕ :=
  if '0' ≤ c ∧ c ≤ '9' then some (c.toNat - '0'.toNat)
  else if 'a' ≤ c ∧ c ≤ 'f' then some (c.toNat - 'a'.toNat + 10)
  else if 'A' ≤ c ∧ c ≤ 'F' then some (c.toNat - 'A'.toNat + 10)
  else none

def hexByte (c d : Char) : Option ℕ := do return 16 * (← hexDigit c) + (← hexDigit d)

/-- `unquote_to_bytes` of a text of ASCII characters; a percent sign that starts no escape
stands for itself. -/
def unquoteToBytes : Text → List ℕ
  | '%' :: c :: d :: cs =>
    match hexByte c d with
    | some b => b :: unquoteToBytes cs
    | none => '%'.toNat :: unquoteToBytes (c :: d :: cs)
  | c :: cs => c.toNat :: unquoteToBytes cs
  | [] => []

def follows (b : ℕ) : Option (List (ℕ × ℕ)) :=
  let any := (0x80, 0xBF)
  if b < 0x80 then some []
  else if 0xC2 ≤ b ∧ b ≤ 0xDF then some [any]
  else if b = 0xE0 then some [(0xA0, 0xBF), any]
  else if b = 0xED then some [(0x80, 0x9F), any]
  else if 0xE1 ≤ b ∧ b ≤ 0xEF then some [any, any]
  else if b = 0xF0 then some [(0x90, 0xBF), any, any]
  else if 0xF1 ≤ b ∧ b ≤ 0xF3 then some [any, any, any]
  else if b = 0xF4 then some [(0x80, 0x8F), any, any]
  else none

/-- The bytes that do follow, as far as they are in their ranges, and the rest. -/
def takeFollowing : List (ℕ × ℕ) → List ℕ → List ℕ × List ℕ
  | (lo, hi) :: ranges, b :: bs =>
    if lo ≤ b ∧ b ≤ hi then
      let r := takeFollowing ranges bs
      (b :: r.1, r.2)
    else ([], b :: bs)
  | _, bs => ([], bs)

/-- The bits of a first byte that are part of the character. -/
def leadBits (b : ℕ) (n : ℕ) : ℕ :=
  match n with
  | 0 => b
  | 1 => b % 0x20
  | 2 => b % 0x10
  | _ => b % 0x08

/-- `bytes.decode('utf-8', 'replace')`, of at most `fuel` bytes. -/
def decode : ℕ → List ℕ → Text
  | 0, _ | _, [] => []
  | fuel + 1, b :: bs =>
    match follows b with
    | none => Char.ofNat 0xFFFD :: decode fuel bs
    | some ranges =>
      let r := takeFollowing ranges bs
      let c := if r.1.length = ranges.length then
          Char.ofNat (r.1.foldl (fun n b => 64 * n + b % 64) (leadBits b ranges.length))
        else Char.ofNat 0xFFFD
      c :: decode fuel r.2

def isASCII (c : Char) : Bool := c.toNat < 0x80

/-- `unquote`, of a text of at most `fuel` runs. -/
def unquoteRuns : ℕ → Text → Text
  | 0, _ | _, [] => []
  | fuel + 1, c :: cs =>
    if isASCII c then
      let bytes := unquoteToBytes ((c :: cs).takeWhile isASCII)
      decode bytes.length bytes ++ unquoteRuns fuel ((c :: cs).dropWhile isASCII)
    else c :: unquoteRuns fuel cs

def unquote (s : Text) : Text := unquoteRuns s.length s

/-- `username` after `parseSipURL`: what stands before the first at sign, up to the
password and the user parameters. -/
def parseSipURL (url : Text) : Option Text :=
  match Text.split1 '@' url with
  | (_, none) => none
  | (userpass, some _) =>
    some (unquote ((Text.splitAll ';' (Text.split1 ':' userpass).1).headD []))

/-- `username` after `convertTelURL`. -/
def convertTelURL (url : Text) : Text := unquote ((Text.splitAll ';' url).headD [])

/-- `username` of `SipURL(url)`, if nothing else of the URL is malformed; `autoconvert` is
`SipConf.autoconvert_tel_url`. -/
def username (autoconvert : Bool) (url : Text) : Lazy (Option Text) :=
  let parts := match Text.split1 ':' url with
    | (_, none) => ("sip".toList, url)
    | (scheme, some rest) => (scheme.map Char.toLower, rest)
  if parts.1 = "tel".toList then
    if autoconvert then .ok (some (convertTelURL parts.2)) else .error .valueError
  else if parts.1 = "sip".toList ∨ parts.1 = "sips".toList then .ok (parseSipURL parts.2)
  else .error .valueError

example : parseSipURL "a%0Ab%C3%A9;x=y:pw@h".toList = some "a\nbé".toList := by decide

end SippyB2bua.SipURL
