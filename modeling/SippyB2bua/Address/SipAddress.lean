import SippyB2bua.Address.SipURL
import SippyB2bua.Lib.Words

/-!
# SIP addresses

`SipAddress` reads a name, a URL in angle brackets and parameters. The end of a quoted name is
found from the positions of the quotes that no backslash stands before.
-/

namespace SippyB2bua.Address
open Lib (Text Items)
open Lib.Text (split1 splitAll strip lower isSpace)

/-- `params` and `params_order` are one dictionary in the order in which it prints. -/
structure SipAddress where
  name : Option Text
  url : SipURL
  params : Items (Option Text)
  hadbrace : Bool
  deriving DecidableEq, Repr

/-- The quotes without a backslash before them, from position `pos` on. -/
def quotesFrom (previous : Char) (pos : ℕ) : Text → List ℕ
  | [] => []
  | c :: cs =>
    if c = '"' ∧ previous ≠ '\\' then pos :: quotesFrom c (pos + 1) cs else quotesFrom c (pos + 1) cs

/-- `findquotes(s)`, which starts at position 1. -/
def findquotes : Text → List ℕ
  | [] => []
  | c :: cs => quotesFrom c 1 cs

/-- `s[1:q]` -/
def upTo (s : Text) (q : ℕ) : Text := (s.take q).drop 1

def pickQuote (address : Text) (q : ℕ) : List ℕ → ℕ
  | [] => q
  | next :: qs => if '<' ∈ upTo address next then q else pickQuote address next qs

/-- The quote that ends the name; without one `i` is not bound. -/
def endQuote (address : Text) : Lazy ℕ :=
  match findquotes address with
  | [] => .error .other
  | q :: qs => .ok (pickQuote address q qs)

/-- The name, and what follows the opening bracket. -/
def nameParts (address : Text) : Lazy (Text × Text) :=
  if address.head? = some '"' then do
    let q ← endQuote address
    let url := strip (address.drop (q + 1))
    return (upTo address q, if url.head? = some '<' then url.tail else url)
  else
    match split1 '<' address with
    | (_, none) => .error .valueError
    | (name, some url) => .ok (strip name, url)

def readParam (d : Items (Option Text)) (l : Text) : Items (Option Text) :=
  d.put (split1 '=' l).1 (split1 '=' l).2

def readParams (paramstring : Text) : Items (Option Text) :=
  ((splitAll ';' paramstring).filter (· ≠ [])).foldl readParam []

def readBraced (autoconvert relaxedparser : Bool) (name url : Text) : Lazy SipAddress :=
  match split1 '>' url with
  | (_, none) => .error .valueError
  | (url, some paramstring) => do
    let url ← SipURL.init autoconvert relaxedparser url
    return { name := some name, url := url, params := readParams (strip paramstring), hadbrace := true }

/-- `SipAddress(address)`. -/
def SipAddress.init (autoconvert relaxedparser : Bool) (address : Text) : Lazy SipAddress :=
  if "sip:".toList.isPrefixOf (lower address) ∧ '<' ∉ address then do
    let parts := split1 ';' address
    let url ← SipURL.init autoconvert relaxedparser parts.1
    return { name := none, url := url, params := parts.2.elim [] readParams, hadbrace := false }
  else do
    let parts ← nameParts address
    readBraced autoconvert relaxedparser parts.1 parts.2

/-- `str.isalnum` of a single character. -/
structure Alnum where
  test : Char → Bool
  ascii : ∀ c, c.toNat < 128 → test c = c.isAlphanum
  space : ∀ c, isSpace c = true → test c = false

def transtable : Text := "-.!%*_+`'~".toList

def needquotes (isalnum : Alnum) (name : Text) : Bool :=
  ! name.all fun c => transtable.contains c || isalnum.test c

def nameText (isalnum : Alnum) (name : Text) : Text :=
  if name = [] then []
  else if needquotes isalnum name then '"' :: name ++ "\" ".toList else name ++ [' ']

def headerParam (param : Text × Option Text) : Text := ';' :: param.1 ++ param.2.elim [] ('=' :: ·)

def SipAddress.localStr (isalnum : Alnum) (myAddress : Text) (a : SipAddress) (localAddr : Option (Addr × Text)) :
    Text :=
  let url := a.url.localStr myAddress localAddr
  let name := a.name.getD []
  nameText isalnum name ++ (if a.hadbrace ∨ name ≠ [] then '<' :: url ++ ['>'] else url) ++
    a.params.flatMap headerParam

end SippyB2bua.Address
