import SippyB2bua.Lib.Text
import Mathlib.Data.Int.Bitwise

/-!
# The Via header and the address of a response

`SipVia.parse` splits the header body as the source does, including the
work-around for a port number that is sent twice. Header parameters are an
ordered dictionary: assigning to a present key keeps its position. `getTAddr`
is the transport address that responses are sent to.
-/

namespace SippyB2bua
open Lib (Text)

abbrev Addr := Text × ℤ

def defaultPort : ℤ := 5060

abbrev Params := List (Text × Option Text)

namespace Params

/-- `params[key] = val`. -/
def set (key : Text) (val : Option Text) : Params → Params
  | [] => [(key, val)]
  | (k, v) :: ps => if k = key then (k, val) :: ps else (k, v) :: set key val ps

/-- `params.get(key)`, with `none` for a missing key. -/
def get (ps : Params) (key : Text) : Option (Option Text) := ps.lookup key

def has (ps : Params) (key : Text) : Bool := (get ps key).isSome

@[simp] theorem get_set_same (ps : Params) (key : Text) (val : Option Text) :
    get (set key val ps) key = some val := by
  induction ps with
  | nil => simp [get, set]
  | cons p ps ih =>
    obtain ⟨k, v⟩ := p
    by_cases h : k = key
    · simp [get, set, h]
    · have hk : (key == k) = false := by simpa [beq_eq_false_iff_ne] using Ne.symm h
      simpa [get, set, h, List.lookup_cons, hk] using ih

theorem get_set_other (ps : Params) {key key' : Text} (val : Option Text) (hne : key' ≠ key) :
    get (set key val ps) key' = get ps key' := by
  induction ps with
  | nil =>
    have hk : (key' == key) = false := by simpa [beq_eq_false_iff_ne] using hne
    simp [get, set, List.lookup_cons, hk]
  | cons p ps ih =>
    obtain ⟨k, v⟩ := p
    simp only [get] at ih
    by_cases h : k = key
    · subst h
      have hk : (key' == k) = false := by simpa [beq_eq_false_iff_ne] using hne
      simp [get, set, List.lookup_cons, hk]
    · by_cases h' : (key' == k) = true
      · simp [get, set, h, List.lookup_cons, h']
      · simp [get, set, h, List.lookup_cons, h', ih]

theorem has_set (ps : Params) (key key' : Text) (val : Option Text) :
    has (set key val ps) key' = (decide (key' = key) || has ps key') := by
  by_cases h : key' = key
  · subst h; simp [has]
  · simp [has, get_set_other ps val h, h]

end Params

structure SipVia where
  sipver : Text
  transport : Text
  hostname : Text
  port : Option ℤ
  params : Params
  deriving DecidableEq, Repr

namespace SipVia

def received : Text := "received".toList
def rport : Text := "rport".toList
def branch : Text := "branch".toList

def parseParam (params : Params) (param : Text) : Params :=
  let sparam := Lib.Text.split1 '=' param
  params.set sparam.1 sparam.2

/-- The port text after the first colon; some devices send the number twice. -/
def parsePort (s : Text) : Option ℤ :=
  match Lib.Text.int s with
  | some n => some n
  | none =>
    match Lib.Text.split1 ':' s with
    | (p0, some p1) => if p0 = p1 then Lib.Text.int p0 else none
    | (_, none) => none

/-- Host and port; `none` stands for an exception. -/
def parseHostPort (s : Text) : Option (Text × Option ℤ) :=
  let withPort (host : Text) (rest : Option Text) : Option (Text × Option ℤ) :=
    match rest with
    | none => some (host, none)
    | some p => (parsePort p).map fun n => (host, some n)
  if Lib.Text.startsWith s ['['] then
    match Lib.Text.split1 ']' s with
    | (_, none) => none
    | (host, some rest) => withPort (host ++ [']']) (Lib.Text.split1 ':' rest).2
  else
    let hcomps := Lib.Text.split1 ':' s
    withPort hcomps.1 hcomps.2

def parse (body : Text) : Option SipVia :=
  match Lib.Text.splitSpace1 body with
  | some (parts, some hostname) =>
    match Lib.Text.rsplit1 '/' parts with
    | (sipver, some transport) =>
      let hcomps := (Lib.Text.splitAll ';' hostname).map Lib.Text.strip
      match parseHostPort (hcomps.headD []) with
      | some (host, port) => some {
          sipver := Lib.Text.rstrip sipver
          transport := Lib.Text.lstrip transport
          hostname := host
          port := port
          params := hcomps.tail.foldl parseParam [] }
      | none => none
    | (_, none) => none
  | _ => none

def getBranch (v : SipVia) : Option Text := (v.params.get branch).join

def setParam (v : SipVia) (name : Text) (value : Option Text) : SipVia :=
  { v with params := v.params.set name value }

def getAddr (v : SipVia) : Text × Option ℤ := (v.hostname, v.port)

/-- The port of `getTAddr`: a positive `rport`, else the sent-by port, else the
default; `none` when `int(rport)` raises. -/
def getTPort (v : SipVia) : Option ℤ :=
  let fallback := v.getAddr.2.getD defaultPort
  match (v.params.get rport).join with
  | none => some fallback
  | some s => (Lib.Text.int s).map fun n => if n ≤ 0 then fallback else n

/-- The host of `getTAddr`; `none` is the Python value `None` that a `received`
parameter without a value leaves there. -/
def getTHost (v : SipVia) : Option Text :=
  match v.params.get received with
  | some host => host
  | none => some v.getAddr.1

def getTAddr (v : SipVia) : Option (Option Text × ℤ) := v.getTPort.map fun p => (v.getTHost, p)

example : (parse "SIP/2.0/UDP 203.193.xx.xx;branch=z9hG4bK2dd1.1102f3e2.0".toList).bind getTAddr =
    some (some "203.193.xx.xx".toList, 5060) := by decide

end SipVia

/-- `Remote_address`: where a datagram came from. -/
structure RemoteAddress where
  transport : Text
  address : Text × ℕ
  received : Text
  deriving DecidableEq, Repr

namespace RemoteAddress

def udp : Text := "udp".toList
def wss : Text := "wss".toList

/-- The address of a datagram as `AsyncReceiver` builds it. -/
def ofUdp (address : Text × ℕ) : RemoteAddress := ⟨udp, address, address.1⟩

/-- The address of a WebSocket message: `received` is the connection id. -/
def ofWss (address : Text × ℕ) (connId : Text) : RemoteAddress := ⟨wss, address, connId⟩

end RemoteAddress

/-! Private and placeholder hosts. -/

/-- `reduce(lambda x, y: (int(x) << 8) | int(y), parts)`; a single part stays a
string, on which the mask operation raises. -/
def dottedValue : List Text → Option ℤ
  | [] => none
  | [_] => none
  | p :: ps => (Lib.Text.int p).bind fun x =>
      ps.foldlM (fun acc y => (Lib.Text.int y).map fun n => Int.lor (acc * 256) n) x

/-- `addr.split('.', 4)`. -/
def splitDots : ℕ → Text → List Text
  | 0, s => [s]
  | n + 1, s => match Lib.Text.split1 '.' s with
    | (a, none) => [a]
    | (a, some rest) => a :: splitDots n rest

def nets1918 : List (ℤ × ℤ) :=
  [(0x0a000000, 0xffffffff000000), (0xac100000, 0xffffffff00000), (0xc0a80000, 0xffffffff0000)]

def check1918 (addr : Text) : Bool :=
  match dottedValue (splitDots 4 addr) with
  | none => false
  | some a => nets1918.any fun net => Int.land a net.2 == net.1

def check7118 (host : Text) : Bool := Lib.Text.endsWith host ".invalid".toList

example : check1918 "192.168.1.10".toList = true ∧ check1918 "172.32.0.1".toList = false ∧
    check1918 "example.com".toList = false := by decide

end SippyB2bua
