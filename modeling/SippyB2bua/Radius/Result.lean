import Mathlib.Data.List.Infix
import SippyB2bua.Lib.Bytes
import SippyB2bua.Lib.Pieces
import SippyB2bua.Message
import SippyB2bua.Radius.Client

/-!
# Results of the RADIUS client

The external program answers a request with lines: one for each attribute of the answer and,
after them, the return code. `process_result` takes the lines apart before the callback is
called, so a line that it cannot read takes the callback with it.
-/

namespace SippyB2bua.Radius
open Lib (Text Bytes)

def isSpaceByte (x : UInt8) : Bool := x == 32 || (9 ≤ x && x ≤ 13)

def stripLine (line : Bytes) : Bytes :=
  ((line.dropWhile isSpaceByte).reverse.dropWhile isSpaceByte).reverse

/-- `line.decode()`. -/
def decodeLine (line : Bytes) : Option Text := (ByteArray.mk line.toArray).utf8Decode?.map Array.toList

/-- `int(line)`. -/
def intLine (line : Bytes) : Option ℤ :=
  match Lib.Bytes.decode (stripLine line) with
  | '-' :: ds => (Text.digits ds).map fun ds => -(Nat.ofDigitChars 10 ds 0 : ℤ)
  | '+' :: ds => (Text.digits ds).map fun ds => (Nat.ofDigitChars 10 ds 0 : ℤ)
  | ds => (Text.digits ds).map fun ds => (Nat.ofDigitChars 10 ds 0 : ℤ)

/-- `v.strip('\'')`. -/
def stripQuotes (v : Text) : Text :=
  ((v.dropWhile (· == '\'')).reverse.dropWhile (· == '\'')).reverse

/-- `' = '`. -/
def equals : Text := [' ', '=', ' ']

/-- The name and the value of an attribute, from the two parts of its line. -/
def nameValue (a v : Text) : Text × Text :=
  let a := Text.strip a
  let v := stripQuotes (Text.strip v)
  if a = ciscoAVPair ∨ a ∈ ciscoVsaNames then
    match Text.split1 '=' v with
    | (x, some y) => (x, y)
    | (_, none) => (a, v)
  else if Text.startsWith v (a ++ ['=']) then (a, v.drop (a.length + 1))
  else (a, v)

/-- One round of the loop of `process_result`. -/
def attributeOf (line : Bytes) : Except Exn (Text × Text) :=
  match decodeLine line with
  | none => .error .valueError
  | some text =>
    match Text.pieces1 equals text with
    | (_, none) => .error .valueError
    | (a, some v) => .ok (nameValue a v)

abbrev Results := List (Text × Text) × ℤ

/-- `process_result`, up to the call of the callback. -/
def processResult (result : List Bytes) : Except Exn Results := do
  let nav ← result.dropLast.mapM attributeOf
  match result.getLast? with
  | none => .error .indexError
  | some line =>
    match intLine line with
    | none => .error .valueError
    | some rcode => .ok (nav, rcode)

/-- `'%-32s'`. -/
def pad32 (s : Text) : Text := s ++ List.replicate (32 - s.length) ' '

/-- `RadiusAuthorisation._process_result`, with the delay as a text: what is logged. -/
def authMessage (delay : Text) (results : Results) : Text :=
  let avs := results.1.flatMap fun av => pad32 av.1 ++ " = '".toList ++ av.2 ++ "'\n".toList
  if results.2 = 0 then
    "AAA request accepted (delay is ".toList ++ delay ++ "), processing response:\n".toList ++ avs
  else if results.2 = 1 then
    "AAA request rejected (delay is ".toList ++ delay ++ "), processing response:\n".toList ++ avs
  else "Error sending AAA request (delay is ".toList ++ delay ++ ")\n".toList

/-- `RadiusAccounting._process_result`. -/
def acctMessage (origin delay : Text) (results : Results) : Text :=
  if results.2 = 0 then
    "Acct/".toList ++ origin ++ " request accepted (delay is ".toList ++ delay ++ ")\n".toList
  else if results.2 = 1 then
    "Acct/".toList ++ origin ++ " request rejected (delay is ".toList ++ delay ++ ")\n".toList
  else "Error sending Acct/".toList ++ origin ++ " request (delay is ".toList ++ delay ++ ")\n".toList

/-- An attribute has a separator, and the return code comes last. -/
structure Readable (result : List Bytes) : Prop where
  attributes : ∀ line ∈ result.dropLast, ∃ text, decodeLine line = some text ∧ equals <:+: text
  rcode : ∃ line, result.getLast? = some line ∧ (intLine line).isSome

section Readable
variable {sep s : Text} {result : List Bytes}

theorem pieces1_isSome (hsep : sep ≠ []) : (Text.pieces1 sep s).2.isSome ↔ sep <:+: s := by
  rw [Text.pieces1, Text.pieces_cut hsep]
  cases hcut : Text.cut sep s with
  | none => simpa using Text.cut_eq_none.1 hcut
  | some ab =>
    obtain ⟨a, b⟩ := ab
    have hinfix : sep <:+: s := ⟨a, b, (Text.cut_eq hcut).symm⟩
    have hne := Text.pieces_ne_nil hsep b
    dsimp only
    generalize Text.pieces sep b = ps at hne
    cases ps with
    | nil => exact absurd rfl hne
    | cons t ts => simpa using hinfix

theorem attributeOf_ok {line : Bytes} : (∃ av, attributeOf line = .ok av) ↔
    ∃ text, decodeLine line = some text ∧ equals <:+: text := by
  unfold attributeOf
  cases hd : decodeLine line with
  | none => simp
  | some text =>
    have hsome : (Text.pieces1 equals text).2.isSome ↔ equals <:+: text := pieces1_isSome (by simp [equals])
    rcases hp : Text.pieces1 equals text with ⟨a, v⟩
    rw [hp] at hsome
    cases v with
    | none =>
      rw [Option.isSome_none] at hsome
      simpa [hp] using hsome
    | some v => simpa [hp] using hsome

theorem mapM_attributeOf {lines : List Bytes} : (∃ nav, lines.mapM attributeOf = .ok nav) ↔
    ∀ line ∈ lines, ∃ av, attributeOf line = .ok av := by
  induction lines with
  | nil => simp [pure, Except.pure]
  | cons line lines ih =>
    rw [List.mapM_cons, List.forall_mem_cons, ← ih]
    cases attributeOf line with
    | error e => simp [bind, Except.bind]
    | ok av =>
      cases lines.mapM attributeOf with
      | error e => simp [bind, Except.bind]
      | ok nav => simp [bind, Except.bind, pure, Except.pure]

/-- `process_result` comes to the callback exactly with the answers that can be read. -/
theorem processResult_ok : (∃ results, processResult result = .ok results) ↔ Readable result := by
  have hnav : (∃ nav, result.dropLast.mapM attributeOf = .ok nav) ↔ _ := mapM_attributeOf
  simp only [attributeOf_ok] at hnav
  unfold processResult
  constructor
  · rintro ⟨results, h⟩
    cases hm : result.dropLast.mapM attributeOf with
    | error e =>
      rw [hm] at h
      exact nomatch h
    | ok nav =>
      refine ⟨hnav.1 ⟨nav, hm⟩, ?_⟩
      rw [hm] at h
      cases hl : result.getLast? with
      | none =>
        rw [hl] at h
        exact nomatch h
      | some line =>
        refine ⟨line, rfl, ?_⟩
        rw [hl] at h
        cases hi : intLine line with
        | none => simp [hi, bind, Except.bind] at h
        | some n => rfl
  · rintro ⟨hattr, line, hl, hi⟩
    obtain ⟨nav, hm⟩ := hnav.2 hattr
    obtain ⟨n, hn⟩ := Option.isSome_iff_exists.1 hi
    exact ⟨(nav, n), by rw [hm, hl]; simp [hn, bind, Except.bind]⟩

end Readable

end SippyB2bua.Radius
