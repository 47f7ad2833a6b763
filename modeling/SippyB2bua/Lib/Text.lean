import Mathlib.Data.List.Basic
import Mathlib.Data.Nat.Notation
import Mathlib.Data.Int.Notation

/-!
# Text operations

Splitting, trimming and decimal conversion of character lists, with the
conventions of Python strings: a bounded split keeps the remainder whole, a
split at white space skips it on the left, and an integer literal may carry
surrounding white space, a sign and single underscores between its digits.
The digits are the ASCII ones; a text with decimal digits of other scripts, which
Python reads as well, is outside of the domain of these operations.
-/

namespace SippyB2bua.Lib

abbrev Text := List Char

instance instLawfulBEqText : LawfulBEq Text := inferInstance

/-- A statement on the characters of a text is decided by going through the text, not through all
characters there are. -/
instance instDecidableForallMemText (t : Text) (p : Char → Prop) [DecidablePred p] : Decidable (∀ c ∈ t, p c) :=
  List.decidableBAll p t

instance instDecidableForallMemChar (o : Option Char) (p : Char → Prop) [DecidablePred p] : Decidable (∀ c ∈ o, p c) :=
  Option.decidableForallMem o

namespace Text

/-- `str.isspace` of a single character. -/
def isSpace (c : Char) : Bool :=
  let n := c.toNat
  (9 ≤ n && n ≤ 13) || (28 ≤ n && n ≤ 32) || n == 133 || n == 160 || n == 5760 ||
    (8192 ≤ n && n ≤ 8202) || n == 8232 || n == 8233 || n == 8239 || n == 8287 || n == 12288

def lstrip (s : Text) : Text := s.dropWhile isSpace
def rstrip (s : Text) : Text := (s.reverse.dropWhile isSpace).reverse
def strip (s : Text) : Text := rstrip (lstrip s)

/-- `s.split(sep, 1)`: the part before the first separator and, if there is a
separator, everything after it. -/
def split1 (sep : Char) : Text → Text × Option Text
  | [] => ([], none)
  | c :: cs =>
    if c = sep then ([], some cs)
    else let r := split1 sep cs; (c :: r.1, r.2)

/-- `s.split(sep)`. -/
def splitAll (sep : Char) : Text → List Text
  | [] => [[]]
  | c :: cs =>
    if c = sep then [] :: splitAll sep cs
    else match splitAll sep cs with
      | [] => [[c]]
      | t :: ts => (c :: t) :: ts

/-- `s.rsplit(sep, 1)`. -/
def rsplit1 (sep : Char) (s : Text) : Text × Option Text :=
  match split1 sep s.reverse with
  | (tail, none) => (tail.reverse, none)
  | (tail, some front) => (front.reverse, some tail.reverse)

/-- `s.split(None, 1)`. -/
def splitSpace1 (s : Text) : Option (Text × Option Text) :=
  let s := lstrip s
  if s = [] then none
  else
    let rest := lstrip (s.dropWhile (fun c => !isSpace c))
    some (s.takeWhile (fun c => !isSpace c), if rest = [] then none else some rest)

def startsWith (s p : Text) : Bool := p.isPrefixOf s
def endsWith (s p : Text) : Bool := p.isSuffixOf s

def digits : Text → Option Text
  | [] => none
  | [c] => if c.isDigit then some [c] else none
  | c :: '_' :: cs => if c.isDigit then (digits cs).map (c :: ·) else none
  | c :: cs => if c.isDigit then (digits cs).map (c :: ·) else none

/-- `int(s)` of a text without digits of other scripts; `none` stands for `ValueError`. -/
def int (s : Text) : Option ℤ :=
  match strip s with
  | '-' :: ds => (digits ds).map fun ds => -(Nat.ofDigitChars 10 ds 0 : ℤ)
  | '+' :: ds => (digits ds).map fun ds => (Nat.ofDigitChars 10 ds 0 : ℤ)
  | ds => (digits ds).map fun ds => (Nat.ofDigitChars 10 ds 0 : ℤ)

/-- `str(n)` of a natural number. -/
def str (n : ℕ) : Text := Nat.toDigits 10 n

theorem isSpace_of_isDigit {c : Char} (h : c.isDigit = true) : isSpace c = false := by
  simp only [Char.isDigit, Bool.and_eq_true, decide_eq_true_eq] at h
  have h1 : 48 ≤ c.toNat := h.1
  have h2 : c.toNat ≤ 57 := h.2
  simp only [isSpace, Bool.or_eq_false_iff, Bool.and_eq_false_iff, decide_eq_false_iff_not,
    beq_eq_false_iff_ne]
  omega

theorem lstrip_of_head {c : Char} {cs : Text} (h : isSpace c = false) :
    lstrip (c :: cs) = c :: cs := by
  simp [lstrip, h]

theorem rstrip_of_last {s : Text} {c : Char} (h : isSpace c = false) :
    rstrip (s ++ [c]) = s ++ [c] := by
  simp [rstrip, h]

theorem strip_of_digits {s : Text} (h : ∀ c ∈ s, c.isDigit = true) : strip s = s := by
  rcases s.eq_nil_or_concat with rfl | ⟨init, last, rfl⟩
  · rfl
  · have hlast : isSpace last = false := isSpace_of_isDigit (h last (by simp))
    have hl : lstrip (init ++ [last]) = init ++ [last] := by
      cases init with
      | nil => exact lstrip_of_head hlast
      | cons c cs => exact lstrip_of_head (isSpace_of_isDigit (h c (by simp)))
    simp only [List.concat_eq_append] at *
    rw [strip, hl, rstrip_of_last hlast]

theorem digits_of_digits {s : Text} (hne : s ≠ []) (h : ∀ c ∈ s, c.isDigit = true) :
    digits s = some s := by
  induction s with
  | nil => exact absurd rfl hne
  | cons c cs ih =>
    have hc : c.isDigit = true := h c (by simp)
    cases cs with
    | nil => simp [digits, hc]
    | cons d ds =>
      have hd : d.isDigit = true := h d (by simp)
      have hu : d ≠ '_' := by rintro rfl; simp [Char.isDigit] at hd
      have hr := ih (by simp) (fun x hx => h x (by simp [hx]))
      rw [digits.eq_4 c (d :: ds) (by simp) (by rintro x hx; simp_all)]
      simp [hc, hr]

theorem int_str (n : ℕ) : int (str n) = some (n : ℤ) := by
  have hd : ∀ c ∈ str n, c.isDigit = true := fun c hc =>
    Nat.isDigit_of_mem_toDigits (by decide) (by decide) hc
  have hds := digits_of_digits (s := str n) Nat.toDigits_ne_nil hd
  rw [int, strip_of_digits hd]
  have hnum : Nat.ofDigitChars 10 (str n) 0 = n := Nat.ofDigitChars_ten_toDigits
  split
  · rename_i ds hs
    have := hd '-' (by rw [hs]; simp)
    simp [Char.isDigit] at this
  · rename_i ds hs
    have := hd '+' (by rw [hs]; simp)
    simp [Char.isDigit] at this
  · rw [hds, Option.map_some, hnum]

end Text
end SippyB2bua.Lib
