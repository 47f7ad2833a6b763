import Mathlib.Data.Nat.Notation
import Mathlib.Data.List.Induction
import Mathlib.Data.Nat.Bitwise
import SippyB2bua.Lib.Text

/-!
# Bytes

Numbers as big-endian bytes, the exclusive or of two byte strings, and the text encoding of
byte strings in an alphabet of 64 symbols. The decoder skips what is not in the alphabet and
stops at the padding, as a lenient decoder does. It gives back what was encoded, and a byte
string of whole groups is encoded without padding.
-/

namespace SippyB2bua.Lib

abbrev Bytes := List UInt8

namespace Bytes

variable {a b : Bytes} {n k : ℕ}

def fromBE (a : Bytes) : ℕ := a.foldl (fun n x => n * 256 + x.toNat) 0

def digitsBE (n : ℕ) : ℕ → Bytes
  | 0 => []
  | k + 1 => digitsBE (n / 256) k ++ [UInt8.ofNat n]

/-- The number on `k` bytes, when it fits. -/
def toBE (n k : ℕ) : Option Bytes := if n < 256 ^ k then some (digitsBE n k) else none

theorem fromBE_concat (a : Bytes) (x : UInt8) : fromBE (a ++ [x]) = fromBE a * 256 + x.toNat := by
  simp [fromBE]

theorem digitsBE_length (n k : ℕ) : (digitsBE n k).length = k := by
  induction k generalizing n with
  | zero => rfl
  | succ k ih => simp [digitsBE, ih]

theorem fromBE_digitsBE (h : n < 256 ^ k) : fromBE (digitsBE n k) = n := by
  induction k generalizing n with
  | zero => simpa [digitsBE, fromBE, eq_comm] using h
  | succ k ih =>
    have hdiv : n / 256 < 256 ^ k := by rw [pow_succ] at h; omega
    rw [digitsBE, fromBE_concat, ih hdiv, UInt8.toNat_ofNat']
    omega

theorem fromBE_lt (a : Bytes) : fromBE a < 256 ^ a.length := by
  induction a using List.reverseRecOn with
  | nil => simp [fromBE]
  | append_singleton a x ih =>
    have hx := x.toNat_lt
    rw [fromBE_concat, List.length_append, List.length_singleton, pow_succ]
    omega

theorem digitsBE_fromBE (a : Bytes) : digitsBE (fromBE a) a.length = a := by
  induction a using List.reverseRecOn with
  | nil => rfl
  | append_singleton a x ih =>
    have hx := x.toNat_lt
    have hdiv : (fromBE a * 256 + x.toNat) / 256 = fromBE a := by omega
    rw [fromBE_concat, List.length_append, List.length_singleton, digitsBE, hdiv, ih]
    have hlast : UInt8.ofNat (fromBE a * 256 + x.toNat) = x := by
      apply UInt8.toNat_inj.mp
      rw [UInt8.toNat_ofNat']
      omega
    rw [hlast]

def xorBE (a b : Bytes) : Option Bytes := toBE (fromBE a ^^^ fromBE b) a.length

theorem pow_bytes (k : ℕ) : 256 ^ k = 2 ^ (8 * k) := by
  rw [pow_mul]
  rfl

theorem fromBE_xor_lt (h : a.length = b.length) : fromBE a ^^^ fromBE b < 256 ^ a.length := by
  have ha := fromBE_lt a
  have hb := fromBE_lt b
  rw [← h] at hb
  rw [pow_bytes] at *
  exact Nat.xor_lt_two_pow ha hb

theorem xorBE_xorBE (h : a.length = b.length) :
    ∃ c, xorBE a b = some c ∧ c.length = a.length ∧ xorBE c b = some a := by
  have hlt := fromBE_xor_lt h
  refine ⟨digitsBE (fromBE a ^^^ fromBE b) a.length, if_pos hlt, digitsBE_length .., ?_⟩
  rw [xorBE, fromBE_digitsBE hlt, digitsBE_length, Nat.xor_xor_cancel_right, toBE,
    if_pos (fromBE_lt a), digitsBE_fromBE]

/-- The byte that stands for a number of six bits. -/
def symbol (n : ℕ) : UInt8 :=
  if n < 26 then UInt8.ofNat (n + 65)
  else if n < 52 then UInt8.ofNat (n + 71)
  else if n < 62 then UInt8.ofNat (n - 4)
  else if n = 62 then 43 else 47

def value (c : UInt8) : Option ℕ :=
  let n := c.toNat
  if 65 ≤ n ∧ n ≤ 90 then some (n - 65)
  else if 97 ≤ n ∧ n ≤ 122 then some (n - 71)
  else if 48 ≤ n ∧ n ≤ 57 then some (n + 4)
  else if n = 43 then some 62
  else if n = 47 then some 63
  else none

def padding : UInt8 := 61

def b64encode : Bytes → Bytes
  | x :: y :: z :: rest =>
    symbol (x.toNat / 4) :: symbol (x.toNat % 4 * 16 + y.toNat / 16) ::
      symbol (y.toNat % 16 * 4 + z.toNat / 64) :: symbol (z.toNat % 64) :: b64encode rest
  | [x, y] =>
    [symbol (x.toNat / 4), symbol (x.toNat % 4 * 16 + y.toNat / 16), symbol (y.toNat % 16 * 4), padding]
  | [x] => [symbol (x.toNat / 4), symbol (x.toNat % 4 * 16), padding, padding]
  | [] => []

/-- The decoder after `pos` symbols of a group, with the bits `left` that are not used up and
`pads` paddings seen. `none` stands for `binascii.Error`. -/
def a2bFrom : (pos left pads : ℕ) → Bytes → Option Bytes
  | pos, _, _, [] => if pos = 0 then some [] else none
  | pos, left, pads, c :: cs =>
    if c = padding then
      if pos < 2 then a2bFrom pos left pads cs
      else if 4 ≤ pos + (pads + 1) then some []
      else a2bFrom pos left (pads + 1) cs
    else match value c with
      | none => a2bFrom pos left pads cs
      | some v => match pos with
        | 0 => a2bFrom 1 v 0 cs
        | 1 => (a2bFrom 2 (v % 16) 0 cs).map (UInt8.ofNat (left * 4 + v / 16) :: ·)
        | 2 => (a2bFrom 3 (v % 4) 0 cs).map (UInt8.ofNat (left * 16 + v / 4) :: ·)
        | _ => (a2bFrom 0 0 0 cs).map (UInt8.ofNat (left * 64 + v) :: ·)

def b64decode (cs : Bytes) : Option Bytes := a2bFrom 0 0 0 cs

theorem value_symbol (h : n < 64) : value (symbol n) = some n := by
  decide +revert

theorem symbol_ne_padding (h : n < 64) : symbol n ≠ padding := by
  decide +revert

theorem symbol_lt (h : n < 64) : (symbol n).toNat < 128 := by
  decide +revert

/-! A symbol is read as its value, at each place of a group. -/

section Places

variable {left pads : ℕ} {cs : Bytes}

theorem a2bFrom_first (h : n < 64) : a2bFrom 0 left pads (symbol n :: cs) = a2bFrom 1 n 0 cs := by
  simp [a2bFrom, symbol_ne_padding h, value_symbol h]

theorem a2bFrom_second (h : n < 64) : a2bFrom 1 left pads (symbol n :: cs) =
    (a2bFrom 2 (n % 16) 0 cs).map (UInt8.ofNat (left * 4 + n / 16) :: ·) := by
  simp [a2bFrom, symbol_ne_padding h, value_symbol h]

theorem a2bFrom_third (h : n < 64) : a2bFrom 2 left pads (symbol n :: cs) =
    (a2bFrom 3 (n % 4) 0 cs).map (UInt8.ofNat (left * 16 + n / 4) :: ·) := by
  simp [a2bFrom, symbol_ne_padding h, value_symbol h]

theorem a2bFrom_fourth (h : n < 64) : a2bFrom 3 left pads (symbol n :: cs) =
    (a2bFrom 0 0 0 cs).map (UInt8.ofNat (left * 64 + n) :: ·) := by
  simp [a2bFrom, symbol_ne_padding h, value_symbol h]

end Places

theorem ofNat_eq {x : UInt8} (h : n = x.toNat) : UInt8.ofNat n = x := by
  rw [h, UInt8.ofNat_toNat]

theorem b64decode_b64encode (a : Bytes) : b64decode (b64encode a) = some a := by
  unfold b64decode
  fun_induction b64encode a with
  | case1 x y z rest ih =>
    have hx := x.toNat_lt
    have hy := y.toNat_lt
    have hz := z.toNat_lt
    rw [a2bFrom_first (by omega), a2bFrom_second (by omega), a2bFrom_third (by omega),
      a2bFrom_fourth (by omega), ih]
    simp only [Option.map_some]
    rw [ofNat_eq (x := x) (by omega), ofNat_eq (x := y) (by omega), ofNat_eq (x := z) (by omega)]
  | case2 x y =>
    have hx := x.toNat_lt
    have hy := y.toNat_lt
    have hend {left : ℕ} : a2bFrom 3 left 0 [padding] = some [] := rfl
    rw [a2bFrom_first (by omega), a2bFrom_second (by omega), a2bFrom_third (by omega), hend]
    simp only [Option.map_some]
    rw [ofNat_eq (x := x) (by omega), ofNat_eq (x := y) (by omega)]
  | case3 x =>
    have hx := x.toNat_lt
    have hend {left : ℕ} : a2bFrom 2 left 0 [padding, padding] = some [] := rfl
    rw [a2bFrom_first (by omega), a2bFrom_second (by omega), hend]
    simp only [Option.map_some]
    rw [ofNat_eq (x := x) (by omega)]
  | case4 => rfl

theorem b64encode_groups (h : a.length % 3 = 0) :
    (b64encode a).length % 4 = 0 ∧ ∀ c ∈ b64encode a, c ≠ padding ∧ c.toNat < 128 := by
  fun_induction b64encode a with
  | case1 x y z rest ih =>
    have hx := x.toNat_lt
    have hy := y.toNat_lt
    have hz := z.toNat_lt
    simp only [List.length_cons] at h
    obtain ⟨hlen, hall⟩ := ih (by omega)
    refine ⟨by simp only [List.length_cons]; omega, ?_⟩
    simp only [List.forall_mem_cons]
    have hsymbol {n : ℕ} (h : n < 64) : symbol n ≠ padding ∧ (symbol n).toNat < 128 :=
      ⟨symbol_ne_padding h, symbol_lt h⟩
    exact ⟨hsymbol (by omega), hsymbol (by omega), hsymbol (by omega), hsymbol (by omega), hall⟩
  | case2 x y => simp at h
  | case3 x => simp at h
  | case4 => simp

def encode (s : Text) : Bytes := s.flatMap String.utf8EncodeChar

/-- `bytes.decode()` of ASCII characters. -/
def decode (a : Bytes) : Text := a.map fun x => Char.ofNat x.toNat

theorem encode_ascii (h : n < 128) : String.utf8EncodeChar (Char.ofNat n) = [UInt8.ofNat n] := by
  decide +revert

theorem encode_decode (h : ∀ x ∈ a, x.toNat < 128) : encode (decode a) = a := by
  induction a with
  | nil => rfl
  | cons x a ih =>
    rw [List.forall_mem_cons] at h
    have htail := ih h.2
    simp only [encode, decode, List.map_cons, List.flatMap_cons] at *
    rw [encode_ascii h.1, UInt8.ofNat_toNat, htail]
    rfl

/-- `rstrip` of the padding, which a text without it does not have. -/
def rstripPadding (a : Bytes) : Bytes := (a.reverse.dropWhile (· == padding)).reverse

theorem rstripPadding_eq (h : ∀ c ∈ a, c ≠ padding) : rstripPadding a = a := by
  unfold rstripPadding
  rcases a.eq_nil_or_concat with rfl | ⟨init, last, rfl⟩
  · rfl
  · have hlast : last ≠ padding := h last (by simp)
    simp [hlast]

end Bytes
end SippyB2bua.Lib
