import Mathlib.Data.List.TakeWhile
import SippyB2bua.Lib.Bytes
import SippyB2bua.SipURL

/-!
# Percent escapes

`urllib.parse.quote` writes every byte of the UTF-8 text as an escape that is not a safe
character. `unquote` gives the text back, whatever is safe, as long as the percent sign is not.
-/

namespace SippyB2bua.SipURL
open Lib (Text)
open Lib.Bytes (encode)

/-- The characters that `quote` never escapes. -/
def alwaysSafe (c : Char) : Bool := c.isAlphanum || c = '_' || c = '.' || c = '-' || c = '~'

def hexChar (n : ℕ) : Char := Char.ofNat (if n < 10 then 48 + n else 55 + n)

def quoteByte (safe : Text) (b : UInt8) : Text :=
  let c := Char.ofNat b.toNat
  if b.toNat < 128 ∧ (alwaysSafe c = true ∨ c ∈ safe) then [c]
  else ['%', hexChar (b.toNat / 16), hexChar (b.toNat % 16)]

def quote (safe : Text) (s : Text) : Text := (encode s).flatMap (quoteByte safe)

def rfc3261UserUnreserved : Text := "&=+$,;?/#".toList
def rfc3261Mark : Text := "-_.!~*'()".toList
def usernameSafe : Text := rfc3261UserUnreserved ++ rfc3261Mark

variable {safe s t : Text} {c : Char}

theorem hexDigit_hexChar {n : ℕ} (h : n < 16) : hexDigit (hexChar n) = some n := by
  have hall : ∀ n < 16, hexDigit (hexChar n) = some n := by decide
  exact hall n h

theorem hexByte_hexChar {b : ℕ} (h : b < 256) : hexByte (hexChar (b / 16)) (hexChar (b % 16)) = some b := by
  have hhigh : b / 16 < 16 := by omega
  have hlow : b % 16 < 16 := by omega
  simp only [hexByte, hexDigit_hexChar hhigh, hexDigit_hexChar hlow, Option.pure_def,
    Option.bind_eq_bind, Option.bind_some, Option.some.injEq]
  omega

theorem unquoteToBytes_cons (h : c ≠ '%') (s : Text) :
    unquoteToBytes (c :: s) = c.toNat :: unquoteToBytes s := by
  rw [unquoteToBytes.eq_2]
  exact fun _ _ _ heq => absurd heq h

theorem toNat_ofByte {n : ℕ} (h : n < 128) : (Char.ofNat n).toNat = n := by
  have hall : ∀ n < 128, (Char.ofNat n).toNat = n := by decide
  exact hall n h

theorem unquoteToBytes_quoteByte (h : '%' ∉ safe) (b : UInt8) (s : Text) :
    unquoteToBytes (quoteByte safe b ++ s) = b.toNat :: unquoteToBytes s := by
  unfold quoteByte
  dsimp only
  split
  · rename_i hsafe
    have hne : Char.ofNat b.toNat ≠ '%' := by
      intro heq
      rw [heq] at hsafe
      rcases hsafe.2 with halways | hmem
      · exact absurd halways (by decide)
      · exact h hmem
    rw [List.singleton_append, unquoteToBytes_cons hne, toNat_ofByte hsafe.1]
  · have hb : b.toNat < 256 := b.toNat_lt
    simp only [List.cons_append, List.nil_append]
    rw [unquoteToBytes, hexByte_hexChar hb]

theorem unquoteToBytes_flatMap (h : '%' ∉ safe) (bs : List UInt8) :
    unquoteToBytes (bs.flatMap (quoteByte safe)) = bs.map UInt8.toNat := by
  induction bs with
  | nil => rfl
  | cons b bs ih => rw [List.flatMap_cons, unquoteToBytes_quoteByte h, ih, List.map_cons]

section Decode
variable {v b : ℕ} {bs : List ℕ} {ranges : List (ℕ × ℕ)}

theorem decode_step {more : List ℕ} (hfollows : follows b = some ranges)
    (htake : takeFollowing ranges (more ++ bs) = (more, bs)) (hlen : more.length = ranges.length)
    (hbits : more.foldl (fun n b => 64 * n + b % 64) (leadBits b ranges.length) = v) (fuel : ℕ) :
    decode (fuel + 1) (b :: (more ++ bs)) = Char.ofNat v :: decode fuel bs := by
  rw [decode, hfollows]
  dsimp only
  rw [htake]
  dsimp only
  rw [if_pos hlen, hbits]

theorem takeFollowing_nil (bs : List ℕ) : takeFollowing [] ([] ++ bs) = ([], bs) := by
  simp [takeFollowing]

theorem decode_one (h : v ≤ 0x7F) (fuel : ℕ) (bs : List ℕ) :
    decode (fuel + 1) (v :: bs) = Char.ofNat v :: decode fuel bs := by
  have hfollows : follows v = some [] := by
    rw [follows, if_pos (by omega)]
  exact decode_step hfollows (takeFollowing_nil bs) rfl rfl fuel

theorem takeFollowing_cons (lo hi b : ℕ) {more : List ℕ} (hlo : lo ≤ b) (hhi : b ≤ hi)
    (h : takeFollowing ranges (more ++ bs) = (more, bs)) :
    takeFollowing ((lo, hi) :: ranges) ((b :: more) ++ bs) = (b :: more, bs) := by
  rw [List.cons_append, takeFollowing, if_pos ⟨hlo, hhi⟩, h]

theorem decode_two (hlow : 0x7F < v) (hhigh : v ≤ 0x7FF) (fuel : ℕ) (bs : List ℕ) :
    decode (fuel + 1) ((v / 64 % 0x20 + 0xC0) :: (v % 64 + 0x80) :: bs) =
      Char.ofNat v :: decode fuel bs := by
  have hfollows : follows (v / 64 % 0x20 + 0xC0) = some [(0x80, 0xBF)] := by
    rw [follows, if_neg (by omega), if_pos (by omega)]
  have htake := takeFollowing_cons 0x80 0xBF (v % 64 + 0x80) (by omega) (by omega)
    (takeFollowing_nil bs)
  refine decode_step hfollows htake rfl ?_ fuel
  simp only [List.foldl_cons, List.foldl_nil, leadBits, List.length_singleton]
  omega

theorem decode_three (hlow : 0x7FF < v) (hhigh : v ≤ 0xFFFF) (hvalid : v < 0xD800 ∨ 0xDFFF < v) (fuel : ℕ)
    (bs : List ℕ) : decode (fuel + 1) ((v / 4096 % 0x10 + 0xE0) :: (v / 64 % 64 + 0x80) :: (v % 64 + 0x80) ::
      bs) = Char.ofNat v :: decode fuel bs := by
  have hlast := takeFollowing_cons 0x80 0xBF (v % 64 + 0x80) (by omega) (by omega)
    (takeFollowing_nil bs)
  have hbits : [v / 64 % 64 + 0x80, v % 64 + 0x80].foldl (fun n b => 64 * n + b % 64)
      (leadBits (v / 4096 % 0x10 + 0xE0) 2) = v := by
    simp only [List.foldl_cons, List.foldl_nil, leadBits]
    omega
  by_cases hE0 : v / 4096 % 0x10 = 0
  · have hfollows : follows (v / 4096 % 0x10 + 0xE0) = some [(0xA0, 0xBF), (0x80, 0xBF)] := by
      rw [follows, if_neg (by omega), if_neg (by omega), if_pos (by omega)]
    exact decode_step hfollows (takeFollowing_cons _ _ _ (by omega) (by omega) hlast) rfl hbits fuel
  · by_cases hED : v / 4096 % 0x10 = 13
    · have hfollows : follows (v / 4096 % 0x10 + 0xE0) = some [(0x80, 0x9F), (0x80, 0xBF)] := by
        rw [follows, if_neg (by omega), if_neg (by omega), if_neg (by omega), if_pos (by omega)]
      exact decode_step hfollows (takeFollowing_cons _ _ _ (by omega) (by omega) hlast) rfl hbits fuel
    · have hfollows : follows (v / 4096 % 0x10 + 0xE0) = some [(0x80, 0xBF), (0x80, 0xBF)] := by
        rw [follows, if_neg (by omega), if_neg (by omega), if_neg (by omega), if_neg (by omega),
          if_pos (by omega)]
      exact decode_step hfollows (takeFollowing_cons _ _ _ (by omega) (by omega) hlast) rfl hbits fuel

theorem decode_four (hlow : 0xFFFF < v) (hhigh : v < 0x110000) (fuel : ℕ) (bs : List ℕ) :
    decode (fuel + 1) ((v / 262144 % 0x08 + 0xF0) :: (v / 4096 % 64 + 0x80) :: (v / 64 % 64 + 0x80) ::
      (v % 64 + 0x80) :: bs) = Char.ofNat v :: decode fuel bs := by
  have hlast := takeFollowing_cons 0x80 0xBF (v / 64 % 64 + 0x80) (by omega) (by omega)
    (takeFollowing_cons 0x80 0xBF (v % 64 + 0x80) (by omega) (by omega)
      (takeFollowing_nil bs))
  have hbits : [v / 4096 % 64 + 0x80, v / 64 % 64 + 0x80, v % 64 + 0x80].foldl (fun n b => 64 * n + b % 64)
      (leadBits (v / 262144 % 0x08 + 0xF0) 3) = v := by
    simp only [List.foldl_cons, List.foldl_nil, leadBits]
    omega
  by_cases hF0 : v / 262144 % 0x08 = 0
  · have hfollows : follows (v / 262144 % 0x08 + 0xF0) =
        some [(0x90, 0xBF), (0x80, 0xBF), (0x80, 0xBF)] := by
      rw [follows, if_neg (by omega), if_neg (by omega), if_neg (by omega), if_neg (by omega),
        if_neg (by omega), if_pos (by omega)]
    exact decode_step hfollows (takeFollowing_cons _ _ _ (by omega) (by omega) hlast) rfl hbits fuel
  · by_cases hF4 : v / 262144 % 0x08 = 4
    · have hfollows : follows (v / 262144 % 0x08 + 0xF0) =
          some [(0x80, 0x8F), (0x80, 0xBF), (0x80, 0xBF)] := by
        rw [follows, if_neg (by omega), if_neg (by omega), if_neg (by omega), if_neg (by omega),
          if_neg (by omega), if_neg (by omega), if_neg (by omega), if_pos (by omega)]
      exact decode_step hfollows (takeFollowing_cons _ _ _ (by omega) (by omega) hlast) rfl hbits fuel
    · have hfollows : follows (v / 262144 % 0x08 + 0xF0) =
          some [(0x80, 0xBF), (0x80, 0xBF), (0x80, 0xBF)] := by
        rw [follows, if_neg (by omega), if_neg (by omega), if_neg (by omega), if_neg (by omega),
          if_neg (by omega), if_neg (by omega), if_pos (by omega)]
      exact decode_step hfollows (takeFollowing_cons _ _ _ (by omega) (by omega) hlast) rfl hbits fuel

end Decode

theorem decode_char (c : Char) (fuel : ℕ) (bs : List ℕ) :
    decode (fuel + 1) ((String.utf8EncodeChar c).map UInt8.toNat ++ bs) = c :: decode fuel bs := by
  have hvalid : c.toNat < 0xD800 ∨ 0xDFFF < c.toNat ∧ c.toNat < 0x110000 := c.valid
  have hc : Char.ofNat c.toNat = c := Char.ofNat_toNat c
  have hbyte {n : ℕ} (h : n < 256) : (UInt8.ofNat n).toNat = n := by
    rw [UInt8.toNat_ofNat']
    omega
  have hval : c.val.toNat = c.toNat := rfl
  unfold String.utf8EncodeChar
  dsimp only
  rw [hval]
  split
  · rename_i h
    have hone := decode_one h fuel bs
    rw [hc] at hone
    rw [List.map_singleton, hbyte (by omega)]
    exact hone
  · rename_i h₁
    split
    · rename_i h₂
      have htwo := decode_two (by omega) h₂ fuel bs
      rw [hc] at htwo
      simp only [List.map_cons, List.map_nil]
      rw [hbyte (by omega), hbyte (by omega)]
      exact htwo
    · rename_i h₂
      split
      · rename_i h₃
        have hthree := decode_three (by omega) h₃ (by omega) fuel bs
        rw [hc] at hthree
        simp only [List.map_cons, List.map_nil]
        rw [hbyte (by omega), hbyte (by omega), hbyte (by omega)]
        exact hthree
      · rename_i h₃
        have hfour := decode_four (v := c.toNat) (by omega) (by omega) fuel bs
        rw [hc] at hfour
        simp only [List.map_cons, List.map_nil]
        rw [hbyte (by omega), hbyte (by omega), hbyte (by omega), hbyte (by omega)]
        exact hfour

theorem decode_encode (s : Text) {fuel : ℕ} (h : s.length ≤ fuel) :
    decode fuel ((encode s).map UInt8.toNat) = s := by
  induction s generalizing fuel with
  | nil => cases fuel <;> rfl
  | cons c s ih =>
    cases fuel with
    | zero => simp at h
    | succ fuel =>
      have hs : s.length ≤ fuel := by simpa using h
      rw [encode, List.flatMap_cons, List.map_append, decode_char]
      exact congrArg (c :: ·) (ih hs)

theorem encode_length (s : Text) : s.length ≤ (encode s).length := by
  induction s with
  | nil => exact Nat.le_refl 0
  | cons c s ih =>
    have hone : 0 < (String.utf8EncodeChar c).length := by
      rw [String.length_utf8EncodeChar]
      exact Char.utf8Size_pos c
    rw [encode, List.flatMap_cons, List.length_append, List.length_cons]
    change s.length + 1 ≤ _ + (encode s).length
    omega

theorem mem_utf8EncodeChar {b : UInt8} (h : b ∈ String.utf8EncodeChar c) (hb : b.toNat < 128) :
    b.toNat = c.toNat := by
  have hval : c.val.toNat = c.toNat := rfl
  have hbig {n : ℕ} (hn : 128 ≤ n) (hn' : n < 256) (hmem : b = UInt8.ofNat n) : False := by
    rw [hmem, UInt8.toNat_ofNat'] at hb
    omega
  have hvalid : c.toNat < 0xD800 ∨ 0xDFFF < c.toNat ∧ c.toNat < 0x110000 := c.valid
  unfold String.utf8EncodeChar at h
  dsimp only at h
  rw [hval] at h
  split at h
  · rw [List.mem_singleton.mp h, UInt8.toNat_ofNat']
    omega
  · exfalso
    split at h
    · rcases List.mem_cons.mp h with h | h
      · exact hbig (by omega) (by omega) h
      · exact hbig (by omega) (by omega) (List.mem_singleton.mp h)
    · split at h
      · rcases List.mem_cons.mp h with h | h
        · exact hbig (by omega) (by omega) h
        rcases List.mem_cons.mp h with h | h
        · exact hbig (by omega) (by omega) h
        · exact hbig (by omega) (by omega) (List.mem_singleton.mp h)
      · rcases List.mem_cons.mp h with h | h
        · exact hbig (by omega) (by omega) h
        rcases List.mem_cons.mp h with h | h
        · exact hbig (by omega) (by omega) h
        rcases List.mem_cons.mp h with h | h
        · exact hbig (by omega) (by omega) h
        · exact hbig (by omega) (by omega) (List.mem_singleton.mp h)

theorem alwaysSafe_hexChar {n : ℕ} (h : n < 16) : alwaysSafe (hexChar n) = true := by
  have hall : ∀ n < 16, alwaysSafe (hexChar n) = true := by decide
  exact hall n h

theorem mem_quoteByte {b : UInt8} (h : c ∈ quoteByte safe b) :
    (c = Char.ofNat b.toNat ∧ b.toNat < 128 ∧ (alwaysSafe c = true ∨ c ∈ safe)) ∨
      c = '%' ∨ ∃ n < 16, c = hexChar n := by
  have hb : b.toNat < 256 := b.toNat_lt
  unfold quoteByte at h
  dsimp only at h
  split at h
  · rename_i hsafe
    rw [List.mem_singleton.mp h]
    exact .inl ⟨rfl, hsafe⟩
  · simp only [List.mem_cons, List.not_mem_nil, or_false] at h
    rcases h with h | h | h
    · exact .inr (.inl h)
    · exact .inr (.inr ⟨b.toNat / 16, by omega, h⟩)
    · exact .inr (.inr ⟨b.toNat % 16, by omega, h⟩)

theorem isASCII_quote (safe s : Text) : ∀ c ∈ quote safe s, isASCII c = true := by
  intro c hc
  obtain ⟨b, -, hc⟩ := List.mem_flatMap.mp hc
  rcases mem_quoteByte hc with ⟨rfl, hb, -⟩ | rfl | ⟨n, hn, rfl⟩
  · simp [isASCII, toNat_ofByte hb, hb]
  · decide
  · have hall : ∀ n < 16, isASCII (hexChar n) = true := by decide
    exact hall n hn

theorem unquote_quote (h : '%' ∉ safe) (s : Text) : unquote (quote safe s) = s := by
  have hbytes : unquoteToBytes (quote safe s) = (encode s).map UInt8.toNat :=
    unquoteToBytes_flatMap h (encode s)
  have hascii := isASCII_quote safe s
  have hlen : s.length ≤ ((encode s).map UInt8.toNat).length := by
    rw [List.length_map]
    exact encode_length s
  cases hq : quote safe s with
  | nil =>
    rw [hq] at hbytes
    rw [← hbytes] at hlen
    rw [List.eq_nil_of_length_eq_zero (Nat.le_zero.mp hlen)]
    rfl
  | cons c cs =>
    rw [hq] at hbytes hascii
    have htake : (c :: cs).takeWhile isASCII = c :: cs := List.takeWhile_eq_self_iff.mpr hascii
    have hdrop : (c :: cs).dropWhile isASCII = [] := List.dropWhile_eq_nil_iff.mpr hascii
    have hnil (fuel : ℕ) : unquoteRuns fuel [] = [] := by cases fuel <;> rfl
    rw [unquote, List.length_cons, unquoteRuns, if_pos (hascii c List.mem_cons_self), htake, hdrop, hbytes]
    dsimp only
    rw [hnil, List.append_nil, decode_encode s hlen]

theorem quote_append (safe s t : Text) : quote safe (s ++ t) = quote safe s ++ quote safe t := by
  simp [quote, encode]

theorem quote_safe (hascii : c.toNat < 128) (h : c ∈ safe) : quote safe [c] = [c] := by
  have hencode : encode [c] = [UInt8.ofNat c.toNat] := by
    have hone := Lib.Bytes.encode_ascii hascii
    rw [Char.ofNat_toNat] at hone
    rw [encode, List.flatMap_singleton, hone]
  have hbyte : (UInt8.ofNat c.toNat).toNat = c.toNat := by
    rw [UInt8.toNat_ofNat']
    omega
  rw [quote, hencode, List.flatMap_singleton, quoteByte]
  rw [hbyte, Char.ofNat_toNat, if_pos ⟨hascii, .inr h⟩]

theorem mem_quote (hascii : c.toNat < 128) (hsafe : c ∈ safe) (h : c ∈ s) : c ∈ quote safe s := by
  obtain ⟨a, b, rfl⟩ := List.append_of_mem h
  have heq : a ++ c :: b = a ++ ([c] ++ b) := rfl
  rw [heq, quote_append, quote_append, quote_safe hascii hsafe]
  simp

theorem not_mem_quote (halways : alwaysSafe c = false) (hpercent : c ≠ '%') (hsafe : c ∉ safe) (s : Text) :
    c ∉ quote safe s := by
  intro hc
  obtain ⟨b, -, hc⟩ := List.mem_flatMap.mp hc
  rcases mem_quoteByte hc with ⟨-, -, h | h⟩ | h | ⟨n, hn, rfl⟩
  · exact absurd (halways.symm.trans h) (by simp)
  · exact hsafe h
  · exact hpercent h
  · exact absurd (halways.symm.trans (alwaysSafe_hexChar hn)) (by simp)

theorem mem_of_mem_quote (halways : alwaysSafe c = false) (hpercent : c ≠ '%') (h : c ∈ quote safe s) :
    c ∈ s := by
  obtain ⟨b, hb, hc⟩ := List.mem_flatMap.mp h
  obtain ⟨d, hd, hb⟩ := List.mem_flatMap.mp hb
  rcases mem_quoteByte hc with ⟨rfl, hlt, -⟩ | h | ⟨n, hn, rfl⟩
  · rw [mem_utf8EncodeChar hb hlt, Char.ofNat_toNat]
    exact hd
  · exact absurd h hpercent
  · exact absurd (halways.symm.trans (alwaysSafe_hexChar hn)) (by simp)

end SippyB2bua.SipURL
