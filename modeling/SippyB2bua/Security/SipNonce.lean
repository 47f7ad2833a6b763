import SippyB2bua.Lib.Bytes

/-!
# The challenge oracle

A challenge is the time it was emitted at and the flags of the digest algorithms it is for,
masked with a random block, encrypted and authenticated. The oracle keeps no record of the
challenges: it validates one by what it decrypts to. The block cipher and the hash functions
are parameters, with what the oracle relies on as a property of them.
-/

namespace SippyB2bua.Security

open Lib Lib.Bytes

inductive Exn
  | valueError | overflowError | keyError | attributeError
  deriving DecidableEq, Repr

inductive HashFunc
  | md5 | sha256 | sha512_256
  deriving DecidableEq

structure Primitives where
  aesEncrypt : (key block : Bytes) → Bytes
  aesDecrypt : (key block : Bytes) → Bytes
  hmacSha256 : (key data : Bytes) → Bytes
  hexdigest : HashFunc → Bytes → Text

def aesBlockSize : ℕ := 16
def macSize : ℕ := 16

/-- The cipher permutes the blocks, and the code of a message has 32 bytes. -/
structure Primitives.Lawful (p : Primitives) : Prop where
  encrypt_length {key block : Bytes} :
    block.length = aesBlockSize → (p.aesEncrypt key block).length = aesBlockSize
  decrypt_encrypt {key block : Bytes} :
    block.length = aesBlockSize → p.aesDecrypt key (p.aesEncrypt key block) = block
  hmac_length {key data : Bytes} : (p.hmacSha256 key data).length = 32

def bxor (ba1 ba2 : Bytes) : Except Exn Bytes := (xorBE ba1 ba2).elim (.error .overflowError) .ok

def toBytesBE (n len : ℕ) : Except Exn Bytes := (toBE n len).elim (.error .overflowError) .ok

def ecbFrom (f : Bytes → Bytes) : ℕ → Bytes → Bytes
  | 0, _ => []
  | n + 1, data => f (data.take aesBlockSize) ++ ecbFrom f n (data.drop aesBlockSize)

def ecb (f : Bytes → Bytes) (data : Bytes) : Except Exn Bytes :=
  if data.length % aesBlockSize = 0 then .ok (ecbFrom f (data.length / aesBlockSize) data)
  else .error .valueError

structure AESCipher where
  cipher : Bytes
  macKey : Bytes

def AESCipher.init (key : Bytes) : AESCipher where
  cipher := key.take (aesBlockSize * 2)
  macKey := key.drop (aesBlockSize * 2)

variable (p : Primitives)

def AESCipher.mac (c : AESCipher) (data : Bytes) : Bytes := (p.hmacSha256 c.macKey data).take macSize

/-- `iv` is what `token_bytes` returns. -/
def AESCipher.encrypt (c : AESCipher) (iv raw : Bytes) : Except Exn Bytes := do
  let raw ← bxor raw iv
  let eraw ← ecb (p.aesEncrypt c.cipher) (iv ++ raw)
  return rstripPadding (b64encode (eraw ++ c.mac p eraw))

def AESCipher.decrypt (c : AESCipher) (enc : Bytes) : Except Exn Bytes := do
  let pad := List.replicate ((4 - enc.length % 4) % 4) padding
  let enc ← (b64decode (enc ++ pad)).elim (.error .valueError) .ok
  let data := enc.take (enc.length - macSize)
  let tag := enc.drop (enc.length - macSize)
  if c.mac p data ≠ tag then .error .valueError
  let raw ← ecb (p.aesDecrypt c.cipher) data
  bxor (raw.drop aesBlockSize) (raw.take aesBlockSize)

def dgstMd5 : ℕ := 1 <<< 0
def dgstMd5Sess : ℕ := 1 <<< 1
def dgstSha256 : ℕ := 1 <<< 2
def dgstSha256Sess : ℕ := 1 <<< 3
def dgstSha512 : ℕ := 1 <<< 4
def dgstSha512Sess : ℕ := 1 <<< 5

def dgstPrios : List ℕ :=
  [dgstSha512, dgstSha512Sess, dgstSha256, dgstSha256Sess, dgstMd5, dgstMd5Sess]

/-- The key is one for all oracles of the process. -/
structure HashOracle where
  key : Bytes

def vtime : ℕ := 32 * 10 ^ 9

namespace HashOracle

variable (o : HashOracle)

def ac : AESCipher := .init o.key

def emitChallenge (now : ℕ) (iv : Bytes) (cmask : List ℕ) : Except Exn Text := do
  let ts128 := cmask.foldl (· ||| ·) (now <<< dgstPrios.length)
  let raw ← toBytesBE ts128 aesBlockSize
  let cryptic ← o.ac.encrypt p iv raw
  return decode cryptic

def validateChallenge (now : ℕ) (cryptic : Text) (cmask : List ℕ) : Except Exn Bool :=
  match o.ac.decrypt p (encode cryptic) with
  | .error .valueError => .ok false
  | .error e => .error e
  | .ok raw =>
    let decryptic := fromBE raw
    if cmask.any fun ms => ms &&& decryptic == 0 then .ok false
    else
      let origTs := decryptic >>> dgstPrios.length
      let tsdiff : ℤ := now - origTs
      .ok (!(tsdiff < 0 || tsdiff > vtime))

end HashOracle

section Cipher

variable {p}
variable {c : AESCipher} {f g : Bytes → Bytes} {iv raw b : Bytes}

theorem ecb_two (hiv : iv.length = aesBlockSize) (hb : b.length = aesBlockSize) :
    ecb f (iv ++ b) = .ok (f iv ++ f b) := by
  have hlen : (iv ++ b).length = 32 := by
    rw [List.length_append, hiv, hb]
    rfl
  have hfirst : (iv ++ b).take aesBlockSize = iv := List.take_left' hiv
  have hrest : (iv ++ b).drop aesBlockSize = b := List.drop_left' hiv
  have hsecond : b.take aesBlockSize = b := List.take_of_length_le (by rw [hb])
  rw [ecb, hlen, if_pos (by decide)]
  have hblocks : 32 / aesBlockSize = 2 := rfl
  rw [hblocks, ecbFrom, ecbFrom, ecbFrom, hfirst, hrest, hsecond, List.append_nil]

theorem mac_length (hp : p.Lawful) (data : Bytes) : (c.mac p data).length = macSize := by
  rw [AESCipher.mac, List.length_take, hp.hmac_length]
  rfl

theorem decrypt_encrypt (hp : p.Lawful) (hiv : iv.length = aesBlockSize)
    (hraw : raw.length = aesBlockSize) :
    ∃ enc, c.encrypt p iv raw = .ok enc ∧ c.decrypt p enc = .ok raw ∧ ∀ x ∈ enc, x.toNat < 128 := by
  obtain ⟨b, hmask, hlen, hunmask⟩ := xorBE_xorBE (hraw.trans hiv.symm)
  have hb : b.length = aesBlockSize := hlen.trans hraw
  have hiv' : (p.aesEncrypt c.cipher iv).length = aesBlockSize := hp.encrypt_length hiv
  have hb' : (p.aesEncrypt c.cipher b).length = aesBlockSize := hp.encrypt_length hb
  generalize hdata : p.aesEncrypt c.cipher iv ++ p.aesEncrypt c.cipher b = data
  have hdlen : data.length = 32 := by
    rw [← hdata, List.length_append, hiv', hb']
    rfl
  have htlen := mac_length (c := c) hp data
  have hall : (data ++ c.mac p data).length = 48 := by
    rw [List.length_append, hdlen, htlen]
    rfl
  obtain ⟨hgroups, hsymbols⟩ := b64encode_groups (a := data ++ c.mac p data) (by rw [hall])
  have hstrip : rstripPadding (b64encode (data ++ c.mac p data)) = b64encode (data ++ c.mac p data) :=
    rstripPadding_eq fun x hx => (hsymbols x hx).1
  refine ⟨_, ?_, ?_, fun x hx => (hsymbols x hx).2⟩
  · rw [AESCipher.encrypt, bxor, hmask]
    simp only [Option.elim_some, bind, Except.bind, ecb_two hiv hb, hdata, hstrip]
    rfl
  · have htake : (data ++ c.mac p data).take ((data ++ c.mac p data).length - macSize) = data := by
      rw [hall]
      exact List.take_left' hdlen
    have hdrop : (data ++ c.mac p data).drop ((data ++ c.mac p data).length - macSize) = c.mac p data := by
      rw [hall]
      exact List.drop_left' hdlen
    have hplain : ecb (p.aesDecrypt c.cipher) data = .ok (iv ++ b) := by
      rw [← hdata, ecb_two hiv' hb', hp.decrypt_encrypt hiv, hp.decrypt_encrypt hb]
    have hrest : (iv ++ b).drop aesBlockSize = b := List.drop_left' hiv
    have hfirst : (iv ++ b).take aesBlockSize = iv := List.take_left' hiv
    rw [AESCipher.decrypt, hgroups]
    simp only [Nat.sub_zero, Nat.mod_self, List.replicate_zero, List.append_nil, b64decode_b64encode,
      Option.elim_some, bind, Except.bind, htake, hdrop, ne_eq, not_true_eq_false, if_false, hplain,
      hrest, hfirst, bxor, hunmask]

end Cipher

section Stamp

variable {t ms : ℕ} {cmask : List ℕ}

theorem flag_bit (h : ms ∈ dgstPrios) : ∃ k < dgstPrios.length, ms = 2 ^ k := by
  revert ms
  decide

theorem testBit_stamp {k : ℕ} (n : ℕ) :
    (cmask.foldl (· ||| ·) n).testBit k = (n.testBit k || cmask.any fun ms => ms.testBit k) := by
  induction cmask generalizing n with
  | nil => simp
  | cons ms cmask ih => simp [ih, Nat.testBit_or, Bool.or_assoc]

theorem stamp_flag (hM : cmask ⊆ dgstPrios) (h : ms ∈ dgstPrios) :
    ms &&& cmask.foldl (· ||| ·) (t <<< dgstPrios.length) = 0 ↔ ms ∉ cmask := by
  obtain ⟨k, hk, rfl⟩ := flag_bit h
  rw [Nat.two_pow_and, testBit_stamp, Nat.testBit_shiftLeft]
  have hmem : (cmask.any fun ms => ms.testBit k) = true ↔ 2 ^ k ∈ cmask := by
    rw [List.any_eq_true]
    constructor
    · rintro ⟨ms, hms, hbit⟩
      obtain ⟨j, _, rfl⟩ := flag_bit (hM hms)
      rw [Nat.testBit_two_pow, decide_eq_true_eq] at hbit
      rwa [← hbit]
    · exact fun hms => ⟨_, hms, Nat.testBit_two_pow_self⟩
  simp [Nat.not_le.2 hk, ← hmem]

theorem stamp_time (hM : cmask ⊆ dgstPrios) :
    cmask.foldl (· ||| ·) (t <<< dgstPrios.length) >>> dgstPrios.length = t := by
  apply Nat.eq_of_testBit_eq
  intro k
  rw [Nat.testBit_shiftRight, testBit_stamp, Nat.testBit_shiftLeft]
  have hnone : (cmask.any fun ms => ms.testBit (dgstPrios.length + k)) = false := by
    rw [List.any_eq_false]
    intro ms hms
    obtain ⟨j, hj, rfl⟩ := flag_bit (hM hms)
    rw [Nat.testBit_two_pow, decide_eq_true_eq]
    omega
  simp [hnone]

theorem flags_lt {n : ℕ} (hM : cmask ⊆ dgstPrios) (hn : n < 2 ^ 128) :
    cmask.foldl (· ||| ·) n < 2 ^ 128 := by
  induction cmask generalizing n with
  | nil => exact hn
  | cons ms cmask ih =>
    rw [List.cons_subset] at hM
    obtain ⟨k, hk, rfl⟩ := flag_bit hM.1
    have hflag : 2 ^ k < 2 ^ 128 := Nat.pow_lt_pow_right (by decide) (hk.trans (by decide))
    exact ih hM.2 (Nat.or_lt_two_pow hn hflag)

theorem stamp_lt (hM : cmask ⊆ dgstPrios) (ht : t < 2 ^ 64) :
    cmask.foldl (· ||| ·) (t <<< dgstPrios.length) < 256 ^ aesBlockSize := by
  have hshift : t <<< dgstPrios.length < 2 ^ 128 := by
    rw [Nat.shiftLeft_eq]
    simp only [dgstPrios, List.length_cons, List.length_nil]
    omega
  exact flags_lt hM hshift

end Stamp

section Oracle

variable {p}
variable {o : HashOracle} {t : ℕ} {iv : Bytes} {M : List ℕ}

/-- The flags are asked for in a challenge that has them, and it is not older than it may be. -/
def Valid (t now : ℕ) (M C : List ℕ) : Prop := C ⊆ M ∧ t ≤ now ∧ now - t ≤ vtime

instance (now : ℕ) (C : List ℕ) : Decidable (Valid t now M C) := inferInstanceAs (Decidable (_ ∧ _))

theorem window {now v : ℕ} :
    (!(decide ((now : ℤ) - t < 0) || decide ((now : ℤ) - t > v))) = decide (t ≤ now ∧ now - t ≤ v) := by
  rw [Bool.eq_iff_iff]
  simp only [Bool.not_eq_true', Bool.or_eq_false_iff, decide_eq_false_iff_not, decide_eq_true_eq]
  omega

theorem emitChallenge_valid (hp : p.Lawful) (hM : M ⊆ dgstPrios) (hiv : iv.length = aesBlockSize)
    (ht : t < 2 ^ 64) :
    ∃ nonce, o.emitChallenge p t iv M = .ok nonce ∧
      ∀ C ⊆ dgstPrios, ∀ now, o.validateChallenge p now nonce C = .ok (decide (Valid t now M C)) := by
  have hlt := stamp_lt hM ht
  have hflag {ms : ℕ} (h : ms ∈ dgstPrios) := stamp_flag (t := t) hM h
  have htime := stamp_time (t := t) hM
  generalize hstamp : M.foldl (· ||| ·) (t <<< dgstPrios.length) = stamp at hlt hflag htime
  have hraw : toBytesBE stamp aesBlockSize = .ok (digitsBE stamp aesBlockSize) := by
    rw [toBytesBE, toBE, if_pos hlt]
    rfl
  obtain ⟨enc, henc, hdec, hascii⟩ := decrypt_encrypt (c := o.ac) hp hiv (digitsBE_length stamp _)
  refine ⟨decode enc, ?_, fun C hC now => ?_⟩
  · rw [HashOracle.emitChallenge, hstamp, hraw]
    simp only [bind, Except.bind, henc]
    rfl
  · have hflags : (C.any fun ms => ms &&& stamp == 0) = true ↔ ¬ C ⊆ M := by
      rw [List.any_eq_true]
      constructor
      · rintro ⟨ms, hms, hzero⟩ hsub
        rw [beq_iff_eq, hflag (hC hms)] at hzero
        exact hzero (hsub hms)
      · intro hsub
        obtain ⟨ms, hms, hnot⟩ : ∃ ms ∈ C, ms ∉ M := by
          simpa [List.subset_def] using hsub
        exact ⟨ms, hms, by rwa [beq_iff_eq, hflag (hC hms)]⟩
    rw [HashOracle.validateChallenge, encode_decode hascii, hdec]
    simp only [fromBE_digitsBE hlt, htime]
    by_cases hsub : C ⊆ M
    · have hin : ¬ (C.any fun ms => ms &&& stamp == 0) = true := by rwa [hflags, not_not]
      rw [if_neg hin, window]
      simp only [Valid, hsub, true_and]
    · rw [if_pos (hflags.2 hsub)]
      simp [Valid, hsub]

end Oracle

end SippyB2bua.Security
