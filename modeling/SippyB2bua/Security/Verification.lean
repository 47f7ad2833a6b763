import Mathlib.Data.Fintype.EquivFin
import SippyB2bua.Lib.Fallible
import SippyB2bua.Security.DigestHeaders

/-!
# What can be verified

`verify` computes the first hash before it looks at the algorithm and at what the header has,
and every attribute is encoded as it comes. It returns an answer exactly where the header has
what these steps need, and where it does not return, the exception reaches the caller.
-/

namespace SippyB2bua.Security
open Lib Lib.Bytes

variable {p : Primitives} {o : HashOracle} {now flag : ℕ} {f : HashFunc} {auth : SipAuthorization}
variable {text nonce password method : Text} {body : Option Text}

section Nonces

abbrev Block := { b : Bytes // b.length = aesBlockSize }

instance : Finite Block := by
  have hinj : Function.Injective fun b : Block =>
      (⟨fromBE b.1, (fromBE_lt b.1).trans_eq (by rw [b.2])⟩ : Fin (256 ^ aesBlockSize)) := by
    intro a b h
    apply Subtype.ext
    rw [← digitsBE_fromBE a.1, ← digitsBE_fromBE b.1, a.2, b.2, Fin.mk.inj h]
  exact Finite.of_injective _ hinj

theorem decrypt_length (hp : p.Lawful) {key block : Bytes} (h : block.length = aesBlockSize) :
    (p.aesDecrypt key block).length = aesBlockSize := by
  let encrypt : Block → Block := fun b => ⟨p.aesEncrypt key b.1, hp.encrypt_length b.2⟩
  have hinj : Function.Injective encrypt := by
    intro a b hab
    apply Subtype.ext
    have heq : p.aesEncrypt key a.1 = p.aesEncrypt key b.1 := congrArg Subtype.val hab
    have ha : p.aesDecrypt key (p.aesEncrypt key a.1) = a.1 := hp.decrypt_encrypt a.2
    rw [← ha, heq, hp.decrypt_encrypt b.2]
  obtain ⟨b, hb⟩ := (Finite.injective_iff_surjective.mp hinj) ⟨block, h⟩
  have heq : p.aesEncrypt key b.1 = block := congrArg Subtype.val hb
  rw [← heq, hp.decrypt_encrypt b.2]
  exact b.2

/-- What `b64decode` makes of a nonce with its padding. -/
def decoded (nonce : Text) : Option Bytes :=
  b64decode (encode nonce ++ List.replicate ((4 - (encode nonce).length % 4) % 4) padding)

/-- A single block, authenticated with the oracle's own key, that does not decrypt to zero. -/
structure OneBlock (p : Primitives) (o : HashOracle) (nonce : Text) (data tag : Bytes) : Prop where
  decoded : decoded nonce = some (data ++ tag)
  data_length : data.length = aesBlockSize
  tag_length : tag.length = macSize
  mac : o.ac.mac p data = tag
  nonzero : fromBE (p.aesDecrypt o.ac.cipher data) ≠ 0

theorem ecbFrom_length {g : Bytes → Bytes} (hg : ∀ b, b.length = aesBlockSize → (g b).length = aesBlockSize)
    (n : ℕ) (data : Bytes) (h : data.length = n * aesBlockSize) :
    (ecbFrom g n data).length = n * aesBlockSize := by
  induction n generalizing data with
  | zero => simp [ecbFrom]
  | succ n ih =>
    have hfirst : (data.take aesBlockSize).length = aesBlockSize := by
      rw [List.length_take, h]
      exact min_eq_left (Nat.le_mul_of_pos_left _ n.succ_pos)
    have hrest : (data.drop aesBlockSize).length = n * aesBlockSize := by
      rw [List.length_drop, h, Nat.succ_mul]
      omega
    rw [ecbFrom, List.length_append, hg _ hfirst, ih _ hrest, Nat.succ_mul]
    omega

theorem bxor_block {raw : Bytes} (h : raw.length = aesBlockSize) :
    bxor (raw.drop aesBlockSize) (raw.take aesBlockSize) =
      if fromBE raw = 0 then .ok [] else .error .overflowError := by
  have hdrop : raw.drop aesBlockSize = [] := List.drop_eq_nil_of_le (by omega)
  have htake : raw.take aesBlockSize = raw := List.take_of_length_le (by omega)
  have hnil : fromBE [] = 0 := rfl
  rw [bxor, xorBE, toBE, hdrop, htake, hnil, Nat.zero_xor]
  split
  · rename_i hlt
    rw [if_pos (by simpa using hlt)]
    rfl
  · rename_i hlt
    rw [if_neg (by simpa using hlt)]
    rfl

theorem bxor_rest {raw : Bytes} {n : ℕ} (h : raw.length = n * aesBlockSize) :
    (∃ b, bxor (raw.drop aesBlockSize) (raw.take aesBlockSize) = .ok b) ∨
      (n = 1 ∧ fromBE raw ≠ 0 ∧
        bxor (raw.drop aesBlockSize) (raw.take aesBlockSize) = .error .overflowError) := by
  have hfits (hlt : fromBE (raw.drop aesBlockSize) ^^^ fromBE (raw.take aesBlockSize) <
      256 ^ (raw.drop aesBlockSize).length) :
      ∃ b, bxor (raw.drop aesBlockSize) (raw.take aesBlockSize) = .ok b := by
    rw [bxor, xorBE, toBE, if_pos hlt]
    exact ⟨_, rfl⟩
  rcases n with _ | _ | n
  · obtain rfl : raw = [] := List.length_eq_zero_iff.mp (by omega)
    exact .inl (hfits (by decide))
  · rw [Nat.zero_add, Nat.one_mul] at h
    rw [bxor_block h]
    by_cases hzero : fromBE raw = 0
    · rw [if_pos hzero]
      exact .inl ⟨_, rfl⟩
    · rw [if_neg hzero]
      exact .inr ⟨rfl, hzero, rfl⟩
  · apply Or.inl
    apply hfits
    have hrest : (raw.drop aesBlockSize).length = (n + 1) * aesBlockSize := by
      rw [List.length_drop, h, Nat.succ_mul]
      omega
    have hfirst : (raw.take aesBlockSize).length ≤ (raw.drop aesBlockSize).length := by
      rw [List.length_take, hrest, Nat.succ_mul]
      omega
    have hb := (fromBE_lt (raw.take aesBlockSize)).trans_le (Nat.pow_le_pow_right (by decide) hfirst)
    have ha := fromBE_lt (raw.drop aesBlockSize)
    rw [pow_bytes] at ha hb ⊢
    exact Nat.xor_lt_two_pow ha hb

/-- The steps of `decrypt` after the nonce was decoded. -/
theorem decrypt_eq (p : Primitives) (o : HashOracle) {nonce : Text} {enc data tag : Bytes}
    (hdec : decoded nonce = some enc) (hdata : enc.take (enc.length - macSize) = data)
    (htag : enc.drop (enc.length - macSize) = tag) :
    o.ac.decrypt p (encode nonce) =
      if o.ac.mac p data ≠ tag then .error .valueError
      else match ecb (p.aesDecrypt o.ac.cipher) data with
        | .error e => .error e
        | .ok raw => bxor (raw.drop aesBlockSize) (raw.take aesBlockSize) := by
  rw [decoded] at hdec
  unfold AESCipher.decrypt
  dsimp only
  rw [hdec]
  simp only [Option.elim_some, bind, Except.bind, hdata, htag]
  split
  · rfl
  · cases ecb (p.aesDecrypt o.ac.cipher) data <;> rfl

theorem ecb_block {g : Bytes → Bytes} {data : Bytes} (h : data.length = aesBlockSize) :
    ecb g data = .ok (g data) := by
  have htake : data.take aesBlockSize = data := List.take_of_length_le (by omega)
  have hone : aesBlockSize / aesBlockSize = 1 := rfl
  rw [ecb, h, if_pos (Nat.mod_self _), hone, ecbFrom, ecbFrom, htake, List.append_nil]

theorem ecb_cases (hp : p.Lawful) (key data : Bytes) :
    ecb (p.aesDecrypt key) data = .error .valueError ∨
      ∃ n raw, data.length = n * aesBlockSize ∧ ecb (p.aesDecrypt key) data = .ok raw ∧
        raw.length = n * aesBlockSize := by
  unfold ecb
  split
  · rename_i hwhole
    have hlen : data.length = data.length / aesBlockSize * aesBlockSize :=
      (Nat.div_mul_cancel (Nat.dvd_of_mod_eq_zero hwhole)).symm
    exact .inr ⟨_, _, hlen, rfl, ecbFrom_length (fun _ => decrypt_length hp) _ _ hlen⟩
  · exact .inl rfl

/-- What `decrypt` can raise, and for which nonces. -/
theorem decrypt_cases (hp : p.Lawful) (nonce : Text) :
    (∃ raw, o.ac.decrypt p (encode nonce) = .ok raw) ∨
      o.ac.decrypt p (encode nonce) = .error .valueError ∨
      (o.ac.decrypt p (encode nonce) = .error .overflowError ∧ ∃ data tag, OneBlock p o nonce data tag) := by
  cases hdec : decoded nonce with
  | none =>
    rw [decoded] at hdec
    unfold AESCipher.decrypt
    dsimp only
    rw [hdec]
    exact .inr (.inl rfl)
  | some enc =>
    rw [decrypt_eq p o hdec rfl rfl]
    split
    · exact .inr (.inl rfl)
    · rename_i hmac
      rw [ne_eq, not_not] at hmac
      rcases ecb_cases hp o.ac.cipher (enc.take (enc.length - macSize)) with hecb |
          ⟨n, raw, hlen, hecb, hraw⟩
      · rw [hecb]
        exact .inr (.inl rfl)
      · rw [hecb]
        rcases bxor_rest hraw with ⟨b, hb⟩ | ⟨rfl, hzero, hb⟩
        · exact .inl ⟨b, hb⟩
        · refine .inr (.inr ⟨hb, _, _, ?_, ?_, ?_, hmac, ?_⟩)
          · rw [hdec, List.take_append_drop]
          · rw [hlen, Nat.one_mul]
          · rw [List.length_take] at hlen
            rw [List.length_drop]
            simp only [aesBlockSize, macSize] at *
            omega
          · rw [Nat.one_mul] at hlen
            rw [ecb_block hlen] at hecb
            rwa [Except.ok.inj hecb]

theorem OneBlock.overflows {data tag : Bytes} (h : OneBlock p o nonce data tag) (hp : p.Lawful) :
    o.ac.decrypt p (encode nonce) = .error .overflowError := by
  have hlen : (data ++ tag).length - macSize = data.length := by
    rw [List.length_append, h.tag_length]
    omega
  have hdata : (data ++ tag).take ((data ++ tag).length - macSize) = data := by
    rw [hlen, List.take_left]
  have htag : (data ++ tag).drop ((data ++ tag).length - macSize) = tag := by
    rw [hlen, List.drop_left]
  rw [decrypt_eq p o h.decoded hdata htag, if_neg (by simp [h.mac]), ecb_block h.data_length]
  dsimp only
  rw [bxor_block (decrypt_length hp h.data_length), if_neg h.nonzero]

theorem validate_cases (hp : p.Lawful) (nonce : Text) (cmask : List ℕ) :
    (∃ b, o.validateChallenge p now nonce cmask = .ok b) ∨
      (o.validateChallenge p now nonce cmask = .error .overflowError ∧
        ∃ data tag, OneBlock p o nonce data tag) := by
  unfold HashOracle.validateChallenge
  rcases decrypt_cases (o := o) hp nonce with ⟨raw, h⟩ | h | ⟨h, hone⟩
  · rw [h]
    dsimp only
    split
    · exact .inl ⟨_, rfl⟩
    · exact .inl ⟨_, rfl⟩
  · rw [h]
    exact .inl ⟨_, rfl⟩
  · rw [h]
    exact .inr ⟨rfl, hone⟩

theorem OneBlock.validate_raises {data tag : Bytes} (h : OneBlock p o nonce data tag) (hp : p.Lawful)
    (cmask : List ℕ) : o.validateChallenge p now nonce cmask = .error .overflowError := by
  unfold HashOracle.validateChallenge
  rw [h.overflows hp]

end Nonces

/-- What makes a header one that is to be refused. -/
def Deficient (auth : SipAuthorization) : Prop :=
  hashFunc auth.algorithm = none ∨ (∃ qop ∈ auth.qop, knownQop qop = false) ∨ auth.username = none ∨
    auth.realm = none ∨ auth.nonce = none ∨ auth.uri = none ∨
    (isSess auth.algorithm = true ∧ auth.cnonce = none)

/-- `verify` returns, and refuses a header that lacks something. -/
def Total (p : Primitives) (o : HashOracle) (now : ℕ) (auth : SipAuthorization) (password method : Text)
    (body : Option Text) : Prop :=
  ∃ b, auth.verify p o now password method body = .ok b ∧ (Deficient auth → b = false)

/-- The nonce is there and can be validated, and if it is good there is an address. -/
def Checkable (p : Primitives) (o : HashOracle) (now flag : ℕ) (auth : SipAuthorization) : Prop :=
  ∃ nonce ∈ auth.nonce, (¬ ∃ data tag, OneBlock p o nonce data tag) ∧
    (o.validateChallenge p now nonce [flag] = .ok true → auth.uri.isSome)

/-- What `verify` needs to return. -/
structure Verifiable (p : Primitives) (o : HashOracle) (now : ℕ) (auth : SipAuthorization) : Prop where
  algorithm : (hashFunc auth.algorithm).isSome
  username : auth.username.isSome
  realm : auth.realm.isSome
  session : isSess auth.algorithm = true → auth.nonce.isSome ∧ auth.cnonce.isSome
  challenge : (∃ qop ∈ auth.qop, knownQop qop = false) ∨
    ∀ f flag, hashFunc auth.algorithm = some (f, flag) → Checkable p o now flag auth

section Headers

theorem encodeAttr_ok {s : Option Text} {b : Bytes} (h : encodeAttr s = .ok b) : s.isSome := by
  cases s with
  | none => exact absurd h (by simp [encodeAttr])
  | some s => rfl

/-- The first hash needs the algorithm, the name, the realm and, for a session, the nonces. -/
theorem ha1_iff : (∃ x, auth.ha1 p password = .ok x) ↔ (hashFunc auth.algorithm).isSome ∧
    auth.username.isSome ∧ auth.realm.isSome ∧
    (isSess auth.algorithm = true → auth.nonce.isSome ∧ auth.cnonce.isSome) := by
  unfold SipAuthorization.ha1 digestCalcHA1 hashfunc
  cases halg : hashFunc auth.algorithm with
  | none => simp [bind, Except.bind]
  | some f =>
    cases huser : auth.username with
    | none => simp [encodeAttr, bind, Except.bind]
    | some user =>
      cases hrealm : auth.realm with
      | none => simp [encodeAttr, bind, Except.bind]
      | some realm =>
        cases hsess : isSess auth.algorithm with
        | false => simp [encodeAttr, bind, Except.bind, pure, Except.pure]
        | true =>
          cases hnonce : auth.nonce <;> cases hcnonce : auth.cnonce <;>
            simp [encodeAttr, bind, Except.bind, pure, Except.pure]

theorem calcResponse_iff (hf : hashFunc auth.algorithm = some (f, flag)) (hnonce : auth.nonce = some nonce)
    (ha1 : Bytes) : (∃ r, auth.calcResponse p ha1 method body = .ok r) ↔ auth.uri.isSome := by
  constructor
  · rintro ⟨r, hr⟩
    unfold SipAuthorization.calcResponse digestCalcResponse at hr
    obtain ⟨g, -, hr⟩ := Lib.bind_ok.mp hr
    obtain ⟨uri, huri, -⟩ := Lib.bind_ok.mp hr
    exact encodeAttr_ok huri
  · intro huri
    exact SipAuthorization.calcResponse_ok hf (by rw [hnonce]; rfl) huri ha1 method body

theorem verifyHA1_qop (hf : hashFunc auth.algorithm = some (f, flag))
    (hqop : ∃ qop ∈ auth.qop, knownQop qop = false) (ha1 : Bytes) :
    auth.verifyHA1 p o now ha1 method body = .ok false := by
  obtain ⟨qop, hmem, hunknown⟩ := hqop
  rw [Option.mem_def] at hmem
  have hany : (auth.qop.any fun qop => !knownQop qop) = true := by simp [hmem, hunknown]
  unfold SipAuthorization.verifyHA1
  simp only [hf, hany, if_true]

/-- The steps of `verifyHA1` for a quality of protection that is known. -/
theorem verifyHA1_ok (hf : hashFunc auth.algorithm = some (f, flag))
    (hqop : ¬ ∃ qop ∈ auth.qop, knownQop qop = false) (ha1 : Bytes) {b : Bool} :
    auth.verifyHA1 p o now ha1 method body = .ok b ↔ ∃ nonce ∈ auth.nonce,
      (o.validateChallenge p now nonce [flag] = .ok false ∧ b = false) ∨
      (o.validateChallenge p now nonce [flag] = .ok true ∧
        ∃ r, auth.calcResponse p ha1 method body = .ok r ∧ (some r == auth.response) = b) := by
  have hany : (auth.qop.any fun qop => !knownQop qop) = false := by
    rw [Bool.eq_false_iff, ne_eq, Option.any_eq_true]
    rintro ⟨qop, hmem, hunknown⟩
    exact hqop ⟨qop, hmem, by simpa using hunknown⟩
  unfold SipAuthorization.verifyHA1
  simp only [hf, hany, Bool.false_eq_true, if_false]
  cases hnonce : auth.nonce with
  | none => simp [bind, Except.bind]
  | some nonce =>
    cases hvalid : o.validateChallenge p now nonce [flag] with
    | error e => simp [bind, Except.bind, hvalid]
    | ok valid =>
      cases valid with
      | false => simp [bind, Except.bind, pure, Except.pure, hvalid, eq_comm]
      | true =>
        cases hr : auth.calcResponse p ha1 method body with
        | error e => simp [bind, Except.bind, hvalid]
        | ok r => simp [bind, Except.bind, pure, Except.pure, hvalid]

/-- A header whose text was accepted is verified without an exception, and refused for what it
lacks, exactly if it has what the computation reads on its way. -/
theorem verify_total (hp : p.Lawful) (_ : SipAuthorization.parse text = some auth)
    (password method : Text) (body : Option Text) :
    Total p o now auth password method body ↔ Verifiable p o now auth := by
  constructor
  · rintro ⟨b, hverify, -⟩
    obtain ⟨x, hx, hverify⟩ := Lib.bind_ok.mp hverify
    obtain ⟨halg, huser, hrealm, hsession⟩ := ha1_iff.mp ⟨x, hx⟩
    refine ⟨halg, huser, hrealm, hsession, ?_⟩
    by_cases hqop : ∃ qop ∈ auth.qop, knownQop qop = false
    · exact .inl hqop
    · refine .inr fun f flag hf => ?_
      obtain ⟨nonce, hnonce, hvalid⟩ := (verifyHA1_ok hf hqop x).mp hverify
      refine ⟨nonce, hnonce, ?_, fun htrue => ?_⟩
      · rintro ⟨data, tag, hone⟩
        have hraises : o.validateChallenge p now nonce [flag] = .error .overflowError :=
          hone.validate_raises hp [flag]
        rcases hvalid with ⟨hvalid, -⟩ | ⟨hvalid, -⟩
        · rw [hraises] at hvalid
          exact absurd hvalid (by simp)
        · rw [hraises] at hvalid
          exact absurd hvalid (by simp)
      · rcases hvalid with ⟨hvalid, -⟩ | ⟨-, r, hr, -⟩
        · rw [htrue] at hvalid
          exact absurd hvalid (by simp)
        · exact (calcResponse_iff hf hnonce x).mp ⟨r, hr⟩
  · rintro ⟨halg, huser, hrealm, hsession, hchallenge⟩
    obtain ⟨x, hx⟩ := ha1_iff.mpr ⟨halg, huser, hrealm, hsession⟩
    obtain ⟨⟨f, flag⟩, hf⟩ := Option.isSome_iff_exists.mp halg
    have hverify {b : Bool} (h : auth.verifyHA1 p o now x method body = .ok b) :
        auth.verify p o now password method body = .ok b := Lib.bind_ok.mpr ⟨x, hx, h⟩
    by_cases hqop : ∃ qop ∈ auth.qop, knownQop qop = false
    · exact ⟨false, hverify (verifyHA1_qop hf hqop x), fun _ => rfl⟩
    · obtain ⟨nonce, hnonce, hblock, huri⟩ := hchallenge.resolve_left hqop f flag hf
      have hcases : (∃ b, o.validateChallenge p now nonce [flag] = .ok b) ∨
          (o.validateChallenge p now nonce [flag] = .error .overflowError ∧
            ∃ data tag, OneBlock p o nonce data tag) := validate_cases hp nonce [flag]
      rcases hcases with ⟨valid, hvalid⟩ | ⟨-, hone⟩
      · cases valid with
        | false =>
          exact ⟨false, hverify ((verifyHA1_ok hf hqop x).mpr ⟨nonce, hnonce, .inl ⟨hvalid, rfl⟩⟩),
            fun _ => rfl⟩
        | true =>
          have hcalc : ∃ r, auth.calcResponse p x method body = .ok r :=
            (calcResponse_iff hf hnonce x).mpr (huri hvalid)
          obtain ⟨r, hr⟩ := hcalc
          refine ⟨_, hverify ((verifyHA1_ok hf hqop x).mpr
            ⟨nonce, hnonce, .inr ⟨hvalid, r, hr, rfl⟩⟩), fun hdef => ?_⟩
          -- nothing is missing here
          exfalso
          rw [Option.mem_def] at hnonce
          rcases hdef with h | h | h | h | h | h | ⟨hsess, h⟩
          · simp [hf] at h
          · exact hqop h
          · simp [h] at huser
          · simp [h] at hrealm
          · simp [h] at hnonce
          · simpa [h] using huri hvalid
          · simpa [h] using (hsession hsess).2
      · exact absurd hone hblock

end Headers

def sampleHeader (algorithm : String) : Text :=
  "Digest username=\"alice\", realm=\"example.com\", nonce=\"".toList ++ sampleNonce ++
    "\", uri=\"sip:bob@example.com\", response=\"0\", algorithm=".toList ++ algorithm.toList

theorem verify_total_sha256 : ∃ auth, SipAuthorization.parse (sampleHeader "SHA-256") = some auth ∧
    (Total samplePrimitives ⟨sampleKey⟩ 33000000000 auth "secret".toList "INVITE".toList none ↔
      Verifiable samplePrimitives ⟨sampleKey⟩ 33000000000 auth) := by
  obtain ⟨auth, hparse⟩ := Option.isSome_iff_exists.mp
    (show (SipAuthorization.parse (sampleHeader "SHA-256")).isSome by decide +kernel)
  exact ⟨auth, hparse, verify_total samplePrimitives_lawful hparse _ _ _⟩

/-- An algorithm that the table does not have makes `verify` raise. -/
theorem unknown_algorithm_raises : ∃ auth, SipAuthorization.parse (sampleHeader "SHA-1") = some auth ∧
    Deficient auth ∧
    ¬ Total samplePrimitives ⟨sampleKey⟩ 33000000000 auth "secret".toList "INVITE".toList none := by
  obtain ⟨auth, hparse, halg⟩ := Option.map_eq_some_iff.mp
    (show (SipAuthorization.parse (sampleHeader "SHA-1")).map SipAuthorization.algorithm =
      some (some "SHA-1".toList) by decide +kernel)
  have hnone : hashFunc auth.algorithm = none := by
    rw [halg]
    decide
  refine ⟨auth, hparse, .inl hnone, ?_⟩
  rintro ⟨b, hverify, -⟩
  obtain ⟨x, hx, -⟩ := Lib.bind_ok.mp hverify
  obtain ⟨hsome, -⟩ := ha1_iff.mp ⟨x, hx⟩
  rw [hnone] at hsome
  exact absurd hsome (by decide)

end SippyB2bua.Security
