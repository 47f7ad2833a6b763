import Mathlib.Logic.Equiv.Basic
import SippyB2bua.Security.SipNonce

/-!
# Digest authentication

The two sides of a digest exchange. The client computes its answer to a challenge from the
header that carries it, the server from the header that carries the answer, both with the
same two functions. An attribute that a header does not have is `none`, and to encode it is
an error. The body takes part only when the quality of protection says so.
-/

namespace SippyB2bua.Security

open Lib Lib.Bytes

def hashFunc : Option Text → Option (HashFunc × ℕ)
  | none => some (.md5, dgstMd5)
  | some name =>
    if name = "MD5".toList then some (.md5, dgstMd5)
    else if name = "MD5-sess".toList then some (.md5, dgstMd5Sess)
    else if name = "SHA-256".toList then some (.sha256, dgstSha256)
    else if name = "SHA-256-sess".toList then some (.sha256, dgstSha256Sess)
    else if name = "SHA-512-256".toList then some (.sha512_256, dgstSha512)
    else if name = "SHA-512-256-sess".toList then some (.sha512_256, dgstSha512Sess)
    else none

/-- `_HASH_FUNC[alg][0]`. -/
def hashfunc (alg : Option Text) : Except Exn HashFunc :=
  (hashFunc alg).elim (.error .keyError) fun f => .ok f.1

/-- `s.encode()` of an attribute. -/
def encodeAttr (s : Option Text) : Except Exn Bytes := s.elim (.error .attributeError) fun s => .ok (encode s)

def delim : Bytes := encode [':']

def truthy (s : Option Text) : Bool := s.any fun s => !s.isEmpty

def isSess (alg : Option Text) : Bool := alg.any fun alg => Text.endsWith alg "-sess".toList

def qopAuth : Text := "auth".toList
def qopAuthInt : Text := "auth-int".toList

def knownQop (qop : Text) : Bool := qop == qopAuth || qop == qopAuthInt

variable (p : Primitives)

def digestCalcHA1 (alg username realm : Option Text) (password : Text) (nonce cnonce : Option Text) :
    Except Exn Bytes := do
  let f ← hashfunc alg
  let username ← encodeAttr username
  let realm ← encodeAttr realm
  let ha1 := encode (p.hexdigest f (username ++ delim ++ realm ++ delim ++ encode password))
  if isSess alg then
    let nonce ← encodeAttr nonce
    let cnonce ← encodeAttr cnonce
    return encode (p.hexdigest f (ha1 ++ delim ++ nonce ++ delim ++ cnonce))
  else return ha1

def entityPart (f : HashFunc) (qop hEntity : Option Text) : Bytes :=
  if qop = some qopAuthInt then delim ++ encode (p.hexdigest f (encode (hEntity.getD []))) else []

/-- What the counter and the nonce of the client add to the response. -/
def qopPart (nonceCount cnonce qop : Option Text) : Bytes :=
  if truthy nonceCount && truthy cnonce && truthy qop then
    encode (nonceCount.getD []) ++ delim ++ encode (cnonce.getD []) ++ delim ++ encode (qop.getD []) ++ delim
  else []

def digestCalcResponse (alg : Option Text) (ha1 : Bytes) (nonce nonceCount cnonce qop : Option Text)
    (method : Text) (digestUri hEntity : Option Text) : Except Exn Text := do
  let f ← hashfunc alg
  let uri ← encodeAttr digestUri
  let ha2 := p.hexdigest f (encode method ++ delim ++ uri ++ entityPart p f qop hEntity)
  let nonce ← encodeAttr nonce
  return p.hexdigest f (ha1 ++ delim ++ nonce ++ delim ++ qopPart nonceCount cnonce qop ++ encode ha2)

structure SipAuthorization where
  username : Option Text
  uri : Option Text
  realm : Option Text
  nonce : Option Text
  response : Option Text := none
  qop : Option Text := none
  cnonce : Option Text := none
  nc : Option Text := none
  algorithm : Option Text := none
  otherparams : List (Text × Text) := []

namespace SipAuthorization

variable (auth : SipAuthorization)

def ha1 (password : Text) : Except Exn Bytes :=
  digestCalcHA1 p auth.algorithm auth.username auth.realm password auth.nonce auth.cnonce

def calcResponse (ha1 : Bytes) (method : Text) (body : Option Text) : Except Exn Text :=
  digestCalcResponse p auth.algorithm ha1 auth.nonce auth.nc auth.cnonce auth.qop method auth.uri body

def genAuthResponse (password method : Text) (body : Option Text) : Except Exn SipAuthorization := do
  let ha1 ← auth.ha1 p password
  let response ← auth.calcResponse p ha1 method body
  return { auth with response := some response }

variable (o : HashOracle) (now : ℕ)

def verifyHA1 (ha1 : Bytes) (method : Text) (body : Option Text) : Except Exn Bool :=
  match hashFunc auth.algorithm with
  | none => .ok false
  | some (_, algmask) =>
    if auth.qop.any fun qop => !knownQop qop then .ok false
    else do
      let nonce ← auth.nonce.elim (.error .attributeError) .ok
      let valid ← o.validateChallenge p now nonce [algmask]
      if !valid then return false
      let response ← auth.calcResponse p ha1 method body
      return some response == auth.response

def verify (password method : Text) (body : Option Text) : Except Exn Bool := do
  let ha1 ← auth.ha1 p password
  auth.verifyHA1 p o now ha1 method body

/-- The header has what the first hash is computed from. -/
def Complete : Prop :=
  auth.username.isSome ∧ auth.realm.isSome ∧ (isSess auth.algorithm → auth.cnonce.isSome)

end SipAuthorization

structure SipWWWAuthenticate where
  realm : Option Text
  nonce : Option Text
  qop : Option (List Text)
  algorithm : Option Text
  opaqueValue : Option Text

namespace SipWWWAuthenticate

variable (www : SipWWWAuthenticate)

/-- The header of a new challenge, for one algorithm. -/
def init (o : HashOracle) (now : ℕ) (iv : Bytes) (myAddress : Text) (realm nonce algorithm : Option Text) :
    Except Exn SipWWWAuthenticate := do
  let nonce ← match nonce with
    | some nonce => .ok nonce
    | none => do
      let algmask ← (hashFunc algorithm).elim (.error .keyError) fun f => .ok f.2
      o.emitChallenge p now iv [algmask]
  return {
    realm := some (realm.getD myAddress)
    nonce := some nonce
    qop := if algorithm.isSome then some [qopAuth] else none
    algorithm := algorithm
    opaqueValue := none }

/-- The header that is answered with, but for the response. `cnonce` is what `token_hex` returns. -/
def answer (cnonce username uri : Text) (qop : Option Text) : SipAuthorization :=
  let auth : SipAuthorization :=
    { realm := www.realm, nonce := www.nonce, uri := some uri, username := some username,
      algorithm := www.algorithm }
  let auth := if www.qop.isSome && qop.isSome then
      { auth with qop := qop, nc := some "00000001".toList, cnonce := some cnonce }
    else auth
  match www.opaqueValue with
  | some value => { auth with otherparams := [("opaque".toList, '"' :: value ++ ['"'])] }
  | none => auth

def genAuthHF (cnonce username password method uri : Text) (body qop : Option Text) :
    Except Exn SipAuthorization :=
  (www.answer cnonce username uri qop).genAuthResponse p password method body

def supportedAlgorithm : Bool × Option Text :=
  match www.qop with
  | some qops =>
    match qops.filter knownQop with
    | [] => (false, none)
    | qop :: _ => ((hashFunc www.algorithm).isSome, some qop)
  | none =>
    if www.algorithm.any fun alg => Text.endsWith alg "-sess".toList || alg ≠ "MD5".toList then (false, none)
    else ((hashFunc www.algorithm).isSome, none)

end SipWWWAuthenticate

section Sides

variable {p}
variable {auth auth' : SipAuthorization} {www : SipWWWAuthenticate} {o : HashOracle} {M : List ℕ}
variable {t now : ℕ} {f : HashFunc} {flag : ℕ} {nonce password method : Text} {body q : Option Text}

theorem hashFunc_flag {alg : Option Text} (h : hashFunc alg = some (f, flag)) : flag ∈ dgstPrios := by
  unfold hashFunc at h
  cases alg with
  | none => cases h; decide
  | some name =>
    simp only at h
    split_ifs at h <;> cases h <;> decide

namespace SipAuthorization

theorem ha1_ok (h : auth.Complete) (hf : hashFunc auth.algorithm = some (f, flag))
    (hnonce : auth.nonce.isSome) (password : Text) : ∃ x, auth.ha1 p password = .ok x := by
  obtain ⟨huser, hrealm, hcnonce⟩ := h
  obtain ⟨user, huser⟩ := Option.isSome_iff_exists.1 huser
  obtain ⟨realm, hrealm⟩ := Option.isSome_iff_exists.1 hrealm
  obtain ⟨nonce, hnonce⟩ := Option.isSome_iff_exists.1 hnonce
  unfold ha1 digestCalcHA1 hashfunc encodeAttr
  cases hs : isSess auth.algorithm with
  | false => simp [bind, Except.bind, pure, Except.pure, hf, huser, hrealm]
  | true =>
    obtain ⟨cnonce, hcnonce⟩ := Option.isSome_iff_exists.1 (hcnonce hs)
    simp [bind, Except.bind, pure, Except.pure, hf, huser, hrealm, hnonce, hcnonce]

theorem calcResponse_ok (hf : hashFunc auth.algorithm = some (f, flag)) (hnonce : auth.nonce.isSome)
    (huri : auth.uri.isSome) (ha1 : Bytes) (method : Text) (body : Option Text) :
    ∃ r, auth.calcResponse p ha1 method body = .ok r := by
  obtain ⟨uri, huri⟩ := Option.isSome_iff_exists.1 huri
  obtain ⟨nonce, hnonce⟩ := Option.isSome_iff_exists.1 hnonce
  unfold calcResponse digestCalcResponse hashfunc encodeAttr
  simp [bind, Except.bind, pure, Except.pure, hf, huri, hnonce]

/-- A header that is asked for a flag of its challenge is compared with the response. -/
theorem verifyHA1_valid (auth : SipAuthorization) (hf : hashFunc auth.algorithm = some (f, flag)) (hnonce : auth.nonce = some nonce)
    (hqop : ∀ qop ∈ auth.qop, knownQop qop = true)
    (hvalid : o.validateChallenge p now nonce [flag] = .ok true) (ha1 : Bytes) (method : Text)
    (body : Option Text) :
    auth.verifyHA1 p o now ha1 method body =
      (auth.calcResponse p ha1 method body).map fun r => some r == auth.response := by
  have hknown : (auth.qop.any fun qop => !knownQop qop) = false := by
    cases hq : auth.qop with
    | none => rfl
    | some qop => simp [hqop qop hq]
  unfold verifyHA1
  simp only [hf, hknown, Bool.false_eq_true, if_false, hnonce, Option.elim_some, bind, Except.bind, hvalid,
    Bool.not_true]
  rfl

theorem genAuthResponse_verify (hc : auth.Complete) (hf : hashFunc auth.algorithm = some (f, flag))
    (hnonce : auth.nonce = some nonce) (huri : auth.uri.isSome)
    (hqop : ∀ qop ∈ auth.qop, knownQop qop = true)
    (hvalid : o.validateChallenge p now nonce [flag] = .ok true) :
    ∃ auth', auth.genAuthResponse p password method body = .ok auth' ∧
      auth'.verify p o now password method body = .ok true := by
  have hsome : auth.nonce.isSome := by rw [hnonce]; rfl
  obtain ⟨x, hx⟩ := ha1_ok (p := p) hc hf hsome password
  obtain ⟨r, hr⟩ := calcResponse_ok (p := p) hf hsome huri x method body
  refine ⟨{ auth with response := some r }, ?_, ?_⟩
  · simp [genAuthResponse, hx, hr, bind, Except.bind, pure, Except.pure]
  · have hx' : ({ auth with response := some r } : SipAuthorization).ha1 p password = .ok x := hx
    have hr' : ({ auth with response := some r } : SipAuthorization).calcResponse p x method body = .ok r := hr
    rw [verify, hx']
    simp only [bind, Except.bind]
    rw [verifyHA1_valid { auth with response := some r } hf hnonce hqop hvalid, hr']
    simp [Except.map]

theorem verify_invalid (hf : hashFunc auth.algorithm = some (f, flag)) (hnonce : auth.nonce = some nonce)
    (hvalid : o.validateChallenge p now nonce [flag] = .ok false) (password method : Text)
    (body : Option Text) :
    auth.verify p o now password method body = (auth.ha1 p password).map fun _ => false := by
  unfold verify verifyHA1
  cases auth.ha1 p password <;>
    simp [bind, Except.bind, pure, Except.pure, Except.map, hf, hnonce, hvalid]

end SipAuthorization

theorem supported_cases (h : www.supportedAlgorithm = (true, q)) :
    (hashFunc www.algorithm).isSome ∧
      ((∃ qop, q = some qop ∧ www.qop.isSome ∧ knownQop qop = true) ∨
        (q = none ∧ isSess www.algorithm = false)) := by
  unfold SipWWWAuthenticate.supportedAlgorithm at h
  cases hqop : www.qop with
  | some qops =>
    rw [hqop] at h
    simp only at h
    cases hl : qops.filter knownQop with
    | nil => simp [hl] at h
    | cons qop rest =>
      rw [hl, Prod.mk.injEq] at h
      have hmem : qop ∈ qops.filter knownQop := by simp [hl]
      exact ⟨h.1, .inl ⟨qop, h.2.symm, rfl, (List.mem_filter.1 hmem).2⟩⟩
  | none =>
    rw [hqop] at h
    simp only at h
    split at h
    · cases h
    · rename_i halg
      rw [Prod.mk.injEq] at h
      refine ⟨h.1, .inr ⟨h.2.symm, ?_⟩⟩
      cases ha : www.algorithm with
      | none => rfl
      | some alg =>
        rw [ha, Option.any_some, Bool.or_eq_true, not_or] at halg
        exact Bool.not_eq_true _ ▸ halg.1

theorem answer_fields (www : SipWWWAuthenticate) (cnonce username uri : Text) (q : Option Text) :
    (www.answer cnonce username uri q).username = some username ∧
      (www.answer cnonce username uri q).realm = www.realm ∧
      (www.answer cnonce username uri q).nonce = www.nonce ∧
      (www.answer cnonce username uri q).uri = some uri ∧
      (www.answer cnonce username uri q).algorithm = www.algorithm := by
  unfold SipWWWAuthenticate.answer
  cases www.opaqueValue <;> cases (www.qop.isSome && q.isSome) <;> exact ⟨rfl, rfl, rfl, rfl, rfl⟩

theorem answer_qop (www : SipWWWAuthenticate) (cnonce username uri : Text) (q : Option Text) :
    (www.answer cnonce username uri q).qop = (if www.qop.isSome && q.isSome then q else none) ∧
      (www.answer cnonce username uri q).cnonce =
        (if www.qop.isSome && q.isSome then some cnonce else none) := by
  unfold SipWWWAuthenticate.answer
  cases www.opaqueValue <;> cases (www.qop.isSome && q.isSome) <;> exact ⟨rfl, rfl⟩

theorem genAuthHF_verify {cnonce username uri : Text} (hs : www.supportedAlgorithm = (true, q))
    (hrealm : www.realm.isSome) (hnonce : www.nonce = some nonce)
    (hf : hashFunc www.algorithm = some (f, flag))
    (hvalid : o.validateChallenge p now nonce [flag] = .ok true) :
    ∃ auth, www.genAuthHF p cnonce username password method uri body q = .ok auth ∧
      auth.verify p o now password method body = .ok true := by
  obtain ⟨huser, hrealm', hnonce', huri, halg⟩ := answer_fields www cnonce username uri q
  obtain ⟨hqop, hcnonce⟩ := answer_qop www cnonce username uri q
  unfold SipWWWAuthenticate.genAuthHF
  generalize www.answer cnonce username uri q = auth at *
  have hcomplete : auth.Complete := by
    refine ⟨by rw [huser]; rfl, by rwa [hrealm'], fun hsess => ?_⟩
    obtain ⟨-, ⟨qop, rfl, hsome, -⟩ | ⟨-, hplain⟩⟩ := supported_cases hs
    · rw [hcnonce, hsome]
      rfl
    · rw [halg, hplain] at hsess
      cases hsess
  have hknown : ∀ qop ∈ auth.qop, knownQop qop = true := by
    rw [hqop]
    obtain ⟨-, ⟨qop, rfl, hsome, hknown⟩ | ⟨rfl, -⟩⟩ := supported_cases hs
    · rw [hsome]
      rintro _ ⟨⟩
      exact hknown
    · simp
  exact SipAuthorization.genAuthResponse_verify hcomplete (by rwa [halg]) (by rwa [hnonce'])
    (by rw [huri]; rfl) hknown hvalid

/-- Inside the window, the client answers any challenge with this nonce that names an algorithm
of the set, and the server accepts the answer for the same password and body. -/
def Answered (p : Primitives) (o : HashOracle) (t : ℕ) (M : List ℕ) (nonce : Text) : Prop :=
  ∀ (www : SipWWWAuthenticate) (q : Option Text) (f : HashFunc) (flag now : ℕ)
    (cnonce username password method uri : Text) (body : Option Text),
    www.nonce = some nonce → www.realm.isSome → www.supportedAlgorithm = (true, q) →
    hashFunc www.algorithm = some (f, flag) → flag ∈ M → t ≤ now → now - t ≤ vtime →
    ∃ auth, www.genAuthHF p cnonce username password method uri body q = .ok auth ∧
      auth.verify p o now password method body = .ok true

/-- An answer with this nonce that names an algorithm outside the set is not accepted, whatever
its response: what the server computes from a complete header is `False`. -/
def Refused (p : Primitives) (o : HashOracle) (M : List ℕ) (nonce : Text) : Prop :=
  ∀ (auth : SipAuthorization) (f : HashFunc) (flag now : ℕ) (password method : Text)
    (body : Option Text),
    auth.nonce = some nonce → hashFunc auth.algorithm = some (f, flag) → flag ∉ M →
    auth.verify p o now password method body ≠ .ok true ∧
      (auth.Complete → auth.verify p o now password method body = .ok false)

theorem answered (h : ∀ C ⊆ dgstPrios, ∀ now,
    o.validateChallenge p now nonce C = .ok (decide (Valid t now M C))) : Answered p o t M nonce := by
  intro www q f flag now cnonce username password method uri body hnonce hrealm hs hf hflag hle hwin
  apply genAuthHF_verify hs hrealm hnonce hf
  rw [h [flag] (by simpa using hashFunc_flag hf), Except.ok.injEq, decide_eq_true_eq]
  exact ⟨by simpa using hflag, hle, hwin⟩

theorem refused (h : ∀ C ⊆ dgstPrios, ∀ now,
    o.validateChallenge p now nonce C = .ok (decide (Valid t now M C))) : Refused p o M nonce := by
  intro auth f flag now password method body hnonce hf hflag
  have hfalse : o.validateChallenge p now nonce [flag] = .ok false := by
    rw [h [flag] (by simpa using hashFunc_flag hf), Except.ok.injEq, decide_eq_false_iff_not]
    exact fun hv => hflag (by simpa using hv.1)
  rw [SipAuthorization.verify_invalid hf hnonce hfalse]
  constructor
  · cases auth.ha1 p password <;> simp [Except.map]
  · intro hc
    obtain ⟨x, hx⟩ := SipAuthorization.ha1_ok (p := p) hc hf (by rw [hnonce]; rfl) password
    rw [hx]
    rfl

/-- A challenge validates the flags it was emitted for as long as it lasts. Its answers with an
algorithm of the set are accepted in that time, and those with another one never are. -/
theorem challenge_exchange (hp : p.Lawful) (o : HashOracle) (hM : M ⊆ dgstPrios) (ht : t < 2 ^ 64)
    (iv : Bytes) (hiv : iv.length = aesBlockSize) :
    ∃ nonce, o.emitChallenge p t iv M = .ok nonce ∧
      (∀ C ⊆ dgstPrios, ∀ now, o.validateChallenge p now nonce C = .ok true ↔
        C ⊆ M ∧ t ≤ now ∧ now - t ≤ vtime) ∧
      Answered p o t M nonce ∧ Refused p o M nonce := by
  obtain ⟨nonce, hemit, hvalid⟩ := emitChallenge_valid (o := o) hp hM hiv ht
  refine ⟨nonce, hemit, fun C hC now => ?_, answered hvalid, refused hvalid⟩
  rw [hvalid C hC now, Except.ok.injEq, decide_eq_true_eq, Valid]

end Sides

/-! The values of the primitives at one exchange: the cipher permutes two blocks with what they
are encrypted to, and the digests are those of the texts that are hashed. -/

section Sample

def sampleKey : Bytes := (List.range 64).map UInt8.ofNat
def sampleIv : Bytes := [100, 101, 102, 103, 104, 105, 106, 107, 108, 109, 110, 111, 112, 113, 114, 115]
def sampleBlock : Bytes := [100, 101, 102, 103, 104, 105, 106, 107, 108, 109, 110, 97, 150, 195, 242, 119]
def sampleIvAes : Bytes := [147, 216, 17, 32, 182, 32, 187, 77, 126, 141, 191, 171, 230, 191, 144, 220]
def sampleBlockAes : Bytes :=
  [65, 60, 216, 54, 132, 154, 34, 238, 203, 185, 131, 23, 163, 64, 119, 135]
def sampleMac : Bytes :=
  [253, 153, 118, 122, 174, 34, 72, 192, 135, 108, 201, 4, 236, 51, 245, 220,
    3, 132, 15, 46, 121, 121, 124, 81, 128, 7, 35, 99, 215, 232, 225, 232]

def sampleNonce : Text := "k9gRILYgu01+jb+r5r+Q3EE82DaEmiLuy7mDF6NAd4f9mXZ6riJIwIdsyQTsM/Xc".toList
def sampleHA1 : Text := "ed8925b20f9a77b8f8f8d5f8e4467fe32b866f7208ab9e4b20595e9821a0fdee".toList
def sampleHA2 : Text := "c67305b47d69bf95b5e90c88e51f1704a162a309cd340d5588eee5ff8777eb2d".toList
def sampleResponse : Text := "4f96c6f386be687954b669f8d7bf981c756b33749e128223fd289cb863046255".toList

def sampleDigest (data : Bytes) : Text :=
  if data = encode "alice:example.com:secret".toList then sampleHA1
  else if data = encode "INVITE:sip:bob@example.com".toList then sampleHA2
  else if data = encode (sampleHA1 ++ ":".toList ++ sampleNonce ++ ":00000001:0a1b2c3d:auth:".toList ++ sampleHA2)
    then sampleResponse
  else []

def samplePrimitives : Primitives where
  aesEncrypt _ block := Equiv.swap sampleIv sampleIvAes (Equiv.swap sampleBlock sampleBlockAes block)
  aesDecrypt _ block := Equiv.swap sampleBlock sampleBlockAes (Equiv.swap sampleIv sampleIvAes block)
  hmacSha256 _ data := if data = sampleIvAes ++ sampleBlockAes then sampleMac else List.replicate 32 0
  hexdigest _ data := sampleDigest data

def sampleChallenge : SipWWWAuthenticate where
  realm := some "example.com".toList
  nonce := some sampleNonce
  qop := some [qopAuth]
  algorithm := some "SHA-256".toList
  opaqueValue := none

/-- The same nonce, with an algorithm that it was not emitted for. -/
def sampleForged : SipAuthorization where
  username := some "alice".toList
  uri := some "sip:bob@example.com".toList
  realm := some "example.com".toList
  nonce := some sampleNonce
  response := some sampleResponse
  algorithm := some "MD5".toList

theorem swap_length {a b x : Bytes} (h : a.length = b.length) : (Equiv.swap a b x).length = x.length := by
  rw [Equiv.swap_apply_def]
  split_ifs with ha hb
  · rw [ha, h]
  · rw [hb, h]
  · rfl

theorem samplePrimitives_lawful : samplePrimitives.Lawful where
  encrypt_length h := by
    simp only [samplePrimitives]
    rwa [swap_length (by rfl), swap_length (by rfl)]
  decrypt_encrypt _ := by simp [samplePrimitives]
  hmac_length := by
    intro key data
    simp only [samplePrimitives]
    split_ifs <;> rfl

theorem challenge_exchange_sha256 :
    (HashOracle.mk sampleKey).emitChallenge samplePrimitives 1000000000 sampleIv [dgstSha256] =
        .ok sampleNonce ∧
      (HashOracle.mk sampleKey).validateChallenge samplePrimitives 33000000000 sampleNonce [dgstSha256] =
        .ok true ∧
      (HashOracle.mk sampleKey).validateChallenge samplePrimitives 33000000001 sampleNonce [dgstSha256] ≠
        .ok true ∧
      (∃ auth, sampleChallenge.genAuthHF samplePrimitives "0a1b2c3d".toList "alice".toList "secret".toList
          "INVITE".toList "sip:bob@example.com".toList none (some qopAuth) = .ok auth ∧
        auth.verify samplePrimitives ⟨sampleKey⟩ 33000000000 "secret".toList "INVITE".toList none =
          .ok true) ∧
      sampleForged.verify samplePrimitives ⟨sampleKey⟩ 33000000000 "secret".toList "INVITE".toList none =
        .ok false := by
  obtain ⟨nonce, hemit, hvalid, hanswered, hrefused⟩ :=
    challenge_exchange samplePrimitives_lawful ⟨sampleKey⟩ (M := [dgstSha256]) (t := 1000000000) (by decide)
      (by decide) sampleIv rfl
  have hsample : (HashOracle.mk sampleKey).emitChallenge samplePrimitives 1000000000 sampleIv [dgstSha256] =
      .ok sampleNonce := by
    decide +kernel
  obtain rfl : sampleNonce = nonce := Except.ok.inj (hsample.symm.trans hemit)
  refine ⟨hsample, ?_, ?_, ?_, ?_⟩
  · exact (hvalid _ (by decide) _).2 (by decide)
  · rw [Ne, hvalid _ (by decide)]
    decide
  · exact hanswered sampleChallenge (some qopAuth) .sha256 dgstSha256 33000000000 _ _ _ _ _ none rfl rfl
      (by decide) (by decide) (by decide) (by decide) (by decide)
  · have hcomplete : sampleForged.Complete := ⟨rfl, rfl, by decide⟩
    exact (hrefused sampleForged .md5 dgstMd5 33000000000 _ _ none rfl (by decide) (by decide)).2 hcomplete

end Sample

end SippyB2bua.Security
