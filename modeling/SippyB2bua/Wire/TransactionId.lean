import SippyB2bua.Address.SipAddress
import SippyB2bua.Lib.Fallible
import SippyB2bua.Wire.SipMsg

/-!
# The headers of a transaction

A message may repeat CSeq, Call-ID and From. The identifiers of transactions are made of the
last header of each name, which a dictionary keeps. Whoever asks for the body of a header gets
the first: the dialog, the check of the sequence number and the response.
-/

namespace SippyB2bua.Wire
open Lib (Text Dict)
open Lib.Text (words int)
open Address (SipAddress)

namespace SipHeader

/-- `self.body` of a header that was made from a text. -/
def text (h : SipHeader) : Text := h.body.localStr none

/-- `getBody().getCSeq()` -/
def getCSeq (h : SipHeader) : Lazy (ℤ × Text) :=
  match words h.text with
  | [cseq, method] => (int cseq).elim (.error .valueError) fun n => .ok (n, method)
  | _ => .error .valueError

/-- `getBody().getTag()` of a From or a To, whose parser is relaxed. -/
def getTag (autoconvert : Bool) (h : SipHeader) : Lazy (Option Text) :=
  (SipAddress.init autoconvert true h.text).map fun address => (address.params.lookup "tag".toList).join

/-- `getBody().getBranch()` of a Via. -/
def getBranch (h : SipHeader) : Lazy (Option Text) :=
  (SipVia.parse h.text).elim (.error .valueError) fun via => .ok via.getBranch

end SipHeader

def viaName : Text := "via".toList
def fromName : Text := "from".toList
def toName : Text := "to".toList
def callIdName : Text := "call-id".toList
def cseqName : Text := "cseq".toList
def recordRouteName : Text := "record-route".toList

namespace SipMsg

def getHFs (m : SipMsg) (name : Text) : List SipHeader := m.headers.filter fun x => x.name = name

/-- The header of `getHFBody(name)` and of `getHFBCopy(name)`. -/
def getHF (m : SipMsg) (name : Text) : Lazy SipHeader :=
  (m.getHFs name).head?.elim (.error .indexError) .ok

def headersDict (m : SipMsg) : Dict Text SipHeader :=
  (m.headers.filter fun x => x.name ∈ [cseqName, callIdName, fromName]).foldl (fun d x => d.set x.name x)
    Dict.empty

/-- `headers_dict[name]` -/
def dictHF (m : SipMsg) (name : Text) : Lazy SipHeader := (m.headersDict name).elim (.error .keyError) .ok

structure Tid where
  callId : Text
  tag : Option Text
  cseq : ℤ
  method : Option Text
  branch : Option (Option Text)
  toTag : Option (Option Text)
  deriving DecidableEq, Repr

def asked {α : Type} (w : Bool) (x : Lazy α) : Lazy (Option α) := if w then x.map some else .ok none

def getTId (autoconvert : Bool) (m : SipMsg) (wCSM wBRN wTTG : Bool) : Lazy Tid := do
  let (cseq, method) ← (← m.dictHF cseqName).getCSeq
  let callId := (← m.dictHF callIdName).text
  let tag ← (← m.dictHF fromName).getTag autoconvert
  let branch ← asked wBRN (m.getHF viaName >>= SipHeader.getBranch)
  let toTag ← asked wTTG (m.getHF toName >>= SipHeader.getTag autoconvert)
  return ⟨callId, tag, cseq, if wCSM then some method else none, branch, toTag⟩

def getTIds (autoconvert : Bool) (m : SipMsg) : Lazy (List Tid) := do
  let callId := (← m.dictHF callIdName).text
  let tag ← (← m.dictHF fromName).getTag autoconvert
  let (cseq, method) ← (← m.dictHF cseqName).getCSeq
  (m.getHFs viaName).mapM fun via => do
    let branch ← via.getBranch
    return ⟨callId, tag, cseq, some method, some branch, none⟩

/-- What `UA.isYours` compares: the Call-ID and the tags of From and To. -/
def dialogId (autoconvert : Bool) (m : SipMsg) : Lazy (Text × Option Text × Option Text) := do
  let callId := (← m.getHF callIdName).text
  let fromTag ← (← m.getHF fromName).getTag autoconvert
  let toTag ← (← m.getHF toName).getTag autoconvert
  return (callId, fromTag, toTag)

/-- `getHFBody('cseq').getCSeq()`, of which `UA.recvRequest` takes the number. -/
def firstCSeq (m : SipMsg) : Lazy (ℤ × Text) := m.getHF cseqName >>= SipHeader.getCSeq

def copied (name : Text) (h : SipHeader) : SipHeader := ⟨name, h.body⟩

/-- The headers of `genResponse`. -/
def responseHeaders (m : SipMsg) (server : Option Text) (extReason : Option HF) : Lazy (List SipHeader) := do
  let fr0m ← m.getHF fromName
  let callid ← m.getHF callIdName
  let toHF ← m.getHF toName
  let cseq ← m.getHF cseqName
  return (m.getHFs viaName).map (copied viaName) ++
    (m.getHFs recordRouteName).map (copied recordRouteName) ++
    [copied fromName fr0m, copied toName toHF, copied callIdName callid, copied cseqName cseq] ++
    (server.map fun s => ⟨"server".toList, .raw .sipServer s⟩).toList ++
    (extReason.map fun r => ⟨"reason".toList, r⟩).toList

/-- `genResponse`, with the start line and the body that are asked for. -/
def genResponse (m : SipMsg) (startLine : StartLine) (body : Option MsgBody) (server : Option Text)
    (extReason : Option HF) : Lazy SipMsg :=
  (m.responseHeaders server extReason).map fun hs => ⟨fun _ => startLine, hs, body⟩

end SipMsg

variable {m : SipMsg} {name : Text} {h : SipHeader} {autoconvert : Bool}

theorem foldl_set (hs : List SipHeader) (d : Dict Text SipHeader) (name : Text) :
    hs.foldl (fun d x => d.set x.name x) d name = (hs.filter fun x => x.name = name).getLast?.or (d name) := by
  induction hs generalizing d with
  | nil => rfl
  | cons x hs ih =>
    rw [List.foldl_cons, ih, Dict.set_apply]
    by_cases hx : x.name = name
    · rw [if_pos hx.symm, List.filter_cons_of_pos (by simpa using hx), List.getLast?_cons]
      cases (hs.filter fun x => x.name = name).getLast? <;> rfl
    · rw [if_neg (fun heq => hx heq.symm), List.filter_cons_of_neg (by simpa using hx)]

theorem headersDict_eq (hname : name ∈ [cseqName, callIdName, fromName]) :
    m.headersDict name = (m.getHFs name).getLast? := by
  have hfilter : (m.headers.filter fun x => x.name ∈ [cseqName, callIdName, fromName]).filter
      (fun x => x.name = name) = m.getHFs name := by
    rw [List.filter_filter, SipMsg.getHFs]
    apply List.filter_congr
    intro x _
    by_cases hx : x.name = name
    · simpa [hx] using hname
    · simp [hx]
  rw [SipMsg.headersDict, foldl_set, hfilter, Dict.empty_apply, Option.or_none]

/-- The values of an identifier are those of the first headers, which the dialog and the check of
the sequence number read. -/
structure SipMsg.Firsts (autoconvert : Bool) (m : SipMsg) (t : Tid) : Prop where
  callId : (m.getHF callIdName).map SipHeader.text = .ok t.callId
  tag : m.getHF fromName >>= SipHeader.getTag autoconvert = .ok t.tag
  cseq : ∃ method, m.firstCSeq = .ok (t.cseq, method) ∧ ∀ x ∈ t.method, x = method
  dialog : ∀ d, m.dialogId autoconvert = .ok d → d.1 = t.callId ∧ d.2.1 = t.tag

/-- Whatever reads Call-ID, From and CSeq reads the same values: the identifiers of transactions, the
dialog, the check of the sequence number and the response. -/
structure SipMsg.SameHeaders (autoconvert : Bool) (m : SipMsg) : Prop where
  tid : ∀ wCSM wBRN wTTG t, m.getTId autoconvert wCSM wBRN wTTG = .ok t → m.Firsts autoconvert t
  tids : ∀ ts, m.getTIds autoconvert = .ok ts → ∀ t ∈ ts, m.Firsts autoconvert t
  response : ∀ wCSM wBRN wTTG t startLine body server extReason r,
    m.getTId autoconvert wCSM wBRN wTTG = .ok t → m.genResponse startLine body server extReason = .ok r →
      r.getTId autoconvert wCSM wBRN wTTG = .ok t

/-- What a CSeq, a Call-ID and a From say. -/
def values (autoconvert : Bool) (cseq callId fr0m : SipHeader) : Lazy ((ℤ × Text) × Text × Option Text) := do
  let num ← cseq.getCSeq
  let tag ← fr0m.getTag autoconvert
  return (num, callId.text, tag)

/-- The last CSeq, Call-ID and From, if they can be read, say what the first ones say. -/
def SipMsg.Agree (autoconvert : Bool) (m : SipMsg) : Prop :=
  ∀ cseq callId fr0m, (m.getHFs cseqName).getLast? = some cseq → (m.getHFs callIdName).getLast? = some callId →
    (m.getHFs fromName).getLast? = some fr0m → ∀ cseq₀ callId₀ fr0m₀, (m.getHFs cseqName).head? = some cseq₀ →
      (m.getHFs callIdName).head? = some callId₀ → (m.getHFs fromName).head? = some fr0m₀ →
        ∀ v, values autoconvert cseq callId fr0m = .ok v → values autoconvert cseq₀ callId₀ fr0m₀ = .ok v

theorem dictHF_ok (hname : name ∈ [cseqName, callIdName, fromName]) :
    m.dictHF name = .ok h ↔ (m.getHFs name).getLast? = some h := by
  rw [SipMsg.dictHF, headersDict_eq hname]
  cases (m.getHFs name).getLast? <;> simp

theorem getHF_ok : m.getHF name = .ok h ↔ (m.getHFs name).head? = some h := by
  rw [SipMsg.getHF]
  cases (m.getHFs name).head? <;> simp

theorem first_of_last (h : (m.getHFs name).getLast? = some h) : ∃ h₀, m.getHF name = .ok h₀ := by
  cases hs : m.getHFs name with
  | nil =>
    rw [hs] at h
    exact absurd h (by simp)
  | cons h₀ hs' => exact ⟨h₀, getHF_ok.mpr (by rw [hs]; rfl)⟩

theorem values_ok {cseq callId fr0m : SipHeader} {v : (ℤ × Text) × Text × Option Text} :
    values autoconvert cseq callId fr0m = .ok v ↔
      cseq.getCSeq = .ok v.1 ∧ callId.text = v.2.1 ∧ fr0m.getTag autoconvert = .ok v.2.2 := by
  constructor
  · intro h
    obtain ⟨num, hnum, h⟩ := Lib.bind_ok.mp h
    obtain ⟨tag, htag, h⟩ := Lib.bind_ok.mp h
    cases h
    exact ⟨hnum, rfl, htag⟩
  · rintro ⟨hnum, htext, htag⟩
    rw [values, hnum, htag, htext]
    rfl

theorem getTId_ok {wCSM wBRN wTTG : Bool} {t : SipMsg.Tid} : m.getTId autoconvert wCSM wBRN wTTG = .ok t ↔
    ∃ cseq callId fr0m method, m.dictHF cseqName = .ok cseq ∧ m.dictHF callIdName = .ok callId ∧
      m.dictHF fromName = .ok fr0m ∧
      values autoconvert cseq callId fr0m = .ok ((t.cseq, method), t.callId, t.tag) ∧
      t.method = (if wCSM then some method else none) ∧
      SipMsg.asked wBRN (m.getHF viaName >>= SipHeader.getBranch) = .ok t.branch ∧
      SipMsg.asked wTTG (m.getHF toName >>= SipHeader.getTag autoconvert) = .ok t.toTag := by
  constructor
  · intro h
    obtain ⟨cseq, hcseq, h⟩ := Lib.bind_ok.mp h
    obtain ⟨⟨num, method⟩, hnum, h⟩ := Lib.bind_ok.mp h
    obtain ⟨callId, hcallId, h⟩ := Lib.bind_ok.mp h
    obtain ⟨fr0m, hfr0m, h⟩ := Lib.bind_ok.mp h
    obtain ⟨tag, htag, h⟩ := Lib.bind_ok.mp h
    obtain ⟨branch, hbranch, h⟩ := Lib.bind_ok.mp h
    obtain ⟨toTag, htoTag, h⟩ := Lib.bind_ok.mp h
    cases h
    exact ⟨cseq, callId, fr0m, method, hcseq, hcallId, hfr0m, values_ok.mpr ⟨hnum, rfl, htag⟩, rfl, hbranch, htoTag⟩
  · rintro ⟨cseq, callId, fr0m, method, hcseq, hcallId, hfr0m, hvalues, hmethod, hbranch, htoTag⟩
    obtain ⟨hnum, htext, htag⟩ := values_ok.mp hvalues
    refine Lib.bind_ok.mpr ⟨cseq, hcseq, Lib.bind_ok.mpr ⟨_, hnum, Lib.bind_ok.mpr ⟨callId, hcallId,
      Lib.bind_ok.mpr ⟨fr0m, hfr0m, Lib.bind_ok.mpr ⟨_, htag, Lib.bind_ok.mpr ⟨_, hbranch,
        Lib.bind_ok.mpr ⟨_, htoTag, ?_⟩⟩⟩⟩⟩⟩⟩
    cases t
    dsimp only at htext hmethod ⊢
    rw [htext, hmethod]
    rfl

theorem firsts_iff {t : SipMsg.Tid} (h : ∃ cseq callId fr0m method, m.getHF cseqName = .ok cseq ∧
    m.getHF callIdName = .ok callId ∧ m.getHF fromName = .ok fr0m ∧
      values autoconvert cseq callId fr0m = .ok ((t.cseq, method), t.callId, t.tag) ∧ ∀ x ∈ t.method, x = method) :
    m.Firsts autoconvert t := by
  obtain ⟨cseq, callId, fr0m, method, hcseq, hcallId, hfr0m, hvalues, hmethod⟩ := h
  obtain ⟨hnum, htext, htag⟩ := values_ok.mp hvalues
  have hnum' : m.firstCSeq = .ok (t.cseq, method) := by
    rw [SipMsg.firstCSeq, hcseq]
    exact hnum
  have htag' : m.getHF fromName >>= SipHeader.getTag autoconvert = .ok t.tag := by
    rw [hfr0m]
    exact htag
  refine ⟨?_, htag', ⟨method, hnum', hmethod⟩, ?_⟩
  · rw [hcallId]
    exact congrArg Except.ok htext
  · intro d hd
    obtain ⟨callId', hcallId', hd⟩ := Lib.bind_ok.mp hd
    obtain ⟨fr0m', hfr0m', hd⟩ := Lib.bind_ok.mp hd
    obtain ⟨tag, htag'', hd⟩ := Lib.bind_ok.mp hd
    obtain ⟨toHF, -, hd⟩ := Lib.bind_ok.mp hd
    obtain ⟨toTag, -, hd⟩ := Lib.bind_ok.mp hd
    cases hd
    obtain rfl := Except.ok.inj (hcallId'.symm.trans hcallId)
    obtain rfl := Except.ok.inj (hfr0m'.symm.trans hfr0m)
    exact ⟨htext, Except.ok.inj (htag''.symm.trans htag)⟩

theorem agree_first {cseq callId fr0m : SipHeader} {v : (ℤ × Text) × Text × Option Text}
    (hagree : m.Agree autoconvert) (hcseq : m.dictHF cseqName = .ok cseq) (hcallId : m.dictHF callIdName = .ok callId)
    (hfr0m : m.dictHF fromName = .ok fr0m) (hvalues : values autoconvert cseq callId fr0m = .ok v) :
    ∃ cseq callId fr0m, m.getHF cseqName = .ok cseq ∧ m.getHF callIdName = .ok callId ∧
      m.getHF fromName = .ok fr0m ∧ values autoconvert cseq callId fr0m = .ok v := by
  have hcseq' := (dictHF_ok (by decide)).mp hcseq
  have hcallId' := (dictHF_ok (by decide)).mp hcallId
  have hfr0m' := (dictHF_ok (by decide)).mp hfr0m
  obtain ⟨cseq₀, hcseq₀⟩ := first_of_last hcseq'
  obtain ⟨callId₀, hcallId₀⟩ := first_of_last hcallId'
  obtain ⟨fr0m₀, hfr0m₀⟩ := first_of_last hfr0m'
  exact ⟨cseq₀, callId₀, fr0m₀, hcseq₀, hcallId₀, hfr0m₀, hagree cseq callId fr0m hcseq' hcallId' hfr0m' cseq₀
    callId₀ fr0m₀ (getHF_ok.mp hcseq₀) (getHF_ok.mp hcallId₀) (getHF_ok.mp hfr0m₀) v hvalues⟩

@[simp] theorem copied_name (name : Text) (h : SipHeader) : (SipMsg.copied name h).name = name := rfl
@[simp] theorem copied_text (name : Text) (h : SipHeader) : (SipMsg.copied name h).text = h.text := rfl

theorem filter_copied (hs : List SipHeader) (n name : Text) :
    (hs.map (SipMsg.copied n)).filter (fun x => x.name = name) =
      if n = name then hs.map (SipMsg.copied n) else [] := by
  rw [List.filter_map]
  split
  · rename_i h
    have hall : (fun x : SipHeader => decide (x.name = name)) ∘ SipMsg.copied n = fun _ => true := by
      funext x
      simp [h]
    rw [hall, List.filter_true]
  · rename_i h
    have hnone : (fun x : SipHeader => decide (x.name = name)) ∘ SipMsg.copied n = fun _ => false := by
      funext x
      simp [h]
    rw [hnone, List.filter_false, List.map_nil]

theorem genResponse_getHFs {startLine : StartLine} {body : Option MsgBody} {server : Option Text}
    {extReason : Option HF} {r : SipMsg} (h : m.genResponse startLine body server extReason = .ok r) :
    ∃ fr0m callId toHF cseq, m.getHF fromName = .ok fr0m ∧ m.getHF callIdName = .ok callId ∧
      m.getHF toName = .ok toHF ∧ m.getHF cseqName = .ok cseq ∧
      r.getHFs viaName = (m.getHFs viaName).map (SipMsg.copied viaName) ∧
      r.getHFs fromName = [SipMsg.copied fromName fr0m] ∧ r.getHFs toName = [SipMsg.copied toName toHF] ∧
      r.getHFs callIdName = [SipMsg.copied callIdName callId] ∧
      r.getHFs cseqName = [SipMsg.copied cseqName cseq] := by
  obtain ⟨hs, hhs, rfl⟩ := Lib.map_ok.mp h
  obtain ⟨fr0m, hfr0m, hhs⟩ := Lib.bind_ok.mp hhs
  obtain ⟨callId, hcallId, hhs⟩ := Lib.bind_ok.mp hhs
  obtain ⟨toHF, htoHF, hhs⟩ := Lib.bind_ok.mp hhs
  obtain ⟨cseq, hcseq, hhs⟩ := Lib.bind_ok.mp hhs
  cases hhs
  have hserver (name : Text) (hname : name ≠ "server".toList) :
      ((server.map fun s => (⟨"server".toList, .raw .sipServer s⟩ : SipHeader)).toList.filter
        fun x => x.name = name) = [] := by
    cases server with
    | none => rfl
    | some s => simpa using hname.symm
  have hreason (name : Text) (hname : name ≠ "reason".toList) :
      ((extReason.map fun b => (⟨"reason".toList, b⟩ : SipHeader)).toList.filter
        fun x => x.name = name) = [] := by
    cases extReason with
    | none => rfl
    | some b => simpa using hname.symm
  have hone (n name : Text) (x : SipHeader) : [SipMsg.copied n x].filter (fun x => x.name = name) =
      if n = name then [SipMsg.copied n x] else [] := filter_copied [x] n name
  have hfour : [SipMsg.copied fromName fr0m, SipMsg.copied toName toHF, SipMsg.copied callIdName callId,
      SipMsg.copied cseqName cseq] = [SipMsg.copied fromName fr0m] ++ [SipMsg.copied toName toHF] ++
        [SipMsg.copied callIdName callId] ++ [SipMsg.copied cseqName cseq] := rfl
  refine ⟨fr0m, callId, toHF, cseq, hfr0m, hcallId, htoHF, hcseq, ?_, ?_, ?_, ?_, ?_⟩
  · rw [SipMsg.getHFs]
    simp only [List.filter_append, filter_copied, hfour, hone, reduceIte]
    rw [hserver _ (by decide), hreason _ (by decide), if_neg (by decide), if_neg (by decide), if_neg (by decide),
      if_neg (by decide), if_neg (by decide)]
    simp
  all_goals
    rw [SipMsg.getHFs]
    simp only [List.filter_append, filter_copied, hfour, hone, reduceIte]
    rw [hserver _ (by decide), hreason _ (by decide), if_neg (by decide), if_neg (by decide), if_neg (by decide),
      if_neg (by decide), if_neg (by decide)]
    rfl

theorem genResponse_getTId {startLine : StartLine} {body : Option MsgBody} {server : Option Text}
    {extReason : Option HF} {r : SipMsg} {wCSM wBRN wTTG : Bool} {t : SipMsg.Tid} (hagree : m.Agree autoconvert)
    (ht : m.getTId autoconvert wCSM wBRN wTTG = .ok t)
    (h : m.genResponse startLine body server extReason = .ok r) : r.getTId autoconvert wCSM wBRN wTTG = .ok t := by
  obtain ⟨cseq, callId, fr0m, method, hcseq, hcallId, hfr0m, hvalues, hmethod, hbranch, htoTag⟩ := getTId_ok.mp ht
  obtain ⟨cseq₀, callId₀, fr0m₀, hcseq₀, hcallId₀, hfr0m₀, hvalues₀⟩ :=
    agree_first hagree hcseq hcallId hfr0m hvalues
  obtain ⟨fr0m₁, callId₁, toHF, cseq₁, hfr0m₁, hcallId₁, htoHF, hcseq₁, hvia, hfrom, hto, hcall, hnum⟩ :=
    genResponse_getHFs h
  obtain rfl := Except.ok.inj (hcseq₀.symm.trans hcseq₁)
  obtain rfl := Except.ok.inj (hcallId₀.symm.trans hcallId₁)
  obtain rfl := Except.ok.inj (hfr0m₀.symm.trans hfr0m₁)
  have hlast {name : Text} {x : SipHeader} (hname : name ∈ [cseqName, callIdName, fromName])
      (hr : r.getHFs name = [SipMsg.copied name x]) : r.dictHF name = .ok (SipMsg.copied name x) := by
    rw [dictHF_ok hname, hr]
    rfl
  have hbranch' : r.getHF viaName >>= SipHeader.getBranch = m.getHF viaName >>= SipHeader.getBranch := by
    rw [SipMsg.getHF, SipMsg.getHF, hvia, List.head?_map]
    cases (m.getHFs viaName).head? <;> rfl
  have htoTag' : r.getHF toName >>= SipHeader.getTag autoconvert = m.getHF toName >>= SipHeader.getTag autoconvert := by
    rw [SipMsg.getHF, hto, htoHF]
    rfl
  refine getTId_ok.mpr ⟨_, _, _, method, hlast (by decide) hnum, hlast (by decide) hcall, hlast (by decide) hfrom,
    ?_, hmethod, ?_, ?_⟩
  · exact hvalues₀
  · rw [hbranch']
    exact hbranch
  · rw [htoTag']
    exact htoTag

/-- Whatever reads Call-ID, From and CSeq reads the same values exactly if the last of them agree with
the first. -/
theorem same_headers_iff (autoconvert : Bool) (m : SipMsg) : m.SameHeaders autoconvert ↔ m.Agree autoconvert := by
  constructor
  · intro h cseq callId fr0m hcseq hcallId hfr0m cseq₀ callId₀ fr0m₀ hcseq₀ hcallId₀ hfr0m₀ v hv
    have ht : m.getTId autoconvert true false false = .ok ⟨v.2.1, v.2.2, v.1.1, some v.1.2, none, none⟩ :=
      getTId_ok.mpr ⟨cseq, callId, fr0m, v.1.2, (dictHF_ok (by decide)).mpr hcseq,
        (dictHF_ok (by decide)).mpr hcallId, (dictHF_ok (by decide)).mpr hfr0m, hv, rfl, rfl, rfl⟩
    obtain ⟨htext, htag, ⟨method, hnum, hmethod⟩, -⟩ := h.tid true false false _ ht
    rw [getHF_ok.mpr hcallId₀] at htext
    rw [getHF_ok.mpr hfr0m₀] at htag
    rw [SipMsg.firstCSeq, getHF_ok.mpr hcseq₀, ← hmethod v.1.2 rfl] at hnum
    exact values_ok.mpr ⟨hnum, Except.ok.inj htext, htag⟩
  · intro h
    have hfirsts {t : SipMsg.Tid} {cseq callId fr0m : SipHeader} {method : Text} (hcseq : m.dictHF cseqName = .ok cseq)
        (hcallId : m.dictHF callIdName = .ok callId) (hfr0m : m.dictHF fromName = .ok fr0m)
        (hvalues : values autoconvert cseq callId fr0m = .ok ((t.cseq, method), t.callId, t.tag))
        (hmethod : ∀ x ∈ t.method, x = method) : m.Firsts autoconvert t := by
      obtain ⟨cseq₀, callId₀, fr0m₀, hcseq₀, hcallId₀, hfr0m₀, hvalues₀⟩ := agree_first h hcseq hcallId hfr0m hvalues
      exact firsts_iff ⟨cseq₀, callId₀, fr0m₀, method, hcseq₀, hcallId₀, hfr0m₀, hvalues₀, hmethod⟩
    refine ⟨?_, ?_, ?_⟩
    · intro wCSM wBRN wTTG t ht
      obtain ⟨cseq, callId, fr0m, method, hcseq, hcallId, hfr0m, hvalues, hmethod, -, -⟩ := getTId_ok.mp ht
      refine hfirsts hcseq hcallId hfr0m hvalues fun x hx => ?_
      rw [hmethod] at hx
      split at hx
      · exact (Option.mem_some_iff.mp hx).symm
      · exact absurd hx (by simp)
    · intro ts hts t ht
      obtain ⟨callId, hcallId, hts⟩ := Lib.bind_ok.mp hts
      obtain ⟨fr0m, hfr0m, hts⟩ := Lib.bind_ok.mp hts
      obtain ⟨tag, htag, hts⟩ := Lib.bind_ok.mp hts
      obtain ⟨cseq, hcseq, hts⟩ := Lib.bind_ok.mp hts
      obtain ⟨⟨num, method⟩, hnum, hts⟩ := Lib.bind_ok.mp hts
      obtain ⟨via, -, hvia⟩ := Lib.exists_of_forall₂ (Lib.mapM_ok.mp hts).flip ht
      obtain ⟨branch, -, hvia⟩ := Lib.bind_ok.mp hvia
      cases hvia
      exact hfirsts hcseq hcallId hfr0m (values_ok.mpr ⟨hnum, rfl, htag⟩) fun x hx => (Option.mem_some_iff.mp hx).symm
    · intro wCSM wBRN wTTG t startLine body server extReason r ht hr
      exact genResponse_getTId h ht hr

def twoCallIds : Text :=
  ("OPTIONS sip:h SIP/2.0\r\nVia: SIP/2.0/UDP h\r\nTo: <sip:h>\r\nFrom: <sip:h>;tag=1\r\n" ++
    "CSeq: 1 OPTIONS\r\nCall-ID: a\r\nCall-ID: b\r\n\r\n").toList

/-- The identifier has the second Call-ID; the dialog and the response have the first. -/
theorem two_call_ids : ∃ m, SipMsg.ofText (fun _ => true) .sipRequest twoCallIds = .ok m ∧
    ¬ m.SameHeaders false := by
  have hread : (SipMsg.ofText (fun _ => true) .sipRequest twoCallIds).map (fun m =>
      ((m.getTId false false false false).map SipMsg.Tid.callId, (m.getHF callIdName).map SipHeader.text)) =
        .ok (.ok "b".toList, .ok "a".toList) := by decide +kernel
  obtain ⟨m, hm, hpair⟩ := Lib.map_ok.mp hread
  refine ⟨m, hm, fun h => ?_⟩
  obtain ⟨htid, hcallId⟩ := Prod.mk.inj hpair
  obtain ⟨t, ht, hlast⟩ := Lib.map_ok.mp htid
  have hfirst := (h.tid false false false t ht).callId
  rw [hlast, hcallId] at hfirst
  exact absurd hfirst (by decide)

end SippyB2bua.Wire
