import SippyB2bua.Lib.Fallible
import SippyB2bua.Sdp

/-!
# Filtering the codecs of a description

The formats that the configuration allows are given by payload number or by the name of an encoding.
A name stands for the first payload number that a section maps to it; so the filter keeps one format
for each name, though the section may have several.
-/

namespace SippyB2bua.B2B
open Lib (Text)
open Lib.Text (split1 splitAll startsWith endsWith)
open Sdp

inductive AllowedPt
  | number (n : ℤ)
  | name (t : Text)
  deriving DecidableEq, Repr

/-- The option `allowed_pts`. -/
def allowedPts (value : Text) : Except Exn (List AllowedPt) :=
  (splitAll ',' value).mapM fun x =>
    if startsWith x ['['] ∧ endsWith x [']'] then .ok (.name (x.drop 1).dropLast)
    else do return .number (← int x)

def avTrtypes : List Text :=
  ["rtp/avp", "rtp/savp", "rtp/savpf", "udp/tls/rtp/savp", "udp/tls/rtp/savpf"].map String.toList

def isRtp (m : SdpMedia) : Bool := Text.lower m.transport ∈ avTrtypes

def getPTbyName (name : Text) : List AHeader → Except Exn (Option ℤ)
  | [] => .ok none
  | ah :: ahs =>
    if ah.name = "rtpmap".toList then
      match ah.value with
      | none => .error .attributeError
      | some value =>
        match split1 ' ' value with
        | (_, none) => .error .indexError
        | (pt, some encoding) => if encoding = name then do return some (← int pt) else getPTbyName name ahs
    else getPTbyName name ahs

/-- The payload number that a `rtpmap` or `fmtp` attribute is for. -/
def payloadOf (ah : AHeader) : Option ℤ :=
  if ah.name ∈ ["rtpmap".toList, "fmtp".toList] then ah.value.bind fun value => Lib.Text.int (split1 ' ' value).1
  else none

def payloads : Formats → List ℤ
  | .payloads pts => pts
  | .names _ => []

/-- `optimize_a` of a section with the given formats. -/
def optimizeA (formats : Formats) (ahs : List AHeader) : List AHeader :=
  ahs.filter fun ah => (payloadOf ah).all fun pt => pt ∈ payloads formats

/-- `[x for x in formats if x in pts]`; a format that is a text is not among numbers. -/
def keepFormats (pts : List (Option ℤ)) : Formats → Formats
  | .payloads xs => .payloads (xs.filter fun x => some x ∈ pts)
  | .names _ => .names []

/-- The payload numbers that are allowed in a section. -/
def resolve (allowed : List AllowedPt) (ahs : List AHeader) : Except Exn (List (Option ℤ)) :=
  allowed.mapM fun x =>
    match x with
    | .number n => .ok (some n)
    | .name t => getPTbyName t ahs

/-- The turn of the loop for a section. -/
def filterSect (allowed : List AllowedPt) (sect : SdpMediaDescription) : Except Exn SdpMediaDescription :=
  match sect.mHeader with
  | none => .error .attributeError
  | some mbody =>
    if isRtp mbody then do
      let pts ← resolve allowed sect.aHeaders
      let formats := keepFormats pts mbody.formats
      if formats.texts.length = 0 then .error .sdpParse
      else
        let sect' := { sect with mHeader := some { mbody with formats := formats } }
        if mbody.formats.texts.length > formats.texts.length then
          return { sect' with aHeaders := optimizeA formats sect.aHeaders }
        else return sect'
    else .ok sect

/-- `filter_SDP` of a body that was parsed. -/
def filterSections (allowed : List AllowedPt) (b : SdpBody) : Except Exn SdpBody := do
  return { b with sections := ← b.sections.mapM (filterSect allowed) }

/-- `filter_SDP`; the body goes on to the function that was in its place before, if there is one. -/
def filterSDP (mixed : Text → Except Exn Unit) (allowed : List AllowedPt)
    (prevOrc : Option (MsgBody → Except Exn (Option MsgBody))) (body : MsgBody) : Except Exn (Option MsgBody) :=
  match body.parse mixed with
  | .error _ => .error .sdpParse
  | .ok body =>
    match body.content with
    | .sdp b =>
      match filterSections allowed b with
      | .error e => .error e
      | .ok b => prevOrc.elim (.ok (some { body with content := .sdp b })) fun prevOrc =>
          prevOrc { body with content := .sdp b }
    | _ => .error .attributeError

/-- The payload number and the encoding of a `rtpmap` attribute. -/
def rtpmapOf (ah : AHeader) : Option (ℤ × Text) :=
  if ah.name = "rtpmap".toList then
    ah.value.bind fun value =>
      match split1 ' ' value with
      | (_, none) => none
      | (pt, some encoding) => (Lib.Text.int pt).map fun n => (n, encoding)
  else none

/-- A payload number of a section that the configuration permits, by itself or by its encoding. -/
def permits (allowed : List AllowedPt) (ahs : List AHeader) (n : ℤ) : Bool :=
  allowed.any fun x =>
    match x with
    | .number k => k == n
    | .name t => ahs.any fun ah => rtpmapOf ah == some (n, t)

def sieve (p : ℤ → Bool) : Formats → Formats
  | .payloads xs => .payloads (xs.filter p)
  | .names fs => .names (fs.filter fun f => (Lib.Text.int f).any p)

def numbersOf : Formats → List ℤ
  | .payloads xs => xs
  | .names fs => fs.filterMap Lib.Text.int

/-- The attributes that are left when formats are removed: all but those of the removed formats. -/
def leftAttributes (p : ℤ → Bool) (formats : Formats) (ahs : List AHeader) : List AHeader :=
  ahs.filter fun ah => ! (payloadOf ah).any fun n => decide (n ∈ numbersOf formats) && ! p n

def permitted (allowed : List AllowedPt) (sect : SdpMediaDescription) (m : SdpMedia) : SdpMediaDescription :=
  let p := permits allowed sect.aHeaders
  let formats := sieve p m.formats
  { sect with mHeader := some { m with formats := formats }, aHeaders :=
    if formats = m.formats then sect.aHeaders else leftAttributes p m.formats sect.aHeaders }

def permittedSect (allowed : List AllowedPt) (sect : SdpMediaDescription) : SdpMediaDescription :=
  match sect.mHeader with
  | none => sect
  | some m => if isRtp m then permitted allowed sect m else sect

def Prohibited (allowed : List AllowedPt) (sect : SdpMediaDescription) : Prop :=
  ∃ m, sect.mHeader = some m ∧ isRtp m ∧ (sieve (permits allowed sect.aHeaders) m.formats).texts = []

/-- The filter is exact. -/
def Exact (allowed : List AllowedPt) (b : SdpBody) : Except Exn SdpBody → Prop
  | .error e => e = .sdpParse ∧ ∃ sect ∈ b.sections, Prohibited allowed sect
  | .ok b' => b' = { b with sections := b.sections.map (permittedSect allowed) }

/-- Every name finds a number or none. -/
def Resolves (allowed : List AllowedPt) (ahs : List AHeader) : Prop :=
  ∀ t, .name t ∈ allowed → ∃ o, getPTbyName t ahs = .ok o

/-- A payload number that is listed, or that is the first with a listed name. -/
def picks (allowed : List AllowedPt) (ahs : List AHeader) (n : ℤ) : Bool :=
  allowed.any fun x =>
    match x with
    | .number k => k == n
    | .name t =>
      match getPTbyName t ahs with
      | .ok (some k) => k == n
      | _ => false

section Sect
variable {allowed : List AllowedPt} {ahs : List AHeader} {sect sect' : SdpMediaDescription} {m : SdpMedia}
  {t : Text} {n : ℤ} {e : Exn}

theorem int_raises {s : Text} (h : int s = .error e) : e = .valueError := by
  unfold int at h
  cases hs : Lib.Text.int s with
  | none =>
    rw [hs] at h
    cases h
    rfl
  | some n =>
    rw [hs] at h
    exact nomatch h

/-- What `getPTbyName` raises is not what the filter raises for its policy. -/
theorem getPTbyName_raises (h : getPTbyName t ahs = .error e) : e ≠ .sdpParse := by
  induction ahs with
  | nil => exact nomatch h
  | cons ah ahs ih =>
    unfold getPTbyName at h
    split at h
    · split at h
      · cases h
        decide
      · split at h
        · cases h
          decide
        · split at h
          · rename_i pt _ _ _
            cases hpt : int pt with
            | error e' =>
              rw [hpt] at h
              cases h
              rw [int_raises hpt]
              decide
            | ok k =>
              rw [hpt] at h
              exact nomatch h
          · exact ih h
    · exact ih h

theorem getPTbyName_mem (h : getPTbyName t ahs = .ok (some n)) : ∃ ah ∈ ahs, rtpmapOf ah = some (n, t) := by
  induction ahs with
  | nil => exact nomatch h
  | cons ah ahs ih =>
    have hlater (h : getPTbyName t ahs = .ok (some n)) : ∃ x ∈ ah :: ahs, rtpmapOf x = some (n, t) := by
      obtain ⟨x, hx, hmap⟩ := ih h
      exact ⟨x, List.mem_cons_of_mem _ hx, hmap⟩
    unfold getPTbyName at h
    split at h
    · rename_i hname
      split at h
      · exact nomatch h
      · rename_i value hvalue
        split at h
        · exact nomatch h
        · rename_i pt encoding hsplit
          split at h
          · rename_i hencoding
            refine ⟨ah, List.mem_cons_self, ?_⟩
            obtain ⟨k, hk, hsome⟩ := Lib.bind_ok.mp h
            cases hsome
            have hint : Lib.Text.int pt = some n := by
              unfold int at hk
              cases hpt : Lib.Text.int pt with
              | none =>
                rw [hpt] at hk
                exact nomatch hk
              | some k =>
                rw [hpt] at hk
                cases hk
                rfl
            rw [rtpmapOf, if_pos hname, hvalue, Option.bind_some, hsplit]
            dsimp only
            rw [hint, hencoding]
            rfl
          · exact hlater h
    · exact hlater h

theorem permits_of_picks (h : picks allowed ahs n = true) : permits allowed ahs n = true := by
  obtain ⟨x, hx, hpick⟩ := List.any_eq_true.mp h
  apply List.any_eq_true.mpr
  refine ⟨x, hx, ?_⟩
  cases x with
  | number k => exact hpick
  | name t =>
    dsimp only at hpick ⊢
    split at hpick
    · rename_i k hk
      obtain ⟨ah, hmem, hmap⟩ := getPTbyName_mem hk
      apply List.any_eq_true.mpr
      refine ⟨ah, hmem, ?_⟩
      rw [← eq_of_beq hpick, hmap]
      exact beq_self_eq_true _
    · exact absurd hpick Bool.false_ne_true

theorem resolve_raises (h : resolve allowed ahs = .error e) : e ≠ .sdpParse ∧ ¬ Resolves allowed ahs := by
  obtain ⟨pre, x, post, hsplit, -, hx⟩ := Lib.mapM_error.mp h
  cases x with
  | number k => exact nomatch hx
  | name t =>
    refine ⟨getPTbyName_raises hx, fun hres => ?_⟩
    obtain ⟨o, ho⟩ := hres t (by rw [hsplit]; simp)
    dsimp only at hx
    rw [ho] at hx
    exact nomatch hx

theorem resolve_returns {pts : List (Option ℤ)} (h : resolve allowed ahs = .ok pts) :
    Resolves allowed ahs ∧ ∀ n, some n ∈ pts ↔ picks allowed ahs n = true := by
  have hall := Lib.mapM_ok.mp h
  constructor
  · intro t ht
    obtain ⟨o, -, ho⟩ := Lib.exists_of_forall₂ hall ht
    exact ⟨o, ho⟩
  · intro n
    unfold picks
    clear h
    induction hall with
    | nil => exact iff_of_false List.not_mem_nil Bool.false_ne_true
    | @cons x y xs ys hxy _ ih =>
      rw [List.mem_cons, List.any_cons, Bool.or_eq_true, ← ih]
      apply or_congr_left
      cases x with
      | number k =>
        cases hxy
        rw [Option.some_inj, beq_iff_eq]
        exact eq_comm
      | name t =>
        dsimp only at hxy ⊢
        rw [hxy]
        cases y with
        | none => exact iff_of_false (Option.some_ne_none n) Bool.false_ne_true
        | some k =>
          rw [Option.some_inj, beq_iff_eq]
          exact eq_comm

def Passes (allowed : List AllowedPt) (sect : SdpMediaDescription) : Prop :=
  ∀ m ∈ sect.mHeader, isRtp m = true →
    Resolves allowed sect.aHeaders ∧ ∃ n ∈ payloads m.formats, picks allowed sect.aHeaders n = true

def Emptied (allowed : List AllowedPt) (sect : SdpMediaDescription) : Prop :=
  ∃ m, sect.mHeader = some m ∧ isRtp m = true ∧ Resolves allowed sect.aHeaders ∧
    ∀ n ∈ payloads m.formats, picks allowed sect.aHeaders n = false

/-- What the filter makes of a section that passes. -/
def pickedSect (allowed : List AllowedPt) (sect : SdpMediaDescription) : SdpMediaDescription :=
  match sect.mHeader with
  | none => sect
  | some m =>
    if isRtp m then
      let xs := payloads m.formats
      let kept := xs.filter (picks allowed sect.aHeaders)
      { sect with mHeader := some { m with formats := .payloads kept }, aHeaders :=
        if kept = xs then sect.aHeaders else optimizeA (.payloads kept) sect.aHeaders }
    else sect

theorem filter_length_lt {p : ℤ → Bool} (xs : List ℤ) : xs.length > (xs.filter p).length ↔ xs.filter p ≠ xs := by
  constructor
  · intro h heq
    rw [heq] at h
    exact absurd h (lt_irrefl _)
  · intro h
    exact lt_of_le_of_ne (List.length_filter_le p xs) fun heq => h (List.filter_sublist.eq_of_length heq)

/-- The turn of a section: its names do not resolve, nothing is picked, or it passes. -/
theorem filterSect_cases (hm : sect.mHeader.isSome) :
    (∃ e, filterSect allowed sect = .error e ∧ e ≠ .sdpParse ∧ ¬ Passes allowed sect ∧ ¬ Emptied allowed sect) ∨
      (filterSect allowed sect = .error .sdpParse ∧ Emptied allowed sect ∧ ¬ Passes allowed sect) ∨
      filterSect allowed sect = .ok (pickedSect allowed sect) ∧ Passes allowed sect ∧ ¬ Emptied allowed sect := by
  obtain ⟨m, hm⟩ := Option.isSome_iff_exists.mp hm
  by_cases hrtp : isRtp m = true
  · cases hres : resolve allowed sect.aHeaders with
    | error e =>
      obtain ⟨hne, hno⟩ := resolve_raises hres
      refine .inl ⟨e, ?_, hne, fun h => hno (h m hm hrtp).1, ?_⟩
      · rw [filterSect, hm]
        dsimp only
        rw [if_pos hrtp, hres]
        rfl
      · rintro ⟨m', hm', -, h, -⟩
        exact hno h
    | ok pts =>
      obtain ⟨hyes, hpicks⟩ := resolve_returns hres
      have hkeep (xs : List ℤ) : xs.filter (fun x => some x ∈ pts) = xs.filter (picks allowed sect.aHeaders) := by
        apply List.filter_congr
        intro x _
        rw [Bool.eq_iff_iff, decide_eq_true_eq]
        exact hpicks x
      by_cases hnone : ∀ n ∈ payloads m.formats, picks allowed sect.aHeaders n = false
      · refine .inr (.inl ⟨?_, ⟨m, hm, hrtp, hyes, hnone⟩, fun h => ?_⟩)
        · have hempty : (keepFormats pts m.formats).texts.length = 0 := by
            cases hf : m.formats with
            | names fs => rfl
            | payloads xs =>
              rw [hf] at hnone
              have hfilter : xs.filter (picks allowed sect.aHeaders) = [] :=
                List.filter_eq_nil_iff.mpr fun x hx => by simp [hnone x hx]
              rw [keepFormats, hkeep, hfilter]
              rfl
          rw [filterSect, hm]
          dsimp only
          rw [if_pos hrtp, hres, Lib.ok_bind, if_pos hempty]
        · obtain ⟨n, hn, hpick⟩ := (h m hm hrtp).2
          rw [hnone n hn] at hpick
          exact absurd hpick Bool.false_ne_true
      · obtain ⟨n, hn, hpick⟩ : ∃ n ∈ payloads m.formats, picks allowed sect.aHeaders n = true := by
          simpa using hnone
        refine .inr (.inr ⟨?_, fun m' hm' _ => ?_, fun h => ?_⟩)
        · cases hf : m.formats with
          | names fs =>
            rw [hf] at hn
            exact absurd hn List.not_mem_nil
          | payloads xs =>
            have hpayloads : payloads m.formats = xs := by
              rw [hf]
              rfl
            rw [hpayloads] at hn
            have hmem : n ∈ xs.filter (picks allowed sect.aHeaders) := List.mem_filter.mpr ⟨hn, hpick⟩
            have hne : (Formats.payloads (xs.filter (picks allowed sect.aHeaders))).texts.length ≠ 0 := by
              rw [Formats.texts, List.length_map]
              exact (List.length_pos_of_mem hmem).ne'
            have hlen := @filter_length_lt (picks allowed sect.aHeaders) xs
            rw [filterSect, pickedSect, hm]
            dsimp only
            rw [if_pos hrtp, if_pos hrtp, hres, Lib.ok_bind, hpayloads, hf, keepFormats, hkeep, if_neg hne]
            simp only [Formats.texts, List.length_map]
            by_cases heq : xs.filter (picks allowed sect.aHeaders) = xs
            · rw [if_neg fun h => hlen.mp h heq, if_pos heq]
              rfl
            · rw [if_pos (hlen.mpr heq), if_neg heq]
              rfl
        · cases hm.symm.trans hm'
          exact ⟨hyes, n, hn, hpick⟩
        · obtain ⟨m', hm', -, -, hno⟩ := h
          cases hm.symm.trans hm'
          rw [hno n hn] at hpick
          exact absurd hpick Bool.false_ne_true
  · refine .inr (.inr ⟨?_, fun m' hm' hrtp' => ?_, fun h => ?_⟩)
    · rw [filterSect, pickedSect, hm]
      dsimp only
      rw [if_neg hrtp, if_neg hrtp]
    · cases hm.symm.trans hm'
      exact absurd hrtp' hrtp
    · obtain ⟨m', hm', hrtp', -⟩ := h
      cases hm.symm.trans hm'
      exact absurd hrtp' hrtp

/-- A section that the filter handles exactly: its names resolve, some format is picked, every permitted
format is, and with a format removed each `rtpmap` and `fmtp` attribute is for a format of the section. -/
structure Handles (allowed : List AllowedPt) (sect : SdpMediaDescription) (m : SdpMedia) : Prop where
  resolves : Resolves allowed sect.aHeaders
  some_picked : ∃ n ∈ payloads m.formats, picks allowed sect.aHeaders n = true
  all_picked : ∀ n ∈ payloads m.formats, permits allowed sect.aHeaders n = true → picks allowed sect.aHeaders n = true
  listed : (∃ n ∈ payloads m.formats, permits allowed sect.aHeaders n = false) →
    ∀ ah ∈ sect.aHeaders, ∀ n ∈ payloadOf ah, n ∈ payloads m.formats

theorem filter_eq_iff {α : Type} {p q : α → Bool} {l : List α} : l.filter p = l.filter q ↔ ∀ x ∈ l, p x = q x := by
  constructor
  · intro h x hx
    have hmem : x ∈ l.filter p ↔ x ∈ l.filter q := by rw [h]
    rw [List.mem_filter, List.mem_filter] at hmem
    rw [Bool.eq_iff_iff]
    exact ⟨fun hp => (hmem.mp ⟨hx, hp⟩).2, fun hq => (hmem.mpr ⟨hx, hq⟩).2⟩
  · exact fun h => List.filter_congr h

/-- The attributes that `optimize_a` leaves are those that should be left, if each is for a format of the section. -/
theorem optimizeA_eq_iff {p : ℤ → Bool} {xs : List ℤ} :
    optimizeA (.payloads (xs.filter p)) ahs = leftAttributes p (.payloads xs) ahs ↔
      ∀ ah ∈ ahs, ∀ n ∈ payloadOf ah, n ∈ xs := by
  unfold optimizeA leftAttributes
  rw [filter_eq_iff]
  apply forall₂_congr
  intro ah _
  cases payloadOf ah with
  | none => simp
  | some n =>
    simp only [Option.all_some, Option.any_some, payloads, numbersOf, List.mem_filter, Option.mem_some_iff,
      forall_eq']
    by_cases hn : n ∈ xs <;> cases hp : p n <;> simp [hn]

/-- What passes is filtered exactly if it is handled exactly. -/
theorem pickedSect_eq_iff (hm : sect.mHeader = some m) (hrtp : isRtp m = true) (hpass : Passes allowed sect) :
    pickedSect allowed sect = permittedSect allowed sect ↔ Handles allowed sect m := by
  obtain ⟨hres, n, hn, hpick⟩ := hpass m hm hrtp
  obtain ⟨xs, hf⟩ : ∃ xs, m.formats = .payloads xs := by
    cases hf : m.formats with
    | payloads xs => exact ⟨xs, rfl⟩
    | names fs =>
      rw [hf] at hn
      exact absurd hn List.not_mem_nil
  have hxs : payloads m.formats = xs := by
    rw [hf]
    rfl
  rw [pickedSect, permittedSect, hm]
  dsimp only
  have hsieve : sieve (permits allowed sect.aHeaders) (.payloads xs) =
      .payloads (xs.filter (permits allowed sect.aHeaders)) := rfl
  rw [if_pos hrtp, if_pos hrtp, hxs, permitted, hf, hsieve]
  have hall : xs.filter (picks allowed sect.aHeaders) = xs.filter (permits allowed sect.aHeaders) ↔
      ∀ n ∈ xs, permits allowed sect.aHeaders n = true → picks allowed sect.aHeaders n = true := by
    rw [filter_eq_iff]
    apply forall₂_congr
    intro k _
    rw [Bool.eq_iff_iff]
    exact ⟨fun h => h.mpr, fun h => ⟨permits_of_picks, h⟩⟩
  constructor
  · intro heq
    have hformats : xs.filter (picks allowed sect.aHeaders) = xs.filter (permits allowed sect.aHeaders) := by
      have hheader := congrArg SdpMediaDescription.mHeader heq
      dsimp only at hheader
      have hmedia := congrArg SdpMedia.formats (Option.some.inj hheader)
      exact Formats.payloads.inj hmedia
    refine ⟨hres, ⟨n, hn, hpick⟩, hxs ▸ hall.mp hformats, fun hremoved => ?_⟩
    rw [hxs] at hremoved ⊢
    obtain ⟨k, hk, hno⟩ := hremoved
    have hne : xs.filter (permits allowed sect.aHeaders) ≠ xs := by
      intro hsame
      rw [← hsame] at hk
      rw [(List.mem_filter.mp hk).2] at hno
      exact absurd hno.symm Bool.false_ne_true
    have hattrs := congrArg SdpMediaDescription.aHeaders heq
    dsimp only at hattrs
    rw [hformats, if_neg hne, if_neg fun h => hne (Formats.payloads.inj h)] at hattrs
    exact optimizeA_eq_iff.mp hattrs
  · rintro ⟨-, -, hpicked, hlisted⟩
    rw [hxs] at hpicked hlisted
    have hformats := hall.mpr hpicked
    rw [hformats]
    by_cases hsame : xs.filter (permits allowed sect.aHeaders) = xs
    · rw [if_pos hsame, if_pos (congrArg Formats.payloads hsame)]
    · have hremoved : ∃ n ∈ xs, permits allowed sect.aHeaders n = false := by
        by_contra hno
        apply hsame
        apply List.filter_eq_self.mpr
        intro k hk
        cases hp : permits allowed sect.aHeaders k with
        | true => rfl
        | false => exact absurd ⟨k, hk, hp⟩ hno
      rw [if_neg hsame, if_neg fun h => hsame (Formats.payloads.inj h), optimizeA_eq_iff.mpr (hlisted hremoved)]

end Sect

/-- The first section that does not let the loop go on is one in which nothing is picked. -/
def Refused (allowed : List AllowedPt) (b : SdpBody) : Prop :=
  ∃ pre sect post, b.sections = pre ++ sect :: post ∧ (∀ s ∈ pre, Passes allowed s) ∧ Emptied allowed sect

/-- When the filter is exact: it refuses a description that has a prohibited section, or it handles every
RTP section exactly. -/
def Sieves (allowed : List AllowedPt) (b : SdpBody) : Prop :=
  (Refused allowed b ∧ ∃ sect ∈ b.sections, Prohibited allowed sect) ∨
    ∀ sect ∈ b.sections, ∀ m ∈ sect.mHeader, isRtp m = true → Handles allowed sect m

section Body
variable {allowed : List AllowedPt} {b b' : SdpBody} {e : Exn}

theorem filterSections_ok : filterSections allowed b = .ok b' ↔
    ∃ sections, b.sections.mapM (filterSect allowed) = .ok sections ∧ { b with sections := sections } = b' := by
  unfold filterSections
  rw [Lib.bind_ok]
  apply exists_congr
  intro sections
  rw [and_congr_right_iff]
  exact fun _ => ⟨Except.ok.inj, fun h => congrArg Except.ok h⟩

theorem filterSections_error (h : filterSections allowed b = .error e) :
    b.sections.mapM (filterSect allowed) = .error e := by
  unfold filterSections at h
  cases hs : b.sections.mapM (filterSect allowed) with
  | error e' =>
    rw [hs] at h
    cases h
    rfl
  | ok sections =>
    rw [hs] at h
    exact nomatch h

theorem passes_ok {sect : SdpMediaDescription} (hm : sect.mHeader.isSome) :
    (∃ s, filterSect allowed sect = .ok s) ↔ Passes allowed sect := by
  rcases @filterSect_cases allowed sect hm with ⟨e, h, -, hno, -⟩ | ⟨h, -, hno⟩ | ⟨h, hyes, -⟩
  · rw [h]
    exact iff_of_false (fun ⟨_, h⟩ => nomatch h) hno
  · rw [h]
    exact iff_of_false (fun ⟨_, h⟩ => nomatch h) hno
  · exact iff_of_true ⟨_, h⟩ hyes

theorem emptied_error {sect : SdpMediaDescription} (hm : sect.mHeader.isSome) :
    filterSect allowed sect = .error .sdpParse ↔ Emptied allowed sect := by
  rcases @filterSect_cases allowed sect hm with ⟨e, h, hne, -, hno⟩ | ⟨h, hyes, -⟩ | ⟨h, -, hno⟩
  · rw [h]
    exact iff_of_false (fun h => hne (Except.error.inj h)) hno
  · exact iff_of_true h hyes
  · rw [h]
    exact iff_of_false (fun h => nomatch h) hno

theorem refused_iff (hm : ∀ sect ∈ b.sections, sect.mHeader.isSome) :
    b.sections.mapM (filterSect allowed) = .error .sdpParse ↔ Refused allowed b := by
  rw [Lib.mapM_error]
  apply exists_congr
  intro pre
  apply exists_congr
  intro sect
  apply exists_congr
  intro post
  apply and_congr_right
  intro hsplit
  have hpre (s : SdpMediaDescription) (hs : s ∈ pre) : s.mHeader.isSome := hm s (by rw [hsplit]; simp [hs])
  have hsect : sect.mHeader.isSome := hm sect (by rw [hsplit]; simp)
  rw [emptied_error hsect]
  apply and_congr_left
  intro _
  exact forall₂_congr fun s hs => passes_ok (hpre s hs)

/-- The loop gives every section what it should have exactly if it handles each RTP section exactly. -/
theorem handled_iff (hm : ∀ sect ∈ b.sections, sect.mHeader.isSome) :
    b.sections.mapM (filterSect allowed) = .ok (b.sections.map (permittedSect allowed)) ↔
      ∀ sect ∈ b.sections, ∀ m ∈ sect.mHeader, isRtp m = true → Handles allowed sect m := by
  rw [Lib.mapM_ok, List.forall₂_map_right_iff, List.forall₂_same]
  apply forall₂_congr
  intro sect hsect
  have hsome := hm sect hsect
  constructor
  · intro h m hmh hrtp
    have hpass := (passes_ok hsome).mp ⟨_, h⟩
    rcases @filterSect_cases allowed sect hsome with ⟨e, h', -⟩ | ⟨h', -⟩ | ⟨h', -⟩
    · exact nomatch h.symm.trans h'
    · exact nomatch h.symm.trans h'
    · have heq := Except.ok.inj (h'.symm.trans h)
      exact (pickedSect_eq_iff hmh hrtp hpass).mp heq
  · intro h
    obtain ⟨m, hmh⟩ := Option.isSome_iff_exists.mp hsome
    have hpass : Passes allowed sect := fun m' hm' hrtp => ⟨(h m' hm' hrtp).resolves, (h m' hm' hrtp).some_picked⟩
    rcases @filterSect_cases allowed sect hsome with ⟨e, -, -, hno, -⟩ | ⟨-, -, hno⟩ | ⟨h', -⟩
    · exact absurd hpass hno
    · exact absurd hpass hno
    · rw [h']
      by_cases hrtp : isRtp m = true
      · rw [(pickedSect_eq_iff hmh hrtp hpass).mpr (h m hmh hrtp)]
      · rw [pickedSect, permittedSect, hmh]
        dsimp only
        rw [if_neg hrtp, if_neg hrtp]

theorem filterSections_exact_iff (hm : ∀ sect ∈ b.sections, sect.mHeader.isSome) :
    Exact allowed b (filterSections allowed b) ↔ Sieves allowed b := by
  have hrefused := @refused_iff allowed b hm
  have hhandled := @handled_iff allowed b hm
  unfold Sieves
  rw [← hrefused, ← hhandled]
  cases hf : filterSections allowed b with
  | error e =>
    have herror := filterSections_error hf
    rw [herror, Exact]
    constructor
    · rintro ⟨rfl, hprohibited⟩
      exact .inl ⟨rfl, hprohibited⟩
    · rintro (⟨h, hprohibited⟩ | h)
      · exact ⟨Except.error.inj h, hprohibited⟩
      · exact nomatch h
  | ok b' =>
    obtain ⟨sections, hsections, rfl⟩ := filterSections_ok.mp hf
    rw [hsections, Exact]
    constructor
    · intro h
      have heq := congrArg SdpBody.sections h
      exact .inr (congrArg Except.ok heq)
    · rintro (⟨h, -⟩ | h)
      · exact nomatch h
      · rw [Except.ok.inj h]

def handOn (prevOrc : Option (MsgBody → Except Exn (Option MsgBody))) (body : MsgBody) (b : SdpBody) :
    Except Exn (Option MsgBody) :=
  prevOrc.elim (.ok (some { body with content := .sdp b })) fun prevOrc => prevOrc { body with content := .sdp b }

theorem filterSDP_eq {mixed : Text → Except Exn Unit} {prevOrc : Option (MsgBody → Except Exn (Option MsgBody))}
    {body body' : MsgBody} (hparse : body.parse mixed = .ok body') (hb : body'.content = .sdp b) :
    filterSDP mixed allowed prevOrc body = filterSections allowed b >>= handOn prevOrc body' := by
  rw [filterSDP, hparse]
  dsimp only
  rw [hb]
  dsimp only
  cases filterSections allowed b with
  | error e => rfl
  | ok b' => rfl

theorem sane_media (h : b.sane = true) : ∀ sect ∈ b.sections, sect.mHeader.isSome := by
  intro sect hsect
  unfold SdpBody.sane at h
  simp only [Bool.and_eq_true, List.all_eq_true] at h
  exact (h.2 sect hsect).2

/-- What `filter_SDP` hands on is filtered exactly if the description can be sieved by its rules. -/
theorem filterSDP_exact_iff {mixed : Text → Except Exn Unit} {prevOrc : Option (MsgBody → Except Exn (Option MsgBody))}
    {body body' : MsgBody} (hparse : body.parse mixed = .ok body') (hb : body'.content = .sdp b) (hsane : b.sane = true) :
    filterSDP mixed allowed prevOrc body = filterSections allowed b >>= handOn prevOrc body' ∧
      (Exact allowed b (filterSections allowed b) ↔ Sieves allowed b) :=
  ⟨filterSDP_eq hparse hb, filterSections_exact_iff (sane_media hsane)⟩

end Body

def videoText : Text :=
  ("v=0\r\no=- 1 1 IN IP4 1.1.1.1\r\ns=-\r\nc=IN IP4 1.1.1.1\r\nt=0 0\r\nm=video 5000 RTP/AVP 96 97\r\n" ++
    "a=rtpmap:96 H264/90000\r\na=rtpmap:97 H264/90000\r\na=fmtp:97 packetization-mode=1\r\n").toList

def videoSect : SdpMediaDescription where
  mHeader := some ⟨"video".toList, 5000, "RTP/AVP".toList, .payloads [96, 97]⟩
  cHeader := some ⟨"IN".toList, "IP4".toList, "1.1.1.1".toList⟩
  headers := []
  aHeaders := ["rtpmap:96 H264/90000", "rtpmap:97 H264/90000", "fmtp:97 packetization-mode=1"].map fun s => .ofText s.toList
  needsUpdate := true

def videoOffer : SdpBody where
  oHeader := some ⟨"-".toList, .text "1".toList, .text "1".toList, "IN".toList, "IP4".toList, "1.1.1.1".toList⟩
  cHeader := none
  headers := [("v".toList, "0".toList), ("s".toList, "-".toList), ("t".toList, "0 0".toList)]
  aHeaders := []
  sections := [videoSect]

theorem videoOffer_parse : SdpBody.parse videoText = .ok videoOffer := by
  unfold videoText
  rewrite [String.toList_append, String.toList_ofList, String.toList_ofList]
  decide +kernel

def videoBody : MsgBody := ⟨.sdp videoOffer, some "application/sdp".toList, true, true⟩

theorem filterSDP_exact_videoBody :
    videoBody.parse (fun _ => .ok ()) = .ok videoBody ∧ videoOffer.sane = true ∧
      filterSDP (fun _ => .ok ()) [.number 96] none videoBody =
        filterSections [.number 96] videoOffer >>= handOn none videoBody ∧
      (Exact [.number 96] videoOffer (filterSections [.number 96] videoOffer) ↔ Sieves [.number 96] videoOffer) :=
  ⟨rfl, by decide, filterSDP_exact_iff rfl rfl (by decide)⟩

/-- The name is allowed, so both formats are; but only the first one is kept. -/
theorem videoOffer_halved :
    SdpBody.parse videoText = .ok videoOffer ∧ permits [.name "H264/90000".toList] videoSect.aHeaders 97 = true ∧
      (∃ b, filterSections [.name "H264/90000".toList] videoOffer = .ok b ∧
        b.sections.map (fun sect => sect.mHeader.map SdpMedia.formats) = [some (.payloads [96])]) ∧
      ¬ Exact [.name "H264/90000".toList] videoOffer (filterSections [.name "H264/90000".toList] videoOffer) := by
  have hfilter : filterSections [.name "H264/90000".toList] videoOffer =
      .ok { videoOffer with sections := [pickedSect [.name "H264/90000".toList] videoSect] } := by decide +kernel
  refine ⟨videoOffer_parse, by decide +kernel, ⟨_, hfilter, by decide +kernel⟩, ?_⟩
  rw [hfilter, Exact]
  decide +kernel

end SippyB2bua.B2B
