import Mathlib.Data.List.ReduceOption
import SippyB2bua.Lib.Fallible
import SippyB2bua.Rtpp.Offer

/-!
# The gateway between DTLS with ICE and plain RTP

A side that ends DTLS and ICE reads their attributes from each section and has them removed from
the section and from the session part when the proxy has agreed. An attribute of the session part is
for the sections that do not have it; DTLS is read so, ICE is not.
-/

namespace SippyB2bua.Rtpp
open Lib (Text)
open Sdp

def attrNames (as : List AHeader) : List Text := as.map AHeader.name

def iceUfrag : Text := "ice-ufrag".toList
def icePwd : Text := "ice-pwd".toList
def candidateName : Text := "candidate".toList

def secrets : List Text :=
  ["setup", "fingerprint", "ice-ufrag", "ice-pwd", "ice-options", "candidate"].map String.toList

def outside (a : AHeader) : Bool := a.name ∉ dtlsAttrsRm && a.name ∉ iceAttrsRm

/-- A `ssrc` attribute with a stream identifier. -/
def carriesMsid (a : AHeader) : Bool :=
  a.name == "ssrc".toList && a.value.any fun v =>
    match Text.wordsMax 1 v with
    | [_, attr] => Text.startsWith (Text.lower attr) "msid:".toList
    | _ => false

/-- The attributes of a section, and those of the session part that the section does not have itself. -/
def effective (b : SdpBody) (sect : SdpMediaDescription) : SdpMediaDescription :=
  { sect with aHeaders := sect.aHeaders ++ b.aHeaders.filter fun a => a.name ∉ attrNames sect.aHeaders }

/-- All sections are finished by the subcommands that end DTLS and ICE, as far as they get. -/
def finishAll : SdpBody → List SdpMediaDescription → (SdpBody × List SdpMediaDescription) × Option Exn
  | b, [] => ((b, []), none)
  | b, sect :: sects =>
    match sdpSectFins [.dedtls, .deice] b sect with
    | ((b, sect), some e) => ((b, sect :: sects), some e)
    | ((b, sect), none) =>
      let r := finishAll b sects
      ((r.1.1, sect :: r.1.2), r.2)

/-- The subcommands of every section are made as if it had the attributes that are in effect for it. -/
def Uses (b : SdpBody) : Prop := ∀ sect ∈ b.sections,
  subcommandDedtls b sect = subcommandDedtls { b with aHeaders := [] } (effective b sect) ∧
    subcommandDeice sect = subcommandDeice (effective b sect)

/-- The subcommands of every section can be made. -/
def Built (b : SdpBody) : Prop := ∀ sect ∈ b.sections,
  (∃ c, subcommandDedtls b sect = .ok c) ∧ ∃ c, subcommandDeice sect = .ok c

structure StrippedSect (sect sect' : SdpMediaDescription) : Prop where
  secret : ∀ a ∈ sect'.aHeaders, a.name ∉ secrets
  kept : sect'.aHeaders.filter outside = sect.aHeaders.filter fun a => outside a && !carriesMsid a

/-- What is left of a description when all its sections are finished. -/
structure Stripped (b : SdpBody) (r : (SdpBody × List SdpMediaDescription) × Option Exn) : Prop where
  returns : r.2 = none
  secret : ∀ a ∈ r.1.1.aHeaders, a.name ∉ secrets
  kept : r.1.1.aHeaders.filter outside = b.aHeaders.filter outside
  sections : List.Forall₂ StrippedSect b.sections r.1.2

/-- The attributes for ICE do not come from the session part: a section with credentials of its own has
candidates of its own or gets none for the proxy; and for one without, the session part has none either. -/
def IceIsOwn (b : SdpBody) (sect : SdpMediaDescription) : Prop :=
  if iceUfrag ∈ attrNames sect.aHeaders ∧ icePwd ∈ attrNames sect.aHeaders then
    candidateName ∈ attrNames sect.aHeaders ∨
      ∀ a ∈ b.aHeaders, a.name = candidateName → candidate a.value = .ok none
  else
    ¬ ((iceUfrag ∈ attrNames sect.aHeaders ∨ iceUfrag ∈ attrNames b.aHeaders) ∧
      (icePwd ∈ attrNames sect.aHeaders ∨ icePwd ∈ attrNames b.aHeaders))

section Values
variable {as bs : List AHeader} {n : Text} {sect : SdpMediaDescription} {b : SdpBody}

theorem firstValue_none : firstValue as n = none ↔ n ∉ attrNames as := by
  rw [firstValue, Option.map_eq_none_iff, List.find?_eq_none, attrNames, List.mem_map]
  constructor
  · rintro h ⟨a, ha, rfl⟩
    exact h a ha (beq_self_eq_true _)
  · intro h a ha heq
    exact h ⟨a, ha, eq_of_beq heq⟩

theorem firstValue_append (as bs : List AHeader) (n : Text) :
    firstValue (as ++ bs) n = (firstValue as n).or (firstValue bs n) := by
  rw [firstValue, List.find?_append]
  cases h : as.find? (fun a => a.name == n) with
  | none => simp [firstValue, h]
  | some a => simp [firstValue, h]

theorem firstValue_filter {p : AHeader → Bool} (h : ∀ a ∈ as, a.name = n → p a = true) :
    firstValue (as.filter p) n = firstValue as n := by
  rw [firstValue, List.find?_filter, firstValue]
  congr 1
  induction as with
  | nil => rfl
  | cons a as ih =>
    have ih' := ih fun x hx => h x (List.mem_cons_of_mem _ hx)
    rw [List.find?_cons, List.find?_cons]
    by_cases ha : a.name = n
    · have hp := h a List.mem_cons_self ha
      simp [ha, hp]
    · have hne : (a.name == n) = false := beq_eq_false_iff_ne.mpr ha
      simp only [hne, Bool.false_eq_true, and_false, decide_false]
      exact ih'

theorem firstValue_effective (b : SdpBody) (sect : SdpMediaDescription) (n : Text) :
    firstValue (effective b sect).aHeaders n = firstValue (sect.aHeaders ++ b.aHeaders) n := by
  rw [effective, firstValue_append, firstValue_append]
  cases h : firstValue sect.aHeaders n with
  | some v => rfl
  | none =>
    rw [firstValue_none] at h
    rw [firstValue_filter]
    intro a _ ha
    rw [ha]
    exact decide_eq_true h

theorem dedtls_effective (b : SdpBody) (sect : SdpMediaDescription) :
    subcommandDedtls b sect = subcommandDedtls { b with aHeaders := [] } (effective b sect) := by
  unfold subcommandDedtls
  simp only [List.append_nil, firstValue_effective]

theorem lastValue_none : lastValue as n = none ↔ n ∉ attrNames as := by
  rw [lastValue, firstValue_none, attrNames, attrNames, List.map_reverse, List.mem_reverse]

theorem lastValue_own (h : n ∈ attrNames sect.aHeaders) :
    lastValue (effective b sect).aHeaders n = lastValue sect.aHeaders n := by
  rw [lastValue, lastValue, effective, List.reverse_append, firstValue_append]
  have hnone : firstValue (b.aHeaders.filter fun a => a.name ∉ attrNames sect.aHeaders).reverse n = none := by
    rw [firstValue_none, attrNames, List.mem_map]
    rintro ⟨a, ha, rfl⟩
    rw [List.mem_reverse, List.mem_filter, decide_eq_true_eq] at ha
    exact ha.2 h
  rw [hnone]
  rfl

theorem mem_effective : n ∈ attrNames (effective b sect).aHeaders ↔
    n ∈ attrNames sect.aHeaders ∨ n ∈ attrNames b.aHeaders := by
  simp only [attrNames, effective, List.map_append, List.mem_append, List.mem_map, List.mem_filter, decide_eq_true_eq]
  constructor
  · rintro (h | ⟨a, ⟨ha, -⟩, rfl⟩)
    · exact .inl h
    · exact .inr ⟨a, ha, rfl⟩
  · rintro (h | ⟨a, ha, rfl⟩)
    · exact .inl h
    · by_cases hown : ∃ x ∈ sect.aHeaders, x.name = a.name
      · exact .inl hown
      · exact .inr ⟨a, ⟨ha, hown⟩, rfl⟩

theorem candidate_raises {v : Option Text} {e : Exn} (h : candidate v = .error e) : e ≠ .sdpParse := by
  unfold candidate at h
  split at h
  · cases h
    decide
  · dsimp only at h
    split at h
    · cases h
      decide
    · split at h
      · exact nomatch h
      · split at h
        · cases h
          decide
        · split at h <;> exact nomatch h

def candidates (as : List AHeader) : List AHeader := as.filter (·.name == candidateName)

def deiceCommand (ufrag pwd : Option Text) (cands : List AHeader) : Except Exn Subcommand := do
  let commands ← cands.mapM fun a => candidate a.value
  return ⟨.deice, (iceLite ++ " A ".toList ++ strValue ufrag ++ " ".toList ++ strValue pwd) :: commands.reduceOption⟩

theorem subcommandDeice_eq (sect : SdpMediaDescription) : subcommandDeice sect =
    match lastValue sect.aHeaders iceUfrag, lastValue sect.aHeaders icePwd with
    | some ufrag, some pwd => deiceCommand ufrag pwd (candidates sect.aHeaders)
    | _, _ => .error .sdpParse := rfl

theorem deiceCommand_raises (ufrag pwd : Option Text) (cands : List AHeader) :
    deiceCommand ufrag pwd cands ≠ .error .sdpParse := by
  intro h
  unfold deiceCommand at h
  cases hc : cands.mapM fun a => candidate a.value with
  | error e =>
    rw [hc] at h
    obtain ⟨pre, a, post, -, -, ha⟩ := Lib.mapM_error.mp hc
    cases h
    exact candidate_raises ha rfl
  | ok commands =>
    rw [hc] at h
    exact nomatch h

theorem reduceOption_nil {α : Type} {l : List (Option α)} : l.reduceOption = [] ↔ ∀ o ∈ l, o = none := by
  induction l with
  | nil => exact iff_of_true rfl fun _ h => nomatch h
  | cons o l ih =>
    cases o with
    | none => simp [ih]
    | some x => simp

theorem deiceCommand_single {ufrag pwd : Option Text} {cands : List AHeader} :
    deiceCommand ufrag pwd cands = deiceCommand ufrag pwd [] ↔ ∀ a ∈ cands, candidate a.value = .ok none := by
  have hnil : deiceCommand ufrag pwd [] =
      .ok ⟨.deice, [iceLite ++ " A ".toList ++ strValue ufrag ++ " ".toList ++ strValue pwd]⟩ := rfl
  rw [hnil, deiceCommand, Lib.bind_ok]
  constructor
  · rintro ⟨commands, hcommands, heq⟩ a ha
    have htail : commands.reduceOption = [] := by
      have hsub := congrArg Subcommand.commands (Except.ok.inj heq)
      exact (List.cons.inj hsub).2
    obtain ⟨o, ho, hread⟩ := Lib.exists_of_forall₂ (Lib.mapM_ok.mp hcommands) ha
    rw [hread, reduceOption_nil.mp htail o ho]
  · intro h
    refine ⟨cands.map fun _ => none, ?_, ?_⟩
    · rw [Lib.mapM_ok, List.forall₂_map_right_iff, List.forall₂_same]
      exact h
    · have htail : (cands.map fun _ => (none : Option Text)).reduceOption = [] :=
        reduceOption_nil.mpr fun o ho => by
          obtain ⟨a, -, rfl⟩ := List.mem_map.mp ho
          rfl
      rw [htail]
      rfl

theorem candidates_effective (b : SdpBody) (sect : SdpMediaDescription) : candidates (effective b sect).aHeaders =
    candidates sect.aHeaders ++ if candidateName ∈ attrNames sect.aHeaders then [] else candidates b.aHeaders := by
  rw [candidates, effective, List.filter_append, List.filter_filter, ← candidates]
  congr 1
  split
  · rename_i hown
    apply List.filter_eq_nil_iff.mpr
    intro a _ ha
    rw [Bool.and_eq_true, beq_iff_eq, decide_eq_true_eq] at ha
    exact ha.2 (ha.1 ▸ hown)
  · rename_i hown
    apply List.filter_congr
    intro a _
    by_cases ha : a.name = candidateName
    · simp [ha, hown]
    · simp [ha]

theorem lastValue_some (h : n ∈ attrNames as) : ∃ v, lastValue as n = some v :=
  Option.ne_none_iff_exists'.mp fun hnone => lastValue_none.mp hnone h

theorem subcommandDeice_own {ufrag pwd : Option Text} (hufrag : lastValue sect.aHeaders iceUfrag = some ufrag)
    (hpwd : lastValue sect.aHeaders icePwd = some pwd) :
    subcommandDeice sect = deiceCommand ufrag pwd (candidates sect.aHeaders) := by
  rw [subcommandDeice_eq, hufrag, hpwd]

theorem subcommandDeice_missing (h : ¬ (iceUfrag ∈ attrNames sect.aHeaders ∧ icePwd ∈ attrNames sect.aHeaders)) :
    subcommandDeice sect = .error .sdpParse := by
  rw [subcommandDeice_eq]
  split
  · rename_i ufrag pwd hufrag hpwd
    refine absurd ⟨?_, ?_⟩ h
    · by_contra hno
      exact nomatch (lastValue_none.mpr hno).symm.trans hufrag
    · by_contra hno
      exact nomatch (lastValue_none.mpr hno).symm.trans hpwd
  · rfl

/-- ICE is read as if the section had what is in effect for it exactly if nothing of that is in the session part. -/
theorem deice_effective_iff (b : SdpBody) (sect : SdpMediaDescription) :
    subcommandDeice sect = subcommandDeice (effective b sect) ↔ IceIsOwn b sect := by
  unfold IceIsOwn
  by_cases hown : iceUfrag ∈ attrNames sect.aHeaders ∧ icePwd ∈ attrNames sect.aHeaders
  · obtain ⟨ufrag, hufrag⟩ := lastValue_some hown.1
    obtain ⟨pwd, hpwd⟩ := lastValue_some hown.2
    have heffective := @subcommandDeice_own (effective b sect) ufrag pwd
      ((lastValue_own hown.1).trans hufrag) ((lastValue_own hown.2).trans hpwd)
    rw [if_pos hown, subcommandDeice_own hufrag hpwd, heffective, candidates_effective]
    by_cases hcand : candidateName ∈ attrNames sect.aHeaders
    · rw [if_pos hcand, List.append_nil]
      exact iff_of_true rfl (.inl hcand)
    · have hnone : candidates sect.aHeaders = [] := by
        apply List.filter_eq_nil_iff.mpr
        intro a ha heq
        exact hcand (List.mem_map.mpr ⟨a, ha, eq_of_beq heq⟩)
      rw [if_neg hcand, hnone, List.nil_append, eq_comm, deiceCommand_single, or_iff_right hcand]
      simp only [candidates, List.mem_filter, beq_iff_eq, and_imp]
  · rw [if_neg hown, subcommandDeice_missing hown, ← mem_effective, ← mem_effective]
    by_cases hboth : iceUfrag ∈ attrNames (effective b sect).aHeaders ∧ icePwd ∈ attrNames (effective b sect).aHeaders
    · obtain ⟨ufrag, hufrag⟩ := lastValue_some hboth.1
      obtain ⟨pwd, hpwd⟩ := lastValue_some hboth.2
      rw [subcommandDeice_own hufrag hpwd]
      exact iff_of_false (fun h => deiceCommand_raises _ _ _ h.symm) (not_not.mpr hboth)
    · rw [subcommandDeice_missing hboth]
      exact iff_of_true rfl hboth

theorem uses_iff (b : SdpBody) : Uses b ↔ ∀ sect ∈ b.sections, IceIsOwn b sect := by
  apply forall₂_congr
  intro sect _
  rw [deice_effective_iff]
  exact and_iff_right (dedtls_effective b sect)

end Values

section Finish
variable {as : List AHeader} {sect : SdpMediaDescription} {b : SdpBody} {sects : List SdpMediaDescription}

/-- The loop over the `ssrc` attributes ends exactly if each of them can be read. -/
theorem dropMsid_returns_iff : (dropMsid as).2 = none ↔ msidOk as = true := by
  constructor
  · intro h
    induction as with
    | nil => rfl
    | cons a as ih =>
      rw [msidOk, List.all_cons, Bool.and_eq_true, ← msidOk]
      unfold dropMsid at h
      by_cases ha : a.name = "ssrc".toList
      · rw [if_neg (not_not.mpr ha)] at h
        split at h
        · cases h
        · rename_i v hv
          split at h
          · rename_i w attr hw
            refine ⟨?_, ih h⟩
            rw [hv, Option.any_some, hw]
            simp
          · cases h
      · rw [if_pos ha] at h
        rw [bne_iff_ne.mpr ha, Bool.true_or]
        exact ⟨rfl, ih h⟩
  · exact fun h => (dropMsid_ok h).1

theorem dropMsid_eq (h : msidOk as = true) : (dropMsid as).1 = as.filter fun a => !carriesMsid a := by
  induction as with
  | nil => rfl
  | cons a as ih =>
    rw [msidOk, List.all_cons, Bool.and_eq_true, ← msidOk] at h
    obtain ⟨ha, has⟩ := h
    unfold dropMsid
    by_cases hname : a.name = "ssrc".toList
    · rw [if_neg (not_not.mpr hname)]
      have hread : a.value.any (fun v => (Text.wordsMax 1 v).length == 2) = true := by simpa [hname] using ha
      obtain ⟨v, hv, hlen⟩ := (Option.any_eq_true _ _).mp hread
      obtain ⟨w, attr, hw⟩ := List.length_eq_two.mp (beq_iff_eq.mp hlen)
      have hcarries : carriesMsid a = Text.startsWith (Text.lower attr) "msid:".toList := by
        rw [carriesMsid, hname, hv, Option.any_some, hw]
        rfl
      rw [hv]
      dsimp only
      rw [hw, List.filter_cons, hcarries, ← ih has]
      dsimp only
      cases Text.startsWith (Text.lower attr) "msid:".toList <;> rfl
    · have hcarries : carriesMsid a = false := by
        rw [carriesMsid, beq_eq_false_iff_ne.mpr hname, Bool.false_and]
      rw [if_pos hname, List.filter_cons, hcarries, ih has]
      rfl

def leaves (sect : SdpMediaDescription) (a : AHeader) : Bool := outside a || decide (a.name ∈ attrNames sect.aHeaders)

def stripSect (sect : SdpMediaDescription) : SdpMediaDescription :=
  { sect with aHeaders := sect.aHeaders.filter fun a => outside a && !carriesMsid a }.setTransport "RTP/AVP".toList

theorem ssrc_outside {a : AHeader} (h : a.name = "ssrc".toList) : outside a = true := by
  rw [outside, h]
  decide

theorem msidOk_outside : msidOk (as.filter outside) = msidOk as := by
  rw [msidOk, msidOk, List.all_filter]
  congr 1
  funext a
  by_cases ha : a.name = "ssrc".toList
  · rw [ssrc_outside ha]
    rfl
  · have hne : (a.name != "ssrc".toList) = true := bne_iff_ne.mpr ha
    rw [hne, Bool.true_or]
    exact Bool.or_true _

theorem disjoint_lists : ∀ n ∈ dtlsAttrsRm, n ∉ iceAttrsRm := by decide

theorem secrets_listed : ∀ n ∈ secrets, n ∈ dtlsAttrsRm ∨ n ∈ iceAttrsRm := by decide

theorem outside_iff {a : AHeader} : outside a = true ↔ a.name ∉ dtlsAttrsRm ∧ a.name ∉ iceAttrsRm := by
  rw [outside, Bool.and_eq_true, decide_eq_true_eq, decide_eq_true_eq]

theorem sdpSectFins_gateway (b : SdpBody) (sect : SdpMediaDescription) : sdpSectFins [.dedtls, .deice] b sect =
    (({ b with aHeaders := b.aHeaders.filter (leaves sect) },
      { sect.setTransport "RTP/AVP".toList with aHeaders := (dropMsid (sect.aHeaders.filter outside)).1 }),
        (dropMsid (sect.aHeaders.filter outside)).2) := by
  have hsect : (sect.aHeaders.filter fun a => a.name ∉ dtlsAttrsRm).filter (fun a => a.name ∉ iceAttrsRm) =
      sect.aHeaders.filter outside := by
    rw [List.filter_filter]
    apply List.filter_congr
    intro a _
    rw [Bool.and_comm]
    rfl
  have hsession : (b.aHeaders.filter fun a =>
      a.name ∉ dtlsAttrsRm ∨ a.name ∈ (sect.aHeaders.map AHeader.name).filter (· ∈ dtlsAttrsRm)).filter (fun a =>
        a.name ∉ iceAttrsRm ∨ a.name ∈ (((sect.aHeaders.filter fun a => a.name ∉ dtlsAttrsRm).map
          AHeader.name).filter (· ∈ iceAttrsRm))) = b.aHeaders.filter (leaves sect) := by
    rw [List.filter_filter]
    apply List.filter_congr
    intro a _
    rw [Bool.eq_iff_iff, leaves, Bool.or_eq_true, outside_iff]
    simp only [Bool.and_eq_true, decide_eq_true_eq, List.mem_filter, List.mem_map, attrNames]
    have hdisjoint := disjoint_lists a.name
    constructor
    · rintro ⟨hice | ⟨⟨x, ⟨hx, -⟩, hname⟩, -⟩, hdtls | ⟨hmem, -⟩⟩
      · exact .inl ⟨hdtls, hice⟩
      · exact .inr hmem
      · exact .inr ⟨x, hx, hname⟩
      · exact .inr hmem
    · rintro (⟨hdtls, hice⟩ | ⟨x, hx, hname⟩)
      · exact ⟨.inl hice, .inl hdtls⟩
      · by_cases hdtls : a.name ∈ dtlsAttrsRm
        · exact ⟨.inl (hdisjoint hdtls), .inr ⟨⟨x, hx, hname⟩, hdtls⟩⟩
        · by_cases hice : a.name ∈ iceAttrsRm
          · exact ⟨.inr ⟨⟨x, ⟨hx, hname ▸ hdtls⟩, hname⟩, hice⟩, .inl hdtls⟩
          · exact ⟨.inl hice, .inl hdtls⟩
  have hdeice : Fin.deice.sdpSectFin (Fin.dedtls.sdpSectFin b sect).1.1 (Fin.dedtls.sdpSectFin b sect).1.2 =
      (({ b with aHeaders := b.aHeaders.filter (leaves sect) },
        { sect.setTransport "RTP/AVP".toList with aHeaders := (dropMsid (sect.aHeaders.filter outside)).1 }),
          (dropMsid (sect.aHeaders.filter outside)).2) := by
    rw [← hsect, ← hsession]
    rfl
  rw [sdpSectFins]
  change sdpSectFins [.deice] (Fin.dedtls.sdpSectFin b sect).1.1 (Fin.dedtls.sdpSectFin b sect).1.2 = _
  rw [sdpSectFins, hdeice]
  cases (dropMsid (sect.aHeaders.filter outside)).2 <;> rfl

/-- The sections are finished exactly if their `ssrc` attributes can be read. -/
theorem finishAll_returns_iff : (finishAll b sects).2 = none ↔ ∀ sect ∈ sects, msidOk sect.aHeaders = true := by
  induction sects generalizing b with
  | nil => exact iff_of_true rfl fun _ h => nomatch h
  | cons sect sects ih =>
    rw [finishAll, sdpSectFins_gateway, List.forall_mem_cons, ← ih, ← msidOk_outside, ← dropMsid_returns_iff]
    cases (dropMsid (sect.aHeaders.filter outside)).2 with
    | none => exact (and_iff_right rfl).symm
    | some e => exact iff_of_false (fun h => nomatch h) fun h => nomatch h.1

/-- An attribute of the session part goes with the first section that does not have it. -/
theorem finishAll_eq (h : ∀ sect ∈ sects, msidOk sect.aHeaders = true) :
    (finishAll b sects).1 = ({ b with aHeaders := b.aHeaders.filter fun a => sects.all fun sect => leaves sect a },
      sects.map stripSect) := by
  induction sects generalizing b with
  | nil =>
    simp only [finishAll, List.all_nil, List.filter_true, List.map_nil]
  | cons sect sects ih =>
    rw [List.forall_mem_cons] at h
    obtain ⟨hsect, hsects⟩ := h
    have hsect' : msidOk (sect.aHeaders.filter outside) = true := msidOk_outside.trans hsect
    have hstrip : { sect.setTransport "RTP/AVP".toList with aHeaders := (dropMsid (sect.aHeaders.filter outside)).1 } =
        stripSect sect := by
      rw [dropMsid_eq hsect', List.filter_filter, stripSect]
      simp only [SdpMediaDescription.setTransport, Bool.and_comm]
    rw [finishAll, sdpSectFins_gateway, dropMsid_returns_iff.mpr hsect', hstrip]
    dsimp only
    rw [ih hsects, List.map_cons, List.filter_filter]
    simp only [List.all_cons, Bool.and_comm]

/-- Every attribute in question that the session part has is missing in some section, and the `ssrc` attributes
can be read. -/
def Strippable (b : SdpBody) : Prop :=
  (∀ sect ∈ b.sections, msidOk sect.aHeaders = true) ∧
    ∀ n ∈ secrets, n ∈ attrNames b.aHeaders → ∃ sect ∈ b.sections, n ∉ attrNames sect.aHeaders

theorem stripSect_stripped (sect : SdpMediaDescription) : StrippedSect sect (stripSect sect) := by
  constructor
  · intro a ha hsecret
    have hmem := (List.mem_filter.mp ha).2
    rw [Bool.and_eq_true, outside_iff] at hmem
    exact (secrets_listed _ hsecret).elim hmem.1.1 hmem.1.2
  · change (sect.aHeaders.filter fun a => outside a && !carriesMsid a).filter outside = _
    rw [List.filter_filter]
    apply List.filter_congr
    intro a _
    cases outside a <;> rfl

theorem stripped_iff (b : SdpBody) : Stripped b (finishAll b b.sections) ↔ Strippable b := by
  constructor
  · intro h
    have hread := finishAll_returns_iff.mp h.returns
    refine ⟨hread, fun n hn hsession => ?_⟩
    obtain ⟨a, ha, rfl⟩ := List.mem_map.mp hsession
    by_contra hall
    have hsecret := h.secret a
    rw [finishAll_eq hread] at hsecret
    refine hsecret (List.mem_filter.mpr ⟨ha, ?_⟩) hn
    rw [List.all_eq_true]
    intro sect hsect
    rw [leaves, Bool.or_eq_true, decide_eq_true_eq]
    by_contra hno
    exact hall ⟨sect, hsect, fun hmem => hno (.inr hmem)⟩
  · rintro ⟨hread, hmissing⟩
    have heq := @finishAll_eq b b.sections hread
    refine ⟨finishAll_returns_iff.mpr hread, fun a ha hsecret => ?_, ?_, ?_⟩
    · rw [heq, List.mem_filter, List.all_eq_true] at ha
      obtain ⟨sect, hsect, hno⟩ := hmissing a.name hsecret (List.mem_map.mpr ⟨a, ha.1, rfl⟩)
      have hleaves := ha.2 sect hsect
      rw [leaves, Bool.or_eq_true, decide_eq_true_eq, outside_iff] at hleaves
      exact hleaves.elim (fun h => (secrets_listed _ hsecret).elim h.1 h.2) hno
    · rw [heq, List.filter_filter]
      apply List.filter_congr
      intro a _
      cases ha : outside a with
      | false => rfl
      | true =>
        rw [Bool.true_and, List.all_eq_true]
        intro sect _
        rw [leaves, ha]
        rfl
    · rw [heq, List.forall₂_map_right_iff, List.forall₂_same]
      exact fun sect _ => stripSect_stripped sect

end Finish

structure HasDtls (as : List AHeader) : Prop where
  setup : ∃ mode ∈ ["active".toList, "actpass".toList, "passive".toList], firstValue as "setup".toList = some (some mode)
  fingerprint : "fingerprint".toList ∈ attrNames as
  ssrc : ∀ v, firstValue as "ssrc".toList = some v → ∃ s, v = some s ∧ Text.wordsMax 1 s ≠ []

structure HasIce (as : List AHeader) : Prop where
  ufrag : iceUfrag ∈ attrNames as
  pwd : icePwd ∈ attrNames as
  candidates : ∀ a ∈ as, a.name = candidateName → ∃ o, candidate a.value = .ok o

def Buildable (b : SdpBody) : Prop := ∀ sect ∈ b.sections, HasDtls (sect.aHeaders ++ b.aHeaders) ∧ HasIce sect.aHeaders

section Build
variable {b : SdpBody} {sect : SdpMediaDescription}

theorem firstValue_some {as : List AHeader} {n : Text} (h : n ∈ attrNames as) : ∃ v, firstValue as n = some v :=
  Option.ne_none_iff_exists'.mp fun hnone => firstValue_none.mp hnone h

theorem mem_of_firstValue {as : List AHeader} {n : Text} {v : Option Text} (h : firstValue as n = some v) :
    n ∈ attrNames as := by
  by_contra hno
  exact nomatch (firstValue_none.mpr hno).symm.trans h

/-- The mode for a `setup` attribute. -/
def dtlsMode (setup : Option Text) : Except Exn Text :=
  if setup = some "active".toList ∨ setup = some "actpass".toList then .ok "A".toList
  else if setup = some "passive".toList then .ok "P".toList
  else .error .sdpParse

theorem dtlsMode_ok {setup : Option Text} : (∃ m, dtlsMode setup = .ok m) ↔
    ∃ mode ∈ ["active".toList, "actpass".toList, "passive".toList], setup = some mode := by
  unfold dtlsMode
  simp only [List.mem_cons, List.not_mem_nil, or_false, or_and_right, exists_or, exists_eq_left]
  split
  · rename_i h
    exact iff_of_true ⟨_, rfl⟩ (h.elim .inl fun h => .inr (.inl h))
  · rename_i h
    rw [not_or] at h
    split
    · rename_i h'
      exact iff_of_true ⟨_, rfl⟩ (.inr (.inr h'))
    · rename_i h'
      refine iff_of_false (fun ⟨_, h⟩ => nomatch h) ?_
      rintro (h'' | h'' | h'')
      · exact h.1 h''
      · exact h.2 h''
      · exact h' h''

/-- The rest of the command, with the value of a `ssrc` attribute. -/
def dtlsSource (command : Text) (ssrc : Option (Option Text)) : Except Exn Subcommand :=
  match ssrc with
  | none => .ok ⟨.dedtls, [command]⟩
  | some none => .error .attributeError
  | some (some v) =>
    match Text.wordsMax 1 v with
    | [] => .error .indexError
    | ssrc :: _ => .ok ⟨.dedtls, [command ++ " ".toList ++ ssrc]⟩

theorem dtlsSource_ok {command : Text} {ssrc : Option (Option Text)} : (∃ c, dtlsSource command ssrc = .ok c) ↔
    ∀ v, ssrc = some v → ∃ s, v = some s ∧ Text.wordsMax 1 s ≠ [] := by
  unfold dtlsSource
  split
  · exact iff_of_true ⟨_, rfl⟩ fun _ h => nomatch h
  · refine iff_of_false (fun ⟨_, h⟩ => nomatch h) fun h => ?_
    obtain ⟨s, hs, -⟩ := h none rfl
    exact nomatch hs
  · rename_i v
    split
    · rename_i hw
      refine iff_of_false (fun ⟨_, h⟩ => nomatch h) fun h => ?_
      obtain ⟨s, hs, hne⟩ := h (some v) rfl
      cases hs
      exact hne hw
    · rename_i w ws hw
      refine iff_of_true ⟨_, rfl⟩ fun v' hv' => ?_
      cases hv'
      refine ⟨v, rfl, ?_⟩
      rw [hw]
      exact List.cons_ne_nil w ws

theorem subcommandDedtls_eq {setup fingerprint : Option Text}
    (hsetup : firstValue (sect.aHeaders ++ b.aHeaders) "setup".toList = some setup)
    (hfingerprint : firstValue (sect.aHeaders ++ b.aHeaders) "fingerprint".toList = some fingerprint) :
    subcommandDedtls b sect = dtlsMode setup >>= fun mode =>
      dtlsSource (dtlsGw ++ " ".toList ++ mode ++ " ".toList ++ strValue fingerprint)
        (firstValue (sect.aHeaders ++ b.aHeaders) "ssrc".toList) := by
  unfold subcommandDedtls dtlsMode
  dsimp only
  rw [hsetup, hfingerprint]
  dsimp only
  split
  · rfl
  · split <;> rfl

theorem dedtls_built : (∃ c, subcommandDedtls b sect = .ok c) ↔ HasDtls (sect.aHeaders ++ b.aHeaders) := by
  by_cases hboth : "setup".toList ∈ attrNames (sect.aHeaders ++ b.aHeaders) ∧
      "fingerprint".toList ∈ attrNames (sect.aHeaders ++ b.aHeaders)
  · obtain ⟨setup, hsetup⟩ := firstValue_some hboth.1
    obtain ⟨fingerprint, hfingerprint⟩ := firstValue_some hboth.2
    rw [subcommandDedtls_eq hsetup hfingerprint]
    constructor
    · rintro ⟨c, hc⟩
      obtain ⟨mode, hmode, hsource⟩ := Lib.bind_ok.mp hc
      obtain ⟨m, hm, rfl⟩ := dtlsMode_ok.mp ⟨mode, hmode⟩
      exact ⟨⟨m, hm, hsetup⟩, hboth.2, dtlsSource_ok.mp ⟨c, hsource⟩⟩
    · rintro ⟨⟨m, hm, hsetup'⟩, -, hssrc⟩
      obtain ⟨mode, hmode⟩ := dtlsMode_ok.mpr ⟨m, hm, Option.some.inj (hsetup.symm.trans hsetup')⟩
      obtain ⟨c, hc⟩ := (@dtlsSource_ok (dtlsGw ++ " ".toList ++ mode ++ " ".toList ++ strValue fingerprint) _).mpr hssrc
      exact ⟨c, Lib.bind_ok.mpr ⟨mode, hmode, hc⟩⟩
  · refine iff_of_false ?_ fun h => ?_
    · rintro ⟨c, hc⟩
      unfold subcommandDedtls at hc
      dsimp only at hc
      split at hc
      · rename_i setup fingerprint hsetup hfingerprint
        exact hboth ⟨mem_of_firstValue hsetup, mem_of_firstValue hfingerprint⟩
      · exact nomatch hc
    · obtain ⟨⟨m, -, hm⟩, hfingerprint, -⟩ := h
      exact hboth ⟨mem_of_firstValue hm, hfingerprint⟩

theorem deice_built : (∃ c, subcommandDeice sect = .ok c) ↔ HasIce sect.aHeaders := by
  by_cases hown : iceUfrag ∈ attrNames sect.aHeaders ∧ icePwd ∈ attrNames sect.aHeaders
  · obtain ⟨ufrag, hufrag⟩ := lastValue_some hown.1
    obtain ⟨pwd, hpwd⟩ := lastValue_some hown.2
    rw [subcommandDeice_own hufrag hpwd]
    have hmem (a : AHeader) : a ∈ candidates sect.aHeaders ↔ a ∈ sect.aHeaders ∧ a.name = candidateName := by
      rw [candidates, List.mem_filter, beq_iff_eq]
    constructor
    · rintro ⟨c, hc⟩
      refine ⟨hown.1, hown.2, fun a ha hname => ?_⟩
      obtain ⟨commands, hcommands, -⟩ := Lib.bind_ok.mp hc
      obtain ⟨o, -, ho⟩ := Lib.exists_of_forall₂ (Lib.mapM_ok.mp hcommands) ((hmem a).mpr ⟨ha, hname⟩)
      exact ⟨o, ho⟩
    · rintro ⟨-, -, hcands⟩
      cases hc : (candidates sect.aHeaders).mapM fun a => candidate a.value with
      | ok commands => exact ⟨_, Lib.bind_ok.mpr ⟨commands, hc, rfl⟩⟩
      | error e =>
        obtain ⟨pre, a, post, hsplit, -, ha⟩ := Lib.mapM_error.mp hc
        have hin : a ∈ candidates sect.aHeaders := by
          rw [hsplit]
          simp
        obtain ⟨o, ho⟩ := hcands a ((hmem a).mp hin).1 ((hmem a).mp hin).2
        exact nomatch ha.symm.trans ho
  · rw [subcommandDeice_missing hown]
    exact iff_of_false (fun ⟨_, h⟩ => nomatch h) fun h => hown ⟨h.ufrag, h.pwd⟩

theorem built_iff : Built b ↔ Buildable b := by
  apply forall₂_congr
  intro sect _
  rw [dedtls_built, deice_built]

/-- The subcommands use what is in effect, and if they are made, nothing that they end is left: exactly if no
section relies on the session part for ICE, and every attribute of the session part in question is missing in some section. -/
theorem gateway_iff (b : SdpBody) : (Uses b ∧ (Built b → Stripped b (finishAll b b.sections))) ↔
    (∀ sect ∈ b.sections, IceIsOwn b sect) ∧ (Buildable b → Strippable b) := by
  rw [uses_iff, built_iff, stripped_iff]

end Build

def browserSect : SdpMediaDescription where
  mHeader := some ⟨"audio".toList, 9, "UDP/TLS/RTP/SAVPF".toList, .payloads [0]⟩
  cHeader := some ⟨"IN".toList, "IP4".toList, "0.0.0.0".toList⟩
  headers := []
  aHeaders := ["setup:actpass", "candidate:1 1 UDP 2130706431 10.0.1.1 8998 typ host"].map fun s => .ofText s.toList
  needsUpdate := true

/-- An offer with its ICE credentials in the session part. -/
def sharedIce : SdpBody where
  oHeader := some ⟨"-".toList, .text "1".toList, .text "1".toList, "IN".toList, "IP4".toList, "1.1.1.1".toList⟩
  cHeader := none
  headers := [("v".toList, "0".toList), ("s".toList, "-".toList), ("t".toList, "0 0".toList)]
  aHeaders := ["ice-ufrag:F7gI", "ice-pwd:x9cml/YzichV2+XlhiMu8g", "fingerprint:sha-256 AA:BB"].map fun s => .ofText s.toList
  sections := [browserSect]

/-- Its DTLS attributes are found at both levels, but its ICE credentials are not. -/
theorem sharedIce_refused : (∃ c, subcommandDedtls sharedIce browserSect = .ok c) ∧
    subcommandDeice browserSect = .error .sdpParse ∧
      (∃ c, subcommandDeice (effective sharedIce browserSect) = .ok c) ∧
        ¬ (Uses sharedIce ∧ (Built sharedIce → Stripped sharedIce (finishAll sharedIce sharedIce.sections))) := by
  have hcode : subcommandDeice browserSect = .error .sdpParse := by decide +kernel
  have heffective : subcommandDeice (effective sharedIce browserSect) =
      .ok ⟨.deice, ["M5:1 A F7gI x9cml/YzichV2+XlhiMu8g".toList,
        "M5:1 C 1 1 UDP 2130706431 10.0.1.1 8998 typ host".toList]⟩ := by decide +kernel
  have hdtls : subcommandDedtls sharedIce browserSect = .ok ⟨.dedtls, ["M4:1 A sha-256 AA:BB".toList]⟩ := by
    decide +kernel
  refine ⟨⟨_, hdtls⟩, hcode, ⟨_, heffective⟩, fun h => ?_⟩
  have huses := (h.1 browserSect List.mem_cons_self).2
  rw [hcode, heffective] at huses
  exact nomatch huses

end SippyB2bua.Rtpp
