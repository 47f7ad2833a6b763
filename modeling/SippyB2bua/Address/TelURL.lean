import SippyB2bua.Address.UrlRoundTrip
import SippyB2bua.Lib.Letters

/-!
# Telephone URLs

A `tel` URL is read as a `sip` URL without a host, or with the address of the configuration. The
one without a host prints as a text of the same URL if no user parameter has a colon or an at
sign.
-/

namespace SippyB2bua.Address
open Lib (Text Items)
open Lib.Text

variable {url s p part : Text} {u : SipURL} {relaxed autoconvert : Bool} {c : Char} {host : Text}

theorem mem_lower (hc : c.isAlpha = false) : c ∈ lower s ↔ c ∈ s := by
  rw [lower, List.mem_map]
  constructor
  · rintro ⟨d, hd, rfl⟩
    rcases isAlpha_toLower d with heq | ⟨-, hlower⟩
    · rwa [heq]
    · exact absurd (hc.symm.trans hlower) (by simp)
  · intro hmem
    rcases isAlpha_toLower c with heq | ⟨halpha, -⟩
    · exact ⟨c, hmem, heq⟩
    · exact absurd (hc.symm.trans halpha) (by simp)

/-- A user parameter has the characters of what was read, but for the case of letters. -/
theorem mem_telParam (hc : c.isAlpha = false) (h : telParam part = .ok p) : c ∈ p ↔ c ∈ part := by
  unfold telParam at h
  split at h
  · rename_i k v hsplit
    have hpart := intercalate_splitAll '=' part
    rw [hsplit, intercalate_eq] at hpart
    rw [← hpart, ← Except.ok.inj h]
    simp [mem_lower hc]
  · exact absurd h (by simp)

theorem convertTelURL_ok (h : convertTelURL url relaxed = .ok u) :
    u.scheme = "sip".toList ∧ u.username = some (SipURL.unquote ((splitAll ';' url).headD [])) ∧
      u.password = none ∧ u.headers = none ∧
      List.Forall₂ (fun part p => telParam part = .ok p) (splitAll ';' url).tail u.userparams ∧
      (relaxed = true → u.host = .name [] ∧ u.port = none ∧ u.toUrlParams = {}) ∧
      (relaxed = false → u.host = .myAddress) := by
  obtain ⟨userparams, hparams, h⟩ := Lib.bind_ok.mp h
  cases h
  refine ⟨rfl, rfl, rfl, rfl, Lib.mapM_ok.mp hparams, ?_, ?_⟩
  · rintro rfl
    exact ⟨rfl, rfl, rfl⟩
  · rintro rfl
    rfl

/-- Only a URL as the parser makes them is read from what a URL prints. -/
theorem readURL_of_restored {myAddress : Text} (hscheme : u.scheme = "sip".toList ∨ u.scheme = "sips".toList)
    (h : SipURL.init autoconvert relaxed (u.localStr myAddress none) = .ok u) : ∃ host, ReadURL u host := by
  rw [SipURL.localStr, init_append hscheme] at h
  exact readURL_of_parse hscheme h

theorem scheme_of_init (h : SipURL.init autoconvert relaxed s = .ok u) :
    u.scheme = "sip".toList ∨ u.scheme = "sips".toList := by
  by_cases htel : (schemeParts s).1 = "tel".toList
  · rw [SipURL.init, if_pos htel] at h
    split at h
    · exact .inl (convertTelURL_ok h).1
    · exact absurd h (by simp)
  · obtain ⟨hscheme, hparse⟩ := init_parse htel h
    obtain ⟨host, hurl⟩ := readURL_of_parse hscheme hparse
    exact hurl.scheme

/-- A text whose URL prints as a text of the same URL. -/
def UrlRestorable (relaxedparser : Bool) (s : Text) : Prop :=
  if (schemeParts s).1 = "tel".toList then
    relaxedparser = true ∧ ';' ∉ SipURL.unquote ((splitAll ';' (schemeParts s).2).headD []) ∧
      ∀ part ∈ (splitAll ';' (schemeParts s).2).tail, ':' ∉ part ∧ '@' ∉ part
  else Restorable relaxedparser s

theorem tel_restored (h : convertTelURL url relaxed = .ok u) (autoconvert : Bool) (myAddress : Text) :
    SipURL.init autoconvert relaxed (u.localStr myAddress none) = .ok u ↔
      relaxed = true ∧ ';' ∉ SipURL.unquote ((splitAll ';' url).headD []) ∧
        ∀ part ∈ (splitAll ';' url).tail, ':' ∉ part ∧ '@' ∉ part := by
  obtain ⟨hscheme, huser, hpassword, hheaders, hparams, hrelaxed, hstrict⟩ := convertTelURL_ok h
  constructor
  · intro hread
    obtain ⟨host, hurl⟩ := readURL_of_restored (.inl hscheme) hread
    have htrue : relaxed = true := by
      cases hr : relaxed with
      | true => rfl
      | false =>
        have hhost := hurl.hostName
        rw [hstrict hr] at hhost
        exact absurd hhost (by simp)
    obtain ⟨hname, -, -⟩ := (read_printed hurl autoconvert myAddress).mp hread
    refine ⟨htrue, hname _ huser, fun part hpart => ?_⟩
    obtain ⟨p, hp, htel⟩ := Lib.exists_of_forall₂ hparams hpart
    obtain ⟨-, hcolon, hat⟩ := (hurl.user (by simp [huser])).1 p hp
    rw [mem_telParam (by decide) htel] at hcolon hat
    exact ⟨hcolon, hat⟩
  · rintro ⟨htrue, hname, hclean⟩
    obtain ⟨hhost, hport, hknown⟩ := hrelaxed htrue
    have hnil : u.getParams none = [] := by
      rw [hknown]
      rfl
    have hurl : ReadURL u [] := by
      refine ⟨.inl hscheme, hhost, .inr ⟨List.not_mem_nil, by simp⟩, List.not_mem_nil, fun _ => List.not_mem_nil,
        by simp [hport], ?_, by simp [hnil], by simp [hheaders], ?_, fun hnone => ?_⟩
      · rw [hknown]
        exact ⟨by simp, by simp⟩
      · refine fun _ => ⟨fun p hp => ?_, by simp [hpassword]⟩
        obtain ⟨part, hpart, htel⟩ := Lib.exists_of_forall₂ hparams.flip hp
        have hsemicolon : ';' ∉ part := splitAll_clean (List.mem_of_mem_tail hpart)
        obtain ⟨hcolon, hat⟩ := hclean part hpart
        rw [← mem_telParam (by decide) htel] at hsemicolon hcolon hat
        exact ⟨hsemicolon, hcolon, hat⟩
      · rw [huser] at hnone
        exact absurd hnone (by simp)
    refine (read_printed hurl autoconvert myAddress).mpr ⟨?_, by simp [hnil], .inl htrue⟩
    intro name hmem
    rw [huser] at hmem
    rwa [← Option.mem_some_iff.mp hmem]

/-- Any URL that was read from a text comes back from what it prints exactly if the text is
restorable. -/
theorem restored_iff (h : SipURL.init autoconvert relaxed s = .ok u) (myAddress : Text) :
    SipURL.init autoconvert relaxed (u.localStr myAddress none) = .ok u ↔ UrlRestorable relaxed s := by
  by_cases htel : (schemeParts s).1 = "tel".toList
  · have hread : convertTelURL (schemeParts s).2 relaxed = .ok u := by
      rw [SipURL.init, if_pos htel] at h
      split at h
      · exact h
      · exact absurd h (by simp)
    rw [UrlRestorable, if_pos htel]
    exact tel_restored hread autoconvert myAddress
  · obtain ⟨hscheme, hparse⟩ := init_parse htel h
    obtain ⟨host, hurl⟩ := readURL_of_parse hscheme hparse
    rw [UrlRestorable, if_neg htel, read_printed hurl]
    exact restorable_iff hparse hurl

theorem schemeParts_mem (h : c ∈ (schemeParts s).2) : c ∈ s := by
  unfold schemeParts at h
  split at h
  · exact h
  · rename_i scheme rest hsplit
    rw [split1_eq hsplit]
    exact List.mem_append_right _ (List.mem_cons_of_mem _ h)

theorem bracket_localStr (h : SipURL.init autoconvert relaxed s = .ok u) (hs : '>' ∉ s)
    (hhost : u.host ≠ .myAddress) (myAddress : Text) : '>' ∉ u.localStr myAddress none := by
  have hrest : '>' ∉ (schemeParts s).2 := fun hc => hs (schemeParts_mem hc)
  by_cases htel : (schemeParts s).1 = "tel".toList
  · have hread : convertTelURL (schemeParts s).2 relaxed = .ok u := by
      rw [SipURL.init, if_pos htel] at h
      split at h
      · exact h
      · exact absurd h (by simp)
    obtain ⟨hscheme, huser, hpassword, hheaders, hparams, hrelaxed, hstrict⟩ := convertTelURL_ok hread
    cases hr : relaxed with
    | false => exact absurd (hstrict hr) hhost
    | true =>
      obtain ⟨hname, hport, hknown⟩ := hrelaxed hr
      have hclean : ∀ p ∈ u.userparams, '>' ∉ p := by
        intro p hp
        obtain ⟨part, hpart, htel⟩ := Lib.exists_of_forall₂ hparams.flip hp
        rw [mem_telParam (by decide) htel]
        exact fun hc => hrest (mem_of_mem_splitAll (List.mem_of_mem_tail hpart) hc)
      have hprinted : '>' ∉ printedUser u (SipURL.unquote ((splitAll ';' (schemeParts s).2).headD [])) :=
        not_mem_printedUser (by decide) (by decide) hclean (by simp [hpassword])
      have hnil : u.getParams none = [] := by
        rw [hknown]
        rfl
      rw [SipURL.localStr, hscheme, userText_some huser, hname, portText, hport, Option.map_none, hnil, hheaders]
      simpa [Host.localStr, headersText] using hprinted
  · obtain ⟨hscheme, hparse⟩ := init_parse htel h
    obtain ⟨host, hurl⟩ := readURL_of_parse hscheme hparse
    obtain ⟨huserparams, hpassword, hname, hparams, hheaders⟩ :=
      not_mem_parsed hparse hrest (by decide) (by decide)
    have hback := not_mem_printedBack hurl (by decide) (by decide) (by decide) (hname host hurl.hostName) hparams
      hheaders
    have huser : '>' ∉ userText u := by
      cases hu : u.username with
      | none =>
        rw [userText, hu]
        exact List.not_mem_nil
      | some name =>
        have hprinted : '>' ∉ printedUser u name :=
          not_mem_printedUser (by decide) (by decide) huserparams hpassword
        rw [userText_some hu]
        simpa using hprinted
    have hsip : '>' ∉ u.scheme := by
      rcases hurl.scheme with heq | heq
      · rw [heq]
        decide
      · rw [heq]
        decide
    rw [localStr_read hurl]
    simp [hsip, huser, hback]

end SippyB2bua.Address
