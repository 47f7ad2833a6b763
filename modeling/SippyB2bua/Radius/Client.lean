import Mathlib.Data.List.Forall2
import SippyB2bua.SipURL

/-!
# Requests to the RADIUS client

`Radius_client` hands a request to an external program as lines: the type of the request,
one line for each attribute with its value between quotes, and an empty line. Nothing in a
value is escaped, so a value with a line end breaks the frame. Some attributes are sent as
the value of another one, so a header can pass for one of them by using that name.
-/

namespace SippyB2bua.Radius
open Lib (Text)
open Lib.Text (unlines splitAll split1 splitAll_unlines_iff unlines_inj append_sep_inj split1_clean)

/-- An attribute. Its name is a constant of the program, or what stands before the first
equals sign of a header or of a setting. -/
structure Attribute where
  name : Text
  value : Text
  plain : '=' ∉ name
  deriving DecidableEq

def avpairNames : List Text :=
  ["call-id", "h323-session-protocol", "h323-ivr-out", "h323-incoming-conf-id", "release-source",
    "alert-timepoint", "provisional-timepoint"].map String.toList

def ciscoVsaNames : List Text :=
  ["h323-remote-address", "h323-conf-id", "h323-setup-time", "h323-call-origin", "h323-call-type",
    "h323-connect-time", "h323-disconnect-time", "h323-disconnect-cause", "h323-voice-quality",
    "h323-credit-time", "h323-return-code", "h323-redirect-number", "h323-preferred-lang",
    "h323-billing-model", "h323-currency"].map String.toList

def ciscoAVPair : Text := "Cisco-AVPair".toList

def Attribute.sent (x : Attribute) : Text × Text :=
  if x.name ∈ avpairNames then (ciscoAVPair, x.name ++ '=' :: x.value)
  else if x.name ∈ ciscoVsaNames then (x.name, x.name ++ '=' :: x.value)
  else (x.name, x.value)

/-- `'%s="%s"'`. -/
def Attribute.line (x : Attribute) : Text := x.sent.1 ++ '=' :: '"' :: x.sent.2 ++ ['"']

inductive RequestType
  | auth | acct
  deriving DecidableEq

def RequestType.text : RequestType → Text
  | .auth => "AUTH".toList
  | .acct => "ACCT".toList

def prepareAttributes (t : RequestType) (attributes : List Attribute) : List Text :=
  t.text :: attributes.map Attribute.line

/-- What `_Worker.run` writes for a work item. -/
def batch (data : List Text) : Text := unlines '\n' (data ++ [[]])

/-- What the program gets for `do_auth` or `do_acct`. -/
def request (t : RequestType) (attributes : List Attribute) : Text :=
  batch (prepareAttributes t attributes)

structure Digest where
  realm : Text
  nonce : Text
  uri : Text
  response : Text

/-- The attributes of `RadiusAuthorisation.do_auth`. -/
def doAuth (username : Text) (caller : Option Text) (callee sipCid remoteIp : Text)
    (digest : Option Digest) (extra : List Attribute) : List Attribute :=
  (match digest with
    | some d => [⟨"User-Name".toList, username, by decide⟩, ⟨"Digest-Realm".toList, d.realm, by decide⟩,
        ⟨"Digest-Nonce".toList, d.nonce, by decide⟩,
        ⟨"Digest-Method".toList, "INVITE".toList, by decide⟩,
        ⟨"Digest-URI".toList, d.uri, by decide⟩, ⟨"Digest-Algorithm".toList, "MD5".toList, by decide⟩,
        ⟨"Digest-User-Name".toList, username, by decide⟩,
        ⟨"Digest-Response".toList, d.response, by decide⟩]
    | none => [⟨"User-Name".toList, remoteIp, by decide⟩,
        ⟨"Password".toList, "cisco".toList, by decide⟩]) ++
  [⟨"Calling-Station-Id".toList, caller.getD [], by decide⟩,
    ⟨"Called-Station-Id".toList, callee, by decide⟩, ⟨"call-id".toList, sipCid, by decide⟩,
    ⟨"h323-remote-address".toList, remoteIp, by decide⟩,
    ⟨"h323-session-protocol".toList, "sipv2".toList, by decide⟩] ++ extra

/-- `HDR2Xattrs`: the parts of a header with a name and a value. -/
def hdr2Xattrs (header : Text) : List Attribute :=
  (splitAll ';' header).filterMap fun pair =>
    match (split1 '=' pair).2 with
    | none | some [] => none
    | some value => some ⟨(split1 '=' pair).1, value, split1_clean '=' pair⟩

example : (hdr2Xattrs "Cisco-AVPair=call-id=x;y=".toList).map (fun x => (x.name, x.value)) =
    [(ciscoAVPair, "call-id=x".toList)] := by decide

namespace Attribute
variable {x y : Attribute}

/-- Neither the name nor the value goes over the end of a line. -/
def Clean (x : Attribute) : Prop := '\n' ∉ x.name ∧ '\n' ∉ x.value

/-- The attribute has the name that others are sent with, and the value of one of them. -/
def Disguised (x : Attribute) : Prop :=
  x.name = ciscoAVPair ∧ ∃ n ∈ avpairNames, n ++ ['='] <+: x.value

def Sound (x : Attribute) : Prop := x.Clean ∧ ¬ x.Disguised

instance (x : Attribute) : Decidable x.Clean := inferInstanceAs (Decidable (_ ∧ _))
instance (x : Attribute) : Decidable x.Disguised := inferInstanceAs (Decidable (_ ∧ _))
instance (x : Attribute) : Decidable x.Sound := inferInstanceAs (Decidable (_ ∧ _))

theorem avpair_plain {n : Text} (h : n ∈ avpairNames) : '=' ∉ n ∧ '\n' ∉ n := by
  revert n
  unfold avpairNames
  simp only [List.map_cons, List.map_nil]
  repeat rewrite [String.toList_ofList]
  decide +kernel

theorem ciscoAVPair_other : ciscoAVPair ∉ avpairNames ∧ ciscoAVPair ∉ ciscoVsaNames := by
  unfold avpairNames ciscoVsaNames ciscoAVPair
  simp only [List.map_cons, List.map_nil]
  repeat rewrite [String.toList_ofList]
  decide +kernel

theorem sent_plain (x : Attribute) : '=' ∉ x.sent.1 := by
  unfold sent
  split
  · show '=' ∉ ciscoAVPair
    decide
  · split <;> exact x.plain

theorem line_inj : x.line = y.line ↔ x.sent = y.sent := by
  refine ⟨fun h => ?_, fun h => by rw [line, line, h]⟩
  unfold line at h
  rw [List.append_assoc, List.append_assoc] at h
  obtain ⟨hname, hvalue⟩ := append_sep_inj x.sent_plain y.sent_plain h
  have hvalue := List.append_cancel_right (List.cons.inj hvalue).2
  exact Prod.ext hname hvalue

theorem line_clean : '\n' ∉ x.line ↔ x.Clean := by
  have hav : '\n' ∉ ciscoAVPair := by decide
  unfold line sent Clean
  split
  · rename_i h
    simp [hav, (avpair_plain h).2]
  · split <;> simp

theorem sent_avpair (h : x.name ∈ avpairNames) : x.sent = (ciscoAVPair, x.name ++ '=' :: x.value) :=
  if_pos h

theorem sent_other (h : x.name ∉ avpairNames) :
    x.sent = (x.name, if x.name ∈ ciscoVsaNames then x.name ++ '=' :: x.value else x.value) := by
  unfold sent
  rw [if_neg h]
  split <;> rfl

theorem eq_of_fields (hname : x.name = y.name) (hvalue : x.value = y.value) : x = y := by
  obtain ⟨_, _, _⟩ := x
  obtain ⟨_, _, _⟩ := y
  cases hname
  cases hvalue
  rfl

theorem disguised_of_sent (hx : x.name ∈ avpairNames) (hy : y.name ∉ avpairNames)
    (h : x.sent = y.sent) : y.Disguised := by
  rw [sent_avpair hx, sent_other hy] at h
  have hname : y.name = ciscoAVPair := (congrArg Prod.fst h).symm
  have hvsa : y.name ∉ ciscoVsaNames := hname ▸ ciscoAVPair_other.2
  have hvalue : x.name ++ '=' :: x.value = y.value := by
    simpa [hvsa] using congrArg Prod.snd h
  exact ⟨hname, x.name, hx, x.value, by simpa using hvalue⟩

theorem eq_of_sent_other (hx : x.name ∉ avpairNames) (hy : y.name ∉ avpairNames) (h : x.sent = y.sent) :
    x = y := by
  rw [sent_other hx, sent_other hy] at h
  have hname : x.name = y.name := congrArg Prod.fst h
  have hvalue := congrArg Prod.snd h
  refine eq_of_fields hname ?_
  rw [hname] at hvalue
  split at hvalue
  · exact (List.cons.inj (List.append_cancel_left hvalue)).2
  · exact hvalue

theorem sent_inj (hx : ¬ x.Disguised) (hy : ¬ y.Disguised) (h : x.sent = y.sent) : x = y := by
  by_cases hxn : x.name ∈ avpairNames <;> by_cases hyn : y.name ∈ avpairNames
  · rw [sent_avpair hxn, sent_avpair hyn] at h
    obtain ⟨hname, hvalue⟩ := append_sep_inj x.plain y.plain (congrArg Prod.snd h)
    exact eq_of_fields hname hvalue
  · exact absurd (disguised_of_sent hxn hyn h) hy
  · exact absurd (disguised_of_sent hyn hxn h.symm) hx
  · exact eq_of_sent_other hxn hyn h

theorem undisguise (h : x.Disguised) : ∃ y : Attribute, y.name ∈ avpairNames ∧ x.sent = y.sent := by
  obtain ⟨hname, n, hn, v, hv⟩ := h
  have hav : x.name ∉ avpairNames := hname ▸ ciscoAVPair_other.1
  have hvsa : x.name ∉ ciscoVsaNames := hname ▸ ciscoAVPair_other.2
  refine ⟨⟨n, v, (avpair_plain hn).1⟩, hn, ?_⟩
  rw [sent_other hav, sent_avpair hn, hname, if_neg (hname ▸ hvsa), ← hv]
  simp

def Determined (x : Attribute) : Prop := ∀ y : Attribute, y.line = x.line → y = x

/-- The line of an attribute of the list is also one of the attribute that stands in for it. -/
theorem determined_iff : x.Determined ↔ x.name ∉ avpairNames ∧ ¬ x.Disguised := by
  constructor
  · intro h
    refine ⟨fun hx => ?_, fun hx => ?_⟩
    · have hplain : '=' ∉ ciscoAVPair := by decide
      let y : Attribute := ⟨ciscoAVPair, x.name ++ '=' :: x.value, hplain⟩
      have hy : y.sent = x.sent := by
        rw [sent_other ciscoAVPair_other.1, sent_avpair hx, if_neg ciscoAVPair_other.2]
      have hname : ciscoAVPair = x.name := congrArg name (h y (line_inj.mpr hy))
      exact ciscoAVPair_other.1 (hname ▸ hx)
    · obtain ⟨y, hy, hsent⟩ := undisguise hx
      have hname : y.name = ciscoAVPair := (h y (line_inj.mpr hsent.symm)).symm ▸ hx.1
      exact ciscoAVPair_other.1 (hname ▸ hy)
  · rintro ⟨hx, hplain⟩ y h
    have hsent := line_inj.mp h
    have hy : y.name ∉ avpairNames := fun hy => hplain (disguised_of_sent hy hx hsent)
    exact eq_of_sent_other hy hx hsent

end Attribute

/-- The lines of the request are its type, its attributes in order and an empty line, and each of
the lines is the line of one attribute only. -/
structure Framed (t : RequestType) (attributes : List Attribute) : Prop where
  cut : splitAll '\n' (request t attributes) = prepareAttributes t attributes ++ [[], []]
  determined : ∀ x ∈ attributes, x.Determined

section Requests
variable {t t' : RequestType} {xs ys : List Attribute}

theorem type_clean (t : RequestType) : '\n' ∉ t.text := by cases t <;> decide

theorem type_inj (h : t.text = t'.text) : t = t' := by
  revert h
  cases t <;> cases t' <;> decide

theorem lines_clean : (∀ l ∈ prepareAttributes t xs, '\n' ∉ l) ↔ ∀ x ∈ xs, x.Clean := by
  simp [prepareAttributes, type_clean, Attribute.line_clean]

/-- The lines are cut right exactly if no attribute goes over the end of one. -/
theorem cut_iff : splitAll '\n' (request t xs) = prepareAttributes t xs ++ [[], []] ↔
    ∀ x ∈ xs, x.Clean := by
  have h := @splitAll_unlines_iff '\n' (prepareAttributes t xs ++ [[]])
  rw [List.append_assoc] at h
  refine h.trans ?_
  rw [← lines_clean (t := t)]
  simp [or_imp, forall_and]

theorem request_sent (hx : ∀ x ∈ xs, x.Clean) (hy : ∀ x ∈ ys, x.Clean)
    (h : request t xs = request t' ys) :
    t = t' ∧ List.Forall₂ (fun x y => x.sent = y.sent) xs ys := by
  have hclean {t : RequestType} {xs : List Attribute} (hx : ∀ x ∈ xs, x.Clean) :
      ∀ l ∈ prepareAttributes t xs ++ [[]], '\n' ∉ l := by
    simpa [or_imp, forall_and] using lines_clean.mpr hx
  have hlines := List.append_cancel_right (unlines_inj (hclean hx) (hclean hy) h)
  obtain ⟨htype, hlines⟩ := List.cons.inj hlines
  refine ⟨type_inj htype, ?_⟩
  have hall : List.Forall₂ (· = ·) (xs.map Attribute.line) (ys.map Attribute.line) := by
    rw [hlines]
    exact List.forall₂_refl _
  rw [List.forall₂_map_left_iff, List.forall₂_map_right_iff] at hall
  exact hall.imp fun _ _ h => Attribute.line_inj.mp h

theorem eq_of_sent (h : List.Forall₂ (fun x y => Attribute.sent x = Attribute.sent y) xs ys)
    (hx : ∀ x ∈ xs, ¬ x.Disguised) (hy : ∀ y ∈ ys, ¬ y.Disguised) : xs = ys := by
  induction h with
  | nil => rfl
  | cons hsent _ ih =>
    rw [List.forall_mem_cons] at hx hy
    rw [Attribute.sent_inj hx.1 hy.1 hsent, ih hx.2 hy.2]

theorem eq_of_request (hx : ∀ x ∈ xs, x.Sound) (hy : ∀ y ∈ ys, y.Sound) (h : request t xs = request t' ys) :
    t = t' ∧ xs = ys := by
  obtain ⟨htype, hsent⟩ := request_sent (fun x hx' => (hx x hx').1) (fun y hy' => (hy y hy').1) h
  exact ⟨htype, eq_of_sent hsent (fun x hx' => (hx x hx').2) fun y hy' => (hy y hy').2⟩

theorem doAuth_callId (username : Text) (caller : Option Text) (callee sipCid remoteIp : Text)
    (digest : Option Digest) (extra : List Attribute) :
    ∃ x ∈ doAuth username caller callee sipCid remoteIp digest extra, x.name ∈ avpairNames := by
  refine ⟨⟨"call-id".toList, sipCid, by decide⟩, ?_, List.mem_map_of_mem List.mem_cons_self⟩
  apply List.mem_append_left
  apply List.mem_append_right
  simp

/-- A request is framed exactly if no attribute has a line end in its name or its value, none is sent
as the value of `Cisco-AVPair` and none that has this name looks like one that is: no request of
`do_auth` is, since it has a `call-id`. The lines alone are cut right exactly if no attribute has a
line end; and then the text is that of no other request without a disguised attribute. -/
theorem framed_iff (t : RequestType) (attributes : List Attribute) :
    (Framed t attributes ↔ ∀ x ∈ attributes, x.Clean ∧ x.name ∉ avpairNames ∧ ¬ x.Disguised) ∧
      (∀ username caller callee sipCid remoteIp digest extra,
        ¬ Framed t (doAuth username caller callee sipCid remoteIp digest extra)) ∧
      (splitAll '\n' (request t attributes) = prepareAttributes t attributes ++ [[], []] ↔
        ∀ x ∈ attributes, x.Clean) ∧
      ∀ t' attributes', (∀ x ∈ attributes, x.Sound) → (∀ x ∈ attributes', x.Sound) →
        request t attributes = request t' attributes' → t = t' ∧ attributes = attributes' := by
  refine ⟨⟨fun h x hx => ⟨cut_iff.mp h.cut x hx, Attribute.determined_iff.mp (h.determined x hx)⟩,
    fun h => ⟨cut_iff.mpr fun x hx => (h x hx).1, fun x hx => Attribute.determined_iff.mpr (h x hx).2⟩⟩,
    fun username caller callee sipCid remoteIp digest extra h => ?_, cut_iff,
    fun t' attributes' => eq_of_request⟩
  obtain ⟨x, hx, hname⟩ := doAuth_callId username caller callee sipCid remoteIp digest extra
  exact (Attribute.determined_iff.mp (h.determined x hx)).1 hname

/-- The request for a call to a URL. -/
def authFor (url : Text) : Option (List Attribute) :=
  match SipURL.username false url with
  | .ok (some callee) =>
    some (doAuth [] (some "1".toList) callee "c".toList "192.0.2.1".toList none [])
  | _ => none

/-- A call to a URL with two escaped line ends is authorised as another one: its request ends early,
and the rest is a request with a name of the caller's own. -/
theorem escaped_line_ends : ∃ attributes,
    authFor "sip:1%22%0A%0AAUTH%0AUser-Name=%222@h".toList = some attributes ∧
      [[], "AUTH".toList, "User-Name=\"2\"".toList] <:+: splitAll '\n' (request .auth attributes) ∧
      ¬ Framed .auth attributes := by
  refine ⟨doAuth [] (some "1".toList) "1\"\n\nAUTH\nUser-Name=\"2".toList "c".toList
    "192.0.2.1".toList none [], by decide, by decide +kernel, fun h => ?_⟩
  have hclean := cut_iff.mp h.cut
  exact absurd hclean (by decide)

end Requests

end SippyB2bua.Radius
