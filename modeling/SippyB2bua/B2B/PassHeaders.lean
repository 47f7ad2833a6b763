import SippyB2bua.B2B.Hunting
import SippyB2bua.Lib.Letters
import SippyB2bua.Wire.AddressList

/-!
# Headers that are passed on

Some options name headers of the INVITE: `pre_auth_proc` takes attributes out of them, `pass_headers` and its
older form `pass_header` pass them to the other leg. The parser gives each header the name that its class has in
lower case, and an option finds the headers whose names are literally its own.
-/

namespace SippyB2bua.B2B
open Lib (Text)
open Lib.Text (split1 splitAll strip lower endsWith)
open Wire (SipHeader HfType Read readHeaders)

/-- `s.partition(sep)` without the separator. -/
def partition (sep : Char) (s : Text) : Text × Text := ((split1 sep s).1, (split1 sep s).2.getD [])

abbrev Attributes := List (Text × Text)

/-- The routines that `getTransProc` finds by their names. -/
inductive TransProc
  | hdr2Xattrs (hdrName : Text)
  | val2Xattrs (radiusParameters : Attributes) (doO doA : Bool)
  | nop

/-- `VAL2Xattrs.__init__`. -/
def val2Pairs (v : Text) : Lazy Attributes :=
  (splitAll ',' v).mapM fun pair =>
    if (partition '=' pair).2 = [] then .error .valueError else .ok (partition '=' pair)

def getTransProc (value : Text) : Lazy TransProc :=
  match split1 '[' value with
  | (_, none) => .error .valueError
  | (fname, some arg) =>
    if ¬ endsWith value [']'] then .error .valueError
    else
      let farg := arg.dropLast
      if fname = "HDR2Xattrs".toList then .ok (.hdr2Xattrs farg)
      else if fname = "VAL2Xattrs".toList then do return .val2Xattrs (← val2Pairs farg) true true
      else if fname = "VAL2XattrsA".toList then do return .val2Xattrs (← val2Pairs farg) false true
      else if fname = "VAL2XattrsO".toList then do return .val2Xattrs (← val2Pairs farg) true false
      else if fname = "Nop".toList then .ok .nop
      else .error .attributeError

/-- What the routines change of a call controller: its attributes and those of its accounting. -/
structure Extra where
  extraAttributes : Option Attributes
  acctO : Option Attributes
  acctA : Option Attributes

namespace HDR2Xattrs

/-- The `key=value` pairs of a header. -/
def kvPairs (header : SipHeader) : Attributes :=
  ((splitAll ';' (header.body.localStr none)).map (partition '=')).filter fun kv => kv.2 ≠ []

/-- `cc.extra_attributes` with more attributes, if there are any. -/
def extend (extraAttributes : Option Attributes) (attributes : Attributes) : Option Attributes :=
  if attributes = [] then extraAttributes else some (extraAttributes.getD [] ++ attributes)

end HDR2Xattrs

def getHFs (headers : List SipHeader) (name : Text) : List SipHeader := headers.filter fun h => h.name = name

/-- `pre_auth_proc(cc, req)`. -/
def TransProc.call (cc : Extra) (headers : List SipHeader) : TransProc → Extra
  | hdr2Xattrs hdrName =>
    { cc with extraAttributes := HDR2Xattrs.extend cc.extraAttributes ((getHFs headers hdrName).flatMap HDR2Xattrs.kvPairs) }
  | val2Xattrs radiusParameters doO doA => { cc with
    acctO := if doO then cc.acctO.map (· ++ radiusParameters) else cc.acctO
    acctA := if doA then cc.acctA.map (· ++ radiusParameters) else cc.acctA }
  | nop => cc

/-- The options that name headers, with `_pass_headers` as it is used. -/
structure Config where
  passHeaders : List Text
  passHeadersText : Option Text
  preAuthProc : Option TransProc

namespace Config

/-- `main_func` starts with an empty `_pass_headers`. -/
def init : Config := ⟨[], none, none⟩

/-- `check_and_set('pass_header', value)`. -/
def setPassHeader (c : Config) (value : Text) : Config :=
  { c with
    passHeaders := c.passHeaders ++ [strip value]
    passHeadersText := some (c.passHeadersText.elim (strip value) fun t => t ++ ',' :: strip value) }

/-- `check_and_set('pass_headers', value)`. -/
def setPassHeaders (c : Config) (value : Text) : Config :=
  { c with
    passHeaders := (splitAll ',' (strip value)).map fun x => lower (strip x)
    passHeadersText := some (strip value) }

/-- `check_and_set('pre_auth_proc', value)`. -/
def setPreAuthProc (c : Config) (value : Text) : Lazy Config := do
  return { c with preAuthProc := some (← getTransProc (strip value)) }

/-- The option `-h`. -/
def optionH (c : Config) (value : Text) : Config := (splitAll ',' value).foldl setPassHeader c

end Config

/-- The headers of a request that `CallMap.recvRequest` gives to the call controller. -/
def passed (c : Config) (headers : List SipHeader) : List SipHeader := c.passHeaders.flatMap (getHFs headers)

def canonical (name : Text) : Text := (SipHeader.typeOf (lower name)).hfName

/-- A name as the parser spells it, of a header that stays among the others. -/
def Literal (name : Text) : Prop := name = canonical name ∧ name ≠ Wire.contentType ∧ name ≠ Wire.contentLength

instance (name : Text) : Decidable (Literal name) := inferInstanceAs (Decidable (_ ∧ _))

def lineHeaders (line : Text) : List SipHeader :=
  match SipHeader.ofLine line with
  | .ok hs => hs
  | .error _ => []

def writtenName (line : Text) : Text := strip (split1 ':' line).1

def named (name : Text) (lines : List Text) : List SipHeader :=
  lines.flatMap fun line => if canonical (writtenName line) = canonical name then lineHeaders line else []

section Names
variable {n m l : Text} {lines : List Text} {r : Read} {h : SipHeader}

theorem hfName_facts : ∀ t ∈ HfType.all, lower t.hfName = t.hfName ∧ SipHeader.typeOf t.hfName = t := by
  unfold SipHeader.typeOf Wire.hfTypes HfType.hfName HfType.hfNames
  repeat rewrite [String.toList_ofList]
  decide +kernel

theorem canonical_facts (n : Text) : lower (canonical n) = canonical n ∧ canonical (canonical n) = canonical n := by
  have hlower : ∀ t, SipHeader.typeOf (lower n) = t → lower t.hfName = t.hfName ∧ SipHeader.typeOf t.hfName = t := by
    intro t ht
    unfold SipHeader.typeOf at ht
    cases hd : Wire.hfTypes (lower n) with
    | none =>
      rw [hd, Option.getD_none] at ht
      have hname : t.hfName = lower n := by
        rw [← ht]
        exact Lib.Text.lower_lower n
      refine ⟨by rw [hname, Lib.Text.lower_lower], ?_⟩
      rw [hname, SipHeader.typeOf, hd, Option.getD_none, ht]
    | some u =>
      rw [hd, Option.getD_some] at ht
      rw [← ht]
      apply hfName_facts
      rcases Wire.foldl_set_mem hd with hempty | hmem
      · exact absurd hempty (by simp)
      · exact hmem
  obtain ⟨h₁, h₂⟩ := hlower _ rfl
  refine ⟨h₁, ?_⟩
  unfold canonical
  rw [h₁, h₂]

theorem canonical_lower (n : Text) : canonical (lower n) = canonical n := by
  rw [canonical, Lib.Text.lower_lower, canonical]

theorem Literal.lower (h : Literal n) : lower n = n := by
  obtain ⟨hn, -⟩ := h
  rw [hn]
  exact (canonical_facts n).1

theorem name_of_mem (hh : h ∈ lineHeaders l) : h.name = canonical (writtenName l) := by
  unfold lineHeaders at hh
  split at hh
  · rename_i hs hok
    obtain ⟨w, s, rfl, hw⟩ := Wire.ofLine_colon hok
    rw [Wire.ofLine_ok hw hok] at hh
    obtain ⟨b, -, rfl⟩ := List.mem_map.mp hh
    rw [writtenName, Lib.Text.split1_append hw]
    rfl
  · exact absurd hh List.not_mem_nil

theorem named_name (hh : h ∈ named n lines) : h.name = canonical n := by
  obtain ⟨l, -, hl⟩ := List.mem_flatMap.mp hh
  split at hl
  · rename_i hname
    rw [name_of_mem hl, hname]
  · exact absurd hl List.not_mem_nil

theorem named_congr (h : canonical m = canonical n) (lines : List Text) : named m lines = named n lines := by
  unfold named
  rw [h]

theorem named_eq (lines : List Text) : (lines.flatMap lineHeaders).filter (fun h => h.name = canonical n) = named n lines := by
  induction lines with
  | nil => rfl
  | cons l lines ih =>
    have hline : (lineHeaders l).filter (fun h => h.name = canonical n) =
        if canonical (writtenName l) = canonical n then lineHeaders l else [] := by
      split
      · rename_i hname
        apply List.filter_eq_self.mpr
        intro h hh
        exact decide_eq_true ((name_of_mem hh).trans hname)
      · rename_i hname
        apply List.filter_eq_nil_iff.mpr
        intro h hh
        rw [decide_eq_true_eq, name_of_mem hh]
        exact hname
    have hcons : named n (l :: lines) =
        (if canonical (writtenName l) = canonical n then lineHeaders l else []) ++ named n lines := rfl
    rw [List.flatMap_cons, List.filter_append, hline, ih, hcons]

theorem headers_eq (hr : readHeaders .start lines = .ok r) :
    r.headers = (lines.flatMap lineHeaders).filter Wire.Kept := by
  obtain ⟨hss, hlines, hheaders⟩ := Wire.readHeaders_kept hr
  have hall : lines.map lineHeaders = hss := by
    clear hheaders hr
    induction hlines with
    | nil => rfl
    | @cons l hs lines hss hl _ ih =>
      have hone : lineHeaders l = hs := by rw [lineHeaders, hl]
      rw [List.map_cons, hone, ih]
  rw [hheaders, ← hall, List.flatMap_def]
  rfl

/-- An option finds the headers of its name if it is spelled as the parser spells it, and otherwise nothing. -/
theorem getHFs_eq (hr : readHeaders .start lines = .ok r) (n : Text) :
    getHFs r.headers n = if Literal n then named n lines else [] := by
  rw [getHFs, headers_eq hr, List.filter_filter]
  split
  · rename_i hlit
    obtain ⟨hn, hct, hcl⟩ := hlit
    rw [← named_eq]
    apply List.filter_congr
    intro h _
    rw [← hn]
    by_cases hname : h.name = n
    · have hkept : Wire.Kept h = true := decide_eq_true ⟨hname ▸ hct, hname ▸ hcl⟩
      rw [hkept, Bool.and_true]
    · rw [decide_eq_false hname, Bool.false_and]
  · rename_i hlit
    apply List.filter_eq_nil_iff.mpr
    intro h hh hname
    obtain ⟨hname, hkept⟩ := Bool.and_eq_true_iff.mp hname
    have hname : h.name = n := of_decide_eq_true hname
    obtain ⟨hct, hcl⟩ : h.name ≠ Wire.contentType ∧ h.name ≠ Wire.contentLength := of_decide_eq_true hkept
    obtain ⟨l, -, hl⟩ := List.mem_flatMap.mp hh
    have hcanon : h.name = canonical h.name := by
      rw [name_of_mem hl]
      exact (canonical_facts _).2.symm
    rw [hname] at hcanon hct hcl
    exact hlit ⟨hcanon, hct, hcl⟩

end Names

def copies (f : Text → Text) (names : List Text) (n : Text) : ℕ :=
  names.countP fun m => canonical m = canonical n ∧ Literal (f m)

/-- Exactly the headers with one of the names are there, and those of each name in order. -/
def Carries (names : List Text) (lines : List Text) (hs : List SipHeader) : Prop :=
  ∀ n, hs.filter (fun h => h.name = canonical n) =
    if ∃ m ∈ names, canonical m = canonical n then named n lines else []

/-- What the options do if the letter case of the names does not matter. -/
structure Insensitive (hdrName : Text) (names : List Text) (lines : List Text) (headers : List SipHeader) : Prop where
  attributes : ∀ c, Config.init.setPreAuthProc ("HDR2Xattrs[".toList ++ hdrName ++ [']']) = .ok c → ∀ cc,
    (c.preAuthProc.map fun proc => proc.call cc headers) = some { cc with
      extraAttributes := HDR2Xattrs.extend cc.extraAttributes ((named hdrName lines).flatMap HDR2Xattrs.kvPairs) }
  passHeaders : Carries names lines (passed (Config.init.setPassHeaders ([','].intercalate names)) headers)
  passHeader : Carries names lines (passed (names.foldl Config.setPassHeader .init) headers)
  same : passed (names.foldl Config.setPassHeader .init) headers =
    passed (Config.init.setPassHeaders ([','].intercalate names)) headers

/-- The names are spelled as the parser spells them, and each is given once, as far as the request has such headers. -/
structure Spelled (hdrName : Text) (names : List Text) (lines : List Text) : Prop where
  header : Literal hdrName ∨ (named hdrName lines).flatMap HDR2Xattrs.kvPairs = []
  names : ∀ n ∈ names, named n lines = [] ∨ copies id names n = 1 ∧ copies lower names n = 1

section Options
variable {n m : Text} {names lines : List Text} {hs : List SipHeader} {f : Text → Text}

theorem getTransProc_hdr2Xattrs (hdrName : Text) :
    getTransProc ("HDR2Xattrs[".toList ++ hdrName ++ [']']) = .ok (.hdr2Xattrs hdrName) := by
  have hend : endsWith ("HDR2Xattrs[".toList ++ hdrName ++ [']']) [']'] = true :=
    List.isSuffixOf_iff_suffix.mpr (List.suffix_append _ _)
  have hvalue : split1 '[' ("HDR2Xattrs[".toList ++ hdrName ++ [']']) =
      ("HDR2Xattrs".toList, some (hdrName ++ [']'])) := by
    have happend : "HDR2Xattrs[".toList ++ hdrName ++ [']'] = "HDR2Xattrs".toList ++ '[' :: (hdrName ++ [']']) := by
      simp
    rw [happend, Lib.Text.split1_append (by decide)]
  simp only [getTransProc, hvalue, hend, not_true_eq_false, if_false, if_true, List.dropLast_concat]

theorem setPreAuthProc_hdr2Xattrs (hdrName : Text) :
    Config.init.setPreAuthProc ("HDR2Xattrs[".toList ++ hdrName ++ [']']) =
      .ok { Config.init with preAuthProc := some (.hdr2Xattrs hdrName) } := by
  have hstrip : strip ("HDR2Xattrs[".toList ++ hdrName ++ [']']) = "HDR2Xattrs[".toList ++ hdrName ++ [']'] := by
    rw [Lib.Text.strip_iff, List.head?_append_of_ne_nil _ (by simp), List.getLast?_concat]
    constructor
    · intro c hc
      obtain rfl : 'H' = c := by simpa using hc
      decide
    · intro c hc
      obtain rfl : ']' = c := by simpa using hc
      decide
  rw [Config.setPreAuthProc, hstrip, getTransProc_hdr2Xattrs]
  rfl

theorem extend_inj {attrs attrs' : Attributes} :
    (∀ x, HDR2Xattrs.extend x attrs = HDR2Xattrs.extend x attrs') ↔ attrs = attrs' := by
  constructor
  · intro h
    have hnil := h (some [])
    unfold HDR2Xattrs.extend at hnil
    split at hnil <;> split at hnil <;> simp_all
  · rintro rfl x
    rfl

theorem passed_passHeaders (hnames : ∀ n ∈ names, ',' ∉ n ∧ strip n = n) (hne : names ≠ []) (headers : List SipHeader) :
    passed (Config.init.setPassHeaders ([','].intercalate names)) headers =
      names.flatMap fun n => getHFs headers (lower n) := by
  have hstrip : strip ([','].intercalate names) = [','].intercalate names :=
    Wire.strip_joined fun n hn => (hnames n hn).2
  have hsplit : splitAll ',' ([','].intercalate names) = names :=
    Lib.Text.splitAll_intercalate (fun n hn => (hnames n hn).1) hne
  have hmap : names.map (fun x => lower (strip x)) = names.map lower := by
    apply List.map_congr_left
    intro n hn
    rw [(hnames n hn).2]
  rw [passed, Config.setPassHeaders, hstrip, hsplit, hmap, List.flatMap_map]

theorem foldl_setPassHeader (hnames : ∀ n ∈ names, strip n = n) (c : Config) :
    (names.foldl Config.setPassHeader c).passHeaders = c.passHeaders ++ names := by
  induction names generalizing c with
  | nil => exact (List.append_nil _).symm
  | cons n names ih =>
    have hn : strip n = n := hnames n List.mem_cons_self
    rw [List.foldl_cons, ih fun m hm => hnames m (List.mem_cons_of_mem _ hm), Config.setPassHeader, hn,
      List.append_assoc, List.singleton_append]

theorem passed_passHeader (hnames : ∀ n ∈ names, strip n = n) (headers : List SipHeader) :
    passed (names.foldl Config.setPassHeader .init) headers = names.flatMap fun n => getHFs headers (id n) := by
  rw [passed, foldl_setPassHeader hnames]
  rfl

/-- The option `-h` with several names is the older option with each of them. -/
theorem optionH_eq (hnames : ∀ n ∈ names, ',' ∉ n) (hne : names ≠ []) (c : Config) :
    c.optionH ([','].intercalate names) = names.foldl Config.setPassHeader c := by
  rw [Config.optionH, Lib.Text.splitAll_intercalate hnames hne]

variable {r : Read}

theorem filter_passed (hr : readHeaders .start lines = .ok r) (hf : ∀ m, canonical (f m) = canonical m) (n : Text) :
    (names.flatMap fun m => getHFs r.headers (f m)).filter (fun h => h.name = canonical n) =
      (List.replicate (copies f names n) (named n lines)).flatten := by
  have hone : ∀ m, (getHFs r.headers (f m)).filter (fun h => h.name = canonical n) =
      if canonical m = canonical n ∧ Literal (f m) then named n lines else [] := by
    intro m
    rw [getHFs_eq hr, named_congr (hf m)]
    by_cases hlit : Literal (f m)
    · rw [if_pos hlit]
      by_cases hname : canonical m = canonical n
      · rw [if_pos ⟨hname, hlit⟩, ← named_congr hname]
        apply List.filter_eq_self.mpr
        intro h hh
        exact decide_eq_true ((named_name hh).trans hname)
      · rw [if_neg (hname ·.1)]
        apply List.filter_eq_nil_iff.mpr
        intro h hh
        rw [decide_eq_true_eq, named_name hh]
        exact hname
    · rw [if_neg hlit, if_neg (hlit ·.2)]
      rfl
  induction names with
  | nil => rfl
  | cons m names ih =>
    have hcopies : copies f (m :: names) n = copies f names n + if canonical m = canonical n ∧ Literal (f m) then 1 else 0 := by
      simp only [copies, List.countP_cons, decide_eq_true_eq]
    rw [List.flatMap_cons, List.filter_append, hone, ih, hcopies]
    split
    · rw [List.replicate_succ, List.flatten_cons]
    · rfl

theorem copies_congr (h : canonical m = canonical n) (f : Text → Text) (names : List Text) :
    copies f names m = copies f names n := by
  unfold copies
  rw [h]

theorem carries_iff (hr : readHeaders .start lines = .ok r) (hf : ∀ m, canonical (f m) = canonical m) :
    Carries names lines (names.flatMap fun m => getHFs r.headers (f m)) ↔
      ∀ n ∈ names, named n lines = [] ∨ copies f names n = 1 := by
  constructor
  · intro h n hn
    have hcarried := h n
    rw [filter_passed hr hf, if_pos ⟨n, hn, rfl⟩] at hcarried
    have hlength := congrArg List.length hcarried
    rw [List.length_flatten, List.map_replicate, List.sum_replicate_nat] at hlength
    rcases Nat.eq_zero_or_pos (named n lines).length with hzero | hpos
    · exact .inl (List.length_eq_zero_iff.mp hzero)
    · exact .inr (Nat.eq_of_mul_eq_mul_right hpos (hlength.trans (Nat.one_mul _).symm))
  · intro h n
    rw [filter_passed hr hf]
    split
    · rename_i hgiven
      obtain ⟨m, hm, hname⟩ := hgiven
      rw [← named_congr hname, ← copies_congr hname]
      rcases h m hm with hnone | hone
      · rw [hnone]
        simp
      · rw [hone]
        simp
    · rename_i hgiven
      have hzero : copies f names n = 0 := by
        apply List.countP_eq_zero.mpr
        intro m hm hlit
        exact hgiven ⟨m, hm, (of_decide_eq_true hlit).1⟩
      rw [hzero]
      rfl

theorem same_of_carried (hr : readHeaders .start lines = .ok r)
    (h : ∀ n ∈ names, named n lines = [] ∨ copies id names n = 1 ∧ copies lower names n = 1) :
    (names.flatMap fun n => getHFs r.headers (id n)) = names.flatMap fun n => getHFs r.headers (lower n) := by
  rw [List.flatMap_def, List.flatMap_def]
  congr 1
  apply List.map_congr_left
  intro n hn
  rw [getHFs_eq hr, getHFs_eq hr, named_congr (canonical_lower n), id]
  by_cases hlit : Literal n
  · rw [hlit.lower]
  by_cases hlower : Literal (lower n)
  · -- another name is spelled right, and both lead to the headers after they are put in lower case
    rcases h n hn with hnone | ⟨hid, hone⟩
    · rw [hnone, ite_self, ite_self]
    · exfalso
      obtain ⟨l, l', rfl⟩ := List.append_of_mem hn
      have hmono : ∀ ms : List Text, copies id ms n ≤ copies lower ms n := by
        intro ms
        apply List.countP_mono_left
        intro m _ hm
        obtain ⟨hname, hm⟩ := of_decide_eq_true hm
        apply decide_eq_true
        have hm : Literal m := hm
        rw [hm.lower]
        exact ⟨hname, hm⟩
      have hsum : ∀ f, copies f (l ++ n :: l') n = copies f l n + (copies f l' n + if Literal (f n) then 1 else 0) := by
        intro f
        simp only [copies, List.countP_append, List.countP_cons, true_and, decide_eq_true_eq]
      rw [hsum, if_neg (show ¬ Literal (id n) from hlit)] at hid
      rw [hsum, if_pos hlower] at hone
      have h₁ := hmono l
      have h₂ := hmono l'
      omega
  · rw [if_neg hlit, if_neg hlower]

theorem attributes_iff (hr : readHeaders .start lines = .ok r) (hdrName : Text) :
    (∀ c, Config.init.setPreAuthProc ("HDR2Xattrs[".toList ++ hdrName ++ [']']) = .ok c → ∀ cc,
      (c.preAuthProc.map fun proc => proc.call cc r.headers) = some { cc with
        extraAttributes := HDR2Xattrs.extend cc.extraAttributes ((named hdrName lines).flatMap HDR2Xattrs.kvPairs) }) ↔
      Literal hdrName ∨ (named hdrName lines).flatMap HDR2Xattrs.kvPairs = [] := by
  have hattrs : (∀ x, HDR2Xattrs.extend x ((getHFs r.headers hdrName).flatMap HDR2Xattrs.kvPairs) =
      HDR2Xattrs.extend x ((named hdrName lines).flatMap HDR2Xattrs.kvPairs)) ↔
      Literal hdrName ∨ (named hdrName lines).flatMap HDR2Xattrs.kvPairs = [] := by
    rw [extend_inj, getHFs_eq hr]
    by_cases hlit : Literal hdrName
    · rw [if_pos hlit]
      exact ⟨fun _ => .inl hlit, fun _ => rfl⟩
    · rw [if_neg hlit]
      exact ⟨fun h => .inr h.symm, fun h => (h.resolve_left hlit).symm⟩
  rw [← hattrs, setPreAuthProc_hdr2Xattrs]
  constructor
  · intro h x
    have hcall := h _ rfl ⟨x, none, none⟩
    exact congrArg Extra.extraAttributes (Option.some.inj hcall)
  · intro h c hc cc
    cases hc
    rw [Option.map_some, TransProc.call, h]

theorem groupTimeout_extraHeaders {r r' : B2BRoute} {rnum : ℕ} (h : r.groupTimeout rnum = .ok r') :
    r'.extraHeaders = r.extraHeaders := by
  unfold B2BRoute.groupTimeout at h
  split at h
  · split at h
    · exact absurd h (by simp)
    · obtain ⟨timeout, -, h⟩ := Lib.bind_ok.mp h
      obtain ⟨skip, -, h⟩ := Lib.bind_ok.mp h
      cases h
      rfl
  · exact absurd h (by simp)
  · cases h
    rfl

theorem customizeAll_extraHeaders {call : CallData} {creditTime : Option ℤ} {rnum : ℕ} {rs rs' : List B2BRoute}
    (h : customizeAll call creditTime rnum rs = .ok rs') :
    ∀ r' ∈ rs', ∃ r ∈ rs, r'.extraHeaders = some (r.extraHeaders.getD [] ++ call.passHeaders) := by
  induction rs generalizing rnum rs' with
  | nil =>
    cases h
    exact fun _ hr => absurd hr List.not_mem_nil
  | cons route rs ih =>
    obtain ⟨r', hr, h⟩ := Lib.bind_ok.mp h
    obtain ⟨rest, hrest, h⟩ := Lib.bind_ok.mp h
    have hfirst : r'.extraHeaders = some (route.extraHeaders.getD [] ++ call.passHeaders) := by
      obtain ⟨grouped, hgroup, hr⟩ := Lib.bind_ok.mp hr
      cases hr
      rw [groupTimeout_extraHeaders hgroup]
    have hrest : ∀ r' ∈ rest, ∃ r ∈ route :: rs, r'.extraHeaders = some (r.extraHeaders.getD [] ++ call.passHeaders) := by
      intro r'' hr''
      obtain ⟨r, hmem, hextra⟩ := ih hrest r'' hr''
      exact ⟨r, List.mem_cons_of_mem _ hmem, hextra⟩
    cases h
    split
    · exact List.forall_mem_cons.mpr ⟨⟨route, List.mem_cons_self, hfirst⟩, hrest⟩
    · exact hrest

end Options

/-- The options find their headers whatever the letter case, and each route of the call carries what they find, exactly
if the names are spelled as the parser spells them. -/
theorem insensitive_iff {hdrName : Text} {names lines : List Text} {r : Read} (hr : readHeaders .start lines = .ok r)
    (hnames : ∀ n ∈ names, ',' ∉ n ∧ strip n = n) (hne : names ≠ []) :
    (Insensitive hdrName names lines r.headers ↔ Spelled hdrName names lines) ∧
      ∀ c (call : CallData) creditTime rnum rs rs',
        customizeAll { call with passHeaders := passed c r.headers } creditTime rnum rs = .ok rs' →
          ∀ r' ∈ rs', ∃ route ∈ rs, r'.extraHeaders = some (route.extraHeaders.getD [] ++ passed c r.headers) := by
  have hstrip : ∀ n ∈ names, strip n = n := fun n hn => (hnames n hn).2
  constructor
  · constructor
    · intro h
      obtain ⟨hattrs, hlower, hid, -⟩ := h
      rw [passed_passHeaders hnames hne, carries_iff hr canonical_lower] at hlower
      rw [passed_passHeader hstrip, carries_iff (f := id) hr fun _ => rfl] at hid
      refine ⟨(attributes_iff hr hdrName).mp hattrs, ?_⟩
      intro n hn
      rcases hid n hn with hnone | hid
      · exact .inl hnone
      · exact (hlower n hn).imp_right fun hlower => ⟨hid, hlower⟩
    · intro h
      obtain ⟨hheader, hcopies⟩ := h
      refine ⟨(attributes_iff hr hdrName).mpr hheader, ?_, ?_, ?_⟩
      · rw [passed_passHeaders hnames hne, carries_iff hr canonical_lower]
        exact fun n hn => (hcopies n hn).imp_right And.right
      · rw [passed_passHeader hstrip, carries_iff (f := id) hr fun _ => rfl]
        exact fun n hn => (hcopies n hn).imp_right And.left
      · rw [passed_passHeaders hnames hne, passed_passHeader hstrip]
        exact same_of_carried hr hcopies
  · intro c call creditTime rnum rs rs' h
    exact customizeAll_extraHeaders h

def sampleLines : List Text :=
  ["To: <sip:2@h>".toList, "X-foo-hdr: a=b;c".toList, "X-FOO: 1".toList, "x-foo-HDR: d=e".toList]

theorem readable_sampleLines : ∃ r, readHeaders .start sampleLines = .ok r := by
  have hok : (readHeaders .start sampleLines).isOk = true := by
    unfold sampleLines
    repeat rewrite [String.toList_ofList]
    decide +kernel
  cases hr : readHeaders .start sampleLines with
  | error e =>
    rw [hr] at hok
    cases hok
  | ok r => exact ⟨r, rfl⟩

theorem insensitive_iff_lower : ∃ r, readHeaders .start sampleLines = .ok r ∧
    Insensitive "x-foo-hdr".toList ["x-foo".toList, "to".toList] sampleLines r.headers := by
  obtain ⟨r, hr⟩ := readable_sampleLines
  refine ⟨r, hr, ((insensitive_iff hr (by decide) (by decide)).1).mpr ⟨.inl (by decide +kernel), ?_⟩⟩
  intro n hn
  have hcopies : ∀ n ∈ ["x-foo".toList, "to".toList], copies id ["x-foo".toList, "to".toList] n = 1 ∧
      copies lower ["x-foo".toList, "to".toList] n = 1 := by
    decide +kernel
  exact .inr (hcopies n hn)

/-- The example in the description of the option finds no header, and only one of the two options passes `X-Foo`. -/
theorem capitals_dropped : ∃ r, readHeaders .start sampleLines = .ok r ∧
    getHFs r.headers "X-foo-hdr".toList = [] ∧
    (named "X-foo-hdr".toList sampleLines).flatMap HDR2Xattrs.kvPairs =
      [("a".toList, "b".toList), ("d".toList, "e".toList)] ∧
    passed (["X-Foo".toList].foldl Config.setPassHeader .init) r.headers = [] ∧
    passed (Config.init.setPassHeaders ([','].intercalate ["X-Foo".toList])) r.headers ≠ [] ∧
    ¬ Insensitive "X-foo-hdr".toList ["X-Foo".toList] sampleLines r.headers := by
  obtain ⟨r, hr⟩ := readable_sampleLines
  have hpairs : (named "X-foo-hdr".toList sampleLines).flatMap HDR2Xattrs.kvPairs =
      [("a".toList, "b".toList), ("d".toList, "e".toList)] := by
    decide +kernel
  have hcapitals : ¬ Literal "X-foo-hdr".toList ∧ ¬ Literal "X-Foo".toList ∧ Literal "x-foo".toList := by
    decide +kernel
  have hdropped : passed (["X-Foo".toList].foldl Config.setPassHeader .init) r.headers = [] := by
    rw [passed_passHeader (by decide), List.flatMap_singleton, getHFs_eq hr, id, if_neg hcapitals.2.1]
  have hpassed : passed (Config.init.setPassHeaders ([','].intercalate ["X-Foo".toList])) r.headers =
      named "x-foo".toList sampleLines := by
    rw [passed_passHeaders (by decide) (by decide), List.flatMap_singleton, getHFs_eq hr]
    exact if_pos hcapitals.2.2
  have hone : (named "x-foo".toList sampleLines).length = 1 := by decide +kernel
  refine ⟨r, hr, ?_, hpairs, hdropped, ?_, ?_⟩
  · rw [getHFs_eq hr, if_neg hcapitals.1]
  · rw [hpassed, ← List.length_pos_iff, hone]
    decide
  · intro h
    have hsame := h.same
    rw [hdropped, hpassed] at hsame
    rw [← hsame] at hone
    cases hone

end SippyB2bua.B2B
