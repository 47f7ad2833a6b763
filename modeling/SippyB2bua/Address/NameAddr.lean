import SippyB2bua.Address.HeaderParams
import SippyB2bua.Address.TelURL

/-!
# Addresses with a quoted name

A name-addr: a name between quotes, a URL between brackets and parameters. The name is found
unless it ends in a backslash, whatever quotes and brackets there are in the name, the URL and
the parameters.
-/

namespace SippyB2bua.Address
open Lib (Text Items)
open Lib.Text

variable {body ws url rest s : Text} {params : Items (Option Text)} {previous : Char} {pos q : ℕ}

def afterName (ws url : Text) (params : Items (Option Text)) : Text :=
  ws ++ '<' :: url ++ '>' :: params.flatMap headerParam

def nameAddr (body ws url : Text) (params : Items (Option Text)) : Text :=
  '"' :: body ++ '"' :: afterName ws url params

theorem head_nameAddr (body ws url : Text) (params : Items (Option Text)) :
    (nameAddr body ws url params).head? = some '"' := rfl

theorem quotesFrom_body (h : QuotedText body) (previous : Char) (pos : ℕ) (rest : Text) :
    quotesFrom previous pos (body ++ rest) =
    quotesFrom (body.getLast?.getD previous) (pos + body.length) rest := by
  induction h generalizing previous pos with
  | nil => rfl
  | @char c s hquote _ _ ih =>
    rw [List.cons_append, quotesFrom, if_neg (fun hc => hquote hc.1), ih, List.getLast?_cons, List.length_cons]
    simp [Nat.add_assoc, Nat.add_comm 1]
  | @pair c s _ ih =>
    rw [List.cons_append, List.cons_append, quotesFrom, if_neg (by simp), quotesFrom,
      if_neg (by simp), ih, List.getLast?_cons, List.getLast?_cons, List.length_cons, List.length_cons]
    simp [Nat.add_assoc, Nat.add_comm 2]

theorem le_of_quotesFrom (h : q ∈ quotesFrom previous pos s) : pos ≤ q := by
  induction s generalizing previous pos with
  | nil => exact absurd h List.not_mem_nil
  | cons c cs ih =>
    unfold quotesFrom at h
    split at h
    · rcases List.mem_cons.mp h with rfl | h
      · exact Nat.le_refl _
      · exact (Nat.le_succ pos).trans (ih h)
    · exact (Nat.le_succ pos).trans (ih h)

theorem quotesFrom_clean (h : '"' ∉ s) (previous : Char) (pos : ℕ) (rest : Text) :
    quotesFrom previous pos (s ++ rest) =
    quotesFrom (s.getLast?.getD previous) (pos + s.length) rest := by
  induction s generalizing previous pos with
  | nil => rfl
  | cons c cs ih =>
    have hc : c ≠ '"' := fun hc => h (hc ▸ List.mem_cons_self)
    rw [List.cons_append, quotesFrom, if_neg (fun hq => hc hq.1),
      ih fun hmem => h (List.mem_cons_of_mem c hmem), List.getLast?_cons, List.length_cons]
    simp [Nat.add_assoc, Nat.add_comm 1]

theorem findquotes_nameAddr (h : QuotedText body) (ws url : Text) (params : Items (Option Text)) :
    findquotes (nameAddr body ws url params) =
      (if body.getLast? = some '\\' then [] else [1 + body.length]) ++
        quotesFrom '"' (body.length + 2) (afterName ws url params) := by
  have hrest := quotesFrom_body h '"' 1 ('"' :: afterName ws url params)
  change quotesFrom '"' 1 (body ++ '"' :: afterName ws url params) = _
  have hpos : 1 + body.length + 1 = body.length + 2 := by omega
  rw [hrest, quotesFrom, hpos]
  by_cases hlast : body.getLast? = some '\\'
  · have hback : body.getLast?.getD '"' = '\\' := by rw [hlast, Option.getD_some]
    rw [if_pos hlast, if_neg (fun hc => hc.2 hback), List.nil_append]
  · have hback : body.getLast?.getD '"' ≠ '\\' := by
      cases hb : body.getLast? with
      | none => decide
      | some c =>
        rw [Option.getD_some]
        exact fun hc => hlast (hc ▸ hb)
    rw [if_neg hlast, if_pos ⟨rfl, hback⟩]
    rfl

theorem pickQuote_nameAddr (hws : ∀ c ∈ ws, isSpace c = true) (body url : Text)
    (params : Items (Option Text)) :
    pickQuote (nameAddr body ws url params) (1 + body.length)
      (quotesFrom '"' (body.length + 2) (afterName ws url params)) = 1 + body.length := by
  have hquote : '"' ∉ ws := fun hc => absurd (hws _ hc) (by decide)
  have hclean := quotesFrom_clean hquote '"' (body.length + 2)
    ('<' :: (url ++ '>' :: params.flatMap headerParam))
  have hafter : afterName ws url params = ws ++ '<' :: (url ++ '>' :: params.flatMap headerParam) := by
    simp [afterName]
  rw [hafter, hclean, quotesFrom, if_neg (by simp)]
  cases hqs : quotesFrom '<' (body.length + 2 + ws.length + 1) (url ++ '>' :: params.flatMap headerParam) with
  | nil => rfl
  | cons next qs =>
    have hle : body.length + 2 + ws.length + 1 ≤ next := le_of_quotesFrom (hqs ▸ List.mem_cons_self)
    have heq : nameAddr body ws url params = '"' :: (body ++ '"' :: ws) ++ '<' :: (url ++ '>' ::
        params.flatMap headerParam) := by simp [nameAddr, hafter]
    have hbracket : '<' ∈ upTo (nameAddr body ws url params) next := by
      obtain ⟨n, rfl⟩ : ∃ n, next = ('"' :: (body ++ '"' :: ws)).length + (n + 1) := by
        refine ⟨next - (body.length + 2 + ws.length + 1), ?_⟩
        simp only [List.length_cons, List.length_append]
        omega
      rw [upTo, heq, List.take_length_add_append]
      simp
    rw [pickQuote, if_pos hbracket]

theorem strip_afterName (hws : ∀ c ∈ ws, isSpace c = true) (hparams : ∀ p ∈ params, HeaderParam p) (url : Text) :
    strip (afterName ws url params) = '<' :: url ++ '>' :: params.flatMap headerParam := by
  have hleft : lstrip (afterName ws url params) = '<' :: url ++ '>' :: params.flatMap headerParam := by
    rw [lstrip, afterName, List.append_assoc, List.dropWhile_append_of_pos hws]
    rfl
  have hlast := params_last hparams
  rw [strip, hleft, rstrip_iff]
  rw [List.getLast?_append_of_ne_nil _ (by simp)]
  exact hlast

theorem nameParts_nameAddr (hbody : QuotedText body) (hlast : body.getLast? ≠ some '\\')
    (hws : ∀ c ∈ ws, isSpace c = true) (hparams : ∀ p ∈ params, HeaderParam p) (url : Text) :
    nameParts (nameAddr body ws url params) = .ok (body, url ++ '>' :: params.flatMap headerParam) := by
  have hend : endQuote (nameAddr body ws url params) = .ok (1 + body.length) := by
    rw [endQuote, findquotes_nameAddr hbody, if_neg hlast]
    exact congrArg Except.ok (pickQuote_nameAddr hws body url params)
  have hlen : 1 + body.length = ('"' :: body).length := Nat.add_comm _ _
  have hname : upTo (nameAddr body ws url params) (1 + body.length) = body := by
    rw [upTo, nameAddr, hlen, List.take_left]
    rfl
  have hrest : (nameAddr body ws url params).drop (1 + body.length + 1) = afterName ws url params := by
    rw [nameAddr, hlen, List.drop_append]
    simp
  rw [nameParts, if_pos (head_nameAddr _ _ _ _), hend]
  change Except.ok _ = _
  rw [hname, hrest, strip_afterName hws hparams]
  rfl

theorem pickQuote_mem (address : Text) (q : ℕ) (qs : List ℕ) : pickQuote address q qs ∈ q :: qs := by
  induction qs generalizing q with
  | nil => exact List.mem_cons_self
  | cons next qs ih =>
    unfold pickQuote
    split
    · exact List.mem_cons_self
    · exact List.mem_cons_of_mem _ (ih next)

theorem nameParts_backslash (hbody : QuotedText body) (hlast : body.getLast? = some '\\')
    (h : nameParts (nameAddr body ws url params) = .ok (s, rest)) : s ≠ body := by
  rw [nameParts, if_pos (head_nameAddr _ _ _ _)] at h
  obtain ⟨q, hq, h⟩ := Lib.bind_ok.mp h
  have hle : body.length + 2 ≤ q := by
    rw [endQuote, findquotes_nameAddr hbody, if_pos hlast, List.nil_append] at hq
    split at hq
    · exact absurd hq (by simp)
    · rename_i q' qs hqs
      rw [← Except.ok.inj hq]
      exact le_of_quotesFrom (hqs ▸ pickQuote_mem _ q' qs)
  have hs : upTo (nameAddr body ws url params) q = s := congrArg Prod.fst (Except.ok.inj h)
  obtain ⟨n, rfl⟩ : ∃ n, q = ('"' :: body).length + (n + 1) := by
    refine ⟨q - (body.length + 2), ?_⟩
    rw [List.length_cons]
    omega
  rintro rfl
  rw [upTo, nameAddr, List.take_length_add_append] at hs
  have hlen := congrArg List.length hs
  simp at hlen

/-- What the parser takes for parameters in front of the closing bracket, if the URL has a
bracket. -/
def hiddenText (url : Text) : Text :=
  (split1 '>' url).2.elim [] fun hidden => lstrip (hidden ++ ['>'])

theorem split1_append_rest (sep : Char) (t rest : Text) : split1 sep (t ++ sep :: rest) =
    ((split1 sep t).1, some ((split1 sep t).2.elim rest fun hidden => hidden ++ sep :: rest)) := by
  have hclean := split1_clean sep t
  have helim := elim_split1 sep t
  cases hrest : (split1 sep t).2 with
  | none =>
    rw [hrest, Option.elim_none, List.append_nil] at helim
    conv_lhs => rw [← helim]
    rw [split1_append hclean]
    rfl
  | some hidden =>
    rw [hrest, Option.elim_some] at helim
    conv_lhs => rw [← helim]
    rw [List.append_assoc, List.cons_append, split1_append hclean]
    rfl

theorem strip_params (hparams : ∀ p ∈ params, HeaderParam p) (url : Text) :
    strip ((split1 '>' url).2.elim (params.flatMap headerParam)
      fun hidden => hidden ++ '>' :: params.flatMap headerParam) =
        hiddenText url ++ params.flatMap headerParam := by
  have hlast := params_last hparams
  have hbracket : isSpace '>' = false := by decide
  unfold hiddenText
  cases hrest : (split1 '>' url).2 with
  | none =>
    simp only [Option.elim_none, List.nil_append]
    rw [strip_iff]
    cases params with
    | nil => simp
    | cons p ps =>
      constructor
      · intro c hc
        rw [← Option.some.inj hc]
        decide
      · have hne : (p :: ps).flatMap headerParam ≠ [] := by simp [headerParam]
        have hcons : '>' :: (p :: ps).flatMap headerParam = ['>'] ++ (p :: ps).flatMap headerParam := rfl
        rwa [hcons, List.getLast?_append_of_ne_nil _ hne] at hlast
  | some hidden =>
    simp only [Option.elim_some]
    have hleft (t : Text) : lstrip (hidden ++ '>' :: t) = hidden.dropWhile isSpace ++ '>' :: t :=
      dropWhile_stop hbracket hidden t
    rw [strip, hleft, hleft, List.append_assoc, List.singleton_append, rstrip_iff,
      List.getLast?_append_of_ne_nil _ (by simp)]
    exact hlast

/-- The parameters are the ones that were printed exactly if they are distinct, no value has a
semicolon, and none that the parser takes for a parameter before them stays. -/
theorem readParams_iff (hparams : ∀ p ∈ params, HeaderParam p) (pre : Text) :
    readParams (pre ++ params.flatMap headerParam) = params ↔
      params.keys.Nodup ∧ (∀ p ∈ params, ∀ v ∈ p.2, ';' ∉ v) ∧
        ∀ l ∈ splitAll ';' pre, l ≠ [] → (split1 '=' l).1 ∈ params.keys := by
  constructor
  · intro h
    have hnodup := nodup_readParams (pre ++ params.flatMap headerParam)
    have hvalues := semicolon_readParams (pre ++ params.flatMap headerParam)
    rw [h] at hnodup hvalues
    refine ⟨hnodup, hvalues, fun l hl hne => ?_⟩
    have hkey : (split1 '=' l).1 ∈ (readParams pre).keys := mem_keys_readParams.mpr ⟨l, hl, hne, rfl⟩
    obtain ⟨p, hp, hname⟩ := List.mem_map.mp hkey
    rw [readParams_append hparams hnodup hvalues] at h
    have hnil := List.append_left_eq_self.mp h
    have hkept := List.filter_eq_nil_iff.mp hnil p hp
    rw [← hname]
    simpa using hkept
  · rintro ⟨hnodup, hvalues, hhidden⟩
    rw [readParams_append hparams hnodup hvalues]
    have hnil : (readParams pre).filter (fun p => p.1 ∉ params.keys) = [] := by
      rw [List.filter_eq_nil_iff]
      intro p hp
      obtain ⟨l, hl, hne, hname⟩ := mem_keys_readParams.mp (List.mem_map.mpr ⟨p, hp, rfl⟩)
      have hkey := hhidden l hl hne
      rw [hname] at hkey
      simpa using hkey
    rw [hnil, List.nil_append]

variable {autoconvert relaxed : Bool} {u : SipURL} {addr : SipAddress}

theorem readBraced_ok (hparams : ∀ p ∈ params, HeaderParam p) :
    readBraced autoconvert relaxed body (url ++ '>' :: params.flatMap headerParam) = .ok addr ↔
      ∃ u, SipURL.init autoconvert relaxed (split1 '>' url).1 = .ok u ∧
        addr = ⟨some body, u, readParams (hiddenText url ++ params.flatMap headerParam), true⟩ := by
  rw [readBraced, split1_append_rest]
  dsimp only
  rw [strip_params hparams]
  constructor
  · intro h
    obtain ⟨u, hu, h⟩ := Lib.bind_ok.mp h
    cases h
    exact ⟨u, hu, rfl⟩
  · rintro ⟨u, hu, rfl⟩
    rw [hu]
    rfl

theorem init_nameAddr (autoconvert relaxed : Bool) (body ws url : Text) (params : Items (Option Text)) :
    SipAddress.init autoconvert relaxed (nameAddr body ws url params) =
      nameParts (nameAddr body ws url params) >>= fun parts => readBraced autoconvert relaxed parts.1 parts.2 := by
  have hno : ¬ ("sip:".toList.isPrefixOf (lower (nameAddr body ws url params)) = true ∧
      '<' ∉ nameAddr body ws url params) := by
    intro h
    exact absurd h.1 (by simp [nameAddr, lower, List.isPrefixOf])
  rw [SipAddress.init, if_neg hno]

variable {isalnum : Alnum}

theorem isalnum_space {c : Char} (h : isalnum.test c = true) : isSpace c = false := by
  cases hspace : isSpace c with
  | false => rfl
  | true => exact absurd ((isalnum.space c hspace).symm.trans h) (by simp)

theorem needquotes_clean (h : needquotes isalnum body = false) :
    (∀ c ∈ body, isSpace c = false) ∧ '"' ∉ body ∧ '<' ∉ body := by
  have hall (c : Char) (hc : c ∈ body) : transtable.contains c = true ∨ isalnum.test c = true := by
    simp only [needquotes, Bool.not_eq_false'] at h
    simpa using List.all_eq_true.mp h c hc
  have hascii {c : Char} (hlt : c.toNat < 128) (halpha : c.isAlphanum = false)
      (hc : transtable.contains c = false) : c ∉ body := by
    intro hmem
    rcases hall c hmem with hmem | hmem
    · exact absurd (hc.symm.trans hmem) (by simp)
    · rw [isalnum.ascii c hlt, halpha] at hmem
      exact absurd hmem (by simp)
  refine ⟨fun c hc => ?_, hascii (by decide) (by decide) (by decide), hascii (by decide) (by decide) (by decide)⟩
  rcases hall c hc with hc | hc
  · have hspace : transtable.all (fun c => ! isSpace c) = true := by decide
    simpa using List.all_eq_true.mp hspace c (by simpa using hc)
  · exact isalnum_space hc

theorem isSpace_blank : ∀ c ∈ [' '], isSpace c = true := by
  intro c hc
  rw [List.mem_singleton.mp hc]
  decide

theorem strip_space (h : ∀ c ∈ body, isSpace c = false) : strip (body ++ [' ']) = body := by
  have hspace : [' '].rdropWhile isSpace = [] := by decide
  have hleft : (body ++ [' ']).dropWhile isSpace = body ++ [' '] ∨ body = [] := by
    cases body with
    | nil => exact .inr rfl
    | cons c cs =>
      left
      rw [List.cons_append, List.dropWhile_cons_of_neg]
      simp [h c List.mem_cons_self]
  rcases hleft with hleft | rfl
  · change ((body ++ [' ']).dropWhile isSpace).rdropWhile isSpace = body
    rw [hleft, rdropWhile_append, if_pos hspace, rdropWhile_clean h]
  · decide

theorem init_unquoted {name : Text} (hhead : (name ++ '<' :: rest).head? ≠ some '"') (hname : '<' ∉ name) :
    SipAddress.init autoconvert relaxed (name ++ '<' :: rest) =
      readBraced autoconvert relaxed (strip name) rest := by
  have hno : ¬ ("sip:".toList.isPrefixOf (lower (name ++ '<' :: rest)) = true ∧
      '<' ∉ name ++ '<' :: rest) := fun h => h.2 (by simp)
  rw [SipAddress.init, if_neg hno, nameParts, if_neg hhead, split1_append hname]
  rfl

/-- What an address prints is read part by part, whatever name it has. -/
theorem init_printed (hbody : QuotedText body) (hlast : body.getLast? ≠ some '\\')
    (hparams : ∀ p ∈ params, HeaderParam p) (u : SipURL) (myAddress : Text) :
    SipAddress.init autoconvert relaxed
      ((⟨some body, u, params, true⟩ : SipAddress).localStr isalnum myAddress none) =
        readBraced autoconvert relaxed body (u.localStr myAddress none ++ '>' :: params.flatMap headerParam) := by
  have htext : (⟨some body, u, params, true⟩ : SipAddress).localStr isalnum myAddress none =
      nameText isalnum body ++ '<' :: (u.localStr myAddress none ++ '>' :: params.flatMap headerParam) := by
    simp [SipAddress.localStr]
  rw [htext]
  by_cases hnil : body = []
  · have hname : nameText isalnum body = [] := if_pos hnil
    rw [hname, init_unquoted (by simp) List.not_mem_nil, hnil]
    rfl
  · cases hquotes : needquotes isalnum body with
    | true =>
      have heq : nameText isalnum body ++ '<' :: (u.localStr myAddress none ++ '>' :: params.flatMap headerParam) =
          nameAddr body [' '] (u.localStr myAddress none) params := by
        simp [nameText, hnil, hquotes, nameAddr, afterName]
      rw [heq, init_nameAddr, nameParts_nameAddr hbody hlast isSpace_blank hparams]
      rfl
    | false =>
      obtain ⟨hspace, hquote, hbracket⟩ := needquotes_clean hquotes
      have hname : nameText isalnum body = body ++ [' '] := by simp [nameText, hnil, hquotes]
      have hhead : (body ++ [' '] ++ '<' :: (u.localStr myAddress none ++ '>' ::
          params.flatMap headerParam)).head? ≠ some '"' := by
        cases body with
        | nil => exact absurd rfl hnil
        | cons c cs => simpa using fun hc : c = '"' => hquote (hc ▸ List.mem_cons_self)
      rw [hname, init_unquoted hhead (by simpa using hbracket), strip_space hspace]

/-- A name-addr is read as it was given: the name does not end in an escaped backslash, the URL has
no bracket, or one that makes no difference, the parameters are distinct, none has a semicolon, and
the URL prints as a text of the same URL. -/
structure Recoverable (autoconvert relaxedparser : Bool) (body url : Text) (params : Items (Option Text)) :
    Prop where
  name : body.getLast? ≠ some '\\'
  bracket : SipURL.init autoconvert relaxedparser (split1 '>' url).1 = SipURL.init autoconvert relaxedparser url
  hidden : ∀ l ∈ splitAll ';' (hiddenText url), l ≠ [] → (split1 '=' l).1 ∈ params.keys
  distinct : params.keys.Nodup
  values : ∀ p ∈ params, ∀ v ∈ p.2, ';' ∉ v
  restored : UrlRestorable relaxedparser url

theorem split1_prefix {sep : Char} {t : Text} (h : sep ∉ t) (s : Text) :
    (split1 sep (t ++ s)).1 = t ++ (split1 sep s).1 := by
  have hclean : sep ∉ t ++ (split1 sep s).1 := by simpa [h] using split1_clean sep s
  conv_lhs => rw [← elim_split1 sep s, ← List.append_assoc, split1_elim hclean]

theorem host_of_printed {v : SipURL} {myAddress : Text} (hscheme : u.scheme = "sip".toList ∨ u.scheme = "sips".toList)
    (h : SipURL.init autoconvert relaxed (split1 '>' (u.localStr myAddress none)).1 = .ok v) :
    v.host ≠ .myAddress := by
  have hclean : '>' ∉ u.scheme ++ [':'] := by
    rcases hscheme with heq | heq
    · rw [heq]
      decide
    · rw [heq]
      decide
  have hcons (rest : Text) : u.scheme ++ ':' :: rest = (u.scheme ++ [':']) ++ rest := by simp
  rw [SipURL.localStr, hcons, split1_prefix hclean, ← hcons, init_append hscheme] at h
  obtain ⟨host, hv⟩ := readURL_of_parse hscheme h
  rw [hv.hostName]
  simp

theorem readBraced_name (h : readBraced autoconvert relaxed s rest = .ok addr) : addr.name = some s := by
  unfold readBraced at h
  split at h
  · exact absurd h (by simp)
  · obtain ⟨u, -, h⟩ := Lib.bind_ok.mp h
    cases h
    rfl

/-- A name-addr gives the name, the URL and the parameters it is made of, and what it prints gives
them again, exactly if it is recoverable. -/
theorem name_addr_recovered_iff (hbody : QuotedText body) (hws : ∀ c ∈ ws, isSpace c = true)
    (hurl : SipURL.init autoconvert relaxed url = .ok u) (hparams : ∀ p ∈ params, HeaderParam p)
    (isalnum : Alnum) (myAddress : Text) :
    (∃ addr again, SipAddress.init autoconvert relaxed (nameAddr body ws url params) = .ok addr ∧
      addr.name = some body ∧ addr.url = u ∧ addr.params = params ∧
      SipAddress.init autoconvert relaxed (addr.localStr isalnum myAddress none) = .ok again ∧
      again.name = some body ∧ again.url = u ∧ again.params = params) ↔
        Recoverable autoconvert relaxed body url params := by
  constructor
  · rintro ⟨addr, again, hread, hname, haddr, hvalues, hagain, -, hurl', -⟩
    have hlast : body.getLast? ≠ some '\\' := by
      intro hlast
      rw [init_nameAddr] at hread
      obtain ⟨⟨name, rest⟩, hparts, hread⟩ := Lib.bind_ok.mp hread
      rw [readBraced_name hread] at hname
      exact nameParts_backslash hbody hlast hparts (Option.some.inj hname)
    rw [init_nameAddr, nameParts_nameAddr hbody hlast hws hparams] at hread
    obtain ⟨v, hv, rfl⟩ := (readBraced_ok hparams).mp hread
    obtain rfl : v = u := haddr
    obtain ⟨hnodup, hsemicolon, hhidden⟩ := (readParams_iff hparams _).mp hvalues
    refine ⟨hlast, hv.trans hurl.symm, hhidden, hnodup, hsemicolon, ?_⟩
    have hsame : readParams (hiddenText url ++ params.flatMap headerParam) = params := hvalues
    rw [hsame, init_printed hbody hlast hparams] at hagain
    obtain ⟨w, hw, rfl⟩ := (readBraced_ok hparams).mp hagain
    obtain rfl : w = v := hurl'
    have hclean := bracket_localStr hv (split1_clean '>' url) (host_of_printed (scheme_of_init hurl) hw) myAddress
    rw [split1_of_not_mem hclean] at hw
    exact (restored_iff hurl myAddress).mp hw
  · intro h
    have hv : SipURL.init autoconvert relaxed (split1 '>' url).1 = .ok u := h.bracket.trans hurl
    have hvalues := (readParams_iff hparams (hiddenText url)).mpr ⟨h.distinct, h.values, h.hidden⟩
    have hagain := (restored_iff hurl myAddress).mpr h.restored
    obtain ⟨host, hread⟩ := readURL_of_restored (scheme_of_init hurl) hagain
    have hclean := bracket_localStr hv (split1_clean '>' url) (by rw [hread.hostName]; simp) myAddress
    have hsplit := split1_of_not_mem hclean
    have hprinted : readParams (hiddenText (u.localStr myAddress none) ++ params.flatMap headerParam) = params := by
      rw [readParams_iff hparams]
      refine ⟨h.distinct, h.values, fun l hl hne => ?_⟩
      rw [hiddenText, hsplit] at hl
      exact absurd (List.mem_singleton.mp hl) hne
    refine ⟨⟨some body, u, params, true⟩, ⟨some body, u, params, true⟩, ?_, rfl, rfl, rfl, ?_, rfl, rfl, rfl⟩
    · rw [init_nameAddr, nameParts_nameAddr hbody h.name hws hparams]
      exact (readBraced_ok hparams).mpr ⟨u, hv, by rw [hvalues]⟩
    · rw [init_printed hbody h.name hparams]
      exact (readBraced_ok hparams).mpr ⟨u, by rw [hsplit]; exact hagain, by rw [hprinted]⟩

/-- `str.isalnum` where only ASCII characters are letters and digits. -/
def asciiAlnum : Alnum where
  test := Char.isAlphanum
  ascii _ _ := rfl
  space c h := by
    cases hc : c.isAlphanum with
    | false => rfl
    | true => exact absurd ((isSpace_alphanum hc).symm.trans h) (by simp)

def urlOfAlice : SipURL :=
  { scheme := "sip".toList, username := some "alice".toList, userparams := [], password := none,
    host := .name "h".toList, port := none, headers := none }

/-- A quote and a bracket in the name, and quotes around a value. -/
theorem name_addr_recovered_alice :
    (∃ addr again, SipAddress.init false false (nameAddr "a\\\"<".toList [' '] "sip:alice@h".toList
        [("tag".toList, some "\"1\"".toList)]) = .ok addr ∧
      addr.name = some "a\\\"<".toList ∧ addr.url = urlOfAlice ∧
      addr.params = [("tag".toList, some "\"1\"".toList)] ∧
      SipAddress.init false false (addr.localStr asciiAlnum "127.0.0.1".toList none) = .ok again ∧
      again.name = some "a\\\"<".toList ∧ again.url = urlOfAlice ∧
      again.params = [("tag".toList, some "\"1\"".toList)]) ↔
        Recoverable false false "a\\\"<".toList "sip:alice@h".toList [("tag".toList, some "\"1\"".toList)] := by
  have hbody : QuotedText "a\\\"<".toList :=
    .char (by decide) (by decide) (.pair '"' (.char (by decide) (by decide) .nil))
  have hvalue : QuotedText "1".toList := .char (by decide) (by decide) .nil
  refine name_addr_recovered_iff hbody isSpace_blank (by decide +kernel) ?_ asciiAlnum "127.0.0.1".toList
  intro p hp
  obtain rfl := List.mem_singleton.mp hp
  refine ⟨.of_all (by decide) (by decide), fun v hv => .inr ⟨_, hvalue, (Option.mem_some_iff.mp hv).symm⟩⟩

/-- An escaped backslash at the end of the name, and a semicolon in a quoted value. -/
theorem name_addr_not_recovered :
    (QuotedText "a\\\\".toList ∧ SipURL.init false false "sip:alice@h".toList = .ok urlOfAlice ∧
      SipAddress.init false false (nameAddr "a\\\\".toList [' '] "sip:alice@h".toList []) = .error .other) ∧
    HeaderParam ("x".toList, some "\"1;2\"".toList) ∧
      SipAddress.init false false (nameAddr "a".toList [' '] "sip:alice@h".toList
        [("x".toList, some "\"1;2\"".toList)]) = .ok ⟨some "a".toList, urlOfAlice,
          [("x".toList, some "\"1".toList), ("2\"".toList, none)], true⟩ := by
  have hbody : QuotedText "a\\\\".toList := .char (by decide) (by decide) (.pair '\\' .nil)
  have hvalue : QuotedText "1;2".toList :=
    .char (by decide) (by decide) (.char (by decide) (by decide) (.char (by decide) (by decide) .nil))
  refine ⟨⟨hbody, by decide +kernel, by decide +kernel⟩, ⟨.of_all (by decide) (by decide), ?_⟩,
    by decide +kernel⟩
  exact fun v hv => .inr ⟨_, hvalue, (Option.mem_some_iff.mp hv).symm⟩

end SippyB2bua.Address
