import SippyB2bua.Address.UrlParts

/-!
# Reading a URL back

A URL that was read, printed and read again is the same URL, except in three cases: a
semicolon that was escaped in the user name prints as it is, a question mark in the last
parameter that prints starts the headers, and nothing at all prints for an empty host without
a port.
-/

namespace SippyB2bua.Address
open Lib (Text Items)
open Lib.Text

variable {scheme url host s : Text} {u : SipURL} {relaxed : Bool} {known : UrlParams} {port : Option ℤ}
  {headers : Option (Items Text)}

def assemble (scheme : Text) (userpass : Option Text) (host : Text) (port : Option ℤ) (known : UrlParams)
    (headers : Option (Items Text)) : SipURL :=
  let user := userpass.map userParts
  { known with
    scheme := scheme, username := user.map fun u => SipURL.unquote u.1,
    userparams := user.elim [] fun u => u.2.1, password := user.bind fun u => u.2.2,
    host := .name host, port := port.map .number, headers := headers }

theorem mapM_some {text : Option Text} (h : text.mapM readHeaders = .ok headers) :
    (text = none ∧ headers = none) ∨
      ∃ t items, text = some t ∧ headers = some items ∧ readHeaders t = .ok items := by
  cases text with
  | none =>
    cases h
    exact .inl ⟨rfl, rfl⟩
  | some t =>
    obtain ⟨items, hitems, heq⟩ := Lib.bind_ok.mp h
    cases heq
    exact .inr ⟨t, items, rfl, rfl, hitems⟩

theorem parseSipURL_ok : parseSipURL scheme url relaxed = .ok u ↔ ∃ host pt port known headers,
    hostParts relaxed (backParts (atParts url).2).1 = .ok (host, pt) ∧
    pt.elim (pure none) readPort = .ok port ∧ setParams (backParts (atParts url).2).2.1 = .ok known ∧
    (backParts (atParts url).2).2.2.mapM readHeaders = .ok headers ∧
    u = assemble scheme (atParts url).1 host port known headers := by
  unfold parseSipURL
  by_cases hparams : (backParts (atParts url).2).2.1 = []
  · simp only [if_pos hparams]
    constructor
    · intro h
      obtain ⟨headers, hheaders, h⟩ := Lib.bind_ok.mp h
      obtain ⟨⟨host, pt⟩, hhost, h⟩ := Lib.bind_ok.mp h
      obtain ⟨port, hport, h⟩ := Lib.bind_ok.mp h
      obtain ⟨known, hknown, h⟩ := Lib.bind_ok.mp h
      cases h
      exact ⟨host, pt, port, known, headers, hhost, hport, hknown, hheaders, rfl⟩
    · rintro ⟨host, pt, port, known, headers, hhost, hport, hknown, hheaders, rfl⟩
      rw [hheaders]
      change (hostParts relaxed _ >>= _) = _
      rw [hhost]
      change (pt.elim (pure none) readPort >>= _) = _
      rw [hport]
      change (setParams _ >>= _) = _
      rw [hknown]
      rfl
  · simp only [if_neg hparams]
    constructor
    · intro h
      obtain ⟨-, -, h⟩ := Lib.bind_ok.mp h
      obtain ⟨⟨host, pt⟩, hhost, h⟩ := Lib.bind_ok.mp h
      obtain ⟨port, hport, h⟩ := Lib.bind_ok.mp h
      obtain ⟨known, hknown, h⟩ := Lib.bind_ok.mp h
      obtain ⟨headers, hheaders, h⟩ := Lib.bind_ok.mp h
      cases h
      exact ⟨host, pt, port, known, headers, hhost, hport, hknown, hheaders, rfl⟩
    · rintro ⟨host, pt, port, known, headers, hhost, hport, hknown, hheaders, rfl⟩
      change (hostParts relaxed _ >>= _) = _
      rw [hhost]
      change (pt.elim (pure none) readPort >>= _) = _
      rw [hport]
      change (setParams _ >>= _) = _
      rw [hknown]
      change (Option.mapM readHeaders _ >>= _) = _
      rw [hheaders]
      rfl

/-- What a URL is like that was read from a text, and whose host is `host`. -/
structure ReadURL (u : SipURL) (host : Text) : Prop where
  scheme : u.scheme = "sip".toList ∨ u.scheme = "sips".toList
  hostName : u.host = .name host
  hostText : HostText host
  hostSemicolon : ';' ∉ host
  hostMark : u.getParams none = [] → '?' ∉ host
  port : ∀ p ∈ u.port, ∃ n, p = .number n
  canonical : Canonical u.toUrlParams
  params : ∀ p ∈ u.getParams none, ';' ∉ p
  headers : ∀ items ∈ u.headers, items ≠ [] ∧ items.keys.Nodup ∧
    ∀ k ∈ items.keys, '=' ∉ k ∧ '&' ∉ k ∧ ';' ∉ k
  user : u.username ≠ none → (∀ p ∈ u.userparams, ';' ∉ p ∧ ':' ∉ p ∧ '@' ∉ p) ∧ ∀ p ∈ u.password, '@' ∉ p
  noUser : u.username = none → u.userparams = [] ∧ u.password = none ∧ '@' ∉ host ∧
    (∀ p ∈ u.getParams none, '@' ∉ p) ∧ ∀ items ∈ u.headers, ∀ k ∈ items.keys, '@' ∉ k

theorem atParts_back {c : Char} (h : c ∈ (atParts url).2) : c ∈ url := by
  unfold atParts at h
  split at h
  · exact h
  · rename_i userpass back hsplit
    rw [split1_eq hsplit]
    exact List.mem_append_right _ (List.mem_cons_of_mem _ h)

theorem atParts_user {up : Text} (h : (atParts url).1 = some up) : '@' ∉ up := by
  unfold atParts at h
  split at h
  · exact absurd h (by simp)
  · rename_i userpass back hsplit
    have hclean := split1_clean '@' url
    rw [hsplit] at hclean
    rwa [← Option.some.inj h]

theorem atParts_up {c : Char} {up : Text} (h : (atParts url).1 = some up) (hc : c ∈ up) : c ∈ url := by
  unfold atParts at h
  split at h
  · exact absurd h (by simp)
  · rename_i userpass back hsplit
    rw [split1_eq hsplit, Option.some.inj h]
    exact List.mem_append_left _ hc

theorem atParts_noUser (h : (atParts url).1 = none) : '@' ∉ url := by
  have hclean := split1_clean '@' url
  have helim := elim_split1 '@' url
  unfold atParts at h
  split at h
  · rename_i t hsplit
    rw [hsplit] at hclean helim
    rw [← helim]
    simpa using hclean
  · exact absurd h (by simp)

/-- The parts have no character that the URL does not have, those of a number apart. -/
theorem not_mem_parsed {c : Char} (h : parseSipURL scheme url relaxed = .ok u) (hc : c ∉ url) (hminus : c ≠ '-')
    (hdigit : c.isDigit = false) : (∀ p ∈ u.userparams, c ∉ p) ∧ (∀ p ∈ u.password, c ∉ p) ∧
      (∀ host, u.host = .name host → c ∉ host) ∧ (∀ p ∈ u.getParams none, c ∉ p) ∧
      ∀ items ∈ u.headers, ∀ k ∈ items.keys, c ∉ k := by
  obtain ⟨host, pt, port, known, headers, hhost, -, hknown, hheaders, rfl⟩ := parseSipURL_ok.mp h
  have hback {x : Text} (hx : x ∈ pieces (backParts (atParts url).2)) : c ∉ x :=
    fun hmem => hc (atParts_back (mem_of_pieces hx hmem))
  have hup {up x : Text} (hat : (atParts url).1 = some up) (hx : x ∈ pieces (userParts up)) : c ∉ x :=
    fun hmem => hc (atParts_up hat (mem_of_upPieces hx hmem))
  refine ⟨?_, ?_, ?_, ?_, ?_⟩
  · intro p hp
    cases hat : (atParts url).1 with
    | none =>
      rw [assemble, hat] at hp
      exact absurd hp List.not_mem_nil
    | some up =>
      rw [assemble, hat] at hp
      exact hup hat (List.mem_cons_of_mem _ (List.mem_append_left _ hp))
  · intro p hp
    cases hat : (atParts url).1 with
    | none =>
      rw [assemble, hat] at hp
      exact absurd hp (by simp)
    | some up =>
      rw [assemble, hat] at hp
      exact hup hat (List.mem_cons_of_mem _ (List.mem_append_right _ (Option.mem_toList.mpr hp)))
  · intro host' heq hmem
    obtain rfl : host = host' := Host.name.inj heq
    exact hback List.mem_cons_self ((hostParts_ok hhost).2.1 c hmem)
  · exact not_mem_getParams hminus hdigit hknown fun p hp =>
      hback (List.mem_cons_of_mem _ (List.mem_append_left _ hp))
  · intro items hitems k hk hmem
    rcases mapM_some hheaders with ⟨-, hnone⟩ | ⟨t, items', ht, hsome, hread⟩
    · exact absurd (hnone.symm.trans hitems) (by simp)
    · obtain rfl := Option.some.inj (hsome.symm.trans hitems)
      obtain ⟨header, hheader, hsub⟩ := (headerKeys_of_read hread).within k hk
      exact hback (List.mem_cons_of_mem _ (List.mem_append_right _ (Option.mem_toList.mpr ht)))
        (mem_of_mem_splitAll hheader (hsub c hmem))

theorem readURL_of_parse (hscheme : scheme = "sip".toList ∨ scheme = "sips".toList)
    (h : parseSipURL scheme url relaxed = .ok u) : ∃ host, ReadURL u host := by
  obtain ⟨host, pt, port, known, headers, hhost, -, hknown, hheaders, rfl⟩ := parseSipURL_ok.mp h
  obtain ⟨htext, hwithin, -⟩ := hostParts_ok hhost
  have hfirst : (backParts (atParts url).2).1 ∈ pieces (backParts (atParts url).2) := by simp [pieces]
  have hparam {p : Text} (hp : p ∈ (backParts (atParts url).2).2.1) : p ∈ pieces (backParts (atParts url).2) := by
    simp [pieces, hp]
  have hpiece {t : Text} (ht : (backParts (atParts url).2).2.2 = some t) :
      t ∈ pieces (backParts (atParts url).2) := by
    simp [pieces, ht]
  have hkeys {items : Items Text} (hitems : headers = some items) : ∃ t,
      (backParts (atParts url).2).2.2 = some t ∧ readHeaders t = .ok items := by
    rcases mapM_some hheaders with ⟨-, hnone⟩ | ⟨t, items', ht, hsome, hread⟩
    · exact absurd (hnone.symm.trans hitems) (by simp)
    · obtain rfl := Option.some.inj (hsome.symm.trans hitems)
      exact ⟨t, ht, hread⟩
  refine ⟨host, ⟨hscheme, rfl, htext, ?_, ?_, ?_, canonical_setParams hknown, ?_, ?_, ?_, ?_⟩⟩
  · exact fun hc => pieces_semicolon hfirst (hwithin _ hc)
  · intro hnil hc
    have hparams : (backParts (atParts url).2).2.1 = [] := by
      by_contra hne
      exact getParams_ne_nil hknown hne hnil
    have hmark := backParts_mark (atParts url).2
    rw [hparams] at hmark
    exact hmark (hwithin _ hc)
  · intro p hp
    obtain ⟨n, -, rfl⟩ := Option.map_eq_some_iff.mp (Option.mem_def.mp hp)
    exact ⟨n, rfl⟩
  · exact not_mem_getParams (by decide) (by decide) hknown fun p hp => pieces_semicolon (hparam hp)
  · intro items hitems
    obtain ⟨t, ht, hread⟩ := hkeys (Option.mem_def.mp hitems)
    have hk := headerKeys_of_read hread
    refine ⟨readHeaders_ne_nil hread, hk.nodup, fun k hmem => ⟨hk.equals k hmem, ?_, ?_⟩⟩
    · obtain ⟨header, hheader, hsub⟩ := hk.within k hmem
      exact fun hc => splitAll_clean hheader (hsub _ hc)
    · obtain ⟨header, hheader, hsub⟩ := hk.within k hmem
      exact fun hc => pieces_semicolon (hpiece ht) (mem_of_mem_splitAll hheader (hsub _ hc))
  · intro huser
    cases hat : (atParts url).1 with
    | none =>
      rw [assemble, hat] at huser
      exact absurd rfl huser
    | some up =>
      have hup := atParts_user hat
      have hpart {x : Text} (hx : x ∈ pieces (userParts up)) : '@' ∉ x := fun hc => hup (mem_of_upPieces hx hc)
      constructor
      · intro p hp
        have hmem : p ∈ (userParts up).1 :: (userParts up).2.1 := List.mem_cons_of_mem _ hp
        exact ⟨userParts_semicolon hmem, userParts_colon hmem, hpart (List.mem_cons_of_mem _ (List.mem_append_left _ hp))⟩
      · intro p hp
        have hpassword : (userParts up).2.2 = some p := hp
        exact hpart (by simp [pieces, hpassword])
  · intro huser
    cases hat : (atParts url).1 with
    | some up =>
      rw [assemble, hat] at huser
      exact absurd huser (by simp)
    | none =>
      obtain ⟨-, -, hname, hparams, hheaders⟩ :=
        not_mem_parsed h (atParts_noUser hat) (by decide) (by decide)
      exact ⟨rfl, rfl, hname host rfl, hparams, hheaders⟩

def headersLine (items : Items Text) : Text := ['&'].intercalate (items.map headerText)

theorem not_mem_headersLine {c : Char} {items : Items Text} (halways : SipURL.alwaysSafe c = false)
    (hc : c ∉ ['%', '/', '&', '=']) (hkeys : ∀ k ∈ items.keys, c ∉ k) : c ∉ headersLine items := by
  simp only [List.mem_cons, List.not_mem_nil, or_false, not_or] at hc
  apply not_mem_intercalate hc.2.2.1
  intro l hl
  obtain ⟨p, hp, rfl⟩ := List.mem_map.mp hl
  have hkey : c ∉ p.1 := hkeys p.1 (List.mem_map.mpr ⟨p, hp, rfl⟩)
  have hvalue : c ∉ SipURL.quote ['/'] p.2 :=
    SipURL.not_mem_quote halways hc.1 (by simpa using hc.2.1) _
  simp [headerText, hkey, hvalue, hc.2.2.2]

theorem portText_read (h : ∀ p ∈ u.port, ∃ n, p = .number n) :
    ∃ port : Option ℤ, u.port = port.map .number ∧ portText u none = port.map ofInt := by
  cases hport : u.port with
  | none => exact ⟨none, rfl, by rw [portText, hport]; rfl⟩
  | some p =>
    obtain ⟨n, rfl⟩ := h p hport
    refine ⟨some n, rfl, ?_⟩
    rw [portText, hport]
    simp [portNeeded]

def printedBack (u : SipURL) (host : Text) : Text :=
  backText (host ++ (portText u none).elim [] (':' :: ·)) (u.getParams none) (u.headers.map headersLine)

theorem localStr_read (h : ReadURL u host) (myAddress : Text) :
    u.localStr myAddress none = u.scheme ++ ':' :: (userText u ++ printedBack u host) := by
  have hheaders : headersText u.headers = (u.headers.map headersLine).elim [] ('?' :: ·) := by
    cases hitems : u.headers with
    | none => rfl
    | some items =>
      cases items with
      | nil => exact absurd rfl (h.headers [] hitems).1
      | cons p items => rfl
  rw [SipURL.localStr, h.hostName, hheaders]
  simp [Host.localStr, printedBack, backText]

theorem not_mem_printedBack {c : Char} (h : ReadURL u host) (halways : SipURL.alwaysSafe c = false)
    (hc : c ∉ ['%', '/', '&', '=', ':', ';', '?', '-']) (hdigit : c.isDigit = false) (hhost : c ∉ host)
    (hparams : ∀ p ∈ u.getParams none, c ∉ p) (hkeys : ∀ items ∈ u.headers, ∀ k ∈ items.keys, c ∉ k) :
    c ∉ printedBack u host := by
  obtain ⟨port, -, hport⟩ := portText_read h.port
  simp only [List.mem_cons, List.not_mem_nil, or_false, not_or] at hc
  obtain ⟨hpercent, hslash, hamp, hequals, hcolon, hsemicolon, hmark, hminus⟩ := hc
  have hdigits (n : ℤ) : c ∉ ofInt n := by
    intro hmem
    rcases mem_of_ofInt hmem with hmem | hmem
    · exact hminus hmem
    · exact absurd (hdigit.symm.trans hmem) (by simp)
  have hline : ∀ t ∈ u.headers.map headersLine, c ∉ t := by
    intro t ht
    obtain ⟨items, hitems, rfl⟩ := Option.map_eq_some_iff.mp (Option.mem_def.mp ht)
    exact not_mem_headersLine halways (by simp [hpercent, hslash, hamp, hequals]) (hkeys items hitems)
  intro hmem
  rw [printedBack, backText, hport] at hmem
  rcases List.mem_append.mp hmem with hmem | hmem
  · rcases List.mem_append.mp hmem with hmem | hmem
    · rcases List.mem_append.mp hmem with hmem | hmem
      · exact hhost hmem
      · cases port with
        | none => exact absurd hmem List.not_mem_nil
        | some n => exact (List.mem_cons.mp hmem).elim hcolon (hdigits n)
    · obtain ⟨p, hp, hmem⟩ := List.mem_flatMap.mp hmem
      exact (List.mem_cons.mp hmem).elim hsemicolon (hparams p hp)
  · cases ht : u.headers.map headersLine with
    | none =>
      rw [ht] at hmem
      exact absurd hmem List.not_mem_nil
    | some t =>
      rw [ht] at hmem
      exact (List.mem_cons.mp hmem).elim hmark (hline t ht)

def printedUser (u : SipURL) (name : Text) : Text :=
  upText (SipURL.quote SipURL.usernameSafe name) u.userparams u.password

theorem not_mem_printedUser {c : Char} {name : Text} (halways : SipURL.alwaysSafe c = false)
    (hc : c ∉ '%' :: ';' :: ':' :: SipURL.usernameSafe) (hparams : ∀ p ∈ u.userparams, c ∉ p)
    (hpassword : ∀ p ∈ u.password, c ∉ p) : c ∉ printedUser u name := by
  simp only [List.mem_cons, not_or] at hc
  obtain ⟨hpercent, hsemicolon, hcolon, hsafe⟩ := hc
  intro hmem
  rcases List.mem_append.mp hmem with hmem | hmem
  · rcases List.mem_append.mp hmem with hmem | hmem
    · exact SipURL.not_mem_quote halways hpercent hsafe _ hmem
    · obtain ⟨p, hp, hmem⟩ := List.mem_flatMap.mp hmem
      exact (List.mem_cons.mp hmem).elim hsemicolon (hparams p hp)
  · cases hp : u.password with
    | none =>
      rw [hp] at hmem
      exact absurd hmem List.not_mem_nil
    | some p =>
      rw [hp] at hmem
      exact (List.mem_cons.mp hmem).elim hcolon (hpassword p hp)

theorem userText_some {name : Text} (h : u.username = some name) : userText u = printedUser u name ++ ['@'] := by
  rw [userText, h]
  rfl

theorem atParts_printed (h : ReadURL u host) : atParts (userText u ++ printedBack u host) =
    (u.username.map (printedUser u), printedBack u host) := by
  cases huser : u.username with
  | none =>
    obtain ⟨-, -, hhost, hparams, hkeys⟩ := h.noUser huser
    rw [userText, huser]
    exact atParts_none (not_mem_printedBack h (by decide) (by decide) (by decide) hhost hparams hkeys)
  | some name =>
    obtain ⟨hparams, hpassword⟩ := h.user (by simp [huser])
    have hat : '@' ∉ printedUser u name :=
      not_mem_printedUser (by decide) (by decide) (fun p hp => (hparams p hp).2.2) hpassword
    rw [userText_some huser, List.append_assoc, List.singleton_append, atParts_some hat]
    rfl

theorem init_append (hscheme : scheme = "sip".toList ∨ scheme = "sips".toList) (autoconvert relaxed : Bool)
    (url : Text) : SipURL.init autoconvert relaxed (scheme ++ ':' :: url) = parseSipURL scheme url relaxed := by
  have htel : scheme ≠ "tel".toList := by
    rintro rfl
    exact absurd hscheme (by decide)
  rw [SipURL.init, schemeParts_append hscheme]
  dsimp only
  rw [if_neg htel, if_pos hscheme]

theorem mapM_printed (h : ReadURL u host) : (u.headers.map headersLine).mapM readHeaders = .ok u.headers := by
  cases hitems : u.headers with
  | none => rfl
  | some items =>
    obtain ⟨hne, hnodup, hkeys⟩ := h.headers items hitems
    have hread := readHeaders_printed hne hnodup (fun k hk => (hkeys k hk).1) fun k hk => (hkeys k hk).2.1
    change (readHeaders (headersLine items) >>= fun b => pure (some b)) = _
    rw [headersLine, hread]
    rfl

theorem semicolon_printed (h : ReadURL u host) :
    ';' ∉ host ++ (portText u none).elim [] (':' :: ·) ∧ ∀ t ∈ u.headers.map headersLine, ';' ∉ t := by
  obtain ⟨port, -, hport⟩ := portText_read h.port
  have hdigits (n : ℤ) : ';' ∉ ofInt n := fun hc => absurd (mem_of_ofInt hc) (by decide)
  constructor
  · rw [hport]
    cases port with
    | none => simpa using h.hostSemicolon
    | some n => simpa [hdigits n] using h.hostSemicolon
  · intro t ht
    obtain ⟨items, hitems, rfl⟩ := Option.map_eq_some_iff.mp (Option.mem_def.mp ht)
    exact not_mem_headersLine (by decide) (by decide) fun k hk => ((h.headers items hitems).2.2 k hk).2.2

theorem mark_printed (h : ReadURL u host) (hlast : ∀ t ∈ (u.getParams none).getLast?, '?' ∉ t) :
    '?' ∉ (u.getParams none).getLast?.getD (host ++ (portText u none).elim [] (':' :: ·)) := by
  obtain ⟨port, -, hport⟩ := portText_read h.port
  cases hparams : (u.getParams none).getLast? with
  | some t => exact hlast t hparams
  | none =>
    have hhost := h.hostMark (List.getLast?_eq_none_iff.mp hparams)
    rw [hport]
    cases port with
    | none => simpa using hhost
    | some n => simpa [not_mem_ofInt] using hhost

theorem backParts_cut {hostport t : Text} {before : List Text} {text : Option Text} (hhost : ';' ∉ hostport)
    (hps : ∀ p ∈ before ++ [t], ';' ∉ p) (htext : ∀ t ∈ text, ';' ∉ t) (ht : '?' ∈ t) :
    (backParts (backText hostport (before ++ [t]) text)).2.1 = before ++ [(split1 '?' t).1] := by
  have helim := elim_split1 '?' t
  cases hrest : (split1 '?' t).2 with
  | none =>
    rw [hrest, Option.elim_none, List.append_nil] at helim
    rw [← helim] at ht
    exact absurd ht (split1_clean _ _)
  | some rest =>
    rw [hrest, Option.elim_some] at helim
    have hsemi : ';' ∉ t := hps t (by simp)
    rw [← helim] at hsemi
    have heq : backText hostport (before ++ [t]) text =
        backText hostport (before ++ [(split1 '?' t).1]) (some (rest ++ text.elim [] ('?' :: ·))) := by
      simp only [backText, List.flatMap_append, List.flatMap_singleton, Option.elim_some]
      conv_lhs => rw [← helim]
      simp
    rw [heq, backParts_backText hhost]
    · intro p hp
      rcases List.mem_append.mp hp with hp | hp
      · exact hps p (List.mem_append_left _ hp)
      · rw [List.mem_singleton.mp hp]
        exact fun hc => hsemi (List.mem_append_left _ hc)
    · intro x hx
      obtain rfl := Option.mem_some_iff.mp hx
      have hrest : ';' ∉ rest := fun hc => hsemi (by simp [hc])
      cases text with
      | none => simpa using hrest
      | some text => simpa [hrest] using htext text rfl
    · rw [List.getLast?_concat]
      exact split1_clean _ _

theorem assemble_printed (h : ReadURL u host) (hport : u.port = port.map .number)
    (huser : ∀ name ∈ u.username, ';' ∉ name) :
    u = assemble u.scheme (u.username.map (printedUser u)) host port u.toUrlParams u.headers := by
  have hhost := h.hostName
  cases hname : u.username with
  | none =>
    obtain ⟨hparams, hpassword, -⟩ := h.noUser hname
    cases u
    dsimp only at hname hparams hpassword hhost hport
    rw [hname, hparams, hpassword, hhost, hport]
    rfl
  | some name =>
    obtain ⟨hparams, -⟩ := h.user (by simp [hname])
    have hparts : userParts (printedUser u name) =
        (SipURL.quote SipURL.usernameSafe name, u.userparams, u.password) := by
      apply userParts_upText
      · exact fun hc => huser name hname (SipURL.mem_of_mem_quote (by decide) (by decide) hc)
      · exact SipURL.not_mem_quote (by decide) (by decide) (by decide) name
      · exact fun p hp => (hparams p hp).1
      · exact fun p hp => (hparams p hp).2.1
    have hunquote : SipURL.unquote (SipURL.quote SipURL.usernameSafe name) = name :=
      SipURL.unquote_quote (by decide) name
    simp only [assemble, Option.map_some, hparts, Option.elim_some, Option.bind_some, hunquote]
    rw [← hname, ← hport, ← hhost]

/-- What was printed is read as it was exactly if no user name, no last parameter and no host
stands in the way. -/
theorem read_printed (h : ReadURL u host) (autoconvert : Bool) (myAddress : Text) :
    SipURL.init autoconvert relaxed (u.localStr myAddress none) = .ok u ↔
      (∀ name ∈ u.username, ';' ∉ name) ∧ (∀ t ∈ (u.getParams none).getLast?, '?' ∉ t) ∧
        (relaxed = true ∨ host ≠ [] ∨ u.port ≠ none) := by
  obtain ⟨hhost, hline⟩ := semicolon_printed h
  obtain ⟨port, huport, hport⟩ := portText_read h.port
  rw [localStr_read h, init_append h.scheme, parseSipURL_ok, atParts_printed h]
  dsimp only
  constructor
  · rintro ⟨host', pt, port', known, headers, hhost', hport', hknown, -, heq⟩
    have huser : ∀ name ∈ u.username, ';' ∉ name := by
      intro name hname hc
      have hname : u.username = some name := hname
      obtain ⟨hparams, -⟩ := h.user (by simp [hname])
      have hlonger : u.userparams.length < (userParts (printedUser u name)).2.1.length := userParts_length
        (SipURL.mem_quote (by decide) (by decide) hc)
        (SipURL.not_mem_quote (by decide) (by decide) (by decide) name)
        (fun p hp => (hparams p hp).2.1) u.password
      have hsame : u.userparams = (userParts (printedUser u name)).2.1 := by
        have hsame := congrArg SipURL.userparams heq
        rw [assemble, hname] at hsame
        exact hsame
      exact hlonger.ne (congrArg List.length hsame)
    have hlast : ∀ t ∈ (u.getParams none).getLast?, '?' ∉ t := by
      intro t ht hc
      obtain ⟨before, hbefore⟩ : ∃ before, u.getParams none = before ++ [t] := List.getLast?_eq_some_iff.mp ht
      have hcut := backParts_cut hhost (hbefore ▸ h.params) hline hc
      rw [printedBack, hbefore, hcut] at hknown
      have hknown' : u.toUrlParams = known := by rw [heq]; rfl
      rw [← hknown'] at hknown
      exact setParams_cut hbefore hc (split1_clean _ _) hknown
    refine ⟨huser, hlast, ?_⟩
    rw [printedBack, backParts_backText hhost h.params hline (mark_printed h hlast)] at hhost'
    dsimp only at hhost'
    by_contra hno
    simp only [not_or, Bool.not_eq_true, not_not] at hno
    obtain ⟨rfl, rfl, hnone⟩ := hno
    have hpt : portText u none = none := by rw [portText, hnone]; rfl
    rw [hpt] at hhost'
    exact absurd hhost' (by simp [hostParts])
  · rintro ⟨huser, hlast, hne⟩
    rw [printedBack, backParts_backText hhost h.params hline (mark_printed h hlast)]
    dsimp only
    refine ⟨host, portText u none, port, u.toUrlParams, u.headers, ?_, ?_, setParams_getParams h.canonical,
      mapM_printed h, ?_⟩
    · apply hostParts_text h.hostText
      rw [hport]
      cases port with
      | none =>
        rcases hne with hne | hne | hne
        · exact .inr (.inr hne)
        · exact .inl hne
        · exact absurd huport hne
      | some n => exact .inr (.inl (by simp))
    · rw [hport]
      cases port with
      | none => rfl
      | some n => exact readPort_ofInt n
    · exact assemble_printed h huport huser

/-- Nothing but white space after the colon of a port, and no host before it. -/
def BareColon (hostport : Text) : Prop := ∃ blank, hostport = ':' :: blank ∧ strip blank = []

/-- A text whose URL prints as a text of the same URL: no semicolon is escaped in the user name,
the question marks in the parameters are not in the one that prints last, and there is a host or
a port, unless the parser is relaxed. -/
structure Restorable (relaxedparser : Bool) (s : Text) : Prop where
  user : ∀ userpass ∈ (atParts (schemeParts s).2).1, ';' ∉ SipURL.unquote (userParts userpass).1
  params : Overtaken (backParts (atParts (schemeParts s).2).2).2.1
  host : relaxedparser = true ∨ ¬ BareColon (backParts (atParts (schemeParts s).2).2).1

theorem nothing_iff {hostport : Text} {pt : Option Text} (hhost : hostParts relaxed hostport = .ok (host, pt))
    (hport : pt.elim (pure none) readPort = .ok port) :
    (relaxed = true ∨ host ≠ [] ∨ port ≠ none) ↔ (relaxed = true ∨ ¬ BareColon hostport) := by
  have hbare : relaxed = false → (host = [] ∧ port = none ↔ BareColon hostport) := by
    intro hrelaxed
    constructor
    · rintro ⟨rfl, rfl⟩
      obtain ⟨heq, hnone⟩ := (hostParts_ok hhost).2.2 rfl
      cases pt with
      | none => exact absurd (hnone rfl) (by simp [hrelaxed])
      | some blank => exact ⟨blank, heq, readPort_none.mp hport⟩
    · rintro ⟨blank, rfl, hblank⟩
      rw [hostParts_plain (by simp) (by simp)] at hhost
      have hsplit : split1 ':' (':' :: blank) = (host, pt) := Except.ok.inj hhost
      have hnil : split1 ':' (':' :: blank) = ([], some blank) := split1_append List.not_mem_nil blank
      rw [hnil] at hsplit
      cases hsplit
      have hnone : readPort blank = .ok port := hport
      rw [readPort_none.mpr hblank] at hnone
      exact ⟨rfl, (Except.ok.inj hnone).symm⟩
  cases hrelaxed : relaxed with
  | true => simp
  | false =>
    have hiff := hbare hrelaxed
    simp only [Bool.false_eq_true, false_or, ← hiff, not_and_or]

theorem init_parse (htel : (schemeParts s).1 ≠ "tel".toList) {autoconvert : Bool}
    (h : SipURL.init autoconvert relaxed s = .ok u) :
    ((schemeParts s).1 = "sip".toList ∨ (schemeParts s).1 = "sips".toList) ∧
      parseSipURL (schemeParts s).1 (schemeParts s).2 relaxed = .ok u := by
  rw [SipURL.init, if_neg htel] at h
  split at h
  · rename_i hscheme
    exact ⟨hscheme, h⟩
  · exact absurd h (by simp)

theorem restorable_iff (hparse : parseSipURL (schemeParts s).1 (schemeParts s).2 relaxed = .ok u)
    (hread : ReadURL u host) : ((∀ name ∈ u.username, ';' ∉ name) ∧
      (∀ t ∈ (u.getParams none).getLast?, '?' ∉ t) ∧ (relaxed = true ∨ host ≠ [] ∨ u.port ≠ none)) ↔
        Restorable relaxed s := by
  obtain ⟨host', pt, port, known, headers, hhost, hport, hknown, -, rfl⟩ := parseSipURL_ok.mp hparse
  have hsame : host' = host := by
    have hname := hread.hostName
    cases hname
    rfl
  subst hsame
  have huser : (∀ name ∈ (assemble (schemeParts s).1 (atParts (schemeParts s).2).1 host' port known
      headers).username, ';' ∉ name) ↔
      ∀ userpass ∈ (atParts (schemeParts s).2).1, ';' ∉ SipURL.unquote (userParts userpass).1 := by
    cases hat : (atParts (schemeParts s).2).1 with
    | none => simp [assemble]
    | some up => simp [assemble]
  have hnothing : (relaxed = true ∨ host' ≠ [] ∨ port.map Port.number ≠ none) ↔
      (relaxed = true ∨ ¬ BareColon (backParts (atParts (schemeParts s).2).2).1) := by
    rw [← nothing_iff hhost hport]
    cases port <;> simp
  rw [huser]
  constructor
  · rintro ⟨hname, hlast, hne⟩
    exact ⟨hname, (overtaken_iff hknown).mpr hlast, hnothing.mp hne⟩
  · rintro ⟨hname, hlast, hne⟩
    exact ⟨hname, (overtaken_iff hknown).mp hlast, hnothing.mpr hne⟩

/-- A URL that was read from a text comes back from what it prints exactly if the text is
restorable. -/
theorem url_restored_iff {autoconvert : Bool} (h : SipURL.init autoconvert relaxed s = .ok u)
    (htel : (schemeParts s).1 ≠ "tel".toList) (myAddress : Text) :
    SipURL.init autoconvert relaxed (u.localStr myAddress none) = .ok u ↔ Restorable relaxed s := by
  obtain ⟨hscheme, hparse⟩ := init_parse htel h
  obtain ⟨host, hread⟩ := readURL_of_parse hscheme hparse
  rw [read_printed hread]
  exact restorable_iff hparse hread

/-- A URL with user parameters, a password and a header. -/
def urlOfBob : SipURL :=
  { scheme := "sips".toList, username := some "b b".toList, userparams := ["x=1".toList],
    password := some "pw".toList, host := .name "[::1]".toList, port := some (.number 5061), lr := true,
    transport := some (.name "tcp".toList), headers := some [("subject".toList, "a@b".toList)] }

theorem url_restored_bob :
    SipURL.init false false "SIPS:b%20b;x=1:pw@[::1]:5061;transport=tcp;lr?subject=a%40b".toList = .ok urlOfBob ∧
      (SipURL.init false false (urlOfBob.localStr "127.0.0.1".toList none) = .ok urlOfBob ↔
        Restorable false "SIPS:b%20b;x=1:pw@[::1]:5061;transport=tcp;lr?subject=a%40b".toList) :=
  ⟨by decide +kernel, url_restored_iff (by decide +kernel) (by decide +kernel) "127.0.0.1".toList⟩

/-- An escaped semicolon, a question mark that comes to the end, and an empty host. -/
theorem url_not_restored :
    (∃ u, SipURL.init false false "sip:a%3Bb@h".toList = .ok u ∧
      SipURL.init false false (u.localStr "127.0.0.1".toList none) ≠ .ok u) ∧
    (∃ u, SipURL.init false false "sip:a@h;x=1?;user=phone".toList = .ok u ∧
      SipURL.init false false (u.localStr "127.0.0.1".toList none) = .error .valueError) ∧
    ∃ u, SipURL.init false false "sip:a@:".toList = .ok u ∧
      SipURL.init false false (u.localStr "127.0.0.1".toList none) = .error .indexError := by
  let plain (name host : String) : SipURL :=
    { scheme := "sip".toList, username := some name.toList, userparams := [], password := none,
      host := .name host.toList, port := none, headers := none }
  exact ⟨⟨plain "a;b" "h", by decide +kernel, by decide +kernel⟩,
    ⟨{ plain "a" "h" with usertype := some "phone".toList, other := ["x=1?".toList] },
      by decide +kernel, by decide +kernel⟩,
    ⟨plain "a" "", by decide +kernel, by decide +kernel⟩⟩

end SippyB2bua.Address
