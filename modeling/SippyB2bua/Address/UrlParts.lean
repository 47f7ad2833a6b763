import SippyB2bua.Address.UrlParams

/-!
# The parts of a URL

What the parser cuts a URL into is put together again by the printer. The parts have no
separator in them, and no character that the URL does not have.
-/

namespace SippyB2bua.Address
open Lib (Text Items)
open Lib.Text

variable {c : Char} {back hostport host up x : Text} {ps before : List Text} {text pt : Option Text}
  {items : Items Text}

def backText (hostport : Text) (params : List Text) (text : Option Text) : Text :=
  hostport ++ params.flatMap (';' :: ·) ++ text.elim [] ('?' :: ·)

theorem intercalate_eq (sep : Char) (t : Text) (ts : List Text) :
    [sep].intercalate (t :: ts) = t ++ ts.flatMap (sep :: ·) := by
  induction ts generalizing t with
  | nil => simp
  | cons t' ts ih => rw [List.intercalate_cons_cons, ih, List.flatMap_cons]; simp

theorem splitAll_flatMap {sep : Char} {t : Text} {ts : List Text} (ht : sep ∉ t) (hts : ∀ l ∈ ts, sep ∉ l) :
    splitAll sep (t ++ ts.flatMap (sep :: ·)) = t :: ts := by
  rw [← intercalate_eq]
  refine splitAll_intercalate ?_ (by simp)
  intro l hl
  rcases List.mem_cons.mp hl with rfl | hl
  · exact ht
  · exact hts l hl

theorem backParts_single (h : splitAll ';' back = [x]) :
    backParts back = ((split1 '?' x).1, [], (split1 '?' x).2) := by
  rw [backParts, h]

theorem backParts_concat (h : splitAll ';' back = hostport :: (before ++ [x])) :
    backParts back = (hostport, before ++ [(split1 '?' x).1], (split1 '?' x).2) := by
  rw [backParts, h]
  cases before with
  | nil => rfl
  | cons p before =>
    change (hostport, ((p :: before) ++ [x]).dropLast ++
      [(split1 '?' (((p :: before) ++ [x]).getLast?.getD [])).1],
      (split1 '?' (((p :: before) ++ [x]).getLast?.getD [])).2) = _
    rw [List.dropLast_concat, List.getLast?_concat, Option.getD_some]

theorem backParts_cases (back : Text) :
    (∃ x, splitAll ';' back = [x] ∧ backParts back = ((split1 '?' x).1, [], (split1 '?' x).2)) ∨
    ∃ hostport before x, splitAll ';' back = hostport :: (before ++ [x]) ∧
      backParts back = (hostport, before ++ [(split1 '?' x).1], (split1 '?' x).2) := by
  cases hsplit : splitAll ';' back with
  | nil => exact absurd hsplit (splitAll_ne_nil _ _)
  | cons hostport rest =>
    rcases List.eq_nil_or_concat rest with rfl | ⟨before, x, rfl⟩
    · exact .inl ⟨hostport, rfl, backParts_single hsplit⟩
    · rw [List.concat_eq_append] at hsplit ⊢
      exact .inr ⟨hostport, before, x, rfl, backParts_concat hsplit⟩

/-- The parts come back from what is put together, if no part has a separator. -/
theorem backParts_backText (hhost : ';' ∉ hostport) (hps : ∀ p ∈ ps, ';' ∉ p) (htext : ∀ t ∈ text, ';' ∉ t)
    (hmark : '?' ∉ ps.getLast?.getD hostport) : backParts (backText hostport ps text) = (hostport, ps, text) := by
  have hend {t : Text} (ht : ';' ∉ t) : ';' ∉ t ++ text.elim [] ('?' :: ·) := by
    cases text with
    | none => simpa using ht
    | some text => simpa using ⟨ht, htext text rfl⟩
  rcases List.eq_nil_or_concat ps with rfl | ⟨before, p, rfl⟩
  · have hsplit : splitAll ';' (backText hostport [] text) = [hostport ++ text.elim [] ('?' :: ·)] := by
      rw [backText, List.flatMap_nil, List.append_nil]
      exact splitAll_of_not_mem (hend hhost)
    rw [backParts_single hsplit, split1_elim (by simpa using hmark)]
  · rw [List.concat_eq_append] at hps hmark ⊢
    have hsplit : splitAll ';' (backText hostport (before ++ [p]) text) =
        hostport :: (before ++ [p ++ text.elim [] ('?' :: ·)]) := by
      have heq : backText hostport (before ++ [p]) text =
          hostport ++ (before ++ [p ++ text.elim [] ('?' :: ·)]).flatMap (';' :: ·) := by simp [backText]
      rw [heq]
      refine splitAll_flatMap hhost ?_
      intro l hl
      rcases List.mem_append.mp hl with hl | hl
      · exact hps l (List.mem_append_left _ hl)
      · rw [List.mem_singleton.mp hl]
        exact hend (hps p (by simp))
    rw [backParts_concat hsplit, split1_elim (by simpa using hmark)]

def pieces (parts : Text × List Text × Option Text) : List Text := parts.1 :: (parts.2.1 ++ parts.2.2.toList)

theorem mem_split1 {sep : Char} {s : Text} (h : x ∈ (split1 sep s).1 :: (split1 sep s).2.toList) (hc : c ∈ x) :
    c ∈ s := by
  rw [← elim_split1 sep s]
  rcases List.mem_cons.mp h with rfl | h
  · exact List.mem_append_left _ hc
  · rw [Option.mem_toList.mp h]
    exact List.mem_append_right _ (List.mem_cons_of_mem _ hc)

theorem mem_pieces (h : x ∈ pieces (backParts back)) :
    ∃ t ∈ splitAll ';' back, ∀ c ∈ x, c ∈ t := by
  rcases backParts_cases back with ⟨y, hsplit, hparts⟩ | ⟨hostport, before, y, hsplit, hparts⟩
  · rw [hparts] at h
    exact ⟨y, by simp [hsplit], fun c hc => mem_split1 (by simpa [pieces] using h) hc⟩
  · rw [hparts] at h
    have hcases : x = hostport ∨ x ∈ before ∨ x ∈ (split1 '?' y).1 :: (split1 '?' y).2.toList := by
      simpa [pieces, or_assoc] using h
    rw [hsplit]
    rcases hcases with rfl | h | h
    · exact ⟨x, by simp, fun c hc => hc⟩
    · exact ⟨x, by simp [h], fun c hc => hc⟩
    · exact ⟨y, by simp, fun c hc => mem_split1 h hc⟩

theorem pieces_semicolon (h : x ∈ pieces (backParts back)) : ';' ∉ x := by
  obtain ⟨t, ht, hsub⟩ := mem_pieces h
  exact fun hc => splitAll_clean ht (hsub _ hc)

theorem mem_of_pieces (h : x ∈ pieces (backParts back)) (hc : c ∈ x) : c ∈ back := by
  obtain ⟨t, ht, hsub⟩ := mem_pieces h
  exact mem_of_mem_splitAll ht (hsub c hc)

theorem backParts_mark (back : Text) :
    '?' ∉ (backParts back).2.1.getLast?.getD (backParts back).1 := by
  rcases backParts_cases back with ⟨x, -, hparts⟩ | ⟨hostport, before, x, -, hparts⟩
  · rw [hparts]
    exact split1_clean _ _
  · rw [hparts, List.getLast?_concat]
    exact split1_clean _ _

def upText (name : Text) (params : List Text) (password : Option Text) : Text :=
  name ++ params.flatMap (';' :: ·) ++ password.elim [] (':' :: ·)

theorem userParts_split (up : Text) :
    splitAll ';' (split1 ':' up).1 = (userParts up).1 :: (userParts up).2.1 := by
  change _ = (splitAll ';' (split1 ':' up).1).headD [] :: (splitAll ';' (split1 ':' up).1).tail
  cases hsplit : splitAll ';' (split1 ':' up).1 with
  | nil => exact absurd hsplit (splitAll_ne_nil _ _)
  | cons t ts => rfl

theorem userParts_semicolon (h : x ∈ (userParts up).1 :: (userParts up).2.1) : ';' ∉ x := by
  rw [← userParts_split] at h
  exact splitAll_clean h

theorem userParts_colon (h : x ∈ (userParts up).1 :: (userParts up).2.1) : ':' ∉ x := by
  rw [← userParts_split] at h
  exact fun hc => split1_clean ':' up (mem_of_mem_splitAll h hc)

theorem mem_of_upPieces (h : x ∈ pieces (userParts up)) (hc : c ∈ x) : c ∈ up := by
  have hcases : x ∈ (userParts up).1 :: (userParts up).2.1 ∨ (split1 ':' up).2 = some x := by
    have h' := h
    simp only [pieces, List.mem_cons, List.mem_append, Option.mem_toList] at h'
    rcases h' with h' | h' | h'
    · exact .inl (by simp [h'])
    · exact .inl (by simp [h'])
    · exact .inr h'
  rcases hcases with h | h
  · rw [← userParts_split] at h
    exact mem_split1 List.mem_cons_self (mem_of_mem_splitAll h hc)
  · exact mem_split1 (List.mem_cons_of_mem _ (Option.mem_toList.mpr h)) hc

theorem userParts_upText {name : Text} {params : List Text} (hname : ';' ∉ name) (hname' : ':' ∉ name)
    (hparams : ∀ p ∈ params, ';' ∉ p) (hparams' : ∀ p ∈ params, ':' ∉ p) (password : Option Text) :
    userParts (upText name params password) = (name, params, password) := by
  have hfirst : ':' ∉ name ++ params.flatMap (';' :: ·) := by
    simp only [List.mem_append, List.mem_flatMap, List.mem_cons, not_or, not_exists, not_and]
    exact ⟨hname', fun p hp => ⟨by decide, hparams' p hp⟩⟩
  rw [userParts, upText, split1_elim hfirst]
  dsimp only
  rw [splitAll_flatMap hname hparams]
  rfl

theorem userParts_length {name : Text} {params : List Text} (hname : ';' ∈ name) (hname' : ':' ∉ name)
    (hparams' : ∀ p ∈ params, ':' ∉ p) (password : Option Text) :
    params.length < (userParts (upText name params password)).2.1.length := by
  have hfirst : ':' ∉ name ++ params.flatMap (';' :: ·) := by
    simp only [List.mem_append, List.mem_flatMap, List.mem_cons, not_or, not_exists, not_and]
    exact ⟨hname', fun p hp => ⟨by decide, hparams' p hp⟩⟩
  have hcount : params.length ≤ (params.flatMap (';' :: ·)).count ';' := by
    clear hparams' hfirst
    induction params with
    | nil => exact Nat.zero_le _
    | cons p ps ih =>
      rw [List.flatMap_cons, List.cons_append, List.count_cons_self, List.count_append, List.length_cons]
      omega
  have hpos : 0 < name.count ';' := List.count_pos_iff.mpr hname
  have hlen := congrArg List.length (userParts_split (upText name params password))
  rw [upText, split1_elim hfirst, length_splitAll, List.count_append, List.length_cons] at hlen
  rw [upText]
  omega

theorem atParts_none (h : '@' ∉ back) : atParts back = (none, back) := by
  rw [atParts, split1_of_not_mem h]

theorem atParts_some (h : '@' ∉ up) (back : Text) : atParts (up ++ '@' :: back) = (some up, back) := by
  rw [atParts, split1_append h]

theorem schemeParts_append {scheme : Text} (h : scheme = "sip".toList ∨ scheme = "sips".toList) (url : Text) :
    schemeParts (scheme ++ ':' :: url) = (scheme, url) := by
  rcases h with rfl | rfl
  · rw [schemeParts, split1_append (by decide)]
    rfl
  · rw [schemeParts, split1_append (by decide)]
    rfl

/-- A host in brackets, or one without a colon that does not start with a bracket. -/
def HostText (host : Text) : Prop :=
  (∃ inner, ']' ∉ inner ∧ host = '[' :: inner ++ [']']) ∨ ':' ∉ host ∧ host.head? ≠ some '['

variable {relaxed : Bool}

theorem hostParts_plain (h : hostport.head? ≠ some '[') (hne : hostport ≠ []) :
    hostParts relaxed hostport = .ok (split1 ':' hostport) := by
  cases hostport with
  | nil => exact absurd rfl hne
  | cons c t =>
    unfold hostParts
    split
    · contradiction
    · rename_i heq
      rw [heq] at h
      exact absurd rfl h
    · rfl

theorem hostParts_bracket {t ipv6 rest : Text} (h : split1 ']' ('[' :: t) = (ipv6, some rest)) :
    hostParts relaxed ('[' :: t) = .ok (ipv6 ++ [']'], (split1 ':' rest).2) := by
  rw [hostParts, h]

theorem hostParts_ok (h : hostParts relaxed hostport = .ok (host, pt)) :
    HostText host ∧ (∀ c ∈ host, c ∈ hostport) ∧
      (host = [] → hostport = pt.elim [] (':' :: ·) ∧ (pt = none → relaxed = true)) := by
  cases hostport with
  | nil =>
    unfold hostParts at h
    split_ifs at h with hrelaxed
    cases h
    exact ⟨.inr ⟨List.not_mem_nil, by simp⟩, fun c hc => hc, fun _ => ⟨rfl, fun _ => hrelaxed⟩⟩
  | cons d t =>
    by_cases hd : d = '['
    · subst hd
      rw [hostParts] at h
      split at h
      · exact absurd h (by simp)
      · rename_i ipv6 rest hsplit
        cases h
        have hclean : ']' ∉ ipv6 := by
          have hclean := split1_clean ']' ('[' :: t)
          rwa [hsplit] at hclean
        have heq := split1_eq hsplit
        cases ipv6 with
        | nil => exact absurd (List.cons.inj heq).1 (by decide)
        | cons e inner =>
          obtain rfl : e = '[' := (List.cons.inj heq).1.symm
          refine ⟨.inl ⟨inner, fun hc => hclean (List.mem_cons_of_mem _ hc), rfl⟩, ?_, by simp⟩
          intro c hc
          rw [heq]
          rcases List.mem_append.mp hc with hc | hc
          · exact List.mem_append_left _ hc
          · rw [List.mem_singleton.mp hc]
            simp
    · have hhead : (d :: t).head? ≠ some '[' := by simpa using hd
      rw [hostParts_plain hhead (by simp)] at h
      have hsplit : split1 ':' (d :: t) = (host, pt) := Except.ok.inj h
      have hclean : ':' ∉ host := by
        have hclean := split1_clean ':' (d :: t)
        rwa [hsplit] at hclean
      have heq := elim_split1 ':' (d :: t)
      rw [hsplit] at heq
      dsimp only at heq
      refine ⟨.inr ⟨hclean, ?_⟩, fun c hc => heq ▸ List.mem_append_left _ hc, ?_⟩
      · cases host with
        | nil => simp
        | cons e host =>
          have he : e = d := (List.cons.inj heq).1
          simpa [he] using hd
      · rintro rfl
        refine ⟨heq.symm, fun hpt => ?_⟩
        rw [hpt] at heq
        exact absurd heq (by simp)

/-- Host and port come back from their text, unless there is nothing. -/
theorem hostParts_text (h : HostText host) (hne : host ≠ [] ∨ pt ≠ none ∨ relaxed = true) :
    hostParts relaxed (host ++ pt.elim [] (':' :: ·)) = .ok (host, pt) := by
  rcases h with ⟨inner, hinner, rfl⟩ | ⟨hcolon, hhead⟩
  · have hbracket : ']' ∉ '[' :: inner := by simpa using hinner
    have heq : ('[' :: inner ++ [']']) ++ pt.elim [] (':' :: ·) =
        ('[' :: inner) ++ ']' :: ([] ++ pt.elim [] (':' :: ·)) := by simp
    have hsplit := split1_append hbracket ([] ++ pt.elim [] (':' :: ·))
    rw [heq]
    rw [List.cons_append] at hsplit ⊢
    rw [hostParts_bracket hsplit]
    rw [split1_elim List.not_mem_nil]
  · by_cases hnil : host ++ pt.elim [] (':' :: ·) = []
    · obtain ⟨rfl, hpt⟩ := List.append_eq_nil_iff.mp hnil
      cases pt with
      | none =>
        have hrelaxed : relaxed = true := by simpa using hne
        rw [hnil, hostParts, if_pos hrelaxed]
      | some w => exact absurd hpt (by simp)
    · rw [hostParts_plain _ hnil, split1_elim hcolon]
      cases host with
      | nil =>
        cases pt with
        | none => simp
        | some w => simp
      | cons c host => exact hhead

theorem readPort_ofInt (n : ℤ) : readPort (ofInt n) = .ok (some n) := by rw [readPort, int_ofInt]

theorem readPort_none {w : Text} : readPort w = .ok none ↔ strip w = [] := by
  unfold readPort
  constructor
  · intro h
    split at h
    · exact absurd h (by simp)
    · dsimp only at h
      split at h
      · assumption
      · split at h
        · split at h
          · cases hint : int _ with
            | none =>
              rw [hint] at h
              exact absurd h (by simp)
            | some n =>
              rw [hint] at h
              exact absurd h (by simp)
          · exact absurd h (by simp)
        · exact absurd h (by simp)
  · intro h
    have hint : int w = none := by
      rw [int, h]
      rfl
    rw [hint]
    dsimp only
    rw [if_pos h]

variable {d d' : Items Text} {k v header : Text} {headers : List Text}

theorem readHeader_append (hk : '=' ∉ k) (hv : '=' ∉ v) (d : Items Text) :
    readHeader d (k ++ '=' :: v) = .ok (d.set k (SipURL.unquote v)) := by
  rw [readHeader, splitAll_append hk, splitAll_of_not_mem hv]

theorem readHeader_ok (h : readHeader d header = .ok d') :
    ∃ k v, '=' ∉ k ∧ (∀ c ∈ k, c ∈ header) ∧ d' = d.set k v := by
  unfold readHeader at h
  split at h
  · rename_i k v hsplit
    cases h
    have hk : k ∈ splitAll '=' header := by simp [hsplit]
    exact ⟨k, _, splitAll_clean hk, fun c hc => mem_of_mem_splitAll hk hc, rfl⟩
  · exact absurd h (by simp)

structure HeaderKeys (headers : List Text) (d : Items Text) : Prop where
  nodup : d.keys.Nodup
  equals : ∀ k ∈ d.keys, '=' ∉ k
  within : ∀ k ∈ d.keys, ∃ header ∈ headers, ∀ c ∈ k, c ∈ header

theorem headerKeys_foldlM {all : List Text} (hsub : ∀ header ∈ headers, header ∈ all) (hd : HeaderKeys all d)
    (h : headers.foldlM readHeader d = .ok d') : HeaderKeys all d' := by
  induction headers generalizing d with
  | nil =>
    cases h
    exact hd
  | cons header headers ih =>
    rw [List.foldlM_cons] at h
    obtain ⟨e, he, h⟩ := Lib.bind_ok.mp h
    obtain ⟨k, v, hk, hwithin, rfl⟩ := readHeader_ok he
    have hkeys {k' : Text} (hk' : k' ∈ (d.set k v).keys) : k' ∈ d.keys ∨ k' = k := by
      rw [Items.keys_set] at hk'
      split at hk'
      · exact .inl hk'
      · simpa using hk'
    refine ih (fun x hx => hsub x (List.mem_cons_of_mem _ hx)) ⟨Items.nodup_set hd.nodup k v, ?_, ?_⟩ h
    · intro k' hk'
      rcases hkeys hk' with hk' | rfl
      · exact hd.equals k' hk'
      · exact hk
    · intro k' hk'
      rcases hkeys hk' with hk' | rfl
      · exact hd.within k' hk'
      · exact ⟨header, hsub header List.mem_cons_self, hwithin⟩

theorem headerKeys_of_read {text : Text} (h : readHeaders text = .ok items) :
    HeaderKeys (splitAll '&' text) items :=
  headerKeys_foldlM (d := []) (fun _ hx => hx)
    ⟨by simp [Items.keys], by simp [Items.keys], by simp [Items.keys]⟩ h

theorem readHeaders_ne_nil {text : Text} (h : readHeaders text = .ok items) : items ≠ [] := by
  have hset (d : Items Text) (k v : Text) : d.set k v ≠ [] := by
    intro hnil
    have hkeys := Items.keys_set d k v
    rw [hnil] at hkeys
    split at hkeys
    · rename_i hk
      rw [← hkeys] at hk
      exact absurd hk List.not_mem_nil
    · exact absurd hkeys.symm (by simp [Items.keys])
  have hrun {hs : List Text} {d : Items Text} (hd : d ≠ [] ∨ hs ≠ [])
      (hfold : hs.foldlM readHeader d = .ok items) : items ≠ [] := by
    clear h
    induction hs generalizing d with
    | nil =>
      cases hfold
      simpa using hd
    | cons header hs ih =>
      rw [List.foldlM_cons] at hfold
      obtain ⟨e, he, hfold⟩ := Lib.bind_ok.mp hfold
      obtain ⟨k, v, -, -, rfl⟩ := readHeader_ok he
      exact ih (.inl (hset d k v)) hfold
  exact hrun (.inr (splitAll_ne_nil _ _)) h

theorem readHeaders_printed (hne : items ≠ []) (hnodup : items.keys.Nodup)
    (hequals : ∀ k ∈ items.keys, '=' ∉ k) (hamp : ∀ k ∈ items.keys, '&' ∉ k) :
    readHeaders (['&'].intercalate (items.map headerText)) = .ok items := by
  have hkey {p : Text × Text} (hp : p ∈ items) : p.1 ∈ items.keys := List.mem_map.mpr ⟨p, hp, rfl⟩
  have hclean : ∀ l ∈ items.map headerText, '&' ∉ l := by
    intro l hl
    obtain ⟨p, hp, rfl⟩ := List.mem_map.mp hl
    have hvalue : '&' ∉ SipURL.quote ['/'] p.2 := SipURL.not_mem_quote (by decide) (by decide) (by decide) _
    simpa [headerText, hvalue] using hamp p.1 (hkey hp)
  have hread (d : Items Text) : items.foldlM (fun d p => readHeader d (headerText p)) d =
      .ok (items.foldl (fun d p => Items.set d p.1 p.2) d) := by
    clear hne hnodup hamp hclean
    induction items generalizing d with
    | nil => rfl
    | cons p items ih =>
      have hvalue : '=' ∉ SipURL.quote ['/'] p.2 :=
        SipURL.not_mem_quote (by decide) (by decide) (by decide) _
      have hstep : readHeader d (headerText p) = .ok (Items.set d p.1 p.2) := by
        rw [headerText, readHeader_append (hequals p.1 (hkey List.mem_cons_self)) hvalue,
          SipURL.unquote_quote (by decide)]
      rw [List.foldlM_cons, hstep]
      exact ih (fun k hk => hequals k (List.mem_cons_of_mem _ hk))
        (fun hp => List.mem_map.mpr ⟨_, hp, rfl⟩) (Items.set d p.1 p.2)
  rw [readHeaders, splitAll_intercalate hclean (by simpa using hne), List.foldlM_map, hread]
  exact congrArg Except.ok (Items.foldl_set (d := []) (by simpa using hnodup))

end SippyB2bua.Address
