import SippyB2bua.Lib.Fallible
import SippyB2bua.Security.DigestHeaders

/-!
# The text of an answer

An answer is read piece by piece, and the pieces are its parameters if nothing in it has a
comma. Then each piece gives back its name and its value, less the spaces at its end.
-/

namespace SippyB2bua.Security
open Lib (Text)
open Lib.Text (split1 splitAll lower stripBy stripBy_stop stripBy_clean split1_append split1_clean
  splitAll_append splitAll_clean splitAll_intercalate dropWhile_clean rdropWhile_clean rdropWhile_iff)

namespace SipAuthorization
variable {auth : SipAuthorization} {n v t : Text} {p : Text × Text} {ps : List (Text × Text)}

def known (auth : SipAuthorization) : List (Option Text) :=
  [auth.username, auth.uri, auth.realm, auth.nonce, auth.response, auth.qop, auth.cnonce, auth.nc,
    auth.algorithm]

def knownNames : List Text :=
  ["username".toList, "uri".toList, "realm".toList, "nonce".toList, "response".toList, "qop".toList,
    "cnonce".toList, "nc".toList, "algorithm".toList]

/-- No known parameter has a double quote. -/
def Unquoted (auth : SipAuthorization) : Prop := ∀ t, some t ∈ auth.known → '"' ∉ t

structure Unsplit (auth : SipAuthorization) : Prop where
  known : ∀ t, some t ∈ auth.known → ',' ∉ t
  others : ∀ p ∈ auth.otherparams, ',' ∉ p.1 ∧ ',' ∉ p.2

def readBack (p : Text × Text) : Text × Text :=
  let r := split1 '=' (stripBy isGap (bareParam p.1 p.2))
  (r.1, r.2.getD [])

theorem strip_bareParam (n v : Text) :
    stripBy isGap (bareParam n v) = n.dropWhile isGap ++ '=' :: v.rdropWhile isGap :=
  stripBy_stop (by decide) n v

theorem split1_some (s t : Text) : ∃ a b, split1 '=' (s ++ '=' :: t) = (a, some b) := by
  induction s with
  | nil => exact ⟨[], t, split1_append List.not_mem_nil t⟩
  | cons c s ih =>
    obtain ⟨a, b, hab⟩ := ih
    by_cases hc : c = '='
    · exact ⟨[], s ++ '=' :: t, by rw [List.cons_append, split1, if_pos hc]⟩
    · exact ⟨c :: a, b, by rw [List.cons_append, split1, if_neg hc, hab]⟩

theorem pair_bareParam (n v : Text) : pair (bareParam n v) = some (readBack (n, v)) := by
  obtain ⟨a, b, hab⟩ := split1_some (n.dropWhile isGap) (v.rdropWhile isGap)
  rw [← strip_bareParam] at hab
  have hpair : pair (bareParam n v) = some (a, b) := by rw [pair, hab]
  rw [hpair, readBack, hab]
  rfl

theorem readBack_of_clean (hname : ∀ c ∈ n, isGap c = false) (hn : '=' ∉ n) (v : Text) :
    readBack (n, v) = (n, v.rdropWhile isGap) := by
  unfold readBack
  dsimp only
  rw [strip_bareParam, dropWhile_clean hname, split1_append hn]
  rfl

theorem readBack_clean (p : Text × Text) : '=' ∉ (readBack p).1 := split1_clean '=' _

/-- A parameter comes back if its name has no equals sign and nothing is trimmed. -/
theorem readBack_iff : readBack (n, v) = (n, v) ↔
    '=' ∉ n ∧ n.dropWhile isGap = n ∧ v.rdropWhile isGap = v := by
  constructor
  · intro h
    have hn : '=' ∉ n := by
      have hclean := readBack_clean (n, v)
      rwa [h] at hclean
    have hn' : '=' ∉ n.dropWhile isGap := fun hmem => hn ((List.dropWhile_sublist isGap).subset hmem)
    unfold readBack at h
    dsimp only at h
    rw [strip_bareParam, split1_append hn'] at h
    exact ⟨hn, congrArg Prod.fst h, congrArg Prod.snd h⟩
  · rintro ⟨hn, hleft, hright⟩
    unfold readBack
    dsimp only
    rw [strip_bareParam, hleft, hright, split1_append hn]
    rfl

theorem setKnown_eq_none : auth.setKnown n v = none ↔ n ∉ knownNames := by
  have hchain {c : Prop} [Decidable c] {a : SipAuthorization} {o : Option SipAuthorization} :
      (if c then some a else o) = none ↔ ¬ c ∧ o = none := by
    by_cases hc : c <;> simp [hc]
  simp only [setKnown, hchain, knownNames, List.mem_cons, List.not_mem_nil, not_or, not_false_eq_true]

theorem setParam_unknown (h : lower p.1 ∉ knownNames) :
    auth.setParam p = { auth with otherparams := auth.otherparams ++ [p] } := by
  rw [setParam, setKnown_eq_none.mpr h]
  rfl

theorem setKnown_cases {auth' : SipAuthorization} (h : auth.setKnown n v = some auth') :
    ∃ w, w = stripBy (fun c => c = '"') v ∧
      auth' ∈ [{ auth with username := some w }, { auth with uri := some w },
        { auth with realm := some w }, { auth with nonce := some w },
        { auth with response := some w }, { auth with qop := some w },
        { auth with cnonce := some w }, { auth with nc := some w },
        { auth with algorithm := some w }] := by
  have hchain {c : Prop} [Decidable c] {a : SipAuthorization} {o : Option SipAuthorization}
      {l : List SipAuthorization} (hrest : o = some auth' → auth' ∈ l)
      (hif : (if c then some a else o) = some auth') : auth' ∈ a :: l := by
    by_cases hc : c
    · rw [if_pos hc] at hif
      exact Option.some.inj hif ▸ List.mem_cons_self
    · rw [if_neg hc] at hif
      exact List.mem_cons_of_mem a (hrest hif)
  refine ⟨_, rfl, ?_⟩
  unfold setKnown at h
  exact hchain (hchain (hchain (hchain (hchain (hchain (hchain (hchain (hchain
    (fun hnone => absurd hnone (by simp)))))))))) h

theorem setKnown_otherparams {auth' : SipAuthorization} (h : auth.setKnown n v = some auth') :
    auth'.otherparams = auth.otherparams := by
  obtain ⟨w, -, hmem⟩ := setKnown_cases h
  simp only [List.mem_cons, List.not_mem_nil, or_false] at hmem
  rcases hmem with rfl | rfl | rfl | rfl | rfl | rfl | rfl | rfl | rfl <;> rfl

theorem setParam_length (auth : SipAuthorization) (p : Text × Text) :
    (auth.setParam p).otherparams.length =
      auth.otherparams.length + if lower p.1 ∈ knownNames then 0 else 1 := by
  split
  · rename_i hmem
    cases hset : auth.setKnown (lower p.1) p.2 with
    | none => exact absurd hmem (setKnown_eq_none.mp hset)
    | some auth' => rw [setParam, hset, Option.getD_some, setKnown_otherparams hset, Nat.add_zero]
  · rename_i hmem
    rw [setParam_unknown hmem]
    simp

theorem foldl_setParam_length (ps : List (Text × Text)) (auth : SipAuthorization) :
    (ps.foldl setParam auth).otherparams.length ≤ auth.otherparams.length + ps.length := by
  induction ps generalizing auth with
  | nil => exact Nat.le_refl _
  | cons p ps ih =>
    have hrest := ih (auth.setParam p)
    have hone := setParam_length auth p
    rw [List.foldl_cons, List.length_cons]
    split at hone <;> omega

theorem foldl_setParam_unknown (h : ∀ p ∈ ps, lower p.1 ∉ knownNames) (auth : SipAuthorization) :
    ps.foldl setParam auth = { auth with otherparams := auth.otherparams ++ ps } := by
  induction ps generalizing auth with
  | nil => simp
  | cons p ps ih =>
    rw [List.foldl_cons, ih fun q hq => h q (List.mem_cons_of_mem p hq),
      setParam_unknown (h p List.mem_cons_self)]
    simp

theorem unknown_of_length
    (h : (ps.foldl setParam auth).otherparams.length = auth.otherparams.length + ps.length) :
    ∀ p ∈ ps, lower p.1 ∉ knownNames := by
  induction ps generalizing auth with
  | nil => exact fun p hp => absurd hp List.not_mem_nil
  | cons p ps ih =>
    have hrest := foldl_setParam_length ps (auth.setParam p)
    have hone := setParam_length auth p
    rw [List.foldl_cons, List.length_cons] at h
    split at hone
    · omega
    · rename_i hp
      have hlen : (ps.foldl setParam (auth.setParam p)).otherparams.length =
          (auth.setParam p).otherparams.length + ps.length := by omega
      have htail : ∀ q ∈ ps, lower q.1 ∉ knownNames := ih hlen
      intro q hq
      rcases List.mem_cons.mp hq with rfl | hq
      · exact hp
      · exact htail q hq

theorem pair_unsplit {x : Text} (hx : ',' ∉ x) (h : pair x = some p) : ',' ∉ p.1 ∧ ',' ∉ p.2 := by
  unfold pair at h
  split at h
  · rename_i name value hsplit
    cases h
    have hsub := Lib.Text.stripBy_sublist isGap x
    rw [Lib.Text.split1_eq hsplit] at hsub
    constructor
    · intro hmem
      exact hx (hsub.subset (List.mem_append_left _ hmem))
    · intro hmem
      exact hx (hsub.subset (List.mem_append_right _ (List.mem_cons_of_mem _ hmem)))
  · exact absurd h (by simp)

theorem setKnown_mem {auth' : SipAuthorization} (h : auth.setKnown n v = some auth')
    (ht : some t ∈ auth'.known) : some t ∈ auth.known ∨ t = stripBy (fun c => c = '"') v := by
  obtain ⟨w, hw, hmem⟩ := setKnown_cases h
  rw [← hw]
  simp only [List.mem_cons, List.not_mem_nil, or_false] at hmem
  rcases hmem with rfl | rfl | rfl | rfl | rfl | rfl | rfl | rfl | rfl
  all_goals
    simp only [known, List.mem_cons, List.not_mem_nil, or_false, Option.some.injEq] at ht ⊢
    grind

theorem Unsplit.setParam (h : Unsplit auth) (hp : ',' ∉ p.1 ∧ ',' ∉ p.2) :
    Unsplit (auth.setParam p) := by
  unfold SipAuthorization.setParam
  cases hset : auth.setKnown (lower p.1) p.2 with
  | none =>
    refine ⟨h.known, fun q hq => ?_⟩
    rcases List.mem_append.mp hq with hq | hq
    · exact h.others q hq
    · rw [List.mem_singleton.mp hq]
      exact hp
  | some auth' =>
    refine ⟨fun t ht => ?_, fun q hq => ?_⟩
    · rcases setKnown_mem hset ht with ht | rfl
      · exact h.known t ht
      · exact fun hmem => hp.2 ((Lib.Text.stripBy_sublist _ _).subset hmem)
    · rw [Option.getD_some, setKnown_otherparams hset] at hq
      exact h.others q hq

theorem Unsplit.foldl (h : Unsplit auth) (hps : ∀ p ∈ ps, ',' ∉ p.1 ∧ ',' ∉ p.2) :
    Unsplit (ps.foldl SipAuthorization.setParam auth) := by
  induction ps generalizing auth with
  | nil => exact h
  | cons p ps ih =>
    exact ih (h.setParam (hps p List.mem_cons_self)) fun q hq => hps q (List.mem_cons_of_mem p hq)

theorem parse_unsplit {body : Text} (h : parse body = some auth) : Unsplit auth := by
  obtain ⟨rest, -, h⟩ := Option.bind_eq_some_iff.mp h
  obtain ⟨ps, hps, h⟩ := Option.bind_eq_some_iff.mp h
  cases h
  have hblank : Unsplit blank := ⟨fun t ht => absurd ht (by simp [known, blank]),
    fun q hq => absurd hq List.not_mem_nil⟩
  apply hblank.foldl
  intro q hq
  obtain ⟨x, hx, hpair⟩ := Lib.mem_mapM hps hq
  exact pair_unsplit (splitAll_clean hx) hpair

def quote (t : Text) : Text := '"' :: t ++ ['"']

def knownParams (auth : SipAuthorization) : List (Text × Text) :=
  [("username".toList, quote (attrStr auth.username)), ("realm".toList, quote (attrStr auth.realm)),
    ("nonce".toList, quote (attrStr auth.nonce)), ("uri".toList, quote (attrStr auth.uri)),
    ("response".toList, quote (attrStr auth.response))] ++
  (auth.algorithm.toList.map fun alg => ("algorithm".toList, alg)) ++
  auth.qop.toList.flatMap fun qop => [("qop".toList, qop), ("nc".toList, attrStr auth.nc),
    ("cnonce".toList, quote (attrStr auth.cnonce))]

theorem params_eq (auth : SipAuthorization) :
    auth.params = (auth.knownParams ++ auth.otherparams).map fun p => bareParam p.1 p.2 := by
  unfold params knownParams
  cases auth.algorithm <;> cases auth.qop <;>
    simp [quotedParam, bareParam, quote]

theorem attrStr_unsplit {s : Option Text} (h : ∀ t, s = some t → ',' ∉ t) : ',' ∉ attrStr s := by
  cases s with
  | none => decide
  | some t => exact h t rfl

theorem attrStr_unquoted {s : Option Text} (h : ∀ t, s = some t → '"' ∉ t) : '"' ∉ attrStr s := by
  cases s with
  | none => decide
  | some t => exact h t rfl

theorem mem_knownParams {q : Text × Text} (h : q ∈ auth.knownParams) :
    q.1 ∈ knownNames ∧ ∃ s ∈ auth.known, q.2 = attrStr s ∨ q.2 = quote (attrStr s) := by
  unfold knownParams at h
  simp only [List.mem_append, List.mem_cons, List.not_mem_nil, or_false, List.mem_map,
    List.mem_flatMap, Option.mem_toList] at h
  rcases h with ((rfl | rfl | rfl | rfl | rfl) | ⟨alg, halg, rfl⟩) | ⟨qop, hqop, rfl | rfl | rfl⟩
  · exact ⟨by simp [knownNames], auth.username, by simp [known], .inr rfl⟩
  · exact ⟨by simp [knownNames], auth.realm, by simp [known], .inr rfl⟩
  · exact ⟨by simp [knownNames], auth.nonce, by simp [known], .inr rfl⟩
  · exact ⟨by simp [knownNames], auth.uri, by simp [known], .inr rfl⟩
  · exact ⟨by simp [knownNames], auth.response, by simp [known], .inr rfl⟩
  · exact ⟨by simp [knownNames], auth.algorithm, by simp [known], .inl (by rw [halg]; rfl)⟩
  · exact ⟨by simp [knownNames], auth.qop, by simp [known], .inl (by rw [hqop]; rfl)⟩
  · exact ⟨by simp [knownNames], auth.nc, by simp [known], .inl rfl⟩
  · exact ⟨by simp [knownNames], auth.cnonce, by simp [known], .inr rfl⟩

theorem Unsplit.params (h : Unsplit auth) : ∀ l ∈ auth.params, ',' ∉ l := by
  have hbare {n v : Text} (hn : ',' ∉ n) (hv : ',' ∉ v) : ',' ∉ bareParam n v := by
    simp [bareParam, hn, hv]
  have hquote {v : Text} (hv : ',' ∉ v) : ',' ∉ quote v := by simp [quote, hv]
  have hnames : ∀ n ∈ knownNames, ',' ∉ n := by decide
  intro l hl
  rw [params_eq] at hl
  obtain ⟨q, hq, rfl⟩ := List.mem_map.mp hl
  rcases List.mem_append.mp hq with hq | hq
  · obtain ⟨hn, s, hs, hv⟩ := mem_knownParams hq
    have hattr : ',' ∉ attrStr s := attrStr_unsplit fun t ht => h.known t (ht ▸ hs)
    rcases hv with hv | hv
    · exact hbare (hnames q.1 hn) (hv ▸ hattr)
    · exact hbare (hnames q.1 hn) (hv ▸ hquote hattr)
  · exact hbare (h.others q hq).1 (h.others q hq).2

theorem mapM_pair (ps : List (Text × Text)) :
    (ps.map fun p => bareParam p.1 p.2).mapM pair = some (ps.map readBack) := by
  induction ps with
  | nil => rfl
  | cons p ps ih =>
    rw [List.map_cons, List.mapM_cons, pair_bareParam, ih]
    rfl

def base (auth : SipAuthorization) : SipAuthorization :=
  { username := some (attrStr auth.username), uri := some (attrStr auth.uri),
    realm := some (attrStr auth.realm), nonce := some (attrStr auth.nonce),
    response := some (attrStr auth.response),
    qop := auth.qop.map fun qop => qop.rdropWhile isGap,
    cnonce := auth.qop.map fun _ => attrStr auth.cnonce,
    nc := auth.qop.map fun _ => (attrStr auth.nc).rdropWhile isGap,
    algorithm := auth.algorithm.map fun alg => alg.rdropWhile isGap }

theorem rdropWhile_quote (t : Text) : (quote t).rdropWhile isGap = quote t :=
  List.rdropWhile_concat_neg isGap ('"' :: t) '"' (by decide)

theorem strip_quote (h : '"' ∉ t) : stripBy (fun c => c = '"') (quote t) = t := by
  have hclean : ∀ c ∈ t, decide (c = '"') = false := fun c hc =>
    decide_eq_false fun hq => h (hq ▸ hc)
  cases t with
  | nil => decide
  | cons c t =>
    have hstop := stripBy_stop (p := fun c => decide (c = '"')) (hclean c List.mem_cons_self) ['"']
      (t ++ ['"'])
    have hright : (t ++ ['"']).rdropWhile (fun c => decide (c = '"')) = t := by
      rw [List.rdropWhile_concat_pos _ _ _ (by decide),
        rdropWhile_clean fun d hd => hclean d (List.mem_cons_of_mem c hd)]
    rw [hright] at hstop
    exact hstop

def setText (t : Text) : Text := stripBy (fun c => c = '"') (t.rdropWhile isGap)

theorem setText_quote (h : '"' ∉ t) : setText (quote t) = t := by
  rw [setText, rdropWhile_quote, strip_quote h]

theorem setText_unquoted (h : '"' ∉ t) : setText t = t.rdropWhile isGap :=
  stripBy_clean fun _ hc => decide_eq_false fun hq =>
    h (hq ▸ (List.rdropWhile_prefix isGap t).subset hc)

theorem readBack_known {q : Text × Text} (h : q ∈ auth.knownParams) :
    readBack q = (q.1, q.2.rdropWhile isGap) := by
  have hclean : (knownNames.all fun n => n.all fun c => !isGap c && c != '=') = true := by decide
  obtain ⟨hn, -⟩ := mem_knownParams h
  have hname := List.all_eq_true.mp (List.all_eq_true.mp hclean q.1 hn)
  apply readBack_of_clean
  · intro c hc
    have hc' := hname c hc
    simp only [Bool.and_eq_true, Bool.not_eq_true'] at hc'
    exact hc'.1
  · intro hmem
    exact absurd (hname '=' hmem) (by decide)

theorem foldl_known (auth : SipAuthorization) : (auth.knownParams.map readBack).foldl setParam blank =
    { username := some (setText (quote (attrStr auth.username))),
      uri := some (setText (quote (attrStr auth.uri))),
      realm := some (setText (quote (attrStr auth.realm))),
      nonce := some (setText (quote (attrStr auth.nonce))),
      response := some (setText (quote (attrStr auth.response))),
      qop := auth.qop.map setText,
      cnonce := auth.qop.map fun _ => setText (quote (attrStr auth.cnonce)),
      nc := auth.qop.map fun _ => setText (attrStr auth.nc),
      algorithm := auth.algorithm.map setText } := by
  rw [List.map_congr_left fun q hq => readBack_known hq]
  unfold knownParams
  cases auth.algorithm <;> cases auth.qop <;> rfl

theorem foldl_unquoted (h : Unquoted auth) :
    (auth.knownParams.map readBack).foldl setParam blank = base auth := by
  have hattr {s : Option Text} (hs : s ∈ auth.known) : '"' ∉ attrStr s :=
    attrStr_unquoted fun t ht => h t (ht ▸ hs)
  have hmap {s : Option Text} (hs : s ∈ auth.known) :
      s.map setText = s.map fun t => t.rdropWhile isGap := by
    cases s with
    | none => rfl
    | some t => rw [Option.map_some, Option.map_some, setText_unquoted (h t hs)]
  rw [foldl_known, base, hmap (s := auth.qop) (by simp [known]),
    hmap (s := auth.algorithm) (by simp [known]), setText_unquoted (hattr (by simp [known])),
    setText_quote (hattr (by simp [known])), setText_quote (hattr (by simp [known])),
    setText_quote (hattr (by simp [known])), setText_quote (hattr (by simp [known])),
    setText_quote (hattr (by simp [known])), setText_quote (hattr (by simp [known]))]

theorem parse_str (hquote : Unquoted auth) (hsplit : Unsplit auth) :
    parse (str auth) = some ((auth.otherparams.map readBack).foldl setParam (base auth)) := by
  have hpieces : splitAll ',' ([','].intercalate auth.params) = auth.params :=
    splitAll_intercalate hsplit.params (by rw [params_eq]; simp [knownParams])
  have hrest : (split1 ' ' (str auth)).2 = some ([','].intercalate auth.params) := rfl
  rw [parse, hrest]
  simp only [Option.bind_eq_bind, Option.bind_some]
  rw [hpieces, params_eq, mapM_pair, List.map_append]
  simp only [Option.bind_some, List.foldl_append]
  rw [foldl_unquoted hquote]
  rfl

/-- What a header must be like to come back. -/
structure Printable (auth : SipAuthorization) : Prop where
  present : ∀ s ∈ [auth.username, auth.realm, auth.nonce, auth.uri, auth.response], s.isSome
  counter : auth.nc.isSome = auth.qop.isSome ∧ auth.cnonce.isSome = auth.qop.isSome
  unsplit : Unsplit auth
  bare : ∀ t, some t ∈ [auth.algorithm, auth.qop, auth.nc] → ∀ c ∈ t.getLast?, c ≠ ' '
  names : ∀ p ∈ auth.otherparams, lower p.1 ∉ knownNames ∧ '=' ∉ p.1 ∧ ∀ c ∈ p.1.head?, c ≠ ' '
  values : ∀ p ∈ auth.otherparams, ∀ c ∈ p.2.getLast?, c ≠ ' '

theorem isGap_iff {c : Char} (h : c ≠ ',') : isGap c = false ↔ c ≠ ' ' := by
  simp [isGap, h]

theorem rdropWhile_gap (h : ',' ∉ t) : t.rdropWhile isGap = t ↔ ∀ c ∈ t.getLast?, c ≠ ' ' := by
  rw [rdropWhile_iff]
  have hne {c : Char} (hc : c ∈ t.getLast?) : c ≠ ',' := fun heq => h (heq ▸ List.mem_of_getLast? hc)
  constructor
  · intro hgap c hc
    exact (isGap_iff (hne hc)).mp (hgap c hc)
  · intro hgap c hc
    exact (isGap_iff (hne hc)).mpr (hgap c hc)

theorem dropWhile_gap (h : ',' ∉ t) : t.dropWhile isGap = t ↔ ∀ c ∈ t.head?, c ≠ ' ' := by
  have hrev : t.dropWhile isGap = t ↔ t.reverse.rdropWhile isGap = t.reverse := by
    rw [List.rdropWhile, List.reverse_reverse, List.reverse_inj]
  rw [hrev, rdropWhile_gap (by simpa using h), List.getLast?_reverse]

theorem base_iff (hsplit : Unsplit auth) (os : List (Text × Text)) :
    { base auth with otherparams := os } = auth ↔ auth.otherparams = os ∧
      (∀ s ∈ [auth.username, auth.realm, auth.nonce, auth.uri, auth.response], s.isSome) ∧
      (auth.nc.isSome = auth.qop.isSome ∧ auth.cnonce.isSome = auth.qop.isSome) ∧
      ∀ t, some t ∈ [auth.algorithm, auth.qop, auth.nc] → ∀ c ∈ t.getLast?, c ≠ ' ' := by
  have hattr (s : Option Text) : some (attrStr s) = s ↔ s.isSome := by
    cases s with
    | none => simp
    | some t => simp [attrStr]
  have htrim {s : Option Text} (hs : s ∈ auth.known) :
      s.map (fun t => t.rdropWhile isGap) = s ↔ ∀ t, s = some t → ∀ c ∈ t.getLast?, c ≠ ' ' := by
    cases s with
    | none => simp
    | some t =>
      rw [Option.map_some, Option.some.injEq, rdropWhile_gap (hsplit.known t hs)]
      simp
  have hcnonce : auth.qop.map (fun _ => attrStr auth.cnonce) = auth.cnonce ↔
      auth.cnonce.isSome = auth.qop.isSome := by
    cases auth.qop <;> cases auth.cnonce <;> simp [attrStr]
  have hnc : auth.qop.map (fun _ => (attrStr auth.nc).rdropWhile isGap) = auth.nc ↔
      auth.nc.isSome = auth.qop.isSome ∧ ∀ t, auth.nc = some t → ∀ c ∈ t.getLast?, c ≠ ' ' := by
    rw [← htrim (s := auth.nc) (by simp [known])]
    cases auth.qop <;> cases auth.nc <;> simp [attrStr]
  have hfields : { base auth with otherparams := os } = auth ↔
      some (attrStr auth.username) = auth.username ∧ some (attrStr auth.uri) = auth.uri ∧
      some (attrStr auth.realm) = auth.realm ∧ some (attrStr auth.nonce) = auth.nonce ∧
      some (attrStr auth.response) = auth.response ∧
      auth.qop.map (fun t => t.rdropWhile isGap) = auth.qop ∧
      auth.qop.map (fun _ => attrStr auth.cnonce) = auth.cnonce ∧
      auth.qop.map (fun _ => (attrStr auth.nc).rdropWhile isGap) = auth.nc ∧
      auth.algorithm.map (fun t => t.rdropWhile isGap) = auth.algorithm ∧ os = auth.otherparams := by
    cases auth
    simp only [base, SipAuthorization.mk.injEq]
  rw [hfields, hcnonce, hnc, htrim (s := auth.qop) (by simp [known]),
    htrim (s := auth.algorithm) (by simp [known])]
  simp only [hattr, List.mem_cons, List.not_mem_nil, or_false, forall_eq_or_imp, forall_eq]
  constructor
  · rintro ⟨husername, huri, hrealm, hnonce, hresponse, hqop, hcnonce, ⟨hnc, htail⟩, halg, hos⟩
    refine ⟨hos.symm, ⟨husername, hrealm, hnonce, huri, hresponse⟩, ⟨hnc, hcnonce⟩, ?_⟩
    rintro t (ht | ht | ht)
    · exact halg t ht.symm
    · exact hqop t ht.symm
    · exact htail t ht.symm
  · rintro ⟨hos, ⟨husername, hrealm, hnonce, huri, hresponse⟩, ⟨hnc, hcnonce⟩, hbare⟩
    exact ⟨husername, huri, hrealm, hnonce, hresponse, fun t ht => hbare t (.inr (.inl ht.symm)), hcnonce,
      ⟨hnc, fun t ht => hbare t (.inr (.inr ht.symm))⟩, fun t ht => hbare t (.inl ht.symm), hos.symm⟩

/-- An answer comes back from its text exactly if nothing in it is cut or trimmed. -/
theorem parse_str_iff (h : Unquoted auth) : parse (str auth) = some auth ↔ Printable auth := by
  have hback (hsplit : Unsplit auth) : auth.otherparams.map readBack = auth.otherparams ↔
      ∀ p ∈ auth.otherparams, ('=' ∉ p.1 ∧ ∀ c ∈ p.1.head?, c ≠ ' ') ∧ ∀ c ∈ p.2.getLast?, c ≠ ' ' := by
    have hone (p : Text × Text) (hp : p ∈ auth.otherparams) : readBack p = p ↔
        ('=' ∉ p.1 ∧ ∀ c ∈ p.1.head?, c ≠ ' ') ∧ ∀ c ∈ p.2.getLast?, c ≠ ' ' := by
      rw [← dropWhile_gap (hsplit.others p hp).1, ← rdropWhile_gap (hsplit.others p hp).2, and_assoc]
      exact readBack_iff
    rw [← forall₂_congr hone, ← List.map_inj_left, List.map_id']
  constructor
  · intro hparse
    have hsplit : Unsplit auth := parse_unsplit hparse
    rw [parse_str h hsplit, Option.some.injEq] at hparse
    have hlen : ((auth.otherparams.map readBack).foldl setParam (base auth)).otherparams.length =
        (base auth).otherparams.length + (auth.otherparams.map readBack).length := by
      rw [hparse]
      simp [base]
    have hunknown : ∀ p ∈ auth.otherparams.map readBack, lower p.1 ∉ knownNames :=
      unknown_of_length hlen
    rw [foldl_setParam_unknown hunknown] at hparse
    obtain ⟨hos, hpresent, hcounter, hbare⟩ := (base_iff hsplit _).mp hparse
    have hothers : auth.otherparams.map readBack = auth.otherparams := hos.symm
    rw [hothers] at hunknown
    have hnames := (hback hsplit).mp hothers
    exact ⟨hpresent, hcounter, hsplit, hbare,
      fun p hp => ⟨hunknown p hp, (hnames p hp).1⟩, fun p hp => (hnames p hp).2⟩
  · intro hok
    have hothers : auth.otherparams.map readBack = auth.otherparams :=
      (hback hok.unsplit).mpr fun p hp => ⟨(hok.names p hp).2, hok.values p hp⟩
    have hbase : { base auth with otherparams := (base auth).otherparams ++ auth.otherparams } = auth :=
      (base_iff hok.unsplit _).mpr ⟨rfl, hok.present, hok.counter, hok.bare⟩
    rw [parse_str h hok.unsplit, hothers,
      foldl_setParam_unknown (fun p hp => (hok.names p hp).1) (base auth)]
    exact congrArg some hbase

end SipAuthorization
end SippyB2bua.Security
