import SippyB2bua.Security.AnswerText

/-!
# The text of a challenge

A challenge is read in turns of two: what stands between two quoted texts, and the second of
them. A parameter without quotes stays in what is read until the next quote, and is cut at
the commas then. If no quote follows, the end of its value is trimmed with the text.
-/

namespace SippyB2bua.Security.Challenge
open Lib (Text)
open Lib.Text

structure Attr where
  quoted : Bool
  name : Text
  value : Text

def Attr.text (a : Attr) : Text :=
  if a.quoted then quotedParam a.name a.value else bareParam a.name a.value

def tail (as : List Attr) : Text := as.flatMap fun a => ',' :: a.text

/-- What stands between the quotes and in them; the last text stands after the last quote. -/
def cut (lead : Text) : List Attr → List Text
  | [] => [rstrip lead]
  | a :: as =>
    if a.quoted then (lead ++ ',' :: (a.name ++ ['='])) :: a.value :: cut [] as
    else cut (lead ++ ',' :: bareParam a.name a.value) as

def popLast (parts : List Text) : List Text :=
  if parts.length % 2 ≠ 0 ∧ parts.getLast? = some [] then parts.dropLast else parts

variable {www : Challenge} {a : Attr} {as : List Attr} {lead chunk quoted n v : Text}

theorem cut_ne_nil (lead : Text) (as : List Attr) : cut lead as ≠ [] := by
  induction as generalizing lead with
  | nil => simp [cut]
  | cons a as ih =>
    unfold cut
    split
    · simp
    · exact ih _

theorem cut_length (lead : Text) (as : List Attr) : (cut lead as).length % 2 = 1 := by
  induction as generalizing lead with
  | nil => rfl
  | cons a as ih =>
    unfold cut
    split
    · have hrest := ih []
      rw [List.length_cons, List.length_cons]
      omega
    · exact ih _

theorem popLast_cons (as : List Attr) (lead x y : Text) :
    popLast (x :: y :: cut lead as) = x :: y :: popLast (cut lead as) := by
  have hlen := cut_length lead as
  obtain ⟨z, zs, hcut⟩ := List.exists_cons_of_ne_nil (cut_ne_nil lead as)
  have hlast : (x :: y :: cut lead as).getLast? = (cut lead as).getLast? := by simp [hcut]
  have hdrop : (x :: y :: cut lead as).dropLast = x :: y :: (cut lead as).dropLast := by simp [hcut]
  have hodd : (x :: y :: cut lead as).length % 2 ≠ 0 := by
    rw [List.length_cons, List.length_cons]
    omega
  unfold popLast
  rw [hlast, hdrop]
  simp only [hodd, hlen, ne_eq, not_false_eq_true, true_and, one_ne_zero]
  split <;> rfl

theorem rstrip_quote (s t : Text) : rstrip (s ++ '"' :: t) = s ++ '"' :: rstrip t :=
  rdropWhile_stop (p := isSpace) (by decide) s t

theorem splitAll_tail (hlead : '"' ∉ lead) (has : ∀ a ∈ as, '"' ∉ a.name ∧ '"' ∉ a.value) :
    splitAll '"' (rstrip (lead ++ tail as)) = cut lead as := by
  induction as generalizing lead with
  | nil =>
    have hclean : '"' ∉ rstrip lead := fun h => hlead ((List.rdropWhile_prefix isSpace lead).subset h)
    rw [tail, List.flatMap_nil, List.append_nil, cut, splitAll_of_not_mem hclean]
  | cons a as ih =>
    have hrest : ∀ a ∈ as, '"' ∉ a.name ∧ '"' ∉ a.value := fun b hb => has b (List.mem_cons_of_mem a hb)
    obtain ⟨hname, hvalue⟩ := has a List.mem_cons_self
    unfold cut
    split
    · rename_i hq
      have htext : lead ++ tail (a :: as) =
          (lead ++ ',' :: (a.name ++ ['='])) ++ '"' :: (a.value ++ '"' :: tail as) := by
        simp [tail, Attr.text, hq, quotedParam]
      have hchunk : '"' ∉ lead ++ ',' :: (a.name ++ ['=']) := by simp [hlead, hname]
      have htail : splitAll '"' (rstrip ([] ++ tail as)) = cut [] as := ih List.not_mem_nil hrest
      rw [htext, rstrip_quote, rstrip_quote, splitAll_append hchunk, splitAll_append hvalue]
      exact congrArg _ (congrArg _ htail)
    · rename_i hq
      have htext : lead ++ tail (a :: as) = (lead ++ ',' :: bareParam a.name a.value) ++ tail as := by
        simp [tail, Attr.text, hq]
      rw [htext]
      apply ih _ hrest
      simp [bareParam, hlead, hname, hvalue]

def readAttrs (www : Challenge) (lead : Text) (as : List Attr) : Option Challenge :=
  readParts www (popLast (cut lead as))

@[simp] theorem readAttrs_nil (www : Challenge) : readAttrs www [] [] = some www := rfl

theorem readAttrs_lead (hlead : rstrip lead ≠ []) (www : Challenge) :
    readAttrs www lead [] = ((pieces (rstrip lead) none).mapM pair).map fun ps => ps.foldl setParam www := by
  have hpop : popLast (cut lead []) = [rstrip lead] := by
    unfold popLast cut
    simp [hlead]
  rw [readAttrs, hpop, readParts]
  cases (pieces (rstrip lead) none).mapM pair <;> rfl

theorem readAttrs_quoted (h : a.quoted = true) (www : Challenge) (lead : Text) (as : List Attr) :
    readAttrs www lead (a :: as) = ((pieces (lead ++ ',' :: (a.name ++ ['='])) (some a.value)).mapM
      pair).bind fun ps => readAttrs (ps.foldl setParam www) [] as := by
  unfold readAttrs
  rw [cut, if_pos h, popLast_cons, readParts]
  rfl

theorem readAttrs_bare (h : a.quoted = false) (www : Challenge) (lead : Text) (as : List Attr) :
    readAttrs www lead (a :: as) = readAttrs www (lead ++ ',' :: bareParam a.name a.value) as := by
  have hq : ¬ a.quoted = true := by simp [h]
  rw [readAttrs, cut, if_neg hq, readAttrs]

/-- A name without separators, quotes and white space. -/
structure Token (n : Text) : Prop where
  ne_nil : n ≠ []
  space : ∀ c ∈ n, isSpace c = false
  comma : ',' ∉ n
  equals : '=' ∉ n
  quote : '"' ∉ n

theorem Token.edge (h : Token n) : ∀ c ∈ n, isEdge c = false := by
  intro c hc
  have hspace : c ≠ ' ' := by
    rintro rfl
    exact absurd (h.space ' ' hc) (by decide)
  have hcomma : c ≠ ',' := fun heq => h.comma (heq ▸ hc)
  have hequals : c ≠ '=' := fun heq => h.equals (heq ▸ hc)
  simp [isEdge, hspace, hcomma, hequals]

theorem token_of (hne : n ≠ [])
    (h : (n.all fun c => !isSpace c && c != ',' && c != '=' && c != '"') = true) : Token n := by
  have hall := List.all_eq_true.mp h
  refine ⟨hne, fun c hc => ?_, fun hc => ?_, fun hc => ?_, fun hc => ?_⟩
  · have hc' := hall c hc
    simp only [Bool.and_eq_true, Bool.not_eq_true'] at hc'
    exact hc'.1.1.1
  · exact absurd (hall ',' hc) (by decide)
  · exact absurd (hall '=' hc) (by decide)
  · exact absurd (hall '"' hc) (by decide)

def joinTail (ts : List Text) : Text := ts.flatMap fun t => ',' :: t

theorem joinTail_cons (t : Text) (ts : List Text) :
    joinTail (t :: ts) = ',' :: [','].intercalate (t :: ts) := by
  induction ts generalizing t with
  | nil => simp [joinTail]
  | cons u us ih =>
    have hu := ih u
    rw [List.intercalate_cons_of_ne_nil (List.cons_ne_nil u us)]
    rw [joinTail, List.flatMap_cons, ← joinTail, hu]
    simp

theorem strip_joinTail (ts : List Text) (e : Text)
    (hhead : ∀ c ∈ ([','].intercalate ts).head?, isEdge c = false)
    (hlast : ∀ c ∈ ([','].intercalate ts).getLast?, isEdge c = false) (he : ∀ c ∈ e, isEdge c = true) :
    stripBy isEdge (joinTail ts ++ e) = [','].intercalate ts := by
  have hright : ([','].intercalate ts ++ e).rdropWhile isEdge = [','].intercalate ts := by
    rw [rdropWhile_append, if_pos (List.rdropWhile_eq_nil_iff.mpr he), rdropWhile_iff]
    exact hlast
  have hleft : (joinTail ts ++ e).dropWhile isEdge = ([','].intercalate ts ++ e).dropWhile isEdge := by
    cases ts with
    | nil => rfl
    | cons t ts =>
      rw [joinTail_cons, List.cons_append]
      exact List.dropWhile_cons_of_pos (by decide)
  change ((joinTail ts ++ e).dropWhile isEdge).rdropWhile isEdge = _
  rw [hleft]
  cases hs : [','].intercalate ts with
  | nil =>
    have he' : e.dropWhile isEdge = [] := List.dropWhile_eq_nil_iff.mpr he
    rw [List.nil_append, he', List.rdropWhile_nil]
  | cons c s =>
    rw [hs] at hhead hright
    have hc : isEdge c = false := hhead c rfl
    rw [List.cons_append, List.dropWhile_cons_of_neg (by simp [hc]), ← List.cons_append, hright]

theorem nameValue_bare (hn : Token n) (v : Text) : nameValue (bareParam n v) = [n, rstrip v] := by
  have hstrip : strip (bareParam n v) = n ++ '=' :: rstrip v := by
    have h := stripBy_stop (p := isSpace) (c := '=') (by decide) n v
    rw [dropWhile_clean hn.space] at h
    exact h
  rw [nameValue, hstrip, split1_append hn.equals]

theorem nameValue_token (hn : Token n) : nameValue n = [n] := by
  have hstrip : strip n = n := stripBy_clean hn.space
  rw [nameValue, hstrip, split1_of_not_mem hn.equals]

theorem map_dropLast_append {α β : Type} (f : α → List β) (xs : List α) (x : α) (y : β) :
    ((xs ++ [x]).map f).dropLast ++ [((xs ++ [x]).map f).getLast?.getD [] ++ [y]] =
      xs.map f ++ [f x ++ [y]] := by
  simp

structure Bare (b : Text × Text) : Prop where
  name : Token b.1
  value : ',' ∉ b.2

def bareText (b : Text × Text) : Text := bareParam b.1 b.2

def trimEnd (b : Text × Text) : Text × Text := (b.1, rstrip b.2)

variable {bs : List (Text × Text)}

theorem bareText_comma {b : Text × Text} (h : Bare b) : ',' ∉ bareText b := by
  simp [bareText, bareParam, h.name.comma, h.value]

theorem head_intercalate (hbs : ∀ b ∈ bs, Bare b) {t : Text} (hn : Token n) (ht : n <+: t) :
    ∀ c ∈ ([','].intercalate (bs.map bareText ++ [t])).head?, isEdge c = false := by
  cases bs with
  | nil =>
    obtain ⟨r, rfl⟩ := ht
    rw [List.map_nil, List.nil_append, List.intercalate_singleton]
    cases n with
    | nil => exact absurd rfl hn.ne_nil
    | cons d n => simpa using hn.edge d List.mem_cons_self
  | cons b bs =>
    have hb := (hbs b List.mem_cons_self).name
    rw [List.map_cons, List.cons_append, List.intercalate_cons_of_ne_nil (by simp)]
    unfold bareText bareParam
    cases hname : b.1 with
    | nil => exact absurd hname hb.ne_nil
    | cons d n => simpa using hb.edge d (hname ▸ List.mem_cons_self)

theorem getLast_intercalate (ts : List Text) {t : Text} (ht : t ≠ []) :
    ([','].intercalate (ts ++ [t])).getLast? = t.getLast? := by
  induction ts with
  | nil => rw [List.nil_append, List.intercalate_singleton]
  | cons u us ih =>
    rw [List.cons_append, List.intercalate_cons_of_ne_nil (by simp), List.getLast?_append, ih]
    cases h : t.getLast? with
    | none => exact absurd (List.getLast?_eq_none_iff.mp h) ht
    | some c => rfl

theorem mapM_pair_append (bs : List (Text × Text)) (rest : List (List Text)) :
    ((bs.map fun b => [b.1, rstrip b.2]) ++ rest).mapM pair =
      (rest.mapM pair).map fun ps => bs.map trimEnd ++ ps := by
  induction bs with
  | nil => cases h : rest.mapM pair <;> simp [h]
  | cons b bs ih =>
    rw [List.map_cons, List.cons_append, List.mapM_cons, ih]
    cases rest.mapM pair <;> rfl

theorem splitAll_bare (hbs : ∀ b ∈ bs, Bare b) {t : Text} (ht : ',' ∉ t) :
    splitAll ',' ([','].intercalate (bs.map bareText ++ [t])) = bs.map bareText ++ [t] := by
  apply splitAll_intercalate _ (by simp)
  intro u hu
  rcases List.mem_append.mp hu with hu | hu
  · obtain ⟨b, hb, rfl⟩ := List.mem_map.mp hu
    exact bareText_comma (hbs b hb)
  · rw [List.mem_singleton.mp hu]
    exact ht

theorem pieces_quoted (hbs : ∀ b ∈ bs, Bare b) (hn : Token n) (v : Text) :
    (pieces (joinTail (bs.map bareText) ++ ',' :: (n ++ ['='])) (some v)).mapM pair =
      some (bs.map trimEnd ++ [(n, v)]) := by
  have hchunk : joinTail (bs.map bareText) ++ ',' :: (n ++ ['=']) =
      joinTail (bs.map bareText ++ [n]) ++ ['='] := by
    simp [joinTail]
  have hstrip := strip_joinTail (bs.map bareText ++ [n]) ['=']
    (head_intercalate hbs hn (List.prefix_refl n))
    (by
      rw [getLast_intercalate _ hn.ne_nil]
      exact fun c hc => hn.edge c (List.mem_of_getLast? hc))
    (by simp [isEdge])
  have hnames : (bs.map bareText).map nameValue = bs.map fun b => [b.1, rstrip b.2] := by
    rw [List.map_map]
    exact List.map_congr_left fun b hb => nameValue_bare (hbs b hb).name b.2
  have hpieces : pieces (joinTail (bs.map bareText) ++ ',' :: (n ++ ['='])) (some v) =
      (bs.map fun b => [b.1, rstrip b.2]) ++ [[n, v]] := by
    have h := map_dropLast_append nameValue (bs.map bareText) n v
    rw [nameValue_token hn, hnames] at h
    rw [pieces, hchunk, hstrip, splitAll_bare hbs hn.comma]
    exact h
  rw [hpieces, mapM_pair_append]
  rfl

def endValue (v : Text) : Option Text :=
  let w := (rstrip v).rdropWhile isEdge
  if w = [] then none else some (rstrip w)

theorem pieces_end (hbs : ∀ b ∈ bs, Bare b) (hn : Token n) (hv : ',' ∉ v) :
    (pieces (rstrip (joinTail ((bs ++ [(n, v)]).map bareText))) none).mapM pair =
      (endValue v).map fun w => bs.map trimEnd ++ [(n, w)] := by
  have hnames : (bs.map bareText).map nameValue = bs.map fun b => [b.1, rstrip b.2] := by
    rw [List.map_map]
    exact List.map_congr_left fun b hb => nameValue_bare (hbs b hb).name b.2
  have htext : joinTail ((bs ++ [(n, v)]).map bareText) =
      (joinTail (bs.map bareText) ++ ',' :: n) ++ '=' :: v := by
    simp [joinTail, bareText, bareParam]
  have hright : rstrip (joinTail ((bs ++ [(n, v)]).map bareText)) =
      (joinTail (bs.map bareText) ++ ',' :: n) ++ '=' :: rstrip v := by
    rw [htext]
    exact rdropWhile_stop (p := isSpace) (by decide) _ v
  have hedges : ∀ c ∈ (rstrip v).rtakeWhile isEdge, isEdge c = true :=
    fun c hc => List.mem_rtakeWhile_imp hc
  have hparts : (rstrip v).rdropWhile isEdge ++ (rstrip v).rtakeWhile isEdge = rstrip v :=
    List.rdropWhile_append_rtakeWhile
  rw [hright, endValue]
  by_cases hw : (rstrip v).rdropWhile isEdge = []
  · -- the name stands alone
    have hchunk : (joinTail (bs.map bareText) ++ ',' :: n) ++ '=' :: rstrip v =
        joinTail (bs.map bareText ++ [n]) ++ '=' :: (rstrip v).rtakeWhile isEdge := by
      rw [hw, List.nil_append] at hparts
      simp [joinTail, hparts]
    have hstrip := strip_joinTail (bs.map bareText ++ [n]) ('=' :: (rstrip v).rtakeWhile isEdge)
      (head_intercalate hbs hn (List.prefix_refl n))
      (by
        rw [getLast_intercalate _ hn.ne_nil]
        exact fun c hc => hn.edge c (List.mem_of_getLast? hc))
      (by
        intro c hc
        rcases List.mem_cons.mp hc with rfl | hc
        · decide
        · exact hedges c hc)
    rw [if_pos hw, pieces, hchunk, hstrip, splitAll_bare hbs hn.comma, List.map_append, hnames,
      mapM_pair_append, List.map_singleton, nameValue_token hn]
    rfl
  · have hsub : ((rstrip v).rdropWhile isEdge).Sublist v :=
      (List.rdropWhile_prefix isEdge (rstrip v)).sublist.trans (List.rdropWhile_prefix isSpace v).sublist
    have hcomma : ',' ∉ bareParam n ((rstrip v).rdropWhile isEdge) := by
      have hcomma' : ',' ∉ (rstrip v).rdropWhile isEdge := fun h => hv (hsub.subset h)
      simp [bareParam, hn.comma, hcomma']
    have hchunk : (joinTail (bs.map bareText) ++ ',' :: n) ++ '=' :: rstrip v =
        joinTail (bs.map bareText ++ [bareParam n ((rstrip v).rdropWhile isEdge)]) ++
          (rstrip v).rtakeWhile isEdge := by
      simp [joinTail, bareParam, hparts]
    have hlast : ∀ c ∈ (bareParam n ((rstrip v).rdropWhile isEdge)).getLast?, isEdge c = false := by
      intro c hc
      have hidem : ((rstrip v).rdropWhile isEdge).rdropWhile isEdge = (rstrip v).rdropWhile isEdge :=
        List.rdropWhile_idempotent isEdge _
      apply rdropWhile_iff.mp hidem
      rw [bareParam, List.getLast?_append, List.getLast?_cons] at hc
      cases hl : ((rstrip v).rdropWhile isEdge).getLast? with
      | none => exact absurd (List.getLast?_eq_none_iff.mp hl) hw
      | some d => simpa [hl] using hc
    have hstrip := strip_joinTail (bs.map bareText ++ [bareParam n ((rstrip v).rdropWhile isEdge)])
      ((rstrip v).rtakeWhile isEdge)
      (head_intercalate hbs hn (List.prefix_append n _))
      (by
        rw [getLast_intercalate _ (by simp [bareParam])]
        exact hlast)
      hedges
    rw [if_neg hw, pieces, hchunk, hstrip, splitAll_bare hbs hcomma, List.map_append, hnames,
      mapM_pair_append, List.map_singleton, nameValue_bare hn]
    rfl

def bareAttr (b : Text × Text) : Attr := ⟨false, b.1, b.2⟩
def quotedAttr (q : Text × Text) : Attr := ⟨true, q.1, q.2⟩

variable {qs ps : List (Text × Text)} {p q : Text × Text} {r : Challenge} {parts : List Text}

theorem readAttrs_bares (www : Challenge) (lead : Text) (bs : List (Text × Text)) (as : List Attr) :
    readAttrs www lead (bs.map bareAttr ++ as) =
      readAttrs www (lead ++ joinTail (bs.map bareText)) as := by
  induction bs generalizing lead with
  | nil => simp [joinTail]
  | cons b bs ih =>
    rw [List.map_cons, List.cons_append, readAttrs_bare rfl, ih]
    simp [joinTail, bareText, bareAttr]

theorem readAttrs_mixed (hbs : ∀ b ∈ bs, Bare b) (hq : Token q.1) (as : List Attr) (www : Challenge) :
    readAttrs www [] (bs.map bareAttr ++ quotedAttr q :: as) =
      readAttrs ((bs.map trimEnd ++ [q]).foldl setParam www) [] as := by
  rw [readAttrs_bares, readAttrs_quoted rfl]
  change ((pieces (joinTail (bs.map bareText) ++ ',' :: (q.1 ++ ['='])) (some q.2)).mapM pair).bind _ = _
  rw [pieces_quoted hbs hq]
  rfl

theorem readAttrs_one (hq : Token q.1) (as : List Attr) (www : Challenge) :
    readAttrs www [] (quotedAttr q :: as) = readAttrs (www.setParam q) [] as := by
  have hbs : ∀ b ∈ ([] : List (Text × Text)), Bare b := fun b hb => absurd hb List.not_mem_nil
  exact readAttrs_mixed hbs hq as www

theorem readAttrs_run (hqs : ∀ q ∈ qs, Token q.1) (www : Challenge) :
    readAttrs www [] (qs.map quotedAttr) = some (qs.foldl setParam www) := by
  induction qs generalizing www with
  | nil => rfl
  | cons q qs ih =>
    rw [List.map_cons, readAttrs_one (hqs q List.mem_cons_self),
      ih fun p hp => hqs p (List.mem_cons_of_mem q hp), List.foldl_cons]

theorem readAttrs_last (hbs : ∀ b ∈ bs, Bare b) (hn : Token n) (hv : ',' ∉ v) (www : Challenge) :
    readAttrs www [] ((bs ++ [(n, v)]).map bareAttr) =
      (endValue v).map fun w => (bs.map trimEnd ++ [(n, w)]).foldl setParam www := by
  have hlead : rstrip (joinTail ((bs ++ [(n, v)]).map bareText)) ≠ [] := by
    intro hnil
    have hspace := List.rdropWhile_eq_nil_iff.mp hnil '=' (by simp [joinTail, bareText, bareParam])
    exact absurd hspace (by decide)
  have hbares := readAttrs_bares www [] (bs ++ [(n, v)]) []
  rw [List.append_nil, List.nil_append] at hbares
  rw [hbares, readAttrs_lead hlead, pieces_end hbs hn hv, Option.map_map]
  rfl

def knownNames : List Text :=
  ["realm".toList, "nonce".toList, "algorithm".toList, "qop".toList, "opaque".toList]

theorem setParam_unknown (h : p.1 ∉ knownNames) :
    www.setParam p = { www with otherparams := www.otherparams ++ [p] } := by
  simp only [knownNames, List.mem_cons, List.not_mem_nil, or_false, not_or] at h
  obtain ⟨hrealm, hnonce, halg, hqop, hopaque⟩ := h
  rw [setParam, if_neg hrealm, if_neg hnonce, if_neg halg, if_neg hqop, if_neg hopaque]

theorem foldl_unknown (h : ∀ p ∈ ps, p.1 ∉ knownNames) (www : Challenge) :
    ps.foldl setParam www = { www with otherparams := www.otherparams ++ ps } := by
  induction ps generalizing www with
  | nil => simp
  | cons p ps ih =>
    rw [List.foldl_cons, ih fun q hq => h q (List.mem_cons_of_mem p hq),
      setParam_unknown (h p List.mem_cons_self)]
    simp

/-- What holds of everything that is read: the list of `qop` is cut, the others are unknown. -/
structure Cut (www : Challenge) : Prop where
  qop : ∀ qs ∈ www.qop, ∀ q ∈ qs, ',' ∉ q ∧ strip q = q
  others : ∀ p ∈ www.otherparams, p.1 ∉ knownNames

theorem Cut.setParam (h : Cut www) (p : Text × Text) : Cut (www.setParam p) := by
  unfold Challenge.setParam
  split
  · exact ⟨h.qop, h.others⟩
  split
  · exact ⟨h.qop, h.others⟩
  split
  · exact ⟨h.qop, h.others⟩
  split
  · refine ⟨fun qs hqs q hq => ?_, h.others⟩
    cases hqs
    obtain ⟨x, hx, rfl⟩ := List.mem_map.mp hq
    exact ⟨fun hmem => splitAll_clean hx ((strip_sublist x).subset hmem), strip_strip x⟩
  split
  · exact ⟨h.qop, h.others⟩
  · rename_i hrealm hnonce halg hqop hopaque
    refine ⟨h.qop, fun q hq => ?_⟩
    rcases List.mem_append.mp hq with hq | hq
    · exact h.others q hq
    · rw [List.mem_singleton.mp hq]
      simp only [knownNames, List.mem_cons, List.not_mem_nil, or_false, not_or]
      exact ⟨hrealm, hnonce, halg, hqop, hopaque⟩

theorem Cut.foldl (h : Cut www) (ps : List (Text × Text)) : Cut (ps.foldl Challenge.setParam www) := by
  induction ps generalizing www with
  | nil => exact h
  | cons p ps ih => exact ih (h.setParam p)

theorem Cut.readParts (h : Cut www) (hr : www.readParts parts = some r) : Cut r := by
  induction www, parts using Challenge.readParts.induct with
  | case1 www =>
    cases hr
    exact h
  | case2 www chunk =>
    rw [Challenge.readParts] at hr
    obtain ⟨ps, -, hr⟩ := Option.bind_eq_some_iff.mp hr
    cases hr
    exact h.foldl ps
  | case3 www chunk quoted parts ih =>
    rw [Challenge.readParts] at hr
    obtain ⟨ps, -, hr⟩ := Option.bind_eq_some_iff.mp hr
    exact ih ps (h.foldl ps) hr

theorem parse_cut {body : Text} (h : parse body = some r) : Cut r := by
  obtain ⟨rest, -, h⟩ := Option.bind_eq_some_iff.mp h
  have hblank : Cut blank := ⟨fun qs hqs => absurd hqs (by simp [blank]),
    fun p hp => absurd hp List.not_mem_nil⟩
  exact hblank.readParts h

def OneAlgorithm (www : Challenge) : Prop := ∀ alg ∈ www.algorithm, ',' ∉ alg

theorem OneAlgorithm.setParam (h : OneAlgorithm www) (hp : p.1 = "algorithm".toList → ',' ∉ p.2) :
    OneAlgorithm (www.setParam p) := by
  unfold Challenge.setParam
  split
  · exact h
  split
  · exact h
  split
  · rename_i halg
    intro alg hmem
    cases hmem
    split
    · decide
    · exact hp halg
  split
  · exact h
  split
  · exact h
  · exact h

theorem OneAlgorithm.foldl (h : OneAlgorithm www)
    (hps : ∀ p ∈ ps, p.1 = "algorithm".toList → ',' ∉ p.2) :
    OneAlgorithm (ps.foldl Challenge.setParam www) := by
  induction ps generalizing www with
  | nil => exact h
  | cons p ps ih =>
    exact ih (h.setParam (hps p List.mem_cons_self)) fun q hq => hps q (List.mem_cons_of_mem p hq)

theorem pair_nameValue {x : Text} (hx : ',' ∉ x) (h : pair (nameValue x) = some p) : ',' ∉ p.2 := by
  unfold nameValue at h
  split at h
  · rename_i name value hsplit
    cases h
    have hsub := strip_sublist x
    rw [split1_eq hsplit] at hsub
    exact fun hmem => hx (hsub.subset (List.mem_append_right _ (List.mem_cons_of_mem _ hmem)))
  · exact absurd h (by simp [pair])

theorem splitAll_chunk (hn : Token n) (lead : Text) :
    (splitAll ',' (stripBy isEdge (lead ++ ',' :: (n ++ ['='])))).getLast? = some n := by
  have hright : (n ++ ['=']).rdropWhile isEdge = n := by
    rw [List.rdropWhile_concat_pos _ _ _ (by decide), rdropWhile_clean hn.edge]
  have hleft : (n ++ ['=']).dropWhile isEdge = n ++ ['='] := by
    cases n with
    | nil => exact absurd rfl hn.ne_nil
    | cons c n => exact List.dropWhile_cons_of_neg (by simp [hn.edge c List.mem_cons_self])
  have hcomma : (',' :: (n ++ ['='])).dropWhile isEdge = n ++ ['='] := by
    rw [List.dropWhile_cons_of_pos (by decide), hleft]
  change (splitAll ',' (((lead ++ ',' :: (n ++ ['='])).dropWhile isEdge).rdropWhile isEdge)).getLast? = _
  rw [List.dropWhile_append]
  split
  · rw [hcomma, hright, splitAll_of_not_mem hn.comma]
    rfl
  · have hrest : (lead.dropWhile isEdge ++ ',' :: (n ++ ['='])).rdropWhile isEdge =
        lead.dropWhile isEdge ++ ',' :: n := by
      rw [← List.singleton_append, ← List.append_assoc, rdropWhile_append, hright, if_neg hn.ne_nil]
      simp
    obtain ⟨u, us, hsplit⟩ := splitAll_end hn.comma (lead.dropWhile isEdge)
    rw [hrest, hsplit]
    exact List.getLast?_concat

theorem pieces_value (h : (pieces chunk none).mapM pair = some ps) (hp : p ∈ ps) : ',' ∉ p.2 := by
  obtain ⟨x, hx, hpair⟩ := Lib.mem_mapM h hp
  obtain ⟨y, hy, rfl⟩ := List.mem_map.mp hx
  exact pair_nameValue (splitAll_clean hy) hpair

/-- Only what has quotes has commas, and only the name before a quote has quotes. -/
theorem pieces_value_quoted (hn : Token n)
    (h : (pieces (lead ++ ',' :: (n ++ ['='])) (some v)).mapM pair = some ps) (hp : p ∈ ps) :
    ',' ∉ p.2 ∨ p.1 = n := by
  obtain ⟨x, hx, hpair⟩ := Lib.mem_mapM h hp
  unfold pieces at hx
  dsimp only at hx
  rcases List.mem_append.mp hx with hx | hx
  · obtain ⟨y, hy, rfl⟩ := List.mem_map.mp (List.dropLast_subset _ hx)
    exact .inl (pair_nameValue (splitAll_clean hy) hpair)
  · rw [List.getLast?_map, splitAll_chunk hn, Option.map_some, Option.getD_some, nameValue_token hn] at hx
    rw [List.mem_singleton.mp hx] at hpair
    cases hpair
    exact .inr rfl

theorem readAttrs_algorithm
    (has : ∀ a ∈ as, a.quoted = true → Token a.name ∧ a.name ≠ "algorithm".toList)
    (hr : readAttrs www lead as = some r) (hwww : OneAlgorithm www) : OneAlgorithm r := by
  induction as generalizing www lead with
  | nil =>
    by_cases hlead : rstrip lead = []
    · have hpop : readAttrs www lead [] = some www := by
        rw [readAttrs, cut, hlead]
        rfl
      rw [hpop] at hr
      cases hr
      exact hwww
    · rw [readAttrs_lead hlead] at hr
      obtain ⟨ps, hps, rfl⟩ := Option.map_eq_some_iff.mp hr
      exact hwww.foldl fun p hp _ => pieces_value hps hp
  | cons a as ih =>
    have hrest : ∀ b ∈ as, b.quoted = true → Token b.name ∧ b.name ≠ "algorithm".toList :=
      fun b hb => has b (List.mem_cons_of_mem a hb)
    cases hq : a.quoted with
    | false =>
      rw [readAttrs_bare hq] at hr
      exact ih hrest hr hwww
    | true =>
      obtain ⟨hn, hne⟩ := has a List.mem_cons_self hq
      rw [readAttrs_quoted hq] at hr
      obtain ⟨ps, hps, hr⟩ := Option.bind_eq_some_iff.mp hr
      apply ih hrest hr
      apply hwww.foldl
      intro p hp halg
      rcases pieces_value_quoted hn hps hp with h | h
      · exact h
      · exact absurd (h ▸ halg) hne

/-- The first list that a text without quotes gives for `qop`. -/
def bareQop : Option (List Text) → Option Text
  | some [q] => some q
  | _ => none

def quotedQop : Option (List Text) → Option Text
  | some (q :: q' :: qs) => some ([','].intercalate (q :: q' :: qs))
  | _ => none

def bareParams (www : Challenge) : List (Text × Text) :=
  ((bareQop www.qop).toList.map fun q => ("qop".toList, q)) ++
    www.algorithm.toList.map fun alg => ("algorithm".toList, alg)

def quotedParams (www : Challenge) : List (Text × Text) :=
  (www.opaqueValue.toList.map fun value => ("opaque".toList, value)) ++ www.otherparams

def attrs (www : Challenge) : List Attr :=
  quotedAttr ("nonce".toList, attrStr www.nonce) ::
    (((quotedQop www.qop).toList.map fun q => quotedAttr ("qop".toList, q)) ++
      ((bareParams www).map bareAttr ++ (quotedParams www).map quotedAttr))

theorem intercalate_eq_tail (t : Text) (as : List Attr) :
    [','].intercalate (t :: as.map Attr.text) = t ++ tail as := by
  induction as generalizing t with
  | nil => simp [tail]
  | cons a as ih =>
    rw [List.map_cons, List.intercalate_cons_of_ne_nil (List.cons_ne_nil _ _), ih]
    simp [tail]

theorem str_eq (h : www.qop ≠ some []) :
    www.str = some (scheme ++ (quotedParam "realm".toList (attrStr www.realm) ++ tail (attrs www))) := by
  have hparams : www.params =
      some (quotedParam "realm".toList (attrStr www.realm) :: (attrs www).map Attr.text) := by
    unfold params attrs bareParams quotedParams
    cases hqop : www.qop with
    | none => simp [quotedQop, bareQop, quotedAttr, bareAttr, Attr.text, Function.comp_def]
    | some qs =>
      rcases qs with _ | ⟨q, _ | ⟨q', qs⟩⟩
      · exact absurd hqop h
      · simp [quotedQop, bareQop, quotedAttr, bareAttr, Attr.text, qopParam, Function.comp_def]
      · simp [quotedQop, bareQop, quotedAttr, bareAttr, Attr.text, qopParam, Function.comp_def]
  rw [str, hparams, Option.map_some, intercalate_eq_tail]

theorem str_none (h : www.qop = some []) : www.str = none := by
  simp [str, params, h, qopParam]

theorem parse_tail {realm : Text} (hrealm : '"' ∉ realm) (has : ∀ a ∈ as, '"' ∉ a.name ∧ '"' ∉ a.value) :
    parse (scheme ++ (quotedParam "realm".toList realm ++ tail as)) =
      readAttrs (blank.setParam ("realm".toList, realm)) [] as := by
  have hrest : (split1 ' ' (scheme ++ (quotedParam "realm".toList realm ++ tail as))).2 =
      some (quotedParam "realm".toList realm ++ tail as) := rfl
  have htext : quotedParam "realm".toList realm ++ tail as =
      "realm=".toList ++ '"' :: (realm ++ '"' :: tail as) := by
    simp [quotedParam]
  have hleft : lstrip ("realm=".toList ++ '"' :: (realm ++ '"' :: tail as)) =
      "realm=".toList ++ '"' :: (realm ++ '"' :: tail as) := lstrip_of_head (by decide)
  have hsplit : splitAll '"' (strip (quotedParam "realm".toList realm ++ tail as)) =
      "realm=".toList :: realm :: cut [] as := by
    have htail : splitAll '"' (rstrip ([] ++ tail as)) = cut [] as := splitAll_tail List.not_mem_nil has
    rw [List.nil_append] at htail
    rw [htext, strip, hleft, rstrip_quote, rstrip_quote, splitAll_append (by decide),
      splitAll_append hrealm, htail]
  have hpop := popLast_cons as [] "realm=".toList realm
  unfold parse
  rw [hrest]
  simp only [Option.bind_eq_bind, Option.bind_some]
  change readParts blank (popLast (splitAll '"' (strip (quotedParam "realm".toList realm ++ tail as)))) = _
  rw [hsplit, hpop, readParts]
  rfl

/-- `[x.strip() for x in value.split(',')]`. -/
def qopList (value : Text) : List Text := (splitAll ',' value).map strip

def algName (value : Text) : Text := if value = "md5".toList then "MD5".toList else value

def head (www : Challenge) : Challenge :=
  { realm := some (attrStr www.realm), nonce := some (attrStr www.nonce),
    qop := (quotedQop www.qop).map qopList, algorithm := none, opaqueValue := none, otherparams := [] }

theorem readAttrs_attrs (www : Challenge) :
    readAttrs (blank.setParam ("realm".toList, attrStr www.realm)) [] (attrs www) =
      readAttrs (head www) [] ((bareParams www).map bareAttr ++ (quotedParams www).map quotedAttr) := by
  have hnonce : Token "nonce".toList := token_of (by decide) (by decide)
  have hqop : Token "qop".toList := token_of (by decide) (by decide)
  rw [attrs, readAttrs_one hnonce]
  cases hq : quotedQop www.qop with
  | none =>
    rw [Option.toList_none, List.map_nil, List.nil_append, head, hq]
    rfl
  | some value =>
    rw [Option.toList_some, List.map_singleton, List.singleton_append, readAttrs_one hqop, head, hq]
    rfl

/-- What the parameters without quotes, as they were read, and the rest make of it. -/
theorem foldl_params (hnames : ∀ p ∈ www.otherparams, p.1 ∉ knownNames) (q alg : Option Text) :
    ((q.toList.map fun q => ("qop".toList, q)) ++ (alg.toList.map fun alg => ("algorithm".toList, alg)) ++
        quotedParams www).foldl setParam (head www) =
      { head www with
        qop := (q.map qopList).or (head www).qop, algorithm := alg.map algName,
        opaqueValue := www.opaqueValue, otherparams := www.otherparams } := by
  rw [quotedParams, List.foldl_append, List.foldl_append, List.foldl_append, foldl_unknown hnames]
  cases q <;> cases alg <;> cases www.opaqueValue <;> rfl

theorem algName_iff {w alg : Text} (h : w <+: alg) :
    algName w = alg ↔ w = alg ∧ alg ≠ "md5".toList := by
  unfold algName
  split
  · rename_i hw
    constructor
    · intro heq
      rw [hw, ← heq] at h
      exact absurd h (by decide)
    · rintro ⟨heq, hne⟩
      exact absurd (heq ▸ hw) hne
  · rename_i hw
    constructor
    · rintro rfl
      exact ⟨rfl, hw⟩
    · exact fun heq => heq.1

theorem qopList_single {q : Text} (h : ',' ∉ q) : qopList q = [strip q] := by
  rw [qopList, splitAll_of_not_mem h, List.map_singleton]

/-- What a list of `qop` must be like to come back. -/
def Listed (qop : Option (List Text)) : Prop :=
  ∀ qs ∈ qop, qs ≠ [] ∧ ∀ q ∈ qs, ',' ∉ q ∧ strip q = q

theorem qop_iff {qop : Option (List Text)} (h : Listed qop) {f : Text → Text}
    (hf : ∀ q, f q <+: q) : ((bareQop qop).map fun q => qopList (f q)).or ((quotedQop qop).map qopList) = qop ↔
      ∀ q ∈ bareQop qop, f q = q := by
  cases qop with
  | none => simp [bareQop, quotedQop]
  | some qs =>
    obtain ⟨hne, hclean⟩ := h qs rfl
    rcases qs with _ | ⟨q, _ | ⟨q', qs⟩⟩
    · exact absurd rfl hne
    · obtain ⟨hcomma, hstrip⟩ := hclean q List.mem_cons_self
      have hcomma' : ',' ∉ f q := fun hmem => hcomma ((hf q).subset hmem)
      simp only [bareQop, quotedQop, Option.map_some, Option.map_none, Option.or_none, Option.some.injEq,
        Option.mem_def, forall_eq']
      rw [qopList_single hcomma', List.cons.injEq]
      constructor
      · intro heq
        have hle := (strip_sublist (f q)).length_le
        rw [heq.1] at hle
        exact (hf q).eq_of_length_le hle
      · intro heq
        rw [heq]
        exact ⟨hstrip, rfl⟩
    · have hsplit : qopList ([','].intercalate (q :: q' :: qs)) = q :: q' :: qs := by
        rw [qopList, splitAll_intercalate (fun t ht => (hclean t ht).1) (by simp)]
        exact (List.map_congr_left fun t ht => (hclean t ht).2).trans (List.map_id' _)
      simp only [bareQop, quotedQop, Option.map_none, Option.none_or, Option.map_some, hsplit]
      simp

theorem foldl_iff (hlisted : Listed www.qop) (hnames : ∀ p ∈ www.otherparams, p.1 ∉ knownNames)
    {f g : Text → Text} (hf : ∀ q, f q <+: q) (hg : ∀ alg, g alg <+: alg) :
    ((((bareQop www.qop).map f).toList.map fun q => ("qop".toList, q)) ++
        ((www.algorithm.map g).toList.map fun alg => ("algorithm".toList, alg)) ++
        quotedParams www).foldl setParam (head www) = www ↔
      www.realm.isSome ∧ www.nonce.isSome ∧ (∀ q ∈ bareQop www.qop, f q = q) ∧
        ∀ alg ∈ www.algorithm, g alg = alg ∧ alg ≠ "md5".toList := by
  have hattr (s : Option Text) : some (attrStr s) = s ↔ s.isSome := by
    cases s with
    | none => simp
    | some t => simp [attrStr]
  have halg : (www.algorithm.map g).map algName = www.algorithm ↔
      ∀ alg ∈ www.algorithm, g alg = alg ∧ alg ≠ "md5".toList := by
    cases www.algorithm with
    | none => simp
    | some alg =>
      rw [Option.map_some, Option.map_some, Option.some.injEq, algName_iff (hg alg)]
      simp
  have hqop := qop_iff hlisted hf
  have hfields (q alg : Option Text) :
      { head www with
        qop := (q.map qopList).or (head www).qop, algorithm := alg.map algName,
        opaqueValue := www.opaqueValue, otherparams := www.otherparams } = www ↔
      some (attrStr www.realm) = www.realm ∧ some (attrStr www.nonce) = www.nonce ∧
        (q.map qopList).or ((quotedQop www.qop).map qopList) = www.qop ∧
        alg.map algName = www.algorithm := by
    obtain ⟨⟨realm, nonce, qop, algorithm, opaqueValue⟩, otherparams⟩ := www
    simp [head]
  rw [foldl_params hnames, hfields, hattr, hattr, halg, Option.map_map, ← hqop]
  rfl

theorem endValue_iff (hv : ',' ∉ v) :
    endValue v = some v ↔ rstrip v = v ∧ v ≠ [] ∧ v.getLast? ≠ some '=' := by
  unfold endValue
  constructor
  · intro h
    dsimp only at h
    split at h
    · exact absurd h (by simp)
    · rename_i hne
      have hw := Option.some.inj h
      have h₁ : (rstrip v).length ≤ v.length := rdropWhile_length v
      have h₂ : ((rstrip v).rdropWhile isEdge).length ≤ (rstrip v).length := rdropWhile_length _
      have h₃ : (rstrip ((rstrip v).rdropWhile isEdge)).length ≤ ((rstrip v).rdropWhile isEdge).length :=
        rdropWhile_length _
      rw [hw] at h₃
      have hlen : v.length ≤ (rstrip v).length := by omega
      have hright : rstrip v = v := (List.rdropWhile_prefix isSpace v).eq_of_length_le hlen
      have hedge : v.rdropWhile isEdge = v := by
        rw [hright] at h₂ h₃
        exact (List.rdropWhile_prefix isEdge v).eq_of_length_le h₃
      refine ⟨hright, fun hnil => hne (by rw [hright, hedge, hnil]), fun hlast => ?_⟩
      exact absurd (rdropWhile_iff.mp hedge '=' hlast) (by decide)
  · rintro ⟨hright, hne, hlast⟩
    have hedge : v.rdropWhile isEdge = v := by
      apply rdropWhile_iff.mpr
      intro c hc
      have hspace : c ≠ ' ' := by
        rintro rfl
        exact absurd (rstrip_iff.mp hright ' ' hc) (by decide)
      have hcomma : c ≠ ',' := fun heq => hv (heq ▸ List.mem_of_getLast? hc)
      have hequals : c ≠ '=' := fun heq => hlast (heq ▸ hc)
      simp [isEdge, hspace, hcomma, hequals]
    dsimp only
    rw [hright, hedge, if_neg hne, hright]

def endText (v : Text) : Text := (endValue v).getD []

theorem endText_prefix (v : Text) : endText v <+: v := by
  unfold endText endValue
  dsimp only
  split
  · exact List.nil_prefix
  · exact (List.rdropWhile_prefix isSpace _).trans
      ((List.rdropWhile_prefix isEdge _).trans (List.rdropWhile_prefix isSpace v))

/-- No value of a challenge has a double quote. -/
structure Unquoted (www : Challenge) : Prop where
  values : ∀ t, some t ∈ [www.realm, www.nonce, www.algorithm, www.opaqueValue] → '"' ∉ t
  qop : ∀ qs ∈ www.qop, ∀ q ∈ qs, '"' ∉ q
  others : ∀ p ∈ www.otherparams, '"' ∉ p.2

/-- What a challenge must be like to come back. -/
structure Printable (www : Challenge) : Prop where
  realm : www.realm.isSome
  nonce : www.nonce.isSome
  qop : Listed www.qop
  algorithm : ∀ alg ∈ www.algorithm, ',' ∉ alg ∧ rstrip alg = alg ∧ alg ≠ "md5".toList
  names : ∀ p ∈ www.otherparams, p.1 ∉ knownNames
  last : quotedParams www = [] → ∀ p ∈ (bareParams www).getLast?, p.2 ≠ [] ∧ p.2.getLast? ≠ some '='

theorem trimEnd_bareParams (www : Challenge) : (bareParams www).map trimEnd =
    (((bareQop www.qop).map rstrip).toList.map fun q => ("qop".toList, q)) ++
      (www.algorithm.map rstrip).toList.map fun alg => ("algorithm".toList, alg) := by
  unfold bareParams
  cases bareQop www.qop <;> cases www.algorithm <;> rfl

theorem mem_bareParams (h : p ∈ bareParams www) :
    (p.1 = "qop".toList ∧ p.2 ∈ bareQop www.qop) ∨
      (p.1 = "algorithm".toList ∧ p.2 ∈ www.algorithm) := by
  simp only [bareParams, List.mem_append, List.mem_map, Option.mem_toList] at h
  rcases h with ⟨q, hq, rfl⟩ | ⟨alg, halg, rfl⟩
  · exact .inl ⟨rfl, hq⟩
  · exact .inr ⟨rfl, halg⟩

theorem bareQop_mem {qop : Option (List Text)} {q : Text} (h : q ∈ bareQop qop) : qop = some [q] := by
  unfold bareQop at h
  split at h
  · cases h
    rfl
  · exact absurd h (by simp)

theorem bare_bareParams (hlisted : Listed www.qop) (halg : OneAlgorithm www) :
    ∀ b ∈ bareParams www, Bare b := by
  intro b hb
  rcases mem_bareParams hb with ⟨hname, hq⟩ | ⟨hname, hmem⟩
  · have hclean := ((hlisted _ (bareQop_mem hq)).2 b.2 List.mem_cons_self).1
    exact ⟨hname ▸ token_of (by decide) (by decide), hclean⟩
  · exact ⟨hname ▸ token_of (by decide) (by decide), halg b.2 hmem⟩

theorem token_quotedParams (htokens : ∀ p ∈ www.otherparams, Token p.1) :
    ∀ q ∈ quotedParams www, Token q.1 := by
  intro q hq
  rcases List.mem_append.mp hq with hq | hq
  · obtain ⟨value, -, rfl⟩ := List.mem_map.mp hq
    have hopaque : Token "opaque".toList := token_of (by decide) (by decide)
    exact hopaque
  · exact htokens q hq

theorem rstrip_bareQop (hlisted : Listed www.qop) {q : Text} (hq : q ∈ bareQop www.qop) : ',' ∉ q ∧ rstrip q = q := by
  obtain ⟨hcomma, hstrip⟩ := (hlisted _ (bareQop_mem hq)).2 q List.mem_cons_self
  exact ⟨hcomma, rstrip_iff.mpr (strip_iff.mp hstrip).2⟩

section Joined
variable (hlisted : Listed www.qop) (halg : OneAlgorithm www)
  (hnames : ∀ p ∈ www.otherparams, p.1 ∉ knownNames)
include hlisted halg hnames

theorem readAttrs_before {qs : List (Text × Text)} (hqs : quotedParams www = q :: qs)
    (hquoted : ∀ p ∈ quotedParams www, Token p.1) :
    readAttrs (head www) [] ((bareParams www).map bareAttr ++ (quotedParams www).map quotedAttr) = some www ↔
      Printable www := by
  have hrest : ∀ p ∈ qs, Token p.1 := fun p hp => hquoted p (hqs ▸ List.mem_cons_of_mem q hp)
  have hread : readAttrs (head www) [] ((bareParams www).map bareAttr ++ (quotedParams www).map quotedAttr) =
      some (((bareParams www).map trimEnd ++ quotedParams www).foldl setParam (head www)) := by
    rw [hqs, List.map_cons, readAttrs_mixed (bare_bareParams hlisted halg) (hquoted q (hqs ▸ List.mem_cons_self)),
      readAttrs_run hrest, ← List.foldl_append, List.append_assoc, List.singleton_append]
  have hiff := foldl_iff hlisted hnames (f := rstrip) (g := rstrip)
    (List.rdropWhile_prefix isSpace) (List.rdropWhile_prefix isSpace)
  rw [hread, trimEnd_bareParams, Option.some.injEq, hiff]
  constructor
  · rintro ⟨hrealm, hnonce, -, halg'⟩
    exact ⟨hrealm, hnonce, hlisted, fun alg h => ⟨halg alg h, halg' alg h⟩, hnames,
      fun hnil => absurd (hqs ▸ hnil) (List.cons_ne_nil q qs)⟩
  · intro h
    exact ⟨h.realm, h.nonce, fun q hq => (rstrip_bareQop hlisted hq).2,
      fun alg hmem => (h.algorithm alg hmem).2⟩

theorem readAttrs_algorithm_last {alg : Text} (hqs : quotedParams www = []) (hsome : www.algorithm = some alg) :
    readAttrs (head www) [] ((bareParams www).map bareAttr) = some www ↔ Printable www := by
  have hcomma : ',' ∉ alg := halg alg hsome
  have hparams : bareParams www =
      ((bareQop www.qop).toList.map fun q => ("qop".toList, q)) ++ [("algorithm".toList, alg)] := by
    rw [bareParams, hsome]
    rfl
  have hbs : ∀ b ∈ (bareQop www.qop).toList.map fun q => ("qop".toList, q), Bare b := fun b hb =>
    bare_bareParams hlisted halg b (hparams ▸ List.mem_append_left _ hb)
  have hiff := foldl_iff hlisted hnames (f := rstrip) (g := endText)
    (List.rdropWhile_prefix isSpace) endText_prefix
  rw [hqs, List.append_nil, hsome] at hiff
  have htrim : ((bareQop www.qop).toList.map fun q => ("qop".toList, q)).map trimEnd =
      ((bareQop www.qop).map rstrip).toList.map fun q => ("qop".toList, q) := by
    cases bareQop www.qop <;> rfl
  rw [hparams, readAttrs_last hbs (token_of (by decide) (by decide)) hcomma, htrim, Option.map_eq_some_iff]
  have hlast : (∀ p ∈ (bareParams www).getLast?, p.2 ≠ [] ∧ p.2.getLast? ≠ some '=') ↔
      alg ≠ [] ∧ alg.getLast? ≠ some '=' := by
    rw [hparams]
    simp
  constructor
  · rintro ⟨w, hw, hfold⟩
    have hend : endText alg = w := by rw [endText, hw, Option.getD_some]
    rw [← hend] at hfold
    obtain ⟨hrealm, hnonce, -, halg'⟩ := hiff.mp hfold
    obtain ⟨heq, hmd5⟩ := halg' alg rfl
    rw [← hend, heq] at hw
    obtain ⟨hright, hne, hchar⟩ := (endValue_iff hcomma).mp hw
    refine ⟨hrealm, hnonce, hlisted, fun alg' h => ?_, hnames, fun _ => hlast.mpr ⟨hne, hchar⟩⟩
    cases hsome.symm.trans h
    exact ⟨hcomma, hright, hmd5⟩
  · intro h
    obtain ⟨-, hright, hmd5⟩ := h.algorithm alg hsome
    obtain ⟨hne, hchar⟩ := hlast.mp (h.last hqs)
    have hvalue : endValue alg = some alg := (endValue_iff hcomma).mpr ⟨hright, hne, hchar⟩
    have hend : endText alg = alg := by rw [endText, hvalue, Option.getD_some]
    refine ⟨endText alg, by rw [hvalue, hend], hiff.mpr ⟨h.realm, h.nonce,
      fun q hq => (rstrip_bareQop hlisted hq).2, fun alg' hmem => ?_⟩⟩
    cases hmem
    exact ⟨hend, hmd5⟩

omit halg in
/-- The text ends with `qop`. -/
theorem readAttrs_qop_last {qop : Text} (hqs : quotedParams www = []) (hnone : www.algorithm = none)
    (hsome : bareQop www.qop = some qop) :
    readAttrs (head www) [] ((bareParams www).map bareAttr) = some www ↔ Printable www := by
  obtain ⟨hcomma, hright⟩ := rstrip_bareQop hlisted hsome
  have hparams : bareParams www = [] ++ [("qop".toList, qop)] := by
    rw [bareParams, hsome, hnone]
    rfl
  have hiff := foldl_iff hlisted hnames (f := endText) (g := rstrip) endText_prefix
    (List.rdropWhile_prefix isSpace)
  rw [hqs, List.append_nil, hsome, hnone, Option.map_none, Option.toList_none, List.map_nil,
    List.append_nil] at hiff
  rw [hparams, readAttrs_last (fun b hb => absurd hb List.not_mem_nil) (token_of (by decide) (by decide)) hcomma,
    Option.map_eq_some_iff]
  have hlast : (∀ p ∈ (bareParams www).getLast?, p.2 ≠ [] ∧ p.2.getLast? ≠ some '=') ↔
      qop ≠ [] ∧ qop.getLast? ≠ some '=' := by
    rw [hparams]
    simp
  constructor
  · rintro ⟨w, hw, hfold⟩
    have hend : endText qop = w := by rw [endText, hw, Option.getD_some]
    rw [← hend] at hfold
    obtain ⟨hrealm, hnonce, hqop, -⟩ := hiff.mp hfold
    rw [← hend, hqop qop rfl] at hw
    obtain ⟨-, hne, hchar⟩ := (endValue_iff hcomma).mp hw
    exact ⟨hrealm, hnonce, hlisted, fun alg h => absurd (hnone.symm.trans h) (by simp), hnames,
      fun _ => hlast.mpr ⟨hne, hchar⟩⟩
  · intro h
    obtain ⟨hne, hchar⟩ := hlast.mp (h.last hqs)
    have hvalue : endValue qop = some qop := (endValue_iff hcomma).mpr ⟨hright, hne, hchar⟩
    have hend : endText qop = qop := by rw [endText, hvalue, Option.getD_some]
    refine ⟨endText qop, by rw [hvalue, hend], hiff.mpr ⟨h.realm, h.nonce, fun q hq => ?_,
      fun alg hmem => absurd hmem (by simp)⟩⟩
    cases hq
    exact hend

/-- What is read of a challenge in which everything is cut as it was joined. -/
theorem readAttrs_iff (htokens : ∀ p ∈ www.otherparams, Token p.1) :
    readAttrs (head www) [] ((bareParams www).map bareAttr ++ (quotedParams www).map quotedAttr) = some www ↔
      Printable www := by
  cases hqs : quotedParams www with
  | cons q qs => exact hqs ▸ readAttrs_before hlisted halg hnames hqs (token_quotedParams htokens)
  | nil =>
    rw [List.map_nil, List.append_nil]
    cases hsome : www.algorithm with
    | some alg => exact readAttrs_algorithm_last hlisted halg hnames hqs hsome
    | none =>
      cases hq : bareQop www.qop with
      | some qop => exact readAttrs_qop_last hlisted hnames hqs hsome hq
      | none =>
        have hparams : bareParams www = [] := by
          rw [bareParams, hq, hsome]
          rfl
        have hiff := foldl_iff hlisted hnames (f := id) (g := id) List.prefix_refl List.prefix_refl
        rw [hqs, hq, hsome] at hiff
        rw [hparams, List.map_nil, readAttrs_nil, Option.some.injEq]
        refine Iff.trans hiff ⟨?_, ?_⟩
        · rintro ⟨hrealm, hnonce, -, -⟩
          exact ⟨hrealm, hnonce, hlisted, fun alg h => absurd (hsome.symm.trans h) (by simp), hnames,
            fun _ p hp => absurd hp (by simp [hparams])⟩
        · intro h
          exact ⟨h.realm, h.nonce, fun q hq => absurd hq (by simp), fun alg hmem => absurd hmem (by simp)⟩

end Joined

theorem quotedQop_unquoted (h : Unquoted www) {q : Text} (hq : q ∈ quotedQop www.qop) : '"' ∉ q := by
  unfold quotedQop at hq
  split at hq
  · rename_i q₁ q₂ qs hqop
    cases hq
    exact not_mem_intercalate (by decide) fun t ht => h.qop _ hqop t ht
  · exact absurd hq (by simp)

/-- A challenge comes back from its text exactly if nothing in it is cut or trimmed. -/
theorem parse_str_iff (hquote : Unquoted www) (htokens : ∀ p ∈ www.otherparams, Token p.1) :
    www.str.bind parse = some www ↔ Printable www := by
  by_cases hqop : www.qop = some []
  · rw [str_none hqop]
    constructor
    · exact fun h => absurd h (by simp)
    · exact fun h => absurd rfl (h.qop [] hqop).1
  · have hattr {s : Option Text} (hs : s ∈ [www.realm, www.nonce, www.algorithm, www.opaqueValue]) :
        '"' ∉ attrStr s := by
      cases s with
      | none => decide
      | some t => exact hquote.values t hs
    have has : ∀ a ∈ attrs www, '"' ∉ a.name ∧ '"' ∉ a.value := by
      intro a ha
      simp only [attrs, List.mem_cons, List.mem_append, List.mem_map, Option.mem_toList] at ha
      rcases ha with rfl | ⟨q, hq, rfl⟩ | ⟨b, hb, rfl⟩ | ⟨q, hq, rfl⟩
      · exact ⟨by simp [quotedAttr], hattr (by simp)⟩
      · exact ⟨by simp [quotedAttr], quotedQop_unquoted hquote hq⟩
      · rcases mem_bareParams hb with ⟨hname, hmem⟩ | ⟨hname, hmem⟩
        · refine ⟨?_, hquote.qop _ (bareQop_mem hmem) b.2 List.mem_cons_self⟩
          simp [bareAttr, hname]
        · refine ⟨?_, hquote.values b.2 (by simp [Option.mem_def.mp hmem])⟩
          simp [bareAttr, hname]
      · rcases List.mem_append.mp hq with hq | hq
        · obtain ⟨value, hvalue, rfl⟩ := List.mem_map.mp hq
          rw [Option.mem_toList] at hvalue
          exact ⟨by simp [quotedAttr], hquote.values value (by simp [Option.mem_def.mp hvalue])⟩
        · exact ⟨(htokens q hq).quote, hquote.others q hq⟩
    have hparse : www.str.bind parse = readAttrs (head www) []
        ((bareParams www).map bareAttr ++ (quotedParams www).map quotedAttr) := by
      rw [str_eq hqop, Option.bind_some, parse_tail (hattr (by simp)) has, readAttrs_attrs]
    constructor
    · intro h
      obtain ⟨t, -, ht⟩ := Option.bind_eq_some_iff.mp h
      have hcut : Cut www := parse_cut ht
      have hlisted : Listed www.qop := fun qs hqs => ⟨fun hnil => hqop (hnil ▸ hqs), hcut.qop qs hqs⟩
      rw [hparse] at h
      have halg : OneAlgorithm www := by
        apply readAttrs_algorithm _ h (fun alg hmem => absurd hmem (by simp [head]))
        intro a ha hq
        rcases List.mem_append.mp ha with ha | ha
        · obtain ⟨b, -, rfl⟩ := List.mem_map.mp ha
          exact absurd hq (by simp [bareAttr])
        · obtain ⟨p, hp, rfl⟩ := List.mem_map.mp ha
          refine ⟨token_quotedParams htokens p hp, fun heq => ?_⟩
          rcases List.mem_append.mp hp with hp | hp
          · obtain ⟨value, -, rfl⟩ := List.mem_map.mp hp
            exact absurd heq (by simp [quotedAttr])
          · exact hcut.others p hp (by simp [knownNames, show p.1 = "algorithm".toList from heq])
      exact (readAttrs_iff hlisted halg hcut.others htokens).mp h
    · intro h
      rw [hparse]
      exact (readAttrs_iff h.qop (fun alg hmem => (h.algorithm alg hmem).1) h.names htokens).mpr h

end SippyB2bua.Security.Challenge

namespace SippyB2bua.Security
open Lib (Text)

/-- The headers of a digest exchange come back from their texts exactly if no part of them is
read as a separator or trimmed. -/
theorem digest_headers_return {auth : SipAuthorization} {www : Challenge} (hauth : auth.Unquoted)
    (hwww : www.Unquoted) (hnames : ∀ p ∈ www.otherparams, Challenge.Token p.1) :
    (SipAuthorization.parse auth.str = some auth ↔ auth.Printable) ∧
      (www.str.bind Challenge.parse = some www ↔ www.Printable) :=
  ⟨SipAuthorization.parse_str_iff hauth, Challenge.parse_str_iff hwww hnames⟩

def sampleAnswer (username : String) : SipAuthorization :=
  { username := some username.toList, realm := some "example.com".toList, nonce := some "0".toList,
    uri := some "sip:bob@example.com".toList, response := some "1".toList }

def samplePlainChallenge : Challenge :=
  { realm := some "a, b=c".toList, nonce := some "0".toList, qop := some ["auth".toList],
    algorithm := some "MD5".toList, opaqueValue := none, otherparams := [("stale".toList, "no".toList)] }

theorem sampleAnswer_unquoted {username : String} (h : '"' ∉ username.toList) :
    (sampleAnswer username).Unquoted := by
  intro t ht
  simp only [SipAuthorization.known, sampleAnswer, List.mem_cons, Option.some.injEq, reduceCtorEq,
    List.not_mem_nil, or_false] at ht
  rcases ht with rfl | rfl | rfl | rfl | rfl
  · exact h
  · decide
  · decide
  · decide
  · decide

theorem samplePlainChallenge_unquoted : samplePlainChallenge.Unquoted := by
  refine ⟨fun t ht => ?_, fun qs hqs q hq => ?_, fun p hp => ?_⟩
  · simp only [samplePlainChallenge, List.mem_cons, Option.some.injEq, reduceCtorEq,
      List.not_mem_nil, or_false] at ht
    rcases ht with rfl | rfl | rfl
    · decide
    · decide
    · decide
  · cases hqs
    rw [List.mem_singleton.mp hq]
    decide
  · rw [List.mem_singleton.mp hp]
    decide

theorem samplePlainChallenge_names : ∀ p ∈ samplePlainChallenge.otherparams, Challenge.Token p.1 := by
  intro p hp
  rw [List.mem_singleton.mp hp]
  have hstale : Challenge.Token "stale".toList := Challenge.token_of (by decide) (by decide)
  exact hstale

theorem digest_headers_return_alice :
    (SipAuthorization.parse (sampleAnswer "alice").str = some (sampleAnswer "alice") ↔
      (sampleAnswer "alice").Printable) ∧
    (samplePlainChallenge.str.bind Challenge.parse = some samplePlainChallenge ↔
      samplePlainChallenge.Printable) :=
  digest_headers_return (sampleAnswer_unquoted (by decide)) samplePlainChallenge_unquoted
    samplePlainChallenge_names

/-- A name with a comma makes the answer unreadable. -/
theorem comma_in_username : (sampleAnswer "smith,john").Unquoted ∧
    SipAuthorization.parse (sampleAnswer "smith,john").str = none :=
  ⟨sampleAnswer_unquoted (by decide), Option.isNone_iff_eq_none.mp (by decide)⟩

end SippyB2bua.Security
