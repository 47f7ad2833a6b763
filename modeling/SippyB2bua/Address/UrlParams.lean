import SippyB2bua.Address.SipURL
import SippyB2bua.Lib.Fallible

/-!
# The parameters of a URL

Parameters are kept by kind, the last of each known kind, and printed kind by kind. What is
printed is read as it was, and has no more question marks than what was read.
-/

namespace SippyB2bua.Address
open Lib (Text)
open Lib.Text

inductive Kind
  | user | transport | ttl | maddr | method | tag | other | lr
  deriving DecidableEq, Repr

def Kind.order : Kind → ℕ
  | user => 0 | transport => 1 | ttl => 2 | maddr => 3 | method => 4 | tag => 5 | other => 6 | lr => 7

def kind (p : Text) : Kind :=
  match split1 '=' p with
  | (_, none) => if p = "lr".toList then .lr else .other
  | (name, some _) =>
    if name = "user".toList then .user
    else if name = "transport".toList then .transport
    else if name = "ttl".toList then .ttl
    else if name = "maddr".toList then .maddr
    else if name = "method".toList then .method
    else if name = "tag".toList then .tag
    else if name = "lr".toList then .lr
    else .other

variable {u u' : UrlParams} {p q t : Text} {ps before after : List Text}

def UrlParams.ofKind (u : UrlParams) : Kind → List Text
  | .user => printed "user" u.usertype
  | .transport => printed "transport" (u.transport.bind (Transport.localStr none))
  | .ttl => printed "ttl" (u.ttl.map ofInt)
  | .maddr => printed "maddr" u.maddr
  | .method => printed "method" u.method
  | .tag => printed "tag" u.tag
  | .other => u.other
  | .lr => if u.lr then ["lr".toList] else []

def UrlParams.last (u : UrlParams) (k : Kind) : Option Text := (u.ofKind k).getLast?

def paramValue (p : Text) : Text := (split1 '=' p).2.getD []

/-- `setParam` by the kind of the parameter. -/
def setKind (u : UrlParams) (p : Text) : Kind → Lazy UrlParams
  | .user => .ok { u with usertype := some (paramValue p) }
  | .transport => .ok { u with transport := some (.name (paramValue p)) }
  | .ttl => (int (paramValue p)).elim (.error .valueError) fun n => .ok { u with ttl := some n }
  | .maddr => .ok { u with maddr := some (paramValue p) }
  | .method => .ok { u with method := some (paramValue p) }
  | .tag => .ok { u with tag := some (paramValue p) }
  | .other => .ok { u with other := u.other ++ [p] }
  | .lr => .ok { u with lr := true }

theorem setParam_kind (u : UrlParams) (p : Text) : setParam u p = setKind u p (kind p) := by
  cases hsplit : split1 '=' p with
  | mk name o =>
    rw [setParam, kind, hsplit]
    cases o with
    | none =>
      dsimp only
      split <;> rfl
    | some value =>
      have hvalue : paramValue p = value := by rw [paramValue, hsplit, Option.getD_some]
      simp only [apply_ite (setKind u p)]
      rw [← hvalue]
      rfl

theorem ofKind_setParam (h : setParam u p = .ok u') {k : Kind} (hk : k ≠ kind p) :
    u'.ofKind k = u.ofKind k := by
  rw [setParam_kind] at h
  cases hp : kind p <;> rw [hp] at h hk <;> unfold setKind at h
  case ttl =>
    cases hint : int (paramValue p) with
    | none =>
      rw [hint] at h
      exact absurd h (by simp)
    | some n =>
      rw [hint] at h
      cases h
      cases k <;> first | exact absurd rfl hk | rfl
  all_goals
    cases h
    cases k <;> first | exact absurd rfl hk | rfl

theorem last_setParam_other (h : setParam u p = .ok u') {k : Kind} (hk : k ≠ kind p) :
    u'.last k = u.last k := by rw [UrlParams.last, ofKind_setParam h hk, UrlParams.last]

def Kind.name : Kind → Option Text
  | user => "user".toList
  | transport => "transport".toList
  | ttl => "ttl".toList
  | maddr => "maddr".toList
  | method => "method".toList
  | tag => "tag".toList
  | other => none
  | lr => none

theorem split_of_kind {name : Text} (h : (kind p).name = some name) :
    split1 '=' p = (name, some (paramValue p)) := by
  cases hsplit : split1 '=' p with
  | mk a o =>
    unfold kind at h
    rw [hsplit] at h
    cases o with
    | none =>
      dsimp only at h
      split at h <;> exact absurd h (by simp [Kind.name])
    | some value =>
      have hvalue : paramValue p = value := by rw [paramValue, hsplit, Option.getD_some]
      dsimp only at h
      have hname : name = a := by
        split_ifs at h with h₁ h₂ h₃ h₄ h₅ h₆ h₇
        · exact (Option.some.inj h).symm.trans h₁.symm
        · exact (Option.some.inj h).symm.trans h₂.symm
        · exact (Option.some.inj h).symm.trans h₃.symm
        · exact (Option.some.inj h).symm.trans h₄.symm
        · exact (Option.some.inj h).symm.trans h₅.symm
        · exact (Option.some.inj h).symm.trans h₆.symm
        · exact absurd h (by simp [Kind.name])
        · exact absurd h (by simp [Kind.name])
      rw [hvalue, hname]

theorem eq_of_kind {name : Text} (h : (kind p).name = some name) : p = name ++ '=' :: paramValue p :=
  split1_eq (split_of_kind h)

theorem mem_of_lr {c : Char} (h : kind p = .lr) (hc : c ∈ "lr".toList) : c ∈ p := by
  cases hsplit : split1 '=' p with
  | mk a o =>
    unfold kind at h
    rw [hsplit] at h
    cases o with
    | none =>
      dsimp only at h
      split at h
      · rename_i hp
        rwa [hp]
      · exact absurd h (by simp)
    | some value =>
      dsimp only at h
      split_ifs at h with h₁ h₂ h₃ h₄ h₅ h₆ h₇
      rw [split1_eq hsplit, h₇]
      exact List.mem_append_left _ hc

theorem not_mem_of_int {n : ℤ} (h : int t = some n) : '?' ∉ t :=
  fun hmem => absurd (mem_of_int h hmem) (by decide)

theorem not_mem_ofInt (n : ℤ) : '?' ∉ ofInt n :=
  fun hmem => absurd (mem_of_ofInt hmem) (by decide)

/-- A parameter as it prints once it is set. -/
def paramText (p : Text) : Text :=
  match kind p with
  | .ttl => "ttl=".toList ++ ofInt ((int (paramValue p)).getD 0)
  | .lr => "lr".toList
  | _ => p

theorem ofKind_self (h : setParam u p = .ok u') :
    u'.ofKind (kind p) = (if kind p = .other then u.other else []) ++ [paramText p] := by
  rw [setParam_kind] at h
  have hplain {name : Text} (hname : (kind p).name = some name) (hother : kind p ≠ .other)
      (htext : paramText p = p) (hkind : u'.ofKind (kind p) = [name ++ '=' :: paramValue p]) :
      u'.ofKind (kind p) = (if kind p = .other then u.other else []) ++ [paramText p] := by
    rw [hkind, if_neg hother, htext, ← eq_of_kind hname, List.nil_append]
  cases hp : kind p <;> rw [hp] at h hplain <;> unfold setKind at h
  case ttl =>
    cases hint : int (paramValue p) with
    | none =>
      rw [hint] at h
      exact absurd h (by simp)
    | some n =>
      rw [hint] at h
      cases h
      simp [UrlParams.ofKind, printed, paramText, hp, hint]
  case other =>
    cases h
    simp [UrlParams.ofKind, paramText, hp]
  case lr =>
    cases h
    simp [UrlParams.ofKind, paramText, hp]
  all_goals
    cases h
    exact hplain rfl (by simp) (by rw [paramText, hp]) rfl

theorem mem_paramText {c : Char} (h : c ∈ paramText p) : c ∈ p ∨ c = '-' ∨ c.isDigit = true := by
  unfold paramText at h
  split at h
  · rename_i hp
    have hname : (kind p).name = some "ttl".toList := by
      rw [hp]
      rfl
    rcases List.mem_append.mp h with h | h
    · left
      rw [eq_of_kind hname]
      have heq : "ttl".toList ++ '=' :: paramValue p = "ttl=".toList ++ paramValue p := by simp
      rw [heq]
      exact List.mem_append_left _ h
    · exact .inr (mem_of_ofInt h)
  · rename_i hp
    exact .inl (mem_of_lr hp h)
  · exact .inl h

theorem mark_paramText (h : setParam u p = .ok u') : '?' ∈ paramText p ↔ '?' ∈ p ∧ kind p ≠ .lr := by
  unfold paramText
  split
  · rename_i hp
    rw [setParam_kind, hp, setKind] at h
    have hname : (kind p).name = some "ttl".toList := by
      rw [hp]
      rfl
    cases hint : int (paramValue p) with
    | none =>
      rw [hint] at h
      exact absurd h (by simp)
    | some n =>
      have hvalue := not_mem_of_int hint
      have hp' : '?' ∉ p := by
        rw [eq_of_kind hname]
        simp [hvalue]
      simp [hp', not_mem_ofInt]
  · rename_i hp
    simp [hp]
  · rename_i hp
    exact ⟨fun hmark => ⟨hmark, hp⟩, fun hmark => hmark.1⟩

theorem last_setParam (h : setParam u p = .ok u') :
    ∃ t, u'.last (kind p) = some t ∧ ('?' ∈ t ↔ '?' ∈ p ∧ kind p ≠ .lr) := by
  rw [UrlParams.last, ofKind_self h, List.getLast?_concat]
  exact ⟨paramText p, rfl, mark_paramText h⟩

theorem last_foldlM {k : Kind} (h : ps.foldlM setParam u = .ok u') (hk : ∀ p ∈ ps, kind p ≠ k) :
    u'.last k = u.last k := by
  induction ps generalizing u with
  | nil =>
    cases h
    rfl
  | cons p ps ih =>
    rw [List.foldlM_cons] at h
    obtain ⟨v, hv, h⟩ := Lib.bind_ok.mp h
    rw [ih h fun q hq => hk q (List.mem_cons_of_mem p hq),
      last_setParam_other hv (hk p List.mem_cons_self).symm]

theorem last_of_absent {k : Kind} (h : setParams ps = .ok u) (hk : ∀ p ∈ ps, kind p ≠ k) :
    u.last k = none := by
  rw [last_foldlM h hk]
  cases k <;> rfl

theorem last_of_append (h : setParams (before ++ p :: after) = .ok u)
    (hafter : ∀ q ∈ after, kind q ≠ kind p) :
    ∃ t, u.last (kind p) = some t ∧ ('?' ∈ t ↔ '?' ∈ p ∧ kind p ≠ .lr) := by
  rw [setParams, List.foldlM_append] at h
  obtain ⟨v, -, h⟩ := Lib.bind_ok.mp h
  rw [List.foldlM_cons] at h
  obtain ⟨w, hw, h⟩ := Lib.bind_ok.mp h
  rw [last_foldlM h hafter]
  exact last_setParam hw

theorem exists_last {k : Kind} (h : ∃ p ∈ ps, kind p = k) :
    ∃ before p after, ps = before ++ p :: after ∧ kind p = k ∧ ∀ q ∈ after, kind q ≠ k := by
  induction ps with
  | nil =>
    obtain ⟨p, hp, -⟩ := h
    exact absurd hp List.not_mem_nil
  | cons p ps ih =>
    by_cases hps : ∃ q ∈ ps, kind q = k
    · obtain ⟨before, q, after, rfl, hq, hafter⟩ := ih hps
      exact ⟨p :: before, q, after, rfl, hq, hafter⟩
    · obtain ⟨q, hq, hk⟩ := h
      have hp : q = p := (List.mem_cons.mp hq).resolve_right fun hmem => hps ⟨q, hmem, hk⟩
      exact ⟨[], p, ps, rfl, hp ▸ hk, fun r hr heq => hps ⟨r, hr, heq⟩⟩

theorem ofKind_init (k : Kind) : ({} : UrlParams).ofKind k = [] := by cases k <;> rfl

theorem mem_ofKind {k : Kind} (h : ps.foldlM setParam u = .ok u') (ht : t ∈ u'.ofKind k) :
    t ∈ u.ofKind k ∨ ∃ p ∈ ps, t = paramText p := by
  induction ps generalizing u with
  | nil =>
    cases h
    exact .inl ht
  | cons p ps ih =>
    rw [List.foldlM_cons] at h
    obtain ⟨v, hv, h⟩ := Lib.bind_ok.mp h
    rcases ih h with ht' | ⟨q, hq, heq⟩
    · by_cases hk : k = kind p
      · rw [hk, ofKind_self hv, List.mem_append, List.mem_singleton] at ht'
        rcases ht' with ht' | ht'
        · split at ht'
          · rename_i hother
            left
            rw [hk, hother]
            exact ht'
          · exact absurd ht' List.not_mem_nil
        · exact .inr ⟨p, List.mem_cons_self, ht'⟩
      · rw [ofKind_setParam hv hk] at ht'
        exact .inl ht'
    · exact .inr ⟨q, List.mem_cons_of_mem p hq, heq⟩

/-- In a list that descends the first value is the one of the greatest element that has one. -/
theorem findSome_greatest {α β : Type} {f : α → Option β} {r : α → ℕ} {l : List α} {b : β}
    (hsorted : l.Pairwise fun x y => r y < r x) (hall : ∀ a, a ∈ l) :
    l.findSome? f = some b ↔ ∃ a, f a = some b ∧ ∀ a', r a < r a' → f a' = none := by
  rw [List.findSome?_eq_some_iff]
  constructor
  · rintro ⟨greater, a, less, rfl, ha, hgreater⟩
    rw [List.pairwise_append, List.pairwise_cons] at hsorted
    refine ⟨a, ha, fun a' hlt => ?_⟩
    rcases List.mem_append.mp (hall a') with h | h
    · exact hgreater a' h
    · rcases List.mem_cons.mp h with rfl | h
      · exact absurd hlt (lt_irrefl _)
      · exact absurd hlt (hsorted.2.1.1 a' h).le.not_gt
  · rintro ⟨a, ha, hmax⟩
    obtain ⟨greater, less, rfl⟩ := List.append_of_mem (hall a)
    rw [List.pairwise_append] at hsorted
    exact ⟨greater, a, less, rfl, ha, fun x hx => hmax x (hsorted.2.2 x hx a List.mem_cons_self)⟩

def Kind.all : List Kind := [.user, .transport, .ttl, .maddr, .method, .tag, .other, .lr]

theorem Kind.mem_all (k : Kind) : k ∈ Kind.all := by cases k <;> decide

theorem getParams_eq (u : UrlParams) : u.getParams none = Kind.all.flatMap u.ofKind := by
  simp [UrlParams.getParams, Kind.all, UrlParams.ofKind]

/-- The last parameter that prints is the last of the greatest kind that there is. -/
theorem getLast_getParams (u : UrlParams) : (u.getParams none).getLast? = some t ↔
    ∃ k, u.last k = some t ∧ ∀ k', k.order < k'.order → u.last k' = none := by
  have hsorted : Kind.all.reverse.Pairwise fun a b => b.order < a.order := by decide
  rw [getParams_eq, List.getLast?_flatMap]
  exact findSome_greatest hsorted fun k => List.mem_reverse.mpr k.mem_all

theorem not_mem_getParams {c : Char} (hminus : c ≠ '-') (hdigit : c.isDigit = false)
    (h : setParams ps = .ok u) (hps : ∀ p ∈ ps, c ∉ p) : ∀ t ∈ u.getParams none, c ∉ t := by
  intro t ht hc
  rw [getParams_eq] at ht
  obtain ⟨k, -, ht⟩ := List.mem_flatMap.mp ht
  rcases mem_ofKind h ht with ht | ⟨p, hp, rfl⟩
  · rw [ofKind_init] at ht
    exact absurd ht List.not_mem_nil
  · rcases mem_paramText hc with hc | hc | hc
    · exact hps p hp hc
    · exact hminus hc
    · exact absurd (hdigit.symm.trans hc) (by simp)

theorem getParams_ne_nil (h : setParams ps = .ok u) (hps : ps ≠ []) : u.getParams none ≠ [] := by
  obtain ⟨before, p, rfl⟩ : ∃ before p, ps = before ++ [p] :=
    ⟨_, _, (List.dropLast_append_getLast hps).symm⟩
  obtain ⟨t, ht, -⟩ := last_of_append h (by simp)
  have hmem : t ∈ u.getParams none := by
    rw [getParams_eq]
    exact List.mem_flatMap.mpr ⟨kind p, Kind.mem_all _, List.mem_of_getLast? ht⟩
  exact List.ne_nil_of_mem hmem

/-- A parameter with a question mark is not the last that prints: its kind is `lr`, or another
of its kind follows, or there is one of a kind that prints later. -/
def Overtaken (params : List Text) : Prop :=
  ∀ before p after, params = before ++ p :: after → '?' ∈ p → kind p = .lr ∨
    (∃ q ∈ after, kind q = kind p) ∨ ∃ q ∈ params, (kind p).order < (kind q).order

/-- Whether a question mark is in the last parameter that prints can be seen in what was read. -/
theorem overtaken_iff (h : setParams ps = .ok u) :
    Overtaken ps ↔ ∀ t ∈ (u.getParams none).getLast?, '?' ∉ t := by
  constructor
  · intro hover t ht hmark
    obtain ⟨k, hk, hmax⟩ := (getLast_getParams u).mp (Option.mem_def.mp ht)
    have hcomes : ∃ p ∈ ps, kind p = k := by
      by_contra hno
      push Not at hno
      rw [last_of_absent h hno] at hk
      exact absurd hk (by simp)
    obtain ⟨before, p, after, rfl, rfl, hafter⟩ := exists_last hcomes
    obtain ⟨t', ht', hiff⟩ := last_of_append h hafter
    rw [hk] at ht'
    obtain rfl := Option.some.inj ht'
    obtain ⟨hp, hlr⟩ := hiff.mp hmark
    rcases hover before p after rfl hp with h' | ⟨q, hq, heq⟩ | ⟨q, hq, hlt⟩
    · exact hlr h'
    · exact hafter q hq heq
    · obtain ⟨before', q', after', heq, hkind, hafter'⟩ := exists_last ⟨q, hq, rfl⟩
      rw [heq] at h
      rw [← hkind] at hafter' hlt
      obtain ⟨t', ht', -⟩ := last_of_append h hafter'
      rw [hmax _ hlt] at ht'
      exact absurd ht' (by simp)
  · rintro hclean before p after rfl hp
    by_contra hno
    push Not at hno
    obtain ⟨hlr, hafter, hgreatest⟩ := hno
    obtain ⟨t, ht, hiff⟩ := last_of_append h hafter
    have hmax (k : Kind) (hk : (kind p).order < k.order) : u.last k = none := by
      apply last_of_absent h
      rintro q hq rfl
      exact absurd hk (hgreatest q hq).not_gt
    exact hclean t ((getLast_getParams u).mpr ⟨kind p, ht, hmax⟩) (hiff.mpr ⟨hp, hlr⟩)

/-- What `setParams` gives: a transport of the text, and others that are of no known kind. -/
structure Canonical (u : UrlParams) : Prop where
  transport : u.transport ≠ some .myTransport
  other : ∀ p ∈ u.other, kind p = .other

theorem canonical_setParam (h : setParam u p = .ok u') (hu : Canonical u) : Canonical u' := by
  have hother (q : Text) (hq : q ∈ u'.other) : kind q = .other := by
    by_cases hp : kind p = .other
    · have hself := ofKind_self h
      rw [hp, if_pos rfl, paramText, hp] at hself
      rcases List.mem_append.mp (hself ▸ hq : q ∈ u.ofKind .other ++ [p]) with hq | hq
      · exact hu.other q hq
      · rw [List.mem_singleton.mp hq]
        exact hp
    · have hsame : u'.other = u.other := ofKind_setParam h (Ne.symm hp)
      exact hu.other q (hsame ▸ hq)
  refine ⟨?_, hother⟩
  rw [setParam_kind] at h
  cases hp : kind p <;> rw [hp] at h <;> unfold setKind at h
  case ttl =>
    cases hint : int (paramValue p) with
    | none =>
      rw [hint] at h
      exact absurd h (by simp)
    | some n =>
      rw [hint] at h
      cases h
      exact hu.transport
  case transport =>
    cases h
    simp
  all_goals
    cases h
    exact hu.transport

theorem canonical_setParams (h : setParams ps = .ok u) : Canonical u := by
  have hrun {v : UrlParams} (hv : Canonical v) (hf : ps.foldlM setParam v = .ok u) : Canonical u := by
    clear h
    induction ps generalizing v with
    | nil =>
      cases hf
      exact hv
    | cons p ps ih =>
      rw [List.foldlM_cons] at hf
      obtain ⟨w, hw, hf⟩ := Lib.bind_ok.mp hf
      exact ih (canonical_setParam hw hv) hf
  exact hrun ⟨by simp, by simp⟩ h

theorem foldlM_other (h : ∀ p ∈ ps, kind p = .other) :
    ps.foldlM setParam u = .ok { u with other := u.other ++ ps } := by
  induction ps generalizing u with
  | nil =>
    rw [List.append_nil]
    rfl
  | cons p ps ih =>
    have hset : setParam u p = .ok { u with other := u.other ++ [p] } := by
      rw [setParam_kind, h p List.mem_cons_self, setKind]
    rw [List.foldlM_cons, hset]
    change ps.foldlM setParam _ = _
    rw [ih fun q hq => h q (List.mem_cons_of_mem p hq)]
    simp

theorem foldlM_printed {name : String} {f : Text → UrlParams} {o : Option Text}
    (hset : ∀ t, setParam u (name.toList ++ '=' :: t) = .ok (f t)) :
    (printed name o).foldlM setParam u = .ok (o.elim u f) := by
  cases o with
  | none => rfl
  | some t =>
    change (setParam u (name.toList ++ '=' :: t) >>= fun v => pure v) = _
    rw [hset]
    rfl

theorem setParams_getParams (h : Canonical u) : setParams (u.getParams none) = .ok u := by
  obtain ⟨usertype, transport, ttl, maddr, method, tag, other, lr⟩ := u
  obtain ⟨htransport, hother⟩ := h
  have hsplit {name : Text} (hname : '=' ∉ name) (t : Text) : split1 '=' (name ++ '=' :: t) = (name, some t) :=
    split1_append hname t
  have huser : (printed "user" usertype).foldlM setParam {} = .ok { usertype := usertype } := by
    rw [foldlM_printed fun t => by rw [setParam, hsplit (by decide)]; rfl]
    cases usertype <;> rfl
  have htransport' : (printed "transport" (transport.bind (Transport.localStr none))).foldlM setParam
      { usertype := usertype } = .ok { usertype := usertype, transport := transport } := by
    rw [foldlM_printed fun t => by rw [setParam, hsplit (by decide)]; rfl]
    cases transport with
    | none => rfl
    | some transport =>
      cases transport with
      | name t => rfl
      | myTransport => exact absurd rfl htransport
  have httl : (printed "ttl" (ttl.map ofInt)).foldlM setParam
      { usertype := usertype, transport := transport } =
        .ok { usertype := usertype, transport := transport, ttl := ttl } := by
    cases ttl with
    | none => rfl
    | some n =>
      change (setParam _ ("ttl".toList ++ '=' :: ofInt n) >>= fun w => pure w) = _
      rw [setParam, hsplit (by decide)]
      change ((int (ofInt n)).elim _ _ >>= fun w => pure w) = _
      rw [int_ofInt]
      rfl
  have hmaddr : (printed "maddr" maddr).foldlM setParam
      { usertype := usertype, transport := transport, ttl := ttl } =
        .ok { usertype := usertype, transport := transport, ttl := ttl, maddr := maddr } := by
    rw [foldlM_printed fun t => by rw [setParam, hsplit (by decide)]; rfl]
    cases maddr <;> rfl
  have hmethod : (printed "method" method).foldlM setParam
      { usertype := usertype, transport := transport, ttl := ttl, maddr := maddr } =
        .ok { usertype := usertype, transport := transport, ttl := ttl, maddr := maddr, method := method } := by
    rw [foldlM_printed fun t => by rw [setParam, hsplit (by decide)]; rfl]
    cases method <;> rfl
  have htag : (printed "tag" tag).foldlM setParam
      { usertype := usertype, transport := transport, ttl := ttl, maddr := maddr, method := method } =
        .ok { usertype := usertype, transport := transport, ttl := ttl, maddr := maddr, method := method,
              tag := tag } := by
    rw [foldlM_printed fun t => by rw [setParam, hsplit (by decide)]; rfl]
    cases tag <;> rfl
  have hlr (v : UrlParams) (hv : v.lr = false) :
      (if lr then ["lr".toList] else []).foldlM setParam v = .ok { v with lr := lr } := by
    cases lr with
    | false => exact congrArg (fun b => Except.ok { v with lr := b }) hv
    | true => rfl
  have hknown := Lib.foldlM_ok_append (Lib.foldlM_ok_append (Lib.foldlM_ok_append
    (Lib.foldlM_ok_append (Lib.foldlM_ok_append huser htransport') httl) hmaddr) hmethod) htag
  exact Lib.foldlM_ok_append (Lib.foldlM_ok_append hknown (foldlM_other hother)) (hlr _ rfl)

def marks (params : List Text) : ℕ := (params.map fun p => p.count '?').sum

@[simp] theorem marks_append (ps qs : List Text) : marks (ps ++ qs) = marks ps + marks qs := by
  simp [marks]

@[simp] theorem marks_singleton (p : Text) : marks [p] = p.count '?' := by simp [marks]

theorem marks_paramText (p : Text) : (paramText p).count '?' ≤ p.count '?' := by
  by_cases hmark : '?' ∈ paramText p
  · have heq : paramText p = p := by
      unfold paramText at hmark ⊢
      split at hmark
      · exact absurd hmark (by simp [not_mem_ofInt])
      · exact absurd hmark (by simp)
      · rfl
    rw [heq]
  · rw [List.count_eq_zero_of_not_mem hmark]
    exact Nat.zero_le _

theorem sum_map_le {α : Type} {f g : α → ℕ} {l : List α} {a : α} {n : ℕ} (hl : l.Nodup)
    (hself : f a ≤ g a + n) (hrest : ∀ x, x ≠ a → f x = g x) : (l.map f).sum ≤ (l.map g).sum + n := by
  induction l with
  | nil => exact Nat.zero_le _
  | cons x l ih =>
    obtain ⟨hx, hl⟩ := List.nodup_cons.mp hl
    simp only [List.map_cons, List.sum_cons]
    by_cases hxa : x = a
    · have hsame : l.map f = l.map g := by
        apply List.map_congr_left
        intro y hy
        exact hrest y fun hya => hx (hxa.trans hya.symm ▸ hy)
      rw [hsame, hxa]
      omega
    · have hle := ih hl
      rw [hrest x hxa]
      omega

theorem marks_setParam (h : setParam u p = .ok u') :
    marks (u'.getParams none) ≤ marks (u.getParams none) + p.count '?' := by
  have hsum (v : UrlParams) : marks (v.getParams none) = (Kind.all.map fun k => marks (v.ofKind k)).sum := by
    rw [getParams_eq]
    simp [marks, Kind.all]
  have hself : marks (u'.ofKind (kind p)) ≤ marks (u.ofKind (kind p)) + p.count '?' := by
    have hmarks := marks_paramText p
    rw [ofKind_self h, marks_append, marks_singleton]
    split
    · rename_i hother
      rw [hother]
      change marks (u.ofKind .other) + _ ≤ _
      omega
    · simp only [marks, List.map_nil, List.sum_nil]
      omega
  have hrest (k : Kind) (hk : k ≠ kind p) : marks (u'.ofKind k) = marks (u.ofKind k) := by
    rw [ofKind_setParam h hk]
  rw [hsum, hsum]
  exact sum_map_le (by decide) hself hrest

theorem marks_foldlM (h : ps.foldlM setParam u = .ok u') :
    marks (u'.getParams none) ≤ marks (u.getParams none) + marks ps := by
  induction ps generalizing u with
  | nil =>
    cases h
    exact Nat.le_add_right _ _
  | cons p ps ih =>
    rw [List.foldlM_cons] at h
    obtain ⟨v, hv, h⟩ := Lib.bind_ok.mp h
    have hstep := marks_setParam hv
    have hrest := ih h
    have hcons : marks (p :: ps) = p.count '?' + marks ps := by simp [marks]
    omega

/-- Parameters that lose a question mark of the last one are not read as they were. -/
theorem setParams_cut {clean : Text} (h : u.getParams none = before ++ [t]) (ht : '?' ∈ t)
    (hclean : '?' ∉ clean) : setParams (before ++ [clean]) ≠ .ok u := by
  intro hread
  have hle := marks_foldlM hread
  have hnil : marks (({} : UrlParams).getParams none) = 0 := rfl
  have hpos : 0 < t.count '?' := List.count_pos_iff.mpr ht
  have hzero : clean.count '?' = 0 := List.count_eq_zero_of_not_mem hclean
  rw [h, hnil, marks_append, marks_append, marks_singleton, marks_singleton] at hle
  omega

end SippyB2bua.Address
