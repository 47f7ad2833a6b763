import SippyB2bua.Wire.SipMsg
import SippyB2bua.Lib.Lines
import SippyB2bua.Lib.Breaks

/-!
# Media types

The type of a body is cut at semicolons and its parameters go into a dictionary, so it
prints as it was if each parameter has a value and no key comes twice.
-/

namespace SippyB2bua.Wire.ContentType
open Lib (Text)
open Lib.Text (Unbroken splitAll split1)

def parts (s : Text) : List Text := (splitAll ';' s).tail

def key (part : Text) : Text := (split1 '=' part).1
def value (part : Text) : Text := (split1 '=' part).2.getD []

/-- A media type that prints as it is. -/
structure Stable (s : Text) : Prop where
  values : ∀ part ∈ parts s, '=' ∈ part
  keys : ((parts s).map key).Nodup

def width (params : List (Text × Text)) : ℕ := (params.map fun p => p.1.length + p.2.length + 2).sum

variable {s k v part : Text} {ps : List Text} {params params' : List (Text × Text)} {c : ContentType}

theorem split1_of_mem (h : '=' ∈ part) : split1 '=' part = (key part, some (value part)) := by
  induction part with
  | nil => exact absurd h List.not_mem_nil
  | cons c part ih =>
    unfold key value split1
    split
    · rfl
    · rename_i hc
      have hpart : '=' ∈ part := (List.mem_cons.mp h).resolve_left fun h => hc h.symm
      simp only [ih hpart]
      rfl

theorem mem_of_split1 (h : split1 '=' part = (k, some v)) : '=' ∈ part := by
  rw [Lib.Text.split1_eq h]
  exact List.mem_append_right k List.mem_cons_self

theorem length_of_split1 (h : split1 '=' part = (k, some v)) :
    part.length + 1 = k.length + v.length + 2 := by
  rw [Lib.Text.split1_eq h, List.length_append, List.length_cons]
  omega

theorem setParam_keys (params : List (Text × Text)) (k v : Text) : (setParam params k v).map Prod.fst =
    if k ∈ params.map Prod.fst then params.map Prod.fst else params.map Prod.fst ++ [k] := by
  unfold setParam
  split
  · rw [List.map_map]
    refine List.map_congr_left fun p _ => ?_
    by_cases hp : p.1 = k
    · simp [hp]
    · simp [hp]
  · simp

theorem setParam_nodup (h : (params.map Prod.fst).Nodup) (k v : Text) :
    ((setParam params k v).map Prod.fst).Nodup := by
  rw [setParam_keys]
  split
  · exact h
  · rename_i hk
    refine List.nodup_append.mpr ⟨h, by simp, fun a ha b hb hab => hk ?_⟩
    rwa [← List.mem_singleton.mp hb, ← hab]

theorem setParam_new (h : k ∉ params.map Prod.fst) : setParam params k v = params ++ [(k, v)] := by
  unfold setParam
  rw [if_neg h]

theorem setParam_width (h : (params.map Prod.fst).Nodup) (hk : k ∈ params.map Prod.fst) :
    width (setParam params k v) < width params + (k.length + v.length + 2) := by
  unfold setParam
  rw [if_pos hk]
  induction params with
  | nil => exact absurd hk List.not_mem_nil
  | cons p params ih =>
    rw [List.map_cons, List.nodup_cons] at h
    by_cases hp : p.1 = k
    · have hrest : (params.map fun q => if q.1 = k then (k, v) else q) = params := by
        conv_rhs => rw [← List.map_id params]
        refine List.map_congr_left fun q hq => ?_
        have hqk : q.1 ≠ k := fun hqk => h.1 (hp ▸ hqk ▸ List.mem_map_of_mem hq)
        simp [hqk]
      rw [List.map_cons, if_pos hp, hrest]
      simp only [width, List.map_cons, List.sum_cons]
      omega
    · have hmem : k ∈ params.map Prod.fst :=
        (List.mem_cons.mp hk).resolve_left fun hkp => hp hkp.symm
      specialize ih h.2 hmem
      rw [List.map_cons, if_neg hp]
      simp only [width, List.map_cons, List.sum_cons] at ih ⊢
      omega

theorem readParams_width (h : readParams params ps = .ok params') (hnodup : (params.map Prod.fst).Nodup) :
    (∀ part ∈ ps, '=' ∈ part) ∧
      width params' ≤ width params + (ps.map fun part => part.length + 1).sum ∧
      (width params' = width params + (ps.map fun part => part.length + 1).sum →
        (params.map Prod.fst ++ ps.map key).Nodup) := by
  induction ps generalizing params with
  | nil =>
    cases h
    simpa using hnodup
  | cons part ps ih =>
    unfold readParams at h
    split at h
    · exact absurd h (by simp)
    · rename_i k v hsplit
      obtain ⟨hall, hwidth, hkeys⟩ := ih h (setParam_nodup hnodup k v)
      have hlen := length_of_split1 hsplit
      have hkey : key part = k := congrArg Prod.fst hsplit
      rw [List.map_cons, List.sum_cons, List.map_cons, hkey]
      refine ⟨fun q hq => ?_, ?_⟩
      · rcases List.mem_cons.mp hq with rfl | hq
        · exact mem_of_split1 hsplit
        · exact hall q hq
      · by_cases hk : k ∈ params.map Prod.fst
        · have hless := setParam_width (v := v) hnodup hk
          exact ⟨by omega, fun heq => by omega⟩
        · have hnew : width (setParam params k v) = width params + (k.length + v.length + 2) := by
            rw [setParam_new hk]
            simp [width]
          refine ⟨by omega, fun heq => ?_⟩
          have hrest := hkeys (by omega)
          rw [setParam_keys, if_neg hk] at hrest
          simpa using hrest

theorem readParams_new (hvalues : ∀ part ∈ ps, '=' ∈ part)
    (hkeys : (params.map Prod.fst ++ ps.map key).Nodup) :
    readParams params ps = .ok (params ++ ps.map fun part => (key part, value part)) := by
  induction ps generalizing params with
  | nil => simp [readParams]
  | cons part ps ih =>
    have hpart := split1_of_mem (hvalues part List.mem_cons_self)
    have hnew : key part ∉ params.map Prod.fst := by
      intro hmem
      exact (List.nodup_append.mp hkeys).2.2 _ hmem _ (by simp) rfl
    rw [readParams, hpart]
    dsimp only
    rw [setParam_new hnew, ih fun q hq => hvalues q (List.mem_cons_of_mem part hq)]
    · simp
    · simpa using hkeys

theorem parse_ok (h : parse s = .ok c) :
    splitAll ';' s = c.name :: parts s ∧ readParams [] (parts s) = .ok c.params := by
  unfold parse at h
  cases hs : splitAll ';' s with
  | nil => exact absurd hs (Lib.Text.splitAll_ne_nil ';' s)
  | cons name ps =>
    have hparts : parts s = ps := by rw [parts, hs, List.tail_cons]
    rw [hs] at h
    dsimp only at h
    rw [hparts]
    cases hread : readParams [] ps with
    | error e =>
      rw [hread] at h
      exact absurd h (by simp [Except.map])
    | ok params =>
      rw [hread] at h
      cases h
      exact ⟨rfl, rfl⟩

theorem str_length (c : ContentType) : c.str.length = c.name.length + width c.params := by
  obtain ⟨name, params⟩ := c
  unfold str
  dsimp only
  induction params generalizing name with
  | nil => simp [width]
  | cons p params ih =>
    rw [List.map_cons, List.intercalate_cons_of_ne_nil (List.cons_ne_nil _ _), List.length_append, ih]
    simp only [List.length_append, List.length_cons, List.length_nil, width, List.map_cons,
      List.sum_cons]
    omega

/-- A media type never gets longer, and keeps its length only if it is stable. -/
theorem parse_length (h : parse s = .ok c) :
    c.str.length ≤ s.length ∧ (c.str.length = s.length → Stable s) := by
  obtain ⟨hsplit, hread⟩ := parse_ok h
  obtain ⟨hvalues, hwidth, hkeys⟩ := readParams_width hread (by simp)
  have hlen := Lib.Text.splitAll_length ';' s
  rw [hsplit, List.map_cons, List.sum_cons] at hlen
  have hzero : width [] = 0 := rfl
  rw [str_length]
  refine ⟨by omega, fun heq => ⟨hvalues, ?_⟩⟩
  simpa using hkeys (by omega)

theorem parse_stable (h : Stable s) : ∃ c, parse s = .ok c ∧ c.str = s := by
  unfold parse
  cases hs : splitAll ';' s with
  | nil => exact absurd hs (Lib.Text.splitAll_ne_nil ';' s)
  | cons name ps =>
    have hparts : parts s = ps := by rw [parts, hs, List.tail_cons]
    obtain ⟨hvalues, hkeys⟩ := h
    rw [hparts] at hvalues hkeys
    have hkeys' : (([] : List (Text × Text)).map Prod.fst ++ ps.map key).Nodup := by simpa using hkeys
    have hread := readParams_new hvalues hkeys'
    refine ⟨⟨name, _⟩, by dsimp only; rw [hread]; rfl, ?_⟩
    have hprint : (ps.map fun part => (key part, value part)).map (fun p => p.1 ++ '=' :: p.2) = ps := by
      rw [List.map_map]
      conv_rhs => rw [← List.map_id ps]
      exact List.map_congr_left fun part hpart =>
        (Lib.Text.split1_eq (split1_of_mem (hvalues part hpart))).symm
    rw [str, List.nil_append]
    dsimp only
    rw [hprint, ← hs, Lib.Text.intercalate_splitAll]

theorem setParam_forall {P : Text × Text → Prop} (hnew : P (k, v)) (h : ∀ p ∈ params, P p) :
    ∀ p ∈ setParam params k v, P p := by
  intro p hp
  unfold setParam at hp
  split at hp
  · obtain ⟨q, hq, rfl⟩ := List.mem_map.mp hp
    split
    · exact hnew
    · exact h q hq
  · rcases List.mem_append.mp hp with hp | hp
    · exact h p hp
    · rw [List.mem_singleton.mp hp]
      exact hnew

theorem readParams_forall {P : Text × Text → Prop} (h : readParams params ps = .ok params')
    (hps : ∀ part ∈ ps, ∀ k v, split1 '=' part = (k, some v) → P (k, v)) (hparams : ∀ p ∈ params, P p) :
    ∀ p ∈ params', P p := by
  induction ps generalizing params with
  | nil =>
    cases h
    exact hparams
  | cons part ps ih =>
    unfold readParams at h
    split at h
    · exact absurd h (by simp)
    · rename_i k v hpart
      have hnew := hps part List.mem_cons_self k v hpart
      exact ih h (fun t ht => hps t (List.mem_cons_of_mem part ht)) (setParam_forall hnew hparams)

theorem parse_unbroken (hs : Unbroken s) (h : parse s = .ok c) : Unbroken c.str := by
  obtain ⟨hsplit, hread⟩ := parse_ok h
  have hpiece (t : Text) (ht : t ∈ splitAll ';' s) : Unbroken t :=
    fun c hc => hs c (Lib.Text.mem_of_mem_splitAll ht hc)
  have hname : Unbroken c.name := hpiece _ (hsplit ▸ List.mem_cons_self)
  have hparts (t : Text) (ht : t ∈ parts s) : Unbroken t :=
    hpiece t (hsplit ▸ List.mem_cons_of_mem _ ht)
  have hparams : ∀ p ∈ c.params, Unbroken (p.1 ++ '=' :: p.2) :=
    readParams_forall hread (fun part hpart k v hkv => Lib.Text.split1_eq hkv ▸ hparts part hpart)
      fun p hp => absurd hp List.not_mem_nil
  have hsep : Unbroken [';'] := by decide
  have hall : ∀ t ∈ c.name :: c.params.map fun p => p.1 ++ '=' :: p.2, Unbroken t := by
    intro t ht
    rcases List.mem_cons.mp ht with rfl | ht
    · exact hname
    · obtain ⟨p, hp, rfl⟩ := List.mem_map.mp ht
      exact hparams p hp
  unfold str
  generalize c.name :: _ = ts at hall
  induction ts with
  | nil => exact fun c hc => absurd hc List.not_mem_nil
  | cons t ts ih =>
    have ht := hall t List.mem_cons_self
    by_cases hts : ts = []
    · subst hts
      simpa using ht
    · rw [List.intercalate_cons_of_ne_nil hts]
      exact (ht.append hsep).append (ih fun u hu => hall u (List.mem_cons_of_mem t hu))

/-- A parsed type that is read back from what it prints; the keys of a dictionary are distinct. -/
structure Proper (c : ContentType) : Prop where
  name : ';' ∉ c.name
  params : ∀ p ∈ c.params, '=' ∉ p.1 ∧ ';' ∉ p.1 ∧ ';' ∉ p.2
  keys : (c.params.map Prod.fst).Nodup

instance (c : ContentType) : Decidable c.Proper :=
  decidable_of_iff (';' ∉ c.name ∧ (∀ p ∈ c.params, '=' ∉ p.1 ∧ ';' ∉ p.1 ∧ ';' ∉ p.2) ∧
    (c.params.map Prod.fst).Nodup) ⟨fun ⟨a, b, d⟩ => ⟨a, b, d⟩, fun ⟨a, b, d⟩ => ⟨a, b, d⟩⟩

theorem readParams_nodup (h : readParams params ps = .ok params') (hnodup : (params.map Prod.fst).Nodup) :
    (params'.map Prod.fst).Nodup := by
  induction ps generalizing params with
  | nil =>
    cases h
    exact hnodup
  | cons part ps ih =>
    unfold readParams at h
    split at h
    · exact absurd h (by simp)
    · rename_i k v hpart
      exact ih h (setParam_nodup hnodup k v)

theorem proper_of_parse (h : parse s = .ok c) : c.Proper := by
  obtain ⟨hsplit, hread⟩ := parse_ok h
  refine ⟨Lib.Text.splitAll_clean (hsplit ▸ List.mem_cons_self), ?_, readParams_nodup hread (by simp)⟩
  refine readParams_forall hread (fun part hpart k v hkv => ?_) fun p hp => absurd hp List.not_mem_nil
  have hclean : ';' ∉ part := Lib.Text.splitAll_clean (hsplit ▸ List.mem_cons_of_mem _ hpart)
  have hkey : '=' ∉ k := by
    have := Lib.Text.split1_clean '=' part
    rwa [hkv] at this
  rw [Lib.Text.split1_eq hkv] at hclean
  exact ⟨hkey, fun hk => hclean (List.mem_append_left _ hk),
    fun hv => hclean (List.mem_append_right _ (List.mem_cons_of_mem _ hv))⟩

theorem parse_proper (h : c.Proper) : parse c.str = .ok c := by
  obtain ⟨name, params⟩ := c
  have hsplit (p : Text × Text) (hp : p ∈ params) : split1 '=' (p.1 ++ '=' :: p.2) = (p.1, some p.2) :=
    Lib.Text.split1_append (h.params p hp).1 p.2
  have hclean : ∀ l ∈ name :: params.map (fun p => p.1 ++ '=' :: p.2), ';' ∉ l := by
    intro l hl
    rcases List.mem_cons.mp hl with rfl | hl
    · exact h.name
    · obtain ⟨p, hp, rfl⟩ := List.mem_map.mp hl
      obtain ⟨-, hk, hv⟩ := h.params p hp
      simp [hk, hv]
  have hback : (params.map fun p => p.1 ++ '=' :: p.2).map (fun part => (key part, value part)) = params := by
    rw [List.map_map]
    conv_rhs => rw [← List.map_id params]
    refine List.map_congr_left fun p hp => ?_
    simp [key, value, hsplit p hp]
  have hkeys : (params.map fun p => p.1 ++ '=' :: p.2).map key = params.map Prod.fst := by
    rw [List.map_map]
    exact List.map_congr_left fun p hp => congrArg Prod.fst (hsplit p hp)
  have hread : readParams [] (params.map fun p => p.1 ++ '=' :: p.2) = .ok params := by
    rw [readParams_new, hback, List.nil_append]
    · intro part hpart
      obtain ⟨p, -, rfl⟩ := List.mem_map.mp hpart
      simp
    · rw [hkeys, List.map_nil, List.nil_append]
      exact h.keys
  unfold parse str
  rw [Lib.Text.splitAll_intercalate hclean (List.cons_ne_nil _ _)]
  dsimp only
  rw [hread]
  rfl

end SippyB2bua.Wire.ContentType
