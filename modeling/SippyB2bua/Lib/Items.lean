import SippyB2bua.Lib.Text

/-!
# Dictionaries in the order of insertion

A dictionary that is filled item by item: a new key goes to the end, a known key keeps its
place and gets the new value.
-/

namespace SippyB2bua.Lib

abbrev Items (α : Type) := List (Text × α)

namespace Items
variable {α : Type} {d ps : Items α} {k : Text} {v : α}

def keys (d : Items α) : List Text := d.map Prod.fst

/-- `d[k] = v`. -/
def set (d : Items α) (k : Text) (v : α) : Items α :=
  if k ∈ keys d then d.map fun p => if p.1 = k then (k, v) else p else d ++ [(k, v)]

theorem set_new (h : k ∉ keys d) (v : α) : set d k v = d ++ [(k, v)] := if_neg h

theorem keys_set (d : Items α) (k : Text) (v : α) :
    keys (set d k v) = if k ∈ keys d then keys d else keys d ++ [k] := by
  unfold set
  split
  · unfold keys
    rw [List.map_map]
    apply List.map_congr_left
    intro p _
    by_cases hp : p.1 = k
    · simp [hp]
    · simp [hp]
  · simp [keys]

theorem nodup_set (h : (keys d).Nodup) (k : Text) (v : α) : (keys (set d k v)).Nodup := by
  rw [keys_set]
  split
  · exact h
  · rename_i hk
    rw [List.nodup_append]
    refine ⟨h, by simp, fun a ha b hb hab => hk ?_⟩
    rwa [← List.mem_singleton.mp hb, ← hab]

theorem foldl_set (h : (keys (d ++ ps)).Nodup) : ps.foldl (fun d p => set d p.1 p.2) d = d ++ ps := by
  induction ps generalizing d with
  | nil => simp
  | cons p ps ih =>
    have hkeys : keys (d ++ p :: ps) = keys d ++ p.1 :: keys ps := by simp [keys]
    have hnew : p.1 ∉ keys d := by
      rw [hkeys, List.nodup_append] at h
      exact fun hmem => h.2.2 p.1 hmem p.1 List.mem_cons_self rfl
    have happ : d ++ p :: ps = (d ++ [(p.1, p.2)]) ++ ps := by simp
    rw [List.foldl_cons, set_new hnew, happ]
    exact ih (happ ▸ h)

/-- `d[k] = v` where a known key leaves its place and goes to the end. -/
def put (d : Items α) (k : Text) (v : α) : Items α := d.filter (fun p => p.1 ≠ k) ++ [(k, v)]

theorem mem_keys_put {k' : Text} : k' ∈ keys (put d k v) ↔ k' ∈ keys d ∨ k' = k := by
  simp only [keys, put, List.mem_map, List.mem_append, List.mem_filter, List.mem_singleton,
    decide_eq_true_eq]
  constructor
  · rintro ⟨p, ⟨hp, -⟩ | rfl, rfl⟩
    · exact .inl ⟨p, hp, rfl⟩
    · exact .inr rfl
  · by_cases hk : k' = k
    · intro _
      exact ⟨(k, v), .inr rfl, hk.symm⟩
    · rintro (⟨p, hp, rfl⟩ | hk')
      · exact ⟨p, .inl ⟨hp, hk⟩, rfl⟩
      · exact absurd hk' hk

theorem nodup_put (h : (keys d).Nodup) (k : Text) (v : α) : (keys (put d k v)).Nodup := by
  have hsub : (keys (d.filter fun p => p.1 ≠ k)).Sublist (keys d) := List.filter_sublist.map _
  have hkeys : keys (put d k v) = keys (d.filter fun p => p.1 ≠ k) ++ [k] := by simp [keys, put]
  rw [hkeys, List.nodup_append]
  refine ⟨hsub.nodup h, by simp, fun a ha b hb hab => ?_⟩
  obtain ⟨p, hp, rfl⟩ := List.mem_map.mp ha
  have hne := (List.mem_filter.mp hp).2
  rw [List.mem_singleton.mp hb] at hab
  simp [hab] at hne

theorem lookup_filter {p : Text → Bool} (hk : p k = true) (d : Items α) :
    (d.filter fun q => p q.1).lookup k = d.lookup k := by
  induction d with
  | nil => rfl
  | cons q d ih =>
    obtain ⟨k', w⟩ := q
    rw [List.filter_cons]
    by_cases hkk : k = k'
    · subst hkk
      rw [if_pos hk, List.lookup_cons_self, List.lookup_cons_self]
    · have hne : (k == k') = false := beq_eq_false_iff_ne.mpr hkk
      rw [List.lookup_cons, hne, ← ih]
      split
      · rw [List.lookup_cons, hne]
      · rfl

theorem lookup_put {k' : Text} : (put d k v).lookup k' = if k' = k then some v else d.lookup k' := by
  rw [put, List.lookup_append]
  split
  · rename_i hk
    subst hk
    have hnone : (d.filter fun p => decide (p.1 ≠ k')).lookup k' = none := by
      rw [List.lookup_eq_none_iff]
      intro p hp
      have hne := of_decide_eq_true (List.mem_filter.mp hp).2
      exact bne_iff_ne.mpr fun h => hne h.symm
    rw [hnone, List.lookup_cons_self]
    rfl
  · rename_i hk
    have hne : (k' == k) = false := beq_eq_false_iff_ne.mpr hk
    rw [@lookup_filter _ k' (fun q => decide (q ≠ k)) (decide_eq_true hk), List.lookup_cons, hne]
    exact Option.or_none

/-- Items with different keys come last, in their order, after what they leave of the rest. -/
theorem foldl_put (h : (keys ps).Nodup) : ps.foldl (fun d p => put d p.1 p.2) d =
    d.filter (fun p => p.1 ∉ keys ps) ++ ps := by
  induction ps generalizing d with
  | nil => simp [keys]
  | cons p ps ih =>
    obtain ⟨hp, hps⟩ := List.nodup_cons.mp h
    have hp' : p.1 ∉ keys ps := hp
    rw [List.foldl_cons, ih hps, put, List.filter_append, List.filter_filter]
    have hone : [(p.1, p.2)].filter (fun q => q.1 ∉ keys ps) = [p] := by simp [hp']
    have hrest : d.filter (fun q => decide (q.1 ∉ keys ps) && decide (q.1 ≠ p.1)) =
        d.filter fun q => q.1 ∉ keys (p :: ps) := by
      apply List.filter_congr
      intro q _
      have hcons : q.1 ∈ keys (p :: ps) ↔ q.1 = p.1 ∨ q.1 ∈ keys ps := by simp [keys]
      simp only [hcons, not_or, Bool.decide_and]
      exact Bool.and_comm _ _
    rw [hone, hrest, List.append_assoc]
    rfl

end Items
end SippyB2bua.Lib
