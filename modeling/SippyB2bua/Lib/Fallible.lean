import Mathlib.Data.List.Forall2

/-!
# Computations that may raise

When a sequence of computations succeeds, and with what. Each rule takes one step apart.
-/

namespace SippyB2bua.Lib

variable {ε α β : Type}

theorem bind_ok {x : Except ε α} {f : α → Except ε β} {b : β} :
    x >>= f = .ok b ↔ ∃ a, x = .ok a ∧ f a = .ok b := by
  cases x with
  | error e => simp [bind, Except.bind]
  | ok a => simp [bind, Except.bind]

theorem ok_bind (a : α) (f : α → Except ε β) : (Except.ok a >>= f) = f a := rfl

theorem map_ok {x : Except ε α} {f : α → β} {b : β} :
    x.map f = .ok b ↔ ∃ a, x = .ok a ∧ f a = b := by
  cases x with
  | error e => simp [Except.map]
  | ok a => simp [Except.map]

theorem mapM_ok {f : α → Except ε β} {xs : List α} {ys : List β} :
    xs.mapM f = .ok ys ↔ List.Forall₂ (fun x y => f x = .ok y) xs ys := by
  induction xs generalizing ys with
  | nil =>
    rw [List.mapM_nil, List.forall₂_nil_left_iff]
    constructor
    · intro h
      exact (Except.ok.inj h).symm
    · rintro rfl
      rfl
  | cons x xs ih =>
    rw [List.mapM_cons, bind_ok]
    constructor
    · rintro ⟨y, hy, hrest⟩
      obtain ⟨zs, hzs, heq⟩ := bind_ok.mp hrest
      cases heq
      exact .cons hy (ih.mp hzs)
    · intro h
      cases h with
      | cons hy hzs => exact ⟨_, hy, bind_ok.mpr ⟨_, ih.mpr hzs, rfl⟩⟩

theorem mapM_error {f : α → Except ε β} {xs : List α} {e : ε} : xs.mapM f = .error e ↔
    ∃ pre x post, xs = pre ++ x :: post ∧ (∀ y ∈ pre, ∃ z, f y = .ok z) ∧ f x = .error e := by
  induction xs with
  | nil =>
    refine iff_of_false (fun h => nomatch h) ?_
    rintro ⟨pre, x, post, h, -⟩
    simp at h
  | cons x xs ih =>
    rw [List.mapM_cons]
    cases hx : f x with
    | error e' =>
      constructor
      · intro h
        cases h
        exact ⟨[], x, xs, rfl, (fun y hy => nomatch hy), hx⟩
      · rintro ⟨pre, x', post, heq, hpre, hx'⟩
        cases pre with
        | nil =>
          obtain ⟨rfl, -⟩ := List.cons.inj heq
          rw [hx] at hx'
          cases hx'
          rfl
        | cons y pre =>
          obtain ⟨rfl, -⟩ := List.cons.inj heq
          obtain ⟨z, hz⟩ := hpre x List.mem_cons_self
          rw [hx] at hz
          exact nomatch hz
    | ok y =>
      have hrest : (xs.mapM f >>= fun ys => pure (y :: ys)) = .error e ↔ xs.mapM f = .error e := by
        cases xs.mapM f with
        | error e' => exact ⟨fun h => h, fun h => h⟩
        | ok ys => exact ⟨(fun h => nomatch h), fun h => nomatch h⟩
      rw [ok_bind, hrest, ih]
      constructor
      · rintro ⟨pre, x', post, rfl, hpre, hx'⟩
        refine ⟨x :: pre, x', post, rfl, fun z hz => ?_, hx'⟩
        rcases List.mem_cons.mp hz with rfl | hz
        · exact ⟨y, hx⟩
        · exact hpre z hz
      · rintro ⟨pre, x', post, heq, hpre, hx'⟩
        cases pre with
        | nil =>
          obtain ⟨rfl, -⟩ := List.cons.inj heq
          rw [hx] at hx'
          exact nomatch hx'
        | cons z pre =>
          obtain ⟨rfl, rfl⟩ := List.cons.inj heq
          exact ⟨pre, x', post, rfl, fun w hw => hpre w (List.mem_cons_of_mem _ hw), hx'⟩

theorem mapM_of_ok {f : α → Except ε β} {xs : List α} (h : ∀ x ∈ xs, ∃ y, f x = .ok y) :
    ∃ ys, xs.mapM f = .ok ys := by
  cases hm : xs.mapM f with
  | ok ys => exact ⟨ys, rfl⟩
  | error e =>
    obtain ⟨pre, x, post, rfl, -, hx⟩ := mapM_error.mp hm
    obtain ⟨y, hy⟩ := h x (by simp)
    exact nomatch hx.symm.trans hy

theorem foldlM_ok_append {f : β → α → Except ε β} {b c d : β} {xs xs' : List α}
    (h : xs.foldlM f b = .ok c) (h' : xs'.foldlM f c = .ok d) : (xs ++ xs').foldlM f b = .ok d := by
  rw [List.foldlM_append, h]
  exact h'

theorem foldlM_concat_ok {f : β → α → Except ε β} {b d : β} {xs : List α} {x : α} :
    (xs ++ [x]).foldlM f b = .ok d ↔ ∃ c, xs.foldlM f b = .ok c ∧ f c x = .ok d := by
  rw [List.foldlM_append, bind_ok]
  apply exists_congr
  intro c
  rw [List.foldlM_cons, bind_ok]
  constructor
  · rintro ⟨hxs, d', hd, heq⟩
    cases heq
    exact ⟨hxs, hd⟩
  · rintro ⟨hxs, hd⟩
    exact ⟨hxs, d, hd, rfl⟩

/-- A loop succeeds if each of its turns does, whatever the turns before it did. -/
theorem foldlM_ok {f : β → α → Except ε β} {xs : List α} (h : ∀ x ∈ xs, ∀ b, ∃ c, f b x = .ok c) (b : β) :
    ∃ c, xs.foldlM f b = .ok c := by
  induction xs generalizing b with
  | nil => exact ⟨b, rfl⟩
  | cons x xs ih =>
    obtain ⟨c, hc⟩ := h x List.mem_cons_self b
    obtain ⟨d, hd⟩ := ih (fun y hy => h y (List.mem_cons_of_mem x hy)) c
    refine ⟨d, ?_⟩
    rw [List.foldlM_cons, hc]
    exact hd

theorem exists_of_forall₂ {R : α → β → Prop} {xs : List α} {ys : List β} {x : α}
    (h : List.Forall₂ R xs ys) (hx : x ∈ xs) : ∃ y ∈ ys, R x y := by
  induction h with
  | nil => exact absurd hx List.not_mem_nil
  | @cons x' y xs ys hR _ ih =>
    rcases List.mem_cons.mp hx with rfl | hx
    · exact ⟨y, List.mem_cons_self, hR⟩
    · obtain ⟨z, hz, hR⟩ := ih hx
      exact ⟨z, List.mem_cons_of_mem y hz, hR⟩

theorem forall₂_mem {R : α → β → Prop} {xs : List α} {ys : List β}
    (h : List.Forall₂ R xs ys) : List.Forall₂ (fun x y => x ∈ xs ∧ R x y) xs ys := by
  obtain ⟨hlen, hzip⟩ := List.forall₂_iff_zip.mp h
  exact List.forall₂_iff_zip.mpr ⟨hlen, fun hab => ⟨(List.of_mem_zip hab).1, hzip hab⟩⟩

theorem forall₂_last {R : α → β → Prop} {xs : List α} {ys : List β} {x : α} (h : List.Forall₂ R (xs ++ [x]) ys) :
    ∃ y, ys.getLast? = some y ∧ R x y := by
  have hreverse := List.rel_reverse h
  rw [List.reverse_append, List.reverse_singleton, List.singleton_append] at hreverse
  obtain ⟨y, ys', hy, -, heq⟩ := List.forall₂_cons_left_iff.mp hreverse
  refine ⟨y, ?_, hy⟩
  rw [List.getLast?_eq_head?_reverse, heq]
  rfl

theorem forall₂_iff_left {R S : α → β → Prop} {Q : α → Prop} {xs : List α} {ys : List β} (hS : List.Forall₂ S xs ys)
    (h : ∀ x ∈ xs, ∀ y ∈ ys, S x y → (R x y ↔ Q x)) : List.Forall₂ R xs ys ↔ ∀ x ∈ xs, Q x := by
  induction hS with
  | nil => exact iff_of_true .nil fun x hx => absurd hx List.not_mem_nil
  | @cons x y xs ys hxy _ ih =>
    have hrest := ih fun x' hx' y' hy' => h x' (List.mem_cons_of_mem x hx') y' (List.mem_cons_of_mem y hy')
    rw [List.forall₂_cons, hrest, h x List.mem_cons_self y List.mem_cons_self hxy, List.forall_mem_cons]

theorem rel_none {R : α → β → Prop} {y : Option β} (h : Option.Rel R none y) : y = none := by
  cases h
  rfl

theorem rel_some {R : α → β → Prop} {x : α} {y : Option β} (h : Option.Rel R (some x) y) :
    ∃ z, y = some z ∧ R x z := by
  cases h with
  | some hR => exact ⟨_, rfl, hR⟩

theorem forall₂_trans {γ : Type} {R : α → β → Prop} {S : β → γ → Prop} {T : α → γ → Prop} {xs : List α} {ys : List β}
    {zs : List γ} (hR : List.Forall₂ R xs ys) (hS : List.Forall₂ S ys zs)
    (h : ∀ x y z, R x y → S y z → T x z) : List.Forall₂ T xs zs := by
  induction hR generalizing zs with
  | nil =>
    cases hS
    exact .nil
  | cons hxy _ ih =>
    cases hS with
    | cons hyz hS => exact .cons (h _ _ _ hxy hyz) (ih hS)

theorem mem_mapM {f : α → Option β} {xs : List α} {ys : List β} {y : β}
    (h : xs.mapM f = some ys) (hy : y ∈ ys) : ∃ x ∈ xs, f x = some y := by
  induction xs generalizing ys with
  | nil =>
    cases h
    exact absurd hy List.not_mem_nil
  | cons x xs ih =>
    rw [List.mapM_cons] at h
    obtain ⟨z, hz, h⟩ := Option.bind_eq_some_iff.mp h
    obtain ⟨zs, hzs, h⟩ := Option.bind_eq_some_iff.mp h
    cases h
    rcases List.mem_cons.mp hy with rfl | hy
    · exact ⟨x, List.mem_cons_self, hz⟩
    · obtain ⟨x', hx', hy⟩ := ih hzs hy
      exact ⟨x', List.mem_cons_of_mem x hx', hy⟩

end SippyB2bua.Lib
