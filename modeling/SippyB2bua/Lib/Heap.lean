import Mathlib.Logic.Relation
import Mathlib.Order.Lattice
import Mathlib.Order.Nat

/-!
# Binary heaps in an array

The operations of a priority queue on an array: the children of position `p` are at `2 * p + 1` and
`2 * p + 2`, and no element is before its parent. What the elements are compared by is a parameter.
A new element rises from the end; for the root that is taken, the last element sinks along the
smaller children to a leaf and rises from there.
-/

namespace SippyB2bua.Lib.Heap

section Operations
variable {α κ : Type*} [LinearOrder κ] (key : α → κ)

/-- `xs[i] < xs[j]`. -/
def less (xs : Array α) (i j : ℕ) : Bool :=
  match xs[i]?, xs[j]? with
  | some x, some y => key x < key y
  | _, _ => false

/-- `_siftdown`: the element at `pos` rises, at most to `start`. -/
def siftdown (start : ℕ) : ℕ → ℕ → Array α → Array α
  | 0, _, xs => xs
  | fuel + 1, pos, xs =>
    if start < pos ∧ less key xs pos ((pos - 1) / 2) then
      siftdown start fuel ((pos - 1) / 2) (xs.swapIfInBounds pos ((pos - 1) / 2))
    else xs

def smaller (xs : Array α) (pos : ℕ) : ℕ :=
  if 2 * pos + 2 < xs.size ∧ ¬ less key xs (2 * pos + 1) (2 * pos + 2) then 2 * pos + 2 else 2 * pos + 1

/-- The element at `pos` sinks to a leaf. -/
def sink : ℕ → ℕ → Array α → Array α × ℕ
  | 0, pos, xs => (xs, pos)
  | fuel + 1, pos, xs =>
    if 2 * pos + 1 < xs.size then
      sink fuel (smaller key xs pos) (xs.swapIfInBounds pos (smaller key xs pos))
    else (xs, pos)

def siftup (pos : ℕ) (xs : Array α) : Array α :=
  let (ys, leaf) := sink key xs.size pos xs
  siftdown key pos leaf leaf ys

def heappush (xs : Array α) (x : α) : Array α := siftdown key 0 xs.size xs.size (xs.push x)

def heappop (xs : Array α) : Option (α × Array α) :=
  match xs.back? with
  | none => none
  | some last =>
    match xs.pop[0]? with
    | none => some (last, xs.pop)
    | some top => some (top, siftup key 0 (xs.pop.setIfInBounds 0 last))

def heapify (xs : Array α) : Array α :=
  (List.range (xs.size / 2)).reverse.foldl (fun xs pos => siftup key pos xs) xs

end Operations

def Child (p c : ℕ) : Prop := c = 2 * p + 1 ∨ c = 2 * p + 2

theorem Child.lt {p c : ℕ} (h : Child p c) : p < c := by
  unfold Child at h
  omega

theorem Child.unique {p q c : ℕ} (hp : Child p c) (hq : Child q c) : p = q := by
  unfold Child at hp hq
  omega

theorem child_parent {c : ℕ} (h : 0 < c) : Child ((c - 1) / 2) c := by
  unfold Child
  omega

/-- The positions below `start` in the tree, and itself. -/
abbrev Under (start pos : ℕ) : Prop := Relation.ReflTransGen Child start pos

theorem Under.le {start pos : ℕ} (h : Under start pos) : start ≤ pos := by
  induction h with
  | refl => exact le_rfl
  | tail _ hc ih => exact ih.trans hc.lt.le

theorem Under.parent {start pos : ℕ} (h : Under start pos) (hlt : start < pos) :
    Under start ((pos - 1) / 2) := by
  cases h with
  | refl => exact absurd hlt (lt_irrefl _)
  | tail h hc => rwa [(child_parent (by omega)).unique hc]

section Order
variable {α κ : Type*} [LinearOrder κ] {key key' : α → κ} {xs ys : Array α} {start pos i j fuel : ℕ}

/-- The element at `i` is not after that at `j`, if both are there. -/
def Le (key : α → κ) (xs : Array α) (i j : ℕ) : Prop :=
  ∀ x y, xs[i]? = some x → xs[j]? = some y → key x ≤ key y

/-- No child from `start` on is before its parent. -/
def Ordered (key : α → κ) (start : ℕ) (xs : Array α) : Prop :=
  ∀ p c, start ≤ p → Child p c → Le key xs p c

theorem Le.trans {k : ℕ} (hij : Le key xs i j) (hjk : Le key xs j k) (hj : j < xs.size) :
    Le key xs i k := fun x z hx hz =>
  (hij x xs[j] hx (Array.getElem?_eq_getElem hj)).trans (hjk xs[j] z (Array.getElem?_eq_getElem hj) hz)

theorem less_le (h : less key xs i j = true) : Le key xs i j := by
  intro x y hx hy
  simp only [less, hx, hy, decide_eq_true_eq] at h
  exact h.le

theorem not_less_le (h : ¬ less key xs i j = true) : Le key xs j i := by
  intro y x hy hx
  simp only [less, hx, hy, decide_eq_true_eq] at h
  exact not_lt.mp h

theorem swap_left (hi : i < xs.size) (hj : j < xs.size) : (xs.swapIfInBounds i j)[i]? = xs[j]? := by
  rw [Array.swapIfInBounds, dif_pos hi, dif_pos hj, Array.getElem?_swap]
  split
  · rename_i heq
    subst heq
    exact (Array.getElem?_eq_getElem hi).symm
  · rw [if_pos rfl, Array.getElem?_eq_getElem hj]

theorem swap_right (hi : i < xs.size) (hj : j < xs.size) : (xs.swapIfInBounds i j)[j]? = xs[i]? := by
  rw [Array.swapIfInBounds, dif_pos hi, dif_pos hj, Array.getElem?_swap, if_pos rfl,
    Array.getElem?_eq_getElem hi]

theorem swap_other {k : ℕ} (hki : k ≠ i) (hkj : k ≠ j) : (xs.swapIfInBounds i j)[k]? = xs[k]? := by
  unfold Array.swapIfInBounds
  split
  · split
    · rw [Array.getElem?_swap, if_neg hkj.symm, if_neg hki.symm]
    · rfl
  · rfl

theorem swap_perm (xs : Array α) (i j : ℕ) : (xs.swapIfInBounds i j).toList.Perm xs.toList := by
  unfold Array.swapIfInBounds
  split
  · split
    · rename_i hi hj
      exact (Array.swap_perm hi hj).toList
    · exact List.Perm.refl _
  · exact List.Perm.refl _

/-- All is in order but for the element at `pos`, which may be before its parent. -/
structure Rising (key : α → κ) (start pos : ℕ) (xs : Array α) : Prop where
  others : ∀ p c, start ≤ p → Child p c → c ≠ pos → Le key xs p c
  grand : ∀ p c, start ≤ p → Child p pos → Child pos c → Le key xs p c

theorem Rising.swap {q : ℕ} (h : Rising key start pos xs) (hq : Child q pos) (hstart : start ≤ q)
    (hpos : pos < xs.size) (hless : less key xs pos q = true) :
    Rising key start q (xs.swapIfInBounds pos q) := by
  have hlt := hq.lt
  have hitem : Le key xs pos q := less_le hless
  have hqs : q < xs.size := hlt.trans hpos
  have hat_pos := swap_left hpos hqs
  have hat_q := swap_right hpos hqs
  constructor
  · intro p c hp hc hcq x y hx hy
    by_cases hcp : c = pos
    · obtain rfl := hc.unique (hcp ▸ hq)
      rw [hat_q] at hx
      rw [hcp, hat_pos] at hy
      exact hitem x y hx hy
    · rw [swap_other hcp hcq] at hy
      by_cases hpp : p = pos
      · rw [hpp, hat_pos] at hx
        exact h.grand q c hstart hq (hpp ▸ hc) x y hx hy
      · by_cases hpq : p = q
        · rw [hpq, hat_q] at hx
          have hbelow : Le key xs q c := h.others q c hstart (hpq ▸ hc) hcp
          exact hitem.trans hbelow hqs x y hx hy
        · rw [swap_other hpp hpq] at hx
          exact h.others p c hp hc hcp x y hx hy
  · intro p c hp hpq hc x y hx hy
    have habove : Le key xs p q := h.others p q hp hpq hlt.ne
    rw [swap_other (hpq.lt.trans hlt).ne hpq.lt.ne] at hx
    by_cases hcp : c = pos
    · rw [hcp, hat_pos] at hy
      exact habove x y hx hy
    · rw [swap_other hcp hc.lt.ne'] at hy
      have hbelow : Le key xs q c := h.others q c hstart hc hcp
      exact habove.trans hbelow hqs x y hx hy

theorem siftdown_ordered (h : Rising key start pos xs) (hunder : Under start pos) (hpos : pos < xs.size)
    (hfuel : pos ≤ fuel) : Ordered key start (siftdown key start fuel pos xs) := by
  induction fuel generalizing pos xs with
  | zero =>
    intro p c hp hc
    refine h.others p c hp hc fun hcp => ?_
    have := hc.lt
    omega
  | succ fuel ih =>
    unfold siftdown
    split
    · rename_i hgo
      obtain ⟨hlt, hless⟩ := hgo
      have hunder' := hunder.parent hlt
      have hchild : Child ((pos - 1) / 2) pos := child_parent (by omega)
      apply ih (h.swap hchild hunder'.le hpos hless) hunder'
      · rw [Array.size_swapIfInBounds]
        omega
      · omega
    · rename_i hstop
      intro p c hp hc
      by_cases hcp : c = pos
      · have hlt : start < pos := hp.trans_lt (hcp ▸ hc.lt)
        have hle : Le key xs ((pos - 1) / 2) pos := not_less_le fun hless => hstop ⟨hlt, hless⟩
        obtain rfl := hc.unique (hcp ▸ child_parent (c := pos) (by omega))
        exact hcp ▸ hle
      · exact h.others p c hp hc hcp

theorem siftdown_perm : (siftdown key start fuel pos xs).toList.Perm xs.toList := by
  induction fuel generalizing pos xs with
  | zero => exact List.Perm.refl _
  | succ fuel ih =>
    unfold siftdown
    split
    · exact ih.trans (swap_perm xs _ _)
    · exact List.Perm.refl _

/-- All is in order but for the element at `pos`. -/
structure Sinking (key : α → κ) (start pos : ℕ) (xs : Array α) : Prop where
  others : ∀ p c, start ≤ p → Child p c → p ≠ pos → c ≠ pos → Le key xs p c
  grand : ∀ p c, start ≤ p → Child p pos → Child pos c → Le key xs p c

theorem smaller_child (key : α → κ) (xs : Array α) (pos : ℕ) : Child pos (smaller key xs pos) := by
  unfold smaller
  split
  · exact .inr rfl
  · exact .inl rfl

theorem smaller_lt (h : 2 * pos + 1 < xs.size) : smaller key xs pos < xs.size := by
  unfold smaller
  split
  · rename_i hright
    exact hright.1
  · exact h

theorem smaller_le {c : ℕ} (hc : Child pos c) : Le key xs (smaller key xs pos) c := by
  have hrefl (i : ℕ) : Le key xs i i := fun x y hx hy => (Option.some.inj (hx.symm.trans hy)) ▸ le_rfl
  unfold smaller
  split
  · rename_i hright
    rcases hc with rfl | rfl
    · exact not_less_le hright.2
    · exact hrefl _
  · rename_i hleft
    rcases hc with rfl | rfl
    · exact hrefl _
    · by_cases hsize : 2 * pos + 2 < xs.size
      · have hless : less key xs (2 * pos + 1) (2 * pos + 2) = true := by
          by_contra hnot
          exact hleft ⟨hsize, hnot⟩
        exact less_le hless
      · intro x y _ hy
        rw [Array.getElem?_eq_none (by omega)] at hy
        exact absurd hy (by simp)

theorem Sinking.swap {c : ℕ} (h : Sinking key start pos xs) (hc : Child pos c) (hstart : start ≤ pos)
    (hsize : c < xs.size) (hmin : ∀ d, Child pos d → Le key xs c d) :
    Sinking key start c (xs.swapIfInBounds pos c) := by
  have hlt := hc.lt
  have hpos : pos < xs.size := hlt.trans hsize
  have hat_pos := swap_left hpos hsize
  constructor
  · intro p d hp hd hpc hdc x y hx hy
    by_cases hpp : p = pos
    · rw [hpp, hat_pos] at hx
      rw [swap_other (hpp ▸ hd.lt.ne') hdc] at hy
      exact hmin d (hpp ▸ hd) x y hx hy
    · rw [swap_other hpp hpc] at hx
      by_cases hdp : d = pos
      · rw [hdp, hat_pos] at hy
        exact h.grand p c hp (hdp ▸ hd) hc x y hx hy
      · rw [swap_other hdp hdc] at hy
        exact h.others p d hp hd hpp hdp x y hx hy
  · intro p d _ hpc hd x y hx hy
    obtain rfl := hpc.unique hc
    rw [hat_pos] at hx
    rw [swap_other (hlt.trans hd.lt).ne' hd.lt.ne'] at hy
    exact h.others c d (hstart.trans hlt.le) hd hlt.ne' (hlt.trans hd.lt).ne' x y hx hy

theorem sink_rising (h : Sinking key start pos xs) (hunder : Under start pos) (hpos : pos < xs.size)
    (hfuel : xs.size ≤ pos + fuel) :
    Rising key start (sink key fuel pos xs).2 (sink key fuel pos xs).1 ∧
      Under start (sink key fuel pos xs).2 ∧
      (sink key fuel pos xs).2 < (sink key fuel pos xs).1.size := by
  induction fuel generalizing pos xs with
  | zero => exact absurd hpos (by omega)
  | succ fuel ih =>
    unfold sink
    split
    · rename_i hleft
      have hchild : Child pos (smaller key xs pos) := smaller_child key xs pos
      have hsize : smaller key xs pos < xs.size := smaller_lt hleft
      apply ih (h.swap hchild hunder.le hsize fun d hd => smaller_le hd) (hunder.tail hchild)
      · rwa [Array.size_swapIfInBounds]
      · have hlt := hchild.lt
        rw [Array.size_swapIfInBounds]
        omega
    · rename_i hleaf
      refine ⟨⟨fun p c hp hc hcp => ?_, h.grand⟩, hunder, hpos⟩
      by_cases hpp : p = pos
      · -- a leaf has no children
        intro x y _ hy
        have hout : xs.size ≤ c := by
          unfold Child at hc
          omega
        rw [Array.getElem?_eq_none hout] at hy
        exact absurd hy (by simp)
      · exact h.others p c hp hc hpp hcp

theorem sink_perm : (sink key fuel pos xs).1.toList.Perm xs.toList := by
  induction fuel generalizing pos xs with
  | zero => exact List.Perm.refl _
  | succ fuel ih =>
    unfold sink
    split
    · exact ih.trans (swap_perm xs _ _)
    · exact List.Perm.refl _

theorem siftup_ordered (h : ∀ p c, pos < p → Child p c → Le key xs p c) (hpos : pos < xs.size) :
    Ordered key pos (siftup key pos xs) := by
  have hsinking : Sinking key pos pos xs :=
    ⟨fun p c hp hc hne _ => h p c (lt_of_le_of_ne hp hne.symm) hc,
      fun p _ hp hc _ => absurd hc.lt (by omega)⟩
  obtain ⟨hrising, hunder, hsize⟩ := sink_rising hsinking .refl hpos (Nat.le_add_left xs.size pos)
  exact siftdown_ordered hrising hunder hsize le_rfl

theorem siftup_perm (key : α → κ) (pos : ℕ) (xs : Array α) : (siftup key pos xs).toList.Perm xs.toList :=
  siftdown_perm.trans sink_perm

theorem size_eq_of_perm (h : ys.toList.Perm xs.toList) : ys.size = xs.size := by
  rw [← Array.length_toList, ← Array.length_toList, h.length_eq]

theorem Ordered.root_le (h : Ordered key 0 xs) (i : ℕ) : Le key xs 0 i := by
  induction i using Nat.strong_induction_on with
  | _ i ih =>
    rcases Nat.eq_zero_or_pos i with rfl | hi
    · exact fun x y hx hy => (Option.some.inj (hx.symm.trans hy)) ▸ le_rfl
    · intro x y hx hy
      have hsize : i < xs.size := (Array.getElem?_eq_some_iff.mp hy).1
      have hchild := child_parent hi
      have hparent := ih _ hchild.lt
      exact hparent.trans (h _ i (Nat.zero_le _) hchild) (hchild.lt.trans hsize) x y hx hy

theorem heappush_perm (key : α → κ) (xs : Array α) (x : α) : (heappush key xs x).toList.Perm (x :: xs.toList) := by
  refine siftdown_perm.trans ?_
  rw [Array.toList_push]
  exact List.perm_append_singleton x xs.toList

theorem heappush_ordered (h : Ordered key 0 xs) (x : α) : Ordered key 0 (heappush key xs x) := by
  have hold {i : ℕ} (hi : i ≠ xs.size) : ∀ y, (xs.push x)[i]? = some y → xs[i]? = some y := by
    intro y hy
    rwa [Array.getElem?_push, if_neg hi] at hy
  have hnone {c : ℕ} (hc : Child xs.size c) : ∀ y, (xs.push x)[c]? ≠ some y := by
    intro y hy
    have hlt := hc.lt
    rw [Array.getElem?_eq_none (by rw [Array.size_push]; omega)] at hy
    exact absurd hy (by simp)
  have hunder : Under 0 xs.size := by
    induction xs.size using Nat.strong_induction_on with
    | _ n ih =>
      rcases Nat.eq_zero_or_pos n with rfl | hn
      · exact .refl
      · have hchild := child_parent hn
        exact (ih _ hchild.lt).tail hchild
  refine siftdown_ordered ⟨fun p c _ hc hne y z hy hz => ?_, fun p c _ _ hc y z _ hz => ?_⟩ hunder
    (by rw [Array.size_push]; omega) le_rfl
  · by_cases hp : p = xs.size
    · exact absurd hz (hnone (hp ▸ hc) z)
    · exact h p c (Nat.zero_le p) hc y z (hold hp y hy) (hold hne z hz)
  · exact absurd hz (hnone hc z)

theorem heappop_isSome : (heappop key xs).isSome ↔ xs ≠ #[] := by
  unfold heappop
  cases hback : xs.back? with
  | none => simpa using hback
  | some last =>
    have hne : xs ≠ #[] := by
      rintro rfl
      exact absurd hback (by simp)
    dsimp only
    split <;> simp [hne]

theorem heappop_spec {top : α} (hpop : heappop key xs = some (top, ys)) :
    xs[0]? = some top ∧ xs.toList.Perm (top :: ys.toList) ∧ (Ordered key 0 xs → Ordered key 0 ys) := by
  unfold heappop at hpop
  cases hback : xs.back? with
  | none => simp [hback] at hpop
  | some last =>
    obtain ⟨zs, rfl⟩ := Array.back?_eq_some_iff.mp hback
    rw [hback, Array.pop_push] at hpop
    dsimp only at hpop
    cases htop : zs[0]? with
    | none =>
      rw [htop] at hpop
      obtain ⟨rfl, rfl⟩ := Prod.mk.inj (Option.some.inj hpop)
      obtain rfl : zs = #[] := by simpa using htop
      refine ⟨rfl, List.Perm.refl _, fun _ p c _ _ x y hx => ?_⟩
      exact absurd hx (by simp)
    | some x =>
      rw [htop] at hpop
      obtain ⟨rfl, rfl⟩ := Prod.mk.inj (Option.some.inj hpop)
      have hsize : 0 < zs.size := (Array.getElem?_eq_some_iff.mp htop).1
      obtain ⟨t, ht⟩ : ∃ t, zs.toList = x :: t := by
        rw [← Array.getElem?_toList, ← List.head?_eq_getElem?] at htop
        exact List.head?_eq_some_iff.mp htop
      have hset : (zs.setIfInBounds 0 last).toList = last :: t := by
        rw [Array.toList_setIfInBounds, ht, List.set_cons_zero]
      refine ⟨?_, ?_, fun hordered => ?_⟩
      · rw [Array.getElem?_push, if_neg (by omega), htop]
      · rw [Array.toList_push, ht, List.cons_append]
        have hrest := (siftup_perm key 0 (zs.setIfInBounds 0 last)).symm
        rw [hset] at hrest
        exact ((List.perm_append_singleton last t).trans hrest).cons x
      · apply siftup_ordered _ (by rwa [Array.size_setIfInBounds])
        intro p c hp hc y z hy hz
        rw [Array.getElem?_setIfInBounds_ne (by omega)] at hy
        rw [Array.getElem?_setIfInBounds_ne (by have := hc.lt; omega)] at hz
        have hold {i : ℕ} {w : α} (hi : zs[i]? = some w) : (zs.push last)[i]? = some w := by
          rw [Array.getElem?_push, if_neg (by have := (Array.getElem?_eq_some_iff.mp hi).1; omega), hi]
        exact hordered p c (Nat.zero_le p) hc y z (hold hy) (hold hz)

theorem foldl_siftup {n : ℕ} (h : ∀ p c, n ≤ p → Child p c → Le key xs p c) (hn : n ≤ xs.size) :
    ((List.range n).reverse.foldl (fun xs pos => siftup key pos xs) xs).toList.Perm xs.toList ∧
      Ordered key 0 ((List.range n).reverse.foldl (fun xs pos => siftup key pos xs) xs) := by
  induction n generalizing xs with
  | zero => exact ⟨List.Perm.refl _, h⟩
  | succ n ih =>
    rw [List.range_succ, List.reverse_append, List.reverse_singleton, List.singleton_append, List.foldl_cons]
    have hperm : (siftup key n xs).toList.Perm xs.toList := siftup_perm key n xs
    obtain ⟨hrest, hordered⟩ := ih (siftup_ordered (fun p c hp hc => h p c hp hc) hn)
      ((Nat.le_of_succ_le hn).trans (size_eq_of_perm hperm).ge)
    exact ⟨hrest.trans hperm, hordered⟩

/-- A leaf has no children, so the second half of the array is in order. -/
theorem heapify_spec (xs : Array α) :
    (heapify key xs).toList.Perm xs.toList ∧ Ordered key 0 (heapify key xs) := by
  apply foldl_siftup
  · intro p c hp hc x y _ hy
    have hout : xs.size ≤ c := by
      unfold Child at hc
      omega
    rw [Array.getElem?_eq_none hout] at hy
    exact absurd hy (by simp)
  · omega

theorem Ordered.congr (h : Ordered key start xs) (hkey : ∀ x ∈ xs, key' x = key x) :
    Ordered key' start xs := by
  intro p c hp hc x y hx hy
  rw [hkey x (Array.mem_of_getElem? hx), hkey y (Array.mem_of_getElem? hy)]
  exact h p c hp hc x y hx hy

end Order

end SippyB2bua.Lib.Heap
