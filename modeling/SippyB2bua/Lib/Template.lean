import Mathlib.Data.List.Basic
import Mathlib.Data.Nat.Notation
import Mathlib.Logic.Basic

/-!
# Templates

A text that depends on another text only by having it written into holes. Two such texts are
equal exactly if there is no hole or the texts written into it are, whatever stands around the
holes: each hole adds the same length, so the positions of all holes agree.
-/

namespace SippyB2bua.Lib

variable {α β : Type}

/-- The items of a template; `none` is a hole. -/
def fill (t : List (Option α)) (x : List α) : List α := t.flatMap fun p => p.elim x fun a => [a]

@[simp] theorem fill_nil (x : List α) : fill [] x = [] := rfl
@[simp] theorem fill_some (a : α) (t : List (Option α)) (x : List α) : fill (some a :: t) x = a :: fill t x := rfl
@[simp] theorem fill_none (t : List (Option α)) (x : List α) : fill (none :: t) x = x ++ fill t x := rfl

theorem fill_append (s t : List (Option α)) (x : List α) : fill (s ++ t) x = fill s x ++ fill t x :=
  List.flatMap_append

theorem fill_const (s x : List α) : fill (s.map some) x = s := by
  induction s with
  | nil => rfl
  | cons a s ih => rw [List.map_cons, fill_some, ih]

theorem length_fill [DecidableEq α] (t : List (Option α)) (x : List α) :
    (fill t x).length = (t.length - t.count none) + t.count none * x.length := by
  induction t with
  | nil => simp
  | cons p t ih =>
    have hle := List.count_le_length (a := none) (l := t)
    cases p with
    | none =>
      simp only [fill_none, List.length_append, ih, List.length_cons, List.count_cons_self]
      have hsub : t.length + 1 - (t.count none + 1) = t.length - t.count none := by omega
      rw [hsub, Nat.succ_mul]
      omega
    | some a =>
      simp only [fill_some, List.length_cons, ih, List.count_cons]
      simp only [beq_iff_eq, reduceCtorEq, if_false, Nat.add_zero]
      omega

theorem fill_inj [DecidableEq α] {t : List (Option α)} {x y : List α} (hole : none ∈ t)
    (h : fill t x = fill t y) : x = y := by
  have hlen : x.length = y.length := by
    have hlength := congrArg List.length h
    rw [length_fill, length_fill] at hlength
    have hpos : 0 < t.count none := List.count_pos_iff.mpr hole
    exact Nat.eq_of_mul_eq_mul_left hpos (by omega)
  induction t with
  | nil => exact absurd hole List.not_mem_nil
  | cons p t ih =>
    cases p with
    | none => exact (List.append_inj h hlen).1
    | some a =>
      have htail : none ∈ t := by simpa using hole
      exact ih htail (List.cons.inj h).2

/-- The function writes its argument into a template, which has a hole exactly if `p` holds. -/
def Fills (f : List α → List α) (p : Prop) : Prop :=
  ∃ t : List (Option α), (∀ x, f x = fill t x) ∧ (none ∈ t ↔ p)

namespace Fills

variable {f g : List α → List α} {p q : Prop}

theorem const (s : List α) : Fills (fun _ => s) False :=
  ⟨s.map some, fun x => (fill_const s x).symm, by simp⟩

theorem hole : Fills (fun x : List α => x) True :=
  ⟨[none], fun x => (List.append_nil x).symm, by simp⟩

theorem append (hf : Fills f p) (hg : Fills g q) : Fills (fun x => f x ++ g x) (p ∨ q) := by
  obtain ⟨s, hs, hp⟩ := hf
  obtain ⟨t, ht, hq⟩ := hg
  refine ⟨s ++ t, fun x => ?_, by rw [List.mem_append, hp, hq]⟩
  rw [fill_append, ← hs, ← ht]

theorem congr (hf : Fills f p) (h : p ↔ q) : Fills f q := by rwa [← propext h]

theorem flatMap (l : List β) (F : β → List α → List α) (P : β → Prop) (h : ∀ b ∈ l, Fills (F b) (P b)) :
    Fills (fun x => l.flatMap fun b => F b x) (∃ b ∈ l, P b) := by
  induction l with
  | nil => exact (const []).congr (by simp)
  | cons b l ih =>
    have hrest := ih fun b hb => h b (List.mem_cons_of_mem _ hb)
    exact ((h b List.mem_cons_self).append hrest).congr (by simp)

/-- Two texts are written the same exactly if they are equal, or nowhere written. -/
theorem eq_iff [DecidableEq α] (hf : Fills f p) (x y : List α) : f x = f y ↔ (p → x = y) := by
  obtain ⟨t, ht, hp⟩ := hf
  rw [ht, ht]
  constructor
  · intro h hole
    exact fill_inj (hp.mpr hole) h
  · intro h
    by_cases hole : p
    · rw [h hole]
    · have hfree : ∀ a ∈ t, a ≠ none := fun a ha hnone => hole (hp.mp (hnone ▸ ha))
      apply List.flatMap_congr
      intro a ha
      cases a with
      | none => exact absurd rfl (hfree none ha)
      | some a => rfl

end Fills

end SippyB2bua.Lib
