import Mathlib.Data.List.Basic

/-!
# Finite runs of a labelled step function

A run is the fold of a total step function over a list of labels. `Along`
records a condition on each label in the state in which it is taken, so that
an invariant has to be preserved only by the steps that meet the condition.
-/

namespace SippyB2bua.Lib

variable {σ ℓ : Type*}

def run (step : σ → ℓ → σ) (s : σ) (ls : List ℓ) : σ := ls.foldl step s

@[simp] theorem run_nil (step : σ → ℓ → σ) (s : σ) : run step s [] = s := rfl

@[simp] theorem run_cons (step : σ → ℓ → σ) (s : σ) (l : ℓ) (ls : List ℓ) :
    run step s (l :: ls) = run step (step s l) ls := rfl

theorem run_append (step : σ → ℓ → σ) (s : σ) (ls ms : List ℓ) :
    run step s (ls ++ ms) = run step (run step s ls) ms := List.foldl_append

/-- Every label of the run meets `ok` in the state in which it is taken. -/
def Along (step : σ → ℓ → σ) (ok : σ → ℓ → Prop) : σ → List ℓ → Prop
  | _, [] => True
  | s, l :: ls => ok s l ∧ Along step ok (step s l) ls

instance Along.decidable (step : σ → ℓ → σ) (ok : σ → ℓ → Prop) [∀ s l, Decidable (ok s l)] :
    ∀ s ls, Decidable (Along step ok s ls)
  | _, [] => .isTrue trivial
  | s, l :: ls => @instDecidableAnd _ _ _ (Along.decidable step ok (step s l) ls)

theorem along_append {step : σ → ℓ → σ} {ok : σ → ℓ → Prop} {s : σ} {ls ms : List ℓ} :
    Along step ok s (ls ++ ms) ↔ Along step ok s ls ∧ Along step ok (run step s ls) ms := by
  induction ls generalizing s with
  | nil => simp [Along]
  | cons l ls ih => simp [Along, ih, and_assoc]

theorem Along.imp {step : σ → ℓ → σ} {ok ok' : σ → ℓ → Prop}
    (himp : ∀ s l, ok s l → ok' s l) {s : σ} {ls : List ℓ} (h : Along step ok s ls) :
    Along step ok' s ls := by
  induction ls generalizing s with
  | nil => trivial
  | cons l ls ih => exact ⟨himp s l h.1, ih h.2⟩

theorem Along.invariant {step : σ → ℓ → σ} {ok : σ → ℓ → Prop} {I : σ → Prop}
    (hstep : ∀ s l, ok s l → I s → I (step s l)) {s : σ} {ls : List ℓ}
    (h : Along step ok s ls) (hs : I s) : I (run step s ls) := by
  induction ls generalizing s with
  | nil => exact hs
  | cons l ls ih => exact ih h.2 (hstep s l h.1 hs)

/-- Where a step leaves a good state good exactly if it meets the condition, every state of a run
is good exactly if the condition is met along it. -/
theorem along_iff_prefix {step : σ → ℓ → σ} {ok : σ → ℓ → Prop} {I good : σ → Prop}
    (hI : ∀ s l, I s → I (step s l)) (hstep : ∀ s l, I s → good s → (good (step s l) ↔ ok s l))
    {s : σ} (hs : I s) (hgood : good s) (ls : List ℓ) :
    (∀ ms, ms <+: ls → good (run step s ms)) ↔ Along step ok s ls := by
  induction ls generalizing s with
  | nil =>
    refine iff_of_true (fun ms hms => ?_) trivial
    rw [List.prefix_nil.mp hms]
    exact hgood
  | cons l ls ih =>
    constructor
    · intro h
      have hl : good (step s l) := h [l] ⟨ls, rfl⟩
      have hrest : ∀ ms, ms <+: ls → good (run step (step s l) ms) := fun ms hms =>
        h (l :: ms) (List.cons_prefix_cons.mpr ⟨rfl, hms⟩)
      exact ⟨(hstep s l hs hgood).mp hl, (ih (hI s l hs) hl).mp hrest⟩
    · rintro ⟨hok, hrest⟩ ms hms
      cases ms with
      | nil => exact hgood
      | cons l' ms =>
        obtain ⟨rfl, hrests⟩ := List.cons_prefix_cons.mp hms
        exact (ih (hI s l' hs) ((hstep s l' hs hgood).mpr hok)).mpr hrest ms hrests

theorem run_invariant {step : σ → ℓ → σ} {I : σ → Prop}
    (hstep : ∀ s l, I s → I (step s l)) {s : σ} (hs : I s) (ls : List ℓ) : I (run step s ls) := by
  induction ls generalizing s with
  | nil => exact hs
  | cons l ls ih => exact ih (hstep s l hs)

theorem run_rel {step : σ → ℓ → σ} {R : σ → σ → Prop} (hrefl : ∀ s, R s s)
    (htrans : ∀ a b c, R a b → R b c → R a c) (hstep : ∀ s l, R s (step s l))
    (s : σ) (ls : List ℓ) : R s (run step s ls) := by
  induction ls generalizing s with
  | nil => exact hrefl s
  | cons l ls ih => exact htrans _ _ _ (hstep s l) (ih (step s l))

end SippyB2bua.Lib
