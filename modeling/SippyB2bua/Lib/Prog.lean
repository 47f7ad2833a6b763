import Mathlib.Tactic.Common

/-!
# Programs with a state and exceptions

A handler is an `EStateM` program: an exception keeps the assignments made before
it. `wp` is the weakest precondition for a postcondition of a return and one of
an exception; its rules follow the constructs of the do notation. `Keeps` says
that a program moves its state along a relation, whether it returns or raises, and
`Ends` what holds of its value and its last state, wherever it was started.
-/

namespace SippyB2bua.Lib

variable {ε σ α β : Type}

/-- Started in `s`, the program returns with `Q` or raises with `E`. -/
def wp (p : EStateM ε σ α) (Q : α → σ → Prop) (E : ε → σ → Prop) (s : σ) : Prop :=
  match p s with
  | .ok a s' => Q a s'
  | .error e s' => E e s'

section Rules
variable {Q : α → σ → Prop} {R : β → σ → Prop} {E : ε → σ → Prop} {s : σ}

@[simp] theorem wp_pure (a : α) : wp (pure a : EStateM ε σ α) Q E s ↔ Q a s := Iff.rfl

@[simp] theorem wp_throw (e : ε) : wp (throw e : EStateM ε σ α) Q E s ↔ E e s := Iff.rfl

@[simp] theorem wp_bind (p : EStateM ε σ α) (f : α → EStateM ε σ β) :
    wp (p >>= f) R E s ↔ wp p (fun a s' => wp (f a) R E s') E s := by
  show wp (EStateM.bind p f) R E s ↔ _
  unfold wp EStateM.bind
  cases p s <;> rfl

@[simp] theorem wp_map (f : α → β) (p : EStateM ε σ α) :
    wp (f <$> p) R E s ↔ wp p (fun a s' => R (f a) s') E s := by
  show wp (EStateM.map f p) R E s ↔ _
  unfold wp EStateM.map
  cases p s <;> rfl

@[simp] theorem wp_discard (p : EStateM ε σ α) {R : PUnit → σ → Prop} :
    wp (discard p) R E s ↔ wp p (fun _ s' => R ⟨⟩ s') E s := wp_map _ _

@[simp] theorem wp_get {S : σ → σ → Prop} : wp (get : EStateM ε σ σ) S E s ↔ S s s := Iff.rfl

@[simp] theorem wp_set {S : PUnit → σ → Prop} (s' : σ) :
    wp (set s' : EStateM ε σ PUnit) S E s ↔ S ⟨⟩ s' := Iff.rfl

@[simp] theorem wp_modify {S : PUnit → σ → Prop} (f : σ → σ) :
    wp (modify f : EStateM ε σ PUnit) S E s ↔ S ⟨⟩ (f s) := Iff.rfl

@[simp] theorem wp_ofExcept (x : Except ε α) : wp (ofExcept x : EStateM ε σ α) Q E s ↔ match x with
    | .ok a => Q a s
    | .error e => E e s := by
  cases x <;> rfl

@[simp] theorem wp_tryCatch (p : EStateM ε σ α) (h : ε → EStateM ε σ α) :
    wp (tryCatch p h) Q E s ↔ wp p Q (fun e s' => wp (h e) Q E s') s := by
  show wp (EStateM.tryCatch p h) Q E s ↔ _
  unfold wp EStateM.tryCatch
  cases p s <;> rfl

@[simp] theorem wp_ite (c : Prop) [Decidable c] (p q : EStateM ε σ α) :
    wp (if c then p else q) Q E s ↔ (c → wp p Q E s) ∧ (¬ c → wp q Q E s) := by
  by_cases hc : c <;> simp [hc]

theorem wp_mono {p : EStateM ε σ α} {Q' : α → σ → Prop} {E' : ε → σ → Prop}
    (h : wp p Q E s) (hQ : ∀ a s', Q a s' → Q' a s') (hE : ∀ e s', E e s' → E' e s') :
    wp p Q' E' s := by
  unfold wp at *
  cases hp : p s with
  | ok a s' => simp only [hp] at h ⊢; exact hQ a s' h
  | error e s' => simp only [hp] at h ⊢; exact hE e s' h

theorem wp_and {p : EStateM ε σ α} {Q' : α → σ → Prop} {E' : ε → σ → Prop} (h : wp p Q E s)
    (h' : wp p Q' E' s) :
    wp p (fun a s' => Q a s' ∧ Q' a s') (fun e s' => E e s' ∧ E' e s') s := by
  unfold wp at *
  cases hp : p s with
  | ok a s' => simp only [hp] at h h' ⊢; exact ⟨h, h'⟩
  | error e s' => simp only [hp] at h h' ⊢; exact ⟨h, h'⟩

end Rules

def endState (p : EStateM ε σ α) (s : σ) : σ :=
  match p s with
  | .ok _ s' => s'
  | .error _ s' => s'

theorem endState_of_wp {p : EStateM ε σ α} {P : σ → Prop} {s : σ}
    (h : wp p (fun _ => P) (fun _ => P) s) : P (endState p s) := by
  unfold wp at h
  unfold endState
  cases hp : p s <;> simpa [hp] using h

def returns (p : EStateM ε σ α) (s : σ) : Bool :=
  match p s with
  | .ok _ _ => true
  | .error _ _ => false

theorem returns_iff {p : EStateM ε σ α} {s : σ} : returns p s ↔ ∃ a s', p s = .ok a s' := by
  unfold returns
  cases p s <;> simp

def exception (p : EStateM ε σ α) (s : σ) : Option ε :=
  match p s with
  | .ok _ _ => none
  | .error e _ => some e

/-- The postconditions hold of the exception, if there is one, and of the last state. -/
theorem exception_of_wp {p : EStateM ε σ α} {P : σ → Prop} {E : ε → σ → Prop} {s : σ}
    (h : wp p (fun _ => P) E s) : (exception p s).elim (P (endState p s)) fun e => E e (endState p s) := by
  unfold wp at h
  unfold exception endState
  cases hp : p s <;> simpa [hp] using h

theorem returns_eq (p : EStateM ε σ α) (s : σ) : returns p s = (exception p s).isNone := by
  unfold returns exception
  cases p s <;> rfl

theorem eq_ok_of_wp {p : EStateM ε σ α} {a : α} {s s' : σ}
    (h : wp p (fun b t => b = a ∧ t = s') (fun _ _ => False) s) : p s = .ok a s' := by
  unfold wp at h
  cases hp : p s with
  | ok b t =>
    rw [hp] at h
    rw [h.1, h.2]
  | error e t =>
    rw [hp] at h
    exact h.elim

theorem raises_of_wp {p : EStateM ε σ α} {s : σ} (h : wp p (fun _ _ => False) (fun _ _ => True) s) :
    ∃ e s', p s = .error e s' := by
  unfold wp at h
  cases hp : p s with
  | ok b t =>
    rw [hp] at h
    exact h.elim
  | error e t => exact ⟨e, t, rfl⟩

def Keeps (R : σ → σ → Prop) (p : EStateM ε σ α) : Prop :=
  ∀ s, wp p (fun _ s' => R s s') (fun _ s' => R s s') s

section Keeps
variable {R : σ → σ → Prop}

theorem Keeps.pure (hrefl : ∀ s, R s s) (a : α) : Keeps R (pure a : EStateM ε σ α) := hrefl

theorem Keeps.throw (hrefl : ∀ s, R s s) (e : ε) : Keeps R (throw e : EStateM ε σ α) := hrefl

theorem Keeps.bind (htrans : ∀ {a b c}, R a b → R b c → R a c) {p : EStateM ε σ α}
    {f : α → EStateM ε σ β} (hp : Keeps R p) (hf : ∀ a, Keeps R (f a)) : Keeps R (p >>= f) := by
  intro s
  rw [wp_bind]
  refine wp_mono (hp s) (fun a s' h => ?_) fun e s' h => h
  exact wp_mono (hf a s') (fun _ _ h' => htrans h h') fun _ _ h' => htrans h h'

end Keeps

/-- However the program was started, it ends in `P` if it returns. -/
def Ends (P : α → σ → Prop) (p : EStateM ε σ α) : Prop := ∀ s, wp p P (fun _ _ => True) s

section Ends
variable {P : α → σ → Prop}

theorem Ends.bind {p : EStateM ε σ β} {f : β → EStateM ε σ α} (h : ∀ b, Ends P (f b)) :
    Ends P (p >>= f) := by
  intro s
  rw [wp_bind]
  unfold wp
  cases p s with
  | ok b s' => exact h b s'
  | error e s' => trivial

theorem Ends.throw (e : ε) : Ends P (throw e : EStateM ε σ α) := fun _ => trivial

end Ends
end SippyB2bua.Lib
