import Mathlib.Logic.Relation

/-!
# Machines

A machine takes labelled steps, each a partial function of its state.  A run may be asked to
keep a promise about each of its steps.

* `Run`, `Run.invariant` — the runs that keep a promise, and what every step keeps.
* `play`, `Run.of_play` — a run as a list of labels, to be evaluated.
-/

namespace Machine

open Relation

variable {σ ℓ : Type} (step : σ → ℓ → Option σ)

/-- No promise at all. -/
def anyStep : σ → ℓ → Prop := fun _ _ => True

/-- `s'` can be reached from `s` by steps that keep the promise. -/
def Run (T : σ → ℓ → Prop) : σ → σ → Prop :=
  ReflTransGen fun s s' => ∃ l, T s l ∧ step s l = some s'

/-- Take a list of steps that pass a check; `none` as soon as one does not or cannot be
taken. -/
def play (check : σ → ℓ → Bool) (s : σ) : List ℓ → Option σ
  | [] => some s
  | l :: ls => if check s l then (step s l).bind fun s' => play check s' ls else none

variable {step} {T T' : σ → ℓ → Prop} {s s' s'' : σ} {l : ℓ}

theorem Run.refl : Run step T s s := ReflTransGen.refl

theorem Run.tail (h : Run step T s s') (ht : T s' l) (hs : step s' l = some s'') :
    Run step T s s'' :=
  ReflTransGen.tail h ⟨l, ht, hs⟩

theorem Run.head (ht : T s l) (hs : step s l = some s') (h : Run step T s' s'') :
    Run step T s s'' :=
  ReflTransGen.head ⟨l, ht, hs⟩ h

theorem Run.trans (h : Run step T s s') (h' : Run step T s' s'') : Run step T s s'' :=
  ReflTransGen.trans h h'

/-- **The invariant rule.** -/
theorem Run.invariant (I : σ → Prop)
    (hstep : ∀ s l s', I s → T s l → step s l = some s' → I s') (h₀ : I s)
    (h : Run step T s s') : I s' := by
  induction h with
  | refl => exact h₀
  | tail _ hs ih =>
    obtain ⟨l, ht, hs⟩ := hs
    exact hstep _ _ _ ih ht hs

/-- A list of steps that pass their check is a run. -/
theorem Run.of_play {check : σ → ℓ → Bool} {ls : List ℓ} (hT : ∀ s l, check s l = true → T s l)
    (h : play step check s ls = some s') : Run step T s s' := by
  induction ls generalizing s with
  | nil => cases h; exact Run.refl
  | cons l ls ih =>
    rw [play] at h
    split at h
    · rename_i hc
      obtain ⟨s₁, hs, hr⟩ := Option.bind_eq_some_iff.1 h
      exact Run.head (hT _ _ hc) hs (ih hr)
    · cases h

end Machine
