import Mathlib.Data.Option.Basic

/-!
# Runs of a machine

A machine is a function from a state and an action to the next state, undefined where the action
cannot happen. A run is a chain of its steps whose every step meets a condition, in the state it finds.

## Main definitions

* `Runs.Run`: states joined by steps that meet a condition.
* `Runs.exec`: the run of a list of actions.

## Main results

* `Runs.Run.invariant`: what every step that meets the condition preserves, every run preserves.
* `Runs.run_of_exec`: a list of actions that can be executed is a run.
-/

namespace Runs

variable {σ α : Type*} {step : σ → α → Option σ} {C D : σ → α → Prop}

/-- The states a run from `s` reaches, when each of its steps meets `C`. -/
inductive Run (step : σ → α → Option σ) (C : σ → α → Prop) (s : σ) : σ → Prop
  | refl : Run step C s s
  | next {m t : σ} {a : α} : Run step C s m → C m a → step m a = some t → Run step C s t

/-- What every step that meets the condition preserves, every run preserves. -/
theorem Run.invariant {P : σ → Prop} (hstep : ∀ m a t, P m → C m a → step m a = some t → P t)
    {s t : σ} (h : Run step C s t) (hs : P s) : P t := by
  induction h with
  | refl => exact hs
  | next _ hC hm ih => exact hstep _ _ _ ih hC hm

theorem Run.trans {s m t : σ} (h : Run step C s m) (h' : Run step C m t) : Run step C s t := by
  induction h' with
  | refl => exact h
  | next _ hC hm ih => exact .next ih hC hm

theorem Run.imp {s t : σ} (hCD : ∀ m a, C m a → D m a) (h : Run step C s t) : Run step D s t := by
  induction h with
  | refl => exact .refl
  | next _ hC hm ih => exact .next ih (hCD _ _ hC) hm

/-- Execute actions one after another, as long as each is possible and meets the condition. -/
def exec (step : σ → α → Option σ) (C : σ → α → Prop) [∀ s a, Decidable (C s a)] : σ → List α → Option σ
  | s, [] => some s
  | s, a :: actions => if C s a then (step s a).bind fun m => exec step C m actions else none

/-- A list of actions that can be executed is a run. -/
theorem run_of_exec [∀ s a, Decidable (C s a)] {s t : σ} {actions : List α}
    (h : exec step C s actions = some t) : Run step C s t := by
  induction actions generalizing s with
  | nil =>
    cases h
    exact .refl
  | cons a actions ih =>
    simp only [exec] at h
    split at h
    · rename_i hC
      obtain ⟨m, hm, hrest⟩ := Option.bind_eq_some_iff.mp h
      exact Run.trans (.next .refl hC hm) (ih hrest)
    · cases h

/-- A run that ends in a state with the property, found by executing actions. -/
theorem exists_run_of_exec [∀ s a, Decidable (C s a)] {s : σ} {actions : List α} {p : σ → Bool}
    (h : (exec step C s actions).any p = true) : ∃ t, Run step C s t ∧ p t = true := by
  obtain ⟨t, ht, hp⟩ := (Option.any_eq_true _ _).mp h
  exact ⟨t, run_of_exec ht, hp⟩

end Runs
