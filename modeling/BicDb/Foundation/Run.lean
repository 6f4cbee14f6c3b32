import Mathlib.Data.Option.Basic
import Mathlib.Data.List.Basic

/-!
# Runs of a labelled system

`step s a` is the state after `a`, or `none` where `a` cannot happen. `Reach step ok s₀` collects
the states of the runs whose actions meet `ok`; `Reach.invariant` is the rule for safety, and
`exists_reach` turns an executed history into a run.
-/

namespace BicDb.Foundation

variable {σ α : Type*}

/-- Execute actions, each checked against `ok` first. -/
def runGuarded (step : σ → α → Option σ) (ok : σ → α → Prop) [∀ s a, Decidable (ok s a)] :
    σ → List α → Option σ
  | s, [] => some s
  | s, a :: as =>
    if ok s a then
      match step s a with
      | none => none
      | some s' => runGuarded step ok s' as
    else none

/-- The states of the runs from `s₀` whose actions meet `ok`. -/
inductive Reach (step : σ → α → Option σ) (ok : σ → α → Prop) (s₀ : σ) : σ → Prop where
  | start : Reach step ok s₀ s₀
  | next {s s' : σ} {a : α} :
      Reach step ok s₀ s → ok s a → step s a = some s' → Reach step ok s₀ s'

variable {step : σ → α → Option σ} {ok : σ → α → Prop} {s₀ : σ}

variable {s : σ}

/-- **The invariant rule.** -/
theorem Reach.invariant (Inv : σ → Prop) (init : Inv s₀)
    (keep : ∀ s a s', Inv s → ok s a → step s a = some s' → Inv s') (h : Reach step ok s₀ s) :
    Inv s := by
  induction h with
  | start => exact init
  | next _ hok hstep ih => exact keep _ _ _ ih hok hstep

theorem Reach.mono {ok' : σ → α → Prop} (himp : ∀ s a, ok s a → ok' s a) (h : Reach step ok s₀ s) :
    Reach step ok' s₀ s := by
  induction h with
  | start => exact .start
  | next _ hok hstep ih => exact .next ih (himp _ _ hok) hstep

theorem Reach.trans {s₁ s₂ : σ} (h₁ : Reach step ok s₀ s₁) (h₂ : Reach step ok s₁ s₂) :
    Reach step ok s₀ s₂ := by
  induction h₂ with
  | start => exact h₁
  | next _ hok hstep ih => exact .next ih hok hstep

theorem reach_of_runGuarded [∀ s a, Decidable (ok s a)] {as : List α}
    (h : runGuarded step ok s₀ as = some s) : Reach step ok s₀ s := by
  induction as generalizing s₀ with
  | nil =>
    cases h
    exact .start
  | cons a as ih =>
    by_cases hok : ok s₀ a
    · cases hs : step s₀ a with
      | none => simp [runGuarded, hok, hs] at h
      | some s₁ =>
        have hrest : runGuarded step ok s₁ as = some s := by
          simpa [runGuarded, hok, hs] using h
        exact (Reach.next .start hok hs).trans (ih hrest)
    · simp [runGuarded, hok] at h

/-- An executed history leads to a state, with what was checked there. -/
theorem exists_reach [∀ s a, Decidable (ok s a)] {Q : σ → Prop} [DecidablePred Q] (as : List α)
    (h : (runGuarded step ok s₀ as).any (fun s => decide (Q s)) = true) :
    ∃ s, Reach step ok s₀ s ∧ Q s := by
  cases hrun : runGuarded step ok s₀ as with
  | none => simp [hrun] at h
  | some s =>
    rw [hrun] at h
    exact ⟨s, reach_of_runGuarded hrun, of_decide_eq_true h⟩

theorem exists_reach_imp [∀ s a, Decidable (ok s a)] (Q : σ → Prop) [DecidablePred Q] {R : σ → Prop}
    (as : List α) (h : (runGuarded step ok s₀ as).any (fun s => decide (Q s)) = true)
    (himp : ∀ {s}, Reach step ok s₀ s → Q s → R s) : ∃ s, Reach step ok s₀ s ∧ R s := by
  obtain ⟨s, hreach, hQ⟩ := exists_reach as h
  exact ⟨s, hreach, himp hreach hQ⟩

end BicDb.Foundation
