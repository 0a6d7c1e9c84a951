import Mathlib.Tactic.Common
import Mathlib.Order.Basic

/-!
# While loops with a variant

A loop body either continues with a new state or leaves with a result. `exec`
runs a body for a bounded number of iterations, and `run` is the loop itself:
it can only be written down together with a variant that decreases on every
iteration, so it always leaves. `run_rule` is the total-correctness rule.
-/

namespace CexAggregator.Loop

variable {σ ρ : Type*}

/-- At most `n` evaluations of the body; `none` when the loop has not left by then. -/
def exec (step : σ → σ ⊕ ρ) : ℕ → σ → Option ρ
  | 0, _ => none
  | n+1, s =>
    match step s with
    | .inl next => exec step n next
    | .inr result => some result

def Decreases (step : σ → σ ⊕ ρ) (variant : σ → ℕ) : Prop :=
  ∀ s next, step s = .inl next → variant next < variant s

theorem exec_isSome {step : σ → σ ⊕ ρ} {variant : σ → ℕ} (h : Decreases step variant)
    (n : ℕ) (s : σ) (hn : variant s < n) : (exec step n s).isSome := by
  induction n generalizing s with
  | zero => omega
  | succ n ih =>
    cases hs : step s with
    | inl next =>
      have hlt := h s next hs
      simpa only [exec, hs] using ih next (by omega)
    | inr result => simp [exec, hs]

theorem exec_add {step : σ → σ ⊕ ρ} {n : ℕ} {s : σ} {r : ρ} (k : ℕ)
    (h : exec step n s = some r) : exec step (n+k) s = some r := by
  induction n generalizing s with
  | zero => simp [exec] at h
  | succ n ih =>
    rw [Nat.succ_add]
    cases hs : step s with
    | inl next =>
      simp only [exec, hs] at h ⊢
      exact ih h
    | inr result => simpa only [exec, hs] using h

def run (step : σ → σ ⊕ ρ) (variant : σ → ℕ) (h : Decreases step variant) (s : σ) : ρ :=
  (exec step (variant s + 1) s).get (exec_isSome h _ _ (Nat.lt_succ_self _))

theorem exec_eq_run {step : σ → σ ⊕ ρ} {variant : σ → ℕ} (h : Decreases step variant)
    {n : ℕ} {s : σ} (hn : variant s < n) : exec step n s = some (run step variant h s) := by
  obtain ⟨k, rfl⟩ := Nat.exists_eq_add_of_lt hn
  rw [show variant s + k + 1 = variant s + 1 + k by omega]
  exact exec_add k (Option.some_get _).symm

theorem run_eq (step : σ → σ ⊕ ρ) (variant : σ → ℕ) (h : Decreases step variant) (s : σ) :
    run step variant h s =
      match step s with
      | .inl next => run step variant h next
      | .inr result => result := by
  have hrun := exec_eq_run h (Nat.lt_succ_self (variant s))
  cases hs : step s with
  | inl next =>
    have hlt := h s next hs
    rw [Nat.succ_eq_add_one, exec, hs] at hrun
    simpa using (exec_eq_run h hlt).symm.trans hrun |>.symm
  | inr result =>
    rw [Nat.succ_eq_add_one, exec, hs] at hrun
    simpa using hrun.symm

/-- Partial correctness of the invariant and termination of the variant together:
what the body establishes on leaving holds of the loop's result. -/
theorem run_rule {step : σ → σ ⊕ ρ} {variant : σ → ℕ} (h : Decreases step variant)
    (I : σ → Prop) (Q : ρ → Prop)
    (hnext : ∀ s next, I s → step s = .inl next → I next)
    (hdone : ∀ s result, I s → step s = .inr result → Q result)
    {s : σ} (hs : I s) : Q (run step variant h s) := by
  induction hn : variant s using Nat.strongRecOn generalizing s with
  | ind n ih =>
    rw [run_eq]
    cases hstep : step s with
    | inl next => exact ih (variant next) (hn ▸ h s next hstep) (hnext s next hs hstep) rfl
    | inr result => exact hdone s result hs hstep

end CexAggregator.Loop
