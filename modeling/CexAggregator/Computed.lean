import Mathlib.Data.Nat.Notation
import Mathlib.Algebra.Order.Ring.Abs
import Mathlib.Algebra.Order.Ring.Int
import Mathlib.Tactic.Linarith
import Mathlib.Tactic.Positivity
import Mathlib.Algebra.Group.Nat.Even
import CexAggregator.Loop

/-!
# Arithmetic in fixed widths

A computation next to the exact result of every signed operation it performs and the width
in which the operation is done. When all of them fit, the machine computes the same value.
-/

namespace CexAggregator

def FitsWidth (width : ℕ) (v : Int) : Prop := -2 ^ (width - 1) ≤ v ∧ v ≤ 2 ^ (width - 1) - 1

instance (width : ℕ) (v : Int) : Decidable (FitsWidth width v) :=
  inferInstanceAs (Decidable (_ ∧ _))

theorem FitsWidth.magnitude_le {width : ℕ} {v : Int} (h : FitsWidth width v) :
    |v| ≤ 2 ^ (width - 1) := by
  obtain ⟨hlow, hhigh⟩ := h
  exact abs_le.mpr ⟨hlow, by omega⟩

theorem FitsWidth.mul {width : ℕ} (hwidth : 0 < width) {a b : Int} (ha : FitsWidth width a)
    (hb : FitsWidth width b) : FitsWidth (2 * width) (a * b) := by
  have hsquare : |a * b| ≤ 2 ^ (width - 1) * 2 ^ (width - 1) := by
    rw [abs_mul]
    exact mul_le_mul ha.magnitude_le hb.magnitude_le (abs_nonneg b) (by positivity)
  have hdouble : (2 : Int) ^ (2 * width - 1) = 2 * (2 ^ (width - 1) * 2 ^ (width - 1)) := by
    rw [← pow_add, ← pow_succ']
    congr 1
    omega
  have hone : (1 : Int) ≤ 2 ^ (width - 1) * 2 ^ (width - 1) := by
    have hpow : (1 : Int) ≤ 2 ^ (width - 1) := one_le_pow₀ (by decide)
    nlinarith
  obtain ⟨hlow, hhigh⟩ := abs_le.mp hsquare
  unfold FitsWidth
  rw [hdouble]
  omega

structure Computed (α : Type) where
  value : α
  results : List (ℕ × Int) := []

namespace Computed
variable {α β σ ρ : Type}

instance : Monad Computed where
  pure a := { value := a }
  bind x f := { value := (f x.value).value, results := x.results ++ (f x.value).results }

def result (width : ℕ) (v : Int) : Computed Int := { value := v, results := [(width, v)] }

abbrev int64 (v : Int) : Computed Int := result 64 v
abbrev int128 (v : Int) : Computed Int := result 128 v

def Exact (x : Computed α) : Prop := ∀ r ∈ x.results, FitsWidth r.1 r.2

instance (x : Computed α) : Decidable x.Exact :=
  inferInstanceAs (Decidable (∀ r ∈ x.results, FitsWidth r.1 r.2))

@[simp] theorem value_pure (a : α) : (pure a : Computed α).value = a := rfl

@[simp] theorem value_bind (x : Computed α) (f : α → Computed β) :
    (x >>= f).value = (f x.value).value := rfl

@[simp] theorem value_result (width : ℕ) (v : Int) : (result width v).value = v := rfl

theorem value_ite (p : Prop) [Decidable p] (x y : Computed α) :
    (if p then x else y).value = if p then x.value else y.value := apply_ite value p x y

theorem exact_ite (p : Prop) [Decidable p] (x y : Computed α) :
    (if p then x else y).Exact ↔ if p then x.Exact else y.Exact := by
  split_ifs <;> rfl

@[simp] theorem exact_pure (a : α) : (pure a : Computed α).Exact := by
  intro r hr
  cases hr

theorem exact_ite_pure (p : Prop) [Decidable p] (a b : α) :
    (if p then pure a else pure b : Computed α).Exact := by
  split_ifs
  · exact exact_pure a
  · exact exact_pure b

@[simp] theorem exact_bind (x : Computed α) (f : α → Computed β) :
    (x >>= f).Exact ↔ x.Exact ∧ (f x.value).Exact :=
  List.forall_mem_append

@[simp] theorem exact_result (width : ℕ) (v : Int) :
    (result width v).Exact ↔ FitsWidth width v := by
  simp [Exact, result]

theorem value_op (width : ℕ) (v : Int) (f : Int → Computed β) :
    (result width v >>= f).value = (f v).value := rfl

theorem exact_op (width : ℕ) (v : Int) (f : Int → Computed β) :
    (result width v >>= f).Exact ↔ FitsWidth width v ∧ (f v).Exact := by
  rw [exact_bind, exact_result, value_result]

def each (f : α → Computed β) : List α → Computed (List β)
  | [] => pure []
  | a :: as => do
    let b ← f a
    let bs ← each f as
    pure (b :: bs)

@[simp] theorem value_each (f : α → Computed β) (as : List α) :
    (each f as).value = as.map fun a => (f a).value := by
  induction as with
  | nil => rfl
  | cons a as ih => simp [each, ih]

@[simp] theorem exact_each (f : α → Computed β) (as : List α) :
    (each f as).Exact ↔ ∀ a ∈ as, (f a).Exact := by
  induction as with
  | nil => simp [each]
  | cons a as ih => simp [each, ih]

def round (step : σ → Computed (σ ⊕ ρ)) (s : Computed σ) : Computed σ ⊕ Computed ρ :=
  match (step s.value).value with
  | .inl next => .inl ⟨next, s.results ++ (step s.value).results⟩
  | .inr result => .inr ⟨result, s.results ++ (step s.value).results⟩

theorem round_decreases {step : σ → Computed (σ ⊕ ρ)} {variant : σ → ℕ}
    (h : Loop.Decreases (fun s => (step s).value) variant) :
    Loop.Decreases (round step) fun s => variant s.value := by
  intro s next hnext
  unfold round at hnext
  split at hnext
  · rename_i t ht
    cases hnext
    exact h s.value t ht
  · cases hnext

def loop (step : σ → Computed (σ ⊕ ρ)) (variant : σ → ℕ)
    (h : Loop.Decreases (fun s => (step s).value) variant) (s : σ) : Computed ρ :=
  Loop.run (round step) _ (round_decreases h) ⟨s, []⟩

section Rule
variable {step : σ → Computed (σ ⊕ ρ)} {variant : σ → ℕ}

theorem exact_round (x : Computed σ) :
    (∀ next, round step x = .inl next → (next.Exact ↔ x.Exact ∧ (step x.value).Exact)) ∧
      ∀ result, round step x = .inr result → (result.Exact ↔ x.Exact ∧ (step x.value).Exact) := by
  unfold round
  split
  · constructor
    · rintro next ⟨⟩
      exact List.forall_mem_append
    · rintro result ⟨⟩
  · constructor
    · rintro next ⟨⟩
    · rintro result ⟨⟩
      exact List.forall_mem_append

theorem value_round (step : σ → Computed (σ ⊕ ρ)) (x : Computed σ) :
    Sum.map value value (round step x) = (step x.value).value := by
  unfold round
  split <;> simp only [Sum.map_inl, Sum.map_inr, *]

theorem value_loop (h : Loop.Decreases (fun s => (step s).value) variant) (s : σ) :
    (loop step variant h s).value = Loop.run (fun s => (step s).value) variant h s := by
  refine Loop.run_rule (round_decreases h)
    (fun x => Loop.run (fun s => (step s).value) variant h x.value =
      Loop.run (fun s => (step s).value) variant h s)
    (fun r => r.value = Loop.run (fun s => (step s).value) variant h s) ?_ ?_ rfl
  · intro x next hx hnext
    have hvalue := value_round step x
    rw [hnext, Sum.map_inl] at hvalue
    rw [← hx, Loop.run_eq (s := x.value)]
    simp only [← hvalue]
  · intro x result hx hresult
    have hvalue := value_round step x
    rw [hresult, Sum.map_inr] at hvalue
    rw [← hx, Loop.run_eq (s := x.value)]
    simp only [← hvalue]

/-- When a round keeps `P` exactly if its own operations fit, so does the whole loop. -/
theorem exact_loop (h : Loop.Decreases (fun s => (step s).value) variant) (I : σ → Prop)
    (P : σ ⊕ ρ → Prop) (hnext : ∀ s next, I s → (step s).value = .inl next → I next)
    (hround : ∀ s, I s → (P (step s).value ↔ P (.inl s) ∧ (step s).Exact)) {s : σ} (hs : I s)
    (h0 : P (.inl s)) :
    (loop step variant h s).Exact ↔ P (.inr (loop step variant h s).value) := by
  refine Loop.run_rule (round_decreases h)
    (fun x => I x.value ∧ (x.Exact ↔ P (.inl x.value)))
    (fun r => r.Exact ↔ P (.inr r.value)) ?_ ?_ ⟨hs, iff_of_true (exact_pure s) h0⟩
  · rintro x next ⟨hx, hexact⟩ hround'
    have hvalue := value_round step x
    rw [hround', Sum.map_inl] at hvalue
    refine ⟨hnext x.value next.value hx hvalue.symm, ?_⟩
    rw [hvalue, hround x.value hx, ← hexact]
    exact (exact_round x).1 next hround'
  · rintro x result ⟨hx, hexact⟩ hround'
    have hvalue := value_round step x
    rw [hround', Sum.map_inr] at hvalue
    rw [hvalue, hround x.value hx, ← hexact]
    exact (exact_round x).2 result hround'

end Rule

end Computed

end CexAggregator
