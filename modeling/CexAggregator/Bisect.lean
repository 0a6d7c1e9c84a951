import CexAggregator.Loop
import Mathlib.Data.List.TakeWhile

/-!
# Lower bound by bisection

The halving loop behind `std::lower_bound`. On a range partitioned by the
predicate it stops at the partition point; an unpartitioned range still gives
some index, as the standard leaves unspecified which.
-/

namespace CexAggregator.Bisect

variable {α : Type*}

structure Range where
  first : ℕ
  count : ℕ

def halve (before : α → Bool) (as : List α) (r : Range) : Range ⊕ ℕ :=
  if r.count = 0 then .inr r.first
  else
    let half := r.count / 2
    if (as[r.first + half]?).any before then .inl ⟨r.first + half + 1, r.count - (half + 1)⟩
    else .inl ⟨r.first, half⟩

theorem halve_decreases (before : α → Bool) (as : List α) :
    Loop.Decreases (halve before as) Range.count := by
  intro r next h
  simp only [halve] at h
  split_ifs at h with h0 hb <;> cases h <;> dsimp <;> omega

def lowerBound (before : α → Bool) (as : List α) : ℕ :=
  Loop.run (halve before as) Range.count (halve_decreases before as) ⟨0, as.length⟩

theorem any_getElem?_append {before : α → Bool} {pre post : List α}
    (hpre : ∀ a ∈ pre, before a = true) (hpost : ∀ a ∈ post, before a = false) (i : ℕ) :
    ((pre ++ post)[i]?).any before = decide (i < pre.length) := by
  by_cases hi : i < pre.length
  · simp [List.getElem?_append_left hi, hi, hpre]
  · rw [List.getElem?_append_right (by omega)]
    cases hp : post[i - pre.length]? with
    | none => simp [hi]
    | some a => simp [hi, hpost a (List.mem_of_getElem? hp)]

theorem lowerBound_append {before : α → Bool} {pre post : List α}
    (hpre : ∀ a ∈ pre, before a = true) (hpost : ∀ a ∈ post, before a = false) :
    lowerBound before (pre ++ post) = pre.length := by
  -- The partition point stays inside the half-open range still to be searched.
  refine Loop.run_rule (halve_decreases before (pre ++ post))
    (fun r => r.first ≤ pre.length ∧ pre.length ≤ r.first + r.count) (· = pre.length)
    ?_ ?_ ⟨Nat.zero_le _, by simp⟩
  · rintro r next ⟨hlo, hhi⟩ h
    simp only [halve, any_getElem?_append hpre hpost, decide_eq_true_eq] at h
    split_ifs at h with h0 hb <;> cases h <;> dsimp <;> omega
  · rintro r result ⟨hlo, hhi⟩ h
    simp only [halve] at h
    split_ifs at h
    cases h
    omega

end CexAggregator.Bisect
