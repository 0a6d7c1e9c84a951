import Mathlib.Algebra.Order.Ring.Defs
import Mathlib.Algebra.Order.Ring.Int
import Mathlib.Tactic.Linarith
import Mathlib.Tactic.Positivity
import Mathlib.Tactic.Ring

/-!
# Positional notation

The value of a list of digits, most significant first, read from a start value. Reading on
never makes a value smaller, so a reader that stops as soon as a bound is passed accepts
exactly the lists whose value keeps the bound.
-/

namespace CexAggregator.Positional

section Value
variable {R : Type*} [CommSemiring R] (b : R)

def value (init : R) (ds : List R) : R := ds.foldl (fun n d => n * b + d) init

@[simp] theorem value_nil (init : R) : value b init [] = init := rfl

@[simp] theorem value_cons (init d : R) (ds : List R) :
    value b init (d :: ds) = value b (init * b + d) ds := rfl

theorem value_append (init : R) (as bs : List R) :
    value b init (as ++ bs) = value b (value b init as) bs := List.foldl_append

theorem value_init (init : R) (ds : List R) :
    value b init ds = init * b ^ ds.length + value b 0 ds := by
  induction ds generalizing init with
  | nil => simp
  | cons d ds ih =>
    rw [value_cons, value_cons, ih, ih (0 * b + d), List.length_cons]
    ring

theorem value_append_zero (as bs : List R) :
    value b 0 (as ++ bs) = value b 0 as * b ^ bs.length + value b 0 bs := by
  rw [value_append, value_init]

theorem value_replicate_zero (init : R) (n : ℕ) :
    value b init (List.replicate n 0) = init * b ^ n := by
  induction n generalizing init with
  | zero => simp
  | succ n ih =>
    rw [List.replicate_succ, value_cons, ih]
    ring

end Value

section Digits
variable {b init : Int} {as ds : List Int}

def Digits (b : Int) (ds : List Int) : Prop := ∀ d ∈ ds, 0 ≤ d ∧ d < b

theorem digits_cons {d : Int} : Digits b (d :: ds) ↔ (0 ≤ d ∧ d < b) ∧ Digits b ds :=
  List.forall_mem_cons

theorem le_value (h : Digits b ds) (hb : 1 ≤ b) (hinit : 0 ≤ init) : init ≤ value b init ds := by
  induction ds generalizing init with
  | nil => exact le_rfl
  | cons d ds ih =>
    obtain ⟨hd, hds⟩ := digits_cons.mp h
    have hstep : init ≤ init * b + d := by nlinarith
    exact hstep.trans (ih hds (hinit.trans hstep))

theorem value_nonneg (h : Digits b ds) (hb : 1 ≤ b) : 0 ≤ value b 0 ds := le_value h hb le_rfl

theorem value_lt_pow (h : Digits b ds) (hb : 1 ≤ b) : value b 0 ds < b ^ ds.length := by
  induction ds using List.reverseRecOn with
  | nil => simp
  | append_singleton ds d ih =>
    obtain ⟨hds, hd⟩ := List.forall_mem_append.mp h
    have hlt := ih hds
    have hlast := (hd d (List.mem_singleton_self d)).2
    rw [value_append, value_cons, value_nil, List.length_append, List.length_singleton, pow_succ]
    nlinarith

theorem value_append_ediv (h : Digits b ds) (hb : 1 ≤ b) :
    value b 0 (as ++ ds) / b ^ ds.length = value b 0 as := by
  have hpos : 0 < b ^ ds.length := by positivity
  rw [value_append_zero, add_comm, Int.add_mul_ediv_right _ _ hpos.ne',
    Int.ediv_eq_zero_of_lt (value_nonneg h hb) (value_lt_pow h hb), zero_add]

/-- Reads on as long as the value keeps the bound. -/
def readWithin (max b : Int) (init : Int) : List Int → Option Int
  | [] => some init
  | d :: ds => if init * b + d ≤ max then readWithin max b (init * b + d) ds else none

theorem readWithin_eq {max : Int} (h : Digits b ds) (hb : 1 ≤ b) (hinit : 0 ≤ init)
    (hmax : init ≤ max) :
    readWithin max b init ds =
      if value b init ds ≤ max then some (value b init ds) else none := by
  induction ds generalizing init with
  | nil => rw [readWithin, value_nil, if_pos hmax]
  | cons d ds ih =>
    obtain ⟨⟨hd, -⟩, hds⟩ := digits_cons.mp h
    have hnext : 0 ≤ init * b + d := by positivity
    rw [readWithin, value_cons]
    split_ifs with hle hall hall
    · rw [ih hds hnext hle, if_pos hall]
    · rw [ih hds hnext hle, if_neg hall]
    · exact (hle ((le_value hds hb hnext).trans hall)).elim
    · rfl

end Digits

end CexAggregator.Positional
