import CexAggregator.Book

/-!
# The consolidated ladder

The k-way merge of the venue sides into one ladder, best price first. A venue's cursor
is the part of its side not consumed yet. Each round picks the best price among the
cursor heads, applies the three limits, and consumes every venue at that price.
-/

namespace CexAggregator
open OrderedTable

def kMaxVenues : ℕ := 3

structure MergedLevel where
  px : Int := 0
  qty : Int := 0
deriving DecidableEq, Repr

instance : Entry MergedLevel Int Int where
  key := MergedLevel.px
  val := MergedLevel.qty
  ext_entry a b hp hq := by cases a; cases b; simp_all

structure MergeLimits where
  notionalTarget : Int := 0
  maxBpsFromTouch : Int := 0
  maxLevels : Int32 := 4096
deriving DecidableEq

/-- `static_cast<std::size_t>`: a negative count wraps to an unreachable one. -/
def MergeLimits.levelCap (limits : MergeLimits) : ℕ := (limits.maxLevels.toInt % 2 ^ 64).toNat

structure VenueSideInput where
  venueIndex : ℕ := 0
  levels : List Level
deriving DecidableEq

structure MergeOutput where
  levels : List MergedLevel
  truncated : Bool
deriving DecidableEq, Repr

structure MergeState where
  cursors : List (List Level)
  out : List MergedLevel := []
  cumulativeNotional : Int := 0
  bound : Int := 0
  boundComputed : Bool := false

def bestOf (descending : Bool) (best : Option Int) (cursor : List Level) : Option Int :=
  match cursor, best with
  | [], _ => best
  | l :: _, none => some l.px
  | l :: _, some b => if Better descending l.px b then some l.px else some b

def bestHead (descending : Bool) (cursors : List (List Level)) : Option Int :=
  cursors.foldl (bestOf descending) none

def qtyAtHead (best : Int) : List Level → Int
  | [] => 0
  | l :: _ => if l.px = best then l.qty else 0

def advance (best : Int) : List Level → List Level
  | [] => []
  | l :: rest => if l.px = best then rest else l :: rest

def boundAt (descending : Bool) (limits : MergeLimits) (s : MergeState) (best : Int) : Int :=
  if 0 < limits.maxBpsFromTouch ∧ s.boundComputed = false then
    offsetByBpsOutward best limits.maxBpsFromTouch descending
  else s.bound

def PriceInside (descending : Bool) (bound px : Int) : Prop :=
  if descending then bound ≤ px else px ≤ bound

instance (descending : Bool) (bound px : Int) : Decidable (PriceInside descending bound px) :=
  inferInstanceAs (Decidable (if descending then bound ≤ px else px ≤ bound))

theorem not_inside_of_better {descending : Bool} {bound a b : Int} (h : Better descending a b)
    (ha : ¬ PriceInside descending bound a) : ¬ PriceInside descending bound b := by
  cases descending <;>
    simp only [Better, PriceInside, Bool.false_eq_true, ↓reduceIte] at h ha ⊢ <;>
    omega

def mergeStep (descending : Bool) (limits : MergeLimits) (s : MergeState) :
    MergeState ⊕ MergeOutput :=
  match bestHead descending s.cursors with
  | none => .inr ⟨s.out, false⟩
  | some best =>
    if limits.levelCap ≤ s.out.length then .inr ⟨s.out, true⟩
    else
      let bound := boundAt descending limits s best
      if 0 < limits.maxBpsFromTouch ∧ ¬ PriceInside descending bound best then .inr ⟨s.out, true⟩
      else
        let level : MergedLevel := ⟨best, (s.cursors.map (qtyAtHead best)).sum⟩
        let cursors := s.cursors.map (advance best)
        let out := s.out ++ [level]
        let cumulative := s.cumulativeNotional + notionalWide level.px level.qty
        if 0 < limits.notionalTarget ∧ limits.notionalTarget ≤ cumulative then
          .inr ⟨out, cursors.any fun cursor => ¬ cursor = []⟩
        else
          .inl ⟨cursors, out, cumulative, bound,
            s.boundComputed || decide (0 < limits.maxBpsFromTouch)⟩

def remaining (cursors : List (List Level)) : ℕ := (cursors.map List.length).sum

theorem advance_length_le (best : Int) (cursor : List Level) :
    (advance best cursor).length ≤ cursor.length := by
  cases cursor with
  | nil => exact le_rfl
  | cons l rest =>
    simp only [advance]
    split_ifs <;> simp

theorem remaining_advance_le (best : Int) (cursors : List (List Level)) :
    remaining (cursors.map (advance best)) ≤ remaining cursors := by
  induction cursors with
  | nil => exact le_rfl
  | cons c cursors ih =>
    have hc := advance_length_le best c
    simp only [remaining, List.map_cons, List.sum_cons] at ih ⊢
    omega

theorem remaining_advance_lt {best : Int} {cursors : List (List Level)}
    (h : ∃ l rest, l :: rest ∈ cursors ∧ l.px = best) :
    remaining (cursors.map (advance best)) < remaining cursors := by
  obtain ⟨l, rest, hmem, hbest⟩ := h
  obtain ⟨pre, post, rfl⟩ := List.append_of_mem hmem
  have hpre := remaining_advance_le best pre
  have hpost := remaining_advance_le best post
  simp only [remaining, List.map_append, List.map_cons, List.sum_append, List.sum_cons, advance,
    hbest, ↓reduceIte, List.length_cons] at hpre hpost ⊢
  omega

def IsBestHead (descending : Bool) (cursors : List (List Level)) : Option Int → Prop
  | none => ∀ c ∈ cursors, c = []
  | some best => (∃ l rest, l :: rest ∈ cursors ∧ l.px = best) ∧
      ∀ l rest, l :: rest ∈ cursors → ¬ Better descending l.px best

theorem bestOf_spec {descending : Bool} {cursors : List (List Level)} {best : Option Int}
    (h : IsBestHead descending cursors best) (cursor : List Level) :
    IsBestHead descending (cursors ++ [cursor]) (bestOf descending best cursor) := by
  cases cursor with
  | nil =>
    cases best with
    | none => exact List.forall_mem_append.mpr ⟨h, by simp⟩
    | some b => simpa [IsBestHead, bestOf] using h
  | cons l rest =>
    cases best with
    | none =>
      refine ⟨⟨l, rest, by simp, rfl⟩, fun x xs hx => ?_⟩
      rcases List.mem_append.mp hx with hx | hx
      · exact (List.cons_ne_nil _ _ (h _ hx)).elim
      · cases List.mem_singleton.mp hx
        exact irrefl_of (Better descending) _
    | some b =>
      obtain ⟨⟨y, ys, hy, hyb⟩, hbound⟩ := h
      simp only [bestOf]
      split_ifs with hlt
      · refine ⟨⟨l, rest, by simp, rfl⟩, fun x xs hx => ?_⟩
        rcases List.mem_append.mp hx with hx | hx
        · exact fun hxl => hbound x xs hx (trans_of (Better descending) hxl hlt)
        · cases List.mem_singleton.mp hx
          exact irrefl_of (Better descending) _
      · refine ⟨⟨y, ys, List.mem_append_left _ hy, hyb⟩, fun x xs hx => ?_⟩
        rcases List.mem_append.mp hx with hx | hx
        · exact hbound x xs hx
        · cases List.mem_singleton.mp hx
          exact hlt

theorem bestHead_spec (descending : Bool) (cursors : List (List Level)) :
    IsBestHead descending cursors (bestHead descending cursors) := by
  induction cursors using List.reverseRecOn with
  | nil => exact fun c hc => (List.not_mem_nil hc).elim
  | append_singleton cursors cursor ih =>
    rw [bestHead, List.foldl_append]
    exact bestOf_spec ih cursor

theorem mergeStep_decreases (descending : Bool) (limits : MergeLimits) :
    Loop.Decreases (mergeStep descending limits) fun s => remaining s.cursors := by
  intro s next h
  simp only [mergeStep] at h
  split at h
  · cases h
  rename_i best hbest
  have hspec := bestHead_spec descending s.cursors
  rw [hbest] at hspec
  split_ifs at h
  all_goals
    cases h
    exact remaining_advance_lt hspec.1

def mergeSide (descending : Bool) (inputs : List VenueSideInput) (limits : MergeLimits) :
    MergeOutput :=
  Loop.run (mergeStep descending limits) _ (mergeStep_decreases descending limits)
    { cursors := inputs.map VenueSideInput.levels }

end CexAggregator
