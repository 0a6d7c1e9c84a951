import CexAggregator.FixedParse
import CexAggregator.MergeSpec

/-!
# The arithmetic of the merge

The merge with every operation it performs: the quantities of a price are added in `int64`,
notionals and the price bound in 128 bits. The bound always fits. A round fits exactly if the
quantity it sums up and the notional it arrives at do.
-/

namespace CexAggregator
open OrderedTable
open Computed (exact_bind exact_ite_pure exact_op exact_pure value_bind value_ite value_op
  value_pure)

def int128Max : Int := 2 ^ 127 - 1

theorem fitsWidth_128_of_nonneg {v : Int} (h0 : 0 ≤ v) : FitsWidth 128 v ↔ v ≤ int128Max := by
  unfold FitsWidth int128Max
  omega

theorem fitsWidth_128_mul {a b : Int} (ha : FitsInt64 a) (hb : FitsInt64 b) :
    FitsWidth 128 (a * b) :=
  FitsWidth.mul (by decide : 0 < 64) (fitsWidth_64.mpr ha) (fitsWidth_64.mpr hb)

def notionalWideOps (px qty : Int) : Computed Int := do
  let product ← Computed.int128 (px * qty)
  pure (product.tdiv kScale)

def offsetByBpsOutwardOps (reference offsetBps : Int) (downward : Bool) : Computed Int :=
  if reference ≤ 0 ∨ offsetBps ≤ 0 then pure reference
  else do
    let numerator ← Computed.int128 (reference * offsetBps)
    let sum ← Computed.int128 (numerator + kBpsScale)
    let rounded ← Computed.int128 (sum - 1)
    let delta := rounded.tdiv kBpsScale
    let bound ← Computed.int128 (if downward then reference - delta else reference + delta)
    pure (narrowSaturating bound)

@[simp] theorem notionalWideOps_value (px qty : Int) :
    (notionalWideOps px qty).value = notionalWide px qty := rfl

@[simp] theorem offsetByBpsOutwardOps_value (reference offsetBps : Int) (downward : Bool) :
    (offsetByBpsOutwardOps reference offsetBps downward).value =
      offsetByBpsOutward reference offsetBps downward := by
  unfold offsetByBpsOutwardOps offsetByBpsOutward
  split_ifs <;> rfl

theorem notionalWideOps_exact {px qty : Int} (hpx : FitsInt64 px) (hqty : FitsInt64 qty) :
    (notionalWideOps px qty).Exact := by
  rw [notionalWideOps, exact_op]
  exact ⟨fitsWidth_128_mul hpx hqty, exact_pure _⟩

theorem offsetByBpsOutwardOps_exact {reference offsetBps : Int} (href : FitsInt64 reference)
    (hoffset : FitsInt64 offsetBps) (downward : Bool) :
    (offsetByBpsOutwardOps reference offsetBps downward).Exact := by
  unfold offsetByBpsOutwardOps
  by_cases hnone : reference ≤ 0 ∨ offsetBps ≤ 0
  · rw [if_pos hnone]
    exact exact_pure _
  · rw [if_neg hnone]
    rw [not_or, not_le, not_le] at hnone
    have hpos : 0 < reference * offsetBps := Int.mul_pos hnone.1 hnone.2
    have hle : reference * offsetBps ≤ int64Max * int64Max :=
      Int.mul_le_mul href.2 hoffset.2 hnone.2.le (by decide)
    have hscale : kBpsScale = 1000000000000 := rfl
    have hmax := href.2
    simp only [exact_op, exact_pure, and_true, FitsWidth]
    rw [Int.tdiv_eq_ediv_of_nonneg (by omega), hscale]
    simp only [int64Max] at hle hmax
    cases downward <;> simp only [Bool.false_eq_true, ↓reduceIte] <;> omega

/-- `level.qty += q` for every venue at the price. -/
def addQtyOps (best qty : Int) : List (List Level) → Computed Int
  | [] => pure qty
  | [] :: cursors => addQtyOps best qty cursors
  | (l :: _) :: cursors =>
    if l.px = best then do
      let sum ← Computed.int64 (qty + l.qty)
      addQtyOps best sum cursors
    else addQtyOps best qty cursors

def boundAtOps (descending : Bool) (limits : MergeLimits) (s : MergeState) (best : Int) :
    Computed Int :=
  if 0 < limits.maxBpsFromTouch ∧ s.boundComputed = false then
    offsetByBpsOutwardOps best limits.maxBpsFromTouch descending
  else pure s.bound

def mergeStepOps (descending : Bool) (limits : MergeLimits) (s : MergeState) :
    Computed (MergeState ⊕ MergeOutput) :=
  match bestHead descending s.cursors with
  | none => pure (.inr ⟨s.out, false⟩)
  | some best =>
    if limits.levelCap ≤ s.out.length then pure (.inr ⟨s.out, true⟩)
    else do
      let bound ← boundAtOps descending limits s best
      if 0 < limits.maxBpsFromTouch ∧ ¬ PriceInside descending bound best then
        pure (.inr ⟨s.out, true⟩)
      else do
        let qty ← addQtyOps best 0 s.cursors
        let level : MergedLevel := ⟨best, qty⟩
        let cursors := s.cursors.map (advance best)
        let out := s.out ++ [level]
        let notional ← notionalWideOps level.px level.qty
        let cumulative ← Computed.int128 (s.cumulativeNotional + notional)
        if 0 < limits.notionalTarget ∧ limits.notionalTarget ≤ cumulative then
          pure (.inr ⟨out, cursors.any fun cursor => ¬ cursor = []⟩)
        else
          pure (.inl ⟨cursors, out, cumulative, bound,
            s.boundComputed || decide (0 < limits.maxBpsFromTouch)⟩)

theorem addQtyOps_value (best qty : Int) (cursors : List (List Level)) :
    (addQtyOps best qty cursors).value = qty + (cursors.map (qtyAtHead best)).sum := by
  induction cursors generalizing qty with
  | nil => simp [addQtyOps]
  | cons cursor cursors ih =>
    cases cursor with
    | nil => simp [addQtyOps, qtyAtHead, ih]
    | cons l rest =>
      by_cases hpx : l.px = best
      · simp only [addQtyOps, if_pos hpx, value_op, ih, List.map_cons, List.sum_cons, qtyAtHead,
          add_assoc]
      · simp only [addQtyOps, if_neg hpx, ih, List.map_cons, List.sum_cons, qtyAtHead, zero_add]

@[simp] theorem boundAtOps_value (descending : Bool) (limits : MergeLimits) (s : MergeState)
    (best : Int) : (boundAtOps descending limits s best).value =
      boundAt descending limits s best := by
  unfold boundAtOps boundAt
  split_ifs
  · exact offsetByBpsOutwardOps_value _ _ _
  · rfl

theorem mergeStepOps_value (descending : Bool) (limits : MergeLimits) (s : MergeState) :
    (mergeStepOps descending limits s).value = mergeStep descending limits s := by
  unfold mergeStepOps mergeStep
  cases bestHead descending s.cursors with
  | none => rfl
  | some best =>
    simp only [value_ite, value_pure, value_bind, boundAtOps_value, addQtyOps_value,
      notionalWideOps_value, zero_add]
    rfl

theorem mergeStepOps_decreases (descending : Bool) (limits : MergeLimits) :
    Loop.Decreases (fun s => (mergeStepOps descending limits s).value)
      fun s => remaining s.cursors := by
  intro s next h
  exact mergeStep_decreases descending limits s next (mergeStepOps_value descending limits s ▸ h)

def mergeSideOps (descending : Bool) (inputs : List VenueSideInput) (limits : MergeLimits) :
    Computed MergeOutput :=
  Computed.loop (mergeStepOps descending limits) _ (mergeStepOps_decreases descending limits)
    { cursors := inputs.map VenueSideInput.levels }

theorem mergeSideOps_value (descending : Bool) (inputs : List VenueSideInput)
    (limits : MergeLimits) :
    (mergeSideOps descending inputs limits).value = mergeSide descending inputs limits := by
  rw [mergeSideOps, Computed.value_loop, mergeSide]
  congr 1
  funext s
  exact mergeStepOps_value descending limits s

structure Bounded (levels : List MergedLevel) : Prop where
  qty : ∀ m ∈ levels, m.qty ≤ int64Max
  notional : ladderNotional levels ≤ int128Max

theorem bounded_nil : Bounded [] := ⟨List.forall_mem_nil _, by decide⟩

theorem bounded_append {levels : List MergedLevel} {m : MergedLevel}
    (h : 0 ≤ notionalWide m.px m.qty) :
    Bounded (levels ++ [m]) ↔ Bounded levels ∧ m.qty ≤ int64Max ∧
      ladderNotional levels + notionalWide m.px m.qty ≤ int128Max := by
  have hsum : ladderNotional (levels ++ [m]) =
      ladderNotional levels + notionalWide m.px m.qty := by
    simp [ladderNotional]
  constructor
  · rintro ⟨hqty, hnotional⟩
    obtain ⟨hlevels, hm⟩ := List.forall_mem_append.mp hqty
    rw [hsum] at hnotional
    exact ⟨⟨hlevels, by omega⟩, hm m List.mem_cons_self, hnotional⟩
  · rintro ⟨⟨hlevels, -⟩, hm, hnotional⟩
    exact ⟨List.forall_mem_append.mpr ⟨hlevels, List.forall_mem_singleton.mpr hm⟩,
      hsum ▸ hnotional⟩

theorem qtyAtHead_sum_nonneg {cursors : List (List Level)} (best : Int)
    (h : ∀ c ∈ cursors, ∀ l ∈ c, 0 < l.qty) : 0 ≤ (cursors.map (qtyAtHead best)).sum := by
  apply List.sum_nonneg
  intro q hq
  obtain ⟨c, hc, rfl⟩ := List.mem_map.mp hq
  cases c with
  | nil => exact le_rfl
  | cons l rest =>
    have hl := h _ hc l List.mem_cons_self
    simp only [qtyAtHead]
    split_ifs <;> omega

theorem addQtyOps_exact {cursors : List (List Level)} (best : Int) {qty : Int}
    (h : ∀ c ∈ cursors, ∀ l ∈ c, 0 < l.qty) (h0 : 0 ≤ qty) (hmax : qty ≤ int64Max) :
    (addQtyOps best qty cursors).Exact ↔
      qty + (cursors.map (qtyAtHead best)).sum ≤ int64Max := by
  induction cursors generalizing qty with
  | nil => exact iff_of_true (exact_pure _) (by simpa using hmax)
  | cons cursor cursors ih =>
    obtain ⟨hcursor, hrest⟩ := List.forall_mem_cons.mp h
    have hsum := qtyAtHead_sum_nonneg best hrest
    cases cursor with
    | nil =>
      simp only [addQtyOps, List.map_cons, List.sum_cons, qtyAtHead, zero_add]
      exact ih hrest h0 hmax
    | cons l rest =>
      have hl := hcursor l List.mem_cons_self
      by_cases hpx : l.px = best
      · simp only [addQtyOps, if_pos hpx, exact_op, fitsWidth_64, List.map_cons, List.sum_cons,
          qtyAtHead, ← add_assoc]
        by_cases hfits : qty + l.qty ≤ int64Max
        · rw [ih hrest (by omega) hfits]
          exact and_iff_right (fitsInt64_of_nonneg (by omega) hfits)
        · exact iff_of_false (fun hexact => hfits hexact.1.2) (by omega)
      · simp only [addQtyOps, if_neg hpx, List.map_cons, List.sum_cons, qtyAtHead, zero_add]
        exact ih hrest h0 hmax

theorem boundAtOps_exact (descending : Bool) {limits : MergeLimits} (s : MergeState) {best : Int}
    (hbest : FitsInt64 best) (hbps : FitsInt64 limits.maxBpsFromTouch) :
    (boundAtOps descending limits s best).Exact := by
  unfold boundAtOps
  split_ifs
  · exact offsetByBpsOutwardOps_exact hbest hbps descending
  · exact exact_pure _

theorem MergeInvariant.headLevel {descending : Bool} {limits : MergeLimits}
    {full : List MergedLevel} {s : MergeState} {best : Int}
    (h : MergeInvariant descending limits full s)
    (hbest : bestHead descending s.cursors = some best) :
    (⟨best, (s.cursors.map (qtyAtHead best)).sum⟩ : MergedLevel) ∈ full ∧
      0 < best ∧ 0 < (s.cursors.map (qtyAtHead best)).sum := by
  have hspec := bestHead_spec descending s.cursors
  rw [hbest] at hspec
  have hmem : (⟨best, (s.cursors.map (qtyAtHead best)).sum⟩ : MergedLevel) ∈
      unionLadder descending s.cursors :=
    unionLadder_peel h.cursors hspec ▸ List.mem_cons_self
  exact ⟨h.union ▸ List.mem_append_right _ hmem,
    (unionLadder_bestFirst h.cursors).positive _ hmem⟩

def published : MergeState ⊕ MergeOutput → List MergedLevel :=
  Sum.elim MergeState.out MergeOutput.levels

theorem mergeStepOps_exact {descending : Bool} {limits : MergeLimits} {full : List MergedLevel}
    {s : MergeState} (hfull : BestFirst descending full) (hpx : ∀ m ∈ full, m.px ≤ int64Max)
    (hbps : FitsInt64 limits.maxBpsFromTouch) (h : MergeInvariant descending limits full s) :
    Bounded (published (mergeStep descending limits s)) ↔
      Bounded s.out ∧ (mergeStepOps descending limits s).Exact := by
  unfold mergeStep mergeStepOps
  cases hbest : bestHead descending s.cursors with
  | none => simp [published]
  | some best =>
    obtain ⟨hmem, hbest0, hqty0⟩ := h.headLevel hbest
    have hfits : FitsInt64 best := fitsInt64_of_nonneg hbest0.le (hpx _ hmem)
    have hbound := boundAtOps_exact descending s hfits hbps
    simp only
    by_cases hcap : limits.levelCap ≤ s.out.length
    · -- The level cap.
      simp [hcap, published]
    rw [if_neg hcap, if_neg hcap, exact_bind, boundAtOps_value, and_iff_right hbound]
    by_cases hprice : 0 < limits.maxBpsFromTouch ∧
        ¬ PriceInside descending (boundAt descending limits s best) best
    · -- The price bound.
      rw [if_pos hprice, if_pos hprice]
      simp [published]
    -- Both ways on from here publish the level.
    rw [if_neg hprice, if_neg hprice, exact_bind, addQtyOps_value, zero_add, exact_bind,
      notionalWideOps_value, exact_op]
    have hqtys : ∀ c ∈ s.cursors, ∀ l ∈ c, 0 < l.qty :=
      fun c hc l hl => ((h.cursors c hc).positive l hl).2
    have hadd := addQtyOps_exact best hqtys le_rfl (by decide)
    have hnotional := notionalWide_nonneg hbest0.le hqty0.le
    have hsum : 0 ≤ s.cumulativeNotional := by
      rw [h.notional]
      exact ladderNotional_nonneg (hfull.sublist (h.union ▸ List.sublist_append_left _ _))
    rw [zero_add] at hadd
    rw [apply_ite published]
    simp only [published, Sum.elim_inl, Sum.elim_inr, ite_self]
    rw [bounded_append hnotional, hadd, fitsWidth_128_of_nonneg (by omega), h.notional]
    simp only [exact_ite_pure, and_true, and_congr_right_iff, iff_and_self]
    intro hout hqty hcumulative
    exact notionalWideOps_exact hfits (fitsInt64_of_nonneg hqty0.le hqty)

theorem unionLadder_px_le (descending : Bool) {sides : List VenueSideInput}
    (hpx : ∀ side ∈ sides, ∀ l ∈ side.levels, l.px ≤ int64Max) :
    ∀ m ∈ unionLadder descending (sides.map VenueSideInput.levels), m.px ≤ int64Max := by
  intro m hm
  obtain ⟨levels, hlevels, l, hl, hlpx⟩ := mem_pricesOf.mp (mem_unionLadder.mp hm).1
  obtain ⟨side, hside, rfl⟩ := List.mem_map.mp hlevels
  exact hlpx ▸ hpx side hside l hl

theorem mergeSideOps_exact {descending : Bool} {sides : List VenueSideInput}
    (hsides : ∀ side ∈ sides, BestFirst descending side.levels)
    (hpx : ∀ side ∈ sides, ∀ l ∈ side.levels, l.px ≤ int64Max) {limits : MergeLimits}
    (hbps : FitsInt64 limits.maxBpsFromTouch) :
    (mergeSideOps descending sides limits).Exact ↔
      Bounded (mergeSide descending sides limits).levels := by
  have hcursors : ∀ c ∈ sides.map VenueSideInput.levels, BestFirst descending c :=
    List.forall_mem_map.mpr hsides
  have hfull := unionLadder_bestFirst hcursors
  have hunion := unionLadder_px_le descending hpx
  have hloop := Computed.exact_loop (mergeStepOps_decreases descending limits)
    (MergeInvariant descending limits (unionLadder descending (sides.map VenueSideInput.levels)))
    (fun t => Bounded (published t))
    (fun s next h hs => h.next (mergeStepOps_value descending limits s ▸ hs))
    (fun s h => by
      rw [mergeStepOps_value]
      exact mergeStepOps_exact hfull hunion hbps h)
    (mergeInvariant_initial hcursors) bounded_nil
  rw [← mergeSideOps_value]
  exact hloop

end CexAggregator
