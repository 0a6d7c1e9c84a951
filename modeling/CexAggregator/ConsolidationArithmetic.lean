import Mathlib.Algebra.Order.BigOperators.Group.List
import Mathlib.Data.Int.Interval
import CexAggregator.BandArithmetic

/-!
# How large the books may be

Prices are distinct positive 64-bit numbers, so a ladder is never long enough for its
quantities to leave 128 bits. What is left are the two sums nothing in the source bounds: the
quantity resting at one price over all venues, and the notional of the ladder.
-/

namespace CexAggregator
open OrderedTable

section Ladder
variable {descending : Bool} {levels : List MergedLevel}

theorem px_nodup (h : BestFirst descending levels) : (levels.map MergedLevel.px).Nodup := by
  rw [List.Nodup, List.pairwise_map]
  refine h.ordered.imp fun {a b} hab heq => ?_
  have hbetter : Better descending a.px b.px := hab
  rw [heq] at hbetter
  exact irrefl_of (Better descending) b.px hbetter

theorem length_le_int64Max (h : BestFirst descending levels)
    (hpx : ∀ m ∈ levels, m.px ≤ int64Max) : (levels.length : Int) ≤ int64Max := by
  have hsub : (levels.map MergedLevel.px).toFinset ⊆ Finset.Icc 1 int64Max := by
    intro px hmem
    obtain ⟨m, hm, rfl⟩ := List.mem_map.mp (List.mem_toFinset.mp hmem)
    exact Finset.mem_Icc.mpr ⟨(h.positive m hm).1, hpx m hm⟩
  have hcard := Finset.card_le_card hsub
  rw [List.toFinset_card_of_nodup (px_nodup h), List.length_map, Int.card_Icc] at hcard
  simp only [int64Max] at hcard ⊢
  omega

theorem qty_sum_le (h : BestFirst descending levels)
    (hfits : ∀ m ∈ levels, m.px ≤ int64Max ∧ m.qty ≤ int64Max) :
    (levels.map MergedLevel.qty).sum ≤ int128Max := by
  have hlength := length_le_int64Max h fun m hm => (hfits m hm).1
  have hsum : (levels.map MergedLevel.qty).sum ≤ (levels.map MergedLevel.qty).length • int64Max :=
    List.sum_le_card_nsmul _ _ (List.forall_mem_map.mpr fun m hm => (hfits m hm).2)
  rw [List.length_map, nsmul_eq_mul] at hsum
  calc (levels.map MergedLevel.qty).sum
      ≤ (levels.length : Int) * int64Max := hsum
    _ ≤ int64Max * int64Max := Int.mul_le_mul_of_nonneg_right hlength (by decide)
    _ ≤ int128Max := by decide

end Ladder

structure Consolidation (descending : Bool) where
  sides : List VenueSideInput
  limits : MergeLimits
  config : BandConfig
  count : sides.length ≤ kMaxVenues
  bestFirst : ∀ side ∈ sides, BestFirst descending side.levels
  levelsFit : ∀ side ∈ sides, ∀ l ∈ side.levels, l.px ≤ int64Max ∧ l.qty ≤ int64Max
  limitsFit : FitsInt64 limits.maxBpsFromTouch
  offsetsFit : ∀ offset ∈ config.offsetsBps, FitsInt64 offset
  notionalsFit : ∀ target ∈ config.notionals, FitsInt64 target

/-- The prefixes of the union the limits admit; a negative `maxLevels` admits any length. -/
structure Admitted (descending : Bool) (limits : MergeLimits) (full taken : List MergedLevel) :
    Prop where
  initial : taken <+: full
  count : taken.length ≤ limits.levelCap
  price : 0 < limits.maxBpsFromTouch → ∀ touch ∈ full.head?, ∀ m ∈ taken,
    PriceInside descending (offsetByBpsOutward touch.px limits.maxBpsFromTouch descending) m.px
  notional : 0 < limits.notionalTarget → ladderNotional taken.dropLast < limits.notionalTarget

namespace Consolidation
variable {descending : Bool}

def union (input : Consolidation descending) : List MergedLevel :=
  unionLadder descending (input.sides.map VenueSideInput.levels)

def bands (input : Consolidation descending) : SideBands :=
  computeSideBands ⟨(mergeSide descending input.sides input.limits).levels, descending⟩ input.config

def bandsOps (input : Consolidation descending) : Computed SideBands := do
  let merged ← mergeSideOps descending input.sides input.limits
  computeSideBandsOps ⟨merged.levels, descending⟩ input.config

theorem bandsOps_value (input : Consolidation descending) : input.bandsOps.value = input.bands := by
  rw [bandsOps, Computed.value_bind, mergeSideOps_value, computeSideBandsOps_value]
  rfl

theorem union_bestFirst (input : Consolidation descending) :
    BestFirst descending input.union :=
  unionLadder_bestFirst (List.forall_mem_map.mpr input.bestFirst)

theorem px_le (input : Consolidation descending) :
    ∀ side ∈ input.sides, ∀ l ∈ side.levels, l.px ≤ int64Max :=
  fun side hside l hl => (input.levelsFit side hside l hl).1

/-- What is published is the longest admitted prefix, so it decides for all of them. -/
theorem admitted_iff (input : Consolidation descending) :
    (∀ p, Admitted descending input.limits input.union p →
        (∀ m ∈ p, m.qty ≤ int64Max) ∧ ladderNotional p * kScale ≤ int128Max) ↔
      (∀ m ∈ (mergeSide descending input.sides input.limits).levels, m.qty ≤ int64Max) ∧
        ladderNotional (mergeSide descending input.sides input.limits).levels * kScale ≤
          int128Max := by
  obtain ⟨rest, hresult⟩ := mergeSide_result_of_bestFirst input.bestFirst input.limits
  have hfull := input.union_bestFirst
  constructor
  · intro h
    exact h _ ⟨⟨rest, hresult.split.symm⟩, hresult.count, hresult.price, hresult.notional⟩
  · rintro ⟨hqty, hnotional⟩ p hp
    obtain ⟨tail, htail⟩ :=
      hresult.prefix_le hfull hp.initial hp.count hp.price hp.notional
    rw [← htail] at hqty hnotional
    have hsplit : input.union = p ++ tail ++ rest := htail ▸ hresult.split
    have hsub : tail.Sublist input.union := hsplit ▸
      (List.sublist_append_right _ _).trans (List.sublist_append_left _ _)
    have hscaled : 0 ≤ ladderNotional tail * kScale :=
      mul_nonneg (ladderNotional_nonneg (hfull.sublist hsub)) (by decide)
    rw [ladderNotional_append, Int.add_mul] at hnotional
    exact ⟨(List.forall_mem_append.mp hqty).1, by omega⟩

/-- Nothing overflows exactly when, on every admitted prefix of the union, each price holds a
64-bit quantity and the scaled notional is a 128-bit one. -/
theorem bandsOps_exact_iff (input : Consolidation descending) :
    input.bandsOps.Exact ↔
      ∀ p, Admitted descending input.limits input.union p →
        (∀ m ∈ p, m.qty ≤ int64Max) ∧ ladderNotional p * kScale ≤ int128Max := by
  obtain ⟨rest, hresult⟩ := mergeSide_result_of_bestFirst input.bestFirst input.limits
  have hmerge := mergeSideOps_exact input.bestFirst input.px_le input.limitsFit
  rw [bandsOps, Computed.exact_bind, mergeSideOps_value, hmerge, admitted_iff]
  generalize mergeSide descending input.sides input.limits = merged at hresult ⊢
  have hsub : merged.levels.Sublist input.union :=
    (show merged.levels <+: input.union from ⟨rest, hresult.split.symm⟩).sublist
  have hladder : BestFirst descending merged.levels := input.union_bestFirst.sublist hsub
  have hpx : ∀ m ∈ merged.levels, m.px ≤ int64Max :=
    fun m hm => unionLadder_px_le descending input.px_le m (hsub.subset hm)
  have hbands : (∀ m ∈ merged.levels, m.qty ≤ int64Max) →
      ((computeSideBandsOps ⟨merged.levels, descending⟩ input.config).Exact ↔
        ladderNotional merged.levels * kScale ≤ int128Max) := by
    intro hqty
    refine computeSideBandsOps_exact (fun m hm => ?_)
      (qty_sum_le hladder fun m hm => ⟨hpx m hm, hqty m hm⟩) input.offsetsFit input.notionalsFit
    obtain ⟨hm0, hq0⟩ := hladder.positive m hm
    exact ⟨⟨hm0, hpx m hm⟩, hq0, hqty m hm⟩
  constructor
  · rintro ⟨⟨hqty, -⟩, hexact⟩
    exact ⟨hqty, (hbands hqty).mp hexact⟩
  · rintro ⟨hqty, hscaled⟩
    have hnotional := ladderNotional_nonneg hladder
    refine ⟨⟨hqty, ?_⟩, (hbands hqty).mpr hscaled⟩
    simp only [kScale] at hscaled
    omega

theorem bandsOps_overflows :
    let input : Consolidation false :=
      { sides := [⟨0, [⟨100000000, 9223372036854775807⟩]⟩, ⟨1, [⟨100000000, 1⟩]⟩]
        limits := {}
        config := ⟨[], []⟩
        count := by decide
        bestFirst := by decide
        levelsFit := by decide
        limitsFit := by decide
        offsetsFit := by decide
        notionalsFit := by decide }
    ¬ input.bandsOps.Exact := by
  decide

/-- One venue is enough for the scaled notional. -/
example :
    let input : Consolidation false :=
      { sides := [⟨0, [⟨9223372036854775805, 9223372036854775807⟩,
          ⟨9223372036854775806, 9223372036854775807⟩, ⟨9223372036854775807, 9223372036854775807⟩]⟩]
        limits := {}
        config := ⟨[], []⟩
        count := by decide
        bestFirst := by decide
        levelsFit := by decide
        limitsFit := by decide
        offsetsFit := by decide
        notionalsFit := by decide }
    ¬ input.bandsOps.Exact := by
  decide

end Consolidation

end CexAggregator
