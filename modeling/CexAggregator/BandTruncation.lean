import CexAggregator.BandWalk
import CexAggregator.MergeSpec

/-!
# Bands on a truncated ladder

A published ladder is a prefix of the union. A walk that ends inside the prefix ends at
the same level of the union; a walk that runs off the prefix has seen no more than the
walk over the union sees.
-/

namespace CexAggregator
open OrderedTable

structure VolumeBandResult.AtMost (a b : VolumeBandResult) : Prop where
  qty : a.filledQty ≤ b.filledQty
  notional : a.filledNotional ≤ b.filledNotional
  levels : a.levelsConsumed ≤ b.levelsConsumed

structure PriceBandResult.AtMost (a b : PriceBandResult) : Prop where
  qty : a.qty ≤ b.qty
  notional : a.notional ≤ b.notional
  levels : a.levels ≤ b.levels

/-- What a volume band of a cut ladder is worth against the one of the full ladder. -/
def VolumeBandResult.Honest (cut full : VolumeBandResult) : Prop :=
  (cut.fullyFilled = true → cut = full) ∧ (cut.fullyFilled = false → cut.AtMost full)

def PriceBandResult.Honest (cut full : PriceBandResult) : Prop :=
  (cut.openEnded = false → cut.depthLimited = false → cut = full) ∧
    (cut.openEnded = true ∨ cut.depthLimited = true → cut.AtMost full)

theorem VolumeBandResult.Honest.of_thin {cut full : VolumeBandResult}
    (h : cut.fullyFilled = false) (hle : cut.AtMost full) : cut.Honest full :=
  ⟨fun hfilled => (Bool.false_ne_true (h.symm.trans hfilled)).elim, fun _ => hle⟩

theorem PriceBandResult.Honest.of_limited {cut full : PriceBandResult}
    (h : cut.openEnded = true ∨ cut.depthLimited = true) (hle : cut.AtMost full) :
    cut.Honest full := by
  refine ⟨fun hopen hdepth => ?_, fun _ => hle⟩
  simp [hopen, hdepth] at h

theorem VolumeBandResult.Honest.refl (b : VolumeBandResult) : b.Honest b :=
  ⟨fun _ => rfl, fun _ => ⟨le_rfl, le_rfl, le_rfl⟩⟩

theorem PriceBandResult.Honest.refl (b : PriceBandResult) : b.Honest b :=
  ⟨fun _ _ => rfl, fun _ => ⟨le_rfl, le_rfl, le_rfl⟩⟩

theorem qtyForNotional_nonneg (notional px : Int) : 0 ≤ qtyForNotional notional px := by
  unfold qtyForNotional
  split_ifs with h
  · exact le_rfl
  · rw [not_or, not_le, not_le] at h
    have hscale : (0 : Int) < kScale := by decide
    have hq : 0 ≤ (notional * kScale).tdiv px :=
      Int.tdiv_nonneg (mul_nonneg h.2.le hscale.le) h.1.le
    exact narrowSaturating_of_fits (v := 0) (by decide) ▸ narrowSaturating_mono hq

section Walk
variable {descending : Bool} {reference : Int} {c : Cumulative} {levels rest : List MergedLevel}

theorem partialAt_nonneg {level : MergedLevel} (hpos : 0 < level.px ∧ 0 < level.qty)
    (target : Int) : 0 ≤ partialAt c level target := by
  unfold partialAt
  split_ifs
  · exact hpos.2.le
  · exact qtyForNotional_nonneg _ _

structure Cumulative.AtMost (a b : Cumulative) : Prop where
  qty : a.qty ≤ b.qty
  notional : a.notional ≤ b.notional
  levels : a.levels ≤ b.levels

theorem Cumulative.AtMost.trans {a b d : Cumulative} (h : a.AtMost b) (h' : b.AtMost d) :
    a.AtMost d :=
  ⟨h.qty.trans h'.qty, h.notional.trans h'.notional, h.levels.trans h'.levels⟩

theorem atMost_pass {level : MergedLevel} (h : 0 < level.px ∧ 0 < level.qty) :
    c.AtMost (c.pass level) := by
  have hn := notionalWide_nonneg h.1.le h.2.le
  refine ⟨?_, ?_, Nat.le_succ _⟩ <;> simp only [Cumulative.pass] <;> omega

theorem atMost_foldl (h : ∀ m ∈ rest, 0 < m.px ∧ 0 < m.qty) :
    c.AtMost (rest.foldl Cumulative.pass c) := by
  induction rest generalizing c with
  | nil => exact ⟨le_rfl, le_rfl, le_rfl⟩
  | cons level rest ih =>
    obtain ⟨hlevel, hrest⟩ := List.forall_mem_cons.mp h
    exact (atMost_pass hlevel).trans (ih hrest)

theorem thin_atMost_volumeBand {target : Int} {a : Cumulative} {openEnded : Bool}
    (hac : a.AtMost c) (h : ∀ m ∈ rest, 0 < m.px ∧ 0 < m.qty) :
    (thinVolumeBand target a openEnded).AtMost (volumeBand target c rest) := by
  induction rest generalizing c with
  | nil =>
    exact ⟨narrowSaturating_mono hac.qty, narrowSaturating_mono hac.notional, hac.levels⟩
  | cons level rest ih =>
    obtain ⟨hlevel, hrest⟩ := List.forall_mem_cons.mp h
    simp only [volumeBand]
    split_ifs with hreached
    · have hpartial : 0 ≤ partialAt c level target := partialAt_nonneg hlevel target
      have hnotional : 0 ≤ if 0 < partialAt c level target then
          notionalWide level.px (partialAt c level target) else 0 := by
        split_ifs
        · exact notionalWide_nonneg hlevel.1.le hpartial
        · exact le_rfl
      have hqty := hac.qty
      have hsum := hac.notional
      exact ⟨narrowSaturating_mono (by omega), narrowSaturating_mono (by omega),
        hac.levels.trans (Nat.le_add_right _ _)⟩
    · exact ih (hac.trans (atMost_pass hlevel)) hrest

theorem volumeBand_honest (target : Int) (h : ∀ m ∈ rest, 0 < m.px ∧ 0 < m.qty) :
    (volumeBand target c levels).Honest (volumeBand target c (levels ++ rest)) := by
  induction levels generalizing c with
  | nil =>
    exact .of_thin rfl (thin_atMost_volumeBand ⟨le_rfl, le_rfl, le_rfl⟩ h)
  | cons level levels ih =>
    simp only [List.cons_append, volumeBand]
    split_ifs with hreached
    · exact .refl _
    · exact ih

theorem depthLimited_atMost_priceBand {offset bound : Int} {a : Cumulative}
    {openEnded depthLimited : Bool} (hac : a.AtMost c) (h : ∀ m ∈ rest, 0 < m.px ∧ 0 < m.qty) :
    (makePriceBand offset bound a.qty a.notional a.levels openEnded depthLimited).AtMost
      (priceBand descending reference offset c rest) := by
  induction rest generalizing c with
  | nil =>
    exact ⟨narrowSaturating_mono hac.qty, narrowSaturating_mono hac.notional, hac.levels⟩
  | cons level rest ih =>
    obtain ⟨hlevel, hrest⟩ := List.forall_mem_cons.mp h
    simp only [priceBand]
    split_ifs with hout
    · exact ⟨narrowSaturating_mono hac.qty, narrowSaturating_mono hac.notional, hac.levels⟩
    · exact ih (hac.trans (atMost_pass hlevel)) hrest

theorem priceBand_honest (offset : Int) (h : ∀ m ∈ rest, 0 < m.px ∧ 0 < m.qty) :
    (priceBand descending reference offset c levels).Honest
      (priceBand descending reference offset c (levels ++ rest)) := by
  induction levels generalizing c with
  | nil =>
    exact .of_limited (Or.inr rfl) (depthLimited_atMost_priceBand ⟨le_rfl, le_rfl, le_rfl⟩ h)
  | cons level levels ih =>
    simp only [List.cons_append, priceBand]
    split_ifs with hout
    · exact .refl _
    · exact ih

end Walk

section Cut
variable {descending : Bool} {config : BandConfig}

theorem forall₂_map_append {α β : Type*} {R : β → β → Prop} {as : List α} {f g : α → β} {x y : β}
    (h : ∀ a ∈ as, R (f a) (g a)) (hlast : R x y) :
    List.Forall₂ R (as.map f ++ [x]) (as.map g ++ [y]) := by
  refine List.rel_append ?_ (List.Forall₂.cons hlast List.Forall₂.nil)
  rw [List.forall₂_map_left_iff, List.forall₂_map_right_iff, List.forall₂_same]
  exact h

theorem honest_of_prefix {full levels : List MergedLevel} (hfull : BestFirst descending full)
    (hpre : levels <+: full) (hconfig : config.Ascending) :
    List.Forall₂ VolumeBandResult.Honest (computeSideBands ⟨levels, descending⟩ config).volume
        (computeSideBands ⟨full, descending⟩ config).volume ∧
      List.Forall₂ PriceBandResult.Honest (computeSideBands ⟨levels, descending⟩ config).price
        (computeSideBands ⟨full, descending⟩ config).price := by
  obtain ⟨rest, rfl⟩ := hpre
  have hpos := hfull.positive
  have hrest : ∀ m ∈ rest, 0 < m.px ∧ 0 < m.qty := fun m hm =>
    hpos m (List.mem_append_right _ hm)
  cases levels with
  | nil =>
    cases rest with
    | nil =>
      exact ⟨List.forall₂_same.mpr fun b _ => .refl b, List.forall₂_same.mpr fun b _ => .refl b⟩
    | cons touch rest =>
      -- Nothing was published, so every band is emitted empty.
      obtain ⟨hpx, -⟩ := hrest touch List.mem_cons_self
      have hstart : Cumulative.AtMost { worstPx := touch.px } { worstPx := touch.px } :=
        ⟨le_rfl, le_rfl, le_rfl⟩
      have hlast := atMost_foldl (c := { worstPx := touch.px }) hrest
      rw [List.nil_append, computeSideBands_volume hpx hconfig.notionals,
        computeSideBands_price hpx hconfig.offsetsBps hconfig.offsetsBps_pos]
      constructor
      · refine forall₂_map_append (fun target _ => .of_thin rfl ?_) (.of_thin rfl ?_)
        · have hthin : (thinVolumeBand target { worstPx := touch.px } false).AtMost _ :=
            thin_atMost_volumeBand hstart hrest
          exact ⟨hthin.qty, hthin.notional, hthin.levels⟩
        · exact ⟨narrowSaturating_mono hlast.qty, narrowSaturating_mono hlast.notional,
            hlast.levels⟩
      · refine forall₂_map_append (fun offset _ => .of_limited (Or.inr rfl) ?_)
          (.of_limited (Or.inl rfl) ?_)
        · exact depthLimited_atMost_priceBand hstart hrest
        · exact ⟨narrowSaturating_mono hlast.qty, narrowSaturating_mono hlast.notional,
            hlast.levels⟩
  | cons touch levels =>
    obtain ⟨hpx, -⟩ := hpos touch List.mem_cons_self
    have hlast := atMost_foldl (c := (touch :: levels).foldl Cumulative.pass
      { worstPx := touch.px }) hrest
    rw [List.cons_append, computeSideBands_volume hpx hconfig.notionals,
      computeSideBands_volume hpx hconfig.notionals,
      computeSideBands_price hpx hconfig.offsetsBps hconfig.offsetsBps_pos,
      computeSideBands_price hpx hconfig.offsetsBps hconfig.offsetsBps_pos]
    rw [← List.foldl_append, List.cons_append] at hlast
    constructor
    · refine forall₂_map_append (fun target _ => volumeBand_honest target hrest)
        (.of_thin rfl ?_)
      exact ⟨narrowSaturating_mono hlast.qty, narrowSaturating_mono hlast.notional, hlast.levels⟩
    · refine forall₂_map_append (fun offset _ => priceBand_honest offset hrest)
        (.of_limited (Or.inl rfl) ?_)
      exact ⟨narrowSaturating_mono hlast.qty, narrowSaturating_mono hlast.notional, hlast.levels⟩

/-- Whatever limits the merge stopped at: a filled volume band and a price band that is not
depth-limited are those of the whole union, every other band claims no more than the union
holds, and without the truncation flag nothing differs. -/
theorem computeSideBands_mergeSide (inputs : MergeInputs descending)
    (limits unlimited : MergeLimits) (hconfig : config.Ascending)
    (hnotional : unlimited.notionalTarget = 0) (hbps : unlimited.maxBpsFromTouch = 0)
    (hcap : remaining inputs.levels ≤ unlimited.levelCap) :
    let cut := mergeSide descending inputs.sides limits
    let full := mergeSide descending inputs.sides unlimited
    let cutBands := computeSideBands ⟨cut.levels, descending⟩ config
    let fullBands := computeSideBands ⟨full.levels, descending⟩ config
    List.Forall₂ VolumeBandResult.Honest cutBands.volume fullBands.volume ∧
      List.Forall₂ PriceBandResult.Honest cutBands.price fullBands.price ∧
      (cut.truncated = false → cutBands = fullBands) := by
  obtain ⟨rest, hresult⟩ := mergeSide_result inputs limits
  have hfull := mergeSide_unlimited inputs hnotional hbps hcap
  intro cut full cutBands fullBands
  have hhonest := honest_of_prefix inputs.union_bestFirst ⟨rest, hresult.split.symm⟩ hconfig
  rw [← hfull] at hhonest
  refine ⟨hhonest.1, hhonest.2, fun htruncated => ?_⟩
  have hnil : rest = [] := by
    by_contra hne
    exact Bool.false_ne_true (htruncated.symm.trans (hresult.truncated.mpr hne))
  have hlevels : full.levels = cut.levels := by
    rw [show full.levels = inputs.union from hfull, hresult.split, hnil, List.append_nil]
  simp only [fullBands, hlevels, cutBands]

theorem computeSideBands_mergeSide_capped :
    let sides : List VenueSideInput :=
      [⟨0, [⟨300000000, 200000000⟩]⟩, ⟨1, [⟨400000000, 100000000⟩]⟩]
    let config : BandConfig := ⟨[100000000, 900000000], [100000000]⟩
    let cut := computeSideBands ⟨(mergeSide false sides { maxLevels := 1 }).levels, false⟩ config
    let full := computeSideBands ⟨(mergeSide false sides {}).levels, false⟩ config
    List.Forall₂ VolumeBandResult.Honest cut.volume full.volume ∧
      cut.volume.map VolumeBandResult.fullyFilled = [true, false, false] ∧
      full.volume.map VolumeBandResult.fullyFilled = [true, true, false] :=
  ⟨(computeSideBands_mergeSide (⟨_, by decide, by decide, by decide⟩ : MergeInputs false)
    { maxLevels := 1 } {} (by decide) rfl rfl (by decide)).1, by decide, by decide⟩

end Cut

end CexAggregator
