import CexAggregator.BandSweep
import CexAggregator.MergeArithmetic

/-!
# The arithmetic of the band walk

`computeSideBands` with every 128-bit product, sum and difference it performs. The largest of
them is the product of the open-ended average, the notional of the whole ladder times `kScale`:
if that one fits, so do all others.
-/

namespace CexAggregator
open OrderedTable
open Computed (each exact_bind exact_each exact_op exact_pure exact_result value_op value_result)

def qtyForNotionalOps (notional px : Int) : Computed Int :=
  if px ≤ 0 ∨ notional ≤ 0 then pure 0
  else do
    let scaled ← Computed.int128 (notional * kScale)
    pure (narrowSaturating (scaled.tdiv px))

def vwapOps (notional qty : Int) : Computed Int :=
  if qty ≤ 0 then pure 0
  else do
    let scaled ← Computed.int128 (notional * kScale)
    pure (narrowSaturating (scaled.tdiv qty))

def makePriceBandOps (offsetBps bound cumQty cumNotional : Int) (levels : ℕ)
    (openEnded depthLimited : Bool) : Computed PriceBandResult := do
  let vwap ← vwapOps cumNotional cumQty
  pure
    { offsetBps := offsetBps
      bound := bound
      qty := narrowSaturating cumQty
      notional := narrowSaturating cumNotional
      vwap := vwap
      levels := levels
      openEnded := openEnded
      depthLimited := depthLimited }

def emitEmptyBandsOps (config : BandConfig) : Computed SideBands := do
  let price ← each (fun offset => makePriceBandOps offset 0 0 0 0 false true) config.offsetsBps
  let openPrice ← makePriceBandOps 0 0 0 0 0 true false
  pure
    { volume := config.notionals.map (fun target => { target := target }) ++ [{ openEnded := true }]
      price := price ++ [openPrice] }

def partialNotionalOps (px partialQty : Int) : Computed Int :=
  if 0 < partialQty then notionalWideOps px partialQty else pure 0

def closeVolumeBandOps (target px partialQty : Int) (c : Cumulative) :
    Computed VolumeBandResult := do
  let partialNotional ← partialNotionalOps px partialQty
  let filledQty ← Computed.int128 (c.qty + partialQty)
  let filledNotional ← Computed.int128 (c.notional + partialNotional)
  let vwap ← vwapOps filledNotional filledQty
  pure
    { target := target
      filledNotional := narrowSaturating filledNotional
      filledQty := narrowSaturating filledQty
      vwap := vwap
      worst := if 0 < partialQty then px else c.worstPx
      fullyFilled := true
      levelsConsumed := c.levels + if 0 < partialQty then 1 else 0 }

def thinVolumeBandOps (target : Int) (c : Cumulative) (openEnded : Bool) :
    Computed VolumeBandResult := do
  let vwap ← vwapOps c.notional c.qty
  pure
    { target := target
      filledQty := narrowSaturating c.qty
      filledNotional := narrowSaturating c.notional
      vwap := vwap
      worst := c.worstPx
      fullyFilled := false
      openEnded := openEnded
      levelsConsumed := c.levels }

def partialAtOps (c : Cumulative) (level : MergedLevel) (levelNotional target : Int) :
    Computed Int := do
  let reach ← Computed.int128 (c.notional + levelNotional)
  if reach ≤ target then pure level.qty
  else do
    let rest ← Computed.int128 (target - c.notional)
    qtyForNotionalOps rest level.px

def closePriceBandsOps (descending : Bool) (reference px : Int) (c : Cumulative)
    (out : List PriceBandResult) : List Int → Computed (List PriceBandResult × List Int)
  | [] => pure (out, [])
  | offset :: offsets => do
    let bound ← offsetByBpsOutwardOps reference offset descending
    if PriceInside descending bound px then pure (out, offset :: offsets)
    else do
      let band ← makePriceBandOps offset bound c.qty c.notional c.levels false false
      closePriceBandsOps descending reference px c (out ++ [band]) offsets

def closeVolumeBandsOps (c : Cumulative) (level : MergedLevel) (levelNotional : Int)
    (out : List VolumeBandResult) : List Int → Computed (List VolumeBandResult × List Int)
  | [] => pure (out, [])
  | target :: targets => do
    let reach ← Computed.int128 (c.notional + levelNotional)
    if target ≤ reach then do
      let partialQty ← partialAtOps c level levelNotional target
      let band ← closeVolumeBandOps target level.px partialQty c
      closeVolumeBandsOps c level levelNotional (out ++ [band]) targets
    else pure (out, target :: targets)

def walkLevelOps (descending : Bool) (reference : Int) (w : BandWalk) (level : MergedLevel) :
    Computed BandWalk := do
  let c := w.cumulative
  let price ← closePriceBandsOps descending reference level.px c w.out.price w.offsetsBps
  let levelNotional ← notionalWideOps level.px level.qty
  let volume ← closeVolumeBandsOps c level levelNotional w.out.volume w.notionals
  let qty ← Computed.int128 (c.qty + level.qty)
  let notional ← Computed.int128 (c.notional + levelNotional)
  pure
    { cumulative := ⟨qty, notional, c.levels + 1, level.px⟩
      notionals := volume.2
      offsetsBps := price.2
      out := { volume := volume.1, price := price.1 } }

def walkOps (descending : Bool) (reference : Int) (w : BandWalk) :
    List MergedLevel → Computed BandWalk
  | [] => pure w
  | level :: levels => do
    let next ← walkLevelOps descending reference w level
    walkOps descending reference next levels

def finishBandsOps (descending : Bool) (reference : Int) (w : BandWalk) : Computed SideBands := do
  let c := w.cumulative
  let price ← each (fun offset => do
      let bound ← offsetByBpsOutwardOps reference offset descending
      makePriceBandOps offset bound c.qty c.notional c.levels false true) w.offsetsBps
  let openPrice ← makePriceBandOps 0 c.worstPx c.qty c.notional c.levels true false
  let volume ← each (fun target => thinVolumeBandOps target c false) w.notionals
  let openVolume ← thinVolumeBandOps 0 c true
  pure
    { price := w.out.price ++ price ++ [openPrice]
      volume := w.out.volume ++ volume ++ [openVolume] }

def computeSideBandsOps (side : LadderView) (config : BandConfig) : Computed SideBands :=
  let reference := viewBestPx side
  if reference = 0 then emitEmptyBandsOps config
  else do
    let w ← walkOps side.descending reference
      { cumulative := { worstPx := reference }
        notionals := config.notionals
        offsetsBps := config.offsetsBps } side.levels
    finishBandsOps side.descending reference w

section Value
variable {descending : Bool} {reference : Int}

@[simp] theorem qtyForNotionalOps_value (notional px : Int) :
    (qtyForNotionalOps notional px).value = qtyForNotional notional px := by
  unfold qtyForNotionalOps qtyForNotional
  split_ifs <;> rfl

@[simp] theorem vwapOps_value (notional qty : Int) :
    (vwapOps notional qty).value = vwap notional qty := by
  unfold vwapOps vwap
  split_ifs <;> rfl

@[simp] theorem makePriceBandOps_value (offsetBps bound cumQty cumNotional : Int) (levels : ℕ)
    (openEnded depthLimited : Bool) :
    (makePriceBandOps offsetBps bound cumQty cumNotional levels openEnded depthLimited).value =
      makePriceBand offsetBps bound cumQty cumNotional levels openEnded depthLimited := by
  simp [makePriceBandOps, makePriceBand]

@[simp] theorem closeVolumeBandOps_value (target px partialQty : Int) (c : Cumulative) :
    (closeVolumeBandOps target px partialQty c).value = closeVolumeBand target px partialQty c := by
  have hpart : (partialNotionalOps px partialQty).value =
      if 0 < partialQty then notionalWide px partialQty else 0 := by
    unfold partialNotionalOps
    split_ifs <;> rfl
  simp [closeVolumeBandOps, closeVolumeBand, hpart]

@[simp] theorem thinVolumeBandOps_value (target : Int) (c : Cumulative) (openEnded : Bool) :
    (thinVolumeBandOps target c openEnded).value = thinVolumeBand target c openEnded := by
  simp [thinVolumeBandOps, thinVolumeBand]

@[simp] theorem partialAtOps_value (c : Cumulative) (level : MergedLevel) (target : Int) :
    (partialAtOps c level (notionalWide level.px level.qty) target).value =
      partialAt c level target := by
  unfold partialAtOps partialAt
  rw [value_op]
  split_ifs
  · rfl
  · exact qtyForNotionalOps_value _ _

theorem closePriceBandsOps_value (px : Int) (c : Cumulative) (out : List PriceBandResult)
    (offsets : List Int) :
    (closePriceBandsOps descending reference px c out offsets).value =
      (out ++ (offsets.takeWhile (outside descending reference px)).map (fun offset =>
          makePriceBand offset (offsetBound descending reference offset) c.qty c.notional
            c.levels false false),
        offsets.dropWhile (outside descending reference px)) := by
  refine handOver_eq
    (fun out offsets => (closePriceBandsOps descending reference px c out offsets).value)
    (fun _ => rfl) (fun out offset offsets => ?_) out offsets
  by_cases hin : PriceInside descending (offsetByBpsOutward reference offset descending) px <;>
    simp [closePriceBandsOps, outside, offsetBound, hin]

theorem closeVolumeBandsOps_value (c : Cumulative) (level : MergedLevel)
    (out : List VolumeBandResult) (targets : List Int) :
    (closeVolumeBandsOps c level (notionalWide level.px level.qty) out targets).value =
      (out ++ (targets.takeWhile (reached c level)).map (fun target =>
          closeVolumeBand target level.px (partialAt c level target) c),
        targets.dropWhile (reached c level)) := by
  refine handOver_eq (fun out targets =>
      (closeVolumeBandsOps c level (notionalWide level.px level.qty) out targets).value)
    (fun _ => rfl) (fun out target targets => ?_) out targets
  simp only [closeVolumeBandsOps, value_op]
  by_cases hreached : target ≤ c.notional + notionalWide level.px level.qty <;>
    simp [reached, hreached]

theorem walkLevelOps_value (w : BandWalk) (level : MergedLevel) :
    (walkLevelOps descending reference w level).value = walkLevel descending reference w level := by
  simp [walkLevelOps, walkLevel, closePriceBandsOps_value, closeVolumeBandsOps_value,
    Cumulative.pass]

theorem walkOps_value (levels : List MergedLevel) (w : BandWalk) :
    (walkOps descending reference w levels).value =
      levels.foldl (walkLevel descending reference) w := by
  induction levels generalizing w with
  | nil => rfl
  | cons level levels ih => simp [walkOps, walkLevelOps_value, ih]

theorem computeSideBandsOps_value (side : LadderView) (config : BandConfig) :
    (computeSideBandsOps side config).value = computeSideBands side config := by
  unfold computeSideBandsOps computeSideBands
  simp only
  split_ifs
  · simp [emitEmptyBandsOps, emitEmptyBands]
  · simp [finishBandsOps, finishBands, walkOps_value, offsetBound]

end Value

/-- Totals of a walk that has `levels` still ahead of it: with them included, the quantity and
the scaled notional fit 128 bits. -/
structure Headroom (c : Cumulative) (levels : List MergedLevel) : Prop where
  qty_nonneg : 0 ≤ c.qty
  notional_nonneg : 0 ≤ c.notional
  positive : ∀ m ∈ levels, (0 < m.px ∧ m.px ≤ int64Max) ∧ 0 < m.qty ∧ m.qty ≤ int64Max
  qty_le : c.qty + (levels.map MergedLevel.qty).sum ≤ int128Max
  notional_le : (c.notional + ladderNotional levels) * kScale ≤ int128Max

namespace Headroom
variable {c : Cumulative} {level : MergedLevel} {levels : List MergedLevel}

theorem totals_nonneg (h : Headroom c levels) :
    0 ≤ (levels.map MergedLevel.qty).sum ∧ 0 ≤ ladderNotional levels := by
  apply totals_nonneg_of_pos
  intro m hm
  obtain ⟨⟨hpx, -⟩, hqty, -⟩ := h.positive m hm
  exact ⟨hpx, hqty⟩

theorem fits (h : Headroom c levels) :
    FitsWidth 128 c.qty ∧ FitsWidth 128 c.notional ∧ FitsWidth 128 (c.notional * kScale) := by
  obtain ⟨hqty, hnotional⟩ := h.totals_nonneg
  have hle := h.qty_le
  have hle' := h.notional_le
  have h0 := h.notional_nonneg
  rw [fitsWidth_128_of_nonneg h.qty_nonneg, fitsWidth_128_of_nonneg h0,
    fitsWidth_128_of_nonneg (mul_nonneg h0 (by decide))]
  simp only [kScale] at hle' ⊢
  omega

theorem take (h : Headroom c (level :: levels)) {units : Int} (h0 : 0 ≤ units)
    (hle : units ≤ level.qty) (count : ℕ) (px : Int) :
    Headroom ⟨c.qty + units, c.notional + notionalWide level.px units, count, px⟩ levels := by
  obtain ⟨⟨⟨hpx, -⟩, hqty, -⟩, hpos⟩ := List.forall_mem_cons.mp h.positive
  have hpart : notionalWide level.px units ≤ notionalWide level.px level.qty := by
    rw [notionalWide_eq_ediv hpx.le h0, notionalWide_eq_ediv hpx.le hqty.le]
    exact Int.ediv_le_ediv (by decide) (Int.mul_le_mul_of_nonneg_left hle hpx.le)
  have hqtyTotal := h.qty_le
  have hnotionalTotal := h.notional_le
  simp only [List.map_cons, List.sum_cons, ladderNotional, kScale] at hqtyTotal hnotionalTotal
  refine ⟨add_nonneg h.qty_nonneg h0,
    add_nonneg h.notional_nonneg (notionalWide_nonneg hpx.le h0), hpos, ?_, ?_⟩
  · simp only
    omega
  · simp only [ladderNotional, kScale]
    omega

theorem pass (h : Headroom c (level :: levels)) : Headroom (c.pass level) levels := by
  obtain ⟨-, hqty, -⟩ := h.positive level List.mem_cons_self
  exact h.take hqty.le le_rfl _ _

end Headroom

section Exact
variable {descending : Bool} {reference : Int} {c : Cumulative} {level : MergedLevel}
  {levels : List MergedLevel}

theorem vwapOps_exact (notional qty : Int) :
    (vwapOps notional qty).Exact ↔ (0 < qty → FitsWidth 128 (notional * kScale)) := by
  unfold vwapOps
  split_ifs with hqty
  · exact iff_of_true (exact_pure _) (fun hpos => absurd hqty (not_le.mpr hpos))
  · rw [exact_op, and_iff_left (exact_pure _)]
    exact ⟨fun h _ => h, fun h => h (not_le.mp hqty)⟩

theorem makePriceBandOps_exact (h : Headroom c levels) (offsetBps bound : Int)
    (openEnded depthLimited : Bool) :
    (makePriceBandOps offsetBps bound c.qty c.notional c.levels openEnded depthLimited).Exact := by
  rw [makePriceBandOps, exact_bind, vwapOps_exact]
  exact ⟨fun _ => h.fits.2.2, exact_pure _⟩

theorem thinVolumeBandOps_exact (target : Int) (c : Cumulative) (openEnded : Bool) :
    (thinVolumeBandOps target c openEnded).Exact ↔
      (0 < c.qty → FitsWidth 128 (c.notional * kScale)) := by
  rw [thinVolumeBandOps, exact_bind, vwapOps_exact, and_iff_left (exact_pure _)]

theorem emitEmptyBandsOps_exact (config : BandConfig) : (emitEmptyBandsOps config).Exact := by
  have hband : ∀ offset openEnded depthLimited,
      (makePriceBandOps offset 0 0 0 0 openEnded depthLimited).Exact := by
    intro offset openEnded depthLimited
    simp [makePriceBandOps, vwapOps_exact]
  simp [emitEmptyBandsOps, hband]

theorem closeVolumeBandOps_exact (h : Headroom c (level :: levels)) {units : Int}
    (h0 : 0 ≤ units) (hle : units ≤ level.qty) (target : Int) :
    (closeVolumeBandOps target level.px units c).Exact := by
  obtain ⟨⟨hpx, hmax⟩, -, hqty⟩ := h.positive level List.mem_cons_self
  obtain ⟨hfilledQty, hfilledNotional, hscaled⟩ := (h.take h0 hle 0 0).fits
  have hpart : (partialNotionalOps level.px units).Exact ∧
      (partialNotionalOps level.px units).value = notionalWide level.px units := by
    unfold partialNotionalOps
    split_ifs with hpos
    · exact ⟨notionalWideOps_exact (fitsInt64_of_nonneg hpx.le hmax)
        (fitsInt64_of_nonneg h0 (hle.trans hqty)), rfl⟩
    · obtain rfl : units = 0 := by omega
      exact ⟨exact_pure _, by simp [notionalWide]⟩
  rw [closeVolumeBandOps, exact_bind, hpart.2]
  simp only [exact_bind, exact_result, value_result, vwapOps_exact, exact_pure, and_true]
  exact ⟨hpart.1, hfilledQty, hfilledNotional, fun _ => hscaled⟩

theorem partialAt_within (h : Headroom c (level :: levels)) (target : Int) :
    0 ≤ partialAt c level target ∧ partialAt c level target ≤ level.qty := by
  obtain ⟨⟨hpx, -⟩, hqty, hmax⟩ := h.positive level List.mem_cons_self
  unfold partialAt qtyForNotional
  split_ifs with hwhole hnone
  · exact ⟨hqty.le, le_rfl⟩
  · exact ⟨le_rfl, hqty.le⟩
  · rw [not_or, not_le, not_le] at hnone
    have hrest : 0 ≤ (target - c.notional) * kScale := mul_nonneg hnone.2.le (by decide)
    have hle : (target - c.notional) * kScale / level.px ≤ level.qty :=
      units_le_of_le_notionalWide hpx hqty.le (by omega)
    have hnonneg : 0 ≤ (target - c.notional) * kScale / level.px := Int.ediv_nonneg hrest hpx.le
    rw [Int.tdiv_eq_ediv_of_nonneg hrest,
      narrowSaturating_of_fits (fitsInt64_of_nonneg hnonneg (hle.trans hmax))]
    exact ⟨hnonneg, hle⟩

theorem partialAtOps_exact (h : Headroom c (level :: levels)) {target : Int}
    (htarget : FitsInt64 target) :
    (partialAtOps c level (notionalWide level.px level.qty) target).Exact := by
  have hreach := h.pass.fits.2.1
  have h0 := h.notional_nonneg
  have hmax := h.fits.2.2.2
  obtain ⟨hlow, hhigh⟩ := htarget
  simp only [int64Min, int64Max, kScale] at hlow hhigh hmax
  rw [partialAtOps, exact_op]
  refine ⟨hreach, ?_⟩
  split_ifs
  · exact exact_pure _
  · rw [exact_op]
    refine ⟨by unfold FitsWidth; omega, ?_⟩
    unfold qtyForNotionalOps
    split_ifs with hnone
    · exact exact_pure _
    · rw [exact_op, and_iff_left (exact_pure _)]
      unfold FitsWidth kScale
      omega

theorem closePriceBandsOps_exact (h : Headroom c levels) (href : FitsInt64 reference) (px : Int)
    (out : List PriceBandResult) {offsets : List Int} (hoffsets : ∀ o ∈ offsets, FitsInt64 o) :
    (closePriceBandsOps descending reference px c out offsets).Exact := by
  induction offsets generalizing out with
  | nil => exact exact_pure _
  | cons offset offsets ih =>
    obtain ⟨hoffset, hrest⟩ := List.forall_mem_cons.mp hoffsets
    rw [closePriceBandsOps, exact_bind]
    refine ⟨offsetByBpsOutwardOps_exact href hoffset descending, ?_⟩
    split_ifs
    · exact exact_pure _
    · rw [exact_bind]
      exact ⟨makePriceBandOps_exact h _ _ _ _, ih _ hrest⟩

theorem closeVolumeBandsOps_exact (h : Headroom c (level :: levels)) (out : List VolumeBandResult)
    {targets : List Int} (htargets : ∀ t ∈ targets, FitsInt64 t) :
    (closeVolumeBandsOps c level (notionalWide level.px level.qty) out targets).Exact := by
  induction targets generalizing out with
  | nil => exact exact_pure _
  | cons target targets ih =>
    obtain ⟨htarget, hrest⟩ := List.forall_mem_cons.mp htargets
    obtain ⟨h0, hle⟩ := partialAt_within h target
    rw [closeVolumeBandsOps, exact_op]
    refine ⟨h.pass.fits.2.1, ?_⟩
    split_ifs
    · rw [exact_bind, exact_bind, partialAtOps_value]
      exact ⟨partialAtOps_exact h htarget, closeVolumeBandOps_exact h h0 hle target, ih _ hrest⟩
    · exact exact_pure _

structure Pending (w : BandWalk) : Prop where
  offsets : ∀ o ∈ w.offsetsBps, FitsInt64 o
  targets : ∀ t ∈ w.notionals, FitsInt64 t

theorem Pending.walkLevel {w : BandWalk} (h : Pending w) (level : MergedLevel) :
    Pending (walkLevel descending reference w level) where
  offsets o ho := h.offsets o ((List.dropWhile_sublist _).subset ho)
  targets t ht := h.targets t ((List.dropWhile_sublist _).subset ht)

theorem walkLevelOps_exact {w : BandWalk} (h : Headroom w.cumulative (level :: levels))
    (href : FitsInt64 reference) (hpending : Pending w) :
    (walkLevelOps descending reference w level).Exact := by
  obtain ⟨⟨hpx, hmax⟩, hqty, hqtyMax⟩ := h.positive level List.mem_cons_self
  have hpass := h.pass.fits
  have hnotional : (notionalWideOps level.px level.qty).Exact :=
    notionalWideOps_exact (fitsInt64_of_nonneg hpx.le hmax) (fitsInt64_of_nonneg hqty.le hqtyMax)
  simp only [walkLevelOps, exact_bind, exact_result, value_result, notionalWideOps_value,
    exact_pure, and_true]
  exact ⟨closePriceBandsOps_exact h href level.px _ hpending.offsets, hnotional,
    closeVolumeBandsOps_exact h _ hpending.targets, hpass.1, hpass.2.1⟩

variable (descending) in
theorem walkOps_exact (levels : List MergedLevel) {w : BandWalk}
    (h : Headroom w.cumulative levels) (href : FitsInt64 reference) (hpending : Pending w) :
    (walkOps descending reference w levels).Exact ∧
      Headroom (levels.foldl (walkLevel descending reference) w).cumulative [] ∧
      Pending (levels.foldl (walkLevel descending reference) w) := by
  induction levels generalizing w with
  | nil => exact ⟨exact_pure _, h, hpending⟩
  | cons level levels ih =>
    obtain ⟨hexact, hlast⟩ := ih (w := walkLevel descending reference w level) h.pass
      (hpending.walkLevel level)
    rw [walkOps, exact_bind, walkLevelOps_value]
    exact ⟨⟨walkLevelOps_exact h href hpending, hexact⟩, hlast⟩

theorem finishBandsOps_exact {w : BandWalk} (h : Headroom w.cumulative [])
    (href : FitsInt64 reference) (hpending : Pending w) :
    (finishBandsOps descending reference w).Exact := by
  have hthin : ∀ target openEnded, (thinVolumeBandOps target w.cumulative openEnded).Exact :=
    fun target openEnded => (thinVolumeBandOps_exact _ _ _).mpr fun _ => h.fits.2.2
  simp only [finishBandsOps, exact_bind, exact_each, exact_pure, and_true]
  exact ⟨fun o ho => ⟨offsetByBpsOutwardOps_exact href (hpending.offsets o ho) descending,
      makePriceBandOps_exact h _ _ _ _⟩,
    makePriceBandOps_exact h _ _ _ _, fun t _ => hthin t false, hthin 0 true⟩

theorem finishBandsOps_open {w : BandWalk} (h : (finishBandsOps descending reference w).Exact)
    (hqty : 0 < w.cumulative.qty) : w.cumulative.notional * kScale ≤ int128Max := by
  simp only [finishBandsOps, exact_bind] at h
  obtain ⟨-, -, -, hopen, -⟩ := h
  exact ((thinVolumeBandOps_exact 0 w.cumulative true).mp hopen hqty).2

variable (descending reference) in
theorem foldl_walkLevel_totals (levels : List MergedLevel) (w : BandWalk) :
    (levels.foldl (walkLevel descending reference) w).cumulative.qty =
        w.cumulative.qty + (levels.map MergedLevel.qty).sum ∧
      (levels.foldl (walkLevel descending reference) w).cumulative.notional =
        w.cumulative.notional + ladderNotional levels := by
  induction levels generalizing w with
  | nil => simp [ladderNotional]
  | cons level levels ih =>
    obtain ⟨hqty, hnotional⟩ := ih (walkLevel descending reference w level)
    rw [List.foldl_cons, hqty, hnotional]
    simp only [walkLevel, Cumulative.pass, List.map_cons, List.sum_cons, ladderNotional, add_assoc,
      and_self]

/-- The ladder decides through the product of its open-ended average alone. -/
theorem computeSideBandsOps_exact {levels : List MergedLevel} {config : BandConfig}
    (hpos : ∀ m ∈ levels, (0 < m.px ∧ m.px ≤ int64Max) ∧ 0 < m.qty ∧ m.qty ≤ int64Max)
    (hqty : (levels.map MergedLevel.qty).sum ≤ int128Max)
    (hoffsets : ∀ o ∈ config.offsetsBps, FitsInt64 o)
    (htargets : ∀ t ∈ config.notionals, FitsInt64 t) :
    (computeSideBandsOps ⟨levels, descending⟩ config).Exact ↔
      ladderNotional levels * kScale ≤ int128Max := by
  cases levels with
  | nil =>
    have hempty : computeSideBandsOps ⟨[], descending⟩ config = emitEmptyBandsOps config := rfl
    rw [hempty]
    exact iff_of_true (emitEmptyBandsOps_exact config) (by decide)
  | cons touch rest =>
    obtain ⟨⟨hpx, hmax⟩, htouchQty, -⟩ := hpos touch List.mem_cons_self
    have href : viewBestPx ⟨touch :: rest, descending⟩ = touch.px := rfl
    rw [computeSideBandsOps, href]
    simp only [if_neg hpx.ne', exact_bind, walkOps_value]
    constructor
    · rintro ⟨-, hfinish⟩
      obtain ⟨hwalked, hnotional⟩ := foldl_walkLevel_totals descending touch.px (touch :: rest)
        ⟨{ worstPx := touch.px }, config.notionals, config.offsetsBps, {}⟩
      have hrest := (totals_nonneg_of_pos fun m hm =>
        ⟨(hpos m (List.mem_cons_of_mem _ hm)).1.1, (hpos m (List.mem_cons_of_mem _ hm)).2.1⟩).1
      rw [List.map_cons, List.sum_cons, zero_add] at hwalked
      rw [zero_add] at hnotional
      exact hnotional ▸ finishBandsOps_open hfinish (by omega)
    · intro hnotional
      have hstart : Headroom { worstPx := touch.px } (touch :: rest) :=
        ⟨le_rfl, le_rfl, hpos, by simpa using hqty, by simpa using hnotional⟩
      have hfits := fitsInt64_of_nonneg hpx.le hmax
      obtain ⟨hwalk, hlast, hrest⟩ := walkOps_exact descending (touch :: rest)
        (w := ⟨{ worstPx := touch.px }, config.notionals, config.offsetsBps, {}⟩) hstart hfits
        ⟨hoffsets, htargets⟩
      exact ⟨hwalk, finishBandsOps_exact hlast hfits hrest⟩

end Exact

end CexAggregator
