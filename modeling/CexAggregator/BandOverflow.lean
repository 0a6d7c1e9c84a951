import CexAggregator.BandRequest
import CexAggregator.BandVwap

/-!
# What the band walk narrows

The walk once more, keeping every value it hands to the 64-bit narrowing: a debug build
asserts that each of them fits, a release build clamps those that do not. Quantities,
notionals, averages and partial fills are bounded by the ladder. A price bound is not: the
offset is the client's.
-/

namespace CexAggregator

structure Traced (α : Type) where
  value : α
  narrowed : List Int := []

namespace Traced

instance : Monad Traced where
  pure a := { value := a }
  bind x f := { value := (f x.value).value, narrowed := x.narrowed ++ (f x.value).narrowed }

def Fits {α : Type} (x : Traced α) : Prop := ∀ v ∈ x.narrowed, FitsInt64 v

section Basic
variable {α β : Type}

@[simp] theorem value_pure (a : α) : (pure a : Traced α).value = a := rfl

@[simp] theorem value_bind (x : Traced α) (f : α → Traced β) :
    (x >>= f).value = (f x.value).value := rfl

@[simp] theorem fits_pure (a : α) : (pure a : Traced α).Fits := by
  intro v hv
  cases hv

@[simp] theorem fits_bind (x : Traced α) (f : α → Traced β) :
    (x >>= f).Fits ↔ x.Fits ∧ (f x.value).Fits :=
  List.forall_mem_append

def each (f : α → Traced β) : List α → Traced (List β)
  | [] => pure []
  | a :: as => do
    let b ← f a
    let bs ← each f as
    pure (b :: bs)

@[simp] theorem value_each (f : α → Traced β) (as : List α) :
    (each f as).value = as.map fun a => (f a).value := by
  induction as with
  | nil => rfl
  | cons a as ih => simp [each, ih]

@[simp] theorem fits_each (f : α → Traced β) (as : List α) :
    (each f as).Fits ↔ ∀ a ∈ as, (f a).Fits := by
  induction as with
  | nil => simp [each]
  | cons a as ih => simp [each, ih]

end Basic

def narrowSaturating (v : Int) : Traced Int :=
  { value := CexAggregator.narrowSaturating v, narrowed := [v] }

def qtyForNotional (notional px : Int) : Traced Int :=
  if px ≤ 0 ∨ notional ≤ 0 then pure 0 else narrowSaturating ((notional * kScale).tdiv px)

def vwap (notional qty : Int) : Traced Int :=
  if qty ≤ 0 then pure 0 else narrowSaturating ((notional * kScale).tdiv qty)

def offsetByBpsOutward (reference offsetBps : Int) (downward : Bool) : Traced Int :=
  if reference ≤ 0 ∨ offsetBps ≤ 0 then pure reference
  else
    let numerator : Int := reference * offsetBps
    let delta : Int := (numerator + kBpsScale - 1).tdiv kBpsScale
    narrowSaturating (if downward then reference - delta else reference + delta)

def makePriceBand (offsetBps bound cumQty cumNotional : Int) (levels : ℕ)
    (openEnded depthLimited : Bool) : Traced PriceBandResult := do
  let qty ← narrowSaturating cumQty
  let notional ← narrowSaturating cumNotional
  let vwap ← vwap cumNotional cumQty
  pure
    { offsetBps := offsetBps
      bound := bound
      qty := qty
      notional := notional
      vwap := vwap
      levels := levels
      openEnded := openEnded
      depthLimited := depthLimited }

def emitEmptyBands (config : BandConfig) : Traced SideBands := do
  let price ← each (fun offset => makePriceBand offset 0 0 0 0 false true) config.offsetsBps
  let openPrice ← makePriceBand 0 0 0 0 0 true false
  pure
    { volume := config.notionals.map (fun target => { target := target }) ++ [{ openEnded := true }]
      price := price ++ [openPrice] }

def closeVolumeBand (target px partialQty : Int) (c : Cumulative) : Traced VolumeBandResult := do
  let partialNotional := if 0 < partialQty then notionalWide px partialQty else 0
  let filledQty := c.qty + partialQty
  let filledNotional := c.notional + partialNotional
  let notional ← narrowSaturating filledNotional
  let qty ← narrowSaturating filledQty
  let vwap ← vwap filledNotional filledQty
  pure
    { target := target
      filledNotional := notional
      filledQty := qty
      vwap := vwap
      worst := if 0 < partialQty then px else c.worstPx
      fullyFilled := true
      levelsConsumed := c.levels + if 0 < partialQty then 1 else 0 }

def thinVolumeBand (target : Int) (c : Cumulative) (openEnded : Bool) :
    Traced VolumeBandResult := do
  let qty ← narrowSaturating c.qty
  let notional ← narrowSaturating c.notional
  let vwap ← vwap c.notional c.qty
  pure
    { target := target
      filledQty := qty
      filledNotional := notional
      vwap := vwap
      worst := c.worstPx
      fullyFilled := false
      openEnded := openEnded
      levelsConsumed := c.levels }

def partialAt (c : Cumulative) (level : MergedLevel) (target : Int) : Traced Int :=
  if c.notional + notionalWide level.px level.qty ≤ target then pure level.qty
  else qtyForNotional (target - c.notional) level.px

def closePriceBands (descending : Bool) (reference px : Int) (c : Cumulative)
    (out : List PriceBandResult) : List Int → Traced (List PriceBandResult × List Int)
  | [] => pure (out, [])
  | offset :: offsets => do
    let bound ← offsetByBpsOutward reference offset descending
    if PriceInside descending bound px then pure (out, offset :: offsets)
    else
      let band ← makePriceBand offset bound c.qty c.notional c.levels false false
      closePriceBands descending reference px c (out ++ [band]) offsets

def closeVolumeBands (c : Cumulative) (level : MergedLevel) (out : List VolumeBandResult) :
    List Int → Traced (List VolumeBandResult × List Int)
  | [] => pure (out, [])
  | target :: targets =>
    if reached c level target then do
      let partialQty ← partialAt c level target
      let band ← closeVolumeBand target level.px partialQty c
      closeVolumeBands c level (out ++ [band]) targets
    else pure (out, target :: targets)

def walkLevel (descending : Bool) (reference : Int) (w : BandWalk) (level : MergedLevel) :
    Traced BandWalk := do
  let price ← closePriceBands descending reference level.px w.cumulative w.out.price w.offsetsBps
  let volume ← closeVolumeBands w.cumulative level w.out.volume w.notionals
  pure
    { cumulative := w.cumulative.pass level
      notionals := volume.2
      offsetsBps := price.2
      out := { volume := volume.1, price := price.1 } }

def walk (descending : Bool) (reference : Int) (w : BandWalk) : List MergedLevel → Traced BandWalk
  | [] => pure w
  | level :: levels => do
    let next ← walkLevel descending reference w level
    walk descending reference next levels

def finishBands (descending : Bool) (reference : Int) (w : BandWalk) : Traced SideBands := do
  let c := w.cumulative
  let price ← each (fun offset => do
      let bound ← offsetByBpsOutward reference offset descending
      makePriceBand offset bound c.qty c.notional c.levels false true) w.offsetsBps
  let openPrice ← makePriceBand 0 c.worstPx c.qty c.notional c.levels true false
  let volume ← each (fun target => thinVolumeBand target c false) w.notionals
  let openVolume ← thinVolumeBand 0 c true
  pure
    { price := w.out.price ++ price ++ [openPrice]
      volume := w.out.volume ++ volume ++ [openVolume] }

def computeSideBands (side : LadderView) (config : BandConfig) : Traced SideBands :=
  let reference := viewBestPx side
  if reference = 0 then emitEmptyBands config
  else do
    let w ← walk side.descending reference
      { cumulative := { worstPx := reference }
        notionals := config.notionals
        offsetsBps := config.offsetsBps } side.levels
    finishBands side.descending reference w

section Value
variable {descending : Bool} {reference : Int}

@[simp] theorem narrowSaturating_value (v : Int) :
    (narrowSaturating v).value = CexAggregator.narrowSaturating v := rfl

@[simp] theorem qtyForNotional_value (notional px : Int) :
    (qtyForNotional notional px).value = CexAggregator.qtyForNotional notional px := by
  unfold qtyForNotional CexAggregator.qtyForNotional
  split_ifs <;> rfl

@[simp] theorem vwap_value (notional qty : Int) :
    (vwap notional qty).value = CexAggregator.vwap notional qty := by
  unfold vwap CexAggregator.vwap
  split_ifs <;> rfl

@[simp] theorem offsetByBpsOutward_value (offset : Int) :
    (offsetByBpsOutward reference offset descending).value =
      offsetBound descending reference offset := by
  unfold offsetByBpsOutward offsetBound CexAggregator.offsetByBpsOutward
  split_ifs <;> rfl

@[simp] theorem makePriceBand_value (offsetBps bound cumQty cumNotional : Int) (levels : ℕ)
    (openEnded depthLimited : Bool) :
    (makePriceBand offsetBps bound cumQty cumNotional levels openEnded depthLimited).value =
      CexAggregator.makePriceBand offsetBps bound cumQty cumNotional levels openEnded
        depthLimited := by
  simp [makePriceBand, CexAggregator.makePriceBand]

@[simp] theorem closeVolumeBand_value (target px partialQty : Int) (c : Cumulative) :
    (closeVolumeBand target px partialQty c).value =
      CexAggregator.closeVolumeBand target px partialQty c := by
  simp [closeVolumeBand, CexAggregator.closeVolumeBand]

@[simp] theorem thinVolumeBand_value (target : Int) (c : Cumulative) (openEnded : Bool) :
    (thinVolumeBand target c openEnded).value =
      CexAggregator.thinVolumeBand target c openEnded := by
  simp [thinVolumeBand, CexAggregator.thinVolumeBand]

@[simp] theorem partialAt_value (c : Cumulative) (level : MergedLevel) (target : Int) :
    (partialAt c level target).value = CexAggregator.partialAt c level target := by
  unfold partialAt CexAggregator.partialAt
  split_ifs
  · rfl
  · exact qtyForNotional_value _ _

theorem closePriceBands_value (px : Int) (c : Cumulative) (out : List PriceBandResult)
    (offsets : List Int) :
    (closePriceBands descending reference px c out offsets).value =
      (out ++ (offsets.takeWhile (outside descending reference px)).map (fun offset =>
          CexAggregator.makePriceBand offset (offsetBound descending reference offset) c.qty
            c.notional c.levels false false),
        offsets.dropWhile (outside descending reference px)) := by
  refine handOver_eq
    (fun out offsets => (closePriceBands descending reference px c out offsets).value)
    (fun _ => rfl) (fun out offset offsets => ?_) out offsets
  by_cases hin : PriceInside descending (offsetBound descending reference offset) px <;>
    simp [closePriceBands, outside, hin]

theorem closeVolumeBands_value (c : Cumulative) (level : MergedLevel)
    (out : List VolumeBandResult) (targets : List Int) :
    (closeVolumeBands c level out targets).value =
      (out ++ (targets.takeWhile (reached c level)).map (fun target =>
          CexAggregator.closeVolumeBand target level.px (CexAggregator.partialAt c level target) c),
        targets.dropWhile (reached c level)) := by
  refine handOver_eq (fun out targets => (closeVolumeBands c level out targets).value)
    (fun _ => rfl) (fun out target targets => ?_) out targets
  by_cases hreached : reached c level target = true <;> simp [closeVolumeBands, hreached]

theorem walkLevel_value (w : BandWalk) (level : MergedLevel) :
    (walkLevel descending reference w level).value =
      CexAggregator.walkLevel descending reference w level := by
  simp [walkLevel, CexAggregator.walkLevel, closePriceBands_value, closeVolumeBands_value]

theorem walk_value (levels : List MergedLevel) (w : BandWalk) :
    (walk descending reference w levels).value =
      levels.foldl (CexAggregator.walkLevel descending reference) w := by
  induction levels generalizing w with
  | nil => rfl
  | cons level levels ih => simp [walk, walkLevel_value, ih]

theorem computeSideBands_value (side : LadderView) (config : BandConfig) :
    (computeSideBands side config).value = CexAggregator.computeSideBands side config := by
  unfold computeSideBands CexAggregator.computeSideBands
  simp only
  split_ifs
  · simp [emitEmptyBands, CexAggregator.emitEmptyBands]
  · simp [finishBands, CexAggregator.finishBands, walk_value]

end Value

section Fitting
variable {descending : Bool} {reference : Int} {c : Cumulative} {level : MergedLevel}
  {levels : List MergedLevel}

@[simp] theorem narrowSaturating_fits (v : Int) : (narrowSaturating v).Fits ↔ FitsInt64 v := by
  simp [Fits, narrowSaturating]

theorem vwap_fits {s : Sweep} (h : Walkable s levels) : (vwap s.notional s.qty).Fits := by
  unfold vwap
  split_ifs with hqty
  · exact fits_pure 0
  · rw [not_le] at hqty
    have hscaled : 0 ≤ s.notional * kScale := mul_nonneg h.notional_nonneg (by decide)
    rw [narrowSaturating_fits, Int.tdiv_eq_ediv_of_nonneg hscaled]
    apply fitsInt64_of_nonneg (Int.ediv_nonneg hscaled hqty.le)
    exact Int.ediv_le_of_le_mul hqty h.priced

theorem makePriceBand_fits (h : Walkable c.sweep levels) (offset bound : Int)
    (openEnded depthLimited : Bool) :
    (makePriceBand offset bound c.qty c.notional c.levels openEnded depthLimited).Fits := by
  obtain ⟨hqty, hnotional⟩ := h.fits
  simp only [makePriceBand, fits_bind, narrowSaturating_fits, fits_pure, and_true]
  exact ⟨hqty, hnotional, vwap_fits h⟩

theorem thinVolumeBand_fits (h : Walkable c.sweep levels) (target : Int) (openEnded : Bool) :
    (thinVolumeBand target c openEnded).Fits := by
  obtain ⟨hqty, hnotional⟩ := h.fits
  simp only [thinVolumeBand, fits_bind, narrowSaturating_fits, fits_pure, and_true]
  exact ⟨hqty, hnotional, vwap_fits h⟩

theorem closeVolumeBand_fits (h : Walkable c.sweep (level :: levels)) {units : Int}
    (h0 : 0 ≤ units) (hle : units ≤ level.qty) (target : Int) :
    (closeVolumeBand target level.px units c).Fits := by
  obtain ⟨⟨hpx, -⟩, -⟩ := h.positive level List.mem_cons_self
  have htaken := h.take h0 hle
  obtain ⟨hqty, hnotional⟩ := htaken.fits
  have hvwap := vwap_fits htaken
  have hpart : (if 0 < units then notionalWide level.px units else 0) =
      level.px * units / kScale := by
    rcases h0.eq_or_lt with hzero | hpos
    · simp [← hzero]
    · rw [if_pos hpos, notionalWide_eq_ediv hpx.le h0]
  simp only [Cumulative.sweep, Sweep.take] at hqty hnotional hvwap
  simp only [closeVolumeBand, fits_bind, narrowSaturating_fits, fits_pure, and_true, hpart]
  exact ⟨hnotional, hqty, hvwap⟩

theorem partialAt_fits (h : Walkable c.sweep (level :: levels)) (target : Int) :
    (partialAt c level target).Fits := by
  obtain ⟨⟨hpx, -⟩, hqty⟩ := h.positive level List.mem_cons_self
  unfold partialAt qtyForNotional
  split_ifs with hwhole hnone
  · exact fits_pure level.qty
  · exact fits_pure 0
  · rw [not_or, not_le, not_le] at hnone
    obtain ⟨-, h0, hle⟩ := qtyForNotional_eq h (by omega) (not_le.mp hwhole)
    have hmax := (h.take hqty.le le_rfl).fits.1.2
    have hnonneg := h.qty_nonneg
    simp only [Sweep.take] at hmax
    rw [narrowSaturating_fits,
      Int.tdiv_eq_ediv_of_nonneg (mul_nonneg hnone.2.le (by decide))]
    exact fitsInt64_of_nonneg h0 (by omega)

theorem closeVolumeBands_fits (h : Walkable c.sweep (level :: levels))
    (out : List VolumeBandResult) (targets : List Int) :
    (closeVolumeBands c level out targets).Fits := by
  induction targets generalizing out with
  | nil => exact fits_pure _
  | cons target targets ih =>
    unfold closeVolumeBands
    split_ifs
    · obtain ⟨h0, hle⟩ := partialAt_bounds h target
      simp only [fits_bind, partialAt_value]
      exact ⟨partialAt_fits h target, closeVolumeBand_fits h h0 hle target, ih _⟩
    · exact fits_pure _

theorem closePriceBands_fits (h : Walkable c.sweep levels) (px : Int)
    (out : List PriceBandResult) (offsets : List Int) :
    ((closePriceBands descending reference px c out offsets).Fits ∧
        ∀ offset ∈ (closePriceBands descending reference px c out offsets).value.2,
          (offsetByBpsOutward reference offset descending).Fits) ↔
      ∀ offset ∈ offsets, (offsetByBpsOutward reference offset descending).Fits := by
  induction offsets generalizing out with
  | nil => simp [closePriceBands]
  | cons offset offsets ih =>
    by_cases hin : PriceInside descending (offsetBound descending reference offset) px
    · simp only [closePriceBands, fits_bind, value_bind, offsetByBpsOutward_value, if_pos hin,
        fits_pure, value_pure, and_true, List.forall_mem_cons]
      exact and_iff_right_of_imp And.left
    · simp only [closePriceBands, fits_bind, value_bind, offsetByBpsOutward_value, if_neg hin,
        makePriceBand_fits h, true_and, and_assoc, ih, List.forall_mem_cons]

theorem walk_fits (levels : List MergedLevel) (w : BandWalk)
    (h : Walkable w.cumulative.sweep levels) :
    ((walk descending reference w levels).Fits ∧
        ∀ offset ∈ (walk descending reference w levels).value.offsetsBps,
          (offsetByBpsOutward reference offset descending).Fits) ↔
      ∀ offset ∈ w.offsetsBps, (offsetByBpsOutward reference offset descending).Fits := by
  induction levels generalizing w with
  | nil => simp [walk]
  | cons level levels ih =>
    obtain ⟨-, hqty⟩ := h.positive level List.mem_cons_self
    have hnext : Walkable (walkLevel descending reference w level).value.cumulative.sweep levels :=
      sweep_pass h ▸ h.take hqty.le le_rfl
    have hlevel := @closePriceBands_fits descending reference _ _ h level.px w.out.price
      w.offsetsBps
    have hvolume := closeVolumeBands_fits h w.out.volume w.notionals
    rw [← hlevel]
    simp only [walk, fits_bind, value_bind, and_assoc, ih _ hnext]
    simp [walkLevel, hvolume]

theorem finishBands_fits (w : BandWalk) (h : Walkable w.cumulative.sweep []) :
    (finishBands descending reference w).Fits ↔
      ∀ offset ∈ w.offsetsBps, (offsetByBpsOutward reference offset descending).Fits := by
  simp [finishBands, makePriceBand_fits h, thinVolumeBand_fits h]

theorem walk_walkable (levels : List MergedLevel) (w : BandWalk)
    (h : Walkable w.cumulative.sweep levels) :
    Walkable (walk descending reference w levels).value.cumulative.sweep [] := by
  induction levels generalizing w with
  | nil => exact h
  | cons level levels ih =>
    obtain ⟨-, hqty⟩ := h.positive level List.mem_cons_self
    apply ih
    exact sweep_pass h ▸ h.take hqty.le le_rfl

theorem emitEmptyBands_fits (config : BandConfig) : (emitEmptyBands config).Fits := by
  have hzero : FitsInt64 0 := by decide
  have hband : ∀ offset openEnded depthLimited,
      (makePriceBand offset 0 0 0 0 openEnded depthLimited).Fits := by
    intro offset openEnded depthLimited
    simp [makePriceBand, vwap, hzero]
  simp [emitEmptyBands, hband]

/-- Every level, target and average is in range; what decides are the offsets. -/
theorem computeSideBands_fits_iff (ladder : Ladder descending) (config : BandConfig) :
    (computeSideBands ⟨ladder.levels, descending⟩ config).Fits ↔
      ∀ touch ∈ ladder.levels.head?, ∀ offset ∈ config.offsetsBps,
        (offsetByBpsOutward touch.px offset descending).Fits := by
  have hwalk := ladder.walkable
  have hbest := ladder.bestFirst
  cases hlevels : ladder.levels with
  | nil =>
    have hempty : computeSideBands ⟨[], descending⟩ config = emitEmptyBands config := rfl
    rw [hempty]
    exact iff_of_true (emitEmptyBands_fits config) (by simp)
  | cons touch rest =>
    rw [hlevels] at hwalk hbest
    have hpx : touch.px ≠ 0 := (hbest.positive touch List.mem_cons_self).1.ne'
    have hstart : Walkable (Cumulative.sweep { worstPx := touch.px }) (touch :: rest) := hwalk
    have href : viewBestPx ⟨touch :: rest, descending⟩ = touch.px := rfl
    rw [computeSideBands, href]
    simp only [if_neg hpx, fits_bind, List.head?_cons, Option.mem_some_iff, forall_eq']
    rw [finishBands_fits _ (walk_walkable _ _ hstart)]
    exact walk_fits (touch :: rest) _ hstart

theorem offsetByBpsOutward_fits_iff {offset : Int} (href : 0 < reference)
    (hmax : reference ≤ int64Max) (hoffset : 0 < offset) :
    (offsetByBpsOutward reference offset descending).Fits ↔
      if descending then reference * (offset - kBpsScale) ≤ -int64Min * kBpsScale
      else reference * (kBpsScale + offset) ≤ int64Max * kBpsScale := by
  have hpos : 0 < reference * offset := Int.mul_pos href hoffset
  have hscale : kBpsScale = 1000000000000 := rfl
  rw [offsetByBpsOutward, if_neg (by omega)]
  simp only
  rw [narrowSaturating_fits, Int.tdiv_eq_ediv_of_nonneg (by omega), FitsInt64, hscale,
    Int.mul_sub, Int.mul_add]
  simp only [int64Max, int64Min] at hmax ⊢
  cases descending <;> simp only [Bool.false_eq_true, ↓reduceIte] <;> omega

end Fitting

end Traced

/-- Nothing overflows exactly when every requested offset keeps its bound within 64 bits. -/
theorem narrowed_fit_iff {descending : Bool} (ladder : Ladder descending) {config : BandConfig}
    (hconfig : config.Accepted) :
    (∀ v ∈ (Traced.computeSideBands ⟨ladder.levels, descending⟩ config).narrowed, FitsInt64 v) ↔
      ∀ touch ∈ ladder.levels.head?, ∀ offset ∈ config.offsetsBps,
        if descending then touch.px * (offset - kBpsScale) ≤ -int64Min * kBpsScale
        else touch.px * (kBpsScale + offset) ≤ int64Max * kBpsScale := by
  have hfits := Traced.computeSideBands_fits_iff ladder config
  rw [Traced.Fits] at hfits
  rw [hfits]
  apply forall₂_congr
  intro touch htouch
  apply forall₂_congr
  intro offset hoffset
  have hmem : touch ∈ ladder.levels := List.mem_of_mem_head? htouch
  exact Traced.offsetByBpsOutward_fits_iff (ladder.bestFirst.positive touch hmem).1
    (ladder.pxFits touch hmem).2 (hconfig.ascending.offsetsBps_pos offset hoffset)

theorem narrowed_fit_iff_largest_offset :
    let levels : List MergedLevel := [⟨10000000000000, 100000000⟩]
    (∀ v ∈ (Traced.computeSideBands ⟨levels, false⟩ ⟨[], [922336203685477580]⟩).narrowed,
      FitsInt64 v) := by
  intro levels
  have hconfig : BandConfig.Accepted ⟨[], [922336203685477580]⟩ :=
    @makePriceConfig_accepted [922336203685477580] _ (by decide) rfl
  exact (narrowed_fit_iff (⟨levels, by decide, by decide, by decide, by decide⟩ : Ladder false)
    hconfig).mpr (by decide)

theorem not_narrowed_fit :
    let levels : List MergedLevel := [⟨10000000000000, 100000000⟩]
    ¬ ∀ config, makePriceConfig [9223372036854775807] = .ok config →
      ∀ v ∈ (Traced.computeSideBands ⟨levels, false⟩ config).narrowed, FitsInt64 v := by
  intro levels h
  have hv := h ⟨[], [9223372036854775807]⟩ rfl 92233730368547758070 (by decide)
  exact absurd hv (by decide)

end CexAggregator
