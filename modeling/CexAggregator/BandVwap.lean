import CexAggregator.BandBounds
import Mathlib.Data.Finset.Max

/-!
# The reported average against the prices paid

Every level's notional is truncated before it is added up and the quotient truncates once
more. `Fills` is a sweep that takes some of each consumed level, in any amounts: the band
figures of the walk are those of such a sweep, whatever the configuration asks for.
-/

namespace CexAggregator

inductive Fills : List MergedLevel → Sweep → Prop
  | none : Fills [] {}
  | take {consumed : List MergedLevel} {s : Sweep} (level : MergedLevel) {qty : Int}
      (h : Fills consumed s) (hpos : 0 < qty) (hle : qty ≤ level.qty) :
      Fills (consumed ++ [level]) (s.take level.px qty)

namespace Fills
variable {consumed : List MergedLevel} {s : Sweep} {lo hi : Int}

theorem levels_eq (h : Fills consumed s) : s.levels = consumed.length := by
  induction h with
  | none => rfl
  | take level _ _ _ ih => simp [Sweep.take, ih]

theorem ne_nil_of_qty_pos (h : Fills consumed s) (hqty : 0 < s.qty) : consumed ≠ [] := by
  cases h with
  | none => exact (lt_irrefl _ hqty).elim
  | take level _ _ _ => simp

/-- Truncation only ever loses notional, and less than one unit of it per level. -/
theorem notional_bounds (h : Fills consumed s) (hlohi : ∀ m ∈ consumed, lo ≤ m.px ∧ m.px ≤ hi) :
    s.notional * kScale ≤ hi * s.qty ∧
      lo * s.qty ≤ s.notional * kScale + s.levels * (kScale - 1) := by
  induction h with
  | none => simp
  | @take consumed s level qty _ hpos _ ih =>
    obtain ⟨hlo, hhi⟩ := hlohi level (by simp)
    obtain ⟨hupper, hlower⟩ := ih fun m hm => hlohi m (List.mem_append_left _ hm)
    have hscale : (0 : Int) < kScale := by decide
    have hfloor : level.px * qty / kScale * kScale ≤ level.px * qty :=
      Int.ediv_mul_le _ hscale.ne'
    have hceil : level.px * qty < (level.px * qty / kScale + 1) * kScale :=
      Int.lt_ediv_add_one_mul_self _ hscale
    have hcheap : lo * qty ≤ level.px * qty := Int.mul_le_mul_of_nonneg_right hlo hpos.le
    have hdear : level.px * qty ≤ hi * qty := Int.mul_le_mul_of_nonneg_right hhi hpos.le
    simp only [Sweep.take, Int.mul_add, Int.add_mul, Nat.cast_add, Nat.cast_one, one_mul]
      at hceil ⊢
    constructor <;> omega

theorem vwap_bounds (h : Fills consumed s) (hqty : 0 < s.qty)
    (hlohi : ∀ m ∈ consumed, lo ≤ m.px ∧ m.px ≤ hi) :
    s.notional * kScale - s.qty < s.vwap * s.qty ∧ s.vwap * s.qty ≤ s.notional * kScale ∧
      s.vwap ≤ hi ∧ (lo - s.vwap - 1) * s.qty < consumed.length * kScale := by
  obtain ⟨hupper, hlower⟩ := h.notional_bounds hlohi
  have hvwap : s.vwap = s.notional * kScale / s.qty := if_neg hqty.ne'
  have hfloor : s.vwap * s.qty ≤ s.notional * kScale := by
    rw [hvwap]
    exact Int.ediv_mul_le _ hqty.ne'
  have hceil : s.notional * kScale < (s.vwap + 1) * s.qty := by
    rw [hvwap]
    exact Int.lt_ediv_add_one_mul_self _ hqty
  have hsome : 0 < consumed.length := List.length_pos_iff.mpr (h.ne_nil_of_qty_pos hqty)
  rw [Int.add_mul, one_mul] at hceil
  refine ⟨by omega, hfloor, ?_, ?_⟩
  · rw [hvwap]
    exact Int.ediv_le_of_le_mul hqty hupper
  · rw [h.levels_eq, Int.mul_sub, mul_one] at hlower
    simp only [Int.sub_mul, one_mul]
    omega

end Fills

def FilledFrom (levels : List MergedLevel) (count : ℕ) (vwap qty notional : Int) : Prop :=
  ∃ s : Sweep, Fills (levels.take count) s ∧ vwap = s.vwap ∧ qty = s.qty ∧ notional = s.notional

def VolumeBandResult.FilledFrom (levels : List MergedLevel) (band : VolumeBandResult) : Prop :=
  CexAggregator.FilledFrom levels band.levelsConsumed band.vwap band.filledQty band.filledNotional

def PriceBandResult.FilledFrom (levels : List MergedLevel) (band : PriceBandResult) : Prop :=
  CexAggregator.FilledFrom levels band.levels band.vwap band.qty band.notional

section Walk
variable {descending : Bool} {reference : Int} {c : Cumulative} {level : MergedLevel}
  {done todo : List MergedLevel}

theorem partialAt_bounds (h : Walkable c.sweep (level :: todo)) (target : Int) :
    0 ≤ partialAt c level target ∧ partialAt c level target ≤ level.qty := by
  obtain ⟨-, hqty⟩ := h.positive level List.mem_cons_self
  unfold partialAt
  split_ifs with hwhole
  · exact ⟨hqty.le, le_rfl⟩
  · rw [not_le] at hwhole
    by_cases hopen : c.notional < target
    · obtain ⟨hunits, h0, hle⟩ := qtyForNotional_eq h hopen hwhole
      rw [hunits]
      exact ⟨h0, hle⟩
    · rw [qtyForNotional, if_pos (Or.inr (by omega))]
      exact ⟨le_rfl, hqty.le⟩

theorem Fills.pass (h : Fills done c.sweep) (hwalk : Walkable c.sweep (level :: todo)) :
    Fills (done ++ [level]) (c.pass level).sweep := by
  obtain ⟨-, hqty⟩ := hwalk.positive level List.mem_cons_self
  rw [sweep_pass hwalk]
  exact h.take level hqty le_rfl

theorem makePriceBand_filledFrom (h : Fills done c.sweep) (hwalk : Walkable c.sweep todo)
    (offset bound : Int) (openEnded depthLimited : Bool) :
    (makePriceBand offset bound c.qty c.notional c.levels openEnded depthLimited).FilledFrom
      (done ++ todo) := by
  rw [makePriceBand_eq hwalk]
  refine ⟨c.sweep, ?_, rfl, rfl, rfl⟩
  show Fills ((done ++ todo).take c.sweep.levels) c.sweep
  rw [h.levels_eq, List.take_left]
  exact h

theorem filledFrom_of_figures {levels : List MergedLevel} {band : VolumeBandResult} {s : Sweep}
    {target : Int} {fullyFilled openEnded : Bool}
    (hband : band.figures = s.figures target fullyFilled openEnded)
    (h : Fills (levels.take s.levels) s) : band.FilledFrom levels := by
  simp only [VolumeBandResult.figures, Sweep.figures, BandFigures.mk.injEq] at hband
  obtain ⟨-, hqty, hnotional, hvwap, -, -, hlevels⟩ := hband
  exact ⟨s, hlevels ▸ h, hvwap, hqty, hnotional⟩

theorem thinVolumeBand_filledFrom (h : Fills done c.sweep) (hwalk : Walkable c.sweep [])
    (target : Int) (openEnded : Bool) :
    (thinVolumeBand target c openEnded).FilledFrom done := by
  refine filledFrom_of_figures (thinVolumeBand_figures hwalk openEnded) ?_
  rw [h.levels_eq, List.take_length]
  exact h

theorem closeVolumeBand_filledFrom (h : Fills done c.sweep)
    (hwalk : Walkable c.sweep (level :: todo)) (target : Int) :
    (closeVolumeBand target level.px (partialAt c level target) c).FilledFrom
      (done ++ level :: todo) := by
  obtain ⟨h0, hle⟩ := partialAt_bounds hwalk target
  refine filledFrom_of_figures (closeVolumeBand_figures hwalk h0 hle) ?_
  split_ifs with hzero
  · rw [h.levels_eq, List.take_left]
    exact h
  · have htaken := h.take level (lt_of_le_of_ne h0 (Ne.symm hzero)) hle
    rw [htaken.levels_eq, List.append_cons done level todo, List.take_left]
    exact htaken

structure WalkFilled (done todo : List MergedLevel) (w : BandWalk) : Prop where
  fills : Fills done w.cumulative.sweep
  walkable : Walkable w.cumulative.sweep todo
  volume : ∀ band ∈ w.out.volume, band.FilledFrom (done ++ todo)
  price : ∀ band ∈ w.out.price, band.FilledFrom (done ++ todo)

theorem walkFilled_walkLevel {w : BandWalk} (h : WalkFilled done (level :: todo) w) :
    WalkFilled (done ++ [level]) todo (walkLevel descending reference w level) := by
  obtain ⟨-, hqty⟩ := h.walkable.positive level List.mem_cons_self
  refine ⟨h.fills.pass h.walkable, ?_, ?_, ?_⟩
  · exact sweep_pass h.walkable ▸ h.walkable.take hqty.le le_rfl
  · intro band hband
    rw [List.append_assoc, List.singleton_append]
    rcases List.mem_append.mp hband with hband | hband
    · exact h.volume band hband
    · obtain ⟨target, -, rfl⟩ := List.mem_map.mp hband
      exact closeVolumeBand_filledFrom h.fills h.walkable target
  · intro band hband
    rw [List.append_assoc, List.singleton_append]
    rcases List.mem_append.mp hband with hband | hband
    · exact h.price band hband
    · obtain ⟨offset, -, rfl⟩ := List.mem_map.mp hband
      exact makePriceBand_filledFrom h.fills h.walkable offset _ _ _

theorem walkFilled_foldl {w : BandWalk} (h : WalkFilled done todo w) :
    WalkFilled (done ++ todo) [] (todo.foldl (walkLevel descending reference) w) := by
  induction todo generalizing done w with
  | nil => simpa using h
  | cons level todo ih =>
    rw [List.foldl_cons, List.append_cons]
    exact ih (walkFilled_walkLevel h)

theorem finishBands_filled {w : BandWalk} (h : WalkFilled done [] w) :
    (∀ band ∈ (finishBands descending reference w).volume, band.FilledFrom done) ∧
      ∀ band ∈ (finishBands descending reference w).price, band.FilledFrom done := by
  have hvolume := h.volume
  have hprice := h.price
  rw [List.append_nil] at hvolume hprice
  simp only [finishBands, List.mem_append, List.mem_map, List.mem_singleton]
  constructor
  · rintro band ((hband | ⟨target, -, rfl⟩) | rfl)
    · exact hvolume band hband
    · exact thinVolumeBand_filledFrom h.fills h.walkable target false
    · exact thinVolumeBand_filledFrom h.fills h.walkable 0 true
  · rintro band ((hband | ⟨offset, -, rfl⟩) | rfl)
    · exact hprice band hband
    · exact List.append_nil done ▸ makePriceBand_filledFrom h.fills h.walkable offset _ _ _
    · exact List.append_nil done ▸ makePriceBand_filledFrom h.fills h.walkable 0 _ _ _

end Walk

/-- `vwap` is `notional / qty` up to one unit, no dearer than the dearest of the levels
consumed, and cheaper than the cheapest by no more than a unit and the truncated notionals. -/
def TrueAverage (levels : List MergedLevel) (count : ℕ) (vwap qty notional : Int) : Prop :=
  let prices := (levels.take count).map MergedLevel.px
  0 < qty →
    notional * kScale - qty < vwap * qty ∧ vwap * qty ≤ notional * kScale ∧
      ∃ lo ∈ prices, ∃ hi ∈ prices, (∀ px ∈ prices, lo ≤ px ∧ px ≤ hi) ∧
        vwap ≤ hi ∧ (lo - vwap - 1) * qty < count * kScale

theorem exists_lowest_highest {prices : List Int} (h : prices ≠ []) :
    ∃ lo ∈ prices, ∃ hi ∈ prices, ∀ px ∈ prices, lo ≤ px ∧ px ≤ hi := by
  have hsome : prices.toFinset.Nonempty := List.toFinset_nonempty_iff prices |>.mpr h
  obtain ⟨lo, hlo, hmin⟩ := prices.toFinset.exists_min_image id hsome
  obtain ⟨hi, hhi, hmax⟩ := prices.toFinset.exists_max_image id hsome
  simp only [List.mem_toFinset, id] at hlo hmin hhi hmax
  exact ⟨lo, hlo, hi, hhi, fun px hpx => ⟨hmin px hpx, hmax px hpx⟩⟩

theorem FilledFrom.trueAverage {levels : List MergedLevel} {count : ℕ} {vwap qty notional : Int}
    (h : FilledFrom levels count vwap qty notional) :
    TrueAverage levels count vwap qty notional := by
  obtain ⟨s, hfills, rfl, rfl, rfl⟩ := h
  intro hqty
  have hsome : (levels.take count).map MergedLevel.px ≠ [] := by
    rw [Ne, List.map_eq_nil_iff]
    exact hfills.ne_nil_of_qty_pos hqty
  obtain ⟨lo, hlo, hi, hhi, hbetween⟩ := exists_lowest_highest hsome
  have hlohi : ∀ m ∈ levels.take count, lo ≤ m.px ∧ m.px ≤ hi := fun m hm =>
    hbetween m.px (List.mem_map_of_mem hm)
  obtain ⟨hlower, hupper, hle, herror⟩ := hfills.vwap_bounds hqty hlohi
  have hcount : ((levels.take count).length : Int) * kScale ≤ count * kScale := by
    apply Int.mul_le_mul_of_nonneg_right _ (by decide)
    exact_mod_cast List.length_take_le count levels
  exact ⟨hlower, hupper, lo, hlo, hi, hhi, hbetween, hle, herror.trans_le hcount⟩

theorem computeSideBands_filledFrom {descending : Bool} (ladder : Ladder descending)
    (config : BandConfig) :
    (∀ band ∈ (computeSideBands ⟨ladder.levels, descending⟩ config).volume,
        band.FilledFrom ladder.levels) ∧
      ∀ band ∈ (computeSideBands ⟨ladder.levels, descending⟩ config).price,
        band.FilledFrom ladder.levels := by
  unfold computeSideBands
  simp only
  split_ifs with hempty
  · have hzero : FilledFrom ladder.levels 0 0 0 0 := ⟨{}, .none, rfl, rfl, rfl⟩
    simp only [emitEmptyBands, List.mem_append, List.mem_map, List.mem_singleton]
    constructor
    · rintro band (⟨target, -, rfl⟩ | rfl)
      · exact hzero
      · exact hzero
    · rintro band (⟨offset, -, rfl⟩ | rfl)
      · exact hzero
      · exact hzero
  · apply finishBands_filled
    rw [← List.nil_append ladder.levels]
    apply walkFilled_foldl
    refine ⟨.none, ladder.walkable, ?_, ?_⟩ <;> simp

theorem computeSideBands_trueAverage {descending : Bool} (ladder : Ladder descending)
    (config : BandConfig) :
    let bands := computeSideBands ⟨ladder.levels, descending⟩ config
    (∀ band ∈ bands.volume, TrueAverage ladder.levels band.levelsConsumed band.vwap
        band.filledQty band.filledNotional) ∧
      ∀ band ∈ bands.price, TrueAverage ladder.levels band.levels band.vwap
        band.qty band.notional := by
  obtain ⟨hvolume, hprice⟩ := computeSideBands_filledFrom ladder config
  exact ⟨fun band hband => (hvolume band hband).trueAverage,
    fun band hband => (hprice band hband).trueAverage⟩

theorem computeSideBands_trueAverage_partial :
    let levels : List MergedLevel := [⟨300000000, 200000000⟩, ⟨400000000, 100000000⟩]
    let config : BandConfig := ⟨[700000000, 100000000], [4900000000]⟩
    (computeSideBands ⟨levels, false⟩ config).volume.map VolumeBandResult.vwap =
        [311111111, 300000000, 333333333] ∧
      TrueAverage levels 2 311111111 225000000 700000000 :=
  ⟨by decide, (computeSideBands_trueAverage
    (⟨_, by decide, by decide, by decide, by decide⟩ : Ladder false)
    ⟨[700000000, 100000000], [4900000000]⟩).1
      ⟨700000000, 311111111, 400000000, 225000000, 700000000, true, false, 2⟩ (by decide)⟩

end CexAggregator
