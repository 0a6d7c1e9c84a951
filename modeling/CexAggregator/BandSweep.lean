import CexAggregator.BandWalk
import CexAggregator.MergeSpec

/-!
# Independent sweeps

`sweep` answers one volume target on its own, in unbounded integers and with floor
division. Along the walk the truncated notional stays below the open targets and the
totals stay below those of the ladder, so neither the saturating arithmetic nor the
shared running state shows in a band.
-/

namespace CexAggregator
open OrderedTable

structure Ladder (descending : Bool) where
  levels : List MergedLevel
  bestFirst : BestFirst descending levels
  pxFits : ∀ m ∈ levels, FitsInt64 m.px
  qtyFits : FitsInt64 (levels.map MergedLevel.qty).sum
  notionalFits : FitsInt64 (ladderNotional levels)

structure Sweep where
  qty : Int := 0
  notional : Int := 0
  levels : ℕ := 0

def Sweep.vwap (s : Sweep) : Int := if s.qty = 0 then 0 else s.notional * kScale / s.qty

def Sweep.take (s : Sweep) (px qty : Int) : Sweep :=
  ⟨s.qty + qty, s.notional + px * qty / kScale, s.levels + 1⟩

/-- Whole levels up to the target; of the level beyond it, the units the rest still buys. -/
def sweepFrom (target : Int) (s : Sweep) : List MergedLevel → Sweep
  | [] => s
  | level :: levels =>
    let whole := s.take level.px level.qty
    if whole.notional < target then sweepFrom target whole levels
    else if whole.notional = target then whole
    else
      let units := (target - s.notional) * kScale / level.px
      if units = 0 then s else s.take level.px units

def sweep (target : Int) (levels : List MergedLevel) : Sweep := sweepFrom target {} levels

def sweepAll (levels : List MergedLevel) : Sweep :=
  levels.foldl (fun s level => s.take level.px level.qty) {}

structure BandFigures where
  target : Int
  filledQty : Int
  filledNotional : Int
  vwap : Int
  fullyFilled : Bool
  openEnded : Bool
  levelsConsumed : ℕ
deriving DecidableEq

def VolumeBandResult.figures (b : VolumeBandResult) : BandFigures :=
  ⟨b.target, b.filledQty, b.filledNotional, b.vwap, b.fullyFilled, b.openEnded, b.levelsConsumed⟩

def Sweep.figures (s : Sweep) (target : Int) (fullyFilled openEnded : Bool) : BandFigures :=
  ⟨target, s.qty, s.notional, s.vwap, fullyFilled, openEnded, s.levels⟩

def targetFigures (levels : List MergedLevel) (target : Int) : BandFigures :=
  (sweep target levels).figures target (target ≤ ladderNotional levels) false

def openFigures (levels : List MergedLevel) : BandFigures :=
  (sweepAll levels).figures 0 false true

def Cumulative.sweep (c : Cumulative) : Sweep := ⟨c.qty, c.notional, c.levels⟩

/-- Totals of a walk that has `levels` still ahead of it: with them included they fit
64 bits, and no price seen so far exceeds 64 bits. -/
structure Walkable (s : Sweep) (levels : List MergedLevel) : Prop where
  qty_nonneg : 0 ≤ s.qty
  notional_nonneg : 0 ≤ s.notional
  priced : s.notional * kScale ≤ int64Max * s.qty
  positive : ∀ m ∈ levels, (0 < m.px ∧ m.px ≤ int64Max) ∧ 0 < m.qty
  qty_le : s.qty + (levels.map MergedLevel.qty).sum ≤ int64Max
  notional_le : s.notional + ladderNotional levels ≤ int64Max

theorem vwap_eq {s : Sweep} (hqty : 0 ≤ s.qty) (hnotional : 0 ≤ s.notional)
    (hpriced : s.notional * kScale ≤ int64Max * s.qty) : vwap s.notional s.qty = s.vwap := by
  unfold vwap Sweep.vwap
  rcases hqty.eq_or_lt with h | h
  · rw [if_pos h.ge, if_pos h.symm]
  · have hscaled : 0 ≤ s.notional * kScale := mul_nonneg hnotional (by decide)
    rw [if_neg (not_le.mpr h), if_neg h.ne', Int.tdiv_eq_ediv_of_nonneg hscaled]
    refine narrowSaturating_of_fits (fitsInt64_of_nonneg (Int.ediv_nonneg hscaled h.le) ?_)
    exact Int.ediv_le_of_le_mul h hpriced

namespace Walkable
variable {s : Sweep} {level : MergedLevel} {levels : List MergedLevel}

theorem vwap_eq (h : Walkable s levels) : CexAggregator.vwap s.notional s.qty = s.vwap :=
  CexAggregator.vwap_eq h.qty_nonneg h.notional_nonneg h.priced

theorem totals_nonneg (h : Walkable s levels) :
    0 ≤ (levels.map MergedLevel.qty).sum ∧ 0 ≤ ladderNotional levels := by
  apply totals_nonneg_of_pos
  intro m hm
  obtain ⟨⟨hpx, -⟩, hqty⟩ := h.positive m hm
  exact ⟨hpx, hqty⟩

theorem fits (h : Walkable s levels) : FitsInt64 s.qty ∧ FitsInt64 s.notional := by
  obtain ⟨hqty, hnotional⟩ := h.totals_nonneg
  have hle := h.qty_le
  have hle' := h.notional_le
  exact ⟨fitsInt64_of_nonneg h.qty_nonneg (by omega),
    fitsInt64_of_nonneg h.notional_nonneg (by omega)⟩

theorem take (h : Walkable s (level :: levels)) {qty : Int} (h0 : 0 ≤ qty)
    (hle : qty ≤ level.qty) : Walkable (s.take level.px qty) levels := by
  obtain ⟨⟨⟨hpx, hmax⟩, hqty⟩, hpos⟩ := List.forall_mem_cons.mp h.positive
  have hnonneg : 0 ≤ level.px * qty / kScale :=
    Int.ediv_nonneg (mul_nonneg hpx.le h0) (by decide)
  have hpriced : level.px * qty / kScale * kScale ≤ int64Max * qty :=
    (Int.ediv_mul_le _ (by decide)).trans (Int.mul_le_mul_of_nonneg_right hmax h0)
  have hpart : level.px * qty / kScale ≤ notionalWide level.px level.qty := by
    rw [notionalWide_eq_ediv hpx.le hqty.le]
    exact Int.ediv_le_ediv (by decide) (Int.mul_le_mul_of_nonneg_left hle hpx.le)
  have hqtyTotal := h.qty_le
  have hnotionalTotal := h.notional_le
  simp only [List.map_cons, List.sum_cons, ladderNotional] at hqtyTotal hnotionalTotal
  refine ⟨add_nonneg h.qty_nonneg h0, add_nonneg h.notional_nonneg hnonneg, ?_, hpos, ?_, ?_⟩
  · have hsum := h.priced
    simp only [Sweep.take, Int.add_mul, Int.mul_add]
    omega
  · simp only [Sweep.take]
    omega
  · simp only [Sweep.take, ladderNotional]
    omega

end Walkable

section Bands
variable {c : Cumulative} {level : MergedLevel} {levels : List MergedLevel} {target : Int}

theorem thinVolumeBand_figures (h : Walkable c.sweep levels) (openEnded : Bool) :
    (thinVolumeBand target c openEnded).figures = c.sweep.figures target false openEnded := by
  obtain ⟨hqty, hnotional⟩ := h.fits
  have hvwap := h.vwap_eq
  simp only [Cumulative.sweep] at hqty hnotional hvwap
  simp [VolumeBandResult.figures, Sweep.figures, thinVolumeBand, Cumulative.sweep,
    narrowSaturating_of_fits hqty, narrowSaturating_of_fits hnotional, hvwap]

theorem closeVolumeBand_figures (h : Walkable c.sweep (level :: levels)) {units : Int}
    (h0 : 0 ≤ units) (hle : units ≤ level.qty) :
    (closeVolumeBand target level.px units c).figures =
      (if units = 0 then c.sweep else c.sweep.take level.px units).figures target true false := by
  obtain ⟨⟨hpx, -⟩, -⟩ := h.positive level List.mem_cons_self
  rcases h0.eq_or_lt with hzero | hpos
  · obtain ⟨hqty, hnotional⟩ := h.fits
    have hvwap := h.vwap_eq
    simp only [Cumulative.sweep] at hqty hnotional hvwap
    simp [VolumeBandResult.figures, Sweep.figures, closeVolumeBand, Cumulative.sweep,
      narrowSaturating_of_fits hqty, narrowSaturating_of_fits hnotional, hvwap, ← hzero]
  · have htaken := h.take h0 hle
    obtain ⟨hqty, hnotional⟩ := htaken.fits
    have hvwap := htaken.vwap_eq
    simp only [Cumulative.sweep, Sweep.take] at hqty hnotional hvwap
    simp [VolumeBandResult.figures, Sweep.figures, closeVolumeBand, Cumulative.sweep, Sweep.take,
      notionalWide_eq_ediv hpx.le h0, narrowSaturating_of_fits hqty,
      narrowSaturating_of_fits hnotional, hvwap, hpos, hpos.ne']

theorem sweep_pass (h : Walkable c.sweep (level :: levels)) :
    (c.pass level).sweep = c.sweep.take level.px level.qty := by
  obtain ⟨⟨hpx, -⟩, hqty⟩ := h.positive level List.mem_cons_self
  simp only [Cumulative.pass, Cumulative.sweep, Sweep.take, notionalWide_eq_ediv hpx.le hqty.le]

theorem qtyForNotional_eq (h : Walkable c.sweep (level :: levels)) (hopen : c.notional < target)
    (hover : target < c.notional + notionalWide level.px level.qty) :
    qtyForNotional (target - c.notional) level.px =
        (target - c.notional) * kScale / level.px ∧
      0 ≤ (target - c.notional) * kScale / level.px ∧
      (target - c.notional) * kScale / level.px ≤ level.qty := by
  obtain ⟨⟨hpx, -⟩, hqty⟩ := h.positive level List.mem_cons_self
  have hrest : 0 ≤ (target - c.notional) * kScale := mul_nonneg (by omega) (by decide)
  have hnonneg : 0 ≤ (target - c.notional) * kScale / level.px := Int.ediv_nonneg hrest hpx.le
  have hle : (target - c.notional) * kScale / level.px ≤ level.qty :=
    units_le_of_le_notionalWide hpx hqty.le (by omega)
  refine ⟨?_, hnonneg, hle⟩
  have hmax := (h.take hqty.le le_rfl).fits.1.2
  have hqtyNonneg := h.qty_nonneg
  simp only [Sweep.take] at hmax
  rw [qtyForNotional, if_neg (by omega), Int.tdiv_eq_ediv_of_nonneg hrest]
  exact narrowSaturating_of_fits (fitsInt64_of_nonneg hnonneg (by omega))

theorem volumeBand_figures (h : Walkable c.sweep levels) (hopen : c.notional < target) :
    (volumeBand target c levels).figures =
      (sweepFrom target c.sweep levels).figures target
        (target ≤ c.notional + ladderNotional levels) false := by
  induction levels generalizing c with
  | nil =>
    rw [volumeBand, thinVolumeBand_figures h, sweepFrom]
    have hnot : ¬ target ≤ c.notional + ladderNotional [] := by
      simpa [ladderNotional] using hopen
    rw [decide_eq_false hnot]
  | cons level levels ih =>
    obtain ⟨⟨hpx, -⟩, hqty⟩ := h.positive level List.mem_cons_self
    have hwhole : (c.sweep.take level.px level.qty).notional =
        c.notional + notionalWide level.px level.qty := by
      rw [notionalWide_eq_ediv hpx.le hqty.le]
      rfl
    have htotal : ladderNotional (level :: levels) =
        notionalWide level.px level.qty + ladderNotional levels := rfl
    have hrest := (h.take hqty.le le_rfl).totals_nonneg.2
    simp only [volumeBand, sweepFrom, reached, decide_eq_true_eq, hwhole]
    rcases lt_trichotomy (c.notional + notionalWide level.px level.qty) target with
      hlt | heq | hgt
    · -- The target lies beyond this level.
      have hnext : Walkable (c.pass level).sweep levels := sweep_pass h ▸ h.take hqty.le le_rfl
      rw [if_neg (not_le.mpr hlt), if_pos hlt, ih hnext hlt, sweep_pass h, htotal]
      simp only [Cumulative.pass, add_assoc]
    · -- It is met by the whole level.
      rw [if_pos heq.ge, if_neg heq.not_lt, if_pos heq, partialAt, if_pos heq.le,
        closeVolumeBand_figures h hqty.le le_rfl, if_neg hqty.ne',
        decide_eq_true (show target ≤ c.notional + ladderNotional (level :: levels) by omega)]
    · -- It is met inside the level.
      obtain ⟨hunits, h0, hle⟩ := qtyForNotional_eq h hopen hgt
      rw [if_pos hgt.le, if_neg hgt.not_gt, if_neg hgt.ne', partialAt, if_neg (not_le.mpr hgt),
        hunits, closeVolumeBand_figures h h0 hle,
        decide_eq_true (show target ≤ c.notional + ladderNotional (level :: levels) by omega)]
      rfl

theorem foldl_pass_sweep (h : Walkable c.sweep levels) :
    (levels.foldl Cumulative.pass c).sweep =
        levels.foldl (fun s level => s.take level.px level.qty) c.sweep ∧
      Walkable (levels.foldl Cumulative.pass c).sweep [] := by
  induction levels generalizing c with
  | nil => exact ⟨rfl, h⟩
  | cons level levels ih =>
    obtain ⟨-, hqty⟩ := h.positive level List.mem_cons_self
    have hnext : Walkable (c.pass level).sweep levels := sweep_pass h ▸ h.take hqty.le le_rfl
    rw [List.foldl_cons, List.foldl_cons, ← sweep_pass h]
    exact ih hnext

end Bands

theorem Ladder.walkable {descending : Bool} (ladder : Ladder descending) :
    Walkable {} ladder.levels where
  qty_nonneg := le_rfl
  notional_nonneg := le_rfl
  priced := by decide
  positive m hm := by
    obtain ⟨hpx, hqty⟩ := ladder.bestFirst.positive m hm
    exact ⟨⟨hpx, (ladder.pxFits m hm).2⟩, hqty⟩
  qty_le := by simpa using ladder.qtyFits.2
  notional_le := by simpa using ladder.notionalFits.2

theorem computeSideBands_eq_sweeps {descending : Bool} (ladder : Ladder descending)
    (config : BandConfig) (hascending : config.notionals.Pairwise (· < ·))
    (hpos : ∀ target ∈ config.notionals, 0 < target) :
    (computeSideBands ⟨ladder.levels, descending⟩ config).volume.map VolumeBandResult.figures =
      config.notionals.map (targetFigures ladder.levels) ++ [openFigures ladder.levels] := by
  have hwalk := ladder.walkable
  have hfirst := ladder.bestFirst.positive
  cases hlevels : ladder.levels with
  | nil =>
    have hthin : ∀ target ∈ config.notionals, ¬ target ≤ 0 := fun t ht => not_le.mpr (hpos t ht)
    simp only [computeSideBands, viewBestPx, List.head?_nil, Option.map_none, Option.getD_none,
      ↓reduceIte, emitEmptyBands, List.map_append, List.map_map]
    refine congrArg₂ _ (List.map_congr_left fun target ht => ?_) rfl
    simp [VolumeBandResult.figures, targetFigures, sweep, sweepFrom, Sweep.figures, Sweep.vwap,
      ladderNotional, hpos target ht]
  | cons touch rest =>
    rw [hlevels] at hwalk hfirst
    obtain ⟨hpx, -⟩ := hfirst touch List.mem_cons_self
    rw [computeSideBands_volume hpx hascending, List.map_append, List.map_map]
    refine congrArg₂ _ (List.map_congr_left fun target ht => ?_) ?_
    · simpa [targetFigures, sweep, Cumulative.sweep] using
        volumeBand_figures (c := { worstPx := touch.px }) hwalk (hpos target ht)
    · obtain ⟨hlast, hdone⟩ := foldl_pass_sweep (c := { worstPx := touch.px }) hwalk
      rw [List.map_singleton, thinVolumeBand_figures hdone, hlast]
      rfl

theorem computeSideBands_eq_sweeps_boundary :
    let levels : List MergedLevel := [⟨300000000, 200000000⟩, ⟨400000000, 100000000⟩]
    let config : BandConfig := ⟨[100000000, 600000000, 2000000000], []⟩
    (computeSideBands ⟨levels, false⟩ config).volume.map VolumeBandResult.figures =
        config.notionals.map (targetFigures levels) ++ [openFigures levels] ∧
      (config.notionals.map (targetFigures levels)).map BandFigures.filledQty =
        [33333333, 200000000, 300000000] :=
  ⟨computeSideBands_eq_sweeps ⟨_, by decide, by decide, by decide, by decide⟩ _ (by decide)
    (by decide), by decide⟩

end CexAggregator
