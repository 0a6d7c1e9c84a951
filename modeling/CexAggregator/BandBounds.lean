import CexAggregator.BandSweep

/-!
# Price bands without the walk

`priceBandOf` asks of every level of the ladder whether it lies on or inside the bound, in any
order. The levels are best first, so the walk may stop at the first one that does not.
-/

namespace CexAggregator
open OrderedTable

/-- Floor for bids, ceiling for asks. -/
def boundPrice (descending : Bool) (touch offset : Int) : Int :=
  if descending then touch * (kBpsScale - offset) / kBpsScale
  else -(-(touch * (kBpsScale + offset)) / kBpsScale)

def sumOf (levels : List MergedLevel) : Sweep where
  qty := (levels.map MergedLevel.qty).sum
  notional := (levels.map fun m => m.px * m.qty / kScale).sum
  levels := levels.length

def exactBand (offset bound : Int) (s : Sweep) (openEnded depthLimited : Bool) :
    PriceBandResult where
  offsetBps := offset
  bound := bound
  vwap := s.vwap
  qty := s.qty
  notional := s.notional
  levels := s.levels
  openEnded := openEnded
  depthLimited := depthLimited

def priceBandOf (descending : Bool) (levels : List MergedLevel) (offset : Int) :
    PriceBandResult :=
  let bound := boundPrice descending (viewBestPx ⟨levels, descending⟩) offset
  exactBand offset bound (sumOf (levels.filter fun m => PriceInside descending bound m.px)) false
    (levels.all fun m => PriceInside descending bound m.px)

def openBandOf (levels : List MergedLevel) : PriceBandResult :=
  exactBand 0 ((levels.getLast?.map MergedLevel.px).getD 0) (sumOf levels) true false

theorem offsetBound_eq {descending : Bool} {reference offset : Int} (href : 0 < reference)
    (hoffset : 0 < offset) (hfits : FitsInt64 (boundPrice descending reference offset)) :
    offsetBound descending reference offset = boundPrice descending reference offset := by
  have hpos : 0 < reference * offset := Int.mul_pos href hoffset
  have hscale : kBpsScale = 1000000000000 := rfl
  have hexact : (if descending = true
      then reference - (reference * offset + kBpsScale - 1) / kBpsScale
      else reference + (reference * offset + kBpsScale - 1) / kBpsScale) =
      boundPrice descending reference offset := by
    rw [boundPrice, Int.mul_sub, Int.mul_add, hscale]
    split_ifs <;> omega
  rw [offsetBound, offsetByBpsOutward, if_neg (by omega)]
  simp only
  rw [Int.tdiv_eq_ediv_of_nonneg (by omega), hexact]
  exact narrowSaturating_of_fits hfits

theorem foldl_take_eq (levels : List MergedLevel) (s : Sweep) :
    levels.foldl (fun s level => s.take level.px level.qty) s =
      ⟨s.qty + (sumOf levels).qty, s.notional + (sumOf levels).notional,
        s.levels + (sumOf levels).levels⟩ := by
  induction levels generalizing s with
  | nil => simp [sumOf]
  | cons level levels ih =>
    rw [List.foldl_cons, ih]
    simp [sumOf, Sweep.take, add_assoc, add_comm, add_left_comm]

theorem sweepAll_eq (levels : List MergedLevel) : sweepAll levels = sumOf levels := by
  rw [sweepAll, foldl_take_eq]
  simp

theorem foldl_pass_worstPx (levels : List MergedLevel) (c : Cumulative) :
    (levels.foldl Cumulative.pass c).worstPx =
      (levels.getLast?.map MergedLevel.px).getD c.worstPx := by
  induction levels using List.reverseRecOn with
  | nil => rfl
  | append_singleton levels level _ =>
    rw [List.foldl_append, List.getLast?_concat]
    rfl

section Bands
variable {descending : Bool} {reference : Int} {c : Cumulative} {levels : List MergedLevel}

theorem makePriceBand_eq (h : Walkable c.sweep levels) (offset bound : Int)
    (openEnded depthLimited : Bool) :
    makePriceBand offset bound c.qty c.notional c.levels openEnded depthLimited =
      exactBand offset bound c.sweep openEnded depthLimited := by
  obtain ⟨hqty, hnotional⟩ := h.fits
  have hvwap := h.vwap_eq
  simp only [Cumulative.sweep] at hqty hnotional hvwap
  simp [makePriceBand, exactBand, Cumulative.sweep, narrowSaturating_of_fits hqty,
    narrowSaturating_of_fits hnotional, hvwap]

theorem priceBand_eq (offset : Int) (h : Walkable c.sweep levels)
    (hordered : Ordered (Better descending) levels) :
    priceBand descending reference offset c levels =
      exactBand offset (offsetBound descending reference offset)
        ((levels.filter fun m => PriceInside descending (offsetBound descending reference offset)
          m.px).foldl (fun s level => s.take level.px level.qty) c.sweep) false
        (levels.all fun m => PriceInside descending (offsetBound descending reference offset)
          m.px) := by
  induction levels generalizing c with
  | nil => exact makePriceBand_eq h offset _ false true
  | cons level levels ih =>
    obtain ⟨hworse, hrest⟩ := ordered_cons.mp hordered
    obtain ⟨-, hqty⟩ := h.positive level List.mem_cons_self
    by_cases hin : PriceInside descending (offsetBound descending reference offset) level.px
    · have hnext : Walkable (c.pass level).sweep levels := sweep_pass h ▸ h.take hqty.le le_rfl
      rw [priceBand, if_neg (by simpa [outside] using hin), ih hnext hrest, sweep_pass h]
      simp [hin]
    · -- Whatever comes behind it is further out.
      have hnone : levels.filter (fun m =>
          PriceInside descending (offsetBound descending reference offset) m.px) = [] := by
        apply List.filter_eq_nil_iff.mpr
        intro m hm
        exact fun hm' => not_inside_of_better (hworse m hm) hin (of_decide_eq_true hm')
      rw [priceBand, if_pos (by simpa [outside] using hin), makePriceBand_eq h]
      simp [hin, hnone]

end Bands

theorem computeSideBands_price_eq {descending : Bool} (ladder : Ladder descending)
    (config : BandConfig) (hascending : config.offsetsBps.Pairwise (· < ·))
    (hpos : ∀ offset ∈ config.offsetsBps, 0 < offset)
    (hfits : ∀ offset ∈ config.offsetsBps,
      FitsInt64 (boundPrice descending (viewBestPx ⟨ladder.levels, descending⟩) offset)) :
    (computeSideBands ⟨ladder.levels, descending⟩ config).price =
      config.offsetsBps.map (priceBandOf descending ladder.levels) ++
        [openBandOf ladder.levels] := by
  have hwalk := ladder.walkable
  have hbest := ladder.bestFirst
  cases hlevels : ladder.levels with
  | nil =>
    have hbound : ∀ offset, boundPrice descending 0 offset = 0 := by
      intro offset
      simp [boundPrice]
    have hzero : ∀ offset bound openEnded depthLimited,
        makePriceBand offset bound 0 0 0 openEnded depthLimited =
          exactBand offset bound (sumOf []) openEnded depthLimited := by
      intro offset bound openEnded depthLimited
      exact makePriceBand_eq (c := { worstPx := 0 }) (hlevels ▸ hwalk) offset bound _ _
    simp [computeSideBands, viewBestPx, emitEmptyBands, priceBandOf, openBandOf, hbound, hzero]
  | cons touch rest =>
    rw [hlevels] at hwalk hbest hfits
    have hpx : 0 < touch.px := (hbest.positive touch List.mem_cons_self).1
    rw [computeSideBands_price hpx hascending hpos]
    refine congrArg₂ _ (List.map_congr_left fun offset ho => ?_) (congrArg (fun b => [b]) ?_)
    · rw [priceBand_eq offset (c := { worstPx := touch.px }) hwalk hbest.ordered,
        offsetBound_eq hpx (hpos offset ho) (hfits offset ho)]
      exact congrArg (exactBand offset _ · false _) (sweepAll_eq _)
    · obtain ⟨hlast, hdone⟩ := foldl_pass_sweep (c := { worstPx := touch.px }) hwalk
      have hsum : (touch :: rest).foldl (fun s level => s.take level.px level.qty) {} =
          sumOf (touch :: rest) := sweepAll_eq _
      simp only
      rw [makePriceBand_eq hdone, hlast, foldl_pass_worstPx, openBandOf, ← hsum]
      simp [Cumulative.sweep, List.getLast?_cons]

theorem computeSideBands_price_eq_boundary :
    let levels : List MergedLevel := [⟨300000000, 200000000⟩, ⟨298500000, 100000000⟩]
    let config : BandConfig := ⟨[], [4900000000, 5000000000, 20000000000000]⟩
    (computeSideBands ⟨levels, true⟩ config).price =
        config.offsetsBps.map (priceBandOf true levels) ++ [openBandOf levels] ∧
      config.offsetsBps.map (fun offset => (priceBandOf true levels offset).levels) = [1, 2, 2] ∧
      (priceBandOf true levels 20000000000000).bound = -5700000000 :=
  ⟨computeSideBands_price_eq ⟨_, by decide, by decide, by decide, by decide⟩ _ (by decide)
    (by decide) (by decide), by decide, by decide⟩

end CexAggregator
