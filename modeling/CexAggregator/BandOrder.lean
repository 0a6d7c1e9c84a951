import CexAggregator.BandTruncation
import CexAggregator.BandVwap

/-!
# Bands against each other

Bands are cumulative: a later one starts from what an earlier one holds. Two targets that
close in one level are ordered by the truncated quantity the level still gives them; the
rest follows from the running totals, which only ever move away from the touch.
-/

namespace CexAggregator
open OrderedTable

/-- `far` holds at least what `near` holds and ends no closer to the touch. -/
structure VolumeBandResult.NoFurther (descending : Bool) (near far : VolumeBandResult) : Prop
    extends near.AtMost far where
  worst : PriceInside descending far.worst near.worst

structure Cumulative.NoFurther (descending : Bool) (near far : Cumulative) : Prop
    extends near.AtMost far where
  worst : PriceInside descending far.worstPx near.worstPx

theorem PriceInside.refl (descending : Bool) (px : Int) : PriceInside descending px px := by
  cases descending <;> exact le_rfl

theorem PriceInside.trans {descending : Bool} {a b c : Int} (h : PriceInside descending b a)
    (h' : PriceInside descending c b) : PriceInside descending c a := by
  cases descending
  · exact le_trans (α := Int) h h'
  · exact le_trans (α := Int) h' h

theorem PriceInside.of_better {descending : Bool} {a b : Int} (h : Better descending a b) :
    PriceInside descending b a := by
  cases descending
  · exact le_of_lt (α := Int) h
  · exact le_of_lt (α := Int) h

section Volume
variable {descending : Bool} {c d : Cumulative} {level : MergedLevel} {levels : List MergedLevel}
  {target a b : Int}

theorem VolumeBandResult.NoFurther.trans {x y z : VolumeBandResult}
    (h : x.NoFurther descending y) (h' : y.NoFurther descending z) : x.NoFurther descending z :=
  ⟨⟨h.qty.trans h'.qty, h.notional.trans h'.notional, h.levels.trans h'.levels⟩,
    h.worst.trans h'.worst⟩

def Cumulative.Outward (descending : Bool) (c : Cumulative) (levels : List MergedLevel) : Prop :=
  ∀ m ∈ levels, PriceInside descending m.px c.worstPx

theorem outward_pass (hbest : BestFirst descending (level :: levels)) :
    (c.pass level).Outward descending levels := by
  intro m hm
  exact .of_better ((ordered_cons.mp hbest.ordered).1 m hm)

theorem BestFirst.tail (hbest : BestFirst descending (level :: levels)) :
    BestFirst descending levels :=
  ⟨(ordered_cons.mp hbest.ordered).2, fun m hm => hbest.positive m (List.mem_cons_of_mem _ hm)⟩

theorem noFurther_pass (hbest : BestFirst descending (level :: levels))
    (hout : c.Outward descending (level :: levels)) : c.NoFurther descending (c.pass level) :=
  ⟨atMost_pass (hbest.positive level List.mem_cons_self), hout level List.mem_cons_self⟩

theorem thinVolumeBand_noFurther (h : c.NoFurther descending d) (a b : Int) (open₁ open₂ : Bool) :
    (thinVolumeBand a c open₁).NoFurther descending (thinVolumeBand b d open₂) :=
  ⟨⟨narrowSaturating_mono h.qty, narrowSaturating_mono h.notional, h.levels⟩, h.worst⟩

theorem closeVolumeBand_eq {units : Int} (h : 0 ≤ units) :
    closeVolumeBand target level.px units c =
      { target := target
        filledNotional := narrowSaturating (c.notional + notionalWide level.px units)
        filledQty := narrowSaturating (c.qty + units)
        vwap := vwap (c.notional + notionalWide level.px units) (c.qty + units)
        worst := if 0 < units then level.px else c.worstPx
        fullyFilled := true
        levelsConsumed := c.levels + if 0 < units then 1 else 0 } := by
  have hnone : notionalWide level.px 0 = 0 := by simp [notionalWide]
  rcases h.eq_or_lt with hzero | hpos
  · simp [closeVolumeBand, ← hzero, hnone]
  · simp [closeVolumeBand, hpos]

theorem notionalWide_mono {px : Int} {few many : Int} (hpx : 0 < px) (h0 : 0 ≤ few)
    (h : few ≤ many) : notionalWide px few ≤ notionalWide px many := by
  rw [notionalWide_eq_ediv hpx.le h0, notionalWide_eq_ediv hpx.le (h0.trans h)]
  exact Int.ediv_le_ediv (by decide) (Int.mul_le_mul_of_nonneg_left h hpx.le)

theorem closeVolumeBand_noFurther {few many : Int} (hpx : 0 < level.px)
    (hworst : PriceInside descending level.px c.worstPx) (h0 : 0 ≤ few) (h : few ≤ many) :
    (closeVolumeBand a level.px few c).NoFurther descending
      (closeVolumeBand b level.px many c) := by
  have hnotional := notionalWide_mono hpx h0 h
  rw [closeVolumeBand_eq h0, closeVolumeBand_eq (h0.trans h)]
  refine ⟨⟨narrowSaturating_mono (by omega), narrowSaturating_mono (by omega), ?_⟩, ?_⟩
  · simp only
    split_ifs <;> omega
  · simp only
    by_cases hfew : 0 < few
    · rw [if_pos hfew, if_pos (hfew.trans_le h)]
      exact .refl _ _
    · rw [if_neg hfew]
      split_ifs
      · exact hworst
      · exact .refl _ _

theorem closeVolumeBand_whole (hqty : 0 < level.qty) (open₁ : Bool) :
    (closeVolumeBand a level.px level.qty c).NoFurther descending
      (thinVolumeBand b (c.pass level) open₁) := by
  rw [closeVolumeBand_eq hqty.le, if_pos hqty, if_pos hqty]
  exact ⟨⟨le_rfl, le_rfl, le_rfl⟩, .refl _ _⟩

theorem closeVolumeBand_none (open₁ : Bool) :
    (thinVolumeBand a c open₁).NoFurther descending (closeVolumeBand b level.px 0 c) := by
  have hnone : notionalWide level.px 0 = 0 := by simp [notionalWide]
  rw [closeVolumeBand_eq le_rfl, hnone, add_zero, add_zero]
  exact ⟨⟨le_rfl, le_rfl, le_rfl⟩, .refl _ _⟩

theorem partialAt_mono (h : Walkable c.sweep (level :: levels)) (hab : a ≤ b) :
    partialAt c level a ≤ partialAt c level b := by
  by_cases hwhole : c.notional + notionalWide level.px level.qty ≤ b
  · obtain ⟨-, hle⟩ := partialAt_bounds h a
    rwa [partialAt.eq_def c level b, if_pos hwhole]
  · have hwhole' : ¬ c.notional + notionalWide level.px level.qty ≤ a := fun ha =>
      hwhole (ha.trans hab)
    rw [partialAt, partialAt, if_neg hwhole, if_neg hwhole']
    obtain ⟨⟨hpx, -⟩, -⟩ := h.positive level List.mem_cons_self
    by_cases hopen : c.notional < a
    · rw [qtyForNotional, qtyForNotional, if_neg (by omega), if_neg (by omega)]
      apply narrowSaturating_mono
      have hscale : (0 : Int) < kScale := by decide
      rw [Int.tdiv_eq_ediv_of_nonneg (mul_nonneg (by omega) hscale.le),
        Int.tdiv_eq_ediv_of_nonneg (mul_nonneg (by omega) hscale.le)]
      exact Int.ediv_le_ediv hpx (Int.mul_le_mul_of_nonneg_right (by omega) hscale.le)
    · rw [qtyForNotional, if_pos (Or.inr (by omega))]
      exact qtyForNotional_nonneg _ _

theorem Walkable.pass (h : Walkable c.sweep (level :: levels)) :
    Walkable (c.pass level).sweep levels := by
  obtain ⟨-, hqty⟩ := h.positive level List.mem_cons_self
  exact sweep_pass h ▸ h.take hqty.le le_rfl

theorem thin_noFurther_volumeBand (h : Walkable c.sweep levels)
    (hbest : BestFirst descending levels) (hout : c.Outward descending levels)
    (a b : Int) (open₁ : Bool) :
    (thinVolumeBand a c open₁).NoFurther descending (volumeBand b c levels) := by
  induction levels generalizing c with
  | nil => exact thinVolumeBand_noFurther ⟨⟨le_rfl, le_rfl, le_rfl⟩, .refl _ _⟩ _ _ _ _
  | cons level levels ih =>
    simp only [volumeBand]
    split_ifs with hreached
    · obtain ⟨h0, -⟩ := partialAt_bounds h b
      obtain ⟨hpx, -⟩ := hbest.positive level List.mem_cons_self
      exact (closeVolumeBand_none (b := b) open₁).trans
        (closeVolumeBand_noFurther hpx (hout level List.mem_cons_self) le_rfl h0)
    · exact (thinVolumeBand_noFurther (noFurther_pass hbest hout) a a open₁ open₁).trans
        (ih h.pass hbest.tail (outward_pass hbest))

theorem closed_noFurther_pass (h : Walkable c.sweep (level :: levels))
    (hbest : BestFirst descending (level :: levels))
    (hout : c.Outward descending (level :: levels)) (a b : Int) :
    (closeVolumeBand a level.px (partialAt c level a) c).NoFurther descending
      (thinVolumeBand b (c.pass level) false) := by
  obtain ⟨h0, hle⟩ := partialAt_bounds h a
  obtain ⟨hpx, hqty⟩ := hbest.positive level List.mem_cons_self
  exact (closeVolumeBand_noFurther hpx (hout level List.mem_cons_self) h0 hle).trans
    (closeVolumeBand_whole (a := a) hqty false)

theorem volumeBand_mono (h : Walkable c.sweep levels) (hbest : BestFirst descending levels)
    (hout : c.Outward descending levels) (hab : a ≤ b) :
    (volumeBand a c levels).NoFurther descending (volumeBand b c levels) := by
  induction levels generalizing c with
  | nil => exact thinVolumeBand_noFurther ⟨⟨le_rfl, le_rfl, le_rfl⟩, .refl _ _⟩ _ _ _ _
  | cons level levels ih =>
    simp only [volumeBand]
    by_cases hb : reached c level b = true
    · -- The nearer target closes in this level too.
      rw [if_pos hb, if_pos (reached_of_le hab hb)]
      obtain ⟨h0, -⟩ := partialAt_bounds h a
      obtain ⟨hpx, -⟩ := hbest.positive level List.mem_cons_self
      exact closeVolumeBand_noFurther hpx (hout level List.mem_cons_self) h0
        (partialAt_mono h hab)
    · rw [if_neg hb]
      split_ifs with ha
      · exact (closed_noFurther_pass h hbest hout a b).trans
          (thin_noFurther_volumeBand h.pass hbest.tail (outward_pass hbest) b b false)
      · exact ih h.pass hbest.tail (outward_pass hbest)

theorem foldl_noFurther (hbest : BestFirst descending levels)
    (hout : c.Outward descending levels) (a b : Int) (open₁ open₂ : Bool) :
    (thinVolumeBand a c open₁).NoFurther descending
      (thinVolumeBand b (levels.foldl Cumulative.pass c) open₂) := by
  induction levels generalizing c with
  | nil => exact thinVolumeBand_noFurther ⟨⟨le_rfl, le_rfl, le_rfl⟩, .refl _ _⟩ _ _ _ _
  | cons level levels ih =>
    exact (thinVolumeBand_noFurther (noFurther_pass hbest hout) a a open₁ open₁).trans
      (ih hbest.tail (outward_pass hbest))

theorem volumeBand_noFurther_open (h : Walkable c.sweep levels)
    (hbest : BestFirst descending levels) (hout : c.Outward descending levels) (a : Int) :
    (volumeBand a c levels).NoFurther descending
      (thinVolumeBand 0 (levels.foldl Cumulative.pass c) true) := by
  induction levels generalizing c with
  | nil => exact thinVolumeBand_noFurther ⟨⟨le_rfl, le_rfl, le_rfl⟩, .refl _ _⟩ _ _ _ _
  | cons level levels ih =>
    simp only [volumeBand, List.foldl_cons]
    split_ifs with hreached
    · exact (closed_noFurther_pass h hbest hout a a).trans
        (foldl_noFurther hbest.tail (outward_pass hbest) a 0 false true)
    · exact ih h.pass hbest.tail (outward_pass hbest)

end Volume

section Filled
variable {c : Cumulative} {level : MergedLevel} {levels : List MergedLevel} {target : Int}

theorem foldl_pass_totals (levels : List MergedLevel) (c : Cumulative) :
    (levels.foldl Cumulative.pass c).qty = c.qty + (levels.map MergedLevel.qty).sum ∧
      (levels.foldl Cumulative.pass c).notional = c.notional + ladderNotional levels ∧
      (levels.foldl Cumulative.pass c).levels = c.levels + levels.length := by
  induction levels generalizing c with
  | nil => simp [ladderNotional]
  | cons level levels ih =>
    obtain ⟨hqty, hnotional, hcount⟩ := ih (c.pass level)
    simp only [Cumulative.pass] at hqty hnotional hcount
    simp only [List.foldl_cons, ladderNotional, List.map_cons, List.sum_cons,
      List.length_cons] at hnotional ⊢
    exact ⟨by rw [Cumulative.pass, hqty]; omega, by rw [Cumulative.pass, hnotional]; omega,
      by rw [Cumulative.pass, hcount]; omega⟩

/-- The walk for `target` passes `before` and closes inside `level`. -/
structure ClosesAt (target : Int) (c : Cumulative) (levels before : List MergedLevel)
    (level : MergedLevel) (after : List MergedLevel) : Prop where
  split : levels = before ++ level :: after
  above : (before.foldl Cumulative.pass c).notional < target
  within : target ≤ (before.foldl Cumulative.pass c).notional + notionalWide level.px level.qty
  band : volumeBand target c levels = closeVolumeBand target level.px
    (partialAt (before.foldl Cumulative.pass c) level target) (before.foldl Cumulative.pass c)

theorem volumeBand_ends (hopen : c.notional < target) :
    volumeBand target c levels =
        thinVolumeBand target (levels.foldl Cumulative.pass c) false ∨
      ∃ before level after, ClosesAt target c levels before level after := by
  induction levels generalizing c with
  | nil => exact Or.inl rfl
  | cons level levels ih =>
    by_cases hreached : reached c level target = true
    · refine Or.inr ⟨[], level, levels, rfl, hopen, of_decide_eq_true hreached, ?_⟩
      rw [volumeBand, if_pos hreached]
      rfl
    · have hopen' : (c.pass level).notional < target := by
        simpa [reached, Cumulative.pass] using hreached
      have hstep : volumeBand target c (level :: levels) =
          volumeBand target (c.pass level) levels := by
        rw [volumeBand, if_neg hreached]
      rcases ih hopen' with hthin | ⟨before, closing, after, hclose⟩
      · exact Or.inl (hstep.trans hthin)
      · refine Or.inr ⟨level :: before, closing, after, ?_, hclose.above, hclose.within,
          hstep.trans hclose.band⟩
        rw [hclose.split]
        rfl

theorem Walkable.foldl {before : List MergedLevel} (h : Walkable c.sweep (before ++ levels)) :
    Walkable (before.foldl Cumulative.pass c).sweep levels := by
  induction before generalizing c with
  | nil => exact h
  | cons level before ih => exact ih h.pass

theorem closeVolumeBand_totals (h : Walkable c.sweep (level :: levels)) {units : Int}
    (h0 : 0 ≤ units) (hle : units ≤ level.qty) :
    (closeVolumeBand target level.px units c).filledQty = c.qty + units ∧
      (closeVolumeBand target level.px units c).filledNotional =
        c.notional + level.px * units / kScale := by
  obtain ⟨⟨hpx, -⟩, -⟩ := h.positive level List.mem_cons_self
  obtain ⟨hqty, hnotional⟩ := (h.take h0 hle).fits
  simp only [Cumulative.sweep, Sweep.take] at hqty hnotional
  rw [closeVolumeBand_eq h0, notionalWide_eq_ediv hpx.le h0]
  exact ⟨narrowSaturating_of_fits hqty, narrowSaturating_of_fits hnotional⟩

theorem partialAt_shortfall (h : Walkable c.sweep (level :: levels)) (hopen : c.notional < target)
    (hwithin : target ≤ c.notional + notionalWide level.px level.qty) :
    let short := target - c.notional - level.px * partialAt c level target / kScale
    0 ≤ short ∧ short * kScale < level.px + kScale := by
  obtain ⟨⟨hpx, -⟩, hqty⟩ := h.positive level List.mem_cons_self
  have hscale : (0 : Int) < kScale := by decide
  intro short
  by_cases hwhole : c.notional + notionalWide level.px level.qty ≤ target
  · have hzero : short = 0 := by
      simp only [short, partialAt, if_pos hwhole]
      rw [← notionalWide_eq_ediv hpx.le hqty.le]
      omega
    rw [hzero]
    omega
  · obtain ⟨hunits, h0, -⟩ := qtyForNotional_eq h hopen (not_le.mp hwhole)
    simp only [short, partialAt, if_neg hwhole, hunits]
    generalize hrest : target - c.notional = rest at h0 ⊢
    generalize hbought : rest * kScale / level.px = bought at h0 ⊢
    have hfits : bought * level.px ≤ rest * kScale := hbought ▸ Int.ediv_mul_le _ hpx.ne'
    have hnext : rest * kScale < (bought + 1) * level.px :=
      hbought ▸ Int.lt_ediv_add_one_mul_self _ hpx
    have hfloor : level.px * bought / kScale * kScale ≤ level.px * bought :=
      Int.ediv_mul_le _ hscale.ne'
    have hceil : level.px * bought < (level.px * bought / kScale + 1) * kScale :=
      Int.lt_ediv_add_one_mul_self _ hscale
    rw [Int.mul_comm bought] at hfits
    rw [Int.add_mul, one_mul, Int.mul_comm bought] at hnext
    rw [Int.add_mul, one_mul] at hceil
    refine ⟨?_, ?_⟩
    · have hle : level.px * bought / kScale ≤ rest :=
        Int.le_of_mul_le_mul_right (hfloor.trans hfits) hscale
      omega
    · rw [Int.sub_mul]
      omega

/-- A filled band names the level it closed in, falls short of its target by less than the
two roundings, and takes no more of that level than it holds. -/
def VolumeBandResult.FilledIn (levels : List MergedLevel) (band : VolumeBandResult) : Prop :=
  ∃ before level after, levels = before ++ level :: after ∧
    ladderNotional before < band.target ∧ band.target ≤ ladderNotional (before ++ [level]) ∧
    0 ≤ band.target - band.filledNotional ∧
    (band.target - band.filledNotional) * kScale < level.px + kScale ∧
    0 ≤ band.filledQty - (before.map MergedLevel.qty).sum ∧
    band.filledQty - (before.map MergedLevel.qty).sum ≤ level.qty

theorem ClosesAt.filledIn {before after : List MergedLevel} {touch : Int}
    (h : ClosesAt target { worstPx := touch } levels before level after)
    (hwalk : Walkable {} levels) :
    (volumeBand target { worstPx := touch } levels).FilledIn levels := by
  have hstart : Walkable (Cumulative.sweep { worstPx := touch }) (before ++ level :: after) :=
    h.split ▸ hwalk
  obtain ⟨hqty, hnotional, -⟩ := foldl_pass_totals before { worstPx := touch }
  obtain ⟨h0, hle⟩ := partialAt_bounds hstart.foldl target
  obtain ⟨htaken, hfilled⟩ := @closeVolumeBand_totals _ level after target hstart.foldl _ h0 hle
  obtain ⟨hshort, hshort'⟩ := partialAt_shortfall hstart.foldl h.above h.within
  have habove := h.above
  have hwithin := h.within
  have hsum : ladderNotional (before ++ [level]) =
      ladderNotional before + notionalWide level.px level.qty := by
    simp [ladderNotional]
  rw [← h.band] at htaken hfilled
  have htarget : (volumeBand target { worstPx := touch } levels).target = target := by
    rw [h.band]
    rfl
  simp only [zero_add] at hqty hnotional
  rw [hnotional] at habove hwithin hshort hshort' hfilled
  rw [hqty] at htaken
  refine ⟨before, level, after, h.split, ?_⟩
  rw [htarget, htaken, hfilled, hsum]
  refine ⟨habove, hwithin, by omega, ?_, by omega, by omega⟩
  rw [← Int.sub_sub]
  exact hshort'

end Filled

section Price
variable {descending : Bool} {reference : Int} {c d : Cumulative} {level : MergedLevel}
  {levels : List MergedLevel} {a b : Int}

theorem PriceBandResult.AtMost.refl (band : PriceBandResult) : band.AtMost band :=
  ⟨le_rfl, le_rfl, le_rfl⟩

theorem makePriceBand_atMost (h : c.AtMost d) (a b bound bound' : Int)
    (open₁ open₂ limited₁ limited₂ : Bool) :
    (makePriceBand a bound c.qty c.notional c.levels open₁ limited₁).AtMost
      (makePriceBand b bound' d.qty d.notional d.levels open₂ limited₂) :=
  ⟨narrowSaturating_mono h.qty, narrowSaturating_mono h.notional, h.levels⟩

theorem priceBand_bound (offset : Int) :
    (priceBand descending reference offset c levels).bound =
      offsetBound descending reference offset := by
  induction levels generalizing c with
  | nil => rfl
  | cons level levels ih =>
    simp only [priceBand]
    split_ifs
    · rfl
    · exact ih

theorem priceBand_mono (href : 0 < reference) (ha : 0 < a) (hab : a ≤ b)
    (hpos : ∀ m ∈ levels, 0 < m.px ∧ 0 < m.qty) :
    (priceBand descending reference a c levels).AtMost
      (priceBand descending reference b c levels) := by
  induction levels generalizing c with
  | nil => exact makePriceBand_atMost ⟨le_rfl, le_rfl, le_rfl⟩ _ _ _ _ _ _ _ _
  | cons level levels ih =>
    obtain ⟨hlevel, hrest⟩ := List.forall_mem_cons.mp hpos
    simp only [priceBand]
    by_cases hb : outside descending reference level.px b = true
    · rw [if_pos hb, if_pos (outside_of_le href ha hab hb)]
      exact makePriceBand_atMost ⟨le_rfl, le_rfl, le_rfl⟩ _ _ _ _ _ _ _ _
    · rw [if_neg hb]
      split_ifs
      · have hlimited : (makePriceBand b 0 c.qty c.notional c.levels false false).AtMost
            (priceBand descending reference b (c.pass level) levels) :=
          depthLimited_atMost_priceBand (atMost_pass hlevel) hrest
        exact ⟨hlimited.qty, hlimited.notional, hlimited.levels⟩
      · exact ih hrest

theorem priceBand_atMost_open (hpos : ∀ m ∈ levels, 0 < m.px ∧ 0 < m.qty) (offset bound : Int) :
    let last := levels.foldl Cumulative.pass c
    (priceBand descending reference offset c levels).AtMost
      (makePriceBand 0 bound last.qty last.notional last.levels true false) := by
  induction levels generalizing c with
  | nil => exact makePriceBand_atMost ⟨le_rfl, le_rfl, le_rfl⟩ _ _ _ _ _ _ _ _
  | cons level levels ih =>
    obtain ⟨hlevel, hrest⟩ := List.forall_mem_cons.mp hpos
    simp only [priceBand, List.foldl_cons]
    split_ifs
    · exact makePriceBand_atMost ((atMost_pass hlevel).trans (atMost_foldl hrest))
        _ _ _ _ _ _ _ _
    · exact ih hrest

theorem offsetBound_outward (href : 0 < reference) (ha : 0 < a) (hab : a ≤ b) :
    PriceInside descending (offsetBound descending reference b)
      (offsetBound descending reference a) := by
  obtain ⟨hdown, hup⟩ := offsetBound_mono href ha hab
  cases descending
  · exact hup
  · exact hdown

end Price

/-- What holds between any band and a later one of the same side. -/
structure SideBands.Ordered (descending : Bool) (bands : SideBands) : Prop where
  volume : bands.volume.Pairwise fun near far =>
    near.NoFurther descending far ∧ (near.fullyFilled = false → far.fullyFilled = false)
  openVolume : ∀ band ∈ bands.volume, ∀ last ∈ bands.volume, last.openEnded = true →
    band.AtMost last
  price : bands.price.Pairwise fun near far =>
    near.AtMost far ∧ (far.openEnded = false → PriceInside descending far.bound near.bound)
  openPrice : ∀ band ∈ bands.price, ∀ last ∈ bands.price, last.openEnded = true →
    band.AtMost last

theorem volumeBand_openEnded (target : Int) (c : Cumulative) (levels : List MergedLevel) :
    (volumeBand target c levels).openEnded = false := by
  induction levels generalizing c with
  | nil => rfl
  | cons level levels ih =>
    simp only [volumeBand]
    split_ifs
    · rfl
    · exact ih _

theorem priceBand_openEnded (descending : Bool) (reference offset : Int) (c : Cumulative)
    (levels : List MergedLevel) :
    (priceBand descending reference offset c levels).openEnded = false := by
  induction levels generalizing c with
  | nil => rfl
  | cons level levels ih =>
    simp only [priceBand]
    split_ifs
    · rfl
    · exact ih _

section Concat
variable {α β : Type*} {R : β → β → Prop} {as : List α} {f : α → β} {x : β}

theorem pairwise_map_concat (h : as.Pairwise fun a b => R (f a) (f b))
    (hlast : ∀ a ∈ as, R (f a) x) : (as.map f ++ [x]).Pairwise R := by
  rw [List.pairwise_append]
  refine ⟨List.pairwise_map.mpr h, List.pairwise_singleton R x, ?_⟩
  intro b hb y hy
  obtain ⟨a, ha, rfl⟩ := List.mem_map.mp hb
  rw [List.mem_singleton.mp hy]
  exact hlast a ha

theorem forall_map_concat {marked : β → Bool} (hmarked : ∀ a, marked (f a) = false)
    (hrefl : R x x) (hlast : ∀ a ∈ as, R (f a) x) :
    ∀ b ∈ as.map f ++ [x], ∀ y ∈ as.map f ++ [x], marked y = true → R b y := by
  intro b hb y hy hyes
  rcases List.mem_append.mp hy with hy | hy
  · obtain ⟨a, -, rfl⟩ := List.mem_map.mp hy
    exact (Bool.false_ne_true ((hmarked a).symm.trans hyes)).elim
  · rw [List.mem_singleton.mp hy]
    rcases List.mem_append.mp hb with hb | hb
    · obtain ⟨a, ha, rfl⟩ := List.mem_map.mp hb
      exact hlast a ha
    · rw [List.mem_singleton.mp hb]
      exact hrefl

end Concat

theorem emitEmptyBands_ordered (descending : Bool) (config : BandConfig) :
    (emitEmptyBands config).Ordered descending where
  volume := pairwise_map_concat
    (List.pairwise_of_forall fun _ _ => ⟨⟨⟨le_rfl, le_rfl, le_rfl⟩, .refl _ _⟩, fun _ => rfl⟩)
    fun _ _ => ⟨⟨⟨le_rfl, le_rfl, le_rfl⟩, .refl _ _⟩, fun _ => rfl⟩
  openVolume := forall_map_concat (fun _ => rfl) ⟨le_rfl, le_rfl, le_rfl⟩
    fun _ _ => ⟨le_rfl, le_rfl, le_rfl⟩
  price := pairwise_map_concat
    (List.pairwise_of_forall fun _ _ => ⟨⟨le_rfl, le_rfl, le_rfl⟩, fun _ => .refl _ _⟩)
    fun _ _ => ⟨⟨le_rfl, le_rfl, le_rfl⟩, fun _ => .refl _ _⟩
  openPrice := forall_map_concat (fun _ => rfl) ⟨le_rfl, le_rfl, le_rfl⟩
    fun _ _ => ⟨le_rfl, le_rfl, le_rfl⟩

section Bands
variable {descending : Bool} {touch : MergedLevel} {rest : List MergedLevel} {config : BandConfig}

theorem start_outward (hbest : BestFirst descending (touch :: rest)) :
    Cumulative.Outward descending { worstPx := touch.px } (touch :: rest) := by
  intro m hm
  rcases List.mem_cons.mp hm with rfl | hm
  · exact .refl _ _
  · exact .of_better ((ordered_cons.mp hbest.ordered).1 m hm)

theorem volumeBand_fullyFilled {c : Cumulative} {levels : List MergedLevel} {target : Int}
    (h : Walkable c.sweep levels) (hopen : c.notional < target) :
    (volumeBand target c levels).fullyFilled =
      decide (target ≤ c.notional + ladderNotional levels) :=
  congrArg BandFigures.fullyFilled (volumeBand_figures h hopen)

theorem computeSideBands_ordered (ladder : Ladder descending) (hconfig : config.Ascending) :
    (computeSideBands ⟨ladder.levels, descending⟩ config).Ordered descending := by
  have hwalk := ladder.walkable
  have hbest := ladder.bestFirst
  cases hlevels : ladder.levels with
  | nil =>
    have hempty : computeSideBands ⟨[], descending⟩ config = emitEmptyBands config := rfl
    rw [hempty]
    exact emitEmptyBands_ordered descending config
  | cons touch rest =>
    rw [hlevels] at hwalk hbest
    have hpx : 0 < touch.px := (hbest.positive touch List.mem_cons_self).1
    have hstart : Walkable (Cumulative.sweep { worstPx := touch.px }) (touch :: rest) := hwalk
    have hvolume := @computeSideBands_volume descending touch rest config hpx hconfig.notionals
    have hprice := @computeSideBands_price descending touch rest config hpx hconfig.offsetsBps
      hconfig.offsetsBps_pos
    have hopen := fun target (_ : target ∈ config.notionals) =>
      volumeBand_noFurther_open hstart hbest (start_outward hbest) target
    have hlast := fun offset (_ : offset ∈ config.offsetsBps) =>
      @priceBand_atMost_open descending touch.px { worstPx := touch.px } _ hbest.positive offset
        ((touch :: rest).foldl Cumulative.pass { worstPx := touch.px }).worstPx
    refine ⟨?_, ?_, ?_, ?_⟩
    · rw [hvolume]
      refine pairwise_map_concat ?_ fun target ht => ⟨hopen target ht, fun _ => rfl⟩
      refine hconfig.notionals.imp_of_mem fun {a b} ha _ hab => ?_
      refine ⟨volumeBand_mono hstart hbest (start_outward hbest) hab.le, fun hnear => ?_⟩
      have hapos := hconfig.notionals_pos a ha
      have hnear' := volumeBand_fullyFilled hstart hapos
      have hfar := volumeBand_fullyFilled hstart (hapos.trans hab)
      rw [hnear', decide_eq_false_iff_not] at hnear
      rw [hfar, decide_eq_false_iff_not]
      omega
    · rw [hvolume]
      exact forall_map_concat (fun target => volumeBand_openEnded target _ _)
        ⟨le_rfl, le_rfl, le_rfl⟩ fun target ht => (hopen target ht).toAtMost
    · rw [hprice]
      refine pairwise_map_concat ?_ fun offset ho => ⟨hlast offset ho, fun h => by cases h⟩
      refine hconfig.offsetsBps.imp_of_mem fun {a b} ha _ hab => ?_
      have hapos := hconfig.offsetsBps_pos a ha
      refine ⟨priceBand_mono hpx hapos hab.le hbest.positive, fun _ => ?_⟩
      rw [priceBand_bound, priceBand_bound]
      exact offsetBound_outward hpx hapos hab.le
    · rw [hprice]
      exact forall_map_concat (fun offset => priceBand_openEnded _ _ offset _ _)
        (.refl _) hlast

theorem computeSideBands_filledIn (ladder : Ladder descending) (hconfig : config.Ascending) :
    ∀ band ∈ (computeSideBands ⟨ladder.levels, descending⟩ config).volume,
      band.fullyFilled = true → band.FilledIn ladder.levels := by
  have hwalk := ladder.walkable
  have hbest := ladder.bestFirst
  cases hlevels : ladder.levels with
  | nil =>
    intro band hband hfilled
    simp only [computeSideBands, viewBestPx, List.head?_nil, Option.map_none, Option.getD_none,
      ↓reduceIte, emitEmptyBands, List.mem_append, List.mem_map, List.mem_singleton] at hband
    rcases hband with ⟨_, -, rfl⟩ | rfl
    · exact (Bool.false_ne_true hfilled).elim
    · exact (Bool.false_ne_true hfilled).elim
  | cons touch rest =>
    rw [hlevels] at hwalk hbest
    have hpx : 0 < touch.px := (hbest.positive touch List.mem_cons_self).1
    rw [computeSideBands_volume hpx hconfig.notionals]
    intro band hband hfilled
    simp only [List.mem_append, List.mem_map, List.mem_singleton] at hband
    rcases hband with ⟨target, htarget, rfl⟩ | rfl
    · have hends := @volumeBand_ends { worstPx := touch.px } (touch :: rest) target
        (hconfig.notionals_pos target htarget)
      rcases hends with hthin | ⟨_, _, _, h⟩
      · rw [hthin] at hfilled
        exact (Bool.false_ne_true hfilled).elim
      · exact h.filledIn hwalk
    · exact (Bool.false_ne_true hfilled).elim

theorem computeSideBands_cumulative (ladder : Ladder descending) (hconfig : config.Ascending) :
    (computeSideBands ⟨ladder.levels, descending⟩ config).Ordered descending ∧
      ∀ band ∈ (computeSideBands ⟨ladder.levels, descending⟩ config).volume,
        band.fullyFilled = true → band.FilledIn ladder.levels :=
  ⟨computeSideBands_ordered ladder hconfig, computeSideBands_filledIn ladder hconfig⟩

theorem computeSideBands_cumulative_same_level :
    let levels : List MergedLevel := [⟨300000000, 200000000⟩, ⟨400000000, 100000000⟩]
    let config : BandConfig := ⟨[100000000, 100000001, 600000000, 650000000, 2000000000],
      [4900000000, 5000000000]⟩
    let bands := computeSideBands ⟨levels, false⟩ config
    bands.Ordered false ∧
      (∀ band ∈ bands.volume, band.fullyFilled = true → band.FilledIn levels) ∧
      bands.volume.map VolumeBandResult.filledQty =
        [33333333, 33333333, 200000000, 212500000, 300000000, 300000000] := by
  intro levels config bands
  have hconfig : config.Ascending := by decide
  obtain ⟨hordered, hfilled⟩ := computeSideBands_cumulative
    (⟨levels, by decide, by decide, by decide, by decide⟩ : Ladder false) hconfig
  exact ⟨hordered, hfilled, by decide⟩

end Bands

end CexAggregator
