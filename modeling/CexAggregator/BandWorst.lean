import CexAggregator.BandOrder

/-!
# The marginal price of a volume band

The running worst price starts at the touch, before any level is consumed. A target that
does not buy one unit at the touch therefore reports the touch as the last level it swept,
with no level swept.
-/

namespace CexAggregator
open OrderedTable

/-- `worst` is the price of the last level consumed, and zero when there is none. -/
def VolumeBandResult.NamesLast (levels : List MergedLevel) (band : VolumeBandResult) : Prop :=
  (∀ k, band.levelsConsumed = k + 1 → ∃ level, levels[k]? = some level ∧ band.worst = level.px) ∧
    (band.levelsConsumed = 0 → band.worst = 0)

section Band
variable {touch level : MergedLevel} {rest levels : List MergedLevel} {target : Int}
  {c : Cumulative}

theorem namesLast_of_initial {before : List MergedLevel} {band : VolumeBandResult}
    (hpre : before <+: levels) (hsome : before ≠ []) (hcount : band.levelsConsumed = before.length)
    (hworst : band.worst = (before.getLast hsome).px) : band.NamesLast levels := by
  have hpos : 0 < before.length := List.length_pos_iff.mpr hsome
  refine ⟨fun k hk => ⟨before.getLast hsome, ?_, hworst⟩, fun hzero => ?_⟩
  · have hlast : before[k]? = some (before.getLast hsome) := by
      rw [← List.getLast?_eq_some_getLast hsome, List.getLast?_eq_getElem?]
      congr 1
      omega
    obtain ⟨after, rfl⟩ := hpre
    rw [List.getElem?_append_left (by omega), hlast]
  · omega

theorem foldl_pass_last {before : List MergedLevel} (hsome : before ≠ []) :
    (before.foldl Cumulative.pass c).worstPx = (before.getLast hsome).px := by
  rw [foldl_pass_worstPx, List.getLast?_eq_some_getLast hsome]
  rfl

theorem thinVolumeBand_namesLast (hsome : levels ≠ []) (openEnded : Bool) (px : Int) :
    (thinVolumeBand target (levels.foldl Cumulative.pass { worstPx := px })
      openEnded).NamesLast levels := by
  obtain ⟨-, -, hcount⟩ := foldl_pass_totals levels { worstPx := px }
  refine namesLast_of_initial List.prefix_rfl hsome ?_ (foldl_pass_last hsome)
  simpa [thinVolumeBand] using hcount

theorem partialAt_pos_iff (hpos : 0 < level.px ∧ 0 < level.qty) (hopen : c.notional < target) :
    0 < partialAt c level target ↔
      c.notional + notionalWide level.px level.qty ≤ target ∨
        level.px ≤ (target - c.notional) * kScale := by
  by_cases hwhole : c.notional + notionalWide level.px level.qty ≤ target
  · rw [partialAt, if_pos hwhole]
    exact iff_of_true hpos.2 (Or.inl hwhole)
  · rw [partialAt, if_neg hwhole, qtyForNotional, if_neg (by omega)]
    have hrest : 0 ≤ (target - c.notional) * kScale := mul_nonneg (by omega) (by decide)
    have hunit : (1 : Int) ≤ (target - c.notional) * kScale / level.px ↔
        level.px ≤ (target - c.notional) * kScale := by
      rw [Int.le_ediv_iff_mul_le hpos.1, one_mul]
    have hfits : narrowSaturating ((target - c.notional) * kScale / level.px) > 0 ↔
        (target - c.notional) * kScale / level.px > 0 := by
      simp only [narrowSaturating, int64Max, int64Min]
      split_ifs <;> omega
    rw [Int.tdiv_eq_ediv_of_nonneg hrest]
    constructor
    · intro h
      exact Or.inr (hunit.mp (hfits.mp h))
    · rintro (h | h)
      · exact (hwhole h).elim
      · exact hfits.mpr (hunit.mpr h)

theorem volumeBand_namesLast_iff (hpos : ∀ m ∈ touch :: rest, 0 < m.px ∧ 0 < m.qty)
    (htarget : 0 < target) :
    (volumeBand target { worstPx := touch.px } (touch :: rest)).NamesLast (touch :: rest) ↔
      notionalWide touch.px touch.qty ≤ target ∨ touch.px ≤ target * kScale := by
  have htouch := hpos touch List.mem_cons_self
  have hstart := partialAt_pos_iff (c := { worstPx := touch.px }) htouch htarget
  simp only [zero_add, sub_zero] at hstart
  rw [← hstart]
  constructor
  · intro h
    by_contra hnone
    have hzero : partialAt { worstPx := touch.px } touch target = 0 :=
      le_antisymm (not_lt.mp hnone) (partialAt_nonneg htouch target)
    have hreached : reached { worstPx := touch.px } touch target = true := by
      rw [hstart, not_or, not_le] at hnone
      simp only [reached, decide_eq_true_eq, zero_add]
      exact hnone.1.le
    rw [volumeBand, if_pos hreached, hzero] at h
    exact htouch.1.ne' (h.2 rfl)
  · intro hbuys
    have hends := @volumeBand_ends { worstPx := touch.px } (touch :: rest) target htarget
    rcases hends with hthin | ⟨before, level, after, h⟩
    · rw [hthin]
      exact thinVolumeBand_namesLast (List.cons_ne_nil _ _) false _
    · have hlevel : level ∈ touch :: rest := by simp [h.split]
      obtain ⟨-, -, hcount⟩ := foldl_pass_totals before { worstPx := touch.px }
      simp only [zero_add] at hcount
      rw [h.band, closeVolumeBand_eq (partialAt_nonneg (hpos level hlevel) target)]
      by_cases hsome : 0 < partialAt (before.foldl Cumulative.pass { worstPx := touch.px })
          level target
      · have hbought : before ++ [level] <+: touch :: rest := ⟨after, by simp [h.split]⟩
        refine namesLast_of_initial hbought (by simp) ?_ ?_
        · simp [hsome, hcount]
        · simp [hsome]
      · -- A level not bought at all: the band ends at the level in front of it.
        have hne : before ≠ [] := by
          rintro rfl
          have hsplit := h.split
          rw [List.nil_append, List.cons.injEq] at hsplit
          exact hsome (hsplit.1 ▸ hbuys)
        refine namesLast_of_initial ⟨level :: after, h.split.symm⟩ hne ?_ ?_
        · simp [hsome, hcount]
        · simp [hsome, foldl_pass_last hne]

end Band

/-- The marginal price is right exactly when every target buys at least one unit at the touch. -/
theorem computeSideBands_namesLast_iff {descending : Bool} {touch : MergedLevel}
    {rest : List MergedLevel} (hbest : BestFirst descending (touch :: rest)) (config : BandConfig)
    (hascending : config.notionals.Pairwise (· < ·))
    (hpositive : ∀ target ∈ config.notionals, 0 < target) :
    (∀ band ∈ (computeSideBands ⟨touch :: rest, descending⟩ config).volume,
        band.NamesLast (touch :: rest)) ↔
      ∀ target ∈ config.notionals,
        notionalWide touch.px touch.qty ≤ target ∨ touch.px ≤ target * kScale := by
  have hpx : 0 < touch.px := (hbest.positive touch List.mem_cons_self).1
  rw [computeSideBands_volume hpx hascending]
  constructor
  · intro h target ht
    rw [← volumeBand_namesLast_iff hbest.positive (hpositive target ht)]
    exact h _ (List.mem_append_left _ (List.mem_map_of_mem ht))
  · intro h band hband
    simp only [List.mem_append, List.mem_map, List.mem_singleton] at hband
    rcases hband with ⟨target, ht, rfl⟩ | rfl
    · exact (volumeBand_namesLast_iff hbest.positive (hpositive target ht)).mpr (h target ht)
    · exact thinVolumeBand_namesLast (List.cons_ne_nil _ _) true _

theorem computeSideBands_namesLast_second_level :
    let levels : List MergedLevel := [⟨300000000, 200000000⟩, ⟨40000000000000, 100000000⟩]
    let config : BandConfig := ⟨[3, 600000001], []⟩
    (∀ band ∈ (computeSideBands ⟨levels, false⟩ config).volume, band.NamesLast levels) ∧
      (computeSideBands ⟨levels, false⟩ config).volume.map VolumeBandResult.levelsConsumed =
        [1, 1, 2] :=
  ⟨(computeSideBands_namesLast_iff (by decide) _ (by decide) (by decide)).mpr (by decide),
    by decide⟩

theorem computeSideBands_not_namesLast :
    let levels : List MergedLevel := [⟨10000000000000, 100000000⟩]
    ¬ ∀ band ∈ (computeSideBands ⟨levels, false⟩ ⟨[1], []⟩).volume, band.NamesLast levels := by
  intro levels h
  have hworst := (h ⟨1, 0, 10000000000000, 0, 0, true, false, 0⟩ (by decide)).2 rfl
  cases hworst

end CexAggregator
