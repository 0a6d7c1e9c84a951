import CexAggregator.BandRequest

/-!
# One band for each threshold

Whatever the ladder, the walk closes every index once: the bands come out in the order of the
configured list, one open-ended band behind them. A request is rejected exactly when it is
malformed, and what is accepted is that list in ascending order.
-/

namespace CexAggregator

structure Wellformed (requested : List Int) : Prop where
  few : requested.length ≤ kMaxBandsPerRequest
  positive : ∀ v ∈ requested, 0 < v
  distinct : requested.Nodup

theorem adjacentFind_eq_none_of_nodup {values : List Int} (h : values.Nodup) :
    adjacentFind values = none := by
  fun_induction adjacentFind values with
  | case1 a rest => exact ((List.nodup_cons.mp h).1 List.mem_cons_self).elim
  | case2 a b rest hne ih => exact ih (List.nodup_cons.mp h).2
  | case3 values hshort => rfl

theorem adjacentFind_sorted (requested : List Int) :
    adjacentFind (requested.insertionSort (· ≤ ·)) = none ↔ requested.Nodup := by
  have hperm := List.perm_insertionSort (· ≤ ·) requested
  constructor
  · intro hnone
    have hascending :=
      ascending_of_adjacentFind (List.pairwise_insertionSort (· ≤ ·) requested) hnone
    exact hperm.nodup_iff.mp (hascending.imp fun hab => hab.ne)
  · intro hdistinct
    exact adjacentFind_eq_none_of_nodup (hperm.nodup_iff.mpr hdistinct)

theorem normaliseBands_wellformed {requested : List Int} (h : Wellformed requested)
    (hne : requested ≠ []) (field : String) (defaults : List Int) :
    normaliseBands field requested defaults = .ok (requested.insertionSort (· ≤ ·)) := by
  have hpositive : requested.find? (· ≤ 0) = none := by
    rw [List.find?_eq_none]
    intro v hv
    simpa using h.positive v hv
  have hdistinct := (adjacentFind_sorted requested).mpr h.distinct
  unfold normaliseBands
  rw [if_neg hne, if_neg (not_lt.mpr h.few)]
  simp only [hpositive, hdistinct]

theorem normaliseBands_malformed {requested : List Int} (h : ¬ Wellformed requested)
    (field : String) (defaults : List Int) :
    ∃ message, normaliseBands field requested defaults = .error message := by
  have hne : requested ≠ [] := by
    rintro rfl
    exact h ⟨Nat.zero_le _, List.forall_mem_nil _, List.nodup_nil⟩
  unfold normaliseBands
  rw [if_neg hne]
  by_cases hmany : kMaxBandsPerRequest < requested.length
  · rw [if_pos hmany]
    exact ⟨_, rfl⟩
  · rw [if_neg hmany]
    cases hfind : requested.find? (· ≤ 0) with
    | some value => exact ⟨_, rfl⟩
    | none =>
      cases hduplicate : adjacentFind (requested.insertionSort (· ≤ ·)) with
      | some value =>
        simp only [hduplicate]
        exact ⟨_, rfl⟩
      | none =>
        refine (h ⟨not_lt.mp hmany, ?_, (adjacentFind_sorted requested).mp hduplicate⟩).elim
        intro v hv
        simpa using List.find?_eq_none.mp hfind v hv

theorem normaliseBands_rejects_iff (field : String) (requested defaults : List Int) :
    (∃ message, normaliseBands field requested defaults = .error message) ↔
      ¬ Wellformed requested := by
  constructor
  · rintro ⟨message, herror⟩ hwell
    by_cases hne : requested = []
    · simp [normaliseBands, hne] at herror
    · rw [normaliseBands_wellformed hwell hne] at herror
      cases herror
  · intro hbad
    exact normaliseBands_malformed hbad field defaults

theorem not_wellformed_iff (requested : List Int) : ¬ Wellformed requested ↔
    32 < requested.length ∨ (∃ v ∈ requested, v ≤ 0) ∨ ¬ requested.Nodup := by
  constructor
  · intro hbad
    by_contra hnone
    simp only [not_or, not_exists, not_and, not_not, not_le] at hnone
    exact hbad ⟨not_lt.mp hnone.1, hnone.2.1, hnone.2.2⟩
  · rintro hbad ⟨hfew, hpositive, hdistinct⟩
    obtain hmany | ⟨v, hv, hle⟩ | hrepeated := hbad
    · exact hmany.not_ge hfew
    · exact hle.not_gt (hpositive v hv)
    · exact hrepeated hdistinct

def VolumeBandResult.key (band : VolumeBandResult) : Int × Bool := (band.target, band.openEnded)

def PriceBandResult.key (band : PriceBandResult) : Int × Bool := (band.offsetBps, band.openEnded)

def answerKeys (thresholds : List Int) : List (Int × Bool) :=
  thresholds.map (fun threshold => (threshold, false)) ++ [(0, true)]

def BandWalk.volumeKeys (w : BandWalk) : List (Int × Bool) :=
  w.out.volume.map VolumeBandResult.key ++ w.notionals.map fun target => (target, false)

def BandWalk.priceKeys (w : BandWalk) : List (Int × Bool) :=
  w.out.price.map PriceBandResult.key ++ w.offsetsBps.map fun offset => (offset, false)

theorem walkLevel_volumeKeys (descending : Bool) (reference : Int) (w : BandWalk)
    (level : MergedLevel) :
    (walkLevel descending reference w level).volumeKeys = w.volumeKeys := by
  have hkey : ∀ targets : List Int, (targets.map fun target =>
      closeVolumeBand target level.px (partialAt w.cumulative level target) w.cumulative).map
        VolumeBandResult.key = targets.map fun target => (target, false) := by
    intro targets
    rw [List.map_map]
    rfl
  simp only [BandWalk.volumeKeys, walkLevel, List.map_append, hkey, List.append_assoc]
  rw [← List.map_append, List.takeWhile_append_dropWhile]

theorem walkLevel_priceKeys (descending : Bool) (reference : Int) (w : BandWalk)
    (level : MergedLevel) :
    (walkLevel descending reference w level).priceKeys = w.priceKeys := by
  have hkey : ∀ offsets : List Int, (offsets.map fun offset =>
      makePriceBand offset (offsetBound descending reference offset) w.cumulative.qty
        w.cumulative.notional w.cumulative.levels false false).map PriceBandResult.key =
      offsets.map fun offset => (offset, false) := by
    intro offsets
    rw [List.map_map]
    rfl
  simp only [BandWalk.priceKeys, walkLevel, List.map_append, hkey, List.append_assoc]
  rw [← List.map_append, List.takeWhile_append_dropWhile]

theorem walk_keys (descending : Bool) (reference : Int) (levels : List MergedLevel)
    (w : BandWalk) :
    (levels.foldl (walkLevel descending reference) w).volumeKeys = w.volumeKeys ∧
      (levels.foldl (walkLevel descending reference) w).priceKeys = w.priceKeys := by
  induction levels generalizing w with
  | nil => exact ⟨rfl, rfl⟩
  | cons level levels ih =>
    obtain ⟨hvolume, hprice⟩ := ih (walkLevel descending reference w level)
    exact ⟨hvolume.trans (walkLevel_volumeKeys ..), hprice.trans (walkLevel_priceKeys ..)⟩

theorem finishBands_keys (descending : Bool) (reference : Int) (w : BandWalk) :
    (finishBands descending reference w).volume.map VolumeBandResult.key =
        w.volumeKeys ++ [(0, true)] ∧
      (finishBands descending reference w).price.map PriceBandResult.key =
        w.priceKeys ++ [(0, true)] := by
  have hvolume : ∀ targets : List Int,
      (targets.map fun target => thinVolumeBand target w.cumulative false).map
        VolumeBandResult.key = targets.map fun target => (target, false) := by
    intro targets
    rw [List.map_map]
    rfl
  have hprice : ∀ offsets : List Int, (offsets.map fun offset =>
      makePriceBand offset (offsetBound descending reference offset) w.cumulative.qty
        w.cumulative.notional w.cumulative.levels false true).map PriceBandResult.key =
      offsets.map fun offset => (offset, false) := by
    intro offsets
    rw [List.map_map]
    rfl
  constructor
  · simp only [finishBands, BandWalk.volumeKeys, List.map_append, hvolume]
    rfl
  · simp only [finishBands, BandWalk.priceKeys, List.map_append, hprice]
    rfl

theorem computeSideBands_keys (side : LadderView) (config : BandConfig) :
    (computeSideBands side config).volume.map VolumeBandResult.key =
        answerKeys config.notionals ∧
      (computeSideBands side config).price.map PriceBandResult.key =
        answerKeys config.offsetsBps := by
  unfold computeSideBands
  simp only
  split_ifs
  · constructor
    · simp only [emitEmptyBands, List.map_append, List.map_map, answerKeys]
      rfl
    · simp only [emitEmptyBands, List.map_append, List.map_map, answerKeys]
      rfl
  · obtain ⟨hvolume, hprice⟩ := finishBands_keys side.descending (viewBestPx side)
      (side.levels.foldl (walkLevel side.descending (viewBestPx side))
        { cumulative := { worstPx := viewBestPx side }
          notionals := config.notionals
          offsetsBps := config.offsetsBps })
    obtain ⟨hvolume', hprice'⟩ := walk_keys side.descending (viewBestPx side) side.levels
      { cumulative := { worstPx := viewBestPx side }
        notionals := config.notionals
        offsetsBps := config.offsetsBps }
    rw [hvolume, hprice, hvolume', hprice']
    exact ⟨rfl, rfl⟩

/-- One finite band a threshold, ascending, and an open-ended one at the end. -/
structure AnsweredOneForOne (thresholds : List Int) (keys : List (Int × Bool)) : Prop where
  bands : ∃ bands : List Int, keys = bands.map (fun band => (band, false)) ++ [(0, true)] ∧
    bands.Perm thresholds ∧ bands.Pairwise (· < ·)
  distinct : (keys.map Prod.fst).Nodup

def effective (requested defaults : List Int) : List Int :=
  if requested = [] then defaults else requested

theorem answered {field : String} {requested defaults bands : List Int}
    (hdefaults : defaults.Pairwise (· < ·)) (hpositive : ∀ v ∈ defaults, 0 < v)
    (h : normaliseBands field requested defaults = .ok bands) :
    AnsweredOneForOne (effective requested defaults) (answerKeys bands) := by
  have hnormal := normaliseBands_ok hdefaults hpositive h
  have hperm : bands.Perm (effective requested defaults) := by
    unfold effective
    obtain ⟨rfl, rfl⟩ | ⟨hperm, -⟩ := hnormal.source
    · rw [if_pos rfl]
    · split_ifs with hempty
      · subst hempty
        rw [normaliseBands, if_pos rfl] at h
        cases h
        exact List.Perm.refl _
      · exact hperm
  refine ⟨⟨bands, rfl, hperm, hnormal.ascending⟩, ?_⟩
  have hkeys : (answerKeys bands).map Prod.fst = bands ++ [0] := by
    rw [answerKeys, List.map_append, List.map_map]
    exact congrArg (· ++ [0]) (List.map_id bands)
  rw [hkeys]
  refine List.nodup_append.mpr
    ⟨hnormal.ascending.imp fun hab => hab.ne, List.nodup_singleton 0, ?_⟩
  intro v hv w hw
  rw [List.mem_singleton.mp hw]
  exact (hnormal.positive v hv).ne'

/-- Requests are checked exactly and answered one for one, whatever the ladder. -/
theorem band_requests_answered (requested : List Int) :
    ((∃ message, normaliseBands "notional_bands_e8" requested defaultNotionalBands =
        .error message) ↔
      32 < requested.length ∨ (∃ v ∈ requested, v ≤ 0) ∨ ¬ requested.Nodup) ∧
    ((∃ message, normaliseBands "offsets_bps_e8" requested defaultBpsOffsets =
        .error message) ↔
      32 < requested.length ∨ (∃ v ∈ requested, v ≤ 0) ∨ ¬ requested.Nodup) ∧
    (∀ (side : LadderView) (config : BandConfig),
      normaliseBands "notional_bands_e8" requested defaultNotionalBands = .ok config.notionals →
      AnsweredOneForOne (effective requested defaultNotionalBands)
        ((computeSideBands side config).volume.map VolumeBandResult.key)) ∧
    (∀ (side : LadderView) (config : BandConfig),
      normaliseBands "offsets_bps_e8" requested defaultBpsOffsets = .ok config.offsetsBps →
      AnsweredOneForOne (effective requested defaultBpsOffsets)
        ((computeSideBands side config).price.map PriceBandResult.key)) ∧
    makeVolumeConfig [] = makeVolumeConfig defaultNotionalBands ∧
    makePriceConfig [] = makePriceConfig defaultBpsOffsets := by
  refine ⟨?_, ?_, ?_, ?_, by decide, by decide⟩
  · rw [normaliseBands_rejects_iff, not_wellformed_iff]
  · rw [normaliseBands_rejects_iff, not_wellformed_iff]
  · intro side config hok
    rw [(computeSideBands_keys side config).1]
    exact answered (by decide) (by decide) hok
  · intro side config hok
    rw [(computeSideBands_keys side config).2]
    exact answered (by decide) (by decide) hok

end CexAggregator
