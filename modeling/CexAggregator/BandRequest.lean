import CexAggregator.Analytics
import Mathlib.Data.List.Sort

/-!
# Band lists a client may ask for

An empty request takes the defaults; anything else is checked for length, sign and
duplicates and comes out sorted. How far out a value lies is not checked.
-/

namespace CexAggregator

def kMaxBandsPerRequest : ℕ := 32

def defaultNotionalBands : List Int :=
  [1000000, 5000000, 10000000, 25000000, 50000000].map (· * kScale)

def defaultBpsOffsets : List Int := [50, 100, 200, 500, 1000].map (· * kScale)

def adjacentFind : List Int → Option Int
  | a :: b :: rest => if a = b then some a else adjacentFind (b :: rest)
  | _ => none

def normaliseBands (field : String) (requested defaults : List Int) : Except String (List Int) :=
  if requested = [] then .ok defaults
  else if kMaxBandsPerRequest < requested.length then
    .error (field ++ ": at most " ++ toString kMaxBandsPerRequest ++ " bands per request, got " ++
      toString requested.length)
  else
    match requested.find? (· ≤ 0) with
    | some value => .error (field ++ ": values must be positive, got " ++ toString value)
    | none =>
      let sorted := requested.insertionSort (· ≤ ·)
      match adjacentFind sorted with
      | some value => .error (field ++ ": duplicate value " ++ toString value)
      | none => .ok sorted

def makeVolumeConfig (notionalBands : List Int) : Except String BandConfig :=
  (normaliseBands "notional_bands_e8" notionalBands defaultNotionalBands).map (⟨·, []⟩)

def makePriceConfig (offsetsBps : List Int) : Except String BandConfig :=
  (normaliseBands "offsets_bps_e8" offsetsBps defaultBpsOffsets).map (⟨[], ·⟩)

theorem ascending_of_adjacentFind {values : List Int} (hsorted : values.Pairwise (· ≤ ·))
    (hnone : adjacentFind values = none) : values.Pairwise (· < ·) := by
  fun_induction adjacentFind values with
  | case1 a rest => cases hnone
  | case2 a b rest hne ih =>
    obtain ⟨ha, hrest⟩ := List.pairwise_cons.mp hsorted
    have htail := ih hrest hnone
    refine List.pairwise_cons.mpr ⟨fun v hv => ?_, htail⟩
    have hab : a < b := lt_of_le_of_ne (ha b List.mem_cons_self) hne
    rcases List.mem_cons.mp hv with rfl | hv
    · exact hab
    · exact hab.trans ((List.pairwise_cons.mp htail).1 v hv)
  | case3 values hshort =>
    rcases values with _ | ⟨a, _ | ⟨b, rest⟩⟩
    · exact List.Pairwise.nil
    · exact List.pairwise_singleton _ a
    · exact (hshort a b rest rfl).elim

/-- What is accepted is ascending and positive, and it is either the default list or the
requested values in order. -/
structure NormalisedBands (requested defaults bands : List Int) : Prop where
  ascending : bands.Pairwise (· < ·)
  positive : ∀ v ∈ bands, 0 < v
  source : (requested = [] ∧ bands = defaults) ∨
    (bands.Perm requested ∧ bands.length ≤ kMaxBandsPerRequest)

theorem normaliseBands_ok {field : String} {requested defaults bands : List Int}
    (hascending : defaults.Pairwise (· < ·)) (hpositive : ∀ v ∈ defaults, 0 < v)
    (h : normaliseBands field requested defaults = .ok bands) :
    NormalisedBands requested defaults bands := by
  unfold normaliseBands at h
  split_ifs at h with hempty hmany
  · cases h
    exact ⟨hascending, hpositive, Or.inl ⟨hempty, rfl⟩⟩
  · have hperm := List.perm_insertionSort (· ≤ ·) requested
    cases hfind : requested.find? (· ≤ 0) with
    | some value => simp [hfind] at h
    | none =>
      cases hdup : adjacentFind (requested.insertionSort (· ≤ ·)) with
      | some value => simp [hfind, hdup] at h
      | none =>
        simp only [hfind, hdup, Except.ok.injEq] at h
        subst h
        refine ⟨ascending_of_adjacentFind (List.pairwise_insertionSort (· ≤ ·) _) hdup, ?_,
          Or.inr ⟨hperm, hperm.length_eq ▸ not_lt.mp hmany⟩⟩
        intro v hv
        simpa using List.find?_eq_none.mp hfind v (hperm.subset hv)

theorem normaliseBands_error {field : String} {requested defaults : List Int} {message : String}
    (h : normaliseBands field requested defaults = .error message) :
    ∃ rule, message = field ++ rule := by
  unfold normaliseBands at h
  split_ifs at h
  · cases h
    exact ⟨": at most " ++ toString kMaxBandsPerRequest ++ " bands per request, got " ++
      toString requested.length, by simp only [String.append_assoc]⟩
  · split at h
    · cases h
      exact ⟨_, String.append_assoc⟩
    · simp only at h
      split at h
      · cases h
        exact ⟨_, String.append_assoc⟩
      · cases h

/-- A configuration either stream can hand to the walk; a list it does not set stays empty. -/
structure BandConfig.Accepted (config : BandConfig) : Prop where
  notionals : config.notionals = [] ∨ ∃ requested : List Int, (∀ v ∈ requested, FitsInt64 v) ∧
    normaliseBands "notional_bands_e8" requested defaultNotionalBands = .ok config.notionals
  offsetsBps : config.offsetsBps = [] ∨ ∃ requested : List Int, (∀ v ∈ requested, FitsInt64 v) ∧
    normaliseBands "offsets_bps_e8" requested defaultBpsOffsets = .ok config.offsetsBps

theorem makeVolumeConfig_accepted {requested : List Int} {config : BandConfig}
    (hfits : ∀ v ∈ requested, FitsInt64 v) (h : makeVolumeConfig requested = .ok config) :
    config.Accepted := by
  unfold makeVolumeConfig at h
  cases hbands : normaliseBands "notional_bands_e8" requested defaultNotionalBands with
  | error message => simp [hbands, Except.map] at h
  | ok bands =>
    simp only [hbands, Except.map, Except.ok.injEq] at h
    subst h
    exact ⟨Or.inr ⟨requested, hfits, hbands⟩, Or.inl rfl⟩

theorem makePriceConfig_accepted {requested : List Int} {config : BandConfig}
    (hfits : ∀ v ∈ requested, FitsInt64 v) (h : makePriceConfig requested = .ok config) :
    config.Accepted := by
  unfold makePriceConfig at h
  cases hbands : normaliseBands "offsets_bps_e8" requested defaultBpsOffsets with
  | error message => simp [hbands, Except.map] at h
  | ok bands =>
    simp only [hbands, Except.map, Except.ok.injEq] at h
    subst h
    exact ⟨Or.inl rfl, Or.inr ⟨requested, hfits, hbands⟩⟩

theorem BandConfig.Accepted.ascending {config : BandConfig} (h : config.Accepted) :
    config.Ascending := by
  have hlist : ∀ {bands defaults : List Int} {field : String},
      (bands = [] ∨ ∃ requested : List Int, (∀ v ∈ requested, FitsInt64 v) ∧
        normaliseBands field requested defaults = .ok bands) →
      defaults.Pairwise (· < ·) → (∀ v ∈ defaults, 0 < v) →
      bands.Pairwise (· < ·) ∧ ∀ v ∈ bands, 0 < v := by
    rintro bands defaults field (rfl | ⟨requested, -, hok⟩) hascending hpositive
    · exact ⟨List.Pairwise.nil, by simp⟩
    · have hbands := normaliseBands_ok hascending hpositive hok
      exact ⟨hbands.ascending, hbands.positive⟩
  obtain ⟨hnotionals, hnotionals'⟩ := hlist h.notionals (by decide) (by decide)
  obtain ⟨hoffsets, hoffsets'⟩ := hlist h.offsetsBps (by decide) (by decide)
  exact ⟨hnotionals, hoffsets, hnotionals', hoffsets'⟩

end CexAggregator
