import CexAggregator.Analytics
import Mathlib.Data.List.Basic

/-!
# The single-pass walk, band by band

`volumeBand` and `priceBand` walk the ladder for one band alone. Thresholds are
ascending and a band that stays open keeps all later ones open, so at each level the
bands the walk closes are exactly those whose own walk ends there.
-/

namespace CexAggregator

theorem map_ite_eq_append {α β : Type*} {before : α → α → Prop} {as : List α} {p : α → Bool}
    (h : as.Pairwise before) (hp : ∀ a b, a ∈ as → before a b → p b = true → p a = true)
    (f g : α → β) :
    as.map (fun a => if p a then f a else g a) =
      (as.takeWhile p).map f ++ (as.dropWhile p).map g := by
  induction as with
  | nil => rfl
  | cons a as ih =>
    obtain ⟨ha, has⟩ := List.pairwise_cons.mp h
    by_cases hpa : p a = true
    · rw [List.map_cons, if_pos hpa, List.takeWhile_cons_of_pos hpa,
        List.dropWhile_cons_of_pos hpa, List.map_cons, List.cons_append,
        ih has fun x y hx => hp x y (List.mem_cons_of_mem _ hx)]
    · rw [List.takeWhile_cons_of_neg hpa, List.dropWhile_cons_of_neg hpa, List.map_nil,
        List.nil_append]
      refine List.map_congr_left fun b hb => if_neg ?_
      rcases List.mem_cons.mp hb with rfl | hb
      · exact hpa
      · exact fun hpb => hpa (hp a b List.mem_cons_self (ha b hb) hpb)

/-- A loop that hands over elements until one of them stays, against the list functions. -/
theorem handOver_eq {α β : Type*} (loop : List β → List α → List β × List α) {p : α → Bool}
    {f : α → β} (hnil : ∀ out, loop out [] = (out, []))
    (hcons : ∀ out a as, loop out (a :: as) =
      if p a then loop (out ++ [f a]) as else (out, a :: as))
    (out : List β) (as : List α) :
    loop out as = (out ++ (as.takeWhile p).map f, as.dropWhile p) := by
  induction as generalizing out with
  | nil => simp [hnil]
  | cons a as ih =>
    rw [hcons]
    by_cases hp : p a = true
    · rw [if_pos hp, ih, List.takeWhile_cons_of_pos hp, List.dropWhile_cons_of_pos hp,
        List.map_cons, List.append_assoc, List.singleton_append]
    · rw [if_neg hp, List.takeWhile_cons_of_neg hp, List.dropWhile_cons_of_neg hp, List.map_nil,
        List.append_nil]

def volumeBand (target : Int) : Cumulative → List MergedLevel → VolumeBandResult
  | c, [] => thinVolumeBand target c false
  | c, level :: levels =>
    if reached c level target then
      closeVolumeBand target level.px (partialAt c level target) c
    else volumeBand target (c.pass level) levels

def priceBand (descending : Bool) (reference offset : Int) :
    Cumulative → List MergedLevel → PriceBandResult
  | c, [] =>
    makePriceBand offset (offsetBound descending reference offset) c.qty c.notional c.levels
      false true
  | c, level :: levels =>
    if outside descending reference level.px offset then
      makePriceBand offset (offsetBound descending reference offset) c.qty c.notional c.levels
        false false
    else priceBand descending reference offset (c.pass level) levels

theorem offsetBound_mono {reference a b : Int} (href : 0 < reference) (ha : 0 < a) (hab : a ≤ b) :
    offsetBound true reference b ≤ offsetBound true reference a ∧
      offsetBound false reference a ≤ offsetBound false reference b := by
  have hb : 0 < b := by omega
  have hmul : reference * a ≤ reference * b := Int.mul_le_mul_of_nonneg_left hab href.le
  have hapos : 0 < reference * a := Int.mul_pos href ha
  have hdelta : (reference * a + kBpsScale - 1).tdiv kBpsScale ≤
      (reference * b + kBpsScale - 1).tdiv kBpsScale := by
    have hscale : 0 < kBpsScale := by decide
    rw [Int.tdiv_eq_ediv_of_nonneg (by omega), Int.tdiv_eq_ediv_of_nonneg (by omega)]
    exact Int.ediv_le_ediv hscale (by omega)
  simp only [offsetBound, offsetByBpsOutward, not_le.mpr href, not_le.mpr ha, not_le.mpr hb,
    or_self, ↓reduceIte, Bool.false_eq_true]
  exact ⟨narrowSaturating_mono (by omega), narrowSaturating_mono (by omega)⟩

theorem outside_of_le {descending : Bool} {reference px a b : Int} (href : 0 < reference)
    (ha : 0 < a) (hab : a ≤ b) (h : outside descending reference px b = true) :
    outside descending reference px a = true := by
  obtain ⟨hdown, hup⟩ := offsetBound_mono href ha hab
  cases descending <;>
    simp only [outside, PriceInside, decide_eq_true_eq, Bool.false_eq_true, ↓reduceIte] at h ⊢ <;>
    omega

theorem reached_of_le {c : Cumulative} {level : MergedLevel} {a b : Int} (hab : a ≤ b)
    (h : reached c level b = true) : reached c level a = true := by
  simp only [reached, decide_eq_true_eq] at h ⊢
  omega

section Walk
variable {descending : Bool} {reference : Int}

theorem walk_volume (levels : List MergedLevel) (w : BandWalk)
    (hascending : w.notionals.Pairwise (· < ·)) :
    (finishBands descending reference (levels.foldl (walkLevel descending reference) w)).volume =
      w.out.volume ++ w.notionals.map (fun target => volumeBand target w.cumulative levels) ++
        [thinVolumeBand 0 (levels.foldl Cumulative.pass w.cumulative) true] := by
  induction levels generalizing w with
  | nil => rfl
  | cons level levels ih =>
    have hbands := map_ite_eq_append hascending
      (fun a b _ hab h => (reached_of_le hab.le h : reached w.cumulative level a = true))
      (fun target => closeVolumeBand target level.px (partialAt w.cumulative level target)
        w.cumulative)
      (fun target => volumeBand target (w.cumulative.pass level) levels)
    have hrest : (walkLevel descending reference w level).notionals.Pairwise (· < ·) :=
      hascending.sublist (List.dropWhile_sublist _)
    rw [List.foldl_cons, ih _ hrest]
    simp only [volumeBand, hbands, walkLevel, List.append_assoc, List.foldl_cons]

theorem walk_price (href : 0 < reference) (levels : List MergedLevel) (w : BandWalk)
    (hascending : w.offsetsBps.Pairwise (· < ·)) (hpos : ∀ offset ∈ w.offsetsBps, 0 < offset) :
    (finishBands descending reference (levels.foldl (walkLevel descending reference) w)).price =
      w.out.price ++
        w.offsetsBps.map (fun offset =>
          priceBand descending reference offset w.cumulative levels) ++
        [let last := levels.foldl Cumulative.pass w.cumulative
         makePriceBand 0 last.worstPx last.qty last.notional last.levels true false] := by
  induction levels generalizing w with
  | nil => rfl
  | cons level levels ih =>
    have hbands := map_ite_eq_append hascending
      (fun a b ha hab h => (outside_of_le href (hpos a ha) hab.le h :
        outside descending reference level.px a = true))
      (fun offset => makePriceBand offset (offsetBound descending reference offset)
        w.cumulative.qty w.cumulative.notional w.cumulative.levels false false)
      (fun offset => priceBand descending reference offset (w.cumulative.pass level) levels)
    have hsub : (walkLevel descending reference w level).offsetsBps.Sublist w.offsetsBps :=
      List.dropWhile_sublist _
    rw [List.foldl_cons, ih _ (hascending.sublist hsub) fun o ho => hpos o (hsub.subset ho)]
    simp only [priceBand, hbands, walkLevel, List.append_assoc, List.foldl_cons]

end Walk

section Ladder
variable {descending : Bool} {touch : MergedLevel} {rest : List MergedLevel} {config : BandConfig}

theorem computeSideBands_volume (hpx : 0 < touch.px)
    (hascending : config.notionals.Pairwise (· < ·)) :
    (computeSideBands ⟨touch :: rest, descending⟩ config).volume =
      config.notionals.map (fun target =>
          volumeBand target { worstPx := touch.px } (touch :: rest)) ++
        [thinVolumeBand 0 ((touch :: rest).foldl Cumulative.pass { worstPx := touch.px })
          true] := by
  have href : viewBestPx ⟨touch :: rest, descending⟩ = touch.px := rfl
  rw [computeSideBands, href]
  simp only [hpx.ne', ↓reduceIte]
  exact walk_volume (touch :: rest) ⟨{ worstPx := touch.px }, config.notionals,
    config.offsetsBps, {}⟩ hascending

theorem computeSideBands_price (hpx : 0 < touch.px)
    (hascending : config.offsetsBps.Pairwise (· < ·))
    (hpos : ∀ offset ∈ config.offsetsBps, 0 < offset) :
    (computeSideBands ⟨touch :: rest, descending⟩ config).price =
      config.offsetsBps.map (fun offset =>
          priceBand descending touch.px offset { worstPx := touch.px } (touch :: rest)) ++
        [let last := (touch :: rest).foldl Cumulative.pass { worstPx := touch.px }
         makePriceBand 0 last.worstPx last.qty last.notional last.levels true false] := by
  have href : viewBestPx ⟨touch :: rest, descending⟩ = touch.px := rfl
  rw [computeSideBands, href]
  simp only [hpx.ne', ↓reduceIte]
  exact walk_price hpx (touch :: rest) ⟨{ worstPx := touch.px }, config.notionals,
    config.offsetsBps, {}⟩ hascending hpos

end Ladder

end CexAggregator
