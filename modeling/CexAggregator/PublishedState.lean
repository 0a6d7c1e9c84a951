import CexAggregator.PublishBound

/-!
# One published state

Who contributes and who is stale split the configured venues; the ladders come from the books
of the contributing ones alone. Who rests at the touch is read off the venue books a second
time, past the merge, and has to agree with the first merged level.
-/

namespace CexAggregator
open OrderedTable

theorem restingAt_touch {descending : Bool} {side : List Level} {best : Int}
    (hside : BestFirst descending side) (hbest : ∀ l ∈ side, ¬ Better descending l.px best) :
    restingAt best side = qtyAtHead best side := by
  rw [restingAt_advance best best side, if_pos rfl, restingAt_eq_zero, add_zero]
  cases side with
  | nil => simp [advance]
  | cons head rest =>
    have hworse := (ordered_cons.mp hside.ordered).1
    have hahead : ∀ l ∈ rest, l.px ≠ best := by
      intro l hl hpx
      exact hbest head List.mem_cons_self (hpx ▸ hworse l hl)
    simp only [advance]
    split_ifs with hhead
    · exact hahead
    · exact List.forall_mem_cons.mpr ⟨hhead, hahead⟩

theorem sum_filter_qtyAtHead {α : Type*} (venues : List α) (side : α → List Level) {best : Int}
    (hbest : best ≠ 0) :
    ((venues.filter fun v => ((side v).head?.map Level.px).getD 0 = best).map fun v =>
        ((side v).head?.map Level.qty).getD 0).sum =
      (venues.map fun v => qtyAtHead best (side v)).sum := by
  induction venues with
  | nil => rfl
  | cons v venues ih =>
    have hhead : qtyAtHead best (side v) =
        if ((side v).head?.map Level.px).getD 0 = best
        then ((side v).head?.map Level.qty).getD 0 else 0 := by
      cases side v with
      | nil => simp [qtyAtHead, hbest.symm]
      | cons l rest => rfl
    rw [List.map_cons, List.sum_cons, hhead, ← ih]
    by_cases hv : ((side v).head?.map Level.px).getD 0 = best
    · rw [List.filter_cons_of_pos (by simpa using hv), List.map_cons, List.sum_cons, if_pos hv]
    · rw [List.filter_cons_of_neg (by simpa using hv), if_neg hv, zero_add]

namespace Engine
variable {n : ℕ}

/-- Exactly the venues at the published best are listed, there are some exactly when there is
a best, and together they hold what the first level says. -/
structure Attribution (names : Fin n → String) (venues : List (Fin n)) (px qty : Fin n → Int)
    (ladder : List MergedLevel) (touch : List VenueTouch) : Prop where
  listed : touch = (venues.filter fun v => ladder ≠ [] ∧ px v = bestPx ladder).map fun v =>
    ⟨names v, qty v⟩
  nonempty : touch ≠ [] ↔ ladder ≠ []
  total : ∀ first ∈ ladder.head?, (touch.map VenueTouch.qty).sum = first.qty

section Side
variable {config : EngineConfig} {descending : Bool} {venues : List (Fin n)}

theorem mergedSide_split {side : Fin n → List Level}
    (hbooks : ∀ v ∈ venues, BestFirst descending (side v)) :
    ∃ rest, unionOf descending venues side =
      (mergedSide config descending side venues).levels ++ rest := by
  have hsides : ∀ s ∈ venues.map (fun v => (⟨v.val, side v⟩ : VenueSideInput)),
      BestFirst descending s.levels := List.forall_mem_map.mpr hbooks
  obtain ⟨rest, hresult⟩ := mergeSide_result_of_bestFirst hsides (mergeLimits config)
  refine ⟨rest, ?_⟩
  have hsplit := hresult.split
  rwa [List.map_map] at hsplit

theorem touch_attribution (names : Fin n → String) (books : Fin n → SideBook descending)
    (hbooks : ∀ v ∈ venues, (books v).Invariant) :
    let ladder := (mergedSide config descending (fun v => (books v).levels) venues).levels
    Attribution names venues (fun v => (books v).bestPx) (fun v => (books v).bestQty) ladder
      (touch names (bestPx ladder) (fun v => (books v).bestPx) (fun v => (books v).bestQty)
        venues) := by
  intro ladder
  obtain ⟨rest, hunion⟩ : ∃ rest, unionOf descending venues (fun v => (books v).levels) =
      ladder ++ rest := mergedSide_split hbooks
  generalize ladder = levels at hunion ⊢
  cases levels with
  | nil =>
    refine ⟨?_, ?_, ?_⟩ <;> simp [touch, bestPx]
  | cons first levels =>
    have hfirst : first ∈ unionOf descending venues fun v => (books v).levels := by
      simp [hunion]
    have htouch : first.px ∈ touchOf descending venues fun v => (books v).levels := by
      simp [touchOf, hunion]
    obtain ⟨⟨v, hv, l, hl, hlpx⟩, hbest⟩ := mem_touchOf htouch
    have hpos : 0 < first.px := hlpx ▸ ((hbooks v hv).positive l hl).1
    have hqty : 0 < first.qty :=
      ((unionLadder_bestFirst (List.forall_mem_map.mpr hbooks)).positive first hfirst).2
    have hpx : bestPx (first :: levels) = first.px := rfl
    have hlisted : touch names first.px (fun v => (books v).bestPx)
        (fun v => (books v).bestQty) venues =
          (venues.filter fun v => (books v).bestPx = first.px).map fun v =>
            ⟨names v, (books v).bestQty⟩ := by
      simp [touch, hpos.ne']
    have htotal : ((venues.filter fun v => (books v).bestPx = first.px).map fun v =>
        (books v).bestQty).sum = first.qty := by
      rw [(mem_unionLadder.mp hfirst).2, totalQty_eq_sum, List.map_map]
      refine (sum_filter_qtyAtHead venues (fun v => (books v).levels) hpos.ne').trans ?_
      refine congrArg List.sum (List.map_congr_left fun u hu => ?_)
      exact (restingAt_touch (hbooks u hu) (hbest u hu)).symm
    rw [hpx, hlisted]
    refine ⟨by simp [hpx], iff_of_true ?_ (List.cons_ne_nil _ _), ?_⟩
    · intro hnil
      rw [List.map_eq_nil_iff.mp hnil] at htotal
      exact hqty.ne htotal
    · intro m hm
      obtain rfl : first = m := by simpa using hm
      rw [List.map_map]
      exact htotal

end Side

section Publish
variable {config : EngineConfig} {names : Fin n → String} {a b : Engine n}
  {nowA nowB wallA wallB : Int} {statesA statesB : Fin n → VenueState}

theorem contributing_stale (config : EngineConfig) (names : Fin n → String) (e : Engine n)
    (now wall : Int) (states : Fin n → VenueState) :
    let book := e.consolidate config names now wall states
    let venues := (List.finRange n).map names
    (book.contributing ++ book.stale).Perm venues ∧
      book.contributing.Sublist venues ∧ book.stale.Sublist venues := by
  intro book venues
  refine ⟨?_, List.filter_sublist.map names, List.filter_sublist.map names⟩
  simp only [book, venues, consolidate, selected, ← List.map_append, decide_not,
    Bool.decide_eq_true]
  exact (List.filter_append_perm _ _).map names

end Publish

end Engine

end CexAggregator
