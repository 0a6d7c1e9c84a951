import CexAggregator.Consolidated

/-!
# The merge is the union of the venue books

`unionLadder` says what consolidation is for: every distinct price of the inputs once,
best first, with the sum of the quantities resting there. The merge loop peels the
union from the front, so whatever limit stops it, its output is the longest prefix of
the union that the limits admit.
-/

namespace CexAggregator
open OrderedTable

def restingAt (px : Int) (levels : List Level) : Int :=
  ((levels.filter fun l => l.px = px).map Level.qty).sum

def totalQty (sides : List (List Level)) (px : Int) : Int := restingAt px sides.flatten

def pricesOf (sides : List (List Level)) : List Int := sides.flatten.map Level.px

def unionLadder (descending : Bool) (sides : List (List Level)) : List MergedLevel :=
  ((pricesOf sides).dedup.map fun px => (⟨px, totalQty sides px⟩ : MergedLevel)).insertionSort
    (NotAfter (Better descending))

theorem restingAt_append (px : Int) (as bs : List Level) :
    restingAt px (as ++ bs) = restingAt px as + restingAt px bs := by
  simp [restingAt]

theorem totalQty_eq_sum (sides : List (List Level)) (px : Int) :
    totalQty sides px = (sides.map (restingAt px)).sum := by
  induction sides with
  | nil => rfl
  | cons side sides ih =>
    rw [totalQty, List.flatten_cons, restingAt_append, List.map_cons, List.sum_cons, ← ih]
    rfl

theorem restingAt_eq_zero {px : Int} {levels : List Level} (h : ∀ l ∈ levels, l.px ≠ px) :
    restingAt px levels = 0 := by
  have hnil : levels.filter (fun l => l.px = px) = [] := by simpa using h
  rw [restingAt, hnil]
  rfl

theorem restingAt_pos {px : Int} {levels : List Level} (hpos : ∀ l ∈ levels, 0 < l.qty)
    (h : ∃ l ∈ levels, l.px = px) : 0 < restingAt px levels := by
  obtain ⟨l, hl, hpx⟩ := h
  refine List.sum_pos _ (fun q hq => ?_) ?_
  · obtain ⟨x, hx, rfl⟩ := List.mem_map.mp hq
    exact hpos x (List.mem_filter.mp hx).1
  · exact List.ne_nil_of_mem (List.mem_map_of_mem (List.mem_filter.mpr ⟨hl, by simpa using hpx⟩))

theorem mem_pricesOf {sides : List (List Level)} {px : Int} :
    px ∈ pricesOf sides ↔ ∃ side ∈ sides, ∃ l ∈ side, l.px = px := by
  simp only [pricesOf, List.mem_map, List.mem_flatten]
  constructor
  · rintro ⟨l, ⟨side, hside, hl⟩, rfl⟩
    exact ⟨side, hside, l, hl, rfl⟩
  · rintro ⟨side, hside, l, hl, rfl⟩
    exact ⟨l, ⟨side, hside, hl⟩, rfl⟩

theorem mem_unionLadder {descending : Bool} {sides : List (List Level)} {m : MergedLevel} :
    m ∈ unionLadder descending sides ↔
      m.px ∈ pricesOf sides ∧ m.qty = totalQty sides m.px := by
  rw [unionLadder, List.mem_insertionSort, List.mem_map]
  constructor
  · rintro ⟨px, hpx, rfl⟩
    exact ⟨List.mem_dedup.mp hpx, rfl⟩
  · rintro ⟨hpx, hqty⟩
    exact ⟨m.px, List.mem_dedup.mpr hpx, by rw [← hqty]⟩

theorem unionLadder_ordered (descending : Bool) (sides : List (List Level)) :
    Ordered (Better descending) (unionLadder descending sides) := by
  apply ordered_of_notAfter (notAfter_insertionSort _)
  apply ((List.perm_insertionSort _ _).map _).nodup_iff.mpr
  rw [List.map_map]
  simpa [Function.comp_def, Entry.key] using List.nodup_dedup (pricesOf sides)

theorem valueAt_unionLadder (descending : Bool) (sides : List (List Level)) :
    valueAt (unionLadder descending sides) = totalQty sides := by
  funext px
  by_cases h : px ∈ pricesOf sides
  · exact (unionLadder_ordered descending sides).valueAt_of_mem
      (a := ⟨px, totalQty sides px⟩) (mem_unionLadder.mpr ⟨h, rfl⟩)
  · have hladder : ∀ m ∈ unionLadder descending sides, Entry.key m ≠ px := by
      rintro m hm rfl
      exact h (mem_unionLadder.mp hm).1
    rw [valueAt_eq_zero hladder, totalQty, restingAt_eq_zero]
    intro l hl he
    exact h (List.mem_map.mpr ⟨l, hl, he⟩)

theorem unionLadder_bestFirst {descending : Bool} {sides : List (List Level)}
    (h : ∀ side ∈ sides, BestFirst descending side) :
    BestFirst descending (unionLadder descending sides) := by
  refine ⟨unionLadder_ordered descending sides, fun m hm => ?_⟩
  obtain ⟨hpx, hqty⟩ := mem_unionLadder.mp hm
  obtain ⟨side, hside, l, hl, hlpx⟩ := mem_pricesOf.mp hpx
  change 0 < m.px ∧ 0 < m.qty
  rw [hqty, ← hlpx]
  refine ⟨((h side hside).positive l hl).1, ?_⟩
  refine restingAt_pos (fun x hx => ?_) ⟨l, List.mem_flatten.mpr ⟨side, hside, hl⟩, rfl⟩
  obtain ⟨s, hs, hxs⟩ := List.mem_flatten.mp hx
  exact ((h s hs).positive x hxs).2

theorem unionLadder_perm {descending : Bool} {sides sides' : List (List Level)}
    (h : ∀ side ∈ sides, BestFirst descending side) (hperm : sides.Perm sides') :
    unionLadder descending sides = unionLadder descending sides' := by
  have h' : ∀ side ∈ sides', BestFirst descending side := fun s hs => h s (hperm.mem_iff.mpr hs)
  refine Ordered.ext (unionLadder_ordered _ _) (unionLadder_ordered _ _)
    (fun m hm => ((unionLadder_bestFirst h).positive m hm).2.ne')
    (fun m hm => ((unionLadder_bestFirst h').positive m hm).2.ne') ?_
  rw [valueAt_unionLadder, valueAt_unionLadder]
  funext px
  rw [totalQty_eq_sum, totalQty_eq_sum]
  exact (hperm.map _).sum_eq

section Peel
variable {descending : Bool} {cursors : List (List Level)} {best : Int}

theorem mem_of_mem_advance {cursor : List Level} {l : Level} (h : l ∈ advance best cursor) :
    l ∈ cursor := by
  cases cursor with
  | nil => exact h
  | cons x rest =>
    simp only [advance] at h
    split_ifs at h
    · exact List.mem_cons_of_mem _ h
    · exact h

theorem advance_bestFirst {cursor : List Level} (h : BestFirst descending cursor) :
    BestFirst descending (advance best cursor) := by
  refine ⟨?_, fun l hl => h.positive l (mem_of_mem_advance hl)⟩
  cases cursor with
  | nil => exact h.ordered
  | cons x rest =>
    simp only [advance]
    split_ifs
    · exact (ordered_cons.mp h.ordered).2
    · exact h.ordered

theorem better_of_mem_advance {cursor : List Level} (h : BestFirst descending cursor)
    (hhead : ∀ x rest, cursor = x :: rest → ¬ Better descending x.px best) :
    ∀ l ∈ advance best cursor, Better descending best l.px := by
  cases cursor with
  | nil => simp [advance]
  | cons x rest =>
    have hx := hhead x rest rfl
    simp only [advance]
    split_ifs with heq
    · subst heq
      exact (ordered_cons.mp h.ordered).1
    · have hlt : Better descending best x.px :=
        ((trichotomous_of (Better descending) x.px best).resolve_left hx).resolve_left heq
      have hsplit : Ordered (Better descending) ([] ++ x :: rest) := h.ordered
      exact hsplit.before_all (a := ⟨best, 0⟩) hlt

theorem restingAt_cons (px : Int) (l : Level) (levels : List Level) :
    restingAt px (l :: levels) = (if l.px = px then l.qty else 0) + restingAt px levels := by
  by_cases h : l.px = px <;> simp [restingAt, h]

theorem restingAt_advance (best px : Int) (cursor : List Level) :
    restingAt px cursor =
      (if px = best then qtyAtHead best cursor else 0) + restingAt px (advance best cursor) := by
  cases cursor with
  | nil => simp [qtyAtHead, advance]
  | cons x rest =>
    by_cases hx : x.px = best
    · simp only [qtyAtHead, advance, hx, ↓reduceIte, restingAt_cons, eq_comm]
    · simp [qtyAtHead, advance, hx]

theorem totalQty_advance (best px : Int) (cursors : List (List Level)) :
    totalQty cursors px =
      (if px = best then (cursors.map (qtyAtHead best)).sum else 0) +
        totalQty (cursors.map (advance best)) px := by
  rw [totalQty_eq_sum, totalQty_eq_sum]
  induction cursors with
  | nil => simp
  | cons c cursors ih =>
    simp only [List.map_cons, List.sum_cons, ih, restingAt_advance best px c]
    split_ifs <;> omega

theorem unionLadder_peel (h : ∀ c ∈ cursors, BestFirst descending c)
    (hbest : IsBestHead descending cursors (some best)) :
    unionLadder descending cursors =
      ⟨best, (cursors.map (qtyAtHead best)).sum⟩ ::
        unionLadder descending (cursors.map (advance best)) := by
  obtain ⟨⟨y, ys, hy, rfl⟩, hbound⟩ := hbest
  have hadvanced : ∀ c ∈ cursors.map (advance y.px), BestFirst descending c := by
    rintro c hc
    obtain ⟨d, hd, rfl⟩ := List.mem_map.mp hc
    exact advance_bestFirst (h d hd)
  have hworse : ∀ px ∈ pricesOf (cursors.map (advance y.px)), Better descending y.px px := by
    intro px hpx
    obtain ⟨c, hc, l, hl, rfl⟩ := mem_pricesOf.mp hpx
    obtain ⟨d, hd, rfl⟩ := List.mem_map.mp hc
    exact better_of_mem_advance (h d hd) (fun x rest he => hbound x rest (he ▸ hd)) l hl
  have hmem : ∀ m ∈ unionLadder descending (cursors.map (advance y.px)),
      Better descending y.px m.px := fun m hm => hworse _ (mem_unionLadder.mp hm).1
  have hleft := unionLadder_bestFirst h
  have hright := unionLadder_bestFirst hadvanced
  have hhead : totalQty cursors y.px = (cursors.map (qtyAtHead y.px)).sum := by
    rw [totalQty_advance y.px, if_pos rfl, totalQty, restingAt_eq_zero, add_zero]
    intro l hl he
    exact irrefl_of (Better descending) y.px (hworse _ (List.mem_map.mpr ⟨l, hl, he⟩))
  have hpos : 0 < (cursors.map (qtyAtHead y.px)).sum := by
    have hm := (hleft.positive ⟨y.px, totalQty cursors y.px⟩ (mem_unionLadder.mpr
      ⟨mem_pricesOf.mpr ⟨_, hy, y, List.mem_cons_self, rfl⟩, rfl⟩)).2
    exact hhead ▸ hm
  refine Ordered.ext hleft.ordered (ordered_cons.mpr ⟨hmem, hright.ordered⟩)
    (fun m hm => (hleft.positive m hm).2.ne')
    (List.forall_mem_cons.mpr ⟨hpos.ne', fun m hm => (hright.positive m hm).2.ne'⟩) ?_
  rw [valueAt_cons, valueAt_unionLadder, valueAt_unionLadder]
  funext px
  by_cases hpx : px = y.px
  · rw [hpx, hhead]
    exact (Function.update_self (f := totalQty _) ..).symm
  · rw [totalQty_advance y.px, if_neg hpx, zero_add]
    exact (Function.update_of_ne (f := totalQty _) hpx ..).symm

theorem unionLadder_eq_nil (h : IsBestHead descending cursors none) :
    unionLadder descending cursors = [] := by
  apply List.eq_nil_iff_forall_not_mem.mpr
  intro m hm
  obtain ⟨side, hside, l, hl, -⟩ := mem_pricesOf.mp (mem_unionLadder.mp hm).1
  rw [h side hside] at hl
  exact List.not_mem_nil hl

end Peel

end CexAggregator
