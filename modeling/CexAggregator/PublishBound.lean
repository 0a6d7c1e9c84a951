import CexAggregator.Analytics
import CexAggregator.Engine
import CexAggregator.MergeSpec

/-!
# What lies beyond the publish bound

Two engines whose contributing books agree from the consolidated touch out to the publish bound
publish the same ladders and the same touch, whatever else has accumulated in the books.
-/

namespace CexAggregator
open OrderedTable

section Side
variable {n : ℕ} {descending : Bool} {bps : Int} {venues : List (Fin n)}
  {a b : Fin n → List Level}

def unionOf (descending : Bool) (venues : List (Fin n)) (side : Fin n → List Level) :
    List MergedLevel :=
  unionLadder descending (venues.map side)

def touchOf (descending : Bool) (venues : List (Fin n)) (side : Fin n → List Level) : Option Int :=
  (unionOf descending venues side).head?.map MergedLevel.px

def Near (descending : Bool) (bps touch px : Int) : Prop :=
  PriceInside descending (offsetByBpsOutward touch bps descending) px ∧
    ¬ Better descending px touch

instance (descending : Bool) (bps touch px : Int) : Decidable (Near descending bps touch px) :=
  inferInstanceAs (Decidable (_ ∧ _))

def nearLevels (descending : Bool) (bps touch : Int) (levels : List Level) : List Level :=
  levels.filter fun l => Near descending bps touch l.px

/-- The books hold the same levels near the touch of either. -/
def AgreeNear (descending : Bool) (bps : Int) (venues : List (Fin n))
    (a b : Fin n → List Level) : Prop :=
  ∀ touch ∈ (touchOf descending venues a).toList ++ (touchOf descending venues b).toList,
    ∀ v ∈ venues, nearLevels descending bps touch (a v) = nearLevels descending bps touch (b v)

instance : Decidable (AgreeNear descending bps venues a b) :=
  inferInstanceAs (Decidable (∀ touch ∈ _, ∀ v ∈ venues, _ = _))

structure SoundSides (descending : Bool) (venues : List (Fin n)) (side : Fin n → List Level) :
    Prop where
  bestFirst : ∀ v ∈ venues, BestFirst descending (side v)
  fits : ∀ v ∈ venues, ∀ l ∈ side v, FitsInt64 l.px

theorem AgreeNear.symm (h : AgreeNear descending bps venues a b) :
    AgreeNear descending bps venues b a := by
  intro touch htouch v hv
  refine (h touch ?_ v hv).symm
  rw [List.mem_append] at htouch ⊢
  exact htouch.symm

theorem AgreeNear.mem_iff (h : AgreeNear descending bps venues a b) {touch : Int}
    (htouch : touch ∈ touchOf descending venues a) {v : Fin n} (hv : v ∈ venues) {l : Level}
    (hnear : Near descending bps touch l.px) : l ∈ a v ↔ l ∈ b v := by
  have hsame := h touch (List.mem_append_left _ (Option.mem_toList.mpr htouch)) v hv
  have hmem : ∀ levels, l ∈ levels ↔ l ∈ nearLevels descending bps touch levels := by
    intro levels
    simp [nearLevels, hnear]
  rw [hmem, hsame, ← hmem]

theorem SoundSides.union_bestFirst (h : SoundSides descending venues a) :
    BestFirst descending (unionOf descending venues a) :=
  unionLadder_bestFirst (List.forall_mem_map.mpr h.bestFirst)

theorem mem_touchOf {touch : Int} (htouch : touch ∈ touchOf descending venues a) :
    (∃ v ∈ venues, ∃ l ∈ a v, l.px = touch) ∧
      ∀ v ∈ venues, ∀ l ∈ a v, ¬ Better descending l.px touch := by
  obtain ⟨m, hm, rfl⟩ := Option.mem_map.mp htouch
  obtain ⟨rest, hrest⟩ : ∃ rest, unionOf descending venues a = m :: rest :=
    ⟨_, (List.head?_eq_some_iff.mp hm).choose_spec⟩
  have hmem : ∀ {px}, px ∈ pricesOf (venues.map a) ↔ ∃ v ∈ venues, ∃ l ∈ a v, l.px = px := by
    intro px
    simp [mem_pricesOf]
  refine ⟨hmem.mp (mem_unionLadder.mp (List.mem_of_mem_head? hm)).1, fun v hv l hl => ?_⟩
  have hunion : (⟨l.px, totalQty (venues.map a) l.px⟩ : MergedLevel) ∈ m :: rest :=
    hrest ▸ mem_unionLadder.mpr ⟨hmem.mpr ⟨v, hv, l, hl, rfl⟩, rfl⟩
  have hordered : Ordered (Better descending) (m :: rest) :=
    hrest ▸ unionLadder_ordered descending (venues.map a)
  obtain heq | hin := List.mem_cons.mp hunion
  · rw [← heq]
    exact irrefl_of (Better descending) _
  · exact asymm_of (Better descending) ((ordered_cons.mp hordered).1 _ hin)

theorem exists_touchOf {v : Fin n} (hv : v ∈ venues) {l : Level} (hl : l ∈ a v) :
    ∃ touch, touch ∈ touchOf descending venues a := by
  have hmem : (⟨l.px, totalQty (venues.map a) l.px⟩ : MergedLevel) ∈
      unionOf descending venues a :=
    mem_unionLadder.mpr ⟨mem_pricesOf.mpr ⟨a v, List.mem_map_of_mem hv, l, hl, rfl⟩, rfl⟩
  obtain ⟨m, rest, hrest⟩ := List.exists_cons_of_ne_nil (List.ne_nil_of_mem hmem)
  exact ⟨m.px, by simp [touchOf, hrest]⟩

theorem near_touch {touch : Int} (hpos : 0 < touch) (hfits : FitsInt64 touch) :
    Near descending bps touch touch := by
  refine ⟨?_, irrefl_of (Better descending) touch⟩
  by_cases hnone : touch ≤ 0 ∨ bps ≤ 0
  · rw [offsetByBpsOutward, if_pos hnone]
    cases descending <;> exact le_rfl
  · have hscale : kBpsScale = 1000000000000 := rfl
    have hnumerator : 0 < touch * bps := Int.mul_pos hpos (by omega)
    have hdelta : 0 ≤ (touch * bps + kBpsScale - 1).tdiv kBpsScale :=
      Int.tdiv_nonneg (by omega) (by decide)
    have htouch := narrowSaturating_of_fits hfits
    rw [offsetByBpsOutward, if_neg hnone]
    cases descending with
    | false =>
      exact htouch.symm.le.trans (narrowSaturating_mono (Int.le_add_of_nonneg_right hdelta))
    | true => exact (narrowSaturating_mono (Int.sub_le_self _ hdelta)).trans htouch.le

theorem SoundSides.near_touch (h : SoundSides descending venues a) {touch : Int}
    (htouch : touch ∈ touchOf descending venues a) : Near descending bps touch touch := by
  obtain ⟨⟨v, hv, l, hl, rfl⟩, -⟩ := mem_touchOf htouch
  exact CexAggregator.near_touch ((h.bestFirst v hv).positive l hl).1 (h.fits v hv l hl)

theorem AgreeNear.touch_mem (h : AgreeNear descending bps venues a b)
    (ha : SoundSides descending venues a) (hb : SoundSides descending venues b) {touch : Int}
    (htouch : touch ∈ touchOf descending venues a) : touch ∈ touchOf descending venues b := by
  obtain ⟨⟨v, hv, l, hl, rfl⟩, hbest⟩ := mem_touchOf htouch
  have hlb : l ∈ b v := (h.mem_iff htouch hv (ha.near_touch htouch)).mp hl
  obtain ⟨touch', htouch'⟩ := @exists_touchOf _ descending _ _ _ hv _ hlb
  obtain ⟨⟨u, hu, k, hk, rfl⟩, hbest'⟩ := mem_touchOf htouch'
  have hka : k ∈ a u := (h.symm.mem_iff htouch' hu (hb.near_touch htouch')).mp hk
  obtain hlt | heq | hgt := trichotomous_of (Better descending) l.px k.px
  · exact (hbest' v hv l hlb hlt).elim
  · exact heq ▸ htouch'
  · exact (hbest u hu k hka hgt).elim

theorem AgreeNear.touch_eq (h : AgreeNear descending bps venues a b)
    (ha : SoundSides descending venues a) (hb : SoundSides descending venues b) :
    touchOf descending venues a = touchOf descending venues b :=
  Option.ext fun _ => ⟨h.touch_mem ha hb, h.symm.touch_mem hb ha⟩

theorem AgreeNear.union_mem (h : AgreeNear descending bps venues a b)
    (ha : SoundSides descending venues a) (hb : SoundSides descending venues b) {touch : Int}
    (htouch : touch ∈ touchOf descending venues a) {m : MergedLevel}
    (hinside : PriceInside descending (offsetByBpsOutward touch bps descending) m.px)
    (hm : m ∈ unionOf descending venues a) : m ∈ unionOf descending venues b := by
  obtain ⟨hpx, hqty⟩ := mem_unionLadder.mp hm
  have hbest := (mem_touchOf htouch).2
  have hsides : venues.map (fun v => (a v).filter fun l => l.px = m.px) =
      venues.map (fun v => (b v).filter fun l => l.px = m.px) := by
    apply List.map_congr_left
    intro v hv
    have hleft := (ha.bestFirst v hv).ordered.sublist
      (List.filter_sublist (p := fun l : Level => l.px = m.px))
    have hright := (hb.bestFirst v hv).ordered.sublist
      (List.filter_sublist (p := fun l : Level => l.px = m.px))
    apply hleft.eq_of_mem_iff hright
    intro l
    simp only [List.mem_filter, decide_eq_true_eq]
    apply and_congr_left
    intro hl
    by_cases hbetter : Better descending m.px touch
    · -- No book has a level better than the touch.
      have hnot : ∀ {side : Fin n → List Level}, touch ∈ touchOf descending venues side →
          l ∉ side v := fun hside hin => (mem_touchOf hside).2 v hv l hin (hl ▸ hbetter)
      exact iff_of_false (hnot htouch) (hnot (h.touch_mem ha hb htouch))
    · exact h.mem_iff htouch hv (hl ▸ ⟨hinside, hbetter⟩)
  have hflat : (venues.map a).flatten.filter (fun l => l.px = m.px) =
      (venues.map b).flatten.filter (fun l => l.px = m.px) := by
    simp only [List.filter_flatten, List.map_map]
    exact congrArg List.flatten hsides
  refine mem_unionLadder.mpr ⟨?_, ?_⟩
  · obtain ⟨l, hl, hlpx⟩ := List.mem_map.mp hpx
    have hin : l ∈ (venues.map b).flatten.filter (fun l => l.px = m.px) :=
      hflat ▸ List.mem_filter.mpr ⟨hl, by simpa using hlpx⟩
    exact List.mem_map.mpr ⟨l, (List.mem_filter.mp hin).1, hlpx⟩
  · rw [hqty, totalQty, totalQty, restingAt, restingAt, hflat]

theorem AgreeNear.head_eq (h : AgreeNear descending bps venues a b)
    (ha : SoundSides descending venues a) (hb : SoundSides descending venues b) {touch : Int}
    (htouch : touch ∈ touchOf descending venues a) {v : Fin n} (hv : v ∈ venues) {l : Level}
    (hl : l ∈ (a v).head?) (hnear : Near descending bps touch l.px) : l ∈ (b v).head? := by
  have hlb : l ∈ b v := (h.mem_iff htouch hv hnear).mp (List.mem_of_mem_head? hl)
  obtain ⟨k, rest, hk⟩ := List.exists_cons_of_ne_nil (List.ne_nil_of_mem hlb)
  have hordered := (hb.bestFirst v hv).ordered
  rw [hk] at hlb hordered ⊢
  obtain rfl | hin := List.mem_cons.mp hlb
  · rfl
  -- A better level of `b` would be near as well, and hence in `a`.
  have hbetter : Better descending k.px l.px := (ordered_cons.mp hordered).1 l hin
  have hkb : k ∈ b v := hk ▸ List.mem_cons_self
  have hknear : Near descending bps touch k.px := by
    refine ⟨?_, (mem_touchOf (h.touch_mem ha hb htouch)).2 v hv k hkb⟩
    by_contra hout
    exact not_inside_of_better hbetter hout hnear.1
  have hka : k ∈ a v := (h.mem_iff htouch hv hknear).mpr hkb
  obtain ⟨rest', hrest'⟩ := List.head?_eq_some_iff.mp hl
  have hordered' := (ha.bestFirst v hv).ordered
  rw [hrest'] at hordered' hka
  obtain rfl | hin' := List.mem_cons.mp hka
  · exact (irrefl_of (Better descending) _ hbetter).elim
  · exact (asymm_of (Better descending) hbetter ((ordered_cons.mp hordered').1 k hin')).elim

theorem AgreeNear.bestPx_eq {x y : Fin n → SideBook descending}
    (h : AgreeNear descending bps venues (fun v => (x v).levels) fun v => (y v).levels)
    (hx : SoundSides descending venues fun v => (x v).levels)
    (hy : SoundSides descending venues fun v => (y v).levels) {touch : Int}
    (htouch : touch ∈ touchOf descending venues fun v => (x v).levels) {v : Fin n}
    (hv : v ∈ venues) {l : Level} (hl : l ∈ (x v).levels.head?)
    (hnear : Near descending bps touch l.px) : (y v).bestPx = (x v).bestPx := by
  have hsame : l ∈ (y v).levels.head? := h.head_eq hx hy htouch hv hl hnear
  rw [SideBook.bestPx, SideBook.bestPx, Option.mem_def.mp hsame, Option.mem_def.mp hl]

theorem AgreeNear.head_eq_of_touch (h : AgreeNear descending bps venues a b)
    (ha : SoundSides descending venues a) (hb : SoundSides descending venues b) {touch : Int}
    (htouch : touch ∈ touchOf descending venues a) (hne : touch ≠ 0) {v : Fin n} (hv : v ∈ venues)
    (hpx : ((a v).head?.map Level.px).getD 0 = touch) : (b v).head? = (a v).head? := by
  cases hl : (a v).head? with
  | none =>
    rw [hl] at hpx
    exact (hne hpx.symm).elim
  | some l =>
    rw [hl] at hpx
    have hnear : Near descending bps touch l.px := by
      rw [show l.px = touch from hpx]
      exact ha.near_touch htouch
    exact h.head_eq ha hb htouch hv hl hnear

section Merge
variable {limits : MergeLimits}

theorem published_best {r : MergeOutput} {rest : List MergedLevel}
    (hr : MergeResult descending limits (unionOf descending venues a) r rest)
    (hbps : 0 < limits.maxBpsFromTouch)
    (h : AgreeNear descending limits.maxBpsFromTouch venues a b)
    (ha : SoundSides descending venues a) (hb : SoundSides descending venues b) :
    r.levels <+: unionOf descending venues b := by
  by_cases hempty : r.levels = []
  · rw [hempty]
    exact List.nil_prefix
  obtain ⟨m, levels, hlevels⟩ := List.exists_cons_of_ne_nil hempty
  have hhead : m ∈ (unionOf descending venues a).head? := by
    rw [hr.split, hlevels]
    rfl
  have htouch : m.px ∈ touchOf descending venues a := Option.mem_map.mpr ⟨m, hhead, rfl⟩
  let inside : MergedLevel → Bool := fun x =>
    PriceInside descending (offsetByBpsOutward m.px limits.maxBpsFromTouch descending) x.px
  have hcut : ∀ x y : MergedLevel, Better descending x.px y.px → inside y = true →
      inside x = true := by
    intro x y hxy hy
    simp only [inside, decide_eq_true_eq] at hy ⊢
    by_contra hx
    exact not_inside_of_better hxy hx hy
  have hsame : (unionOf descending venues a).filter inside =
      (unionOf descending venues b).filter inside := by
    have hleft := ha.union_bestFirst.ordered.sublist (List.filter_sublist (p := inside))
    have hright := hb.union_bestFirst.ordered.sublist (List.filter_sublist (p := inside))
    apply hleft.eq_of_mem_iff hright
    intro x
    simp only [List.mem_filter]
    apply and_congr_left
    intro hx
    exact ⟨h.union_mem ha hb htouch (of_decide_eq_true hx),
      h.symm.union_mem hb ha (h.touch_mem ha hb htouch) (of_decide_eq_true hx)⟩
  have hall : r.levels.filter inside = r.levels :=
    List.filter_eq_self.mpr fun x hx => decide_eq_true (hr.price hbps m hhead x hx)
  have hpre : r.levels <+: unionOf descending venues a := ⟨rest, hr.split.symm⟩
  calc r.levels = r.levels.filter inside := hall.symm
    _ <+: (unionOf descending venues a).filter inside := hpre.filter inside
    _ = (unionOf descending venues b).filter inside := hsame
    _ <+: unionOf descending venues b := hb.union_bestFirst.ordered.filter_prefix hcut

theorem published_le {r r' : MergeOutput} {rest rest' : List MergedLevel}
    (hr : MergeResult descending limits (unionOf descending venues a) r rest)
    (hr' : MergeResult descending limits (unionOf descending venues b) r' rest')
    (hbps : 0 < limits.maxBpsFromTouch)
    (h : AgreeNear descending limits.maxBpsFromTouch venues a b)
    (ha : SoundSides descending venues a) (hb : SoundSides descending venues b) :
    r.levels <+: r'.levels := by
  refine hr'.prefix_le hb.union_bestFirst (published_best hr hbps h ha hb) hr.count
    (fun hbps touch htouch => ?_) hr.notional
  have hback : touch.px ∈ touchOf descending venues a :=
    h.touch_eq ha hb ▸ Option.mem_map.mpr ⟨touch, htouch, rfl⟩
  obtain ⟨m, hm, hpx⟩ := Option.mem_map.mp hback
  exact hpx ▸ hr.price hbps m hm

end Merge

end Side

def makeView (book : ConsolidatedBook) (bids : Bool) : LadderView :=
  ⟨if bids then book.bids else book.asks, bids⟩

namespace Engine
variable {n : ℕ}

def bidLevels (e : Engine n) (v : Fin n) : List Level := (e.books v).bids.levels
def askLevels (e : Engine n) (v : Fin n) : List Level := (e.books v).asks.levels

structure SoundBooks (venues : List (Fin n)) (e : Engine n) : Prop where
  bids : SoundSides true venues e.bidLevels
  asks : SoundSides false venues e.askLevels

structure AgreeNearTouch (config : EngineConfig) (venues : List (Fin n)) (a b : Engine n) :
    Prop where
  bids : AgreeNear true (config.maxPublishBps * kScale) venues a.bidLevels b.bidLevels
  asks : AgreeNear false (config.maxPublishBps * kScale) venues a.askLevels b.askLevels

structure SameBut (venues : List (Fin n)) (a b : Engine n) : Prop where
  fields : b = { a with books := b.books }
  books : ∀ v, v ∉ venues → b.books v = a.books v

structure SameAnswers (x y : ConsolidatedBook) : Prop where
  bids : x.bids = y.bids
  asks : x.asks = y.asks
  bidTouch : x.bidTouch = y.bidTouch
  askTouch : x.askTouch = y.askTouch
  touch : computeTouch (makeView x true) (makeView x false) =
    computeTouch (makeView y true) (makeView y false)
  bands : ∀ side bands, computeSideBands (makeView x side) bands =
    computeSideBands (makeView y side) bands

/-- Beside the truncation flags only clock entries differ: in the level counts, and in best
prices that do not lie near the touch. -/
structure OnlyFarDiffers (config : EngineConfig) (names : Fin n → String)
    (venues : List (Fin n)) (a b : Engine n) (x y : ConsolidatedBook) : Prop where
  book : y = { x with
    bidsTruncated := y.bidsTruncated
    asksTruncated := y.asksTruncated
    clocks := y.clocks }
  xClocks : x.clocks = (List.finRange n).map fun v => a.clockInfo (names v) v
  yClocks : y.clocks = (List.finRange n).map fun v => b.clockInfo (names v) v
  others : ∀ v, v ∉ venues → b.clockInfo (names v) v = a.clockInfo (names v) v
  clocks : ∀ v, b.clockInfo (names v) v = { a.clockInfo (names v) v with
    bidLevels := (b.clockInfo (names v) v).bidLevels
    askLevels := (b.clockInfo (names v) v).askLevels
    bestBid := (b.clockInfo (names v) v).bestBid
    bestAsk := (b.clockInfo (names v) v).bestAsk }
  bestBid : ∀ v ∈ venues, ∀ touch ∈ touchOf true venues a.bidLevels,
    ∀ l ∈ (a.bidLevels v).head?, Near true (config.maxPublishBps * kScale) touch l.px →
      (b.clockInfo (names v) v).bestBid = (a.clockInfo (names v) v).bestBid
  bestAsk : ∀ v ∈ venues, ∀ touch ∈ touchOf false venues a.askLevels,
    ∀ l ∈ (a.askLevels v).head?, Near false (config.maxPublishBps * kScale) touch l.px →
      (b.clockInfo (names v) v).bestAsk = (a.clockInfo (names v) v).bestAsk

section Merge
variable {config : EngineConfig} {descending : Bool} {venues : List (Fin n)}
  {a b : Fin n → List Level}

theorem mergedSide_result (config : EngineConfig) (h : SoundSides descending venues a) :
    ∃ rest, MergeResult descending (mergeLimits config) (unionOf descending venues a)
      (mergedSide config descending a venues) rest := by
  have hsides : ∀ side ∈ venues.map (fun v => (⟨v.val, a v⟩ : VenueSideInput)),
      BestFirst descending side.levels := List.forall_mem_map.mpr h.bestFirst
  have hresult := mergeSide_result_of_bestFirst hsides (mergeLimits config)
  rwa [List.map_map] at hresult

theorem mergedSide_eq (hbps : 0 < config.maxPublishBps)
    (h : AgreeNear descending (config.maxPublishBps * kScale) venues a b)
    (ha : SoundSides descending venues a) (hb : SoundSides descending venues b) :
    (mergedSide config descending a venues).levels =
      (mergedSide config descending b venues).levels := by
  obtain ⟨rest, hr⟩ := mergedSide_result config ha
  obtain ⟨rest', hr'⟩ := mergedSide_result config hb
  have hpos : 0 < (mergeLimits config).maxBpsFromTouch := Int.mul_pos hbps (by decide)
  exact (published_le hr hr' hpos h ha hb).eq_of_length_le
    (published_le hr' hr hpos h.symm hb ha).length_le

theorem bestPx_mem_touchOf (ha : SoundSides descending venues a)
    (hbest : bestPx (mergedSide config descending a venues).levels ≠ 0) :
    bestPx (mergedSide config descending a venues).levels ∈ touchOf descending venues a := by
  obtain ⟨rest, hr⟩ := mergedSide_result config ha
  cases hlevels : (mergedSide config descending a venues).levels with
  | nil =>
    rw [hlevels] at hbest
    exact (hbest rfl).elim
  | cons m levels =>
    have hunion := hr.split
    rw [hlevels] at hunion
    simp [touchOf, hunion, bestPx]

theorem touch_congr (names : Fin n → String)
    (h : AgreeNear descending (config.maxPublishBps * kScale) venues a b)
    (ha : SoundSides descending venues a) (hb : SoundSides descending venues b) :
    let best := bestPx (mergedSide config descending a venues).levels
    touch names best (fun v => ((a v).head?.map Level.px).getD 0)
        (fun v => ((a v).head?.map Level.qty).getD 0) venues =
      touch names best (fun v => ((b v).head?.map Level.px).getD 0)
        (fun v => ((b v).head?.map Level.qty).getD 0) venues := by
  intro best
  by_cases hbest : best = 0
  · simp [touch, hbest]
  have htouch : best ∈ touchOf descending venues a := bestPx_mem_touchOf ha hbest
  have hpx : ∀ v ∈ venues, ((a v).head?.map Level.px).getD 0 = best ↔
      ((b v).head?.map Level.px).getD 0 = best := by
    intro v hv
    have hfor := h.head_eq_of_touch ha hb htouch hbest hv
    have hback := h.symm.head_eq_of_touch hb ha (h.touch_mem ha hb htouch) hbest hv
    exact ⟨fun hpx => hfor hpx ▸ hpx, fun hpx => hback hpx ▸ hpx⟩
  have hwho : (venues.filter fun v => best ≠ 0 ∧ ((a v).head?.map Level.px).getD 0 = best) =
      venues.filter fun v => best ≠ 0 ∧ ((b v).head?.map Level.px).getD 0 = best := by
    apply List.filter_congr
    intro v hv
    simp only [hpx v hv]
  rw [touch, touch, ← hwho]
  apply List.map_congr_left
  intro v hv
  obtain ⟨hv, hin⟩ := List.mem_filter.mp hv
  rw [h.head_eq_of_touch ha hb htouch hbest hv (of_decide_eq_true hin).2]

end Merge

section Publish
variable {config : EngineConfig} {venues : List (Fin n)} {a b : Engine n}

/-- Two publications of the same venues. The second part compares publications that differ in
nothing but what those venues' books hold. -/
theorem consolidate_of_agreeNearTouch (config : EngineConfig) (names : Fin n → String)
    {a b : Engine n} (hbps : 0 < config.maxPublishBps) {nowA nowB wallA wallB : Int}
    {statesA statesB : Fin n → VenueState}
    (hvenues : b.selected config nowB statesB = a.selected config nowA statesA)
    (ha : a.SoundBooks (a.selected config nowA statesA))
    (hb : b.SoundBooks (a.selected config nowA statesA))
    (h : AgreeNearTouch config (a.selected config nowA statesA) a b) :
    SameAnswers (a.consolidate config names nowA wallA statesA)
        (b.consolidate config names nowB wallB statesB) ∧
      (a.SameBut (a.selected config nowA statesA) b → nowB = nowA → wallB = wallA →
        statesB = statesA →
        OnlyFarDiffers config names (a.selected config nowA statesA) a b
          (a.consolidate config names nowA wallA statesA)
          (b.consolidate config names nowB wallB statesB)) := by
  have hbids := mergedSide_eq hbps h.bids ha.bids hb.bids
  have hasks := mergedSide_eq hbps h.asks ha.asks hb.asks
  have hx : (a.consolidate config names nowA wallA statesA).bids =
      (b.consolidate config names nowB wallB statesB).bids := by
    simp only [consolidate, hvenues]
    exact hbids
  have hy : (a.consolidate config names nowA wallA statesA).asks =
      (b.consolidate config names nowB wallB statesB).asks := by
    simp only [consolidate, hvenues]
    exact hasks
  have hviews : ∀ side, makeView (a.consolidate config names nowA wallA statesA) side =
      makeView (b.consolidate config names nowB wallB statesB) side := by
    intro side
    simp only [makeView, hx, hy]
  have hbidTouch : (a.consolidate config names nowA wallA statesA).bidTouch =
      (b.consolidate config names nowB wallB statesB).bidTouch := by
    simp only [consolidate, hvenues]
    exact (touch_congr names h.bids ha.bids hb.bids).trans (congrArg
      (fun levels => touch names (bestPx levels) _ _ (a.selected config nowA statesA)) hbids)
  have haskTouch : (a.consolidate config names nowA wallA statesA).askTouch =
      (b.consolidate config names nowB wallB statesB).askTouch := by
    simp only [consolidate, hvenues]
    exact (touch_congr names h.asks ha.asks hb.asks).trans (congrArg
      (fun levels => touch names (bestPx levels) _ _ (a.selected config nowA statesA)) hasks)
  refine ⟨⟨hx, hy, hbidTouch, haskTouch, by rw [hviews, hviews], fun side bands => by
    rw [hviews]⟩, fun hbut hnow hwall hstates => ?_⟩
  subst hnow hwall hstates
  obtain ⟨books, rfl⟩ : ∃ books, b = { a with books := books } := ⟨_, hbut.fields⟩
  refine ⟨?_, rfl, rfl, fun v hv => ?_, fun v => rfl, fun v hv touch htouch l hl hnear => ?_,
    fun v hv touch htouch l hl hnear => ?_⟩
  · exact ConsolidatedBook.ext rfl rfl rfl rfl rfl rfl rfl hx.symm hy.symm hbidTouch.symm
      haskTouch.symm rfl rfl
  · have hsame : books v = a.books v := hbut.books v hv
    simp only [clockInfo, hsame]
  · exact h.bids.bestPx_eq ha.bids hb.bids htouch hv hl hnear
  · exact h.asks.bestPx_eq ha.asks hb.asks htouch hv hl hnear

def lowBidder (px : Int) : Engine 2 where
  books v := if v = 0 then ⟨⟨[⟨10000000000, 100000000⟩]⟩, ⟨[⟨10100000000, 100000000⟩]⟩⟩
    else ⟨⟨[⟨px, 100000000⟩]⟩, {}⟩
  lastRecvNs _ := 1

abbrev lowVenues : List (Fin 2) := (lowBidder 5000000000).selected {} 2 fun _ => .kLive

theorem lowBidder_sound :
    (lowBidder 5000000000).SoundBooks lowVenues ∧ (lowBidder 6000000000).SoundBooks lowVenues :=
  ⟨⟨⟨by decide +kernel, by decide +kernel⟩, ⟨by decide +kernel, by decide +kernel⟩⟩,
    ⟨⟨by decide +kernel, by decide +kernel⟩, ⟨by decide +kernel, by decide +kernel⟩⟩⟩

theorem lowBidder_sameBut :
    (lowBidder 5000000000).SameBut lowVenues (lowBidder 6000000000) :=
  ⟨rfl, by decide +kernel⟩

theorem lowBidder_agree :
    AgreeNearTouch {} lowVenues (lowBidder 5000000000) (lowBidder 6000000000) :=
  ⟨by decide +kernel, by decide +kernel⟩

theorem consolidate_of_agreeNearTouch_lowBidder :
    SameAnswers
      ((lowBidder 5000000000).consolidate {} (fun _ => "okx") 2 0 fun _ => .kLive)
      ((lowBidder 6000000000).consolidate {} (fun _ => "okx") 2 0 fun _ => .kLive) :=
  (consolidate_of_agreeNearTouch (a := lowBidder 5000000000) (b := lowBidder 6000000000) {}
    (fun _ => "okx") (by decide) rfl lowBidder_sound.1 lowBidder_sound.2 lowBidder_agree).1

def withoutCounts (c : VenueClockInfo) : VenueClockInfo :=
  { c with bidLevels := 0, askLevels := 0 }

/-- A best price beyond the bound still shows in the clock entry. -/
theorem lowBidder_clocks : ¬ ∀ (a b : Engine 2) (states : Fin 2 → VenueState),
    a.SameBut (a.selected {} 2 states) b → a.SoundBooks (a.selected {} 2 states) →
    b.SoundBooks (a.selected {} 2 states) → AgreeNearTouch {} (a.selected {} 2 states) a b →
    (a.consolidate {} (fun _ => "okx") 2 0 states).clocks.map withoutCounts =
      (b.consolidate {} (fun _ => "okx") 2 0 states).clocks.map withoutCounts := by
  intro h
  have hclocks := h (lowBidder 5000000000) (lowBidder 6000000000) (fun _ => .kLive)
    lowBidder_sameBut lowBidder_sound.1 lowBidder_sound.2 lowBidder_agree
  revert hclocks
  decide +kernel

end Publish

end Engine

end CexAggregator
