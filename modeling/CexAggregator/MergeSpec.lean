import CexAggregator.MergeUnion

/-!
# What the merge loop leaves

Every round moves the head of the union of the remaining cursors to the output, or stops.
The limits are closed under prefixes, so stopping at the first level that breaks one of
them leaves the longest prefix of the union they admit.
-/

namespace CexAggregator
open OrderedTable

def ladderNotional (levels : List MergedLevel) : Int :=
  (levels.map fun m => notionalWide m.px m.qty).sum

/-- The three limits, as a property of a prefix `taken` of the ladder `full`. -/
structure WithinLimits (descending : Bool) (limits : MergeLimits)
    (full taken : List MergedLevel) : Prop where
  count : (taken.length : Int) ≤ limits.maxLevels.toInt
  price : 0 < limits.maxBpsFromTouch → ∀ touch ∈ full.head?, ∀ m ∈ taken,
    PriceInside descending (offsetByBpsOutward touch.px limits.maxBpsFromTouch descending) m.px
  notional : 0 < limits.notionalTarget → ladderNotional taken.dropLast < limits.notionalTarget

structure MergeInputs (descending : Bool) where
  sides : List VenueSideInput
  count : sides.length ≤ kMaxVenues
  bestFirst : ∀ side ∈ sides, BestFirst descending side.levels
  fits : ∀ px ∈ pricesOf (sides.map VenueSideInput.levels),
    FitsInt64 (totalQty (sides.map VenueSideInput.levels) px)

namespace MergeInputs
variable {descending : Bool}

def levels (inputs : MergeInputs descending) : List (List Level) :=
  inputs.sides.map VenueSideInput.levels

def union (inputs : MergeInputs descending) : List MergedLevel :=
  unionLadder descending inputs.levels

theorem levels_bestFirst (inputs : MergeInputs descending) :
    ∀ c ∈ inputs.levels, BestFirst descending c := by
  intro c hc
  obtain ⟨side, hside, rfl⟩ := List.mem_map.mp hc
  exact inputs.bestFirst side hside

theorem union_bestFirst (inputs : MergeInputs descending) :
    BestFirst descending inputs.union :=
  unionLadder_bestFirst inputs.levels_bestFirst

end MergeInputs

theorem ladderNotional_append (as bs : List MergedLevel) :
    ladderNotional (as ++ bs) = ladderNotional as + ladderNotional bs := by
  simp [ladderNotional]

theorem totals_nonneg_of_pos {levels : List MergedLevel}
    (h : ∀ m ∈ levels, 0 < m.px ∧ 0 < m.qty) :
    0 ≤ (levels.map MergedLevel.qty).sum ∧ 0 ≤ ladderNotional levels := by
  constructor
  · apply List.sum_nonneg
    intro q hq
    obtain ⟨m, hm, rfl⟩ := List.mem_map.mp hq
    exact (h m hm).2.le
  · apply List.sum_nonneg
    intro n hn
    obtain ⟨m, hm, rfl⟩ := List.mem_map.mp hn
    obtain ⟨hpx, hqty⟩ := h m hm
    exact notionalWide_nonneg hpx.le hqty.le

theorem ladderNotional_nonneg {descending : Bool} {levels : List MergedLevel}
    (h : BestFirst descending levels) : 0 ≤ ladderNotional levels :=
  (totals_nonneg_of_pos h.positive).2

theorem BestFirst.sublist {descending : Bool} {as bs : List MergedLevel}
    (h : BestFirst descending bs) (hsub : as.Sublist bs) : BestFirst descending as :=
  ⟨h.ordered.sublist hsub, fun a ha => h.positive a (hsub.subset ha)⟩

theorem ladderNotional_dropLast_le {descending : Bool} {full as bs : List MergedLevel}
    (hfull : BestFirst descending full) (hbs : bs <+: full) (hpre : as <+: bs) :
    ladderNotional as.dropLast ≤ ladderNotional bs.dropLast := by
  obtain ⟨rest, hrest⟩ : as.dropLast <+: bs.dropLast := by
    refine List.prefix_of_prefix_length_le ((List.dropLast_prefix as).trans hpre)
      (List.dropLast_prefix bs) ?_
    have hlen := hpre.length_le
    simp only [List.length_dropLast]
    omega
  have hsub : rest.Sublist full :=
    ((hrest ▸ List.sublist_append_right _ _).trans (List.dropLast_sublist bs)).trans hbs.sublist
  have hnonneg := ladderNotional_nonneg (hfull.sublist hsub)
  rw [← hrest, ladderNotional_append]
  omega

/-- The loop invariant: the union splits into what is out and what the cursors still hold. -/
structure MergeInvariant (descending : Bool) (limits : MergeLimits) (full : List MergedLevel)
    (s : MergeState) : Prop where
  cursors : ∀ c ∈ s.cursors, BestFirst descending c
  union : full = s.out ++ unionLadder descending s.cursors
  count : s.out.length ≤ limits.levelCap
  notional : s.cumulativeNotional = ladderNotional s.out
  below : 0 < limits.notionalTarget → s.cumulativeNotional < limits.notionalTarget
  bound : 0 < limits.maxBpsFromTouch → s.boundComputed = true → ∀ touch ∈ full.head?,
    s.bound = offsetByBpsOutward touch.px limits.maxBpsFromTouch descending
  unbound : 0 < limits.maxBpsFromTouch → s.boundComputed = false → s.out = []
  price : 0 < limits.maxBpsFromTouch → ∀ touch ∈ full.head?, ∀ m ∈ s.out,
    PriceInside descending (offsetByBpsOutward touch.px limits.maxBpsFromTouch descending) m.px

def Stopped (descending : Bool) (limits : MergeLimits) (full out rest : List MergedLevel) : Prop :=
  ∀ m ∈ rest.head?, limits.levelCap ≤ out.length ∨
    (0 < limits.maxBpsFromTouch ∧ ∃ touch ∈ full.head?, ¬ PriceInside descending
      (offsetByBpsOutward touch.px limits.maxBpsFromTouch descending) m.px) ∨
    (0 < limits.notionalTarget ∧ limits.notionalTarget ≤ ladderNotional out)

structure MergeResult (descending : Bool) (limits : MergeLimits) (full : List MergedLevel)
    (r : MergeOutput) (rest : List MergedLevel) : Prop where
  split : full = r.levels ++ rest
  truncated : r.truncated = true ↔ rest ≠ []
  count : r.levels.length ≤ limits.levelCap
  price : 0 < limits.maxBpsFromTouch → ∀ touch ∈ full.head?, ∀ m ∈ r.levels,
    PriceInside descending (offsetByBpsOutward touch.px limits.maxBpsFromTouch descending) m.px
  notional : 0 < limits.notionalTarget → ladderNotional r.levels.dropLast < limits.notionalTarget
  stopped : Stopped descending limits full r.levels rest

section Step
variable {descending : Bool} {limits : MergeLimits} {full : List MergedLevel} {s : MergeState}

theorem MergeInvariant.bound_eq (h : MergeInvariant descending limits full s) {best qty : Int}
    {rest : List MergedLevel} (hpeel : unionLadder descending s.cursors = ⟨best, qty⟩ :: rest)
    (hbps : 0 < limits.maxBpsFromTouch) : ∀ touch ∈ full.head?,
    boundAt descending limits s best =
      offsetByBpsOutward touch.px limits.maxBpsFromTouch descending := by
  intro touch htouch
  unfold boundAt
  split_ifs with hfirst
  · rw [h.union, h.unbound hbps hfirst.2, hpeel] at htouch
    cases htouch
    rfl
  · have hcomputed : s.boundComputed = true := by simpa [hbps] using hfirst
    exact h.bound hbps hcomputed touch htouch

theorem MergeInvariant.take {m : MergedLevel} (h : MergeInvariant descending limits full s)
    (hpeel : unionLadder descending s.cursors =
      m :: unionLadder descending (s.cursors.map (advance m.px)))
    (hcap : ¬ limits.levelCap ≤ s.out.length)
    (hprice : ¬ (0 < limits.maxBpsFromTouch ∧
      ¬ PriceInside descending (boundAt descending limits s m.px) m.px)) :
    full = (s.out ++ [m]) ++ unionLadder descending (s.cursors.map (advance m.px)) ∧
      (s.out ++ [m]).length ≤ limits.levelCap ∧
      s.cumulativeNotional + notionalWide m.px m.qty = ladderNotional (s.out ++ [m]) ∧
      (0 < limits.maxBpsFromTouch → ∀ touch ∈ full.head?, ∀ x ∈ s.out ++ [m],
        PriceInside descending
          (offsetByBpsOutward touch.px limits.maxBpsFromTouch descending) x.px) := by
  refine ⟨?_, ?_, ?_, fun hbps touch htouch => List.forall_mem_append.mpr
    ⟨h.price hbps touch htouch, List.forall_mem_singleton.mpr ?_⟩⟩
  · rw [List.append_assoc, List.singleton_append, ← hpeel]
    exact h.union
  · rw [List.length_append, List.length_singleton]
    omega
  · simp [h.notional, ladderNotional]
  · rw [← h.bound_eq hpeel hbps touch htouch]
    exact not_not.mp fun hout => hprice ⟨hbps, hout⟩

theorem MergeInvariant.next {next : MergeState} (h : MergeInvariant descending limits full s)
    (hs : mergeStep descending limits s = .inl next) :
    MergeInvariant descending limits full next := by
  simp only [mergeStep] at hs
  split at hs
  · cases hs
  rename_i best hbest
  have hspec := bestHead_spec descending s.cursors
  rw [hbest] at hspec
  have hpeel := unionLadder_peel h.cursors hspec
  split_ifs at hs with hcap hprice hnotional
  cases hs
  obtain ⟨hunion, hcount, hsum, hinside⟩ := h.take hpeel hcap hprice
  refine ⟨fun c hc => ?_, hunion, hcount, hsum, fun ht => ?_, fun hbps _ touch htouch => ?_,
    fun hbps hcomputed => ?_, hinside⟩
  · obtain ⟨d, hd, rfl⟩ := List.mem_map.mp hc
    exact advance_bestFirst (h.cursors d hd)
  · exact not_le.mp fun hle => hnotional ⟨ht, hle⟩
  · exact h.bound_eq hpeel hbps touch htouch
  · simp [hbps] at hcomputed

theorem MergeInvariant.dropLast_lt (h : MergeInvariant descending limits full s)
    (hout : BestFirst descending s.out) (ht : 0 < limits.notionalTarget) :
    ladderNotional s.out.dropLast < limits.notionalTarget := by
  have hbelow := h.below ht
  obtain ⟨rest, hrest⟩ := List.dropLast_prefix s.out
  have hsplit := ladderNotional_append s.out.dropLast rest
  have hnonneg := ladderNotional_nonneg (hout.sublist (hrest ▸ List.sublist_append_right _ _))
  rw [hrest, ← h.notional] at hsplit
  omega

theorem unionLadder_eq_nil_iff {cursors : List (List Level)} :
    unionLadder descending cursors = [] ↔ ∀ c ∈ cursors, c = [] := by
  refine ⟨fun h c hc => List.eq_nil_iff_forall_not_mem.mpr fun l hl => ?_, unionLadder_eq_nil⟩
  have hmem : (⟨l.px, totalQty cursors l.px⟩ : MergedLevel) ∈ unionLadder descending cursors :=
    mem_unionLadder.mpr ⟨mem_pricesOf.mpr ⟨c, hc, l, hl, rfl⟩, rfl⟩
  exact List.not_mem_nil (h ▸ hmem)

theorem MergeInvariant.done (hfull : BestFirst descending full) {r : MergeOutput}
    (h : MergeInvariant descending limits full s)
    (hs : mergeStep descending limits s = .inr r) :
    ∃ rest, MergeResult descending limits full r rest := by
  have hout : BestFirst descending s.out :=
    hfull.sublist (h.union ▸ List.sublist_append_left _ _)
  simp only [mergeStep] at hs
  have hspec := bestHead_spec descending s.cursors
  split at hs
  · rename_i hbest
    rw [hbest] at hspec
    cases hs
    have hnil := unionLadder_eq_nil hspec
    exact ⟨[], hnil ▸ h.union, by simp, h.count, h.price, h.dropLast_lt hout, by simp [Stopped]⟩
  rename_i best hbest
  rw [hbest] at hspec
  have hpeel := unionLadder_peel h.cursors hspec
  have hrest : unionLadder descending s.cursors ≠ [] := hpeel ▸ List.cons_ne_nil _ _
  split_ifs at hs with hcap hprice hnotional
  · -- The level cap.
    cases hs
    exact ⟨_, h.union, by simpa using hrest, h.count, h.price, h.dropLast_lt hout,
      fun _ _ => Or.inl hcap⟩
  · -- The price bound.
    cases hs
    refine ⟨_, h.union, by simpa using hrest, h.count, h.price, h.dropLast_lt hout,
      fun m hm => Or.inr (Or.inl ⟨hprice.1, ?_⟩)⟩
    rw [hpeel] at hm
    cases hm
    have hne : full ≠ [] := by simpa [h.union] using fun _ => hrest
    exact ⟨full.head hne, List.head_mem_head? hne,
      h.bound_eq hpeel hprice.1 _ (List.head_mem_head? hne) ▸ hprice.2⟩
  · -- The notional target.
    cases hs
    obtain ⟨hunion, hcount, hsum, hinside⟩ := h.take hpeel hcap hprice
    refine ⟨_, hunion, ?_, hcount, hinside, fun ht => ?_,
      fun _ _ => Or.inr (Or.inr ⟨hnotional.1, hsum ▸ hnotional.2⟩)⟩
    · simp [unionLadder_eq_nil_iff]
    · rw [List.dropLast_concat, ← h.notional]
      exact h.below ht

end Step

section Union
variable {descending : Bool}

theorem mergeInvariant_initial {cursors : List (List Level)} {limits : MergeLimits}
    (h : ∀ c ∈ cursors, BestFirst descending c) :
    MergeInvariant descending limits (unionLadder descending cursors) { cursors := cursors } where
  cursors := h
  union := rfl
  count := Nat.zero_le _
  notional := rfl
  below := id
  bound _ hcomputed := by cases hcomputed
  unbound _ _ := rfl
  price _ _ _ _ hm := (List.not_mem_nil hm).elim

theorem mergeSide_result_of_bestFirst {sides : List VenueSideInput}
    (hsides : ∀ side ∈ sides, BestFirst descending side.levels) (limits : MergeLimits) :
    ∃ rest, MergeResult descending limits
      (unionLadder descending (sides.map VenueSideInput.levels))
      (mergeSide descending sides limits) rest := by
  have hcursors : ∀ c ∈ sides.map VenueSideInput.levels, BestFirst descending c :=
    List.forall_mem_map.mpr hsides
  exact Loop.run_rule (mergeStep_decreases descending limits)
    (MergeInvariant descending limits _) _ (fun _ _ h hs => h.next hs)
    (fun _ _ h hs => h.done (unionLadder_bestFirst hcursors) hs) (mergeInvariant_initial hcursors)

theorem mergeSide_result (inputs : MergeInputs descending) (limits : MergeLimits) :
    ∃ rest, MergeResult descending limits inputs.union
      (mergeSide descending inputs.sides limits) rest :=
  mergeSide_result_of_bestFirst inputs.bestFirst limits

theorem union_length_le (inputs : MergeInputs descending) :
    inputs.union.length ≤ remaining inputs.levels := by
  rw [MergeInputs.union, unionLadder, List.length_insertionSort, List.length_map, remaining,
    ← List.length_flatten]
  calc (pricesOf inputs.levels).dedup.length
      ≤ (pricesOf inputs.levels).length := (List.dedup_sublist _).length_le
    _ = inputs.levels.flatten.length := List.length_map _

theorem mergeSide_unlimited (inputs : MergeInputs descending) {limits : MergeLimits}
    (hnotional : limits.notionalTarget = 0) (hbps : limits.maxBpsFromTouch = 0)
    (hcap : remaining inputs.levels ≤ limits.levelCap) :
    (mergeSide descending inputs.sides limits).levels = inputs.union := by
  obtain ⟨rest, hresult⟩ := mergeSide_result inputs limits
  have hsplit := hresult.split
  cases rest with
  | nil => rw [hsplit, List.append_nil]
  | cons m rest =>
    have hlen := hsplit ▸ union_length_le inputs
    rw [List.length_append, List.length_cons] at hlen
    rcases hresult.stopped m rfl with hcount | ⟨hpos, -⟩ | ⟨hpos, -⟩ <;> omega

theorem levelCap_eq {limits : MergeLimits} (h : 0 ≤ limits.maxLevels.toInt) :
    (limits.levelCap : Int) = limits.maxLevels.toInt := by
  have hlt := limits.maxLevels.toInt_lt
  rw [MergeLimits.levelCap, Int.emod_eq_of_lt h (by omega), Int.toNat_of_nonneg h]

theorem MergeResult.within {limits : MergeLimits} {full rest : List MergedLevel} {r : MergeOutput}
    (h : MergeResult descending limits full r rest) (hcap : 0 ≤ limits.maxLevels.toInt) :
    WithinLimits descending limits full r.levels := by
  have hcount := h.count
  have heq := levelCap_eq hcap
  exact ⟨by omega, h.price, h.notional⟩

theorem MergeResult.prefix_le {limits : MergeLimits} {full rest : List MergedLevel}
    {r : MergeOutput} (h : MergeResult descending limits full r rest)
    (hfull : BestFirst descending full) {p : List MergedLevel} (hp : p <+: full)
    (hcount : p.length ≤ limits.levelCap)
    (hprice : 0 < limits.maxBpsFromTouch → ∀ touch ∈ full.head?, ∀ m ∈ p,
      PriceInside descending (offsetByBpsOutward touch.px limits.maxBpsFromTouch descending) m.px)
    (hnotional : 0 < limits.notionalTarget → ladderNotional p.dropLast < limits.notionalTarget) :
    p <+: r.levels := by
  have hout : r.levels <+: full := ⟨rest, h.split.symm⟩
  refine List.prefix_of_prefix_length_le hp hout (not_lt.mp fun hlt => ?_)
  cases rest with
  | nil =>
    have hlen := hp.length_le
    rw [h.split, List.append_nil] at hlen
    omega
  | cons m rest =>
    have hlong : r.levels ++ [m] <+: p := by
      refine List.prefix_of_prefix_length_le ⟨rest, ?_⟩ hp ?_
      · rw [h.split, List.append_assoc, List.singleton_append]
      · rw [List.length_append, List.length_singleton]
        exact hlt
    rcases h.stopped m rfl with hcap | ⟨hbps, touch, htouch, hout⟩ | ⟨htarget, hreached⟩
    · omega
    · exact hout (hprice hbps touch htouch m (hlong.subset (by simp)))
    · have hlow := ladderNotional_dropLast_le hfull hp hlong
      have hbelow := hnotional htarget
      rw [List.dropLast_concat] at hlow
      omega

theorem MergeResult.longest {limits : MergeLimits} {full rest : List MergedLevel} {r : MergeOutput}
    (h : MergeResult descending limits full r rest) (hcap : 0 ≤ limits.maxLevels.toInt)
    (hfull : BestFirst descending full) {p : List MergedLevel} (hp : p <+: full)
    (hwithin : WithinLimits descending limits full p) : p <+: r.levels := by
  have heq := levelCap_eq hcap
  have hcount := hwithin.count
  exact h.prefix_le hfull hp (by omega) hwithin.price hwithin.notional

theorem union_perm {inputs inputs' : MergeInputs descending}
    (h : inputs.sides.Perm inputs'.sides) : inputs.union = inputs'.union :=
  unionLadder_perm inputs.levels_bestFirst (h.map _)

/-- The merge publishes the longest prefix of the union that its limits admit, says so
when that is not all of it, and does not depend on the order of the venues. -/
theorem mergeSide_longest_prefix (inputs : MergeInputs descending) (limits : MergeLimits)
    (hcap : 0 ≤ limits.maxLevels.toInt) :
    (∃ rounds, Loop.exec (mergeStep descending limits) rounds { cursors := inputs.levels } =
      some (mergeSide descending inputs.sides limits)) ∧
    BestFirst descending inputs.union ∧
    (∀ m, m ∈ inputs.union ↔
      m.px ∈ pricesOf inputs.levels ∧ m.qty = totalQty inputs.levels m.px) ∧
    (mergeSide descending inputs.sides limits).levels <+: inputs.union ∧
    WithinLimits descending limits inputs.union (mergeSide descending inputs.sides limits).levels ∧
    (∀ p, p <+: inputs.union → WithinLimits descending limits inputs.union p →
      p <+: (mergeSide descending inputs.sides limits).levels) ∧
    ((mergeSide descending inputs.sides limits).truncated = true ↔
      (mergeSide descending inputs.sides limits).levels ≠ inputs.union) ∧
    ∀ inputs' : MergeInputs descending, inputs.sides.Perm inputs'.sides →
      mergeSide descending inputs'.sides limits = mergeSide descending inputs.sides limits := by
  obtain ⟨rest, hresult⟩ := mergeSide_result inputs limits
  have hfull := inputs.union_bestFirst
  refine ⟨⟨_, Loop.exec_eq_run (mergeStep_decreases descending limits) (Nat.lt_succ_self _)⟩,
    hfull, fun m => mem_unionLadder, ⟨rest, hresult.split.symm⟩, hresult.within hcap,
    fun p hp hw => hresult.longest hcap hfull hp hw, ?_, fun inputs' hperm => ?_⟩
  · rw [hresult.truncated, Ne, Ne, hresult.split, List.self_eq_append_right]
  · obtain ⟨rest', hresult'⟩ := mergeSide_result inputs' limits
    rw [← union_perm hperm] at hresult'
    have hlevels : (mergeSide descending inputs'.sides limits).levels =
        (mergeSide descending inputs.sides limits).levels := by
      refine (hresult.longest hcap hfull ⟨rest', hresult'.split.symm⟩
        (hresult'.within hcap)).eq_of_length_le ?_
      exact (hresult'.longest hcap hfull ⟨rest, hresult.split.symm⟩
        (hresult.within hcap)).length_le
    have hrest : rest' = rest := by
      have hsplit := hresult'.split.symm.trans hresult.split
      rw [hlevels] at hsplit
      exact List.append_cancel_left hsplit
    have hflag := hresult'.truncated
    rw [hrest, ← hresult.truncated, Bool.coe_iff_coe] at hflag
    calc mergeSide descending inputs'.sides limits
        = ⟨(mergeSide descending inputs'.sides limits).levels,
            (mergeSide descending inputs'.sides limits).truncated⟩ := rfl
      _ = mergeSide descending inputs.sides limits := by rw [hlevels, hflag]

theorem mergeSide_longest_prefix_capped :
    (mergeSide false [⟨0, [⟨100, 3⟩, ⟨102, 5⟩]⟩, ⟨1, [⟨100, 4⟩, ⟨103, 1⟩]⟩]
      { maxLevels := 2 }).levels = [⟨100, 7⟩, ⟨102, 5⟩] ∧
    (mergeSide false [⟨0, [⟨100, 3⟩, ⟨102, 5⟩]⟩, ⟨1, [⟨100, 4⟩, ⟨103, 1⟩]⟩]
      { maxLevels := 2 }).truncated = true := by
  let inputs : MergeInputs false :=
    ⟨[⟨0, [⟨100, 3⟩, ⟨102, 5⟩]⟩, ⟨1, [⟨100, 4⟩, ⟨103, 1⟩]⟩], by decide, by decide, by decide⟩
  obtain ⟨-, -, -, -, -, -, hflag, -⟩ :=
    mergeSide_longest_prefix inputs { maxLevels := 2 } (by decide)
  exact ⟨by decide, hflag.mpr (by decide)⟩

end Union

end CexAggregator
