import CexAggregator.Book

/-!
# Book updates are finite-map updates

Both delta paths of `SideBook` refine one abstract operation on the map from price to
resting quantity: set every listed price to its quantity, deleting on zero, the last
entry for a price winning. Ordered positive ladders represent their maps uniquely, so
the paths also leave the same vector.
-/

namespace CexAggregator
open OrderedTable

def Level.Admissible (l : Level) : Prop := 0 < l.px ∧ 0 ≤ l.qty

instance (l : Level) : Decidable l.Admissible := inferInstanceAs (Decidable (_ ∧ _))

section LastWinsSort

/-- The runs already written and the suffix still to be read make up the whole result:
`write` never overtakes `read`, so no overwritten entry is read again. -/
def DedupInvariant (v : List Level) (c : DedupCursor) : Prop :=
  c.write ≤ c.read ∧ keepLast v = c.v.take c.write ++ keepLast (c.v.drop c.read)

theorem take_succ_set {v : List Level} {i : ℕ} (hi : i < v.length) (l : Level) :
    (v.set i l).take (i + 1) = v.take i ++ [l] := by
  rw [List.take_set, List.take_succ_eq_append_getElem hi,
    List.set_append_right _ _ (by simp)]
  simp [Nat.min_eq_left hi.le]

theorem DedupCursor.next_run {c : DedupCursor} {l : Level} (hl : c.v[c.read]? = some l) :
    ∃ pre z rest, c.v.drop c.read = pre ++ z :: rest ∧ (∀ a ∈ pre, a.px = z.px) ∧
      (∀ b ∈ rest.head?, z.px ≠ b.px) ∧ c.next l.px = c.read + pre.length + 1 := by
  obtain ⟨hlt, hget⟩ := List.getElem?_eq_some_iff.mp hl
  have hdrop : c.v.drop c.read = l :: c.v.drop (c.read + 1) := by
    rw [List.drop_eq_getElem_cons hlt, hget]
  have hrun : ((c.v.drop c.read).takeWhile fun x => x.px = l.px) ≠ [] := by simp [hdrop]
  obtain ⟨pre, z, hz⟩ := (List.eq_nil_or_concat _).resolve_left hrun
  rw [List.concat_eq_append] at hz
  have hpx : ∀ a ∈ pre ++ [z], a.px = l.px := fun a ha => by
    have h := List.mem_takeWhile_imp (p := fun x : Level => decide (x.px = l.px)) (hz ▸ ha)
    exact of_decide_eq_true h
  have hsplit := List.takeWhile_append_dropWhile (p := fun x => decide (x.px = l.px))
    (l := c.v.drop c.read)
  rw [hz, List.append_assoc, List.singleton_append] at hsplit
  refine ⟨pre, z, _, hsplit.symm, ?_, ?_, ?_⟩
  · intro a ha
    rw [hpx a (List.mem_append_left _ ha), hpx z (by simp)]
  · intro b hb hzb
    have hnot := List.head?_dropWhile_not (fun x => decide (x.px = l.px)) (c.v.drop c.read)
    rw [Option.mem_def.mp hb] at hnot
    simp [← hzb, hpx z] at hnot
  · simp only [DedupCursor.next, hz, List.length_append, List.length_singleton, Nat.add_assoc]

theorem dedupStep_invariant {v : List Level} {c next : DedupCursor} (h : DedupInvariant v c)
    (hs : dedupStep c = .inl next) : DedupInvariant v next := by
  obtain ⟨hle, hv⟩ := h
  simp only [dedupStep] at hs
  split at hs
  · cases hs
  rename_i l hl
  obtain ⟨pre, z, rest, hdrop, hpre, hrest, hnext⟩ := c.next_run hl
  have hlt : c.read < c.v.length := (List.getElem?_eq_some_iff.mp hl).1
  have hz : c.v[c.next l.px - 1]? = some z := by
    rw [hnext, Nat.add_sub_cancel, ← List.getElem?_drop, hdrop]
    simp
  have hdropNext : c.v.drop (c.next l.px) = rest := by
    rw [hnext, Nat.add_assoc, ← List.drop_drop, hdrop]
    simp
  cases hs
  refine ⟨by simp only [hnext]; omega, ?_⟩
  simp only [hz, Option.getD_some]
  rw [take_succ_set (by omega), List.drop_set_of_lt (by omega), hdropNext, hv, hdrop,
    keepLast_run hpre hrest, List.append_assoc, List.singleton_append]

theorem sortBestFirstLastWins_eq (descending : Bool) (v : List Level) :
    sortBestFirstLastWins descending v =
      keepLast (v.insertionSort (NotAfter (Better descending))) := by
  refine Loop.run_rule dedupStep_decreases
    (DedupInvariant (v.insertionSort (NotAfter (Better descending)))) (· = _)
    (fun c next h hs => dedupStep_invariant h hs) ?_ ⟨le_rfl, by simp⟩
  rintro c result ⟨-, hv⟩ hs
  simp only [dedupStep] at hs
  split at hs
  · rename_i hnone
    cases hs
    rw [hv, List.drop_eq_nil_of_le (List.getElem?_eq_none_iff.mp hnone)]
    simp [keepLast]
  · cases hs

theorem sortBestFirstLastWins_ordered (descending : Bool) (v : List Level) :
    Ordered (Better descending) (sortBestFirstLastWins descending v) := by
  rw [sortBestFirstLastWins_eq]
  exact ordered_keepLast (notAfter_insertionSort v)

theorem assign_sortBestFirstLastWins (descending : Bool) (f : Int → Int) (v : List Level) :
    assign f (sortBestFirstLastWins descending v) = assign f v := by
  rw [sortBestFirstLastWins_eq, assign_keepLast, assign_insertionSort]

theorem mem_of_mem_sortBestFirstLastWins {descending : Bool} {v : List Level} {l : Level}
    (h : l ∈ sortBestFirstLastWins descending v) : l ∈ v := by
  rw [sortBestFirstLastWins_eq] at h
  exact (List.mem_insertionSort _).mp (mem_of_mem_keepLast h)

end LastWinsSort

section Merge

theorem foldl_pushUnlessZero (scratch us : List Level) :
    us.foldl pushUnlessZero scratch = scratch ++ us.filter fun u => ¬ Entry.val u = 0 := by
  induction us generalizing scratch with
  | nil => simp
  | cons u us ih =>
    rw [List.foldl_cons, ih]
    by_cases hu : u.qty = 0 <;> simp [pushUnlessZero, Entry.val, hu]

/-- What has been pushed lies before everything still to be merged, and assigning it over
the merge of the remainders gives the target map. -/
structure DeltaMergeInvariant (descending : Bool) (target : Int → Int) (c : MergeCursor) :
    Prop where
  existing : Ordered (Better descending) (c.scratch ++ c.existing)
  updates : Ordered (Better descending) (c.scratch ++ c.updates)
  target : assign (assign (valueAt c.existing) c.updates) c.scratch = target

theorem DeltaMergeInvariant.push {descending : Bool} {target : Int → Int}
    {es us scratch : List Level}
    {u : Level} (hes : Ordered (Better descending) (scratch ++ u :: es))
    (hus : Ordered (Better descending) (scratch ++ u :: us))
    (ht : assign (assign (Function.update (valueAt es) u.px u.qty) us) scratch = target) :
    DeltaMergeInvariant descending target ⟨es, us, pushUnlessZero scratch u⟩ := by
  have hkeys : ∀ {xs : List Level}, Ordered (Better descending) (scratch ++ u :: xs) →
      ∀ x ∈ xs, Entry.key x ≠ Entry.key u := fun h => Ordered.ne_of_before h.after_of_append
  by_cases hu : u.qty = 0
  · have hskip : pushUnlessZero scratch u = scratch := by simp [pushUnlessZero, hu]
    have hsub : ∀ xs : List Level, (scratch ++ xs).Sublist (scratch ++ u :: xs) := fun xs =>
      (List.sublist_cons_self u xs).append_left scratch
    have hzero : Function.update (valueAt es) u.px u.qty = valueAt es := by
      rw [hu, Function.update_eq_self_iff]
      exact (valueAt_eq_zero (hkeys hes)).symm
    rw [hskip]
    exact ⟨hes.sublist (hsub es), hus.sublist (hsub us), by rw [← ht, hzero]⟩
  · have hpush : pushUnlessZero scratch u = scratch ++ [u] := by simp [pushUnlessZero, hu]
    rw [hpush]
    refine ⟨by simpa using hes, by simpa using hus, ?_⟩
    have hscratch : ∀ s ∈ scratch, Entry.key s ≠ Entry.key u :=
      Ordered.ne_of_after hus.before_of_append
    have hswap := update_assign (f := assign (valueAt es) us) hscratch
    rw [update_assign (hkeys hus)] at hswap
    rw [assign_append, assign_cons, assign_nil, hswap]
    exact ht

theorem deltaMergeStep_invariant {descending : Bool} {target : Int → Int} {c next : MergeCursor}
    (h : DeltaMergeInvariant descending target c) (hs : deltaMergeStep descending c = .inl next) :
    DeltaMergeInvariant descending target next := by
  obtain ⟨es, us, scratch⟩ := c
  cases es with
  | nil => cases hs
  | cons e es =>
    cases us with
    | nil => cases hs
    | cons u us =>
      obtain ⟨hes, hus, ht⟩ := h
      dsimp only at hes hus ht
      simp only [deltaMergeStep] at hs
      cases hs
      split_ifs with heq hbetter
      · apply DeltaMergeInvariant.push (hes.replace heq) hus
        rw [← ht, assign_cons, valueAt_cons]
        simp only [Entry.key, Entry.val, heq, Function.update_idem]
      · have hus' := hus.insert hes.before_of_append (hus.before_all hbetter)
        refine ⟨by simpa using hes, by simpa using hus', ?_⟩
        have hscratch := Ordered.ne_of_after hes.before_of_append
        have hupd := Ordered.ne_of_before hus'.after_of_append
        rw [assign_append, assign_cons, assign_nil, update_assign hscratch, update_assign hupd,
          ← valueAt_cons]
        exact ht
      · have hlt : Better descending u.px e.px :=
          ((trichotomous_of (Better descending) e.px u.px).resolve_left hbetter).resolve_left heq
        exact DeltaMergeInvariant.push (hes.insert hus.before_of_append (hes.before_all hlt)) hus ht

theorem deltaMergeStep_inr {descending : Bool} {es us scratch result : List Level}
    (hs : deltaMergeStep descending ⟨es, us, scratch⟩ = .inr result) :
    (es = [] ∨ us = []) ∧ result = scratch ++ es ++ us.filter fun u => ¬ Entry.val u = 0 := by
  cases es with
  | nil => cases hs; exact ⟨Or.inl rfl, foldl_pushUnlessZero _ _⟩
  | cons e es =>
    cases us with
    | nil => cases hs; exact ⟨Or.inr rfl, foldl_pushUnlessZero _ _⟩
    | cons u us => cases hs

theorem deltaMergeStep_done {descending : Bool} {target : Int → Int} {c : MergeCursor}
    {result : List Level} (h : DeltaMergeInvariant descending target c)
    (hs : deltaMergeStep descending c = .inr result) :
    Ordered (Better descending) result ∧ valueAt result = target := by
  obtain ⟨es, us, scratch⟩ := c
  obtain ⟨hes, hus, ht⟩ := h
  dsimp only at hes hus ht
  obtain ⟨hempty, rfl⟩ := deltaMergeStep_inr hs
  rcases hempty with rfl | rfl
  · have hfilter := List.filter_sublist (p := fun u : Level => ¬ Entry.val u = 0) (l := us)
    have hus' : Ordered (Better descending) us := (List.pairwise_append.mp hus).2.1
    have hordered := hus.sublist (hfilter.append_left scratch)
    rw [List.append_nil]
    refine ⟨hordered, ?_⟩
    rw [Ordered.valueAt_append hordered, hus'.valueAt_filter_ne_zero, ← hus'.assign_valueAt]
    exact ht
  · rw [List.filter_nil, List.append_nil]
    exact ⟨hes, (Ordered.valueAt_append hes).trans ht⟩

def DeltaMergePositive (c : MergeCursor) : Prop :=
  (∀ l ∈ c.scratch ++ c.existing, 0 < l.px ∧ 0 < l.qty) ∧ ∀ u ∈ c.updates, u.Admissible

theorem mem_pushUnlessZero {scratch : List Level} {u l : Level} (hu : u.Admissible)
    (hl : l ∈ pushUnlessZero scratch u) : l ∈ scratch ∨ 0 < l.px ∧ 0 < l.qty := by
  unfold pushUnlessZero at hl
  split_ifs at hl with hq
  · rcases List.mem_append.mp hl with hl | hl
    · exact Or.inl hl
    · rw [List.mem_singleton.mp hl]
      exact Or.inr ⟨hu.1, lt_of_le_of_ne hu.2 (Ne.symm hq)⟩
  · exact Or.inl hl

theorem deltaMergeStep_positive {descending : Bool} {c next : MergeCursor}
    (h : DeltaMergePositive c) (hs : deltaMergeStep descending c = .inl next) :
    DeltaMergePositive next := by
  obtain ⟨es, us, scratch⟩ := c
  obtain ⟨hlevels, hupdates⟩ := h
  cases es with
  | nil => cases hs
  | cons e es =>
    cases us with
    | nil => cases hs
    | cons u us =>
      obtain ⟨hu, hus⟩ := List.forall_mem_cons.mp hupdates
      obtain ⟨hscratch, he, hes⟩ := (List.forall_mem_append.mp hlevels).imp_right
        List.forall_mem_cons.mp
      have hpush : ∀ l ∈ pushUnlessZero scratch u, 0 < l.px ∧ 0 < l.qty := fun l hl =>
        (mem_pushUnlessZero hu hl).elim (hscratch l) id
      simp only [deltaMergeStep] at hs
      cases hs
      split_ifs
      · exact ⟨List.forall_mem_append.mpr ⟨hpush, hes⟩, hus⟩
      · exact ⟨by simpa using hlevels, hupdates⟩
      · exact ⟨List.forall_mem_append.mpr ⟨hpush, List.forall_mem_cons.mpr ⟨he, hes⟩⟩, hus⟩

theorem deltaMergeStep_done_positive {descending : Bool} {c : MergeCursor} {result : List Level}
    (h : DeltaMergePositive c) (hs : deltaMergeStep descending c = .inr result) :
    ∀ l ∈ result, 0 < l.px ∧ 0 < l.qty := by
  obtain ⟨es, us, scratch⟩ := c
  obtain ⟨-, rfl⟩ := deltaMergeStep_inr hs
  intro l hl
  rcases List.mem_append.mp hl with hl | hl
  · exact h.1 l hl
  · obtain ⟨hmem, hq⟩ := List.mem_filter.mp hl
    obtain ⟨hpx, hqty⟩ := h.2 l hmem
    exact ⟨hpx, lt_of_le_of_ne hqty fun he => of_decide_eq_true hq he.symm⟩

theorem mergeDeltas_spec {descending : Bool} {levels deltas : List Level}
    (hl : BestFirst descending levels) (hd : Ordered (Better descending) deltas)
    (hadm : ∀ l ∈ deltas, l.Admissible) :
    BestFirst descending (mergeDeltas descending levels deltas) ∧
      valueAt (mergeDeltas descending levels deltas) = assign (valueAt levels) deltas := by
  have hmap := Loop.run_rule (deltaMergeStep_decreases descending)
    (DeltaMergeInvariant descending (assign (valueAt levels) deltas)) _
    (fun _ _ => deltaMergeStep_invariant) (fun _ _ => deltaMergeStep_done)
    (s := ⟨levels, deltas, []⟩) ⟨hl.ordered, hd, rfl⟩
  have hpos := Loop.run_rule (deltaMergeStep_decreases descending) DeltaMergePositive _
    (fun _ _ => deltaMergeStep_positive) (fun _ _ => deltaMergeStep_done_positive)
    (s := ⟨levels, deltas, []⟩) ⟨hl.positive, hadm⟩
  exact ⟨⟨hmap.1, hpos⟩, hmap.2⟩

end Merge

namespace SideBook
variable {descending : Bool}

theorem lowerBound_split {levels : List Level} (h : Ordered (Better descending) levels) (px : Int) :
    ∃ pre post, levels = pre ++ post ∧ (∀ l ∈ pre, Better descending l.px px) ∧
      (∀ l ∈ post, ¬ Better descending l.px px) ∧
      Bisect.lowerBound (fun l : Level => Better descending l.px px) levels = pre.length := by
  have hsplit : ∃ pre post, levels = pre ++ post ∧ (∀ l ∈ pre, Better descending l.px px) ∧
      ∀ l ∈ post, ¬ Better descending l.px px := by
    induction levels with
    | nil => exact ⟨[], [], rfl, by simp, by simp⟩
    | cons l levels ih =>
      obtain ⟨hl, hlevels⟩ := ordered_cons.mp h
      by_cases hb : Better descending l.px px
      · obtain ⟨pre, post, rfl, hpre, hpost⟩ := ih hlevels
        exact ⟨l :: pre, post, rfl, List.forall_mem_cons.mpr ⟨hb, hpre⟩, hpost⟩
      · refine ⟨[], l :: levels, rfl, by simp, List.forall_mem_cons.mpr ⟨hb, fun x hx hbx => ?_⟩⟩
        exact hb (trans_of (Better descending) (hl x hx) hbx)
  obtain ⟨pre, post, rfl, hpre, hpost⟩ := hsplit
  exact ⟨pre, post, rfl, hpre, hpost,
    Bisect.lowerBound_append (by simpa using hpre) (by simpa using hpost)⟩

theorem insertIdx_length_append {α : Type*} (pre post : List α) (a : α) :
    (pre ++ post).insertIdx pre.length a = pre ++ a :: post := by
  induction pre with
  | nil => rfl
  | cons b pre ih => simpa using ih

theorem apply_spec {book : SideBook descending} (h : book.Invariant) {px qty : Int}
    (hpx : 0 < px) (hqty : 0 ≤ qty) :
    (book.apply px qty).Invariant ∧
      (book.apply px qty).resting = Function.update book.resting px qty := by
  obtain ⟨levels⟩ := book
  obtain ⟨hord, hpos⟩ := h
  obtain ⟨pre, post, hlevels, hpre, hpost, hit⟩ := lowerBound_split hord px
  dsimp only at hord hpos hlevels
  subst hlevels
  have hne : ∀ l ∈ pre, l.px ≠ px :=
    @Ordered.ne_of_after Level Int Int _ (Better descending) _ _ px hpre
  have hget : (pre ++ post)[pre.length]? = post.head? := by
    rw [List.getElem?_append_right le_rfl, Nat.sub_self, List.head?_eq_getElem?]
  simp only [apply, hit, hget, resting]
  by_cases hmatch : ∃ x rest, post = x :: rest ∧ x.px = px
  · -- The price is resting: delete its level, or overwrite the quantity in place.
    obtain ⟨x, rest, rfl, rfl⟩ := hmatch
    rw [if_pos (by simp)]
    have hrest : ∀ l ∈ rest, l.px ≠ x.px :=
      @Ordered.ne_of_before Level Int Int _ (Better descending) _ _ x.px hord.after_of_append
    split_ifs with hq
    · rw [List.eraseIdx_append_of_length_le le_rfl, Nat.sub_self, List.eraseIdx_cons_zero]
      have hsub := (List.sublist_cons_self x rest).append_left pre
      refine ⟨⟨hord.sublist hsub, fun l hl => hpos l (hsub.subset hl)⟩, ?_⟩
      apply valueAt_append_update hne
      rw [valueAt_cons, hq, eq_comm]
      simp only [Entry.key, Function.update_idem, Function.update_eq_self_iff]
      exact (valueAt_eq_zero hrest).symm
    · have hmodify : (pre ++ x :: rest).modify pre.length (fun level => { level with qty := qty }) =
          pre ++ ⟨x.px, qty⟩ :: rest := by simp [List.modify_eq_take_drop]
      rw [hmodify]
      refine ⟨⟨hord.replace rfl, fun l hl => ?_⟩, valueAt_append_update hne ?_⟩
      · rcases List.mem_append.mp hl with hl | hl
        · exact hpos l (List.mem_append_left _ hl)
        · rcases List.mem_cons.mp hl with rfl | hl
          · exact ⟨hpx, lt_of_le_of_ne hqty (Ne.symm hq)⟩
          · exact hpos l (List.mem_append_right _ (List.mem_cons_of_mem _ hl))
      · rw [valueAt_cons, valueAt_cons]
        exact (Function.update_idem ..).symm
  · -- Nothing rests at the price: insert unless there is nothing to insert.
    have hafter : ∀ l ∈ post, Better descending px l.px := by
      cases post with
      | nil => simp
      | cons x post =>
        have hx : Better descending px x.px :=
          ((trichotomous_of (Better descending) x.px px).resolve_left
            (hpost x List.mem_cons_self)).resolve_left fun he => hmatch ⟨x, post, rfl, he⟩
        exact hord.before_all (a := ⟨px, qty⟩) hx
    have hnone : (post.head?.any fun level => decide (level.px = px)) = false := by
      cases post with
      | nil => rfl
      | cons x post => exact decide_eq_false fun he => hmatch ⟨x, post, rfl, he⟩
    rw [if_neg (by rw [hnone]; exact Bool.false_ne_true)]
    have hpost' : ∀ l ∈ post, Entry.key l ≠ px :=
      @Ordered.ne_of_before Level Int Int _ (Better descending) _ _ px hafter
    have hzero : valueAt post px = 0 := valueAt_eq_zero hpost'
    split_ifs with hq
    · rw [insertIdx_length_append]
      refine ⟨⟨hord.insert hpre hafter, fun l hl => ?_⟩, valueAt_append_update hne ?_⟩
      · rcases List.mem_append.mp hl with hl | hl
        · exact hpos l (List.mem_append_left _ hl)
        · rcases List.mem_cons.mp hl with rfl | hl
          · exact ⟨hpx, lt_of_le_of_ne hqty (Ne.symm hq)⟩
          · exact hpos l (List.mem_append_right _ hl)
      · exact valueAt_cons _ _
    · refine ⟨⟨hord, hpos⟩, valueAt_append_update hne ?_⟩
      rw [not_not.mp hq, eq_comm, Function.update_eq_self_iff, hzero]

theorem applyEach_spec {book : SideBook descending} (h : book.Invariant) {deltas : List Level}
    (hd : ∀ l ∈ deltas, l.Admissible) :
    (book.applyEach deltas).Invariant ∧
      (book.applyEach deltas).resting = assign book.resting deltas := by
  induction deltas generalizing book with
  | nil => exact ⟨h, rfl⟩
  | cons l deltas ih =>
    obtain ⟨hl, hdeltas⟩ := List.forall_mem_cons.mp hd
    obtain ⟨hinv, hrest⟩ := apply_spec h hl.1 hl.2
    obtain ⟨hinv', hrest'⟩ := ih hinv hdeltas
    refine ⟨hinv', hrest'.trans ?_⟩
    rw [hrest]
    rfl

theorem applyBatch_spec {book : SideBook descending} (h : book.Invariant) {deltas : List Level}
    (hd : ∀ l ∈ deltas, l.Admissible) :
    (book.applyBatch deltas).Invariant ∧
      (book.applyBatch deltas).resting = assign book.resting deltas := by
  unfold applyBatch
  split_ifs with hempty hsmall
  · exact ⟨h, by rw [hempty, assign_nil]⟩
  · exact applyEach_spec h hd
  · obtain ⟨hinv, hrest⟩ := mergeDeltas_spec h (sortBestFirstLastWins_ordered descending deltas)
      fun l hl => hd l (mem_of_mem_sortBestFirstLastWins hl)
    exact ⟨hinv, hrest.trans (assign_sortBestFirstLastWins descending _ deltas)⟩

theorem replace_spec (book : SideBook descending) {levels : List Level}
    (hd : ∀ l ∈ levels, l.Admissible) :
    (book.replace levels).Invariant ∧
      (book.replace levels).resting = assign (fun _ => 0) levels := by
  have hsort := sortBestFirstLastWins_ordered descending levels
  refine ⟨⟨hsort.sublist List.filter_sublist, fun l hl => ?_⟩, ?_⟩
  · obtain ⟨hmem, hq⟩ := List.mem_filter.mp hl
    obtain ⟨hpx, hqty⟩ := hd l (mem_of_mem_sortBestFirstLastWins hmem)
    exact ⟨hpx, lt_of_le_of_ne hqty fun he => of_decide_eq_true hq he.symm⟩
  · rw [← assign_sortBestFirstLastWins descending, hsort.assign_valueAt]
    exact hsort.valueAt_filter_ne_zero

theorem before_all_iff_head {levels : List Level} (h : Ordered (Better descending) levels)
    (px : Int) :
    (∀ l ∈ levels, Better descending px l.px) ↔ ∀ l ∈ levels.head?, Better descending px l.px := by
  cases levels with
  | nil => simp
  | cons x levels =>
    refine ⟨fun hall l hl => hall l (List.mem_of_mem_head? hl), fun hhead => ?_⟩
    have hsplit : Ordered (Better descending) ([] ++ x :: levels) := h
    exact hsplit.before_all (a := ⟨px, 0⟩) (hhead x rfl)

theorem invariantFrom_iff {previous : Option Level} {levels : List Level} :
    invariantFrom descending previous levels = true ↔
      BestFirst descending levels ∧
        ∀ p ∈ previous, ∀ l ∈ levels.head?, Better descending p.px l.px := by
  induction levels generalizing previous with
  | nil => simpa [invariantFrom] using ⟨List.Pairwise.nil, by simp⟩
  | cons l levels ih =>
    have hcons : BestFirst descending (l :: levels) ↔ (0 < l.qty ∧ 0 < l.px) ∧
        BestFirst descending levels ∧ ∀ x ∈ levels.head?, Better descending l.px x.px := by
      constructor
      · rintro ⟨hord, hpos⟩
        obtain ⟨hl, hlevels⟩ := ordered_cons.mp hord
        obtain ⟨⟨hpx, hqty⟩, hpos'⟩ := List.forall_mem_cons.mp hpos
        exact ⟨⟨hqty, hpx⟩, ⟨hlevels, hpos'⟩, (before_all_iff_head hlevels _).mp hl⟩
      · rintro ⟨⟨hqty, hpx⟩, ⟨hlevels, hpos⟩, hhead⟩
        exact ⟨ordered_cons.mpr ⟨(before_all_iff_head hlevels _).mpr hhead, hlevels⟩,
          List.forall_mem_cons.mpr ⟨⟨hpx, hqty⟩, hpos⟩⟩
    have hany : (previous.any fun p => ¬ Better descending p.px l.px) = true ↔
        ¬ ∀ p ∈ previous, Better descending p.px l.px := by
      cases previous <;> simp
    simp only [invariantFrom, hany, hcons, List.head?_cons, Option.mem_some_iff, forall_eq']
    split_ifs with hsign hprev
    · simp only [false_iff]
      rintro ⟨⟨⟨hqty, hpx⟩, -⟩, -⟩
      omega
    · rw [ih]
      simp only [Option.mem_some_iff, forall_eq']
      exact ⟨fun h => ⟨⟨by omega, h⟩, hprev⟩, fun h => h.1.2⟩
    · simp only [false_iff]
      exact fun h => hprev h.2

theorem invariant_iff (book : SideBook descending) :
    book.invariant = true ↔ book.Invariant := by
  rw [invariant, invariantFrom_iff]
  simp [Invariant]

/-- On a side whose check passes, the batched path and the one-at-a-time path leave the
same levels, keep the check passing, and both are the last-wins map update. -/
theorem applyBatch_eq_applyEach (book : SideBook descending) (h : book.invariant = true)
    (deltas : List Level) (hd : ∀ l ∈ deltas, 0 < l.px ∧ 0 ≤ l.qty) :
    (book.applyBatch deltas).levels = (book.applyEach deltas).levels ∧
      (book.applyBatch deltas).invariant = true ∧ (book.applyEach deltas).invariant = true ∧
      (book.applyBatch deltas).resting = assign book.resting deltas ∧
      (book.applyEach deltas).resting = assign book.resting deltas := by
  rw [invariant_iff] at h
  obtain ⟨hbatch, hbatchMap⟩ := applyBatch_spec h hd
  obtain ⟨heach, heachMap⟩ := applyEach_spec h hd
  have hext : (book.applyBatch deltas).levels = (book.applyEach deltas).levels :=
    Ordered.ext hbatch.ordered heach.ordered (fun l hl => (hbatch.positive l hl).2.ne')
      (fun l hl => (heach.positive l hl).2.ne') (hbatchMap.trans heachMap.symm)
  exact ⟨hext, (invariant_iff _).mpr hbatch, (invariant_iff _).mpr heach, hbatchMap, heachMap⟩

theorem applyBatch_eq_applyEach_repeated :
    let book : SideBook true := ⟨[⟨101, 2⟩, ⟨100, 1⟩]⟩
    let deltas : List Level := [⟨100, 0⟩, ⟨99, 4⟩, ⟨101, 0⟩, ⟨99, 0⟩, ⟨101, 7⟩, ⟨98, 1⟩, ⟨100, 0⟩,
      ⟨102, 5⟩, ⟨98, 3⟩]
    (book.applyBatch deltas).levels = (book.applyEach deltas).levels ∧
      (book.applyBatch deltas).levels = [⟨102, 5⟩, ⟨101, 7⟩, ⟨98, 3⟩] :=
  ⟨(applyBatch_eq_applyEach _ (by decide) _ (by decide)).1, by decide⟩

end SideBook
end CexAggregator
