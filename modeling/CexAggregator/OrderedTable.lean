import Mathlib.Data.List.Sort
import Mathlib.Data.List.Induction
import Mathlib.Logic.Function.Basic
import Mathlib.Algebra.Group.Defs

/-!
# Finite maps kept as strictly ordered lists

A list of entries, each with a key and a value, reads as a total map in which an
absent key has value zero. Strictly ordered lists without zero values are the
unique representatives of their maps. `assign` is the map update "set every
listed key to its value, the last listing wins"; sorting stably and keeping the
last entry of each run of equal keys does not change it, and neither does
overlaying one ordered list on another.
-/

namespace CexAggregator.OrderedTable

class Entry (α : Type*) (κ V : outParam Type*) where
  key : α → κ
  val : α → V
  ext_entry : ∀ a b : α, key a = key b → val a = val b → a = b

open Entry

variable {α κ V : Type*} [Entry α κ V] [DecidableEq κ]

section Lookup

variable [Zero V]

def valueAt : List α → κ → V
  | [], _ => 0
  | a :: as, k => if key a = k then val a else valueAt as k

@[simp] theorem valueAt_nil (k : κ) : valueAt ([] : List α) k = 0 := rfl

theorem valueAt_cons (a : α) (as : List α) :
    valueAt (a :: as) = Function.update (valueAt as) (key a) (val a) := by
  funext k
  simp [valueAt, Function.update_apply, eq_comm]

theorem valueAt_append_of_ne {as bs : List α} {k : κ} (h : ∀ a ∈ as, key a ≠ k) :
    valueAt (as ++ bs) k = valueAt bs k := by
  induction as with
  | nil => rfl
  | cons a as ih =>
    simp only [List.cons_append, valueAt, h a List.mem_cons_self, ↓reduceIte]
    exact ih fun b hb => h b (List.mem_cons_of_mem _ hb)

theorem valueAt_append_update {as bs bs' : List α} {k : κ} {v : V} (h : ∀ a ∈ as, key a ≠ k)
    (hbs : valueAt bs' = Function.update (valueAt bs) k v) :
    valueAt (as ++ bs') = Function.update (valueAt (as ++ bs)) k v := by
  induction as with
  | nil => exact hbs
  | cons a as ih =>
    rw [List.cons_append, List.cons_append, valueAt_cons, valueAt_cons,
      ih fun b hb => h b (List.mem_cons_of_mem _ hb), Function.update_comm (h a List.mem_cons_self)]

theorem valueAt_eq_zero {as : List α} {k : κ} (h : ∀ a ∈ as, key a ≠ k) : valueAt as k = 0 := by
  simpa using (valueAt_append_of_ne h : valueAt (as ++ []) k = valueAt [] k)

theorem exists_of_valueAt_ne_zero {as : List α} {k : κ} (h : valueAt as k ≠ 0) :
    ∃ a ∈ as, key a = k ∧ val a = valueAt as k := by
  induction as with
  | nil => exact (h rfl).elim
  | cons a as ih =>
    by_cases hk : key a = k
    · exact ⟨a, List.mem_cons_self, hk, by simp [valueAt, hk]⟩
    · simp only [valueAt, hk, ↓reduceIte] at h ⊢
      obtain ⟨b, hb, hkey, hval⟩ := ih h
      exact ⟨b, List.mem_cons_of_mem _ hb, hkey, hval⟩

end Lookup

def assign (f : κ → V) (as : List α) : κ → V :=
  as.foldl (fun g a => Function.update g (key a) (val a)) f

@[simp] theorem assign_nil (f : κ → V) : assign f ([] : List α) = f := rfl

@[simp] theorem assign_cons (f : κ → V) (a : α) (as : List α) :
    assign f (a :: as) = assign (Function.update f (key a) (val a)) as := rfl

theorem assign_append (f : κ → V) (as bs : List α) :
    assign f (as ++ bs) = assign (assign f as) bs := List.foldl_append

theorem update_assign {f : κ → V} {as : List α} {a : α} (h : ∀ b ∈ as, key b ≠ key a) :
    Function.update (assign f as) (key a) (val a) =
      assign (Function.update f (key a) (val a)) as := by
  induction as generalizing f with
  | nil => rfl
  | cons b as ih =>
    rw [assign_cons, assign_cons, ih fun c hc => h c (List.mem_cons_of_mem _ hc),
      Function.update_comm (h b List.mem_cons_self)]

theorem assign_comm {as bs : List α} (h : ∀ a ∈ as, ∀ b ∈ bs, key a ≠ key b) (f : κ → V) :
    assign (assign f as) bs = assign (assign f bs) as := by
  induction as generalizing f with
  | nil => rfl
  | cons a as ih =>
    have ha : ∀ b ∈ bs, key b ≠ key a := fun b hb => (h a List.mem_cons_self b hb).symm
    rw [assign_cons, ih (fun c hc => h c (List.mem_cons_of_mem _ hc)), ← update_assign ha,
      assign_cons]

theorem assign_of_ne {f : κ → V} {as : List α} {k : κ} (h : ∀ a ∈ as, key a ≠ k) :
    assign f as k = f k := by
  induction as generalizing f with
  | nil => rfl
  | cons a as ih =>
    rw [assign_cons, ih fun b hb => h b (List.mem_cons_of_mem _ hb),
      Function.update_of_ne (h a List.mem_cons_self).symm]

theorem assign_of_listed {f : κ → V} {as : List α} {k : κ} {v : V}
    (hlisted : ∃ a ∈ as, key a = k) (hval : ∀ a ∈ as, key a = k → val a = v) :
    assign f as k = v := by
  induction as using List.reverseRecOn generalizing f with
  | nil => obtain ⟨a, ha, -⟩ := hlisted; exact (List.not_mem_nil ha).elim
  | append_singleton as a ih =>
    simp only [assign_append, assign_cons, assign_nil]
    by_cases hk : key a = k
    · rw [← hk, Function.update_self]
      exact hval a (by simp) hk
    · rw [Function.update_of_ne (Ne.symm hk)]
      obtain ⟨b, hb, hkb⟩ := hlisted
      rcases List.mem_append.mp hb with hb | hb
      · exact ih ⟨b, hb, hkb⟩ fun c hc => hval c (List.mem_append_left _ hc)
      · rw [List.mem_singleton.mp hb] at hkb
        exact (hk hkb).elim

section Order

variable (before : κ → κ → Prop)

def Ordered (as : List α) : Prop := as.Pairwise fun a b => before (key a) (key b)

instance [DecidableRel before] (as : List α) : Decidable (Ordered before as) :=
  inferInstanceAs (Decidable (as.Pairwise fun a b => before (key a) (key b)))

variable {before}

omit [DecidableEq κ] in
theorem ordered_cons {a : α} {as : List α} :
    Ordered before (a :: as) ↔ (∀ b ∈ as, before (key a) (key b)) ∧ Ordered before as :=
  List.pairwise_cons

omit [DecidableEq κ] in
theorem Ordered.ne_of_before [Std.Irrefl before] {as : List α} {k : κ}
    (h : ∀ a ∈ as, before k (key a)) : ∀ a ∈ as, key a ≠ k :=
  fun a ha he => irrefl_of before k (he ▸ h a ha)

omit [DecidableEq κ] in
theorem Ordered.ne_of_after [Std.Irrefl before] {as : List α} {k : κ}
    (h : ∀ a ∈ as, before (key a) k) : ∀ a ∈ as, key a ≠ k :=
  fun a ha he => irrefl_of before k (he ▸ h a ha)

omit [DecidableEq κ] in
theorem Ordered.before_of_append {as bs : List α} {a : α}
    (h : Ordered before (as ++ a :: bs)) : ∀ b ∈ as, before (key b) (key a) :=
  fun b hb => (List.pairwise_append.mp h).2.2 b hb a List.mem_cons_self

omit [DecidableEq κ] in
theorem Ordered.after_of_append {as bs : List α} {a : α}
    (h : Ordered before (as ++ a :: bs)) : ∀ b ∈ bs, before (key a) (key b) :=
  (ordered_cons.mp (List.pairwise_append.mp h).2.1).1

omit [DecidableEq κ] in
theorem Ordered.replace {as bs : List α} {a b : α} (h : Ordered before (as ++ a :: bs))
    (hab : key a = key b) : Ordered before (as ++ b :: bs) := by
  obtain ⟨has, hbs, hcross⟩ := List.pairwise_append.mp h
  obtain ⟨ha, htail⟩ := ordered_cons.mp hbs
  refine List.pairwise_append.mpr ⟨has, ordered_cons.mpr ⟨hab ▸ ha, htail⟩, fun c hc d hd => ?_⟩
  rcases List.mem_cons.mp hd with rfl | hd
  · exact hab ▸ hcross c hc a List.mem_cons_self
  · exact hcross c hc d (List.mem_cons_of_mem _ hd)

omit [DecidableEq κ] in
theorem Ordered.before_all [IsTrans κ before] {as bs : List α} {a b : α}
    (h : Ordered before (as ++ b :: bs)) (hab : before (key a) (key b)) :
    ∀ c ∈ b :: bs, before (key a) (key c) :=
  List.forall_mem_cons.mpr ⟨hab, fun c hc => trans_of before hab (h.after_of_append c hc)⟩

omit [DecidableEq κ] in
theorem Ordered.insert {as bs : List α} {a : α} (h : Ordered before (as ++ bs))
    (has : ∀ c ∈ as, before (key c) (key a)) (hbs : ∀ c ∈ bs, before (key a) (key c)) :
    Ordered before (as ++ a :: bs) := by
  obtain ⟨hpre, hpost, hcross⟩ := List.pairwise_append.mp h
  refine List.pairwise_append.mpr ⟨hpre, ordered_cons.mpr ⟨hbs, hpost⟩, fun c hc d hd => ?_⟩
  rcases List.mem_cons.mp hd with rfl | hd
  · exact has c hc
  · exact hcross c hc d hd

theorem Ordered.valueAt_of_mem [Zero V] [Std.Irrefl before] {as : List α}
    (h : Ordered before as) {a : α} (ha : a ∈ as) : valueAt as (key a) = val a := by
  induction as with
  | nil => exact (List.not_mem_nil ha).elim
  | cons b as ih =>
    obtain ⟨hb, has⟩ := ordered_cons.mp h
    rcases List.mem_cons.mp ha with rfl | ha
    · simp [valueAt]
    · have hne : key b ≠ key a := (Ordered.ne_of_before hb a ha).symm
      simpa only [valueAt, hne, ↓reduceIte] using ih has ha

theorem Ordered.assign_valueAt [Zero V] [Std.Irrefl before] {as : List α}
    (h : Ordered before as) : assign (fun _ => 0) as = valueAt as := by
  induction as with
  | nil => rfl
  | cons a as ih =>
    obtain ⟨ha, has⟩ := ordered_cons.mp h
    rw [assign_cons, ← update_assign (Ordered.ne_of_before ha), ih has, valueAt_cons]

theorem Ordered.valueAt_append [Zero V] [Std.Irrefl before] {as bs : List α}
    (h : Ordered before (as ++ bs)) : valueAt (as ++ bs) = assign (valueAt bs) as := by
  obtain ⟨-, hbs, hcross⟩ := List.pairwise_append.mp h
  rw [← h.assign_valueAt, assign_append, assign_comm, Ordered.assign_valueAt hbs]
  intro a ha b hb he
  exact irrefl_of before (key b) (he ▸ hcross a ha b hb)

theorem Ordered.valueAt_filter_ne_zero [Zero V] [DecidableEq V] [Std.Irrefl before] {as : List α}
    (h : Ordered before as) : valueAt (as.filter fun a => ¬ val a = 0) = valueAt as := by
  induction as with
  | nil => rfl
  | cons a as ih =>
    obtain ⟨ha, has⟩ := ordered_cons.mp h
    by_cases hv : val a = 0
    · rw [List.filter_cons_of_neg (by simpa using hv), ih has, valueAt_cons, hv,
        eq_comm, Function.update_eq_self_iff]
      exact (valueAt_eq_zero (Ordered.ne_of_before ha)).symm
    · rw [List.filter_cons_of_pos (by simpa using hv), valueAt_cons, ih has, valueAt_cons]

omit [DecidableEq κ] in
theorem Ordered.eq_of_mem_iff [IsStrictTotalOrder κ before] {as bs : List α}
    (ha : Ordered before as) (hb : Ordered before bs) (h : ∀ a, a ∈ as ↔ a ∈ bs) : as = bs := by
  have : Std.Irrefl fun a b : α => before (key a) (key b) := ⟨fun a => irrefl_of before (key a)⟩
  have : Std.Antisymm fun a b : α => before (key a) (key b) :=
    ⟨fun a b hab hba => (irrefl_of before (key a) (trans_of before hab hba)).elim⟩
  exact List.Pairwise.eq_of_mem_iff ha hb h

omit [DecidableEq κ] in
theorem Ordered.filter_prefix {as : List α} {p : α → Bool} (h : Ordered before as)
    (hp : ∀ a b, before (key a) (key b) → p b = true → p a = true) : as.filter p <+: as := by
  induction as with
  | nil => exact List.nil_prefix
  | cons a as ih =>
    obtain ⟨hfirst, hrest⟩ := ordered_cons.mp h
    by_cases ha : p a = true
    · rw [List.filter_cons_of_pos ha]
      exact (List.prefix_cons_inj a).mpr (ih hrest)
    · have hnone : as.filter p = [] :=
        List.filter_eq_nil_iff.mpr fun b hb hpb => ha (hp a b (hfirst b hb) hpb)
      rw [List.filter_cons_of_neg ha, hnone]
      exact List.nil_prefix

theorem Ordered.ext [Zero V] [IsStrictTotalOrder κ before] {as bs : List α}
    (ha : Ordered before as) (hb : Ordered before bs)
    (hna : ∀ a ∈ as, val a ≠ 0) (hnb : ∀ b ∈ bs, val b ≠ 0)
    (h : valueAt as = valueAt bs) : as = bs := by
  have incl : ∀ {xs ys : List α}, Ordered before xs → (∀ x ∈ xs, val x ≠ 0) →
      valueAt xs = valueAt ys → ∀ x ∈ xs, x ∈ ys := by
    intro xs ys hx hnx he x hm
    have hv := hx.valueAt_of_mem hm
    have hy : valueAt ys (key x) = val x := by rw [← he, hv]
    obtain ⟨y, hym, hkey, hval⟩ := exists_of_valueAt_ne_zero (hy ▸ hnx x hm)
    rwa [Entry.ext_entry x y hkey.symm (hy ▸ hval.symm)]
  exact ha.eq_of_mem_iff hb fun x => ⟨incl ha hna h x, incl hb hnb h.symm x⟩

end Order

section LastWins

/-- The last entry of each run of adjacent equal keys. -/
def keepLast : List α → List α
  | [] => []
  | [a] => [a]
  | a :: b :: as => if key a = key b then keepLast (b :: as) else a :: keepLast (b :: as)

theorem keepLast_run {pre rest : List α} {z : α} (hpre : ∀ a ∈ pre, key a = key z)
    (hrest : ∀ b ∈ rest.head?, key z ≠ key b) :
    keepLast (pre ++ z :: rest) = z :: keepLast rest := by
  induction pre with
  | nil =>
    cases rest with
    | nil => rfl
    | cons b rest => rw [List.nil_append, keepLast, if_neg (hrest b rfl)]
  | cons a pre ih =>
    have ha : key a = key z := hpre a List.mem_cons_self
    have hpre' : ∀ b ∈ pre, key b = key z := fun b hb => hpre b (List.mem_cons_of_mem _ hb)
    rw [← ih hpre']
    cases pre with
    | nil => simp [keepLast, ha]
    | cons b pre => simp [keepLast, ha, hpre' b List.mem_cons_self]

theorem mem_of_mem_keepLast {as : List α} {c : α} (h : c ∈ keepLast as) : c ∈ as := by
  induction as using keepLast.induct with
  | case1 => exact h
  | case2 a => exact h
  | case3 a b as hab ih =>
    rw [keepLast, if_pos hab] at h
    exact List.mem_cons_of_mem _ (ih h)
  | case4 a b as hab ih =>
    rw [keepLast, if_neg hab] at h
    rcases List.mem_cons.mp h with rfl | h
    · exact List.mem_cons_self
    · exact List.mem_cons_of_mem _ (ih h)

theorem assign_keepLast (f : κ → V) (as : List α) : assign f (keepLast as) = assign f as := by
  induction as using keepLast.induct generalizing f with
  | case1 => rfl
  | case2 a => rfl
  | case3 a b as hab ih =>
    rw [keepLast, if_pos hab, ih]
    simp only [assign_cons, hab, Function.update_idem]
  | case4 a b as hab ih => rw [keepLast, if_neg hab, assign_cons, ih, assign_cons f a]

variable (before : κ → κ → Prop)

def NotAfter (a b : α) : Prop := ¬ before (key b) (key a)

instance [DecidableRel before] : DecidableRel (NotAfter (α := α) before) :=
  fun a b => inferInstanceAs (Decidable ¬ before (key b) (key a))

variable {before}

omit [DecidableEq κ] in
theorem NotAfter.before_or_eq [IsStrictTotalOrder κ before] {a b : α} (h : NotAfter before a b) :
    before (key a) (key b) ∨ key a = key b := by
  rcases trichotomous_of before (key a) (key b) with hb | he | ha
  · exact Or.inl hb
  · exact Or.inr he
  · exact (h ha).elim

omit [DecidableEq κ] in
theorem ordered_of_notAfter [IsStrictTotalOrder κ before] {as : List α}
    (h : as.Pairwise (NotAfter before)) (hkeys : (as.map key).Nodup) : Ordered before as := by
  refine List.Pairwise.imp₂ (fun a b hab hne => ?_) h (List.pairwise_map.mp hkeys)
  exact hab.before_or_eq.resolve_right hne

theorem ordered_keepLast [IsStrictTotalOrder κ before] {as : List α}
    (h : as.Pairwise (NotAfter before)) : Ordered before (keepLast as) := by
  induction as using keepLast.induct with
  | case1 => exact List.Pairwise.nil
  | case2 a => exact List.pairwise_singleton _ _
  | case3 a b as hab ih =>
    rw [keepLast, if_pos hab]
    exact ih h.of_cons
  | case4 a b as hab ih =>
    rw [keepLast, if_neg hab]
    obtain ⟨ha, hb, -⟩ := (List.pairwise_cons.mp h).imp_right List.pairwise_cons.mp
    have hlt : before (key a) (key b) := ((ha b List.mem_cons_self).before_or_eq).resolve_right hab
    refine ordered_cons.mpr ⟨fun c hc => ?_, ih h.of_cons⟩
    rcases List.mem_cons.mp (mem_of_mem_keepLast hc) with rfl | hc
    · exact hlt
    · rcases (hb c hc).before_or_eq with hbc | hbc
      · exact trans_of before hlt hbc
      · exact hbc ▸ hlt

variable [DecidableRel before]

theorem assign_orderedInsert [Std.Irrefl before] (f : κ → V) (a : α) (as : List α) :
    assign f (as.orderedInsert (NotAfter before) a) = assign f (a :: as) := by
  induction as generalizing f with
  | nil => rfl
  | cons b as ih =>
    rw [List.orderedInsert_cons]
    split_ifs with h
    · rfl
    · have hba : before (key b) (key a) := not_not.mp h
      have hne : key b ≠ key a := fun he => irrefl_of before (key a) (he ▸ hba)
      simp only [assign_cons, ih, Function.update_comm hne]

theorem assign_insertionSort [Std.Irrefl before] (f : κ → V) (as : List α) :
    assign f (as.insertionSort (NotAfter before)) = assign f as := by
  induction as generalizing f with
  | nil => rfl
  | cons a as ih => rw [List.insertionSort_cons, assign_orderedInsert, assign_cons, ih, assign_cons]

omit [DecidableEq κ] in
theorem notAfter_insertionSort [IsStrictTotalOrder κ before] (as : List α) :
    (as.insertionSort (NotAfter before)).Pairwise (NotAfter before) := by
  have : Std.Total (NotAfter (α := α) before) :=
    ⟨fun a b => (em (before (key b) (key a))).symm.imp_right
      fun h h' => irrefl_of before (key a) (trans_of before h' h)⟩
  have : IsTrans α (NotAfter before) := ⟨fun a b c hab hbc hca => by
    rcases hab.before_or_eq with h | h
    · exact hbc (trans_of before hca h)
    · exact hbc (h ▸ hca)⟩
  exact List.pairwise_insertionSort _ as

end LastWins

end CexAggregator.OrderedTable
