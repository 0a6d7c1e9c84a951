import Mathlib.Algebra.Order.BigOperators.Group.LocallyFinite
import Mathlib.Order.Interval.Finset.Fin
import CexAggregator.EngineSystem
import CexAggregator.Machine

/-!
# One pass over the rings

The rings are drained in the order of the venues, with one budget for all of them. Who is
served depends on what the rings before its own have on offer until they are left behind.
-/

namespace CexAggregator

/-- Each takes what it is offered, or all that the ones before it have left of the budget. -/
structure SpentInOrder {ι : Type*} [Fintype ι] [LinearOrder ι] [LocallyFiniteOrderBot ι]
    (budget : ℕ) (offered taken : ι → ℕ) : Prop where
  within : ∑ i, taken i ≤ budget
  bounded : ∀ i, taken i ≤ offered i
  spent : ∀ i, taken i = offered i ∨ ∑ j ∈ Finset.Iic i, taken j = budget

section Budget
variable {ι : Type*} [Fintype ι] [LinearOrder ι] [LocallyFiniteOrderBot ι] {budget : ℕ}
  {offered taken : ι → ℕ}

theorem SpentInOrder.served_iff (h : SpentInOrder budget offered taken) {i : ι}
    (hoffered : offered i ≠ 0) : taken i ≠ 0 ↔ ∑ j ∈ Finset.Iio i, offered j < budget := by
  have hle : ∑ j ∈ Finset.Iio i, taken j ≤ ∑ j ∈ Finset.Iio i, offered j :=
    Finset.sum_le_sum fun j _ => h.bounded j
  have hsum : ∑ j ∈ Finset.Iio i, taken j + taken i = ∑ j ∈ Finset.Iic i, taken j :=
    Finset.sum_Iio_add_eq_sum_Iic i
  constructor
  · intro htaken
    have hbefore : ∑ j ∈ Finset.Iio i, taken j < budget := by
      have htotal : ∑ j ∈ Finset.Iic i, taken j ≤ ∑ j, taken j :=
        Finset.sum_le_sum_of_subset (Finset.subset_univ _)
      have hwithin := h.within
      omega
    have hall : ∀ j ∈ Finset.Iio i, taken j = offered j := by
      intro j hj
      have hpart : ∑ k ∈ Finset.Iic j, taken k ≤ ∑ k ∈ Finset.Iio i, taken k := by
        apply Finset.sum_le_sum_of_subset
        intro k hk
        exact Finset.mem_Iio.mpr ((Finset.mem_Iic.mp hk).trans_lt (Finset.mem_Iio.mp hj))
      rcases h.spent j with heq | hspent
      · exact heq
      · omega
    rwa [Finset.sum_congr rfl hall] at hbefore
  · intro hless hnone
    rcases h.spent i with heq | hspent
    · exact hoffered (heq ▸ hnone)
    · omega

end Budget

/-- A pass under way: what it has taken from the rings and applied, and how many batches each
ring has been given while its turn was not over. -/
structure EnginePass {n : ℕ} (σ : Fin n → Type) where
  system : AggregatorSystem σ
  applied : List (Fin n × FeedBatch) := []
  arrived : Fin n → ℕ := fun _ => 0

namespace EnginePass
variable {n : ℕ} {σ : Fin n → Type}

section Steps
variable (p : (v : Fin n) → VenueProtocol (σ v)) (options : Options) (capacity : ℕ)
  (config : EngineConfig)

def step (s : EnginePass σ) (move : AggregatorMove n) : Option (EnginePass σ) :=
  match s.system.phase, move with
  | .selecting _ _ _, _ => none
  | .draining venue _ _, .venue v _ =>
    let next := s.system.step p options capacity config move
    some
      { s with
        system := next
        arrived :=
          if venue ≤ v then
            Function.update s.arrived v (s.arrived v +
              ((next.venues v).ring.length - (s.system.venues v).ring.length))
          else s.arrived }
  | .draining venue _ _, .engine _ =>
    if h : venue < n then
      let next := s.system.step p options capacity config move
      let before := (s.system.venues ⟨venue, h⟩).ring
      let left := (next.venues ⟨venue, h⟩).ring
      some
        { s with
          system := next
          applied := s.applied ++
            (before.take (before.length - left.length)).map (Prod.mk ⟨venue, h⟩) }
    else none

def ended (s : EnginePass σ) : Bool :=
  match s.system.phase with
  | .draining venue _ _ => n ≤ venue
  | .selecting _ _ _ => true

def taken (s : EnginePass σ) (v : Fin n) : ℕ := (s.applied.map Prod.fst).count v

def offered (start : AggregatorSystem σ) (s : EnginePass σ) (v : Fin n) : ℕ :=
  (start.venues v).ring.length + s.arrived v

end Steps

/-- What has been taken and what is left, by the turn the pass is in. -/
structure Underway (start : AggregatorSystem σ) (s : EnginePass σ) (venue drained : ℕ) : Prop where
  total : s.applied.length = drained
  bounded : drained ≤ kMaxBatchesPerPass
  engine : s.system.engine = s.applied.foldl (fun e x => e.apply x.2) start.engine
  later : ∀ v : Fin n, venue < v → s.taken v = 0
  left : ∀ v : Fin n, venue ≤ v →
    s.taken v + (s.system.venues v).ring.length = offered start s v
  done : ∀ v : Fin n, v < venue → s.taken v ≤ offered start s v ∧
    (s.taken v = offered start s v ∨ ∑ u ∈ Finset.Iic v, s.taken u = kMaxBatchesPerPass)

theorem sum_taken (s : EnginePass σ) : ∑ v, s.taken v = s.applied.length := by
  have hcount := List.sum_toFinset_count_eq_length (s.applied.map Prod.fst)
  rw [List.length_map] at hcount
  rw [← hcount]
  refine (Finset.sum_subset (Finset.subset_univ _) fun v _ hv => ?_).symm
  exact List.count_eq_zero_of_not_mem fun hmem => hv (List.mem_toFinset.mpr hmem)

section Rules
variable {p : (v : Fin n) → VenueProtocol (σ v)} {options : Options} {capacity : ℕ}
  {config : EngineConfig} {start : AggregatorSystem σ} {s t : EnginePass σ} {venue drained : ℕ}
  {changed : Bool}

theorem underway_start (start : AggregatorSystem σ) :
    Underway start { system := start } 0 0 where
  total := rfl
  bounded := Nat.zero_le _
  engine := rfl
  later _ _ := rfl
  left _ _ := Nat.zero_add _
  done _ hv := (Nat.not_lt_zero _ hv).elim

theorem venue_rings (s : AggregatorSystem σ) (v u : Fin n) (move : VenueMove) :
    (s.venues u).ring.length ≤
        ((s.step p options capacity config (.venue v move)).venues u).ring.length ∧
      (u ≠ v → (s.step p options capacity config (.venue v move)).venues u = s.venues u) := by
  by_cases hpop : move = .pop
  · subst hpop
    exact ⟨le_rfl, fun _ => rfl⟩
  · have hstep : s.step p options capacity config (.venue v move) =
        { s with
          venues := Function.update s.venues v
            (((s.venues v).step (p v) options v capacity move).getD (s.venues v)) } := by
      cases move <;> first | rfl | exact (hpop rfl).elim
    rw [hstep]
    refine ⟨?_, fun hne => Function.update_of_ne hne _ _⟩
    by_cases hu : u = v
    · subst hu
      simp only [Function.update_self]
      cases hnext : (s.venues u).step (p u) options u capacity move with
      | none => exact le_rfl
      | some next => exact (VenueSystem.step_ring hpop hnext).length_le
    · simp only [Function.update_of_ne hu, le_refl]

theorem venue_frame (s : AggregatorSystem σ) (v : Fin n) (move : VenueMove) :
    (s.step p options capacity config (.venue v move)).engine = s.engine ∧
      (s.step p options capacity config (.venue v move)).phase = s.phase := by
  cases move <;> exact ⟨rfl, rfl⟩

theorem Underway.venueStep (h : Underway start s venue drained)
    (hphase : s.system.phase = .draining venue drained changed) {v : Fin n} {move : VenueMove}
    (hstep : s.step p options capacity config (.venue v move) = some t) :
    t.system.phase = .draining venue drained changed ∧ Underway start t venue drained := by
  obtain ⟨hengine, hphase'⟩ := @venue_frame _ _ p options capacity config s.system v move
  simp only [EnginePass.step, hphase, Option.some.injEq] at hstep
  subst hstep
  refine ⟨hphase'.trans hphase, h.total, h.bounded, hengine.trans h.engine, h.later, ?_, ?_⟩
  · intro u hu
    have hleft := h.left u hu
    obtain ⟨hgrows, hother⟩ := @venue_rings _ _ p options capacity config s.system v u move
    by_cases huv : u = v
    · subst huv
      simp only [taken, offered, if_pos hu, Function.update_self] at hleft ⊢
      omega
    · have hsame := hother huv
      simp only [taken, offered] at hleft ⊢
      rw [hsame]
      split_ifs
      · rw [Function.update_of_ne huv]
        exact hleft
      · exact hleft
  · intro u hu
    have harrived : (if venue ≤ v then
        Function.update s.arrived v (s.arrived v +
          (((s.system.step p options capacity config (.venue v move)).venues v).ring.length -
            (s.system.venues v).ring.length))
        else s.arrived) u = s.arrived u := by
      split_ifs with hv
      · have hne : u ≠ v := by
          rintro rfl
          omega
        rw [Function.update_of_ne hne]
      · rfl
    have hdone := h.done u hu
    simp only [taken, offered] at hdone ⊢
    rw [harrived]
    exact hdone

theorem taken_snoc (s : EnginePass σ) (system : AggregatorSystem σ) (u v : Fin n)
    (batch : FeedBatch) :
    EnginePass.taken { s with system := system, applied := s.applied ++ [(u, batch)] } v =
      s.taken v + if v = u then 1 else 0 := by
  simp only [taken, List.map_append, List.map_singleton, List.count_append, List.count_singleton,
    beq_iff_eq, eq_comm (a := v)]

theorem Underway.leave (h : Underway start s venue drained) (hvenue : venue < n)
    (hended : (s.system.venues ⟨venue, hvenue⟩).ring = [] ∨ drained = kMaxBatchesPerPass)
    (system : AggregatorSystem σ) (hvenues : system.venues = s.system.venues)
    (hengine : system.engine = s.system.engine) :
    Underway start { s with system := system } (venue + 1) drained where
  total := h.total
  bounded := h.bounded
  engine := hengine.trans h.engine
  later v hv := h.later v (by omega)
  left v hv := by
    simp only [hvenues]
    exact h.left v (by omega)
  done v hv := by
    by_cases hlt : v < venue
    · exact h.done v hlt
    · have hv' : v = ⟨venue, hvenue⟩ := Fin.ext (by simp only; omega)
      have hleft := h.left v (by omega)
      refine ⟨?_, ?_⟩
      · change s.taken v ≤ offered start s v
        omega
      · rcases hended with hempty | hspent
        · left
          rw [hv', hempty, ← hv'] at hleft
          exact hleft
        · right
          have htotal := sum_taken s
          rw [h.total, hspent] at htotal
          rw [← htotal]
          refine Finset.sum_subset (Finset.subset_univ _) fun u _ hu => h.later u ?_
          rw [Finset.mem_Iic, not_le] at hu
          exact Fin.lt_def.mp (hv' ▸ hu)

theorem Underway.pop (h : Underway start s venue drained) (hvenue : venue < n)
    (hroom : drained < kMaxBatchesPerPass) {batch : FeedBatch} {ring : List FeedBatch}
    (hring : (s.system.venues ⟨venue, hvenue⟩).ring = batch :: ring)
    (system : AggregatorSystem σ) (hleft : (system.venues ⟨venue, hvenue⟩).ring = ring)
    (hothers : ∀ v, v ≠ ⟨venue, hvenue⟩ → system.venues v = s.system.venues v)
    (hengine : system.engine = s.system.engine.apply batch) :
    Underway start
      { s with system := system, applied := s.applied ++ [(⟨venue, hvenue⟩, batch)] } venue
      (drained + 1) where
  total := by
    simp only [List.length_append, List.length_singleton, h.total]
  bounded := hroom
  engine := by
    simp only [List.foldl_append, List.foldl_cons, List.foldl_nil, hengine, h.engine]
  later v hv := by
    have hne : v ≠ ⟨venue, hvenue⟩ := fun heq => by
      simp only [heq, Nat.lt_irrefl] at hv
    rw [taken_snoc, if_neg hne]
    exact h.later v hv
  left v hv := by
    have hbefore := h.left v hv
    simp only [offered] at hbefore ⊢
    rw [taken_snoc]
    by_cases heq : v = ⟨venue, hvenue⟩
    · rw [heq, hring, List.length_cons] at hbefore
      rw [if_pos heq, heq, hleft]
      omega
    · rw [if_neg heq, hothers v heq]
      exact hbefore
  done v hv := by
    have hsame : ∀ u ≤ v, EnginePass.taken
        { s with system := system, applied := s.applied ++ [(⟨venue, hvenue⟩, batch)] } u =
          s.taken u := by
      intro u hu
      have hne : u ≠ ⟨venue, hvenue⟩ := by
        rintro rfl
        exact absurd (Fin.le_def.mp hu) (by simpa using hv)
      rw [taken_snoc, if_neg hne, Nat.add_zero]
    obtain ⟨hle, hspent⟩ := h.done v hv
    rw [hsame v le_rfl, Finset.sum_congr rfl fun u hu => hsame u (Finset.mem_Iic.mp hu)]
    exact ⟨hle, hspent⟩

theorem drain_nil {system : AggregatorSystem σ} {v : Fin n} (hring : (system.venues v).ring = []) :
    system.drain v drained changed =
      { system with phase := .draining (v + 1) drained changed } := by
  simp only [AggregatorSystem.drain, hring]

theorem drain_cons {system : AggregatorSystem σ} {v : Fin n} {batch : FeedBatch}
    {ring : List FeedBatch} (hring : (system.venues v).ring = batch :: ring) :
    system.drain v drained changed =
      { system with
        venues := Function.update system.venues v
          { system.venues v with ring := ring, popped := (system.venues v).popped ++ [batch] }
        engine := system.engine.apply batch
        phase := .draining v (drained + 1) true } := by
  simp only [AggregatorSystem.drain, hring]

theorem Underway.engineStep (h : Underway start s venue drained)
    (hphase : s.system.phase = .draining venue drained changed) {reading : EngineReading}
    (hstep : s.step p options capacity config (.engine reading) = some t) :
    ∃ venue drained changed, t.system.phase = .draining venue drained changed ∧ venue ≤ n ∧
      Underway start t venue drained := by
  simp only [EnginePass.step, hphase, Option.dite_none_right_eq_some] at hstep
  obtain ⟨hvenue, heq⟩ := hstep
  cases heq
  have hturn : ∀ next, s.system.step p options capacity config (.engine reading) = next →
      next = if drained < kMaxBatchesPerPass then s.system.drain ⟨venue, hvenue⟩ drained changed
        else { s.system with phase := .draining (venue + 1) drained changed } := by
    rintro next rfl
    simp only [AggregatorSystem.step, AggregatorSystem.engineStep, hphase, dif_pos hvenue]
  rw [hturn _ rfl]
  split_ifs with hroom
  · cases hring : (s.system.venues ⟨venue, hvenue⟩).ring with
    | nil =>
      rw [drain_nil hring]
      refine ⟨venue + 1, drained, changed, rfl, hvenue, ?_⟩
      simpa [hring] using h.leave hvenue (Or.inl hring)
        { s.system with phase := .draining (venue + 1) drained changed } rfl rfl
    | cons batch ring =>
      rw [drain_cons hring]
      refine ⟨venue, drained + 1, true, rfl, hvenue.le, ?_⟩
      have hpop := h.pop hvenue hroom hring
        { s.system with
          venues := Function.update s.system.venues ⟨venue, hvenue⟩
            { s.system.venues ⟨venue, hvenue⟩ with
              ring := ring
              popped := (s.system.venues ⟨venue, hvenue⟩).popped ++ [batch] }
          engine := s.system.engine.apply batch
          phase := .draining venue (drained + 1) true }
        (by simp) (fun v hv => Function.update_of_ne hv _ _) rfl
      simpa [hring] using hpop
  · refine ⟨venue + 1, drained, changed, rfl, hvenue, ?_⟩
    have hspent : drained = kMaxBatchesPerPass := Nat.le_antisymm h.bounded (Nat.le_of_not_lt hroom)
    simpa using h.leave hvenue (Or.inr hspent)
      { s.system with phase := .draining (venue + 1) drained changed } rfl rfl

def Sound (start : AggregatorSystem σ) (s : EnginePass σ) : Prop :=
  ∃ venue drained changed, s.system.phase = .draining venue drained changed ∧ venue ≤ n ∧
    Underway start s venue drained

theorem sound_step (s : EnginePass σ) (move : AggregatorMove n) (t : EnginePass σ)
    (h : Sound start s) (hstep : s.step p options capacity config move = some t) :
    Sound start t := by
  obtain ⟨venue, drained, changed, hphase, hle, h⟩ := h
  cases move with
  | venue v move =>
    obtain ⟨hphase', h'⟩ := h.venueStep hphase hstep
    exact ⟨venue, drained, changed, hphase', hle, h'⟩
  | engine reading => exact h.engineStep hphase hstep

theorem sound_run (hstart : start.phase = .draining 0 0 false) (moves : List (AggregatorMove n)) :
    Sound start (Machine.run (step p options capacity config) { system := start } moves) :=
  Machine.run_rule sound_step ⟨0, 0, false, hstart, Nat.zero_le _, underway_start start⟩ moves

theorem Underway.spentInOrder (h : Underway start s n drained) :
    SpentInOrder kMaxBatchesPerPass (offered start s) s.taken where
  within := by
    rw [sum_taken, h.total]
    exact h.bounded
  bounded v := (h.done v v.isLt).1
  spent v := (h.done v v.isLt).2

theorem taken_ne_zero_iff (s : EnginePass σ) (v : Fin n) :
    s.taken v ≠ 0 ↔ ∃ batch, (v, batch) ∈ s.applied := by
  rw [taken, ← Nat.pos_iff_ne_zero, List.count_pos_iff, List.mem_map]
  constructor
  · rintro ⟨⟨u, batch⟩, hmem, rfl⟩
    exact ⟨batch, hmem⟩
  · rintro ⟨batch, hmem⟩
    exact ⟨(v, batch), hmem, rfl⟩

end Rules

/-- A pass applies no more than its budget, and it serves every venue that has something in its
ring at the start exactly when the rings before none of them use the budget up. -/
theorem pass_serves_iff (p : (v : Fin n) → VenueProtocol (σ v)) (options : Options)
    (capacity : ℕ) (config : EngineConfig) (start : AggregatorSystem σ)
    (hstart : start.phase = .draining 0 0 false) (moves : List (AggregatorMove n)) :
    let s := Machine.run (step p options capacity config) { system := start } moves
    s.system.engine = s.applied.foldl (fun e x => e.apply x.2) start.engine ∧
      s.applied.length ≤ kMaxBatchesPerPass ∧
      (s.ended = true →
        ((∀ v, (start.venues v).ring ≠ [] → ∃ batch, (v, batch) ∈ s.applied) ↔
          ∀ v, (start.venues v).ring ≠ [] →
            ∑ u ∈ Finset.Iio v, offered start s u < kMaxBatchesPerPass)) := by
  intro s
  obtain ⟨venue, drained, changed, hphase, hle, h⟩ : Sound start s := sound_run hstart moves
  refine ⟨h.engine, h.total.trans_le h.bounded, fun hended => ?_⟩
  simp only [ended, hphase, decide_eq_true_eq] at hended
  obtain rfl : venue = n := Nat.le_antisymm hle hended
  refine forall_congr' fun v => imp_congr_right fun hsome => ?_
  have hoffered : offered start s v ≠ 0 := by
    have hlength := List.length_pos_iff.mpr hsome
    unfold offered
    omega
  rw [← taken_ne_zero_iff, h.spentInOrder.served_iff hoffered]

section Runs

def quietBatch (v : ℕ) : FeedBatch := ⟨v, [{ seq := ⟨0, 0⟩ }]⟩

def crowded (first second : ℕ) : AggregatorSystem fun _ : Fin 2 => Okx.State where
  venues v :=
    { program := .ask (.push (quietBatch v)) fun _ => .done (.create {} {})
      ring := List.replicate (if v.val = 0 then first else second) (quietBatch v) }

def okxPass (start : AggregatorSystem fun _ : Fin 2 => Okx.State)
    (moves : List (AggregatorMove 2)) : EnginePass fun _ : Fin 2 => Okx.State :=
  Machine.run (step (fun _ => Okx.protocol (fun _ => none) {}) {} 1024 {}) { system := start } moves

theorem pass_serves_iff_two :
    let s := okxPass (crowded 1 1)
      ([.engine {}, .venue 0 .act] ++ List.replicate 4 (.engine {}))
    s.applied.map Prod.fst = [0, 0, 1] ∧ s.applied.length ≤ kMaxBatchesPerPass ∧
      ∀ v, ((crowded 1 1).venues v).ring ≠ [] → ∃ batch, (v, batch) ∈ s.applied := by
  intro s
  obtain ⟨-, hbounded, hserves⟩ := pass_serves_iff
    (fun _ : Fin 2 => Okx.protocol (fun _ => none) {}) {} 1024 {} (crowded 1 1) rfl
    ([.engine {}, .venue 0 .act] ++ List.replicate 4 (.engine {}))
  exact ⟨by decide +kernel, hbounded, (hserves (by decide +kernel)).mpr (by decide +kernel)⟩

theorem burst_shuts_out :
    let s := okxPass (crowded 256 1) (List.replicate 258 (.engine {}))
    s.ended = true ∧ ((crowded 256 1).venues 1).ring ≠ [] ∧
      ¬ ∃ batch, (1, batch) ∈ s.applied := by
  intro s
  have hfirst : ∀ x ∈ s.applied, x.1 = 0 := by decide +kernel
  refine ⟨by decide +kernel, by decide, ?_⟩
  rintro ⟨batch, hmem⟩
  simpa using hfirst _ hmem

end Runs

end EnginePass

end CexAggregator
