import Mathlib.Algebra.BigOperators.Fin
import CexAggregator.AdapterRuns
import CexAggregator.Reopening

/-!
# A venue that can come back

From any state, the engine left alone empties its rings and comes to the end of a pass. A venue
that has become live by then, with nothing but its snapshot in the ring, contributes to the
publication of the next pass.
-/

namespace CexAggregator
open Program

namespace AggregatorSystem
variable {n : ℕ} {σ : Fin n → Type} {p : (v : Fin n) → VenueProtocol (σ v)} {options : Options}
  {capacity : ℕ} {config : EngineConfig} {reading : EngineReading} {s t u : AggregatorSystem σ}

theorem run_append (s : AggregatorSystem σ) (as bs : List (AggregatorMove n)) :
    s.run p options capacity config (as ++ bs) =
      (s.run p options capacity config as).run p options capacity config bs :=
  List.foldl_append

theorem step_venue (s : AggregatorSystem σ) {v : Fin n} {move : VenueMove} (hmove : move ≠ .pop) :
    s.step p options capacity config (.venue v move) =
      { s with
        venues := Function.update s.venues v
          (((s.venues v).step (p v) options v capacity move).getD (s.venues v)) } := by
  rw [AggregatorSystem.step]
  exact hmove

variable (p options capacity config) in
theorem run_venue (s : AggregatorSystem σ) (v : Fin n) {moves : List VenueMove}
    (hmoves : ∀ move ∈ moves, move ≠ .pop) :
    s.run p options capacity config (moves.map (.venue v)) =
      { s with
        venues := Function.update s.venues v
          ((s.venues v).run (p v) options v capacity moves) } := by
  induction moves generalizing s with
  | nil =>
    rw [VenueSystem.run, List.foldl_nil, Function.update_eq_self]
    rfl
  | cons move moves ih =>
    obtain ⟨hmove, hrest⟩ := List.forall_mem_cons.mp hmoves
    have hrun := ih (s.step p options capacity config (.venue v move)) hrest
    rw [step_venue s hmove] at hrun
    rw [List.map_cons, AggregatorSystem.run, List.foldl_cons, step_venue s hmove]
    refine hrun.trans ?_
    simp only [Function.update_self, Function.update_idem]
    rfl

theorem run_snoc_venue {v : Fin n} {start next : VenueSystem (σ v)} {own : List VenueMove}
    {move : VenueMove} (hs : s.venues v = start.run (p v) options v capacity own)
    (hstep : (s.venues v).step (p v) options v capacity move = some next) :
    next = start.run (p v) options v capacity (own ++ [move]) := by
  rw [VenueSystem.run_append, ← hs, VenueSystem.run_cons_of_step hstep]
  rfl

variable (p options capacity config) in
theorem venue_runs (initial : (v : Fin n) → σ v) (moves : List (AggregatorMove n)) (v : Fin n) :
    ∃ own, ((create options initial).run p options capacity config moves).venues v =
      (VenueSystem.create (initial v) options).run (p v) options v capacity own := by
  induction moves using List.reverseRecOn with
  | nil => exact ⟨[], rfl⟩
  | append_singleton moves move ih =>
    obtain ⟨own, hown⟩ := ih
    rw [run_append]
    set s := (create options initial).run p options capacity config moves
    have hstepped := stepped p options capacity config s move
    change ∃ own', (s.step p options capacity config move).venues v = _
    generalize s.step p options capacity config move = next at hstepped
    have hother : ∀ {w : Fin n} {after : VenueSystem (σ w)} {m : VenueMove},
        (s.venues w).step (p w) options w capacity m = some after →
        ∃ own', Function.update s.venues w after v =
          (VenueSystem.create (initial v) options).run (p v) options v capacity own' := by
      intro w after m hstep
      by_cases hw : v = w
      · subst hw
        rw [Function.update_self]
        exact ⟨own ++ [m], run_snoc_venue hown hstep⟩
      · rw [Function.update_of_ne hw]
        exact ⟨own, hown⟩
    cases hstepped with
    | venue hmove hstep => exact hother hstep
    | @pop reading w drained changed batch ring hphase hbudget hring =>
      have hpop : (s.venues w).step (p w) options w capacity .pop =
          some { s.venues w with ring := ring, popped := (s.venues w).popped ++ [batch] } := by
        rw [VenueSystem.step, hring]
      exact hother hpop
    | _ => exact ⟨own, hown⟩

variable (p options capacity config) in
theorem publications_prefix (s : AggregatorSystem σ) (moves : List (AggregatorMove n)) :
    s.publications <+: (s.run p options capacity config moves).publications := by
  have hstep : ∀ (t : AggregatorSystem σ) (move : AggregatorMove n),
      s.publications <+: t.publications → True →
        s.publications <+: (t.step p options capacity config move).publications := by
    intro t move ht _
    have hstepped := stepped p options capacity config t move
    generalize t.step p options capacity config move = next at hstepped
    cases hstepped with
    | publish hphase hnext => exact ht.trans (List.prefix_append _ _)
    | _ => exact ht
  exact run_rule hstep List.prefix_rfl fun _ _ => trivial

def waiting (s : AggregatorSystem σ) : ℕ := ∑ v, (s.venues v).ring.length

theorem waiting_update (s : AggregatorSystem σ) (v : Fin n) (next : VenueSystem (σ v)) :
    ∑ u, (Function.update s.venues v next u).ring.length + (s.venues v).ring.length =
      s.waiting + next.ring.length := by
  have hlengths : (fun u => (Function.update s.venues v next u).ring.length) =
      Function.update (fun u => (s.venues u).ring.length) v next.ring.length := by
    funext u
    exact Function.apply_update (fun u (w : VenueSystem (σ u)) => w.ring.length) s.venues v next u
  rw [hlengths, Finset.sum_update_of_mem (Finset.mem_univ v), waiting,
    ← Finset.sum_sdiff (Finset.subset_univ {v}), Finset.sum_singleton]
  omega

theorem waiting_eq_zero : s.waiting = 0 ↔ ∀ v, (s.venues v).ring = [] := by
  simp [waiting, Finset.sum_eq_zero_iff]

structure SameThread {τ : Type} (a b : VenueSystem τ) : Prop where
  program : b.program = a.program
  state : b.state = a.state
  stopping : b.stopping = a.stopping
  stopPosted : b.stopPosted = a.stopPosted

def SameThreads (s t : AggregatorSystem σ) : Prop := ∀ v, SameThread (s.venues v) (t.venues v)

theorem SameThreads.refl (s : AggregatorSystem σ) : SameThreads s s :=
  fun _ => ⟨rfl, rfl, rfl, rfl⟩

theorem SameThreads.trans (h : SameThreads s t) (h' : SameThreads t u) : SameThreads s u :=
  fun v => ⟨(h' v).program.trans (h v).program, (h' v).state.trans (h v).state,
    (h' v).stopping.trans (h v).stopping, (h' v).stopPosted.trans (h v).stopPosted⟩

def popRing {τ : Type} (w : VenueSystem τ) (batch : FeedBatch) (ring : List FeedBatch) :
    VenueSystem τ :=
  { w with ring := ring, popped := w.popped ++ [batch] }

theorem engineStep_venues (s : AggregatorSystem σ) (reading : EngineReading) :
    (s.engineStep p config reading).venues = s.venues ∨
      ∃ v batch ring, (s.venues v).ring = batch :: ring ∧
        (s.engineStep p config reading).venues =
          Function.update s.venues v (popRing (s.venues v) batch ring) := by
  have hstepped := stepped_engine p {} 0 config s reading
  generalize s.engineStep p config reading = next at hstepped
  cases hstepped with
  | pop hphase hbudget hring => exact Or.inr ⟨_, _, _, hring, rfl⟩
  | _ => exact Or.inl rfl

theorem sameThreads_engineStep (s : AggregatorSystem σ) (reading : EngineReading) :
    SameThreads s (s.engineStep p config reading) := by
  obtain hsame | ⟨v, batch, ring, -, hpop⟩ :=
    @engineStep_venues _ _ p config s reading
  · intro v
    rw [hsame]
    exact ⟨rfl, rfl, rfl, rfl⟩
  · intro w
    rw [hpop]
    by_cases hw : w = v
    · subst hw
      rw [Function.update_self]
      exact ⟨rfl, rfl, rfl, rfl⟩
    · rw [Function.update_of_ne hw]
      exact ⟨rfl, rfl, rfl, rfl⟩

/-- How much of the pass is left at most. -/
def rank (s : AggregatorSystem σ) : ℕ :=
  match s.phase with
  | .draining venue _ _ => s.waiting + (n - venue) + (n + 2)
  | .selecting _ next _ => s.waiting + (n - next) + 1

variable (p config) in
theorem rank_engineStep (s : AggregatorSystem σ) (reading : EngineReading) :
    (s.engineStep p config reading).phase.betweenPasses = true ∨
      (s.engineStep p config reading).rank < s.rank := by
  rw [engineStep]
  split
  · rename_i venue drained changed hphase
    have hrank : s.rank = s.waiting + (n - venue) + (n + 2) := by
      rw [rank, hphase]
    split_ifs with hvenue hbudget hdue
    · refine Or.inr ?_
      rw [drain, hrank]
      split
      · change s.waiting + (n - (venue + 1)) + (n + 2) < _
        omega
      · rename_i batch ring hring
        have hpopped := waiting_update s ⟨venue, hvenue⟩
          (popRing (s.venues ⟨venue, hvenue⟩) batch ring)
        rw [hring, List.length_cons] at hpopped
        change ∑ u, (Function.update s.venues ⟨venue, hvenue⟩
          (popRing (s.venues ⟨venue, hvenue⟩) batch ring) u).ring.length +
          (n - venue) + (n + 2) < _
        have hlength : (popRing (s.venues ⟨venue, hvenue⟩) batch ring).ring.length =
          ring.length := rfl
        omega
    · refine Or.inr ?_
      rw [hrank]
      change s.waiting + (n - (venue + 1)) + (n + 2) < _
      omega
    · refine Or.inr ?_
      rw [hrank]
      change s.waiting + (n - 0) + 1 < _
      omega
    · exact Or.inl rfl
  · rename_i started next reads hphase
    have hrank : s.rank = s.waiting + (n - next) + 1 := by
      rw [rank, hphase]
    split_ifs with hnext
    · refine Or.inr ?_
      rw [hrank]
      change s.waiting + (n - (next + 1)) + 1 < _
      omega
    · exact Or.inl rfl

variable (p options capacity config reading) in
def alone (s : AggregatorSystem σ) (k : ℕ) : AggregatorSystem σ :=
  s.run p options capacity config (List.replicate k (.engine reading))

theorem alone_alone (s : AggregatorSystem σ) (k l : ℕ) :
    alone p options capacity config reading (alone p options capacity config reading s k) l =
      alone p options capacity config reading s (k + l) := by
  rw [alone, alone, alone, ← run_append, List.replicate_append_replicate]

variable (options capacity) in
theorem pass_ends {I : AggregatorSystem σ → Prop}
    (hstep : ∀ t, t.phase.betweenPasses = false → I t → I (t.engineStep p config reading))
    (h : I (s.engineStep p config reading)) :
    ∃ k, I (alone p options capacity config reading s k) ∧
      (alone p options capacity config reading s k).phase.betweenPasses = true := by
  suffices hends : ∀ t, I t → ∃ k, I (alone p options capacity config reading t k) ∧
      (alone p options capacity config reading t k).phase.betweenPasses = true by
    obtain ⟨k, hk⟩ := hends _ h
    exact ⟨k + 1, hk⟩
  intro t ht
  generalize hrank : t.rank = rank
  induction rank using Nat.strong_induction_on generalizing t with
  | _ rank ih =>
    by_cases hended : t.phase.betweenPasses = true
    · exact ⟨0, ht, hended⟩
    · have hnext := hstep t (Bool.not_eq_true _ ▸ hended) ht
      obtain hlast | hless := rank_engineStep p config t reading
      · exact ⟨1, hnext, hlast⟩
      · obtain ⟨k, hk⟩ := ih _ (hrank ▸ hless) _ hnext rfl
        exact ⟨k + 1, hk⟩

variable (p options capacity config reading) in
theorem reaches_boundary (s : AggregatorSystem σ) :
    ∃ k, SameThreads s (alone p options capacity config reading s k) ∧
      (alone p options capacity config reading s k).phase.betweenPasses = true :=
  pass_ends options capacity (fun t _ h => h.trans (sameThreads_engineStep t reading))
    (sameThreads_engineStep s reading)

theorem waiting_engineStep (s : AggregatorSystem σ) (reading : EngineReading) :
    (s.engineStep p config reading).waiting ≤ s.waiting := by
  obtain hsame | ⟨v, batch, ring, hring, hpop⟩ := @engineStep_venues _ _ p config s reading
  · rw [waiting, hsame]
    exact le_rfl
  · have hpopped := waiting_update s v (popRing (s.venues v) batch ring)
    rw [hring, List.length_cons] at hpopped
    rw [waiting, hpop]
    have hlength : (popRing (s.venues v) batch ring).ring.length = ring.length := rfl
    omega

/-- Since `s` a batch has been popped, or the scan has met empty rings only. -/
def Progress (least : ℕ) (s t : AggregatorSystem σ) : Prop :=
  t.waiting < s.waiting ∨ t.waiting = s.waiting ∧ ∃ venue, least ≤ venue ∧
    t.phase = .draining venue 0 false ∧ ∀ v : Fin n, v < venue → (t.venues v).ring = []

theorem Progress.engineStep {least : ℕ} (h : Progress least s t) (hwaiting : 0 < s.waiting) :
    Progress 1 s (t.engineStep p config reading) := by
  obtain hless | ⟨hequal, venue, -, hphase, hempty⟩ := h
  · exact Or.inl ((waiting_engineStep t reading).trans_lt hless)
  · have hvenue : venue < n := by
      by_contra hover
      have hnone := waiting_eq_zero.mpr fun v => hempty v (v.isLt.trans_le (not_lt.mp hover))
      omega
    rw [AggregatorSystem.engineStep, hphase]
    simp only [dif_pos hvenue, if_pos (show 0 < kMaxBatchesPerPass by decide), drain]
    split
    · rename_i hring
      refine Or.inr ⟨hequal, venue + 1, Nat.succ_pos venue, rfl, fun v hv => ?_⟩
      obtain hbelow | rfl := Nat.lt_succ_iff_lt_or_eq.mp hv
      · exact hempty v hbelow
      · exact hring
    · rename_i batch ring hring
      have hpopped := waiting_update t ⟨venue, hvenue⟩
        (popRing (t.venues ⟨venue, hvenue⟩) batch ring)
      rw [hring, List.length_cons] at hpopped
      have hlength : (popRing (t.venues ⟨venue, hvenue⟩) batch ring).ring.length =
        ring.length := rfl
      refine Or.inl ?_
      change ∑ v, (Function.update t.venues ⟨venue, hvenue⟩
        (popRing (t.venues ⟨venue, hvenue⟩) batch ring) v).ring.length < _
      omega

theorem Progress.less (h : Progress 1 s t) (hbetween : t.phase.betweenPasses = true) :
    t.waiting < s.waiting := by
  obtain hless | ⟨-, venue, hpositive, hphase, -⟩ := h
  · exact hless
  · rw [EnginePhase.draining_of_betweenPasses hbetween] at hphase
    injection hphase with hvenue
    omega

variable (p options capacity config reading) in
theorem pass_drains (s : AggregatorSystem σ) (hbetween : s.phase.betweenPasses = true)
    (hwaiting : 0 < s.waiting) :
    ∃ k, SameThreads s (alone p options capacity config reading s k) ∧
      (alone p options capacity config reading s k).phase.betweenPasses = true ∧
      (alone p options capacity config reading s k).waiting < s.waiting := by
  have hstart : Progress 0 s s := Or.inr ⟨rfl, 0, le_rfl,
    EnginePhase.draining_of_betweenPasses hbetween, fun v hv => (Nat.not_lt_zero _ hv).elim⟩
  obtain ⟨k, ⟨hthreads, hprogress⟩, hended⟩ := pass_ends (p := p) options capacity
    (I := fun t => SameThreads s t ∧ Progress 1 s t)
    (fun t _ h => ⟨h.1.trans (sameThreads_engineStep t reading), h.2.engineStep hwaiting⟩)
    ⟨sameThreads_engineStep s reading, hstart.engineStep hwaiting⟩
  exact ⟨k, hthreads, hended, hprogress.less hended⟩

variable (p options capacity config reading) in
theorem empties (s : AggregatorSystem σ) :
    ∃ k, SameThreads s (alone p options capacity config reading s k) ∧
      (alone p options capacity config reading s k).phase.betweenPasses = true ∧
      (alone p options capacity config reading s k).waiting = 0 := by
  obtain ⟨first, hthreads, hbetween⟩ := reaches_boundary p options capacity config reading s
  suffices hdrains : ∀ t, SameThreads s t → t.phase.betweenPasses = true →
      ∃ k, SameThreads s (alone p options capacity config reading t k) ∧
        (alone p options capacity config reading t k).phase.betweenPasses = true ∧
        (alone p options capacity config reading t k).waiting = 0 by
    obtain ⟨k, hk⟩ := hdrains _ hthreads hbetween
    rw [alone_alone] at hk
    exact ⟨first + k, hk⟩
  intro t hthreads hbetween
  generalize hwaiting : t.waiting = left
  induction left using Nat.strong_induction_on generalizing t with
  | _ left ih =>
    obtain rfl | hpositive := Nat.eq_zero_or_pos left
    · exact ⟨0, hthreads, hbetween, hwaiting⟩
    · obtain ⟨k, hthreads', hbetween', hless⟩ :=
        pass_drains p options capacity config reading t hbetween (hwaiting ▸ hpositive)
      obtain ⟨l, hl⟩ := ih _ (hwaiting ▸ hless) _ (hthreads.trans hthreads') hbetween' rfl
      rw [alone_alone] at hl
      exact ⟨k + l, hl⟩

structure Awaiting (v : Fin n) (batch : FeedBatch) (s : AggregatorSystem σ) : Prop where
  ring : (s.venues v).ring = [batch]
  others : ∀ u, u ≠ v → (s.venues u).ring = []
  live : (s.venues v).state = .kLive

structure Applied (v : Fin n) (batch : FeedBatch) (s t : AggregatorSystem σ) : Prop where
  engine : t.engine = s.engine.apply batch
  live : (t.venues v).state = .kLive
  publications : t.publications = s.publications

inductive Serving (v : Fin n) (batch : FeedBatch) (reading : EngineReading)
    (s t : AggregatorSystem σ) : Prop
  | scanning {venue : ℕ} (hphase : t.phase = .draining venue 0 false) (hpositive : 0 < venue)
      (hle : venue ≤ v) (hvenues : t.venues = s.venues) (hengine : t.engine = s.engine)
      (hpublications : t.publications = s.publications)
  | applied {venue drained : ℕ} (hphase : t.phase = .draining venue drained true)
      (hempty : t.waiting = 0) (happlied : Applied v batch s t)
  | selecting {next : ℕ} {reads : Fin n → StateRead}
      (hphase : t.phase = .selecting reading next reads) (happlied : Applied v batch s t)
      (hread : v < next → (reads v).state = .kLive)
  | published {reads : Fin n → StateRead} (hphase : t.phase = .draining 0 0 false)
      (hpublications : t.publications = s.publications ++ [⟨s.engine.apply batch, reading, reads⟩])
      (hread : (reads v).state = .kLive)

section Serving
variable {v : Fin n} {batch : FeedBatch}

theorem serving_of_scanning (h : Awaiting v batch s) {venue : ℕ}
    (hphase : t.phase = .draining venue 0 false) (hle : venue ≤ v) (hvenues : t.venues = s.venues)
    (hengine : t.engine = s.engine) (hpublications : t.publications = s.publications) :
    Serving v batch reading s (t.engineStep p config reading) := by
  have hvenue : venue < n := hle.trans_lt v.isLt
  rw [engineStep, hphase]
  simp only [dif_pos hvenue, if_pos (show 0 < kMaxBatchesPerPass by decide), drain]
  obtain hbelow | hhere := hle.lt_or_eq
  · have hempty : (t.venues ⟨venue, hvenue⟩).ring = [] := by
      rw [hvenues]
      exact h.others _ (Fin.ne_of_lt hbelow)
    rw [hempty]
    exact .scanning rfl (Nat.succ_pos venue) hbelow hvenues hengine hpublications
  · obtain rfl : ⟨venue, hvenue⟩ = v := Fin.ext hhere
    have hring : (t.venues ⟨venue, hvenue⟩).ring = [batch] := by
      rw [hvenues]
      exact h.ring
    rw [hring]
    refine .applied rfl (waiting_eq_zero.mpr fun u => ?_) ⟨by rw [hengine], ?_, hpublications⟩
    · by_cases hu : u = ⟨venue, hvenue⟩
      · subst hu
        simp only [Function.update_self]
      · simp only [Function.update_of_ne hu, hvenues]
        exact h.others u hu
    · simp only [Function.update_self, hvenues]
      exact h.live

theorem Serving.engineStep (hawaiting : Awaiting v batch s) (h : Serving v batch reading s t)
    (hbusy : t.phase.betweenPasses = false) :
    Serving v batch reading s (t.engineStep p config reading) := by
  cases h with
  | scanning hphase hpositive hle hvenues hengine hpublications =>
    exact serving_of_scanning hawaiting hphase hle hvenues hengine hpublications
  | @applied venue drained hphase hempty happlied =>
    rw [AggregatorSystem.engineStep, hphase]
    simp only [true_or, ↓reduceIte, drain]
    split_ifs with hvenue hbudget
    · rw [waiting_eq_zero.mp hempty ⟨venue, hvenue⟩]
      exact .applied rfl hempty ⟨happlied.engine, happlied.live, happlied.publications⟩
    · exact .applied rfl hempty ⟨happlied.engine, happlied.live, happlied.publications⟩
    · exact .selecting rfl ⟨happlied.engine, happlied.live, happlied.publications⟩
        fun hv => (Nat.not_lt_zero _ hv).elim
  | @selecting next reads hphase happlied hread =>
    rw [AggregatorSystem.engineStep, hphase]
    simp only
    split_ifs with hnext
    · refine .selecting rfl ⟨happlied.engine, happlied.live, happlied.publications⟩ fun hv => ?_
      by_cases hlast : v = ⟨next, hnext⟩
      · subst hlast
        rw [Function.update_self]
        exact happlied.live
      · rw [Function.update_of_ne hlast]
        refine hread (lt_of_le_of_ne (Nat.lt_succ_iff.mp hv) fun heq => hlast (Fin.ext heq))
    · refine .published rfl ?_ (hread (v.isLt.trans_le (not_lt.mp hnext)))
      rw [happlied.engine, happlied.publications]
  | published hphase hpublications hread =>
    rw [hphase] at hbusy
    cases hbusy

variable (p options capacity config reading) in
theorem serves (h : Awaiting v batch s) (hbetween : s.phase.betweenPasses = true) :
    ∃ k reads, (alone p options capacity config reading s k).publications =
        s.publications ++ [⟨s.engine.apply batch, reading, reads⟩] ∧
      (reads v).state = .kLive := by
  have hstart : Serving v batch reading s (s.engineStep p config reading) :=
    serving_of_scanning h (EnginePhase.draining_of_betweenPasses hbetween) (Nat.zero_le _) rfl rfl
      rfl
  obtain ⟨k, hserving, hended⟩ := pass_ends options capacity
    (fun t hbusy ht => Serving.engineStep h ht hbusy) hstart
  have hphase := EnginePhase.draining_of_betweenPasses hended
  cases hserving with
  | scanning hscanning hpositive hle hvenues hengine hpublications =>
    rw [hphase] at hscanning
    injection hscanning with hvenue
    omega
  | applied happlied hempty _ =>
    rw [hphase] at happlied
    cases happlied
  | selecting hselecting _ hread =>
    rw [hphase] at hselecting
    cases hselecting
  | @published reads _ hpublications hread => exact ⟨k, reads, hpublications, hread⟩

end Serving

end AggregatorSystem

/-- A snapshot with these levels, in the adapter's own format. -/
def Adapter.Snapshot (parse : JsonParser) (bytes : Bytes) (bids asks : List Level) :
    Adapter → Prop
  | .binance _ => ∃ id, Binance.readBody parse bytes = .snapshot id bids asks
  | .okx config => ∃ entry seqId, Okx.readFrame parse config bytes = .entries true [entry] ∧
      Okx.seqIdOf entry = some seqId ∧ Okx.bidsOf entry = some bids ∧ Okx.asksOf entry = some asks
  | .bybit config => ∃ id root data, Bybit.readFrame parse config bytes = .book true id root data ∧
      Bybit.bidsOf data = some bids ∧ Bybit.asksOf data = some asks

theorem seeds_singleton {σ : Type} {p : VenueProtocol σ} {bytes : Bytes} {now : Int}
    {update : FeedUpdate} (h : ∀ state, ∃ next,
      p.seed (p.reset state) bytes now = ⟨.kOk, next, [update]⟩ ∧ p.synced next = true) :
    p.Seeds bytes now [update] := by
  refine ⟨fun state => ?_, fun state => ?_, fun state => ?_, List.cons_ne_nil _ _⟩
  all_goals
    obtain ⟨next, hseed, hsynced⟩ := h state
    rw [hseed]
  exact hsynced

theorem Adapter.seeds_of_snapshot {parse : JsonParser} {adapter : Adapter} {bytes : Bytes}
    {bids asks : List Level} (h : adapter.Snapshot parse bytes bids asks) (now : Int) :
    ∃ update : FeedUpdate, (update.toFeedUpdateLevels = ⟨true, bids, asks⟩ ∧
      update.recvTsNs = now) ∧ (adapter.protocol parse).Seeds bytes now [update] := by
  cases adapter with
  | binance config =>
    obtain ⟨id, hbody⟩ := h
    refine ⟨Binance.snapshotUpdate id bids asks now, ⟨rfl, rfl⟩, seeds_singleton fun state => ?_⟩
    refine ⟨⟨[], [], id, true⟩, ?_, rfl⟩
    change Binance.onRestSnapshot parse {} bytes now [] = _
    rw [Binance.onRestSnapshot, hbody]
    rfl
  | okx config =>
    obtain ⟨entry, seqId, hframe, hseq, hbids, hasks⟩ := h
    refine ⟨Okx.entryUpdate true now entry bids asks (Okx.entrySeq true entry seqId), ⟨rfl, rfl⟩,
      seeds_singleton fun state => ?_⟩
    refine ⟨⟨[], seqId, true, true, state.fatalReason⟩, ?_, rfl⟩
    change Okx.onFrame parse config (Okx.reset state) bytes now [] = _
    rw [Okx.onFrame, hframe]
    simp [Okx.onEntries, Okx.onEntry, hseq, hbids, hasks, Okx.reset]
    rfl
  | bybit config =>
    obtain ⟨id, root, data, hframe, hbids, hasks⟩ := h
    refine ⟨Bybit.bookUpdate true id root bids asks now, ⟨rfl, rfl⟩,
      seeds_singleton fun state => ?_⟩
    refine ⟨⟨id, true, state.fatalReason⟩, ?_, rfl⟩
    change Bybit.onFrame parse config (Bybit.reset state) bytes now [] = _
    rw [Bybit.onFrame, hframe]
    simp [Bybit.onBook, hbids, hasks, Bybit.reset]
    rfl

/-- What can help a venue: its own timers and completions, a connection that opens, its snapshot,
and the engine. -/
def AggregatorMove.Helps {n : ℕ} (v : Fin n) (bytes : Bytes) : AggregatorMove n → Bool
  | .engine _ => true
  | .venue u (.handle _ (.read _ message)) => u = v ∧ message = some bytes
  | .venue u (.handle _ (.response _ answer)) => u = v ∧ answer = some bytes
  | .venue u move => u = v ∧ move.Opens

/-- When the steady clock is read; the engine reads it for the pass, and again to publish. -/
def AggregatorMove.readings {n : ℕ} : AggregatorMove n → List Int
  | .engine reading => [reading.now, reading.nowSteady]
  | .venue _ move => move.readings

theorem AggregatorMove.readings_map {n : ℕ} (v : Fin n) (moves : List VenueMove) :
    (moves.map (AggregatorMove.venue v)).flatMap AggregatorMove.readings =
      moves.flatMap VenueMove.readings := by
  rw [List.flatMap_map]
  rfl

theorem AggregatorMove.helps_of_opens {n : ℕ} (v : Fin n) (bytes : Bytes) {move : VenueMove}
    (h : move.Opens = true) : (AggregatorMove.venue v move).Helps v bytes = true := by
  match move with
  | .act => exact decide_eq_true ⟨rfl, rfl⟩
  | .pop => cases h
  | .stop => cases h
  | .handle _ event =>
    cases event with
    | read id message => cases h
    | response index answer => cases h
    | _ => exact decide_eq_true ⟨rfl, h⟩

theorem AggregatorMove.helps_of_delivery {n : ℕ} (v : Fin n) (bytes : Bytes) {σ : Type}
    (p : VenueProtocol σ) (r : Runner σ) (reading : Reading) :
    (AggregatorMove.venue v (.handle reading (r.delivery p bytes))).Helps v bytes = true := by
  rw [Runner.delivery]
  split_ifs
  · exact decide_eq_true ⟨rfl, rfl⟩
  · exact decide_eq_true ⟨rfl, rfl⟩

namespace AggregatorSystem
variable {n : ℕ} {σ : Fin n → Type} {p : (v : Fin n) → VenueProtocol (σ v)} {options : Options}
  {capacity : ℕ} {config : EngineConfig} {s : AggregatorSystem σ}

theorem apply_singleton (e : Engine n) (v : Fin n) (update : FeedUpdate) :
    e.apply ⟨v, [update]⟩ = Engine.applyUpdate v e update := by
  rw [Engine.apply, dif_pos v.isLt]
  rfl

theorem awaiting_of_live {v : Fin n} {batch : FeedBatch} (hempty : s.waiting = 0)
    {next : VenueSystem (σ v)} (h : VenueSystem.Live ((s.venues v).ring ++ [batch]) next) :
    Awaiting v batch { s with venues := Function.update s.venues v next } := by
  have hrings := waiting_eq_zero.mp hempty
  refine ⟨?_, fun u hu => ?_, ?_⟩
  · simp only [Function.update_self, h.ring, hrings v, List.nil_append]
  · simp only [Function.update_of_ne hu, hrings u]
  · simp only [Function.update_self, h.state]

variable (p options config) in
theorem published_of_ready {v : Fin n} {r : Runner (σ v)} {bytes : Bytes} {now : Int}
    {updates : List FeedUpdate} (hrest : VenueSystem.Resting (s.venues v) r)
    (hready : Runner.Ready (p v) r) (hseeds : (p v).Seeds bytes now updates)
    (hcapacity : 0 < capacity) :
    ∃ more : List (AggregatorMove n), (∀ move ∈ more, move.Helps v bytes = true) ∧
      (∀ t ∈ more.flatMap AggregatorMove.readings, t = now) ∧
      ∃ (earlier : List (Publication n)) (e : Engine n) (reads : Fin n → StateRead),
        (s.run p options capacity config more).publications = s.publications ++ earlier ++
          [⟨e.apply ⟨v, updates⟩, { now := now, nowSteady := now }, reads⟩] ∧
        (reads v).state = .kLive := by
  set reading : EngineReading := { now := now, nowSteady := now } with hreading
  obtain ⟨k, hthreads, hbetween, hempty⟩ := empties p options capacity config reading s
  set t := alone p options capacity config reading s k with ht
  have hrest' : VenueSystem.Resting (t.venues v) r := ⟨(hthreads v).program.trans hrest.program,
    (hthreads v).stopping.trans hrest.running, (hthreads v).stopPosted.trans hrest.unposted⟩
  have hroom : (t.venues v).ring.length < capacity := by
    rw [waiting_eq_zero.mp hempty v]
    exact hcapacity
  have hseeds : (p v).Seeds bytes ({ now := now } : Reading).now updates := hseeds
  obtain ⟨l, hlive⟩ := VenueSystem.live_of_seed options v hseeds hrest' hready hroom
  have hawaiting := awaiting_of_live hempty hlive
  obtain ⟨m, reads, hpublications, hread⟩ :=
    serves p options capacity config reading hawaiting hbetween
  let delivery : List VenueMove :=
    .handle { now := now } (r.delivery (p v) bytes) :: List.replicate l .act
  have hkinds : ∀ move ∈ delivery, move ≠ .pop ∧
      (AggregatorMove.venue v move).Helps v bytes = true ∧ ∀ t ∈ move.readings, t = now := by
    refine List.forall_mem_cons.mpr ⟨⟨by simp, ?_, ?_⟩, fun move hmove => ?_⟩
    · exact AggregatorMove.helps_of_delivery v bytes (p v) r _
    · exact List.forall_mem_singleton.mpr rfl
    · obtain ⟨-, rfl⟩ := List.mem_replicate.mp hmove
      exact ⟨by simp, AggregatorMove.helps_of_opens v bytes rfl, List.forall_mem_nil _⟩
  have hdelivered := run_venue p options capacity config t v fun move hmove => (hkinds move hmove).1
  obtain ⟨earlier, hearlier⟩ := publications_prefix p options capacity config s
    (List.replicate k (.engine reading))
  let more : List (AggregatorMove n) := List.replicate k (.engine reading) ++
    delivery.map (.venue v) ++ List.replicate m (.engine reading)
  have hmoves : ∀ move ∈ more, move.Helps v bytes = true ∧ ∀ t ∈ move.readings, t = now := by
    have hengine : ∀ t ∈ (AggregatorMove.engine reading : AggregatorMove n).readings, t = now := by
      simp [AggregatorMove.readings, hreading]
    intro move hmove
    simp only [more, List.mem_append, List.mem_replicate, List.mem_map] at hmove
    obtain (⟨-, rfl⟩ | ⟨own, hown, rfl⟩) | ⟨-, rfl⟩ := hmove
    · exact ⟨rfl, hengine⟩
    · exact (hkinds own hown).2
    · exact ⟨rfl, hengine⟩
  refine ⟨more, fun move hmove => (hmoves move hmove).1, ?_, earlier, t.engine, reads, ?_, hread⟩
  · intro time htime
    obtain ⟨move, hmove, hmem⟩ := List.mem_flatMap.mp htime
    exact (hmoves move hmove).2 time hmem
  · rw [run_append, run_append]
    change (alone p options capacity config _ (t.run p options capacity config _) m).publications
      = _
    rw [hdelivered, hpublications, hearlier]
    rfl

end AggregatorSystem

section Adapters
variable {n : ℕ} (parse : JsonParser) (adapters : Fin n → Adapter) (options : Options)
  (capacity : ℕ) (config : EngineConfig)

/-- No reachable state is a trap, whatever the time is by then. -/
theorem venue_returns (moves : List (AggregatorMove n)) (v : Fin n)
    (r : Runner (adapters v).State) {bytes : Bytes} {bids asks : List Level}
    (hrest : ((aggregate parse adapters options capacity config moves).venues v).program = .done r)
    (hrunning : ((aggregate parse adapters options capacity config moves).venues v).stopping =
      false)
    (hfatal : r.stats.fatal = false) (haddressed : ((adapters v).protocol parse).Addressed)
    (hcapacity : 0 < capacity) (hmax : 0 < options.maxResyncsPerMinute)
    (hstaleness : 0 < config.stalenessTimeout)
    (hsnapshot : (adapters v).Snapshot parse bytes bids asks) (now : Int) :
    ∃ more : List (AggregatorMove n), (∀ move ∈ more, move.Helps v bytes = true) ∧
      Machine.Forward now (more.flatMap AggregatorMove.readings) ∧
      ∃ between pub,
        (aggregate parse adapters options capacity config (moves ++ more)).publications =
          (aggregate parse adapters options capacity config moves).publications ++ between ++
            [pub] ∧
        v ∈ pub.venues config ∧
        pub.engine.books v = applyFeedUpdate {} ⟨true, bids, asks⟩ := by
  let protocols := fun u => (adapters u).protocol parse
  obtain ⟨own, hown⟩ := AggregatorSystem.venue_runs protocols options capacity config
    (fun u => (adapters u).initial) moves v
  obtain ⟨opening, hopens, hforward, r', hrest', hready⟩ := VenueSystem.canGetReady haddressed
    ((adapters v).sequenced parse).synced_reset hmax hown hrest hrunning hfatal now
  -- A receive time of zero would read as a venue that has never been heard from.
  obtain ⟨later, hlater, hlast⟩ :=
    Machine.exists_later (max now 1) (opening.flatMap VenueMove.readings)
  obtain ⟨update, ⟨hlevels, hreceived⟩, hseeds⟩ := Adapter.seeds_of_snapshot hsnapshot later
  have hpops : ∀ move ∈ opening, move ≠ .pop := by
    intro move hmove hpop
    subst hpop
    cases hopens _ hmove
  have hopened := AggregatorSystem.run_venue protocols options capacity config
    (aggregate parse adapters options capacity config moves) v hpops
  set s := (aggregate parse adapters options capacity config moves).run protocols options capacity
    config (opening.map (.venue v)) with hs
  have hrested : VenueSystem.Resting (s.venues v) r' := by
    simp only [hopened, Function.update_self]
    exact hrest'
  obtain ⟨more, hhelps, htimes, earlier, e, reads, hpublications, hread⟩ :=
    AggregatorSystem.published_of_ready protocols options config hrested hready hseeds hcapacity
  refine ⟨opening.map (.venue v) ++ more, List.forall_mem_append.mpr ⟨?_, hhelps⟩, ?_, earlier,
    ⟨e.apply ⟨v, [update]⟩, { now := later, nowSteady := later }, reads⟩, ?_, ?_, ?_⟩
  · exact List.forall_mem_map.mpr fun move hmove =>
      AggregatorMove.helps_of_opens v bytes (hopens move hmove)
  · rw [List.flatMap_append, AggregatorMove.readings_map]
    exact hforward.append ((le_max_left now 1).trans hlater) hlast
      (Machine.forward_of_forall_eq htimes)
  · rw [aggregate, ← List.append_assoc, AggregatorSystem.run_append, AggregatorSystem.run_append]
    refine hpublications.trans ?_
    rw [hopened]
  · have hstarted : later ≠ 0 := by
      have hone := (le_max_right now 1).trans hlater
      omega
    refine List.mem_filter.mpr ⟨List.mem_finRange v, ?_⟩
    simp [AggregatorSystem.apply_singleton, Engine.contributes, Engine.applyUpdate, hread,
      hreceived, hstarted, hstaleness]
  · simp [AggregatorSystem.apply_singleton, Engine.applyUpdate, hlevels]
    rfl

end Adapters

/-- The stream drops before it has said anything; a day later the venue is still not back. -/
def droppedMoves : List (AggregatorMove 1) :=
  (VenueSystem.opened ++ VenueSystem.handled (.read 1 none)).map (.venue (Fin.last 0))

theorem venue_returns_dropped :
    ∃ more : List (AggregatorMove 1),
      (∀ move ∈ more, move.Helps 0 (utf8 bybitSnapshotText) = true) ∧
      Machine.Forward 86400000000000 (more.flatMap AggregatorMove.readings) ∧
      ∃ between pub,
        (aggregate sessionParser (fun _ => .bybit {}) {} 1 {} (droppedMoves ++ more)).publications =
          (aggregate sessionParser (fun _ => .bybit {}) {} 1 {} droppedMoves).publications ++
            between ++ [pub] ∧
        0 ∈ pub.venues {} ∧ pub.engine.books 0 = applyFeedUpdate {} ⟨true, [⟨100, 1⟩], []⟩ := by
  have hended : ((aggregate sessionParser (fun _ : Fin 1 => .bybit {}) {} 1 {}
      droppedMoves).venues 0).program.endsIn (fun r => r.stats.fatal = false) = true := by
    decide +kernel
  obtain ⟨r, hrest, hfatal⟩ := exists_of_endsIn hended
  have hframe : Bybit.readFrame sessionParser {} (utf8 bybitSnapshotText) =
      .book true 11 (bybitRoot "snapshot" bybitSnapshotData) bybitSnapshotData := by
    rw [Bybit.readFrame, sessionParser_bybitSnapshot]
    rfl
  have haddressed : ((Adapter.bybit {}).protocol sessionParser).Addressed :=
    ⟨by decide +kernel, fun h => by cases h⟩
  have hsnapshot : (Adapter.bybit {}).Snapshot sessionParser (utf8 bybitSnapshotText)
      [⟨100, 1⟩] [] :=
    ⟨11, _, _, hframe, by decide +kernel, by decide +kernel⟩
  exact venue_returns sessionParser (fun _ => .bybit {}) {} 1 {} droppedMoves 0 r hrest
    (by decide +kernel) (of_decide_eq_true hfatal) haddressed (by decide) (by decide) (by decide)
    hsnapshot 86400000000000

end CexAggregator
