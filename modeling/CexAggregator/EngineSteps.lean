import CexAggregator.SeededBooks

/-!
# What the engine publishes, step by step

One case for each thing a step of the whole system can do. From it follows how the
publications are numbered, that a later one has seen at least what an earlier one had seen,
and that the clocks of the engine are those of the updates it has popped.
-/

namespace CexAggregator

def EnginePhase.betweenPasses {n : ℕ} : EnginePhase n → Bool
  | .draining 0 0 false => true
  | _ => false

theorem EnginePhase.draining_of_betweenPasses {n : ℕ} {phase : EnginePhase n}
    (h : phase.betweenPasses = true) : phase = .draining 0 0 false := by
  unfold betweenPasses at h
  split at h
  · rfl
  · cases h

namespace AggregatorSystem
variable {n : ℕ} {σ : Fin n → Type}

section Cases
variable (p : (v : Fin n) → VenueProtocol (σ v)) (options : Options) (capacity : ℕ)
  (config : EngineConfig)

inductive Stepped (s : AggregatorSystem σ) : AggregatorMove n → AggregatorSystem σ → Prop
  | refused (move : AggregatorMove n) : Stepped s move s
  | venue {v : Fin n} {move : VenueMove} {next : VenueSystem (σ v)} (hmove : move ≠ .pop)
      (hstep : (s.venues v).step (p v) options v capacity move = some next) :
      Stepped s (.venue v move) { s with venues := Function.update s.venues v next }
  | turn {reading : EngineReading} {v : Fin n} {drained : ℕ} {changed : Bool}
      (hphase : s.phase = .draining v drained changed)
      (hend : kMaxBatchesPerPass ≤ drained ∨ (s.venues v).ring = []) :
      Stepped s (.engine reading) { s with phase := .draining (v + 1) drained changed }
  | pop {reading : EngineReading} {v : Fin n} {drained : ℕ} {changed : Bool} {batch : FeedBatch}
      {ring : List FeedBatch} (hphase : s.phase = .draining v drained changed)
      (hbudget : drained < kMaxBatchesPerPass) (hring : (s.venues v).ring = batch :: ring) :
      Stepped s (.engine reading)
        { s with
          venues := Function.update s.venues v
            { s.venues v with ring := ring, popped := (s.venues v).popped ++ [batch] }
          engine := s.engine.apply batch
          phase := .draining v (drained + 1) true }
  | select {reading : EngineReading} {venue drained : ℕ} {changed : Bool}
      (hphase : s.phase = .draining venue drained changed) (hvenue : n ≤ venue)
      (hdue : changed = true ∨
        config.heartbeatInterval ≤ reading.now - s.engine.lastPublish) :
      Stepped s (.engine reading) { s with phase := .selecting reading 0 fun _ => {} }
  | sleep {reading : EngineReading} {venue drained : ℕ}
      (hphase : s.phase = .draining venue drained false) (hvenue : n ≤ venue)
      (hearly : reading.now - s.engine.lastPublish < config.heartbeatInterval) :
      Stepped s (.engine reading) { s with phase := .draining 0 0 false }
  | read {reading started : EngineReading} {v : Fin n} {reads : Fin n → StateRead}
      (hphase : s.phase = .selecting started v reads) :
      Stepped s (.engine reading)
        { s with
          phase := .selecting started (v + 1) (Function.update reads v (s.venues v).read) }
  | publish {reading started : EngineReading} {next : ℕ} {reads : Fin n → StateRead}
      (hphase : s.phase = .selecting started next reads) (hnext : n ≤ next) :
      Stepped s (.engine reading)
        { s with
          engine :=
            { s.engine.publish config (fun v => (p v).name) started.nowSteady started.nowWall
                (fun v => (reads v).state) with
              lastPublish := started.now }
          phase := .draining 0 0 false
          publications := s.publications ++ [⟨s.engine, started, reads⟩] }

theorem stepped_engine (s : AggregatorSystem σ) (reading : EngineReading) :
    Stepped p options capacity config s (.engine reading) (s.engineStep p config reading) := by
  rw [engineStep]
  split
  · rename_i venue drained changed hphase
    split_ifs with hvenue hbudget hdue
    · rw [drain]
      split
      · rename_i hring
        exact Stepped.turn (v := ⟨venue, hvenue⟩) hphase (Or.inr hring)
      · rename_i batch ring hring
        exact Stepped.pop (v := ⟨venue, hvenue⟩) hphase hbudget hring
    · exact Stepped.turn (v := ⟨venue, hvenue⟩) hphase (Or.inl (not_lt.mp hbudget))
    · exact .select hphase (not_lt.mp hvenue) hdue
    · rw [not_or, Bool.not_eq_true, not_le] at hdue
      obtain ⟨rfl, hearly⟩ := hdue
      exact .sleep hphase (not_lt.mp hvenue) hearly
  · rename_i started next reads hphase
    split_ifs with hnext
    · exact Stepped.read (v := ⟨next, hnext⟩) hphase
    · exact .publish hphase (not_lt.mp hnext)

theorem stepped (s : AggregatorSystem σ) (move : AggregatorMove n) :
    Stepped p options capacity config s move (s.step p options capacity config move) := by
  cases move with
  | engine reading => exact stepped_engine p options capacity config s reading
  | venue v move =>
    by_cases hpop : move = .pop
    · subst hpop
      exact .refused _
    · rw [AggregatorSystem.step]
      · cases hstep : (s.venues v).step (p v) options v capacity move with
        | none =>
          rw [Option.getD_none, Function.update_eq_self]
          exact .refused _
        | some next => exact .venue hpop hstep
      · exact hpop

variable {p options capacity config}

theorem run_rule {I : AggregatorSystem σ → Prop} {Allowed : AggregatorMove n → Prop}
    (hstep : ∀ s move, I s → Allowed move → I (s.step p options capacity config move))
    {s : AggregatorSystem σ} (hs : I s) {moves : List (AggregatorMove n)}
    (hmoves : ∀ move ∈ moves, Allowed move) : I (s.run p options capacity config moves) := by
  induction moves generalizing s with
  | nil => exact hs
  | cons move moves ih =>
    obtain ⟨hmove, hrest⟩ := List.forall_mem_cons.mp hmoves
    exact ih (hstep s move hs hmove) hrest

end Cases

end AggregatorSystem

def receivedAt (updates : List FeedUpdate) : Int :=
  (updates.getLast?.map FeedUpdate.recvTsNs).getD 0

def stampedAt (updates : List FeedUpdate) : Int :=
  ((updates.filter fun u => u.exchangeTsNs ≠ 0).getLast?.map FeedUpdate.exchangeTsNs).getD 0

theorem receivedAt_snoc (updates : List FeedUpdate) (u : FeedUpdate) :
    receivedAt (updates ++ [u]) = u.recvTsNs := by
  simp [receivedAt]

theorem stampedAt_snoc (updates : List FeedUpdate) (u : FeedUpdate) :
    stampedAt (updates ++ [u]) =
      if u.exchangeTsNs ≠ 0 then u.exchangeTsNs else stampedAt updates := by
  split_ifs with hstamped
  · simp [stampedAt, hstamped]
  · simp [stampedAt, hstamped]

theorem receivedAt_mem {updates : List FeedUpdate} (h : receivedAt updates ≠ 0) :
    ∃ u ∈ updates.getLast?, u.recvTsNs = receivedAt updates := by
  cases hlast : updates.getLast? with
  | none => simp [receivedAt, hlast] at h
  | some u => exact ⟨u, rfl, by simp [receivedAt, hlast]⟩

namespace Engine
variable {n : ℕ}

/-- The newest receive time is one of a popped update, and none is newer. -/
structure Clocks (e : Engine n) (popped : Fin n → List FeedUpdate) : Prop where
  received : ∀ v, e.lastRecvNs v = receivedAt (popped v)
  stamped : ∀ v, e.lastExchangeNs v = stampedAt (popped v)
  newest : ∀ v, ∀ u ∈ popped v, u.recvTsNs ≤ e.newestRecvNs
  attained : e.newestRecvNs = 0 ∨ ∃ v, ∃ u ∈ popped v, u.recvTsNs = e.newestRecvNs

theorem clocks_initial : ({} : Engine n).Clocks fun _ => [] :=
  ⟨fun _ => rfl, fun _ => rfl, fun _ _ hu => (List.not_mem_nil hu).elim, Or.inl rfl⟩

theorem Clocks.applyUpdate {e : Engine n} {popped : Fin n → List FeedUpdate} (h : e.Clocks popped)
    (v : Fin n) (u : FeedUpdate) :
    (e.applyUpdate v u).Clocks (Function.update popped v (popped v ++ [u])) := by
  have hnew : u ∈ Function.update popped v (popped v ++ [u]) v := by simp
  have hold : ∀ w, ∀ x ∈ popped w, x ∈ Function.update popped v (popped v ++ [u]) w := by
    intro w x hx
    by_cases hw : w = v
    · subst hw
      simp [hx]
    · simpa [hw] using hx
  constructor
  · intro w
    by_cases hw : w = v
    · subst hw
      simp [Engine.applyUpdate, receivedAt_snoc]
    · simpa [Engine.applyUpdate, hw] using h.received w
  · intro w
    by_cases hw : w = v
    · subst hw
      simp only [Engine.applyUpdate, Function.update_self, stampedAt_snoc]
      split_ifs
      · simp
      · exact h.stamped w
    · simp only [Engine.applyUpdate, Function.update_of_ne hw]
      split_ifs
      · rw [Function.update_of_ne hw]
        exact h.stamped w
      · exact h.stamped w
  · intro w x hx
    by_cases hw : w = v
    · subst hw
      rw [Function.update_self, List.mem_append, List.mem_singleton] at hx
      obtain hx | rfl := hx
      · exact (h.newest w x hx).trans (le_max_left _ _)
      · exact le_max_right _ _
    · rw [Function.update_of_ne hw] at hx
      exact (h.newest w x hx).trans (le_max_left _ _)
  · obtain hmax | hmax := max_choice e.newestRecvNs u.recvTsNs
    · simp only [Engine.applyUpdate, hmax]
      obtain hzero | ⟨w, x, hx, hxe⟩ := h.attained
      · exact Or.inl hzero
      · exact Or.inr ⟨w, x, hold w x hx, hxe⟩
    · exact Or.inr ⟨v, u, hnew, hmax.symm⟩

theorem Clocks.applyBatch {e : Engine n} {popped : Fin n → List FeedUpdate} (h : e.Clocks popped)
    (v : Fin n) (updates : List FeedUpdate) :
    (updates.foldl (Engine.applyUpdate v) e).Clocks
      (Function.update popped v (popped v ++ updates)) := by
  induction updates generalizing e popped with
  | nil => simpa using h
  | cons u updates ih =>
    have hrest := ih (h.applyUpdate v u)
    simpa using hrest

theorem Clocks.apply {e : Engine n} {popped : Fin n → List FeedUpdate} (h : e.Clocks popped)
    {v : Fin n} {batch : FeedBatch} (hbatch : batch.venueIndex = v) :
    (e.apply batch).Clocks (Function.update popped v (popped v ++ batch.updates)) := by
  have hv : (⟨batch.venueIndex, hbatch ▸ v.isLt⟩ : Fin n) = v := Fin.ext hbatch
  rw [Engine.apply, dif_pos (hbatch ▸ v.isLt), hv]
  exact h.applyBatch v batch.updates

@[simp] theorem apply_published (e : Engine n) (batch : FeedBatch) :
    (e.apply batch).published = e.published ∧ (e.apply batch).latest = e.latest ∧
      (e.apply batch).lastPublish = e.lastPublish := by
  have hfold : ∀ (v : Fin n) (updates : List FeedUpdate) (e : Engine n),
      (updates.foldl (Engine.applyUpdate v) e).published = e.published ∧
        (updates.foldl (Engine.applyUpdate v) e).latest = e.latest ∧
        (updates.foldl (Engine.applyUpdate v) e).lastPublish = e.lastPublish := by
    intro v updates
    induction updates with
    | nil => exact fun e => ⟨rfl, rfl, rfl⟩
    | cons u updates ih => exact fun e => ih (e.applyUpdate v u)
  rw [Engine.apply]
  split_ifs
  · exact hfold _ _ _
  · exact ⟨rfl, rfl, rfl⟩

end Engine

namespace AggregatorSystem
variable {n : ℕ} {σ : Fin n → Type} {p : (v : Fin n) → VenueProtocol (σ v)} {options : Options}
  {capacity : ℕ} {config : EngineConfig} {start : (v : Fin n) → Runner (σ v)}
  {s next : AggregatorSystem σ}

def popped (s : AggregatorSystem σ) (v : Fin n) : List FeedUpdate := updatesOf (s.venues v).popped

def Precedes (a b : Publication n) : Prop := ∀ v, (a.reads v).popped <+: (b.reads v).popped

/-- The publications are numbered from one, each with all that was seen before it. -/
structure Ledger (p : (v : Fin n) → VenueProtocol (σ v)) (config : EngineConfig)
    (s : AggregatorSystem σ) : Prop where
  count : s.engine.published = s.publications.length
  numbered : ∀ (i : ℕ) (pub : Publication n), s.publications[i]? = some pub →
    pub.engine.published = i
  latest : s.engine.latest =
    s.publications.getLast?.map fun pub => pub.book config fun v => (p v).name
  ordered : s.publications.Pairwise Precedes
  behind : ∀ pub ∈ s.publications, ∀ v, (pub.reads v).popped <+: (s.venues v).popped
  clocks : s.engine.Clocks s.popped
  stamped : ∀ pub ∈ s.publications, pub.engine.Clocks fun v => updatesOf (pub.reads v).popped

theorem ledger_create (initial : (v : Fin n) → σ v) :
    Ledger p config (create options initial : AggregatorSystem σ) :=
  ⟨rfl, fun _ _ hpub => (by cases hpub), rfl, .nil, fun _ hpub => (List.not_mem_nil hpub).elim,
    Engine.clocks_initial, fun _ hpub => (List.not_mem_nil hpub).elim⟩

theorem Ledger.carry (h : Ledger p config s) (hpublications : next.publications = s.publications)
    (hpublished : next.engine.published = s.engine.published)
    (hlatest : next.engine.latest = s.engine.latest)
    (hpopped : ∀ v, (s.venues v).popped <+: (next.venues v).popped)
    (hclocks : next.engine.Clocks next.popped) : Ledger p config next := by
  obtain ⟨hcount, hnumbered, hlast, hordered, hbehind, -, hstamped⟩ := h
  rw [← hpublications] at hcount hnumbered hlast hordered hbehind hstamped
  exact ⟨hpublished.trans hcount, hnumbered, hlatest.trans hlast, hordered,
    fun pub hpub v => (hbehind pub hpub v).trans (hpopped v), hclocks, hstamped⟩

theorem Ledger.rephase (h : Ledger p config s) (phase : EnginePhase n) :
    Ledger p config { s with phase := phase } :=
  h.carry rfl rfl rfl (fun _ => List.prefix_rfl) h.clocks

theorem Ledger.venue (h : Ledger p config s) {v : Fin n} {after : VenueSystem (σ v)}
    (hpopped : after.popped = (s.venues v).popped) :
    Ledger p config { s with venues := Function.update s.venues v after } := by
  have hsame : ∀ w, (Function.update s.venues v after w).popped = (s.venues w).popped := by
    intro w
    by_cases hw : w = v
    · subst hw
      rw [Function.update_self, hpopped]
    · rw [Function.update_of_ne hw]
  refine h.carry rfl rfl rfl ?_ ?_
  · intro w
    exact (hsame w).symm ▸ List.prefix_rfl
  · have hall : popped { s with venues := Function.update s.venues v after } = s.popped := by
      funext w
      simp only [popped, hsame]
    rw [hall]
    exact h.clocks

theorem Ledger.pop (h : Ledger p config s) {v : Fin n} {batch : FeedBatch}
    {ring : List FeedBatch} (hindex : batch.venueIndex = v) (phase : EnginePhase n) :
    Ledger p config
      { s with
        venues := Function.update s.venues v
          { s.venues v with ring := ring, popped := (s.venues v).popped ++ [batch] }
        engine := s.engine.apply batch
        phase := phase } := by
  obtain ⟨hpublished, hlatest, -⟩ := s.engine.apply_published batch
  refine h.carry rfl hpublished hlatest ?_ ?_
  · intro w
    by_cases hw : w = v
    · subst hw
      simp
    · simp [hw]
  · have hall : popped
        { s with
          venues := Function.update s.venues v
            { s.venues v with ring := ring, popped := (s.venues v).popped ++ [batch] }
          engine := s.engine.apply batch
          phase := phase } =
        Function.update s.popped v (s.popped v ++ batch.updates) := by
      funext w
      by_cases hw : w = v
      · subst hw
        simp [popped, updatesOf]
      · simp [popped, hw]
    rw [hall]
    exact h.clocks.apply hindex

theorem Ledger.publish (h : Ledger p config s) {started : EngineReading}
    {reads : Fin n → StateRead} (hreads : ∀ v, (reads v).popped = (s.venues v).popped)
    (phase : EnginePhase n) :
    Ledger p config
      { s with
        engine :=
          { s.engine.publish config (fun v => (p v).name) started.nowSteady started.nowWall
              (fun v => (reads v).state) with
            lastPublish := started.now }
        phase := phase
        publications := s.publications ++ [⟨s.engine, started, reads⟩] } := by
  have hseen : (fun v => updatesOf (reads v).popped) = s.popped := by
    funext v
    rw [hreads, popped]
  constructor
  · simp [Engine.publish, h.count]
  · intro i pub hpub
    obtain hlt | hge := Nat.lt_or_ge i s.publications.length
    · rw [List.getElem?_append_left hlt] at hpub
      exact h.numbered i pub hpub
    · rw [List.getElem?_append_right hge, List.getElem?_singleton] at hpub
      split_ifs at hpub with hlast
      cases hpub
      simp only [h.count]
      omega
  · simp [Engine.publish, Publication.book]
  · rw [List.pairwise_append]
    refine ⟨h.ordered, List.pairwise_singleton _ _, fun a ha b hb => ?_⟩
    cases List.mem_singleton.mp hb
    exact fun v => (hreads v).symm ▸ h.behind a ha v
  · exact List.forall_mem_append.mpr
      ⟨h.behind, List.forall_mem_singleton.mpr fun v => hreads v ▸ List.prefix_rfl⟩
  · exact ⟨h.clocks.received, h.clocks.stamped, h.clocks.newest, h.clocks.attained⟩
  · exact List.forall_mem_append.mpr
      ⟨h.stamped, List.forall_mem_singleton.mpr (hseen ▸ h.clocks)⟩

theorem Ledger.step (h : Ledger p config s) (hsound : Sound p options start s)
    (hindex : ∀ v, ∀ batch ∈ (s.venues v).ring, batch.venueIndex = v) {move : AggregatorMove n}
    (hstep : Stepped p options capacity config s move next) : Ledger p config next := by
  cases hstep with
  | refused move => exact h
  | venue hmove hstep => exact h.venue (VenueSystem.step_popped hmove hstep)
  | turn hphase hend => exact h.rephase _
  | pop hphase hbudget hring => exact h.pop (hindex _ _ (by simp [hring])) _
  | select hphase hvenue hdue => exact h.rephase _
  | sleep hphase hvenue hearly => exact h.rephase _
  | read hphase => exact h.rephase _
  | publish hphase hnext =>
    have hreads := hsound.reads
    rw [hphase] at hreads
    exact h.publish (fun v => (hreads v (v.isLt.trans_le hnext)).2) _

end AggregatorSystem

end CexAggregator
