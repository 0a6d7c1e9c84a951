import Mathlib.Data.List.DropRight
import CexAggregator.BinanceRace
import CexAggregator.EngineSystem

/-!
# What a published book was seeded by

The status and the batches of a venue reach the engine on separate channels. A book that is
merged comes from the current session exactly when the engine has already popped the first
batch of that session, which is the one with the snapshot.
-/

namespace CexAggregator
open Program

def isBegan : Act Note Query → Bool
  | .emitted (.began _ _) => true
  | _ => false

def sinceBegan (trace : List (Act Note Query)) : List (Act Note Query) :=
  trace.rtakeWhile fun act => !isBegan act

def beforeBegan (trace : List (Act Note Query)) : List (Act Note Query) :=
  trace.rdropWhile fun act => !isBegan act

def updatesOf (batches : List FeedBatch) : List FeedUpdate := batches.flatMap FeedBatch.updates

/-- The book is what a snapshot and the updates after it make, and the ring took that
snapshot after the venue's last session or resync had begun. -/
def SeededSince (read : StateRead) (book : VenueBook) : Prop :=
  ∃ us u vs, updatesOf read.popped = us ++ u :: vs ∧ u.isSnapshot = true ∧
    (acceptedUpdates (beforeBegan read.trace)).length ≤ us.length ∧
    book = applyUpdates {} (u :: vs)

/-- The engine has popped the first batch of the venue's last session or resync. -/
def CaughtUp (read : StateRead) : Prop :=
  read.waiting < (acceptedBatches (sinceBegan read.trace)).length

instance (read : StateRead) : Decidable (CaughtUp read) := inferInstanceAs (Decidable (_ < _))

section Reads
variable {venueIndex : ℕ} {successor : FeedUpdate → FeedUpdate → Prop} {w : Watch}
  {acts trace : List (Act Note Query)}

theorem breaks_of_isBegan {act : Act Note Query} (h : isBegan act = true) : breaks act = true := by
  cases act with
  | asked b accepted => cases h
  | emitted e =>
    cases e with
    | began state leftover => rfl
    | stored state => cases h
    | handling source => cases h
    | reset => cases h
    | called rest verdict synced => cases h
    | scheduled delay => cases h

theorem pushed_of_honored (h : Honored Watch.track (Lawful venueIndex successor) w acts) :
    ∀ batch ∈ acceptedBatches acts, batch.venueIndex = venueIndex ∧ batch.updates ≠ [] := by
  induction acts generalizing w with
  | nil => exact fun _ hmem => by cases hmem
  | cons act acts ih =>
    intro batch hmem
    obtain ⟨a, ha, hbatch⟩ := List.mem_filterMap.mp hmem
    obtain rfl | ha := List.mem_cons.mp ha
    · apply h.1.pushed batch
      cases a with
      | emitted e => cases hbatch
      | asked b accepted =>
        cases b with
        | stopping => cases hbatch
        | push offered =>
          cases accepted with
          | false => cases hbatch
          | true => exact hbatch
    · exact ih h.2 batch (List.mem_filterMap.mpr ⟨a, ha, hbatch⟩)

theorem beforeBegan_append (trace : List (Act Note Query)) :
    beforeBegan trace ++ sinceBegan trace = trace :=
  List.rdropWhile_append_rtakeWhile

theorem beforeBegan_cases (trace : List (Act Note Query)) :
    beforeBegan trace = [] ∨ ∃ pre act, beforeBegan trace = pre ++ [act] ∧ isBegan act = true := by
  by_cases hempty : beforeBegan trace = []
  · exact Or.inl hempty
  · have hlast := List.rdropWhile_last_not _ _ hempty
    rw [Bool.not_eq_true, Bool.not_eq_false'] at hlast
    exact Or.inr ⟨_, _, (List.dropLast_append_getLast hempty).symm, hlast⟩

theorem chained_sinceBegan (h : Honored Watch.track (Lawful venueIndex successor) {} trace) :
    Chained successor none (acceptedUpdates (sinceBegan trace)) := by
  rw [← beforeBegan_append trace] at h
  obtain hempty | ⟨pre, act, hbefore, hbegan⟩ := beforeBegan_cases trace
  · rw [hempty] at h
    exact chained_of_honored h
  · rw [hbefore, List.append_assoc, List.singleton_append] at h
    have hrest := chained_of_honored h.after
    rwa [track_last_of_breaks (breaks_of_isBegan hbegan)] at hrest

theorem acceptedBatches_split (trace : List (Act Note Query)) :
    acceptedBatches (beforeBegan trace) ++ acceptedBatches (sinceBegan trace) =
      acceptedBatches trace := by
  conv_rhs => rw [← beforeBegan_append trace]
  exact List.filterMap_append.symm

theorem head_sinceBegan (h : Honored Watch.track (Lawful venueIndex successor) {} trace)
    {batch : FeedBatch} {rest : List FeedBatch}
    (hbatches : acceptedBatches (sinceBegan trace) = batch :: rest) :
    ∃ u us, batch.updates = u :: us ∧ u.isSnapshot = true := by
  have hmem : batch ∈ acceptedBatches trace := by
    rw [← acceptedBatches_split, hbatches]
    exact List.mem_append_right _ (List.mem_cons_self ..)
  obtain ⟨u, us, hupdates⟩ := List.exists_cons_of_ne_nil (pushed_of_honored h batch hmem).2
  have hchain := chained_sinceBegan h
  rw [acceptedUpdates, hbatches, List.flatMap_cons, hupdates] at hchain
  exact ⟨u, us, hupdates, hchain.head_snapshot⟩

theorem applyUpdates_of_snapshot {u : FeedUpdate} (h : u.isSnapshot = true)
    (us vs : List FeedUpdate) :
    applyUpdates {} (us ++ u :: vs) = applyUpdates {} (u :: vs) := by
  rw [applyUpdates_append, applyUpdates_cons, applyUpdates_cons, applyFeedUpdate, applyFeedUpdate,
    if_pos h, if_pos h]
  rfl

theorem not_seededSince_of_behind {read : StateRead} {book : VenueBook}
    (h : (updatesOf read.popped).length ≤ (acceptedUpdates (beforeBegan read.trace)).length) :
    ¬ SeededSince read book := by
  rintro ⟨us, u, vs, hpopped, -, hlength, -⟩
  rw [hpopped, List.length_append, List.length_cons] at h
  omega

theorem seededSince_iff_caughtUp {read : StateRead} {ring : List FeedBatch} {book : VenueBook}
    (hlawful : Honored Watch.track (Lawful venueIndex successor) {} read.trace)
    (hring : acceptedBatches read.trace = read.popped ++ ring)
    (hwaiting : read.waiting = ring.length)
    (hbook : book = applyUpdates {} (updatesOf read.popped)) :
    SeededSince read book ↔ CaughtUp read := by
  rw [← acceptedBatches_split] at hring
  rw [CaughtUp, hwaiting]
  constructor
  · intro hseeded
    by_contra hbehind
    apply not_seededSince_of_behind _ hseeded
    have hpast : ∃ cs, acceptedBatches (beforeBegan read.trace) = read.popped ++ cs := by
      obtain ⟨extra, hextra, hsince⟩ | ⟨cs, hcs, -⟩ := List.append_eq_append_iff.mp hring
      · have hnone : extra = [] := by
          rw [hsince, List.length_append] at hbehind
          exact List.length_eq_zero_iff.mp (by omega)
        exact ⟨[], by simp [hextra, hnone]⟩
      · exact ⟨cs, hcs⟩
    obtain ⟨cs, hcs⟩ := hpast
    rw [acceptedUpdates, hcs, List.flatMap_append, List.length_append]
    exact Nat.le_add_right _ _
  · intro hcaught
    obtain ⟨extra, hextra, hsince⟩ | ⟨cs, -, hcs⟩ := List.append_eq_append_iff.mp hring
    · cases extra with
      | nil =>
        rw [hsince, List.nil_append] at hcaught
        exact (lt_irrefl _ hcaught).elim
      | cons batch rest =>
        obtain ⟨u, us, hupdates, hsnapshot⟩ := head_sinceBegan hlawful hsince
        have hpopped : updatesOf read.popped =
            acceptedUpdates (beforeBegan read.trace) ++ u :: (us ++ updatesOf rest) := by
          simp [updatesOf, acceptedUpdates, hextra, hupdates]
        refine ⟨_, u, us ++ updatesOf rest, hpopped, hsnapshot, le_rfl, ?_⟩
        rw [hbook, hpopped, applyUpdates_of_snapshot hsnapshot]
    · rw [hcs, List.length_append] at hcaught
      omega

end Reads

namespace AggregatorSystem
variable {n : ℕ} {σ : Fin n → Type} {p : (v : Fin n) → VenueProtocol (σ v)} {options : Options}
  {capacity : ℕ} {config : EngineConfig}

def ReadOf (p : (v : Fin n) → VenueProtocol (σ v)) (options : Options)
    (start : (v : Fin n) → Runner (σ v)) (v : Fin n) (read : StateRead) : Prop :=
  ∃ s : VenueSystem (σ v), s.Consistent (p v) options v (start v) ∧ read = s.read

def BooksOf (e : Engine n) (popped : Fin n → List FeedBatch) : Prop :=
  ∀ v, e.books v = applyUpdates {} (updatesOf (popped v))

/-- While the engine reads the states nothing is popped. -/
def ReadsOf (p : (v : Fin n) → VenueProtocol (σ v)) (options : Options)
    (start : (v : Fin n) → Runner (σ v)) (venues : (v : Fin n) → VenueSystem (σ v)) :
    EnginePhase n → Prop
  | .draining _ _ _ => True
  | .selecting _ next reads => ∀ v : Fin n, v < next →
      ReadOf p options start v (reads v) ∧ (reads v).popped = (venues v).popped

structure Sound (p : (v : Fin n) → VenueProtocol (σ v)) (options : Options)
    (start : (v : Fin n) → Runner (σ v)) (s : AggregatorSystem σ) : Prop where
  venues : ∀ v, (s.venues v).Consistent (p v) options v (start v)
  books : BooksOf s.engine fun v => (s.venues v).popped
  reads : ReadsOf p options start s.venues s.phase
  published : ∀ pub ∈ s.publications,
    BooksOf pub.engine (fun v => (pub.reads v).popped) ∧ ∀ v, ReadOf p options start v (pub.reads v)

section Steps
variable {start : (v : Fin n) → Runner (σ v)} {s : AggregatorSystem σ}

theorem sound_create (initial : (v : Fin n) → σ v) :
    Sound p options (fun v => .create (initial v) options) (create options initial) :=
  ⟨fun v => VenueSystem.consistent_create (initial v), fun _ => rfl, trivial,
    fun _ hpub => by cases hpub⟩

theorem Sound.venue (h : Sound p options start s) {v : Fin n} {next : VenueSystem (σ v)}
    (hnext : next.Consistent (p v) options v (start v))
    (hpopped : next.popped = (s.venues v).popped) :
    Sound p options start { s with venues := Function.update s.venues v next } := by
  have hsame : ∀ u, (Function.update s.venues v next u).popped = (s.venues u).popped := by
    intro u
    by_cases hu : u = v
    · subst hu
      rw [Function.update_self, hpopped]
    · rw [Function.update_of_ne hu]
  refine ⟨fun u => ?_, fun u => ?_, ?_, h.published⟩
  · by_cases hu : u = v
    · subst hu
      simpa using hnext
    · simpa [hu] using h.venues u
  · simpa only [hsame] using h.books u
  · have hreads := h.reads
    cases hphase : s.phase with
    | draining venue drained changed => trivial
    | selecting reading next reads =>
      rw [hphase] at hreads
      exact fun u hu => ⟨(hreads u hu).1, (hreads u hu).2.trans (hsame u).symm⟩

theorem Sound.drain (h : Sound p options start s) {v : Fin n}
    (hindex : ∀ batch ∈ (s.venues v).ring, batch.venueIndex = v) (drained : ℕ) (changed : Bool) :
    Sound p options start (s.drain v drained changed) := by
  rw [AggregatorSystem.drain]
  split
  · exact ⟨h.venues, h.books, trivial, h.published⟩
  · rename_i batch ring hring
    have hbatch : batch.venueIndex = v := hindex batch (by simp [hring])
    refine ⟨fun u => ?_, fun u => ?_, trivial, h.published⟩
    · by_cases hu : u = v
      · subst hu
        have hstep : (s.venues u).step (p u) options u 0 .pop =
            some { s.venues u with ring := ring, popped := (s.venues u).popped ++ [batch] } := by
          simp [VenueSystem.step, hring]
        simpa using (h.venues u).step hstep
      · simpa [hu] using h.venues u
    · rw [Engine.apply_books _ hbatch]
      by_cases hu : u = v
      · subst hu
        have hbook := congrArg (applyUpdates · batch.updates) (h.books u)
        simpa [updatesOf, applyUpdates_append] using hbook
      · simpa [hu] using h.books u

theorem Sound.engineStep (h : Sound p options start s)
    (hindex : ∀ v, ∀ batch ∈ (s.venues v).ring, batch.venueIndex = v) (reading : EngineReading) :
    Sound p options start (s.engineStep p config reading) := by
  rw [AggregatorSystem.engineStep]
  split
  · split_ifs
    · exact h.drain (hindex _) _ _
    · exact ⟨h.venues, h.books, trivial, h.published⟩
    · exact ⟨h.venues, h.books, fun v hv => (Nat.not_lt_zero _ hv).elim, h.published⟩
    · exact ⟨h.venues, h.books, trivial, h.published⟩
  · rename_i started next reads hphase
    have hreads := h.reads
    rw [hphase] at hreads
    split_ifs with hnext
    · refine ⟨h.venues, h.books, fun v hv => ?_, h.published⟩
      by_cases hcase : v = ⟨next, hnext⟩
      · subst hcase
        simpa using ⟨⟨_, h.venues _, rfl⟩, rfl⟩
      · have hlt : v < next := by
          have hne : v.val ≠ next := fun he => hcase (Fin.ext he)
          omega
        simpa [hcase] using hreads v hlt
    · have hall : ∀ v : Fin n, ReadOf p options start v (reads v) ∧
          (reads v).popped = (s.venues v).popped := fun v => hreads v (by omega)
      refine ⟨h.venues, h.books, trivial, ?_⟩
      refine List.forall_mem_append.mpr ⟨h.published, List.forall_mem_singleton.mpr ⟨fun v => ?_,
        fun v => (hall v).1⟩⟩
      exact (h.books v).trans (congrArg (fun popped => applyUpdates {} (updatesOf popped))
        (hall v).2.symm)

theorem Sound.step (h : Sound p options start s)
    (hindex : ∀ v, ∀ batch ∈ (s.venues v).ring, batch.venueIndex = v) (move : AggregatorMove n) :
    Sound p options start (s.step p options capacity config move) := by
  cases move with
  | engine reading => exact h.engineStep hindex reading
  | venue v move =>
    by_cases hpop : move = .pop
    · subst hpop
      exact h
    · rw [AggregatorSystem.step]
      · cases hstep : (s.venues v).step (p v) options v capacity move with
        | none => exact h.venue (h.venues v) rfl
        | some next =>
          exact h.venue ((h.venues v).step hstep) (VenueSystem.step_popped hpop hstep)
      · exact hpop

theorem Sound.run (h : Sound p options start s)
    (hindex : ∀ s', Sound p options start s' → ∀ v, ∀ batch ∈ (s'.venues v).ring,
      batch.venueIndex = v) (moves : List (AggregatorMove n)) :
    Sound p options start (s.run p options capacity config moves) := by
  induction moves generalizing s with
  | nil => exact h
  | cons move moves ih => exact ih (h.step (hindex s h) move)

end Steps

end AggregatorSystem

section Adapters
variable {n : ℕ} (parse : JsonParser) (adapters : Fin n → Adapter) (options : Options)

theorem honored_of_consistent {v : Fin n} {s : VenueSystem (adapters v).State}
    (h : s.Consistent ((adapters v).protocol parse) options v
      (Runner.create (adapters v).initial options)) :
    Honored Watch.track (Lawful v (adapters v).Successor) {} s.trace :=
  (meets_of_consistent ((adapters v).sequenced parse) ((adapters v).standing parse options) h).1

theorem venueIndex_of_consistent {v : Fin n} {s : VenueSystem (adapters v).State}
    (h : s.Consistent ((adapters v).protocol parse) options v
      (Runner.create (adapters v).initial options)) :
    ∀ batch ∈ s.ring, batch.venueIndex = v := by
  intro batch hbatch
  have haccepted : batch ∈ acceptedBatches s.trace := by
    rw [h.ring]
    exact List.mem_append_right _ hbatch
  exact (pushed_of_honored (honored_of_consistent parse adapters options h) batch haccepted).1

def aggregate (capacity : ℕ) (config : EngineConfig) (moves : List (AggregatorMove n)) :
    AggregatorSystem fun v => (adapters v).State :=
  (AggregatorSystem.create options fun v => (adapters v).initial).run
    (fun v => (adapters v).protocol parse) options capacity config moves

theorem sound_aggregate (capacity : ℕ) (config : EngineConfig) (moves : List (AggregatorMove n)) :
    AggregatorSystem.Sound (fun v => (adapters v).protocol parse) options
      (fun v => .create (adapters v).initial options)
      (aggregate parse adapters options capacity config moves) :=
  (AggregatorSystem.sound_create _).run
    (fun _ h v => venueIndex_of_consistent parse adapters options (h.venues v)) moves

theorem contributing_seeded_iff_caughtUp (capacity : ℕ) (config : EngineConfig)
    (moves : List (AggregatorMove n)) :
    ∀ pub ∈ (aggregate parse adapters options capacity config moves).publications,
      ∀ v ∈ pub.venues config,
        SeededSince (pub.reads v) (pub.engine.books v) ↔ CaughtUp (pub.reads v) := by
  intro pub hpub v _
  obtain ⟨hbooks, hreads⟩ :=
    (sound_aggregate parse adapters options capacity config moves).published pub hpub
  obtain ⟨s, hs, hread⟩ := hreads v
  have hbook : pub.engine.books v = applyUpdates {} (updatesOf (pub.reads v).popped) := hbooks v
  rw [hread] at hbook ⊢
  exact seededSince_iff_caughtUp (honored_of_consistent parse adapters options hs) hs.ring rfl hbook

end Adapters

/-- The venue loses its place. The engine finds nothing to drain; before it reads the status
the venue has pushed the new snapshot and is live again. -/
def overtakenMoves : List (AggregatorMove 1) :=
  let venue : List VenueMove → List (AggregatorMove 1) := List.map (.venue 0)
  let snapshot : List VenueMove :=
    .handle { now := 1 } (.response 0 (some (utf8 Binance.lateSnapshotText))) ::
      List.replicate 12 .act
  venue (VenueSystem.opened ++ snapshot) ++
    List.replicate 5 (.engine ⟨2000000000, 2000000000, 0⟩) ++
    venue (VenueSystem.handled (.read 1 (some (utf8 (Binance.emptyEventText "102" "110"))))) ++
    List.replicate 2 (.engine ⟨4000000000, 4000000000, 0⟩) ++ venue snapshot ++
    List.replicate 2 (.engine ⟨4000000000, 4000000000, 0⟩)

theorem contributing_seeded_first :
    ∃ pub ∈ (aggregate Binance.lateParser (fun _ : Fin 1 => .binance {}) {} 1024 {}
        overtakenMoves).publications, 0 ∈ pub.venues {} ∧
      SeededSince (pub.reads 0) (pub.engine.books 0) := by
  have hcaught : ∃ pub ∈ (aggregate Binance.lateParser (fun _ : Fin 1 => .binance {}) {} 1024 {}
      overtakenMoves).publications, 0 ∈ pub.venues {} ∧ CaughtUp (pub.reads 0) := by
    decide +kernel
  obtain ⟨pub, hpub, hvenue, hcaught⟩ := hcaught
  refine ⟨pub, hpub, hvenue, ?_⟩
  exact (contributing_seeded_iff_caughtUp Binance.lateParser (fun _ : Fin 1 => .binance {}) {} 1024
    {} overtakenMoves pub hpub 0 hvenue).mpr hcaught

theorem overtaken_contributes :
    ¬ ∀ pub ∈ (aggregate Binance.lateParser (fun _ : Fin 1 => .binance {}) {} 1024 {}
        overtakenMoves).publications, ∀ v ∈ pub.venues {},
      SeededSince (pub.reads v) (pub.engine.books v) := by
  have hbehind : ∃ pub ∈ (aggregate Binance.lateParser (fun _ : Fin 1 => .binance {}) {} 1024 {}
      overtakenMoves).publications, 0 ∈ pub.venues {} ∧
      (updatesOf (pub.reads 0).popped).length ≤
        (acceptedUpdates (beforeBegan (pub.reads 0).trace)).length := by
    decide +kernel
  obtain ⟨pub, hpub, hvenue, hlength⟩ := hbehind
  exact fun h => not_seededSince_of_behind hlength (h pub hpub 0 hvenue)

end CexAggregator
