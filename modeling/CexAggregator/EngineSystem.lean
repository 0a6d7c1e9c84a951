import CexAggregator.Engine
import CexAggregator.NoLoss

/-!
# The venues and the engine together

Every venue thread takes its steps; the engine's steps are the pops of its drain, the reading
of one venue's status after the other, and the publication.
-/

namespace CexAggregator
open Program

structure EngineReading where
  now : Int := 0
  nowSteady : Int := 0
  nowWall : Int := 0

/-- A status that has been read. Beside the state, all is for the specification: what the
venue had done by then, what the engine had popped, and how much waited in the ring. -/
structure StateRead where
  state : VenueState := .kDisconnected
  trace : List (Act Note Query) := []
  popped : List FeedBatch := []
  waiting : ℕ := 0

def VenueSystem.read {σ : Type} (s : VenueSystem σ) : StateRead :=
  ⟨s.state, s.trace, s.popped, s.ring.length⟩

inductive EnginePhase (n : ℕ) where
  | draining (venue drained : ℕ) (changed : Bool)
  | selecting (reading : EngineReading) (next : ℕ) (reads : Fin n → StateRead)

structure Publication (n : ℕ) where
  engine : Engine n
  reading : EngineReading
  reads : Fin n → StateRead

structure AggregatorSystem {n : ℕ} (σ : Fin n → Type) where
  venues : (v : Fin n) → VenueSystem (σ v)
  engine : Engine n := {}
  phase : EnginePhase n := .draining 0 0 false
  publications : List (Publication n) := []

inductive AggregatorMove (n : ℕ) where
  | venue (v : Fin n) (move : VenueMove)
  | engine (reading : EngineReading)

namespace AggregatorSystem
variable {n : ℕ} {σ : Fin n → Type}

section Steps
variable (p : (v : Fin n) → VenueProtocol (σ v)) (options : Options) (capacity : ℕ)
  (config : EngineConfig)

def create (initial : (v : Fin n) → σ v) : AggregatorSystem σ where
  venues v := .create (initial v) options

/-- One `Pop` with its `Apply`, or the end of a venue's turn. -/
def drain (s : AggregatorSystem σ) (v : Fin n) (drained : ℕ) (changed : Bool) :
    AggregatorSystem σ :=
  match (s.venues v).ring with
  | [] => { s with phase := .draining (v + 1) drained changed }
  | batch :: ring =>
    { s with
      venues := Function.update s.venues v
        { s.venues v with ring := ring, popped := (s.venues v).popped ++ [batch] }
      engine := s.engine.apply batch
      phase := .draining v (drained + 1) true }

def engineStep (s : AggregatorSystem σ) (reading : EngineReading) : AggregatorSystem σ :=
  match s.phase with
  | .draining venue drained changed =>
    if h : venue < n then
      if drained < kMaxBatchesPerPass then s.drain ⟨venue, h⟩ drained changed
      else { s with phase := .draining (venue + 1) drained changed }
    else if changed ∨ config.heartbeatInterval ≤ reading.now - s.engine.lastPublish then
      { s with phase := .selecting reading 0 fun _ => {} }
    else { s with phase := .draining 0 0 false }
  | .selecting started next reads =>
    if h : next < n then
      { s with
        phase := .selecting started (next + 1)
          (Function.update reads ⟨next, h⟩ (s.venues ⟨next, h⟩).read) }
    else
      { s with
        engine :=
          { s.engine.publish config (fun v => (p v).name) started.nowSteady started.nowWall
              (fun v => (reads v).state) with
            lastPublish := started.now }
        phase := .draining 0 0 false
        publications := s.publications ++ [⟨s.engine, started, reads⟩] }

def step (s : AggregatorSystem σ) : AggregatorMove n → AggregatorSystem σ
  | .venue _ .pop => s
  | .venue v move =>
    { s with
      venues := Function.update s.venues v
        (((s.venues v).step (p v) options v capacity move).getD (s.venues v)) }
  | .engine reading => s.engineStep p config reading

def run (s : AggregatorSystem σ) (moves : List (AggregatorMove n)) : AggregatorSystem σ :=
  moves.foldl (step p options capacity config) s

end Steps

end AggregatorSystem

namespace Publication
variable {n : ℕ}

def venues (config : EngineConfig) (pub : Publication n) : List (Fin n) :=
  pub.engine.selected config pub.reading.nowSteady fun v => (pub.reads v).state

def book (config : EngineConfig) (names : Fin n → String) (pub : Publication n) :
    ConsolidatedBook :=
  pub.engine.consolidate config names pub.reading.nowSteady pub.reading.nowWall
    fun v => (pub.reads v).state

end Publication

namespace Engine
variable {n : ℕ}

theorem foldl_applyUpdate_books (v : Fin n) (updates : List FeedUpdate) (e : Engine n) :
    (updates.foldl (applyUpdate v) e).books =
      Function.update e.books v (applyUpdates (e.books v) updates) := by
  induction updates generalizing e with
  | nil => simp
  | cons update updates ih =>
    rw [List.foldl_cons, ih]
    simp [applyUpdate]

theorem apply_books (e : Engine n) {v : Fin n} {batch : FeedBatch} (h : batch.venueIndex = v) :
    (e.apply batch).books =
      Function.update e.books v (applyUpdates (e.books v) batch.updates) := by
  have hv : (⟨batch.venueIndex, h ▸ v.isLt⟩ : Fin n) = v := Fin.ext h
  rw [apply, dif_pos (h ▸ v.isLt), hv]
  exact foldl_applyUpdate_books v batch.updates e

end Engine

end CexAggregator
