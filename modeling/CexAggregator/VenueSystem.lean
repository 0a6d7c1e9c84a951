import CexAggregator.Runner

/-!
# A venue's thread, its ring and its status

The steps of the thread, the engine's pops and the call of `Stop`, in any order. A step of
the thread is one act of the handler it is in, or the start of the next handler. The trace
records what the thread has done; ring and status follow from it.
-/

namespace CexAggregator
open Program

def stateAfter (state : VenueState) : Act Note Query → VenueState
  | .emitted (.stored next) => next
  | .emitted (.began next _) => next
  | _ => state

def acceptedBatch : Act Note Query → Option FeedBatch
  | .asked (.push batch) true => some batch
  | _ => none

def pushedBatch : Act Note Query → Option FeedBatch
  | .asked (.push batch) _ => some batch
  | _ => none

def acceptedBatches (trace : List (Act Note Query)) : List FeedBatch :=
  trace.filterMap acceptedBatch

def acceptedUpdates (trace : List (Act Note Query)) : List FeedUpdate :=
  (acceptedBatches trace).flatMap FeedBatch.updates

theorem acceptedBatches_snoc (trace : List (Act Note Query)) (act : Act Note Query) :
    acceptedBatches (trace ++ [act]) = acceptedBatches trace ++ (acceptedBatch act).toList := by
  rw [acceptedBatches, List.filterMap_append]
  cases hact : acceptedBatch act <;> simp [hact, acceptedBatches]

theorem acceptedUpdates_append (as bs : List (Act Note Query)) :
    acceptedUpdates (as ++ bs) = acceptedUpdates as ++ acceptedUpdates bs := by
  simp [acceptedUpdates, acceptedBatches]

theorem acceptedUpdates_cons (act : Act Note Query) (acts : List (Act Note Query)) :
    acceptedUpdates (act :: acts) = acceptedUpdates [act] ++ acceptedUpdates acts :=
  acceptedUpdates_append [act] acts

structure VenueSystem (σ : Type) where
  program : VenueProgram (Runner σ)
  trace : List (Act Note Query) := []
  state : VenueState := .kDisconnected
  ring : List FeedBatch := []
  popped : List FeedBatch := []
  stopping : Bool := false
  stopPosted : Bool := false

inductive VenueMove where
  | handle (reading : Reading) (event : Event)
  | act
  | pop
  | stop

namespace VenueSystem
variable {σ : Type} (p : VenueProtocol σ) (options : Options) (venueIndex capacity : ℕ)

def create (initial : σ) (options : Options) : VenueSystem σ where
  program := .done (.create initial options)

def act (s : VenueSystem σ) : Option (VenueSystem σ) :=
  match s.program with
  | .done _ => none
  | .emit note next =>
    some
      { s with
        program := next
        trace := s.trace ++ [.emitted note]
        state := stateAfter s.state (.emitted note) }
  | .ask (.push batch) next =>
    if s.ring.length < capacity then
      some
        { s with
          program := next true
          trace := s.trace ++ [.asked (.push batch) true]
          ring := s.ring ++ [batch] }
    else
      some { s with program := next false, trace := s.trace ++ [.asked (.push batch) false] }
  | .ask .stopping next =>
    some
      { s with
        program := next s.stopping
        trace := s.trace ++ [.asked .stopping s.stopping] }

def step (s : VenueSystem σ) : VenueMove → Option (VenueSystem σ)
  | .handle reading event =>
    match s.program with
    | .done r =>
      if event = .stop ∧ s.stopPosted = false then none
      else
        (r.handle p options venueIndex (reading, event)).map fun program =>
          { s with program := program, stopPosted := s.stopPosted && event ≠ .stop }
    | _ => none
  | .act => s.act capacity
  | .pop =>
    match s.ring with
    | [] => none
    | batch :: ring => some { s with ring := ring, popped := s.popped ++ [batch] }
  | .stop => some { s with stopping := true, stopPosted := s.stopPosted || !s.stopping }

def run (s : VenueSystem σ) (moves : List VenueMove) : VenueSystem σ :=
  moves.foldl (fun s move => (s.step p options venueIndex capacity move).getD s) s

/-- Ring and status follow from the trace, which is one of the thread's. -/
structure Consistent (start : Runner σ) (s : VenueSystem σ) : Prop where
  runs : Runs (Runner.handle p options venueIndex) start s.trace s.program
  state : s.state = s.trace.foldl stateAfter .kDisconnected
  ring : acceptedBatches s.trace = s.popped ++ s.ring

variable {p options venueIndex capacity} {start : Runner σ} {s next : VenueSystem σ}

structure Acted (s : VenueSystem σ) (act : Act Note Query) (next : VenueSystem σ) : Prop where
  program : Advance s.program act next.program
  trace : next.trace = s.trace ++ [act]
  state : next.state = stateAfter s.state act
  ring : next.ring = s.ring ++ (acceptedBatch act).toList
  popped : next.popped = s.popped

theorem acted_of_act (hact : s.act capacity = some next) : ∃ act, Acted s act next := by
  unfold VenueSystem.act at hact
  split at hact
  · cases hact
  · rename_i note rest hprogram
    cases hact
    exact ⟨.emitted note, hprogram ▸ .emit note rest, rfl, rfl, (List.append_nil _).symm, rfl⟩
  · rename_i batch rest hprogram
    split_ifs at hact with hroom
    · cases hact
      exact ⟨.asked (.push batch) true, hprogram ▸ .ask _ rest true, rfl, rfl, rfl, rfl⟩
    · cases hact
      exact ⟨.asked (.push batch) false, hprogram ▸ .ask _ rest false, rfl, rfl,
        (List.append_nil _).symm, rfl⟩
  · rename_i rest hprogram
    cases hact
    exact ⟨.asked .stopping s.stopping, hprogram ▸ .ask _ rest _, rfl, rfl,
      (List.append_nil _).symm, rfl⟩

variable (p options venueIndex) in
inductive Stepped (s : VenueSystem σ) : VenueMove → VenueSystem σ → Prop
  | handle {reading : Reading} {event : Event} {r : Runner σ} {program : VenueProgram (Runner σ)}
      (hdone : s.program = .done r)
      (hhandle : r.handle p options venueIndex (reading, event) = some program) :
      Stepped s (.handle reading event)
        { s with program := program, stopPosted := s.stopPosted && event ≠ .stop }
  | act {next : VenueSystem σ} {act : Act Note Query} (hacted : Acted s act next) :
      Stepped s .act next
  | pop {batch : FeedBatch} {ring : List FeedBatch} (hring : s.ring = batch :: ring) :
      Stepped s .pop { s with ring := ring, popped := s.popped ++ [batch] }
  | stop : Stepped s .stop { s with stopping := true, stopPosted := s.stopPosted || !s.stopping }

theorem stepped_of_step {move : VenueMove}
    (hstep : s.step p options venueIndex capacity move = some next) :
    Stepped p options venueIndex s move next := by
  cases move with
  | handle reading event =>
    simp only [VenueSystem.step] at hstep
    split at hstep
    · rename_i r hdone
      split_ifs at hstep
      obtain ⟨program, hhandle, rfl⟩ := Option.map_eq_some_iff.mp hstep
      exact .handle hdone hhandle
    · cases hstep
  | act =>
    obtain ⟨act, hacted⟩ := acted_of_act hstep
    exact .act hacted
  | pop =>
    simp only [VenueSystem.step] at hstep
    split at hstep
    · cases hstep
    · rename_i batch ring hring
      cases hstep
      exact .pop hring
  | stop =>
    cases hstep
    exact .stop

theorem Consistent.step (h : Consistent p options venueIndex start s) {move : VenueMove}
    (hstep : s.step p options venueIndex capacity move = some next) :
    Consistent p options venueIndex start next := by
  cases stepped_of_step hstep with
  | handle hdone hhandle => exact ⟨(hdone ▸ h.runs).handle hhandle, h.state, h.ring⟩
  | act hacted =>
    refine ⟨hacted.trace ▸ h.runs.advance hacted.program, ?_, ?_⟩
    · rw [hacted.state, hacted.trace, List.foldl_append, h.state]
      rfl
    · rw [hacted.trace, acceptedBatches_snoc, h.ring, hacted.popped, hacted.ring,
        List.append_assoc]
  | pop hring => exact ⟨h.runs, h.state, by simp [h.ring, hring]⟩
  | stop => exact ⟨h.runs, h.state, h.ring⟩

theorem step_popped {move : VenueMove} (hmove : move ≠ .pop)
    (hstep : s.step p options venueIndex capacity move = some next) : next.popped = s.popped := by
  cases stepped_of_step hstep with
  | handle hdone hhandle => rfl
  | act hacted => exact hacted.popped
  | pop hring => exact (hmove rfl).elim
  | stop => rfl

theorem step_ring {move : VenueMove} (hmove : move ≠ .pop)
    (hstep : s.step p options venueIndex capacity move = some next) : s.ring <+: next.ring := by
  cases stepped_of_step hstep with
  | handle hdone hhandle => exact List.prefix_rfl
  | act hacted => exact hacted.ring ▸ List.prefix_append _ _
  | pop hring => exact (hmove rfl).elim
  | stop => exact List.prefix_rfl

theorem consistent_create (initial : σ) :
    Consistent p options venueIndex (Runner.create initial options) (create initial options) :=
  ⟨.start, rfl, rfl⟩

theorem Consistent.run (h : Consistent p options venueIndex start s) (moves : List VenueMove) :
    Consistent p options venueIndex start (s.run p options venueIndex capacity moves) := by
  induction moves generalizing s with
  | nil => exact h
  | cons move moves ih =>
    apply ih (s := (s.step p options venueIndex capacity move).getD s)
    cases hstep : s.step p options venueIndex capacity move with
    | none => exact h
    | some next => exact h.step hstep

variable (p options venueIndex capacity) in
theorem consistent_run (initial : σ) (moves : List VenueMove) :
    Consistent p options venueIndex (Runner.create initial options)
      ((create initial options).run p options venueIndex capacity moves) :=
  (consistent_create initial).run moves

/-- An event whose handler runs to its end; none has more than 12 acts. -/
def handled (event : Event) : List VenueMove := .handle {} event :: List.replicate 12 .act

def opened : List VenueMove :=
  handled .start ++ (List.replicate 4 (handled (.stage 1 true))).flatten

end VenueSystem

end CexAggregator
