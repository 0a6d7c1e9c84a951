import CexAggregator.Engine
import CexAggregator.ConflatingSlot

/-!
# One stream and the engine

`Publish` in its three parts, what the engine does to one slot, and the thread that serves
that slot. `RunStream` goes on from one blocking or shared access to the next; what it does
to its own variables in between is part of the step before. The clock only moves forward.
-/

namespace CexAggregator

/-- Microseconds in the subscription, nanoseconds on the clock. -/
def minInterval (minIntervalMicros : UInt32) : Int := minIntervalMicros.toNat * 1000

inductive PublishPhase where
  | idle
  | storing (book : ConsolidatedBook)
  | delivering (book : ConsolidatedBook)
deriving DecidableEq

inductive StreamPhase where
  | subscribing
  | reading
  | sendingInitial (book : ConsolidatedBook)
  | checking
  | waiting
  | woken (book : Option ConsolidatedBook)
  | throttling (book : ConsolidatedBook)
  | sending (book : ConsolidatedBook)
  | stopping
  | removing
  | finished
deriving DecidableEq

structure Emission where
  sequence : ℕ
  lastSent : Option Int
deriving DecidableEq

/-- The serving thread's own variables. A `last_sent` of `none` is `time_point::min()`; what has
been emitted is kept for the specification. -/
structure StreamThread where
  phase : StreamPhase := .subscribing
  lastSequence : ℕ := 0
  lastSent : Option Int := none
  emitted : List Emission := []
deriving DecidableEq

namespace StreamThread

def tooSoon (minIntervalMicros : UInt32) (thread : StreamThread) (now : Int) : Bool :=
  thread.lastSent.any fun sent => now - sent < minInterval minIntervalMicros

def emit (thread : StreamThread) (book : ConsolidatedBook) : StreamThread :=
  { thread with emitted := thread.emitted ++ [⟨book.sequence, thread.lastSent⟩] }

def initialSent (thread : StreamThread) (book : ConsolidatedBook) (now : Int) (written : Bool) :
    StreamThread :=
  if written then
    { { thread with lastSequence := book.sequence, lastSent := some now }.emit book with
      phase := .checking }
  else { thread.emit book with phase := .stopping }

def wake (minIntervalMicros : UInt32) (thread : StreamThread) (stopped : Bool)
    (answer : Option ConsolidatedBook) : StreamThread :=
  if stopped then { thread with phase := .stopping }
  else
    match answer with
    | none => { thread with phase := .checking }
    | some book =>
      if book.sequence ≤ thread.lastSequence then { thread with phase := .checking }
      else
        { thread with
          lastSequence := book.sequence
          phase := if 0 < minInterval minIntervalMicros then .throttling book else .sending book }

/-- `last_sequence` has been advanced by now. -/
def throttle (minIntervalMicros : UInt32) (thread : StreamThread) (now : Int)
    (book : ConsolidatedBook) : StreamThread :=
  if thread.tooSoon minIntervalMicros now then { thread with phase := .checking }
  else { thread with lastSent := some now, phase := .sending book }

def sent (thread : StreamThread) (book : ConsolidatedBook) (written : Bool) : StreamThread :=
  { thread.emit book with phase := if written then .checking else .stopping }

end StreamThread

/-- `delivered` are the sequences the slot has accepted, for the specification. -/
structure StreamSystem where
  published : ℕ := 0
  latest : Option ConsolidatedBook := none
  publishing : PublishPhase := .idle
  engineStopped : Bool := false
  registered : Bool := false
  slot : ConflatingSlot ConsolidatedBook := {}
  now : Int := 0
  thread : StreamThread := {}
  delivered : List ℕ := []

structure ClientReading where
  cancelled : Bool := false
  written : Bool := true

inductive StreamMove where
  | publish (book : ConsolidatedBook)
  | engine
  | stopEngine
  | tick (elapsed : ℕ)
  | handler (reading : ClientReading)

namespace StreamSystem

def deliver (s : StreamSystem) (book : ConsolidatedBook) : StreamSystem :=
  if s.registered ∧ (s.slot.publish book).1 then
    { s with
      publishing := .idle
      slot := (s.slot.publish book).2
      delivered := s.delivered ++ [book.sequence] }
  else { s with publishing := .idle }

def engineStep (s : StreamSystem) : Option StreamSystem :=
  match s.publishing with
  | .idle => none
  | .storing book => some { s with latest := some book, publishing := .delivering book }
  | .delivering book => some (s.deliver book)

/-- `Engine::Stop`, once its thread has been joined. -/
def stopEngine (s : StreamSystem) : Option StreamSystem :=
  if s.publishing = .idle ∧ s.engineStopped = false then
    some
      { s with
        engineStopped := true
        registered := false
        slot := if s.registered then s.slot.stop else s.slot }
  else none

def handlerStep (minIntervalMicros : UInt32) (s : StreamSystem) (reading : ClientReading) :
    Option StreamSystem :=
  match s.thread.phase with
  | .subscribing =>
    some { s with registered := true, thread := { s.thread with phase := .reading } }
  | .reading =>
    match s.latest with
    | some initial => some { s with thread := { s.thread with phase := .sendingInitial initial } }
    | none => some { s with thread := { s.thread with phase := .checking } }
  | .sendingInitial book =>
    some { s with thread := s.thread.initialSent book s.now reading.written }
  | .checking =>
    some
      { s with
        thread := { s.thread with phase := if reading.cancelled then .stopping else .waiting } }
  | .waiting =>
    some
      { s with
        slot := s.slot.waitNextFor.2
        thread := { s.thread with phase := .woken s.slot.waitNextFor.1 } }
  | .woken book => some { s with thread := s.thread.wake minIntervalMicros s.slot.stopped book }
  | .throttling book => some { s with thread := s.thread.throttle minIntervalMicros s.now book }
  | .sending book => some { s with thread := s.thread.sent book reading.written }
  | .stopping => some { s with slot := s.slot.stop, thread := { s.thread with phase := .removing } }
  | .removing =>
    some { s with registered := false, thread := { s.thread with phase := .finished } }
  | .finished => none

def step (minIntervalMicros : UInt32) (s : StreamSystem) : StreamMove → Option StreamSystem
  | .publish book =>
    if s.publishing = .idle ∧ s.engineStopped = false then
      some
        { s with
          published := s.published + 1
          publishing := .storing { book with sequence := s.published + 1 } }
    else none
  | .engine => s.engineStep
  | .stopEngine => s.stopEngine
  | .tick elapsed => some { s with now := s.now + elapsed }
  | .handler reading => s.handlerStep minIntervalMicros reading

def run (minIntervalMicros : UInt32) (start : Int) (moves : List StreamMove) : StreamSystem :=
  Machine.run (step minIntervalMicros) { now := start } moves

/-- The three parts together are what the engine's own `Publish` does to its fields. -/
theorem publish_parts {n : ℕ} (config : EngineConfig) (names : Fin n → String) (e : Engine n)
    (nowSteady nowWall : Int) (states : Fin n → VenueState) (minIntervalMicros : UInt32)
    {s : StreamSystem} (hpublished : s.published = e.published) (hidle : s.publishing = .idle)
    (hrunning : s.engineStopped = false) :
    let after := Machine.run (step minIntervalMicros) s
      [.publish (e.consolidate config names nowSteady nowWall states), .engine, .engine]
    after.published = (e.publish config names nowSteady nowWall states).published ∧
      after.latest = (e.publish config names nowSteady nowWall states).latest ∧
      after.publishing = .idle := by
  simp only [Machine.run_cons, Machine.run_nil, Machine.next, step, hidle, hrunning, and_self,
    ↓reduceIte, Option.getD_some, engineStep, deliver, hpublished]
  split_ifs
  · exact ⟨rfl, rfl, rfl⟩
  · exact ⟨rfl, rfl, rfl⟩

end StreamSystem

structure Spaced (interval : Int) (a b : Emission) : Prop where
  apart : ∀ sent ∈ a.lastSent, ∃ next ∈ b.lastSent, sent + interval ≤ next
  timed : 0 < interval → a.lastSent ≠ none

structure Rested (interval : Int) (emitted : List Emission) (lastSent : Option Int)
    (below : ℕ → Prop) : Prop where
  below : ∀ e ∈ emitted, below e.sequence
  last : ∀ e ∈ emitted.getLast?, e.lastSent = lastSent
  timed : emitted ≠ [] → 0 < interval → lastSent ≠ none

structure MaySend (interval : Int) (emitted : List Emission) (next : Emission) : Prop where
  newer : ∀ e ∈ emitted, e.sequence < next.sequence
  spaced : ∀ e ∈ emitted.getLast?, Spaced interval e next
  timed : 0 < interval → next.lastSent ≠ none

namespace StreamThread

def PhaseOk (interval : Int) (thread : StreamThread) : StreamPhase → Prop
  | .subscribing => thread.emitted = []
  | .reading => thread.emitted = []
  | .sendingInitial _ => thread.emitted = []
  | .throttling book => book.sequence = thread.lastSequence ∧
      Rested interval thread.emitted thread.lastSent (· < thread.lastSequence)
  | .sending book => book.sequence = thread.lastSequence ∧
      MaySend interval thread.emitted ⟨thread.lastSequence, thread.lastSent⟩
  | .checking => Rested interval thread.emitted thread.lastSent (· ≤ thread.lastSequence)
  | .waiting => Rested interval thread.emitted thread.lastSent (· ≤ thread.lastSequence)
  | .woken _ => Rested interval thread.emitted thread.lastSent (· ≤ thread.lastSequence)
  | _ => True

structure InOrder (interval : Int) (thread : StreamThread) : Prop where
  increasing : (thread.emitted.map Emission.sequence).Pairwise (· < ·)
  spaced : thread.emitted.IsChain (Spaced interval)
  phase : PhaseOk interval thread thread.phase

section Order
variable {minIntervalMicros : UInt32} {thread : StreamThread} {interval now : Int}
  {book : ConsolidatedBook}

theorem InOrder.withPhase (h : InOrder interval thread) {phase : StreamPhase}
    (hphase : PhaseOk interval thread phase) :
    InOrder interval { thread with phase := phase } := by
  refine ⟨h.increasing, h.spaced, ?_⟩
  cases phase <;> exact hphase

theorem increasing_concat {emitted : List Emission} {next : Emission}
    (h : (emitted.map Emission.sequence).Pairwise (· < ·)) (hsend : MaySend interval emitted next) :
    ((emitted ++ [next]).map Emission.sequence).Pairwise (· < ·) := by
  rw [List.map_append, List.pairwise_append]
  refine ⟨h, List.pairwise_singleton _ _, fun a ha b hb => ?_⟩
  obtain ⟨e, he, rfl⟩ := List.mem_map.mp ha
  cases List.mem_singleton.mp hb
  exact hsend.newer e he

theorem spaced_concat {emitted : List Emission} {next : Emission}
    (h : emitted.IsChain (Spaced interval)) (hsend : MaySend interval emitted next) :
    (emitted ++ [next]).IsChain (Spaced interval) := by
  rw [List.isChain_append]
  refine ⟨h, List.isChain_singleton next, fun e he b hb => ?_⟩
  cases hb
  exact hsend.spaced e he

theorem rested_concat {emitted : List Emission} {next : Emission}
    (hsend : MaySend interval emitted next) :
    Rested interval (emitted ++ [next]) next.lastSent (· ≤ next.sequence) := by
  refine ⟨?_, fun e he => ?_, fun _ => hsend.timed⟩
  · exact List.forall_mem_append.mpr
      ⟨fun e he => (hsend.newer e he).le, List.forall_mem_singleton.mpr le_rfl⟩
  · rw [List.getLast?_concat] at he
    cases he
    rfl

theorem inOrder_initialSent (hfirst : thread.emitted = [])
    (written : Bool) : InOrder interval (thread.initialSent book now written) := by
  have hone : ∀ sent : Option Int, ([(⟨book.sequence, sent⟩ : Emission)].map
      Emission.sequence).Pairwise (· < ·) := fun _ => List.pairwise_singleton _ _
  cases written with
  | true =>
    have hsend : MaySend interval [] ⟨book.sequence, some now⟩ :=
      ⟨by simp, by simp, fun _ => Option.some_ne_none now⟩
    simp only [initialSent, ↓reduceIte, emit, hfirst]
    exact ⟨hone _, List.isChain_singleton _, rested_concat hsend⟩
  | false =>
    simp only [initialSent, Bool.false_eq_true, ↓reduceIte, emit, hfirst]
    exact ⟨hone _, List.isChain_singleton _, trivial⟩

theorem inOrder_wake (h : InOrder (minInterval minIntervalMicros) thread)
    (hrested : Rested (minInterval minIntervalMicros) thread.emitted thread.lastSent
      (· ≤ thread.lastSequence)) (stopped : Bool) (answer : Option ConsolidatedBook) :
    InOrder (minInterval minIntervalMicros) (thread.wake minIntervalMicros stopped answer) := by
  unfold wake
  by_cases hstopped : stopped = true
  · rw [if_pos hstopped]
    exact h.withPhase trivial
  · rw [if_neg hstopped]
    cases answer with
    | none => exact h.withPhase hrested
    | some book =>
      by_cases hold : book.sequence ≤ thread.lastSequence
      · simp only [if_pos hold]
        exact h.withPhase hrested
      · have hnewer : ∀ e ∈ thread.emitted, e.sequence < book.sequence := fun e he =>
          (hrested.below e he).trans_lt (not_le.mp hold)
        by_cases htimed : 0 < minInterval minIntervalMicros
        · simp only [if_neg hold, if_pos htimed]
          exact ⟨h.increasing, h.spaced, rfl, hnewer, hrested.last, hrested.timed⟩
        · -- Without an interval `last_sent` is not touched again.
          simp only [if_neg hold, if_neg htimed]
          refine ⟨h.increasing, h.spaced, rfl, hnewer, fun e he => ?_,
            fun hpos => (htimed hpos).elim⟩
          refine ⟨fun sent hsent => ⟨sent, ?_, by omega⟩, fun hpos => (htimed hpos).elim⟩
          rw [← hrested.last e he]
          exact hsent

theorem inOrder_throttle (h : InOrder (minInterval minIntervalMicros) thread)
    (hbook : book.sequence = thread.lastSequence)
    (hrested : Rested (minInterval minIntervalMicros) thread.emitted thread.lastSent
      (· < thread.lastSequence)) (now : Int) :
    InOrder (minInterval minIntervalMicros) (thread.throttle minIntervalMicros now book) := by
  unfold throttle
  split_ifs with hsoon
  · exact h.withPhase ⟨fun e he => (hrested.below e he).le, hrested.last, hrested.timed⟩
  · refine ⟨h.increasing, h.spaced, hbook, hrested.below, fun e he => ?_,
      fun _ => Option.some_ne_none now⟩
    have hlast := hrested.last e he
    refine ⟨fun sent hsent => ⟨now, rfl, ?_⟩, fun hpos => ?_⟩
    · rw [hlast] at hsent
      rw [tooSoon, Option.mem_def.mp hsent] at hsoon
      simp only [Option.any_some, decide_eq_true_eq, not_lt] at hsoon
      omega
    · rw [hlast]
      exact hrested.timed (fun hnil => by simp [hnil] at he) hpos

theorem inOrder_sent (h : InOrder interval thread) (hbook : book.sequence = thread.lastSequence)
    (hsend : MaySend interval thread.emitted ⟨thread.lastSequence, thread.lastSent⟩)
    (written : Bool) : InOrder interval (thread.sent book written) := by
  rw [sent, emit, hbook]
  refine ⟨increasing_concat h.increasing hsend, spaced_concat h.spaced hsend, ?_⟩
  cases written with
  | true => exact rested_concat hsend
  | false => trivial

end Order

end StreamThread

namespace StreamSystem
variable {minIntervalMicros : UInt32} {s t : StreamSystem}

theorem step_thread {move : StreamMove} (hmove : ∀ reading, move ≠ .handler reading)
    (hstep : s.step minIntervalMicros move = some t) : t.thread = s.thread := by
  cases move with
  | publish book =>
    simp only [step] at hstep
    split_ifs at hstep
    cases hstep
    rfl
  | engine =>
    simp only [step, engineStep] at hstep
    split at hstep
    · cases hstep
    · cases hstep
      rfl
    · cases hstep
      unfold deliver
      split_ifs
      · rfl
      · rfl
  | stopEngine =>
    simp only [step, stopEngine] at hstep
    by_cases hidle : s.publishing = .idle ∧ s.engineStopped = false
    · rw [if_pos hidle] at hstep
      cases hstep
      rfl
    · rw [if_neg hidle] at hstep
      cases hstep
  | tick elapsed =>
    cases hstep
    rfl
  | handler reading => exact (hmove reading rfl).elim

variable (minIntervalMicros) in
inductive Handled (s : StreamSystem) (reading : ClientReading) : StreamSystem → Prop
  | subscribing (hat : s.thread.phase = .subscribing) :
      Handled s reading { s with registered := true, thread := { s.thread with phase := .reading } }
  | readLatest {initial : ConsolidatedBook} (hat : s.thread.phase = .reading)
      (hlatest : s.latest = some initial) :
      Handled s reading { s with thread := { s.thread with phase := .sendingInitial initial } }
  | readNothing (hat : s.thread.phase = .reading) (hlatest : s.latest = none) :
      Handled s reading { s with thread := { s.thread with phase := .checking } }
  | sendingInitial {book : ConsolidatedBook} (hat : s.thread.phase = .sendingInitial book) :
      Handled s reading { s with thread := s.thread.initialSent book s.now reading.written }
  | checking (hat : s.thread.phase = .checking) :
      Handled s reading { s with
        thread := { s.thread with phase := if reading.cancelled then .stopping else .waiting } }
  | waiting (hat : s.thread.phase = .waiting) :
      Handled s reading { s with
        slot := s.slot.waitNextFor.2
        thread := { s.thread with phase := .woken s.slot.waitNextFor.1 } }
  | woken {book : Option ConsolidatedBook} (hat : s.thread.phase = .woken book) :
      Handled s reading
        { s with thread := s.thread.wake minIntervalMicros s.slot.stopped book }
  | throttling {book : ConsolidatedBook} (hat : s.thread.phase = .throttling book) :
      Handled s reading { s with thread := s.thread.throttle minIntervalMicros s.now book }
  | sending {book : ConsolidatedBook} (hat : s.thread.phase = .sending book) :
      Handled s reading { s with thread := s.thread.sent book reading.written }
  | stopping (hat : s.thread.phase = .stopping) :
      Handled s reading
        { s with slot := s.slot.stop, thread := { s.thread with phase := .removing } }
  | removing (hat : s.thread.phase = .removing) :
      Handled s reading
        { s with registered := false, thread := { s.thread with phase := .finished } }

theorem handled_of_step {reading : ClientReading}
    (hstep : s.handlerStep minIntervalMicros reading = some t) :
    Handled minIntervalMicros s reading t := by
  unfold handlerStep at hstep
  cases hat : s.thread.phase with
  | subscribing =>
    rw [hat] at hstep
    cases hstep
    exact .subscribing hat
  | reading =>
    simp only [hat] at hstep
    split at hstep
    · rename_i initial hlatest
      cases hstep
      exact .readLatest hat hlatest
    · rename_i hlatest
      cases hstep
      exact .readNothing hat hlatest
  | sendingInitial book =>
    rw [hat] at hstep
    cases hstep
    exact .sendingInitial hat
  | checking =>
    rw [hat] at hstep
    cases hstep
    exact .checking hat
  | waiting =>
    rw [hat] at hstep
    cases hstep
    exact .waiting hat
  | woken book =>
    rw [hat] at hstep
    cases hstep
    exact .woken hat
  | throttling book =>
    rw [hat] at hstep
    cases hstep
    exact .throttling hat
  | sending book =>
    rw [hat] at hstep
    cases hstep
    exact .sending hat
  | stopping =>
    rw [hat] at hstep
    cases hstep
    exact .stopping hat
  | removing =>
    rw [hat] at hstep
    cases hstep
    exact .removing hat
  | finished =>
    rw [hat] at hstep
    cases hstep

theorem handlerStep_inOrder (h : s.thread.InOrder (minInterval minIntervalMicros))
    {reading : ClientReading} (hstep : s.handlerStep minIntervalMicros reading = some t) :
    t.thread.InOrder (minInterval minIntervalMicros) := by
  have hphase := h.phase
  cases handled_of_step hstep with
  | subscribing hat =>
    rw [hat] at hphase
    exact h.withPhase hphase
  | readLatest hat hlatest =>
    rw [hat] at hphase
    exact h.withPhase hphase
  | readNothing hat hlatest =>
    rw [hat] at hphase
    have hnone : s.thread.emitted = [] := hphase
    exact h.withPhase ⟨by simp [hnone], by simp [hnone], fun hne => (hne hnone).elim⟩
  | sendingInitial hat =>
    rw [hat] at hphase
    exact StreamThread.inOrder_initialSent hphase reading.written
  | checking hat =>
    rw [hat] at hphase
    cases reading.cancelled with
    | true => exact h.withPhase trivial
    | false => exact h.withPhase hphase
  | waiting hat =>
    rw [hat] at hphase
    exact h.withPhase hphase
  | woken hat =>
    rw [hat] at hphase
    exact StreamThread.inOrder_wake h hphase s.slot.stopped _
  | throttling hat =>
    rw [hat] at hphase
    exact StreamThread.inOrder_throttle h hphase.1 hphase.2 s.now
  | sending hat =>
    rw [hat] at hphase
    exact StreamThread.inOrder_sent h hphase.1 hphase.2 reading.written
  | stopping hat => exact h.withPhase trivial
  | removing hat => exact h.withPhase trivial

theorem step_inOrder {move : StreamMove} (h : s.thread.InOrder (minInterval minIntervalMicros))
    (hstep : s.step minIntervalMicros move = some t) :
    t.thread.InOrder (minInterval minIntervalMicros) := by
  by_cases hmove : ∃ reading, move = .handler reading
  · obtain ⟨reading, rfl⟩ := hmove
    exact handlerStep_inOrder h hstep
  · rw [step_thread (fun reading he => hmove ⟨reading, he⟩) hstep]
    exact h

theorem inOrder_run (minIntervalMicros : UInt32) (start : Int) (moves : List StreamMove) :
    (run minIntervalMicros start moves).thread.InOrder (minInterval minIntervalMicros) := by
  have hstart : ({} : StreamThread).InOrder (minInterval minIntervalMicros) := ⟨.nil, .nil, rfl⟩
  exact Machine.run_rule
    (I := fun s : StreamSystem => s.thread.InOrder (minInterval minIntervalMicros))
    (fun _ _ _ h hstep => step_inOrder h hstep) hstart moves

/-- No state is sent twice, and none sooner than asked. -/
theorem emitted_increasing_and_spaced (minIntervalMicros : UInt32) (start : Int)
    (moves : List StreamMove) :
    ((run minIntervalMicros start moves).thread.emitted.map Emission.sequence).Pairwise (· < ·) ∧
      (run minIntervalMicros start moves).thread.emitted.IsChain
        (Spaced (minInterval minIntervalMicros)) :=
  ⟨(inOrder_run minIntervalMicros start moves).increasing,
    (inOrder_run minIntervalMicros start moves).spaced⟩

end StreamSystem
end CexAggregator
