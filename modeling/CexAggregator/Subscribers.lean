import CexAggregator.StreamSystem

/-!
# The engine and all of its subscribers

Any number of handlers serve their streams at once, each with a slot of its own. The engine
delivers to the slots one after the other while it holds the mutex of the list; nobody joins
or leaves the list meanwhile, but everybody takes from its own slot. What one handler sees
of all this is a stream as it was modelled alone.
-/

namespace CexAggregator

/-- Where the engine stands: `locking` is between the two mutexes of `Publish`, and in the
two phases after it the list of subscribers is locked. -/
inductive DeliveryPhase where
  | idle
  | storing (book : ConsolidatedBook)
  | locking (book : ConsolidatedBook)
  | delivering (book : ConsolidatedBook) (todo : List ℕ)
  | closing (todo : List ℕ)
deriving DecidableEq

def StreamPhase.inHand : StreamPhase → Option ConsolidatedBook
  | .sendingInitial book => some book
  | .sending book => some book
  | _ => none

/-- A handler and its slot go by one number. The published states, what each slot accepted
and what each client was sent are kept for the specification. -/
structure SubscriberSystem where
  published : ℕ := 0
  latest : Option ConsolidatedBook := none
  publishing : DeliveryPhase := .idle
  engineStopped : Bool := false
  subscribers : List ℕ := []
  slots : ℕ → ConflatingSlot ConsolidatedBook := fun _ => {}
  threads : ℕ → StreamThread := fun _ => {}
  now : Int := 0
  history : List ConsolidatedBook := []
  delivered : ℕ → List ℕ := fun _ => []
  sent : ℕ → List ConsolidatedBook := fun _ => []

inductive SubscriberMove where
  | publish (book : ConsolidatedBook)
  | engine
  | stopEngine
  | tick (elapsed : ℕ)
  | handler (id : ℕ) (reading : ClientReading)

theorem ConflatingSlot.publish_refused {α : Type*} (slot : ConflatingSlot α) {value : α}
    (h : (slot.publish value).1 = false) : (slot.publish value).2 = slot := by
  rw [publish] at h ⊢
  split_ifs at h ⊢
  rfl

namespace SubscriberSystem

def deliver (s : SubscriberSystem) (book : ConsolidatedBook) (id : ℕ) (todo : List ℕ) :
    SubscriberSystem :=
  { s with
    publishing := .delivering book todo
    slots := Function.update s.slots id ((s.slots id).publish book).2
    delivered :=
      if ((s.slots id).publish book).1 then
        Function.update s.delivered id (s.delivered id ++ [book.sequence])
      else s.delivered }

def engineStep (s : SubscriberSystem) : Option SubscriberSystem :=
  match s.publishing with
  | .idle => none
  | .storing book => some { s with latest := some book, publishing := .locking book }
  | .locking book => some { s with publishing := .delivering book s.subscribers }
  | .delivering _ [] => some { s with publishing := .idle }
  | .delivering book (id :: todo) => some (s.deliver book id todo)
  | .closing [] => some { s with publishing := .idle, subscribers := [] }
  | .closing (id :: todo) =>
    some
      { s with
        publishing := .closing todo
        slots := Function.update s.slots id (s.slots id).stop }

def locked (s : SubscriberSystem) : Bool :=
  match s.publishing with
  | .delivering _ _ => true
  | .closing _ => true
  | _ => false

def seat (s : SubscriberSystem) (id : ℕ) : StreamSystem where
  latest := s.latest
  slot := s.slots id
  now := s.now
  thread := s.threads id

/-- `AddSubscriber` and `RemoveSubscriber` wait for the mutex of the list. -/
def blocked (s : SubscriberSystem) (id : ℕ) : Bool :=
  s.locked ∧ ((s.threads id).phase = .subscribing ∨ (s.threads id).phase = .removing)

def enlisted (s : SubscriberSystem) (id : ℕ) : List ℕ :=
  match (s.threads id).phase with
  | .subscribing => s.subscribers ++ [id]
  | .removing => s.subscribers.filter fun other => other ≠ id
  | _ => s.subscribers

def handlerStep (minIntervalMicros : ℕ → UInt32) (s : SubscriberSystem) (id : ℕ)
    (reading : ClientReading) : Option SubscriberSystem :=
  if s.blocked id then none
  else
    ((s.seat id).handlerStep (minIntervalMicros id) reading).map fun t =>
      { s with
        subscribers := s.enlisted id
        slots := Function.update s.slots id t.slot
        threads := Function.update s.threads id t.thread
        sent := Function.update s.sent id
          (s.sent id ++ (s.threads id).phase.inHand.toList) }

def step (minIntervalMicros : ℕ → UInt32) (s : SubscriberSystem) :
    SubscriberMove → Option SubscriberSystem
  | .publish book =>
    if s.publishing = .idle ∧ s.engineStopped = false then
      some
        { s with
          published := s.published + 1
          publishing := .storing { book with sequence := s.published + 1 }
          history := s.history ++ [{ book with sequence := s.published + 1 }] }
    else none
  | .engine => s.engineStep
  | .stopEngine =>
    if s.publishing = .idle ∧ s.engineStopped = false then
      some { s with engineStopped := true, publishing := .closing s.subscribers }
    else none
  | .tick elapsed => some { s with now := s.now + elapsed }
  | .handler id reading => s.handlerStep minIntervalMicros id reading

def run (minIntervalMicros : ℕ → UInt32) (start : Int) (moves : List SubscriberMove) :
    SubscriberSystem :=
  Machine.run (step minIntervalMicros) { now := start } moves

end SubscriberSystem

def StreamPhase.enrolled : StreamPhase → Bool
  | .subscribing => false
  | .finished => false
  | _ => true

namespace SubscriberSystem
variable {minIntervalMicros : ℕ → UInt32} {s t : SubscriberSystem} {id : ℕ}

variable (minIntervalMicros) in
inductive Stepped (s : SubscriberSystem) : SubscriberMove → SubscriberSystem → Prop
  | publish {book : ConsolidatedBook} (hidle : s.publishing = .idle)
      (hrunning : s.engineStopped = false) :
      Stepped s (.publish book)
        { s with
          published := s.published + 1
          publishing := .storing { book with sequence := s.published + 1 }
          history := s.history ++ [{ book with sequence := s.published + 1 }] }
  | store {book : ConsolidatedBook} (hat : s.publishing = .storing book) :
      Stepped s .engine { s with latest := some book, publishing := .locking book }
  | lock {book : ConsolidatedBook} (hat : s.publishing = .locking book) :
      Stepped s .engine { s with publishing := .delivering book s.subscribers }
  | unlock {book : ConsolidatedBook} (hat : s.publishing = .delivering book []) :
      Stepped s .engine { s with publishing := .idle }
  | deliver {book : ConsolidatedBook} {id : ℕ} {todo : List ℕ}
      (hat : s.publishing = .delivering book (id :: todo)) :
      Stepped s .engine (s.deliver book id todo)
  | close {id : ℕ} {todo : List ℕ} (hat : s.publishing = .closing (id :: todo)) :
      Stepped s .engine
        { s with
          publishing := .closing todo
          slots := Function.update s.slots id (s.slots id).stop }
  | clear (hat : s.publishing = .closing []) :
      Stepped s .engine { s with publishing := .idle, subscribers := [] }
  | stopEngine (hidle : s.publishing = .idle) (hrunning : s.engineStopped = false) :
      Stepped s .stopEngine { s with engineStopped := true, publishing := .closing s.subscribers }
  | tick (elapsed : ℕ) : Stepped s (.tick elapsed) { s with now := s.now + elapsed }
  | handler {id : ℕ} {reading : ClientReading} {t : StreamSystem} (hfree : s.blocked id = false)
      (hhandled : StreamSystem.Handled (minIntervalMicros id) (s.seat id) reading t) :
      Stepped s (.handler id reading)
        { s with
          subscribers := s.enlisted id
          slots := Function.update s.slots id t.slot
          threads := Function.update s.threads id t.thread
          sent := Function.update s.sent id
            (s.sent id ++ (s.threads id).phase.inHand.toList) }

theorem stepped_of_step {move : SubscriberMove} (hstep : s.step minIntervalMicros move = some t) :
    Stepped minIntervalMicros s move t := by
  cases move with
  | publish book =>
    simp only [step] at hstep
    split_ifs at hstep with hready
    cases hstep
    exact .publish hready.1 hready.2
  | engine =>
    simp only [step, engineStep] at hstep
    split at hstep
    · cases hstep
    · rename_i hat
      cases hstep
      exact .store hat
    · rename_i hat
      cases hstep
      exact .lock hat
    · rename_i hat
      cases hstep
      exact .unlock hat
    · rename_i hat
      cases hstep
      exact .deliver hat
    · rename_i hat
      cases hstep
      exact .clear hat
    · rename_i hat
      cases hstep
      exact .close hat
  | stopEngine =>
    simp only [step] at hstep
    split_ifs at hstep with hready
    cases hstep
    exact .stopEngine hready.1 hready.2
  | tick elapsed =>
    cases hstep
    exact .tick elapsed
  | handler id reading =>
    simp only [step, handlerStep] at hstep
    split_ifs at hstep with hblocked
    obtain ⟨t, hhandled, rfl⟩ := Option.map_eq_some_iff.mp hstep
    exact .handler (Bool.not_eq_true _ ▸ hblocked) (StreamSystem.handled_of_step hhandled)

def PhaseOk (engineStopped : Bool) (subscribers : List ℕ) : DeliveryPhase → Prop
  | .idle => True
  | .storing _ => engineStopped = false
  | .locking _ => engineStopped = false
  | .delivering _ todo => engineStopped = false ∧ todo <:+ subscribers
  | .closing todo => engineStopped = true ∧ todo <:+ subscribers

structure Listed (s : SubscriberSystem) : Prop where
  nodup : s.subscribers.Nodup
  enrolled : ∀ id ∈ s.subscribers, (s.threads id).phase.enrolled = true
  complete : s.engineStopped = false → ∀ id, (s.threads id).phase.enrolled = true →
    id ∈ s.subscribers
  phase : PhaseOk s.engineStopped s.subscribers s.publishing

theorem handled_enrolled {micros : UInt32} {reading : ClientReading} {a b : StreamSystem}
    (h : StreamSystem.Handled micros a reading b) :
    (b.thread.phase.enrolled = true ↔ a.thread.phase ≠ .removing) ∧
      (a.thread.phase ≠ .subscribing → a.thread.phase.enrolled = true) := by
  cases h with
  | subscribing hat => simp [hat, StreamPhase.enrolled]
  | readLatest hat hlatest => simp [hat, StreamPhase.enrolled]
  | readNothing hat hlatest => simp [hat, StreamPhase.enrolled]
  | sendingInitial hat =>
    simp only [hat, StreamThread.initialSent, StreamThread.emit]
    split_ifs <;> simp [StreamPhase.enrolled]
  | checking hat =>
    simp only [hat]
    split_ifs <;> simp [StreamPhase.enrolled]
  | waiting hat => simp [hat, StreamPhase.enrolled]
  | woken hat =>
    simp only [hat, StreamThread.wake]
    split_ifs
    · simp [StreamPhase.enrolled]
    all_goals
      split
      · simp [StreamPhase.enrolled]
      · split_ifs <;> simp [StreamPhase.enrolled]
  | throttling hat =>
    simp only [hat, StreamThread.throttle]
    split_ifs <;> simp [StreamPhase.enrolled]
  | sending hat =>
    simp only [hat, StreamThread.sent, StreamThread.emit]
    split_ifs <;> simp [StreamPhase.enrolled]
  | stopping hat => simp [hat, StreamPhase.enrolled]
  | removing hat => simp [hat, StreamPhase.enrolled]

theorem not_locked_of_joining (hfree : s.blocked id = false)
    (hat : (s.threads id).phase = .subscribing ∨ (s.threads id).phase = .removing) :
    s.locked = false := by
  by_contra hlocked
  simp [blocked, hlocked, hat] at hfree

theorem phaseOk_of_unlocked (h : PhaseOk s.engineStopped s.subscribers s.publishing)
    (hlocked : s.locked = false) (subscribers : List ℕ) :
    PhaseOk s.engineStopped subscribers s.publishing := by
  rw [locked] at hlocked
  cases hat : s.publishing with
  | idle => trivial
  | storing book =>
    rw [hat] at h
    exact h
  | locking book =>
    rw [hat] at h
    exact h
  | delivering book todo =>
    rw [hat] at hlocked
    cases hlocked
  | closing todo =>
    rw [hat] at hlocked
    cases hlocked

theorem Listed.handler (h : Listed s) (hfree : s.blocked id = false) {reading : ClientReading}
    {t : StreamSystem}
    (hhandled : StreamSystem.Handled (minIntervalMicros id) (s.seat id) reading t)
    (sent : ℕ → List ConsolidatedBook) :
    Listed
      { s with
        subscribers := s.enlisted id
        slots := Function.update s.slots id t.slot
        threads := Function.update s.threads id t.thread
        sent := sent } := by
  obtain ⟨hafter, hbefore⟩ := handled_enrolled hhandled
  have hother : ∀ other, other ≠ id →
      Function.update s.threads id t.thread other = s.threads other :=
    fun other hne => Function.update_of_ne hne _ _
  by_cases hjoin : (s.threads id).phase = .subscribing
  · have hnew : id ∉ s.subscribers := by
      intro hmem
      have henrolled := h.enrolled id hmem
      rw [hjoin] at henrolled
      cases henrolled
    have hon : t.thread.phase.enrolled = true := by
      apply hafter.mpr
      simp [seat, hjoin]
    simp only [enlisted, hjoin]
    refine ⟨?_, ?_, ?_, phaseOk_of_unlocked h.phase (not_locked_of_joining hfree (Or.inl hjoin)) _⟩
    · exact List.nodup_append.mpr ⟨h.nodup, List.nodup_singleton id,
        fun a ha b hb hab => hnew (List.mem_singleton.mp hb ▸ hab ▸ ha)⟩
    · intro other hmem
      change (Function.update s.threads id t.thread other).phase.enrolled = true
      by_cases hne : other = id
      · rw [hne, Function.update_self]
        exact hon
      · rw [hother other hne]
        exact h.enrolled other ((List.mem_append.mp hmem).resolve_right
          fun hid => hne (List.mem_singleton.mp hid))
    · intro hrunning other henrolled
      change (Function.update s.threads id t.thread other).phase.enrolled = true at henrolled
      by_cases hne : other = id
      · exact List.mem_append_right _ (List.mem_singleton.mpr hne)
      · rw [hother other hne] at henrolled
        exact List.mem_append_left _ (h.complete hrunning other henrolled)
  · by_cases hleave : (s.threads id).phase = .removing
    · have hoff : t.thread.phase.enrolled = false := by
        rw [← Bool.not_eq_true, hafter, not_not]
        exact hleave
      simp only [enlisted, hleave]
      refine ⟨?_, ?_, ?_,
        phaseOk_of_unlocked h.phase (not_locked_of_joining hfree (Or.inr hleave)) _⟩
      · exact h.nodup.filter _
      · intro other hmem
        change (Function.update s.threads id t.thread other).phase.enrolled = true
        obtain ⟨hmem, hne⟩ := List.mem_filter.mp hmem
        rw [hother other (of_decide_eq_true hne)]
        exact h.enrolled other hmem
      · intro hrunning other henrolled
        change (Function.update s.threads id t.thread other).phase.enrolled = true at henrolled
        by_cases hne : other = id
        · rw [hne, Function.update_self, hoff] at henrolled
          cases henrolled
        · rw [hother other hne] at henrolled
          exact List.mem_filter.mpr ⟨h.complete hrunning other henrolled, by simpa using hne⟩
    · have hsame : s.enlisted id = s.subscribers := by
        unfold enlisted
        split
        · rename_i hat
          exact (hjoin hat).elim
        · rename_i hat
          exact (hleave hat).elim
        · rfl
      have hon : t.thread.phase.enrolled = true := hafter.mpr hleave
      have hwas : (s.threads id).phase.enrolled = true := hbefore hjoin
      have hphase : ∀ other, (Function.update s.threads id t.thread other).phase.enrolled =
          (s.threads other).phase.enrolled := by
        intro other
        by_cases hne : other = id
        · rw [hne, Function.update_self, hon, hwas]
        · rw [hother other hne]
      rw [hsame]
      refine ⟨h.nodup, ?_, ?_, h.phase⟩
      · simpa only [hphase] using h.enrolled
      · simpa only [hphase] using h.complete

theorem Listed.step (h : Listed s) {move : SubscriberMove}
    (hstep : Stepped minIntervalMicros s move t) : Listed t := by
  have hphase := h.phase
  cases hstep with
  | publish hidle hrunning => exact ⟨h.nodup, h.enrolled, h.complete, hrunning⟩
  | store hat =>
    rw [hat] at hphase
    exact ⟨h.nodup, h.enrolled, h.complete, hphase⟩
  | lock hat =>
    rw [hat] at hphase
    exact ⟨h.nodup, h.enrolled, h.complete, hphase, List.suffix_rfl⟩
  | unlock hat => exact ⟨h.nodup, h.enrolled, h.complete, trivial⟩
  | deliver hat =>
    rw [hat] at hphase
    exact ⟨h.nodup, h.enrolled, h.complete, hphase.1, (List.suffix_cons _ _).trans hphase.2⟩
  | close hat =>
    rw [hat] at hphase
    exact ⟨h.nodup, h.enrolled, h.complete, hphase.1, (List.suffix_cons _ _).trans hphase.2⟩
  | clear hat =>
    rw [hat] at hphase
    exact ⟨.nil, fun _ hid => (List.not_mem_nil hid).elim,
      fun hrunning => (Bool.false_ne_true (hrunning.symm.trans hphase.1)).elim, trivial⟩
  | stopEngine hidle hrunning =>
    exact ⟨h.nodup, h.enrolled, fun hstopped => (Bool.false_ne_true hstopped.symm).elim, rfl,
      List.suffix_rfl⟩
  | tick elapsed => exact ⟨h.nodup, h.enrolled, h.complete, h.phase⟩
  | handler hfree hhandled => exact h.handler hfree hhandled _

theorem listed_start (start : Int) : Listed { now := start } :=
  ⟨.nil, fun _ hid => (List.not_mem_nil hid).elim, fun _ _ h => (Bool.false_ne_true h).elim,
    trivial⟩

end SubscriberSystem

namespace DeliveryPhase

def seenBy (id : ℕ) : DeliveryPhase → PublishPhase
  | .idle => .idle
  | .storing book => .storing book
  | .locking book => .delivering book
  | .delivering book todo => if id ∈ todo then .delivering book else .idle
  | .closing _ => .idle

def stopPending (id : ℕ) : DeliveryPhase → Bool
  | .closing todo => id ∈ todo
  | _ => false

/-- The slot is not counted any more, although the list has not been cleared yet. -/
def dismissed (id : ℕ) : DeliveryPhase → Bool
  | .closing todo => id ∉ todo
  | _ => false

end DeliveryPhase

namespace SubscriberSystem
variable {minIntervalMicros : ℕ → UInt32} {s t : SubscriberSystem} {id : ℕ}

def stream (s : SubscriberSystem) (id : ℕ) : StreamSystem where
  published := s.published
  latest := s.latest
  publishing := s.publishing.seenBy id
  engineStopped := s.engineStopped && !s.publishing.stopPending id
  registered := decide (id ∈ s.subscribers) && !s.publishing.dismissed id
  slot := s.slots id
  now := s.now
  thread := s.threads id
  delivered := s.delivered id

def joined (phase : StreamPhase) (registered : Bool) : Bool :=
  match phase with
  | .subscribing => true
  | .removing => false
  | _ => registered

theorem handlerStep_of_seat {micros : UInt32} {reading : ClientReading} {a b c : StreamSystem}
    (h : StreamSystem.Handled micros a reading b) (hlatest : c.latest = a.latest)
    (hslot : c.slot = a.slot) (hnow : c.now = a.now) (hthread : c.thread = a.thread) :
    c.handlerStep micros reading =
      some { c with
        registered := joined a.thread.phase c.registered
        slot := b.slot
        thread := b.thread } := by
  cases h with
  | readLatest hat hread =>
    simp [StreamSystem.handlerStep, hthread, hat, hslot, hlatest, hread, joined]
  | readNothing hat hread =>
    simp [StreamSystem.handlerStep, hthread, hat, hslot, hlatest, hread, joined]
  | subscribing hat => simp [StreamSystem.handlerStep, hthread, hat, hslot, joined]
  | sendingInitial hat => simp [StreamSystem.handlerStep, hthread, hat, hslot, hnow, joined]
  | checking hat => simp [StreamSystem.handlerStep, hthread, hat, hslot, joined]
  | waiting hat => simp [StreamSystem.handlerStep, hthread, hat, hslot, joined]
  | woken hat => simp [StreamSystem.handlerStep, hthread, hat, hslot, joined]
  | throttling hat => simp [StreamSystem.handlerStep, hthread, hat, hslot, hnow, joined]
  | sending hat => simp [StreamSystem.handlerStep, hthread, hat, hslot, joined]
  | stopping hat => simp [StreamSystem.handlerStep, hthread, hat, hslot, joined]
  | removing hat => simp [StreamSystem.handlerStep, hthread, hat, hslot, joined]

theorem registered_enlisted (hfree : s.blocked id = false) :
    (decide (id ∈ s.enlisted id) && !s.publishing.dismissed id) =
      joined (s.threads id).phase (decide (id ∈ s.subscribers) && !s.publishing.dismissed id) := by
  have hopen : (s.threads id).phase = .subscribing ∨ (s.threads id).phase = .removing →
      s.publishing.dismissed id = false := by
    intro hat
    have hlocked := not_locked_of_joining hfree hat
    cases hphase : s.publishing with
    | closing todo => simp [locked, hphase] at hlocked
    | _ => rfl
  cases hat : (s.threads id).phase with
  | subscribing => simp [enlisted, joined, hat, hopen (Or.inl hat)]
  | removing => simp [enlisted, joined, hat]
  | _ => simp [enlisted, joined, hat]

theorem stream_step (h : Listed s) {move : SubscriberMove}
    (hstep : Stepped minIntervalMicros s move t) (id : ℕ) :
    t.stream id = s.stream id ∨
      ∃ move', (s.stream id).step (minIntervalMicros id) move' = some (t.stream id) := by
  have hphase := h.phase
  cases hstep with
  | @publish book hidle hrunning =>
    refine Or.inr ⟨.publish book, ?_⟩
    simp [stream, StreamSystem.step, hidle, hrunning, DeliveryPhase.seenBy,
      DeliveryPhase.stopPending, DeliveryPhase.dismissed]
  | store hat =>
    refine Or.inr ⟨.engine, ?_⟩
    simp [stream, StreamSystem.step, StreamSystem.engineStep, hat, DeliveryPhase.seenBy,
      DeliveryPhase.stopPending, DeliveryPhase.dismissed]
  | @lock book hat =>
    by_cases hmem : id ∈ s.subscribers
    · apply Or.inl
      simp [stream, hat, hmem, DeliveryPhase.seenBy, DeliveryPhase.stopPending,
        DeliveryPhase.dismissed]
    · refine Or.inr ⟨.engine, ?_⟩
      simp [stream, StreamSystem.step, StreamSystem.engineStep, StreamSystem.deliver, hat, hmem,
        DeliveryPhase.seenBy, DeliveryPhase.stopPending, DeliveryPhase.dismissed]
  | unlock hat =>
    apply Or.inl
    simp [stream, hat, DeliveryPhase.seenBy, DeliveryPhase.stopPending, DeliveryPhase.dismissed]
  | @deliver book other todo hat =>
    rw [hat] at hphase
    have hmem : other ∈ s.subscribers := hphase.2.subset List.mem_cons_self
    have hrest : other ∉ todo := (List.nodup_cons.mp (h.nodup.sublist hphase.2.sublist)).1
    by_cases hid : id = other
    · subst hid
      refine Or.inr ⟨.engine, ?_⟩
      by_cases haccept : ((s.slots id).publish book).1 = true
      · simp [stream, StreamSystem.step, StreamSystem.engineStep, StreamSystem.deliver, hat,
          hmem, hrest, haccept, SubscriberSystem.deliver, DeliveryPhase.seenBy,
          DeliveryPhase.stopPending, DeliveryPhase.dismissed]
      · have hkept := (s.slots id).publish_refused (Bool.not_eq_true _ ▸ haccept)
        simp [stream, StreamSystem.step, StreamSystem.engineStep, StreamSystem.deliver, hat,
          hmem, hrest, haccept, hkept, SubscriberSystem.deliver, DeliveryPhase.seenBy,
          DeliveryPhase.stopPending, DeliveryPhase.dismissed]
    · apply Or.inl
      have hdelivered : (s.deliver book other todo).delivered id = s.delivered id := by
        simp only [deliver]
        split_ifs
        · exact Function.update_of_ne hid _ _
        · rfl
      have hslot : (s.deliver book other todo).slots id = s.slots id :=
        Function.update_of_ne hid _ _
      have hseen : (s.deliver book other todo).publishing.seenBy id = s.publishing.seenBy id := by
        simp [SubscriberSystem.deliver, hat, hid, DeliveryPhase.seenBy]
      rw [stream, stream, hdelivered, hslot, hseen, hat]
      rfl
  | @close other todo hat =>
    rw [hat] at hphase
    have hmem : other ∈ s.subscribers := hphase.2.subset List.mem_cons_self
    have hrest : other ∉ todo := (List.nodup_cons.mp (h.nodup.sublist hphase.2.sublist)).1
    by_cases hid : id = other
    · subst hid
      refine Or.inr ⟨.stopEngine, ?_⟩
      have hstopped : s.engineStopped = true := hphase.1
      simp [stream, StreamSystem.step, StreamSystem.stopEngine, hat, hmem, hrest, hstopped,
        DeliveryPhase.seenBy, DeliveryPhase.stopPending, DeliveryPhase.dismissed]
    · apply Or.inl
      simp [stream, hat, hid, DeliveryPhase.seenBy, DeliveryPhase.stopPending,
        DeliveryPhase.dismissed]
  | clear hat =>
    apply Or.inl
    simp [stream, hat, DeliveryPhase.seenBy, DeliveryPhase.stopPending, DeliveryPhase.dismissed]
  | stopEngine hidle hrunning =>
    by_cases hmem : id ∈ s.subscribers
    · apply Or.inl
      simp [stream, hidle, hrunning, hmem, DeliveryPhase.seenBy, DeliveryPhase.stopPending,
        DeliveryPhase.dismissed]
    · refine Or.inr ⟨.stopEngine, ?_⟩
      simp [stream, StreamSystem.step, StreamSystem.stopEngine, hidle, hrunning, hmem,
        DeliveryPhase.seenBy, DeliveryPhase.stopPending, DeliveryPhase.dismissed]
  | tick elapsed => exact Or.inr ⟨.tick elapsed, rfl⟩
  | @handler other reading u hfree hhandled =>
    by_cases hid : id = other
    · subst hid
      refine Or.inr ⟨.handler reading, ?_⟩
      have hstep := handlerStep_of_seat (c := s.stream id) hhandled rfl rfl rfl rfl
      rw [StreamSystem.step, hstep]
      simp only [stream, seat, ← registered_enlisted hfree, Function.update_self]
    · apply Or.inl
      have hlisted : id ∈ s.enlisted other ↔ id ∈ s.subscribers := by
        rw [enlisted]
        split <;> simp [hid]
      simp only [stream, hlisted, Function.update_of_ne hid]

theorem listed_run (start : Int) (moves : List SubscriberMove) :
    Listed (run minIntervalMicros start moves) :=
  Machine.run_rule (fun _ _ _ h hstep => h.step (stepped_of_step hstep)) (listed_start start) moves

theorem stream_run (minIntervalMicros : ℕ → UInt32) (start : Int) (moves : List SubscriberMove)
    (id : ℕ) : ∃ alone, (run minIntervalMicros start moves).stream id =
      StreamSystem.run (minIntervalMicros id) start alone := by
  have hview : ∀ s move t, Listed s → step minIntervalMicros s move = some t →
      t.stream id = s.stream id ∨
        ∃ move', StreamSystem.step (minIntervalMicros id) (s.stream id) move' =
          some (t.stream id) :=
    fun _ _ _ h hstep => stream_step h (stepped_of_step hstep) id
  exact Machine.run_view (fun _ _ _ h hstep => Listed.step h (stepped_of_step hstep)) hview
    (listed_start start) moves

theorem inOrder_run (minIntervalMicros : ℕ → UInt32) (start : Int) (moves : List SubscriberMove)
    (id : ℕ) : ((run minIntervalMicros start moves).threads id).InOrder
      (minInterval (minIntervalMicros id)) := by
  obtain ⟨alone, halone⟩ := stream_run minIntervalMicros start moves id
  have hthread := congrArg StreamSystem.thread halone
  change (run minIntervalMicros start moves).threads id = _ at hthread
  rw [hthread]
  exact StreamSystem.inOrder_run (minIntervalMicros id) start alone

/-- However many handlers there are and however they take turns: each serves a stream that the
engine could have served alone, newer and newer states and none sooner than asked. -/
theorem stream_of_many (minIntervalMicros : ℕ → UInt32) (start : Int)
    (moves : List SubscriberMove) (id : ℕ) :
    (∃ alone, (run minIntervalMicros start moves).stream id =
        StreamSystem.run (minIntervalMicros id) start alone) ∧
      ((run minIntervalMicros start moves).threads id).InOrder
        (minInterval (minIntervalMicros id)) :=
  ⟨stream_run minIntervalMicros start moves id, inOrder_run minIntervalMicros start moves id⟩

/-- While the engine runs, its list holds exactly the handlers that have joined and not left;
no handler is on it twice, and none stays on it once its call has returned. -/
theorem subscribers_joined (minIntervalMicros : ℕ → UInt32) (start : Int)
    (moves : List SubscriberMove) :
    let s := run minIntervalMicros start moves
    s.subscribers.Nodup ∧ (∀ id, (s.threads id).phase = .finished → id ∉ s.subscribers) ∧
      (s.engineStopped = false → ∀ id,
        id ∈ s.subscribers ↔ (s.threads id).phase.enrolled = true) := by
  intro s
  have h : Listed s := listed_run start moves
  refine ⟨h.nodup, ?_, fun hrunning id => ⟨h.enrolled id, h.complete hrunning id⟩⟩
  intro id hfinished hmem
  have henrolled := h.enrolled id hmem
  rw [hfinished] at henrolled
  cases henrolled

end SubscriberSystem

end CexAggregator
