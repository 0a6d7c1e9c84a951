import CexAggregator.StreamSystem

/-!
# Whether the newest state reaches the client

The throttle comes after the state has left the slot and after `last_sequence` has been
advanced, so a state taken too soon is gone. As long as none is, a poll that finds the slot
empty finds the client up to date with it.
-/

namespace CexAggregator

def StreamThread.known (thread : StreamThread) : List ℕ :=
  match thread.phase with
  | .sendingInitial book => [thread.lastSequence, book.sequence]
  | .woken (some book) => [thread.lastSequence, book.sequence]
  | _ => [thread.lastSequence]

def StreamThread.lastEmitted (thread : StreamThread) : Option ℕ :=
  thread.emitted.getLast?.map Emission.sequence

def StreamThread.Emitted (thread : StreamThread) : Prop :=
  match thread.phase with
  | .throttling book => book.sequence = thread.lastSequence
  | .sending book => book.sequence = thread.lastSequence
  | .checking =>
    thread.lastEmitted = none ∧ thread.lastSequence = 0 ∨
      thread.lastEmitted = some thread.lastSequence
  | .waiting =>
    thread.lastEmitted = none ∧ thread.lastSequence = 0 ∨
      thread.lastEmitted = some thread.lastSequence
  | .woken _ =>
    thread.lastEmitted = none ∧ thread.lastSequence = 0 ∨
      thread.lastEmitted = some thread.lastSequence
  | .stopping => True
  | .removing => True
  | .finished => True
  | _ => thread.lastEmitted = none ∧ thread.lastSequence = 0

def StreamPhase.serving : StreamPhase → Bool
  | .subscribing => false
  | .stopping => false
  | .removing => false
  | .finished => false
  | _ => true

namespace StreamSystem

/-- The client has been sent the state that the engine is about to put into the slot. -/
def aheadOfSlot (s : StreamSystem) : Bool :=
  match s.publishing with
  | .delivering book => book.sequence ≤ s.thread.lastSequence
  | _ => false

def findsEmpty (s : StreamSystem) : StreamMove → Bool
  | .handler _ => s.thread.phase = .waiting ∧ s.slot.pending = none
  | _ => false

/-- No state is taken inside the interval, and no empty slot is found after it while the client is
ahead of the slot. -/
def keepsUp (minIntervalMicros : UInt32) (s : StreamSystem) (move : StreamMove) : Bool :=
  match move, s.thread.phase with
  | .handler _, .throttling _ => !s.thread.tooSoon minIntervalMicros s.now
  | _, _ => s.findsEmpty move → s.thread.tooSoon minIntervalMicros s.now = false →
    s.delivered ≠ [] → !s.aheadOfSlot

/-- With the interval over and the slot empty, the client has the newest state of its slot. -/
def UpToDate (minIntervalMicros : UInt32) (s : StreamSystem) (move : StreamMove) : Prop :=
  s.findsEmpty move → s.thread.tooSoon minIntervalMicros s.now = false → s.delivered ≠ [] →
    s.thread.lastEmitted = s.delivered.getLast?

instance (minIntervalMicros : UInt32) (s : StreamSystem) (move : StreamMove) :
    Decidable (UpToDate minIntervalMicros s move) :=
  inferInstanceAs (Decidable (_ → _ → _ → _))

structure Numbered (s : StreamSystem) : Prop where
  stopped : s.engineStopped = true → s.publishing = .idle
  storing : ∀ book, s.publishing = .storing book → book.sequence = s.published ∧ 0 < s.published
  delivering : ∀ book, s.publishing = .delivering book →
    book.sequence = s.published ∧ 0 < s.published ∧ s.latest = some book
  latest : ∀ book ∈ s.latest, book.sequence ≤ s.published
  delivered : ∀ n ∈ s.delivered.getLast?, 0 < n ∧ n ≤ s.published

def NotAhead (s : StreamSystem) (sequence : ℕ) : Prop :=
  ∀ n ∈ s.delivered.getLast?, sequence ≤ n ∨
    ∃ book, s.publishing = .delivering book ∧ book.sequence = sequence

/-- A handler that serves its slot: what the slot has accepted is pending or accounted for. -/
structure Follows (s : StreamSystem) : Prop where
  registered : s.engineStopped = false → s.registered = true
  slotStopped : s.slot.stopped = true → s.engineStopped = true
  pending : ∀ book ∈ s.slot.pending, s.delivered.getLast? = some book.sequence
  latest : ∀ book ∈ s.latest, NotAhead s book.sequence
  known : ∀ n ∈ s.thread.known, NotAhead s n ∧ n ≤ s.published
  seen : s.slot.pending = none → ∀ n ∈ s.delivered.getLast?, ∃ m ∈ s.thread.known, n ≤ m

structure Untouched (s : StreamSystem) : Prop where
  delivered : s.delivered = []
  registered : s.registered = false
  slot : s.slot = {}

structure Tracked (s : StreamSystem) : Prop where
  numbered : Numbered s
  untouched : s.thread.phase = .subscribing → Untouched s
  follows : s.thread.phase.serving = true → Follows s
  emitted : s.thread.Emitted

section Steps
variable {minIntervalMicros : UInt32} {s t : StreamSystem}

structure SameEngine (s t : StreamSystem) : Prop where
  published : t.published = s.published
  latest : t.latest = s.latest
  publishing : t.publishing = s.publishing
  engineStopped : t.engineStopped = s.engineStopped
  delivered : t.delivered = s.delivered

theorem handlerStep_sameEngine {reading : ClientReading}
    (hstep : s.handlerStep minIntervalMicros reading = some t) : SameEngine s t := by
  cases handled_of_step hstep
  all_goals exact ⟨rfl, rfl, rfl, rfl, rfl⟩

theorem Numbered.handler (h : Numbered s) (hsame : SameEngine s t) : Numbered t := by
  obtain ⟨hpublished, hlatest, hpublishing, hstopped, hdelivered⟩ := hsame
  refine ⟨?_, ?_, ?_, ?_, ?_⟩
  · rw [hstopped, hpublishing]
    exact h.stopped
  · rw [hpublishing, hpublished]
    exact h.storing
  · rw [hpublishing, hpublished, hlatest]
    exact h.delivering
  · rw [hlatest, hpublished]
    exact h.latest
  · rw [hdelivered, hpublished]
    exact h.delivered

theorem Numbered.rethread (h : Numbered s) (thread : StreamThread) :
    Numbered { s with thread := thread } := h.handler ⟨rfl, rfl, rfl, rfl, rfl⟩

theorem Numbered.publish (h : Numbered s) (book : ConsolidatedBook)
    (hrunning : s.engineStopped = false) : Numbered
    { s with
      published := s.published + 1
      publishing := .storing { book with sequence := s.published + 1 } } where
  stopped hstopped := by simp [hrunning] at hstopped
  storing b hb := by
    cases hb
    exact ⟨rfl, Nat.succ_pos _⟩
  delivering b hb := by cases hb
  latest b hb := (h.latest b hb).trans (Nat.le_succ _)
  delivered n hn := ⟨(h.delivered n hn).1, (h.delivered n hn).2.trans (Nat.le_succ _)⟩

theorem Follows.publish (h : Follows s) (hidle : s.publishing = .idle) (book : ConsolidatedBook) :
    Follows
    { s with
      published := s.published + 1
      publishing := .storing { book with sequence := s.published + 1 } } := by
  have hahead : ∀ n, NotAhead s n → ∀ m ∈ s.delivered.getLast?, n ≤ m := by
    intro n hn m hm
    rcases hn m hm with hle | ⟨b, hb, -⟩
    · exact hle
    · rw [hidle] at hb
      cases hb
  refine ⟨h.registered, h.slotStopped, h.pending, fun b hb m hm => ?_, fun n hn => ?_, h.seen⟩
  · exact Or.inl (hahead _ (h.latest b hb) m hm)
  · have hknown := h.known n hn
    exact ⟨fun m hm => Or.inl (hahead n hknown.1 m hm), hknown.2.trans (Nat.le_succ _)⟩

theorem Numbered.store (h : Numbered s) {book : ConsolidatedBook}
    (hat : s.publishing = .storing book) :
    Numbered { s with latest := some book, publishing := .delivering book } where
  stopped hstopped := by
    have hidle := h.stopped hstopped
    rw [hat] at hidle
    cases hidle
  storing b hb := by cases hb
  delivering b hb := by
    cases hb
    exact ⟨(h.storing book hat).1, (h.storing book hat).2, rfl⟩
  latest b hb := by
    cases hb
    exact (h.storing book hat).1.le
  delivered := h.delivered

theorem Follows.store (h : Follows s) {book : ConsolidatedBook}
    (hat : s.publishing = .storing book) :
    Follows { s with latest := some book, publishing := .delivering book } := by
  refine ⟨h.registered, h.slotStopped, h.pending, fun b hb m hm => ?_, fun n hn => ?_, h.seen⟩
  · cases hb
    exact Or.inr ⟨book, rfl, rfl⟩
  · have hknown := h.known n hn
    refine ⟨fun m hm => ?_, hknown.2⟩
    rcases hknown.1 m hm with hle | ⟨b, hb, -⟩
    · exact Or.inl hle
    · rw [hat] at hb
      cases hb

theorem Numbered.idle (h : Numbered s) (hidle : t.publishing = .idle)
    (hpublished : t.published = s.published) (hlatest : t.latest = s.latest)
    (hdelivered : ∀ n ∈ t.delivered.getLast?, 0 < n ∧ n ≤ s.published) : Numbered t where
  stopped _ := hidle
  storing b hb := by
    rw [hidle] at hb
    cases hb
  delivering b hb := by
    rw [hidle] at hb
    cases hb
  latest := by
    rw [hlatest, hpublished]
    exact h.latest
  delivered := by
    rw [hpublished]
    exact hdelivered

theorem Numbered.deliver (h : Numbered s) {book : ConsolidatedBook}
    (hat : s.publishing = .delivering book) : Numbered (s.deliver book) := by
  obtain ⟨hsequence, hpos, hlatest⟩ := h.delivering book hat
  unfold StreamSystem.deliver
  split_ifs with haccept
  · refine h.idle rfl rfl rfl ?_
    intro n hn
    rw [List.getLast?_concat] at hn
    cases hn
    exact ⟨hsequence ▸ hpos, hsequence.le⟩
  · exact h.idle rfl rfl rfl h.delivered

theorem Follows.deliver_eq (h : Follows s) (hnumbered : Numbered s) {book : ConsolidatedBook}
    (hat : s.publishing = .delivering book) :
    s.deliver book =
      { s with
        publishing := .idle
        slot := (s.slot.publish book).2
        delivered := s.delivered ++ [book.sequence] } ∧
      (s.slot.publish book).2.pending = some book ∧
      (s.slot.publish book).2.stopped = s.slot.stopped := by
  have hrunning : s.engineStopped = false := by
    by_contra hne
    have hidle := hnumbered.stopped (Bool.not_eq_false _ ▸ hne)
    rw [hat] at hidle
    cases hidle
  have hopen : s.slot.stopped = false := by
    by_contra hne
    have hstopped := h.slotStopped (Bool.not_eq_false _ ▸ hne)
    rw [hrunning] at hstopped
    cases hstopped
  simp [StreamSystem.deliver, ConflatingSlot.publish, hopen, h.registered hrunning]

theorem Follows.deliver (h : Follows s) (hnumbered : Numbered s) {book : ConsolidatedBook}
    (hat : s.publishing = .delivering book) : Follows (s.deliver book) := by
  obtain ⟨hsequence, -, hlatest⟩ := hnumbered.delivering book hat
  obtain ⟨heq, hpending, hstopped⟩ := h.deliver_eq hnumbered hat
  rw [heq]
  have hbelow : ∀ n, n ≤ s.published → ∀ m ∈ (s.delivered ++ [book.sequence]).getLast?, n ≤ m := by
    intro n hn m hm
    rw [List.getLast?_concat] at hm
    cases hm
    exact hn.trans hsequence.ge
  refine ⟨h.registered, fun hs => h.slotStopped (hstopped ▸ hs), fun b hb => ?_,
    fun b hb m hm => ?_, fun n hn => ⟨fun m hm => ?_, (h.known n hn).2⟩, fun hnone => ?_⟩
  · rw [hpending] at hb
    cases hb
    exact List.getLast?_concat
  · exact Or.inl (hbelow _ (hnumbered.latest b hb) m hm)
  · exact Or.inl (hbelow n (h.known n hn).2 m hm)
  · rw [hpending] at hnone
    cases hnone

theorem Follows.stopEngine (h : Follows s) : Follows
    { s with
      engineStopped := true
      registered := false
      slot := if s.registered then s.slot.stop else s.slot } := by
  have hpending : (if s.registered then s.slot.stop else s.slot).pending = s.slot.pending := by
    split_ifs
    · rfl
    · rfl
  refine ⟨?_, fun _ => rfl, fun b hb => ?_, h.latest, h.known, fun hnone => ?_⟩
  · intro hrunning
    cases hrunning
  · exact h.pending b (hpending ▸ hb)
  · exact h.seen (hpending ▸ hnone)

theorem Follows.rethread (h : Follows s) {thread : StreamThread}
    (hsub : ∀ n ∈ thread.known, n ∈ s.thread.known)
    (hcover : ∀ n ∈ s.thread.known, ∃ m ∈ thread.known, n ≤ m) :
    Follows { s with thread := thread } := by
  refine ⟨h.registered, h.slotStopped, h.pending, h.latest, fun n hn => h.known n (hsub n hn),
    fun hnone n hn => ?_⟩
  obtain ⟨m, hm, hle⟩ := h.seen hnone n hn
  obtain ⟨k, hk, hle'⟩ := hcover m hm
  exact ⟨k, hk, hle.trans hle'⟩

theorem Follows.withPhase (h : Follows s) {thread : StreamThread}
    (hknown : thread.known = s.thread.known) : Follows { s with thread := thread } :=
  h.rethread (fun _ hn => hknown ▸ hn) fun n hn => ⟨n, hknown.symm ▸ hn, le_rfl⟩

theorem Follows.newest (h : Follows s) {thread : StreamThread} {n : ℕ} (hknown : thread.known = [n])
    (hmem : n ∈ s.thread.known) (hmax : ∀ m ∈ s.thread.known, m ≤ n) :
    Follows { s with thread := thread } := by
  apply h.rethread
  · intro m hm
    rw [hknown, List.mem_singleton] at hm
    rw [hm]
    exact hmem
  · intro m hm
    exact ⟨n, hknown ▸ List.mem_singleton_self n, hmax m hm⟩

theorem Follows.subscribe (h : Untouched s) {thread : StreamThread} (hlatest : thread.known = [0]) :
    Follows { s with registered := true, thread := thread } := by
  have hvacuous : ∀ n, n ∉ s.delivered.getLast? := by simp [h.delivered]
  refine ⟨fun _ => rfl, fun hs => ?_, fun b hb => ?_, fun b _ n hn => (hvacuous n hn).elim,
    fun n hn => ⟨fun m hm => (hvacuous m hm).elim, ?_⟩, fun _ n hn => (hvacuous n hn).elim⟩
  · rw [h.slot] at hs
    cases hs
  · rw [h.slot] at hb
    cases hb
  · rw [hlatest] at hn
    cases List.mem_singleton.mp hn
    exact Nat.zero_le _

theorem Follows.readLatest (h : Follows s) (hnumbered : Numbered s) {thread : StreamThread}
    {initial : ConsolidatedBook} (hlatest : s.latest = some initial)
    (hknown : thread.known = s.thread.known ++ [initial.sequence]) :
    Follows { s with thread := thread } := by
  refine ⟨h.registered, h.slotStopped, h.pending, h.latest, fun n hn => ?_, fun hnone n hn => ?_⟩
  · rw [hknown, List.mem_append, List.mem_singleton] at hn
    rcases hn with hn | rfl
    · exact h.known n hn
    · exact ⟨h.latest initial hlatest, hnumbered.latest initial hlatest⟩
  · obtain ⟨m, hm, hle⟩ := h.seen hnone n hn
    exact ⟨m, hknown ▸ List.mem_append_left _ hm, hle⟩

theorem Follows.take (h : Follows s) (hnumbered : Numbered s) {thread : StreamThread}
    (hknown : thread.known =
      s.thread.known ++ (s.slot.pending.map ConsolidatedBook.sequence).toList) :
    Follows { s with slot := s.slot.waitNextFor.2, thread := thread } := by
  refine ⟨h.registered, h.slotStopped, fun b hb => (Option.not_mem_none b hb).elim, h.latest,
    fun n hn => ?_, fun _ n hn => ?_⟩
  · rw [hknown, List.mem_append] at hn
    rcases hn with hn | hn
    · exact h.known n hn
    · obtain ⟨book, hbook, rfl⟩ := Option.map_eq_some_iff.mp (Option.mem_toList.mp hn)
      have hnewest := h.pending book hbook
      refine ⟨fun m hm => Or.inl ?_, (hnumbered.delivered _ hnewest).2⟩
      rw [Option.mem_def.mp hm] at hnewest
      exact (Option.some.inj hnewest).ge
  · rw [hknown]
    cases hpending : s.slot.pending with
    | none =>
      obtain ⟨m, hm, hle⟩ := h.seen hpending n hn
      exact ⟨m, List.mem_append_left _ hm, hle⟩
    | some book =>
      have hnewest := h.pending book hpending
      rw [Option.mem_def.mp hn] at hnewest
      exact ⟨book.sequence, by simp, (Option.some.inj hnewest).le⟩

theorem Tracked.of_serving (hserving : s.thread.phase.serving = true) (hnumbered : Numbered s)
    (hfollows : Follows s) (hemitted : s.thread.Emitted) : Tracked s where
  numbered := hnumbered
  untouched hat := by
    rw [hat] at hserving
    cases hserving
  follows _ := hfollows
  emitted := hemitted

theorem Tracked.of_leaving (hleaving : s.thread.phase ∈ [.stopping, .removing, .finished])
    (hnumbered : Numbered s) : Tracked s := by
  simp only [List.mem_cons, List.not_mem_nil, or_false] at hleaving
  refine ⟨hnumbered, fun hat => ?_, fun hserving => ?_, ?_⟩
  · simp [hat] at hleaving
  · rcases hleaving with hat | hat | hat <;> simp [hat, StreamPhase.serving] at hserving
  · rcases hleaving with hat | hat | hat <;> simp [StreamThread.Emitted, hat]

theorem tracked_wake (h : Tracked s) {answer : Option ConsolidatedBook}
    (hat : s.thread.phase = .woken answer) :
    Tracked { s with thread := s.thread.wake minIntervalMicros s.slot.stopped answer } := by
  have hfollows := h.follows (by rw [hat]; rfl)
  have hemitted := h.emitted
  simp only [StreamThread.Emitted, hat] at hemitted
  unfold StreamThread.wake
  by_cases hstopped : s.slot.stopped = true
  · rw [if_pos hstopped]
    exact .of_leaving (by simp) (h.numbered.rethread _)
  · rw [if_neg hstopped]
    cases answer with
    | none =>
      refine .of_serving rfl (h.numbered.rethread _) ?_ hemitted
      exact hfollows.withPhase (by simp [StreamThread.known, hat])
    | some book =>
      have hknown : s.thread.known = [s.thread.lastSequence, book.sequence] := by
        simp [StreamThread.known, hat]
      by_cases hold : book.sequence ≤ s.thread.lastSequence
      · simp only [if_pos hold]
        refine .of_serving rfl (h.numbered.rethread _) ?_ hemitted
        apply hfollows.newest rfl
        · simp [hknown]
        · simp [hknown, hold]
      · simp only [if_neg hold]
        have hnewest : ∀ {thread : StreamThread}, thread.known = [book.sequence] →
            Follows { s with thread := thread } := by
          intro thread hthread
          apply hfollows.newest hthread
          · simp [hknown]
          · simp [hknown, (not_le.mp hold).le]
        by_cases htimed : 0 < minInterval minIntervalMicros
        · simp only [if_pos htimed]
          exact .of_serving rfl (h.numbered.rethread _) (hnewest rfl) rfl
        · simp only [if_neg htimed]
          exact .of_serving rfl (h.numbered.rethread _) (hnewest rfl) rfl

theorem lastEmitted_concat (thread : StreamThread) (next : Emission) :
    ({ thread with emitted := thread.emitted ++ [next] } : StreamThread).lastEmitted =
      some next.sequence := by
  simp [StreamThread.lastEmitted]

theorem tracked_initialSent (h : Tracked s) {book : ConsolidatedBook}
    (hat : s.thread.phase = .sendingInitial book) (written : Bool) :
    Tracked { s with thread := s.thread.initialSent book s.now written } := by
  have hfollows := h.follows (by rw [hat]; rfl)
  have hemitted := h.emitted
  simp only [StreamThread.Emitted, hat] at hemitted
  cases written with
  | true =>
    refine .of_serving rfl (h.numbered.rethread _) ?_
      (Or.inr (lastEmitted_concat _ _))
    apply hfollows.newest (n := book.sequence) rfl
    · simp [StreamThread.known, hat]
    · simp [StreamThread.known, hat, hemitted.2]
  | false =>
    apply Tracked.of_leaving
    · simp [StreamThread.initialSent]
    · exact h.numbered.rethread _

theorem tracked_sent (h : Tracked s) {book : ConsolidatedBook}
    (hat : s.thread.phase = .sending book) (written : Bool) :
    Tracked { s with thread := s.thread.sent book written } := by
  have hfollows := h.follows (by rw [hat]; rfl)
  have hemitted := h.emitted
  simp only [StreamThread.Emitted, hat] at hemitted
  cases written with
  | true =>
    refine .of_serving rfl (h.numbered.rethread _) ?_ (Or.inr ?_)
    · apply hfollows.withPhase
      simp [StreamThread.known, StreamThread.sent, StreamThread.emit, hat]
    · exact (lastEmitted_concat _ _).trans (congrArg some hemitted)
  | false =>
    exact .of_leaving (by simp [StreamThread.sent]) (h.numbered.rethread _)

theorem tracked_handler (h : Tracked s) {reading : ClientReading}
    (hkeeps : s.keepsUp minIntervalMicros (.handler reading) = true)
    (hstep : s.handlerStep minIntervalMicros reading = some t) : Tracked t := by
  have hnumbered := h.numbered.handler (handlerStep_sameEngine hstep)
  have hemitted := h.emitted
  cases handled_of_step hstep with
  | subscribing hat =>
    simp only [StreamThread.Emitted, hat] at hemitted
    refine .of_serving rfl hnumbered ?_ hemitted
    exact Follows.subscribe (h.untouched hat) (by simp [StreamThread.known, hemitted.2])
  | readLatest hat hlatest =>
    have hfollows := h.follows (by rw [hat]; rfl)
    simp only [StreamThread.Emitted, hat] at hemitted
    refine .of_serving rfl hnumbered ?_ hemitted
    exact hfollows.readLatest h.numbered hlatest (by simp [StreamThread.known, hat])
  | readNothing hat hlatest =>
    have hfollows := h.follows (by rw [hat]; rfl)
    simp only [StreamThread.Emitted, hat] at hemitted
    refine .of_serving rfl hnumbered ?_ (Or.inl hemitted)
    exact hfollows.withPhase (by simp [StreamThread.known, hat])
  | sendingInitial hat => exact tracked_initialSent h hat reading.written
  | checking hat =>
    have hfollows := h.follows (by rw [hat]; rfl)
    simp only [StreamThread.Emitted, hat] at hemitted
    cases hcancelled : reading.cancelled with
    | true =>
      rw [hcancelled] at hnumbered
      exact .of_leaving (by simp) hnumbered
    | false =>
      rw [hcancelled] at hnumbered
      refine .of_serving rfl hnumbered ?_ hemitted
      exact hfollows.withPhase (by simp [StreamThread.known, hat])
  | waiting hat =>
    have hfollows := h.follows (by rw [hat]; rfl)
    simp only [StreamThread.Emitted, hat] at hemitted
    refine .of_serving rfl hnumbered ?_ hemitted
    apply hfollows.take h.numbered
    simp only [ConflatingSlot.waitNextFor, ConflatingSlot.take]
    cases s.slot.pending <;> simp [StreamThread.known, hat]
  | woken hat => exact tracked_wake h hat
  | @throttling book hat =>
    have hfollows := h.follows (by rw [hat]; rfl)
    simp only [StreamThread.Emitted, hat] at hemitted
    simp only [keepsUp, hat, Bool.not_eq_true'] at hkeeps
    have hsends : s.thread.throttle minIntervalMicros s.now book =
        { s.thread with phase := .sending book, lastSent := some s.now } := by
      rw [StreamThread.throttle, if_neg (by simp [hkeeps])]
    rw [hsends] at hnumbered ⊢
    refine .of_serving rfl hnumbered ?_ hemitted
    exact hfollows.withPhase (by simp [StreamThread.known, hat])
  | sending hat => exact tracked_sent h hat reading.written
  | stopping hat => exact .of_leaving (by simp) hnumbered
  | removing hat => exact .of_leaving (by simp) hnumbered

theorem Untouched.deliver (h : Untouched s) (book : ConsolidatedBook) :
    s.deliver book = { s with publishing := .idle } := by
  rw [StreamSystem.deliver, if_neg (by simp [h.registered])]

theorem Tracked.engine (h : Tracked s) (hnumbered : Numbered t) (hthread : t.thread = s.thread)
    (huntouched : Untouched s → Untouched t) (hfollows : Follows s → Follows t) : Tracked t where
  numbered := hnumbered
  untouched hat := huntouched (h.untouched (hthread ▸ hat))
  follows hserving := hfollows (h.follows (hthread ▸ hserving))
  emitted := hthread ▸ h.emitted

theorem tracked_publish (h : Tracked s) (book : ConsolidatedBook) (hidle : s.publishing = .idle)
    (hrunning : s.engineStopped = false) : Tracked
    { s with
      published := s.published + 1
      publishing := .storing { book with sequence := s.published + 1 } } :=
  h.engine (h.numbered.publish book hrunning) rfl (fun hu => ⟨hu.delivered, hu.registered, hu.slot⟩)
    fun hf => hf.publish hidle book

theorem tracked_engineStep (h : Tracked s) (hstep : s.engineStep = some t) : Tracked t := by
  unfold engineStep at hstep
  split at hstep
  · cases hstep
  · rename_i book hat
    cases hstep
    exact h.engine (h.numbered.store hat) rfl (fun hu => ⟨hu.delivered, hu.registered, hu.slot⟩)
      fun hf => hf.store hat
  · rename_i book hat
    cases hstep
    have hthread : (s.deliver book).thread = s.thread := by
      unfold StreamSystem.deliver
      split_ifs
      · rfl
      · rfl
    apply h.engine (h.numbered.deliver hat) hthread
    · intro huntouched
      rw [huntouched.deliver]
      exact ⟨huntouched.delivered, huntouched.registered, huntouched.slot⟩
    · intro hfollows
      exact hfollows.deliver h.numbered hat

theorem tracked_stopEngine (h : Tracked s) (hstep : s.stopEngine = some t) : Tracked t := by
  unfold stopEngine at hstep
  by_cases hidle : s.publishing = .idle ∧ s.engineStopped = false
  · rw [if_pos hidle] at hstep
    cases hstep
    refine h.engine ?_ rfl (fun hu => ?_) Follows.stopEngine
    · exact ⟨fun _ => hidle.1, h.numbered.storing, h.numbered.delivering, h.numbered.latest,
        h.numbered.delivered⟩
    · exact ⟨hu.delivered, rfl, by simp [hu.registered, hu.slot]⟩
  · rw [if_neg hidle] at hstep
    cases hstep

theorem tracked_step {move : StreamMove} (h : Tracked s)
    (hkeeps : s.keepsUp minIntervalMicros move = true)
    (hstep : s.step minIntervalMicros move = some t) : Tracked t := by
  cases move with
  | publish book =>
    by_cases hidle : s.publishing = .idle ∧ s.engineStopped = false
    · rw [step, if_pos hidle] at hstep
      cases hstep
      exact tracked_publish h book hidle.1 hidle.2
    · rw [step, if_neg hidle] at hstep
      cases hstep
  | engine => exact tracked_engineStep h hstep
  | stopEngine => exact tracked_stopEngine h hstep
  | tick elapsed =>
    cases hstep
    refine h.engine ?_ rfl (fun hu => ?_) fun hf => ?_
    · exact ⟨h.numbered.stopped, h.numbered.storing, h.numbered.delivering, h.numbered.latest,
        h.numbered.delivered⟩
    · exact ⟨hu.delivered, hu.registered, hu.slot⟩
    · exact ⟨hf.registered, hf.slotStopped, hf.pending, hf.latest, hf.known, hf.seen⟩
  | handler reading => exact tracked_handler h hkeeps hstep

theorem tracked_start (start : Int) : Tracked { now := start } where
  numbered := by
    refine ⟨fun _ => rfl, ?_, ?_, by simp, by simp⟩
    · intro book hat
      cases hat
    · intro book hat
      cases hat
  untouched _ := ⟨rfl, rfl, rfl⟩
  follows hserving := by cases hserving
  emitted := ⟨rfl, rfl⟩

theorem Tracked.upToDate (h : Tracked s) {move : StreamMove}
    (hkeeps : s.keepsUp minIntervalMicros move = true) : UpToDate minIntervalMicros s move := by
  intro hempty htime hdelivered
  cases move with
  | handler reading =>
    simp only [findsEmpty, decide_eq_true_eq] at hempty
    obtain ⟨hat, hpending⟩ := hempty
    have hfollows := h.follows (by rw [hat]; rfl)
    have hemitted := h.emitted
    simp only [StreamThread.Emitted, hat] at hemitted
    have hahead : s.aheadOfSlot = false := by
      simpa [keepsUp, hat, findsEmpty, hpending, htime, hdelivered] using hkeeps
    have hnewest := List.getLast?_eq_some_getLast hdelivered
    generalize s.delivered.getLast hdelivered = newest at hnewest
    have hmem : s.thread.lastSequence ∈ s.thread.known := by simp [StreamThread.known, hat]
    obtain ⟨m, hm, hle⟩ := hfollows.seen hpending newest hnewest
    have hlast : m = s.thread.lastSequence := by simpa [StreamThread.known, hat] using hm
    have hge : s.thread.lastSequence ≤ newest := by
      rcases (hfollows.known _ hmem).1 newest hnewest with hbelow | ⟨book, hbook, heq⟩
      · exact hbelow
      · simp [aheadOfSlot, hbook, heq] at hahead
    have hpos := (h.numbered.delivered newest hnewest).1
    rcases hemitted with ⟨-, hzero⟩ | hsome
    · omega
    · rw [hsome, hnewest]
      congr 1
      omega
  | publish book => cases hempty
  | engine => cases hempty
  | stopEngine => cases hempty
  | tick elapsed => cases hempty

end Steps

/-- As long as no state is taken inside the interval, none is lost on the way to the client. -/
theorem upToDate_of_keepsUp (minIntervalMicros : UInt32) (start : Int) (moves : List StreamMove)
    (hkeeps : Machine.Along (step minIntervalMicros)
      (fun s move => s.keepsUp minIntervalMicros move = true) { now := start } moves) :
    Machine.Along (step minIntervalMicros) (UpToDate minIntervalMicros) { now := start } moves :=
  Machine.along_mono (fun _ _ _ h hk hs => tracked_step h hk hs)
    (fun _ _ h hk => h.upToDate hk) (tracked_start start) hkeeps

def quietBook : ConsolidatedBook := ⟨0, 0, 0, "", [], [], [], [], [], [], [], false, false⟩

def publication : List StreamMove := [.publish quietBook, .engine, .engine]

def turns (n : ℕ) : List StreamMove := List.replicate n (.handler {})

theorem upToDate_of_late_take : Machine.Along (step 1000) (UpToDate 1000) { now := 0 }
    (publication ++ turns 4 ++ publication ++ [.tick 1000000] ++ turns 6) :=
  upToDate_of_keepsUp 1000 0 _ (by decide +kernel)

/-- A state taken at once is thrown away, and a millisecond later the client still has the
state before it. -/
theorem early_take_loses : ¬ Machine.Along (step 1000) (UpToDate 1000) { now := 0 }
    (publication ++ turns 4 ++ publication ++ turns 3 ++ [.tick 1000000] ++ turns 6) := by
  decide +kernel

end StreamSystem
end CexAggregator
