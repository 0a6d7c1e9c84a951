import Mathlib.Data.List.Sort
import CexAggregator.Subscribers

/-!
# What the clients were sent

Every book in the engine, in a slot or in a handler's hands is one of the published states.
As each stream goes from newer to newer, what a client was sent is a selection of the
published states in their order, and two clients that were sent the same sequence were sent
the same state.
-/

namespace CexAggregator

def DeliveryPhase.book : DeliveryPhase → Option ConsolidatedBook
  | .storing book => some book
  | .locking book => some book
  | .delivering book _ => some book
  | _ => none

def StreamPhase.held : StreamPhase → Option ConsolidatedBook
  | .sendingInitial book => some book
  | .woken answer => answer
  | .throttling book => some book
  | .sending book => some book
  | _ => none

theorem StreamPhase.held_of_inHand {phase : StreamPhase} {book : ConsolidatedBook}
    (h : book ∈ phase.inHand) : book ∈ phase.held := by
  cases phase <;> first | exact h | cases h

namespace StreamSystem
variable {minIntervalMicros : UInt32} {s t : StreamSystem} {reading : ClientReading}

/-- A handler makes up no book: it has one from `Latest()`, from its slot or from before. -/
theorem Handled.held (h : Handled minIntervalMicros s reading t) {book : ConsolidatedBook}
    (hbook : book ∈ t.thread.phase.held) :
    book ∈ s.latest ∨ book ∈ s.slot.pending ∨ book ∈ s.thread.phase.held := by
  cases h with
  | readLatest hat hlatest =>
    cases hbook
    exact Or.inl hlatest
  | waiting hat => exact Or.inr (Or.inl hbook)
  | checking hat =>
    revert hbook
    cases reading.cancelled <;> exact fun hbook => by cases hbook
  | sendingInitial hat =>
    revert hbook
    cases reading.written <;> exact fun hbook => by cases hbook
  | sending hat =>
    revert hbook
    cases reading.written <;> exact fun hbook => by cases hbook
  | @woken answer hat =>
    refine Or.inr (Or.inr ?_)
    revert hbook
    simp only [StreamThread.wake, hat]
    split_ifs
    · exact fun hbook => by cases hbook
    all_goals
      cases answer with
      | none => exact fun hbook => by cases hbook
      | some taken =>
        dsimp only
        split_ifs
        · exact fun hbook => by cases hbook
        · exact id
  | @throttling held hat =>
    refine Or.inr (Or.inr ?_)
    revert hbook
    simp only [StreamThread.throttle, hat]
    split_ifs
    · exact fun hbook => by cases hbook
    · exact id
  | subscribing hat => cases hbook
  | readNothing hat hlatest => cases hbook
  | stopping hat => cases hbook
  | removing hat => cases hbook

theorem Handled.pending (h : Handled minIntervalMicros s reading t) {book : ConsolidatedBook}
    (hbook : book ∈ t.slot.pending) : book ∈ s.slot.pending := by
  cases h with
  | waiting hat => cases hbook
  | _ => exact hbook

theorem Handled.emitted (h : Handled minIntervalMicros s reading t) :
    t.thread.emitted.map Emission.sequence = s.thread.emitted.map Emission.sequence ++
      s.thread.phase.inHand.toList.map ConsolidatedBook.sequence := by
  cases h with
  | sendingInitial hat =>
    simp only [hat, StreamThread.initialSent]
    split_ifs <;> simp [StreamThread.emit, StreamPhase.inHand]
  | sending hat => simp [hat, StreamThread.sent, StreamThread.emit, StreamPhase.inHand]
  | woken hat =>
    simp only [hat, StreamThread.wake, StreamPhase.inHand]
    split_ifs
    · simp
    all_goals
      split
      · simp
      · split_ifs <;> simp
  | throttling hat =>
    simp only [hat, StreamThread.throttle, StreamPhase.inHand]
    split_ifs <;> simp
  | checking hat => simp [hat, StreamPhase.inHand]
  | waiting hat => simp [hat, StreamPhase.inHand]
  | subscribing hat => simp [hat, StreamPhase.inHand]
  | readLatest hat hlatest => simp [hat, StreamPhase.inHand]
  | readNothing hat hlatest => simp [hat, StreamPhase.inHand]
  | stopping hat => simp [hat, StreamPhase.inHand]
  | removing hat => simp [hat, StreamPhase.inHand]

end StreamSystem

namespace SubscriberSystem
variable {minIntervalMicros : ℕ → UInt32} {s t : SubscriberSystem}

structure Within (history : List ConsolidatedBook) (s : SubscriberSystem) : Prop where
  latest : ∀ book ∈ s.latest, book ∈ history
  publishing : ∀ book ∈ s.publishing.book, book ∈ history
  slots : ∀ id, ∀ book ∈ (s.slots id).pending, book ∈ history
  threads : ∀ id, ∀ book ∈ (s.threads id).phase.held, book ∈ history
  sent : ∀ id, ∀ book ∈ s.sent id, book ∈ history

structure Told (s : SubscriberSystem) : Prop where
  numbered : s.history.map ConsolidatedBook.sequence = List.range' 1 s.published
  within : s.Within s.history
  emitted : ∀ id, (s.sent id).map ConsolidatedBook.sequence =
    (s.threads id).emitted.map Emission.sequence

theorem Within.mono {history more : List ConsolidatedBook} (h : s.Within history)
    (hsub : history ⊆ more) : s.Within more where
  latest book hbook := hsub (h.latest book hbook)
  publishing book hbook := hsub (h.publishing book hbook)
  slots id book hbook := hsub (h.slots id book hbook)
  threads id book hbook := hsub (h.threads id book hbook)
  sent id book hbook := hsub (h.sent id book hbook)

theorem pending_of_publish {slot : ConflatingSlot ConsolidatedBook} {value book : ConsolidatedBook}
    (h : book ∈ (slot.publish value).2.pending) : book = value ∨ book ∈ slot.pending := by
  rw [ConflatingSlot.publish] at h
  by_cases hstopped : slot.stopped = true
  · rw [if_pos hstopped] at h
    exact Or.inr h
  · rw [if_neg hstopped] at h
    exact Or.inl (Option.some.inj h).symm

theorem Within.deliver {history : List ConsolidatedBook} (h : s.Within history)
    {book : ConsolidatedBook} {id : ℕ} {todo : List ℕ} (hbook : book ∈ history) :
    (s.deliver book id todo).Within history := by
  refine ⟨h.latest, fun other hother => ?_, fun other => ?_, h.threads, h.sent⟩
  · cases hother
    exact hbook
  · intro held hheld
    rw [SubscriberSystem.deliver] at hheld
    by_cases hid : other = id
    · subst hid
      simp only [Function.update_self] at hheld
      obtain rfl | hheld := pending_of_publish hheld
      · exact hbook
      · exact h.slots other held hheld
    · simp only [Function.update_of_ne hid] at hheld
      exact h.slots other held hheld

theorem Within.handler {history : List ConsolidatedBook} (h : s.Within history) {id : ℕ}
    {reading : ClientReading} {t : StreamSystem}
    (hhandled : StreamSystem.Handled (minIntervalMicros id) (s.seat id) reading t)
    (subscribers : List ℕ) :
    Within history
      { s with
        subscribers := subscribers
        slots := Function.update s.slots id t.slot
        threads := Function.update s.threads id t.thread
        sent := Function.update s.sent id
          (s.sent id ++ (s.threads id).phase.inHand.toList) } := by
  refine ⟨h.latest, h.publishing, fun other book hbook => ?_, fun other book hbook => ?_,
    fun other book hbook => ?_⟩
  all_goals by_cases hid : other = id
  · subst hid
    simp only [Function.update_self] at hbook
    exact h.slots other book (hhandled.pending hbook)
  · simp only [Function.update_of_ne hid] at hbook
    exact h.slots other book hbook
  · subst hid
    simp only [Function.update_self] at hbook
    obtain hlatest | hslot | hheld := hhandled.held hbook
    · exact h.latest book hlatest
    · exact h.slots other book hslot
    · exact h.threads other book hheld
  · simp only [Function.update_of_ne hid] at hbook
    exact h.threads other book hbook
  · subst hid
    simp only [Function.update_self] at hbook
    obtain hsent | hhand := List.mem_append.mp hbook
    · exact h.sent other book hsent
    · exact h.threads other book
        (StreamPhase.held_of_inHand (Option.mem_toList.mp hhand))
  · simp only [Function.update_of_ne hid] at hbook
    exact h.sent other book hbook

theorem Told.publish (h : Told s) (book : ConsolidatedBook) : Told
    { s with
      published := s.published + 1
      publishing := .storing { book with sequence := s.published + 1 }
      history := s.history ++ [{ book with sequence := s.published + 1 }] } := by
  have hmore := h.within.mono (List.subset_append_left s.history
    [{ book with sequence := s.published + 1 }])
  refine ⟨?_, ⟨hmore.latest, ?_, hmore.slots, hmore.threads, hmore.sent⟩, h.emitted⟩
  · change (s.history ++ [{ book with sequence := s.published + 1 }]).map _ = _
    rw [List.map_append, h.numbered, List.range'_1_concat, Nat.add_comm 1]
    rfl
  · intro other hother
    cases hother
    exact List.mem_concat_self

theorem Told.step (h : Told s) {move : SubscriberMove}
    (hstep : Stepped minIntervalMicros s move t) : Told t := by
  have hwithin := h.within
  cases hstep with
  | publish hidle hrunning => exact h.publish _
  | store hat =>
    have hbook := hwithin.publishing _ (by rw [hat]; rfl)
    refine ⟨h.numbered, ⟨fun book hlatest => ?_, fun book hstored => ?_, hwithin.slots,
      hwithin.threads, hwithin.sent⟩, h.emitted⟩
    · cases hlatest
      exact hbook
    · cases hstored
      exact hbook
  | lock hat =>
    have hbook := hwithin.publishing _ (by rw [hat]; rfl)
    refine ⟨h.numbered, ⟨hwithin.latest, fun book hlocked => ?_, hwithin.slots, hwithin.threads,
      hwithin.sent⟩, h.emitted⟩
    cases hlocked
    exact hbook
  | unlock hat =>
    exact ⟨h.numbered, ⟨hwithin.latest, fun book hidle => (by cases hidle), hwithin.slots,
      hwithin.threads, hwithin.sent⟩, h.emitted⟩
  | deliver hat =>
    have hbook := hwithin.publishing _ (by rw [hat]; rfl)
    exact ⟨h.numbered, hwithin.deliver hbook, h.emitted⟩
  | @close id todo hat =>
    refine ⟨h.numbered, ⟨hwithin.latest, fun book hclosing => (by cases hclosing), ?_,
      hwithin.threads, hwithin.sent⟩, h.emitted⟩
    intro other book hbook
    by_cases hid : other = id
    · subst hid
      simp only [Function.update_self] at hbook
      exact hwithin.slots other book hbook
    · simp only [Function.update_of_ne hid] at hbook
      exact hwithin.slots other book hbook
  | clear hat =>
    exact ⟨h.numbered, ⟨hwithin.latest, fun book hidle => (by cases hidle), hwithin.slots,
      hwithin.threads, hwithin.sent⟩, h.emitted⟩
  | stopEngine hidle hrunning =>
    exact ⟨h.numbered, ⟨hwithin.latest, fun book hclosing => (by cases hclosing), hwithin.slots,
      hwithin.threads, hwithin.sent⟩, h.emitted⟩
  | tick elapsed =>
    exact ⟨h.numbered, ⟨hwithin.latest, hwithin.publishing, hwithin.slots, hwithin.threads,
      hwithin.sent⟩, h.emitted⟩
  | @handler id reading u hfree hhandled =>
    refine ⟨h.numbered, hwithin.handler hhandled _, fun other => ?_⟩
    by_cases hid : other = id
    · subst hid
      simp only [Function.update_self]
      rw [List.map_append, h.emitted, hhandled.emitted]
      rfl
    · simp only [Function.update_of_ne hid]
      exact h.emitted other

theorem told_start (start : Int) : Told { now := start } :=
  ⟨rfl, ⟨fun _ h => (by cases h), fun _ h => (by cases h), fun _ _ h => (by cases h),
    fun _ _ h => (by cases h), fun _ _ h => (by cases h)⟩, fun _ => rfl⟩

theorem told_run (start : Int) (moves : List SubscriberMove) :
    Told (run minIntervalMicros start moves) :=
  Machine.run_rule (fun _ _ _ h hstep => h.step (stepped_of_step hstep)) (told_start start) moves

theorem Told.increasing (h : Told s) :
    s.history.Pairwise fun a b => a.sequence < b.sequence := by
  rw [← List.pairwise_map, h.numbered]
  exact List.pairwise_lt_range'

theorem Told.sent_increasing (h : Told s) {id : ℕ} {interval : Int}
    (horder : (s.threads id).InOrder interval) :
    (s.sent id).Pairwise fun a b => a.sequence < b.sequence := by
  rw [← List.pairwise_map, h.emitted id]
  exact horder.increasing

theorem Told.sent_sublist (h : Told s) {id : ℕ} {interval : Int}
    (horder : (s.threads id).InOrder interval) : (s.sent id).Sublist s.history := by
  have hsent := h.sent_increasing horder
  have hirrefl : Std.Irrefl fun a b : ConsolidatedBook => a.sequence < b.sequence :=
    ⟨fun _ => lt_irrefl _⟩
  have hantisymm : Std.Antisymm fun a b : ConsolidatedBook => a.sequence < b.sequence :=
    ⟨fun _ _ hab hba => (lt_asymm hab hba).elim⟩
  exact List.sublist_of_subperm_of_pairwise
    (List.subperm_of_subset hsent.nodup (h.within.sent id)) hsent h.increasing

theorem Told.agree (h : Told s) {id other : ℕ} {a b : ConsolidatedBook} (ha : a ∈ s.sent id)
    (hb : b ∈ s.sent other) (hsame : a.sequence = b.sequence) : a = b := by
  have hnodup : (s.history.map ConsolidatedBook.sequence).Nodup := by
    rw [h.numbered]
    exact List.nodup_range'
  exact List.inj_on_of_nodup_map hnodup (h.within.sent id a ha) (h.within.sent other b hb) hsame

/-- The clients of one engine agree: what each was sent is a selection of the published states in
their order, and the same sequence is the same state to all. -/
theorem clients_agree (minIntervalMicros : ℕ → UInt32) (start : Int)
    (moves : List SubscriberMove) :
    let s := run minIntervalMicros start moves
    s.history.map ConsolidatedBook.sequence = List.range' 1 s.published ∧
      (∀ id, (s.sent id).Sublist s.history ∧
        (s.sent id).map ConsolidatedBook.sequence =
          (s.threads id).emitted.map Emission.sequence) ∧
      ∀ id other, ∀ a ∈ s.sent id, ∀ b ∈ s.sent other, a.sequence = b.sequence → a = b := by
  intro s
  have h : Told s := told_run start moves
  refine ⟨h.numbered, fun id => ⟨?_, h.emitted id⟩, fun id other a ha b hb => h.agree ha hb⟩
  exact h.sent_sublist (inOrder_run minIntervalMicros start moves id)

end SubscriberSystem

end CexAggregator
