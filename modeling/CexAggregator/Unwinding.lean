import CexAggregator.Subscribers

/-!
# How streams come to their end

A handler ends when the client has gone or when its slot has been stopped. It never waits for
the other handlers, so the number of steps it has left is known from where it stands.
`Stop()` itself has one turn for every subscriber on the list, whatever the handlers do
meanwhile, and misses none of them.
-/

namespace CexAggregator

/-- The most steps a handler takes that finds the client gone, or its slot stopped, when it
looks next. -/
def StreamPhase.stepsLeft (stopped : Bool) : StreamPhase → ℕ
  | .subscribing => if stopped then 8 else 6
  | .reading => if stopped then 7 else 5
  | .sendingInitial _ => if stopped then 6 else 4
  | .throttling _ => if stopped then 7 else 5
  | .sending _ => if stopped then 6 else 4
  | .checking => if stopped then 5 else 3
  | .waiting => if stopped then 4 else 7
  | .woken _ => if stopped then 3 else 6
  | .stopping => 2
  | .removing => 1
  | .finished => 0

namespace StreamSystem
variable {minIntervalMicros : UInt32} {s t : StreamSystem} {reading : ClientReading}

theorem Handled.stepsLeft_of_cancelled (h : Handled minIntervalMicros s reading t)
    (hcancelled : reading.cancelled = true) :
    t.thread.phase.stepsLeft false < s.thread.phase.stepsLeft false := by
  cases h with
  | subscribing hat => simp [hat, StreamPhase.stepsLeft]
  | readLatest hat hlatest => simp [hat, StreamPhase.stepsLeft]
  | readNothing hat hlatest => simp [hat, StreamPhase.stepsLeft]
  | sendingInitial hat =>
    simp only [hat, StreamThread.initialSent]
    split_ifs <;> simp [StreamPhase.stepsLeft]
  | checking hat => simp [hat, hcancelled, StreamPhase.stepsLeft]
  | waiting hat => simp [hat, StreamPhase.stepsLeft]
  | woken hat =>
    simp only [hat, StreamThread.wake]
    split_ifs
    · simp [StreamPhase.stepsLeft]
    all_goals
      split
      · simp [StreamPhase.stepsLeft]
      · split_ifs <;> simp [StreamPhase.stepsLeft]
  | throttling hat =>
    simp only [hat, StreamThread.throttle]
    split_ifs <;> simp [StreamPhase.stepsLeft]
  | sending hat =>
    simp only [hat, StreamThread.sent]
    split_ifs <;> simp [StreamPhase.stepsLeft]
  | stopping hat => simp [hat, StreamPhase.stepsLeft]
  | removing hat => simp [hat, StreamPhase.stepsLeft]

theorem Handled.stepsLeft_of_stopped (h : Handled minIntervalMicros s reading t)
    (hstopped : s.slot.stopped = true) :
    t.thread.phase.stepsLeft true < s.thread.phase.stepsLeft true := by
  cases h with
  | subscribing hat => simp [hat, StreamPhase.stepsLeft]
  | readLatest hat hlatest => simp [hat, StreamPhase.stepsLeft]
  | readNothing hat hlatest => simp [hat, StreamPhase.stepsLeft]
  | sendingInitial hat =>
    simp only [hat, StreamThread.initialSent]
    split_ifs <;> simp [StreamPhase.stepsLeft]
  | checking hat =>
    simp only [hat]
    split_ifs <;> simp [StreamPhase.stepsLeft]
  | waiting hat => simp [hat, StreamPhase.stepsLeft]
  | woken hat => simp [hat, hstopped, StreamThread.wake, StreamPhase.stepsLeft]
  | throttling hat =>
    simp only [hat, StreamThread.throttle]
    split_ifs <;> simp [StreamPhase.stepsLeft]
  | sending hat =>
    simp only [hat, StreamThread.sent]
    split_ifs <;> simp [StreamPhase.stepsLeft]
  | stopping hat => simp [hat, StreamPhase.stepsLeft]
  | removing hat => simp [hat, StreamPhase.stepsLeft]

theorem Handled.stopped (h : Handled minIntervalMicros s reading t)
    (hstopped : s.slot.stopped = true) : t.slot.stopped = true := by
  cases h with
  | stopping hat => rfl
  | _ => exact hstopped

theorem Handled.not_subscribing (h : Handled minIntervalMicros s reading t) :
    t.thread.phase ≠ .subscribing := by
  cases h with
  | sendingInitial hat =>
    simp only [StreamThread.initialSent]
    split_ifs <;> simp
  | checking hat =>
    simp only
    split_ifs <;> simp
  | woken hat =>
    simp only [StreamThread.wake]
    split_ifs
    · simp
    all_goals
      split
      · simp
      · split_ifs <;> simp
  | throttling hat =>
    simp only [StreamThread.throttle]
    split_ifs <;> simp
  | sending hat =>
    simp only [StreamThread.sent]
    split_ifs <;> simp
  | _ => simp

end StreamSystem

def SubscriberMove.ofHandler (id : ℕ) : SubscriberMove → Bool
  | .handler other _ => other = id
  | _ => false

def SubscriberMove.ofEngine : SubscriberMove → Bool
  | .engine => true
  | _ => false

def SubscriberMove.Gone (id : ℕ) : SubscriberMove → Prop
  | .handler other reading => other = id → reading.cancelled = true
  | _ => True

def DeliveryPhase.turnsLeft : DeliveryPhase → ℕ
  | .delivering _ todo => todo.length + 1
  | .closing todo => todo.length + 1
  | _ => 0

namespace SubscriberSystem
variable {minIntervalMicros : ℕ → UInt32} {s t : SubscriberSystem} {id : ℕ}

theorem Stepped.handled {reading : ClientReading}
    (hstep : Stepped minIntervalMicros s (.handler id reading) t) :
    ∃ u, StreamSystem.Handled (minIntervalMicros id) (s.seat id) reading u ∧
      t.threads id = u.thread := by
  cases hstep with
  | handler hfree hhandled => exact ⟨_, hhandled, Function.update_self _ _ _⟩

theorem Stepped.threads {move : SubscriberMove} (hstep : Stepped minIntervalMicros s move t)
    (hother : move.ofHandler id = false) : t.threads id = s.threads id := by
  cases hstep with
  | handler hfree hhandled =>
    have hid := of_decide_eq_false hother
    exact Function.update_of_ne (Ne.symm hid) _ _
  | _ => rfl

theorem Stepped.not_subscribing {move : SubscriberMove}
    (hstep : Stepped minIntervalMicros s move t) (h : (s.threads id).phase ≠ .subscribing) :
    (t.threads id).phase ≠ .subscribing := by
  cases hstep with
  | @handler other reading u hfree hhandled =>
    change (Function.update s.threads other u.thread id).phase ≠ .subscribing
    by_cases hid : id = other
    · subst hid
      rw [Function.update_self]
      exact hhandled.not_subscribing
    · rw [Function.update_of_ne hid]
      exact h
  | _ => exact h

theorem Stepped.not_listed {move : SubscriberMove} (hstep : Stepped minIntervalMicros s move t)
    (h : (s.threads id).phase ≠ .subscribing) (hid : id ∉ s.subscribers) :
    id ∉ t.subscribers := by
  cases hstep with
  | clear hat => exact List.not_mem_nil
  | @handler other reading u hfree hhandled =>
    change id ∉ s.enlisted other
    rw [enlisted]
    split
    · rename_i hat
      have hne : id ≠ other := by
        intro heq
        exact h (heq ▸ hat)
      simp [hid, hne]
    · simp [hid]
    · exact hid
  | _ => exact hid

theorem stopped_of_publish {slot : ConflatingSlot ConsolidatedBook} (h : slot.stopped = true)
    (value : ConsolidatedBook) : (slot.publish value).2.stopped = true := by
  rw [ConflatingSlot.publish, if_pos h]
  exact h

theorem Stepped.stopped {move : SubscriberMove} (hstep : Stepped minIntervalMicros s move t)
    (h : (s.slots id).stopped = true) : (t.slots id).stopped = true := by
  cases hstep with
  | @deliver book other todo hat =>
    change (Function.update s.slots other _ id).stopped = true
    by_cases hid : id = other
    · subst hid
      rw [Function.update_self]
      exact stopped_of_publish h book
    · rw [Function.update_of_ne hid]
      exact h
  | @close other todo hat =>
    change (Function.update s.slots other _ id).stopped = true
    by_cases hid : id = other
    · subst hid
      rw [Function.update_self]
      rfl
    · rw [Function.update_of_ne hid]
      exact h
  | @handler other reading u hfree hhandled =>
    change (Function.update s.slots other _ id).stopped = true
    by_cases hid : id = other
    · subst hid
      rw [Function.update_self]
      exact hhandled.stopped h
    · rw [Function.update_of_ne hid]
      exact h
  | _ => exact h

theorem Listed.not_subscribing (h : Listed s) (hid : id ∈ s.subscribers) :
    (s.threads id).phase ≠ .subscribing := by
  intro hat
  have henrolled := h.enrolled id hid
  rw [hat] at henrolled
  cases henrolled

theorem eq_handler_of_ofHandler {move : SubscriberMove} (h : move.ofHandler id = true) :
    ∃ reading, move = .handler id reading := by
  cases move with
  | handler other reading => exact ⟨reading, congrArg (SubscriberMove.handler · reading)
      (of_decide_eq_true h)⟩
  | _ => cases h

theorem steps_le_stepsLeft {I : SubscriberSystem → Prop}
    {P : SubscriberSystem → SubscriberMove → Prop} {rest : List SubscriberMove} (stopped : Bool)
    (hI : ∀ s move t, I s → P s move → step minIntervalMicros s move = some t → I t)
    (hlower : ∀ s reading u, I s → P s (.handler id reading) →
      StreamSystem.Handled (minIntervalMicros id) (s.seat id) reading u →
      u.thread.phase.stepsLeft stopped < (s.threads id).phase.stepsLeft stopped)
    (hs : I s) (halong : Machine.Along (step minIntervalMicros) P s rest) :
    Machine.counted (step minIntervalMicros) (SubscriberMove.ofHandler id) s rest ≤
      (s.threads id).phase.stepsLeft stopped := by
  have hless : ∀ s move t, I s → P s move → move.ofHandler id = true →
      step minIntervalMicros s move = some t →
      (t.threads id).phase.stepsLeft stopped < (s.threads id).phase.stepsLeft stopped := by
    intro s move t hs hP hmove hstep
    obtain ⟨reading, rfl⟩ := eq_handler_of_ofHandler hmove
    obtain ⟨u, hhandled, hthread⟩ := (stepped_of_step hstep).handled
    rw [hthread]
    exact hlower s reading u hs hP hhandled
  have hkeep : ∀ s move t, I s → P s move → step minIntervalMicros s move = some t →
      (t.threads id).phase.stepsLeft stopped ≤ (s.threads id).phase.stepsLeft stopped := by
    intro s move t hs hP hstep
    by_cases hmove : move.ofHandler id = true
    · exact (hless s move t hs hP hmove hstep).le
    · rw [(stepped_of_step hstep).threads (Bool.not_eq_true _ ▸ hmove)]
  exact le_of_add_le_right (Machine.rank_rule
    (fun s => (s.threads id).phase.stepsLeft stopped) (SubscriberMove.ofHandler id) hI hkeep hless
    hs halong)

theorem steps_of_gone {rest : List SubscriberMove}
    (hgone : Machine.Along (step minIntervalMicros) (fun _ move => move.Gone id) s rest) :
    Machine.counted (step minIntervalMicros) (SubscriberMove.ofHandler id) s rest ≤ 7 := by
  have hsteps := steps_le_stepsLeft (I := fun _ => True) false (fun _ _ _ _ _ _ => trivial)
    (fun _ _ _ _ hP hhandled => hhandled.stepsLeft_of_cancelled (hP rfl)) trivial hgone
  apply hsteps.trans
  cases (s.threads id).phase <;> simp [StreamPhase.stepsLeft]

theorem steps_of_stopped (hstopped : (s.slots id).stopped = true) (rest : List SubscriberMove) :
    Machine.counted (step minIntervalMicros) (SubscriberMove.ofHandler id) s rest ≤ 8 := by
  have hlower : ∀ (s : SubscriberSystem) reading u, (s.slots id).stopped = true → True →
      StreamSystem.Handled (minIntervalMicros id) (s.seat id) reading u →
      u.thread.phase.stepsLeft true < (s.threads id).phase.stepsLeft true :=
    fun _ _ _ h _ hhandled => hhandled.stepsLeft_of_stopped h
  have hsteps := steps_le_stepsLeft true
    (fun _ _ _ h _ hstep => (stepped_of_step hstep).stopped h) hlower hstopped
    (Machine.along_true s rest)
  apply hsteps.trans
  cases (s.threads id).phase <;> simp [StreamPhase.stepsLeft]

theorem handlerStep_isSome {micros : UInt32} {s : StreamSystem}
    (h : s.thread.phase ≠ .finished) (reading : ClientReading) :
    (s.handlerStep micros reading).isSome := by
  rw [StreamSystem.handlerStep]
  cases hat : s.thread.phase with
  | finished => exact (h hat).elim
  | reading => cases s.latest <;> rfl
  | _ => rfl

theorem handler_ready (h : (s.threads id).phase ≠ .finished) :
    (∀ reading, (s.step minIntervalMicros (.handler id reading)).isSome) ∨
      s.locked = true ∧ (s.step minIntervalMicros .engine).isSome := by
  -- Only joining and leaving the list wait for its mutex, which the engine holds for a walk.
  cases hblocked : s.blocked id with
  | false =>
    refine Or.inl fun reading => ?_
    simp only [step, handlerStep, hblocked, Bool.false_eq_true, ↓reduceIte, Option.isSome_map]
    exact handlerStep_isSome h reading
  | true =>
    have hlocked : s.locked = true := (of_decide_eq_true hblocked).1
    refine Or.inr ⟨hlocked, ?_⟩
    rw [locked] at hlocked
    simp only [step, engineStep]
    split at hlocked
    · rename_i book todo hat
      rw [hat]
      cases todo <;> rfl
    · rename_i todo hat
      rw [hat]
      cases todo <;> rfl
    · cases hlocked

/-- Nothing is published any more. Each of these slots is stopped or has its turn ahead, and none
is on the list once the engine is done with it. -/
structure Dismissing (ids : List ℕ) (s : SubscriberSystem) : Prop where
  listed : Listed s
  engineStopped : s.engineStopped = true
  slots : ∀ id ∈ ids, (s.slots id).stopped = true ∨ s.publishing.stopPending id = true
  joined : ∀ id ∈ ids, (s.threads id).phase ≠ .subscribing
  cleared : s.publishing = .idle → ∀ id ∈ ids, id ∉ s.subscribers

theorem Dismissing.phase {ids : List ℕ} (h : Dismissing ids s) :
    s.publishing = .idle ∨ ∃ todo, s.publishing = .closing todo := by
  have hphase := h.listed.phase
  rw [h.engineStopped] at hphase
  cases hat : s.publishing with
  | idle => exact Or.inl rfl
  | closing todo => exact Or.inr ⟨todo, rfl⟩
  | storing book =>
    rw [hat] at hphase
    cases hphase
  | locking book =>
    rw [hat] at hphase
    cases hphase
  | delivering book todo =>
    rw [hat] at hphase
    cases hphase.1

inductive Closing (minIntervalMicros : ℕ → UInt32) (s : SubscriberSystem) :
    SubscriberMove → SubscriberSystem → Prop
  | close {id : ℕ} {todo : List ℕ} (hat : s.publishing = .closing (id :: todo)) :
      Closing minIntervalMicros s .engine
        { s with
          publishing := .closing todo
          slots := Function.update s.slots id (s.slots id).stop }
  | clear (hat : s.publishing = .closing []) :
      Closing minIntervalMicros s .engine { s with publishing := .idle, subscribers := [] }
  | other {move : SubscriberMove} {t : SubscriberSystem} (hmove : move.ofEngine = false)
      (hpublishing : t.publishing = s.publishing) (hstopped : t.engineStopped = s.engineStopped) :
      Closing minIntervalMicros s move t

theorem Dismissing.closing {ids : List ℕ} (h : Dismissing ids s) {move : SubscriberMove}
    (hstep : Stepped minIntervalMicros s move t) : Closing minIntervalMicros s move t := by
  have hphase := h.phase
  cases hstep with
  | publish hidle hrunning => cases hrunning.symm.trans h.engineStopped
  | stopEngine hidle hrunning => cases hrunning.symm.trans h.engineStopped
  | store hat => simp [hat] at hphase
  | lock hat => simp [hat] at hphase
  | unlock hat => simp [hat] at hphase
  | deliver hat => simp [hat] at hphase
  | close hat => exact .close hat
  | clear hat => exact .clear hat
  | tick elapsed => exact .other rfl rfl rfl
  | handler hfree hhandled => exact .other rfl rfl rfl

theorem Dismissing.step {ids : List ℕ} (h : Dismissing ids s) {move : SubscriberMove}
    (hstep : Stepped minIntervalMicros s move t) : Dismissing ids t := by
  have hlisted := h.listed.step hstep
  have hkept : ∀ id, (s.slots id).stopped = true → (t.slots id).stopped = true :=
    fun _ => hstep.stopped
  have hjoined : ∀ id ∈ ids, (t.threads id).phase ≠ .subscribing :=
    fun id hid => hstep.not_subscribing (h.joined id hid)
  have hgone : ∀ id ∈ ids, id ∉ s.subscribers → id ∉ t.subscribers :=
    fun id hid => hstep.not_listed (h.joined id hid)
  cases h.closing hstep with
  | @close other todo hat =>
    refine ⟨hlisted, h.engineStopped, fun id hid => ?_, hjoined, fun hidle => by cases hidle⟩
    obtain hstopped | hpending := h.slots id hid
    · exact Or.inl (hkept id hstopped)
    · rw [hat] at hpending
      obtain rfl | hlater := List.mem_cons.mp (of_decide_eq_true hpending)
      · apply Or.inl
        change (Function.update s.slots id (s.slots id).stop id).stopped = true
        rw [Function.update_self]
        rfl
      · exact Or.inr (decide_eq_true hlater)
  | clear hat =>
    refine ⟨hlisted, h.engineStopped, fun id hid => ?_, hjoined, fun _ id _ => List.not_mem_nil⟩
    obtain hstopped | hpending := h.slots id hid
    · exact Or.inl hstopped
    · rw [hat] at hpending
      cases hpending
  | other hmove hpublishing hengine =>
    refine ⟨hlisted, hengine.trans h.engineStopped, fun id hid => ?_, hjoined,
      fun hidle id hid => ?_⟩
    · rw [hpublishing]
      exact (h.slots id hid).imp_left (hkept id)
    · exact hgone id hid (h.cleared (hpublishing.symm.trans hidle) id hid)

theorem Dismissing.turns {ids : List ℕ} (h : Dismissing ids s) (later : List SubscriberMove) :
    Machine.counted (SubscriberSystem.step minIntervalMicros) SubscriberMove.ofEngine s later ≤
      s.publishing.turnsLeft := by
  have hlower : ∀ s move t, Dismissing ids s → True → move.ofEngine = true →
      SubscriberSystem.step minIntervalMicros s move = some t →
      t.publishing.turnsLeft < s.publishing.turnsLeft := by
    intro s move t h _ hmove hstep
    cases h.closing (stepped_of_step hstep) with
    | close hat => simp [hat, DeliveryPhase.turnsLeft]
    | clear hat => simp [hat, DeliveryPhase.turnsLeft]
    | other hother => cases hother.symm.trans hmove
  have hkeep : ∀ s move t, Dismissing ids s → True →
      SubscriberSystem.step minIntervalMicros s move = some t →
      t.publishing.turnsLeft ≤ s.publishing.turnsLeft := by
    intro s move t h _ hstep
    cases h.closing (stepped_of_step hstep) with
    | close hat => simp [hat, DeliveryPhase.turnsLeft]
    | clear hat => simp [hat, DeliveryPhase.turnsLeft]
    | other hother hpublishing => rw [hpublishing]
  exact le_of_add_le_right (Machine.rank_rule
    (fun s : SubscriberSystem => s.publishing.turnsLeft) SubscriberMove.ofEngine
    (fun _ _ _ h _ hstep => h.step (stepped_of_step hstep)) hkeep hlower h
    (Machine.along_true s later))

theorem Dismissing.ready {ids : List ℕ} (h : Dismissing ids s) :
    s.publishing = .idle ∨ (SubscriberSystem.step minIntervalMicros s .engine).isSome := by
  obtain hidle | ⟨todo, hat⟩ := h.phase
  · exact Or.inl hidle
  · refine Or.inr ?_
    simp only [SubscriberSystem.step, engineStep, hat]
    cases todo <;> rfl

theorem Dismissing.handler_ready {ids : List ℕ} (h : Dismissing ids s)
    (hidle : s.publishing = .idle) (rest : List SubscriberMove) :
    let t := Machine.run (SubscriberSystem.step minIntervalMicros) s rest
    (t.threads id).phase = .finished ∨
      ∀ reading, (t.step minIntervalMicros (.handler id reading)).isSome := by
  intro t
  have hlast : t.publishing = .idle ∧ Dismissing ids t := by
    refine Machine.run_rule (I := fun s => s.publishing = .idle ∧ Dismissing ids s) ?_
      ⟨hidle, h⟩ rest
    intro a move b ha hstep
    have hstepped := stepped_of_step hstep
    refine ⟨?_, ha.2.step hstepped⟩
    cases ha.2.closing hstepped with
    | close hat => cases hat.symm.trans ha.1
    | clear hat => rfl
    | other hmove hpublishing => exact hpublishing.trans ha.1
  by_cases hfinished : (t.threads id).phase = .finished
  · exact Or.inl hfinished
  · refine Or.inr ((SubscriberSystem.handler_ready hfinished).resolve_right ?_)
    rintro ⟨hlocked, -⟩
    rw [locked, hlast.1] at hlocked
    cases hlocked

variable (minIntervalMicros) (start : Int) (before later rest : List SubscriberMove)

/-- A client that has gone costs its handler at most seven more steps, whatever all the others
do meanwhile: at any time it can take the next of them, or the engine has the list and can go
on, or the handler has ended and nothing of it is left with the engine. -/
theorem gone_client_unwinds (id : ℕ) (hgone : ∀ move ∈ rest, move.Gone id) :
    let t := run minIntervalMicros start (before ++ rest)
    Machine.counted (step minIntervalMicros) (SubscriberMove.ofHandler id)
        (run minIntervalMicros start before) rest ≤ 7 ∧
      ((t.threads id).phase = .finished ∧ id ∉ t.subscribers ∨
        (∀ reading, (t.step minIntervalMicros (.handler id reading)).isSome) ∨
        t.locked = true ∧ (t.step minIntervalMicros .engine).isSome) := by
  intro t
  refine ⟨steps_of_gone (Machine.along_of_forall hgone), ?_⟩
  by_cases hfinished : (t.threads id).phase = .finished
  · refine Or.inl ⟨hfinished, fun hmem => ?_⟩
    have henrolled := (listed_run start (before ++ rest)).enrolled id hmem
    rw [hfinished] at henrolled
    cases henrolled
  · exact Or.inr (handler_ready hfinished)

/-- `Stop()` takes one turn for every subscriber and one more. When it returns, none of them is on
the list and each of their slots has been stopped, so each of their handlers ends within eight
more steps, and there is nothing left that it would have to wait for. -/
theorem stop_unwinds
    (hstop : (step minIntervalMicros (run minIntervalMicros start before) .stopEngine).isSome) :
    let s := run minIntervalMicros start before
    let t := run minIntervalMicros start (before ++ .stopEngine :: later)
    Machine.counted (step minIntervalMicros) SubscriberMove.ofEngine
        (run minIntervalMicros start (before ++ [.stopEngine])) later ≤ s.subscribers.length + 1 ∧
      (t.publishing = .idle ∨ (t.step minIntervalMicros .engine).isSome) ∧
      (t.publishing = .idle → ∀ id ∈ s.subscribers, id ∉ t.subscribers ∧
        (t.slots id).stopped = true ∧
        Machine.counted (step minIntervalMicros) (SubscriberMove.ofHandler id) t rest ≤ 8 ∧
        (((Machine.run (step minIntervalMicros) t rest).threads id).phase = .finished ∨
          ∀ reading, ((Machine.run (step minIntervalMicros) t rest).step minIntervalMicros
            (.handler id reading)).isSome)) := by
  intro s t
  obtain ⟨called, hcalled⟩ := Option.isSome_iff_exists.mp hstop
  have hnow : run minIntervalMicros start (before ++ [.stopEngine]) = called := by
    rw [run, Machine.run_snoc]
    exact Machine.next_of_some hcalled
  have hrun : t = Machine.run (step minIntervalMicros) called later := by
    rw [← hnow, run, ← Machine.run_append, List.append_assoc]
    rfl
  have hlisted : Listed s := listed_run start before
  rw [hnow]
  cases stepped_of_step hcalled with
  | stopEngine hidle hrunning =>
    have hdismissing : Dismissing s.subscribers
        { s with engineStopped := true, publishing := .closing s.subscribers } :=
      ⟨hlisted.step (stepped_of_step hcalled), rfl, fun id hid => Or.inr (decide_eq_true hid),
        fun id hid => hlisted.not_subscribing hid, fun hat => by cases hat⟩
    have hlast : Dismissing s.subscribers t := by
      rw [hrun]
      exact Machine.run_rule (fun _ _ _ h hstep => Dismissing.step h (stepped_of_step hstep))
        hdismissing later
    refine ⟨hdismissing.turns later, hlast.ready, fun hidle id hid => ?_⟩
    have hslot : (t.slots id).stopped = true := by
      obtain hslot | hpending := hlast.slots id hid
      · exact hslot
      · rw [hidle] at hpending
        cases hpending
    exact ⟨hlast.cleared hidle id hid, hslot, steps_of_stopped hslot rest,
      hlast.handler_ready hidle rest⟩

theorem gone_client_unwinds_at_once :
    ((run (fun _ => 0) 0 (List.replicate 4 (.handler 0 {}) ++
        List.replicate 5 (.handler 0 { cancelled := true }))).threads 0).phase = .finished ∧
      Machine.counted (step fun _ => 0) (SubscriberMove.ofHandler 0)
        (run (fun _ => 0) 0 (List.replicate 4 (.handler 0 {})))
        (List.replicate 5 (.handler 0 { cancelled := true })) ≤ 7 :=
  ⟨by decide, (gone_client_unwinds (fun _ => 0) 0 (List.replicate 4 (.handler 0 {}))
    (List.replicate 5 (.handler 0 { cancelled := true })) 0
    (List.forall_mem_replicate.mpr (Or.inr fun _ => rfl))).1⟩

theorem stop_unwinds_two :
    let before := List.replicate 3 (SubscriberMove.handler 0 {}) ++ [.handler 1 {}]
    let s := run (fun _ => 0) 0 before
    let t := run (fun _ => 0) 0 (before ++ .stopEngine :: List.replicate 3 .engine)
    s.subscribers = [0, 1] ∧ t.publishing = .idle ∧
      ∀ id ∈ s.subscribers, id ∉ t.subscribers ∧ (t.slots id).stopped = true := by
  intro before s t
  have hidle : t.publishing = .idle := by decide
  have hstop := (stop_unwinds (fun _ => 0) 0 before (List.replicate 3 .engine) []
    (by decide)).2.2 hidle
  exact ⟨by decide, hidle, fun id hid => ⟨(hstop id hid).1, (hstop id hid).2.1⟩⟩

end SubscriberSystem

end CexAggregator
