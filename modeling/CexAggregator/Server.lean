import CexAggregator.ClientAgreement
import CexAggregator.StreamRequests
import CexAggregator.PublicationLedger

/-!
# From the venues to the clients

The venue threads, the engine's thread and the handlers of all clients. `Publish` ends in the
rounds of the slots, so the engine drains nothing before every slot has been served; `Stop`
is only noticed between two passes. A handler serves an accepted request.
-/

namespace CexAggregator

structure ServerSystem {n : ℕ} (σ : Fin n → Type) where
  aggregator : AggregatorSystem σ
  fanout : SubscriberSystem

inductive ServerMove (n : ℕ) where
  | venue (v : Fin n) (move : VenueMove)
  | engine (reading : EngineReading)
  | stopEngine
  | tick (elapsed : ℕ)
  | handler (id : ℕ) (reading : ClientReading)

def AggregatorSystem.publishing {n : ℕ} {σ : Fin n → Type} (s : AggregatorSystem σ) :
    Option (Publication n) :=
  match s.phase with
  | .selecting started next reads => if next < n then none else some ⟨s.engine, started, reads⟩
  | .draining _ _ _ => none

namespace ServerSystem
variable {n : ℕ}

section Steps
variable {σ : Fin n → Type} (p : (v : Fin n) → VenueProtocol (σ v)) (options : Options)
  (capacity : ℕ) (config : EngineConfig) (requests : ℕ → StreamRequest)

def intervals (requests : ℕ → StreamRequest) (id : ℕ) : UInt32 := (requests id).minIntervalMicros

def engineStep (s : ServerSystem σ) (reading : EngineReading) : Option (ServerSystem σ) :=
  if s.fanout.publishing ≠ .idle then
    (s.fanout.step (intervals requests) .engine).map fun fanout => { s with fanout := fanout }
  else if s.fanout.engineStopped then none
  else
    let aggregator := s.aggregator.step p options capacity config (.engine reading)
    match s.aggregator.publishing with
    | none => some { s with aggregator := aggregator }
    | some pub =>
      (s.fanout.step (intervals requests) (.publish (pub.book config fun v => (p v).name))).map
        fun fanout => { aggregator := aggregator, fanout := fanout }

def step (s : ServerSystem σ) : ServerMove n → Option (ServerSystem σ)
  | .venue v move =>
    some { s with aggregator := s.aggregator.step p options capacity config (.venue v move) }
  | .engine reading => s.engineStep p options capacity config requests reading
  | .stopEngine =>
    if s.aggregator.phase.betweenPasses then
      (s.fanout.step (intervals requests) .stopEngine).map fun fanout => { s with fanout := fanout }
    else none
  | .tick elapsed =>
    (s.fanout.step (intervals requests) (.tick elapsed)).map fun fanout =>
      { s with fanout := fanout }
  | .handler id reading =>
    match (requests id).accept config with
    | .error _ => none
    | .ok _ =>
      (s.fanout.step (intervals requests) (.handler id reading)).map fun fanout =>
        { s with fanout := fanout }

end Steps

variable (parse : JsonParser) (adapters : Fin n → Adapter) (options : Options) (capacity : ℕ)
  (config : EngineConfig) (requests : ℕ → StreamRequest)

def create (start : Int) : ServerSystem fun v => (adapters v).State where
  aggregator := .create options fun v => (adapters v).initial
  fanout := { now := start }

def run (start : Int) (moves : List (ServerMove n)) : ServerSystem fun v => (adapters v).State :=
  Machine.run (step (fun v => (adapters v).protocol parse) options capacity config requests)
    (create adapters options start) moves

def updates {σ : Fin n → Type} (s : ServerSystem σ) (id : ℕ) : List StreamUpdate :=
  match (requests id).accept config with
  | .error _ => []
  | .ok emit => (s.fanout.sent id).map emit

end ServerSystem

namespace AggregatorSystem
variable {n : ℕ} {σ : Fin n → Type} {p : (v : Fin n) → VenueProtocol (σ v)} {options : Options}
  {capacity : ℕ} {config : EngineConfig} {s : AggregatorSystem σ}

theorem publications_engine (s : AggregatorSystem σ) (reading : EngineReading) :
    (s.step p options capacity config (.engine reading)).publications =
      s.publications ++ s.publishing.toList := by
  rw [step, engineStep, publishing]
  cases s.phase with
  | draining venue drained changed =>
    simp only [Option.toList_none, List.append_nil]
    split_ifs
    · rw [drain]
      split <;> rfl
    all_goals rfl
  | selecting started next reads =>
    by_cases hnext : next < n
    · simp [hnext]
    · simp [hnext]

theorem engine_of_publishing {pub : Publication n} (h : s.publishing = some pub) :
    pub.engine = s.engine := by
  rw [publishing] at h
  split at h
  · split_ifs at h
    cases h
    rfl
  · cases h

theorem publications_venue (s : AggregatorSystem σ) (v : Fin n) (move : VenueMove) :
    (s.step p options capacity config (.venue v move)).publications = s.publications := by
  cases move <;> rfl

end AggregatorSystem

theorem SubscriberSystem.Stepped.history {minIntervalMicros : ℕ → UInt32}
    {s t : SubscriberSystem} {move : SubscriberMove}
    (hstep : Stepped minIntervalMicros s move t) (hmove : ∀ book, move ≠ .publish book) :
    t.history = s.history := by
  cases hstep with
  | publish hidle hrunning => exact (hmove _ rfl).elim
  | _ => rfl

def ServerMove.Admitted {n : ℕ} (Allowed : Fin n → ProtocolCall → Prop) : ServerMove n → Prop
  | .venue v move => AggregatorMove.Admitted Allowed (.venue v move)
  | _ => True

theorem ServerMove.admitted_true {n : ℕ} (moves : List (ServerMove n)) :
    ∀ move ∈ moves, move.Admitted fun _ _ => True := by
  intro move hmove
  cases move with
  | venue v move => exact fun _ _ => trivial
  | _ => trivial

namespace ServerSystem
variable {n : ℕ} {parse : JsonParser} {adapters : Fin n → Adapter} {options : Options}
  {capacity : ℕ} {config : EngineConfig} {requests : ℕ → StreamRequest}
  {Allowed : Fin n → ProtocolCall → Prop} {start : Int}

abbrev names (parse : JsonParser) (adapters : Fin n → Adapter) (v : Fin n) : String :=
  ((adapters v).protocol parse).name

theorem aggregate_snoc (moves : List (AggregatorMove n)) (move : AggregatorMove n) :
    aggregate parse adapters options capacity config (moves ++ [move]) =
      (aggregate parse adapters options capacity config moves).step
        (fun v => (adapters v).protocol parse) options capacity config move :=
  List.foldl_concat _ _ _ _

variable (parse adapters options capacity config requests Allowed start) in
/-- Both halves make runs of their own, and the engine hands over what it publishes. -/
structure Composed (s : ServerSystem fun v => (adapters v).State) : Prop where
  aggregated : ∃ moves : List (AggregatorMove n), (∀ move ∈ moves, move.Admitted Allowed) ∧
    s.aggregator = aggregate parse adapters options capacity config moves
  served : ∃ moves, s.fanout = SubscriberSystem.run (intervals requests) start moves
  history : s.fanout.history =
    s.aggregator.publications.map (Publication.book config (names parse adapters))

theorem Composed.fanout {s : ServerSystem fun v => (adapters v).State}
    (h : Composed parse adapters options capacity config requests Allowed start s)
    {move : SubscriberMove} {after : SubscriberSystem}
    (hstep : s.fanout.step (intervals requests) move = some after)
    (hhistory : after.history = s.fanout.history) :
    Composed parse adapters options capacity config requests Allowed start
      { s with fanout := after } := by
  obtain ⟨moves, hmoves⟩ := h.served
  refine ⟨h.aggregated, ⟨moves ++ [move], ?_⟩, hhistory.trans h.history⟩
  rw [SubscriberSystem.run, Machine.run_snoc]
  rw [hmoves] at hstep
  exact (Machine.next_of_some hstep).symm

theorem Composed.aggregator {s : ServerSystem fun v => (adapters v).State}
    (h : Composed parse adapters options capacity config requests Allowed start s)
    {move : AggregatorMove n} (hmove : move.Admitted Allowed)
    (hpublications : (s.aggregator.step (fun v => (adapters v).protocol parse) options capacity
      config move).publications = s.aggregator.publications) :
    Composed parse adapters options capacity config requests Allowed start
      { s with
        aggregator := (s.aggregator.step (fun v => (adapters v).protocol parse) options capacity
          config move) } := by
  obtain ⟨moves, hmoves, hrun⟩ := h.aggregated
  refine ⟨⟨moves ++ [move], ?_, ?_⟩, h.served, ?_⟩
  · exact List.forall_mem_append.mpr ⟨hmoves, List.forall_mem_singleton.mpr hmove⟩
  · rw [hrun, aggregate_snoc]
  · rw [h.history, hpublications]

theorem Composed.served_step {s : ServerSystem fun v => (adapters v).State}
    (h : Composed parse adapters options capacity config requests Allowed start s)
    {move : SubscriberMove} (hmove : ∀ book, move ≠ .publish book)
    {t : ServerSystem fun v => (adapters v).State}
    (hstep : (s.fanout.step (intervals requests) move).map
      (fun fanout => { s with fanout := fanout }) = some t) :
    Composed parse adapters options capacity config requests Allowed start t := by
  obtain ⟨after, hafter, rfl⟩ := Option.map_eq_some_iff.mp hstep
  exact h.fanout hafter ((SubscriberSystem.stepped_of_step hafter).history hmove)

theorem Composed.told {s : ServerSystem fun v => (adapters v).State}
    (h : Composed parse adapters options capacity config requests Allowed start s) :
    s.fanout.Told := by
  obtain ⟨moves, hmoves⟩ := h.served
  rw [hmoves]
  exact SubscriberSystem.told_run start moves

theorem Composed.inOrder {s : ServerSystem fun v => (adapters v).State}
    (h : Composed parse adapters options capacity config requests Allowed start s) (id : ℕ) :
    (s.fanout.threads id).InOrder (minInterval (intervals requests id)) := by
  obtain ⟨moves, hmoves⟩ := h.served
  rw [hmoves]
  exact SubscriberSystem.inOrder_run (intervals requests) start moves id

theorem Composed.sequence {s : ServerSystem fun v => (adapters v).State}
    (h : Composed parse adapters options capacity config requests Allowed start s) :
    s.fanout.published = s.aggregator.engine.published := by
  obtain ⟨moves, -, hrun⟩ := h.aggregated
  have hlength := congrArg List.length h.told.numbered
  rw [List.length_map, h.history, List.length_map, List.length_range'] at hlength
  have hcount := (fedRun_admissible parse adapters options capacity config moves).ledger.count
  rw [← hrun] at hcount
  exact hlength.symm.trans hcount.symm

theorem Composed.publish {s : ServerSystem fun v => (adapters v).State}
    (h : Composed parse adapters options capacity config requests Allowed start s)
    {reading : EngineReading} {pub : Publication n} (hpub : s.aggregator.publishing = some pub)
    {after : SubscriberSystem}
    (hstep : s.fanout.step (intervals requests)
      (.publish (pub.book config (names parse adapters))) = some after) :
    Composed parse adapters options capacity config requests Allowed start
      ⟨s.aggregator.step (fun v => (adapters v).protocol parse) options capacity config
        (.engine reading), after⟩ := by
  obtain ⟨moves, hmoves, hrun⟩ := h.aggregated
  obtain ⟨served, hserved⟩ := h.served
  have hbook : { pub.book config (names parse adapters) with
      sequence := s.fanout.published + 1 } = pub.book config (names parse adapters) := by
    rw [h.sequence, ← AggregatorSystem.engine_of_publishing hpub]
    rfl
  refine ⟨⟨moves ++ [.engine reading], ?_, ?_⟩,
    ⟨served ++ [.publish (pub.book config (names parse adapters))], ?_⟩, ?_⟩
  · exact List.forall_mem_append.mpr
      ⟨hmoves, List.forall_mem_singleton.mpr fun m hm => (by cases hm)⟩
  · rw [hrun, aggregate_snoc]
  · rw [SubscriberSystem.run, Machine.run_snoc]
    rw [hserved] at hstep
    exact (Machine.next_of_some hstep).symm
  · cases SubscriberSystem.stepped_of_step hstep with
    | publish hidle hrunning =>
      rw [AggregatorSystem.publications_engine, hpub, List.map_append]
      change s.fanout.history ++ [_] = _
      rw [hbook, h.history]
      rfl

theorem Composed.step {s t : ServerSystem fun v => (adapters v).State}
    (h : Composed parse adapters options capacity config requests Allowed start s)
    {move : ServerMove n} (hmove : move.Admitted Allowed)
    (hstep : s.step (fun v => (adapters v).protocol parse) options capacity config requests move =
      some t) : Composed parse adapters options capacity config requests Allowed start t := by
  cases move with
  | venue v move =>
    cases hstep
    exact h.aggregator hmove (AggregatorSystem.publications_venue s.aggregator v move)
  | engine reading =>
    simp only [ServerSystem.step, engineStep] at hstep
    split_ifs at hstep with hbusy hstopped
    · exact h.served_step (fun _ hmove => by cases hmove) hstep
    · split at hstep
      · rename_i hnone
        cases hstep
        refine h.aggregator (fun m hm => by cases hm) ?_
        rw [AggregatorSystem.publications_engine, hnone]
        exact List.append_nil _
      · rename_i pub hpub
        obtain ⟨after, hafter, rfl⟩ := Option.map_eq_some_iff.mp hstep
        exact h.publish hpub hafter
  | stopEngine =>
    simp only [ServerSystem.step] at hstep
    split_ifs at hstep with hbetween
    exact h.served_step (fun _ hmove => by cases hmove) hstep
  | tick elapsed =>
    simp only [ServerSystem.step] at hstep
    exact h.served_step (fun _ hmove => by cases hmove) hstep
  | handler id reading =>
    simp only [ServerSystem.step] at hstep
    split at hstep
    · cases hstep
    · exact h.served_step (fun _ hmove => by cases hmove) hstep

variable (parse adapters options capacity config requests) in
theorem composed_run (start : Int) {moves : List (ServerMove n)}
    (hmoves : ∀ move ∈ moves, move.Admitted Allowed) :
    Composed parse adapters options capacity config requests Allowed start
      (run parse adapters options capacity config requests start moves) := by
  refine Machine.along_rule (P := fun _ move => move.Admitted Allowed)
    (fun _ _ _ h hmove hstep => h.step hmove hstep) ?_ (Machine.along_of_forall hmoves)
  exact ⟨⟨[], List.forall_mem_nil _, rfl⟩, ⟨[], rfl⟩, rfl⟩

theorem book_of_update {σ : Fin n → Type} {s : ServerSystem σ} {id : ℕ} {u : StreamUpdate}
    (h : u ∈ s.updates config requests id) :
    ∃ book ∈ s.fanout.sent id, u.head = beginUpdate book := by
  rw [updates] at h
  split at h
  · cases h
  · rename_i emit haccept
    obtain ⟨book, hbook, rfl⟩ := List.mem_map.mp h
    exact ⟨book, hbook, head_of_emit (accept_ok haccept).1 book⟩

theorem updates_of_accept {σ : Fin n → Type} {s : ServerSystem σ} {id : ℕ}
    {emit : ConsolidatedBook → StreamUpdate} (h : (requests id).accept config = .ok emit) :
    s.updates config requests id = (s.fanout.sent id).map emit := by
  simp only [updates, h]

theorem Composed.sent {s : ServerSystem fun v => (adapters v).State}
    (h : Composed parse adapters options capacity config requests Allowed start s) (id : ℕ) :
    ∃ pubs : List (Publication n), pubs.Sublist s.aggregator.publications ∧
      s.fanout.sent id = pubs.map (Publication.book config (names parse adapters)) := by
  have hsent := h.told.sent_sublist (h.inOrder id)
  rw [h.history] at hsent
  exact List.sublist_map_iff.mp hsent

variable (parse adapters options capacity config requests)

/-- From the venues' messages to what the clients read: in whatever order the venues, the engine
and the handlers take their steps and whatever is lost on the way, a client is sent a selection
of the publications in their order, and never an older state of a venue after a newer one. Each
of them merges states that the venues were in, where what these offer at one price can be added
up. -/
theorem updates_of_true_states (histories : Fin n → VenueHistory) (start : Int)
    (moves : List (ServerMove n))
    (hmoves : ∀ move ∈ moves, move.Admitted fun v => (adapters v).Faithful parse (histories v))
    (id : ℕ) (emit : ConsolidatedBook → StreamUpdate)
    (haccept : (requests id).accept config = .ok emit) :
    let s := run parse adapters options capacity config requests start moves
    ∃ pubs : List (Publication n), pubs.Sublist s.aggregator.publications ∧
      s.updates config requests id =
        pubs.map (fun pub => emit (pub.book config (names parse adapters))) ∧
      pubs.Pairwise AggregatorSystem.Precedes ∧
      ∀ pub ∈ pubs, pub.SumsFit config (pub.states histories) →
        pub.Merges config (names parse adapters) (pub.states histories) := by
  intro s
  have h := composed_run parse adapters options capacity config requests start hmoves
  obtain ⟨pubs, hsublist, hsent⟩ := h.sent id
  obtain ⟨venueMoves, hvenueMoves, hrun⟩ := h.aggregated
  have hfed := fedRun_faithful parse adapters options capacity config hvenueMoves
  rw [← hrun] at hfed
  refine ⟨pubs, hsublist, ?_, hfed.ledger.ordered.sublist hsublist, fun pub hpub hfits => ?_⟩
  · rw [updates_of_accept haccept, hsent, List.map_map]
    rfl
  · have hsourced := hfed.published pub (hsublist.subset hpub)
    apply Publication.merges_of_books
    · exact hsourced.states
    · intro v
      exact stateAt_invariant (histories v) _
    · exact hfits

def growingBidServed : List (ServerMove 1) :=
  growingBidMoves.map (fun move =>
    match move with
    | .venue v move => .venue v move
    | .engine reading => .engine reading) ++
  .engine ⟨2, 2, 0⟩ :: List.replicate 3 (.handler 0 {})

theorem growingBidServed_faithful : ∀ move ∈ growingBidServed, move.Admitted fun _ =>
    Adapter.Faithful Binance.growingBidParser growingBid (.binance {}) := by
  intro move hmove
  obtain hmove | hmove := List.mem_append.mp hmove
  · obtain ⟨venueMove, hvenueMove, rfl⟩ := List.mem_map.mp hmove
    have hadmitted := growingBidMoves_faithful venueMove hvenueMove
    cases venueMove with
    | venue v move => exact hadmitted
    | engine reading => trivial
  · obtain rfl | hmove := List.mem_cons.mp hmove
    · trivial
    · obtain ⟨-, rfl⟩ := List.mem_replicate.mp hmove
      trivial

theorem updates_of_true_states_growingBid :
    let s := run Binance.growingBidParser (fun _ : Fin 1 => .binance {}) {} 4 {} (fun _ => {}) 0
      growingBidServed
    ∃ pubs : List (Publication 1), pubs.length = 1 ∧
      s.updates {} (fun _ => {}) 0 =
        pubs.map (fun pub => bboUpdate (pub.book {} fun _ => "binance")) ∧
      ∀ pub ∈ pubs, pub.Merges {} (fun _ => "binance") (pub.states fun _ => growingBid) := by
  intro s
  obtain ⟨pubs, hsublist, hupdates, -, hmerges⟩ := updates_of_true_states Binance.growingBidParser
    (fun _ : Fin 1 => .binance {}) {} 4 {} (fun _ => {}) (fun _ => growingBid) 0 growingBidServed
    growingBidServed_faithful 0 bboUpdate rfl
  have hfits : ∀ pub ∈ s.aggregator.publications,
      pub.SumsFit {} (pub.states fun _ => growingBid) := by decide +kernel
  simp only [s] at hfits
  have hone : (s.updates {} (fun _ => {}) 0).length = 1 := by decide +kernel
  rw [hupdates, List.length_map] at hone
  refine ⟨pubs, hone, hupdates, ?_⟩
  intro pub hpub
  exact hmerges pub hpub (hfits pub (hsublist.mem hpub))

/-- Whatever they asked for: the updates of one client go from newer to newer, and two clients
that have the same sequence read the same provenance and the same touch. -/
theorem update_heads_agree (start : Int) (moves : List (ServerMove n)) :
    let s := run parse adapters options capacity config requests start moves
    (∀ id, ((s.updates config requests id).map fun u => u.head.snapshotMeta.sequence).Pairwise
        (· < ·)) ∧
      ∀ id other, ∀ a ∈ s.updates config requests id, ∀ b ∈ s.updates config requests other,
        a.head.snapshotMeta.sequence = b.head.snapshotMeta.sequence → a.head = b.head := by
  intro s
  have h := composed_run parse adapters options capacity config requests start
    (ServerMove.admitted_true moves)
  refine ⟨fun id => ?_, fun id other a ha b hb hsame => ?_⟩
  · have hsent := h.told.sent_increasing (h.inOrder id)
    rw [updates]
    split
    · exact .nil
    · rename_i emit haccept
      rw [List.map_map, List.pairwise_map]
      refine hsent.imp fun hlt => ?_
      simp only [Function.comp, head_of_emit (accept_ok haccept).1]
      exact hlt
  · obtain ⟨book, hbook, hhead⟩ := book_of_update ha
    obtain ⟨other, hother, hheadOther⟩ := book_of_update hb
    rw [hhead, hheadOther] at hsame ⊢
    rw [h.told.agree hbook hother hsame]

end ServerSystem

end CexAggregator
