import CexAggregator.TruePublications

/-!
# Publications, whatever the venues send

Nothing is assumed of the bytes. Unless the quantities at one price are too much for `int64`,
a published state is the merge of books that hold their invariant. Its provenance block tells
what it was made of: the sequence counts the publications, each of which had seen at least
what the one before had seen, and the clocks are those of the last updates the engine took
from the rings.
-/

namespace CexAggregator

namespace Adapter

theorem callsKeep_admissible (parse : JsonParser) (adapter : Adapter) :
    CallsKeep (adapter.protocol parse) (fun _ => True) adapter.AdmissibleBuffer
      fun u => u.toFeedUpdateLevels.Admissible where
  call s c h _ := adapter.call_buffer parse s c h
  reset s _ := by
    cases adapter with
    | binance config => exact fun _ he => (List.not_mem_nil he).elim
    | okx config => trivial
    | bybit config => trivial
  emits s c h _ hok := by
    rw [← VenueProtocol.callInto_nil] at hok ⊢
    obtain ⟨us, hus, heq⟩ := adapter.callInto_batch parse s [] c hok
    rw [heq]
    exact adapter.batch_admissible parse h hus

end Adapter

section Adapters
variable {n : ℕ} (parse : JsonParser) (adapters : Fin n → Adapter) (options : Options)
  (capacity : ℕ) (config : EngineConfig)

theorem fedRun_admissible (moves : List (AggregatorMove n)) :
    FedRun parse adapters options config (fun v => (adapters v).AdmissibleBuffer)
      (fun _ u => u.toFeedUpdateLevels.Admissible)
      (aggregate parse adapters options capacity config moves) :=
  fedRun_aggregate (fun v => (adapters v).callsKeep_admissible parse)
    (fun v => (adapters v).admissibleBuffer_initial) fun _ _ _ _ => trivial

variable {adapters} in
theorem Sourced.invariant {e : Engine n} {updates : Fin n → List FeedUpdate}
    (h : Sourced adapters (fun _ u => u.toFeedUpdateLevels.Admissible) e updates) (v : Fin n) :
    (e.books v).Invariant := by
  rw [h.books v]
  exact applyUpdates_invariant empty_invariant (h.emitted v)

theorem bestFirst_of_result {descending : Bool} {venues : List (Fin n)}
    {books : Fin n → SideBook descending} (hbooks : ∀ v, (books v).Invariant)
    {limits : MergeLimits} {merged : MergeOutput} {rest : List MergedLevel}
    (h : MergeResult descending limits (unionOf descending venues fun v => (books v).levels) merged
      rest) : BestFirst descending merged.levels := by
  have hunion : BestFirst descending (unionOf descending venues fun v => (books v).levels) :=
    unionLadder_bestFirst (List.forall_mem_map.mpr fun v _ => hbooks v)
  rw [h.split] at hunion
  exact hunion.sublist (List.sublist_append_left _ _)

/-- Any bytes, in any order: the engine's books hold their invariant, every publication names
every venue, and what it publishes are two best-first ladders merged from the books, unless the
quantities these hold at one price are too much to be added up. -/
theorem publications_wellformed (moves : List (AggregatorMove n)) :
    let s := aggregate parse adapters options capacity config moves
    let names := fun v => ((adapters v).protocol parse).name
    (∀ v, (s.engine.books v).Invariant) ∧
      ∀ pub ∈ s.publications,
        (∀ v, (pub.engine.books v).Invariant) ∧
        ((pub.book config names).contributing ++ (pub.book config names).stale).Perm
          ((List.finRange n).map names) ∧
        (pub.SumsFit config pub.engine.books → pub.Merges config names pub.engine.books ∧
          BestFirst true (pub.book config names).bids ∧
          BestFirst false (pub.book config names).asks) := by
  intro s names
  have hrun := fedRun_admissible parse adapters options capacity config moves
  refine ⟨hrun.sourced.invariant, fun pub hpub => ?_⟩
  have hinvariant := (hrun.published pub hpub).invariant
  refine ⟨hinvariant, (Engine.contributing_stale config names _ _ _ _).1, fun hfits => ?_⟩
  have hmerges : pub.Merges config names pub.engine.books :=
    Publication.merges_of_books config names (fun _ => rfl) hinvariant hfits
  obtain ⟨bidRest, hbids⟩ := hmerges.bids
  obtain ⟨askRest, hasks⟩ := hmerges.asks
  exact ⟨hmerges, bestFirst_of_result (fun v => (hinvariant v).1) hbids,
    bestFirst_of_result (fun v => (hinvariant v).2) hasks⟩

structure Provenance (names : Fin n → String) (book : ConsolidatedBook)
    (updates : Fin n → List FeedUpdate) : Prop where
  clocks : book.clocks = (List.finRange n).map fun v =>
    let replica := applyUpdates {} (updates v)
    ⟨names v, receivedAt (updates v), stampedAt (updates v), replica.bids.levels.length,
      replica.asks.levels.length, replica.bids.bestPx, replica.asks.bestPx⟩
  newest : ∀ v, ∀ u ∈ updates v, u.recvTsNs ≤ book.ingestRecvTsNs
  attained : book.ingestRecvTsNs = 0 ∨
    ∃ v, ∃ u ∈ updates v, u.recvTsNs = book.ingestRecvTsNs

theorem provenance_of_sourced {Emits : Fin n → FeedUpdate → Prop} (names : Fin n → String)
    {pub : Publication n} {updates : Fin n → List FeedUpdate}
    (h : Sourced adapters Emits pub.engine updates) :
    Provenance names (pub.book config names) updates := by
  refine ⟨?_, h.clocks.newest, h.clocks.attained⟩
  simp only [Publication.book, Engine.consolidate, Engine.clockInfo, h.books, h.clocks.received,
    h.clocks.stamped]

/-- The sequence counts the publications, none of which goes back behind another, and every
provenance block is that of the updates the publication had seen. -/
theorem publications_numbered (moves : List (AggregatorMove n)) :
    let s := aggregate parse adapters options capacity config moves
    let names := fun v => ((adapters v).protocol parse).name
    (∀ i pub, s.publications[i]? = some pub → (pub.book config names).sequence = i + 1) ∧
      s.engine.published = s.publications.length ∧
      s.engine.latest = s.publications.getLast?.map (Publication.book config names) ∧
      s.publications.Pairwise AggregatorSystem.Precedes ∧
      ∀ pub ∈ s.publications,
        Provenance names (pub.book config names) fun v => updatesOf (pub.reads v).popped := by
  intro s names
  have hrun := fedRun_admissible parse adapters options capacity config moves
  have hledger := hrun.ledger
  refine ⟨fun i pub hpub => ?_, hledger.count, hledger.latest, hledger.ordered, fun pub hpub => ?_⟩
  · rw [Publication.book, Engine.consolidate, hledger.numbered i pub hpub]
  · exact provenance_of_sourced adapters config names (hrun.published pub hpub)

end Adapters

end CexAggregator
