import CexAggregator.TrueBooks

/-!
# What a publication says of the venues

The merge adds nothing of its own to books that are true: the ladders are as much of the
union of the venues' states as the limits allow, and who is named at the touch rests there.
Crossing is no exception. A venue whose own book never crosses does not cross in a replica
of it either, so a crossed publication sets two venues against each other.
-/

namespace CexAggregator

/-- Our application of the deltas is wrong, if the venue's own book never crosses. -/
def VenueBook.crossed (book : VenueBook) : Bool :=
  book.bids.levels ≠ [] ∧ book.asks.levels ≠ [] ∧ book.asks.bestPx ≤ book.bids.bestPx

namespace Publication
variable {n : ℕ}

def states (histories : Fin n → VenueHistory) (pub : Publication n) (v : Fin n) : VenueBook :=
  stateAt (histories v) (positionOf (updatesOf (pub.reads v).popped))

/-- At every price, all the contributing venues together offer an `int64`. -/
structure SumsFit (config : EngineConfig) (pub : Publication n) (states : Fin n → VenueBook) :
    Prop where
  bids : let sides := (pub.venues config).map fun v => (states v).bids.levels
    ∀ px ∈ pricesOf sides, FitsInt64 (totalQty sides px)
  asks : let sides := (pub.venues config).map fun v => (states v).asks.levels
    ∀ px ∈ pricesOf sides, FitsInt64 (totalQty sides px)

instance (config : EngineConfig) (pub : Publication n) (states : Fin n → VenueBook) :
    Decidable (pub.SumsFit config states) :=
  decidable_of_iff (_ ∧ _) ⟨fun h => ⟨h.1, h.2⟩, fun h => ⟨h.bids, h.asks⟩⟩

structure Merges (config : EngineConfig) (names : Fin n → String) (pub : Publication n)
    (states : Fin n → VenueBook) : Prop where
  books : ∀ v, pub.engine.books v = states v
  bids : ∃ rest, MergeResult true (Engine.mergeLimits config)
    (unionOf true (pub.venues config) fun v => (states v).bids.levels)
    ⟨(pub.book config names).bids, (pub.book config names).bidsTruncated⟩ rest
  asks : ∃ rest, MergeResult false (Engine.mergeLimits config)
    (unionOf false (pub.venues config) fun v => (states v).asks.levels)
    ⟨(pub.book config names).asks, (pub.book config names).asksTruncated⟩ rest
  -- A sum of positive quantities is at no point larger than at its end.
  qtyFits : ∀ m ∈ (pub.book config names).bids ++ (pub.book config names).asks, FitsInt64 m.qty
  bidTouch : Engine.Attribution names (pub.venues config) (fun v => (states v).bids.bestPx)
    (fun v => (states v).bids.bestQty) (pub.book config names).bids
    (pub.book config names).bidTouch
  askTouch : Engine.Attribution names (pub.venues config) (fun v => (states v).asks.bestPx)
    (fun v => (states v).asks.bestQty) (pub.book config names).asks
    (pub.book config names).askTouch

theorem mergedSide_merges {descending : Bool} (config : EngineConfig) (venues : List (Fin n))
    {books : Fin n → SideBook descending} (h : ∀ v, (books v).Invariant) :
    let merged := Engine.mergedSide config descending (fun v => (books v).levels) venues
    ∃ rest, MergeResult descending (Engine.mergeLimits config)
      (unionOf descending venues fun v => (books v).levels) ⟨merged.levels, merged.truncated⟩
      rest := by
  intro merged
  have hsides : ∀ side ∈ venues.map (fun v => (⟨v.val, (books v).levels⟩ : VenueSideInput)),
      BestFirst descending side.levels := List.forall_mem_map.mpr fun v _ => h v
  have hresult := mergeSide_result_of_bestFirst hsides (Engine.mergeLimits config)
  rwa [List.map_map] at hresult

theorem qtyFits_of_result {descending : Bool} {venues : List (Fin n)} {side : Fin n → List Level}
    {limits : MergeLimits} {merged : MergeOutput} {rest : List MergedLevel}
    (h : MergeResult descending limits (unionOf descending venues side) merged rest)
    (hfits : ∀ px ∈ pricesOf (venues.map side), FitsInt64 (totalQty (venues.map side) px)) :
    ∀ m ∈ merged.levels, FitsInt64 m.qty := by
  intro m hm
  have hunion : m ∈ unionOf descending venues side := by
    rw [h.split]
    exact List.mem_append_left _ hm
  obtain ⟨hpx, hqty⟩ := mem_unionLadder.mp hunion
  rw [hqty]
  exact hfits m.px hpx

theorem attributions (config : EngineConfig) (names : Fin n → String) {pub : Publication n}
    (h : ∀ v, (pub.engine.books v).Invariant) :
    Engine.Attribution names (pub.venues config) (fun v => (pub.engine.books v).bids.bestPx)
        (fun v => (pub.engine.books v).bids.bestQty) (pub.book config names).bids
        (pub.book config names).bidTouch ∧
      Engine.Attribution names (pub.venues config) (fun v => (pub.engine.books v).asks.bestPx)
        (fun v => (pub.engine.books v).asks.bestQty) (pub.book config names).asks
        (pub.book config names).askTouch := by
  constructor
  · exact Engine.touch_attribution names (fun v => (pub.engine.books v).bids) fun v _ => (h v).1
  · exact Engine.touch_attribution names (fun v => (pub.engine.books v).asks) fun v _ => (h v).2

theorem merges_of_books (config : EngineConfig) (names : Fin n → String) {pub : Publication n}
    {states : Fin n → VenueBook} (hbooks : ∀ v, pub.engine.books v = states v)
    (hstates : ∀ v, (states v).Invariant) (hfits : pub.SumsFit config states) :
    pub.Merges config names states := by
  obtain rfl : states = pub.engine.books := funext fun v => (hbooks v).symm
  obtain ⟨bidRest, hbids⟩ := mergedSide_merges config (pub.venues config) fun v => (hstates v).1
  obtain ⟨askRest, hasks⟩ := mergedSide_merges config (pub.venues config) fun v => (hstates v).2
  constructor
  · exact hbooks
  · exact ⟨bidRest, hbids⟩
  · exact ⟨askRest, hasks⟩
  · exact List.forall_mem_append.mpr
      ⟨qtyFits_of_result hbids hfits.bids, qtyFits_of_result hasks hfits.asks⟩
  · exact (attributions config names hstates).1
  · exact (attributions config names hstates).2

theorem fresh_of_venues {config : EngineConfig} {pub : Publication n} {v : Fin n}
    (h : v ∈ pub.venues config) :
    (pub.reads v).state = .kLive ∧ pub.engine.lastRecvNs v ≠ 0 ∧
      pub.reading.nowSteady - pub.engine.lastRecvNs v < config.stalenessTimeout := by
  simpa [Publication.venues, Engine.selected, Engine.contributes] using h

theorem position_of_venues {config : EngineConfig} {pub : Publication n} {v : Fin n}
    (hclocks : pub.engine.Clocks fun v => updatesOf (pub.reads v).popped)
    (h : v ∈ pub.venues config) :
    ∃ u ∈ (updatesOf (pub.reads v).popped).getLast?, u.recvTsNs = pub.engine.lastRecvNs v := by
  have hreceived := (fresh_of_venues h).2.1
  rw [hclocks.received v] at hreceived ⊢
  exact receivedAt_mem hreceived

end Publication

section Adapters
variable {n : ℕ} (parse : JsonParser) (adapters : Fin n → Adapter) (options : Options)
  (capacity : ℕ) (config : EngineConfig)

theorem fedRun_faithful {histories : Fin n → VenueHistory} {moves : List (AggregatorMove n)}
    (hmoves : ∀ move ∈ moves, move.Admitted fun v => (adapters v).Faithful parse (histories v)) :
    FedRun parse adapters options config (fun v => (adapters v).FaithfulBuffer (histories v))
      (fun v => Tells (adapters v).Successor (histories v))
      (aggregate parse adapters options capacity config moves) :=
  fedRun_aggregate (fun v => (adapters v).callsKeep parse (histories v))
    (fun v => (adapters v).faithfulBuffer_initial (histories v)) hmoves

variable {adapters} in
theorem Sourced.states {histories : Fin n → VenueHistory} {e : Engine n}
    {updates : Fin n → List FeedUpdate}
    (h : Sourced adapters (fun v => Tells (adapters v).Successor (histories v)) e updates)
    (v : Fin n) : e.books v = stateAt (histories v) (positionOf (updates v)) := by
  rw [h.books v]
  exact applyUpdates_of_tells (h.chained v) (h.emitted v)

/-- Whatever the interleaving and whatever is lost, every published state is a merge of states
the venues were in, as long as what they offer at one price is not too much to be added up. -/
theorem publications_merge_states (histories : Fin n → VenueHistory)
    (moves : List (AggregatorMove n))
    (hmoves : ∀ move ∈ moves, move.Admitted fun v => (adapters v).Faithful parse (histories v)) :
    ∀ pub ∈ (aggregate parse adapters options capacity config moves).publications,
      (pub.SumsFit config (pub.states histories) →
        pub.Merges config (fun v => ((adapters v).protocol parse).name) (pub.states histories)) ∧
      ∀ v ∈ pub.venues config, ∃ u ∈ (updatesOf (pub.reads v).popped).getLast?,
        u.recvTsNs = pub.engine.lastRecvNs v ∧
          pub.states histories v = (histories v).book u.seq.last := by
  intro pub hpub
  have hsourced := (fedRun_faithful parse adapters options capacity config hmoves).published pub
    hpub
  constructor
  · intro hfits
    apply Publication.merges_of_books
    · exact hsourced.states
    · intro v
      exact stateAt_invariant (histories v) _
    · exact hfits
  · intro v hv
    obtain ⟨u, hu, hreceived⟩ := Publication.position_of_venues hsourced.clocks hv
    refine ⟨u, hu, hreceived, ?_⟩
    rw [Publication.states, positionOf, Option.mem_def.mp hu]
    rfl

theorem uncrossed_stateAt {history : VenueHistory} (h : ∀ id, (history.book id).crossed = false)
    (position : Option Int) : (stateAt history position).crossed = false := by
  cases position with
  | none => rfl
  | some id => exact h id

theorem bestPx_ne_zero {descending : Bool} {book : SideBook descending} (h : book.bestPx ≠ 0) :
    book.levels ≠ [] := by
  intro hempty
  exact h (by rw [SideBook.bestPx, hempty]; rfl)

theorem Engine.Attribution.exists_best {names : Fin n → String} {venues : List (Fin n)}
    {px qty : Fin n → Int} {ladder : List MergedLevel} {touch : List VenueTouch}
    (h : Engine.Attribution names venues px qty ladder touch) (hbest : Engine.bestPx ladder ≠ 0) :
    ∃ v ∈ venues, px v = Engine.bestPx ladder := by
  have hladder : ladder ≠ [] := by
    intro hempty
    exact hbest (by rw [hempty]; rfl)
  have htouch := h.nonempty.mpr hladder
  rw [h.listed, ne_eq, List.map_eq_nil_iff] at htouch
  obtain ⟨v, hv⟩ := List.exists_mem_of_ne_nil _ htouch
  obtain ⟨hmem, hpx⟩ := List.mem_filter.mp hv
  exact ⟨v, hmem, (of_decide_eq_true hpx).2⟩

theorem crossed_iff (book : ConsolidatedBook) :
    (computeTouch (makeView book true) (makeView book false)).crossed = true ↔
      Engine.bestPx book.bids ≠ 0 ∧ Engine.bestPx book.asks ≠ 0 ∧
        Engine.bestPx book.asks ≤ Engine.bestPx book.bids := by
  have hbids : viewBestPx (makeView book true) = Engine.bestPx book.bids := rfl
  have hasks : viewBestPx (makeView book false) = Engine.bestPx book.asks := rfl
  simp only [computeTouch, hbids, hasks]
  by_cases hbid : Engine.bestPx book.bids = 0
  · simp [hbid]
  · by_cases hask : Engine.bestPx book.asks = 0
    · simp [hask]
    · simp [hbid, hask]

/-- Venues whose own books never cross: no replica of one crosses at any time, and a crossed
publication has different venues at its two touches. -/
theorem crossing_takes_two (histories : Fin n → VenueHistory) (moves : List (AggregatorMove n))
    (hmoves : ∀ move ∈ moves, move.Admitted fun v => (adapters v).Faithful parse (histories v))
    (huncrossed : ∀ v id, ((histories v).book id).crossed = false) :
    (∀ v, ((aggregate parse adapters options capacity config moves).engine.books v).crossed =
        false) ∧
      ∀ pub ∈ (aggregate parse adapters options capacity config moves).publications,
        let book := pub.book config fun v => ((adapters v).protocol parse).name
        (computeTouch (makeView book true) (makeView book false)).crossed = true →
          (∃ v ∈ pub.venues config, (pub.engine.books v).bids.bestPx = Engine.bestPx book.bids) ∧
          (∃ v ∈ pub.venues config, (pub.engine.books v).asks.bestPx = Engine.bestPx book.asks) ∧
          ∀ v ∈ pub.venues config, ∀ w ∈ pub.venues config,
            (pub.engine.books v).bids.bestPx = Engine.bestPx book.bids →
            (pub.engine.books w).asks.bestPx = Engine.bestPx book.asks → v ≠ w := by
  have hrun := fedRun_faithful parse adapters options capacity config hmoves
  constructor
  · intro v
    rw [hrun.sourced.states v]
    exact uncrossed_stateAt (huncrossed v) _
  · intro pub hpub book hcrossed
    have hsourced := hrun.published pub hpub
    have hbooks : ∀ v, (pub.engine.books v).Invariant := by
      intro v
      rw [hsourced.states v]
      exact stateAt_invariant (histories v) _
    obtain ⟨hbids, hasks⟩ := Publication.attributions config
      (fun v => ((adapters v).protocol parse).name) hbooks
    obtain ⟨hbid, hask, hle⟩ := (crossed_iff book).mp hcrossed
    refine ⟨hbids.exists_best hbid, hasks.exists_best hask, ?_⟩
    intro v _ w _ hv hw hsame
    subst hsame
    have hown := uncrossed_stateAt (huncrossed v) (positionOf (updatesOf (pub.reads v).popped))
    rw [← hsourced.states v] at hown
    rw [← hv] at hbid hle
    rw [← hw] at hask hle
    simp [VenueBook.crossed, bestPx_ne_zero hbid, bestPx_ne_zero hask, hle] at hown

end Adapters

section Runs

def VenueSystem.handledAt (now : Int) (event : Event) : List VenueMove :=
  .handle { now := now } event :: List.replicate 12 .act

def growingBidMoves : List (AggregatorMove 1) :=
  (VenueSystem.opened ++
      VenueSystem.handledAt 1 (.read 1 (some (utf8 Binance.growingBidEvent))) ++
      VenueSystem.handledAt 1 (.response 0 (some (utf8 Binance.growingBidSnapshot)))).map
    (.venue (Fin.last 0)) ++ List.replicate 5 (.engine ⟨2, 2, 0⟩)

theorem growingBidMoves_faithful : ∀ move ∈ growingBidMoves, move.Admitted fun _ =>
    Adapter.Faithful Binance.growingBidParser growingBid (.binance {}) := by
  apply admitted_of_messages
  have hmessages : growingBidMoves.filterMap AggregatorMove.message =
      [(0, .frame (utf8 Binance.growingBidEvent) 1),
        (0, .restSnapshot (utf8 Binance.growingBidSnapshot) 1)] := rfl
  rw [hmessages]
  refine List.forall_mem_cons.mpr ⟨?_, List.forall_mem_singleton.mpr ?_⟩
  · intro e he
    rw [show Binance.readFrame Binance.growingBidParser {} (utf8 Binance.growingBidEvent) =
      .event ⟨11, 12, 0, [⟨100, 2⟩], []⟩ by decide +kernel] at he
    cases he
    exact Binance.growingBid_event
  · intro id bids asks hbody
    rw [show Binance.readBody Binance.growingBidParser (utf8 Binance.growingBidSnapshot) =
      .snapshot 11 [⟨100, 1⟩] [] by decide +kernel] at hbody
    cases hbody
    exact growingBid_lists (by decide)

theorem publications_merge_states_growingBid :
    ∃ pub ∈ (aggregate Binance.growingBidParser (fun _ : Fin 1 => .binance {}) {} 4 {}
        growingBidMoves).publications,
      pub.Merges {} (fun _ => "binance") (pub.states fun _ => growingBid) ∧
        pub.states (fun _ => growingBid) 0 = growingBid.book 12 := by
  have hpub : ∃ pub ∈ (aggregate Binance.growingBidParser (fun _ : Fin 1 => .binance {}) {} 4 {}
      growingBidMoves).publications, 0 ∈ pub.venues {} ∧
      pub.SumsFit {} (pub.states fun _ => growingBid) ∧
      ((updatesOf (pub.reads 0).popped).getLast?.map fun u => u.seq.last) = some 12 := by
    decide +kernel
  obtain ⟨pub, hmem, hvenue, hfits, hlast⟩ := hpub
  obtain ⟨hmerges, hstates⟩ := publications_merge_states Binance.growingBidParser
    (fun _ : Fin 1 => .binance {}) {} 4 {} (fun _ => growingBid) growingBidMoves
    growingBidMoves_faithful pub hmem
  obtain ⟨u, hu, -, hstate⟩ := hstates 0 hvenue
  rw [Option.mem_def.mp hu, Option.map_some, Option.some.injEq] at hlast
  exact ⟨pub, hmem, hmerges hfits, hlast ▸ hstate⟩

def restingBid : VenueHistory where
  book _ := { bids := ⟨[⟨100, 1⟩]⟩ }
  invariant _ := ⟨⟨by decide, by decide⟩, ⟨by decide, by decide⟩⟩

def restingAsk : VenueHistory where
  book _ := { asks := ⟨[⟨90, 1⟩]⟩ }
  invariant _ := ⟨⟨by decide, by decide⟩, ⟨by decide, by decide⟩⟩

theorem carriesBook_singleton (l : Level) :
    CarriesBook (OrderedTable.valueAt [l]) [l] := by
  constructor
  · simp [OrderedTable.valueAt, OrderedTable.Entry.key, OrderedTable.Entry.val]
  · intro px hne
    by_contra hnot
    have hpx : l.px ≠ px := fun hpx => hnot ⟨l, List.mem_singleton_self l, hpx⟩
    exact hne (by simp [OrderedTable.valueAt, OrderedTable.Entry.key, hpx])

theorem carriesBook_nil : CarriesBook (OrderedTable.valueAt ([] : List Level)) [] :=
  ⟨fun _ hl => (List.not_mem_nil hl).elim, fun _ hne => (hne rfl).elim⟩

theorem restingBid_lists (id : Int) : ListsBook (restingBid.book id) [⟨100, 1⟩] [] :=
  ⟨carriesBook_singleton ⟨100, 1⟩, carriesBook_nil⟩

theorem restingAsk_lists (id : Int) : ListsBook (restingAsk.book id) [] [⟨90, 1⟩] :=
  ⟨carriesBook_nil, carriesBook_singleton ⟨90, 1⟩⟩

def okxAskText : String :=
  "\x7b\"action\":\"snapshot\",\"data\":[\x7b\"seqId\":10,\"bids\":[]," ++
    "\"asks\":[[\"0.00000090\",\"0.00000001\"]]\x7d]\x7d"

def okxAskEntry : Json := .object [("seqId", .int64 10), ("bids", .array []),
  ("asks", .array [.array [.string "0.00000090", .string "0.00000001"]])]

def crossingParser : JsonParser := parserOf
  [(bybitSnapshotText, bybitRoot "snapshot" bybitSnapshotData),
    (okxAskText, .object [("action", .string "snapshot"), ("data", .array [okxAskEntry])])]

def crossingAdapters (v : Fin 2) : Adapter := if v = Fin.last 1 then .okx {} else .bybit {}

def crossingHistories (v : Fin 2) : VenueHistory :=
  if v = Fin.last 1 then restingAsk else restingBid

def crossingMoves : List (AggregatorMove 2) :=
  (VenueSystem.opened ++
      VenueSystem.handledAt 1 (.read 1 (some (utf8 bybitSnapshotText)))).map
        (.venue (Fin.last 0).castSucc) ++
    (VenueSystem.opened ++
      VenueSystem.handledAt 1 (.read 1 (some (utf8 okxAskText)))).map (.venue (Fin.last 1)) ++
    List.replicate 8 (.engine ⟨2, 2, 0⟩)

theorem crossingMoves_faithful : ∀ move ∈ crossingMoves, move.Admitted fun v =>
    (crossingAdapters v).Faithful crossingParser (crossingHistories v) := by
  apply admitted_of_messages
  have hmessages : crossingMoves.filterMap AggregatorMove.message =
      [(0, .frame (utf8 bybitSnapshotText) 1), (1, .frame (utf8 okxAskText) 1)] := rfl
  rw [hmessages]
  refine List.forall_mem_cons.mpr ⟨?_, List.forall_mem_singleton.mpr ?_⟩
  · intro isSnapshot id root data hread
    have hframe : Bybit.readFrame crossingParser {} (utf8 bybitSnapshotText) =
        .book true 11 (bybitRoot "snapshot" bybitSnapshotData) bybitSnapshotData := by
      rw [Bybit.readFrame, crossingParser, parserOf_self]
      rfl
    cases hframe.symm.trans hread
    have hbids : Bybit.bidsOf bybitSnapshotData = some [⟨100, 1⟩] := by decide +kernel
    have hasks : Bybit.asksOf bybitSnapshotData = some [] := by decide +kernel
    exact ⟨none, .snapshot hbids hasks (restingBid_lists 11)⟩
  · intro isSnapshot data hread
    have hframe : Okx.readFrame crossingParser {} (utf8 okxAskText) =
        .entries true [okxAskEntry] := by
      rw [Okx.readFrame, if_neg (by decide +kernel), crossingParser,
        parserOf_of_ne (by decide +kernel), parserOf_self]
      rfl
    cases hframe.symm.trans hread
    have hbids : Okx.bidsOf okxAskEntry = some [] := by decide +kernel
    have hasks : Okx.asksOf okxAskEntry = some [⟨90, 1⟩] := by decide +kernel
    exact List.forall_mem_singleton.mpr
      ⟨none, some 10, .snapshot rfl rfl hbids hasks (restingAsk_lists 10)⟩

theorem crossing_takes_two_venues :
    ∃ pub ∈ (aggregate crossingParser crossingAdapters {} 4 {} crossingMoves).publications,
      ((pub.book {} fun v => ((crossingAdapters v).protocol crossingParser).name).bids,
        (pub.book {} fun v => ((crossingAdapters v).protocol crossingParser).name).asks) =
          ([⟨100, 1⟩], [⟨90, 1⟩]) ∧
      ∀ v ∈ pub.venues {}, ∀ w ∈ pub.venues {},
        (pub.engine.books v).bids.bestPx = 100 → (pub.engine.books w).asks.bestPx = 90 →
          v ≠ w := by
  have hpub : ∃ pub ∈ (aggregate crossingParser crossingAdapters {} 4 {}
      crossingMoves).publications,
      ((pub.book {} fun v => ((crossingAdapters v).protocol crossingParser).name).bids,
        (pub.book {} fun v => ((crossingAdapters v).protocol crossingParser).name).asks) =
          ([⟨100, 1⟩], [⟨90, 1⟩]) := by
    decide +kernel
  obtain ⟨pub, hmem, hladders⟩ := hpub
  obtain ⟨hbids, hasks⟩ := Prod.mk.inj hladders
  have huncrossed : ∀ v id, ((crossingHistories v).book id).crossed = false := by
    intro v id
    rw [crossingHistories]
    split_ifs <;> rfl
  have htwo := (crossing_takes_two crossingParser crossingAdapters {} 4 {} crossingHistories
    crossingMoves crossingMoves_faithful huncrossed).2 pub hmem
  simp only [crossed_iff, hbids, hasks] at htwo
  exact ⟨pub, hmem, hladders, (htwo ⟨by decide, by decide, by decide⟩).2.2⟩

end Runs

end CexAggregator
