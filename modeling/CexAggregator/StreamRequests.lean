import CexAggregator.BandRequest
import CexAggregator.PublishBound

/-!
# Stream requests and the updates that answer them

The three streaming services check their request and then turn every book they are given
into an update. Each update begins with the provenance of the book and its touch.
-/

namespace CexAggregator

structure VenueClock where
  venue : String
  lastRecvTsNs : Int
  lastExchangeTsNs : Int
deriving DecidableEq, Repr

structure SnapshotMeta where
  instrument : String
  sequence : ℕ
  publishTsNs : Int
  ingestRecvTsNs : Int
  priceScale : Int
  qtyScale : Int
  bidLadderTruncated : Bool
  askLadderTruncated : Bool
  contributingVenues : List String
  staleVenues : List String
  venueClocks : List VenueClock
deriving DecidableEq, Repr

def fillMeta (book : ConsolidatedBook) : SnapshotMeta where
  instrument := book.instrument
  sequence := book.sequence
  publishTsNs := book.publishTsNs
  ingestRecvTsNs := book.ingestRecvTsNs
  priceScale := kScale
  qtyScale := kScale
  bidLadderTruncated := book.bidsTruncated
  askLadderTruncated := book.asksTruncated
  contributingVenues := book.contributing
  staleVenues := book.stale
  venueClocks := book.clocks.map fun clock =>
    ⟨clock.name, clock.lastRecvTsNs, clock.lastExchangeTsNs⟩

structure Quote where
  price : Int := 0
  qty : Int := 0
  venues : List VenueTouch := []
deriving DecidableEq, Repr

def fillQuote (side : List MergedLevel) (touch : List VenueTouch) : Quote :=
  match side with
  | [] => {}
  | level :: _ => ⟨level.px, level.qty, touch⟩

structure UpdateHead where
  snapshotMeta : SnapshotMeta
  touch : TouchInfo
deriving DecidableEq, Repr

def beginUpdate (book : ConsolidatedBook) : UpdateHead where
  snapshotMeta := fillMeta book
  touch := computeTouch (makeView book true) (makeView book false)

inductive StreamUpdate where
  | bbo (head : UpdateHead) (bid ask : Quote)
  | volumeBands (head : UpdateHead) (bid ask : List VolumeBandResult)
  | priceBands (head : UpdateHead) (bid ask : List PriceBandResult)
deriving DecidableEq, Repr

def StreamUpdate.head : StreamUpdate → UpdateHead
  | bbo head _ _ => head
  | volumeBands head _ _ => head
  | priceBands head _ _ => head

def bboUpdate (book : ConsolidatedBook) : StreamUpdate :=
  .bbo (beginUpdate book) (fillQuote book.bids book.bidTouch) (fillQuote book.asks book.askTouch)

def volumeBandsUpdate (config : BandConfig) (book : ConsolidatedBook) : StreamUpdate :=
  .volumeBands (beginUpdate book) (computeSideBands (makeView book true) config).volume
    (computeSideBands (makeView book false) config).volume

def priceBandsUpdate (config : BandConfig) (book : ConsolidatedBook) : StreamUpdate :=
  .priceBands (beginUpdate book) (computeSideBands (makeView book true) config).price
    (computeSideBands (makeView book false) config).price

inductive StreamCall where
  | bbo
  | volumeBands (notionalBands : List Int)
  | priceBands (offsetsBps : List Int)
deriving DecidableEq, Repr

structure StreamRequest where
  instrument : String := ""
  minIntervalMicros : UInt32 := 0
  call : StreamCall := .bbo
deriving DecidableEq, Repr

def checkInstrument (config : EngineConfig) (instrument : String) : Except String Unit :=
  if instrument ≠ "" ∧ instrument ≠ config.instrument then
    .error ("this server aggregates " ++ config.instrument ++ ", not " ++ instrument)
  else .ok ()

/-- What `RunStream` is given to emit; every error is `INVALID_ARGUMENT`. -/
def StreamCall.emit : StreamCall → Except String (ConsolidatedBook → StreamUpdate)
  | .bbo => .ok bboUpdate
  | .volumeBands notionalBands => (makeVolumeConfig notionalBands).map volumeBandsUpdate
  | .priceBands offsetsBps => (makePriceConfig offsetsBps).map priceBandsUpdate

/-- The bands are checked before the instrument. -/
def StreamRequest.accept (config : EngineConfig) (request : StreamRequest) :
    Except String (ConsolidatedBook → StreamUpdate) := do
  let emit ← request.call.emit
  checkInstrument config request.instrument
  return emit

theorem head_of_emit {call : StreamCall} {emit : ConsolidatedBook → StreamUpdate}
    (h : call.emit = .ok emit) (book : ConsolidatedBook) : (emit book).head = beginUpdate book := by
  cases call with
  | bbo =>
    cases h
    rfl
  | volumeBands notionalBands =>
    cases hconfig : makeVolumeConfig notionalBands with
    | error message => simp [StreamCall.emit, hconfig, Except.map] at h
    | ok bands =>
      simp only [StreamCall.emit, hconfig, Except.map, Except.ok.injEq] at h
      rw [← h]
      rfl
  | priceBands offsetsBps =>
    cases hconfig : makePriceConfig offsetsBps with
    | error message => simp [StreamCall.emit, hconfig, Except.map] at h
    | ok bands =>
      simp only [StreamCall.emit, hconfig, Except.map, Except.ok.injEq] at h
      rw [← h]
      rfl

theorem accept_ok {config : EngineConfig} {request : StreamRequest}
    {emit : ConsolidatedBook → StreamUpdate} (h : request.accept config = .ok emit) :
    request.call.emit = .ok emit ∧
      (request.instrument = "" ∨ request.instrument = config.instrument) := by
  rw [StreamRequest.accept] at h
  cases hemit : request.call.emit with
  | error message =>
    rw [hemit] at h
    cases h
  | ok accepted =>
    rw [hemit] at h
    by_cases hother : request.instrument ≠ "" ∧ request.instrument ≠ config.instrument
    · simp only [checkInstrument, if_pos hother] at h
      cases h
    · simp only [checkInstrument, if_neg hother] at h
      cases h
      refine ⟨rfl, ?_⟩
      by_contra hneither
      exact hother (not_or.mp hneither)

end CexAggregator
