import Mathlib.Data.Fintype.Basic
import CexAggregator.Consolidated
import CexAggregator.Runner

/-!
# The aggregation engine

The engine owns a book for every venue. A pass drains the rings into the books and then
publishes the merge of those venues that are live and fresh. Latency samples and the
subscribers' slots are left out.
-/

namespace CexAggregator

structure VenueTouch where
  venue : String
  qty : Int
deriving DecidableEq, Repr

structure VenueClockInfo where
  name : String
  lastRecvTsNs : Int
  lastExchangeTsNs : Int
  bidLevels : ℕ
  askLevels : ℕ
  bestBid : Int
  bestAsk : Int
deriving DecidableEq, Repr

@[ext] structure ConsolidatedBook where
  sequence : ℕ
  publishTsNs : Int
  ingestRecvTsNs : Int
  instrument : String
  contributing : List String
  stale : List String
  clocks : List VenueClockInfo
  bids : List MergedLevel
  asks : List MergedLevel
  bidTouch : List VenueTouch
  askTouch : List VenueTouch
  bidsTruncated : Bool
  asksTruncated : Bool
deriving DecidableEq, Repr

/-- Durations are nanoseconds. -/
structure EngineConfig where
  instrument : String := "BTCUSDT"
  maxPublishBps : Int := 500
  maxPublishLevels : Int32 := 8192
  stalenessTimeout : Int := 5000000000
  heartbeatInterval : Int := 1000000000

def kMaxBatchesPerPass : ℕ := 256

structure Engine (n : ℕ) where
  books : Fin n → VenueBook := fun _ => {}
  lastRecvNs : Fin n → Int := fun _ => 0
  lastExchangeNs : Fin n → Int := fun _ => 0
  newestRecvNs : Int := 0
  lastPublish : Int := 0
  published : ℕ := 0
  latest : Option ConsolidatedBook := none

namespace Engine
variable {n : ℕ}

def applyUpdate (venue : Fin n) (e : Engine n) (update : FeedUpdate) : Engine n :=
  { e with
    books := Function.update e.books venue
      (applyFeedUpdate (e.books venue) update.toFeedUpdateLevels)
    lastRecvNs := Function.update e.lastRecvNs venue update.recvTsNs
    lastExchangeNs :=
      if update.exchangeTsNs ≠ 0 then
        Function.update e.lastExchangeNs venue update.exchangeTsNs
      else e.lastExchangeNs
    newestRecvNs := max e.newestRecvNs update.recvTsNs }

/-- A batch of no configured venue does not occur. -/
def apply (e : Engine n) (batch : FeedBatch) : Engine n :=
  if h : batch.venueIndex < n then batch.updates.foldl (applyUpdate ⟨batch.venueIndex, h⟩) e else e

/-- Live by its own word, and fresh by what has reached the book. -/
def contributes (config : EngineConfig) (e : Engine n) (nowSteady : Int) (state : VenueState)
    (venue : Fin n) : Bool :=
  state = .kLive ∧ e.lastRecvNs venue ≠ 0 ∧ nowSteady - e.lastRecvNs venue < config.stalenessTimeout

def clockInfo (e : Engine n) (name : String) (venue : Fin n) : VenueClockInfo where
  name := name
  lastRecvTsNs := e.lastRecvNs venue
  lastExchangeTsNs := e.lastExchangeNs venue
  bidLevels := (e.books venue).bids.levels.length
  askLevels := (e.books venue).asks.levels.length
  bestBid := (e.books venue).bids.bestPx
  bestAsk := (e.books venue).asks.bestPx

def mergeLimits (config : EngineConfig) : MergeLimits where
  maxBpsFromTouch := config.maxPublishBps * kScale
  maxLevels := config.maxPublishLevels

def touch (names : Fin n → String) (best : Int) (px qty : Fin n → Int) (venues : List (Fin n)) :
    List VenueTouch :=
  (venues.filter fun v => best ≠ 0 ∧ px v = best).map fun v => ⟨names v, qty v⟩

def selected (config : EngineConfig) (e : Engine n) (nowSteady : Int)
    (states : Fin n → VenueState) : List (Fin n) :=
  (List.finRange n).filter fun v => contributes config e nowSteady (states v) v

def mergedSide (config : EngineConfig) (descending : Bool) (levels : Fin n → List Level)
    (venues : List (Fin n)) : MergeOutput :=
  mergeSide descending (venues.map fun v => ⟨v.val, levels v⟩) (mergeLimits config)

def bestPx (levels : List MergedLevel) : Int := (levels.head?.map MergedLevel.px).getD 0

def consolidate (config : EngineConfig) (names : Fin n → String) (e : Engine n)
    (nowSteady nowWall : Int) (states : Fin n → VenueState) : ConsolidatedBook :=
  let venues := selected config e nowSteady states
  let bids := mergedSide config true (fun v => (e.books v).bids.levels) venues
  let asks := mergedSide config false (fun v => (e.books v).asks.levels) venues
  { sequence := e.published + 1
    publishTsNs := nowWall
    ingestRecvTsNs := e.newestRecvNs
    instrument := config.instrument
    contributing := venues.map names
    stale := ((List.finRange n).filter fun v => ¬ contributes config e nowSteady (states v) v).map
      names
    clocks := (List.finRange n).map fun v => clockInfo e (names v) v
    bids := bids.levels
    asks := asks.levels
    bidTouch := touch names (bestPx bids.levels) (fun v => (e.books v).bids.bestPx)
      (fun v => (e.books v).bids.bestQty) venues
    askTouch := touch names (bestPx asks.levels) (fun v => (e.books v).asks.bestPx)
      (fun v => (e.books v).asks.bestQty) venues
    bidsTruncated := bids.truncated
    asksTruncated := asks.truncated }

def publish (config : EngineConfig) (names : Fin n → String) (e : Engine n)
    (nowSteady nowWall : Int) (states : Fin n → VenueState) : Engine n :=
  { e with
    published := e.published + 1
    latest := some (consolidate config names e nowSteady nowWall states) }

end Engine

end CexAggregator
