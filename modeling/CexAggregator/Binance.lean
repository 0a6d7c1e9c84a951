import CexAggregator.Venue

/-!
# The Binance adapter

The book is seeded from a REST snapshot and amended by the diff stream. Events that
arrive before the snapshot are buffered; the snapshot drops those it already reflects,
asks the first of the rest to straddle it, and replays them.
-/

namespace CexAggregator
namespace Binance
open Json

structure Config where
  symbol : String := "BTCUSDT"
  streamUrl : String := "wss://stream.binance.com:9443/ws"
  restUrl : String := "https://api.binance.com/api/v3/depth"
  snapshotLimit : Int := 5000
  maxBufferedEvents : ℕ := 4096
deriving DecidableEq

structure PendingEvent where
  firstId : Int
  finalId : Int
  exchangeTsNs : Int := 0
  bids : List Level
  asks : List Level
deriving DecidableEq

structure State where
  staging : List FeedUpdate := []
  buffered : List PendingEvent := []
  lastUpdateId : Int := 0
  synced : Bool := false
deriving DecidableEq

def reset (_s : State) : State := {}

def streamUrl (config : Config) : String :=
  config.streamUrl ++ "/" ++ config.symbol.map Char.toLower ++ "@depth@100ms"

def restSnapshotUrl (config : Config) : String :=
  config.restUrl ++ "?symbol=" ++ config.symbol ++ "&limit=" ++ toString config.snapshotLimit

def parseDepthEvent (root : Option Json) : Option PendingEvent := do
  let eventTs := (getI64 (field root "E")).map msToNs
  let firstId ← getI64 (field root "U")
  let finalId ← getI64 (field root "u")
  let bids ← parseLevelArray (field root "b")
  let asks ← parseLevelArray (field root "a")
  some ⟨firstId, finalId, eventTs.getD 0, bids, asks⟩

inductive Frame where
  | ignored
  | malformed
  | event (e : PendingEvent)
deriving DecidableEq

section Calls
variable (parse : JsonParser) (config : Config)

def readFrame (frame : Bytes) : Frame :=
  match parse frame with
  | none => .malformed
  | some root =>
    match getString (field root "e") with
    | none => .ignored
    | some eventType =>
      if eventType ≠ "depthUpdate" then .ignored
      else if (getString (field root "s")).any fun symbol => symbol ≠ config.symbol then .ignored
      else
        match parseDepthEvent root with
        | none => .malformed
        | some e => .event e

def PendingEvent.update (e : PendingEvent) (recvTsNs : Int) : FeedUpdate :=
  { isSnapshot := false
    bids := e.bids
    asks := e.asks
    exchangeTsNs := e.exchangeTsNs
    recvTsNs := recvTsNs
    seq := ⟨e.firstId, e.finalId⟩ }

def onEvent (s : State) (e : PendingEvent) (recvTsNs : Int) (out : List FeedUpdate) :
    Called State :=
  if s.synced = false then
    if config.maxBufferedEvents ≤ s.buffered.length then
      ⟨.kNeedsResync, { s with buffered := [] }, out⟩
    else ⟨.kOk, { s with buffered := s.buffered ++ [e] }, out⟩
  else if e.firstId ≠ s.lastUpdateId + 1 then ⟨.kNeedsResync, s, out⟩
  else ⟨.kOk, { s with lastUpdateId := e.finalId }, out ++ [e.update recvTsNs]⟩

def onFrame (s : State) (frame : Bytes) (recvTsNs : Int) (out : List FeedUpdate) : Called State :=
  match readFrame parse config frame with
  | .malformed => ⟨.kParseError, s, out⟩
  | .ignored => ⟨.kOk, s, out⟩
  | .event e => onEvent config s e recvTsNs out

/-- The replay of the buffer: what it staged, the id it reached, and whether it got
through. -/
def replayBuffered (recvTsNs : Int) (staging : List FeedUpdate) (appliedThrough : Int)
    (first : Bool) : List PendingEvent → List FeedUpdate × Int × Bool
  | [] => (staging, appliedThrough, true)
  | e :: events =>
    if first = false ∧ e.firstId ≠ appliedThrough + 1 then (staging, appliedThrough, false)
    else replayBuffered recvTsNs (staging ++ [e.update recvTsNs]) e.finalId false events

def straddles (snapshotId : Int) (e : PendingEvent) : Bool :=
  e.firstId ≤ snapshotId + 1 ∧ snapshotId + 1 ≤ e.finalId

def snapshotUpdate (snapshotId : Int) (bids asks : List Level) (recvTsNs : Int) : FeedUpdate :=
  { isSnapshot := true
    bids := bids
    asks := asks
    recvTsNs := recvTsNs
    seq := ⟨snapshotId, snapshotId⟩ }

def survivors (snapshotId : Int) (buffered : List PendingEvent) : List PendingEvent :=
  buffered.dropWhile fun e => e.finalId ≤ snapshotId

/-- From the point where the snapshot has been read completely. -/
def reconcile (s : State) (snapshotId : Int) (bids asks : List Level) (recvTsNs : Int)
    (out : List FeedUpdate) : Called State :=
  let staging := [snapshotUpdate snapshotId bids asks recvTsNs]
  let buffered := survivors snapshotId s.buffered
  if buffered.head?.any fun e => ¬ straddles snapshotId e then
    ⟨.kNeedsResync, { s with staging := staging, buffered := [] }, out⟩
  else
    match replayBuffered recvTsNs staging snapshotId true buffered with
    | (staged, _, false) => ⟨.kNeedsResync, { s with staging := staged, buffered := [] }, out⟩
    | (staged, appliedThrough, true) => ⟨.kOk, ⟨[], [], appliedThrough, true⟩, out ++ staged⟩

theorem reconcile_of_replay {s : State} {snapshotId : Int} {bids asks : List Level}
    {recvTsNs : Int} {out staged : List FeedUpdate} {through : Int}
    (hstraddle : ∀ e ∈ (survivors snapshotId s.buffered).head?, straddles snapshotId e)
    (hreplay : replayBuffered recvTsNs [snapshotUpdate snapshotId bids asks recvTsNs] snapshotId
      true (survivors snapshotId s.buffered) = (staged, through, true)) :
    reconcile s snapshotId bids asks recvTsNs out =
      ⟨.kOk, ⟨[], [], through, true⟩, out ++ staged⟩ := by
  simp only [reconcile, hreplay]
  rw [if_neg]
  cases hhead : (survivors snapshotId s.buffered).head? with
  | none => simp
  | some e => simpa using hstraddle e hhead

theorem reconcile_ok {s : State} {snapshotId : Int} {bids asks : List Level} {recvTsNs : Int}
    {out : List FeedUpdate}
    (h : (reconcile s snapshotId bids asks recvTsNs out).verdict = .kOk) :
    ∃ staged through,
      (∀ e ∈ (survivors snapshotId s.buffered).head?, straddles snapshotId e) ∧
      replayBuffered recvTsNs [snapshotUpdate snapshotId bids asks recvTsNs] snapshotId true
        (survivors snapshotId s.buffered) = (staged, through, true) ∧
      reconcile s snapshotId bids asks recvTsNs out =
        ⟨.kOk, ⟨[], [], through, true⟩, out ++ staged⟩ := by
  rcases hreplay : replayBuffered recvTsNs [snapshotUpdate snapshotId bids asks recvTsNs]
    snapshotId true (survivors snapshotId s.buffered) with ⟨staged, through, ok⟩
  simp only [reconcile, hreplay] at h ⊢
  split_ifs at h ⊢ with hhole
  cases ok with
  | false => cases h
  | true =>
    refine ⟨staged, through, fun e he => ?_, rfl, rfl⟩
    rw [Option.mem_def] at he
    rw [he] at hhole
    simpa using hhole

inductive Body where
  | malformed
  | malformedLevels
  | snapshot (id : Int) (bids asks : List Level)
deriving DecidableEq

def readBody (body : Bytes) : Body :=
  match parse body with
  | none => .malformed
  | some root =>
    match getI64 (field root "lastUpdateId") with
    | none => .malformed
    | some id =>
      match parseLevelArray (field root "bids"), parseLevelArray (field root "asks") with
      | some bids, some asks => .snapshot id bids asks
      | _, _ => .malformedLevels

def onRestSnapshot (s : State) (body : Bytes) (recvTsNs : Int) (out : List FeedUpdate) :
    Called State :=
  match readBody parse body with
  | .malformed => ⟨.kParseError, s, out⟩
  | .malformedLevels => ⟨.kParseError, { s with staging := [] }, out⟩
  | .snapshot id bids asks => reconcile s id bids asks recvTsNs out

def protocol : VenueProtocol State where
  name := "binance"
  venueSymbol := config.symbol
  streamUrl := streamUrl config
  subscribeFrames := []
  needsRestSnapshot := true
  restSnapshotUrl := restSnapshotUrl config
  onRestSnapshot := onRestSnapshot parse
  synced := State.synced
  onFrame := onFrame parse config
  reset := reset

end Calls

end Binance
end CexAggregator
