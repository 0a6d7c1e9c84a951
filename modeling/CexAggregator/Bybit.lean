import CexAggregator.Venue

/-!
# The Bybit adapter

A snapshot over the socket, then deltas numbered one above the state they amend. A
snapshot may come at any time and restarts the numbering.
-/

namespace CexAggregator
namespace Bybit
open Json

structure Config where
  symbol : String := "BTCUSDT"
  streamUrl : String := "wss://stream.bybit.com/v5/public/spot"
  depth : Int := 200
deriving DecidableEq

/-- The adapter's `staging_` is cleared by `Reset` and used nowhere else. -/
structure State where
  lastUpdateId : Int := 0
  synced : Bool := false
  fatalReason : String := ""
deriving DecidableEq

def reset (s : State) : State := { s with lastUpdateId := 0, synced := false }

def topic (config : Config) : String :=
  "orderbook." ++ toString config.depth ++ "." ++ config.symbol

def subscribeFrames (config : Config) : List String :=
  ["\x7b\"op\":\"subscribe\",\"args\":[\"" ++ topic config ++ "\"]\x7d"]

inductive Frame where
  | ignored
  | malformed
  | rejected (reason : String)
  | book (isSnapshot : Bool) (updateId : Int) (root data : Json)

section Calls
variable (parse : JsonParser) (config : Config)

def readFrame (frame : Bytes) : Frame :=
  match parse frame with
  | none => .malformed
  | some root =>
    match getString (field root "topic") with
    | none =>
      if getBool (field root "success") = some false then
        .rejected ((getString (field root "ret_msg")).getD "bybit rejected the subscription")
      else .ignored
    | some frameTopic =>
      if frameTopic ≠ topic config then .ignored
      else
        match getString (field root "type") with
        | none => .malformed
        | some type =>
          let isSnapshot : Bool := type = "snapshot"
          if ¬ isSnapshot ∧ type ≠ "delta" then .ignored
          else
            match field root "data" with
            | none => .malformed
            | some data =>
              match getI64 (field data "u") with
              | none => .malformed
              | some updateId => .book isSnapshot updateId root data

def bookUpdate (isSnapshot : Bool) (updateId : Int) (root : Json) (bids asks : List Level)
    (recvTsNs : Int) : FeedUpdate :=
  { isSnapshot := isSnapshot
    bids := bids
    asks := asks
    exchangeTsNs := ((getI64 (field root "ts")).map msToNs).getD 0
    recvTsNs := recvTsNs
    seq := ⟨updateId, updateId⟩ }

def bidsOf (data : Json) : Option (List Level) := parseLevelArray (field data "b")
def asksOf (data : Json) : Option (List Level) := parseLevelArray (field data "a")

def onBook (s : State) (isSnapshot : Bool) (updateId : Int) (root data : Json) (recvTsNs : Int)
    (out : List FeedUpdate) : Called State :=
  if isSnapshot = false ∧ s.synced = false then ⟨.kNeedsResync, s, out⟩
  else if isSnapshot = false ∧ updateId ≠ s.lastUpdateId + 1 then ⟨.kNeedsResync, s, out⟩
  else
    match bidsOf data, asksOf data with
    | some bids, some asks =>
      ⟨.kOk, { s with lastUpdateId := updateId, synced := isSnapshot || s.synced },
        out ++ [bookUpdate isSnapshot updateId root bids asks recvTsNs]⟩
    | _, _ => ⟨.kParseError, s, out⟩

theorem onBook_ok {s : State} {isSnapshot : Bool} {id : Int} {root data : Json}
    {recvTsNs : Int} {out : List FeedUpdate}
    (h : (onBook s isSnapshot id root data recvTsNs out).verdict = .kOk) :
    (isSnapshot = false → s.synced = true ∧ id = s.lastUpdateId + 1) ∧
      ∃ bids asks, bidsOf data = some bids ∧ asksOf data = some asks ∧
        onBook s isSnapshot id root data recvTsNs out =
          ⟨.kOk, { s with lastUpdateId := id, synced := isSnapshot || s.synced },
            out ++ [bookUpdate isSnapshot id root bids asks recvTsNs]⟩ := by
  unfold onBook at h ⊢
  split_ifs at h ⊢ with hstart hgap
  refine ⟨fun hkind => ?_, ?_⟩
  · simp only [hkind, true_and, Bool.not_eq_false, not_not, ne_eq] at hstart hgap
    exact ⟨hstart, hgap⟩
  · cases hbids : bidsOf data with
    | none => simp [hbids] at h
    | some bids =>
      cases hasks : asksOf data with
      | none => simp [hasks] at h
      | some asks => exact ⟨bids, asks, rfl, rfl, rfl⟩

def onFrame (s : State) (frame : Bytes) (recvTsNs : Int) (out : List FeedUpdate) : Called State :=
  match readFrame parse config frame with
  | .malformed => ⟨.kParseError, s, out⟩
  | .ignored => ⟨.kOk, s, out⟩
  | .rejected reason => ⟨.kFatal, { s with fatalReason := reason }, out⟩
  | .book isSnapshot updateId root data => onBook s isSnapshot updateId root data recvTsNs out

def protocol : VenueProtocol State where
  name := "bybit"
  venueSymbol := config.symbol
  streamUrl := config.streamUrl
  subscribeFrames := subscribeFrames config
  keepaliveFrame := "\x7b\"op\":\"ping\"\x7d"
  keepaliveIntervalSeconds := 20
  synced := State.synced
  onFrame := onFrame parse config
  reset := reset
  fatalReason := State.fatalReason

end Calls

end Bybit
end CexAggregator
