import CexAggregator.Venue

/-!
# The OKX adapter

A snapshot over the socket, then entries chained by `prevSeqId` and `seqId`. A frame may
carry several entries; they are staged, with a running sequence number of their own, and
committed together.
-/

namespace CexAggregator
namespace Okx
open Json

structure Config where
  symbol : String := "BTC-USDT"
  streamUrl : String := "wss://ws.okx.com:8443/ws/v5/public"
  channel : String := "books"
deriving DecidableEq

/-- `hasSeq` is kept apart because the venue itself uses any number, `-1` included. -/
structure State where
  staging : List FeedUpdate := []
  lastSeqId : Int := 0
  hasSeq : Bool := false
  synced : Bool := false
  fatalReason : String := ""
deriving DecidableEq

def reset (s : State) : State :=
  { s with staging := [], lastSeqId := 0, hasSeq := false, synced := false }

def subscribeFrames (config : Config) : List String :=
  ["\x7b\"op\":\"subscribe\",\"args\":[\x7b\"channel\":\"" ++ config.channel ++
    "\",\"instId\":\"" ++ config.symbol ++ "\"\x7d]\x7d"]

inductive Frame where
  | ignored
  | malformed
  | rejected (reason : String)
  | entries (isSnapshot : Bool) (data : List Json)

section Calls
variable (parse : JsonParser) (config : Config)

def readFrame (frame : Bytes) : Frame :=
  if frame = utf8 "pong" then .ignored
  else
    match parse frame with
    | none => .malformed
    | some root =>
      match getString (field root "event") with
      | some event =>
        if event ≠ "error" then .ignored
        else .rejected ((getString (field root "msg")).getD "okx rejected the subscription")
      | none =>
        match getString (field root "action") with
        | none => .ignored
        | some action =>
          let isSnapshot : Bool := action = "snapshot"
          if ¬ isSnapshot ∧ action ≠ "update" then .ignored
          else if (getString (field (field root "arg") "instId")).any fun instrument =>
              instrument ≠ config.symbol then .ignored
          else
            match getArray (field root "data") with
            | none => .malformed
            | some data => .entries isSnapshot data

structure Batch where
  staging : List FeedUpdate := []
  nextSeqId : Int
  nextHasSeq : Bool
deriving DecidableEq

def seqIdOf (entry : Json) : Option Int := getI64 (field entry "seqId")
def prevSeqIdOf (entry : Json) : Option Int := getI64 (field entry "prevSeqId")
def bidsOf (entry : Json) : Option (List Level) := parseLevelArray (field entry "bids")
def asksOf (entry : Json) : Option (List Level) := parseLevelArray (field entry "asks")

def entryUpdate (isSnapshot : Bool) (recvTsNs : Int) (entry : Json) (bids asks : List Level)
    (seq : SeqRange) : FeedUpdate :=
  { isSnapshot := isSnapshot
    bids := bids
    asks := asks
    exchangeTsNs := ((getI64 (field entry "ts")).map msToNs).getD 0
    recvTsNs := recvTsNs
    seq := seq }

/-- A snapshot's `prevSeqId` is not read. -/
def entrySeq (isSnapshot : Bool) (entry : Json) (seqId : Int) : SeqRange :=
  ⟨if isSnapshot then seqId else (prevSeqIdOf entry).getD seqId, seqId⟩

def onEntry (isSnapshot synced : Bool) (recvTsNs : Int) (b : Batch) (entry : Json) :
    Except FrameVerdict Batch :=
  match seqIdOf entry with
  | none => .error .kParseError
  | some seqId =>
    if isSnapshot = false ∧ prevSeqIdOf entry = none then .error .kParseError
    else if isSnapshot = false ∧ (synced = false ∨ b.nextHasSeq = false) then
      .error .kNeedsResync
    -- Continuity comes before the no-change shortcut.
    else if isSnapshot = false ∧ prevSeqIdOf entry ≠ some b.nextSeqId then .error .kNeedsResync
    else if isSnapshot = false ∧ prevSeqIdOf entry = some seqId then .ok b
    else
      match bidsOf entry, asksOf entry with
      | some bids, some asks =>
        let update :=
          entryUpdate isSnapshot recvTsNs entry bids asks (entrySeq isSnapshot entry seqId)
        .ok ⟨b.staging ++ [update], seqId, true⟩
      | _, _ => .error .kParseError

theorem onEntry_ok {isSnapshot synced : Bool} {recvTsNs : Int} {b next : Batch} {entry : Json}
    (h : onEntry isSnapshot synced recvTsNs b entry = .ok next) :
    ∃ seqId, seqIdOf entry = some seqId ∧
      (isSnapshot = false → synced = true ∧ b.nextHasSeq = true ∧
        prevSeqIdOf entry = some b.nextSeqId) ∧
      ((isSnapshot = false ∧ seqId = b.nextSeqId ∧ next = b) ∨
        (isSnapshot = false → seqId ≠ b.nextSeqId) ∧
          ∃ bids asks, bidsOf entry = some bids ∧ asksOf entry = some asks ∧
            next = ⟨b.staging ++ [entryUpdate isSnapshot recvTsNs entry bids asks
              (entrySeq isSnapshot entry seqId)], seqId, true⟩) := by
  unfold onEntry at h
  split at h
  · cases h
  rename_i seqId hseq
  split_ifs at h with hmissing hstart hgap hsame
  · -- The no-change shortcut.
    cases h
    have hprev := not_not.mp fun hne => hgap ⟨hsame.1, hne⟩
    refine ⟨seqId, hseq, fun hdelta => ?_, Or.inl ⟨hsame.1, ?_, rfl⟩⟩
    · simp only [hdelta, true_and, not_or, Bool.not_eq_false] at hstart
      exact ⟨hstart.1, hstart.2, hprev⟩
    · exact Option.some.inj (hsame.2.symm.trans hprev)
  · split at h
    · rename_i bids asks hbids hasks
      cases h
      have hcont : isSnapshot = false → prevSeqIdOf entry = some b.nextSeqId :=
        fun hdelta => not_not.mp fun hne => hgap ⟨hdelta, hne⟩
      refine ⟨seqId, hseq, fun hdelta => ?_,
        Or.inr ⟨fun hdelta he => ?_, bids, asks, hbids, hasks, rfl⟩⟩
      · simp only [hdelta, true_and, not_or, Bool.not_eq_false] at hstart
        exact ⟨hstart.1, hstart.2, hcont hdelta⟩
      · exact hsame ⟨hdelta, he ▸ hcont hdelta⟩
    · cases h

def onEntries (isSnapshot synced : Bool) (recvTsNs : Int) :
    Batch → List Json → Batch × Option FrameVerdict
  | b, [] => (b, none)
  | b, entry :: entries =>
    match onEntry isSnapshot synced recvTsNs b entry with
    | .error verdict => (b, some verdict)
    | .ok next => onEntries isSnapshot synced recvTsNs next entries

theorem onEntry_error {isSnapshot synced : Bool} {recvTsNs : Int} {b : Batch} {entry : Json}
    {verdict : FrameVerdict} (h : onEntry isSnapshot synced recvTsNs b entry = .error verdict) :
    verdict = .kParseError ∨ verdict = .kNeedsResync := by
  unfold onEntry at h
  split at h
  · cases h
    exact Or.inl rfl
  split_ifs at h
  · cases h
    exact Or.inl rfl
  · cases h
    exact Or.inr rfl
  · cases h
    exact Or.inr rfl
  · split at h
    · cases h
    · cases h
      exact Or.inl rfl

theorem onEntries_cons_ok {isSnapshot synced : Bool} {recvTsNs : Int} {b next : Batch}
    {entry : Json} {data : List Json}
    (h : onEntries isSnapshot synced recvTsNs b (entry :: data) = (next, none)) :
    ∃ b', onEntry isSnapshot synced recvTsNs b entry = .ok b' ∧
      onEntries isSnapshot synced recvTsNs b' data = (next, none) := by
  rw [onEntries] at h
  cases hstep : onEntry isSnapshot synced recvTsNs b entry with
  | error verdict =>
    rw [hstep] at h
    cases h
  | ok b' =>
    rw [hstep] at h
    exact ⟨b', rfl, h⟩

theorem onEntries_error {isSnapshot synced : Bool} {recvTsNs : Int} {b next : Batch}
    {data : List Json} {verdict : FrameVerdict}
    (h : onEntries isSnapshot synced recvTsNs b data = (next, some verdict)) :
    verdict = .kParseError ∨ verdict = .kNeedsResync := by
  induction data generalizing b with
  | nil => cases h
  | cons entry data ih =>
    rw [onEntries] at h
    cases hstep : onEntry isSnapshot synced recvTsNs b entry with
    | error v =>
      rw [hstep] at h
      cases h
      exact onEntry_error hstep
    | ok b' =>
      rw [hstep] at h
      exact ih h

def onFrame (s : State) (frame : Bytes) (recvTsNs : Int) (out : List FeedUpdate) : Called State :=
  match readFrame parse config frame with
  | .malformed => ⟨.kParseError, s, out⟩
  | .ignored => ⟨.kOk, s, out⟩
  | .rejected reason => ⟨.kFatal, { s with fatalReason := reason }, out⟩
  | .entries isSnapshot data =>
    match onEntries isSnapshot s.synced recvTsNs ⟨[], s.lastSeqId, s.hasSeq⟩ data with
    | (b, some verdict) => ⟨verdict, { s with staging := b.staging }, out⟩
    | (b, none) =>
      ⟨.kOk,
        { s with
          staging := []
          lastSeqId := b.nextSeqId
          hasSeq := b.nextHasSeq
          synced := isSnapshot || s.synced },
        out ++ b.staging⟩

theorem onFrame_ok {s : State} {frame : Bytes} {recvTsNs : Int} {out : List FeedUpdate}
    (h : (onFrame parse config s frame recvTsNs out).verdict = .kOk) :
    onFrame parse config s frame recvTsNs out = ⟨.kOk, s, out⟩ ∨
      ∃ isSnapshot data b, readFrame parse config frame = .entries isSnapshot data ∧
        onEntries isSnapshot s.synced recvTsNs ⟨[], s.lastSeqId, s.hasSeq⟩ data = (b, none) ∧
        onFrame parse config s frame recvTsNs out =
          ⟨.kOk, { s with
            staging := []
            lastSeqId := b.nextSeqId
            hasSeq := b.nextHasSeq
            synced := isSnapshot || s.synced }, out ++ b.staging⟩ := by
  unfold onFrame at h ⊢
  cases hread : readFrame parse config frame with
  | ignored => exact Or.inl rfl
  | malformed => simp [hread] at h
  | rejected reason => simp [hread] at h
  | entries isSnapshot data =>
    simp only [hread] at h ⊢
    rcases hloop : onEntries isSnapshot s.synced recvTsNs ⟨[], s.lastSeqId, s.hasSeq⟩ data with
      ⟨b, _ | verdict⟩
    · exact Or.inr ⟨isSnapshot, data, b, rfl, hloop, rfl⟩
    · rw [hloop] at h
      rcases onEntries_error hloop with hverdict | hverdict <;> simp [hverdict] at h

def protocol : VenueProtocol State where
  name := "okx"
  venueSymbol := config.symbol
  streamUrl := config.streamUrl
  subscribeFrames := subscribeFrames config
  keepaliveFrame := "ping"
  keepaliveIntervalSeconds := 20
  synced := State.synced
  onFrame := onFrame parse config
  reset := reset
  fatalReason := State.fatalReason

end Calls

end Okx
end CexAggregator
