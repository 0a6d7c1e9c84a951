import CexAggregator.BinanceArithmetic
import CexAggregator.Sequencing

/-!
# The arithmetic of the three adapters

In a run of any adapter all arithmetic stays within `int64` exactly if every call of the run
keeps its numbers in range: the milliseconds it turns into nanoseconds, and the position it
goes on from.
-/

namespace CexAggregator
open Json
open Computed (exact_op exact_pure exact_bind value_op value_pure value_bind value_ite exact_ite)

namespace Okx
variable {parse : JsonParser} {config : Config}

def onEntryOps (isSnapshot synced : Bool) (recvTsNs : Int) (b : Batch) (entry : Json) :
    Computed (Except FrameVerdict Batch) :=
  match seqIdOf entry with
  | none => pure (.error .kParseError)
  | some seqId =>
    if isSnapshot = false ∧ prevSeqIdOf entry = none then pure (.error .kParseError)
    else if isSnapshot = false ∧ (synced = false ∨ b.nextHasSeq = false) then
      pure (.error .kNeedsResync)
    else if isSnapshot = false ∧ prevSeqIdOf entry ≠ some b.nextSeqId then
      pure (.error .kNeedsResync)
    else if isSnapshot = false ∧ prevSeqIdOf entry = some seqId then pure (.ok b)
    else do
      let exchangeTsNs ← timestampOps (getI64 (field entry "ts"))
      pure (match bidsOf entry, asksOf entry with
        | some bids, some asks =>
          let update : FeedUpdate :=
            { isSnapshot := isSnapshot
              bids := bids
              asks := asks
              exchangeTsNs := exchangeTsNs
              recvTsNs := recvTsNs
              seq := entrySeq isSnapshot entry seqId }
          .ok ⟨b.staging ++ [update], seqId, true⟩
        | _, _ => .error .kParseError)

def onEntriesOps (isSnapshot synced : Bool) (recvTsNs : Int) :
    Batch → List Json → Computed (Batch × Option FrameVerdict)
  | b, [] => pure (b, none)
  | b, entry :: entries => do
    match ← onEntryOps isSnapshot synced recvTsNs b entry with
    | .error verdict => pure (b, some verdict)
    | .ok next => onEntriesOps isSnapshot synced recvTsNs next entries

variable (parse config) in
def onFrameOps (s : State) (frame : Bytes) (recvTsNs : Int) (out : List FeedUpdate) :
    Computed (Called State) :=
  match readFrame parse config frame with
  | .malformed => pure ⟨.kParseError, s, out⟩
  | .ignored => pure ⟨.kOk, s, out⟩
  | .rejected reason => pure ⟨.kFatal, { s with fatalReason := reason }, out⟩
  | .entries isSnapshot data => do
    let looped ← onEntriesOps isSnapshot s.synced recvTsNs ⟨[], s.lastSeqId, s.hasSeq⟩ data
    pure (match looped with
      | (b, some verdict) => ⟨verdict, { s with staging := b.staging }, out⟩
      | (b, none) =>
        ⟨.kOk,
          { s with
            staging := []
            lastSeqId := b.nextSeqId
            hasSeq := b.nextHasSeq
            synced := isSnapshot || s.synced },
          out ++ b.staging⟩)

theorem onEntryOps_value (isSnapshot synced : Bool) (recvTsNs : Int) (b : Batch) (entry : Json) :
    (onEntryOps isSnapshot synced recvTsNs b entry).value =
      onEntry isSnapshot synced recvTsNs b entry := by
  unfold onEntryOps onEntry
  cases seqIdOf entry with
  | none => rfl
  | some seqId =>
    simp only [value_ite, value_pure, value_bind, timestampOps_value]
    rfl

theorem onEntriesOps_value (isSnapshot synced : Bool) (recvTsNs : Int) (b : Batch)
    (data : List Json) :
    (onEntriesOps isSnapshot synced recvTsNs b data).value =
      onEntries isSnapshot synced recvTsNs b data := by
  induction data generalizing b with
  | nil => rfl
  | cons entry data ih =>
    rw [onEntriesOps, onEntries, value_bind, onEntryOps_value]
    cases onEntry isSnapshot synced recvTsNs b entry with
    | error verdict => rfl
    | ok next => exact ih next

/-- The entries whose timestamp is read: those that continue the sequence with a change. -/
def Staged (isSnapshot synced : Bool) (b : Batch) (entry : Json) : Prop :=
  ∃ seqId, seqIdOf entry = some seqId ∧ (isSnapshot = false →
    synced = true ∧ b.nextHasSeq = true ∧ prevSeqIdOf entry = some b.nextSeqId ∧
      seqId ≠ b.nextSeqId)

variable (parse config) in
def FrameFits (s : State) (frame : Bytes) (recvTsNs : Int) : Prop :=
  ∀ isSnapshot data, readFrame parse config frame = .entries isSnapshot data →
    ∀ before entry behind b, data = before ++ entry :: behind →
      onEntries isSnapshot s.synced recvTsNs ⟨[], s.lastSeqId, s.hasSeq⟩ before = (b, none) →
      Staged isSnapshot s.synced b entry → TimestampFits (getI64 (field entry "ts"))

theorem onEntryOps_exact (isSnapshot synced : Bool) (recvTsNs : Int) (b : Batch) (entry : Json) :
    (onEntryOps isSnapshot synced recvTsNs b entry).Exact ↔
      (Staged isSnapshot synced b entry → TimestampFits (getI64 (field entry "ts"))) := by
  unfold onEntryOps Staged
  cases hseq : seqIdOf entry with
  | none => simp
  | some seqId =>
    simp only [Option.some.injEq, exists_eq_left']
    cases isSnapshot with
    | true => simp [timestampOps_exact]
    | false =>
      simp only [true_and, true_implies]
      split_ifs with hmissing hstart hgap hsame
      · simp [hmissing]
      · refine iff_of_true (exact_pure _) ?_
        rintro ⟨hsynced, hhas, -⟩
        rcases hstart with hstart | hstart
        · exact (Bool.false_ne_true (hstart.symm.trans hsynced)).elim
        · exact (Bool.false_ne_true (hstart.symm.trans hhas)).elim
      · refine iff_of_true (exact_pure _) ?_
        rintro ⟨-, -, hprev, -⟩
        exact (hgap hprev).elim
      · refine iff_of_true (exact_pure _) ?_
        rintro ⟨-, -, hprev, hne⟩
        exact (hne (Option.some.inj (hsame.symm.trans hprev))).elim
      · have hprev := not_not.mp hgap
        have hne : seqId ≠ b.nextSeqId := by
          rintro rfl
          exact hsame hprev
        simp only [not_or, Bool.not_eq_false] at hstart
        rw [timestampOps_bind_exact]
        exact ⟨fun h _ => h, fun h => h ⟨hstart.1, hstart.2, hprev, hne⟩⟩

theorem onEntriesOps_exact (isSnapshot synced : Bool) (recvTsNs : Int) (b : Batch)
    (data : List Json) :
    (onEntriesOps isSnapshot synced recvTsNs b data).Exact ↔
      ∀ before entry behind b', data = before ++ entry :: behind →
        onEntries isSnapshot synced recvTsNs b before = (b', none) →
        Staged isSnapshot synced b' entry → TimestampFits (getI64 (field entry "ts")) := by
  induction data generalizing b with
  | nil => simp [onEntriesOps]
  | cons entry data ih =>
    have hrest : (match onEntry isSnapshot synced recvTsNs b entry with
        | .error verdict => pure (b, some verdict)
        | .ok next => onEntriesOps isSnapshot synced recvTsNs next data :
          Computed (Batch × Option FrameVerdict)).Exact ↔
        ∀ next, onEntry isSnapshot synced recvTsNs b entry = .ok next →
          (onEntriesOps isSnapshot synced recvTsNs next data).Exact := by
      cases onEntry isSnapshot synced recvTsNs b entry with
      | error verdict => simp
      | ok next => simp
    rw [onEntriesOps, exact_bind, onEntryOps_exact, onEntryOps_value, hrest]
    constructor
    · rintro ⟨hhead, htail⟩ before entry' behind b' hsplit hbefore hstaged
      cases before with
      | nil =>
        obtain ⟨rfl, rfl⟩ := List.cons.inj hsplit
        cases hbefore
        exact hhead hstaged
      | cons first before =>
        obtain ⟨rfl, rfl⟩ := List.cons.inj hsplit
        obtain ⟨next, hnext, hrun⟩ := onEntries_cons_ok hbefore
        exact (ih next).mp (htail next hnext) before entry' behind b' rfl hrun hstaged
    · intro hall
      refine ⟨hall [] entry data b rfl rfl, ?_⟩
      intro next hnext
      refine (ih next).mpr ?_
      rintro before entry' behind b' rfl hrun
      refine hall (entry :: before) entry' behind b' rfl ?_
      rw [onEntries, hnext]
      exact hrun

theorem onFrameOps_value (s : State) (frame : Bytes) (recvTsNs : Int) (out : List FeedUpdate) :
    (onFrameOps parse config s frame recvTsNs out).value =
      onFrame parse config s frame recvTsNs out := by
  unfold onFrameOps onFrame
  cases readFrame parse config frame with
  | ignored => rfl
  | malformed => rfl
  | rejected reason => rfl
  | entries isSnapshot data =>
    rewrite [value_bind, onEntriesOps_value]
    rfl

theorem onFrameOps_exact (s : State) (frame : Bytes) (recvTsNs : Int) (out : List FeedUpdate) :
    (onFrameOps parse config s frame recvTsNs out).Exact ↔
      FrameFits parse config s frame recvTsNs := by
  unfold onFrameOps FrameFits
  cases readFrame parse config frame with
  | ignored => simp
  | malformed => simp
  | rejected reason => simp
  | entries isSnapshot data =>
    have hloop := onEntriesOps_exact isSnapshot s.synced recvTsNs ⟨[], s.lastSeqId, s.hasSeq⟩ data
    constructor
    · intro hexact isSnapshot' data' hread
      cases hread
      exact hloop.mp ((exact_bind _ _).mp hexact).1
    · intro hfits
      exact (exact_bind _ _).mpr ⟨hloop.mpr (hfits isSnapshot data rfl), exact_pure _⟩

variable (parse config) in
def callOps (s : State) : ProtocolCall → Computed (Called State)
  | .frame bytes recvTsNs => onFrameOps parse config s bytes recvTsNs []
  | .restSnapshot _ _ => pure ⟨.kOk, s, []⟩
  | .reset => pure ⟨.kOk, reset s, []⟩

variable (parse config) in
def CallFits (s : State) : ProtocolCall → Prop
  | .frame bytes recvTsNs => FrameFits parse config s bytes recvTsNs
  | .restSnapshot _ _ => True
  | .reset => True

theorem callOps_value (s : State) (c : ProtocolCall) :
    (callOps parse config s c).value = (protocol parse config).call s c := by
  cases c with
  | frame bytes recvTsNs => exact onFrameOps_value ..
  | restSnapshot body recvTsNs => rfl
  | reset => rfl

theorem callOps_exact (s : State) (c : ProtocolCall) :
    (callOps parse config s c).Exact ↔ CallFits parse config s c := by
  cases c with
  | frame bytes recvTsNs => exact onFrameOps_exact ..
  | restSnapshot body recvTsNs => exact iff_of_true (exact_pure _) trivial
  | reset => exact iff_of_true (exact_pure _) trivial

end Okx

namespace Bybit
variable {parse : JsonParser} {config : Config}

def gapOps (s : State) (isSnapshot : Bool) (updateId : Int) : Computed Bool :=
  if isSnapshot = false then do
    let next ← Computed.int64 (s.lastUpdateId + 1)
    pure (decide (updateId ≠ next))
  else pure false

def onBookOps (s : State) (isSnapshot : Bool) (updateId : Int) (root data : Json) (recvTsNs : Int)
    (out : List FeedUpdate) : Computed (Called State) :=
  if isSnapshot = false ∧ s.synced = false then pure ⟨.kNeedsResync, s, out⟩
  else do
    let gap ← gapOps s isSnapshot updateId
    if gap then pure ⟨.kNeedsResync, s, out⟩
    else do
      let exchangeTsNs ← timestampOps (getI64 (field root "ts"))
      pure (match bidsOf data, asksOf data with
        | some bids, some asks =>
          let update : FeedUpdate :=
            { isSnapshot := isSnapshot
              bids := bids
              asks := asks
              exchangeTsNs := exchangeTsNs
              recvTsNs := recvTsNs
              seq := ⟨updateId, updateId⟩ }
          ⟨.kOk, { s with lastUpdateId := updateId, synced := isSnapshot || s.synced },
            out ++ [update]⟩
        | _, _ => ⟨.kParseError, s, out⟩)

variable (parse config) in
def onFrameOps (s : State) (frame : Bytes) (recvTsNs : Int) (out : List FeedUpdate) :
    Computed (Called State) :=
  match readFrame parse config frame with
  | .malformed => pure ⟨.kParseError, s, out⟩
  | .ignored => pure ⟨.kOk, s, out⟩
  | .rejected reason => pure ⟨.kFatal, { s with fatalReason := reason }, out⟩
  | .book isSnapshot updateId root data =>
    onBookOps s isSnapshot updateId root data recvTsNs out

variable (parse config) in
structure FrameFits (s : State) (frame : Bytes) : Prop where
  position : ∀ id root data, readFrame parse config frame = .book false id root data →
    s.synced = true → s.lastUpdateId ≠ int64Max
  timestamp : ∀ isSnapshot id root data,
    readFrame parse config frame = .book isSnapshot id root data →
    (isSnapshot = false → s.synced = true ∧ id = s.lastUpdateId + 1) →
    TimestampFits (getI64 (field root "ts"))

theorem gapOps_value (s : State) (isSnapshot : Bool) (updateId : Int) :
    (gapOps s isSnapshot updateId).value =
      decide (isSnapshot = false ∧ updateId ≠ s.lastUpdateId + 1) := by
  cases isSnapshot with
  | true => rfl
  | false => simp only [gapOps, if_true, value_op, value_pure, true_and]

theorem onBookOps_value (s : State) (isSnapshot : Bool) (updateId : Int) (root data : Json)
    (recvTsNs : Int) (out : List FeedUpdate) :
    (onBookOps s isSnapshot updateId root data recvTsNs out).value =
      onBook s isSnapshot updateId root data recvTsNs out := by
  simp only [onBookOps, onBook, value_ite, value_bind, value_pure, gapOps_value,
    timestampOps_value, decide_eq_true_eq]
  rfl

theorem gapOps_exact {s : State} (hs : FitsInt64 s.lastUpdateId) (isSnapshot : Bool)
    (updateId : Int) : (gapOps s isSnapshot updateId).Exact ↔
      (isSnapshot = false → s.lastUpdateId ≠ int64Max) := by
  cases isSnapshot with
  | true => simp [gapOps]
  | false =>
    simp only [gapOps, if_true, exact_op, fitsWidth_64, fits_succ hs, exact_pure, and_true,
      true_implies]

theorem onBookOps_exact {s : State} (hs : FitsInt64 s.lastUpdateId) (isSnapshot : Bool)
    (updateId : Int) (root data : Json) (recvTsNs : Int) (out : List FeedUpdate) :
    (onBookOps s isSnapshot updateId root data recvTsNs out).Exact ↔
      (isSnapshot = false → s.synced = true → s.lastUpdateId ≠ int64Max) ∧
        ((isSnapshot = false → s.synced = true ∧ updateId = s.lastUpdateId + 1) →
          TimestampFits (getI64 (field root "ts"))) := by
  simp only [onBookOps, exact_ite, exact_bind, gapOps_exact hs, gapOps_value, exact_pure,
    timestampOps_exact, and_true, decide_eq_true_eq]
  cases isSnapshot with
  | true => simp
  | false =>
    cases s.synced with
    | false => simp
    | true =>
      by_cases hnext : updateId = s.lastUpdateId + 1
      · simp [hnext]
      · simp [hnext]

theorem onFrameOps_value (s : State) (frame : Bytes) (recvTsNs : Int) (out : List FeedUpdate) :
    (onFrameOps parse config s frame recvTsNs out).value =
      onFrame parse config s frame recvTsNs out := by
  unfold onFrameOps onFrame
  cases readFrame parse config frame with
  | ignored => rfl
  | malformed => rfl
  | rejected reason => rfl
  | book isSnapshot updateId root data => exact onBookOps_value ..

theorem onFrameOps_exact {s : State} (hs : FitsInt64 s.lastUpdateId) (frame : Bytes)
    (recvTsNs : Int) (out : List FeedUpdate) :
    (onFrameOps parse config s frame recvTsNs out).Exact ↔ FrameFits parse config s frame := by
  unfold onFrameOps
  cases hread : readFrame parse config frame with
  | ignored => exact iff_of_true (exact_pure _) ⟨by simp [hread], by simp [hread]⟩
  | malformed => exact iff_of_true (exact_pure _) ⟨by simp [hread], by simp [hread]⟩
  | rejected reason => exact iff_of_true (exact_pure _) ⟨by simp [hread], by simp [hread]⟩
  | book isSnapshot updateId root data =>
    rw [onBookOps_exact hs]
    constructor
    · rintro ⟨hposition, htimestamp⟩
      refine ⟨?_, ?_⟩
      · intro id root' data' hread'
        cases hread.symm.trans hread'
        exact hposition rfl
      · intro isSnapshot' id root' data' hread'
        cases hread.symm.trans hread'
        exact htimestamp
    · rintro ⟨hposition, htimestamp⟩
      refine ⟨?_, htimestamp isSnapshot updateId root data hread⟩
      rintro rfl
      exact hposition updateId root data hread

variable (parse config) in
def callOps (s : State) : ProtocolCall → Computed (Called State)
  | .frame bytes recvTsNs => onFrameOps parse config s bytes recvTsNs []
  | .restSnapshot _ _ => pure ⟨.kOk, s, []⟩
  | .reset => pure ⟨.kOk, reset s, []⟩

variable (parse config) in
def CallFits (s : State) : ProtocolCall → Prop
  | .frame bytes _ => FrameFits parse config s bytes
  | .restSnapshot _ _ => True
  | .reset => True

theorem callOps_value (s : State) (c : ProtocolCall) :
    (callOps parse config s c).value = (protocol parse config).call s c := by
  cases c with
  | frame bytes recvTsNs => exact onFrameOps_value ..
  | restSnapshot body recvTsNs => rfl
  | reset => rfl

theorem callOps_exact {s : State} (hs : FitsInt64 s.lastUpdateId) (c : ProtocolCall) :
    (callOps parse config s c).Exact ↔ CallFits parse config s c := by
  cases c with
  | frame bytes recvTsNs => exact onFrameOps_exact hs ..
  | restSnapshot body recvTsNs => exact iff_of_true (exact_pure _) trivial
  | reset => exact iff_of_true (exact_pure _) trivial

theorem readFrame_fits {frame : Bytes} {isSnapshot : Bool} {id : Int} {root data : Json}
    (h : readFrame parse config frame = .book isSnapshot id root data) : FitsInt64 id := by
  unfold readFrame at h
  split at h
  · cases h
  split at h
  · split_ifs at h
  split_ifs at h
  split at h
  · cases h
  simp only at h
  split_ifs at h
  split at h
  · cases h
  split at h
  · cases h
  · rename_i hid
    cases h
    exact getI64_fits hid

theorem call_fits {s : State} (hs : FitsInt64 s.lastUpdateId) (c : ProtocolCall) :
    FitsInt64 ((protocol parse config).call s c).protocol.lastUpdateId := by
  cases c with
  | frame bytes recvTsNs =>
    simp only [VenueProtocol.call, protocol, onFrame]
    cases hread : readFrame parse config bytes with
    | malformed => exact hs
    | ignored => exact hs
    | rejected reason => exact hs
    | book isSnapshot updateId root data =>
      dsimp only [onBook]
      split_ifs
      · exact hs
      · exact hs
      · split
        · exact readFrame_fits hread
        · exact hs
  | restSnapshot body recvTsNs => exact hs
  | reset => exact (by decide : FitsInt64 0)

end Bybit

namespace Adapter
variable (parse : JsonParser)

def callOps : (adapter : Adapter) → adapter.State → ProtocolCall →
    Computed (Called adapter.State)
  | binance config => Binance.callOps parse config
  | okx config => Okx.callOps parse config
  | bybit config => Bybit.callOps parse config

def CallFits : (adapter : Adapter) → adapter.State → ProtocolCall → Prop
  | binance config => Binance.CallFits parse config
  | okx config => Okx.CallFits parse config
  | bybit config => Bybit.CallFits parse config

def Stored : (adapter : Adapter) → adapter.State → Prop
  | binance _ => Binance.Stored
  | okx _ => fun _ => True
  | bybit _ => fun s => FitsInt64 (Bybit.State.lastUpdateId s)

variable (adapter : Adapter)

theorem callOps_value (s : adapter.State) (c : ProtocolCall) :
    (adapter.callOps parse s c).value = (adapter.protocol parse).call s c := by
  cases adapter with
  | binance config => exact Binance.callOps_value s c
  | okx config => exact Okx.callOps_value s c
  | bybit config => exact Bybit.callOps_value s c

theorem callOps_exact {s : adapter.State} (hs : adapter.Stored s) (c : ProtocolCall) :
    (adapter.callOps parse s c).Exact ↔ adapter.CallFits parse s c := by
  cases adapter with
  | binance config => exact Binance.callOps_exact hs c
  | okx config => exact Okx.callOps_exact s c
  | bybit config => exact Bybit.callOps_exact hs c

theorem stored_initial : adapter.Stored adapter.initial := by
  cases adapter with
  | binance config => exact Binance.stored_initial
  | okx config => trivial
  | bybit config => exact (by decide : FitsInt64 0)

theorem call_stored {s : adapter.State} (hs : adapter.Stored s) (c : ProtocolCall) :
    adapter.Stored ((adapter.protocol parse).call s c).protocol := by
  cases adapter with
  | binance config => exact Binance.call_stored hs c
  | okx config => trivial
  | bybit config => exact Bybit.call_fits hs c

def runOps (s : adapter.State) : List ProtocolCall → Computed adapter.State
  | [] => pure s
  | c :: calls => do
    let called ← adapter.callOps parse s c
    runOps called.protocol calls

theorem runOps_value (s : adapter.State) (calls : List ProtocolCall) :
    (adapter.runOps parse s calls).value = (adapter.protocol parse).after s calls := by
  induction calls generalizing s with
  | nil => rfl
  | cons c calls ih =>
    rw [runOps, value_bind, callOps_value, ih]
    rfl

theorem runOps_exact {s : adapter.State} (hs : adapter.Stored s) (calls : List ProtocolCall) :
    (adapter.runOps parse s calls).Exact ↔ ∀ before c, before ++ [c] <+: calls →
      adapter.CallFits parse ((adapter.protocol parse).after s before) c := by
  induction calls generalizing s with
  | nil => simp [runOps]
  | cons c calls ih =>
    rw [runOps, exact_bind, callOps_exact parse adapter hs, callOps_value,
      ih (adapter.call_stored parse hs c)]
    constructor
    · rintro ⟨hhead, htail⟩ before c' hprefix
      cases before with
      | nil =>
        obtain ⟨rfl, -⟩ := List.cons_prefix_cons.mp hprefix
        exact hhead
      | cons first before =>
        obtain ⟨rfl, hrest⟩ := List.cons_prefix_cons.mp hprefix
        exact htail before c' hrest
    · intro hall
      refine ⟨hall [] c (List.cons_prefix_cons.mpr ⟨rfl, List.nil_prefix⟩), ?_⟩
      intro before c' hprefix
      exact hall (c :: before) c' (List.cons_prefix_cons.mpr ⟨rfl, hprefix⟩)

/-- From any number of calls on, no operation leaves `int64` exactly while every call fits. -/
theorem adapter_arithmetic (calls : List ProtocolCall) :
    (adapter.runOps parse adapter.initial calls).Exact ↔ ∀ before c, before ++ [c] <+: calls →
      adapter.CallFits parse ((adapter.protocol parse).after adapter.initial before) c :=
  adapter.runOps_exact parse adapter.stored_initial calls

def lastIdText : String :=
  "\x7b\"topic\":\"orderbook.200.BTCUSDT\",\"type\":\"snapshot\"," ++
    "\"data\":\x7b\"u\":9223372036854775807,\"b\":[],\"a\":[]\x7d\x7d"

def wrappedIdText : String :=
  "\x7b\"topic\":\"orderbook.200.BTCUSDT\",\"type\":\"delta\"," ++
    "\"data\":\x7b\"u\":-9223372036854775808,\"b\":[],\"a\":[]\x7d\x7d"

def extremeRoot (type : String) (id : Int64) : Json :=
  .object [("topic", .string "orderbook.200.BTCUSDT"), ("type", .string type),
    ("data", .object [("u", .int64 id), ("b", .array []), ("a", .array [])])]

def extremeParser : JsonParser := parserOf
  [(lastIdText, extremeRoot "snapshot" Int64.maxValue),
    (wrappedIdText, extremeRoot "delta" Int64.minValue)]

theorem bybit_position_overflows :
    ¬ ((Adapter.bybit {}).runOps extremeParser (Adapter.bybit {}).initial
      [.frame (utf8 lastIdText) 0, .frame (utf8 wrappedIdText) 0]).Exact := by
  decide +kernel

end Adapter

end CexAggregator
