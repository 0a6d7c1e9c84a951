import CexAggregator.BinanceSound
import CexAggregator.Computed
import CexAggregator.SequenceText

/-!
# The arithmetic of the Binance adapter

Every number the accessors hand over is a 64-bit one, but its successor or its nanoseconds
need not be. A call stays within `int64` exactly if the timestamp it reads does and it never
goes on from the last number there is.
-/

namespace CexAggregator
open Json
open Computed (exact_op exact_pure exact_bind value_op value_pure value_bind value_ite exact_ite)

theorem getI64_fits {value : Option Json} {v : Int} (h : getI64 value = some v) :
    FitsInt64 v := by
  cases value with
  | none => cases h
  | some element =>
    simp only [getI64] at h
    cases hint : element.getInt64 with
    | some w =>
      rw [hint] at h
      obtain rfl := Option.some.inj h
      cases element with
      | int64 x =>
        obtain rfl := Option.some.inj hint
        have hlow := x.le_toInt
        have hhigh := x.toInt_lt
        unfold FitsInt64 int64Min int64Max
        omega
      | uint64 x =>
        obtain ⟨hle, hw⟩ := Option.ite_none_right_eq_some.mp hint
        obtain rfl := Option.some.inj hw
        unfold FitsInt64 int64Min
        omega
      | null => cases hint
      | bool b => cases hint
      | double bits => cases hint
      | string text => cases hint
      | array elements => cases hint
      | object fields => cases hint
    | none =>
      rw [hint] at h
      obtain ⟨text, -, hparse⟩ := Option.bind_eq_some_iff.mp h
      obtain ⟨l, hl⟩ := exists_sequenceLiteral hparse
      rw [← hl, parseI64_text] at hparse
      obtain ⟨hfits, hv⟩ := Option.ite_none_right_eq_some.mp hparse
      rwa [← Option.some.inj hv]

theorem fits_succ {v : Int} (h : FitsInt64 v) : FitsInt64 (v + 1) ↔ v ≠ int64Max := by
  unfold FitsInt64 int64Min int64Max at *
  omega

def timestampOps (ms : Option Int) : Computed Int :=
  match ms with
  | none => pure 0
  | some ms => Computed.int64 (msToNs ms)

def TimestampFits (ms : Option Int) : Prop := ∀ m ∈ ms, FitsInt64 (msToNs m)

theorem timestampOps_value (ms : Option Int) :
    (timestampOps ms).value = (ms.map msToNs).getD 0 := by
  cases ms with
  | none => rfl
  | some m => rfl

theorem timestampOps_exact (ms : Option Int) : (timestampOps ms).Exact ↔ TimestampFits ms := by
  cases ms with
  | none => simp [timestampOps, TimestampFits]
  | some m => simp [timestampOps, TimestampFits]

theorem timestampOps_bind_exact {α : Type} (ms : Option Int) (answer : Int → α) :
    (timestampOps ms >>= fun ns => pure (answer ns)).Exact ↔ TimestampFits ms := by
  rw [exact_bind, timestampOps_exact]
  exact and_iff_left (exact_pure _)

namespace Binance

def parseDepthEventOps (root : Option Json) : Computed (Option PendingEvent) := do
  let exchangeTsNs ← timestampOps (getI64 (field root "E"))
  pure do
    let firstId ← getI64 (field root "U")
    let finalId ← getI64 (field root "u")
    let bids ← parseLevelArray (field root "b")
    let asks ← parseLevelArray (field root "a")
    some ⟨firstId, finalId, exchangeTsNs, bids, asks⟩

section Calls
variable (parse : JsonParser) (config : Config)

def readFrameOps (frame : Bytes) : Computed Frame :=
  match parse frame with
  | none => pure .malformed
  | some root =>
    match getString (field root "e") with
    | none => pure .ignored
    | some eventType =>
      if eventType ≠ "depthUpdate" then pure .ignored
      else if (getString (field root "s")).any fun symbol => symbol ≠ config.symbol then
        pure .ignored
      else do
        let event ← parseDepthEventOps root
        pure (event.elim .malformed .event)

def onEventOps (s : State) (e : PendingEvent) (recvTsNs : Int) (out : List FeedUpdate) :
    Computed (Called State) :=
  if s.synced = false then
    if config.maxBufferedEvents ≤ s.buffered.length then
      pure ⟨.kNeedsResync, { s with buffered := [] }, out⟩
    else pure ⟨.kOk, { s with buffered := s.buffered ++ [e] }, out⟩
  else do
    let next ← Computed.int64 (s.lastUpdateId + 1)
    if e.firstId ≠ next then pure ⟨.kNeedsResync, s, out⟩
    else pure ⟨.kOk, { s with lastUpdateId := e.finalId }, out ++ [e.update recvTsNs]⟩

def onFrameOps (s : State) (frame : Bytes) (recvTsNs : Int) (out : List FeedUpdate) :
    Computed (Called State) := do
  match ← readFrameOps parse config frame with
  | .malformed => pure ⟨.kParseError, s, out⟩
  | .ignored => pure ⟨.kOk, s, out⟩
  | .event e => onEventOps config s e recvTsNs out

def replayBufferedOps (recvTsNs : Int) (staging : List FeedUpdate) (appliedThrough : Int)
    (first : Bool) : List PendingEvent → Computed (List FeedUpdate × Int × Bool)
  | [] => pure (staging, appliedThrough, true)
  | e :: events =>
    if first = false then do
      let next ← Computed.int64 (appliedThrough + 1)
      if e.firstId ≠ next then pure (staging, appliedThrough, false)
      else replayBufferedOps recvTsNs (staging ++ [e.update recvTsNs]) e.finalId false events
    else replayBufferedOps recvTsNs (staging ++ [e.update recvTsNs]) e.finalId false events

def straddlesOps (snapshotId : Int) (e : PendingEvent) : Computed Bool := do
  let next ← Computed.int64 (snapshotId + 1)
  if e.firstId ≤ next then do
    let next ← Computed.int64 (snapshotId + 1)
    pure (decide (next ≤ e.finalId))
  else pure false

def headStraddlesOps (snapshotId : Int) : List PendingEvent → Computed Bool
  | [] => pure true
  | e :: _ => straddlesOps snapshotId e

def reconcileOps (s : State) (snapshotId : Int) (bids asks : List Level) (recvTsNs : Int)
    (out : List FeedUpdate) : Computed (Called State) := do
  let staging := [snapshotUpdate snapshotId bids asks recvTsNs]
  let buffered := survivors snapshotId s.buffered
  let straddled ← headStraddlesOps snapshotId buffered
  if ¬ straddled then pure ⟨.kNeedsResync, { s with staging := staging, buffered := [] }, out⟩
  else do
    let replayed ← replayBufferedOps recvTsNs staging snapshotId true buffered
    if replayed.2.2 then pure ⟨.kOk, ⟨[], [], replayed.2.1, true⟩, out ++ replayed.1⟩
    else pure ⟨.kNeedsResync, { s with staging := replayed.1, buffered := [] }, out⟩

def onRestSnapshotOps (s : State) (body : Bytes) (recvTsNs : Int) (out : List FeedUpdate) :
    Computed (Called State) :=
  match readBody parse body with
  | .malformed => pure ⟨.kParseError, s, out⟩
  | .malformedLevels => pure ⟨.kParseError, { s with staging := [] }, out⟩
  | .snapshot id bids asks => reconcileOps s id bids asks recvTsNs out

variable {parse config}

theorem parseDepthEventOps_value (root : Option Json) :
    (parseDepthEventOps root).value = parseDepthEvent root := by
  simp only [parseDepthEventOps, value_bind, value_pure, timestampOps_value, parseDepthEvent]

theorem readFrameOps_value (frame : Bytes) :
    (readFrameOps parse config frame).value = readFrame parse config frame := by
  unfold readFrameOps readFrame
  cases parse frame with
  | none => rfl
  | some root =>
    dsimp only
    cases getString (field root "e") with
    | none => rfl
    | some eventType =>
      simp only [value_ite, value_pure, value_bind, parseDepthEventOps_value]
      cases parseDepthEvent root with
      | none => rfl
      | some e => rfl

theorem onEventOps_value (s : State) (e : PendingEvent) (recvTsNs : Int)
    (out : List FeedUpdate) :
    (onEventOps config s e recvTsNs out).value = onEvent config s e recvTsNs out := by
  simp only [onEventOps, onEvent, value_ite, value_pure, value_op]

theorem onFrameOps_value (s : State) (frame : Bytes) (recvTsNs : Int) (out : List FeedUpdate) :
    (onFrameOps parse config s frame recvTsNs out).value =
      onFrame parse config s frame recvTsNs out := by
  unfold onFrameOps onFrame
  rw [value_bind, readFrameOps_value]
  cases readFrame parse config frame with
  | ignored => rfl
  | malformed => rfl
  | event e => exact onEventOps_value s e recvTsNs out

theorem replayBufferedOps_value (recvTsNs : Int) (staging : List FeedUpdate)
    (appliedThrough : Int) (first : Bool) (events : List PendingEvent) :
    (replayBufferedOps recvTsNs staging appliedThrough first events).value =
      replayBuffered recvTsNs staging appliedThrough first events := by
  induction events generalizing staging appliedThrough first with
  | nil => rfl
  | cons e events ih =>
    rw [replayBufferedOps, replayBuffered]
    cases first with
    | false => simp only [if_true, true_and, value_op, value_ite, value_pure, ih]
    | true => exact ih ..

theorem straddlesOps_value (snapshotId : Int) (e : PendingEvent) :
    (straddlesOps snapshotId e).value = straddles snapshotId e := by
  simp only [straddlesOps, straddles, value_op, value_ite, value_pure]
  split_ifs with hfirst
  · simp [hfirst]
  · simp [hfirst]

theorem reconcileOps_value (s : State) (snapshotId : Int) (bids asks : List Level)
    (recvTsNs : Int) (out : List FeedUpdate) :
    (reconcileOps s snapshotId bids asks recvTsNs out).value =
      reconcile s snapshotId bids asks recvTsNs out := by
  have hstraddled : (survivors snapshotId s.buffered).head?.any
      (fun e => ¬ straddles snapshotId e) =
        !(headStraddlesOps snapshotId (survivors snapshotId s.buffered)).value := by
    cases survivors snapshotId s.buffered with
    | nil => rfl
    | cons e events => simp [headStraddlesOps, straddlesOps_value]
  simp only [reconcileOps, reconcile, value_bind, value_ite, value_pure, replayBufferedOps_value,
    hstraddled]
  obtain ⟨staged, through, complete⟩ := replayBuffered recvTsNs
    [snapshotUpdate snapshotId bids asks recvTsNs] snapshotId true
    (survivors snapshotId s.buffered)
  cases (headStraddlesOps snapshotId (survivors snapshotId s.buffered)).value with
  | false => rfl
  | true =>
    cases complete with
    | false => rfl
    | true => rfl

theorem onRestSnapshotOps_value (s : State) (body : Bytes) (recvTsNs : Int)
    (out : List FeedUpdate) :
    (onRestSnapshotOps parse s body recvTsNs out).value =
      onRestSnapshot parse s body recvTsNs out := by
  unfold onRestSnapshotOps onRestSnapshot
  cases readBody parse body with
  | malformed => rfl
  | malformedLevels => rfl
  | snapshot id bids asks => exact reconcileOps_value ..

/-- Events that continue from each other, which says nothing about an event's own two ids. -/
def Linked (through : Int) : List PendingEvent → Prop
  | [] => True
  | e :: events => e.firstId = through + 1 ∧ Linked e.finalId events

/-- A snapshot at `id` joins the stream at the first of these events. -/
def Reconciles (id : Int) : List PendingEvent → Prop
  | [] => True
  | e :: events => straddles id e = true ∧ Linked e.finalId events

variable (parse config) in
structure DepthUpdate (frame : Bytes) (root : Json) : Prop where
  parsed : parse frame = some root
  event : getString (field root "e") = some "depthUpdate"
  symbol : ¬ (getString (field root "s")).any fun symbol => symbol ≠ config.symbol

variable (parse config) in
structure FrameFits (s : State) (frame : Bytes) : Prop where
  timestamp : ∀ root, DepthUpdate parse config frame root → TimestampFits (getI64 (field root "E"))
  position : ∀ e, readFrame parse config frame = .event e → s.synced = true →
    s.lastUpdateId ≠ int64Max

variable (parse) in
/-- No event the replay goes on from ends at the last number there is. -/
def BodyFits (s : State) (body : Bytes) : Prop :=
  ∀ id bids asks, readBody parse body = .snapshot id bids asks →
    ∀ before a b behind, survivors id s.buffered = before ++ a :: b :: behind →
      Reconciles id (before ++ [a]) → a.finalId ≠ int64Max

structure Stored (s : State) : Prop where
  position : FitsInt64 s.lastUpdateId
  buffered : ∀ e ∈ s.buffered, FitsInt64 e.finalId

theorem readFrameOps_exact (frame : Bytes) : (readFrameOps parse config frame).Exact ↔
    ∀ root, DepthUpdate parse config frame root → TimestampFits (getI64 (field root "E")) := by
  unfold readFrameOps
  cases hparse : parse frame with
  | none =>
    refine iff_of_true (exact_pure _) ?_
    intro root hroot
    cases hparse.symm.trans hroot.parsed
  | some root =>
    have hroot : ∀ root', DepthUpdate parse config frame root' → root' = root := by
      intro root' h
      exact Option.some.inj (h.parsed.symm.trans hparse)
    dsimp only
    cases hevent : getString (field root "e") with
    | none =>
      refine iff_of_true (exact_pure _) ?_
      intro root' h
      cases hevent.symm.trans (hroot root' h ▸ h.event)
    | some eventType =>
      dsimp only
      split_ifs with htype hsymbol
      · refine iff_of_true (exact_pure _) ?_
        intro root' h
        exact (htype (Option.some.inj (hevent.symm.trans (hroot root' h ▸ h.event)))).elim
      · refine iff_of_true (exact_pure _) ?_
        intro root' h
        exact (h.symbol (hroot root' h ▸ hsymbol)).elim
      · have hdepth : DepthUpdate parse config frame root :=
          ⟨hparse, hevent.trans (congrArg some (not_not.mp htype)), hsymbol⟩
        have hexact : (do
            let event ← parseDepthEventOps (some root)
            pure (event.elim Frame.malformed Frame.event) : Computed Frame).Exact ↔
              TimestampFits (getI64 (field root "E")) := by
          simp only [exact_bind, parseDepthEventOps, timestampOps_exact, exact_pure, and_true]
        rw [hexact]
        constructor
        · intro hfits root' h
          rwa [hroot root' h]
        · intro hall
          exact hall root hdepth

theorem onEventOps_exact {s : State} (hs : Stored s) (e : PendingEvent) (recvTsNs : Int)
    (out : List FeedUpdate) : (onEventOps config s e recvTsNs out).Exact ↔
      (s.synced = true → s.lastUpdateId ≠ int64Max) := by
  unfold onEventOps
  by_cases hsynced : s.synced = false
  · rw [if_pos hsynced]
    refine iff_of_true (Computed.exact_ite_pure _ _ _) ?_
    intro h
    cases hsynced.symm.trans h
  · rw [if_neg hsynced, exact_op, fitsWidth_64, fits_succ hs.position]
    constructor
    · rintro ⟨hposition, -⟩ -
      exact hposition
    · intro hposition
      exact ⟨hposition (eq_true_of_ne_false hsynced), Computed.exact_ite_pure _ _ _⟩

theorem onFrameOps_exact {s : State} (hs : Stored s) (frame : Bytes) (recvTsNs : Int)
    (out : List FeedUpdate) :
    (onFrameOps parse config s frame recvTsNs out).Exact ↔ FrameFits parse config s frame := by
  have hcall : (match readFrame parse config frame with
      | .malformed => pure ⟨.kParseError, s, out⟩
      | .ignored => pure ⟨.kOk, s, out⟩
      | .event e => onEventOps config s e recvTsNs out : Computed (Called State)).Exact ↔
      ∀ e, readFrame parse config frame = .event e → s.synced = true →
        s.lastUpdateId ≠ int64Max := by
    cases readFrame parse config frame with
    | ignored => simp
    | malformed => simp
    | event e => simp [onEventOps_exact hs]
  unfold onFrameOps
  rw [exact_bind, readFrameOps_exact, readFrameOps_value]
  constructor
  · rintro ⟨htimestamp, hposition⟩
    exact ⟨htimestamp, hcall.mp hposition⟩
  · rintro ⟨htimestamp, hposition⟩
    exact ⟨htimestamp, hcall.mpr hposition⟩

theorem forall_split_cons {α : Type*} {R : List α → Prop} {S : α → Prop} {e : α} {es : List α} :
    (∀ before a b behind, e :: es = before ++ a :: b :: behind → R (before ++ [a]) → S a) ↔
      (R [e] → es ≠ [] → S e) ∧
        ∀ before a b behind, es = before ++ a :: b :: behind → R (e :: (before ++ [a])) → S a := by
  constructor
  · intro hall
    refine ⟨?_, ?_⟩
    · intro hR hne
      obtain ⟨b, behind, rfl⟩ := List.exists_cons_of_ne_nil hne
      exact hall [] e b behind rfl hR
    · rintro before a b behind rfl hR
      exact hall (e :: before) a b behind rfl hR
  · rintro ⟨hhead, htail⟩ before a b behind hsplit hR
    cases before with
    | nil =>
      obtain ⟨rfl, rfl⟩ := List.cons.inj hsplit
      exact hhead hR (List.cons_ne_nil _ _)
    | cons e' before =>
      obtain ⟨rfl, rfl⟩ := List.cons.inj hsplit
      exact htail before a b behind rfl hR

theorem replayBufferedOps_exact (recvTsNs : Int) {events : List PendingEvent}
    (hevents : ∀ e ∈ events, FitsInt64 e.finalId) {appliedThrough : Int}
    (hthrough : FitsInt64 appliedThrough) (staging : List FeedUpdate) :
    (replayBufferedOps recvTsNs staging appliedThrough false events).Exact ↔
      (events ≠ [] → appliedThrough ≠ int64Max) ∧
        ∀ before a b behind, events = before ++ a :: b :: behind →
          Linked appliedThrough (before ++ [a]) → a.finalId ≠ int64Max := by
  induction events generalizing appliedThrough staging with
  | nil => simp [replayBufferedOps]
  | cons e events ih =>
    obtain ⟨he, hrest⟩ := List.forall_mem_cons.mp hevents
    rw [replayBufferedOps, if_pos rfl, exact_op, fitsWidth_64, fits_succ hthrough,
      forall_split_cons, exact_ite]
    simp only [Linked, exact_pure, ih hrest he]
    by_cases hcont : e.firstId = appliedThrough + 1
    · simp [hcont]
    · simp [hcont]

theorem headStraddlesOps_exact {s : State} (hs : Stored s) {snapshotId : Int}
    (hid : FitsInt64 snapshotId) :
    (headStraddlesOps snapshotId (survivors snapshotId s.buffered)).Exact := by
  have hbuffered : ∀ e ∈ survivors snapshotId s.buffered, FitsInt64 e.finalId :=
    fun e he => hs.buffered e ((List.dropWhile_sublist _).subset he)
  have hhead : ∀ e ∈ (survivors snapshotId s.buffered).head?, snapshotId < e.finalId := by
    intro e he
    have hnot := List.head?_dropWhile_not
      (fun e : PendingEvent => decide (e.finalId ≤ snapshotId)) s.buffered
    unfold survivors at he
    rw [Option.mem_def.mp he] at hnot
    exact not_le.mp (of_decide_eq_false hnot)
  cases hsurvivors : survivors snapshotId s.buffered with
  | nil => exact exact_pure _
  | cons e events =>
    rw [hsurvivors] at hbuffered hhead
    have hlt := hhead e rfl
    have hle := (hbuffered e List.mem_cons_self).2
    have hfits : FitsInt64 (snapshotId + 1) := (fits_succ hid).mpr (by omega)
    unfold headStraddlesOps straddlesOps
    rw [exact_op]
    refine ⟨hfits, ?_⟩
    split_ifs
    · exact (exact_op ..).mpr ⟨hfits, exact_pure _⟩
    · exact exact_pure _

theorem reconcileOps_exact {s : State} (hs : Stored s) {snapshotId : Int}
    (hid : FitsInt64 snapshotId) (bids asks : List Level) (recvTsNs : Int)
    (out : List FeedUpdate) :
    (reconcileOps s snapshotId bids asks recvTsNs out).Exact ↔
      ∀ before a b behind, survivors snapshotId s.buffered = before ++ a :: b :: behind →
        Reconciles snapshotId (before ++ [a]) → a.finalId ≠ int64Max := by
  have hhead := headStraddlesOps_exact hs hid
  have hbuffered : ∀ e ∈ survivors snapshotId s.buffered, FitsInt64 e.finalId :=
    fun e he => hs.buffered e ((List.dropWhile_sublist _).subset he)
  simp only [reconcileOps, exact_bind, exact_ite, exact_pure, ite_self, and_true, hhead, true_and]
  cases hsurvivors : survivors snapshotId s.buffered with
  | nil => simp [headStraddlesOps, replayBufferedOps]
  | cons e events =>
    rw [hsurvivors] at hbuffered
    obtain ⟨he, hrest⟩ := List.forall_mem_cons.mp hbuffered
    have hfirst : ∀ staging, (replayBufferedOps recvTsNs staging snapshotId true
        (e :: events)).Exact ↔ (events ≠ [] → e.finalId ≠ int64Max) ∧
          ∀ before a b behind, events = before ++ a :: b :: behind →
            Linked e.finalId (before ++ [a]) → a.finalId ≠ int64Max := by
      intro staging
      rw [replayBufferedOps, if_neg (by decide), replayBufferedOps_exact recvTsNs hrest he]
    rw [forall_split_cons, hfirst]
    simp only [headStraddlesOps, straddlesOps_value, Reconciles, Linked, and_true]
    cases straddles snapshotId e with
    | false => simp
    | true => simp

theorem readFrame_fits {frame : Bytes} {e : PendingEvent}
    (h : readFrame parse config frame = .event e) : FitsInt64 e.finalId := by
  unfold readFrame at h
  split at h
  · cases h
  split at h
  · cases h
  split_ifs at h
  split at h
  · cases h
  · rename_i hparsed
    cases h
    simp only [parseDepthEvent, Option.bind_eq_bind, Option.bind_eq_some_iff] at hparsed
    obtain ⟨firstId, -, finalId, hfinal, bids, -, asks, -, hevent⟩ := hparsed
    cases hevent
    exact getI64_fits hfinal

theorem readBody_fits {body : Bytes} {id : Int} {bids asks : List Level}
    (h : readBody parse body = .snapshot id bids asks) : FitsInt64 id := by
  unfold readBody at h
  split at h
  · cases h
  split at h
  · cases h
  · rename_i hid
    split at h
    · cases h
      exact getI64_fits hid
    · cases h

theorem onRestSnapshotOps_exact {s : State} (hs : Stored s) (body : Bytes) (recvTsNs : Int)
    (out : List FeedUpdate) :
    (onRestSnapshotOps parse s body recvTsNs out).Exact ↔ BodyFits parse s body := by
  unfold onRestSnapshotOps BodyFits
  cases hread : readBody parse body with
  | malformed => simp
  | malformedLevels => simp
  | snapshot id bids asks =>
    rw [reconcileOps_exact hs (readBody_fits hread)]
    simp

theorem stored_initial : Stored {} := ⟨by decide, List.forall_mem_nil _⟩

theorem onEvent_stored {s : State} (hs : Stored s) {e : PendingEvent} (he : FitsInt64 e.finalId)
    (recvTsNs : Int) (out : List FeedUpdate) :
    Stored (onEvent config s e recvTsNs out).protocol := by
  unfold onEvent
  split_ifs
  · exact ⟨hs.position, List.forall_mem_nil _⟩
  · exact ⟨hs.position,
      List.forall_mem_append.mpr ⟨hs.buffered, List.forall_mem_singleton.mpr he⟩⟩
  · exact hs
  · exact ⟨he, hs.buffered⟩

theorem replayBuffered_fits {recvTsNs appliedThrough through : Int} {first complete : Bool}
    {staging staged : List FeedUpdate} {events : List PendingEvent}
    (hthrough : FitsInt64 appliedThrough) (hevents : ∀ e ∈ events, FitsInt64 e.finalId)
    (h : replayBuffered recvTsNs staging appliedThrough first events =
      (staged, through, complete)) : FitsInt64 through := by
  induction events generalizing staging appliedThrough first with
  | nil =>
    cases h
    exact hthrough
  | cons e events ih =>
    obtain ⟨he, hrest⟩ := List.forall_mem_cons.mp hevents
    rw [replayBuffered] at h
    split_ifs at h
    · cases h
      exact hthrough
    · exact ih he hrest h

theorem reconcile_stored {s : State} (hs : Stored s) {snapshotId : Int}
    (hid : FitsInt64 snapshotId) (bids asks : List Level) (recvTsNs : Int)
    (out : List FeedUpdate) :
    Stored (reconcile s snapshotId bids asks recvTsNs out).protocol := by
  have hbuffered : ∀ e ∈ survivors snapshotId s.buffered, FitsInt64 e.finalId :=
    fun e he => hs.buffered e ((List.dropWhile_sublist _).subset he)
  simp only [reconcile]
  split_ifs
  · exact ⟨hs.position, List.forall_mem_nil _⟩
  · split
    · exact ⟨hs.position, List.forall_mem_nil _⟩
    · rename_i staged through hreplay
      exact ⟨replayBuffered_fits hid hbuffered hreplay, List.forall_mem_nil _⟩

theorem call_stored {s : State} (hs : Stored s) (c : ProtocolCall) :
    Stored ((protocol parse config).call s c).protocol := by
  cases c with
  | frame bytes recvTsNs =>
    simp only [VenueProtocol.call, protocol, onFrame]
    cases hread : readFrame parse config bytes with
    | malformed => exact hs
    | ignored => exact hs
    | event e => exact onEvent_stored hs (readFrame_fits hread) recvTsNs []
  | restSnapshot body recvTsNs =>
    simp only [VenueProtocol.call, protocol, onRestSnapshot]
    cases hread : readBody parse body with
    | malformed => exact hs
    | malformedLevels => exact ⟨hs.position, hs.buffered⟩
    | snapshot id bids asks => exact reconcile_stored hs (readBody_fits hread) bids asks recvTsNs []
  | reset => exact stored_initial

variable (parse config) in
def callOps (s : State) : ProtocolCall → Computed (Called State)
  | .frame bytes recvTsNs => onFrameOps parse config s bytes recvTsNs []
  | .restSnapshot body recvTsNs => onRestSnapshotOps parse s body recvTsNs []
  | .reset => pure ⟨.kOk, reset s, []⟩

variable (parse config) in
def CallFits (s : State) : ProtocolCall → Prop
  | .frame bytes _ => FrameFits parse config s bytes
  | .restSnapshot body _ => BodyFits parse s body
  | .reset => True

theorem callOps_value (s : State) (c : ProtocolCall) :
    (callOps parse config s c).value = (protocol parse config).call s c := by
  cases c with
  | frame bytes recvTsNs => exact onFrameOps_value ..
  | restSnapshot body recvTsNs => exact onRestSnapshotOps_value ..
  | reset => rfl

theorem callOps_exact {s : State} (hs : Stored s) (c : ProtocolCall) :
    (callOps parse config s c).Exact ↔ CallFits parse config s c := by
  cases c with
  | frame bytes recvTsNs => exact onFrameOps_exact hs ..
  | restSnapshot body recvTsNs => exact onRestSnapshotOps_exact hs ..
  | reset => exact iff_of_true (exact_pure _) trivial

end Calls

end Binance

end CexAggregator
