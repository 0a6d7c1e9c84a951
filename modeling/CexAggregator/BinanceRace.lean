import CexAggregator.Binance

/-!
# When the snapshot arrives

A contiguous stream and one snapshot, with the snapshot delivered after the first `k`
events. The buffered rule accepts an event that straddles the snapshot. The live rule
asks for `U = last + 1`, so a stream that has not reached the snapshot's id by the time
the snapshot arrives is refused at its next event, even when that event straddles it.
-/

namespace CexAggregator
namespace Binance

def ChainFrom (id : Int) : List PendingEvent → Prop
  | [] => True
  | e :: events => (e.firstId = id + 1 ∧ e.firstId ≤ e.finalId) ∧ ChainFrom e.finalId events

instance (id : Int) (events : List PendingEvent) : Decidable (ChainFrom id events) := by
  induction events generalizing id with
  | nil => exact inferInstanceAs (Decidable True)
  | cons e events ih => exact @instDecidableAnd _ _ _ (ih e.finalId)

def lastId (id : Int) (events : List PendingEvent) : Int :=
  events.foldl (fun _ e => e.finalId) id

/-- A lossless stream, the frames that carry it, and a snapshot taken inside it. -/
structure SnapshotRace (parse : JsonParser) (config : Config) where
  frames : List (Bytes × Int)
  events : List PendingEvent
  reads : frames.map (fun f => readFrame parse config f.1) = events.map Frame.event
  start : Int
  chain : ChainFrom start events
  body : Bytes
  bodyTime : Int
  snapshotId : Int
  bids : List Level
  asks : List Level
  readsBody : readBody parse body = .snapshot snapshotId bids asks
  starts : start ≤ snapshotId
  ends : snapshotId < lastId start events

section Chain
variable {id snapshotId : Int} {events : List PendingEvent}

theorem chainFrom_append {as bs : List PendingEvent} :
    ChainFrom id (as ++ bs) ↔ ChainFrom id as ∧ ChainFrom (lastId id as) bs := by
  induction as generalizing id with
  | nil => simp [ChainFrom, lastId]
  | cons a as ih =>
    rw [List.cons_append, ChainFrom, ih, ChainFrom]
    exact and_assoc.symm

theorem lastId_append (as bs : List PendingEvent) :
    lastId id (as ++ bs) = lastId (lastId id as) bs := List.foldl_append

theorem le_lastId (h : ChainFrom id events) : id ≤ lastId id events := by
  induction events generalizing id with
  | nil => exact le_rfl
  | cons e events ih =>
    have hlast := ih h.2
    have hfirst := h.1
    change id ≤ lastId e.finalId events
    omega

theorem after_of_chain (h : ChainFrom id events) : ∀ e ∈ events, id < e.finalId := by
  induction events generalizing id with
  | nil => exact fun e he => (List.not_mem_nil he).elim
  | cons e events ih =>
    have hfirst := h.1
    refine List.forall_mem_cons.mpr ⟨by omega, fun x hx => ?_⟩
    have hlater := ih h.2 x hx
    omega

theorem survivors_chain (h : ChainFrom id events) (hid : id ≤ snapshotId) :
    survivors snapshotId events = events.filter (fun e => snapshotId < e.finalId) ∧
      (survivors snapshotId events = [] ∧ lastId id events ≤ snapshotId ∨
        ∃ e rest, survivors snapshotId events = e :: rest ∧ straddles snapshotId e = true ∧
          ChainFrom e.finalId rest ∧ lastId e.finalId rest = lastId id events ∧
          snapshotId < lastId id events) := by
  induction events generalizing id with
  | nil => exact ⟨rfl, Or.inl ⟨rfl, hid⟩⟩
  | cons e events ih =>
    obtain ⟨hfirst, hrest⟩ := h
    by_cases hold : e.finalId ≤ snapshotId
    · have hskip : survivors snapshotId (e :: events) = survivors snapshotId events := by
        rw [survivors, List.dropWhile_cons_of_pos (by simpa using hold)]
        rfl
      rw [hskip, List.filter_cons_of_neg (by simpa using hold)]
      exact ih hrest hold
    · have hkeep : survivors snapshotId (e :: events) = e :: events :=
        List.dropWhile_cons_of_neg (by simpa using hold)
      have hall : events.filter (fun x => snapshotId < x.finalId) = events := by
        refine List.filter_eq_self.mpr fun x hx => decide_eq_true ?_
        have hlater := after_of_chain hrest x hx
        omega
      have hlast := le_lastId hrest
      rw [hkeep, List.filter_cons_of_pos (by simpa using not_le.mp hold), hall]
      refine ⟨rfl, Or.inr ⟨e, events, rfl, ?_, hrest, rfl, ?_⟩⟩
      · simp only [straddles, decide_eq_true_eq]
        omega
      · change snapshotId < lastId e.finalId events
        omega

theorem replayBuffered_chain (h : ChainFrom id events) (recvTsNs : Int)
    (staging : List FeedUpdate) (first : Bool) :
    replayBuffered recvTsNs staging id first events =
      (staging ++ events.map (fun e => e.update recvTsNs), lastId id events, true) := by
  induction events generalizing id staging first with
  | nil => simp [replayBuffered, lastId]
  | cons e events ih =>
    obtain ⟨hfirst, hrest⟩ := h
    rw [replayBuffered, if_neg (by omega), ih hrest]
    simp [lastId]

end Chain

def PendingEvent.levels (e : PendingEvent) : FeedUpdateLevels := ⟨false, e.bids, e.asks⟩

section Deliver
variable {parse : JsonParser} {config : Config} {frames : List (Bytes × Int)}
  {events : List PendingEvent} {s : State}

theorem call_frame {f : Bytes × Int} {e : PendingEvent}
    (h : readFrame parse config f.1 = .event e) :
    (protocol parse config).call s (.frame f.1 f.2) = onEvent config s e f.2 [] := by
  simp only [VenueProtocol.call, protocol, onFrame, h]

theorem deliver_buffering
    (hreads : frames.map (fun f => readFrame parse config f.1) = events.map Frame.event)
    (hsynced : s.synced = false)
    (hcap : s.buffered.length + events.length ≤ config.maxBufferedEvents) :
    (protocol parse config).deliver s (frameCalls frames) =
      some ({ s with buffered := s.buffered ++ events }, []) := by
  induction frames generalizing s events with
  | nil =>
    cases events with
    | nil => simp [frameCalls, VenueProtocol.deliver]
    | cons e events => cases hreads
  | cons f frames ih =>
    cases events with
    | nil => cases hreads
    | cons e events =>
      simp only [List.map_cons, List.cons.injEq] at hreads
      rw [List.length_cons] at hcap
      have hcall : (protocol parse config).call s (.frame f.1 f.2) =
          ⟨.kOk, { s with buffered := s.buffered ++ [e] }, []⟩ := by
        rw [call_frame hreads.1, onEvent, if_pos hsynced, if_neg (by omega)]
      have hrest : (s.buffered ++ [e]).length + events.length ≤ config.maxBufferedEvents := by
        simp only [List.length_append, List.length_singleton]
        omega
      have htail := ih (s := { s with buffered := s.buffered ++ [e] }) hreads.2 hsynced hrest
      simp only [frameCalls, List.map_cons, VenueProtocol.deliver, hcall, ↓reduceIte]
      simp only [frameCalls] at htail
      simp [htail]

theorem deliver_live
    (hreads : frames.map (fun f => readFrame parse config f.1) = events.map Frame.event)
    (hsynced : s.synced = true) {id : Int} (hchain : ChainFrom id events) :
    (id = s.lastUpdateId → ∃ out, (protocol parse config).deliver s (frameCalls frames) =
        some ({ s with lastUpdateId := lastId id events }, out) ∧
        out.map FeedUpdate.toFeedUpdateLevels = events.map PendingEvent.levels) ∧
      (events ≠ [] → id ≠ s.lastUpdateId →
        (protocol parse config).deliver s (frameCalls frames) = none) := by
  induction frames generalizing s events id with
  | nil =>
    cases events with
    | nil => exact ⟨fun hid => ⟨[], by simp [frameCalls, VenueProtocol.deliver, lastId, hid]⟩,
        fun hne => (hne rfl).elim⟩
    | cons e events => cases hreads
  | cons f frames ih =>
    cases events with
    | nil => cases hreads
    | cons e events =>
      simp only [List.map_cons, List.cons.injEq] at hreads
      obtain ⟨⟨hfirst, hlen⟩, hrest⟩ := hchain
      have hlive : ¬ s.synced = false := by simp [hsynced]
      refine ⟨fun hid => ?_, fun _ hid => ?_⟩
      · have hcall : (protocol parse config).call s (.frame f.1 f.2) =
            ⟨.kOk, { s with lastUpdateId := e.finalId }, [e.update f.2]⟩ := by
          rw [call_frame hreads.1, onEvent, if_neg hlive, if_neg (by omega), List.nil_append]
        obtain ⟨out, hout, hlevels⟩ :=
          (ih (s := { s with lastUpdateId := e.finalId }) hreads.2 hsynced hrest).1 rfl
        refine ⟨e.update f.2 :: out, ?_, ?_⟩
        · simp only [frameCalls] at hout
          simp [frameCalls, VenueProtocol.deliver, hcall, hout, lastId]
        · rw [List.map_cons, hlevels]
          rfl
      · have hcall : ((protocol parse config).call s (.frame f.1 f.2)).verdict =
            .kNeedsResync := by
          rw [call_frame hreads.1, onEvent, if_neg hlive, if_pos (by omega)]
        simp [frameCalls, VenueProtocol.deliver, hcall]

end Deliver

namespace SnapshotRace
variable {parse : JsonParser} {config : Config}

def calls (race : SnapshotRace parse config) (k : ℕ) : List ProtocolCall :=
  frameCalls (race.frames.take k) ++
    .restSnapshot race.body race.bodyTime :: frameCalls (race.frames.drop k)

def seeded (race : SnapshotRace parse config) (book : VenueBook) : VenueBook :=
  (race.events.filter fun e => race.snapshotId < e.finalId).foldl
    (fun b e => applyFeedUpdate b e.levels) (applyFeedUpdate book ⟨true, race.bids, race.asks⟩)

def Settles (race : SnapshotRace parse config) (s : State) (book : VenueBook) (k : ℕ) : Prop :=
  ∃ r, (protocol parse config).deliver (reset s) (race.calls k) = some r ∧
    applyUpdates book r.2 = race.seeded book ∧ r.1.lastUpdateId = lastId race.start race.events

theorem reads_take (race : SnapshotRace parse config) (k : ℕ) :
    (race.frames.take k).map (fun f => readFrame parse config f.1) =
      (race.events.take k).map Frame.event := by
  rw [List.map_take, race.reads, List.map_take]

theorem reads_drop (race : SnapshotRace parse config) (k : ℕ) :
    (race.frames.drop k).map (fun f => readFrame parse config f.1) =
      (race.events.drop k).map Frame.event := by
  rw [List.map_drop, race.reads, List.map_drop]

theorem deliver_snapshot (race : SnapshotRace parse config) {pre : List PendingEvent}
    (hchain : ChainFrom race.start pre) :
    ∃ staged, (protocol parse config).call { buffered := pre }
        (.restSnapshot race.body race.bodyTime) =
      ⟨.kOk, ⟨[], [], max race.snapshotId (lastId race.start pre), true⟩, staged⟩ ∧
      staged.map FeedUpdate.toFeedUpdateLevels = ⟨true, race.bids, race.asks⟩ ::
        (pre.filter fun e => race.snapshotId < e.finalId).map PendingEvent.levels := by
  obtain ⟨hfilter, hcases⟩ := survivors_chain hchain race.starts
  have hcall : (protocol parse config).call { buffered := pre }
      (.restSnapshot race.body race.bodyTime) =
      reconcile { buffered := pre } race.snapshotId race.bids race.asks race.bodyTime [] := by
    simp only [VenueProtocol.call, protocol, onRestSnapshot, race.readsBody]
  rw [hcall, ← hfilter]
  rcases hcases with ⟨hnone, hlast⟩ | ⟨e, rest, hsome, hstraddle, hrest, hthrough, hlast⟩
  · have hreplay : replayBuffered race.bodyTime
        [snapshotUpdate race.snapshotId race.bids race.asks race.bodyTime] race.snapshotId true
        (survivors race.snapshotId pre) =
        ([snapshotUpdate race.snapshotId race.bids race.asks race.bodyTime],
          max race.snapshotId (lastId race.start pre), true) := by
      rw [hnone, replayBuffered, max_eq_left hlast]
    refine ⟨_, reconcile_of_replay (by simp [hnone]) hreplay, ?_⟩
    rw [hnone]
    rfl
  · have hreplay : replayBuffered race.bodyTime
        [snapshotUpdate race.snapshotId race.bids race.asks race.bodyTime] race.snapshotId true
        (survivors race.snapshotId pre) =
        (snapshotUpdate race.snapshotId race.bids race.asks race.bodyTime ::
          (e :: rest).map (fun x => x.update race.bodyTime),
          max race.snapshotId (lastId race.start pre), true) := by
      rw [hsome, replayBuffered, if_neg (by simp), replayBuffered_chain hrest, hthrough,
        max_eq_right hlast.le]
      rfl
    refine ⟨_, reconcile_of_replay (by simpa [hsome] using hstraddle) hreplay, ?_⟩
    rw [hsome]
    simp [snapshotUpdate, PendingEvent.update, PendingEvent.levels, Function.comp_def]

theorem chain_split (race : SnapshotRace parse config) (k : ℕ) :
    ChainFrom race.start (race.events.take k) ∧
      ChainFrom (lastId race.start (race.events.take k)) (race.events.drop k) :=
  chainFrom_append.mp ((List.take_append_drop k race.events).symm ▸ race.chain)

theorem deliver_calls (race : SnapshotRace parse config) (s : State) {k : ℕ}
    (hcap : k ≤ config.maxBufferedEvents) :
    ∃ staged, (protocol parse config).deliver (reset s) (race.calls k) =
        ((protocol parse config).deliver
          ⟨[], [], max race.snapshotId (lastId race.start (race.events.take k)), true⟩
          (frameCalls (race.frames.drop k))).map (fun r => (r.1, staged ++ r.2)) ∧
      staged.map FeedUpdate.toFeedUpdateLevels = ⟨true, race.bids, race.asks⟩ ::
        ((race.events.take k).filter fun e => race.snapshotId < e.finalId).map
          PendingEvent.levels := by
  obtain ⟨staged, hcall, hlevels⟩ := race.deliver_snapshot (race.chain_split k).1
  refine ⟨staged, ?_, hlevels⟩
  have hbuffer := deliver_buffering (s := {}) (race.reads_take k) rfl (by
    rw [List.length_nil, Nat.zero_add, List.length_take]
    omega)
  rw [calls, VenueProtocol.deliver_append, reset, hbuffer]
  simp [VenueProtocol.deliver, hcall, Function.comp_def]

theorem lastId_split (race : SnapshotRace parse config) (k : ℕ) :
    lastId (lastId race.start (race.events.take k)) (race.events.drop k) =
      lastId race.start race.events := by
  rw [← lastId_append, List.take_append_drop]

theorem settles_iff (race : SnapshotRace parse config) (s : State) (book : VenueBook) {k : ℕ}
    (hcap : k ≤ config.maxBufferedEvents) :
    race.Settles s book k ↔ race.snapshotId ≤ lastId race.start (race.events.take k) := by
  obtain ⟨-, hrest⟩ := race.chain_split k
  have hlast := race.lastId_split k
  have hends := race.ends
  obtain ⟨staged, hdeliver, hstaged⟩ := race.deliver_calls s hcap
  obtain ⟨hlive, hrefused⟩ := deliver_live
    (s := ⟨[], [], max race.snapshotId (lastId race.start (race.events.take k)), true⟩)
    (race.reads_drop k) rfl hrest
  constructor
  · rintro ⟨r, hr, -⟩
    by_contra hshort
    -- The stream has not reached the snapshot: its next event is refused.
    have hne : race.events.drop k ≠ [] := by
      intro hnil
      rw [hnil] at hlast
      simp only [lastId, List.foldl_nil] at hlast hshort hends
      omega
    rw [hdeliver, hrefused hne (by dsimp only; omega)] at hr
    cases hr
  · intro hreached
    obtain ⟨out, hout, hlevels⟩ := hlive (max_eq_right hreached).symm
    refine ⟨_, by rw [hdeliver, hout]; rfl, ?_, hlast⟩
    have hlater : (race.events.drop k).filter (fun e => race.snapshotId < e.finalId) =
        race.events.drop k := by
      refine List.filter_eq_self.mpr fun e he => decide_eq_true ?_
      have hafter := after_of_chain hrest e he
      omega
    have hsplit : race.events.filter (fun e => race.snapshotId < e.finalId) =
        (race.events.take k).filter (fun e => race.snapshotId < e.finalId) ++
          race.events.drop k := by
      rw [← hlater, ← List.filter_append, List.take_append_drop]
    rw [applyUpdates_eq_foldl, List.map_append, hstaged, hlevels, seeded, hsplit,
      List.cons_append, ← List.map_append, List.foldl_cons, List.foldl_map]

end SnapshotRace

/-- The arrival time of the snapshot is invisible exactly when the events delivered before
it reach its id; it is invisible at every time exactly when the stream starts right behind
the snapshot. -/
theorem snapshotRace_settles_iff (parse : JsonParser) (config : Config)
    (race : SnapshotRace parse config) (s : State) (book : VenueBook) :
    (∀ k, k ≤ config.maxBufferedEvents →
      (race.Settles s book k ↔ race.snapshotId ≤ lastId race.start (race.events.take k))) ∧
    ((∀ k, k ≤ config.maxBufferedEvents → race.Settles s book k) ↔
      race.start = race.snapshotId) := by
  refine ⟨fun k hk => race.settles_iff s book hk, fun h => ?_, fun h k hk => ?_⟩
  · have hzero := (race.settles_iff s book (Nat.zero_le _)).mp (h 0 (Nat.zero_le _))
    exact le_antisymm race.starts hzero
  · rw [race.settles_iff s book hk, ← h]
    exact le_lastId (race.chain_split k).1

section Late

def emptyEventText (firstId finalId : String) : String :=
  "\x7b\"e\":\"depthUpdate\",\"U\":" ++ firstId ++ ",\"u\":" ++ finalId ++
    ",\"b\":[],\"a\":[]\x7d"

def emptyEventRoot (firstId finalId : Int64) : Json :=
  .object [("e", .string "depthUpdate"), ("U", .int64 firstId), ("u", .int64 finalId),
    ("b", .array []), ("a", .array [])]

def lateSnapshotText : String := "\x7b\"lastUpdateId\":100,\"bids\":[],\"asks\":[]\x7d"

def lateParser : JsonParser := parserOf
  [(emptyEventText "90" "95", emptyEventRoot 90 95),
    (emptyEventText "96" "101", emptyEventRoot 96 101),
    (emptyEventText "102" "110", emptyEventRoot 102 110),
    (lateSnapshotText, .object [("lastUpdateId", .int64 100), ("bids", .array []),
      ("asks", .array [])])]

def lateRace : SnapshotRace lateParser {} where
  frames := [(utf8 (emptyEventText "90" "95"), 0), (utf8 (emptyEventText "96" "101"), 0),
    (utf8 (emptyEventText "102" "110"), 0)]
  events := [⟨90, 95, 0, [], []⟩, ⟨96, 101, 0, [], []⟩, ⟨102, 110, 0, [], []⟩]
  reads := by decide +kernel
  start := 89
  chain := by decide
  body := utf8 lateSnapshotText
  bodyTime := 0
  snapshotId := 100
  bids := []
  asks := []
  readsBody := by decide +kernel
  starts := by decide
  ends := by decide

/-- Delivered after the first event, the snapshot makes the straddling second event a gap;
delivered after the second, the whole stream is accepted. -/
theorem lateRace_refused :
    (protocol lateParser {}).deliver (reset {}) (lateRace.calls 1) = none ∧
      (protocol lateParser {}).deliver (reset {}) (lateRace.calls 2) ≠ none ∧
      ¬ ∀ k, k ≤ ({} : Config).maxBufferedEvents → lateRace.Settles {} {} k := by
  have hnone : (protocol lateParser {}).deliver (reset {}) (lateRace.calls 1) = none := by
    decide +kernel
  refine ⟨hnone, by decide +kernel, fun h => ?_⟩
  obtain ⟨r, hr, -⟩ := h 1 (by decide)
  rw [hnone] at hr
  cases hr

end Late

end Binance
end CexAggregator
