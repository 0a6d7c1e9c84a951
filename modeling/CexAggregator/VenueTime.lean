import CexAggregator.BinanceArithmetic
import CexAggregator.FrameBatch

/-!
# Whether the Binance position moves forward

The position is set from ids the venue supplied: by an event to its `u`, by a snapshot to its
`lastUpdateId`, by the replay to the `u` of the last event replayed. None of the three looks
at where the position was, so it moves forward as far as those ids do. Sums are those of the
release build here: past the last 64-bit number comes the first.
-/

namespace CexAggregator

def wrapInt64 (v : Int) : Int := (v + 2 ^ 63) % 2 ^ 64 - 2 ^ 63

theorem wrapInt64_of_fits {v : Int} (h : FitsInt64 v) : wrapInt64 v = v := by
  unfold FitsInt64 int64Min int64Max at h
  unfold wrapInt64
  omega

theorem wrapInt64_succ {v : Int} (h : FitsInt64 v) (hlast : v ≠ int64Max) :
    wrapInt64 (v + 1) = v + 1 :=
  wrapInt64_of_fits ((fits_succ h).mpr hlast)

namespace Binance

section Calls
variable (parse : JsonParser) (config : Config)

def onEventWrapping (s : State) (e : PendingEvent) (recvTsNs : Int) (out : List FeedUpdate) :
    Called State :=
  if s.synced = false then
    if config.maxBufferedEvents ≤ s.buffered.length then
      ⟨.kNeedsResync, { s with buffered := [] }, out⟩
    else ⟨.kOk, { s with buffered := s.buffered ++ [e] }, out⟩
  else if e.firstId ≠ wrapInt64 (s.lastUpdateId + 1) then ⟨.kNeedsResync, s, out⟩
  else ⟨.kOk, { s with lastUpdateId := e.finalId }, out ++ [e.update recvTsNs]⟩

def onFrameWrapping (s : State) (frame : Bytes) (recvTsNs : Int) (out : List FeedUpdate) :
    Called State :=
  match readFrame parse config frame with
  | .malformed => ⟨.kParseError, s, out⟩
  | .ignored => ⟨.kOk, s, out⟩
  | .event e => onEventWrapping config s e recvTsNs out

def replayWrapping (recvTsNs : Int) (staging : List FeedUpdate) (appliedThrough : Int)
    (first : Bool) : List PendingEvent → List FeedUpdate × Int × Bool
  | [] => (staging, appliedThrough, true)
  | e :: events =>
    if first = false ∧ e.firstId ≠ wrapInt64 (appliedThrough + 1) then
      (staging, appliedThrough, false)
    else replayWrapping recvTsNs (staging ++ [e.update recvTsNs]) e.finalId false events

def straddlesWrapping (snapshotId : Int) (e : PendingEvent) : Bool :=
  e.firstId ≤ wrapInt64 (snapshotId + 1) ∧ wrapInt64 (snapshotId + 1) ≤ e.finalId

def reconcileWrapping (s : State) (snapshotId : Int) (bids asks : List Level) (recvTsNs : Int)
    (out : List FeedUpdate) : Called State :=
  let staging := [snapshotUpdate snapshotId bids asks recvTsNs]
  let buffered := survivors snapshotId s.buffered
  if buffered.head?.any fun e => ¬ straddlesWrapping snapshotId e then
    ⟨.kNeedsResync, { s with staging := staging, buffered := [] }, out⟩
  else
    match replayWrapping recvTsNs staging snapshotId true buffered with
    | (staged, _, false) => ⟨.kNeedsResync, { s with staging := staged, buffered := [] }, out⟩
    | (staged, appliedThrough, true) => ⟨.kOk, ⟨[], [], appliedThrough, true⟩, out ++ staged⟩

def onRestSnapshotWrapping (s : State) (body : Bytes) (recvTsNs : Int) (out : List FeedUpdate) :
    Called State :=
  match readBody parse body with
  | .malformed => ⟨.kParseError, s, out⟩
  | .malformedLevels => ⟨.kParseError, { s with staging := [] }, out⟩
  | .snapshot id bids asks => reconcileWrapping s id bids asks recvTsNs out

/-- The adapter with sums that wrap. -/
def wrapping : VenueProtocol State :=
  { protocol parse config with
    onRestSnapshot := onRestSnapshotWrapping parse
    onFrame := onFrameWrapping parse config }

end Calls

def Advances (position : Int) : List FeedUpdate → Prop
  | [] => True
  | u :: us => (u.isSnapshot = false → position < u.seq.last) ∧ Advances u.seq.last us

def LinkedWrapping (through : Int) : List PendingEvent → Prop
  | [] => True
  | e :: events => e.firstId = wrapInt64 (through + 1) ∧ LinkedWrapping e.finalId events

def ReconcilesWrapping (id : Int) : List PendingEvent → Prop
  | [] => True
  | e :: events => straddlesWrapping id e = true ∧ LinkedWrapping e.finalId events

/-- No event has its ids the wrong way round, and none that is continued from ends at the last
number there is. -/
def PointForward (events : List PendingEvent) : Prop :=
  (∀ e ∈ events, e.firstId ≤ e.finalId) ∧ ∀ e ∈ events.dropLast, e.finalId ≠ int64Max

/-- The ids that are about to be taken over do not go back. -/
def Forward (parse : JsonParser) (config : Config) (s : State) : ProtocolCall → Prop
  | .frame bytes _ => ∀ e, readFrame parse config bytes = .event e → s.synced = true →
      e.firstId = wrapInt64 (s.lastUpdateId + 1) →
        s.lastUpdateId ≠ int64Max ∧ e.firstId ≤ e.finalId
  | .restSnapshot body _ => ∀ id bids asks, readBody parse body = .snapshot id bids asks →
      (s.synced = true → s.lastUpdateId ≤ id) ∧
        (ReconcilesWrapping id (survivors id s.buffered) → PointForward (survivors id s.buffered))
  | .reset => True

/-- While the adapter stays synced its position does not go back, and what it emits is in the
order of venue time. -/
structure ForwardOnly (parse : JsonParser) (config : Config) (calls : List ProtocolCall) :
    Prop where
  position : ∀ as bs cs, calls = as ++ bs ++ cs →
    (∀ ds, ds <+: bs → ((wrapping parse config).after {} (as ++ ds)).synced = true) →
    ((wrapping parse config).after {} as).lastUpdateId ≤
      ((wrapping parse config).after {} (as ++ bs)).lastUpdateId
  deltas : ∀ as c cs, calls = as ++ c :: cs →
    Advances ((wrapping parse config).after {} as).lastUpdateId
      ((wrapping parse config).call ((wrapping parse config).after {} as) c).out

section Step
variable {parse : JsonParser} {config : Config} {s : State} {recvTsNs : Int}

theorem replayWrapping_staged {events : List PendingEvent} {staging staged : List FeedUpdate}
    {appliedThrough through : Int} {first : Bool}
    (h : replayWrapping recvTsNs staging appliedThrough first events = (staged, through, true)) :
    staged = staging ++ events.map fun e => e.update recvTsNs := by
  induction events generalizing staging appliedThrough first with
  | nil =>
    cases h
    simp
  | cons e events ih =>
    rw [replayWrapping] at h
    split_ifs at h
    · cases h
    · rw [ih h]
      simp

theorem replayWrapping_linked (recvTsNs : Int) (staging : List FeedUpdate) (through : Int)
    (events : List PendingEvent) :
    (replayWrapping recvTsNs staging through false events).2.2 = true ↔
      LinkedWrapping through events := by
  induction events generalizing staging through with
  | nil => exact ⟨fun _ => trivial, fun _ => rfl⟩
  | cons e events ih =>
    rw [replayWrapping, LinkedWrapping]
    by_cases hgap : false = false ∧ e.firstId ≠ wrapInt64 (through + 1)
    · rw [if_pos hgap]
      exact ⟨fun h => (Bool.false_ne_true h).elim, fun h => (hgap.2 h.1).elim⟩
    · rw [if_neg hgap, ih]
      have hnext := not_not.mp fun hne => hgap ⟨rfl, hne⟩
      exact ⟨fun h => ⟨hnext, h⟩, fun h => h.2⟩

theorem reconcileWrapping_cases (s : State) (id : Int) (bids asks : List Level) (recvTsNs : Int) :
    (ReconcilesWrapping id (survivors id s.buffered) ∧
      ∃ through, reconcileWrapping s id bids asks recvTsNs [] =
        ⟨.kOk, ⟨[], [], through, true⟩, snapshotUpdate id bids asks recvTsNs ::
          (survivors id s.buffered).map fun e => e.update recvTsNs⟩) ∨
    (¬ ReconcilesWrapping id (survivors id s.buffered) ∧
      ∃ staging, reconcileWrapping s id bids asks recvTsNs [] =
        ⟨.kNeedsResync, { s with staging := staging, buffered := [] }, []⟩) := by
  rw [reconcileWrapping]
  cases survivors id s.buffered with
  | nil => exact Or.inl ⟨trivial, id, rfl⟩
  | cons e events =>
    rw [ReconcilesWrapping]
    by_cases hstraddle : straddlesWrapping id e = true
    · have hlinked := replayWrapping_linked recvTsNs
        [snapshotUpdate id bids asks recvTsNs, e.update recvTsNs] e.finalId events
      rcases hreplay : replayWrapping recvTsNs
        [snapshotUpdate id bids asks recvTsNs, e.update recvTsNs] e.finalId false events with
        ⟨staged, through, _ | _⟩
      · rw [hreplay] at hlinked
        refine Or.inr ⟨fun h => Bool.false_ne_true (hlinked.mpr h.2), staged, ?_⟩
        simp [hstraddle, replayWrapping, hreplay]
      · have hstaged := replayWrapping_staged hreplay
        rw [hreplay] at hlinked
        refine Or.inl ⟨⟨hstraddle, hlinked.mp rfl⟩, through, ?_⟩
        simp [hstraddle, replayWrapping, hreplay, hstaged]
    · exact Or.inr ⟨fun h => hstraddle h.1, [snapshotUpdate id bids asks recvTsNs],
        by simp [hstraddle]⟩

theorem pointForward_cons {e : PendingEvent} {events : List PendingEvent} :
    PointForward (e :: events) ↔
      e.firstId ≤ e.finalId ∧ (events ≠ [] → e.finalId ≠ int64Max) ∧ PointForward events := by
  cases events with
  | nil => simp [PointForward]
  | cons next events =>
    have hnext : next :: events ≠ [] := List.cons_ne_nil _ _
    simp only [PointForward, List.forall_mem_cons, List.dropLast_cons_of_ne_nil hnext,
      hnext, ne_eq, not_false_eq_true, true_implies]
    tauto

theorem advances_iff {events : List PendingEvent} {through : Int}
    (hevents : ∀ e ∈ events, FitsInt64 e.finalId) (hthrough : FitsInt64 through)
    (h : LinkedWrapping through events) :
    Advances through (events.map fun e => e.update recvTsNs) ↔
      (events ≠ [] → through ≠ int64Max) ∧ PointForward events := by
  induction events generalizing through with
  | nil => simp [Advances, PointForward]
  | cons e events ih =>
    obtain ⟨he, hrest⟩ := List.forall_mem_cons.mp hevents
    obtain ⟨hfirst, hlinked⟩ := h
    have hhead : through < e.finalId ↔ through ≠ int64Max ∧ e.firstId ≤ e.finalId := by
      by_cases hlast : through = int64Max
      · have hle := he.2
        exact iff_of_false (by omega) fun hboth => hboth.1 hlast
      · rw [hfirst, wrapInt64_succ hthrough hlast]
        exact ⟨fun hlt => ⟨hlast, hlt⟩, fun hboth => hboth.2⟩
    have hadvances : Advances through ((e :: events).map fun e => e.update recvTsNs) ↔
        through < e.finalId ∧ Advances e.finalId (events.map fun e => e.update recvTsNs) :=
      and_congr_left fun _ => ⟨fun hu => hu rfl, fun hlt _ => hlt⟩
    rw [hadvances, ih hrest he hlinked, hhead, pointForward_cons]
    simp only [ne_eq, reduceCtorEq, not_false_eq_true, true_implies]
    tauto

theorem advances_reconciled {id position : Int} {bids asks : List Level}
    {events : List PendingEvent} (hevents : ∀ e ∈ events, FitsInt64 e.finalId)
    (hid : FitsInt64 id) (hhead : ∀ e ∈ events.head?, id < e.finalId)
    (h : ReconcilesWrapping id events) :
    Advances position (snapshotUpdate id bids asks recvTsNs ::
        events.map fun e => e.update recvTsNs) ↔ PointForward events := by
  have hsnapshot : Advances position (snapshotUpdate id bids asks recvTsNs ::
      events.map fun e => e.update recvTsNs) ↔
        Advances id (events.map fun e => e.update recvTsNs) := by
    refine and_iff_right fun hdelta => ?_
    cases hdelta
  rw [hsnapshot]
  cases events with
  | nil => simp [Advances, PointForward]
  | cons e events =>
    obtain ⟨he, hrest⟩ := List.forall_mem_cons.mp hevents
    obtain ⟨hstraddle, hlinked⟩ := h
    have hpast : id < e.finalId := hhead e rfl
    have hlast : id ≠ int64Max := by
      have hle := he.2
      omega
    -- The first event reaches past the snapshot, so its own ids cannot be the wrong way round.
    simp only [straddlesWrapping, wrapInt64_succ hid hlast, decide_eq_true_eq] at hstraddle
    have hadvances : Advances id ((e :: events).map fun e => e.update recvTsNs) ↔
        Advances e.finalId (events.map fun e => e.update recvTsNs) :=
      and_iff_right fun _ => hpast
    rw [hadvances, advances_iff hrest he hlinked, pointForward_cons]
    exact (and_iff_right (hstraddle.1.trans hstraddle.2)).symm

theorem fits_survivors (h : Stored s) (id : Int) :
    ∀ e ∈ survivors id s.buffered, FitsInt64 e.finalId :=
  fun e he => h.buffered e ((List.dropWhile_sublist _).subset he)

theorem lt_of_head_survivors {id : Int} {buffered : List PendingEvent} :
    ∀ e ∈ (survivors id buffered).head?, id < e.finalId := by
  intro e he
  have hnot := List.head?_dropWhile_not (fun e : PendingEvent => decide (e.finalId ≤ id)) buffered
  rw [survivors] at he
  rw [Option.mem_def.mp he] at hnot
  exact not_le.mp (of_decide_eq_false hnot)

structure Kept (s : State) : Prop extends Stored s where
  drained : s.synced = true → s.buffered = []

theorem kept_initial : Kept {} := ⟨stored_initial, fun _ => rfl⟩

theorem replayWrapping_fits {appliedThrough through : Int} {first complete : Bool}
    {staging staged : List FeedUpdate} {events : List PendingEvent}
    (hthrough : FitsInt64 appliedThrough) (hevents : ∀ e ∈ events, FitsInt64 e.finalId)
    (h : replayWrapping recvTsNs staging appliedThrough first events =
      (staged, through, complete)) : FitsInt64 through := by
  induction events generalizing staging appliedThrough first with
  | nil =>
    cases h
    exact hthrough
  | cons e events ih =>
    obtain ⟨he, hrest⟩ := List.forall_mem_cons.mp hevents
    rw [replayWrapping] at h
    split_ifs at h
    · cases h
      exact hthrough
    · exact ih he hrest h

theorem onEventWrapping_kept (h : Kept s) {e : PendingEvent} (he : FitsInt64 e.finalId) :
    Kept (onEventWrapping config s e recvTsNs []).protocol := by
  rw [onEventWrapping]
  split_ifs with hsynced
  · exact ⟨⟨h.position, List.forall_mem_nil _⟩, fun _ => rfl⟩
  · refine ⟨⟨h.position, List.forall_mem_append.mpr ⟨h.buffered, ?_⟩⟩, fun hs => ?_⟩
    · exact List.forall_mem_singleton.mpr he
    · exact (Bool.eq_false_iff.mp hsynced hs).elim
  · exact h
  · exact ⟨⟨he, h.buffered⟩, h.drained⟩

theorem reconcileWrapping_kept (h : Kept s) {id : Int} (hid : FitsInt64 id)
    (bids asks : List Level) (recvTsNs : Int) :
    Kept (reconcileWrapping s id bids asks recvTsNs []).protocol := by
  simp only [reconcileWrapping]
  split_ifs
  · exact ⟨⟨h.position, List.forall_mem_nil _⟩, fun _ => rfl⟩
  · split
    · exact ⟨⟨h.position, List.forall_mem_nil _⟩, fun _ => rfl⟩
    · rename_i staged through hreplay
      have hthrough := replayWrapping_fits hid (fits_survivors h.toStored id) hreplay
      exact ⟨⟨hthrough, List.forall_mem_nil _⟩, fun _ => rfl⟩

theorem call_kept (h : Kept s) (c : ProtocolCall) :
    Kept ((wrapping parse config).call s c).protocol := by
  cases c with
  | frame bytes recvTsNs =>
    simp only [VenueProtocol.call, wrapping, onFrameWrapping]
    cases hread : readFrame parse config bytes with
    | malformed => exact h
    | ignored => exact h
    | event e => exact onEventWrapping_kept h (readFrame_fits hread)
  | restSnapshot body recvTsNs =>
    simp only [VenueProtocol.call, wrapping, onRestSnapshotWrapping]
    cases hread : readBody parse body with
    | malformed => exact h
    | malformedLevels => exact ⟨⟨h.position, h.buffered⟩, h.drained⟩
    | snapshot id bids asks =>
      exact reconcileWrapping_kept h (readBody_fits hread) bids asks recvTsNs
  | reset => exact kept_initial

theorem onEventWrapping_eq (hs : Stored s) (h : s.synced = true → s.lastUpdateId ≠ int64Max)
    (e : PendingEvent) (out : List FeedUpdate) :
    onEventWrapping config s e recvTsNs out = onEvent config s e recvTsNs out := by
  rw [onEventWrapping, onEvent]
  by_cases hsynced : s.synced = false
  · rw [if_pos hsynced, if_pos hsynced]
  · rw [if_neg hsynced, if_neg hsynced,
      wrapInt64_succ hs.position (h (eq_true_of_ne_false hsynced))]

theorem replayWrapping_eq (recvTsNs : Int) {events : List PendingEvent}
    (hevents : ∀ e ∈ events, FitsInt64 e.finalId) {appliedThrough : Int}
    (hthrough : FitsInt64 appliedThrough) (staging : List FeedUpdate)
    (hlast : events ≠ [] → appliedThrough ≠ int64Max)
    (hgoes : ∀ before a b behind, events = before ++ a :: b :: behind →
      Linked appliedThrough (before ++ [a]) → a.finalId ≠ int64Max) :
    replayWrapping recvTsNs staging appliedThrough false events =
      replayBuffered recvTsNs staging appliedThrough false events := by
  induction events generalizing appliedThrough staging with
  | nil => rfl
  | cons e events ih =>
    obtain ⟨he, hrest⟩ := List.forall_mem_cons.mp hevents
    rw [replayWrapping, replayBuffered,
      wrapInt64_succ hthrough (hlast (List.cons_ne_nil _ _))]
    obtain ⟨hfirst, hbehind⟩ := forall_split_cons.mp hgoes
    by_cases hgap : e.firstId = appliedThrough + 1
    · simp only [hgap, ne_eq, not_true_eq_false, and_false, ↓reduceIte]
      refine ih hrest he _ (hfirst ⟨hgap, trivial⟩) fun before a b behind hsplit hlinked => ?_
      exact hbehind before a b behind hsplit ⟨hgap, hlinked⟩
    · rw [if_pos ⟨rfl, hgap⟩, if_pos ⟨rfl, hgap⟩]

theorem reconcileWrapping_eq (hs : Stored s) {id : Int} (hid : FitsInt64 id)
    (hgoes : ∀ before a b behind, survivors id s.buffered = before ++ a :: b :: behind →
      Reconciles id (before ++ [a]) → a.finalId ≠ int64Max)
    (bids asks : List Level) (out : List FeedUpdate) :
    reconcileWrapping s id bids asks recvTsNs out = reconcile s id bids asks recvTsNs out := by
  have hevents := fits_survivors hs id
  have hhead := @lt_of_head_survivors id s.buffered
  rw [reconcileWrapping, reconcile]
  cases hsurvivors : survivors id s.buffered with
  | nil => rfl
  | cons e events =>
    rw [hsurvivors] at hevents hhead hgoes
    obtain ⟨he, hrest⟩ := List.forall_mem_cons.mp hevents
    have hlast : id ≠ int64Max := by
      have hlt := hhead e rfl
      have hle := he.2
      omega
    have hsame : straddlesWrapping id e = straddles id e := by
      rw [straddlesWrapping, straddles, wrapInt64_succ hid hlast]
    simp only [List.head?_cons, Option.any_some, hsame]
    by_cases hstraddle : straddles id e = true
    · obtain ⟨hfirst, hbehind⟩ := forall_split_cons.mp hgoes
      have hreplay := replayWrapping_eq recvTsNs hrest he
        [snapshotUpdate id bids asks recvTsNs, e.update recvTsNs]
        (hfirst ⟨hstraddle, trivial⟩) fun before a b behind hsplit hlinked =>
          hbehind before a b behind hsplit ⟨hstraddle, hlinked⟩
      rcases hbuffered : replayBuffered recvTsNs
        [snapshotUpdate id bids asks recvTsNs, e.update recvTsNs] e.finalId false events with
        ⟨staged, through, _ | _⟩
      all_goals
        rw [hbuffered] at hreplay
        simp [hstraddle, replayWrapping, replayBuffered, hreplay, hbuffered]
    · simp [hstraddle]

theorem call_wrapping (hs : Stored s) {c : ProtocolCall} (h : CallFits parse config s c) :
    (wrapping parse config).call s c = (protocol parse config).call s c := by
  cases c with
  | frame bytes recvTsNs =>
    simp only [VenueProtocol.call, wrapping, protocol, onFrameWrapping, onFrame]
    cases hread : readFrame parse config bytes with
    | malformed => rfl
    | ignored => rfl
    | event e => exact onEventWrapping_eq hs (h.position e hread) e []
  | restSnapshot body recvTsNs =>
    simp only [VenueProtocol.call, wrapping, protocol, onRestSnapshotWrapping, onRestSnapshot]
    cases hread : readBody parse body with
    | malformed => rfl
    | malformedLevels => rfl
    | snapshot id bids asks =>
      exact reconcileWrapping_eq hs (readBody_fits hread) (h id bids asks hread) bids asks []
  | reset => rfl

variable (parse config) in
theorem after_wrapping {calls : List ProtocolCall}
    (h : ∀ before c, before ++ [c] <+: calls →
      CallFits parse config ((protocol parse config).after {} before) c) :
    (wrapping parse config).after {} calls = (protocol parse config).after {} calls := by
  have hstored : ∀ before, Stored ((protocol parse config).after {} before) := by
    have hstep : ∀ s c, Stored s → Stored ((protocol parse config).call s c).protocol :=
      fun _ c hs => call_stored hs c
    exact VenueProtocol.after_rule _ hstep stored_initial
  induction calls using List.reverseRecOn with
  | nil => rfl
  | append_singleton calls c ih =>
    have hbefore := ih fun before c' hle => h before c' (hle.trans (List.prefix_append _ _))
    rw [VenueProtocol.after_snoc, VenueProtocol.after_snoc, hbefore,
      call_wrapping (hstored calls) (h calls c (List.prefix_refl _))]

/-- One call: the position and the order of what is emitted, against the condition. -/
structure CallForward (s : State) (called : Called State) : Prop where
  position : s.synced = true → called.protocol.synced = true →
    s.lastUpdateId ≤ called.protocol.lastUpdateId
  deltas : Advances s.lastUpdateId called.out

theorem CallForward.idle (verdict : FrameVerdict) {t : State}
    (hsame : t.lastUpdateId = s.lastUpdateId) : CallForward s ⟨verdict, t, []⟩ :=
  ⟨fun _ _ => hsame.ge, trivial⟩

theorem onEventWrapping_forward (h : Kept s) {e : PendingEvent} (he : FitsInt64 e.finalId) :
    CallForward s (onEventWrapping config s e recvTsNs []) ↔
      (s.synced = true → e.firstId = wrapInt64 (s.lastUpdateId + 1) →
        s.lastUpdateId ≠ int64Max ∧ e.firstId ≤ e.finalId) := by
  rw [onEventWrapping]
  split_ifs with hsynced hfull hgap
  · exact ⟨fun _ hs => by simp [hsynced] at hs, fun _ => ⟨fun _ _ => le_rfl, trivial⟩⟩
  · exact ⟨fun _ hs => by simp [hsynced] at hs, fun _ => ⟨fun _ _ => le_rfl, trivial⟩⟩
  · exact ⟨fun _ _ hnext => (hgap hnext).elim, fun _ => ⟨fun _ _ => le_rfl, trivial⟩⟩
  · have hnext := not_not.mp hgap
    have hone : Advances s.lastUpdateId [e.update recvTsNs] ↔ _ :=
      advances_iff (List.forall_mem_singleton.mpr he) h.position ⟨hnext, trivial⟩
    rw [pointForward_cons] at hone
    constructor
    · intro hforward _ _
      obtain ⟨hlast, hids, -⟩ := hone.mp hforward.deltas
      exact ⟨hlast (List.cons_ne_nil _ _), hids⟩
    · intro hcond
      obtain ⟨hlast, hids⟩ := hcond (Bool.not_eq_false _ ▸ hsynced) hnext
      have hadvances := hone.mpr ⟨fun _ => hlast, hids, fun hne => (hne rfl).elim,
        List.forall_mem_nil _, List.forall_mem_nil _⟩
      exact ⟨fun _ _ => (hadvances.1 rfl).le, hadvances⟩

theorem reconcileWrapping_forward (h : Kept s) {id : Int} (hid : FitsInt64 id)
    (bids asks : List Level) (recvTsNs : Int) :
    CallForward s (reconcileWrapping s id bids asks recvTsNs []) ↔
      (s.synced = true → s.lastUpdateId ≤ id) ∧
        (ReconcilesWrapping id (survivors id s.buffered) →
          PointForward (survivors id s.buffered)) := by
  by_cases hsynced : s.synced = true
  · -- Nothing is buffered: the snapshot is taken over as it is.
    have hseeded : reconcileWrapping s id bids asks recvTsNs [] =
        ⟨.kOk, ⟨[], [], id, true⟩, [snapshotUpdate id bids asks recvTsNs]⟩ := by
      simp [reconcileWrapping, survivors, replayWrapping, h.drained hsynced]
    have hnone : survivors id s.buffered = [] := by simp [survivors, h.drained hsynced]
    rw [hseeded, hnone]
    constructor
    · intro hforward
      exact ⟨fun _ => hforward.position hsynced rfl, fun _ =>
        ⟨List.forall_mem_nil _, List.forall_mem_nil _⟩⟩
    · intro hcond
      refine ⟨fun _ _ => hcond.1 hsynced, fun hdelta => ?_, trivial⟩
      cases hdelta
  · obtain ⟨hrec, through, heq⟩ | ⟨hrec, staging, heq⟩ :=
      reconcileWrapping_cases s id bids asks recvTsNs
    · have hadvances : Advances s.lastUpdateId (snapshotUpdate id bids asks recvTsNs ::
          (survivors id s.buffered).map fun e => e.update recvTsNs) ↔ _ :=
        advances_reconciled (fits_survivors h.toStored id) hid lt_of_head_survivors hrec
      rw [heq]
      constructor
      · intro hforward
        exact ⟨fun hs => (hsynced hs).elim, fun _ => hadvances.mp hforward.deltas⟩
      · intro hcond
        exact ⟨fun hs => (hsynced hs).elim, hadvances.mpr (hcond.2 hrec)⟩
    · rw [heq]
      refine iff_of_true ⟨fun hs => (hsynced hs).elim, trivial⟩ ?_
      exact ⟨fun hs => (hsynced hs).elim, fun hyes => (hrec hyes).elim⟩

theorem call_forward (h : Kept s) (c : ProtocolCall) :
    CallForward s ((wrapping parse config).call s c) ↔ Forward parse config s c := by
  cases c with
  | frame bytes recvTsNs =>
    simp only [VenueProtocol.call, wrapping, onFrameWrapping, Forward]
    cases hread : readFrame parse config bytes with
    | malformed =>
      apply iff_of_true (.idle _ rfl)
      intro e he
      cases he
    | ignored =>
      apply iff_of_true (.idle _ rfl)
      intro e he
      cases he
    | event e =>
      simp only [Frame.event.injEq, forall_eq']
      exact onEventWrapping_forward h (readFrame_fits hread)
  | restSnapshot body recvTsNs =>
    simp only [VenueProtocol.call, wrapping, onRestSnapshotWrapping, Forward]
    cases hread : readBody parse body with
    | malformed =>
      apply iff_of_true (.idle _ rfl)
      intro id bids asks he
      cases he
    | malformedLevels =>
      apply iff_of_true (.idle _ rfl)
      intro id bids asks he
      cases he
    | snapshot id bids asks =>
      have hone := reconcileWrapping_forward h (readBody_fits hread) bids asks recvTsNs
      constructor
      · intro hforward id' bids' asks' hbody
        cases hbody
        exact hone.mp hforward
      · intro hcond
        exact hone.mpr (hcond id bids asks rfl)
  | reset =>
    refine iff_of_true ⟨?_, trivial⟩ trivial
    intro _ hsynced
    cases hsynced

end Step

section Run
variable (parse : JsonParser) (config : Config)

theorem after_kept (calls : List ProtocolCall) :
    Kept ((wrapping parse config).after {} calls) := by
  have hstep : ∀ s c, Kept s → Kept ((wrapping parse config).call s c).protocol :=
    fun _ c h => call_kept h c
  exact VenueProtocol.after_rule _ hstep kept_initial calls

theorem position_le_of_forward {as bs : List ProtocolCall}
    (hforward : ∀ ds c, ds ++ [c] <+: bs →
      Forward parse config ((wrapping parse config).after {} (as ++ ds)) c)
    (hsynced : ∀ ds, ds <+: bs → ((wrapping parse config).after {} (as ++ ds)).synced = true) :
    ((wrapping parse config).after {} as).lastUpdateId ≤
      ((wrapping parse config).after {} (as ++ bs)).lastUpdateId := by
  induction bs using List.reverseRecOn with
  | nil => simp
  | append_singleton bs c ih =>
    have hpre : ∀ ds, ds <+: bs → ds <+: bs ++ [c] := fun ds hds =>
      hds.trans (List.prefix_append bs [c])
    have hbefore := ih (fun ds c' hds => hforward ds c' (hpre _ hds))
      fun ds hds => hsynced ds (hpre ds hds)
    have hcall := (call_forward (after_kept parse config (as ++ bs)) c).mpr
      (hforward bs c (List.prefix_refl _))
    have hstep := hcall.position (hsynced bs (List.prefix_append bs [c])) (by
      rw [← VenueProtocol.after_snoc, List.append_assoc]
      exact hsynced (bs ++ [c]) (List.prefix_refl _))
    rw [← List.append_assoc, VenueProtocol.after_snoc]
    exact hbefore.trans hstep

theorem forwardOnly_iff (calls : List ProtocolCall) :
    ForwardOnly parse config calls ↔ ∀ as c cs, calls = as ++ c :: cs →
      Forward parse config ((wrapping parse config).after {} as) c := by
  constructor
  · intro h as c cs hsplit
    refine (call_forward (after_kept parse config as) c).mp
      ⟨fun hs hs' => ?_, h.deltas as c cs hsplit⟩
    have hpos := h.position as [c] cs (by simp [hsplit])
    rw [VenueProtocol.after_snoc] at hpos
    apply hpos
    intro ds hds
    rcases List.prefix_cons_iff.mp hds with rfl | ⟨rest, rfl, hrest⟩
    · simpa using hs
    · cases List.prefix_nil.mp hrest
      rw [VenueProtocol.after_snoc]
      exact hs'
  · intro h
    refine ⟨fun as bs cs hsplit => position_le_of_forward parse config fun ds c hds => ?_,
      fun as c cs hsplit => ?_⟩
    · obtain ⟨rest, rfl⟩ := hds
      exact h (as ++ ds) c (rest ++ cs) (by simp [hsplit])
    · exact ((call_forward (after_kept parse config as) c).mpr (h as c cs hsplit)).deltas

/-- A second response to one request, after the book has moved on. -/
theorem growingBid_goes_back : ¬ ForwardOnly growingBidParser {}
    [.frame (utf8 growingBidEvent) 0, .restSnapshot (utf8 growingBidSnapshot) 0,
      .restSnapshot (utf8 growingBidSnapshot) 0] := by
  intro h
  have hback := h.position
    [.frame (utf8 growingBidEvent) 0, .restSnapshot (utf8 growingBidSnapshot) 0]
    [.restSnapshot (utf8 growingBidSnapshot) 0] [] rfl
  refine absurd (hback fun ds hds => ?_) (by decide +kernel)
  rcases List.prefix_cons_iff.mp hds with rfl | ⟨rest, rfl, hrest⟩
  · decide +kernel
  · cases List.prefix_nil.mp hrest
    decide +kernel

end Run

end Binance

end CexAggregator
