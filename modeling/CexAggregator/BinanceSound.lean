import CexAggregator.Binance
import CexAggregator.History

/-!
# Binance reconciliation is sound

An event `[U, u]` carries the quantities at `u` of every price that changed in between,
so it amends the venue's book at any id from `U - 1` on. That is why an event may overlap
the snapshot it straddles, and why the live rule needs no more than `U = last + 1`.
-/

namespace CexAggregator
namespace Binance
open OrderedTable

/-- The quantities at `finalId` of every price that changed in `firstId..finalId`. -/
structure CarriesChanges (resting : Int → Int → Int) (firstId finalId : Int)
    (levels : List Level) : Prop where
  listed : ∀ l ∈ levels, l.qty = resting finalId l.px
  complete : ∀ px id, firstId ≤ id → id ≤ finalId → resting (id - 1) px ≠ resting id px →
    ∃ l ∈ levels, l.px = px

structure FaithfulEvent (history : VenueHistory) (e : PendingEvent) : Prop where
  nonempty : e.firstId ≤ e.finalId
  bids : CarriesChanges (fun id => (history.book id).bids.resting) e.firstId e.finalId e.bids
  asks : CarriesChanges (fun id => (history.book id).asks.resting) e.firstId e.finalId e.asks

/-- Frames and bodies say nothing false about the history; they may come in any order, be
repeated, be missing, or not be depth data at all. -/
def FaithfulCall (parse : JsonParser) (config : Config) (history : VenueHistory) :
    ProtocolCall → Prop
  | .frame bytes _ => ∀ e, readFrame parse config bytes = .event e → FaithfulEvent history e
  | .restSnapshot body _ => ∀ id bids asks, readBody parse body = .snapshot id bids asks →
      ListsBook (history.book id) bids asks
  | .reset => True

theorem CarriesChanges.amends {resting : Int → Int → Int} {firstId finalId id : Int}
    {levels : List Level} (h : CarriesChanges resting firstId finalId levels)
    (hfirst : firstId - 1 ≤ id) (hfinal : id ≤ finalId) :
    Amends (resting id) (resting finalId) levels := by
  refine ⟨h.listed, fun px hne => ?_⟩
  by_contra hnot
  -- A price that is not listed has not moved since `firstId - 1`.
  have hconst : ∀ upto, id ≤ upto → upto ≤ finalId → resting id px = resting upto px := by
    intro upto hle
    induction upto, hle using Int.leInduction with
    | base => exact fun _ => rfl
    | succ upto hle ih =>
      intro hupto
      apply (ih (by omega)).trans
      by_contra hmove
      refine hnot (h.complete px (upto + 1) (by omega) hupto ?_)
      rwa [add_sub_cancel_right]
  exact hne (hconst finalId hfinal le_rfl)

section Parsing
variable {parse : JsonParser} {config : Config}

def PendingEvent.Admissible (e : PendingEvent) : Prop := ∀ l ∈ e.bids ++ e.asks, l.Admissible

theorem parseDepthEvent_admissible {root : Option Json} {e : PendingEvent}
    (h : parseDepthEvent root = some e) : e.Admissible := by
  simp only [parseDepthEvent, Option.bind_eq_bind, Option.bind_eq_some_iff] at h
  obtain ⟨_, _, _, _, bids, hbids, asks, hasks, he⟩ := h
  cases he
  exact List.forall_mem_append.mpr
    ⟨Json.parseLevelArray_admissible hbids, Json.parseLevelArray_admissible hasks⟩

theorem readFrame_admissible {frame : Bytes} {e : PendingEvent}
    (h : readFrame parse config frame = .event e) : e.Admissible := by
  unfold readFrame at h
  split at h
  · cases h
  split at h
  · cases h
  split_ifs at h
  split at h
  · cases h
  · rename_i hparsed
    cases h
    exact parseDepthEvent_admissible hparsed

theorem readBody_admissible {body : Bytes} {id : Int} {bids asks : List Level}
    (h : readBody parse body = .snapshot id bids asks) : ∀ l ∈ bids ++ asks, l.Admissible := by
  unfold readBody at h
  split at h
  · cases h
  split at h
  · cases h
  split at h
  · rename_i hbids hasks
    cases h
    exact List.forall_mem_append.mpr
      ⟨Json.parseLevelArray_admissible hbids, Json.parseLevelArray_admissible hasks⟩
  · cases h

end Parsing

section History
variable {history : VenueHistory} {e : PendingEvent}

theorem apply_event (hadm : e.Admissible) (h : FaithfulEvent history e) {id : Int}
    (hfirst : e.firstId - 1 ≤ id) (hfinal : id ≤ e.finalId) (recvTsNs : Int) :
    applyFeedUpdate (history.book id) (e.update recvTsNs).toFeedUpdateLevels =
      history.book e.finalId :=
  applyFeedUpdate_delta (history.invariant id) (history.invariant e.finalId) rfl hadm
    ⟨h.bids.amends hfirst hfinal, h.asks.amends hfirst hfinal⟩

theorem apply_snapshot {id : Int} {bids asks : List Level}
    (hadm : ∀ l ∈ bids ++ asks, l.Admissible) (h : ListsBook (history.book id) bids asks)
    (book : VenueBook) (recvTsNs : Int) :
    applyFeedUpdate book (snapshotUpdate id bids asks recvTsNs).toFeedUpdateLevels =
      history.book id :=
  applyFeedUpdate_snapshot book (history.invariant id) rfl hadm h

theorem replayBuffered_sound {book : VenueBook} {recvTsNs : Int} {events : List PendingEvent}
    (hevents : ∀ e ∈ events, e.Admissible ∧ FaithfulEvent history e)
    {staging : List FeedUpdate} {appliedThrough : Int} {first : Bool}
    (hbook : applyUpdates book staging = history.book appliedThrough)
    (hfirst : first = true → ∀ e ∈ events.head?, straddles appliedThrough e)
    {staged : List FeedUpdate} {through : Int}
    (h : replayBuffered recvTsNs staging appliedThrough first events = (staged, through, true)) :
    applyUpdates book staged = history.book through := by
  induction events generalizing staging appliedThrough first with
  | nil =>
    cases h
    exact hbook
  | cons e events ih =>
    obtain ⟨⟨hadm, hfaithful⟩, hrest⟩ := List.forall_mem_cons.mp hevents
    simp only [replayBuffered] at h
    split_ifs at h with hgap
    · cases h
    · have hreach : e.firstId - 1 ≤ appliedThrough ∧ appliedThrough ≤ e.finalId := by
        have hlen := hfaithful.nonempty
        cases first with
        | true =>
          have hstraddle := hfirst rfl e rfl
          simp only [straddles, decide_eq_true_eq] at hstraddle
          omega
        | false =>
          simp only [true_and, ne_eq, not_not] at hgap
          omega
      refine ih hrest ?_ (fun hfalse => (Bool.false_ne_true hfalse).elim) h
      rw [applyUpdates_append, hbook, applyUpdates_cons, applyUpdates_nil]
      exact apply_event hadm hfaithful hreach.1 hreach.2 recvTsNs

end History

/-- What every call keeps: a synced replica holds the venue's book at the adapter's id,
and everything buffered is faithful. -/
structure Sound (history : VenueHistory) (r : Replica State) : Prop where
  book : r.protocol.synced = true → r.book = history.book r.protocol.lastUpdateId
  buffered : ∀ e ∈ r.protocol.buffered, e.Admissible ∧ FaithfulEvent history e

section Steps
variable {parse : JsonParser} {config : Config} {history : VenueHistory} {r : Replica State}

theorem sound_reset (s : State) (book : VenueBook) : Sound history ⟨reset s, book⟩ :=
  ⟨fun h => (Bool.false_ne_true h).elim, fun _ he => (List.not_mem_nil he).elim⟩

theorem sound_settle {called : Called State}
    (h : called.verdict = .kOk → Sound history ⟨called.protocol, applyUpdates r.book called.out⟩) :
    Sound history (Replica.settle (protocol parse config) r.book called) := by
  unfold Replica.settle
  split_ifs with hok
  · exact h hok
  · exact sound_reset called.protocol _

theorem sound_onEvent (h : Sound history r) {e : PendingEvent} (hadm : e.Admissible)
    (he : FaithfulEvent history e) (recvTsNs : Int) :
    (onEvent config r.protocol e recvTsNs []).verdict = .kOk →
      Sound history ⟨(onEvent config r.protocol e recvTsNs []).protocol,
        applyUpdates r.book (onEvent config r.protocol e recvTsNs []).out⟩ := by
  unfold onEvent
  split_ifs with hsynced hfull hgap
  · exact fun hok => by cases hok
  · refine fun _ => ⟨fun hs => ?_, List.forall_mem_append.mpr
      ⟨h.buffered, List.forall_mem_singleton.mpr ⟨hadm, he⟩⟩⟩
    simp [hsynced] at hs
  · exact fun hok => by cases hok
  · intro _
    refine ⟨fun hs => ?_, h.buffered⟩
    have hlen := he.nonempty
    rw [List.nil_append, applyUpdates_cons, applyUpdates_nil, h.book hs]
    exact apply_event hadm he (by omega) (by omega) recvTsNs

theorem sound_reconcile (h : Sound history r) {id : Int} {bids asks : List Level}
    (hadm : ∀ l ∈ bids ++ asks, l.Admissible) (hsnapshot : ListsBook (history.book id) bids asks)
    (recvTsNs : Int) :
    (reconcile r.protocol id bids asks recvTsNs []).verdict = .kOk →
      Sound history ⟨(reconcile r.protocol id bids asks recvTsNs []).protocol,
        applyUpdates r.book (reconcile r.protocol id bids asks recvTsNs []).out⟩ := by
  intro hok
  have hkept : ∀ e ∈ survivors id r.protocol.buffered, e.Admissible ∧ FaithfulEvent history e :=
    fun e he => h.buffered e ((List.dropWhile_sublist _).subset he)
  obtain ⟨staged, through, hstraddle, hreplay, heq⟩ := reconcile_ok hok
  rw [heq]
  refine ⟨fun _ => ?_, fun _ he => (List.not_mem_nil he).elim⟩
  rw [List.nil_append]
  refine replayBuffered_sound hkept ?_ (fun _ => hstraddle) hreplay
  rw [applyUpdates_cons, applyUpdates_nil]
  exact apply_snapshot hadm hsnapshot r.book recvTsNs

theorem sound_call (h : Sound history r) {call : ProtocolCall}
    (hcall : FaithfulCall parse config history call) :
    Sound history (r.call (protocol parse config) call) := by
  apply sound_settle
  intro hok
  cases call with
  | frame bytes recvTsNs =>
    simp only [VenueProtocol.call, protocol, onFrame] at hok ⊢
    cases hread : readFrame parse config bytes with
    | ignored => exact ⟨h.book, h.buffered⟩
    | malformed => simp [hread] at hok
    | event e =>
      rw [hread] at hok
      exact sound_onEvent h (readFrame_admissible hread) (hcall e hread) recvTsNs hok
  | restSnapshot body recvTsNs =>
    simp only [VenueProtocol.call, protocol, onRestSnapshot] at hok ⊢
    cases hread : readBody parse body with
    | malformed => simp [hread] at hok
    | malformedLevels => simp [hread] at hok
    | snapshot id bids asks =>
      rw [hread] at hok
      exact sound_reconcile h (readBody_admissible hread) (hcall id bids asks hread) recvTsNs hok
  | reset => exact sound_reset r.protocol _

end Steps

theorem run_sound (parse : JsonParser) (config : Config) (history : VenueHistory)
    (calls : List ProtocolCall) (hcalls : ∀ c ∈ calls, FaithfulCall parse config history c)
    (book : VenueBook) :
    let r := Replica.run (protocol parse config) ⟨{}, book⟩ calls
    r.protocol.synced = true → r.book = history.book r.protocol.lastUpdateId :=
  (Replica.run_rule (I := Sound history) (protocol parse config)
    (fun _ _ h hc => sound_call h hc) (sound_reset {} book) hcalls).book

section Straddle

def growingBidEvent : String := "\x7b\"e\":\"depthUpdate\",\"U\":11,\"u\":12," ++
  "\"b\":[[\"0.00000100\",\"0.00000002\"]],\"a\":[]\x7d"

def growingBidSnapshot : String := "\x7b\"lastUpdateId\":11," ++
  "\"bids\":[[\"0.00000100\",\"0.00000001\"]],\"asks\":[]\x7d"

def growingBidParser : JsonParser := parserOf
  [(growingBidEvent, .object [("e", .string "depthUpdate"), ("U", .int64 11), ("u", .int64 12),
      ("b", .array [.array [.string "0.00000100", .string "0.00000002"]]), ("a", .array [])]),
    (growingBidSnapshot, .object [("lastUpdateId", .int64 11),
      ("bids", .array [.array [.string "0.00000100", .string "0.00000001"]]),
      ("asks", .array [])])]

theorem growingBid_event : FaithfulEvent growingBid ⟨11, 12, 0, [⟨100, 2⟩], []⟩ := by
  refine ⟨by decide, ⟨by decide, fun px id _ _ hne => ?_⟩, ⟨by decide, fun px id _ _ hne => ?_⟩⟩
  · by_contra hnot
    have hpx : 100 ≠ px := fun hpx => hnot ⟨_, List.mem_singleton_self _, hpx⟩
    apply hne
    simp only [growingBid]
    split_ifs <;> simp [SideBook.resting, valueAt, Entry.key, hpx]
  · refine (hne ?_).elim
    simp only [growingBid]
    split_ifs <;> rfl

theorem run_sound_straddle :
    let r := Replica.run (protocol growingBidParser {}) ⟨{}, {}⟩
      [.frame (utf8 growingBidEvent) 0, .restSnapshot (utf8 growingBidSnapshot) 0]
    r.protocol.synced = true ∧ r.book = growingBid.book r.protocol.lastUpdateId := by
  have hcalls : ∀ c ∈ [ProtocolCall.frame (utf8 growingBidEvent) 0,
      .restSnapshot (utf8 growingBidSnapshot) 0],
      FaithfulCall growingBidParser {} growingBid c := by
    refine List.forall_mem_cons.mpr ⟨fun e he => ?_, List.forall_mem_singleton.mpr ?_⟩
    · rw [show readFrame growingBidParser {} (utf8 growingBidEvent) =
        .event ⟨11, 12, 0, [⟨100, 2⟩], []⟩ by decide +kernel] at he
      cases he
      exact growingBid_event
    · intro id bids asks hbody
      rw [show readBody growingBidParser (utf8 growingBidSnapshot) =
        .snapshot 11 [⟨100, 1⟩] [] by decide +kernel] at hbody
      cases hbody
      exact growingBid_lists (by decide)
  have hsynced : (Replica.run (protocol growingBidParser {}) ⟨{}, {}⟩
      [.frame (utf8 growingBidEvent) 0, .restSnapshot (utf8 growingBidSnapshot) 0]
      ).protocol.synced = true := by
    decide +kernel
  exact ⟨hsynced, run_sound growingBidParser {} growingBid _ hcalls {} hsynced⟩

end Straddle

end Binance
end CexAggregator
