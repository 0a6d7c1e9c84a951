import CexAggregator.Bybit
import CexAggregator.OkxSound

/-!
# Bybit detects every loss

A delta is numbered one above the state it amends, so the number alone tells whether the
replica stands at that state. With OKX this settles both venues that snapshot over the
socket.
-/

namespace CexAggregator
namespace Bybit
open Json

inductive FaithfulBook (history : VenueHistory) (data : Json) :
    Bool → Option Int → Int → Prop
  | snapshot {before : Option Int} {id : Int} {bids asks : List Level}
      (hbids : bidsOf data = some bids) (hasks : asksOf data = some asks)
      (hbook : ListsBook (history.book id) bids asks) : FaithfulBook history data true before id
  | delta {prev : Int} {bids asks : List Level}
      (hbids : bidsOf data = some bids) (hasks : asksOf data = some asks)
      (hbook : AmendsBook (history.book prev) (history.book (prev + 1)) bids asks) :
      FaithfulBook history data false (some prev) (prev + 1)

section Stream
variable (parse : JsonParser) (config : Config) (history : VenueHistory)

def FaithfulStream : Option Int → List (Bytes × Int) → Prop
  | _, [] => True
  | before, f :: frames =>
    (readFrame parse config f.1 = .ignored ∧ FaithfulStream before frames) ∨
    ∃ isSnapshot id root data, readFrame parse config f.1 = .book isSnapshot id root data ∧
      FaithfulBook history data isSnapshot before id ∧ FaithfulStream (some id) frames

def FaithfulFrame (bytes : Bytes) : Prop :=
  ∀ isSnapshot id root data, readFrame parse config bytes = .book isSnapshot id root data →
    ∃ before, FaithfulBook history data isSnapshot before id

def Breaks (position : Option Int) (bytes : Bytes) : Prop :=
  ∃ id root data, readFrame parse config bytes = .book false id root data ∧
    position ≠ some (id - 1)

end Stream

def position (s : State) : Option Int := if s.synced then some s.lastUpdateId else none

section Frames
variable {parse : JsonParser} {config : Config} {history : VenueHistory}

theorem faithfulStream_frames {before : Option Int} {stream : List (Bytes × Int)}
    (h : FaithfulStream parse config history before stream) :
    ∀ f ∈ stream, FaithfulFrame parse config history f.1 := by
  induction stream generalizing before with
  | nil => exact fun f hf => (List.not_mem_nil hf).elim
  | cons f stream ih =>
    rcases h with ⟨hread, hrest⟩ | ⟨isSnapshot, id, root, data, hread, hbook, hrest⟩
    · refine List.forall_mem_cons.mpr ⟨fun kind id root data hdata => ?_, ih hrest⟩
      rw [hread] at hdata
      cases hdata
    · refine List.forall_mem_cons.mpr ⟨fun kind id' root' data' hdata => ?_, ih hrest⟩
      rw [hread] at hdata
      cases hdata
      exact ⟨before, hbook⟩

theorem onFrame_sound {s : State} {bytes : Bytes} {recvTsNs : Int} {book : VenueBook}
    (hframe : FaithfulFrame parse config history bytes)
    (hbook : ∀ id ∈ position s, book = history.book id)
    (hok : (onFrame parse config s bytes recvTsNs []).verdict = .kOk) :
    ∀ id ∈ position (onFrame parse config s bytes recvTsNs []).protocol,
      applyUpdates book (onFrame parse config s bytes recvTsNs []).out = history.book id := by
  unfold onFrame at hok ⊢
  cases hread : readFrame parse config bytes with
  | ignored => exact hbook
  | malformed => simp [hread] at hok
  | rejected reason => simp [hread] at hok
  | book isSnapshot id root data =>
    simp only [hread] at hok ⊢
    obtain ⟨before, hmessage⟩ := hframe _ _ _ _ hread
    obtain ⟨hcontinues, bids, asks, hbids, hasks, heq⟩ := onBook_ok hok
    have hadm : (bookUpdate isSnapshot id root bids asks recvTsNs).Admissible :=
      List.forall_mem_append.mpr
        ⟨parseLevelArray_admissible hbids, parseLevelArray_admissible hasks⟩
    rw [heq, List.nil_append, applyUpdates_cons, applyUpdates_nil]
    intro x hx
    cases hmessage with
    | snapshot hbids' hasks' hlists =>
      cases hx
      cases hbids.symm.trans hbids'
      cases hasks.symm.trans hasks'
      exact applyFeedUpdate_snapshot _ (history.invariant id) rfl hadm hlists
    | @delta prev _ _ hbids' hasks' hamends =>
      obtain ⟨hsynced, hnumber⟩ := hcontinues rfl
      obtain rfl : prev = s.lastUpdateId := by omega
      cases hbids.symm.trans hbids'
      cases hasks.symm.trans hasks'
      simp only [position, hsynced, Bool.or_true, ↓reduceIte, Option.mem_def,
        Option.some.injEq] at hx
      rw [← hx, hbook s.lastUpdateId (by simp [position, hsynced])]
      exact applyFeedUpdate_delta (history.invariant _) (history.invariant _) rfl hadm hamends

theorem onFrame_break {s : State} {bytes : Bytes} {recvTsNs : Int} {out : List FeedUpdate}
    (hbreak : Breaks parse config (position s) bytes) :
    (onFrame parse config s bytes recvTsNs out).verdict = .kNeedsResync := by
  obtain ⟨id, root, data, hread, hne⟩ := hbreak
  simp only [onFrame, hread, onBook, true_and]
  split_ifs with hsynced hgap
  · rfl
  · rfl
  · refine (hne ?_).elim
    rw [Bool.not_eq_false] at hsynced
    rw [position, if_pos hsynced, Option.some.injEq]
    omega

theorem onFrame_continues {s : State} {bytes : Bytes} {recvTsNs : Int} {out : List FeedUpdate}
    {isSnapshot : Bool} {id : Int} {root data : Json} {before : Option Int}
    (hread : readFrame parse config bytes = .book isSnapshot id root data)
    (hbook : FaithfulBook history data isSnapshot before id)
    (hstands : ∀ x ∈ before, position s = some x) :
    (onFrame parse config s bytes recvTsNs out).verdict = .kOk ∧
      position (onFrame parse config s bytes recvTsNs out).protocol = some id := by
  cases hbook with
  | @snapshot _ _ bids asks hbids hasks _ =>
    simp [onFrame, hread, onBook, hbids, hasks, position]
  | @delta prev bids asks hbids hasks _ =>
    have hposition := hstands prev rfl
    unfold position at hposition
    split_ifs at hposition with hsynced
    cases hposition
    simp [onFrame, hread, onBook, hbids, hasks, position, hsynced]

theorem deliver_stream {stream : List (Bytes × Int)} {before : Option Int}
    (h : FaithfulStream parse config history before stream) {s : State}
    (hstands : ∀ x ∈ before, position s = some x) :
    (protocol parse config).deliver s (frameCalls stream) ≠ none := by
  induction stream generalizing before s with
  | nil => exact Option.some_ne_none _
  | cons f stream ih =>
    rcases h with ⟨hread, hrest⟩ | ⟨isSnapshot, id, root, data, hread, hbook, hrest⟩
    · have hcall : (protocol parse config).call s (.frame f.1 f.2) = ⟨.kOk, s, []⟩ := by
        simp only [VenueProtocol.call, protocol, onFrame, hread]
      apply VenueProtocol.deliver_cons_ne_none _ (by rw [hcall])
      rw [hcall]
      exact ih hrest hstands
    · obtain ⟨hok, hposition⟩ := onFrame_continues hread hbook hstands
      refine VenueProtocol.deliver_cons_ne_none _ hok (ih hrest fun x hx => ?_)
      cases hx
      exact hposition

theorem lossDetection {stream : List (Bytes × Int)}
    (h : FaithfulStream parse config history none stream) (s : State) :
    LossDetection (protocol parse config) (reset s) position history (Breaks parse config)
      stream where
  follows delivered hsub r hr book := by
    have hframes := faithfulStream_frames h
    exact VenueProtocol.deliver_frames_rule (protocol parse config)
      (I := fun s book => ∀ id ∈ position s, book = history.book id)
      (fun s book bytes recvTsNs hI hframe hok => onFrame_sound hframe hI hok)
      book (fun id hid => by cases hid) (fun f hf => hframes f (hsub.subset hf)) hr
  detects delivered f hsub r hr hbreak := onFrame_break hbreak
  accepts := deliver_stream h (fun _ hid => by cases hid)

end Frames

end Bybit

/-- Both venues that snapshot over the socket: whichever frames of a faithful session are
lost, an accepted replica is the venue's book at its position, a delta that does not
continue from there is refused, and a session without losses is accepted throughout. -/
theorem okx_bybit_lossDetection (parse : JsonParser) (okx : Okx.Config) (bybit : Bybit.Config)
    (history : VenueHistory) (okxStream bybitStream : List (Bytes × Int))
    (hokx : Okx.FaithfulStream parse okx history none okxStream)
    (hbybit : Bybit.FaithfulStream parse bybit history none bybitStream)
    (okxStart : Okx.State) (bybitStart : Bybit.State) :
    LossDetection (Okx.protocol parse okx) (Okx.reset okxStart) Okx.position history
        (Okx.Breaks parse okx) okxStream ∧
      (∀ delivered : List (Bytes × Int), delivered.Sublist okxStream →
        (∀ f ∈ delivered, Okx.readFrame parse okx f.1 ≠ .entries true []) →
        ∀ r, (Okx.protocol parse okx).deliver (Okx.reset okxStart) (frameCalls delivered) = some r →
          r.1.synced = true → Okx.position r.1 ≠ none) ∧
      LossDetection (Bybit.protocol parse bybit) (Bybit.reset bybitStart) Bybit.position history
        (Bybit.Breaks parse bybit) bybitStream :=
  ⟨Okx.lossDetection hokx okxStart,
    fun _ _ hframes _ hr hsynced => Okx.synced_position hframes okxStart hr hsynced,
    Bybit.lossDetection hbybit bybitStart⟩

section Sessions

def bookEntry : Json := .array [.array [.string "0.00000100", .string "0.00000001"]]
def grownEntry : Json := .array [.array [.string "0.00000100", .string "0.00000002"]]

def okxSnapshotText : String := "\x7b\"action\":\"snapshot\",\"data\":[\x7b\"seqId\":10," ++
  "\"bids\":[[\"0.00000100\",\"0.00000001\"]],\"asks\":[]\x7d]\x7d"

def okxUpdateText : String := "\x7b\"action\":\"update\",\"data\":[\x7b\"prevSeqId\":10," ++
  "\"seqId\":12,\"bids\":[[\"0.00000100\",\"0.00000002\"]],\"asks\":[]\x7d," ++
  "\x7b\"prevSeqId\":12,\"seqId\":12,\"bids\":[],\"asks\":[]\x7d]\x7d"

def bybitSnapshotText : String :=
  "\x7b\"topic\":\"orderbook.200.BTCUSDT\",\"type\":\"snapshot\",\"data\":\x7b\"u\":11," ++
    "\"b\":[[\"0.00000100\",\"0.00000001\"]],\"a\":[]\x7d\x7d"

def bybitDeltaText : String :=
  "\x7b\"topic\":\"orderbook.200.BTCUSDT\",\"type\":\"delta\",\"data\":\x7b\"u\":12," ++
    "\"b\":[[\"0.00000100\",\"0.00000002\"]],\"a\":[]\x7d\x7d"

def okxSnapshotEntry : Json :=
  .object [("seqId", .int64 10), ("bids", bookEntry), ("asks", .array [])]
def okxUpdateEntry : Json := .object [("prevSeqId", .int64 10), ("seqId", .int64 12),
  ("bids", grownEntry), ("asks", .array [])]
def okxQuietEntry : Json := .object [("prevSeqId", .int64 12), ("seqId", .int64 12),
  ("bids", .array []), ("asks", .array [])]
def bybitSnapshotData : Json := .object [("u", .int64 11), ("b", bookEntry), ("a", .array [])]
def bybitDeltaData : Json := .object [("u", .int64 12), ("b", grownEntry), ("a", .array [])]

def bybitRoot (type : String) (data : Json) : Json :=
  .object [("topic", .string "orderbook.200.BTCUSDT"), ("type", .string type), ("data", data)]

def sessionParser : JsonParser := parserOf
  [(okxSnapshotText, .object [("action", .string "snapshot"), ("data", .array [okxSnapshotEntry])]),
    (okxUpdateText, .object [("action", .string "update"),
      ("data", .array [okxUpdateEntry, okxQuietEntry])]),
    (bybitSnapshotText, bybitRoot "snapshot" bybitSnapshotData),
    (bybitDeltaText, bybitRoot "delta" bybitDeltaData)]

theorem sessionParser_okxUpdate : sessionParser (utf8 okxUpdateText) =
    some (.object [("action", .string "update"),
      ("data", .array [okxUpdateEntry, okxQuietEntry])]) := by
  rw [sessionParser, parserOf_of_ne (by decide +kernel), parserOf_self]

theorem sessionParser_bybitSnapshot : sessionParser (utf8 bybitSnapshotText) =
    some (bybitRoot "snapshot" bybitSnapshotData) := by
  rw [sessionParser, parserOf_of_ne (by decide +kernel), parserOf_of_ne (by decide +kernel),
    parserOf_self]

theorem sessionParser_bybitDelta : sessionParser (utf8 bybitDeltaText) =
    some (bybitRoot "delta" bybitDeltaData) := by
  rw [sessionParser, parserOf_of_ne (by decide +kernel), parserOf_of_ne (by decide +kernel),
    parserOf_of_ne (by decide +kernel), parserOf_self]

theorem okxSession_faithful : Okx.FaithfulStream sessionParser {} growingBid none
    [(utf8 okxSnapshotText, 0), (utf8 okxUpdateText, 0)] := by
  have hsnapshot : Okx.readFrame sessionParser {} (utf8 okxSnapshotText) =
      .entries true [okxSnapshotEntry] := by
    rw [Okx.readFrame, if_neg (by decide +kernel), sessionParser, parserOf_self]
    rfl
  have hupdate : Okx.readFrame sessionParser {} (utf8 okxUpdateText) =
      .entries false [okxUpdateEntry, okxQuietEntry] := by
    rw [Okx.readFrame, if_neg (by decide +kernel), sessionParser_okxUpdate]
    rfl
  refine Or.inr ⟨true, _, some 10, hsnapshot, ⟨some 10, ?_, rfl⟩,
    Or.inr ⟨false, _, some 12, hupdate, ⟨some 12, ?_, some 12, ?_, rfl⟩, trivial⟩⟩
  · exact .snapshot rfl rfl (by decide +kernel) (by decide +kernel) (growingBid_lists (by decide))
  · exact .delta rfl rfl rfl (by decide +kernel) (by decide +kernel)
      (growingBid_amends (by decide))
  · exact .noChange rfl rfl rfl

theorem bybitSession_faithful : Bybit.FaithfulStream sessionParser {} growingBid none
    [(utf8 bybitSnapshotText, 0), (utf8 bybitDeltaText, 0)] := by
  have hsnapshot : Bybit.readFrame sessionParser {} (utf8 bybitSnapshotText) =
      .book true 11 (bybitRoot "snapshot" bybitSnapshotData) bybitSnapshotData := by
    rw [Bybit.readFrame, sessionParser_bybitSnapshot]
    rfl
  have hdelta : Bybit.readFrame sessionParser {} (utf8 bybitDeltaText) =
      .book false 12 (bybitRoot "delta" bybitDeltaData) bybitDeltaData := by
    rw [Bybit.readFrame, sessionParser_bybitDelta]
    rfl
  refine Or.inr ⟨true, 11, _, _, hsnapshot, ?_, Or.inr ⟨false, 12, _, _, hdelta, ?_, trivial⟩⟩
  · exact .snapshot (by decide +kernel) (by decide +kernel) (growingBid_lists (by decide))
  · change Bybit.FaithfulBook growingBid bybitDeltaData false (some 11) (11 + 1)
    exact .delta (by decide +kernel) (by decide +kernel)
      (growingBid_amends (by decide))

theorem okx_bybit_lossDetection_growingBid :
    (Okx.protocol sessionParser {}).deliver {}
        (frameCalls [(utf8 okxSnapshotText, 0), (utf8 okxUpdateText, 0)]) ≠ none ∧
      (Bybit.protocol sessionParser {}).deliver {}
        (frameCalls [(utf8 bybitSnapshotText, 0), (utf8 bybitDeltaText, 0)]) ≠ none := by
  obtain ⟨hokx, -, hbybit⟩ := okx_bybit_lossDetection sessionParser {} {} growingBid _ _
    okxSession_faithful bybitSession_faithful {} {}
  exact ⟨hokx.accepts, hbybit.accepts⟩

end Sessions

end CexAggregator
