import CexAggregator.FrameBatch
import CexAggregator.BinanceSound

/-!
# No bytes break a book

Every level an adapter hands over has been through `parseLevelArray`, whatever frame or body
it came in and however long the event that carries it was held back. That is all the book's
operations ask for.
-/

namespace CexAggregator

section Kept
variable {σ : Type*} (p : VenueProtocol σ)

/-- The updates of the calls that returned `kOk`, in order. No reset follows a failure unless
the calls contain one. -/
def VenueProtocol.kept (s : σ) : List ProtocolCall → List FeedUpdate
  | [] => []
  | c :: calls =>
    (if (p.call s c).verdict = .kOk then (p.call s c).out else []) ++
      VenueProtocol.kept (p.call s c).protocol calls

theorem VenueProtocol.kept_rule {I : σ → Prop} {P : FeedUpdate → Prop}
    (hstep : ∀ s c, I s → I (p.call s c).protocol)
    (hout : ∀ s c, I s → (p.call s c).verdict = .kOk → ∀ u ∈ (p.call s c).out, P u)
    {s : σ} (hs : I s) (calls : List ProtocolCall) : ∀ u ∈ p.kept s calls, P u := by
  induction calls generalizing s with
  | nil => exact fun u hu => (List.not_mem_nil hu).elim
  | cons c calls ih =>
    rw [VenueProtocol.kept]
    refine List.forall_mem_append.mpr ⟨?_, ih (hstep s c hs)⟩
    split_ifs with hok
    · exact hout s c hs hok
    · exact fun u hu => (List.not_mem_nil hu).elim

end Kept

theorem applyFeedUpdate_invariant {book : VenueBook} (h : book.Invariant)
    {update : FeedUpdateLevels} (hadm : update.Admissible) :
    (applyFeedUpdate book update).Invariant := by
  obtain ⟨hbids, hasks⟩ := List.forall_mem_append.mp hadm
  unfold applyFeedUpdate
  split_ifs
  · exact ⟨(SideBook.replace_spec book.bids hbids).1, (SideBook.replace_spec book.asks hasks).1⟩
  · exact ⟨(SideBook.applyBatch_spec h.1 hbids).1, (SideBook.applyBatch_spec h.2 hasks).1⟩

theorem applyUpdates_invariant {book : VenueBook} (h : book.Invariant) {us : List FeedUpdate}
    (hadm : ∀ u ∈ us, u.toFeedUpdateLevels.Admissible) : (applyUpdates book us).Invariant := by
  induction us generalizing book with
  | nil => exact h
  | cons u us ih =>
    obtain ⟨hu, hrest⟩ := List.forall_mem_cons.mp hadm
    exact ih (applyFeedUpdate_invariant h hu) hrest

theorem applyFeedUpdate_of_snapshot {update : FeedUpdateLevels} (h : update.isSnapshot = true)
    (before after : VenueBook) : applyFeedUpdate before update = applyFeedUpdate after update := by
  rw [applyFeedUpdate, applyFeedUpdate, if_pos h, if_pos h]
  rfl

theorem admissible_of_empty {us : List FeedUpdate} (hus : us ∈ some []) :
    ∀ u ∈ us, u.toFeedUpdateLevels.Admissible := by
  cases hus
  exact fun u hu => (List.not_mem_nil hu).elim

namespace Binance
variable {parse : JsonParser} {config : Config} {s : State}

def AdmissibleBuffer (s : State) : Prop := ∀ e ∈ s.buffered, e.Admissible

theorem onEvent_buffer (h : AdmissibleBuffer s) {e : PendingEvent} (he : e.Admissible)
    (recvTsNs : Int) (out : List FeedUpdate) :
    AdmissibleBuffer (onEvent config s e recvTsNs out).protocol := by
  unfold onEvent
  split_ifs
  · exact fun e he => (List.not_mem_nil he).elim
  · exact List.forall_mem_append.mpr ⟨h, List.forall_mem_singleton.mpr he⟩
  · exact h
  · exact h

theorem reconcile_buffer (id : Int) (bids asks : List Level) (recvTsNs : Int)
    (out : List FeedUpdate) :
    AdmissibleBuffer (reconcile s id bids asks recvTsNs out).protocol := by
  simp only [reconcile]
  split_ifs
  · exact fun e he => (List.not_mem_nil he).elim
  · split
    · exact fun e he => (List.not_mem_nil he).elim
    · exact fun e he => (List.not_mem_nil he).elim

theorem call_buffer (h : AdmissibleBuffer s) (c : ProtocolCall) :
    AdmissibleBuffer ((protocol parse config).call s c).protocol := by
  cases c with
  | frame bytes recvTsNs =>
    simp only [VenueProtocol.call, protocol, onFrame]
    cases hread : readFrame parse config bytes with
    | malformed => exact h
    | ignored => exact h
    | event e => exact onEvent_buffer h (readFrame_admissible hread) recvTsNs []
  | restSnapshot body recvTsNs =>
    simp only [VenueProtocol.call, protocol, onRestSnapshot]
    cases readBody parse body with
    | malformed => exact h
    | malformedLevels => exact h
    | snapshot id bids asks => exact reconcile_buffer id bids asks recvTsNs []
  | reset => exact fun e he => (List.not_mem_nil he).elim

theorem batch_admissible (h : AdmissibleBuffer s) {c : ProtocolCall} {us : List FeedUpdate}
    (hus : us ∈ batch parse config s c) : ∀ u ∈ us, u.toFeedUpdateLevels.Admissible := by
  cases c with
  | frame bytes recvTsNs =>
    rw [batch] at hus
    cases hread : readFrame parse config bytes with
    | malformed => simp [hread, Frame.batch] at hus
    | ignored =>
      rw [hread] at hus
      exact admissible_of_empty hus
    | event e =>
      rw [hread] at hus
      cases hus
      split_ifs
      · exact List.forall_mem_singleton.mpr (readFrame_admissible hread)
      · exact fun u hu => (List.not_mem_nil hu).elim
  | restSnapshot body recvTsNs =>
    rw [batch] at hus
    cases hread : readBody parse body with
    | malformed => simp [hread, Body.batch] at hus
    | malformedLevels => simp [hread, Body.batch] at hus
    | snapshot id bids asks =>
      rw [hread] at hus
      cases hus
      refine List.forall_mem_cons.mpr ⟨readBody_admissible hread, fun u hu => ?_⟩
      obtain ⟨e, he, rfl⟩ := List.mem_map.mp hu
      exact h e ((List.dropWhile_sublist _).subset he)
  | reset => exact admissible_of_empty hus

end Binance

namespace Okx
open Json
variable {parse : JsonParser} {config : Config} {s : State}

theorem entryBatch_admissible {isSnapshot : Bool} {recvTsNs : Int} {entry : Json}
    {us : List FeedUpdate} (hus : us ∈ entryBatch isSnapshot recvTsNs entry) :
    ∀ u ∈ us, u.toFeedUpdateLevels.Admissible := by
  simp only [entryBatch, Option.bind_eq_bind, Option.mem_def, Option.bind_eq_some_iff] at hus
  obtain ⟨seqId, -, hus⟩ := hus
  split_ifs at hus
  · exact admissible_of_empty hus
  · obtain ⟨bids, hbids, hus⟩ := Option.bind_eq_some_iff.mp hus
    obtain ⟨asks, hasks, hus⟩ := Option.bind_eq_some_iff.mp hus
    cases hus
    exact List.forall_mem_singleton.mpr (List.forall_mem_append.mpr
      ⟨parseLevelArray_admissible hbids, parseLevelArray_admissible hasks⟩)

theorem entries_admissible {isSnapshot : Bool} {recvTsNs : Int} {data : List Json}
    {uss : List (List FeedUpdate)} (h : data.mapM (entryBatch isSnapshot recvTsNs) = some uss) :
    ∀ u ∈ uss.flatten, u.toFeedUpdateLevels.Admissible := by
  induction data generalizing uss with
  | nil =>
    cases h
    exact fun u hu => (List.not_mem_nil hu).elim
  | cons entry data ih =>
    simp only [List.mapM_cons, Option.bind_eq_bind, Option.bind_eq_some_iff] at h
    obtain ⟨us, hus, rest, hrest, h⟩ := h
    cases h
    exact List.forall_mem_append.mpr ⟨entryBatch_admissible hus, ih hrest⟩

theorem batch_admissible {c : ProtocolCall} {us : List FeedUpdate}
    (hus : us ∈ batch parse config s c) : ∀ u ∈ us, u.toFeedUpdateLevels.Admissible := by
  cases c with
  | frame bytes recvTsNs =>
    rw [batch] at hus
    cases hread : readFrame parse config bytes with
    | malformed => simp [hread, Frame.batch] at hus
    | rejected reason => simp [hread, Frame.batch] at hus
    | ignored =>
      rw [hread] at hus
      exact admissible_of_empty hus
    | entries isSnapshot data =>
      rw [hread] at hus
      obtain ⟨uss, huss, rfl⟩ := Option.map_eq_some_iff.mp hus
      exact entries_admissible huss
  | restSnapshot body recvTsNs => exact admissible_of_empty hus
  | reset => exact admissible_of_empty hus

end Okx

namespace Bybit
open Json
variable {parse : JsonParser} {config : Config} {s : State}

theorem batch_admissible {c : ProtocolCall} {us : List FeedUpdate}
    (hus : us ∈ batch parse config s c) : ∀ u ∈ us, u.toFeedUpdateLevels.Admissible := by
  cases c with
  | frame bytes recvTsNs =>
    rw [batch] at hus
    cases hread : readFrame parse config bytes with
    | malformed => simp [hread, Frame.batch] at hus
    | rejected reason => simp [hread, Frame.batch] at hus
    | ignored =>
      rw [hread] at hus
      exact admissible_of_empty hus
    | book isSnapshot updateId root data =>
      rw [hread] at hus
      simp only [Frame.batch, Option.bind_eq_bind, Option.mem_def,
        Option.bind_eq_some_iff] at hus
      obtain ⟨bids, hbids, asks, hasks, hus⟩ := hus
      cases hus
      exact List.forall_mem_singleton.mpr (List.forall_mem_append.mpr
        ⟨parseLevelArray_admissible hbids, parseLevelArray_admissible hasks⟩)
  | restSnapshot body recvTsNs => exact admissible_of_empty hus
  | reset => exact admissible_of_empty hus

end Bybit

namespace Adapter

def AdmissibleBuffer : (adapter : Adapter) → adapter.State → Prop
  | binance _ => Binance.AdmissibleBuffer
  | okx _ => fun _ => True
  | bybit _ => fun _ => True

theorem admissibleBuffer_initial (adapter : Adapter) :
    adapter.AdmissibleBuffer adapter.initial := by
  cases adapter with
  | binance config => exact fun e he => (List.not_mem_nil he).elim
  | okx config => trivial
  | bybit config => trivial

theorem call_buffer (parse : JsonParser) (adapter : Adapter) (s : adapter.State)
    (c : ProtocolCall) (h : adapter.AdmissibleBuffer s) :
    adapter.AdmissibleBuffer ((adapter.protocol parse).call s c).protocol := by
  cases adapter with
  | binance config => exact Binance.call_buffer h c
  | okx config => trivial
  | bybit config => trivial

theorem batch_admissible (parse : JsonParser) (adapter : Adapter) {s : adapter.State}
    (h : adapter.AdmissibleBuffer s) {c : ProtocolCall} {us : List FeedUpdate}
    (hus : us ∈ adapter.batch parse s c) : ∀ u ∈ us, u.toFeedUpdateLevels.Admissible := by
  cases adapter with
  | binance config => exact Binance.batch_admissible h hus
  | okx config => exact Okx.batch_admissible (s := s) hus
  | bybit config => exact Bybit.batch_admissible (s := s) hus

theorem kept_admissible (parse : JsonParser) (adapter : Adapter) (calls : List ProtocolCall) :
    ∀ u ∈ (adapter.protocol parse).kept adapter.initial calls,
      u.toFeedUpdateLevels.Admissible := by
  refine VenueProtocol.kept_rule _ (call_buffer parse adapter) (fun s c hs hok => ?_)
    adapter.admissibleBuffer_initial calls
  rw [← VenueProtocol.callInto_nil] at hok ⊢
  obtain ⟨us, hus, heq⟩ := adapter.callInto_batch parse s [] c hok
  rw [heq]
  exact batch_admissible parse adapter hs hus

/-- After every single update, whether or not a call follows that is answered with a failure. -/
theorem kept_book_invariant (parse : JsonParser) (adapter : Adapter) (calls : List ProtocolCall) :
    (∀ us, us <+: (adapter.protocol parse).kept adapter.initial calls →
      (applyUpdates {} us).bids.invariant = true ∧ (applyUpdates {} us).asks.invariant = true ∧
        (applyUpdates {} us).Invariant) ∧
      ∀ us u, us ++ [u] <+: (adapter.protocol parse).kept adapter.initial calls →
        u.isSnapshot = true → ∀ book,
          applyUpdates {} (us ++ [u]) = applyFeedUpdate book u.toFeedUpdateLevels := by
  refine ⟨fun us hus => ?_, fun us u _ hsnapshot book => ?_⟩
  · have hempty : ({} : VenueBook).Invariant := ⟨⟨.nil, by simp⟩, ⟨.nil, by simp⟩⟩
    have hinv := applyUpdates_invariant hempty
      fun u hu => kept_admissible parse adapter calls u (hus.subset hu)
    exact ⟨(SideBook.invariant_iff _).mpr hinv.1, (SideBook.invariant_iff _).mpr hinv.2, hinv⟩
  · rw [applyUpdates_append, applyUpdates_cons, applyUpdates_nil]
    exact applyFeedUpdate_of_snapshot hsnapshot _ book

end Adapter

end CexAggregator
