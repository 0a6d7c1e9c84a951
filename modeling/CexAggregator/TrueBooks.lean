import CexAggregator.AdapterRuns
import CexAggregator.BybitSound
import CexAggregator.PublishedState

/-!
# Published books are true

The venues say nothing false; messages may be lost, repeated, reordered or come from a
session that is long over, connections may drop and the engine may be slow. Then every book
the engine merges is one that its venue really had, and the ladders are cut from the union
of such books.
-/

namespace CexAggregator

/-- What an update says of the venue: a snapshot holds at its id, and a delta leads there
from every state that it may follow. -/
structure Tells (successor : FeedUpdate → FeedUpdate → Prop) (history : VenueHistory)
    (u : FeedUpdate) : Prop where
  snapshot : u.isSnapshot = true → ∀ book,
    applyFeedUpdate book u.toFeedUpdateLevels = history.book u.seq.last
  delta : u.isSnapshot = false → ∀ previous, successor previous u →
    applyFeedUpdate (history.book previous.seq.last) u.toFeedUpdateLevels =
      history.book u.seq.last

section Tells
variable {successor : FeedUpdate → FeedUpdate → Prop} {history : VenueHistory}
  {us : List FeedUpdate}

theorem applyUpdates_of_last {book : VenueBook} {last : Option FeedUpdate}
    (hbook : ∀ u ∈ last, book = history.book u.seq.last)
    (hchained : Chained successor last us) (htells : ∀ u ∈ us, Tells successor history u) :
    ∀ u ∈ lastOf last us, applyUpdates book us = history.book u.seq.last := by
  induction us generalizing book last with
  | nil => exact hbook
  | cons u us ih =>
    obtain ⟨hu, hrest⟩ := List.forall_mem_cons.mp htells
    rw [applyUpdates_cons, lastOf_cons]
    apply ih _ hchained.2 hrest
    intro v hv
    cases hv
    cases hkind : u.isSnapshot with
    | true => exact hu.snapshot hkind book
    | false =>
      obtain ⟨previous, hprevious, hsucc⟩ := hchained.1 hkind
      rw [hbook previous hprevious]
      exact hu.delta hkind previous hsucc

def positionOf (updates : List FeedUpdate) : Option Int :=
  updates.getLast?.map fun u => u.seq.last

def stateAt (history : VenueHistory) : Option Int → VenueBook
  | none => {}
  | some id => history.book id

theorem applyUpdates_of_tells (hchained : Chained successor none us)
    (htells : ∀ u ∈ us, Tells successor history u) :
    applyUpdates {} us = stateAt history (positionOf us) := by
  have hstart : ∀ u ∈ (none : Option FeedUpdate), ({} : VenueBook) = history.book u.seq.last :=
    fun u hu => (Option.not_mem_none u hu).elim
  have hend := applyUpdates_of_last hstart hchained htells
  cases hlast : us.getLast? with
  | none =>
    rw [List.getLast?_eq_none_iff.mp hlast]
    rfl
  | some u =>
    rw [positionOf, hlast]
    exact hend u (by simp [lastOf, hlast])

theorem empty_invariant : ({} : VenueBook).Invariant :=
  ⟨⟨.nil, fun _ hl => (List.not_mem_nil hl).elim⟩, ⟨.nil, fun _ hl => (List.not_mem_nil hl).elim⟩⟩

theorem stateAt_invariant (history : VenueHistory) (position : Option Int) :
    (stateAt history position).Invariant := by
  cases position with
  | none => exact empty_invariant
  | some id => exact history.invariant id

end Tells

namespace Binance
variable {parse : JsonParser} {config : Config} {history : VenueHistory}

theorem event_tells {e : PendingEvent} (hadm : e.Admissible) (h : FaithfulEvent history e)
    (recvTsNs : Int) : Tells Successor history (e.update recvTsNs) := by
  constructor
  · intro hkind
    cases hkind
  · intro _ previous hsucc
    have hlen := h.nonempty
    obtain hnext | ⟨-, hfirst, hlast⟩ := hsucc
    · simp only [PendingEvent.update] at hnext
      exact apply_event hadm h (by omega) (by omega) recvTsNs
    · simp only [PendingEvent.update] at hfirst hlast
      exact apply_event hadm h (by omega) (by omega) recvTsNs

theorem snapshot_tells {id : Int} {bids asks : List Level}
    (hadm : ∀ l ∈ bids ++ asks, l.Admissible) (h : ListsBook (history.book id) bids asks)
    (recvTsNs : Int) : Tells Successor history (snapshotUpdate id bids asks recvTsNs) := by
  constructor
  · intro _ book
    exact apply_snapshot hadm h book recvTsNs
  · intro hkind
    cases hkind

def FaithfulBuffer (history : VenueHistory) (s : State) : Prop :=
  ∀ e ∈ s.buffered, e.Admissible ∧ FaithfulEvent history e

theorem reconcile_drained (s : State) (id : Int) (bids asks : List Level) (recvTsNs : Int) :
    (reconcile s id bids asks recvTsNs []).protocol.buffered = [] := by
  simp only [reconcile]
  split_ifs
  · rfl
  · split
    · rfl
    · rfl

theorem call_faithful {s : State} {c : ProtocolCall} (h : FaithfulBuffer history s)
    (hc : FaithfulCall parse config history c) :
    FaithfulBuffer history ((protocol parse config).call s c).protocol := by
  cases c with
  | frame bytes recvTsNs =>
    simp only [VenueProtocol.call, protocol, onFrame]
    cases hread : readFrame parse config bytes with
    | malformed => exact h
    | ignored => exact h
    | event e =>
      simp only [onEvent]
      split_ifs
      · exact fun _ he => (List.not_mem_nil he).elim
      · exact List.forall_mem_append.mpr ⟨h, List.forall_mem_singleton.mpr
          ⟨readFrame_admissible hread, hc e hread⟩⟩
      · exact h
      · exact h
  | restSnapshot body recvTsNs =>
    simp only [VenueProtocol.call, protocol, onRestSnapshot]
    cases readBody parse body with
    | malformed => exact h
    | malformedLevels => exact h
    | snapshot id bids asks =>
      simp only [FaithfulBuffer, reconcile_drained]
      exact fun _ he => (List.not_mem_nil he).elim
  | reset => exact fun _ he => (List.not_mem_nil he).elim

theorem batch_tells {s : State} {c : ProtocolCall} (h : FaithfulBuffer history s)
    (hc : FaithfulCall parse config history c) {us : List FeedUpdate}
    (hus : us ∈ batch parse config s c) : ∀ u ∈ us, Tells Successor history u := by
  cases c with
  | frame bytes recvTsNs =>
    simp only [batch] at hus
    cases hread : readFrame parse config bytes with
    | malformed => simp [hread, Frame.batch] at hus
    | ignored =>
      rw [hread] at hus
      cases hus
      exact fun _ hu => (List.not_mem_nil hu).elim
    | event e =>
      rw [hread] at hus
      cases hus
      split_ifs
      · exact List.forall_mem_singleton.mpr
          (event_tells (readFrame_admissible hread) (hc e hread) recvTsNs)
      · exact fun _ hu => (List.not_mem_nil hu).elim
  | restSnapshot body recvTsNs =>
    simp only [batch] at hus
    cases hread : readBody parse body with
    | malformed => simp [hread, Body.batch] at hus
    | malformedLevels => simp [hread, Body.batch] at hus
    | snapshot id bids asks =>
      rw [hread] at hus
      cases hus
      refine List.forall_mem_cons.mpr
        ⟨snapshot_tells (readBody_admissible hread) (hc id bids asks hread) recvTsNs, ?_⟩
      intro u hu
      obtain ⟨e, he, rfl⟩ := List.mem_map.mp hu
      obtain ⟨hadm, hfaithful⟩ := h e ((List.dropWhile_sublist _).subset he)
      exact event_tells hadm hfaithful recvTsNs
  | reset =>
    cases hus
    exact fun _ hu => (List.not_mem_nil hu).elim

end Binance

namespace Okx
open Json
variable {parse : JsonParser} {config : Config} {history : VenueHistory}

def FaithfulCall (parse : JsonParser) (config : Config) (history : VenueHistory) :
    ProtocolCall → Prop
  | .frame bytes _ => FaithfulFrame parse config history bytes
  | _ => True

theorem entryBatch_tells {isSnapshot : Bool} {recvTsNs : Int} {entry : Json}
    {before after : Option Int} (hentry : FaithfulEntry history isSnapshot entry before after)
    {us : List FeedUpdate} (hus : us ∈ entryBatch isSnapshot recvTsNs entry) :
    ∀ u ∈ us, Tells Successor history u := by
  have hadm := entryBatch_admissible hus
  simp only [entryBatch, Option.bind_eq_bind, Option.mem_def, Option.bind_eq_some_iff] at hus
  obtain ⟨seqId, hseq, hus⟩ := hus
  split_ifs at hus with hsame
  · cases hus
    exact fun _ hu => (List.not_mem_nil hu).elim
  · obtain ⟨bids, hbids, hus⟩ := Option.bind_eq_some_iff.mp hus
    obtain ⟨asks, hasks, hus⟩ := Option.bind_eq_some_iff.mp hus
    cases hus
    have hadm := hadm _ (List.mem_singleton_self _)
    refine List.forall_mem_singleton.mpr ?_
    cases hentry with
    | snapshot hkind hid hbids' hasks' hbook =>
      cases hseq.symm.trans hid
      cases hbids.symm.trans hbids'
      cases hasks.symm.trans hasks'
      constructor
      · intro _ book
        exact applyFeedUpdate_snapshot book (history.invariant seqId) hkind hadm hbook
      · intro hdelta
        cases hkind.symm.trans hdelta
    | delta hkind hprev hid hbids' hasks' hbook =>
      cases hseq.symm.trans hid
      cases hbids.symm.trans hbids'
      cases hasks.symm.trans hasks'
      constructor
      · intro hsnapshot
        cases hkind.symm.trans hsnapshot
      · intro _ previous hsucc
        simp only [Successor, entryUpdate, entrySeq, hkind, hprev, Bool.false_eq_true, ↓reduceIte,
          Option.getD_some] at hsucc
        rw [← hsucc]
        exact applyFeedUpdate_delta (history.invariant _) (history.invariant _) hkind hadm hbook
    | noChange hkind hprev hid =>
      cases hseq.symm.trans hid
      exact (hsame ⟨hkind, hprev⟩).elim

theorem entries_tell {isSnapshot : Bool} {recvTsNs : Int} {data : List Json}
    (hdata : ∀ e ∈ data, ∃ before after, FaithfulEntry history isSnapshot e before after)
    {uss : List (List FeedUpdate)} (h : data.mapM (entryBatch isSnapshot recvTsNs) = some uss) :
    ∀ u ∈ uss.flatten, Tells Successor history u := by
  induction data generalizing uss with
  | nil =>
    cases h
    exact fun _ hu => (List.not_mem_nil hu).elim
  | cons entry data ih =>
    obtain ⟨⟨before, after, hentry⟩, hrest⟩ := List.forall_mem_cons.mp hdata
    simp only [List.mapM_cons, Option.bind_eq_bind, Option.bind_eq_some_iff] at h
    obtain ⟨us, hus, rest, hmapped, h⟩ := h
    cases h
    exact List.forall_mem_append.mpr ⟨entryBatch_tells hentry hus, ih hrest hmapped⟩

theorem batch_tells {s : State} {c : ProtocolCall} (hc : FaithfulCall parse config history c)
    {us : List FeedUpdate} (hus : us ∈ batch parse config s c) :
    ∀ u ∈ us, Tells Successor history u := by
  cases c with
  | frame bytes recvTsNs =>
    simp only [batch] at hus
    cases hread : readFrame parse config bytes with
    | malformed => simp [hread, Frame.batch] at hus
    | rejected reason => simp [hread, Frame.batch] at hus
    | ignored =>
      rw [hread] at hus
      cases hus
      exact fun _ hu => (List.not_mem_nil hu).elim
    | entries isSnapshot data =>
      rw [hread] at hus
      obtain ⟨uss, huss, rfl⟩ := Option.map_eq_some_iff.mp hus
      exact entries_tell (hc isSnapshot data hread) huss
  | restSnapshot body recvTsNs =>
    cases hus
    exact fun _ hu => (List.not_mem_nil hu).elim
  | reset =>
    cases hus
    exact fun _ hu => (List.not_mem_nil hu).elim

end Okx

namespace Bybit
open Json
variable {parse : JsonParser} {config : Config} {history : VenueHistory}

def FaithfulCall (parse : JsonParser) (config : Config) (history : VenueHistory) :
    ProtocolCall → Prop
  | .frame bytes _ => FaithfulFrame parse config history bytes
  | _ => True

theorem book_tells {isSnapshot : Bool} {id recvTsNs : Int} {root data : Json}
    {before : Option Int} (hbook : FaithfulBook history data isSnapshot before id)
    {bids asks : List Level} (hbids : bidsOf data = some bids) (hasks : asksOf data = some asks) :
    Tells Successor history (bookUpdate isSnapshot id root bids asks recvTsNs) := by
  have hadm : (bookUpdate isSnapshot id root bids asks recvTsNs).Admissible :=
    List.forall_mem_append.mpr
      ⟨parseLevelArray_admissible hbids, parseLevelArray_admissible hasks⟩
  cases hbook with
  | snapshot hbids' hasks' hlists =>
    cases hbids.symm.trans hbids'
    cases hasks.symm.trans hasks'
    constructor
    · intro _ book
      exact applyFeedUpdate_snapshot book (history.invariant id) rfl hadm hlists
    · intro hkind
      cases hkind
  | @delta prev _ _ hbids' hasks' hamends =>
    cases hbids.symm.trans hbids'
    cases hasks.symm.trans hasks'
    constructor
    · intro hkind
      cases hkind
    · intro _ previous hsucc
      simp only [Successor, bookUpdate] at hsucc
      obtain rfl : prev = previous.seq.last := by omega
      exact applyFeedUpdate_delta (history.invariant _) (history.invariant _) rfl hadm hamends

theorem batch_tells {s : State} {c : ProtocolCall} (hc : FaithfulCall parse config history c)
    {us : List FeedUpdate} (hus : us ∈ batch parse config s c) :
    ∀ u ∈ us, Tells Successor history u := by
  cases c with
  | frame bytes recvTsNs =>
    simp only [batch] at hus
    cases hread : readFrame parse config bytes with
    | malformed => simp [hread, Frame.batch] at hus
    | rejected reason => simp [hread, Frame.batch] at hus
    | ignored =>
      rw [hread] at hus
      cases hus
      exact fun _ hu => (List.not_mem_nil hu).elim
    | book isSnapshot id root data =>
      rw [hread] at hus
      simp only [Frame.batch, Option.bind_eq_bind, Option.mem_def, Option.bind_eq_some_iff] at hus
      obtain ⟨bids, hbids, asks, hasks, hus⟩ := hus
      cases hus
      obtain ⟨before, hbook⟩ := hc isSnapshot id root data hread
      exact List.forall_mem_singleton.mpr (book_tells hbook hbids hasks)
  | restSnapshot body recvTsNs =>
    cases hus
    exact fun _ hu => (List.not_mem_nil hu).elim
  | reset =>
    cases hus
    exact fun _ hu => (List.not_mem_nil hu).elim

end Bybit

namespace Adapter

/-- The venue says nothing false of its history. -/
def Faithful (parse : JsonParser) (history : VenueHistory) : Adapter → ProtocolCall → Prop
  | binance config => Binance.FaithfulCall parse config history
  | okx config => Okx.FaithfulCall parse config history
  | bybit config => Bybit.FaithfulCall parse config history

def FaithfulBuffer (history : VenueHistory) : (adapter : Adapter) → adapter.State → Prop
  | binance _ => Binance.FaithfulBuffer history
  | okx _ => fun _ => True
  | bybit _ => fun _ => True

theorem faithfulBuffer_initial (history : VenueHistory) (adapter : Adapter) :
    adapter.FaithfulBuffer history adapter.initial := by
  cases adapter with
  | binance config => exact fun _ he => (List.not_mem_nil he).elim
  | okx config => trivial
  | bybit config => trivial

theorem call_faithful (parse : JsonParser) (history : VenueHistory) (adapter : Adapter)
    (s : adapter.State) (c : ProtocolCall) (h : adapter.FaithfulBuffer history s)
    (hc : adapter.Faithful parse history c) :
    adapter.FaithfulBuffer history ((adapter.protocol parse).call s c).protocol := by
  cases adapter with
  | binance config => exact Binance.call_faithful h hc
  | okx config => trivial
  | bybit config => trivial

theorem batch_tells (parse : JsonParser) (history : VenueHistory) (adapter : Adapter)
    {s : adapter.State} {c : ProtocolCall} (h : adapter.FaithfulBuffer history s)
    (hc : adapter.Faithful parse history c) {us : List FeedUpdate}
    (hus : us ∈ adapter.batch parse s c) : ∀ u ∈ us, Tells adapter.Successor history u := by
  cases adapter with
  | binance config => exact Binance.batch_tells h hc hus
  | okx config => exact Okx.batch_tells (s := s) hc hus
  | bybit config => exact Bybit.batch_tells (s := s) hc hus

theorem callsKeep (parse : JsonParser) (history : VenueHistory) (adapter : Adapter) :
    CallsKeep (adapter.protocol parse) (adapter.Faithful parse history)
      (adapter.FaithfulBuffer history) (Tells adapter.Successor history) where
  call s c h hc := call_faithful parse history adapter s c h hc
  reset s h := by
    cases adapter with
    | binance config => exact fun _ he => (List.not_mem_nil he).elim
    | okx config => trivial
    | bybit config => trivial
  emits s c h hc hok := by
    rw [← VenueProtocol.callInto_nil] at hok ⊢
    obtain ⟨us, hus, heq⟩ := adapter.callInto_batch parse s [] c hok
    rw [heq]
    exact adapter.batch_tells parse history h hc hus

end Adapter

end CexAggregator
