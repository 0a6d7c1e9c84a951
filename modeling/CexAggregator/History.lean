import CexAggregator.Venue
import CexAggregator.BookUpdate

/-!
# A venue's own history

What the adapters are for: a venue numbers the states of its book, and a replica that
follows the numbering holds one of these states. An update amends a state to another
when it carries the absolute quantity in the second of every price at which they differ.
-/

namespace CexAggregator
open OrderedTable

structure VenueHistory where
  book : Int → VenueBook
  invariant : ∀ id, (book id).Invariant

/-- Absolute quantities in `after` that cover every difference to `before`. -/
structure Amends (before after : Int → Int) (levels : List Level) : Prop where
  listed : ∀ l ∈ levels, l.qty = after l.px
  complete : ∀ px, before px ≠ after px → ∃ l ∈ levels, l.px = px

theorem Amends.assign_eq {before after : Int → Int} {levels : List Level}
    (h : Amends before after levels) : assign before levels = after := by
  funext px
  by_cases hlisted : ∃ l ∈ levels, l.px = px
  · exact assign_of_listed hlisted fun l hl hpx => hpx ▸ h.listed l hl
  · rw [assign_of_ne fun l hl hpx => hlisted ⟨l, hl, hpx⟩]
    exact not_not.mp fun hne => hlisted (h.complete px hne)

namespace SideBook
variable {descending : Bool} {book after : SideBook descending} {levels : List Level}

theorem ext_resting (h : book.Invariant) (hafter : after.Invariant)
    (hresting : book.resting = after.resting) : book = after := by
  have hlevels : book.levels = after.levels :=
    Ordered.ext h.ordered hafter.ordered (fun l hl => (h.positive l hl).2.ne')
      (fun l hl => (hafter.positive l hl).2.ne') hresting
  cases book
  cases after
  exact congrArg _ hlevels

theorem applyBatch_of_amends (h : book.Invariant) (hafter : after.Invariant)
    (hadm : ∀ l ∈ levels, l.Admissible) (hamends : Amends book.resting after.resting levels) :
    book.applyBatch levels = after := by
  obtain ⟨hinv, hrest⟩ := applyBatch_spec h hadm
  exact ext_resting hinv hafter (hrest.trans hamends.assign_eq)

theorem replace_of_amends (hafter : after.Invariant) (hadm : ∀ l ∈ levels, l.Admissible)
    (hamends : Amends (fun _ => 0) after.resting levels) : book.replace levels = after := by
  obtain ⟨hinv, hrest⟩ := replace_spec book hadm
  exact ext_resting hinv hafter (hrest.trans hamends.assign_eq)

end SideBook

structure CarriesBook (resting : Int → Int) (levels : List Level) : Prop where
  listed : ∀ l ∈ levels, l.qty = resting l.px
  complete : ∀ px, resting px ≠ 0 → ∃ l ∈ levels, l.px = px

theorem CarriesBook.amends {resting : Int → Int} {levels : List Level}
    (h : CarriesBook resting levels) : Amends (fun _ => 0) resting levels :=
  ⟨h.listed, fun px hne => h.complete px (Ne.symm hne)⟩

structure AmendsBook (before after : VenueBook) (bids asks : List Level) : Prop where
  bids : Amends before.bids.resting after.bids.resting bids
  asks : Amends before.asks.resting after.asks.resting asks

structure ListsBook (after : VenueBook) (bids asks : List Level) : Prop where
  bids : CarriesBook after.bids.resting bids
  asks : CarriesBook after.asks.resting asks

def FeedUpdateLevels.Admissible (update : FeedUpdateLevels) : Prop :=
  ∀ l ∈ update.bids ++ update.asks, l.Admissible

theorem applyFeedUpdate_delta {before after : VenueBook} {update : FeedUpdateLevels}
    (hbefore : before.Invariant) (hafter : after.Invariant) (hdelta : update.isSnapshot = false)
    (hadm : update.Admissible) (h : AmendsBook before after update.bids update.asks) :
    applyFeedUpdate before update = after := by
  obtain ⟨hbids, hasks⟩ := List.forall_mem_append.mp hadm
  rw [applyFeedUpdate, if_neg (by rw [hdelta]; exact Bool.false_ne_true),
    SideBook.applyBatch_of_amends hbefore.1 hafter.1 hbids h.bids,
    SideBook.applyBatch_of_amends hbefore.2 hafter.2 hasks h.asks]

theorem applyFeedUpdate_snapshot {after : VenueBook} {update : FeedUpdateLevels}
    (book : VenueBook) (hafter : after.Invariant) (hsnapshot : update.isSnapshot = true)
    (hadm : update.Admissible) (h : ListsBook after update.bids update.asks) :
    applyFeedUpdate book update = after := by
  obtain ⟨hbids, hasks⟩ := List.forall_mem_append.mp hadm
  rw [applyFeedUpdate, if_pos hsnapshot,
    SideBook.replace_of_amends hafter.1 hbids h.bids.amends,
    SideBook.replace_of_amends hafter.2 hasks h.asks.amends]

/-- What an adapter owes a stream of which it may see only some frames: its updates build the
book at the last id it accepted, a frame that does not continue from that id is answered with
a resync, and without losses no frame is. -/
structure LossDetection {σ : Type*} (p : VenueProtocol σ) (start : σ)
    (position : σ → Option Int) (history : VenueHistory) (breaks : Option Int → Bytes → Prop)
    (stream : List (Bytes × Int)) : Prop where
  follows : ∀ delivered : List (Bytes × Int), delivered.Sublist stream →
    ∀ r, p.deliver start (frameCalls delivered) = some r →
      ∀ book, ∀ id ∈ position r.1, applyUpdates book r.2 = history.book id
  detects : ∀ (delivered : List (Bytes × Int)) (f : Bytes × Int),
    (delivered ++ [f]).Sublist stream →
      ∀ r, p.deliver start (frameCalls delivered) = some r → breaks (position r.1) f.1 →
        (p.call r.1 (.frame f.1 f.2)).verdict = .kNeedsResync
  accepts : p.deliver start (frameCalls stream) ≠ none

section GrowingBid

def growingBid : VenueHistory where
  book id := if id < 12 then { bids := ⟨[⟨100, 1⟩]⟩ } else { bids := ⟨[⟨100, 2⟩]⟩ }
  invariant id := by
    split_ifs
    · exact ⟨⟨by decide, by decide⟩, ⟨by decide, by decide⟩⟩
    · exact ⟨⟨by decide, by decide⟩, ⟨by decide, by decide⟩⟩

theorem growingBid_lists {id : Int} (h : id < 12) :
    ListsBook (growingBid.book id) [⟨100, 1⟩] [] := by
  simp only [growingBid, h, ↓reduceIte]
  refine ⟨⟨by decide, fun px hne => ?_⟩, ⟨by decide, fun px hne => (hne rfl).elim⟩⟩
  by_contra hnot
  have hpx : 100 ≠ px := fun hpx => hnot ⟨_, List.mem_singleton_self _, hpx⟩
  exact hne (by simp [SideBook.resting, valueAt, Entry.key, hpx])

theorem growingBid_amends {id : Int} (h : id < 12) :
    AmendsBook (growingBid.book id) (growingBid.book 12) [⟨100, 2⟩] [] := by
  simp only [growingBid, h, ↓reduceIte, lt_irrefl]
  refine ⟨⟨by decide, fun px hne => ?_⟩, ⟨by decide, fun px hne => (hne rfl).elim⟩⟩
  by_contra hnot
  have hpx : 100 ≠ px := fun hpx => hnot ⟨_, List.mem_singleton_self _, hpx⟩
  exact hne (by simp [SideBook.resting, valueAt, Entry.key, hpx])

end GrowingBid

end CexAggregator
