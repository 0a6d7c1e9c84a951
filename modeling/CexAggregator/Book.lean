import CexAggregator.Bisect
import CexAggregator.OrderedTable
import CexAggregator.Fixed

/-!
# One venue's book

A side is a vector of levels, best first: descending for bids, ascending for asks.
Small batches go through one binary search per delta, larger ones through a stable
sort, an in-place pass that keeps the last entry of each price, and one merge of two
cursors. The vectors are lists here; an iterator is an index, and a read cursor that
only advances is the suffix it has left.
-/

namespace CexAggregator
open OrderedTable

structure Level where
  px : Int
  qty : Int
deriving DecidableEq, Repr

instance : Entry Level Int Int where
  key := Level.px
  val := Level.qty
  ext_entry a b hp hq := by cases a; cases b; simp_all

def Better (descending : Bool) (a b : Int) : Prop := if descending then b < a else a < b

instance (descending : Bool) : DecidableRel (Better descending) :=
  fun a b => by unfold Better; infer_instance

instance (descending : Bool) : IsStrictTotalOrder Int (Better descending) where
  irrefl a := by cases descending <;> simp [Better]
  trans a b c := by cases descending <;> simp only [Better] <;> simp <;> omega
  trichotomous a b := by cases descending <;> simp only [Better] <;> simp <;> omega

structure BestFirst {α : Type*} [Entry α Int Int] (descending : Bool) (levels : List α) : Prop where
  ordered : Ordered (Better descending) levels
  positive : ∀ a ∈ levels, 0 < Entry.key a ∧ 0 < Entry.val a

instance {α : Type*} [Entry α Int Int] (descending : Bool) (levels : List α) :
    Decidable (BestFirst descending levels) :=
  decidable_of_iff
    (Ordered (Better descending) levels ∧ ∀ a ∈ levels, 0 < Entry.key a ∧ 0 < Entry.val a)
    ⟨fun h => ⟨h.1, h.2⟩, fun h => ⟨h.ordered, h.positive⟩⟩

def kBatchMergeThreshold : ℕ := 8

section Vector

/-- One round of the deduplicating loop: the run of equal prices at `read` is reduced
to its last entry, written at `write` while later runs are still to be read. -/
structure DedupCursor where
  v : List Level
  write : ℕ
  read : ℕ

def DedupCursor.next (c : DedupCursor) (px : Int) : ℕ :=
  c.read + ((c.v.drop c.read).takeWhile fun l => l.px = px).length

def dedupStep (c : DedupCursor) : DedupCursor ⊕ List Level :=
  match c.v[c.read]? with
  | none => .inr (c.v.take c.write)
  | some l =>
    let next := c.next l.px
    .inl ⟨c.v.set c.write ((c.v[next - 1]?).getD l), c.write + 1, next⟩

theorem dedupStep_decreases :
    Loop.Decreases dedupStep fun c => c.v.length - c.read := by
  intro c next h
  simp only [dedupStep] at h
  split at h
  · cases h
  · rename_i l hl
    obtain ⟨hlt, hget⟩ := List.getElem?_eq_some_iff.mp hl
    cases h
    have hrun : 0 < ((c.v.drop c.read).takeWhile fun x => x.px = l.px).length := by
      rw [List.drop_eq_getElem_cons hlt, hget]
      simp
    simp only [List.length_set, DedupCursor.next]
    omega

def sortBestFirstLastWins (descending : Bool) (v : List Level) : List Level :=
  Loop.run dedupStep (fun c => c.v.length - c.read) dedupStep_decreases
    ⟨v.insertionSort (NotAfter (Better descending)), 0, 0⟩

/-- The merge of `levels_` and the sorted deltas; `scratch` is what it has pushed. -/
structure MergeCursor where
  existing : List Level
  updates : List Level
  scratch : List Level

def pushUnlessZero (scratch : List Level) (update : Level) : List Level :=
  if update.qty ≠ 0 then scratch ++ [update] else scratch

def deltaMergeStep (descending : Bool) : MergeCursor → MergeCursor ⊕ List Level
  | ⟨existing :: es, update :: us, scratch⟩ =>
    .inl (
      if existing.px = update.px then ⟨es, us, pushUnlessZero scratch update⟩
      else if Better descending existing.px update.px then
        ⟨es, update :: us, scratch ++ [existing]⟩
      else ⟨existing :: es, us, pushUnlessZero scratch update⟩)
  | ⟨es, us, scratch⟩ => .inr (us.foldl pushUnlessZero (scratch ++ es))

theorem deltaMergeStep_decreases (descending : Bool) :
    Loop.Decreases (deltaMergeStep descending)
      fun c => c.existing.length + c.updates.length := by
  intro c next h
  obtain ⟨es, us, scratch⟩ := c
  cases es with
  | nil => cases h
  | cons e es =>
    cases us with
    | nil => cases h
    | cons u us =>
      simp only [deltaMergeStep] at h
      cases h
      split_ifs <;> simp only [List.length_cons] <;> omega

def mergeDeltas (descending : Bool) (levels deltas : List Level) : List Level :=
  Loop.run (deltaMergeStep descending) _ (deltaMergeStep_decreases descending)
    ⟨levels, deltas, []⟩

end Vector

structure SideBook (descending : Bool) where
  levels : List Level := []
deriving DecidableEq, Repr

namespace SideBook
variable {descending : Bool}

def apply (book : SideBook descending) (px qty : Int) : SideBook descending :=
  let it := Bisect.lowerBound (fun level => Better descending level.px px) book.levels
  if (book.levels[it]?).any fun level => level.px = px then
    if qty = 0 then ⟨book.levels.eraseIdx it⟩
    else ⟨book.levels.modify it fun level => { level with qty := qty }⟩
  else if qty ≠ 0 then ⟨book.levels.insertIdx it ⟨px, qty⟩⟩
  else book

def applyEach (book : SideBook descending) (deltas : List Level) : SideBook descending :=
  deltas.foldl (fun b level => b.apply level.px level.qty) book

def applyBatch (book : SideBook descending) (deltas : List Level) : SideBook descending :=
  if deltas = [] then book
  else if deltas.length < kBatchMergeThreshold then book.applyEach deltas
  else ⟨mergeDeltas descending book.levels (sortBestFirstLastWins descending deltas)⟩

def replace (_book : SideBook descending) (levels : List Level) : SideBook descending :=
  ⟨(sortBestFirstLastWins descending levels).filter fun l => ¬ l.qty = 0⟩

def invariantFrom (descending : Bool) : Option Level → List Level → Bool
  | _, [] => true
  | previous, level :: rest =>
    if level.qty ≤ 0 ∨ level.px ≤ 0 then false
    else if previous.any fun p => ¬ Better descending p.px level.px then false
    else invariantFrom descending (some level) rest

def invariant (book : SideBook descending) : Bool := invariantFrom descending none book.levels

def bestPx (book : SideBook descending) : Int := (book.levels.head?.map Level.px).getD 0
def bestQty (book : SideBook descending) : Int := (book.levels.head?.map Level.qty).getD 0

/-- The map from price to resting quantity that the side stands for, zero where nothing rests. -/
def resting (book : SideBook descending) : Int → Int := valueAt book.levels

def Invariant (book : SideBook descending) : Prop := BestFirst descending book.levels

end SideBook

structure VenueBook where
  bids : SideBook true := {}
  asks : SideBook false := {}
deriving DecidableEq, Repr

def VenueBook.Invariant (book : VenueBook) : Prop := book.bids.Invariant ∧ book.asks.Invariant

structure FeedUpdateLevels where
  isSnapshot : Bool := false
  bids : List Level := []
  asks : List Level := []
deriving DecidableEq, Repr

def applyFeedUpdate (book : VenueBook) (update : FeedUpdateLevels) : VenueBook :=
  if update.isSnapshot then
    ⟨book.bids.replace update.bids, book.asks.replace update.asks⟩
  else
    ⟨book.bids.applyBatch update.bids, book.asks.applyBatch update.asks⟩

end CexAggregator
