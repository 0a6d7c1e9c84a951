import CexAggregator.Json

/-!
# What a venue adapter is

Bytes in, book updates out. A call is given the updates appended so far and returns them
with its own behind, next to its verdict and the adapter's new state.
-/

namespace CexAggregator

structure SeqRange where
  first : Int
  last : Int
deriving DecidableEq, Repr

/-- `seq` is kept for the specification only: the record itself has no such field, and no
code reads it. -/
structure FeedUpdate extends FeedUpdateLevels where
  exchangeTsNs : Int := 0
  recvTsNs : Int := 0
  seq : SeqRange
deriving DecidableEq, Repr

inductive FrameVerdict where
  | kOk
  | kNeedsResync
  | kParseError
  | kFatal
deriving DecidableEq, Repr

structure Called (σ : Type*) where
  verdict : FrameVerdict
  protocol : σ
  out : List FeedUpdate

structure VenueProtocol (σ : Type*) where
  name : String
  venueSymbol : String
  streamUrl : String
  subscribeFrames : List String
  keepaliveFrame : String := ""
  keepaliveIntervalSeconds : ℕ := 0
  needsRestSnapshot : Bool := false
  restSnapshotUrl : String := ""
  onRestSnapshot : σ → Bytes → Int → List FeedUpdate → Called σ :=
    fun s _ _ out => ⟨.kOk, s, out⟩
  synced : σ → Bool
  onFrame : σ → Bytes → Int → List FeedUpdate → Called σ
  reset : σ → σ
  fatalReason : σ → String := fun _ => ""

def msToNs (ms : Int) : Int := ms * 1000000

def applyUpdates (book : VenueBook) (updates : List FeedUpdate) : VenueBook :=
  updates.foldl (fun b update => applyFeedUpdate b update.toFeedUpdateLevels) book

@[simp] theorem applyUpdates_nil (book : VenueBook) : applyUpdates book [] = book := rfl

@[simp] theorem applyUpdates_cons (book : VenueBook) (update : FeedUpdate)
    (updates : List FeedUpdate) :
    applyUpdates book (update :: updates) =
      applyUpdates (applyFeedUpdate book update.toFeedUpdateLevels) updates := rfl

theorem applyUpdates_append (book : VenueBook) (as bs : List FeedUpdate) :
    applyUpdates book (as ++ bs) = applyUpdates (applyUpdates book as) bs := List.foldl_append

theorem applyUpdates_eq_foldl (book : VenueBook) (updates : List FeedUpdate) :
    applyUpdates book updates =
      (updates.map FeedUpdate.toFeedUpdateLevels).foldl applyFeedUpdate book :=
  List.foldl_map.symm

section Replica

inductive ProtocolCall where
  | frame (bytes : Bytes) (recvTsNs : Int)
  | restSnapshot (body : Bytes) (recvTsNs : Int)
  | reset

def frameCalls (frames : List (Bytes × Int)) : List ProtocolCall :=
  frames.map fun f => .frame f.1 f.2

/-- An adapter next to a book that follows what it emits. -/
structure Replica (σ : Type*) where
  protocol : σ
  book : VenueBook

variable {σ : Type*} (p : VenueProtocol σ)

def VenueProtocol.call (s : σ) : ProtocolCall → Called σ
  | .frame bytes recvTsNs => p.onFrame s bytes recvTsNs []
  | .restSnapshot body recvTsNs => p.onRestSnapshot s body recvTsNs []
  | .reset => ⟨.kOk, p.reset s, []⟩

def VenueProtocol.after (s : σ) (calls : List ProtocolCall) : σ :=
  calls.foldl (fun s c => (p.call s c).protocol) s

theorem VenueProtocol.after_snoc (s : σ) (calls : List ProtocolCall) (c : ProtocolCall) :
    p.after s (calls ++ [c]) = (p.call (p.after s calls) c).protocol := by
  simp [VenueProtocol.after]

theorem VenueProtocol.after_rule {I : σ → Prop} (hstep : ∀ s c, I s → I (p.call s c).protocol)
    {s : σ} (hs : I s) (calls : List ProtocolCall) : I (p.after s calls) := by
  induction calls generalizing s with
  | nil => exact hs
  | cons c calls ih => exact ih (hstep s c hs)

/-- The calls in order, as long as each returns `kOk`: the state they leave and all
they emit. -/
def VenueProtocol.deliver (s : σ) : List ProtocolCall → Option (σ × List FeedUpdate)
  | [] => some (s, [])
  | c :: calls =>
    if (p.call s c).verdict = .kOk then
      (VenueProtocol.deliver (p.call s c).protocol calls).map fun r =>
        (r.1, (p.call s c).out ++ r.2)
    else none

theorem VenueProtocol.deliver_append (s : σ) (as bs : List ProtocolCall) :
    p.deliver s (as ++ bs) = (p.deliver s as).bind fun r =>
      (p.deliver r.1 bs).map fun r' => (r'.1, r.2 ++ r'.2) := by
  induction as generalizing s with
  | nil => simp [VenueProtocol.deliver]
  | cons c as ih =>
    simp only [List.cons_append, VenueProtocol.deliver]
    split_ifs with hok
    · rw [ih]
      cases p.deliver (p.call s c).protocol as with
      | none => rfl
      | some r => simp [List.append_assoc, Function.comp_def]
    · rfl

theorem VenueProtocol.deliver_cons_ne_none {s : σ} {c : ProtocolCall} {calls : List ProtocolCall}
    (hok : (p.call s c).verdict = .kOk) (h : p.deliver (p.call s c).protocol calls ≠ none) :
    p.deliver s (c :: calls) ≠ none := by
  simpa [VenueProtocol.deliver, hok] using h

theorem VenueProtocol.deliver_rule {I : σ → VenueBook → Prop} {admitted : ProtocolCall → Prop}
    (hstep : ∀ s book c, I s book → admitted c → (p.call s c).verdict = .kOk →
      I (p.call s c).protocol (applyUpdates book (p.call s c).out))
    {s : σ} (book : VenueBook) (hs : I s book) {calls : List ProtocolCall}
    (hcalls : ∀ c ∈ calls, admitted c) {r : σ × List FeedUpdate}
    (hr : p.deliver s calls = some r) : I r.1 (applyUpdates book r.2) := by
  induction calls generalizing s book r with
  | nil =>
    cases hr
    exact hs
  | cons c calls ih =>
    obtain ⟨hc, hrest⟩ := List.forall_mem_cons.mp hcalls
    simp only [VenueProtocol.deliver] at hr
    split_ifs at hr with hok
    obtain ⟨tail, htail, rfl⟩ := Option.map_eq_some_iff.mp hr
    rw [applyUpdates_append]
    exact ih _ (hstep s book c hs hc hok) hrest htail

theorem VenueProtocol.deliver_frames_rule {I : σ → VenueBook → Prop}
    {admitted : Bytes → Prop}
    (hstep : ∀ s book bytes recvTsNs, I s book → admitted bytes →
      (p.onFrame s bytes recvTsNs []).verdict = .kOk →
        I (p.onFrame s bytes recvTsNs []).protocol
          (applyUpdates book (p.onFrame s bytes recvTsNs []).out))
    {s : σ} (book : VenueBook) (hs : I s book) {frames : List (Bytes × Int)}
    (hframes : ∀ f ∈ frames, admitted f.1) {r : σ × List FeedUpdate}
    (hr : p.deliver s (frameCalls frames) = some r) : I r.1 (applyUpdates book r.2) := by
  refine p.deliver_rule (fun s book c hI hc hok => ?_) book hs
    (fun c hc => (List.mem_map.mp hc : ∃ f ∈ frames, ProtocolCall.frame f.1 f.2 = c)) hr
  obtain ⟨f, hf, rfl⟩ := hc
  exact hstep s book f.1 f.2 hI (hframes f hf) hok

/-- Updates count only with `kOk`; any other verdict is followed by a reset. -/
def Replica.settle (book : VenueBook) (called : Called σ) : Replica σ :=
  if called.verdict = .kOk then ⟨called.protocol, applyUpdates book called.out⟩
  else ⟨p.reset called.protocol, book⟩

def Replica.call (r : Replica σ) (c : ProtocolCall) : Replica σ :=
  settle p r.book (p.call r.protocol c)

def Replica.run (r : Replica σ) (calls : List ProtocolCall) : Replica σ :=
  calls.foldl (Replica.call p) r

theorem Replica.run_rule {I : Replica σ → Prop} {admitted : ProtocolCall → Prop}
    (hstep : ∀ r c, I r → admitted c → I (r.call p c)) {r : Replica σ} (hr : I r)
    {calls : List ProtocolCall} (hcalls : ∀ c ∈ calls, admitted c) : I (r.run p calls) := by
  induction calls generalizing r with
  | nil => exact hr
  | cons c calls ih =>
    obtain ⟨hc, hrest⟩ := List.forall_mem_cons.mp hcalls
    exact ih (hstep r c hr hc) hrest

end Replica

end CexAggregator
