import CexAggregator.Binance
import CexAggregator.Okx
import CexAggregator.Bybit

/-!
# The sequence rules of the three venues

What an adapter emits continues, by its venue's rule, from what it emitted before, as long
as the caller keeps everything and resets after every failure. `Sequenced` states this with
the last emitted update next to the adapter's state.
-/

namespace CexAggregator

/-- Every delta continues from the update before it, the first one from `last`. -/
def Chained (successor : FeedUpdate → FeedUpdate → Prop) :
    Option FeedUpdate → List FeedUpdate → Prop
  | _, [] => True
  | last, u :: us =>
    (u.isSnapshot = false → ∃ previous ∈ last, successor previous u) ∧
      Chained successor (some u) us

def lastOf (last : Option FeedUpdate) (updates : List FeedUpdate) : Option FeedUpdate :=
  updates.getLast?.or last

section Chained
variable {successor : FeedUpdate → FeedUpdate → Prop} {last : Option FeedUpdate}
  {us vs : List FeedUpdate} {u v : FeedUpdate}

@[simp] theorem lastOf_nil : lastOf last [] = last := rfl

@[simp] theorem lastOf_snoc : lastOf last (us ++ [u]) = some u := by
  simp [lastOf]

theorem lastOf_append : lastOf last (us ++ vs) = lastOf (lastOf last us) vs := by
  simp [lastOf, List.getLast?_append, Option.or_assoc]

@[simp] theorem lastOf_cons : lastOf last (u :: us) = lastOf (some u) us := by
  rw [← List.singleton_append, lastOf_append]
  rfl

theorem lastOf_mem_of_none (h : u ∈ lastOf none us) : u ∈ lastOf last us := by
  simp only [lastOf, Option.or_none] at h
  simp [lastOf, Option.mem_def.mp h]

theorem lastOf_ne_none (h : us ≠ []) : lastOf last us ≠ none := by
  rw [← List.dropLast_append_getLast h, lastOf_snoc]
  exact Option.some_ne_none _

theorem chained_append : Chained successor last (us ++ vs) ↔
    Chained successor last us ∧ Chained successor (lastOf last us) vs := by
  induction us generalizing last with
  | nil => simp [Chained]
  | cons u us ih => simp only [List.cons_append, Chained, ih, lastOf_cons, and_assoc]

theorem chained_singleton : Chained successor last [u] ↔
    (u.isSnapshot = false → ∃ previous ∈ last, successor previous u) := by
  simp [Chained]

theorem Chained.head_snapshot (h : Chained successor none (u :: us)) : u.isSnapshot = true := by
  by_contra hdelta
  obtain ⟨previous, hprev, -⟩ := h.1 (Bool.not_eq_true _ ▸ hdelta)
  cases hprev

theorem Chained.of_none (h : Chained successor none us) : Chained successor last us := by
  cases us with
  | nil => trivial
  | cons u us => exact ⟨fun hdelta => (Bool.eq_false_iff.mp hdelta h.head_snapshot).elim, h.2⟩

theorem Chained.adjacent (h : Chained successor last (us ++ u :: v :: vs))
    (hdelta : v.isSnapshot = false) : successor u v := by
  obtain ⟨-, -, hcont, -⟩ := chained_append.mp h
  obtain ⟨previous, hprev, hsucc⟩ := hcont hdelta
  cases hprev
  exact hsucc

end Chained

/-- `Tracks s last`: the adapter in state `s` stands at the update `last`. -/
structure Sequenced {σ : Type*} (p : VenueProtocol σ) (successor : FeedUpdate → FeedUpdate → Prop)
    (Tracks : σ → Option FeedUpdate → Prop) : Prop where
  tracks_reset : ∀ s, Tracks (p.reset s) none
  synced_reset : ∀ s, p.synced (p.reset s) = false
  frame_synced : ∀ s frame now, p.synced s = true →
    p.synced (p.onFrame s frame now []).protocol = true
  frame_ok : ∀ s last frame now, Tracks s last → (p.onFrame s frame now []).verdict = .kOk →
    Chained successor last (p.onFrame s frame now []).out ∧
      Tracks (p.onFrame s frame now []).protocol (lastOf last (p.onFrame s frame now []).out)
  frame_fatal : ∀ s last frame now, Tracks s last →
    (p.onFrame s frame now []).verdict = .kFatal → Tracks (p.onFrame s frame now []).protocol last
  snapshot_synced : ∀ s body now, p.synced s = true →
    p.synced (p.onRestSnapshot s body now []).protocol = true
  snapshot_ok : ∀ s last body now, p.needsRestSnapshot = true → Tracks s last →
    (p.onRestSnapshot s body now []).verdict = .kOk →
    Chained successor last (p.onRestSnapshot s body now []).out ∧
      lastOf last (p.onRestSnapshot s body now []).out ≠ none ∧
      Tracks (p.onRestSnapshot s body now []).protocol
        (lastOf last (p.onRestSnapshot s body now []).out)

namespace Binance

/-- `U = u_prev + 1`, or an event that straddles the snapshot before it. -/
def Successor (previous next : FeedUpdate) : Prop :=
  next.seq.first = previous.seq.last + 1 ∨
    previous.isSnapshot = true ∧
      next.seq.first ≤ previous.seq.last + 1 ∧ previous.seq.last + 1 ≤ next.seq.last

def Tracks (s : State) (last : Option FeedUpdate) : Prop :=
  s.synced = true → ∃ u ∈ last, u.seq.last = s.lastUpdateId

section Sequencing
variable {parse : JsonParser} {config : Config} {s : State} {last : Option FeedUpdate} {now : Int}

theorem onEvent_synced (h : s.synced = true) (e : PendingEvent) :
    (onEvent config s e now []).protocol.synced = true := by
  unfold onEvent
  rw [if_neg (by simp [h])]
  split_ifs
  · exact h
  · exact h

theorem onEvent_chained (htracks : Tracks s last) {e : PendingEvent}
    (hok : (onEvent config s e now []).verdict = .kOk) :
    Chained Successor last (onEvent config s e now []).out ∧
      Tracks (onEvent config s e now []).protocol
        (lastOf last (onEvent config s e now []).out) := by
  unfold onEvent at hok ⊢
  split_ifs at hok ⊢ with hsynced hfull hgap
  · exact ⟨trivial, fun h => (Bool.eq_false_iff.mp hsynced h).elim⟩
  · obtain ⟨u, hu, hid⟩ := htracks (Bool.not_eq_false _ ▸ hsynced)
    refine ⟨chained_singleton.mpr fun _ => ⟨u, hu, Or.inl ?_⟩, fun _ => ⟨_, rfl, rfl⟩⟩
    rw [hid]
    exact not_not.mp hgap

theorem replayBuffered_chained {events : List PendingEvent} {staging staged : List FeedUpdate}
    {appliedThrough through : Int} {first : Bool} {u : FeedUpdate}
    (hlast : lastOf none staging = some u) (hu : u.seq.last = appliedThrough)
    (hfirst : first = true → u.isSnapshot = true ∧ ∀ e ∈ events.head?, straddles appliedThrough e)
    (hchain : Chained Successor none staging)
    (h : replayBuffered now staging appliedThrough first events = (staged, through, true)) :
    Chained Successor none staged ∧ ∃ u ∈ lastOf none staged, u.seq.last = through := by
  induction events generalizing staging appliedThrough first u with
  | nil =>
    cases h
    exact ⟨hchain, u, hlast, hu⟩
  | cons e events ih =>
    rw [replayBuffered] at h
    split_ifs at h with hgap
    · cases h
    have hsucc : Successor u (e.update now) := by
      cases first with
      | true =>
        obtain ⟨hsnapshot, hstraddle⟩ := hfirst rfl
        have he := hstraddle e rfl
        simp only [straddles, decide_eq_true_eq] at he
        exact Or.inr ⟨hsnapshot, hu ▸ he⟩
      | false =>
        have hnext := not_not.mp fun hne => hgap ⟨rfl, hne⟩
        exact Or.inl (hu ▸ hnext)
    refine ih (u := e.update now) lastOf_snoc rfl (fun h => (Bool.false_ne_true h).elim) ?_ h
    rw [chained_append, hlast, chained_singleton]
    exact ⟨hchain, fun _ => ⟨u, rfl, hsucc⟩⟩

theorem reconcile_synced (h : s.synced = true) (id : Int) (bids asks : List Level) :
    (reconcile s id bids asks now []).protocol.synced = true := by
  simp only [reconcile]
  split_ifs
  · exact h
  · split
    · exact h
    · rfl

theorem reconcile_chained {id : Int} {bids asks : List Level}
    (hok : (reconcile s id bids asks now []).verdict = .kOk) :
    Chained Successor last (reconcile s id bids asks now []).out ∧
      lastOf last (reconcile s id bids asks now []).out ≠ none ∧
      Tracks (reconcile s id bids asks now []).protocol
        (lastOf last (reconcile s id bids asks now []).out) := by
  obtain ⟨staged, through, hstraddle, hreplay, heq⟩ := reconcile_ok hok
  have hsnapshot : Chained Successor none [snapshotUpdate id bids asks now] :=
    chained_singleton.mpr fun hdelta => by cases hdelta
  obtain ⟨hchain, u, hu, hid⟩ := replayBuffered_chained (u := snapshotUpdate id bids asks now) rfl
    rfl (fun _ => ⟨rfl, hstraddle⟩) hsnapshot hreplay
  have hmem : u ∈ lastOf last staged := lastOf_mem_of_none hu
  rw [heq]
  exact ⟨hchain.of_none, Option.ne_none_iff_exists'.mpr ⟨u, hmem⟩, fun _ => ⟨u, hmem, hid⟩⟩

theorem onFrame_sequenced (last : Option FeedUpdate) (frame : Bytes) :
    (s.synced = true → (onFrame parse config s frame now []).protocol.synced = true) ∧
      (onFrame parse config s frame now []).verdict ≠ .kFatal ∧
      (Tracks s last → (onFrame parse config s frame now []).verdict = .kOk →
        Chained Successor last (onFrame parse config s frame now []).out ∧
          Tracks (onFrame parse config s frame now []).protocol
            (lastOf last (onFrame parse config s frame now []).out)) := by
  unfold onFrame
  cases readFrame parse config frame with
  | malformed => exact ⟨id, fun hfatal => (by cases hfatal), fun _ hok => by cases hok⟩
  | ignored => exact ⟨id, fun hfatal => (by cases hfatal), fun htracks _ => ⟨trivial, htracks⟩⟩
  | event e =>
    refine ⟨fun h => onEvent_synced h e, fun hfatal => ?_, fun h hok => onEvent_chained h hok⟩
    simp only [onEvent] at hfatal
    split_ifs at hfatal

theorem onRestSnapshot_sequenced (last : Option FeedUpdate) (body : Bytes) :
    (s.synced = true → (onRestSnapshot parse s body now []).protocol.synced = true) ∧
      ((onRestSnapshot parse s body now []).verdict = .kOk →
        Chained Successor last (onRestSnapshot parse s body now []).out ∧
          lastOf last (onRestSnapshot parse s body now []).out ≠ none ∧
          Tracks (onRestSnapshot parse s body now []).protocol
            (lastOf last (onRestSnapshot parse s body now []).out)) := by
  unfold onRestSnapshot
  cases readBody parse body with
  | malformed => exact ⟨id, fun hok => by cases hok⟩
  | malformedLevels => exact ⟨id, fun hok => by cases hok⟩
  | snapshot id bids asks => exact ⟨fun h => reconcile_synced h id bids asks, reconcile_chained⟩

theorem sequenced : Sequenced (protocol parse config) Successor Tracks where
  tracks_reset _ hsynced := by cases hsynced
  synced_reset _ := rfl
  frame_synced _ frame _ hsynced := (onFrame_sequenced none frame).1 hsynced
  frame_ok _ last frame _ htracks hok := (onFrame_sequenced last frame).2.2 htracks hok
  frame_fatal _ last frame _ _ hfatal := ((onFrame_sequenced last frame).2.1 hfatal).elim
  snapshot_synced _ body _ hsynced := (onRestSnapshot_sequenced none body).1 hsynced
  snapshot_ok _ last body _ _ _ hok := (onRestSnapshot_sequenced last body).2 hok

end Sequencing

end Binance

namespace Okx

def Successor (previous next : FeedUpdate) : Prop := next.seq.first = previous.seq.last

def Tracks (s : State) (last : Option FeedUpdate) : Prop :=
  s.hasSeq = true → ∃ u ∈ last, u.seq.last = s.lastSeqId

section Sequencing
variable {parse : JsonParser} {config : Config} {s : State} {last : Option FeedUpdate} {now : Int}

structure Batch.Follows (b : Batch) (last : Option FeedUpdate) : Prop where
  chained : Chained Successor last b.staging
  tracks : b.nextHasSeq = true → ∃ u ∈ lastOf last b.staging, u.seq.last = b.nextSeqId

theorem onEntry_follows {isSnapshot synced : Bool} {b next : Batch} (hb : b.Follows last)
    {entry : Json} (h : onEntry isSnapshot synced now b entry = .ok next) : next.Follows last := by
  obtain ⟨seqId, hseq, hcont, ⟨-, -, rfl⟩ | ⟨-, bids, asks, -, -, rfl⟩⟩ := onEntry_ok h
  · exact hb
  refine ⟨chained_append.mpr ⟨hb.chained, chained_singleton.mpr fun hdelta => ?_⟩,
    fun _ => ⟨_, lastOf_snoc, rfl⟩⟩
  obtain ⟨-, hhas, hprev⟩ := hcont hdelta
  obtain ⟨u, hu, hid⟩ := hb.tracks hhas
  refine ⟨u, hu, ?_⟩
  cases (show isSnapshot = false from hdelta)
  simp [Successor, entryUpdate, entrySeq, hprev, hid]

theorem onEntries_follows {isSnapshot synced : Bool} {data : List Json} {b next : Batch}
    (hb : b.Follows last) (h : onEntries isSnapshot synced now b data = (next, none)) :
    next.Follows last := by
  induction data generalizing b with
  | nil =>
    cases h
    exact hb
  | cons entry data ih =>
    obtain ⟨b', hstep, hdone⟩ := onEntries_cons_ok h
    exact ih (onEntry_follows hb hstep) hdone

theorem onFrame_chained (htracks : Tracks s last) {frame : Bytes}
    (hok : (onFrame parse config s frame now []).verdict = .kOk) :
    Chained Successor last (onFrame parse config s frame now []).out ∧
      Tracks (onFrame parse config s frame now []).protocol
        (lastOf last (onFrame parse config s frame now []).out) := by
  obtain hquiet | ⟨isSnapshot, data, b, -, hloop, heq⟩ := onFrame_ok parse config hok
  · rw [hquiet]
    exact ⟨trivial, htracks⟩
  · have hstart : (⟨[], s.lastSeqId, s.hasSeq⟩ : Batch).Follows last := ⟨trivial, htracks⟩
    have hb := onEntries_follows hstart hloop
    rw [heq]
    exact ⟨hb.chained, hb.tracks⟩

theorem onFrame_synced (h : s.synced = true) (frame : Bytes) :
    (onFrame parse config s frame now []).protocol.synced = true := by
  unfold onFrame
  cases readFrame parse config frame with
  | malformed => exact h
  | ignored => exact h
  | rejected reason => exact h
  | entries isSnapshot data =>
    dsimp only
    split
    · exact h
    · simp [h]

theorem onFrame_fatal (htracks : Tracks s last) {frame : Bytes}
    (hfatal : (onFrame parse config s frame now []).verdict = .kFatal) :
    Tracks (onFrame parse config s frame now []).protocol last := by
  unfold onFrame at hfatal ⊢
  cases hread : readFrame parse config frame with
  | malformed => simp [hread] at hfatal
  | ignored => simp [hread] at hfatal
  | rejected reason => exact htracks
  | entries isSnapshot data =>
    rw [hread] at hfatal
    dsimp only at hfatal ⊢
    split
    · exact htracks
    · rename_i hloop
      simp [hloop] at hfatal

theorem sequenced : Sequenced (protocol parse config) Successor Tracks where
  tracks_reset _ hhas := by cases hhas
  synced_reset _ := rfl
  frame_synced _ frame _ hsynced := onFrame_synced hsynced frame
  frame_ok _ _ _ _ htracks hok := onFrame_chained htracks hok
  frame_fatal _ _ _ _ htracks hfatal := onFrame_fatal htracks hfatal
  snapshot_synced _ _ _ hsynced := hsynced
  snapshot_ok _ _ _ _ hrest := by cases hrest

end Sequencing

end Okx

namespace Bybit

def Successor (previous next : FeedUpdate) : Prop := next.seq.first = previous.seq.last + 1

def Tracks (s : State) (last : Option FeedUpdate) : Prop :=
  s.synced = true → ∃ u ∈ last, u.seq.last = s.lastUpdateId

section Sequencing
variable {parse : JsonParser} {config : Config} {s : State} {last : Option FeedUpdate} {now : Int}

theorem onBook_chained (htracks : Tracks s last) {isSnapshot : Bool} {id : Int} {root data : Json}
    (hok : (onBook s isSnapshot id root data now []).verdict = .kOk) :
    Chained Successor last (onBook s isSnapshot id root data now []).out ∧
      Tracks (onBook s isSnapshot id root data now []).protocol
        (lastOf last (onBook s isSnapshot id root data now []).out) := by
  obtain ⟨hcont, bids, asks, -, -, heq⟩ := onBook_ok hok
  rw [heq]
  refine ⟨chained_singleton.mpr fun hdelta => ?_, fun _ => ⟨_, rfl, rfl⟩⟩
  obtain ⟨hsynced, hnext⟩ := hcont hdelta
  obtain ⟨u, hu, hid⟩ := htracks hsynced
  exact ⟨u, hu, hnext.trans (by rw [hid])⟩

theorem onBook_synced (s : State) (now : Int) (isSnapshot : Bool) (id : Int) (root data : Json) :
    (s.synced = true → (onBook s isSnapshot id root data now []).protocol.synced = true) ∧
      (onBook s isSnapshot id root data now []).verdict ≠ .kFatal := by
  unfold onBook
  split_ifs
  · exact ⟨fun h => h, fun hfatal => by cases hfatal⟩
  · exact ⟨fun h => h, fun hfatal => by cases hfatal⟩
  · split
    · exact ⟨fun h => by simp [h], fun hfatal => by cases hfatal⟩
    · exact ⟨fun h => h, fun hfatal => by cases hfatal⟩

theorem onFrame_sequenced (last : Option FeedUpdate) (frame : Bytes) :
    (s.synced = true → (onFrame parse config s frame now []).protocol.synced = true) ∧
      (Tracks s last → (onFrame parse config s frame now []).verdict = .kFatal →
        Tracks (onFrame parse config s frame now []).protocol last) ∧
      (Tracks s last → (onFrame parse config s frame now []).verdict = .kOk →
        Chained Successor last (onFrame parse config s frame now []).out ∧
          Tracks (onFrame parse config s frame now []).protocol
            (lastOf last (onFrame parse config s frame now []).out)) := by
  unfold onFrame
  cases readFrame parse config frame with
  | malformed => exact ⟨id, fun htracks _ => htracks, fun _ hok => by cases hok⟩
  | ignored => exact ⟨id, fun htracks _ => htracks, fun htracks _ => ⟨trivial, htracks⟩⟩
  | rejected reason => exact ⟨id, fun htracks _ => htracks, fun _ hok => by cases hok⟩
  | book isSnapshot updateId root data =>
    obtain ⟨hsynced, hnever⟩ := onBook_synced s now isSnapshot updateId root data
    exact ⟨hsynced, fun _ hfatal => (hnever hfatal).elim, fun h hok => onBook_chained h hok⟩

theorem sequenced : Sequenced (protocol parse config) Successor Tracks where
  tracks_reset _ hhas := by cases hhas
  synced_reset _ := rfl
  frame_synced _ frame _ hsynced := (onFrame_sequenced none frame).1 hsynced
  frame_ok _ last frame _ htracks hok := (onFrame_sequenced last frame).2.2 htracks hok
  frame_fatal _ last frame _ htracks hfatal := (onFrame_sequenced last frame).2.1 htracks hfatal
  snapshot_synced _ _ _ hsynced := hsynced
  snapshot_ok _ _ _ _ hrest := by cases hrest

end Sequencing

end Bybit

inductive Adapter where
  | binance (config : Binance.Config)
  | okx (config : Okx.Config)
  | bybit (config : Bybit.Config)

namespace Adapter

def State : Adapter → Type
  | binance _ => Binance.State
  | okx _ => Okx.State
  | bybit _ => Bybit.State

def initial : (adapter : Adapter) → adapter.State
  | binance _ => ({} : Binance.State)
  | okx _ => ({} : Okx.State)
  | bybit _ => ({} : Bybit.State)

def protocol (parse : JsonParser) : (adapter : Adapter) → VenueProtocol adapter.State
  | binance config => Binance.protocol parse config
  | okx config => Okx.protocol parse config
  | bybit config => Bybit.protocol parse config

def Successor : Adapter → FeedUpdate → FeedUpdate → Prop
  | binance _ => Binance.Successor
  | okx _ => Okx.Successor
  | bybit _ => Bybit.Successor

def Tracks : (adapter : Adapter) → adapter.State → Option FeedUpdate → Prop
  | binance _ => Binance.Tracks
  | okx _ => Okx.Tracks
  | bybit _ => Bybit.Tracks

theorem sequenced (parse : JsonParser) (adapter : Adapter) :
    Sequenced (adapter.protocol parse) adapter.Successor adapter.Tracks := by
  cases adapter with
  | binance config => exact Binance.sequenced
  | okx config => exact Okx.sequenced
  | bybit config => exact Bybit.sequenced

theorem tracks_initial (adapter : Adapter) : adapter.Tracks adapter.initial none := by
  cases adapter <;> exact fun h => by cases h

theorem unsynced_initial (parse : JsonParser) (adapter : Adapter) :
    (adapter.protocol parse).synced adapter.initial = false := by
  cases adapter <;> rfl

end Adapter

end CexAggregator
