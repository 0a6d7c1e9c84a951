import CexAggregator.Okx
import CexAggregator.History

/-!
# OKX detects every loss

An entry is accepted only when its `prevSeqId` is the id the replica stands at, and then
its levels amend exactly that state of the book. Within a frame the running id moves
along with the staged updates, so a frame is accepted as a whole or not at all.
-/

namespace CexAggregator
namespace Okx
open Json

inductive FaithfulEntry (history : VenueHistory) (isSnapshot : Bool) (entry : Json) :
    Option Int → Option Int → Prop
  | snapshot {before : Option Int} {id : Int} {bids asks : List Level}
      (hkind : isSnapshot = true) (hid : seqIdOf entry = some id)
      (hbids : bidsOf entry = some bids) (hasks : asksOf entry = some asks)
      (hbook : ListsBook (history.book id) bids asks) :
      FaithfulEntry history isSnapshot entry before (some id)
  | delta {prev id : Int} {bids asks : List Level}
      (hkind : isSnapshot = false) (hprev : prevSeqIdOf entry = some prev)
      (hid : seqIdOf entry = some id)
      (hbids : bidsOf entry = some bids) (hasks : asksOf entry = some asks)
      (hbook : AmendsBook (history.book prev) (history.book id) bids asks) :
      FaithfulEntry history isSnapshot entry (some prev) (some id)
  | noChange {id : Int} (hkind : isSnapshot = false) (hprev : prevSeqIdOf entry = some id)
      (hid : seqIdOf entry = some id) :
      FaithfulEntry history isSnapshot entry (some id) (some id)

def FaithfulEntries (history : VenueHistory) (isSnapshot : Bool) :
    Option Int → List Json → Option Int → Prop
  | before, [], after => before = after
  | before, entry :: entries, after => ∃ mid, FaithfulEntry history isSnapshot entry before mid ∧
      FaithfulEntries history isSnapshot mid entries after

section Stream
variable (parse : JsonParser) (config : Config) (history : VenueHistory)

/-- One session: frames in the venue's order, each continuing from the one before; frames
without book data may stand anywhere. -/
def FaithfulStream : Option Int → List (Bytes × Int) → Prop
  | _, [] => True
  | before, f :: frames =>
    (readFrame parse config f.1 = .ignored ∧ FaithfulStream before frames) ∨
    ∃ isSnapshot data after, readFrame parse config f.1 = .entries isSnapshot data ∧
      FaithfulEntries history isSnapshot before data after ∧ FaithfulStream after frames

end Stream

def position (s : State) : Option Int := if s.hasSeq then some s.lastSeqId else none

def Batch.position (b : Batch) : Option Int := if b.nextHasSeq then some b.nextSeqId else none

section Entries
variable {history : VenueHistory} {isSnapshot synced : Bool} {recvTsNs : Int} {b : Batch}
  {entry : Json} {before after : Option Int}

theorem onEntry_sound (hentry : FaithfulEntry history isSnapshot entry before after)
    {book : VenueBook}
    (hbook : ∀ id ∈ b.position, applyUpdates book b.staging = history.book id)
    {next : Batch} (h : onEntry isSnapshot synced recvTsNs b entry = .ok next) :
    ∀ id ∈ next.position, applyUpdates book next.staging = history.book id := by
  obtain ⟨seqId, hseq, hcontinues, ⟨-, -, rfl⟩ | ⟨hmoved, bids, asks, hbids, hasks, rfl⟩⟩ :=
    onEntry_ok h
  · exact hbook
  have hadm : (entryUpdate isSnapshot recvTsNs entry bids asks
      (entrySeq isSnapshot entry seqId)).toFeedUpdateLevels.Admissible :=
    List.forall_mem_append.mpr
      ⟨parseLevelArray_admissible hbids, parseLevelArray_admissible hasks⟩
  intro id hid
  cases hid
  rw [applyUpdates_append, applyUpdates_cons, applyUpdates_nil]
  cases hentry with
  | snapshot hkind hid' hbids' hasks' hlists =>
    cases hseq.symm.trans hid'
    cases hbids.symm.trans hbids'
    cases hasks.symm.trans hasks'
    exact applyFeedUpdate_snapshot _ (history.invariant seqId) hkind hadm hlists
  | delta hkind hprev hid' hbids' hasks' hamends =>
    obtain ⟨-, hhas, hcont⟩ := hcontinues hkind
    cases hseq.symm.trans hid'
    cases hbids.symm.trans hbids'
    cases hasks.symm.trans hasks'
    cases hcont.symm.trans hprev
    rw [hbook b.nextSeqId (by simp [Batch.position, hhas])]
    exact applyFeedUpdate_delta (history.invariant _) (history.invariant _) hkind hadm hamends
  | noChange hkind hprev hid' =>
    obtain ⟨-, -, hcont⟩ := hcontinues hkind
    cases hseq.symm.trans hid'
    exact (hmoved hkind (Option.some.inj (hprev.symm.trans hcont))).elim

theorem onEntries_sound {data : List Json}
    (hdata : ∀ e ∈ data, ∃ before after, FaithfulEntry history isSnapshot e before after)
    {book : VenueBook}
    (hbook : ∀ id ∈ b.position, applyUpdates book b.staging = history.book id) {next : Batch}
    (h : onEntries isSnapshot synced recvTsNs b data = (next, none)) :
    ∀ id ∈ next.position, applyUpdates book next.staging = history.book id := by
  induction data generalizing b with
  | nil =>
    cases h
    exact hbook
  | cons entry data ih =>
    obtain ⟨⟨before, after, hentry⟩, hrest⟩ := List.forall_mem_cons.mp hdata
    obtain ⟨b', hstep, hdone⟩ := onEntries_cons_ok h
    exact ih hrest (onEntry_sound hentry hbook hstep) hdone

theorem onEntry_break (hentry : FaithfulEntry history false entry before after)
    (hbreak : prevSeqIdOf entry ≠ b.position) :
    onEntry false synced recvTsNs b entry = .error .kNeedsResync := by
  have hparsed : seqIdOf entry ≠ none ∧ prevSeqIdOf entry ≠ none := by
    cases hentry with
    | snapshot hkind => cases hkind
    | delta _ hprev hid => simp [hprev, hid]
    | noChange _ hprev hid => simp [hprev, hid]
  unfold onEntry
  split
  · rename_i hseq
    exact (hparsed.1 hseq).elim
  · rw [if_neg fun hmissing => hparsed.2 hmissing.2]
    split_ifs with hstart hgap
    · rfl
    · rfl
    all_goals
      simp only [true_and, not_or, Bool.not_eq_false, ne_eq, not_not] at hstart hgap
      exact (hbreak (by simp [Batch.position, hstart.2, hgap])).elim

theorem onEntry_continues (hentry : FaithfulEntry history isSnapshot entry before after)
    (hstands : ∀ id ∈ before, b.position = some id)
    (hsynced : isSnapshot = false → before ≠ none → synced = true) :
    ∃ next, onEntry isSnapshot synced recvTsNs b entry = .ok next ∧
      ∀ id ∈ after, next.position = some id := by
  have hposition : ∀ id, b.position = some id → b.nextHasSeq = true ∧ b.nextSeqId = id := by
    intro id hid
    unfold Batch.position at hid
    split_ifs at hid with hhas
    exact ⟨hhas, Option.some.inj hid⟩
  cases hentry with
  | snapshot hkind hid hbids hasks hbook =>
    refine ⟨_, by simp [onEntry, hkind, hid, hbids, hasks]; rfl, fun id hmem => ?_⟩
    cases hmem
    rfl
  | @delta prev id bids asks hkind hprev hid hbids hasks hbook =>
    obtain ⟨hhas, hnext⟩ := hposition prev (hstands prev rfl)
    have hlive := hsynced hkind (Option.some_ne_none prev)
    by_cases hsame : prev = id
    · refine ⟨b, by simp [onEntry, hkind, hid, hprev, hlive, hhas, hnext, hsame], fun x hx => ?_⟩
      cases hx
      exact hsame ▸ hstands prev rfl
    · refine ⟨_, by simp [onEntry, hkind, hid, hprev, hlive, hhas, hnext, hsame, hbids, hasks]; rfl,
        fun x hx => ?_⟩
      cases hx
      rfl
  | @noChange id hkind hprev hid =>
    obtain ⟨hhas, hnext⟩ := hposition id (hstands id rfl)
    have hlive := hsynced hkind (Option.some_ne_none id)
    exact ⟨b, by simp [onEntry, hkind, hid, hprev, hlive, hhas, hnext], hstands⟩

theorem faithfulEntries_mem {data : List Json}
    (h : FaithfulEntries history isSnapshot before data after) :
    ∀ e ∈ data, ∃ before after, FaithfulEntry history isSnapshot e before after := by
  induction data generalizing before with
  | nil => exact fun e he => (List.not_mem_nil he).elim
  | cons entry data ih =>
    obtain ⟨mid, hentry, hrest⟩ := h
    exact List.forall_mem_cons.mpr ⟨⟨before, mid, hentry⟩, ih hrest⟩

theorem faithfulEntries_started {data : List Json}
    (h : FaithfulEntries history false before data after) (hafter : after ≠ none) :
    before ≠ none := by
  cases data with
  | nil => exact h ▸ hafter
  | cons entry data =>
    obtain ⟨mid, hentry, -⟩ := h
    cases hentry with
    | snapshot hkind => cases hkind
    | delta => exact Option.some_ne_none _
    | noChange => exact Option.some_ne_none _

theorem onEntries_continues {data : List Json}
    (h : FaithfulEntries history isSnapshot before data after)
    (hstands : ∀ id ∈ before, b.position = some id)
    (hsynced : isSnapshot = false → before ≠ none → synced = true) :
    ∃ next, onEntries isSnapshot synced recvTsNs b data = (next, none) ∧
      ∀ id ∈ after, next.position = some id := by
  induction data generalizing b before with
  | nil => exact ⟨b, rfl, h ▸ hstands⟩
  | cons entry data ih =>
    obtain ⟨mid, hentry, hrest⟩ := h
    obtain ⟨next, hnext, hstands'⟩ : ∃ next,
        onEntry isSnapshot synced recvTsNs b entry = .ok next ∧
          ∀ id ∈ mid, next.position = some id := onEntry_continues hentry hstands hsynced
    have hlive : isSnapshot = false → mid ≠ none → synced = true := by
      intro hkind _
      refine hsynced hkind ?_
      cases hentry with
      | snapshot hkind' => exact (Bool.false_ne_true (hkind.symm.trans hkind')).elim
      | delta => exact Option.some_ne_none _
      | noChange => exact Option.some_ne_none _
    rw [onEntries, hnext]
    exact ih hrest hstands' hlive

theorem onEntries_hasSeq {data : List Json} {next : Batch}
    (h : onEntries isSnapshot synced recvTsNs b data = (next, none)) :
    (b.nextHasSeq = true → next.nextHasSeq = true) ∧
      (isSnapshot = true → data ≠ [] → next.nextHasSeq = true) := by
  induction data generalizing b with
  | nil =>
    cases h
    exact ⟨id, fun _ hne => (hne rfl).elim⟩
  | cons entry data ih =>
    obtain ⟨b', hstep, hdone⟩ := onEntries_cons_ok h
    have hkept := (ih hdone).1
    obtain ⟨seqId, -, -, ⟨hkind, -, rfl⟩ | ⟨-, bids, asks, -, -, rfl⟩⟩ := onEntry_ok hstep
    · exact ⟨hkept, fun hkind' => (Bool.false_ne_true (hkind.symm.trans hkind')).elim⟩
    · exact ⟨fun _ => hkept rfl, fun _ _ => hkept rfl⟩

end Entries

section Frames
variable {parse : JsonParser} {config : Config} {history : VenueHistory}

def FaithfulFrame (parse : JsonParser) (config : Config) (history : VenueHistory)
    (bytes : Bytes) : Prop :=
  ∀ isSnapshot data, readFrame parse config bytes = .entries isSnapshot data →
    ∀ e ∈ data, ∃ before after, FaithfulEntry history isSnapshot e before after

def Breaks (parse : JsonParser) (config : Config) (position : Option Int) (bytes : Bytes) : Prop :=
  ∃ entry data, readFrame parse config bytes = .entries false (entry :: data) ∧
    prevSeqIdOf entry ≠ position

theorem faithfulStream_frames {before : Option Int} {stream : List (Bytes × Int)}
    (h : FaithfulStream parse config history before stream) :
    ∀ f ∈ stream, FaithfulFrame parse config history f.1 := by
  induction stream generalizing before with
  | nil => exact fun f hf => (List.not_mem_nil hf).elim
  | cons f stream ih =>
    rcases h with ⟨hread, hrest⟩ | ⟨isSnapshot, data, after, hread, hentries, hrest⟩
    · refine List.forall_mem_cons.mpr ⟨fun kind data hdata => ?_, ih hrest⟩
      rw [hread] at hdata
      cases hdata
    · refine List.forall_mem_cons.mpr ⟨fun kind data' hdata => ?_, ih hrest⟩
      rw [hread] at hdata
      cases hdata
      exact faithfulEntries_mem hentries

theorem onFrame_sound {s : State} {bytes : Bytes} {recvTsNs : Int} {book : VenueBook}
    (hframe : FaithfulFrame parse config history bytes)
    (hbook : ∀ id ∈ position s, book = history.book id)
    (hok : (onFrame parse config s bytes recvTsNs []).verdict = .kOk) :
    ∀ id ∈ position (onFrame parse config s bytes recvTsNs []).protocol,
      applyUpdates book (onFrame parse config s bytes recvTsNs []).out = history.book id := by
  rcases onFrame_ok parse config hok with heq | ⟨isSnapshot, data, b, hread, hloop, heq⟩
  · rw [heq]
    exact hbook
  · rw [heq]
    exact onEntries_sound (b := ⟨[], s.lastSeqId, s.hasSeq⟩) (hframe isSnapshot data hread)
      hbook hloop

theorem onFrame_break {s : State} {bytes : Bytes} {recvTsNs : Int} {out : List FeedUpdate}
    (hframe : FaithfulFrame parse config history bytes)
    (hbreak : Breaks parse config (position s) bytes) :
    (onFrame parse config s bytes recvTsNs out).verdict = .kNeedsResync := by
  obtain ⟨entry, data, hread, hne⟩ := hbreak
  obtain ⟨before, after, hentry⟩ := hframe _ _ hread entry List.mem_cons_self
  have hfirst : onEntry false s.synced recvTsNs ⟨[], s.lastSeqId, s.hasSeq⟩ entry =
      .error .kNeedsResync := onEntry_break hentry hne
  simp only [onFrame, hread, onEntries, hfirst]

theorem onFrame_continues {s : State} {bytes : Bytes} {recvTsNs : Int} {out : List FeedUpdate}
    {isSnapshot : Bool} {data : List Json} {before after : Option Int}
    (hread : readFrame parse config bytes = .entries isSnapshot data)
    (hentries : FaithfulEntries history isSnapshot before data after)
    (hstands : ∀ id ∈ before, position s = some id ∧ s.synced = true) :
    (onFrame parse config s bytes recvTsNs out).verdict = .kOk ∧
      ∀ id ∈ after, position (onFrame parse config s bytes recvTsNs out).protocol = some id ∧
        (onFrame parse config s bytes recvTsNs out).protocol.synced = true := by
  have hsynced : before ≠ none → s.synced = true := by
    intro hne
    obtain ⟨id, hid⟩ := Option.ne_none_iff_exists'.mp hne
    exact (hstands id hid).2
  obtain ⟨next, hloop, hposition⟩ : ∃ next,
      onEntries isSnapshot s.synced recvTsNs ⟨[], s.lastSeqId, s.hasSeq⟩ data = (next, none) ∧
        ∀ id ∈ after, next.position = some id :=
    onEntries_continues hentries (fun id hid => (hstands id hid).1) fun _ => hsynced
  simp only [onFrame, hread, hloop]
  refine ⟨trivial, fun id hid => ⟨hposition id hid, ?_⟩⟩
  cases isSnapshot with
  | true => rfl
  | false =>
    have hstarted := faithfulEntries_started hentries (Option.ne_none_iff_exists'.mpr ⟨id, hid⟩)
    rw [Bool.false_or, hsynced hstarted]

end Frames

section Session
variable {parse : JsonParser} {config : Config} {history : VenueHistory}

theorem deliver_stream {stream : List (Bytes × Int)} {before : Option Int}
    (h : FaithfulStream parse config history before stream) {s : State}
    (hstands : ∀ id ∈ before, position s = some id ∧ s.synced = true) :
    (protocol parse config).deliver s (frameCalls stream) ≠ none := by
  induction stream generalizing before s with
  | nil => exact Option.some_ne_none _
  | cons f stream ih =>
    rcases h with ⟨hread, hrest⟩ | ⟨isSnapshot, data, after, hread, hentries, hrest⟩
    · have hcall : (protocol parse config).call s (.frame f.1 f.2) = ⟨.kOk, s, []⟩ := by
        simp only [VenueProtocol.call, protocol, onFrame, hread]
      refine VenueProtocol.deliver_cons_ne_none _ (by rw [hcall]) ?_
      rw [hcall]
      exact ih hrest hstands
    · obtain ⟨hok, hstands'⟩ := onFrame_continues hread hentries hstands
      exact VenueProtocol.deliver_cons_ne_none _ hok (ih hrest hstands')

theorem lossDetection {stream : List (Bytes × Int)}
    (h : FaithfulStream parse config history none stream) (s : State) :
    LossDetection (protocol parse config) (reset s) position history (Breaks parse config)
      stream where
  follows delivered hsub r hr book := by
    have hframes := faithfulStream_frames h
    exact VenueProtocol.deliver_frames_rule (protocol parse config)
      (I := fun s book => ∀ id ∈ position s, book = history.book id)
      (fun s book bytes recvTsNs hI hframe hok => onFrame_sound hframe hI hok)
      book (fun id hid => by cases hid) (fun f hf => hframes f (hsub.subset hf)) hr
  detects delivered f hsub r hr hbreak := by
    have hframe := faithfulStream_frames h f (hsub.subset (by simp))
    exact onFrame_break hframe hbreak
  accepts := deliver_stream h (fun _ hid => by cases hid)

theorem synced_position {frames : List (Bytes × Int)}
    (hframes : ∀ f ∈ frames, readFrame parse config f.1 ≠ .entries true [])
    (s : State) {r : State × List FeedUpdate}
    (hr : (protocol parse config).deliver (reset s) (frameCalls frames) = some r)
    (hsynced : r.1.synced = true) : position r.1 ≠ none := by
  have hstep : ∀ (s : State) (book : VenueBook) (bytes : Bytes) (recvTsNs : Int),
      (s.synced = true → s.hasSeq = true) → readFrame parse config bytes ≠ .entries true [] →
      (onFrame parse config s bytes recvTsNs []).verdict = .kOk →
      (onFrame parse config s bytes recvTsNs []).protocol.synced = true →
        (onFrame parse config s bytes recvTsNs []).protocol.hasSeq = true := by
    intro s book bytes recvTsNs hI hbytes hok
    rcases onFrame_ok parse config hok with heq | ⟨isSnapshot, data, b, hread, hloop, heq⟩
    · rw [heq]
      exact hI
    · obtain ⟨hkept, hseeded⟩ := onEntries_hasSeq hloop
      rw [heq]
      cases isSnapshot with
      | true => exact fun _ => hseeded rfl fun hnil => hbytes (hnil ▸ hread)
      | false => exact fun hs => hkept (hI hs)
  have hstart : (reset s).synced = true → (reset s).hasSeq = true :=
    fun h => (Bool.false_ne_true h).elim
  have hinv := VenueProtocol.deliver_frames_rule (protocol parse config)
    (I := fun s _ => s.synced = true → s.hasSeq = true) hstep {} hstart hframes hr
  simp [position, hinv hsynced]

end Session

end Okx
end CexAggregator
