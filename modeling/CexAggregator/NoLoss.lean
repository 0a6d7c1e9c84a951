import CexAggregator.BybitSound
import CexAggregator.RunnerFrame
import CexAggregator.Sequencing
import CexAggregator.VenueSystem

/-!
# No delta is lost on the way to the engine

The monitor remembers the last update the ring took since the adapter last started over. An
update that is not a snapshot has to continue from it, and a venue is live only while there
is one.
-/

namespace CexAggregator
open Program

def breaks : Act Note Query → Bool
  | .asked (.push _) accepted => !accepted
  | .emitted (.began _ _) => true
  | .emitted (.called rest verdict _) => verdict ≠ .kOk && (rest || verdict ≠ .kFatal)
  | _ => false

def syncedAfter (synced : Bool) : Act Note Query → Bool
  | .emitted .reset => false
  | .emitted (.called _ _ next) => next
  | _ => synced

structure Watch where
  state : VenueState := .kDisconnected
  synced : Bool := false
  last : Option FeedUpdate := none

def Watch.track (w : Watch) (act : Act Note Query) : Watch where
  state := stateAfter w.state act
  synced := syncedAfter w.synced act
  last := if breaks act then none else lastOf w.last (acceptedUpdates [act])

theorem track_last_of_breaks {w : Watch} {act : Act Note Query} (h : breaks act = true) :
    (w.track act).last = none := by
  rw [Watch.track, if_pos h]

/-- What the acts of venue `venueIndex` are. While it is live and nothing stands in the ring
since the adapter started over, the next act leaves the live state. -/
structure Lawful (venueIndex : ℕ) (successor : FeedUpdate → FeedUpdate → Prop) (w : Watch)
    (act : Act Note Query) : Prop where
  pushed : ∀ batch ∈ pushedBatch act, batch.venueIndex = venueIndex ∧ batch.updates ≠ []
  chained : Chained successor w.last (acceptedUpdates [act])
  live : w.state = .kLive → w.synced = true ∧
    (w.last = none → ∃ leftover, act = .emitted (.began .kSyncing leftover))

def lossless (venueIndex : ℕ) (successor : FeedUpdate → FeedUpdate → Prop) :
    Contract Note Query Watch where
  track := Watch.track
  rely _ _ := True
  guarantee := Lawful venueIndex successor

@[simp] theorem lossless_track {venueIndex : ℕ} {successor : FeedUpdate → FeedUpdate → Prop} :
    (lossless venueIndex successor).track = Watch.track := rfl

section Lawful
variable {venueIndex : ℕ} {successor : FeedUpdate → FeedUpdate → Prop} {w : Watch}
  {act : Act Note Query}

theorem acceptedUpdates_of_not_pushed (h : pushedBatch act = none) :
    acceptedUpdates [act] = [] := by
  cases act with
  | emitted e => rfl
  | asked b accepted =>
    cases b with
    | stopping => rfl
    | push batch => cases h

theorem lawful_of_not_pushed (hact : pushedBatch act = none)
    (hlive : w.state = .kLive → w.synced = true ∧
      (w.last = none → ∃ leftover, act = .emitted (.began .kSyncing leftover))) :
    Lawful venueIndex successor w act where
  pushed := by rw [hact]; exact fun _ h => by cases h
  chained := by rw [acceptedUpdates_of_not_pushed hact]; trivial
  live := hlive

theorem lawful_of_seeded (hact : pushedBatch act = none)
    (hlive : w.state = .kLive → w.synced = true ∧ w.last ≠ none) :
    Lawful venueIndex successor w act :=
  lawful_of_not_pushed hact fun h => ⟨(hlive h).1, fun hnone => ((hlive h).2 hnone).elim⟩

end Lawful

section Handlers
variable {σ : Type} {p : VenueProtocol σ} {options : Options} {venueIndex : ℕ}
  {reading : Reading} {successor : FeedUpdate → FeedUpdate → Prop}
  {Tracks : σ → Option FeedUpdate → Prop} {w : Watch} {r r' : Runner σ}

structure Standing (p : VenueProtocol σ) (Tracks : σ → Option FeedUpdate → Prop) (w : Watch)
    (r : Runner σ) : Prop where
  tracks : Tracks r.protocol w.last
  synced : w.synced = p.synced r.protocol
  live : w.state = .kLive → p.synced r.protocol = true ∧ w.last ≠ none
  requests : r.requests ≠ [] → p.needsRestSnapshot = true

/-- Something has been lost, and nothing has been done about it yet. -/
structure Interrupted (p : VenueProtocol σ) (w : Watch) (r : Runner σ) : Prop where
  last : w.last = none
  live : w.state = .kLive → w.synced = true
  requests : r.requests ≠ [] → p.needsRestSnapshot = true

theorem Standing.congr (h : Standing p Tracks w r) (hprotocol : r'.protocol = r.protocol)
    (hrequests : r'.requests ≠ [] → p.needsRestSnapshot = true) : Standing p Tracks w r' :=
  ⟨hprotocol ▸ h.tracks, hprotocol ▸ h.synced, hprotocol ▸ h.live, hrequests⟩

theorem Standing.of_kept (h : Standing p Tracks w r) (hkept : Runner.Kept r r') :
    Standing p Tracks w r' :=
  h.congr hkept.protocol (hkept.requests ▸ h.requests)

theorem Standing.not_live (h : Standing p Tracks w r) {state : VenueState}
    (hstate : state ≠ .kLive) : Standing p Tracks { w with state := state } r :=
  ⟨h.tracks, h.synced, fun hlive => (hstate hlive).elim, h.requests⟩

theorem Standing.guarantee (h : Standing p Tracks w r) {act : Act Note Query}
    (hact : pushedBatch act = none) : (lossless venueIndex successor).guarantee w act :=
  lawful_of_seeded hact fun hlive => ⟨h.synced.trans (h.live hlive).1, (h.live hlive).2⟩

theorem Standing.quiet (h : Standing p Tracks w r) {act : Act Note Query} (hact : QuietAct act) :
    (lossless venueIndex successor).guarantee w act ∧ Standing p Tracks (w.track act) r := by
  cases act with
  | emitted e =>
    cases e with
    | stored state =>
      have hstate : state ≠ .kLive := by
        rintro rfl
        obtain h | h := hact <;> cases h
      exact ⟨h.guarantee rfl, h.not_live hstate⟩
    | scheduled delay => exact ⟨h.guarantee rfl, h⟩
    | began state leftover => exact hact.elim
    | handling source => exact hact.elim
    | reset => exact hact.elim
    | called rest verdict synced => exact hact.elim
  | asked b answer =>
    cases b with
    | push batch => exact hact.elim
    | stopping => exact ⟨h.guarantee rfl, h⟩

theorem Standing.within (h : Standing p Tracks w r) {α : Type} {R : α → Prop}
    {program : VenueProgram α} (hprogram : Within QuietAct R program) :
    Meets (lossless venueIndex successor) (fun w' a => Standing p Tracks w' r ∧ R a) program w :=
  hprogram.meets (fun _ _ hstanding hact _ => hstanding.quiet hact) h

theorem Standing.settle (h : Standing p Tracks w r) (id : ℕ) (outcome : WsConnection × Bool) :
    Meets (lossless venueIndex successor)
      (fun w' r' => Standing p Tracks w' r' ∧ r'.protocol = r.protocol)
      (Runner.settle reading r id outcome) w :=
  (h.within (Runner.settle_within r id outcome)).mono fun _ _ ⟨hstanding, hkept⟩ =>
    ⟨hstanding.congr hkept.protocol (hkept.requests ▸ h.requests), hkept.protocol⟩

theorem Standing.closeConnection (h : Standing p Tracks w r) :
    Meets (lossless venueIndex successor)
      (fun w' r' => Standing p Tracks w' r' ∧ r'.protocol = r.protocol)
      (Runner.closeConnection reading r) w :=
  (h.within (Runner.closeConnection_within r)).mono fun _ _ ⟨hstanding, _, _, hkept⟩ =>
    ⟨hstanding.congr hkept.protocol (hkept.requests ▸ h.requests), hkept.protocol⟩

theorem Standing.fetchSnapshot (h : Standing p Tracks w r) (hrest : p.needsRestSnapshot = true) :
    Meets (lossless venueIndex successor)
      (fun w' r' => Standing p Tracks w' r' ∧ r'.protocol = r.protocol)
      (Runner.fetchSnapshot p reading r) w :=
  (h.within (Runner.fetchSnapshot_within r)).mono fun _ _ ⟨hstanding, _, _, hkept⟩ =>
    ⟨hstanding.congr hkept.protocol fun _ => hrest, hkept.protocol⟩

variable (hseq : Sequenced p successor Tracks)

include hseq in
theorem resync_meets (h : Interrupted p w r) :
    Meets (lossless venueIndex successor)
      (fun w' r' => Standing p Tracks w' r' ∧ p.synced r'.protocol = false)
      (Runner.resync p reading r) w := by
  rw [Runner.resync, meets_bind, meets_tell]
  refine fun _ => ⟨lawful_of_not_pushed rfl fun hlive => ⟨h.live hlive, fun _ => ⟨_, rfl⟩⟩, ?_⟩
  rw [meets_bind, meets_tell]
  refine fun _ => ⟨lawful_of_not_pushed rfl fun hlive => (by cases hlive), ?_⟩
  have hreset : p.synced (p.reset r.protocol) = false := hseq.synced_reset _
  have hfresh : Standing p Tracks ⟨.kSyncing, false, none⟩
      { Runner.resetProtocol p r with stats := { r.stats with resyncs := r.stats.resyncs + 1 } } :=
    ⟨hseq.tracks_reset _, hreset.symm, (fun hlive => by cases hlive), h.requests⟩
  split_ifs with hrest
  · exact (hfresh.fetchSnapshot hrest).mono fun w' r' ⟨hs, hp⟩ => ⟨hs, hp ▸ hreset⟩
  · exact hfresh.closeConnection.mono fun w' r' ⟨hs, hp⟩ => ⟨hs, hp ▸ hreset⟩

structure Seeded (p : VenueProtocol σ) (Tracks : σ → Option FeedUpdate → Prop) (w : Watch)
    (r : Runner σ) : Prop extends Standing p Tracks w r where
  seeded : p.synced r.protocol = true → w.last ≠ none

structure InHand (p : VenueProtocol σ) (successor : FeedUpdate → FeedUpdate → Prop)
    (Tracks : σ → Option FeedUpdate → Prop) (w : Watch) (r : Runner σ)
    (updates : List FeedUpdate) : Prop where
  chained : Chained successor w.last updates
  tracks : Tracks r.protocol (lastOf w.last updates)
  synced : w.synced = p.synced r.protocol
  live : w.state = .kLive → p.synced r.protocol = true ∧ w.last ≠ none
  requests : r.requests ≠ [] → p.needsRestSnapshot = true

theorem InHand.accepted {updates : List FeedUpdate} (h : InHand p successor Tracks w r updates)
    (hseeded : lastOf w.last updates ≠ none) :
    Seeded p Tracks { w with last := lastOf w.last updates } r :=
  ⟨⟨h.tracks, h.synced, fun hlive => ⟨(h.live hlive).1, hseeded⟩, h.requests⟩, fun _ => hseeded⟩

theorem interrupted_of_breaks {act : Act Note Query} (hbreaks : breaks act = true)
    (hlive : (w.track act).state = .kLive → (w.track act).synced = true)
    (hrequests : r.requests ≠ [] → p.needsRestSnapshot = true) :
    Interrupted p (w.track act) r :=
  ⟨track_last_of_breaks hbreaks, hlive, hrequests⟩

include hseq in
theorem publish_meets {updates : List FeedUpdate} (h : InHand p successor Tracks w r updates)
    (hseeded : lastOf w.last updates ≠ none) :
    Meets (lossless venueIndex successor) (Seeded p Tracks)
      (Runner.publish p venueIndex reading r updates) w := by
  have hlive : w.state = .kLive → w.synced = true ∧ w.last ≠ none := fun hstate =>
    ⟨h.synced.trans (h.live hstate).1, (h.live hstate).2⟩
  rw [Runner.publish]
  split_ifs with hempty
  · subst hempty
    exact h.accepted hseeded
  have hpushed : ∀ accepted, ∀ batch ∈ pushedBatch (.asked (.push ⟨venueIndex, updates⟩) accepted),
      batch.venueIndex = venueIndex ∧ batch.updates ≠ [] := by
    rintro accepted batch ⟨⟩
    exact ⟨rfl, hempty⟩
  have hnot : ∀ {P : Prop}, w.state = .kLive → w.last = none → P := fun hstate hnone =>
    ((hlive hstate).2 hnone).elim
  rw [meets_bind, meets_query, lossless_track]
  intro accepted _
  cases accepted with
  | true =>
    have hupdates : acceptedUpdates [.asked (.push ⟨venueIndex, updates⟩) true] = updates :=
      List.append_nil updates
    have hlast : w.track (.asked (.push ⟨venueIndex, updates⟩) true) =
        { w with last := lastOf w.last updates } := by
      simp [Watch.track, hupdates, breaks, stateAfter, syncedAfter]
    rw [hlast]
    exact ⟨⟨hpushed true, hupdates.symm ▸ h.chained, fun hs => ⟨(hlive hs).1, hnot hs⟩⟩,
      h.accepted hseeded⟩
  | false =>
    have hlost : Interrupted p (w.track (.asked (.push ⟨venueIndex, updates⟩) false))
        { r with stats := { r.stats with ringOverflows := r.stats.ringOverflows + 1 } } :=
      interrupted_of_breaks rfl (fun hstate => (hlive hstate).1) h.requests
    refine ⟨⟨hpushed false, trivial, fun hs => ⟨(hlive hs).1, hnot hs⟩⟩,
      (resync_meets hseq hlost).mono ?_⟩
    intro w' r' hs
    refine ⟨hs.1, fun hyes => ?_⟩
    rw [hs.2] at hyes
    cases hyes

theorem Seeded.goLive (h : Seeded p Tracks w r) :
    Meets (lossless venueIndex successor) (Standing p Tracks) (Runner.goLive p r) w := by
  rw [Runner.goLive]
  split_ifs with hsynced
  · rw [meets_bind, Runner.setState, meets_tell]
    exact fun _ => ⟨h.guarantee rfl, h.tracks, h.synced, fun _ => ⟨hsynced, h.seeded hsynced⟩,
      h.requests⟩
  · exact h.toStanding

theorem track_called {rest synced : Bool} {verdict : FrameVerdict}
    (h : breaks (.emitted (.called rest verdict synced)) = false) :
    w.track (.emitted (.called rest verdict synced)) = { w with synced := synced } := by
  rw [Watch.track, h]
  rfl

theorem track_stopping (stopping : Bool) : w.track (.asked .stopping stopping) = w := rfl

theorem Standing.called_failed (h : Standing p Tracks w r) (rest : Bool) (verdict : FrameVerdict)
    {called : σ} (hbreaks : breaks (.emitted (.called rest verdict (p.synced called))) = true)
    (hsynced : p.synced r.protocol = true → p.synced called = true)
    (hrequests : r'.requests = r.requests) :
    Interrupted p (w.track (.emitted (.called rest verdict (p.synced called)))) r' :=
  interrupted_of_breaks hbreaks (fun hlive => hsynced (h.live hlive).1) (hrequests ▸ h.requests)

theorem Standing.called_ok (h : Standing p Tracks w r) {updates : List FeedUpdate} {called : σ}
    (hchain : Chained successor w.last updates) (htracks : Tracks called (lastOf w.last updates))
    (hsynced : p.synced r.protocol = true → p.synced called = true)
    (hprotocol : r'.protocol = called) (hrequests : r'.requests = r.requests) :
    InHand p successor Tracks { w with synced := p.synced called } r' updates := by
  subst hprotocol
  exact ⟨hchain, htracks, rfl, fun hlive => ⟨hsynced (h.live hlive).1, (h.live hlive).2⟩,
    hrequests ▸ h.requests⟩

include hseq in
theorem onSnapshot_meets (h : Standing p Tracks w r) (hrest : p.needsRestSnapshot = true)
    (answer : Option Bytes) :
    Meets (lossless venueIndex successor) (Standing p Tracks)
      (Runner.onSnapshot p venueIndex reading r answer) w := by
  cases answer with
  | none =>
    exact (h.within (Runner.snapshotFailed_within r)).mono fun w' r' ⟨hs, hkept⟩ =>
      hs.of_kept hkept
  | some body =>
    have hsynced := hseq.snapshot_synced r.protocol body reading.now
    rw [Runner.onSnapshot, meets_bind, meets_query]
    intro stopping _
    refine ⟨h.guarantee rfl, ?_⟩
    split_ifs
    · exact h
    rw [meets_bind, meets_tell, lossless_track, track_stopping]
    refine fun _ => ⟨h.guarantee rfl, ?_⟩
    split_ifs with hverdict
    · refine Meets.mono (resync_meets hseq ?_) fun w' r' hs => hs.1
      exact h.called_failed true _ (by simpa [breaks] using hverdict) hsynced rfl
    · have hok := not_not.mp hverdict
      obtain ⟨hchain, hseeded, htracks⟩ :=
        hseq.snapshot_ok r.protocol w.last body reading.now hrest h.tracks hok
      rw [track_called (by simp [breaks, hok])]
      refine Meets.bind (publish_meets hseq ?_ hseeded) fun w' r' hs => hs.goLive
      exact h.called_ok hchain htracks hsynced rfl rfl

include hseq in
theorem onFrame_meets (h : Standing p Tracks w r) (frame : Bytes) :
    Meets (lossless venueIndex successor) (Standing p Tracks)
      (Runner.onFrame p venueIndex reading r frame) w := by
  have hsynced := hseq.frame_synced r.protocol frame reading.now
  rw [Runner.onFrame, meets_bind, meets_tell, lossless_track]
  refine fun _ => ⟨h.guarantee rfl, ?_⟩
  cases hverdict : (p.onFrame r.protocol frame reading.now []).verdict with
  | kNeedsResync =>
    refine Meets.mono (resync_meets hseq ?_) fun w' r' hs => hs.1
    exact h.called_failed false .kNeedsResync rfl hsynced rfl
  | kParseError =>
    refine Meets.mono (resync_meets hseq ?_) fun w' r' hs => hs.1
    exact h.called_failed false .kParseError rfl hsynced rfl
  | kFatal =>
    rw [track_called rfl]
    have htracks := hseq.frame_fatal r.protocol w.last frame reading.now h.tracks hverdict
    rw [meets_bind, Runner.setState, meets_tell]
    refine fun _ => ⟨lawful_of_seeded rfl fun hlive =>
      ⟨hsynced (h.live hlive).1, (h.live hlive).2⟩, ?_⟩
    refine Meets.mono (?_ : Standing p Tracks _ _).closeConnection fun w' r' hs => hs.1
    exact ⟨htracks, rfl, (fun hlive => by cases hlive), h.requests⟩
  | kOk =>
    rw [track_called rfl]
    obtain ⟨hchain, htracks⟩ := hseq.frame_ok r.protocol w.last frame reading.now h.tracks hverdict
    split_ifs with hempty
    · rw [hempty] at htracks
      exact ⟨htracks, rfl, fun hlive => ⟨hsynced (h.live hlive).1, (h.live hlive).2⟩, h.requests⟩
    · refine Meets.bind (publish_meets hseq ?_ (lastOf_ne_none hempty)) fun w' r' hs => hs.goLive
      exact h.called_ok hchain htracks hsynced rfl rfl

include hseq in
theorem connect_meets (h : Standing p Tracks w r) :
    Meets (lossless venueIndex successor) (Standing p Tracks) (Runner.connect p reading r) w := by
  rw [Runner.connect, meets_bind, meets_query]
  intro stopping _
  refine ⟨h.guarantee rfl, ?_⟩
  split_ifs
  · exact h
  rw [meets_bind, meets_tell]
  refine fun _ => ⟨h.guarantee rfl, ?_⟩
  rw [meets_bind, meets_tell]
  refine fun _ => ⟨lawful_of_not_pushed rfl fun hlive => (by cases hlive), ?_⟩
  have hfresh : Standing p Tracks ⟨.kConnecting, false, none⟩
      { Runner.resetProtocol p r with loggedLive := false, generation := r.generation + 1 } :=
    ⟨hseq.tracks_reset _, (hseq.synced_reset _).symm, (fun hlive => by cases hlive), h.requests⟩
  apply Meets.bind (hfresh.settle _ _)
  intro w' opened ⟨hs, _⟩
  have hactive : Standing p Tracks w' { opened with lastActivity := reading.now } :=
    hs.congr rfl hs.requests
  exact (hactive.within (Runner.armWatchdog_within _)).mono fun w'' r' ⟨hs, hkept⟩ =>
    hs.of_kept hkept

theorem onOpen_meets (h : Standing p Tracks w r) :
    Meets (lossless venueIndex successor) (Standing p Tracks) (Runner.onOpen p reading r) w := by
  rw [Runner.onOpen, meets_bind, Runner.setState, meets_tell]
  refine fun _ => ⟨h.guarantee rfl, ?_⟩
  have hsyncing : Standing p Tracks { w with state := .kSyncing }
      (r.setConnection r.generation (Runner.subscribe p (r.connections r.generation))) :=
    (h.not_live (by decide)).congr rfl h.requests
  split_ifs with hrest
  · exact (hsyncing.fetchSnapshot hrest).mono fun w' r' hs => hs.1
  · exact hsyncing

theorem onStage_meets (h : Standing p Tracks w r) (id : ℕ) (stage : Stage) (ok : Bool) :
    Meets (lossless venueIndex successor) (Standing p Tracks)
      (Runner.onStage p reading r id stage ok) w := by
  simp only [Runner.onStage]
  split_ifs
  · exact (h.settle id _).mono fun w' r' hs => hs.1
  · split
    · exact h.congr rfl h.requests
    · refine Meets.bind (onOpen_meets (h.congr rfl h.requests)) fun w' r' hs => ?_
      exact hs.congr rfl hs.requests

include hseq in
theorem onRead_meets (h : Standing p Tracks w r) (id : ℕ) (message : Option Bytes) :
    Meets (lossless venueIndex successor) (Standing p Tracks)
      (Runner.onRead p venueIndex reading r id message) w := by
  cases message with
  | none => exact (h.settle id _).mono fun w' r' hs => hs.1
  | some frame =>
    refine Meets.bind (onFrame_meets hseq ?_ frame) fun w' r' hs => ?_
    · exact h.congr rfl h.requests
    · exact hs.congr rfl hs.requests

theorem onStop_meets (h : Standing p Tracks w r) :
    Meets (lossless venueIndex successor) (Standing p Tracks) (Runner.onStop reading r) w := by
  have hcancelled : Standing p Tracks w
      { r with
        reconnectTimer := r.reconnectTimer.cancel
        watchdogTimer := r.watchdogTimer.cancel } := h.congr rfl h.requests
  apply Meets.bind hcancelled.closeConnection
  intro w' r' ⟨hs, _⟩
  exact hs.congr rfl hs.requests

include hseq in
theorem onReconnect_meets (h : Standing p Tracks w r) :
    Meets (lossless venueIndex successor) (Standing p Tracks)
      (Runner.onReconnect p reading r) w := by
  rw [Runner.onReconnect, meets_bind, meets_query]
  intro stopping _
  refine ⟨h.guarantee rfl, ?_⟩
  split_ifs
  · exact h
  · exact connect_meets hseq h

theorem onBehalf_meets (h : Standing p Tracks w r) {source : Source}
    {handler : VenueProgram (Runner σ)}
    (hhandler : Meets (lossless venueIndex successor) (Standing p Tracks) handler w) :
    Meets (lossless venueIndex successor) (Standing p Tracks)
      (Runner.onBehalf source handler) w := by
  rw [Runner.onBehalf, meets_bind, meets_tell]
  exact fun _ => ⟨h.guarantee rfl, hhandler⟩

include hseq in
theorem handle_meets (h : Standing p Tracks w r) {event : Reading × Event}
    {program : VenueProgram (Runner σ)}
    (hhandle : r.handle p options venueIndex event = some program) :
    Meets (lossless venueIndex successor) (Standing p Tracks) program w := by
  obtain ⟨reading, event⟩ := event
  cases Runner.handled_of_handle hhandle with
  | start hposted => exact onBehalf_meets h (connect_meets hseq (h.congr rfl h.requests))
  | stop => exact onBehalf_meets h (onStop_meets h)
  | reconnectExpires hexpired => exact h.congr rfl h.requests
  | watchdogExpires hexpired => exact h.congr rfl h.requests
  | keepaliveExpires hexpired => exact h.congr rfl h.requests
  | reconnect htaken => exact onBehalf_meets h (onReconnect_meets hseq (h.congr rfl h.requests))
  | @watchdog timer htaken =>
    apply onBehalf_meets h
    have htaken : Standing p Tracks w { r with watchdogTimer := timer } := h.congr rfl h.requests
    apply (htaken.within (Runner.onWatchdog_within _)).mono
    intro w' r' ⟨hs, _, _, hkept⟩
    exact hs.congr hkept.protocol (hkept.requests ▸ hs.requests)
  | keepalive htaken => exact onBehalf_meets h (h.congr rfl h.requests)
  | stage ok hopening => exact onBehalf_meets h (onStage_meets h _ _ ok)
  | read message hposted => exact onBehalf_meets h (onRead_meets hseq h _ message)
  | write ok hposted => exact onBehalf_meets h ((h.settle _ _).mono fun w' r' hs => hs.1)
  | closed hposted => exact onBehalf_meets h ((h.settle _ _).mono fun w' r' hs => hs.1)
  | response answer hpending =>
    have hrest : p.needsRestSnapshot = true :=
      h.requests (List.ne_nil_of_mem (List.mem_of_getElem? hpending))
    refine onBehalf_meets h (onSnapshot_meets hseq ?_ hrest answer)
    exact h.congr rfl fun _ => hrest

end Handlers

section Traces
variable {venueIndex : ℕ} {successor : FeedUpdate → FeedUpdate → Prop} {w : Watch}
  {acts : List (Act Note Query)} {act : Act Note Query}

theorem acceptedUpdates_of_breaks (h : breaks act = true) : acceptedUpdates [act] = [] := by
  cases act with
  | emitted e => rfl
  | asked b accepted =>
    cases b with
    | stopping => rfl
    | push batch =>
      cases accepted with
      | true => cases h
      | false => rfl

theorem chained_of_honored
    (h : Honored Watch.track (lossless venueIndex successor).guarantee w acts) :
    Chained successor w.last (acceptedUpdates acts) := by
  induction acts generalizing w with
  | nil => trivial
  | cons act acts ih =>
    have hrest := ih h.2
    rw [acceptedUpdates_cons, chained_append]
    refine ⟨h.1.chained, ?_⟩
    by_cases hbreaks : breaks act = true
    · rw [acceptedUpdates_of_breaks hbreaks]
      rw [Watch.track, if_pos hbreaks] at hrest
      exact hrest.of_none
    · rwa [Watch.track, if_neg hbreaks] at hrest

def refusedAfter (refused : Bool) : Act Note Query → Bool
  | .asked (.push _) false => true
  | .asked (.push batch) true => refused && !batch.updates.any (·.isSnapshot)
  | _ => refused

def refusedSinceSnapshot (trace : List (Act Note Query)) : Bool := trace.foldl refusedAfter false

def protocolSynced (trace : List (Act Note Query)) : Bool := trace.foldl syncedAfter false

theorem track_last_of_none (hlast : w.last = none) (hupdates : acceptedUpdates [act] = []) :
    (w.track act).last = none := by
  rw [Watch.track, hlast, hupdates, lastOf_nil]
  exact ite_self none

theorem last_of_refusedAfter {refused : Bool} (hrefused : refused = true → w.last = none)
    (hact : (lossless venueIndex successor).guarantee w act) (h : refusedAfter refused act = true) :
    (w.track act).last = none := by
  cases act with
  | emitted e => exact track_last_of_none (hrefused h) rfl
  | asked b accepted =>
    cases b with
    | stopping => exact hrefused h
    | push batch =>
      cases accepted with
      | false => rfl
      | true =>
        simp only [refusedAfter, Bool.and_eq_true, Bool.not_eq_true', List.any_eq_false] at h
        have hlast := hrefused h.1
        have hupdates : acceptedUpdates [.asked (.push batch) true] = batch.updates :=
          List.append_nil _
        refine track_last_of_none hlast (hupdates.trans ?_)
        -- From nothing the ring takes a snapshot first.
        have hchain := hact.chained
        rw [hlast, hupdates] at hchain
        cases hbatch : batch.updates with
        | nil => rfl
        | cons u us =>
          rw [hbatch] at hchain
          exact (h.2 u (by simp [hbatch]) hchain.head_snapshot).elim

theorem last_of_refused {refused : Bool} (hrefused : refused = true → w.last = none)
    (h : Honored Watch.track (lossless venueIndex successor).guarantee w acts)
    (hacts : acts.foldl refusedAfter refused = true) : (acts.foldl Watch.track w).last = none := by
  induction acts generalizing w refused with
  | nil => exact hrefused hacts
  | cons act acts ih => exact ih (fun h' => last_of_refusedAfter hrefused h.1 h') h.2 hacts

theorem foldl_track_state (acts : List (Act Note Query)) (w : Watch) :
    (acts.foldl Watch.track w).state = acts.foldl stateAfter w.state := by
  induction acts generalizing w with
  | nil => rfl
  | cons act acts ih => exact ih _

theorem foldl_track_synced (acts : List (Act Note Query)) (w : Watch) :
    (acts.foldl Watch.track w).synced = acts.foldl syncedAfter w.synced := by
  induction acts generalizing w with
  | nil => rfl
  | cons act acts ih => exact ih _

end Traces

def LeavesLive {σ : Type} (program : VenueProgram (Runner σ)) : Prop :=
  ∃ leftover next, program = .emit (.began .kSyncing leftover) next

/-- Nothing the venue sent is missing between the adapter and the engine. -/
structure Lossless {σ : Type} (p : VenueProtocol σ) (successor : FeedUpdate → FeedUpdate → Prop)
    (s : VenueSystem σ) : Prop where
  fifo : acceptedBatches s.trace = s.popped ++ s.ring
  starts : ∀ u us, acceptedUpdates s.trace = u :: us → u.isSnapshot = true
  continues : ∀ us u v vs, acceptedUpdates s.trace = us ++ u :: v :: vs →
    v.isSnapshot = false → successor u v
  restarts : ∀ before act after, s.trace = before ++ act :: after → breaks act = true →
    ∀ u us, acceptedUpdates after = u :: us → u.isSnapshot = true
  live_synced : s.state = .kLive → protocolSynced s.trace = true
  live_whole : s.state = .kLive → refusedSinceSnapshot s.trace = true → LeavesLive s.program
  synced : ∀ r, s.program = .done r → p.synced r.protocol = protocolSynced s.trace

section System
variable {σ : Type} {p : VenueProtocol σ} {options : Options} {venueIndex : ℕ}
  {successor : FeedUpdate → FeedUpdate → Prop} {Tracks : σ → Option FeedUpdate → Prop}

theorem leavesLive_of_meets {w : Watch} {program : VenueProgram (Runner σ)}
    (h : Meets (lossless venueIndex successor) (Standing p Tracks) program w)
    (hlive : w.state = .kLive) :
    w.synced = true ∧ (w.last = none → LeavesLive program) := by
  cases program with
  | done r =>
    obtain ⟨hsynced, hlast⟩ := h.live hlive
    exact ⟨h.synced.trans hsynced, fun hnone => (hlast hnone).elim⟩
  | emit note next =>
    obtain ⟨hsynced, hleaves⟩ := (h trivial).1.live hlive
    refine ⟨hsynced, fun hnone => ?_⟩
    obtain ⟨leftover, hact⟩ := hleaves hnone
    cases hact
    exact ⟨leftover, next, rfl⟩
  | ask b next =>
    obtain ⟨hsynced, hleaves⟩ := (h true trivial).1.live hlive
    refine ⟨hsynced, fun hnone => ?_⟩
    obtain ⟨leftover, hact⟩ := hleaves hnone
    cases hact

theorem meets_of_consistent (hseq : Sequenced p successor Tracks) {start : Runner σ}
    (hstart : Standing p Tracks {} start) {s : VenueSystem σ}
    (h : VenueSystem.Consistent p options venueIndex start s) :
    Honored Watch.track (Lawful venueIndex successor) {} s.trace ∧
      Meets (lossless venueIndex successor) (Standing p Tracks) s.program
        (s.trace.foldl Watch.track {}) :=
  h.runs.meets (c := lossless venueIndex successor) hstart
    (fun _ _ _ _ hs hhandle => handle_meets hseq hs hhandle)
    (honored_of_forall (fun _ _ => trivial) _ _)

theorem lossless_of_consistent (hseq : Sequenced p successor Tracks) {start : Runner σ}
    (hstart : Standing p Tracks {} start) {s : VenueSystem σ}
    (h : VenueSystem.Consistent p options venueIndex start s) : Lossless p successor s := by
  obtain ⟨hkept, hmeets⟩ := meets_of_consistent hseq hstart h
  have hchain := chained_of_honored hkept
  have hstate : (s.trace.foldl Watch.track {}).state = s.state :=
    (foldl_track_state s.trace {}).trans h.state.symm
  have hsynced : (s.trace.foldl Watch.track {}).synced = protocolSynced s.trace :=
    foldl_track_synced s.trace {}
  refine
    { fifo := h.ring
      starts := fun u us heq => ?_
      continues := fun us u v vs heq hdelta => ?_
      restarts := fun before act after heq hbreaks u us hus => ?_
      live_synced := fun hlive => ?_
      live_whole := fun hlive hrefused => ?_
      synced := fun r hr => ?_ }
  · exact (heq ▸ hchain).head_snapshot
  · exact (heq ▸ hchain).adjacent hdelta
  · rw [heq] at hkept
    have hrest := chained_of_honored hkept.after
    rw [track_last_of_breaks hbreaks, hus] at hrest
    exact hrest.head_snapshot
  · exact hsynced ▸ (leavesLive_of_meets hmeets (hstate.trans hlive)).1
  · apply (leavesLive_of_meets hmeets (hstate.trans hlive)).2
    exact last_of_refused (fun h => by cases h) hkept hrefused
  · rw [hr] at hmeets
    exact hmeets.synced.symm.trans hsynced

end System

theorem Adapter.standing (parse : JsonParser) (adapter : Adapter) (options : Options) :
    Standing (adapter.protocol parse) adapter.Tracks {}
      (Runner.create adapter.initial options) :=
  ⟨adapter.tracks_initial, (adapter.unsynced_initial parse).symm, (fun h => by cases h),
    fun h => (h rfl).elim⟩

theorem venue_lossless (parse : JsonParser) (adapter : Adapter) (options : Options)
    (venueIndex capacity : ℕ) (moves : List VenueMove) :
    Lossless (adapter.protocol parse) adapter.Successor
      ((VenueSystem.create adapter.initial options).run (adapter.protocol parse) options
        venueIndex capacity moves) :=
  lossless_of_consistent (adapter.sequenced parse) (adapter.standing parse options)
    (VenueSystem.consistent_run _ _ _ _ adapter.initial moves)

/-- A snapshot fills a ring of one slot, and the next frame has been offered to it. -/
def okxRefused : VenueSystem Okx.State :=
  (VenueSystem.create {} {}).run (Okx.protocol sessionParser {}) {} 0 1
    (VenueSystem.opened ++ VenueSystem.handled (.read 1 (some (utf8 okxSnapshotText))) ++
      [.handle {} (.read 1 (some (utf8 okxUpdateText))), .act, .act, .act])

theorem okxRefused_live :
    ¬ (okxRefused.state = .kLive → refusedSinceSnapshot okxRefused.trace = false) := by
  decide +kernel

end CexAggregator
