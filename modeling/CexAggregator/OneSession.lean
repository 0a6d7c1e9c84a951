import CexAggregator.BinanceRace
import CexAggregator.RunnerFrame
import CexAggregator.Sequencing
import CexAggregator.VenueSystem

/-!
# One session at a time

The runner replaces a connection without closing it, and resets the protocol without
withdrawing its snapshot request. Where nothing of the old session is outstanding at these
moments, whatever changes the venue afterwards comes from the current session.
-/

namespace CexAggregator
open Program

/-- The session, and whether the handler that runs was woken up on its behalf. -/
structure Session where
  generation : ℕ := 0
  resets : ℕ := 0
  current : Bool := true
deriving DecidableEq

def Session.owns (t : Session) : Source → Bool
  | .timer => true
  | .connection id => id = t.generation
  | .request q => q = ⟨t.generation, t.resets⟩

def Session.track (t : Session) : Act Note Query → Session
  | .emitted (.handling source) => { t with current := t.owns source }
  | .emitted (.began .kConnecting _) => { t with generation := t.generation + 1 }
  | .emitted .reset => { t with resets := t.resets + 1 }
  | _ => t

def changes : Act Note Query → Bool
  | .emitted (.handling _) => false
  | .asked .stopping _ => false
  | _ => true

/-- A session begins while an operation of the one before is outstanding. -/
def leavesOver : Act Note Query → Bool
  | .emitted (.began _ leftover) => leftover
  | _ => false

def oneSession : Contract Note Query Session where
  track := Session.track
  rely _ act := leavesOver act = false
  guarantee t act := changes act = true → t.current = true

/-- Only handlers of the current session change anything. -/
structure OneSession (trace : List (Act Note Query)) : Prop where
  current : Honored Session.track (fun t act => changes act = true → t.current = true) {} trace

section Handlers
variable {σ : Type} {p : VenueProtocol σ} {options : Options} {venueIndex g : ℕ}
  {reading : Reading} {t : Session} {r r' : Runner σ}

structure Alone (g : ℕ) (t : Session) (r : Runner σ) : Prop where
  generation : r.generation = g
  monitor : t.generation = g
  resets : t.resets = r.resets
  quiet : ∀ id, id ≠ g → (r.connections id).Quiet
  requests : ∀ q ∈ r.requests, q = ⟨r.generation, r.resets⟩

structure InSession (g : ℕ) (t : Session) (r : Runner σ) : Prop extends Alone g t r where
  current : t.current = true

theorem Alone.congr (h : Alone g t r) (hgeneration : r'.generation = r.generation)
    (hconnections : r'.connections = r.connections) (hresets : r'.resets = r.resets)
    (hrequests : r'.requests = r.requests) : Alone g t r' where
  generation := hgeneration.trans h.generation
  monitor := h.monitor
  resets := h.resets.trans hresets.symm
  quiet := hconnections ▸ h.quiet
  requests := by
    rw [hrequests, hgeneration, hresets]
    exact h.requests

theorem InSession.congr (h : InSession g t r) (hgeneration : r'.generation = r.generation)
    (hconnections : r'.connections = r.connections) (hresets : r'.resets = r.resets)
    (hrequests : r'.requests = r.requests) : InSession g t r' :=
  ⟨h.toAlone.congr hgeneration hconnections hresets hrequests, h.current⟩

theorem InSession.of_kept (h : InSession g t r) (hkept : Runner.Kept r r') : InSession g t r' :=
  h.congr hkept.generation hkept.connections hkept.resets hkept.requests

theorem Alone.setConnection (h : Alone g t r) {id : ℕ} {c : WsConnection}
    (hc : id ≠ g → c.Quiet) : Alone g t (r.setConnection id c) := by
  refine ⟨h.generation, h.monitor, h.resets, fun other hother => ?_, h.requests⟩
  by_cases hid : other = id
  · subst hid
    simpa [Runner.setConnection] using hc hother
  · simpa [Runner.setConnection, hid] using h.quiet other hother

theorem InSession.setConnection (h : InSession g t r) {id : ℕ} {c : WsConnection}
    (hc : id ≠ g → c.Quiet) : InSession g t (r.setConnection id c) :=
  ⟨h.toAlone.setConnection hc, h.current⟩

theorem InSession.within (h : InSession g t r) {α : Type} {R : α → Prop}
    {program : VenueProgram α} (hprogram : Within QuietAct R program) :
    Meets oneSession (fun t' a => InSession g t' r ∧ R a) program t := by
  refine hprogram.meets (fun t act hs hact _ => ?_) h
  refine ⟨fun _ => hs.current, ?_⟩
  cases act with
  | emitted e =>
    cases e with
    | stored state => exact hs
    | scheduled delay => exact hs
    | began state leftover => exact hact.elim
    | handling source => exact hact.elim
    | reset => exact hact.elim
    | called rest verdict synced => exact hact.elim
  | asked b answer => exact hs

theorem InSession.settle (h : InSession g t r) {id : ℕ} {outcome : WsConnection × Bool}
    (hc : id ≠ g → outcome.1.Quiet) :
    Meets oneSession (InSession g) (Runner.settle reading r id outcome) t :=
  ((h.setConnection hc).within (Runner.settle_within r id outcome)).mono fun _ _ ⟨hs, hkept⟩ =>
    hs.of_kept hkept

theorem InSession.rewired (h : InSession g t r) (hr : Runner.Rewired r r') : InSession g t r' := by
  obtain ⟨c, -, hkept⟩ := hr
  refine (h.setConnection fun hne => ?_).of_kept hkept
  exact (hne h.generation).elim

theorem InSession.closeConnection (h : InSession g t r) :
    Meets oneSession (InSession g) (Runner.closeConnection reading r) t :=
  (h.within (Runner.closeConnection_within r)).mono fun _ _ ⟨hs, hr⟩ => hs.rewired hr

theorem InSession.fetchSnapshot (h : InSession g t r) :
    Meets oneSession (InSession g) (Runner.fetchSnapshot p reading r) t := by
  refine (h.within (Runner.fetchSnapshot_within r)).mono
    fun t' r' ⟨hs, issued, hissued, hkept⟩ => ?_
  have hasked : InSession g t' { r with requests := r.requests ++ issued } :=
    ⟨⟨hs.generation, hs.monitor, hs.resets, hs.quiet,
      List.forall_mem_append.mpr ⟨hs.requests, hissued⟩⟩, hs.current⟩
  exact hasked.of_kept hkept

theorem InSession.reset (h : InSession g t r) (hrequests : r.requests = [])
    (hprotocol : r'.generation = r.generation) (hconnections : r'.connections = r.connections)
    (hresets : r'.resets = r.resets + 1) (hsame : r'.requests = r.requests) :
    InSession g { t with resets := t.resets + 1 } r' := by
  refine ⟨⟨hprotocol.trans h.generation, h.monitor, ?_, hconnections ▸ h.quiet, ?_⟩, h.current⟩
  · rw [hresets, h.resets]
  · rw [hsame, hrequests]
    exact fun _ hq => by cases hq

theorem InSession.resync (h : InSession g t r) :
    Meets oneSession (InSession g) (Runner.resync p reading r) t := by
  rw [Runner.resync, meets_bind, meets_tell]
  intro hrely
  refine ⟨fun _ => h.current, ?_⟩
  have hrequests : r.requests = [] := by simpa [oneSession, leavesOver] using hrely
  rw [meets_bind, meets_tell]
  refine fun _ => ⟨fun _ => h.current, ?_⟩
  have hfresh : InSession g { t with resets := t.resets + 1 }
      { Runner.resetProtocol p r with stats := { r.stats with resyncs := r.stats.resyncs + 1 } } :=
    h.reset hrequests rfl rfl rfl rfl
  split_ifs
  · exact hfresh.fetchSnapshot
  · exact hfresh.closeConnection

theorem InSession.publish (h : InSession g t r) (updates : List FeedUpdate) :
    Meets oneSession (InSession g) (Runner.publish p venueIndex reading r updates) t := by
  rw [Runner.publish]
  split_ifs
  · exact h
  rw [meets_bind, meets_query]
  refine fun accepted _ => ⟨fun _ => h.current, ?_⟩
  split_ifs
  · exact h
  · apply InSession.resync
    exact h.congr rfl rfl rfl rfl

theorem InSession.goLive (h : InSession g t r) :
    Meets oneSession (InSession g) (Runner.goLive p r) t := by
  rw [Runner.goLive]
  split_ifs
  · rw [meets_bind, Runner.setState, meets_tell]
    exact fun _ => ⟨fun _ => h.current, h.congr rfl rfl rfl rfl⟩
  · exact h

theorem InSession.onSnapshot (h : InSession g t r) (answer : Option Bytes) :
    Meets oneSession (InSession g) (Runner.onSnapshot p venueIndex reading r answer) t := by
  cases answer with
  | none =>
    exact (h.within (Runner.snapshotFailed_within r)).mono fun _ _ ⟨hs, hkept⟩ => hs.of_kept hkept
  | some body =>
    rw [Runner.onSnapshot, meets_bind, meets_query]
    refine fun stopping _ => ⟨fun _ => h.current, ?_⟩
    split_ifs
    · exact h
    rw [meets_bind, meets_tell]
    refine fun _ => ⟨fun _ => h.current, ?_⟩
    split_ifs
    · apply InSession.resync
      exact h.congr rfl rfl rfl rfl
    · refine Meets.bind (InSession.publish ?_ _) fun t' r' hs => hs.goLive
      exact h.congr rfl rfl rfl rfl

theorem InSession.onFrame (h : InSession g t r) (frame : Bytes) :
    Meets oneSession (InSession g) (Runner.onFrame p venueIndex reading r frame) t := by
  rw [Runner.onFrame, meets_bind, meets_tell]
  refine fun _ => ⟨fun _ => h.current, ?_⟩
  split
  · apply InSession.resync
    exact h.congr rfl rfl rfl rfl
  · apply InSession.resync
    exact h.congr rfl rfl rfl rfl
  · rw [meets_bind, Runner.setState, meets_tell]
    refine fun _ => ⟨fun _ => h.current, ?_⟩
    apply InSession.closeConnection
    exact h.congr rfl rfl rfl rfl
  · split_ifs
    · exact h.congr rfl rfl rfl rfl
    · refine Meets.bind (InSession.publish ?_ _) fun t' r' hs => hs.goLive
      exact h.congr rfl rfl rfl rfl

theorem InSession.onOpen (h : InSession g t r) :
    Meets oneSession (InSession g) (Runner.onOpen p reading r) t := by
  rw [Runner.onOpen, meets_bind, Runner.setState, meets_tell]
  refine fun _ => ⟨fun _ => h.current, ?_⟩
  have hsubscribed : InSession g t
      (r.setConnection r.generation (Runner.subscribe p (r.connections r.generation))) :=
    h.setConnection fun hne => (hne h.generation).elim
  split_ifs
  · exact hsubscribed.fetchSnapshot
  · exact hsubscribed

theorem InSession.connect (h : InSession g t r) :
    Meets oneSession (fun t' r' => ∃ g', InSession g' t' r') (Runner.connect p reading r) t := by
  rw [Runner.connect, meets_bind, meets_query]
  refine fun stopping _ => ⟨fun _ => h.current, ?_⟩
  split_ifs
  · exact ⟨g, h⟩
  rw [meets_bind, meets_tell]
  intro hrely
  refine ⟨fun _ => h.current, ?_⟩
  have hleft : r.requests = [] ∧ (r.connections g).Quiet := by
    have hnone : r.leftover = false := hrely
    simpa [Runner.leftover, h.generation] using hnone
  rw [meets_bind, meets_tell]
  refine fun _ => ⟨fun _ => h.current, ?_⟩
  have hfresh : InSession (g + 1)
      { t with generation := t.generation + 1, resets := t.resets + 1 }
      { Runner.resetProtocol p r with loggedLive := false, generation := r.generation + 1 } := by
    refine ⟨⟨by simp [h.generation], by simp [h.monitor], by simp [Runner.resetProtocol, h.resets],
      fun id _ => ?_, ?_⟩, h.current⟩
    · by_cases hid : id = g
      · exact hid ▸ hleft.2
      · exact h.quiet id hid
    · simp [Runner.resetProtocol, hleft.1]
  refine Meets.bind (hfresh.settle fun hne => (hne (by simp [h.generation])).elim)
    fun t' opened hs => ?_
  have hactive : InSession (g + 1) t' { opened with lastActivity := reading.now } :=
    hs.congr rfl rfl rfl rfl
  exact (hactive.within (Runner.armWatchdog_within _)).mono fun t'' r' ⟨hs, hkept⟩ =>
    ⟨g + 1, hs.of_kept hkept⟩

theorem InSession.onReconnect (h : InSession g t r) :
    Meets oneSession (fun t' r' => ∃ g', InSession g' t' r') (Runner.onReconnect p reading r)
      t := by
  rw [Runner.onReconnect, meets_bind, meets_query]
  refine fun stopping _ => ⟨fun _ => h.current, ?_⟩
  split_ifs
  · exact ⟨g, h⟩
  · exact h.connect

theorem InSession.onStop (h : InSession g t r) :
    Meets oneSession (InSession g) (Runner.onStop reading r) t := by
  have hcancelled : InSession g t
      { r with
        reconnectTimer := r.reconnectTimer.cancel
        watchdogTimer := r.watchdogTimer.cancel } := h.congr rfl rfl rfl rfl
  exact Meets.bind hcancelled.closeConnection fun t' r' hs => hs.congr rfl rfl rfl rfl

theorem InSession.onStage (h : InSession g t r) (stage : Stage) (ok : Bool) :
    Meets oneSession (InSession g) (Runner.onStage p reading r g stage ok) t := by
  have hown : ∀ {P : Prop}, g ≠ g → P := fun hne => (hne rfl).elim
  simp only [Runner.onStage]
  split_ifs
  · exact h.settle hown
  · split
    · exact h.setConnection hown
    · refine Meets.bind (InSession.onOpen (g := g) ?_) fun t' r' hs => ?_
      · exact h.setConnection hown
      · exact hs.setConnection hown

theorem InSession.onRead (h : InSession g t r) (message : Option Bytes) :
    Meets oneSession (InSession g) (Runner.onRead p venueIndex reading r g message) t := by
  have hown : ∀ {P : Prop}, g ≠ g → P := fun hne => (hne rfl).elim
  cases message with
  | none => exact h.settle hown
  | some frame =>
    refine Meets.bind (InSession.onFrame (g := g) ?_ frame) fun t' r' hs => ?_
    · exact h.setConnection hown
    · exact hs.setConnection hown

def Settled (t : Session) (r : Runner σ) : Prop := ∃ g, Alone g t r

theorem onBehalf_owned (h : Alone g t r) {source : Source} {handler : VenueProgram (Runner σ)}
    (hsource : t.owns source = true)
    (hhandler : ∀ t', InSession g t' r → Meets oneSession Settled handler t') :
    Meets oneSession Settled (Runner.onBehalf source handler) t := by
  rw [Runner.onBehalf, meets_bind, meets_tell]
  refine fun _ => ⟨fun hchanges => (by cases hchanges), hhandler _ ?_⟩
  exact ⟨⟨h.generation, h.monitor, h.resets, h.quiet, h.requests⟩, hsource⟩

theorem InSession.settled (h : InSession g t r) : Settled t r := ⟨g, h.toAlone⟩

theorem settle_settled (h : Alone g t r) {id : ℕ} {outcome : WsConnection × Bool}
    (hc : id ≠ g → outcome.1.Quiet) :
    Meets oneSession Settled
      (Runner.onBehalf (.connection id) (Runner.settle reading r id outcome)) t := by
  by_cases hid : id = g
  · apply onBehalf_owned h (by simp [Session.owns, hid, h.monitor])
    intro t' hs
    exact (hs.settle hc).mono fun _ _ hs => hs.settled
  · rw [Runner.onBehalf, meets_bind, meets_tell, Runner.settle,
      if_neg (by simp [h.generation, hid])]
    refine fun _ => ⟨fun hchanges => (by cases hchanges), ⟨g, Alone.setConnection ?_ hc⟩⟩
    exact ⟨h.generation, h.monitor, h.resets, h.quiet, h.requests⟩

theorem Alone.event (h : Alone g t r) {event : Reading × Event}
    {program : VenueProgram (Runner σ)}
    (hhandle : r.handle p options venueIndex event = some program) :
    Meets oneSession Settled program t := by
  obtain ⟨reading, event⟩ := event
  cases Runner.handled_of_handle hhandle with
  | start hposted =>
    apply onBehalf_owned h rfl
    intro t' hs
    have hstarted : InSession g t' { r with posted := false } := hs.congr rfl rfl rfl rfl
    exact hstarted.connect.mono fun _ _ ⟨_, hs⟩ => hs.settled
  | stop =>
    exact onBehalf_owned h rfl fun t' hs => hs.onStop.mono fun _ _ hs => hs.settled
  | reconnectExpires hexpired => exact ⟨g, h.congr rfl rfl rfl rfl⟩
  | watchdogExpires hexpired => exact ⟨g, h.congr rfl rfl rfl rfl⟩
  | @keepaliveExpires id timer hexpired =>
    exact ⟨g, h.setConnection fun hne => h.quiet id hne⟩
  | @reconnect timer htaken =>
    apply onBehalf_owned h rfl
    intro t' hs
    have htaken : InSession g t' { r with reconnectTimer := timer } := hs.congr rfl rfl rfl rfl
    exact htaken.onReconnect.mono fun _ _ ⟨_, hs⟩ => hs.settled
  | @watchdog timer htaken =>
    apply onBehalf_owned h rfl
    intro t' hs
    have htaken : InSession g t' { r with watchdogTimer := timer } := hs.congr rfl rfl rfl rfl
    exact (htaken.within (Runner.onWatchdog_within _)).mono fun _ _ ⟨hs, hr⟩ =>
      (hs.rewired hr).settled
  | @keepalive id timer htaken =>
    rw [Runner.onBehalf, meets_bind, meets_tell]
    refine fun _ => ⟨fun hchanges => (by cases hchanges), ⟨g, Alone.setConnection ?_ fun hne => ?_⟩⟩
    · exact ⟨h.generation, h.monitor, h.resets, h.quiet, h.requests⟩
    · exact (WsConnection.onKeepalive_settles _).quiet (h.quiet id hne)
  | @stage id stage ok hopening =>
    have hid : id = g := by
      by_contra hne
      rw [(h.quiet id hne).1] at hopening
      cases hopening
    subst hid
    apply onBehalf_owned h (by simp [Session.owns, h.monitor])
    intro t' hs
    exact (hs.onStage stage ok).mono fun _ _ hs => hs.settled
  | @read id message hposted =>
    have hid : id = g := by
      by_contra hne
      exact hposted.ne' (h.quiet id hne).2
    subst hid
    apply onBehalf_owned h (by simp [Session.owns, h.monitor])
    intro t' hs
    exact (hs.onRead message).mono fun _ _ hs => hs.settled
  | @write id ok hposted =>
    refine settle_settled h fun hne => (WsConnection.onWrite_settles _ ok).quiet ?_
    exact h.quiet id hne
  | @closed id hposted =>
    refine settle_settled h fun hne => (WsConnection.finish_settles _).quiet ?_
    exact h.quiet id hne
  | @response index q answer hpending =>
    have hcurrent := h.requests q (List.mem_of_getElem? hpending)
    refine onBehalf_owned h ?_ fun t' hs => ?_
    · simp [Session.owns, hcurrent, h.monitor, h.generation, h.resets]
    · have hanswered : InSession g t' { r with requests := r.requests.eraseIdx index } :=
        ⟨⟨hs.generation, hs.monitor, hs.resets, hs.quiet, fun q' hq' =>
          hs.requests q' (List.mem_of_mem_eraseIdx hq')⟩, hs.current⟩
      exact (hanswered.onSnapshot answer).mono fun _ _ hs => hs.settled

theorem alone_create (initial : σ) : Alone 0 {} (Runner.create initial options) :=
  ⟨rfl, rfl, rfl, fun _ _ => ⟨rfl, rfl⟩, fun _ hq => by cases hq⟩

end Handlers

instance (trace : List (Act Note Query)) : Decidable (OneSession trace) :=
  decidable_of_iff _ ⟨OneSession.mk, OneSession.current⟩

def BeginsClean (trace : List (Act Note Query)) : Prop := ∀ act ∈ trace, leavesOver act = false

instance (trace : List (Act Note Query)) : Decidable (BeginsClean trace) :=
  inferInstanceAs (Decidable (∀ act ∈ trace, leavesOver act = false))

theorem one_session {σ : Type} (p : VenueProtocol σ) (initial : σ) (options : Options)
    (venueIndex capacity : ℕ) (moves : List VenueMove)
    (hclean : BeginsClean ((VenueSystem.create initial options).run p options venueIndex capacity
      moves).trace) :
    OneSession ((VenueSystem.create initial options).run p options venueIndex capacity
      moves).trace := by
  have hconsistent := VenueSystem.consistent_run p options venueIndex capacity initial moves
  exact ⟨(hconsistent.runs.meets (c := oneSession) (Q := Settled) ⟨0, alone_create initial⟩
    (fun _ _ _ _ ⟨_, h⟩ hhandle => h.event hhandle) (honored_of_mem hclean _)).1⟩

abbrev lateVenue (moves : List VenueMove) : VenueSystem Binance.State :=
  (VenueSystem.create {} {}).run (Binance.protocol Binance.lateParser {}) {} 0 1024 moves

def cleanMoves : List VenueMove :=
  open VenueSystem in
  opened ++ handled (.response 0 (some (utf8 Binance.lateSnapshotText))) ++
    handled (.read 1 (some (utf8 (Binance.emptyEventText "102" "110")))) ++
    handled (.response 0 none) ++ handled (.read 1 none) ++ handled .reconnectExpires ++
    handled .reconnect

theorem one_session_resync : BeginsClean (lateVenue cleanMoves).trace ∧
    OneSession (lateVenue cleanMoves).trace := by
  have hclean : BeginsClean (lateVenue cleanMoves).trace := by decide +kernel
  exact ⟨hclean, one_session _ _ _ _ _ _ hclean⟩

/-- The snapshot request fails, the runner reconnects, and the connection it has replaced
hands over one more frame. -/
def replacedMoves : List VenueMove :=
  open VenueSystem in
  opened ++ handled (.response 0 none) ++ handled .reconnectExpires ++ handled .reconnect ++
    handled (.read 1 (some (utf8 (Binance.emptyEventText "90" "95"))))

theorem replaced_connection_feeds : ¬ OneSession (lateVenue replacedMoves).trace := by
  decide +kernel

end CexAggregator
