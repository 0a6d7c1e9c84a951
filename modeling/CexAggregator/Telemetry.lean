import CexAggregator.NoLoss
import CexAggregator.RunnerFrame

/-!
# What a venue's status counts

The counters of a venue's status against what its thread has done. Every frame is counted, and
every resync has one of four causes, three of which have a counter of their own.
-/

namespace CexAggregator
open Program

@[ext] structure Tally where
  frames : ℕ := 0
  gaps : ℕ := 0
  malformed : ℕ := 0
  refused : ℕ := 0
  unreconciled : ℕ := 0
  resyncs : ℕ := 0
  fatal : Bool := false

namespace Tally

def frame (t : Tally) : FrameVerdict → Tally
  | .kOk => { t with frames := t.frames + 1 }
  | .kNeedsResync => { t with frames := t.frames + 1, gaps := t.gaps + 1 }
  | .kParseError => { t with frames := t.frames + 1, malformed := t.malformed + 1 }
  | .kFatal => { t with frames := t.frames + 1, fatal := true }

def snapshot (t : Tally) (verdict : FrameVerdict) : Tally :=
  if verdict = .kOk then t else { t with unreconciled := t.unreconciled + 1 }

def track (t : Tally) : Act Note Query → Tally
  | .emitted (.called false verdict _) => t.frame verdict
  | .emitted (.called true verdict _) => t.snapshot verdict
  | .emitted (.began .kSyncing _) => { t with resyncs := t.resyncs + 1 }
  | .asked (.push _) false => { t with refused := t.refused + 1 }
  | _ => t

def causes (t : Tally) : ℕ := t.gaps + t.malformed + t.refused + t.unreconciled

end Tally

/-- The status counts what has happened, but for the `owed` resyncs still to come. -/
structure Accounts (owed : ℕ) (t : Tally) (stats : VenueStats) : Prop where
  messages : stats.messages = t.frames
  sequenceGaps : stats.sequenceGaps = t.gaps
  parseErrors : stats.parseErrors = t.malformed
  ringOverflows : stats.ringOverflows = t.refused
  fatal : stats.fatal = t.fatal
  resyncs : stats.resyncs = t.resyncs
  causes : stats.resyncs + owed = t.causes

def Uncounted (act : Act Note Query) : Prop := ∀ t : Tally, t.track act = t

theorem uncounted_of_quiet {act : Act Note Query} (h : QuietAct act) : Uncounted act := by
  intro t
  match act, h with
  | .emitted (.stored _), _ => rfl
  | .emitted (.scheduled _), _ => rfl
  | .asked .stopping _, _ => rfl

def counting : Contract Note Query Tally := ⟨Tally.track, fun _ _ => True, fun _ _ => True⟩

namespace Runner
variable {σ : Type} {p : VenueProtocol σ} {options : Options} {venueIndex : ℕ}
  {reading : Reading} {r r' : Runner σ} {t : Tally} {owed : ℕ}

def Accounted (t : Tally) (r : Runner σ) : Prop := Accounts 0 t r.stats

theorem accounts_of_within {allowed : Act Note Query → Prop} {R : Runner σ → Prop}
    {program : VenueProgram (Runner σ)} (hprogram : Within allowed R program)
    (hallowed : ∀ act, allowed act → Uncounted act) (hR : ∀ r', R r' → r'.stats = r.stats)
    (h : Accounts owed t r.stats) :
    Meets counting (fun t r => Accounts owed t r.stats) program t := by
  have hmeets : Meets counting (fun t r' => Accounts owed t r.stats ∧ R r') program t := by
    refine hprogram.meets (fun t act ht hact _ => ⟨trivial, ?_⟩) h
    rw [show counting.track t act = t from hallowed act hact t]
    exact ht
  refine hmeets.mono fun t r' hr' => ?_
  rw [hR r' hr'.2]
  exact hr'.1

theorem accounts_of_quiet {R : Runner σ → Prop} {program : VenueProgram (Runner σ)}
    (hprogram : Within QuietAct R program) (hR : ∀ r', R r' → r'.stats = r.stats)
    (h : Accounts owed t r.stats) :
    Meets counting (fun t r => Accounts owed t r.stats) program t :=
  accounts_of_within hprogram (fun _ => uncounted_of_quiet) hR h

theorem Rewired.stats (h : Rewired r r') : r'.stats = r.stats := by
  obtain ⟨c, -, hkept⟩ := h
  exact hkept.stats

theorem Requested.stats (h : Requested r r') : r'.stats = r.stats := by
  obtain ⟨issued, -, hkept⟩ := h
  exact hkept.stats

theorem settle_accounts (h : Accounts owed t r.stats) (id : ℕ) (outcome : WsConnection × Bool) :
    Meets counting (fun t r => Accounts owed t r.stats) (settle reading r id outcome) t :=
  accounts_of_quiet (settle_within r id outcome) (fun _ hr' => hr'.stats) h

theorem closeConnection_accounts (h : Accounts owed t r.stats) :
    Meets counting (fun t r => Accounts owed t r.stats) (closeConnection reading r) t :=
  accounts_of_quiet (closeConnection_within r) (fun _ hr' => hr'.stats) h

theorem fetchSnapshot_accounts (h : Accounts owed t r.stats) :
    Meets counting (fun t r => Accounts owed t r.stats) (fetchSnapshot p reading r) t :=
  accounts_of_quiet (fetchSnapshot_within r) (fun _ hr' => hr'.stats) h

theorem snapshotFailed_accounts (h : Accounts owed t r.stats) :
    Meets counting (fun t r => Accounts owed t r.stats) (snapshotFailed reading r) t :=
  accounts_of_quiet (snapshotFailed_within r) (fun _ hr' => hr'.stats) h

theorem armWatchdog_accounts (h : Accounts owed t r.stats) :
    Meets counting (fun t r => Accounts owed t r.stats) (armWatchdog r) t :=
  accounts_of_quiet (armWatchdog_within r) (fun _ hr' => hr'.stats) h

theorem resync_accounts (h : Accounts 1 t r.stats) :
    Meets counting Accounted (resync p reading r) t := by
  rw [resync]
  refine Meets.bind (P := fun t' _ => t' = { t with resyncs := t.resyncs + 1 }) ?_ ?_
  · exact fun _ => ⟨trivial, rfl⟩
  · rintro _ _ rfl
    refine Meets.bind (P := fun t' _ => t' = { t with resyncs := t.resyncs + 1 }) ?_ ?_
    · exact fun _ => ⟨trivial, rfl⟩
    · rintro _ _ rfl
      have hpaid : Accounts 0 { t with resyncs := t.resyncs + 1 }
          { r.stats with resyncs := r.stats.resyncs + 1 } :=
        ⟨h.messages, h.sequenceGaps, h.parseErrors, h.ringOverflows, h.fatal,
          congrArg (· + 1) h.resyncs, h.causes⟩
      split_ifs
      · exact fetchSnapshot_accounts hpaid
      · exact closeConnection_accounts hpaid

theorem publish_accounts (h : Accounts 0 t r.stats) (updates : List FeedUpdate) :
    Meets counting Accounted (publish p venueIndex reading r updates) t := by
  rw [publish]
  split_ifs
  · exact h
  · refine Meets.bind (P := fun t' accepted =>
      t' = if accepted then t else { t with refused := t.refused + 1 }) ?_ ?_
    · rintro (_ | _) _ <;> exact ⟨trivial, rfl⟩
    · rintro _ accepted rfl
      split_ifs
      · exact h
      · apply resync_accounts
        refine ⟨h.messages, h.sequenceGaps, h.parseErrors, congrArg (· + 1) h.ringOverflows,
          h.fatal, h.resyncs, ?_⟩
        have hcauses := h.causes
        simp only [Tally.causes] at hcauses ⊢
        omega

theorem goLive_accounts (h : Accounts 0 t r.stats) :
    Meets counting Accounted (goLive p r) t := by
  rw [goLive]
  split_ifs
  · exact fun _ => ⟨trivial, h⟩
  · exact h

theorem onSnapshot_accounts (h : Accounts 0 t r.stats) (answer : Option Bytes) :
    Meets counting Accounted (onSnapshot p venueIndex reading r answer) t := by
  cases answer with
  | none => exact snapshotFailed_accounts h
  | some body =>
    rw [onSnapshot]
    refine Meets.bind (P := fun t' _ => t' = t) (fun _ _ => ⟨trivial, rfl⟩) ?_
    rintro t stopping rfl
    split_ifs
    · exact h
    · refine Meets.bind (P := fun t' _ => t' =
        t.snapshot (p.onRestSnapshot r.protocol body reading.now []).verdict)
        (fun _ => ⟨trivial, rfl⟩) ?_
      rintro _ _ rfl
      split_ifs with hverdict
      · apply resync_accounts
        rw [Tally.snapshot, if_neg hverdict]
        exact ⟨h.messages, h.sequenceGaps, h.parseErrors, h.ringOverflows, h.fatal, h.resyncs,
          congrArg (· + 1) h.causes⟩
      · rw [Tally.snapshot, if_pos (not_not.mp hverdict)]
        refine Meets.bind (P := Accounted) ?_ fun t r' hr' => goLive_accounts hr'
        apply publish_accounts
        exact h

theorem exchangeTs_accounts {stats : VenueStats} (h : Accounts owed t stats)
    (updates : List FeedUpdate) : Accounts owed t (exchangeTs stats updates) := by
  rw [exchangeTs]
  split
  · split_ifs
    · exact ⟨h.messages, h.sequenceGaps, h.parseErrors, h.ringOverflows, h.fatal, h.resyncs,
        h.causes⟩
    · exact h
  · exact h

theorem onFrame_accounts (h : Accounts 0 t r.stats) (frame : Bytes) :
    Meets counting Accounted (onFrame p venueIndex reading r frame) t := by
  rw [onFrame]
  refine Meets.bind (P := fun t' _ => t' =
    t.frame (p.onFrame r.protocol frame reading.now []).verdict) (fun _ => ⟨trivial, rfl⟩) ?_
  rintro _ _ rfl
  have hcauses := h.causes
  simp only [Tally.causes] at hcauses
  cases hverdict : (p.onFrame r.protocol frame reading.now []).verdict with
  | kNeedsResync =>
    apply resync_accounts
    refine ⟨congrArg (· + 1) h.messages, congrArg (· + 1) h.sequenceGaps, h.parseErrors,
      h.ringOverflows, h.fatal, h.resyncs, ?_⟩
    simp only [Tally.frame, Tally.causes]
    omega
  | kParseError =>
    apply resync_accounts
    refine ⟨congrArg (· + 1) h.messages, h.sequenceGaps, congrArg (· + 1) h.parseErrors,
      h.ringOverflows, h.fatal, h.resyncs, ?_⟩
    simp only [Tally.frame, Tally.causes]
    omega
  | kFatal =>
    refine Meets.bind (P := fun t' _ => t' = t.frame .kFatal) (fun _ => ⟨trivial, rfl⟩) ?_
    rintro _ _ rfl
    exact closeConnection_accounts ⟨congrArg (· + 1) h.messages, h.sequenceGaps, h.parseErrors,
      h.ringOverflows, rfl, h.resyncs, hcauses⟩
  | kOk =>
    have hcounted : Accounts 0 (t.frame .kOk)
        { r.stats with messages := r.stats.messages + 1, lastRecvTsNs := reading.now } :=
      ⟨congrArg (· + 1) h.messages, h.sequenceGaps, h.parseErrors, h.ringOverflows, h.fatal,
        h.resyncs, hcauses⟩
    simp only
    split_ifs
    · exact hcounted
    · exact Meets.bind (publish_accounts (exchangeTs_accounts hcounted _) _) fun t r' hr' =>
        goLive_accounts hr'

theorem onOpen_accounts (h : Accounts 0 t r.stats) :
    Meets counting Accounted (onOpen p reading r) t := by
  rw [onOpen]
  refine Meets.bind (P := fun t' _ => t' = t) (fun _ => ⟨trivial, rfl⟩) ?_
  rintro _ _ rfl
  split_ifs
  · exact fetchSnapshot_accounts h
  · exact h

theorem connect_accounts (h : Accounts 0 t r.stats) :
    Meets counting Accounted (connect p reading r) t := by
  rw [connect]
  refine Meets.bind (P := fun t' _ => t' = t) (fun _ _ => ⟨trivial, rfl⟩) ?_
  rintro t stopping rfl
  split_ifs
  · exact h
  · refine Meets.bind (P := fun t' _ => t' = t) (fun _ => ⟨trivial, rfl⟩) ?_
    rintro t _ rfl
    refine Meets.bind (P := fun t' _ => t' = t) (fun _ => ⟨trivial, rfl⟩) ?_
    rintro t _ rfl
    refine Meets.bind (P := Accounted) ?_ fun t opened hopened => ?_
    · apply settle_accounts
      exact h
    · apply armWatchdog_accounts
      exact hopened

theorem onReconnect_accounts (h : Accounts 0 t r.stats) :
    Meets counting Accounted (onReconnect p reading r) t := by
  rw [onReconnect]
  refine Meets.bind (P := fun t' _ => t' = t) (fun _ _ => ⟨trivial, rfl⟩) ?_
  rintro _ stopping rfl
  split_ifs
  · exact h
  · exact connect_accounts h

theorem onStop_accounts (h : Accounts 0 t r.stats) :
    Meets counting Accounted (onStop reading r) t :=
  Meets.bind (closeConnection_accounts h) fun _ _ hclosed => hclosed

theorem onStage_accounts (h : Accounts 0 t r.stats) (id : ℕ) (stage : Stage) (ok : Bool) :
    Meets counting Accounted (onStage p reading r id stage ok) t := by
  simp only [onStage]
  split_ifs
  · exact settle_accounts h id _
  · split
    · exact h
    · exact Meets.bind (onOpen_accounts h) fun _ _ hopened => hopened

theorem onRead_accounts (h : Accounts 0 t r.stats) (id : ℕ) (message : Option Bytes) :
    Meets counting Accounted (onRead p venueIndex reading r id message) t := by
  cases message with
  | none => exact settle_accounts h id _
  | some frame =>
    exact Meets.bind (onFrame_accounts (r := r.setConnection id _) h frame)
      fun _ _ hreceived => hreceived

theorem onBehalf_accounts {source : Source} {handler : VenueProgram (Runner σ)}
    (h : Meets counting Accounted handler t) :
    Meets counting Accounted (onBehalf source handler) t :=
  fun _ => ⟨trivial, h⟩

theorem handle_accounts (h : Accounted t r) {event : Event} {program : VenueProgram (Runner σ)}
    (hhandle : r.handle p options venueIndex (reading, event) = some program) :
    Meets counting Accounted program t := by
  cases handled_of_handle hhandle with
  | start hposted => exact onBehalf_accounts (connect_accounts h)
  | stop => exact onBehalf_accounts (onStop_accounts h)
  | reconnectExpires hexpired => exact h
  | watchdogExpires hexpired => exact h
  | keepaliveExpires hexpired => exact h
  | reconnect htaken => exact onBehalf_accounts (onReconnect_accounts h)
  | watchdog htaken =>
    apply onBehalf_accounts
    exact accounts_of_quiet (onWatchdog_within _) (fun _ hr' => hr'.stats) h
  | keepalive htaken => exact onBehalf_accounts h
  | stage ok hopening => exact onBehalf_accounts (onStage_accounts h _ _ ok)
  | read message hposted => exact onBehalf_accounts (onRead_accounts h _ message)
  | write ok hposted => exact onBehalf_accounts (settle_accounts h _ _)
  | closed hposted => exact onBehalf_accounts (settle_accounts h _ _)
  | response answer hpending =>
    refine onBehalf_accounts (onSnapshot_accounts ?_ answer)
    exact h

end Runner

/-- Whatever the venue does, and however often it is rebuilt: between two handlers its counters
are exactly what its thread has done, and every resync is accounted for. -/
theorem counters_account {σ : Type} (p : VenueProtocol σ) (options : Options)
    (venueIndex capacity : ℕ) (initial : σ) (moves : List VenueMove) (r : Runner σ) :
    let s := (VenueSystem.create initial options).run p options venueIndex capacity moves
    s.program = .done r → Accounts 0 (s.trace.foldl Tally.track {}) r.stats := by
  intro s hdone
  have hruns := (VenueSystem.consistent_run p options venueIndex capacity initial moves).runs
  have hstart : Runner.Accounted ({} : Tally) (Runner.create initial options) :=
    ⟨rfl, rfl, rfl, rfl, rfl, rfl, rfl⟩
  have hmeets := (hruns.meets (c := counting) (Q := Runner.Accounted) hstart
    (fun t r event program h hhandle => Runner.handle_accounts h hhandle)
    (honored_of_forall (fun _ _ => trivial) _ _)).2
  rw [hdone] at hmeets
  exact hmeets

/-- The second push is refused, and before the connection is closed it brings a frame that makes no
sense: two causes, two resyncs. -/
theorem counters_account_okx :
    let s := (VenueSystem.create {} {}).run (Okx.protocol sessionParser {}) {} 0 1
      (VenueSystem.opened ++ VenueSystem.handled (.read 1 (some (utf8 okxSnapshotText))) ++
        VenueSystem.handled (.read 1 (some (utf8 okxUpdateText))) ++
        VenueSystem.handled (.read 1 (some (utf8 "garbage"))))
    ∃ r, s.program = .done r ∧ Accounts 0 (s.trace.foldl Tally.track {}) r.stats ∧
      r.stats.resyncs = 2 := by
  intro s
  have hended : s.program.endsIn (fun r => r.stats.resyncs = 2) = true := by decide +kernel
  obtain ⟨r, hdone, hresyncs⟩ := Program.exists_of_endsIn hended
  exact ⟨r, hdone, counters_account _ _ _ _ _ _ r hdone, of_decide_eq_true hresyncs⟩

end CexAggregator
