import CexAggregator.RunnerFrame

/-!
# Rules for the runner's handlers

What has to be shown of an invariant `I` for every handler to keep it: one rule for each
thing a handler can do. Between an accepted push and the move to live, `P` holds in place of
`I`. `Free` says for which value of the fatal flag a handler may do more than wind down;
otherwise the event has to be harmless.
-/

namespace CexAggregator
open Program

namespace Runner
variable {σ : Type}

structure Aside (r r' : Runner σ) : Prop where
  protocol : r'.protocol = r.protocol
  requests : r'.requests = r.requests
  backoff : r'.backoff = r.backoff
  resyncBudget : r'.resyncBudget = r.resyncBudget
  fatal : r'.stats.fatal = r.stats.fatal

structure Rules {τ : Type} (p : VenueProtocol σ) (venueIndex : ℕ) (reading : Reading)
    (c : Contract Note Query τ) (Free : Bool → Prop)
    (I P : τ → Runner σ → Prop) : Prop where
  unsynced : ∀ s, p.synced (p.reset s) = false
  free : Free false
  aside : ∀ {t r r'}, I t r → Aside r r' → I t r'
  handling : ∀ {t r} source, I t r → Meets c (fun t' _ => I t' r) (tell (.handling source)) t
  stopping : ∀ {t r}, I t r → Meets c (fun t' _ => I t' r) (query .stopping) t
  disconnected : ∀ {t r}, I t r → Meets c (fun t' _ => I t' r) (setState .kDisconnected) t
  stored : ∀ {t r state}, I t r → Free r.stats.fatal → state ≠ .kLive →
    Meets c (fun t' _ => I t' r) (setState state) t
  scheduled : ∀ {t r}, I t r → Free r.stats.fatal →
    Meets c (fun t' _ => I t' { r with backoff := (r.backoff.next reading.draw).2 })
      (tell (.scheduled (r.backoff.next reading.draw).1)) t
  charged : ∀ {t r}, I t r →
    I t { r with resyncBudget := (r.resyncBudget.tryConsume reading.now).2 }
  requested : ∀ {t r} q, I t r → p.needsRestSnapshot = true →
    (r.resyncBudget.tryConsume reading.now).1 = true →
    I t { r with
      resyncBudget := (r.resyncBudget.tryConsume reading.now).2
      requests := r.requests ++ [q] }
  restarted : ∀ {t r} state leftover, I t r → Free r.stats.fatal →
    Meets c (fun t' _ => I t' { r with protocol := p.reset r.protocol })
      (tell (.began state leftover) >>= fun _ => tell .reset) t
  called : ∀ {t r} rest verdict s, I t r → Free r.stats.fatal ∨ verdict = .kOk →
    rest = true ∨ verdict ≠ .kFatal →
    Meets c (fun t' _ => I t' { r with protocol := s })
      (tell (.called rest verdict (p.synced s))) t
  fatal : ∀ {t r} frame, I t r → (p.onFrame r.protocol frame reading.now []).verdict = .kFatal →
    let s := (p.onFrame r.protocol frame reading.now []).protocol
    Meets c (fun t' _ => I t' { r with protocol := s, stats := { r.stats with fatal := true } })
      (tell (.called false .kFatal (p.synced s)) >>= fun _ => setState .kDisconnected) t
  pushed : ∀ {t r updates}, I t r → Free r.stats.fatal → updates ≠ [] →
    Meets c (fun t' accepted => if accepted then P t' r else I t' r)
      (query (.push ⟨venueIndex, updates⟩)) t
  unpushed : ∀ {t r s body}, I t r → p.needsRestSnapshot = true →
    (p.onRestSnapshot s body reading.now []).verdict = .kOk →
    (p.onRestSnapshot s body reading.now []).out = [] →
    r.protocol = (p.onRestSnapshot s body reading.now []).protocol → P t r
  live : ∀ {t r}, P t r → Free r.stats.fatal → p.synced r.protocol = true →
    Meets c (fun t' _ => I t' { r with backoff := r.backoff.reset }) (setState .kLive) t
  idle : ∀ {t r}, P t r → p.synced r.protocol = false → I t r

/-- The frame winds the venue down or does nothing. -/
def FrameSettles (p : VenueProtocol σ) (reading : Reading) (s : σ) (frame : Bytes) : Prop :=
  let called := p.onFrame s frame reading.now []
  called.verdict = .kFatal ∨ (called.verdict = .kOk ∧ called.out = [])

def Harmless (p : VenueProtocol σ) (r : Runner σ) (reading : Reading) : Event → Prop
  | .stage id ok => ∀ stage ∈ (r.connections id).opening, ok = true →
      ({ r.connections id with opening := none } : WsConnection).nextStage stage ≠ none
  | .read _ (some frame) => FrameSettles p reading r.protocol frame
  | _ => True

def answered (r : Runner σ) : Event → Runner σ
  | .response index _ => { r with requests := r.requests.eraseIdx index }
  | _ => r

theorem answered_eq (r : Runner σ) (event : Event) :
    ∃ requests, r.answered event = { r with requests := requests } ∧
      (requests ≠ [] → r.requests ≠ []) := by
  cases event with
  | response index answer =>
    exact ⟨r.requests.eraseIdx index, rfl, fun hsome hnone => hsome (by rw [hnone]; rfl)⟩
  | _ => exact ⟨r.requests, rfl, fun hsome => hsome⟩

end Runner

namespace Program
variable {ε β τ α : Type*} {c : Contract ε β τ}

theorem Meets.and_within {Q : τ → α → Prop} {R : α → Prop}
    {allowed : Act ε β → Prop} {program : Program ε β α} {t : τ}
    (h : Meets c Q program t) (hwithin : Within allowed R program) :
    Meets c (fun t a => Q t a ∧ R a) program t := by
  induction program generalizing t with
  | done a => exact ⟨h, hwithin⟩
  | emit e next ih => exact fun hrely => ⟨(h hrely).1, ih (h hrely).2 (hwithin trivial).2⟩
  | ask b next ih =>
    intro answer hrely
    exact ⟨(h answer hrely).1, ih answer (h answer hrely).2 (hwithin answer trivial).2⟩

end Program

namespace Runner.Rules
variable {σ τ : Type} {p : VenueProtocol σ} {options : Options} {venueIndex : ℕ}
  {reading : Reading} {c : Contract Note Query τ} {Free : Bool → Prop}
  {I P : τ → Runner σ → Prop} {t : τ} {r : Runner σ}

theorem setConnection (h : Rules p venueIndex reading c Free I P) (hI : I t r) (id : ℕ)
    (connection : WsConnection) : I t (r.setConnection id connection) :=
  h.aside hI ⟨rfl, rfl, rfl, rfl, rfl⟩

theorem free_of_running (h : Rules p venueIndex reading c Free I P) {stopping : Bool}
    (hrunning : ¬ (stopping = true ∨ r.stats.fatal = true)) : Free r.stats.fatal := by
  rw [not_or, Bool.not_eq_true r.stats.fatal] at hrunning
  exact hrunning.2 ▸ h.free

theorem scheduleReconnect (h : Rules p venueIndex reading c Free I P) (hI : I t r) :
    Meets c I (Runner.scheduleReconnect reading r) t := by
  rw [Runner.scheduleReconnect]
  apply Meets.bind (h.stopping hI)
  intro t stopping hI
  split_ifs with hquit
  · exact hI
  · have hfree := h.free_of_running hquit
    apply Meets.bind (h.scheduled hI hfree)
    intro t _ hI
    exact h.aside hI ⟨rfl, rfl, rfl, rfl, rfl⟩

theorem onClose (h : Rules p venueIndex reading c Free I P) (hI : I t r) :
    Meets c I (Runner.onClose reading r) t := by
  rw [Runner.onClose]
  apply Meets.bind (h.disconnected hI)
  intro t _ hI
  apply Meets.bind (h.stopping hI)
  intro t stopping hI
  split_ifs
  · exact hI
  · exact h.scheduleReconnect hI

theorem settle (h : Rules p venueIndex reading c Free I P) (hI : I t r) (id : ℕ)
    (outcome : WsConnection × Bool) : Meets c I (Runner.settle reading r id outcome) t := by
  rw [Runner.settle]
  split_ifs
  · exact h.onClose (h.setConnection hI id outcome.1)
  · exact h.setConnection hI id outcome.1

theorem closeConnection (h : Rules p venueIndex reading c Free I P) (hI : I t r) :
    Meets c I (Runner.closeConnection reading r) t := by
  rw [Runner.closeConnection]
  split_ifs
  · exact hI
  · exact h.settle hI _ _

theorem snapshotFailed (h : Rules p venueIndex reading c Free I P) (hI : I t r) :
    Meets c I (Runner.snapshotFailed reading r) t := by
  rw [Runner.snapshotFailed]
  apply Meets.bind (h.stopping hI)
  intro t stopping hI
  split_ifs
  · exact hI
  · exact h.onClose hI

theorem fetchSnapshot (h : Rules p venueIndex reading c Free I P) (hI : I t r)
    (hrest : p.needsRestSnapshot = true) : Meets c I (Runner.fetchSnapshot p reading r) t := by
  rw [Runner.fetchSnapshot]
  apply Meets.bind (h.stopping hI)
  intro t stopping hI
  split_ifs with hstopping hrefused
  · exact hI
  · exact h.scheduleReconnect (h.charged hI)
  · split
    · exact h.snapshotFailed (h.charged hI)
    · exact h.requested _ hI hrest (Bool.not_eq_false _ ▸ hrefused)

theorem armWatchdog (h : Rules p venueIndex reading c Free I P) (hI : I t r) :
    Meets c I (Runner.armWatchdog r) t := by
  rw [Runner.armWatchdog]
  apply Meets.bind (h.stopping hI)
  intro t stopping hI
  split_ifs
  · exact hI
  · exact h.aside hI ⟨rfl, rfl, rfl, rfl, rfl⟩

theorem resync (h : Rules p venueIndex reading c Free I P) (hI : I t r)
    (hfree : Free r.stats.fatal) :
    Meets c (fun t' r' => I t' r' ∧ p.synced r'.protocol = false)
      (Runner.resync p reading r) t := by
  have hrestart := h.restarted .kSyncing (r.requests ≠ []) hI hfree
  rw [meets_bind] at hrestart
  rw [Runner.resync]
  apply Meets.bind hrestart
  intro t _ hreset
  apply Meets.bind hreset
  intro t _ hI
  have hfresh : I t { resetProtocol p r with
      stats := { r.stats with resyncs := r.stats.resyncs + 1 } } :=
    h.aside hI ⟨rfl, rfl, rfl, rfl, rfl⟩
  split_ifs with hrest
  · apply ((h.fetchSnapshot hfresh hrest).and_within (fetchSnapshot_within _)).mono
    rintro t r' ⟨hI, _, -, hkept⟩
    exact ⟨hI, hkept.protocol ▸ h.unsynced r.protocol⟩
  · apply ((h.closeConnection hfresh).and_within (closeConnection_within _)).mono
    rintro t r' ⟨hI, _, -, hkept⟩
    exact ⟨hI, hkept.protocol ▸ h.unsynced r.protocol⟩

/-- Either the ring took the batch, or the adapter has started over. -/
def Offered (p : VenueProtocol σ) (I P : τ → Runner σ → Prop) (r : Runner σ) (t : τ)
    (r' : Runner σ) : Prop :=
  (r' = r ∧ P t r) ∨ (I t r' ∧ p.synced r'.protocol = false)

theorem publish (h : Rules p venueIndex reading c Free I P) (hI : I t r)
    (hfree : Free r.stats.fatal) {updates : List FeedUpdate} (hempty : updates = [] → P t r) :
    Meets c (Offered p I P r) (Runner.publish p venueIndex reading r updates) t := by
  rw [Runner.publish]
  split_ifs with hnone
  · exact Or.inl ⟨rfl, hempty hnone⟩
  · apply Meets.bind (h.pushed hI hfree hnone)
    intro t accepted hpushed
    split_ifs at hpushed ⊢
    · exact Or.inl ⟨rfl, hpushed⟩
    · have hlost : I t
          { r with stats := { r.stats with ringOverflows := r.stats.ringOverflows + 1 } } :=
        h.aside hpushed ⟨rfl, rfl, rfl, rfl, rfl⟩
      exact (h.resync hlost hfree).mono fun t r' hr' => Or.inr hr'

theorem goLive (h : Rules p venueIndex reading c Free I P) {r' : Runner σ}
    (hr' : Offered p I P r t r') (hfree : Free r.stats.fatal) :
    Meets c I (Runner.goLive p r') t := by
  rw [Runner.goLive]
  rcases hr' with ⟨rfl, hP⟩ | ⟨hI, hunsynced⟩
  · split_ifs with hsynced
    · apply Meets.bind (h.live hP hfree hsynced)
      intro t _ hI
      exact h.aside hI ⟨rfl, rfl, rfl, rfl, rfl⟩
    · exact h.idle hP (Bool.not_eq_true _ ▸ hsynced)
  · rw [if_neg (by rw [hunsynced]; exact Bool.false_ne_true)]
    exact hI

theorem onSnapshot (h : Rules p venueIndex reading c Free I P) (hI : I t r)
    (hrest : p.needsRestSnapshot = true) (hfree : Free r.stats.fatal) (answer : Option Bytes) :
    Meets c I (Runner.onSnapshot p venueIndex reading r answer) t := by
  cases answer with
  | none => exact h.snapshotFailed hI
  | some body =>
    rw [Runner.onSnapshot]
    apply Meets.bind (h.stopping hI)
    intro t stopping hI
    split_ifs
    · exact hI
    · apply Meets.bind (h.called true _ _ hI (Or.inl hfree) (Or.inl rfl))
      intro t _ hI
      split_ifs with hverdict
      · exact (h.resync hI hfree).mono fun t r' hr' => hr'.1
      · apply Meets.bind (h.publish hI hfree fun hempty =>
          h.unpushed hI hrest (not_not.mp hverdict) hempty rfl)
        intro t r' hr'
        exact h.goLive hr' hfree

theorem onFrame_fatal (h : Rules p venueIndex reading c Free I P) (hI : I t r) {frame : Bytes}
    (hverdict : (p.onFrame r.protocol frame reading.now []).verdict = .kFatal) :
    Meets c I (Runner.onFrame p venueIndex reading r frame) t := by
  have hfatal := h.fatal frame hI hverdict
  rw [meets_bind] at hfatal
  rw [Runner.onFrame]
  simp only [hverdict]
  apply Meets.bind hfatal
  intro t _ hstored
  apply Meets.bind hstored
  intro t _ hI
  exact h.closeConnection (h.aside hI ⟨rfl, rfl, rfl, rfl, rfl⟩)

theorem onFrame (h : Rules p venueIndex reading c Free I P) (hI : I t r) (frame : Bytes)
    (hallowed : Free r.stats.fatal ∨ FrameSettles p reading r.protocol frame) :
    Meets c I (Runner.onFrame p venueIndex reading r frame) t := by
  by_cases hfatal : (p.onFrame r.protocol frame reading.now []).verdict = .kFatal
  · exact h.onFrame_fatal hI hfatal
  rw [Runner.onFrame]
  rcases hallowed with hfree | hsettles
  · apply Meets.bind (h.called false _ _ hI (Or.inl hfree) (Or.inr hfatal))
    intro t _ hI
    cases hverdict : (p.onFrame r.protocol frame reading.now []).verdict with
    | kFatal => exact (hfatal hverdict).elim
    | kNeedsResync =>
      refine Meets.mono (h.resync (h.aside hI ?_) hfree) fun t r' hr' => hr'.1
      exact ⟨rfl, rfl, rfl, rfl, rfl⟩
    | kParseError =>
      refine Meets.mono (h.resync (h.aside hI ?_) hfree) fun t r' hr' => hr'.1
      exact ⟨rfl, rfl, rfl, rfl, rfl⟩
    | kOk =>
      simp only
      split_ifs with hempty
      · exact h.aside hI ⟨rfl, rfl, rfl, rfl, rfl⟩
      · have hstats : ∀ stats : VenueStats,
            (exchangeTs stats (p.onFrame r.protocol frame reading.now []).out).fatal =
              stats.fatal := by
          intro stats
          unfold exchangeTs
          split
          · split_ifs <;> rfl
          · rfl
        refine Meets.bind (h.publish (h.aside hI ?_) ?_ fun hnone => (hempty hnone).elim) ?_
        · exact ⟨rfl, rfl, rfl, rfl, hstats _⟩
        · exact (hstats _).symm ▸ hfree
        · intro t r' hr'
          exact h.goLive hr' ((hstats _).symm ▸ hfree)
  · obtain hyes | ⟨hok, hnone⟩ := hsettles
    · exact (hfatal hyes).elim
    · apply Meets.bind (h.called false _ _ hI (Or.inr hok) (Or.inr hfatal))
      intro t _ hI
      simp only [hok, hnone, ↓reduceIte]
      exact h.aside hI ⟨rfl, rfl, rfl, rfl, rfl⟩

theorem onOpen (h : Rules p venueIndex reading c Free I P) (hI : I t r)
    (hfree : Free r.stats.fatal) : Meets c I (Runner.onOpen p reading r) t := by
  rw [Runner.onOpen]
  apply Meets.bind (h.stored hI hfree (by decide))
  intro t _ hI
  have hsubscribed := h.setConnection hI r.generation (subscribe p (r.connections r.generation))
  split_ifs with hrest
  · exact h.fetchSnapshot hsubscribed hrest
  · exact hsubscribed

theorem connect (h : Rules p venueIndex reading c Free I P) (hI : I t r) :
    Meets c I (Runner.connect p reading r) t := by
  rw [Runner.connect]
  apply Meets.bind (h.stopping hI)
  intro t stopping hI
  split_ifs with hquit
  · exact hI
  · have hfree := h.free_of_running hquit
    have hrestart := h.restarted .kConnecting r.leftover hI hfree
    rw [meets_bind] at hrestart
    apply Meets.bind hrestart
    intro t _ hreset
    apply Meets.bind hreset
    intro t _ hI
    have hfresh : I t
        { resetProtocol p r with loggedLive := false, generation := r.generation + 1 } :=
      h.aside hI ⟨rfl, rfl, rfl, rfl, rfl⟩
    apply Meets.bind (h.settle hfresh _ _)
    intro t opened hI
    exact h.armWatchdog (h.aside hI ⟨rfl, rfl, rfl, rfl, rfl⟩)

theorem onWatchdog (h : Rules p venueIndex reading c Free I P) (hI : I t r) :
    Meets c I (Runner.onWatchdog options reading r) t := by
  rw [Runner.onWatchdog]
  apply Meets.bind (h.stopping hI)
  intro t stopping hI
  split_ifs with hquit
  · exact hI
  · have hfree := h.free_of_running hquit
    apply Meets.bind (h.stored hI hfree (by decide))
    intro t _ hI
    exact h.closeConnection hI
  · exact h.armWatchdog hI

theorem onReconnect (h : Rules p venueIndex reading c Free I P) (hI : I t r) :
    Meets c I (Runner.onReconnect p reading r) t := by
  rw [Runner.onReconnect]
  apply Meets.bind (h.stopping hI)
  intro t stopping hI
  split_ifs
  · exact hI
  · exact h.connect hI

theorem onStop (h : Rules p venueIndex reading c Free I P) (hI : I t r) :
    Meets c I (Runner.onStop reading r) t := by
  rw [Runner.onStop]
  refine Meets.bind (h.closeConnection (h.aside hI ?_)) ?_
  · exact ⟨rfl, rfl, rfl, rfl, rfl⟩
  · intro t closed hI
    exact h.aside hI ⟨rfl, rfl, rfl, rfl, rfl⟩

theorem onBehalf (h : Rules p venueIndex reading c Free I P) (hI : I t r) {source : Source}
    {handler : VenueProgram (Runner σ)} (hhandler : ∀ t, I t r → Meets c I handler t) :
    Meets c I (Runner.onBehalf source handler) t := by
  rw [Runner.onBehalf]
  exact Meets.bind (h.handling source hI) fun t _ hI => hhandler t hI

theorem onStage (h : Rules p venueIndex reading c Free I P) (hI : I t r) {id : ℕ}
    {stage : Stage} {ok : Bool}
    (hallowed : ok = true →
      ({ r.connections id with opening := none } : WsConnection).nextStage stage = none →
      Free r.stats.fatal) :
    Meets c I (Runner.onStage p reading r id stage ok) t := by
  simp only [Runner.onStage]
  split_ifs with hok
  · exact h.settle hI id _
  · split
    · exact h.setConnection hI id _
    · rename_i hnext
      have hfree := hallowed (Bool.not_eq_false _ ▸ hok) hnext
      refine Meets.bind (h.onOpen (h.setConnection hI id _) hfree) fun t opened hI => ?_
      exact h.setConnection hI id _

theorem onRead (h : Rules p venueIndex reading c Free I P) (hI : I t r) (id : ℕ)
    {message : Option Bytes}
    (hallowed : Free r.stats.fatal ∨
      ∀ frame ∈ message, FrameSettles p reading r.protocol frame) :
    Meets c I (Runner.onRead p venueIndex reading r id message) t := by
  cases message with
  | none => exact h.settle hI id _
  | some frame =>
    refine Meets.bind (h.onFrame (h.setConnection hI id _) frame ?_) fun t received hI => ?_
    · exact hallowed.imp_right fun hsettles => hsettles frame rfl
    · exact h.setConnection hI id _

theorem handle (h : Rules p venueIndex reading c Free I P) {event : Event}
    {program : VenueProgram (Runner σ)}
    (hI : I t (r.answered event)) (hneeded : r.requests ≠ [] → p.needsRestSnapshot = true)
    (hallowed : Free r.stats.fatal ∨ (r.requests = [] ∧ Harmless p r reading event))
    (hhandle : r.handle p options venueIndex (reading, event) = some program) :
    Meets c I program t := by
  cases Runner.handled_of_handle hhandle with
  | start hposted =>
    exact h.onBehalf hI fun t hI => h.connect (h.aside hI ⟨rfl, rfl, rfl, rfl, rfl⟩)
  | stop => exact h.onBehalf hI fun t hI => h.onStop hI
  | reconnectExpires hexpired => exact h.aside hI ⟨rfl, rfl, rfl, rfl, rfl⟩
  | watchdogExpires hexpired => exact h.aside hI ⟨rfl, rfl, rfl, rfl, rfl⟩
  | keepaliveExpires hexpired => exact h.setConnection hI _ _
  | reconnect htaken =>
    exact h.onBehalf hI fun t hI => h.onReconnect (h.aside hI ⟨rfl, rfl, rfl, rfl, rfl⟩)
  | watchdog htaken =>
    exact h.onBehalf hI fun t hI => h.onWatchdog (h.aside hI ⟨rfl, rfl, rfl, rfl, rfl⟩)
  | keepalive htaken => exact h.onBehalf hI fun t hI => h.setConnection hI _ _
  | @stage id stage ok hopening =>
    refine h.onBehalf hI fun t hI => h.onStage hI fun hok hnext => ?_
    exact hallowed.elim (fun hfree => hfree) fun hwound => (hwound.2 stage hopening hok hnext).elim
  | read message hposted =>
    refine h.onBehalf hI fun t hI => h.onRead hI _ (hallowed.imp_right fun hwound => ?_)
    rintro frame ⟨⟩
    exact hwound.2
  | write ok hposted => exact h.onBehalf hI fun t hI => h.settle hI _ _
  | closed hposted => exact h.onBehalf hI fun t hI => h.settle hI _ _
  | response answer hpending =>
    have hrest : p.needsRestSnapshot = true :=
      hneeded (List.ne_nil_of_mem (List.mem_of_getElem? hpending))
    have hfree : Free r.stats.fatal := by
      rcases hallowed with hfree | ⟨hnone, -⟩
      · exact hfree
      · simp [hnone] at hpending
    exact h.onBehalf hI fun t hI => h.onSnapshot hI hrest hfree answer

end Runner.Rules

end CexAggregator
