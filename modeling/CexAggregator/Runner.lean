import CexAggregator.Program
import CexAggregator.Retry
import CexAggregator.Venue
import CexAggregator.WsConnection

/-!
# The runner of one venue

Everything runs in handlers on the venue's own thread. A handler is a program over the
runner's own state; its acts are the stores to the shared status, the pushes to the ring and
the readings of `stopping_`, next to marks that only the specification reads. Log lines are
left out.
-/

namespace CexAggregator

inductive VenueState where
  | kDisconnected
  | kConnecting
  | kSyncing
  | kLive
  | kStale
deriving DecidableEq, Repr

structure FeedBatch where
  venueIndex : ℕ := 0
  updates : List FeedUpdate
deriving DecidableEq, Repr

/-- Nanoseconds, except for the two reconnect windows, which are milliseconds. -/
structure Options where
  reconnectInitial : ℕ := 500
  reconnectMax : ℕ := 30000
  maxResyncsPerMinute : Int := 6
  silenceTimeout : Int := 30000000000

structure VenueStats where
  messages : ℕ := 0
  resyncs : ℕ := 0
  sequenceGaps : ℕ := 0
  ringOverflows : ℕ := 0
  parseErrors : ℕ := 0
  lastRecvTsNs : Int := 0
  lastExchangeTsNs : Int := 0
  fatal : Bool := false

structure Request where
  generation : ℕ
  resets : ℕ
deriving DecidableEq, Repr

inductive Source where
  | timer
  | connection (id : ℕ)
  | request (q : Request)
deriving DecidableEq, Repr

/-- `began` is the store that starts a session or a resync; `leftover` says whether an
operation of the one before is still outstanding. The marks are `handling`, `reset`,
`called` and `scheduled`. -/
inductive Note where
  | stored (state : VenueState)
  | began (state : VenueState) (leftover : Bool)
  | handling (source : Source)
  | reset
  | called (rest : Bool) (verdict : FrameVerdict) (synced : Bool)
  | scheduled (delay : ℕ)
deriving DecidableEq, Repr

inductive Query where
  | push (batch : FeedBatch)
  | stopping
deriving DecidableEq, Repr

abbrev VenueProgram : Type → Type := Program Note Query

/-- `connection_` is the connection numbered `generation`, and is null while that is 0.
Replaced ones live on as long as an operation of theirs is outstanding. -/
structure Runner (σ : Type) where
  protocol : σ
  posted : Bool := true
  halted : Bool := false
  generation : ℕ := 0
  connections : ℕ → WsConnection := fun _ => {}
  requests : List Request := []
  resets : ℕ := 0
  reconnectTimer : Timer := {}
  watchdogTimer : Timer := {}
  backoff : ExponentialBackoff
  resyncBudget : RateBudget
  lastActivity : Int := 0
  loggedLive : Bool := false
  stats : VenueStats := {}

structure Reading where
  now : Int := 0
  draw : ℕ := 0

namespace Runner
open Program
variable {σ : Type}

def create (initial : σ) (options : Options) : Runner σ where
  protocol := initial
  backoff := .create options.reconnectInitial options.reconnectMax
  resyncBudget := { maxEvents := options.maxResyncsPerMinute, window := 60000000000 }

def setConnection (r : Runner σ) (id : ℕ) (c : WsConnection) : Runner σ :=
  { r with connections := Function.update r.connections id c }

def setState (state : VenueState) : VenueProgram Unit := tell (.stored state)

def markHealthy (r : Runner σ) : Runner σ :=
  { r with loggedLive := true, backoff := r.backoff.reset }

section Handlers
variable (p : VenueProtocol σ) (options : Options) (venueIndex : ℕ) (reading : Reading)

def scheduleReconnect (r : Runner σ) : VenueProgram (Runner σ) := do
  let stopping ← query .stopping
  if stopping ∨ r.stats.fatal then pure r
  else do
    tell (.scheduled (r.backoff.next reading.draw).1)
    pure
      { r with
        backoff := (r.backoff.next reading.draw).2
        reconnectTimer := r.reconnectTimer.arm }

def onClose (r : Runner σ) : VenueProgram (Runner σ) := do
  setState .kDisconnected
  let stopping ← query .stopping
  if stopping ∨ r.stats.fatal then pure r else scheduleReconnect reading r

def settle (r : Runner σ) (id : ℕ) (outcome : WsConnection × Bool) : VenueProgram (Runner σ) :=
  if outcome.2 ∧ id = r.generation then onClose reading (r.setConnection id outcome.1)
  else pure (r.setConnection id outcome.1)

def closeConnection (r : Runner σ) : VenueProgram (Runner σ) :=
  if r.generation = 0 then pure r
  else settle reading r r.generation (r.connections r.generation).close

def snapshotFailed (r : Runner σ) : VenueProgram (Runner σ) := do
  let stopping ← query .stopping
  if stopping then pure r else onClose reading r

def httpAccepts (url : Url) : Bool := url.scheme = "http" ∨ url.scheme = "https"

def fetchSnapshot (r : Runner σ) : VenueProgram (Runner σ) := do
  let stopping ← query .stopping
  if stopping then pure r
  else
    let charged := { r with resyncBudget := (r.resyncBudget.tryConsume reading.now).2 }
    if (r.resyncBudget.tryConsume reading.now).1 = false then scheduleReconnect reading charged
    else
      match (parseUrl (utf8 p.restSnapshotUrl)).filter httpAccepts with
      | none => snapshotFailed reading charged
      | some _ => pure { charged with requests := r.requests ++ [⟨r.generation, r.resets⟩] }

def resetProtocol (r : Runner σ) : Runner σ :=
  { r with protocol := p.reset r.protocol, resets := r.resets + 1 }

def resync (r : Runner σ) : VenueProgram (Runner σ) := do
  tell (.began .kSyncing (r.requests ≠ []))
  tell .reset
  let fresh := { resetProtocol p r with stats := { r.stats with resyncs := r.stats.resyncs + 1 } }
  if p.needsRestSnapshot then fetchSnapshot p reading fresh else closeConnection reading fresh

def publish (r : Runner σ) (updates : List FeedUpdate) : VenueProgram (Runner σ) :=
  if updates = [] then pure r
  else do
    let accepted ← query (.push ⟨venueIndex, updates⟩)
    if accepted then pure r
    else
      resync p reading
        { r with stats := { r.stats with ringOverflows := r.stats.ringOverflows + 1 } }

def goLive (r : Runner σ) : VenueProgram (Runner σ) :=
  if p.synced r.protocol then do
    setState .kLive
    pure r.markHealthy
  else pure r

def onSnapshot (r : Runner σ) (answer : Option Bytes) : VenueProgram (Runner σ) :=
  match answer with
  | none => snapshotFailed reading r
  | some body => do
    let stopping ← query .stopping
    if stopping then pure r
    else do
      let called := p.onRestSnapshot r.protocol body reading.now []
      tell (.called true called.verdict (p.synced called.protocol))
      let next := { r with protocol := called.protocol }
      if called.verdict ≠ .kOk then resync p reading next
      else do
        let published ← publish p venueIndex reading next called.out
        goLive p published

def exchangeTs (stats : VenueStats) (updates : List FeedUpdate) : VenueStats :=
  match updates.getLast? with
  | some update =>
    if update.exchangeTsNs ≠ 0 then { stats with lastExchangeTsNs := update.exchangeTsNs }
    else stats
  | none => stats

def onFrame (r : Runner σ) (frame : Bytes) : VenueProgram (Runner σ) := do
  let called := p.onFrame r.protocol frame reading.now []
  tell (.called false called.verdict (p.synced called.protocol))
  let stats := { r.stats with messages := r.stats.messages + 1, lastRecvTsNs := reading.now }
  let next := { r with protocol := called.protocol, lastActivity := reading.now, stats := stats }
  match called.verdict with
  | .kNeedsResync =>
    resync p reading { next with stats := { stats with sequenceGaps := stats.sequenceGaps + 1 } }
  | .kParseError =>
    resync p reading { next with stats := { stats with parseErrors := stats.parseErrors + 1 } }
  | .kFatal => do
    setState .kDisconnected
    closeConnection reading { next with stats := { stats with fatal := true } }
  | .kOk =>
    if called.out = [] then pure next
    else do
      let published ← publish p venueIndex reading
        { next with stats := exchangeTs stats called.out } called.out
      goLive p published

def subscribe (c : WsConnection) : WsConnection :=
  (p.subscribeFrames.foldl WsConnection.send c).startKeepalive p.keepaliveFrame
    p.keepaliveIntervalSeconds

/-- Whichever connection opened, the subscription goes out on the current one. -/
def onOpen (r : Runner σ) : VenueProgram (Runner σ) := do
  setState .kSyncing
  let subscribed := r.setConnection r.generation (subscribe p (r.connections r.generation))
  if p.needsRestSnapshot then fetchSnapshot p reading subscribed else pure subscribed

def armWatchdog (r : Runner σ) : VenueProgram (Runner σ) := do
  let stopping ← query .stopping
  if stopping then pure r else pure { r with watchdogTimer := r.watchdogTimer.arm }

/-- An operation of the session that is about to be replaced is still outstanding. -/
def leftover (r : Runner σ) : Bool := r.requests ≠ [] ∨ ¬ (r.connections r.generation).Quiet

def connect (r : Runner σ) : VenueProgram (Runner σ) := do
  let stopping ← query .stopping
  if stopping ∨ r.stats.fatal then pure r
  else do
    tell (.began .kConnecting r.leftover)
    tell .reset
    let fresh :=
      { resetProtocol p r with loggedLive := false, generation := r.generation + 1 }
    let opened ← settle reading fresh fresh.generation
      (WsConnection.openUrl {} (utf8 p.streamUrl))
    armWatchdog { opened with lastActivity := reading.now }

def onWatchdog (r : Runner σ) : VenueProgram (Runner σ) := do
  let stopping ← query .stopping
  if stopping ∨ r.stats.fatal then pure r
  else if options.silenceTimeout ≤ reading.now - r.lastActivity then do
    setState .kStale
    closeConnection reading r
  else armWatchdog r

def onReconnect (r : Runner σ) : VenueProgram (Runner σ) := do
  let stopping ← query .stopping
  if stopping then pure r else connect p reading r

def onStop (r : Runner σ) : VenueProgram (Runner σ) := do
  let closed ← closeConnection reading
    { r with
      reconnectTimer := r.reconnectTimer.cancel
      watchdogTimer := r.watchdogTimer.cancel }
  pure { closed with halted := true }

def onStage (r : Runner σ) (id : ℕ) (stage : Stage) (ok : Bool) : VenueProgram (Runner σ) :=
  let c := { r.connections id with opening := none }
  if ok = false then settle reading r id c.finish
  else
    match c.nextStage stage with
    | some next => pure (r.setConnection id { c with opening := some next })
    | none => do
      let opened ← onOpen p reading (r.setConnection id c.opened)
      pure (opened.setConnection id (opened.connections id).afterOpen)

def onRead (r : Runner σ) (id : ℕ) (message : Option Bytes) : VenueProgram (Runner σ) :=
  let c := { r.connections id with reads := (r.connections id).reads - 1 }
  match message with
  | none => settle reading r id c.finish
  | some frame => do
    let received ← onFrame p venueIndex reading (r.setConnection id c) frame
    pure (received.setConnection id (received.connections id).doRead)

end Handlers

end Runner

/-- What the venue's thread is woken up by. The `Expires` events queue a timer's handler,
they do not run it. -/
inductive Event where
  | start
  | stop
  | reconnectExpires
  | watchdogExpires
  | keepaliveExpires (id : ℕ)
  | reconnect
  | watchdog
  | keepalive (id : ℕ)
  | stage (id : ℕ) (ok : Bool)
  | read (id : ℕ) (message : Option Bytes)
  | write (id : ℕ) (ok : Bool)
  | closed (id : ℕ)
  | response (index : ℕ) (answer : Option Bytes)
deriving DecidableEq, Repr

namespace Runner
open Program
variable {σ : Type} (p : VenueProtocol σ) (options : Options) (venueIndex : ℕ)

def onBehalf (source : Source) (handler : VenueProgram (Runner σ)) : VenueProgram (Runner σ) := do
  tell (.handling source)
  handler

def dispatch (r : Runner σ) (reading : Reading) : Event → Option (VenueProgram (Runner σ))
  | .start =>
    if r.posted then some (onBehalf .timer (connect p reading { r with posted := false })) else none
  | .stop => some (onBehalf .timer (onStop reading r))
  | .reconnectExpires =>
    r.reconnectTimer.expire.map fun timer => pure { r with reconnectTimer := timer }
  | .watchdogExpires =>
    r.watchdogTimer.expire.map fun timer => pure { r with watchdogTimer := timer }
  | .keepaliveExpires id =>
    (r.connections id).keepaliveTimer.expire.map fun timer =>
      pure (r.setConnection id { r.connections id with keepaliveTimer := timer })
  | .reconnect =>
    r.reconnectTimer.take.map fun timer =>
      onBehalf .timer (onReconnect p reading { r with reconnectTimer := timer })
  | .watchdog =>
    r.watchdogTimer.take.map fun timer =>
      onBehalf .timer (onWatchdog options reading { r with watchdogTimer := timer })
  | .keepalive id =>
    (r.connections id).keepaliveTimer.take.map fun timer =>
      onBehalf (.connection id)
        (pure (r.setConnection id
          (WsConnection.onKeepalive { r.connections id with keepaliveTimer := timer })))
  | .stage id ok =>
    (r.connections id).opening.map fun stage =>
      onBehalf (.connection id) (onStage p reading r id stage ok)
  | .read id message =>
    if 0 < (r.connections id).reads then
      some (onBehalf (.connection id) (onRead p venueIndex reading r id message))
    else none
  | .write id ok =>
    if 0 < (r.connections id).writes then
      some (onBehalf (.connection id) (settle reading r id
        (WsConnection.onWrite
          { r.connections id with writes := (r.connections id).writes - 1 } ok)))
    else none
  | .closed id =>
    if 0 < (r.connections id).closes then
      some (onBehalf (.connection id) (settle reading r id
        (WsConnection.finish
          { r.connections id with closes := (r.connections id).closes - 1 })))
    else none
  | .response index answer =>
    (r.requests[index]?).map fun q =>
      onBehalf (.request q)
        (onSnapshot p venueIndex reading { r with requests := r.requests.eraseIdx index } answer)

def handle (r : Runner σ) (event : Reading × Event) : Option (VenueProgram (Runner σ)) :=
  if r.halted then none else dispatch p options venueIndex r event.1 event.2

inductive Handled (r : Runner σ) (reading : Reading) : Event → VenueProgram (Runner σ) → Prop
  | start (hposted : r.posted = true) :
      Handled r reading .start (onBehalf .timer (connect p reading { r with posted := false }))
  | stop : Handled r reading .stop (onBehalf .timer (onStop reading r))
  | reconnectExpires {timer : Timer} (hexpired : r.reconnectTimer.expire = some timer) :
      Handled r reading .reconnectExpires (pure { r with reconnectTimer := timer })
  | watchdogExpires {timer : Timer} (hexpired : r.watchdogTimer.expire = some timer) :
      Handled r reading .watchdogExpires (pure { r with watchdogTimer := timer })
  | keepaliveExpires {id : ℕ} {timer : Timer}
      (hexpired : (r.connections id).keepaliveTimer.expire = some timer) :
      Handled r reading (.keepaliveExpires id)
        (pure (r.setConnection id { r.connections id with keepaliveTimer := timer }))
  | reconnect {timer : Timer} (htaken : r.reconnectTimer.take = some timer) :
      Handled r reading .reconnect
        (onBehalf .timer (onReconnect p reading { r with reconnectTimer := timer }))
  | watchdog {timer : Timer} (htaken : r.watchdogTimer.take = some timer) :
      Handled r reading .watchdog
        (onBehalf .timer (onWatchdog options reading { r with watchdogTimer := timer }))
  | keepalive {id : ℕ} {timer : Timer}
      (htaken : (r.connections id).keepaliveTimer.take = some timer) :
      Handled r reading (.keepalive id) (onBehalf (.connection id) (pure (r.setConnection id
        (WsConnection.onKeepalive { r.connections id with keepaliveTimer := timer }))))
  | stage {id : ℕ} {stage : Stage} (ok : Bool)
      (hopening : (r.connections id).opening = some stage) :
      Handled r reading (.stage id ok)
        (onBehalf (.connection id) (onStage p reading r id stage ok))
  | read {id : ℕ} (message : Option Bytes) (hposted : 0 < (r.connections id).reads) :
      Handled r reading (.read id message)
        (onBehalf (.connection id) (onRead p venueIndex reading r id message))
  | write {id : ℕ} (ok : Bool) (hposted : 0 < (r.connections id).writes) :
      Handled r reading (.write id ok) (onBehalf (.connection id) (settle reading r id
        (WsConnection.onWrite
          { r.connections id with writes := (r.connections id).writes - 1 } ok)))
  | closed {id : ℕ} (hposted : 0 < (r.connections id).closes) :
      Handled r reading (.closed id) (onBehalf (.connection id) (settle reading r id
        (WsConnection.finish
          { r.connections id with closes := (r.connections id).closes - 1 })))
  | response {index : ℕ} {q : Request} (answer : Option Bytes)
      (hpending : r.requests[index]? = some q) :
      Handled r reading (.response index answer) (onBehalf (.request q)
        (onSnapshot p venueIndex reading { r with requests := r.requests.eraseIdx index } answer))

variable {p options venueIndex} in
theorem handled_of_handle {r : Runner σ} {reading : Reading} {event : Event}
    {program : VenueProgram (Runner σ)}
    (hhandle : r.handle p options venueIndex (reading, event) = some program) :
    Handled p options venueIndex r reading event program := by
  rw [handle] at hhandle
  split_ifs at hhandle
  cases event with
  | start =>
    simp only [dispatch] at hhandle
    split_ifs at hhandle with hposted
    cases hhandle
    exact .start hposted
  | stop =>
    cases hhandle
    exact .stop
  | reconnectExpires =>
    obtain ⟨timer, hexpired, rfl⟩ := Option.map_eq_some_iff.mp hhandle
    exact .reconnectExpires hexpired
  | watchdogExpires =>
    obtain ⟨timer, hexpired, rfl⟩ := Option.map_eq_some_iff.mp hhandle
    exact .watchdogExpires hexpired
  | keepaliveExpires id =>
    obtain ⟨timer, hexpired, rfl⟩ := Option.map_eq_some_iff.mp hhandle
    exact .keepaliveExpires hexpired
  | reconnect =>
    obtain ⟨timer, htaken, rfl⟩ := Option.map_eq_some_iff.mp hhandle
    exact .reconnect htaken
  | watchdog =>
    obtain ⟨timer, htaken, rfl⟩ := Option.map_eq_some_iff.mp hhandle
    exact .watchdog htaken
  | keepalive id =>
    obtain ⟨timer, htaken, rfl⟩ := Option.map_eq_some_iff.mp hhandle
    exact .keepalive htaken
  | stage id ok =>
    obtain ⟨stage, hopening, rfl⟩ := Option.map_eq_some_iff.mp hhandle
    exact .stage ok hopening
  | read id message =>
    simp only [dispatch] at hhandle
    split_ifs at hhandle with hposted
    cases hhandle
    exact .read message hposted
  | write id ok =>
    simp only [dispatch] at hhandle
    split_ifs at hhandle with hposted
    cases hhandle
    exact .write ok hposted
  | closed id =>
    simp only [dispatch] at hhandle
    split_ifs at hhandle with hposted
    cases hhandle
    exact .closed hposted
  | response index answer =>
    obtain ⟨q, hpending, rfl⟩ := Option.map_eq_some_iff.mp hhandle
    exact .response answer hpending

end Runner

end CexAggregator
