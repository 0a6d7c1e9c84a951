import CexAggregator.WriteQueue

/-!
# What a connection puts on the wire

The wire watches a connection from one move to the next. What goes out is orderly in every
run, except that a payload whose write has failed may be put on the wire again.
-/

namespace CexAggregator

structure WiredConnection where
  owned : OwnedConnection := {}
  wire : Wire := {}

section Observation

def passedBy (s : OwnedConnection) : ConnectionMove → List String
  | .send payload => [payload]
  | .keepalive => if s.connection.state = .kOpen then [s.connection.keepalivePayload] else []
  | _ => []

/-- The writes and closes in flight, less the one that a move completes. -/
def inFlight (c : WsConnection) : ConnectionMove → ℕ × ℕ
  | .write _ => (c.writes - 1, c.closes)
  | .closed => (c.writes, c.closes - 1)
  | _ => (c.writes, c.closes)

/-- A close that waits for a write is started when that write has succeeded, unless the
connection had finished; a write that fails finishes it. -/
def keepsDeferral (s next : OwnedConnection) : ConnectionMove → Bool
  | .write ok => s.connection.closePending = true →
      s.connection.closes < next.connection.closes ∨ s.connection.finished = true ∨
        (ok = false ∧ next.connection.finished = true)
  | _ => true

def Wire.observe (w : Wire) (s next : OwnedConnection) (move : ConnectionMove) : Wire where
  sent := w.sent ++ passedBy s move
  started := w.started ++ startedBy (w.sent ++ passedBy s move) (inFlight s.connection move).1
    next.connection
  closesStarted := w.closesStarted + (next.connection.closes - (inFlight s.connection move).2)
  deferralsKept := w.deferralsKept && keepsDeferral s next move

def WiredConnection.step (s : WiredConnection) (move : ConnectionMove) : Option WiredConnection :=
  (s.owned.step move).map fun next => ⟨next, s.wire.observe s.owned next move⟩

def WiredConnection.run (moves : List ConnectionMove) : WiredConnection :=
  Machine.run WiredConnection.step {} moves

theorem WiredConnection.run_owned (moves : List ConnectionMove) :
    (WiredConnection.run moves).owned = OwnedConnection.run moves := by
  have hnext : ∀ (s : WiredConnection) move, (Machine.next WiredConnection.step s move).owned =
      Machine.next OwnedConnection.step s.owned move := by
    intro s move
    unfold Machine.next WiredConnection.step
    cases s.owned.step move <;> rfl
  have hrun : ∀ s : WiredConnection, (Machine.run WiredConnection.step s moves).owned =
      Machine.run OwnedConnection.step s.owned moves := by
    induction moves with
    | nil => exact fun s => rfl
    | cons move moves ih =>
      intro s
      rw [Machine.run_cons, Machine.run_cons, ih, hnext]
  exact hrun {}

end Observation

/-- One write or close at a time, one close in all, none deferred in vain, and the payloads
in the order of their numbers. -/
structure Orderly (s : WiredConnection) : Prop where
  single : s.owned.connection.writes + s.owned.connection.closes ≤ 1
  closedOnce : s.wire.closesStarted ≤ 1
  deferralsKept : s.wire.deferralsKept = true
  inOrder : s.wire.started <+: s.wire.sent.zipIdx

def Stuck (s : OwnedConnection) : Prop :=
  s.connection.state = .kOpen ∧ s.connection.finished = true ∧ s.connection.writing = false ∧
    s.connection.writeQueue ≠ [] ∧ s.resumption ≠ some .afterOpen

def Unstuck (s : WiredConnection) : ConnectionMove → Prop
  | .send _ => ¬ Stuck s.owned
  | .keepalive => ¬ Stuck s.owned
  | _ => True

namespace WiredConnection
variable {s : WiredConnection} {next : OwnedConnection} {move : ConnectionMove}

structure Kept (s : WiredConnection) : Prop where
  wired : Wired s.wire s.owned.connection s.owned.begun s.owned.resumption
  emptied : Emptied s.wire s.owned.connection s.owned.resumption

theorem kept_start : Kept {} where
  wired :=
    { writes := rfl
      closes := le_rfl
      closedOnce := Nat.zero_le _
      closed := fun h => (h rfl).elim
      deferralsKept := rfl
      inOrder := List.nil_prefix
      queued := List.nil_suffix
      lower := le_rfl
      upper := Nat.zero_le _
      writing := fun h => (Bool.false_ne_true h).elim
      ahead := fun h => (Nat.lt_irrefl 0 h).elim
      unbegun := fun _ => rfl
      early := fun _ => ⟨rfl, rfl, rfl, by simp⟩ }
  emptied := fun _ _ _ h => (h rfl).elim

theorem Kept.orderly (h : Kept s) : Orderly s where
  single := by
    have hwrites := h.wired.writes
    have hcloses := h.wired.closes
    have honce := h.wired.closedOnce
    by_cases hnone : s.wire.closesStarted = 0
    · split_ifs at hwrites <;> omega
    · rw [(h.wired.closed hnone).2] at hwrites
      simp only [Bool.false_eq_true, ↓reduceIte] at hwrites
      omega
  closedOnce := h.wired.closedOnce
  deferralsKept := h.wired.deferralsKept
  inOrder := h.wired.inOrder

theorem Kept.calm (h : Kept s) (hcalm : Calm s.owned.connection next.connection)
    (hpassed : passedBy s.owned move = [])
    (hmove : inFlight s.owned.connection move =
      (s.owned.connection.writes, s.owned.connection.closes))
    (hdeferral : keepsDeferral s.owned next move = true) (hbegun : next.begun = s.owned.begun)
    (hresumption : next.resumption = some .afterOpen ↔ s.owned.resumption = some .afterOpen) :
    Kept ⟨next, s.wire.observe s.owned next move⟩ := by
  have hwire : s.wire.observe s.owned next move = s.wire := by
    unfold Wire.observe
    rw [hmove, hdeferral, hpassed, startedBy, hcalm.writes, hcalm.closes,
      if_neg (Nat.lt_irrefl _)]
    simp
  rw [hwire]
  exact ⟨hbegun ▸ h.wired.calm hcalm hresumption.mp, h.emptied.calm hcalm hresumption.mpr⟩

theorem Kept.close (h : Kept s) : Kept ⟨s.owned.settle s.owned.connection.close,
    s.wire.observe s.owned (s.owned.settle s.owned.connection.close) .close⟩ := by
  have hwire : s.wire.observe s.owned (s.owned.settle s.owned.connection.close) .close =
      { s.wire with
        closesStarted := s.wire.closesStarted +
          (s.owned.connection.close.1.closes - s.owned.connection.closes) } := by
    simp [Wire.observe, passedBy, inFlight, startedBy, keepsDeferral, OwnedConnection.settle,
      close_writes]
  rw [hwire]
  exact ⟨h.wired.close, emptied_close _ _ _⟩

theorem Kept.not_ahead (h : Kept s) (hnot : ¬ Stuck s.owned)
    (hopen : s.owned.connection.state = .kOpen) (hwriting : s.owned.connection.writing = false) :
    ¬ s.wire.Ahead s.owned.connection := by
  intro hahead
  obtain ⟨hfinished, hresumption⟩ := h.wired.ahead hahead hwriting hopen
  refine hnot ⟨hopen, hfinished, hwriting, ?_, hresumption⟩
  intro hnone
  have hlength := h.wired.inOrder.length_le
  unfold Wire.Ahead at hahead
  rw [hnone, List.length_nil] at hahead
  rw [List.length_zipIdx] at hlength
  omega

theorem Kept.openUrl (h : Kept s) (hbegun : s.owned.begun = false) (url : Bytes) :
    let next := { s.owned.settle (s.owned.connection.openUrl url) with begun := true }
    Kept ⟨next, s.wire.observe s.owned next (.openUrl url)⟩ := by
  intro next
  have hwired := h.wired
  rw [hbegun] at hwired
  have hclosed := (hwired.early (Or.inl rfl)).2.2.2
  have heffect : next.connection.writes = s.owned.connection.writes ∧
      next.connection.closes = s.owned.connection.closes ∧ next.connection.state ≠ .kOpen := by
    change (s.owned.connection.openUrl url).1.writes = _ ∧
      (s.owned.connection.openUrl url).1.closes = _ ∧ (s.owned.connection.openUrl url).1.state ≠ _
    unfold WsConnection.openUrl
    split
    · have hcalm := finish_calm s.owned.connection
      exact ⟨hcalm.writes, hcalm.closes, fun hopen => hclosed (hcalm.state hopen)⟩
    · exact ⟨rfl, rfl, by simp⟩
  have hwire : s.wire.observe s.owned next (.openUrl url) = s.wire := by
    simp [Wire.observe, passedBy, inFlight, startedBy, keepsDeferral, heffect.1, heffect.2.1]
  rw [hwire]
  exact ⟨hwired.openUrl url, fun hopen => (heffect.2.2 hopen).elim⟩

theorem send_closes (c : WsConnection) (payload : String) : (c.send payload).closes = c.closes := by
  simp only [WsConnection.send]
  split_ifs
  · rw [doWrite_closes]
  · rfl

theorem Kept.send (h : Kept s) (hnot : ¬ Stuck s.owned) (payload : String) :
    let next := { s.owned with connection := s.owned.connection.send payload }
    Kept ⟨next, s.wire.observe s.owned next (.send payload)⟩ := by
  intro next
  obtain ⟨hwired, hemptied⟩ := h.wired.send payload (h.not_ahead hnot)
  have hwire : s.wire.observe s.owned next (.send payload) =
      { s.wire with
        sent := s.wire.sent ++ [payload]
        started := s.wire.started ++ startedBy (s.wire.sent ++ [payload])
          s.owned.connection.writes (s.owned.connection.send payload) } := by
    simp [Wire.observe, passedBy, inFlight, keepsDeferral, next, send_closes]
  rw [hwire]
  exact ⟨hwired, hemptied _⟩

theorem afterOpen_closes (c : WsConnection) : c.afterOpen.closes = c.closes := by
  simp only [WsConnection.afterOpen]
  split_ifs
  · rw [doWrite_closes, (doRead_calm c).closes]
  · exact (doRead_calm c).closes

theorem Kept.afterOpen (h : Kept s) (hrest : s.owned.resumption = some .afterOpen) :
    let next := { s.owned with resumption := none, connection := s.owned.connection.afterOpen }
    Kept ⟨next, s.wire.observe s.owned next .resume⟩ := by
  intro next
  have hwired := h.wired
  rw [hrest] at hwired
  obtain ⟨hafter, hemptied⟩ := hwired.afterOpen
  have hwire : s.wire.observe s.owned next .resume =
      { s.wire with
        started := s.wire.started ++ startedBy s.wire.sent s.owned.connection.writes
          s.owned.connection.afterOpen } := by
    simp [Wire.observe, passedBy, inFlight, keepsDeferral, next, afterOpen_closes]
  rw [hwire]
  exact ⟨hafter, hemptied _⟩

theorem Kept.onStage (h : Kept s) {stage : Stage}
    (hstage : s.owned.connection.opening = some stage) (ok : Bool) :
    Kept ⟨s.owned.onStage stage ok,
      s.wire.observe s.owned (s.owned.onStage stage ok) (.stage ok)⟩ := by
  have hsome : s.owned.connection.opening.isSome = true := by
    rw [hstage]
    rfl
  have hdone : Calm s.owned.connection { s.owned.connection with opening := none } :=
    ⟨rfl, rfl, rfl, rfl, id, id, Or.inl, fun hyes => (Bool.false_ne_true hyes).elim⟩
  unfold OwnedConnection.onStage
  simp only
  split_ifs with hok
  · exact h.calm (hdone.trans (finish_calm _)) rfl rfl rfl rfl Iff.rfl
  · split
    · exact h.calm ⟨rfl, rfl, rfl, rfl, id, id, Or.inl, fun _ => hsome⟩ rfl rfl rfl rfl Iff.rfl
    · have hwire : ∀ callbacks, s.wire.observe s.owned { s.owned with
            connection := WsConnection.opened { s.owned.connection with opening := none }
            resumption := some .afterOpen
            callbacks := callbacks } (.stage ok) = s.wire := by
        intro callbacks
        simp [Wire.observe, passedBy, inFlight, startedBy, keepsDeferral, WsConnection.opened]
      rw [hwire]
      exact ⟨h.wired.opened hsome, fun _ _ hnot => (hnot rfl).elim⟩

theorem Kept.onWrite (h : Kept s) (hwrites : 0 < s.owned.connection.writes)
    (hresumption : s.owned.resumption = none) (ok : Bool) :
    let next := s.owned.settle (WsConnection.onWrite
      { s.owned.connection with writes := s.owned.connection.writes - 1 } ok)
    Kept ⟨next, s.wire.observe s.owned next (.write ok)⟩ := by
  intro next
  have hwriting : s.owned.connection.writing = true := by
    by_contra hnot
    rw [h.wired.writes, if_neg hnot] at hwrites
    exact Nat.lt_irrefl 0 hwrites
  cases ok with
  | true =>
    obtain ⟨hwired, hemptied, hdeferral⟩ := h.wired.onWrite hwriting
    have hwire : s.wire.observe s.owned next (.write true) =
        { s.wire with
          started := s.wire.started ++
            startedBy s.wire.sent (s.owned.connection.writes - 1) next.connection
          closesStarted := s.wire.closesStarted +
            (next.connection.closes - s.owned.connection.closes) } := by
      have hkept : keepsDeferral s.owned next (.write true) = true := by
        simp only [keepsDeferral, decide_eq_true_eq]
        exact fun hpending => (hdeferral hpending).imp_right Or.inl
      simp [Wire.observe, passedBy, inFlight, hkept]
    rw [hwire]
    exact ⟨hwired, hemptied _⟩
  | false =>
    have hnot : s.owned.resumption ≠ some .afterOpen := by
      rw [hresumption]
      simp
    have hwired := h.wired.failed hwriting hnot
    have hcalm := finish_calm
      { s.owned.connection with writes := s.owned.connection.writes - 1, writing := false }
    have hfinished : next.connection.finished = true := by
      change (WsConnection.finish _).1.finished = true
      unfold WsConnection.finish
      split_ifs with hyes
      · exact hyes
      · rfl
    have hwire : s.wire.observe s.owned next (.write false) = s.wire := by
      have hnext : next.connection.writes = s.owned.connection.writes - 1 ∧
          next.connection.closes = s.owned.connection.closes :=
        ⟨hcalm.writes, hcalm.closes⟩
      simp [Wire.observe, passedBy, inFlight, startedBy, keepsDeferral, hfinished, hnext]
    rw [hwire]
    refine ⟨hwired, fun hopen _ _ _ => ?_⟩
    have hqueue : next.connection.writeQueue = s.owned.connection.writeQueue := hcalm.queue
    unfold Wire.Ahead
    rw [hqueue]
    exact (h.wired.writing hwriting).1

theorem Kept.onClosed (h : Kept s) :
    let next := s.owned.settle (WsConnection.finish
      { s.owned.connection with closes := s.owned.connection.closes - 1 })
    Kept ⟨next, s.wire.observe s.owned next .closed⟩ := by
  intro next
  have htaken : Kept { s with owned := { s.owned with
      connection := { s.owned.connection with closes := s.owned.connection.closes - 1 } } } :=
    ⟨{ h.wired with closes := (Nat.sub_le _ _).trans h.wired.closes }, h.emptied⟩
  have hcalm := finish_calm { s.owned.connection with closes := s.owned.connection.closes - 1 }
  have hnext : next.connection.writes = s.owned.connection.writes ∧
      next.connection.closes = s.owned.connection.closes - 1 := ⟨hcalm.writes, hcalm.closes⟩
  have hwire : s.wire.observe s.owned next .closed = s.wire := by
    simp [Wire.observe, passedBy, inFlight, startedBy, keepsDeferral, hnext]
  rw [hwire]
  exact ⟨htaken.wired.calm hcalm id, htaken.emptied.calm hcalm id⟩

theorem Kept.keepalive (h : Kept s) (hnot : ¬ Stuck s.owned) (timer : Timer) :
    let next := { s.owned with
      connection := WsConnection.onKeepalive { s.owned.connection with keepaliveTimer := timer } }
    Kept ⟨next, s.wire.observe s.owned next .keepalive⟩ := by
  intro next
  have htimer : Calm s.owned.connection { s.owned.connection with keepaliveTimer := timer } :=
    .aside
  by_cases hopen : s.owned.connection.state = .kOpen
  · let timed : WsConnection := { s.owned.connection with keepaliveTimer := timer }
    let payload := s.owned.connection.keepalivePayload
    have hnext : next = { s.owned with connection := (timed.send payload).armKeepalive } :=
      congrArg (fun c => { s.owned with connection := c }) (onKeepalive_open (c := timed) hopen)
    have hwired : Wired s.wire timed s.owned.begun s.owned.resumption := h.wired.calm htimer id
    obtain ⟨hsent, hemptied⟩ := hwired.send payload fun _ => h.not_ahead hnot hopen
    have hcalm := armKeepalive_calm (timed.send payload)
    have hwire : s.wire.observe s.owned next .keepalive =
        { s.wire with
          sent := s.wire.sent ++ [payload]
          started := s.wire.started ++
            startedBy (s.wire.sent ++ [payload]) timed.writes (timed.send payload) } := by
      have hpassed : passedBy s.owned .keepalive = [payload] := if_pos hopen
      have hmove : inFlight s.owned.connection .keepalive = (timed.writes, timed.closes) := rfl
      unfold Wire.observe
      rw [hpassed, hmove, hnext]
      simp [keepsDeferral, startedBy_calm hcalm, hcalm.closes, send_closes]
    rw [hwire, hnext]
    exact ⟨hsent.calm hcalm id, (hemptied _).calm hcalm id⟩
  · have hnext : next = { s.owned with
        connection := WsConnection.armKeepalive
          { s.owned.connection with keepaliveTimer := timer } } := by
      simp only [next, WsConnection.onKeepalive]
      rw [if_pos hopen]
    rw [hnext]
    exact h.calm (htimer.trans (armKeepalive_calm _)) (if_neg hopen) rfl rfl rfl Iff.rfl

theorem Kept.onRead (h : Kept s) (hidle : s.owned.resumption = none) (message : Option Bytes) :
    Kept ⟨s.owned.onRead message,
      s.wire.observe s.owned (s.owned.onRead message) (.read message)⟩ := by
  have htaken : Calm s.owned.connection
      { s.owned.connection with reads := s.owned.connection.reads - 1 } := .aside
  cases message with
  | none =>
    exact h.calm (htaken.trans (finish_calm _)) rfl rfl rfl rfl Iff.rfl
  | some frame =>
    refine h.calm htaken rfl rfl rfl rfl ?_
    rw [hidle]
    exact ⟨fun hyes => (by cases hyes), fun hyes => (by cases hyes)⟩

theorem kept_step {t : WiredConnection} (h : Kept s) (hunstuck : Unstuck s move)
    (hstep : s.step move = some t) : Kept t := by
  obtain ⟨next, hnext, rfl⟩ := Option.map_eq_some_iff.mp hstep
  cases OwnedConnection.stepped_of_step hnext with
  | openUrl url hbegun => exact h.openUrl hbegun url
  | close => exact h.close
  | send payload => exact h.send hunstuck payload
  | startKeepalive payload intervalSeconds =>
    exact h.calm (startKeepalive_calm _ payload intervalSeconds) rfl rfl rfl rfl Iff.rfl
  | afterOpen hrest => exact h.afterOpen hrest
  | doRead hrest =>
    refine h.calm (doRead_calm _) rfl rfl rfl rfl ?_
    rw [hrest]
    exact ⟨fun hyes => (by cases hyes), fun hyes => (by cases hyes)⟩
  | stage ok hidle hopening => exact h.onStage hopening ok
  | read message hidle hposted => exact h.onRead hidle message
  | write ok hidle hposted => exact h.onWrite hposted hidle ok
  | closed hidle hposted => exact h.onClosed
  | keepaliveExpires hidle hexpired =>
    exact h.calm .aside rfl rfl rfl rfl Iff.rfl
  | keepalive hidle htaken => exact h.keepalive hunstuck _

theorem unstuck_of_orderly {t : WiredConnection} (h : Kept s) (hstep : s.step move = some t)
    (horderly : Orderly t) : Unstuck s move := by
  obtain ⟨next, hnext, rfl⟩ := Option.map_eq_some_iff.mp hstep
  have hinOrder := horderly.inOrder
  cases OwnedConnection.stepped_of_step hnext with
  | send payload =>
    rintro ⟨hopen, -, hwriting, hsome, hresumption⟩
    have hahead := h.emptied hopen hwriting hresumption hsome
    exact h.wired.not_inOrder hahead hopen hwriting payload hinOrder
  | @keepalive timer hidle htaken =>
    rintro ⟨hopen, -, hwriting, hsome, hresumption⟩
    have hahead := h.emptied hopen hwriting hresumption hsome
    let timed : WsConnection := { s.owned.connection with keepaliveTimer := timer }
    have hwired : Wired s.wire timed s.owned.begun s.owned.resumption :=
      h.wired.calm .aside id
    have hpassed : passedBy s.owned .keepalive = [timed.keepalivePayload] := if_pos hopen
    have hsent : timed.onKeepalive = (timed.send timed.keepalivePayload).armKeepalive :=
      onKeepalive_open hopen
    simp only [Wire.observe, hpassed] at hinOrder
    change _ ++ startedBy _ timed.writes timed.onKeepalive <+: _ at hinOrder
    rw [hsent, startedBy_calm (armKeepalive_calm _)] at hinOrder
    exact hwired.not_inOrder hahead hopen hwriting timed.keepalivePayload hinOrder
  | openUrl url hbegun => trivial
  | close => trivial
  | startKeepalive payload intervalSeconds => trivial
  | afterOpen hrest => trivial
  | doRead hrest => trivial
  | stage ok hidle hopening => trivial
  | read message hidle hposted => trivial
  | write ok hidle hposted => trivial
  | closed hidle hposted => trivial
  | keepaliveExpires hidle hexpired => trivial

/-- What goes out is orderly exactly when nothing is sent behind a payload that is stuck. -/
theorem orderly_iff_unstuck (moves : List ConnectionMove) :
    (∀ done, done <+: moves → Orderly (run done)) ↔ Machine.Along step Unstuck {} moves :=
  Machine.forall_prefix_iff_along (fun _ _ _ h hunstuck hstep => kept_step h hunstuck hstep)
    (fun _ h => h.orderly) (fun _ _ _ h hstep horderly => unstuck_of_orderly h hstep horderly)
    kept_start moves

/-- The handshake succeeds after the owner has given up, and the write of the subscription fails. -/
theorem stuck_payload_repeats :
    let s := run [.openUrl (utf8 "wss://ws.okx.com:8443/ws/v5/public"), .stage true, .stage true,
      .stage true, .close, .stage true, .send "subscribe", .resume, .write false, .send "ping"]
    s.wire.started = [("subscribe", 0), ("subscribe", 0)] ∧ ¬ Orderly s := by
  intro s
  have hstarted : s.wire.started = [("subscribe", 0), ("subscribe", 0)] := by decide +kernel
  refine ⟨hstarted, fun h => ?_⟩
  have hinOrder := h.inOrder
  rw [hstarted] at hinOrder
  revert hinOrder
  decide +kernel

end WiredConnection

end CexAggregator
