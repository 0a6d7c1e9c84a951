import CexAggregator.Url

/-!
# One websocket connection

What a connection does between two completions of its asynchronous operations. An operation
is counted from its start to the handler that completes it. `on_open` and `on_frame` belong
to the owner; where `on_close` may be delivered, the result says whether it is.
-/

namespace CexAggregator

/-- A timer and those of its waits that have expired and are queued. Arming it again
aborts the current wait, but not what is queued. -/
structure Timer where
  armed : Bool := false
  due : ℕ := 0
deriving DecidableEq, Repr

namespace Timer

def arm (t : Timer) : Timer := { t with armed := true }
def cancel (t : Timer) : Timer := { t with armed := false }
def expire (t : Timer) : Option Timer := if t.armed then some ⟨false, t.due + 1⟩ else none
def take (t : Timer) : Option Timer := if 0 < t.due then some { t with due := t.due - 1 } else none

end Timer

inductive ConnectionState where
  | kIdle
  | kConnecting
  | kOpen
  | kClosed
deriving DecidableEq, Repr

inductive Stage where
  | resolve
  | connect
  | tlsHandshake
  | websocketHandshake
deriving DecidableEq, Repr

structure WsConnection where
  secure : Bool := false
  state : ConnectionState := .kIdle
  finished : Bool := false
  writeQueue : List String := []
  writing : Bool := false
  closePending : Bool := false
  keepalivePayload : String := ""
  keepaliveIntervalSeconds : ℕ := 0
  keepaliveTimer : Timer := {}
  opening : Option Stage := none
  reads : ℕ := 0
  writes : ℕ := 0
  closes : ℕ := 0
deriving DecidableEq, Repr

namespace WsConnection

def finish (c : WsConnection) : WsConnection × Bool :=
  if c.finished then (c, false)
  else
    ({ c with
        finished := true
        state := .kClosed
        keepaliveTimer := c.keepaliveTimer.cancel }, true)

def close (c : WsConnection) : WsConnection × Bool :=
  if c.state ≠ .kOpen then c.finish
  else if c.writing then ({ c with closePending := true }, false)
  else
    ({ c with
        state := .kClosed
        keepaliveTimer := c.keepaliveTimer.cancel
        closes := c.closes + 1 }, false)

def accepts (url : Url) : Bool := url.scheme = "ws" ∨ url.scheme = "wss"

def openUrl (c : WsConnection) (url : Bytes) : WsConnection × Bool :=
  match (parseUrl url).filter accepts with
  | none => c.finish
  | some parsed =>
    ({ c with secure := parsed.secure, state := .kConnecting, opening := some .resolve }, false)

def doRead (c : WsConnection) : WsConnection :=
  if c.state ≠ .kOpen then c else { c with reads := c.reads + 1 }

def doWrite (c : WsConnection) : WsConnection :=
  if c.writeQueue = [] ∨ c.state ≠ .kOpen then c
  else { c with writing := true, writes := c.writes + 1 }

def send (c : WsConnection) (payload : String) : WsConnection :=
  let queued := { c with writeQueue := c.writeQueue ++ [payload] }
  if queued.state = .kOpen ∧ queued.writing = false then queued.doWrite else queued

def armKeepalive (c : WsConnection) : WsConnection :=
  if c.state ≠ .kOpen ∧ c.state ≠ .kConnecting then c
  else { c with keepaliveTimer := c.keepaliveTimer.arm }

def startKeepalive (c : WsConnection) (payload : String) (intervalSeconds : ℕ) : WsConnection :=
  if payload = "" ∨ intervalSeconds = 0 then c
  else
    armKeepalive
      { c with keepalivePayload := payload, keepaliveIntervalSeconds := intervalSeconds }

def onKeepalive (c : WsConnection) : WsConnection :=
  if c.state ≠ .kOpen then c.armKeepalive else (c.send c.keepalivePayload).armKeepalive

/-- What a successful step leads to; `none` is an open connection. -/
def nextStage (c : WsConnection) : Stage → Option Stage
  | .resolve => some .connect
  | .connect => some (if c.secure then .tlsHandshake else .websocketHandshake)
  | .tlsHandshake => some .websocketHandshake
  | .websocketHandshake => none

def opened (c : WsConnection) : WsConnection := { c with state := .kOpen }

def afterOpen (c : WsConnection) : WsConnection :=
  let reading := c.doRead
  if reading.writing = false ∧ reading.writeQueue ≠ [] then reading.doWrite else reading

def onWrite (c : WsConnection) (ok : Bool) : WsConnection × Bool :=
  let idle := { c with writing := false }
  if ok = false then idle.finish
  else
    let sent := { idle with writeQueue := idle.writeQueue.tail }
    if sent.closePending then close { sent with closePending := false }
    else if sent.writeQueue ≠ [] then (sent.doWrite, false)
    else (sent, false)

/-- Nothing is outstanding that could still deliver `on_open` or `on_frame`. -/
def Quiet (c : WsConnection) : Prop := c.opening = none ∧ c.reads = 0

instance (c : WsConnection) : Decidable c.Quiet := inferInstanceAs (Decidable (_ ∧ _))

structure SameInbound (c c' : WsConnection) : Prop where
  opening : c'.opening = c.opening
  reads : c'.reads = c.reads

structure Settles (c : WsConnection) (outcome : WsConnection × Bool) : Prop
    extends SameInbound c outcome.1 where
  state : outcome.1.state = .kOpen → c.state = .kOpen
  finished : outcome.1.finished = (c.finished || outcome.2)
  once : outcome.2 = true → c.finished = false ∧ outcome.1.state = .kClosed

theorem SameInbound.refl (c : WsConnection) : SameInbound c c := ⟨rfl, rfl⟩

theorem SameInbound.quiet {c c' : WsConnection} (h : SameInbound c c') (hquiet : c.Quiet) :
    c'.Quiet := ⟨h.opening.trans hquiet.1, h.reads.trans hquiet.2⟩

theorem SameInbound.trans {c c' c'' : WsConnection} (h : SameInbound c c')
    (h' : SameInbound c' c'') : SameInbound c c'' :=
  ⟨h'.opening.trans h.opening, h'.reads.trans h.reads⟩

theorem SameInbound.settles {c c' : WsConnection} (h : SameInbound c c')
    (hstate : c'.state = .kOpen → c.state = .kOpen) (hfinished : c'.finished = c.finished) :
    Settles c (c', false) where
  toSameInbound := h
  state := hstate
  finished := by rw [hfinished, Bool.or_false]
  once hclosed := (Bool.false_ne_true hclosed).elim

theorem Settles.refl (c : WsConnection) : Settles c (c, false) :=
  (SameInbound.refl c).settles id rfl

theorem Settles.trans {c c' : WsConnection} {outcome : WsConnection × Bool}
    (h : Settles c (c', false)) (h' : Settles c' outcome) : Settles c outcome where
  toSameInbound := h.toSameInbound.trans h'.toSameInbound
  state hopen := h.state (h'.state hopen)
  finished := by rw [h'.finished, h.finished, Bool.or_false]
  once hclosed := by
    have hfinished := h.finished
    rw [Bool.or_false] at hfinished
    exact hfinished ▸ h'.once hclosed

theorem finish_settles (c : WsConnection) : Settles c c.finish := by
  unfold finish
  split_ifs with hfinished
  · exact .refl c
  · refine ⟨⟨rfl, rfl⟩, ?_, ?_, ?_⟩
    · intro hopen
      cases hopen
    · exact (Bool.or_true _).symm
    · intro _
      exact ⟨Bool.not_eq_true _ ▸ hfinished, rfl⟩

theorem close_settles (c : WsConnection) : Settles c c.close := by
  unfold close
  split_ifs
  · exact finish_settles c
  · exact SameInbound.settles ⟨rfl, rfl⟩ id rfl
  · refine SameInbound.settles ⟨rfl, rfl⟩ ?_ rfl
    intro hopen
    cases hopen

theorem doWrite_settles (c : WsConnection) : Settles c (c.doWrite, false) := by
  unfold doWrite
  split_ifs
  · exact .refl c
  · exact SameInbound.settles ⟨rfl, rfl⟩ id rfl

theorem send_settles (c : WsConnection) (payload : String) :
    Settles c (c.send payload, false) := by
  have hqueued : Settles c ({ c with writeQueue := c.writeQueue ++ [payload] }, false) :=
    SameInbound.settles ⟨rfl, rfl⟩ id rfl
  simp only [send]
  split_ifs
  · exact hqueued.trans (doWrite_settles _)
  · exact hqueued

theorem armKeepalive_settles (c : WsConnection) : Settles c (c.armKeepalive, false) := by
  unfold armKeepalive
  split_ifs
  · exact .refl c
  · exact SameInbound.settles ⟨rfl, rfl⟩ id rfl

theorem startKeepalive_settles (c : WsConnection) (payload : String) (intervalSeconds : ℕ) :
    Settles c (c.startKeepalive payload intervalSeconds, false) := by
  unfold startKeepalive
  split_ifs
  · exact .refl c
  · refine Settles.trans ?_ (armKeepalive_settles _)
    exact SameInbound.settles ⟨rfl, rfl⟩ id rfl

theorem onKeepalive_settles (c : WsConnection) : Settles c (c.onKeepalive, false) := by
  unfold onKeepalive
  split_ifs
  · exact armKeepalive_settles c
  · exact (send_settles c _).trans (armKeepalive_settles _)

theorem onWrite_settles (c : WsConnection) (ok : Bool) : Settles c (c.onWrite ok) := by
  simp only [onWrite]
  split_ifs
  · refine Settles.trans ?_ (finish_settles _)
    exact SameInbound.settles ⟨rfl, rfl⟩ id rfl
  · refine Settles.trans ?_ (close_settles _)
    exact SameInbound.settles ⟨rfl, rfl⟩ id rfl
  · refine Settles.trans ?_ (doWrite_settles _)
    exact SameInbound.settles ⟨rfl, rfl⟩ id rfl
  · exact SameInbound.settles ⟨rfl, rfl⟩ id rfl

end WsConnection

end CexAggregator
