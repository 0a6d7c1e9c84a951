import CexAggregator.VenueSystem

/-!
# A venue that is not stopped wakes up again

Between two handlers nothing happens of its own accord, so something has to be left that
will wake the thread: a timer, or the completion of a connection that is being closed. The
watchdog does not arm itself again when it closes a silent connection, and counts on
`on_close` for the reconnect; here is why it can.
-/

namespace CexAggregator
open Program

def Timer.Pending (t : Timer) : Prop := t.armed = true ∨ 0 < t.due

theorem Timer.pending_expire {t timer : Timer} (h : t.expire = some timer) : timer.Pending := by
  rw [expire] at h
  split_ifs at h
  cases h
  exact Or.inr (Nat.succ_pos _)

namespace WsConnection

/-- A connection that has been asked to close waits for a completion. -/
def Closing (c : WsConnection) : Prop := 0 < c.closes ∨ c.closePending = true

structure Held (c : WsConnection) : Prop where
  writing : c.writing = true → 0 < c.writes
  pending : c.finished = false → c.closePending = true → 0 < c.writes
  closed : c.finished = false → c.state = .kClosed → 0 < c.closes

def Onward (c : WsConnection) (outcome : WsConnection × Bool) : Prop :=
  outcome.2 = true ∨
    outcome.1.finished = c.finished ∧ (c.finished = false → c.Closing → outcome.1.Closing)

variable {c : WsConnection}

theorem held_initial : ({} : WsConnection).Held :=
  ⟨fun h => (by cases h), fun _ h => (by cases h), fun _ h => (by cases h)⟩

theorem onward_rfl {c' : WsConnection} (hfinished : c'.finished = c.finished)
    (hcloses : c'.closes = c.closes) (hpending : c'.closePending = c.closePending) :
    c.Onward (c', false) :=
  Or.inr ⟨hfinished, fun _ hclosing => by rwa [Closing, hcloses, hpending]⟩

theorem held_finish (hwriting : c.writing = true → 0 < c.writes) : c.finish.1.Held := by
  rw [finish]
  split_ifs with hfinished
  · exact ⟨hwriting, fun hrunning => (Bool.false_ne_true (hrunning.symm.trans hfinished)).elim,
      fun hrunning => (Bool.false_ne_true (hrunning.symm.trans hfinished)).elim⟩
  · exact ⟨hwriting, fun hrunning => (by cases hrunning), fun hrunning => (by cases hrunning)⟩

theorem finish_onward (c : WsConnection) : c.Onward c.finish := by
  rw [WsConnection.finish]
  split_ifs
  · exact onward_rfl rfl rfl rfl
  · exact Or.inl rfl

theorem finish_closed (h : c.finished = false) : c.finish.2 = true := by
  rw [WsConnection.finish, h]
  rfl

theorem Held.close (h : c.Held) : c.close.1.Held := by
  rw [WsConnection.close]
  split_ifs with hopen hwriting
  · exact held_finish h.writing
  · exact ⟨h.writing, fun _ _ => h.writing hwriting, h.closed⟩
  · exact ⟨h.writing, h.pending, fun _ _ => Nat.succ_pos _⟩

theorem close_onward (c : WsConnection) : c.Onward c.close := by
  rw [WsConnection.close]
  split_ifs
  · exact finish_onward c
  · exact Or.inr ⟨rfl, fun _ _ => Or.inr rfl⟩
  · exact Or.inr ⟨rfl, fun _ _ => Or.inl (Nat.succ_pos _)⟩

theorem close_closing (h : c.finished = false) :
    c.close.2 = true ∨ c.close.1.finished = false ∧ c.close.1.Closing := by
  rw [WsConnection.close]
  split_ifs
  · exact Or.inl (finish_closed h)
  · exact Or.inr ⟨h, Or.inr rfl⟩
  · exact Or.inr ⟨h, Or.inl (Nat.succ_pos _)⟩

theorem Held.doWrite (h : c.Held) : c.doWrite.Held := by
  rw [WsConnection.doWrite]
  split_ifs
  · exact h
  · exact ⟨fun _ => Nat.succ_pos _, fun _ _ => Nat.succ_pos _, h.closed⟩

theorem doWrite_onward (c : WsConnection) : c.Onward (c.doWrite, false) := by
  rw [WsConnection.doWrite]
  split_ifs <;> exact onward_rfl rfl rfl rfl

theorem Onward.trans {c' : WsConnection} {outcome : WsConnection × Bool}
    (h : c.Onward (c', false)) (h' : c'.Onward outcome) : c.Onward outcome := by
  obtain hclosed | ⟨hfinished, hclosing⟩ := h
  · cases hclosed
  · refine h'.imp_right fun ⟨hfinished', hclosing'⟩ => ⟨hfinished'.trans hfinished, ?_⟩
    exact fun hrunning hbefore => hclosing' (hfinished.trans hrunning) (hclosing hrunning hbefore)

theorem Held.send (h : c.Held) (payload : String) : (c.send payload).Held := by
  have hqueued : ({ c with writeQueue := c.writeQueue ++ [payload] } : WsConnection).Held :=
    ⟨h.writing, h.pending, h.closed⟩
  simp only [WsConnection.send]
  split_ifs
  · exact hqueued.doWrite
  · exact hqueued

theorem send_onward (c : WsConnection) (payload : String) : c.Onward (c.send payload, false) := by
  have hqueued : c.Onward ({ c with writeQueue := c.writeQueue ++ [payload] }, false) :=
    onward_rfl rfl rfl rfl
  simp only [WsConnection.send]
  split_ifs
  · exact hqueued.trans (doWrite_onward _)
  · exact hqueued

theorem Held.armKeepalive (h : c.Held) : c.armKeepalive.Held := by
  rw [WsConnection.armKeepalive]
  split_ifs
  · exact h
  · exact ⟨h.writing, h.pending, h.closed⟩

theorem armKeepalive_onward (c : WsConnection) : c.Onward (c.armKeepalive, false) := by
  rw [WsConnection.armKeepalive]
  split_ifs <;> exact onward_rfl rfl rfl rfl

theorem Held.startKeepalive (h : c.Held) (payload : String) (intervalSeconds : ℕ) :
    (c.startKeepalive payload intervalSeconds).Held := by
  rw [WsConnection.startKeepalive]
  split_ifs
  · exact h
  · exact Held.armKeepalive ⟨h.writing, h.pending, h.closed⟩

theorem startKeepalive_onward (c : WsConnection) (payload : String) (intervalSeconds : ℕ) :
    c.Onward (c.startKeepalive payload intervalSeconds, false) := by
  rw [WsConnection.startKeepalive]
  split_ifs
  · exact onward_rfl rfl rfl rfl
  · refine Onward.trans ?_ (armKeepalive_onward _)
    exact onward_rfl rfl rfl rfl

theorem Held.onKeepalive (h : c.Held) : c.onKeepalive.Held := by
  rw [WsConnection.onKeepalive]
  split_ifs
  · exact h.armKeepalive
  · exact (h.send _).armKeepalive

theorem onKeepalive_onward (c : WsConnection) : c.Onward (c.onKeepalive, false) := by
  rw [WsConnection.onKeepalive]
  split_ifs
  · exact armKeepalive_onward c
  · exact (send_onward c _).trans (armKeepalive_onward _)

theorem Held.doRead (h : c.Held) : c.doRead.Held := by
  rw [WsConnection.doRead]
  split_ifs
  · exact h
  · exact ⟨h.writing, h.pending, h.closed⟩

theorem doRead_onward (c : WsConnection) : c.Onward (c.doRead, false) := by
  rw [WsConnection.doRead]
  split_ifs <;> exact onward_rfl rfl rfl rfl

theorem Held.afterOpen (h : c.Held) : c.afterOpen.Held := by
  simp only [WsConnection.afterOpen]
  split_ifs
  · exact h.doRead.doWrite
  · exact h.doRead

theorem afterOpen_onward (c : WsConnection) : c.Onward (c.afterOpen, false) := by
  simp only [WsConnection.afterOpen]
  split_ifs
  · exact (doRead_onward c).trans (doWrite_onward _)
  · exact doRead_onward c

theorem Held.opened (h : c.Held) : c.opened.Held :=
  ⟨h.writing, h.pending, fun _ hclosed => (by cases hclosed)⟩

theorem Held.openUrl (h : c.Held) (url : Bytes) : (c.openUrl url).1.Held := by
  rw [WsConnection.openUrl]
  split
  · exact held_finish h.writing
  · exact ⟨h.writing, h.pending, fun _ hclosed => (by cases hclosed)⟩

theorem openUrl_fresh (url : Bytes) :
    (openUrl {} url).2 = true ∨ (openUrl {} url).1.finished = false := by
  rw [openUrl]
  split
  · exact Or.inl rfl
  · exact Or.inr rfl

theorem Held.onWrite (h : c.Held) (writes : ℕ) (ok : Bool) :
    (WsConnection.onWrite { c with writes := writes } ok).1.Held := by
  simp only [WsConnection.onWrite]
  split_ifs with hfailed hpending
  · exact held_finish fun hwriting => (by cases hwriting)
  · exact Held.close ⟨fun hwriting => (by cases hwriting), fun _ hmore => (by cases hmore),
      h.closed⟩
  · refine Held.doWrite ⟨fun hwriting => (by cases hwriting), fun _ hmore => ?_, h.closed⟩
    exact (hpending hmore).elim
  · exact ⟨fun hwriting => (by cases hwriting), fun _ hmore => (hpending hmore).elim, h.closed⟩

theorem onWrite_onward (c : WsConnection) (writes : ℕ) (ok : Bool) :
    c.Onward (WsConnection.onWrite { c with writes := writes } ok) := by
  simp only [WsConnection.onWrite]
  split_ifs with hfailed hpending hmore
  · exact (onward_rfl rfl rfl rfl).trans (finish_onward _)
  · -- The pending close is made up for, whatever was outstanding.
    by_cases hrunning : c.finished = false
    · refine (close_closing ?_).imp_right (And.imp ?_ ?_)
      · exact hrunning
      · exact fun hfinished => hfinished.trans hrunning.symm
      · exact fun hclosing _ _ => hclosing
    · obtain hclosed | ⟨hfinished, -⟩ := close_onward
        { { { c with writes := writes } with writing := false } with
          writeQueue := c.writeQueue.tail, closePending := false }
      · exact Or.inl hclosed
      · exact Or.inr ⟨hfinished, fun h => (hrunning h).elim⟩
  · exact (onward_rfl rfl rfl rfl).trans (doWrite_onward _)
  · exact onward_rfl rfl rfl rfl

theorem close_idle (hrunning : c.finished = false) (hwriting : c.writing = false) :
    c.close.2 = true ∨ c.close.1.finished = false ∧ 0 < c.close.1.closes := by
  rw [close]
  by_cases hopen : c.state ≠ .kOpen
  · rw [if_pos hopen]
    exact Or.inl (finish_closed hrunning)
  · rw [if_neg hopen, if_neg (by simp [hwriting])]
    exact Or.inr ⟨hrunning, Nat.succ_pos _⟩

theorem onWrite_pending (writes : ℕ) (hrunning : c.finished = false)
    (hpending : c.closePending = true) :
    (WsConnection.onWrite { c with writes := writes } true).2 = true ∨
      (WsConnection.onWrite { c with writes := writes } true).1.finished = false ∧
        0 < (WsConnection.onWrite { c with writes := writes } true).1.closes := by
  simp only [WsConnection.onWrite, hpending, ↓reduceIte, Bool.true_eq_false]
  apply close_idle
  · exact hrunning
  · rfl

theorem closed_onward (c : WsConnection) (closes : ℕ) :
    c.Onward (WsConnection.finish { c with closes := closes }) := by
  rw [WsConnection.finish]
  split_ifs with hfinished
  · exact Or.inr ⟨rfl, fun hrunning => (by rw [hrunning] at hfinished; cases hfinished)⟩
  · exact Or.inl rfl

theorem Held.onClosed (h : c.Held) (closes : ℕ) :
    (WsConnection.finish { c with closes := closes }).1.Held :=
  held_finish h.writing

end WsConnection

def unstopped : Contract Note Query Unit where
  track t _ := t
  rely _ act := act ≠ .asked .stopping true
  guarantee _ _ := True

namespace Runner
variable {σ : Type} {p : VenueProtocol σ} {options : Options} {venueIndex : ℕ}
  {reading : Reading} {r : Runner σ}

/-- As long as the thread is not told to stop, the handler ends in such a runner. -/
def Ends {α : Type} (Q : α → Prop) (program : VenueProgram α) : Prop :=
  Meets unstopped (fun _ a => Q a) program ()

section Ends
variable {α β : Type} {Q Q' : α → Prop}

theorem Ends.mono {program : VenueProgram α} (h : Ends Q program) (hQ : ∀ a, Q a → Q' a) :
    Ends Q' program :=
  Meets.mono h fun _ => hQ

theorem Ends.bind {R : β → Prop} {program : VenueProgram β} {next : β → VenueProgram α}
    (h : Ends R program) (hnext : ∀ b, R b → Ends Q (next b)) : Ends Q (program >>= next) :=
  Meets.bind h fun _ => hnext

theorem ends_tell {note : Note} {next : Unit → VenueProgram α} (h : Ends Q (next ())) :
    Ends Q (tell note >>= next) := fun _ => ⟨trivial, h⟩

theorem ends_stopping {next : Bool → VenueProgram α} (h : Ends Q (next false)) :
    Ends Q (query .stopping >>= next) := by
  intro answer hrely
  cases answer with
  | false => exact ⟨trivial, h⟩
  | true => exact (hrely rfl).elim

theorem ends_query {b : Query} {next : Bool → VenueProgram α} (h : ∀ answer, Ends Q (next answer)) :
    Ends Q (query b >>= next) := fun answer _ => ⟨trivial, h answer⟩

end Ends

def current (r : Runner σ) : WsConnection := r.connections r.generation

structure Sane (r : Runner σ) : Prop where
  running : r.halted = false
  begun : (r.stats.fatal = true ∨ r.posted = true) ∨ 0 < r.generation
  held : ∀ id, (r.connections id).Held

/-- Given up for good, not started, or a reconnect is coming. -/
def Set (r : Runner σ) : Prop :=
  (r.stats.fatal = true ∨ r.posted = true) ∨ r.reconnectTimer.Pending

structure Awake (r : Runner σ) : Prop extends Sane r where
  wakes : r.Set ∨ r.current.finished = false ∧ (r.watchdogTimer.Pending ∨ r.current.Closing)

/-- The watchdog may be missing, but the connection still owes its `on_close`. -/
structure Dozing (r : Runner σ) : Prop extends Sane r where
  owed : r.Set ∨ r.current.finished = false

theorem Awake.dozing (h : Awake r) : Dozing r := ⟨h.toSane, h.wakes.imp_right And.left⟩

theorem Sane.setConnection (h : Sane r) {id : ℕ} {c : WsConnection} (hc : c.Held) :
    Sane (r.setConnection id c) := by
  refine ⟨h.running, h.begun, fun other => ?_⟩
  by_cases hid : other = id
  · subst hid
    simpa [Runner.setConnection] using hc
  · simpa [Runner.setConnection, hid] using h.held other

theorem current_setConnection {id : ℕ} (hid : id ≠ r.generation) (c : WsConnection) :
    (r.setConnection id c).current = r.current :=
  Function.update_of_ne (Ne.symm hid) _ _

@[simp] theorem current_setConnection_self (c : WsConnection) :
    (r.setConnection r.generation c).current = c := Function.update_self _ _ _

theorem Awake.setConnection (h : Awake r) {id : ℕ} {c : WsConnection} (hc : c.Held)
    (honward : (r.connections id).Onward (c, false)) : Awake (r.setConnection id c) := by
  refine ⟨h.toSane.setConnection hc, h.wakes.imp_right fun ⟨hrunning, hwakes⟩ => ?_⟩
  by_cases hid : id = r.generation
  · subst hid
    obtain hclosed | ⟨hfinished, hclosing⟩ := honward
    · cases hclosed
    · rw [current_setConnection_self]
      exact ⟨hfinished.trans hrunning, hwakes.imp_right (hclosing hrunning)⟩
  · rw [current_setConnection hid]
    exact ⟨hrunning, hwakes⟩

theorem Sane.scheduleReconnect (h : Sane r) : Ends Awake (scheduleReconnect reading r) := by
  apply ends_stopping
  simp only [Bool.false_eq_true, false_or]
  split_ifs with hfatal
  · exact ⟨h, Or.inl (Or.inl (Or.inl hfatal))⟩
  · apply ends_tell
    exact ⟨⟨h.running, h.begun, h.held⟩, Or.inl (Or.inr (Or.inl rfl))⟩

theorem Sane.onClose (h : Sane r) : Ends Awake (onClose reading r) := by
  apply ends_tell
  apply ends_stopping
  simp only [Bool.false_eq_true, false_or]
  split_ifs with hfatal
  · exact ⟨h, Or.inl (Or.inl (Or.inl hfatal))⟩
  · exact h.scheduleReconnect

theorem Awake.settle (h : Awake r) {id : ℕ} {outcome : WsConnection × Bool}
    (hheld : outcome.1.Held) (honward : (r.connections id).Onward outcome) :
    Ends Awake (settle reading r id outcome) := by
  rw [Runner.settle]
  split_ifs with hclosed
  · exact (h.toSane.setConnection hheld).onClose
  · by_cases hid : id = r.generation
    · have hquiet : outcome.2 = false := by simpa [hid] using hclosed
      refine h.setConnection hheld (honward.imp_left fun hdelivered => ?_)
      rw [hquiet] at hdelivered
      cases hdelivered
    · refine ⟨h.toSane.setConnection hheld, ?_⟩
      rw [current_setConnection hid]
      exact h.wakes

theorem Dozing.closeConnection (h : Dozing r) : Ends Awake (closeConnection reading r) := by
  rw [Runner.closeConnection]
  split_ifs with hnone
  · exact ⟨h.toSane, Or.inl (Or.inl (h.begun.resolve_right (by omega)))⟩
  · have hheld : r.current.close.1.Held := (h.held r.generation).close
    rw [Runner.settle]
    split_ifs with hclosed
    · exact (h.toSane.setConnection hheld).onClose
    · refine ⟨h.toSane.setConnection hheld, ?_⟩
      refine h.owed.imp_right fun hrunning => ?_
      rw [current_setConnection_self]
      obtain hdelivered | ⟨hstill, hclosing⟩ := WsConnection.close_closing hrunning
      · exact (hclosed ⟨hdelivered, rfl⟩).elim
      · exact ⟨hstill, Or.inr hclosing⟩

structure Alike (r r' : Runner σ) : Prop where
  halted : r'.halted = r.halted
  posted : r'.posted = r.posted
  generation : r'.generation = r.generation
  connections : r'.connections = r.connections
  reconnectTimer : r'.reconnectTimer = r.reconnectTimer
  watchdogTimer : r'.watchdogTimer = r.watchdogTimer
  fatal : r'.stats.fatal = r.stats.fatal

theorem Awake.alike {r' : Runner σ} (h : Awake r) (halike : Alike r r') : Awake r' := by
  obtain ⟨⟨hrunning, hbegun, hheld⟩, hwakes⟩ := h
  refine ⟨⟨halike.halted.trans hrunning, ?_, ?_⟩, ?_⟩
  · rwa [halike.fatal, halike.posted, halike.generation]
  · rwa [halike.connections]
  · rw [Set, current] at hwakes ⊢
    rwa [halike.fatal, halike.posted, halike.reconnectTimer, halike.watchdogTimer,
      halike.connections, halike.generation]

theorem Awake.fetchSnapshot (h : Awake r) : Ends Awake (fetchSnapshot p reading r) := by
  apply ends_stopping
  have hcharged : Awake { r with resyncBudget := (r.resyncBudget.tryConsume reading.now).2 } :=
    h.alike ⟨rfl, rfl, rfl, rfl, rfl, rfl, rfl⟩
  simp only [Bool.false_eq_true, ↓reduceIte]
  split_ifs
  · exact hcharged.toSane.scheduleReconnect
  · split
    · apply ends_stopping
      exact hcharged.toSane.onClose
    · exact h.alike ⟨rfl, rfl, rfl, rfl, rfl, rfl, rfl⟩

theorem Awake.resync (h : Awake r) : Ends Awake (resync p reading r) := by
  apply ends_tell
  apply ends_tell
  have hfresh : Awake { resetProtocol p r with
      stats := { r.stats with resyncs := r.stats.resyncs + 1 } } :=
    h.alike ⟨rfl, rfl, rfl, rfl, rfl, rfl, rfl⟩
  dsimp only
  split_ifs
  · exact hfresh.fetchSnapshot
  · exact hfresh.dozing.closeConnection

theorem Awake.publish (h : Awake r) (updates : List FeedUpdate) :
    Ends Awake (publish p venueIndex reading r updates) := by
  rw [Runner.publish]
  split_ifs
  · exact h
  · apply ends_query
    intro accepted
    split_ifs
    · exact h
    · exact Awake.resync (h.alike ⟨rfl, rfl, rfl, rfl, rfl, rfl, rfl⟩)

theorem Awake.goLive (h : Awake r) : Ends Awake (goLive p r) := by
  rw [Runner.goLive]
  split_ifs
  · apply ends_tell
    exact h.alike ⟨rfl, rfl, rfl, rfl, rfl, rfl, rfl⟩
  · exact h

theorem Awake.onSnapshot (h : Awake r) (answer : Option Bytes) :
    Ends Awake (onSnapshot p venueIndex reading r answer) := by
  cases answer with
  | none =>
    apply ends_stopping
    exact h.toSane.onClose
  | some body =>
    apply ends_stopping
    simp only [Bool.false_eq_true, ↓reduceIte]
    apply ends_tell
    split_ifs
    · exact Awake.resync (h.alike ⟨rfl, rfl, rfl, rfl, rfl, rfl, rfl⟩)
    · refine Ends.bind (Awake.publish (h.alike ?_) _) fun _ hpublished => hpublished.goLive
      exact ⟨rfl, rfl, rfl, rfl, rfl, rfl, rfl⟩

theorem exchangeTs_fatal (stats : VenueStats) (updates : List FeedUpdate) :
    (exchangeTs stats updates).fatal = stats.fatal := by
  rw [exchangeTs]
  split
  · split_ifs <;> rfl
  · rfl

theorem Awake.onFrame (h : Awake r) (frame : Bytes) :
    Ends Awake (onFrame p venueIndex reading r frame) := by
  rw [Runner.onFrame]
  apply ends_tell
  dsimp only
  split
  · exact Awake.resync (h.alike ⟨rfl, rfl, rfl, rfl, rfl, rfl, rfl⟩)
  · exact Awake.resync (h.alike ⟨rfl, rfl, rfl, rfl, rfl, rfl, rfl⟩)
  · -- A fatal answer is the one thing that lets the venue sleep.
    apply ends_tell
    exact Dozing.closeConnection
      ⟨⟨h.running, Or.inl (Or.inl rfl), h.held⟩, Or.inl (Or.inl (Or.inl rfl))⟩
  · split_ifs
    · exact h.alike ⟨rfl, rfl, rfl, rfl, rfl, rfl, rfl⟩
    · refine Ends.bind (Awake.publish (h.alike ?_) _) fun _ hpublished => hpublished.goLive
      exact ⟨rfl, rfl, rfl, rfl, rfl, rfl, exchangeTs_fatal _ _⟩

theorem held_subscribe {c : WsConnection} (h : c.Held) : (subscribe p c).Held := by
  have hframes : ∀ frames : List String, (frames.foldl WsConnection.send c).Held := by
    intro frames
    induction frames generalizing c with
    | nil => exact h
    | cons frame frames ih => exact ih (h.send frame)
  exact (hframes _).startKeepalive _ _

theorem subscribe_onward (c : WsConnection) : c.Onward (subscribe p c, false) := by
  have hframes : ∀ frames : List String, c.Onward (frames.foldl WsConnection.send c, false) := by
    intro frames
    induction frames generalizing c with
    | nil => exact WsConnection.onward_rfl rfl rfl rfl
    | cons frame frames ih => exact (WsConnection.send_onward c frame).trans (ih _)
  exact (hframes _).trans (WsConnection.startKeepalive_onward _ _ _)

theorem Awake.onOpen (h : Awake r) : Ends Awake (onOpen p reading r) := by
  apply ends_tell
  have hsubscribed : Awake
      (r.setConnection r.generation (subscribe p (r.connections r.generation))) :=
    h.setConnection (held_subscribe (h.held r.generation)) (subscribe_onward _)
  dsimp only
  split_ifs
  · exact hsubscribed.fetchSnapshot
  · exact hsubscribed

theorem connect_awake (hrunning : r.halted = false) (hheld : ∀ id, (r.connections id).Held) :
    Ends Awake (connect p reading r) := by
  apply ends_stopping
  simp only [Bool.false_eq_true, false_or]
  split_ifs with hfatal
  · exact ⟨⟨hrunning, Or.inl (Or.inl hfatal), hheld⟩, Or.inl (Or.inl (Or.inl hfatal))⟩
  · apply ends_tell
    apply ends_tell
    have hfresh : Sane
        { resetProtocol p r with loggedLive := false, generation := r.generation + 1 } :=
      ⟨hrunning, Or.inr (Nat.succ_pos _), hheld⟩
    have hopened : Ends Dozing (settle reading
        { resetProtocol p r with loggedLive := false, generation := r.generation + 1 }
        (r.generation + 1) (WsConnection.openUrl {} (utf8 p.streamUrl))) := by
      have hheld := WsConnection.held_initial.openUrl (utf8 p.streamUrl)
      rw [settle]
      split_ifs with hclosed
      · exact (hfresh.setConnection hheld).onClose.mono fun _ hawake => hawake.dozing
      · refine ⟨hfresh.setConnection hheld, Or.inr ?_⟩
        rw [current_setConnection_self]
        exact (WsConnection.openUrl_fresh _).resolve_left fun h => hclosed ⟨h, rfl⟩
    refine hopened.bind fun opened hopened => ?_
    apply ends_stopping
    exact ⟨⟨hopened.running, hopened.begun, hopened.held⟩, hopened.owed.imp_right fun hrunning =>
      ⟨hrunning, Or.inl (Or.inl rfl)⟩⟩

theorem Dozing.onWatchdog (h : Dozing r) : Ends Awake (onWatchdog options reading r) := by
  apply ends_stopping
  simp only [Bool.false_eq_true, false_or]
  split_ifs with hfatal
  · exact ⟨h.toSane, Or.inl (Or.inl (Or.inl hfatal))⟩
  · apply ends_tell
    exact h.closeConnection
  · apply ends_stopping
    exact ⟨⟨h.running, h.begun, h.held⟩, h.owed.imp_right fun hrunning => ⟨hrunning,
      Or.inl (Or.inl rfl)⟩⟩

theorem Awake.onStage (h : Awake r) (id : ℕ) (stage : Stage) (ok : Bool) :
    Ends Awake (onStage p reading r id stage ok) := by
  have hidle : ({ r.connections id with opening := none } : WsConnection).Held :=
    ⟨(h.held id).writing, (h.held id).pending, (h.held id).closed⟩
  simp only [Runner.onStage]
  split_ifs
  · refine h.settle (WsConnection.held_finish hidle.writing) ?_
    exact (WsConnection.onward_rfl rfl rfl rfl).trans (WsConnection.finish_onward _)
  · split
    · refine h.setConnection ⟨hidle.writing, hidle.pending, hidle.closed⟩ ?_
      exact WsConnection.onward_rfl rfl rfl rfl
    · have hopen : Awake (r.setConnection id
          (WsConnection.opened { r.connections id with opening := none })) :=
        h.setConnection hidle.opened (WsConnection.onward_rfl rfl rfl rfl)
      refine hopen.onOpen.bind fun opened hopened => ?_
      exact hopened.setConnection (hopened.held id).afterOpen (WsConnection.afterOpen_onward _)

theorem Awake.onRead (h : Awake r) (id : ℕ) (message : Option Bytes) :
    Ends Awake (onRead p venueIndex reading r id message) := by
  have hread : ({ r.connections id with reads := (r.connections id).reads - 1 } :
      WsConnection).Held :=
    ⟨(h.held id).writing, (h.held id).pending, (h.held id).closed⟩
  cases message with
  | none =>
    refine h.settle (WsConnection.held_finish hread.writing) ?_
    exact (WsConnection.onward_rfl rfl rfl rfl).trans (WsConnection.finish_onward _)
  | some frame =>
    have hnext : Awake (r.setConnection id
        { r.connections id with reads := (r.connections id).reads - 1 }) :=
      h.setConnection hread (WsConnection.onward_rfl rfl rfl rfl)
    refine (hnext.onFrame frame).bind fun received hreceived => ?_
    exact hreceived.setConnection (hreceived.held id).doRead (WsConnection.doRead_onward _)

theorem ends_onBehalf {Q : Runner σ → Prop} {source : Source} {handler : VenueProgram (Runner σ)}
    (h : Ends Q handler) : Ends Q (onBehalf source handler) := ends_tell h

/-- Every handler but that of `Stop` leaves something that will wake the thread again. -/
theorem Awake.handle (h : Awake r) {event : Event} (hevent : event ≠ .stop)
    {program : VenueProgram (Runner σ)}
    (hhandle : r.handle p options venueIndex (reading, event) = some program) :
    Ends Awake program := by
  cases handled_of_handle hhandle with
  | start hposted => exact ends_onBehalf (connect_awake h.running h.held)
  | stop => exact (hevent rfl).elim
  | reconnectExpires hexpired =>
    refine ⟨⟨h.running, h.begun, h.held⟩, ?_⟩
    exact h.wakes.imp_left (Or.imp_right fun _ => Timer.pending_expire hexpired)
  | watchdogExpires hexpired =>
    refine ⟨⟨h.running, h.begun, h.held⟩, ?_⟩
    exact h.wakes.imp_right (And.imp_right (Or.imp_left fun _ => Timer.pending_expire hexpired))
  | keepaliveExpires hexpired =>
    exact h.setConnection ⟨(h.held _).writing, (h.held _).pending, (h.held _).closed⟩
      (WsConnection.onward_rfl rfl rfl rfl)
  | reconnect htaken =>
    apply ends_onBehalf
    apply ends_stopping
    exact connect_awake h.running h.held
  | watchdog htaken =>
    exact ends_onBehalf
      (Dozing.onWatchdog ⟨⟨h.running, h.begun, h.held⟩, h.wakes.imp_right And.left⟩)
  | @keepalive id timer htaken =>
    have hwaited : ({ r.connections id with keepaliveTimer := timer } : WsConnection).Held :=
      ⟨(h.held id).writing, (h.held id).pending, (h.held id).closed⟩
    apply ends_onBehalf
    refine h.setConnection hwaited.onKeepalive ?_
    exact (WsConnection.onward_rfl rfl rfl rfl).trans (WsConnection.onKeepalive_onward _)
  | stage ok hopening => exact ends_onBehalf (h.onStage _ _ ok)
  | read message hposted => exact ends_onBehalf (h.onRead _ message)
  | write ok hposted =>
    exact ends_onBehalf (h.settle ((h.held _).onWrite _ ok) (WsConnection.onWrite_onward _ _ ok))
  | closed hposted =>
    exact ends_onBehalf (h.settle ((h.held _).onClosed _) (WsConnection.closed_onward _ _))
  | @response index q answer hpending =>
    have hanswered : Awake { r with requests := r.requests.eraseIdx index } :=
      h.alike ⟨rfl, rfl, rfl, rfl, rfl, rfl, rfl⟩
    exact ends_onBehalf (hanswered.onSnapshot answer)

end Runner

namespace VenueSystem
variable {σ : Type} {p : VenueProtocol σ} {options : Options} {venueIndex capacity : ℕ}
  {s next : VenueSystem σ}

def Wakeful (s : VenueSystem σ) : Prop :=
  s.stopping = false → s.stopPosted = false ∧ Runner.Ends Runner.Awake s.program

theorem wakeful_create (initial : σ) (options : Options) : Wakeful (create initial options) :=
  fun _ => ⟨rfl, ⟨⟨rfl, Or.inl (Or.inr rfl), fun _ => WsConnection.held_initial⟩,
    Or.inl (Or.inl (Or.inr rfl))⟩⟩

theorem act_answer (hact : s.act capacity = some next) (hstopping : s.stopping = false) :
    ∃ act, Advance s.program act next.program ∧ act ≠ .asked .stopping true := by
  rw [VenueSystem.act] at hact
  split at hact
  · cases hact
  · rename_i note rest hprogram
    cases hact
    exact ⟨.emitted note, hprogram ▸ .emit note rest, by simp⟩
  · rename_i batch rest hprogram
    split_ifs at hact
    · cases hact
      exact ⟨.asked (.push batch) true, hprogram ▸ .ask _ rest true, by simp⟩
    · cases hact
      exact ⟨.asked (.push batch) false, hprogram ▸ .ask _ rest false, by simp⟩
  · rename_i rest hprogram
    cases hact
    exact ⟨.asked .stopping s.stopping, hprogram ▸ .ask _ rest _, by simp [hstopping]⟩

theorem act_flags (hact : s.act capacity = some next) :
    next.stopping = s.stopping ∧ next.stopPosted = s.stopPosted := by
  rw [VenueSystem.act] at hact
  split at hact
  · cases hact
  · cases hact
    exact ⟨rfl, rfl⟩
  · split_ifs at hact
    all_goals
      cases hact
      exact ⟨rfl, rfl⟩
  · cases hact
    exact ⟨rfl, rfl⟩

theorem Wakeful.step (h : Wakeful s) {move : VenueMove}
    (hstep : s.step p options venueIndex capacity move = some next) : Wakeful next := by
  intro hrunning
  cases move with
  | act =>
    obtain ⟨hstopping, hposted⟩ := act_flags hstep
    rw [hstopping] at hrunning
    obtain ⟨hunposted, hends⟩ := h hrunning
    obtain ⟨act, hadvance, hact⟩ := act_answer hstep hrunning
    exact ⟨hposted.trans hunposted, (hends.advance hadvance hact).2⟩
  | stop =>
    cases hstep
    cases hrunning
  | pop =>
    simp only [VenueSystem.step] at hstep
    split at hstep
    · cases hstep
    · cases hstep
      exact h hrunning
  | handle reading event =>
    simp only [VenueSystem.step] at hstep
    split at hstep
    · rename_i r hdone
      split_ifs at hstep with hstop
      obtain ⟨program, hhandle, rfl⟩ := Option.map_eq_some_iff.mp hstep
      obtain ⟨hunposted, hends⟩ := h hrunning
      have hevent : event ≠ .stop := fun hevent => hstop ⟨hevent, hunposted⟩
      rw [hdone] at hends
      exact ⟨by simp [hunposted], Runner.Awake.handle hends hevent hhandle⟩
    · cases hstep

theorem Wakeful.run (h : Wakeful s) (moves : List VenueMove) :
    Wakeful (s.run p options venueIndex capacity moves) := by
  induction moves generalizing s with
  | nil => exact h
  | cons move moves ih =>
    apply ih (s := (s.step p options venueIndex capacity move).getD s)
    cases hstep : s.step p options venueIndex capacity move with
    | none => exact h
    | some next => exact h.step hstep

end VenueSystem

end CexAggregator
