import CexAggregator.Bybit
import CexAggregator.Machine
import CexAggregator.RunnerFrame
import CexAggregator.Wakefulness

/-!
# A venue that is not stopped can always connect again

Whatever has happened to it, timers and completions alone are enough to bring a venue into
a new session, unless it has been stopped or has met a fatal answer.
-/

namespace CexAggregator
open Program

/-- Moves that bring no message: the thread's own acts, timers, and the completions of a close
or of a write. -/
def VenueMove.Unprompted : VenueMove → Bool
  | .act => true
  | .handle _ .start => true
  | .handle _ .reconnectExpires => true
  | .handle _ .reconnect => true
  | .handle _ .watchdogExpires => true
  | .handle _ .watchdog => true
  | .handle _ (.closed _) => true
  | .handle _ (.write _ ok) => ok
  | _ => false

/-- When the steady clock is read. -/
def VenueMove.readings : VenueMove → List Int
  | .handle reading _ => [reading.now]
  | _ => []

theorem VenueMove.readings_acts (k : ℕ) :
    (List.replicate k VenueMove.act).flatMap VenueMove.readings = [] := by
  rw [List.flatMap_eq_nil_iff]
  intro move hmove
  obtain ⟨-, rfl⟩ := List.mem_replicate.mp hmove
  rfl

namespace Runner
variable {σ : Type} {p : VenueProtocol σ} {options : Options} {venueIndex : ℕ}
  {reading : Reading} {r : Runner σ}

theorem ends_of_within {α : Type} {allowed : Act Note Query → Prop} {R : α → Prop}
    {program : VenueProgram α} (h : Within allowed R program) : Ends R program :=
  (h.meets (I := fun _ => True) (fun _ _ _ _ _ => ⟨trivial, trivial⟩) trivial).mono
    fun _ _ hR => hR.2

theorem Ends.and {α : Type} {Q R : α → Prop} {program : VenueProgram α} (h : Ends Q program)
    (h' : Ends R program) : Ends (fun a => Q a ∧ R a) program := by
  induction program with
  | done a => exact ⟨h, h'⟩
  | emit note next ih => exact fun hrely => ⟨trivial, ih (h hrely).2 (h' hrely).2⟩
  | ask b next ih =>
    exact fun answer hrely => ⟨trivial, ih answer (h answer hrely).2 (h' answer hrely).2⟩

structure SameSession (r r' : Runner σ) : Prop where
  generation : r'.generation = r.generation
  fatal : r'.stats.fatal = r.stats.fatal

theorem Kept.sameSession {r' : Runner σ} (h : Kept r r') : SameSession r r' :=
  ⟨h.generation, congrArg VenueStats.fatal h.stats⟩

theorem onClose_arms (hfatal : r.stats.fatal = false) :
    Ends (fun r' => r'.reconnectTimer.armed = true) (onClose reading r) := by
  apply ends_tell
  apply ends_stopping
  simp only [hfatal, Bool.false_eq_true, or_self, ↓reduceIte]
  apply ends_stopping
  simp only [hfatal, Bool.false_eq_true, or_self, ↓reduceIte]
  apply ends_tell
  rfl

theorem settle_arms (hfatal : r.stats.fatal = false) {outcome : WsConnection × Bool}
    (hclosed : outcome.2 = true) :
    Ends (fun r' => r'.reconnectTimer.armed = true ∧ SameSession r r')
      (settle reading r r.generation outcome) := by
  rw [settle, if_pos ⟨hclosed, rfl⟩]
  refine ((onClose_arms ?_).and (ends_of_within (onClose_within _))).mono ?_
  · exact hfatal
  · rintro r' ⟨harmed, hkept⟩
    exact ⟨harmed, hkept.generation, congrArg VenueStats.fatal hkept.stats⟩

theorem settle_quiet {outcome : WsConnection × Bool} (hclosed : outcome.2 = false) :
    settle reading r r.generation outcome = pure (r.setConnection r.generation outcome.1) := by
  rw [settle, if_neg (by simp [hclosed])]

def Leaving (r : Runner σ) : Prop :=
  r.reconnectTimer.armed = true ∨ r.current.finished = false ∧ r.current.Closing

theorem settle_leaves (hfatal : r.stats.fatal = false) {outcome : WsConnection × Bool}
    (houtcome : outcome.2 = true ∨ outcome.1.finished = false ∧ outcome.1.Closing) :
    Ends (fun r' => Leaving r' ∧ SameSession r r') (settle reading r r.generation outcome) := by
  cases hclosed : outcome.2 with
  | true =>
    exact (settle_arms hfatal hclosed).mono fun _ => And.imp_left Or.inl
  | false =>
    rw [settle_quiet hclosed]
    refine ⟨Or.inr ?_, rfl, rfl⟩
    rw [current_setConnection_self]
    exact houtcome.resolve_left (by simp [hclosed])

variable (p) in
structure Begun (g : ℕ) (r : Runner σ) : Prop where
  generation : r.generation = g
  fatal : r.stats.fatal = false
  protocol : ∃ state, r.protocol = p.reset state
  connection : r.current = (WsConnection.openUrl {} (utf8 p.streamUrl)).1

theorem connect_renews (hfatal : r.stats.fatal = false) :
    Ends (Begun p (r.generation + 1)) (connect p reading r) := by
  apply ends_stopping
  simp only [hfatal, Bool.false_eq_true, or_self, ↓reduceIte]
  apply ends_tell
  apply ends_tell
  refine (ends_of_within (settle_within _ _ _)).bind fun opened hopened => ?_
  have hsession := hopened.sameSession
  apply ends_stopping
  refine ⟨hsession.generation, hsession.fatal.trans hfatal,
    ⟨r.protocol, hopened.protocol⟩, ?_⟩
  rw [current, hsession.generation, hopened.connections]
  exact Function.update_self ..

end Runner

section Advance
variable {ε β α : Type} {act : Act ε β} {rest : Program ε β α}

theorem advance_emit {e : ε} {next : Program ε β α} (h : Advance (.emit e next) act rest) :
    act = .emitted e ∧ rest = next := by
  cases h
  exact ⟨rfl, rfl⟩

theorem advance_ask {b : β} {next : Bool → Program ε β α} (h : Advance (.ask b next) act rest) :
    ∃ answer, act = .asked b answer ∧ rest = next answer := by
  cases h with
  | ask b next answer => exact ⟨answer, rfl, rfl⟩

end Advance

namespace VenueSystem
variable {σ : Type} {p : VenueProtocol σ} {options : Options} {venueIndex capacity : ℕ}
  {s : VenueSystem σ} {r : Runner σ} {g : ℕ} {now : Int}

theorem run_append (s : VenueSystem σ) (as bs : List VenueMove) :
    s.run p options venueIndex capacity (as ++ bs) =
      (s.run p options venueIndex capacity as).run p options venueIndex capacity bs :=
  List.foldl_append

/-- Between two handlers, with nobody having called `Stop`. -/
structure Resting (s : VenueSystem σ) (r : Runner σ) : Prop where
  program : s.program = .done r
  running : s.stopping = false
  unposted : s.stopPosted = false

theorem run_act {t : VenueSystem σ} (hact : s.act capacity = some t) (k : ℕ) :
    s.run p options venueIndex capacity (List.replicate (k + 1) .act) =
      t.run p options venueIndex capacity (List.replicate k .act) := by
  simp [VenueSystem.run, List.replicate_succ, VenueSystem.step, hact]

theorem run_cons_of_step {t : VenueSystem σ} {move : VenueMove}
    (hstep : s.step p options venueIndex capacity move = some t) (moves : List VenueMove) :
    s.run p options venueIndex capacity (move :: moves) =
      t.run p options venueIndex capacity moves := by
  simp [VenueSystem.run, hstep]

variable (capacity) in
theorem act_ready (h : ∀ r, s.program ≠ .done r) : ∃ t, s.act capacity = some t := by
  rw [VenueSystem.act]
  split
  · rename_i r hdone
    exact (h r hdone).elim
  · exact ⟨_, rfl⟩
  · split_ifs <;> exact ⟨_, rfl⟩
  · exact ⟨_, rfl⟩

theorem acts_to_rest {Q : Runner σ → Prop} (hrunning : s.stopping = false)
    (hunposted : s.stopPosted = false) (h : Runner.Ends Q s.program) :
    ∃ k r, Resting (s.run p options venueIndex capacity (List.replicate k .act)) r ∧ Q r := by
  generalize hprogram : s.program = program at h
  induction program generalizing s with
  | done r => exact ⟨0, r, ⟨hprogram, hrunning, hunposted⟩, h⟩
  | emit note next ih =>
    obtain ⟨t, hact⟩ := act_ready capacity (s := s) (by simp [hprogram])
    obtain ⟨hstopping, hposted⟩ := act_flags hact
    obtain ⟨act, hadvance, hanswer⟩ := act_answer hact hrunning
    rw [hprogram] at hadvance
    obtain ⟨hemitted, hnext⟩ := advance_emit hadvance
    obtain ⟨k, r, hrest, hQ⟩ := ih (hstopping.trans hrunning) (hposted.trans hunposted) hnext
      (h (hemitted ▸ hanswer)).2
    exact ⟨k + 1, r, by rwa [run_act hact], hQ⟩
  | ask query next ih =>
    obtain ⟨t, hact⟩ := act_ready capacity (s := s) (by simp [hprogram])
    obtain ⟨hstopping, hposted⟩ := act_flags hact
    obtain ⟨act, hadvance, hanswer⟩ := act_answer hact hrunning
    rw [hprogram] at hadvance
    obtain ⟨answer, hasked, hnext⟩ := advance_ask hadvance
    obtain ⟨k, r, hrest, hQ⟩ := ih answer (hstopping.trans hrunning) (hposted.trans hunposted)
      hnext (h answer (hasked ▸ hanswer)).2
    exact ⟨k + 1, r, by rwa [run_act hact], hQ⟩

variable (p options venueIndex capacity) in
/-- From `now` on, moves of a kind lead to such a runner. -/
def CanReach (kind : VenueMove → Bool) (Goal : Runner σ → Prop) (now : Int) (s : VenueSystem σ) :
    Prop :=
  ∃ more, (∀ move ∈ more, kind move = true) ∧
    Machine.Forward now (more.flatMap VenueMove.readings) ∧
    ∃ r, Resting (s.run p options venueIndex capacity more) r ∧ Goal r

theorem CanReach.of_rest {kind : VenueMove → Bool} {Goal : Runner σ → Prop} (hrest : Resting s r)
    (h : Goal r) : CanReach p options venueIndex capacity kind Goal now s :=
  ⟨[], List.forall_mem_nil _, Machine.forward_nil now, r, hrest, h⟩

theorem CanReach.of_handle {kind : VenueMove → Bool} {Goal Q : Runner σ → Prop}
    (hkind : kind .act = true) (hrest : Resting s r) {reading : Reading} (hnow : now ≤ reading.now)
    {event : Event} (hevent : kind (.handle reading event) = true) (hstop : event ≠ .stop)
    {program : VenueProgram (Runner σ)}
    (hhandle : r.handle p options venueIndex (reading, event) = some program)
    (hends : Runner.Ends Q program)
    (hnext : ∀ t r', Resting t r' → Q r' →
      CanReach p options venueIndex capacity kind Goal reading.now t) :
    CanReach p options venueIndex capacity kind Goal now s := by
  have hstep : s.step p options venueIndex capacity (.handle reading event) =
      some { s with program := program, stopPosted := s.stopPosted && event ≠ .stop } := by
    simp [VenueSystem.step, hrest.program, hstop, hhandle]
  have hends : ∃ k r', Resting (VenueSystem.run p options venueIndex capacity
      { s with program := program, stopPosted := s.stopPosted && event ≠ .stop }
      (List.replicate k .act)) r' ∧ Q r' :=
    acts_to_rest hrest.running (by simp [hrest.unposted]) hends
  obtain ⟨k, r', hrested, hQ⟩ := hends
  obtain ⟨more, hmore, hforward, hrenewed⟩ := hnext _ r' hrested hQ
  refine ⟨.handle reading event :: (List.replicate k .act ++ more), ?_, ?_, ?_⟩
  · refine List.forall_mem_cons.mpr ⟨hevent, List.forall_mem_append.mpr ⟨?_, hmore⟩⟩
    intro move hmove
    obtain ⟨-, rfl⟩ := List.mem_replicate.mp hmove
    exact hkind
  · rw [List.flatMap_cons, List.flatMap_append, VenueMove.readings_acts]
    exact hforward.cons hnow
  · rw [run_cons_of_step hstep, run_append]
    exact hrenewed

variable (p options venueIndex capacity) in
def CanRenew (g : ℕ) (now : Int) (s : VenueSystem σ) : Prop :=
  CanReach p options venueIndex capacity VenueMove.Unprompted (Runner.Begun p (g + 1)) now s

structure Renewable (g : ℕ) (r : Runner σ) : Prop where
  awake : r.Awake
  generation : r.generation = g
  fatal : r.stats.fatal = false

theorem handle_of_running (hrunning : r.halted = false) {event : Reading × Event} :
    r.handle p options venueIndex event = r.dispatch p options venueIndex event.1 event.2 := by
  simp [Runner.handle, hrunning]

theorem CanRenew.of_event {X : Runner σ → Prop} (hrest : Resting s r) (h : Renewable g r)
    {reading : Reading} (hnow : now ≤ reading.now) {event : Event}
    (hevent : (VenueMove.handle reading event).Unprompted = true)
    {program : VenueProgram (Runner σ)}
    (hhandle : r.dispatch p options venueIndex reading event = some program)
    (hends : Runner.Ends (fun r' => X r' ∧ Runner.SameSession r r') program)
    (hnext : ∀ t r', Resting t r' → Renewable g r' → X r' →
      CanRenew p options venueIndex capacity g reading.now t) :
    CanRenew p options venueIndex capacity g now s := by
  have hhandle : r.handle p options venueIndex (reading, event) = some program := by
    rw [handle_of_running h.awake.running]
    exact hhandle
  have hstop : event ≠ .stop := by
    rintro rfl
    cases hevent
  refine CanReach.of_handle rfl hrest hnow hevent hstop hhandle
    (hends.and (h.awake.handle hstop hhandle)) ?_
  rintro t r' hrest' ⟨⟨hX, hsession⟩, hawake⟩
  exact hnext t r' hrest' ⟨hawake, hsession.generation.trans h.generation,
    hsession.fatal.trans h.fatal⟩ hX

theorem CanRenew.of_connect (hrest : Resting s r) (h : Renewable g r) {event : Event}
    (hevent : (VenueMove.handle { now := now } event).Unprompted = true)
    {program : VenueProgram (Runner σ)}
    (hhandle : r.dispatch p options venueIndex { now := now } event = some program)
    (hends : Runner.Ends (Runner.Begun p (r.generation + 1)) program) :
    CanRenew p options venueIndex capacity g now s := by
  have hstop : event ≠ .stop := by
    rintro rfl
    cases hevent
  refine CanReach.of_handle rfl hrest le_rfl hevent hstop
    ((handle_of_running h.awake.running).trans hhandle) hends fun t r' hrest' hr' => ?_
  exact CanReach.of_rest hrest' (h.generation ▸ hr')

theorem canRenew_posted (hrest : Resting s r) (h : Renewable g r) (hposted : r.posted = true) :
    CanRenew p options venueIndex capacity g now s := by
  have hhandle : r.dispatch p options venueIndex { now := now } .start =
      some (Runner.onBehalf .timer (Runner.connect p { now := now } { r with posted := false })) :=
    if_pos hposted
  have hends : Runner.Ends (Runner.Begun p (r.generation + 1))
      (Runner.connect p { now := now } { r with posted := false }) :=
    Runner.connect_renews (r := { r with posted := false }) h.fatal
  exact CanRenew.of_connect hrest h rfl hhandle (Runner.ends_onBehalf hends)

theorem canRenew_due (hrest : Resting s r) (h : Renewable g r)
    (hdue : 0 < r.reconnectTimer.due) : CanRenew p options venueIndex capacity g now s := by
  let taken : Runner σ :=
    { r with reconnectTimer := { r.reconnectTimer with due := r.reconnectTimer.due - 1 } }
  have hhandle : r.dispatch p options venueIndex { now := now } .reconnect =
      some (Runner.onBehalf .timer (Runner.onReconnect p { now := now } taken)) := by
    rw [Runner.dispatch, Timer.take, if_pos hdue]
    rfl
  have hends : Runner.Ends (Runner.Begun p (r.generation + 1))
      (Runner.connect p { now := now } taken) :=
    Runner.connect_renews (r := taken) h.fatal
  exact CanRenew.of_connect hrest h rfl hhandle
    (Runner.ends_onBehalf (Runner.ends_stopping hends))

theorem canRenew_armed (hrest : Resting s r) (h : Renewable g r)
    (harmed : r.reconnectTimer.armed = true) : CanRenew p options venueIndex capacity g now s := by
  let expired : Runner σ := { r with reconnectTimer := ⟨false, r.reconnectTimer.due + 1⟩ }
  have hhandle : r.dispatch p options venueIndex { now := now } .reconnectExpires =
      some (pure expired) := by
    rw [Runner.dispatch, Timer.expire, if_pos harmed]
    rfl
  have hends : Runner.Ends (fun r' => 0 < r'.reconnectTimer.due ∧ Runner.SameSession r r')
      (pure expired) := ⟨Nat.succ_pos _, rfl, rfl⟩
  exact CanRenew.of_event hrest h le_rfl rfl hhandle hends fun _ _ hrest' h' hdue =>
    canRenew_due hrest' h' hdue

theorem canRenew_closes (hrest : Resting s r) (h : Renewable g r)
    (hunfinished : r.current.finished = false) (hcloses : 0 < r.current.closes) :
    CanRenew p options venueIndex capacity g now s := by
  have hhandle : r.dispatch p options venueIndex { now := now } (.closed r.generation) =
      some (Runner.onBehalf (.connection r.generation) (Runner.settle { now := now } r r.generation
        (WsConnection.finish { r.current with closes := r.current.closes - 1 }))) :=
    if_pos hcloses
  have hends : Runner.Ends (fun r' => r'.reconnectTimer.armed = true ∧ Runner.SameSession r r')
      (Runner.settle { now := now } r r.generation
        (WsConnection.finish { r.current with closes := r.current.closes - 1 })) :=
    Runner.settle_arms h.fatal (WsConnection.finish_closed hunfinished)
  exact CanRenew.of_event hrest h le_rfl rfl hhandle (Runner.ends_onBehalf hends)
    fun _ _ hrest' h' harmed => canRenew_armed hrest' h' harmed

theorem canRenew_pending (hrest : Resting s r) (h : Renewable g r)
    (hunfinished : r.current.finished = false) (hpending : r.current.closePending = true) :
    CanRenew p options venueIndex capacity g now s := by
  have hwrites : 0 < r.current.writes := (h.awake.held r.generation).pending hunfinished hpending
  have hhandle : r.dispatch p options venueIndex { now := now } (.write r.generation true) =
      some (Runner.onBehalf (.connection r.generation) (Runner.settle { now := now } r r.generation
        (WsConnection.onWrite { r.current with writes := r.current.writes - 1 } true))) :=
    if_pos hwrites
  obtain ⟨outcome, houtcome⟩ :
      ∃ outcome, WsConnection.onWrite { r.current with writes := r.current.writes - 1 } true =
        outcome := ⟨_, rfl⟩
  have hclosed := WsConnection.onWrite_pending (r.current.writes - 1) hunfinished hpending
  rw [houtcome] at hhandle hclosed
  cases hdelivered : outcome.2 with
  | true =>
    exact CanRenew.of_event hrest h le_rfl rfl hhandle
      (Runner.ends_onBehalf (Runner.settle_arms h.fatal hdelivered))
      fun _ _ hrest' h' harmed => canRenew_armed hrest' h' harmed
  | false =>
    obtain ⟨hstill, hcloses⟩ := hclosed.resolve_left (by simp [hdelivered])
    have hends : Runner.Ends (fun r' => (r'.current.finished = false ∧ 0 < r'.current.closes) ∧
        Runner.SameSession r r') (Runner.settle { now := now } r r.generation outcome) := by
      rw [Runner.settle_quiet hdelivered]
      refine ⟨?_, rfl, rfl⟩
      rw [Runner.current_setConnection_self]
      exact ⟨hstill, hcloses⟩
    exact CanRenew.of_event hrest h le_rfl rfl hhandle (Runner.ends_onBehalf hends)
      fun _ _ hrest' h' hnext => canRenew_closes hrest' h' hnext.1 hnext.2

theorem canRenew_leaving (hrest : Resting s r) (h : Renewable g r) (hleaving : r.Leaving) :
    CanRenew p options venueIndex capacity g now s := by
  obtain harmed | ⟨hunfinished, hcloses | hpending⟩ := hleaving
  · exact canRenew_armed hrest h harmed
  · exact canRenew_closes hrest h hunfinished hcloses
  · exact canRenew_pending hrest h hunfinished hpending

theorem canRenew_silent (hrest : Resting s r) (h : Renewable g r)
    (hunfinished : r.current.finished = false) (hbegun : 0 < r.generation)
    (hdue : 0 < r.watchdogTimer.due) : CanRenew p options venueIndex capacity g now s := by
  let taken : Runner σ :=
    { r with watchdogTimer := { r.watchdogTimer with due := r.watchdogTimer.due - 1 } }
  -- The watchdog may run late, but not before the silence has lasted.
  let silent : Reading := { now := max now (r.lastActivity + options.silenceTimeout) }
  have hhandle : r.dispatch p options venueIndex silent .watchdog =
      some (Runner.onBehalf .timer (Runner.onWatchdog options silent taken)) := by
    rw [Runner.dispatch, Timer.take, if_pos hdue]
    rfl
  have hends : Runner.Ends (fun r' => Runner.Leaving r' ∧ Runner.SameSession r r')
      (Runner.onWatchdog options silent taken) := by
    apply Runner.ends_stopping
    have hquit : ¬ (false = true ∨ taken.stats.fatal = true) := by simp [taken, h.fatal]
    have hsilent : options.silenceTimeout ≤ silent.now - taken.lastActivity := by
      have hlate := le_max_right now (r.lastActivity + options.silenceTimeout)
      simp only [taken, silent]
      omega
    rw [if_neg hquit, if_pos hsilent]
    apply Runner.ends_tell
    have hnone : taken.generation ≠ 0 := hbegun.ne'
    rw [Runner.closeConnection, if_neg hnone]
    have hclosed : (taken.connections taken.generation).close.2 = true ∨
        (taken.connections taken.generation).close.1.finished = false ∧
          (taken.connections taken.generation).close.1.Closing :=
      WsConnection.close_closing hunfinished
    refine (Runner.settle_leaves (r := taken) h.fatal hclosed).mono ?_
    rintro r' ⟨hleaving, hsession⟩
    exact ⟨hleaving, hsession.generation, hsession.fatal⟩
  exact CanRenew.of_event hrest h (le_max_left _ _) rfl hhandle (Runner.ends_onBehalf hends)
    fun _ _ hrest' h' hleaving => canRenew_leaving hrest' h' hleaving

theorem canRenew_watched (hrest : Resting s r) (h : Renewable g r)
    (hunfinished : r.current.finished = false) (hbegun : 0 < r.generation)
    (hwatched : r.watchdogTimer.Pending) : CanRenew p options venueIndex capacity g now s := by
  obtain harmed | hdue := hwatched
  · let expired : Runner σ := { r with watchdogTimer := ⟨false, r.watchdogTimer.due + 1⟩ }
    have hhandle : r.dispatch p options venueIndex { now := now } .watchdogExpires =
        some (pure expired) := by
      rw [Runner.dispatch, Timer.expire, if_pos harmed]
      rfl
    have hends : Runner.Ends (fun r' => (0 < r'.watchdogTimer.due ∧ 0 < r'.generation ∧
        r'.current.finished = false) ∧ Runner.SameSession r r') (pure expired) :=
      ⟨⟨Nat.succ_pos _, hbegun, hunfinished⟩, rfl, rfl⟩
    exact CanRenew.of_event hrest h le_rfl rfl hhandle hends fun _ _ hrest' h' hexpired =>
      canRenew_silent hrest' h' hexpired.2.2 hexpired.2.1 hexpired.1
  · exact canRenew_silent hrest h hunfinished hbegun hdue

theorem canRenew (hrest : Resting s r) (h : Renewable g r) :
    CanRenew p options venueIndex capacity g now s := by
  have hfatal : r.stats.fatal ≠ true := by simp [h.fatal]
  obtain ((hfatal' | hposted) | hpending) | ⟨hunfinished, hwatched | hclosing⟩ := h.awake.wakes
  · exact (hfatal hfatal').elim
  · exact canRenew_posted hrest h hposted
  · exact hpending.elim (canRenew_armed hrest h) (canRenew_due hrest h)
  · obtain (hfatal' | hposted) | hbegun := h.awake.begun
    · exact (hfatal hfatal').elim
    · exact canRenew_posted hrest h hposted
    · exact canRenew_watched hrest h hunfinished hbegun hwatched
  · exact canRenew_leaving hrest h (Or.inr ⟨hunfinished, hclosing⟩)

variable (p options venueIndex capacity) in
theorem Wakeful.canRenew (h : Wakeful s) (hrest : s.program = .done r)
    (hrunning : s.stopping = false) (hfatal : r.stats.fatal = false) :
    r.Awake ∧ ∀ now, CanRenew p options venueIndex capacity r.generation now s := by
  obtain ⟨hunposted, hends⟩ := h hrunning
  rw [hrest] at hends
  exact ⟨hends, fun now => VenueSystem.canRenew ⟨hrest, hrunning, hunposted⟩ ⟨hends, rfl, hfatal⟩⟩

end VenueSystem

end CexAggregator
