import CexAggregator.Machine
import CexAggregator.WsConnection

/-!
# What a connection tells its owner

One connection with its owner on the one thread. A handler that calls the owner gives way
there: the owner may call the connection back any number of times before the rest of the
handler runs. `Finish` calls the owner last, so nothing of it is left then.
-/

namespace CexAggregator

inductive Callback where
  | onOpen
  | onFrame (frame : Bytes)
  | onClose
deriving DecidableEq

inductive Resumption where
  | afterOpen
  | doRead
deriving DecidableEq

/-- `begun` says that `Open` has been called; the callbacks are kept for the specification. -/
structure OwnedConnection where
  connection : WsConnection := {}
  begun : Bool := false
  resumption : Option Resumption := none
  callbacks : List Callback := []
deriving DecidableEq

inductive ConnectionMove where
  | openUrl (url : Bytes)
  | close
  | send (payload : String)
  | startKeepalive (payload : String) (intervalSeconds : ℕ)
  | resume
  | stage (ok : Bool)
  | read (message : Option Bytes)
  | write (ok : Bool)
  | closed
  | keepaliveExpires
  | keepalive

namespace OwnedConnection

def settle (s : OwnedConnection) (outcome : WsConnection × Bool) : OwnedConnection :=
  { s with
    connection := outcome.1
    callbacks := if outcome.2 then s.callbacks ++ [.onClose] else s.callbacks }

def onStage (s : OwnedConnection) (stage : Stage) (ok : Bool) : OwnedConnection :=
  let c := { s.connection with opening := none }
  if ok = false then s.settle c.finish
  else
    match c.nextStage stage with
    | some next => { s with connection := { c with opening := some next } }
    | none =>
      { s with
        connection := c.opened
        resumption := some .afterOpen
        callbacks := s.callbacks ++ [.onOpen] }

def onRead (s : OwnedConnection) (message : Option Bytes) : OwnedConnection :=
  let c := { s.connection with reads := s.connection.reads - 1 }
  match message with
  | none => s.settle c.finish
  | some frame =>
    { s with
      connection := c
      resumption := some .doRead
      callbacks := s.callbacks ++ [.onFrame frame] }

def resume (s : OwnedConnection) : Option OwnedConnection :=
  match s.resumption with
  | none => none
  | some .afterOpen => some { s with resumption := none, connection := s.connection.afterOpen }
  | some .doRead => some { s with resumption := none, connection := s.connection.doRead }

/-- A handler runs only when the one before it has returned. -/
def handlerStep (s : OwnedConnection) : ConnectionMove → Option OwnedConnection
  | .stage ok => s.connection.opening.map fun stage => s.onStage stage ok
  | .read message => if 0 < s.connection.reads then some (s.onRead message) else none
  | .write ok =>
    let c := { s.connection with writes := s.connection.writes - 1 }
    if 0 < s.connection.writes then some (s.settle (c.onWrite ok)) else none
  | .closed =>
    let c := { s.connection with closes := s.connection.closes - 1 }
    if 0 < s.connection.closes then some (s.settle c.finish) else none
  | .keepaliveExpires =>
    s.connection.keepaliveTimer.expire.map fun timer =>
      { s with connection := { s.connection with keepaliveTimer := timer } }
  | .keepalive =>
    s.connection.keepaliveTimer.take.map fun timer =>
      let c := { s.connection with keepaliveTimer := timer }
      { s with connection := c.onKeepalive }
  | _ => none

def step (s : OwnedConnection) : ConnectionMove → Option OwnedConnection
  | .openUrl url =>
    if s.begun then none else some { s.settle (s.connection.openUrl url) with begun := true }
  | .close => some (s.settle s.connection.close)
  | .send payload => some { s with connection := s.connection.send payload }
  | .startKeepalive payload intervalSeconds =>
    some { s with connection := s.connection.startKeepalive payload intervalSeconds }
  | .resume => s.resume
  | move => if s.resumption = none then s.handlerStep move else none

def run (moves : List ConnectionMove) : OwnedConnection := Machine.run step {} moves

/-- At most one `on_open`, then frames, then at most one `on_close`. -/
def Lifecycle (callbacks : List Callback) : Prop :=
  ∃ (opened closed : Bool) (frames : List Bytes), callbacks =
    (if opened then [.onOpen] else []) ++ frames.map .onFrame ++ (if closed then [.onClose] else [])

structure Lawful (s : OwnedConnection) : Prop where
  lifecycle : Lifecycle s.callbacks
  closed : .onClose ∈ s.callbacks → s.connection.state ≠ .kOpen

/-- A websocket handshake or a read that succeeds does so before the connection has finished. -/
def inTime (s : OwnedConnection) : ConnectionMove → Bool
  | .stage true =>
    s.connection.opening = some .websocketHandshake → s.connection.finished = false
  | .read (some _) => s.connection.finished = false
  | _ => true

inductive Stepped (s : OwnedConnection) : ConnectionMove → OwnedConnection → Prop
  | openUrl (url : Bytes) (hbegun : s.begun = false) :
      Stepped s (.openUrl url) { s.settle (s.connection.openUrl url) with begun := true }
  | close : Stepped s .close (s.settle s.connection.close)
  | send (payload : String) :
      Stepped s (.send payload) { s with connection := s.connection.send payload }
  | startKeepalive (payload : String) (intervalSeconds : ℕ) :
      Stepped s (.startKeepalive payload intervalSeconds)
        { s with connection := s.connection.startKeepalive payload intervalSeconds }
  | afterOpen (hrest : s.resumption = some .afterOpen) :
      Stepped s .resume { s with resumption := none, connection := s.connection.afterOpen }
  | doRead (hrest : s.resumption = some .doRead) :
      Stepped s .resume { s with resumption := none, connection := s.connection.doRead }
  | stage {stage : Stage} (ok : Bool) (hidle : s.resumption = none)
      (hopening : s.connection.opening = some stage) :
      Stepped s (.stage ok) (s.onStage stage ok)
  | read (message : Option Bytes) (hidle : s.resumption = none) (hposted : 0 < s.connection.reads) :
      Stepped s (.read message) (s.onRead message)
  | write (ok : Bool) (hidle : s.resumption = none) (hposted : 0 < s.connection.writes) :
      Stepped s (.write ok) (s.settle
        (WsConnection.onWrite { s.connection with writes := s.connection.writes - 1 } ok))
  | closed (hidle : s.resumption = none) (hposted : 0 < s.connection.closes) :
      Stepped s .closed (s.settle
        (WsConnection.finish { s.connection with closes := s.connection.closes - 1 }))
  | keepaliveExpires {timer : Timer} (hidle : s.resumption = none)
      (hexpired : s.connection.keepaliveTimer.expire = some timer) :
      Stepped s .keepaliveExpires
        { s with connection := { s.connection with keepaliveTimer := timer } }
  | keepalive {timer : Timer} (hidle : s.resumption = none)
      (htaken : s.connection.keepaliveTimer.take = some timer) :
      Stepped s .keepalive { s with
        connection := WsConnection.onKeepalive { s.connection with keepaliveTimer := timer } }

variable {s t : OwnedConnection}

theorem stepped_of_handlerStep {move : ConnectionMove} (hidle : s.resumption = none)
    (hstep : s.handlerStep move = some t) : Stepped s move t := by
  cases move with
  | stage ok =>
    obtain ⟨stage, hopening, rfl⟩ := Option.map_eq_some_iff.mp hstep
    exact .stage ok hidle hopening
  | read message =>
    simp only [handlerStep, Option.ite_none_right_eq_some] at hstep
    obtain ⟨hposted, heq⟩ := hstep
    cases heq
    exact .read message hidle hposted
  | write ok =>
    simp only [handlerStep, Option.ite_none_right_eq_some] at hstep
    obtain ⟨hposted, heq⟩ := hstep
    cases heq
    exact .write ok hidle hposted
  | closed =>
    simp only [handlerStep, Option.ite_none_right_eq_some] at hstep
    obtain ⟨hposted, heq⟩ := hstep
    cases heq
    exact .closed hidle hposted
  | keepaliveExpires =>
    obtain ⟨timer, hexpired, rfl⟩ := Option.map_eq_some_iff.mp hstep
    exact .keepaliveExpires hidle hexpired
  | keepalive =>
    obtain ⟨timer, htaken, rfl⟩ := Option.map_eq_some_iff.mp hstep
    exact .keepalive hidle htaken
  | openUrl url => cases hstep
  | close => cases hstep
  | send payload => cases hstep
  | startKeepalive payload intervalSeconds => cases hstep
  | resume => cases hstep

theorem stepped_of_resume (hstep : s.resume = some t) : Stepped s .resume t := by
  unfold OwnedConnection.resume at hstep
  split at hstep
  · cases hstep
  · rename_i hrest
    cases hstep
    exact .afterOpen hrest
  · rename_i hrest
    cases hstep
    exact .doRead hrest

theorem stepped_of_step {move : ConnectionMove} (hstep : s.step move = some t) :
    Stepped s move t := by
  have hhandler : ∀ {move}, (if s.resumption = none then s.handlerStep move else none) = some t →
      Stepped s move t := by
    intro move hstep
    rw [Option.ite_none_right_eq_some] at hstep
    exact stepped_of_handlerStep hstep.1 hstep.2
  cases move with
  | openUrl url =>
    simp only [step, Option.ite_none_left_eq_some] at hstep
    obtain ⟨hbegun, heq⟩ := hstep
    cases heq
    exact .openUrl url (Bool.not_eq_true _ ▸ hbegun)
  | close =>
    cases hstep
    exact .close
  | send payload =>
    cases hstep
    exact .send payload
  | startKeepalive payload intervalSeconds =>
    cases hstep
    exact .startKeepalive payload intervalSeconds
  | resume => exact stepped_of_resume hstep
  | stage ok => exact hhandler hstep
  | read message => exact hhandler hstep
  | write ok => exact hhandler hstep
  | closed => exact hhandler hstep
  | keepaliveExpires => exact hhandler hstep
  | keepalive => exact hhandler hstep

def MayPrecede : Callback → Callback → Prop
  | .onOpen, next => next ≠ .onOpen
  | .onFrame _, next => next ≠ .onOpen
  | .onClose, _ => False

theorem lifecycle_iff_pairwise (callbacks : List Callback) :
    Lifecycle callbacks ↔ callbacks.Pairwise MayPrecede := by
  constructor
  · rintro ⟨opened, closed, frames, rfl⟩
    have hframes : (frames.map Callback.onFrame).Pairwise MayPrecede := by
      rw [List.pairwise_map]
      exact List.pairwise_of_forall fun _ _ => by simp [MayPrecede]
    have hrest : (frames.map Callback.onFrame ++ if closed then [Callback.onClose] else []).Pairwise
        MayPrecede := by
      cases closed <;> simp [List.pairwise_append, hframes, MayPrecede]
    rw [List.append_assoc]
    cases opened with
    | false => exact hrest
    | true =>
      refine List.pairwise_cons.mpr ⟨fun next hnext => ?_, hrest⟩
      have hmem : next ∈ frames.map Callback.onFrame ++ if closed then [.onClose] else [] := hnext
      rcases List.mem_append.mp hmem with hframe | hclose
      · obtain ⟨frame, -, rfl⟩ := List.mem_map.mp hframe
        simp [MayPrecede]
      · cases closed <;> simp_all [MayPrecede]
  · intro h
    induction h with
    | nil => exact ⟨false, false, [], rfl⟩
    | @cons first rest hfirst _ ih =>
      obtain ⟨opened, closed, frames, rfl⟩ := ih
      cases first with
      | onOpen =>
        cases opened with
        | true => exact absurd rfl (hfirst .onOpen (by simp))
        | false => exact ⟨true, closed, frames, by simp⟩
      | onFrame frame =>
        cases opened with
        | true => exact absurd rfl (hfirst .onOpen (by simp))
        | false => exact ⟨false, closed, frame :: frames, by simp⟩
      | onClose =>
        rw [List.eq_nil_iff_forall_not_mem.mpr hfirst]
        exact ⟨false, true, [], rfl⟩

theorem order_concat {callbacks : List Callback} {next : Callback}
    (h : callbacks.Pairwise MayPrecede) (hnot : .onClose ∉ callbacks) (hnext : next ≠ .onOpen) :
    (callbacks ++ [next]).Pairwise MayPrecede := by
  apply List.pairwise_append.mpr
  refine ⟨h, List.pairwise_singleton _ _, ?_⟩
  intro first hfirst last hlast
  rw [List.mem_singleton.mp hlast]
  cases first with
  | onOpen => exact hnext
  | onFrame frame => exact hnext
  | onClose => exact (hnot hfirst).elim

theorem Lifecycle.last {callbacks : List Callback} {next : Callback}
    (h : Lifecycle (callbacks ++ [next])) : .onClose ∉ callbacks := by
  rw [lifecycle_iff_pairwise, List.pairwise_append] at h
  exact fun hclosed => h.2.2 .onClose hclosed next (List.mem_singleton_self _)

structure Kept (s : OwnedConnection) : Prop where
  order : s.callbacks.Pairwise MayPrecede
  finished : .onClose ∈ s.callbacks ↔ s.connection.finished = true
  closed : s.connection.finished = true → s.connection.state ≠ .kOpen
  unbegun : s.begun = false → s.connection.opening = none
  /-- Before the handshake there is nothing but a close. -/
  opening : s.begun = false ∨ s.connection.opening.isSome = true →
    s.connection.reads = 0 ∧ s.connection.state ≠ .kOpen ∧
      ∀ callback ∈ s.callbacks, callback = .onClose

variable {c : WsConnection} {resumption : Option Resumption}

theorem Kept.lawful (h : Kept s) : Lawful s where
  lifecycle := (lifecycle_iff_pairwise _).mpr h.order
  closed hclosed := h.closed (h.finished.mp hclosed)

theorem Kept.withConnection (h : Kept s) (hfinished : c.finished = s.connection.finished)
    (hstate : c.state = .kOpen → s.connection.state = .kOpen)
    (hopening : c.opening.isSome = true → s.connection.opening.isSome = true)
    (hreads : s.connection.state ≠ .kOpen → c.reads ≤ s.connection.reads) :
    Kept { s with connection := c, resumption := resumption } where
  order := h.order
  finished := h.finished.trans (by rw [hfinished])
  closed hf hopen := h.closed (hfinished ▸ hf) (hstate hopen)
  unbegun hbegun := by
    by_contra hne
    have hsome := hopening (Option.isSome_iff_ne_none.mpr hne)
    rw [h.unbegun hbegun] at hsome
    cases hsome
  opening hearly := by
    obtain ⟨hzero, hnot, hclosed⟩ := h.opening (hearly.imp_right hopening)
    exact ⟨Nat.le_zero.mp (hzero ▸ hreads hnot), fun hopen => hnot (hstate hopen), hclosed⟩

theorem Kept.not_closed (h : Kept s) (hrunning : s.connection.finished = false) :
    .onClose ∉ s.callbacks := by
  rw [h.finished, hrunning]
  exact Bool.false_ne_true

theorem Kept.settle (h : Kept s) {outcome : WsConnection × Bool}
    (hsettles : s.connection.Settles outcome) : Kept (s.settle outcome) := by
  obtain ⟨c, told⟩ := outcome
  cases told with
  | false =>
    refine h.withConnection ?_ hsettles.state ?_ ?_
    · rw [hsettles.finished, Bool.or_false]
    · rw [hsettles.opening]
      exact id
    · rw [hsettles.reads]
      exact fun _ => le_rfl
  | true =>
    obtain ⟨hrunning, hclosed⟩ := hsettles.once rfl
    have hfinished : c.finished = true := by
      rw [hsettles.finished, Bool.or_true]
    refine ⟨?_, ?_, fun _ hopen => ?_, hsettles.opening ▸ h.unbegun, fun hearly => ?_⟩
    · exact order_concat h.order (h.not_closed hrunning) (by simp)
    · simp [OwnedConnection.settle, hfinished]
    · rw [OwnedConnection.settle, hclosed] at hopen
      cases hopen
    · have hbefore : s.begun = false ∨ s.connection.opening.isSome = true := by
        rw [OwnedConnection.settle, hsettles.opening] at hearly
        exact hearly
      obtain ⟨hzero, -, hall⟩ := h.opening hbefore
      refine ⟨?_, ?_, ?_⟩
      · exact hsettles.reads.trans hzero
      · rw [OwnedConnection.settle, hclosed]
        intro hopen
        cases hopen
      · exact List.forall_mem_append.mpr ⟨hall, List.forall_mem_singleton.mpr rfl⟩

theorem Kept.settle_from {outcome : WsConnection × Bool} (h : Kept { s with connection := c })
    (hsettles : c.Settles outcome) : Kept (s.settle outcome) := h.settle hsettles

theorem kept_start : Kept {} :=
  ⟨.nil, by simp, fun _ => by simp, fun _ => rfl, fun _ => ⟨rfl, by simp, by simp⟩⟩

theorem Kept.openUrl (h : Kept s) (hbegun : s.begun = false) (url : Bytes) :
    Kept { s.settle (s.connection.openUrl url) with begun := true } := by
  unfold WsConnection.openUrl
  split
  · have hfinish := h.settle (WsConnection.finish_settles _)
    refine ⟨hfinish.order, hfinish.finished, hfinish.closed, ?_, ?_⟩
    · intro hbegun
      cases hbegun
    · intro hearly
      exact hfinish.opening (hearly.imp_left fun hbegun => (Bool.false_ne_true hbegun.symm).elim)
  · obtain ⟨hzero, -, hclosed⟩ := h.opening (Or.inl hbegun)
    refine ⟨h.order, h.finished, ?_, ?_, fun _ => ⟨hzero, ?_, hclosed⟩⟩
    · intro _ hopen
      cases hopen
    · intro hbegun
      cases hbegun
    · intro hopen
      cases hopen

theorem Kept.doRead (h : Kept s) :
    Kept { s with connection := s.connection.doRead, resumption := resumption } := by
  unfold WsConnection.doRead
  split_ifs with hopen
  · exact h.withConnection rfl id id fun _ => le_rfl
  · exact h.withConnection rfl id id fun hnot => (hopen hnot).elim

theorem Kept.afterOpen (h : Kept s) :
    Kept { s with resumption := none, connection := s.connection.afterOpen } := by
  have hread : Kept { s with connection := s.connection.doRead, resumption := none } := h.doRead
  simp only [WsConnection.afterOpen]
  split_ifs
  · exact hread.settle (WsConnection.doWrite_settles _)
  · exact hread

theorem Kept.onStage (h : Kept s) {stage : Stage} (hstage : s.connection.opening = some stage)
    {ok : Bool} (hintime : s.inTime (.stage ok) = true) : Kept (s.onStage stage ok) := by
  have hearly := h.opening (Or.inr (by rw [hstage]; rfl))
  have hdone : Kept { s with connection := { s.connection with opening := none } } :=
    h.withConnection rfl id (fun hsome => (Bool.false_ne_true hsome).elim) fun _ => le_rfl
  unfold OwnedConnection.onStage
  cases ok with
  | false => exact hdone.settle (WsConnection.finish_settles _)
  | true =>
    simp only [Bool.true_eq_false, ↓reduceIte]
    split
    · exact h.withConnection rfl id (fun _ => by rw [hstage]; rfl) fun _ => le_rfl
    · rename_i hnone
      have hrunning : s.connection.finished = false := by
        cases stage <;> simp_all [WsConnection.nextStage, inTime]
      have hnothing : s.callbacks = [] := by
        apply List.eq_nil_iff_forall_not_mem.mpr
        intro callback hmem
        exact h.not_closed hrunning (hearly.2.2 callback hmem ▸ hmem)
      have hbegun : s.begun = true := by
        by_contra hne
        have hopening := h.unbegun (Bool.not_eq_true _ ▸ hne)
        rw [hstage] at hopening
        cases hopening
      refine ⟨?_, ?_, ?_, ?_, ?_⟩
      · simp [hnothing]
      · simp [hnothing, WsConnection.opened, hrunning]
      · simp [WsConnection.opened, hrunning]
      · exact fun _ => rfl
      · simp [WsConnection.opened, hbegun]

theorem Kept.onRead (h : Kept s) (hposted : 0 < s.connection.reads) {message : Option Bytes}
    (hintime : s.inTime (.read message) = true) : Kept (s.onRead message) := by
  unfold OwnedConnection.onRead
  cases message with
  | none =>
    refine Kept.settle_from ?_ (WsConnection.finish_settles _)
    exact h.withConnection rfl id id fun _ => Nat.sub_le _ _
  | some frame =>
    have hrunning : s.connection.finished = false := by simpa [inTime] using hintime
    refine ⟨?_, ?_, h.closed, h.unbegun, fun hearly => ?_⟩
    · exact order_concat h.order (h.not_closed hrunning) (by simp)
    · simpa using h.finished
    · have hzero := (h.opening hearly).1
      omega

theorem kept_step {move : ConnectionMove} (h : Kept s) (hintime : s.inTime move = true)
    (hstep : s.step move = some t) : Kept t := by
  cases stepped_of_step hstep with
  | openUrl url hbegun => exact h.openUrl hbegun url
  | close => exact h.settle (WsConnection.close_settles _)
  | send payload => exact h.settle (WsConnection.send_settles _ payload)
  | startKeepalive payload intervalSeconds =>
    exact h.settle (WsConnection.startKeepalive_settles _ payload intervalSeconds)
  | afterOpen hrest => exact h.afterOpen
  | doRead hrest => exact h.doRead
  | stage ok hidle hopening => exact h.onStage hopening hintime
  | read message hidle hposted => exact h.onRead hposted hintime
  | write ok hidle hposted =>
    refine Kept.settle_from ?_ (WsConnection.onWrite_settles _ ok)
    exact h.withConnection rfl id id fun _ => le_rfl
  | closed hidle hposted =>
    refine Kept.settle_from ?_ (WsConnection.finish_settles _)
    exact h.withConnection rfl id id fun _ => le_rfl
  | keepaliveExpires hidle hexpired => exact h.withConnection rfl id id fun _ => le_rfl
  | keepalive hidle htaken =>
    refine Kept.settle_from ?_ (WsConnection.onKeepalive_settles _)
    exact h.withConnection rfl id id fun _ => le_rfl

theorem inTime_of_lawful {move : ConnectionMove} (h : Kept s) (hstep : s.step move = some t)
    (hlawful : Lawful t) : s.inTime move = true := by
  have hlate : ∀ callback, t.callbacks = s.callbacks ++ [callback] →
      s.connection.finished = false := by
    intro callback hcallbacks
    have hlast := Lifecycle.last (hcallbacks ▸ hlawful.lifecycle)
    rw [h.finished] at hlast
    exact Bool.not_eq_true _ ▸ hlast
  cases stepped_of_step hstep with
  | stage ok hidle hopening =>
    cases ok with
    | false => rfl
    | true =>
      simp only [inTime, decide_eq_true_eq]
      intro hat
      rw [hopening] at hat
      cases hat
      exact hlate .onOpen rfl
  | read message hidle hposted =>
    cases message with
    | none => rfl
    | some frame =>
      simp only [inTime, decide_eq_true_eq]
      exact hlate (.onFrame frame) rfl
  | openUrl url hbegun => rfl
  | close => rfl
  | send payload => rfl
  | startKeepalive payload intervalSeconds => rfl
  | afterOpen hrest => rfl
  | doRead hrest => rfl
  | write ok hidle hposted => rfl
  | closed hidle hposted => rfl
  | keepaliveExpires hidle hexpired => rfl
  | keepalive hidle htaken => rfl

/-- The callbacks follow the lifecycle exactly when nothing succeeds too late. -/
theorem lawful_iff_inTime (moves : List ConnectionMove) :
    (∀ done, done <+: moves → Lawful (run done)) ↔
      Machine.Along step (fun s move => s.inTime move = true) {} moves :=
  Machine.forall_prefix_iff_along (fun _ _ _ h hintime hstep => kept_step h hintime hstep)
    (fun _ h => h.lawful) (fun _ _ _ h hstep hlawful => inTime_of_lawful h hstep hlawful)
    kept_start moves

theorem late_handshake_opens : ¬ Lawful (run [.openUrl (utf8 "wss://stream.binance.com:9443/ws"),
    .stage true, .stage true, .stage true, .close, .stage true]) :=
  fun h => h.closed (by decide +kernel) (by decide +kernel)

end OwnedConnection
end CexAggregator
