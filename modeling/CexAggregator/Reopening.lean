import CexAggregator.RateWindow
import CexAggregator.Recovery

/-!
# From a new session to a live venue

A session that has just begun opens when the steps of its connection succeed. The snapshot
that the venue sends then, over the socket or as the answer to a request, makes it live.
-/

namespace CexAggregator
open Program

/-- Unprompted moves, and the steps of a connection that opens. -/
def VenueMove.Opens : VenueMove → Bool
  | .handle _ (.stage _ ok) => ok
  | move => move.Unprompted

theorem VenueMove.opens_of_unprompted {move : VenueMove} (h : move.Unprompted = true) :
    move.Opens = true := by
  match move with
  | .act => rfl
  | .pop => exact h
  | .stop => exact h
  | .handle _ event =>
    cases event with
    | stage id ok => cases h
    | _ => exact h

theorem RateBudget.exists_tryConsume {b : RateBudget} (h : 0 < b.maxEvents) (now : Int) :
    ∃ later, now ≤ later ∧ (b.tryConsume later).1 = true := by
  obtain ⟨later, hnow, hlate⟩ := Machine.exists_later now (b.events.map (· + b.window + 1))
  have hkept : (b.events.dropWhile fun t => later - t > b.window) = [] := by
    refine List.dropWhile_eq_nil_iff.mpr fun t ht => decide_eq_true ?_
    have hafter := hlate _ (List.mem_map_of_mem ht)
    omega
  have hroom : ¬ b.maxEvents ≤ (([] : List Int).length : Int) := not_le.mpr h
  refine ⟨later, hnow, ?_⟩
  simp only [tryConsume, hkept, if_neg hroom]

namespace WsConnection

theorem doWrite_state (c : WsConnection) : c.doWrite.state = c.state := by
  rw [doWrite]
  split_ifs <;> rfl

theorem send_state (c : WsConnection) (payload : String) : (c.send payload).state = c.state := by
  rw [send]
  split_ifs
  · exact doWrite_state _
  · rfl

theorem startKeepalive_state (c : WsConnection) (payload : String) (intervalSeconds : ℕ) :
    (c.startKeepalive payload intervalSeconds).state = c.state := by
  rw [startKeepalive]
  split_ifs
  · rfl
  · rw [armKeepalive]
    split_ifs <;> rfl

theorem afterOpen_reads {c : WsConnection} (h : c.state = .kOpen) : 0 < c.afterOpen.reads := by
  have hread : 0 < c.doRead.reads := by
    rw [doRead, if_neg (not_not.mpr h)]
    exact Nat.succ_pos _
  rw [afterOpen]
  split_ifs
  · exact (doWrite_settles c.doRead).reads ▸ hread
  · exact hread

end WsConnection

/-- What `Connect` and `HttpGet` ask of the URLs. -/
structure VenueProtocol.Addressed {σ : Type} (p : VenueProtocol σ) : Prop where
  stream : ((parseUrl (utf8 p.streamUrl)).filter WsConnection.accepts).isSome = true
  snapshot : p.needsRestSnapshot = true →
    ((parseUrl (utf8 p.restSnapshotUrl)).filter Runner.httpAccepts).isSome = true

namespace Runner
variable {σ : Type} {p : VenueProtocol σ} {options : Options} {venueIndex : ℕ}
  {reading : Reading} {r : Runner σ}

def Limited (options : Options) (r : Runner σ) : Prop :=
  r.resyncBudget.maxEvents = options.maxResyncsPerMinute

def unchecked : Contract Note Query Unit := ⟨fun t _ => t, fun _ _ => True, fun _ _ => True⟩

theorem limited_rules (hunsynced : ∀ s, p.synced (p.reset s) = false) (reading : Reading) :
    Rules p venueIndex reading unchecked (fun _ => True)
      (fun _ r => Limited options r ∧ (r.requests ≠ [] → p.needsRestSnapshot = true))
      (fun _ r => Limited options r ∧ (r.requests ≠ [] → p.needsRestSnapshot = true)) where
  unsynced := hunsynced
  free := trivial
  aside h hsame := by
    rw [Limited, hsame.resyncBudget, hsame.requests]
    exact h
  handling _ h _ := ⟨trivial, h⟩
  stopping h _ _ := ⟨trivial, h⟩
  disconnected h _ := ⟨trivial, h⟩
  stored h _ _ _ := ⟨trivial, h⟩
  scheduled h _ _ := ⟨trivial, h⟩
  charged h := ⟨(Windowed.tryConsume_config _ _).1.trans h.1, h.2⟩
  requested _ h hrest _ := ⟨(Windowed.tryConsume_config _ _).1.trans h.1, fun _ => hrest⟩
  restarted _ _ h _ _ := ⟨trivial, fun _ => ⟨trivial, h⟩⟩
  called _ _ _ h _ _ _ := ⟨trivial, h⟩
  fatal _ h _ _ := ⟨trivial, fun _ => ⟨trivial, h⟩⟩
  pushed h _ _ accepted _ := ⟨trivial, by cases accepted <;> exact h⟩
  unpushed h _ _ _ _ := h
  live h _ _ _ := ⟨trivial, h⟩
  idle h _ := h

theorem subscribe_state (c : WsConnection) : (subscribe p c).state = c.state := by
  have hsent : ∀ frames : List String, (frames.foldl WsConnection.send c).state = c.state := by
    intro frames
    induction frames using List.reverseRecOn with
    | nil => rfl
    | append_singleton frames frame ih =>
      rw [List.foldl_append, List.foldl_cons, List.foldl_nil, WsConnection.send_state, ih]
  rw [subscribe, WsConnection.startKeepalive_state, hsent]

variable (p) in
structure Silent (r : Runner σ) : Prop where
  running : r.halted = false
  fatal : r.stats.fatal = false
  protocol : ∃ state, r.protocol = p.reset state
  budget : 0 < r.resyncBudget.maxEvents

theorem Silent.setConnection (h : Silent p r) (id : ℕ) (c : WsConnection) :
    Silent p (r.setConnection id c) :=
  ⟨h.running, h.fatal, h.protocol, h.budget⟩

variable (p) in
def AtStage (stage : Stage) (r : Runner σ) : Prop :=
  Silent p r ∧ r.current.opening = some stage

variable (p) in
/-- The connection is open and read, and a snapshot that has to be asked for is asked for. -/
structure Ready (r : Runner σ) : Prop extends Silent p r where
  reads : 0 < r.current.reads
  requests : p.needsRestSnapshot = true → r.requests ≠ []

theorem Begun.atStage {g : ℕ} (h : Begun p g r) (haddressed : p.Addressed)
    (hrunning : r.halted = false) (hbudget : 0 < r.resyncBudget.maxEvents) :
    AtStage p .resolve r := by
  refine ⟨⟨hrunning, h.fatal, h.protocol, hbudget⟩, ?_⟩
  obtain ⟨url, hurl⟩ := Option.isSome_iff_exists.mp haddressed.stream
  rw [h.connection, WsConnection.openUrl, hurl]

theorem onStage_advances {stage next : Stage} (h : AtStage p stage r)
    (hnext : r.current.nextStage stage = some next) :
    Ends (AtStage p next) (onStage p reading r r.generation stage true) := by
  have hidle : WsConnection.nextStage { r.current with opening := none } stage = some next := by
    rw [← hnext]
    cases stage <;> rfl
  have hstage : onStage p reading r r.generation stage true =
      pure (r.setConnection r.generation { r.current with opening := some next }) := by
    simp only [onStage, Bool.true_eq_false, ↓reduceIte]
    split
    · rename_i next' hnext'
      rw [← Option.some.inj (hidle.symm.trans hnext')]
      rfl
    · rename_i hnone
      cases hidle.symm.trans hnone
  rw [hstage]
  exact ⟨h.1.setConnection _ _, by rw [current_setConnection_self]⟩

theorem fetchSnapshot_requests (haddressed : p.Addressed) (hrest : p.needsRestSnapshot = true)
    (h : Silent p r) (hroom : (r.resyncBudget.tryConsume reading.now).1 = true) :
    Ends (fun r' => (Silent p r' ∧ r'.requests ≠ []) ∧ r'.generation = r.generation ∧
      r'.current = r.current) (fetchSnapshot p reading r) := by
  obtain ⟨url, hurl⟩ := Option.isSome_iff_exists.mp (haddressed.snapshot hrest)
  have hbudget : 0 < (r.resyncBudget.tryConsume reading.now).2.maxEvents := by
    rw [(Windowed.tryConsume_config _ _).1]
    exact h.budget
  rw [fetchSnapshot]
  apply ends_stopping
  simp only [Bool.false_eq_true, ↓reduceIte, hroom, Bool.true_eq_false, hurl]
  refine ⟨⟨⟨h.running, h.fatal, h.protocol, hbudget⟩, ?_⟩, rfl, rfl⟩
  exact List.append_ne_nil_of_right_ne_nil _ (List.cons_ne_nil _ _)

theorem onOpen_ends (haddressed : p.Addressed) (h : Silent p r) (hopen : r.current.state = .kOpen)
    (hroom : (r.resyncBudget.tryConsume reading.now).1 = true) :
    Ends (fun r' => (Silent p r' ∧ (p.needsRestSnapshot = true → r'.requests ≠ [])) ∧
      r'.generation = r.generation ∧ r'.current.state = .kOpen) (onOpen p reading r) := by
  have hsubscribed : (r.setConnection r.generation
      (subscribe p (r.connections r.generation))).current.state = .kOpen := by
    rw [current_setConnection_self, subscribe_state]
    exact hopen
  apply ends_tell
  simp only
  split_ifs with hrest
  · refine (fetchSnapshot_requests haddressed hrest (h.setConnection _ _) hroom).mono ?_
    rintro r' ⟨⟨hsilent, hrequests⟩, hgeneration, hcurrent⟩
    exact ⟨⟨hsilent, fun _ => hrequests⟩, hgeneration, hcurrent ▸ hsubscribed⟩
  · exact ⟨⟨h.setConnection _ _, fun hneeded => (hrest hneeded).elim⟩, rfl, hsubscribed⟩

theorem onStage_opens (haddressed : p.Addressed) (h : AtStage p .websocketHandshake r)
    (hroom : (r.resyncBudget.tryConsume reading.now).1 = true) :
    Ends (Ready p) (onStage p reading r r.generation .websocketHandshake true) := by
  simp only [onStage, Bool.true_eq_false, ↓reduceIte, WsConnection.nextStage]
  refine (onOpen_ends haddressed (h.1.setConnection _ _) ?_ hroom).bind ?_
  · rw [current_setConnection_self]
    rfl
  · rintro opened ⟨⟨hsilent, hrequests⟩, hgeneration, hopen⟩
    have hid : r.generation = opened.generation := hgeneration.symm
    rw [hid]
    refine ⟨hsilent.setConnection _ _, ?_, hrequests⟩
    rw [current_setConnection_self]
    exact WsConnection.afterOpen_reads hopen

end Runner

namespace VenueSystem
variable {σ : Type} {p : VenueProtocol σ} {options : Options} {venueIndex capacity : ℕ}
  {s : VenueSystem σ} {r : Runner σ} {now : Int}

theorem canReach_of_stage {stage : Stage} {Goal Q : Runner σ → Prop} (hrest : Resting s r)
    (h : Runner.AtStage p stage r) (reading : Reading) (hnow : now ≤ reading.now)
    (hends : Runner.Ends Q (Runner.onStage p reading r r.generation stage true))
    (hnext : ∀ t r', Resting t r' → Q r' →
      CanReach p options venueIndex capacity VenueMove.Opens Goal reading.now t) :
    CanReach p options venueIndex capacity VenueMove.Opens Goal now s := by
  have hhandle : r.handle p options venueIndex (reading, .stage r.generation true) =
      some (Runner.onBehalf (.connection r.generation)
        (Runner.onStage p reading r r.generation stage true)) := by
    rw [handle_of_running h.1.running, Runner.dispatch, show (r.connections r.generation).opening =
      some stage from h.2]
    rfl
  exact CanReach.of_handle rfl hrest hnow rfl (by simp) hhandle (Runner.ends_onBehalf hends) hnext

section Opening
variable (haddressed : p.Addressed)
include haddressed

theorem ready_of_websocketHandshake (hrest : Resting s r)
    (h : Runner.AtStage p .websocketHandshake r) :
    CanReach p options venueIndex capacity VenueMove.Opens (Runner.Ready p) now s := by
  -- The handshake completes when the budget has room for the snapshot request that follows it.
  obtain ⟨later, hlater, hroom⟩ := RateBudget.exists_tryConsume h.1.budget now
  have hends : Runner.Ends (Runner.Ready p)
      (Runner.onStage p { now := later } r r.generation .websocketHandshake true) :=
    Runner.onStage_opens haddressed h hroom
  exact canReach_of_stage hrest h { now := later } hlater hends fun _ _ => CanReach.of_rest

theorem ready_of_tlsHandshake (hrest : Resting s r) (h : Runner.AtStage p .tlsHandshake r) :
    CanReach p options venueIndex capacity VenueMove.Opens (Runner.Ready p) now s :=
  canReach_of_stage hrest h { now := now } le_rfl (Runner.onStage_advances h rfl) fun _ _ =>
    ready_of_websocketHandshake haddressed

theorem ready_of_connect (hrest : Resting s r) (h : Runner.AtStage p .connect r) :
    CanReach p options venueIndex capacity VenueMove.Opens (Runner.Ready p) now s := by
  by_cases hsecure : r.current.secure = true
  · refine canReach_of_stage hrest h { now := now } le_rfl (Runner.onStage_advances h ?_) fun _ _ =>
      ready_of_tlsHandshake haddressed
    rw [WsConnection.nextStage, if_pos hsecure]
  · refine canReach_of_stage hrest h { now := now } le_rfl (Runner.onStage_advances h ?_) fun _ _ =>
      ready_of_websocketHandshake haddressed
    rw [WsConnection.nextStage, if_neg hsecure]

theorem ready_of_resolve (hrest : Resting s r) (h : Runner.AtStage p .resolve r) :
    CanReach p options venueIndex capacity VenueMove.Opens (Runner.Ready p) now s :=
  canReach_of_stage hrest h { now := now } le_rfl (Runner.onStage_advances h rfl) fun _ _ =>
    ready_of_connect haddressed

end Opening

theorem limited_of_consistent (hunsynced : ∀ state, p.synced (p.reset state) = false)
    {initial : σ} (h : Consistent p options venueIndex (Runner.create initial options) s)
    (hdone : s.program = .done r) : Runner.Limited options r := by
  have hstart : Runner.Limited options (Runner.create initial options) ∧
      ((Runner.create initial options).requests ≠ [] → p.needsRestSnapshot = true) :=
    ⟨rfl, fun hne => (hne rfl).elim⟩
  have hmeets := (h.runs.meets (c := Runner.unchecked) (t := ())
    (Q := fun _ r => Runner.Limited options r ∧ (r.requests ≠ [] → p.needsRestSnapshot = true))
    hstart (fun _ r event program hr hhandle => ?_)
    (honored_of_forall (fun _ _ => trivial) _ _)).2
  · rw [hdone] at hmeets
    exact hmeets.1
  · obtain ⟨requests, hanswered, hsome⟩ := r.answered_eq event.2
    refine (Runner.limited_rules hunsynced event.1).handle ?_ hr.2 (Or.inl trivial) hhandle
    rw [hanswered]
    exact ⟨hr.1, fun hne => hr.2 (hsome hne)⟩

theorem canGetReady (haddressed : p.Addressed)
    (hunsynced : ∀ state, p.synced (p.reset state) = false)
    (hmax : 0 < options.maxResyncsPerMinute) {initial : σ} {moves : List VenueMove}
    (hs : s = (create initial options).run p options venueIndex capacity moves)
    (hrest : s.program = .done r) (hrunning : s.stopping = false)
    (hfatal : r.stats.fatal = false) (now : Int) :
    CanReach p options venueIndex capacity VenueMove.Opens (Runner.Ready p) now s := by
  have hwakeful : Wakeful s := by
    rw [hs]
    exact (wakeful_create initial options).run moves
  obtain ⟨-, hrenews⟩ := hwakeful.canRenew p options venueIndex capacity hrest hrunning hfatal
  obtain ⟨more, hmore, hforward, r', hrest', hbegun⟩ := hrenews now
  have hwakeful' : Wakeful (s.run p options venueIndex capacity more) := hwakeful.run more
  obtain ⟨-, hends⟩ := hwakeful' hrest'.running
  rw [hrest'.program] at hends
  have hconsistent : Consistent p options venueIndex (Runner.create initial options)
      (s.run p options venueIndex capacity more) := by
    rw [hs]
    exact (consistent_run p options venueIndex capacity initial moves).run more
  have hlimited := limited_of_consistent hunsynced hconsistent hrest'.program
  have hstage : Runner.AtStage p .resolve r' :=
    hbegun.atStage haddressed hends.running (hlimited ▸ hmax)
  obtain ⟨later, hlater, hlast⟩ :=
    Machine.exists_later now (more.flatMap VenueMove.readings)
  have hopens : CanReach p options venueIndex capacity VenueMove.Opens (Runner.Ready p) later
      (s.run p options venueIndex capacity more) := ready_of_resolve haddressed hrest' hstage
  obtain ⟨opening, hopening, hforward', r'', hready⟩ := hopens
  refine ⟨more ++ opening, ?_, ?_, r'', ?_⟩
  · refine List.forall_mem_append.mpr ⟨fun move hmove => ?_, hopening⟩
    exact VenueMove.opens_of_unprompted (hmore move hmove)
  · rw [List.flatMap_append]
    exact hforward.append hlater hlast hforward'
  · rw [run_append]
    exact hready

theorem run_emit {note : Note} {next : VenueProgram (Runner σ)} (h : s.program = .emit note next)
    (k : ℕ) : s.run p options venueIndex capacity (List.replicate (k + 1) .act) =
      VenueSystem.run p options venueIndex capacity
        { s with
          program := next
          trace := s.trace ++ [.emitted note]
          state := stateAfter s.state (.emitted note) } (List.replicate k .act) := by
  apply run_act
  rw [VenueSystem.act, h]

theorem run_push {batch : FeedBatch} {next : Bool → VenueProgram (Runner σ)}
    (h : s.program = .ask (.push batch) next) (hroom : s.ring.length < capacity) (k : ℕ) :
    s.run p options venueIndex capacity (List.replicate (k + 1) .act) =
      VenueSystem.run p options venueIndex capacity
        { s with
          program := next true
          trace := s.trace ++ [.asked (.push batch) true]
          ring := s.ring ++ [batch] } (List.replicate k .act) := by
  apply run_act
  rw [VenueSystem.act, h]
  exact if_pos hroom

theorem run_stopping {next : Bool → VenueProgram (Runner σ)}
    (h : s.program = .ask .stopping next) (hrunning : s.stopping = false) (k : ℕ) :
    s.run p options venueIndex capacity (List.replicate (k + 1) .act) =
      VenueSystem.run p options venueIndex capacity
        { s with
          program := next false
          trace := s.trace ++ [.asked .stopping false] } (List.replicate k .act) := by
  apply run_act
  rw [VenueSystem.act, h, hrunning]

end VenueSystem

/-- What an adapter makes of the snapshot, which is a frame or the answer to a request. -/
def VenueProtocol.seed {σ : Type} (p : VenueProtocol σ) (state : σ) (bytes : Bytes) (now : Int) :
    Called σ :=
  if p.needsRestSnapshot then p.onRestSnapshot state bytes now [] else p.onFrame state bytes now []

structure VenueProtocol.Seeds {σ : Type} (p : VenueProtocol σ) (bytes : Bytes) (now : Int)
    (updates : List FeedUpdate) : Prop where
  verdict : ∀ state, (p.seed (p.reset state) bytes now).verdict = .kOk
  synced : ∀ state, p.synced (p.seed (p.reset state) bytes now).protocol = true
  out : ∀ state, (p.seed (p.reset state) bytes now).out = updates
  nonempty : updates ≠ []

namespace Runner
variable {σ : Type} {p : VenueProtocol σ} {r : Runner σ} {bytes : Bytes} {reading : Reading}
  {updates : List FeedUpdate}

variable (p) in
def delivery (r : Runner σ) (bytes : Bytes) : Event :=
  if p.needsRestSnapshot then .response (r.requests.length - 1) (some bytes)
  else .read r.generation (some bytes)

/-- What is left of a handler once the adapter has taken the snapshot. -/
def HandsOn (rest : Bool) (batch : FeedBatch) (program : VenueProgram (Runner σ)) : Prop :=
  ∃ next, program = .emit (.called rest .kOk true) (.ask (.push batch) next) ∧
    ∃ r', next true = .emit (.stored .kLive) (.done r')

theorem onRead_seeds (hseeds : p.Seeds bytes reading.now updates)
    (hsocket : p.needsRestSnapshot = false) (h : Silent p r) (venueIndex id : ℕ) :
    HandsOn false ⟨venueIndex, updates⟩ (onRead p venueIndex reading r id (some bytes)) := by
  obtain ⟨state, hprotocol⟩ := h.protocol
  have hverdict := hseeds.verdict state
  have hsynced := hseeds.synced state
  have hout := hseeds.out state
  rw [VenueProtocol.seed, if_neg (by simp [hsocket]), ← hprotocol] at hverdict hsynced hout
  simp only [onRead, onFrame, setConnection, hverdict, hsynced, hout, hseeds.nonempty, ↓reduceIte,
    publish, goLive]
  refine ⟨_, rfl, ?_⟩
  simp only [Program.bind, ↓reduceIte, pure, hsynced]
  exact ⟨_, rfl⟩

theorem onSnapshot_seeds (hseeds : p.Seeds bytes reading.now updates)
    (hrest : p.needsRestSnapshot = true) (h : Silent p r) (venueIndex : ℕ) :
    ∃ next, onSnapshot p venueIndex reading r (some bytes) = .ask .stopping next ∧
      HandsOn true ⟨venueIndex, updates⟩ (next false) := by
  obtain ⟨state, hprotocol⟩ := h.protocol
  have hverdict := hseeds.verdict state
  have hsynced := hseeds.synced state
  have hout := hseeds.out state
  rw [VenueProtocol.seed, if_pos hrest, ← hprotocol] at hverdict hsynced hout
  simp only [onSnapshot, hverdict, hsynced, hout, hseeds.nonempty, ↓reduceIte, publish, goLive,
    ne_eq, not_true_eq_false]
  refine ⟨_, rfl, _, rfl, ?_⟩
  simp only [Program.bind, ↓reduceIte, pure, hsynced]
  exact ⟨_, rfl⟩

end Runner

namespace VenueSystem
variable {σ : Type} {p : VenueProtocol σ} {options : Options} {venueIndex capacity : ℕ}
  {s : VenueSystem σ} {r : Runner σ}

structure Live (ring : List FeedBatch) (s : VenueSystem σ) : Prop where
  rest : ∃ r, s.program = .done r
  state : s.state = .kLive
  ring : s.ring = ring

theorem live_of_handsOn {rest : Bool} {batch : FeedBatch} {program : VenueProgram (Runner σ)}
    {ring : List FeedBatch} (h : Runner.HandsOn rest batch program) (hroom : ring.length < capacity)
    (hprogram : s.program = program) (hring : s.ring = ring) :
    Live (ring ++ [batch]) (s.run p options venueIndex capacity (List.replicate 3 .act)) := by
  obtain ⟨next, rfl, r', hnext⟩ := h
  subst hring
  rw [run_emit hprogram, run_push rfl, run_emit hnext]
  · exact ⟨⟨r', rfl⟩, rfl, rfl⟩
  · exact hroom

variable (capacity) in
theorem step_of_handle (hrest : Resting s r) {reading : Reading} {event : Event}
    (hstop : event ≠ .stop) {program : VenueProgram (Runner σ)}
    (hhandle : r.handle p options venueIndex (reading, event) = some program) :
    s.step p options venueIndex capacity (.handle reading event) =
      some { s with program := program } := by
  simp [VenueSystem.step, hrest.program, hstop, hhandle]

variable (options venueIndex) in
theorem live_of_seed {bytes : Bytes} {reading : Reading} {updates : List FeedUpdate}
    (hseeds : p.Seeds bytes reading.now updates) (hrest : Resting s r)
    (hready : Runner.Ready p r) (hroom : s.ring.length < capacity) :
    ∃ k, Live (s.ring ++ [⟨venueIndex, updates⟩]) (s.run p options venueIndex capacity
      (.handle reading (r.delivery p bytes) :: List.replicate k .act)) := by
  have hsilent := hready.toSilent
  by_cases hneeded : p.needsRestSnapshot = true
  · have hpending : r.requests.length - 1 < r.requests.length :=
      Nat.sub_lt (List.length_pos_iff.mpr (hready.requests hneeded)) Nat.one_pos
    have hdelivery : r.delivery p bytes = .response (r.requests.length - 1) (some bytes) :=
      if_pos hneeded
    obtain ⟨next, hasks, hhandsOn⟩ := Runner.onSnapshot_seeds hseeds hneeded
      (r := { r with requests := r.requests.eraseIdx (r.requests.length - 1) })
      ⟨hsilent.running, hsilent.fatal, hsilent.protocol, hsilent.budget⟩ venueIndex
    have hhandle : r.handle p options venueIndex (reading, r.delivery p bytes) =
        some (.emit (.handling (.request r.requests[r.requests.length - 1]))
          (.ask .stopping next)) := by
      rw [handle_of_running hsilent.running, hdelivery, ← hasks, Runner.dispatch,
        List.getElem?_eq_getElem hpending]
      rfl
    have hstep := step_of_handle capacity hrest (by simp [hdelivery]) hhandle
    refine ⟨5, ?_⟩
    rw [run_cons_of_step hstep, run_emit rfl, run_stopping rfl]
    · exact live_of_handsOn hhandsOn hroom rfl rfl
    · exact hrest.running
  · have hdelivery : r.delivery p bytes = .read r.generation (some bytes) := if_neg hneeded
    have hhandsOn := Runner.onRead_seeds hseeds (Bool.not_eq_true _ ▸ hneeded) hsilent venueIndex
      r.generation
    have hhandle : r.handle p options venueIndex (reading, r.delivery p bytes) =
        some (.emit (.handling (.connection r.generation))
          (Runner.onRead p venueIndex reading r r.generation (some bytes))) := by
      rw [handle_of_running hsilent.running, hdelivery]
      exact if_pos hready.reads
    have hstep := step_of_handle capacity hrest (by simp [hdelivery]) hhandle
    refine ⟨4, ?_⟩
    rw [run_cons_of_step hstep, run_emit rfl]
    exact live_of_handsOn hhandsOn hroom rfl rfl

end VenueSystem

end CexAggregator
