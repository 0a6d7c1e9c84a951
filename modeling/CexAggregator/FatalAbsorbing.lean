import CexAggregator.BybitSound
import CexAggregator.Machine
import CexAggregator.RunnerRules
import CexAggregator.Sequencing
import CexAggregator.VenueSystem

/-!
# What follows a fatal verdict

The flag is tested where a connection is begun, closed or timed, not where one opens or a
frame comes in, and a close waits for the write in flight. So the verdict lasts for as long
as nothing the old connections still bring is acted on.
-/

namespace CexAggregator
open Program

/-- After a fatal verdict no act begins a connection or offers a batch, and each leaves the
status disconnected. -/
def StaysDown (trace : List (Act Note Query)) : Prop :=
  ∀ done act rest, trace = done ++ act :: rest →
    (∃ synced, .emitted (.called false .kFatal synced) ∈ done) →
    (∀ leftover, act ≠ .emitted (.began .kConnecting leftover)) ∧ pushedBatch act = none ∧
      (done ++ [act]).foldl stateAfter .kDisconnected = .kDisconnected

structure Demise where
  fatal : Bool := false
  state : VenueState := .kDisconnected

namespace Demise
variable {d : Demise} {acts : List (Act Note Query)}

def track (d : Demise) (act : Act Note Query) : Demise where
  fatal :=
    match act with
    | .emitted (.called false .kFatal _) => true
    | _ => d.fatal
  state := stateAfter d.state act

def Holds (d : Demise) (act : Act Note Query) : Prop :=
  d.fatal = true → pushedBatch act = none ∧ stateAfter d.state act = .kDisconnected

theorem foldl_state (acts : List (Act Note Query)) (d : Demise) :
    (acts.foldl track d).state = acts.foldl stateAfter d.state := by
  induction acts generalizing d with
  | nil => rfl
  | cons act acts ih => exact ih _

theorem track_fatal (h : d.fatal = true) (act : Act Note Query) : (d.track act).fatal = true := by
  unfold track
  split
  · rfl
  · exact h

theorem foldl_fatal (acts : List (Act Note Query)) (h : d.fatal = true) :
    (acts.foldl track d).fatal = true := by
  induction acts generalizing d with
  | nil => exact h
  | cons act acts ih => exact ih (track_fatal h act)

theorem fatal_of_mem {synced : Bool} (h : .emitted (.called false .kFatal synced) ∈ acts) :
    (acts.foldl track d).fatal = true := by
  obtain ⟨before, after, rfl⟩ := List.append_of_mem h
  rw [List.foldl_append]
  exact foldl_fatal after rfl

theorem staysDown (h : Honored track Holds {} acts) : StaysDown acts := by
  rintro done act rest rfl ⟨synced, hmem⟩
  obtain ⟨hpushed, hstate⟩ := (honored_append.mp h).2.1 (fatal_of_mem hmem)
  rw [foldl_state] at hstate
  refine ⟨?_, hpushed, ?_⟩
  · rintro leftover rfl
    cases hstate
  · rw [List.foldl_append]
    exact hstate

end Demise

def down : Contract Note Query Demise where
  track := Demise.track
  rely _ _ := True
  guarantee := Demise.Holds

section Rules
variable {σ : Type} {p : VenueProtocol σ} {venueIndex : ℕ}

structure Down (p : VenueProtocol σ) (d : Demise) (r : Runner σ) : Prop where
  fatal : d.fatal = r.stats.fatal
  state : d.fatal = true → d.state = .kDisconnected
  streams : d.fatal = true → p.needsRestSnapshot = false
  needed : r.requests ≠ [] → p.needsRestSnapshot = true

theorem Down.alive {d : Demise} {r : Runner σ} {P : Prop} (h : Down p d r)
    (hfree : r.stats.fatal = false) (hfatal : d.fatal = true) : P := by
  rw [h.fatal, hfree] at hfatal
  exact (Bool.false_ne_true hfatal).elim

theorem Down.marked {d : Demise} {r : Runner σ} {rest : Bool} {verdict : FrameVerdict}
    (h : Down p d r) (synced : Bool) (hmark : rest = true ∨ verdict ≠ .kFatal) :
    Down p (d.track (.emitted (.called rest verdict synced))) r := by
  have hfatal : (d.track (.emitted (.called rest verdict synced))).fatal = d.fatal := by
    unfold Demise.track
    split
    · rename_i heq
      cases heq
      simp at hmark
    · rfl
  exact ⟨hfatal.trans h.fatal, fun hyes => h.state (hfatal ▸ hyes),
    fun hyes => h.streams (hfatal ▸ hyes), h.needed⟩

theorem down_rules (hunsynced : ∀ s, p.synced (p.reset s) = false)
    (hstreams : ∀ s frame now, (p.onFrame s frame now []).verdict = .kFatal →
      p.needsRestSnapshot = false) (reading : Reading) :
    Runner.Rules p venueIndex reading down (· = false) (Down p) (Down p) where
  unsynced := hunsynced
  free := rfl
  aside h hsame :=
    ⟨h.fatal.trans hsame.fatal.symm, h.state, h.streams, hsame.requests ▸ h.needed⟩
  handling _ h _ := ⟨fun hfatal => ⟨rfl, h.state hfatal⟩, h⟩
  stopping h _ _ := ⟨fun hfatal => ⟨rfl, h.state hfatal⟩, h⟩
  disconnected h _ := ⟨fun _ => ⟨rfl, rfl⟩, h.fatal, fun _ => rfl, h.streams, h.needed⟩
  stored h hfree _ _ := ⟨h.alive hfree, h.fatal, h.alive hfree, h.streams, h.needed⟩
  scheduled h _ _ :=
    ⟨fun hfatal => ⟨rfl, h.state hfatal⟩, h.fatal, h.state, h.streams, h.needed⟩
  charged h := ⟨h.fatal, h.state, h.streams, h.needed⟩
  requested _ h hrest _ := ⟨h.fatal, h.state, h.streams, fun _ => hrest⟩
  restarted _ _ h hfree _ :=
    ⟨h.alive hfree, fun _ => ⟨h.alive hfree, h.fatal, h.alive hfree, h.streams, h.needed⟩⟩
  called _ _ s h _ hmark _ := by
    have hmarked := h.marked (p.synced s) hmark
    exact ⟨fun hfatal => ⟨rfl, h.state hfatal⟩, hmarked.fatal, hmarked.state, hmarked.streams,
      hmarked.needed⟩
  fatal frame h hverdict _ :=
    ⟨fun hfatal => ⟨rfl, h.state hfatal⟩, fun _ => ⟨fun _ => ⟨rfl, rfl⟩, rfl, fun _ => rfl,
      fun _ => hstreams _ _ _ hverdict, h.needed⟩⟩
  pushed h hfree _ accepted _ := by
    refine ⟨h.alive hfree, ?_⟩
    cases accepted <;> exact ⟨h.fatal, h.state, h.streams, h.needed⟩
  unpushed h _ _ _ _ := h
  live h hfree _ _ := ⟨h.alive hfree, h.fatal, h.alive hfree, h.streams, h.needed⟩
  idle h _ := h

end Rules

theorem Adapter.streams_of_fatal (parse : JsonParser) (adapter : Adapter) (s : adapter.State)
    (frame : Bytes) (now : Int)
    (h : ((adapter.protocol parse).onFrame s frame now []).verdict = .kFatal) :
    (adapter.protocol parse).needsRestSnapshot = false := by
  cases adapter with
  | binance config => exact ((Binance.onFrame_sequenced none frame).2.1 h).elim
  | okx config => rfl
  | bybit config => rfl

section System
variable {σ : Type} {p : VenueProtocol σ} {options : Options} {venueIndex capacity : ℕ}

def Absorbed (p : VenueProtocol σ) (s : VenueSystem σ) : VenueMove → Prop
  | .handle reading event =>
    match s.program with
    | .done r => r.stats.fatal = true → Runner.Harmless p r reading event
    | _ => True
  | _ => True

instance (p : VenueProtocol σ) (r : Runner σ) (reading : Reading) :
    (event : Event) → Decidable (Runner.Harmless p r reading event)
  | .stage id ok => inferInstanceAs (Decidable (∀ stage ∈ (r.connections id).opening, ok = true →
      ({ r.connections id with opening := none } : WsConnection).nextStage stage ≠ none))
  | .read _ (some frame) =>
    inferInstanceAs (Decidable (let called := p.onFrame r.protocol frame reading.now []
      called.verdict = .kFatal ∨ (called.verdict = .kOk ∧ called.out = [])))
  | .read _ none | .start | .stop | .reconnectExpires | .watchdogExpires | .keepaliveExpires _
  | .reconnect | .watchdog | .keepalive _ | .write _ _ | .closed _ | .response _ _ =>
    .isTrue trivial

instance (p : VenueProtocol σ) (s : VenueSystem σ) :
    (move : VenueMove) → Decidable (Absorbed p s move)
  | .handle reading event =>
    match hprogram : s.program with
    | .done r => decidable_of_iff (r.stats.fatal = true → Runner.Harmless p r reading event)
        (by simp [Absorbed, hprogram])
    | .emit _ _ => .isTrue (by simp [Absorbed, hprogram])
    | .ask _ _ => .isTrue (by simp [Absorbed, hprogram])
  | .act | .pop | .stop => .isTrue trivial

structure Demised (p : VenueProtocol σ) (s : VenueSystem σ) : Prop where
  kept : Honored down.track down.guarantee {} s.trace
  state : s.state = (s.trace.foldl down.track {}).state
  program : Meets down (Down p) s.program (s.trace.foldl down.track {})

theorem Demised.act {s next : VenueSystem σ} {act : Act Note Query} (h : Demised p s)
    (hacted : VenueSystem.Acted s act next) : Demised p next := by
  obtain ⟨hholds, hnext⟩ := h.program.advance hacted.program trivial
  refine ⟨?_, ?_, ?_⟩
  · rw [hacted.trace]
    exact honored_append.mpr ⟨h.kept, hholds, trivial⟩
  · rw [hacted.state, hacted.trace, List.foldl_append, h.state]
    rfl
  · rw [hacted.trace, List.foldl_append]
    exact hnext

theorem Down.handle {d : Demise} {r : Runner σ} {reading : Reading} {event : Event}
    {program : VenueProgram (Runner σ)} (h : Down p d r)
    (hunsynced : ∀ s, p.synced (p.reset s) = false)
    (hstreams : ∀ s frame now, (p.onFrame s frame now []).verdict = .kFatal →
      p.needsRestSnapshot = false)
    (habsorbed : r.stats.fatal = true → Runner.Harmless p r reading event)
    (hhandle : r.handle p options venueIndex (reading, event) = some program) :
    Meets down (Down p) program d := by
  obtain ⟨requests, hanswered, hsome⟩ := r.answered_eq event
  refine (down_rules hunsynced hstreams reading).handle ?_ h.needed ?_ hhandle
  · rw [hanswered]
    exact ⟨h.fatal, h.state, h.streams, fun hne => h.needed (hsome hne)⟩
  · by_cases hfatal : r.stats.fatal = true
    · have hnone : r.requests = [] := by
        by_contra hne
        have hstream := h.streams (h.fatal.trans hfatal)
        rw [h.needed hne] at hstream
        cases hstream
      exact Or.inr ⟨hnone, habsorbed hfatal⟩
    · exact Or.inl (Bool.not_eq_true _ ▸ hfatal)

theorem Demised.step (hunsynced : ∀ s, p.synced (p.reset s) = false)
    (hstreams : ∀ s frame now, (p.onFrame s frame now []).verdict = .kFatal →
      p.needsRestSnapshot = false) (s : VenueSystem σ) (move : VenueMove) (next : VenueSystem σ)
    (h : Demised p s) (habsorbed : Absorbed p s move)
    (hstep : s.step p options venueIndex capacity move = some next) : Demised p next := by
  cases VenueSystem.stepped_of_step hstep with
  | handle hdone hhandle =>
    have hprogram := h.program
    rw [hdone] at hprogram
    simp only [Absorbed, hdone] at habsorbed
    exact ⟨h.kept, h.state, hprogram.handle hunsynced hstreams habsorbed hhandle⟩
  | act hacted => exact h.act hacted
  | pop hring => exact ⟨h.kept, h.state, h.program⟩
  | stop => exact ⟨h.kept, h.state, h.program⟩

end System

/-- A fatal verdict is final as long as nothing the old connections bring is acted on. -/
theorem fatal_absorbing (parse : JsonParser) (adapter : Adapter) (options : Options)
    (venueIndex capacity : ℕ) (moves : List VenueMove)
    (habsorbed : Machine.Along
      (VenueSystem.step (adapter.protocol parse) options venueIndex capacity)
      (Absorbed (adapter.protocol parse)) (.create adapter.initial options) moves) :
    let s := (VenueSystem.create adapter.initial options).run (adapter.protocol parse) options
      venueIndex capacity moves
    StaysDown s.trace ∧
      ∀ r, s.program = .done r → r.stats.fatal = true → s.state = .kDisconnected := by
  intro s
  have hstart : Demised (adapter.protocol parse) (.create adapter.initial options) :=
    ⟨trivial, rfl, rfl, fun _ => rfl, fun h => (Bool.false_ne_true h).elim, fun h => (h rfl).elim⟩
  have h : Demised (adapter.protocol parse) s := Machine.along_rule
    (Demised.step (adapter.sequenced parse).synced_reset (adapter.streams_of_fatal parse)) hstart
    habsorbed
  refine ⟨Demise.staysDown h.kept, fun r hr hfatal => ?_⟩
  have hprogram := h.program
  rw [hr] at hprogram
  rw [h.state]
  exact hprogram.state (hprogram.fatal.trans hfatal)

section Runs

def okxRejectionText : String :=
  "\x7b\"event\":\"error\",\"code\":\"60012\",\"msg\":\"Invalid instId\"\x7d"

def rejectionParser : JsonParser := parserOf
  [(okxRejectionText, .object [("event", .string "error"), ("msg", .string "Invalid instId")]),
    (okxSnapshotText,
      .object [("action", .string "snapshot"), ("data", .array [okxSnapshotEntry])]),
    (okxUpdateText, .object [("action", .string "update"),
      ("data", .array [okxUpdateEntry, okxQuietEntry])])]

/-- The rejection comes in while the keepalive is being written. -/
def okxRejected : List VenueMove :=
  VenueSystem.opened ++ VenueSystem.handled (.write 1 true) ++
    VenueSystem.handled (.read 1 (some (utf8 okxSnapshotText))) ++
    VenueSystem.handled (.keepaliveExpires 1) ++ VenueSystem.handled (.keepalive 1) ++
    VenueSystem.handled (.read 1 (some (utf8 okxRejectionText)))

theorem fatal_absorbing_okx :
    let moves := okxRejected ++ VenueSystem.handled (.read 1 (some (utf8 "pong"))) ++
      VenueSystem.handled (.write 1 true) ++ VenueSystem.handled (.closed 1)
    let s := (VenueSystem.create (Adapter.initial (.okx {})) {}).run
      (Adapter.protocol rejectionParser (.okx {})) {} 0 4 moves
    StaysDown s.trace ∧ s.state = .kDisconnected :=
  ⟨(fatal_absorbing rejectionParser (.okx {}) {} 0 4 _ (by decide +kernel)).1, by decide +kernel⟩

theorem not_fatal_absorbing :
    let s := (VenueSystem.create {} {}).run (Okx.protocol rejectionParser {}) {} 0 4
      (okxRejected ++ VenueSystem.handled (.read 1 (some (utf8 okxUpdateText))))
    ¬ StaysDown s.trace ∧ s.state = .kLive ∧ s.ring.length = 2 := by
  intro s
  refine ⟨fun h => ?_, by decide +kernel, by decide +kernel⟩
  have hsplit : s.trace = s.trace.take 22 ++ .emitted (.stored .kLive) :: [] := by decide +kernel
  obtain ⟨-, -, hstate⟩ := h _ _ _ hsplit ⟨true, by decide +kernel⟩
  rw [List.foldl_append] at hstate
  cases hstate

end Runs

end CexAggregator
