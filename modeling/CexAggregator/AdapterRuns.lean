import CexAggregator.BookSafety
import CexAggregator.EngineSteps
import CexAggregator.RunnerRules

/-!
# From one call of an adapter to every run

A venue's thread hands its adapter one message after the other and offers to the ring what
the adapter emits. A property that every allowed message keeps of the adapter's state, and
that its updates then have, is one of all batches a run puts into the ring.
-/

namespace CexAggregator
open Program

def messageOf (reading : Reading) : Event → Option ProtocolCall
  | .read _ (some frame) => some (.frame frame reading.now)
  | .response _ (some body) => some (.restSnapshot body reading.now)
  | _ => none

/-- Messages come in any order, and a reset may fall between any two of them. -/
structure CallsKeep {σ : Type*} (p : VenueProtocol σ) (Allowed : ProtocolCall → Prop)
    (Holds : σ → Prop) (Emits : FeedUpdate → Prop) : Prop where
  call : ∀ s c, Holds s → Allowed c → Holds (p.call s c).protocol
  reset : ∀ s, Holds s → Holds (p.reset s)
  emits : ∀ s c, Holds s → Allowed c → (p.call s c).verdict = .kOk →
    ∀ u ∈ (p.call s c).out, Emits u

def Offers (Emits : FeedUpdate → Prop) (act : Act Note Query) : Prop :=
  ∀ batch ∈ pushedBatch act, ∀ u ∈ batch.updates, Emits u

theorem offers_of_quiet {Emits : FeedUpdate → Prop} {act : Act Note Query} (h : QuietAct act) :
    Offers Emits act := by
  intro batch hbatch
  cases act with
  | emitted note => cases hbatch
  | asked q answer =>
    cases q with
    | push batch => exact h.elim
    | stopping => cases hbatch

theorem accepted_of_offers {Emits : FeedUpdate → Prop} {act : Act Note Query}
    (h : Offers Emits act) : ∀ u ∈ acceptedUpdates [act], Emits u := by
  intro u hu
  obtain ⟨batch, hbatch, hmem⟩ := List.mem_flatMap.mp hu
  obtain ⟨act', hact', haccepted⟩ := List.mem_filterMap.mp hbatch
  cases List.mem_singleton.mp hact'
  apply h batch _ u hmem
  unfold acceptedBatch at haccepted
  split at haccepted
  · cases haccepted
    rfl
  · cases haccepted

namespace Runner
variable {σ : Type} {p : VenueProtocol σ} {options : Options} {venueIndex : ℕ}
  {reading : Reading} {Allowed : ProtocolCall → Prop} {Holds : σ → Prop}
  {Emits : FeedUpdate → Prop} {r : Runner σ}

variable (Holds Emits) in
def Feeds (program : VenueProgram (Runner σ)) : Prop :=
  Within (Offers Emits) (fun r => Holds r.protocol) program

theorem feeds_of_quiet {R : Runner σ → Prop} {program : VenueProgram (Runner σ)}
    (h : Within QuietAct R program) (hR : ∀ r, R r → Holds r.protocol) :
    Feeds Holds Emits program := by
  apply (h.meets (I := fun _ : Unit => True) _ trivial).mono
  · intro t r hr
    exact hR r hr.2
  · intro t act _ hact _
    exact ⟨offers_of_quiet hact, trivial⟩

theorem feeds_pure (h : Holds r.protocol) : Feeds Holds Emits (pure r) := h

theorem feeds_tell {note : Note} {next : Unit → VenueProgram (Runner σ)}
    (h : Feeds Holds Emits (next ())) : Feeds Holds Emits (tell note >>= next) := by
  apply within_bind.mpr
  exact within_tell.mpr ⟨fun batch hbatch => (by cases hbatch), h⟩

theorem feeds_stopping {next : Bool → VenueProgram (Runner σ)}
    (h : ∀ stopping, Feeds Holds Emits (next stopping)) :
    Feeds Holds Emits (query .stopping >>= next) := by
  apply within_bind.mpr
  apply within_query.mpr
  intro stopping
  exact ⟨fun batch hbatch => (by cases hbatch), h stopping⟩

theorem feeds_bind {program : VenueProgram (Runner σ)}
    {next : Runner σ → VenueProgram (Runner σ)} (h : Feeds Holds Emits program)
    (hnext : ∀ r, Holds r.protocol → Feeds Holds Emits (next r)) :
    Feeds Holds Emits (program >>= next) :=
  within_bind.mpr (h.mono hnext)

theorem settle_feeds (h : Holds r.protocol) (id : ℕ) (outcome : WsConnection × Bool) :
    Feeds Holds Emits (settle reading r id outcome) := by
  apply feeds_of_quiet (settle_within r id outcome)
  intro r' hkept
  rw [hkept.protocol]
  exact h

theorem closeConnection_feeds (h : Holds r.protocol) :
    Feeds Holds Emits (closeConnection reading r) := by
  apply feeds_of_quiet (closeConnection_within r)
  intro r' hrewired
  obtain ⟨_, -, hkept⟩ := hrewired
  rw [hkept.protocol]
  exact h

theorem snapshotFailed_feeds (h : Holds r.protocol) :
    Feeds Holds Emits (snapshotFailed reading r) := by
  apply feeds_of_quiet (snapshotFailed_within r)
  intro r' hkept
  rw [hkept.protocol]
  exact h

theorem fetchSnapshot_feeds (h : Holds r.protocol) :
    Feeds Holds Emits (fetchSnapshot p reading r) := by
  apply feeds_of_quiet (fetchSnapshot_within r)
  intro r' hrequested
  obtain ⟨_, -, hkept⟩ := hrequested
  rw [hkept.protocol]
  exact h

theorem armWatchdog_feeds (h : Holds r.protocol) : Feeds Holds Emits (armWatchdog r) := by
  apply feeds_of_quiet (armWatchdog_within r)
  intro r' hkept
  rw [hkept.protocol]
  exact h

theorem onWatchdog_feeds (h : Holds r.protocol) :
    Feeds Holds Emits (onWatchdog options reading r) := by
  apply feeds_of_quiet (onWatchdog_within r)
  intro r' hrewired
  obtain ⟨_, -, hkept⟩ := hrewired
  rw [hkept.protocol]
  exact h

theorem onStop_feeds (h : Holds r.protocol) : Feeds Holds Emits (onStop reading r) :=
  feeds_bind (closeConnection_feeds h) fun _ hclosed => feeds_pure hclosed

section Adapter
variable (hkeep : CallsKeep p Allowed Holds Emits)
include hkeep

theorem resync_feeds (h : Holds r.protocol) : Feeds Holds Emits (resync p reading r) := by
  apply feeds_tell
  apply feeds_tell
  have hreset := hkeep.reset r.protocol h
  split_ifs
  · exact fetchSnapshot_feeds hreset
  · exact closeConnection_feeds hreset

theorem publish_feeds (h : Holds r.protocol) {updates : List FeedUpdate}
    (hupdates : ∀ u ∈ updates, Emits u) :
    Feeds Holds Emits (publish p venueIndex reading r updates) := by
  rw [publish]
  split_ifs
  · exact h
  · apply within_bind.mpr
    apply within_query.mpr
    intro accepted
    constructor
    · intro batch hbatch
      cases hbatch
      exact hupdates
    · split_ifs
      · exact h
      · apply resync_feeds hkeep
        exact h

omit hkeep in
theorem goLive_feeds (h : Holds r.protocol) : Feeds Holds Emits (goLive p r) := by
  rw [goLive]
  split_ifs
  · apply feeds_tell
    exact h
  · exact h

theorem onSnapshot_feeds (h : Holds r.protocol) {answer : Option Bytes}
    (hallowed : ∀ body ∈ answer, Allowed (.restSnapshot body reading.now)) :
    Feeds Holds Emits (onSnapshot p venueIndex reading r answer) := by
  cases answer with
  | none => exact snapshotFailed_feeds h
  | some body =>
    have hcall := hallowed body rfl
    have hafter := hkeep.call r.protocol _ h hcall
    have hout := hkeep.emits r.protocol _ h hcall
    apply feeds_stopping
    intro stopping
    split_ifs
    · exact h
    · apply feeds_tell
      split_ifs with hverdict
      · exact resync_feeds hkeep hafter
      · apply feeds_bind (publish_feeds hkeep hafter (hout (not_not.mp hverdict)))
        intro r' hpublished
        exact goLive_feeds hpublished

theorem onFrame_feeds (h : Holds r.protocol) {frame : Bytes}
    (hallowed : Allowed (.frame frame reading.now)) :
    Feeds Holds Emits (onFrame p venueIndex reading r frame) := by
  have hafter := hkeep.call r.protocol _ h hallowed
  have hout := hkeep.emits r.protocol _ h hallowed
  apply feeds_tell
  cases hverdict : (p.onFrame r.protocol frame reading.now []).verdict with
  | kNeedsResync => exact resync_feeds hkeep hafter
  | kParseError => exact resync_feeds hkeep hafter
  | kFatal =>
    apply feeds_tell
    exact closeConnection_feeds hafter
  | kOk =>
    simp only
    split_ifs
    · exact hafter
    · apply feeds_bind (publish_feeds hkeep hafter (hout hverdict))
      intro r' hpublished
      exact goLive_feeds hpublished

omit hkeep in
theorem onOpen_feeds (h : Holds r.protocol) : Feeds Holds Emits (onOpen p reading r) := by
  apply feeds_tell
  split_ifs
  · exact fetchSnapshot_feeds h
  · exact h

theorem connect_feeds (h : Holds r.protocol) : Feeds Holds Emits (connect p reading r) := by
  apply feeds_stopping
  intro stopping
  split_ifs
  · exact h
  · apply feeds_tell
    apply feeds_tell
    apply feeds_bind (settle_feeds (hkeep.reset r.protocol h) _ _)
    intro r' hopened
    exact armWatchdog_feeds hopened

theorem onReconnect_feeds (h : Holds r.protocol) :
    Feeds Holds Emits (onReconnect p reading r) := by
  apply feeds_stopping
  intro stopping
  split_ifs
  · exact h
  · exact connect_feeds hkeep h

omit hkeep in
theorem onStage_feeds (h : Holds r.protocol) (id : ℕ) (stage : Stage) (ok : Bool) :
    Feeds Holds Emits (onStage p reading r id stage ok) := by
  simp only [onStage]
  split_ifs
  · exact settle_feeds h id _
  · split
    · exact h
    · exact feeds_bind (onOpen_feeds h) fun _ hopened => feeds_pure hopened

theorem onRead_feeds (h : Holds r.protocol) (id : ℕ) {message : Option Bytes}
    (hallowed : ∀ frame ∈ message, Allowed (.frame frame reading.now)) :
    Feeds Holds Emits (onRead p venueIndex reading r id message) := by
  cases message with
  | none => exact settle_feeds h id _
  | some frame =>
    simp only [onRead]
    apply feeds_bind
    · apply onFrame_feeds hkeep _ (hallowed frame rfl)
      exact h
    · intro r' hreceived
      exact hreceived

theorem handle_feeds (h : Holds r.protocol) {event : Event}
    (hallowed : ∀ c ∈ messageOf reading event, Allowed c) {program : VenueProgram (Runner σ)}
    (hhandle : r.handle p options venueIndex (reading, event) = some program) :
    Feeds Holds Emits program := by
  cases handled_of_handle hhandle with
  | start hposted => exact feeds_tell (connect_feeds hkeep h)
  | stop => exact feeds_tell (onStop_feeds h)
  | reconnectExpires hexpired => exact h
  | watchdogExpires hexpired => exact h
  | keepaliveExpires hexpired => exact h
  | reconnect htaken => exact feeds_tell (onReconnect_feeds hkeep h)
  | watchdog htaken => exact feeds_tell (onWatchdog_feeds h)
  | keepalive htaken => exact feeds_tell (feeds_pure h)
  | stage ok hopening => exact feeds_tell (onStage_feeds h _ _ ok)
  | read message hposted =>
    apply feeds_tell
    apply onRead_feeds hkeep h
    intro frame hframe
    cases hframe
    exact hallowed _ rfl
  | write ok hposted => exact feeds_tell (settle_feeds h _ _)
  | closed hposted => exact feeds_tell (settle_feeds h _ _)
  | response answer hpending =>
    apply feeds_tell
    apply onSnapshot_feeds hkeep
    · exact h
    · intro body hbody
      cases hbody
      exact hallowed _ rfl

end Adapter

end Runner

def VenueMove.message : VenueMove → Option ProtocolCall
  | .handle reading event => messageOf reading event
  | _ => none

def AggregatorMove.message {n : ℕ} : AggregatorMove n → Option (Fin n × ProtocolCall)
  | .venue v move => move.message.map fun c => (v, c)
  | .engine _ => none

def AggregatorMove.Admitted {n : ℕ} (Allowed : Fin n → ProtocolCall → Prop)
    (move : AggregatorMove n) : Prop :=
  ∀ m ∈ move.message, Allowed m.1 m.2

theorem admitted_of_messages {n : ℕ} {Allowed : Fin n → ProtocolCall → Prop}
    {moves : List (AggregatorMove n)}
    (h : ∀ m ∈ moves.filterMap AggregatorMove.message, Allowed m.1 m.2) :
    ∀ move ∈ moves, move.Admitted Allowed := by
  intro move hmove m hm
  exact h m (List.mem_filterMap.mpr ⟨move, hmove, hm⟩)

namespace VenueSystem
variable {σ : Type} {p : VenueProtocol σ} {options : Options} {venueIndex capacity : ℕ}
  {Allowed : ProtocolCall → Prop} {Holds : σ → Prop} {Emits : FeedUpdate → Prop}
  {s next : VenueSystem σ}

/-- The handler the thread is in goes on soundly, and what the ring took was sound. -/
structure Fed (Holds : σ → Prop) (Emits : FeedUpdate → Prop) (s : VenueSystem σ) : Prop where
  program : Runner.Feeds Holds Emits s.program
  accepted : ∀ u ∈ acceptedUpdates s.trace, Emits u

theorem fed_create {initial : σ} (h : Holds initial) (options : Options) :
    Fed Holds Emits (create initial options) :=
  ⟨h, fun _ hu => (List.not_mem_nil hu).elim⟩

theorem Fed.act (h : Fed Holds Emits s) {act : Act Note Query} (hacted : Acted s act next) :
    Fed Holds Emits next := by
  obtain ⟨hoffers, hrest⟩ := h.program.advance hacted.program trivial
  refine ⟨hrest, ?_⟩
  rw [hacted.trace, acceptedUpdates_append]
  exact List.forall_mem_append.mpr ⟨h.accepted, accepted_of_offers hoffers⟩

theorem Fed.step (hkeep : CallsKeep p Allowed Holds Emits) (h : Fed Holds Emits s)
    {move : VenueMove} (hmove : ∀ c ∈ move.message, Allowed c)
    (hstep : s.step p options venueIndex capacity move = some next) : Fed Holds Emits next := by
  cases stepped_of_step hstep with
  | handle hdone hhandle =>
    have hholds := h.program
    rw [hdone] at hholds
    exact ⟨Runner.handle_feeds hkeep hholds hmove hhandle, h.accepted⟩
  | act hacted => exact h.act hacted
  | pop hring => exact ⟨h.program, h.accepted⟩
  | stop => exact ⟨h.program, h.accepted⟩

end VenueSystem

namespace AggregatorSystem
variable {n : ℕ} {σ : Fin n → Type} {p : (v : Fin n) → VenueProtocol (σ v)} {options : Options}
  {capacity : ℕ} {config : EngineConfig} {Allowed : Fin n → ProtocolCall → Prop}
  {Holds : (v : Fin n) → σ v → Prop} {Emits : Fin n → FeedUpdate → Prop}
  {s next : AggregatorSystem σ}

def Fed (Holds : (v : Fin n) → σ v → Prop) (Emits : Fin n → FeedUpdate → Prop)
    (s : AggregatorSystem σ) : Prop :=
  ∀ v, (s.venues v).Fed (Holds v) (Emits v)

theorem Fed.update (h : Fed Holds Emits s) {v : Fin n} {after : VenueSystem (σ v)}
    (hafter : after.Fed (Holds v) (Emits v)) (w : Fin n) :
    (Function.update s.venues v after w).Fed (Holds w) (Emits w) := by
  by_cases hw : w = v
  · subst hw
    simpa using hafter
  · simpa [hw] using h w

theorem Fed.step (hkeep : ∀ v, CallsKeep (p v) (Allowed v) (Holds v) (Emits v))
    (h : Fed Holds Emits s) {move : AggregatorMove n} (hmove : move.Admitted Allowed)
    (hstep : Stepped p options capacity config s move next) : Fed Holds Emits next := by
  cases hstep with
  | refused move => exact h
  | venue hpop hstep =>
    refine h.update ((h _).step (hkeep _) (fun c hc => ?_) hstep)
    exact hmove (_, c) (Option.mem_map_of_mem _ hc)
  | turn hphase hend => exact h
  | pop hphase hbudget hring => exact h.update ⟨(h _).program, (h _).accepted⟩
  | select hphase hvenue hdue => exact h
  | sleep hphase hvenue hearly => exact h
  | read hphase => exact h
  | publish hphase hnext => exact h

end AggregatorSystem

section Adapters
variable {n : ℕ} {parse : JsonParser} {adapters : Fin n → Adapter} {options : Options}
  {capacity : ℕ} {config : EngineConfig} {Allowed : Fin n → ProtocolCall → Prop}
  {Holds : (v : Fin n) → (adapters v).State → Prop} {Emits : Fin n → FeedUpdate → Prop}

/-- Every book is made of sound updates that follow each other, and the clocks are theirs. -/
structure Sourced (adapters : Fin n → Adapter) (Emits : Fin n → FeedUpdate → Prop) (e : Engine n)
    (updates : Fin n → List FeedUpdate) : Prop where
  books : ∀ v, e.books v = applyUpdates {} (updates v)
  chained : ∀ v, Chained (adapters v).Successor none (updates v)
  emitted : ∀ v, ∀ u ∈ updates v, Emits v u
  clocks : e.Clocks updates

variable (parse adapters options config Holds Emits) in
structure FedRun (s : AggregatorSystem fun v => (adapters v).State) : Prop where
  sound : s.Sound (fun v => (adapters v).protocol parse) options
    fun v => .create (adapters v).initial options
  ledger : s.Ledger (fun v => (adapters v).protocol parse) config
  fed : s.Fed Holds Emits

theorem fedRun_aggregate
    (hkeep : ∀ v, CallsKeep ((adapters v).protocol parse) (Allowed v) (Holds v) (Emits v))
    (hinitial : ∀ v, Holds v (adapters v).initial) {moves : List (AggregatorMove n)}
    (hmoves : ∀ move ∈ moves, move.Admitted Allowed) :
    FedRun parse adapters options config Holds Emits
      (aggregate parse adapters options capacity config moves) := by
  refine AggregatorSystem.run_rule (fun s move h hmove => ?_) ?_ hmoves
  · have hstep := AggregatorSystem.stepped (fun v => (adapters v).protocol parse) options capacity
      config s move
    have hindex := fun v => venueIndex_of_consistent parse adapters options (h.sound.venues v)
    exact ⟨h.sound.step hindex move, h.ledger.step h.sound hindex hstep,
      h.fed.step hkeep hmove hstep⟩
  · exact ⟨AggregatorSystem.sound_create _, AggregatorSystem.ledger_create _,
      fun v => VenueSystem.fed_create (hinitial v) options⟩

theorem FedRun.accepted {s : AggregatorSystem fun v => (adapters v).State}
    (h : FedRun parse adapters options config Holds Emits s) {v : Fin n} {us : List FeedUpdate}
    (hus : us <+: updatesOf (s.venues v).popped) :
    Chained (adapters v).Successor none us ∧ ∀ u ∈ us, Emits v u := by
  have hhonored := honored_of_consistent parse adapters options (h.sound.venues v)
  have haccepted : us <+: acceptedUpdates (s.venues v).trace := by
    apply hus.trans
    rw [acceptedUpdates, (h.sound.venues v).ring, List.flatMap_append]
    exact List.prefix_append _ _
  constructor
  · obtain ⟨rest, hrest⟩ := haccepted
    have hchained := chained_of_honored hhonored
    rw [← hrest] at hchained
    exact (chained_append.mp hchained).1
  · intro u hu
    exact (h.fed v).accepted u (haccepted.subset hu)

theorem FedRun.sourced {s : AggregatorSystem fun v => (adapters v).State}
    (h : FedRun parse adapters options config Holds Emits s) :
    Sourced adapters Emits s.engine s.popped :=
  ⟨h.sound.books, fun _ => (h.accepted List.prefix_rfl).1, fun _ => (h.accepted List.prefix_rfl).2,
    h.ledger.clocks⟩

theorem FedRun.published {s : AggregatorSystem fun v => (adapters v).State}
    (h : FedRun parse adapters options config Holds Emits s) :
    ∀ pub ∈ s.publications,
      Sourced adapters Emits pub.engine fun v => updatesOf (pub.reads v).popped := by
  intro pub hpub
  have hbehind : ∀ v, updatesOf (pub.reads v).popped <+: updatesOf (s.venues v).popped := by
    intro v
    obtain ⟨rest, hrest⟩ := h.ledger.behind pub hpub v
    rw [← hrest, updatesOf, updatesOf, List.flatMap_append]
    exact List.prefix_append _ _
  exact ⟨(h.sound.published pub hpub).1, fun v => (h.accepted (hbehind v)).1,
    fun v => (h.accepted (hbehind v)).2, h.ledger.stamped pub hpub⟩

end Adapters

end CexAggregator
