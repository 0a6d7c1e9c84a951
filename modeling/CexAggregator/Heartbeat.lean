import CexAggregator.PublicationLedger

/-!
# Silence is reported

A pass that finds nothing new still publishes when a heartbeat is due. So at the end of every
pass the newest publication is less than a heartbeat old and has seen all that was applied, and
a venue that has been silent for the staleness timeout and a heartbeat is named stale in it.
-/

namespace CexAggregator

namespace EnginePhase
variable {n : ℕ}

def clock (phase : EnginePhase n) (reading : EngineReading) : Int :=
  match phase with
  | .draining _ _ _ => reading.now
  | .selecting started _ _ => started.now

end EnginePhase

namespace AggregatorSystem
variable {n : ℕ} {σ : Fin n → Type} {p : (v : Fin n) → VenueProtocol (σ v)} {options : Options}
  {capacity : ℕ} {config : EngineConfig} {start : (v : Fin n) → Runner (σ v)}
  {s next : AggregatorSystem σ}

def newestPopped (s : AggregatorSystem σ) (v : Fin n) : List FeedBatch :=
  (s.publications.getLast?.map fun pub => (pub.reads v).popped).getD []

def newestClock (s : AggregatorSystem σ) : Int :=
  (s.publications.getLast?.map fun pub => pub.reading.now).getD 0

/-- Nothing is held back: a pass with nothing new has nothing that is not published. The pass
reads its clock before `Publish` does. -/
structure Prompt (s : AggregatorSystem σ) : Prop where
  readings : ∀ pub ∈ s.publications, pub.reading.now ≤ pub.reading.nowSteady
  started : ∀ started next reads, s.phase = .selecting started next reads →
    started.now ≤ started.nowSteady
  lastPublish : s.engine.lastPublish = s.newestClock
  carried : ∀ venue drained, s.phase = .draining venue drained false → ∀ v,
    (s.venues v).popped = s.newestPopped v

theorem prompt_create (initial : (v : Fin n) → σ v) :
    Prompt (create options initial : AggregatorSystem σ) where
  readings _ hpub := (List.not_mem_nil hpub).elim
  started _ _ _ hphase := by cases hphase
  lastPublish := rfl
  carried _ _ _ _ := rfl

theorem Prompt.publish (h : Prompt s) {started : EngineReading}
    (hstarted : started.now ≤ started.nowSteady)
    {reads : Fin n → StateRead} (hreads : ∀ v, (reads v).popped = (s.venues v).popped)
    {engine : Engine n} (hengine : engine.lastPublish = started.now) :
    Prompt { s with
      engine := engine
      phase := .draining 0 0 false
      publications := s.publications ++ [⟨s.engine, started, reads⟩] } where
  readings := List.forall_mem_append.mpr ⟨h.readings, List.forall_mem_singleton.mpr hstarted⟩
  started _ _ _ hphase := by cases hphase
  lastPublish := by simp [newestClock, hengine]
  carried _ _ _ v := by simp [newestPopped, hreads v]

theorem Prompt.step (h : Prompt s) (hsound : Sound p options start s) {move : AggregatorMove n}
    (hmove : ∀ reading, move = .engine reading → reading.now ≤ reading.nowSteady)
    (hstep : Stepped p options capacity config s move next) : Prompt next := by
  obtain ⟨hreadings, hstarted, hlastPublish, hcarried⟩ := h
  cases hstep with
  | refused move => exact ⟨hreadings, hstarted, hlastPublish, hcarried⟩
  | @venue v _ after hpop hstep =>
    refine ⟨hreadings, hstarted, hlastPublish, fun venue drained hphase w => ?_⟩
    have hpopped : (Function.update s.venues v after w).popped = (s.venues w).popped := by
      by_cases hw : w = v
      · subst hw
        rw [Function.update_self, VenueSystem.step_popped hpop hstep]
      · rw [Function.update_of_ne hw]
    exact hpopped.trans (hcarried venue drained hphase w)
  | turn hphase hend =>
    refine ⟨hreadings, fun _ _ _ hnext => (by cases hnext), hlastPublish, fun _ _ hnext => ?_⟩
    cases hnext
    exact hcarried _ _ hphase
  | pop hphase hbudget hring =>
    refine ⟨hreadings, fun _ _ _ hnext => (by cases hnext), ?_, fun _ _ hnext => (by cases hnext)⟩
    exact (s.engine.apply_published _).2.2.trans hlastPublish
  | select hphase hvenue hdue =>
    refine ⟨hreadings, fun _ _ _ hnext => ?_, hlastPublish, fun _ _ hnext => (by cases hnext)⟩
    cases hnext
    exact hmove _ rfl
  | sleep hphase hvenue hearly =>
    refine ⟨hreadings, fun _ _ _ hnext => (by cases hnext), hlastPublish, fun _ _ _ => ?_⟩
    exact hcarried _ _ hphase
  | read hphase =>
    refine ⟨hreadings, fun _ _ _ hnext => ?_, hlastPublish, fun _ _ hnext => (by cases hnext)⟩
    cases hnext
    exact hstarted _ _ _ hphase
  | publish hphase hnext =>
    have hreads := hsound.reads
    rw [hphase] at hreads
    exact Prompt.publish ⟨hreadings, hstarted, hlastPublish, hcarried⟩ (hstarted _ _ _ hphase)
      (fun v => (hreads v (v.isLt.trans_le hnext)).2) rfl

theorem clock_of_ended {reading : EngineReading}
    (hstep : Stepped p options capacity config s (.engine reading) next)
    (hended : next.phase.betweenPasses = true) (hstarted : s.phase.betweenPasses = false)
    (hheartbeat : 0 < config.heartbeatInterval) :
    s.phase.clock reading - next.engine.lastPublish < config.heartbeatInterval := by
  cases hstep with
  | refused move => simp [hstarted] at hended
  | turn hphase hend => cases hended
  | pop hphase hbudget hring => simp [EnginePhase.betweenPasses] at hended
  | select hphase hvenue hdue => cases hended
  | sleep hphase hvenue hearly =>
    rw [hphase]
    exact hearly
  | read hphase => cases hended
  | publish hphase hnext =>
    rw [hphase]
    simpa [EnginePhase.clock] using hheartbeat

end AggregatorSystem

section Adapters
variable {n : ℕ} (parse : JsonParser) (adapters : Fin n → Adapter) (options : Options)
  (capacity : ℕ) (config : EngineConfig)

theorem aggregate_snoc (moves : List (AggregatorMove n)) (move : AggregatorMove n) :
    aggregate parse adapters options capacity config (moves ++ [move]) =
      (aggregate parse adapters options capacity config moves).step
        (fun v => (adapters v).protocol parse) options capacity config move :=
  List.foldl_concat _ _ _ _

theorem prompt_aggregate {moves : List (AggregatorMove n)}
    (hmoves : ∀ reading, .engine reading ∈ moves → reading.now ≤ reading.nowSteady) :
    (aggregate parse adapters options capacity config moves).Prompt := by
  induction moves using List.reverseRecOn with
  | nil => exact AggregatorSystem.prompt_create _
  | append_singleton moves move ih =>
    have hbefore := ih fun reading hreading => hmoves reading (List.mem_append_left _ hreading)
    rw [aggregate_snoc]
    refine hbefore.step (sound_aggregate parse adapters options capacity config moves) ?_
      (AggregatorSystem.stepped _ _ _ _ _ move)
    rintro reading rfl
    exact hmoves reading (List.mem_append_right _ List.mem_cons_self)

/-- At the end of a pass, at time `now`: -/
structure Reported (names : Fin n → String) (now : Int)
    (s : AggregatorSystem fun v => (adapters v).State) : Prop where
  recent : config.heartbeatInterval ≤ now → ∃ pub, s.publications.getLast? = some pub ∧
    now - pub.reading.now < config.heartbeatInterval
  complete : ∀ pub ∈ s.publications.getLast?, ∀ v, (pub.reads v).popped = (s.venues v).popped
  silent : ∀ pub ∈ s.publications.getLast?, ∀ v,
    config.stalenessTimeout + config.heartbeatInterval ≤ now - receivedAt (s.popped v) →
      v ∉ pub.venues config ∧ names v ∈ (pub.book config names).stale

theorem stale_of_not_selected (names : Fin n → String) {pub : Publication n} {v : Fin n}
    (hv : v ∉ pub.venues config) : names v ∈ (pub.book config names).stale := by
  refine List.mem_map_of_mem (List.mem_filter.mpr ⟨List.mem_finRange v, ?_⟩)
  rw [decide_eq_true_eq]
  exact fun hcontributes => hv (List.mem_filter.mpr ⟨List.mem_finRange v, hcontributes⟩)

/-- Whatever the venues do: whenever a pass ends, the newest state is less than a heartbeat old,
has all that the engine has applied, and names every venue stale from which nothing has come for
the staleness timeout and a heartbeat. -/
theorem silence_reported (moves : List (AggregatorMove n)) (reading : EngineReading)
    (hclocks : ∀ r, .engine r ∈ moves ++ [.engine reading] → r.now ≤ r.nowSteady)
    (hheartbeat : 0 < config.heartbeatInterval) :
    let s := aggregate parse adapters options capacity config moves
    let t := aggregate parse adapters options capacity config (moves ++ [.engine reading])
    s.phase.betweenPasses = false → t.phase.betweenPasses = true →
      Reported adapters config (fun v => ((adapters v).protocol parse).name)
        (s.phase.clock reading) t := by
  intro s t hstarted hended
  have hprompt : t.Prompt := prompt_aggregate parse adapters options capacity config hclocks
  have hrun := fedRun_admissible parse adapters options capacity config (moves ++ [.engine reading])
  have hage : s.phase.clock reading - t.newestClock < config.heartbeatInterval := by
    rw [← hprompt.lastPublish]
    have hstep := AggregatorSystem.stepped (fun v => (adapters v).protocol parse) options capacity
      config s (.engine reading)
    rw [← aggregate_snoc] at hstep
    exact AggregatorSystem.clock_of_ended hstep hended hstarted hheartbeat
  have hclock : ∀ pub ∈ t.publications.getLast?, t.newestClock = pub.reading.now := by
    intro pub hpub
    rw [AggregatorSystem.newestClock, Option.mem_def.mp hpub]
    rfl
  have hcomplete : ∀ pub ∈ t.publications.getLast?, ∀ v,
      (pub.reads v).popped = (t.venues v).popped := by
    intro pub hpub v
    have hphase := EnginePhase.draining_of_betweenPasses hended
    rw [hprompt.carried 0 0 hphase v, AggregatorSystem.newestPopped,
      Option.mem_def.mp hpub]
    rfl
  refine ⟨fun hdue => ?_, hcomplete, fun pub hpub v hsilent => ?_⟩
  · cases hlast : t.publications.getLast? with
    | none =>
      rw [AggregatorSystem.newestClock, hlast] at hage
      simp only [Option.map_none, Option.getD_none] at hage
      omega
    | some pub => exact ⟨pub, rfl, hclock pub hlast ▸ hage⟩
  · have hmem : pub ∈ t.publications := List.mem_of_getLast? hpub
    have hread : pub.engine.lastRecvNs v = receivedAt (t.popped v) := by
      rw [(hrun.ledger.stamped pub hmem).received v, AggregatorSystem.popped, hcomplete pub hpub v]
    have hsteady : pub.reading.now ≤ pub.reading.nowSteady := hprompt.readings pub hmem
    have hv : v ∉ pub.venues config := by
      intro hv
      have hfresh := (List.mem_filter.mp hv).2
      simp only [Engine.contributes, decide_eq_true_eq] at hfresh
      rw [hclock pub hpub] at hage
      omega
    exact ⟨hv, stale_of_not_selected config _ hv⟩

end Adapters

theorem silence_reported_growingBid :
    let later : EngineReading := ⟨6000000002, 6000000003, 0⟩
    let t := aggregate Binance.growingBidParser (fun _ : Fin 1 => .binance {}) {} 4 {}
      (growingBidMoves ++ List.replicate 3 (.engine later) ++ [.engine later])
    ∃ pub, t.publications.getLast? = some pub ∧
      "binance" ∈ (pub.book {} fun _ => "binance").stale := by
  intro later t
  have hclocks : ∀ r, .engine r ∈ growingBidMoves ++ List.replicate 3 (.engine later) ++
      [.engine later] → r.now ≤ r.nowSteady := by
    intro r hr
    simp only [growingBidMoves, List.mem_append, List.mem_map, List.mem_replicate,
      List.mem_singleton] at hr
    obtain ((⟨move, -, hmove⟩ | ⟨-, hr⟩) | ⟨-, hr⟩) | hr := hr
    · cases hmove
    all_goals
      cases hr
      decide
  have hreported := silence_reported Binance.growingBidParser (fun _ : Fin 1 => .binance {}) {} 4
    {} (growingBidMoves ++ List.replicate 3 (.engine later)) later hclocks (by decide)
    (by decide +kernel) (by decide +kernel)
  have hclock : EnginePhase.clock (aggregate Binance.growingBidParser
      (fun _ : Fin 1 => .binance {}) {} 4 {} (growingBidMoves ++
        List.replicate 3 (.engine later))).phase later = 6000000002 := by decide +kernel
  have hreceived : receivedAt (t.popped 0) = 1 := by decide +kernel
  rw [hclock] at hreported
  obtain ⟨pub, hpub, -⟩ := hreported.recent (by decide)
  exact ⟨pub, hpub, (hreported.silent pub hpub 0 (by rw [hreceived]; decide)).2⟩

end CexAggregator
