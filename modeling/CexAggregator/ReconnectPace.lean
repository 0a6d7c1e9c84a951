import CexAggregator.NoLoss
import CexAggregator.RunnerRules

/-!
# Reconnects back off until the venue is healthy

The monitor counts the waits since the ring last took a batch of a synced adapter. The window
a delay is drawn from is a function of that count alone.
-/

namespace CexAggregator
open Program

structure Pace where
  synced : Bool := false
  waits : ℕ := 0

def Pace.track (w : Pace) (act : Act Note Query) : Pace where
  synced := syncedAfter w.synced act
  waits :=
    match act with
    | .emitted (.scheduled _) => w.waits + 1
    | .asked (.push _) true => if w.synced then 0 else w.waits
    | _ => w.waits

/-- The window of the wait that comes after `waits` others. -/
def reconnectWindow (options : Options) (waits : ℕ) : ℕ :=
  min options.reconnectMax (options.reconnectInitial * 2 ^ waits)

def PacedAct (options : Options) (w : Pace) : Act Note Query → Prop
  | .emitted (.scheduled delay) =>
    reconnectWindow options w.waits / 2 ≤ delay ∧ delay ≤ reconnectWindow options w.waits
  | _ => True

def paced (options : Options) : Contract Note Query Pace where
  track := Pace.track
  rely _ _ := True
  guarantee := PacedAct options

section Window
variable {options : Options}

theorem reconnectWindow_zero (h : options.reconnectInitial ≤ options.reconnectMax) :
    reconnectWindow options 0 = options.reconnectInitial := by
  rw [reconnectWindow, pow_zero, mul_one, min_eq_right h]

theorem reconnectWindow_succ (waits : ℕ) :
    min options.reconnectMax (reconnectWindow options waits * 2) =
      reconnectWindow options (waits + 1) := by
  unfold reconnectWindow
  rw [pow_succ, ← mul_assoc]
  omega

theorem next_bounds (b : ExponentialBackoff) (draw : ℕ) :
    b.current / 2 ≤ (b.next draw).1 ∧ (b.next draw).1 ≤ b.current := by
  have hdraw : draw % (b.current - b.current / 2 + 1) < b.current - b.current / 2 + 1 :=
    Nat.mod_lt _ (Nat.succ_pos _)
  simp only [ExponentialBackoff.next]
  omega

end Window

section Rules
variable {σ : Type} {p : VenueProtocol σ} {options : Options} {venueIndex : ℕ}
  {reading : Reading} {w : Pace} {r : Runner σ}

structure Paced (p : VenueProtocol σ) (options : Options) (w : Pace) (r : Runner σ) : Prop where
  backoff : r.backoff =
    ⟨options.reconnectInitial, options.reconnectMax, reconnectWindow options w.waits⟩
  synced : w.synced = p.synced r.protocol
  needed : r.requests ≠ [] → p.needsRestSnapshot = true

structure PacedPush (p : VenueProtocol σ) (options : Options) (w : Pace) (r : Runner σ) :
    Prop where
  synced : w.synced = p.synced r.protocol
  needed : r.requests ≠ [] → p.needsRestSnapshot = true
  healthy : p.synced r.protocol = true → w.waits = 0 ∧
    r.backoff.initial = options.reconnectInitial ∧ r.backoff.max = options.reconnectMax
  waiting : p.synced r.protocol = false → r.backoff =
    ⟨options.reconnectInitial, options.reconnectMax, reconnectWindow options w.waits⟩

theorem paced_rules (hunsynced : ∀ s, p.synced (p.reset s) = false)
    (hseeds : ∀ s body now, p.needsRestSnapshot = true →
      (p.onRestSnapshot s body now []).verdict = .kOk →
        (p.onRestSnapshot s body now []).out ≠ [])
    (hinitial : options.reconnectInitial ≤ options.reconnectMax) (reading : Reading) :
    Runner.Rules p venueIndex reading (paced options) (fun _ => True) (Paced p options)
      (PacedPush p options) where
  unsynced := hunsynced
  free := trivial
  aside h hsame :=
    ⟨hsame.backoff ▸ h.backoff, hsame.protocol ▸ h.synced, hsame.requests ▸ h.needed⟩
  handling _ h _ := ⟨trivial, h⟩
  stopping h _ _ := ⟨trivial, h⟩
  disconnected h _ := ⟨trivial, h⟩
  stored h _ _ _ := ⟨trivial, h⟩
  scheduled {w r} h _ _ := by
    have hwindow := next_bounds r.backoff reading.draw
    rw [h.backoff] at hwindow
    refine ⟨h.backoff ▸ hwindow, ?_, h.synced, h.needed⟩
    rw [h.backoff, ExponentialBackoff.next, reconnectWindow_succ]
    rfl
  charged h := ⟨h.backoff, h.synced, h.needed⟩
  requested _ h hrest _ := ⟨h.backoff, h.synced, fun _ => hrest⟩
  restarted _ _ h _ _ := ⟨trivial, fun _ => ⟨trivial, h.backoff, (hunsynced _).symm, h.needed⟩⟩
  called _ _ _ h _ _ _ := ⟨trivial, h.backoff, rfl, h.needed⟩
  fatal _ h _ _ := ⟨trivial, fun _ => ⟨trivial, h.backoff, rfl, h.needed⟩⟩
  pushed {w r updates} h _ _ accepted _ := by
    refine ⟨trivial, ?_⟩
    cases accepted with
    | false => exact h
    | true =>
      have hinitial' : r.backoff.initial = options.reconnectInitial := by rw [h.backoff]
      have hmax : r.backoff.max = options.reconnectMax := by rw [h.backoff]
      refine ⟨h.synced, h.needed, fun hyes => ⟨if_pos (h.synced.trans hyes), hinitial', hmax⟩,
        fun hno => ?_⟩
      have hwaits : ((paced options).track w (.asked (.push ⟨venueIndex, updates⟩) true)).waits =
          w.waits := if_neg (by rw [h.synced, hno]; exact Bool.false_ne_true)
      rw [hwaits]
      exact h.backoff
  unpushed {w r s body} _ hrest hok hnone _ := (hseeds s body reading.now hrest hok hnone).elim
  live {w r} h _ hsynced _ := by
    obtain ⟨hwaits, hinitial', hmax⟩ := h.healthy hsynced
    refine ⟨trivial, ?_, h.synced, h.needed⟩
    have hcount : ((paced options).track w (.emitted (.stored .kLive))).waits = 0 := hwaits
    rw [hcount, reconnectWindow_zero hinitial, ExponentialBackoff.reset, hinitial', hmax]
  idle h hno := ⟨h.waiting hno, h.synced, h.needed⟩

end Rules

theorem Binance.replayBuffered_ne_nil {recvTsNs : Int} {staging : List FeedUpdate} {through : Int}
    {first : Bool} {events : List Binance.PendingEvent} (h : staging ≠ []) :
    (Binance.replayBuffered recvTsNs staging through first events).1 ≠ [] := by
  induction events generalizing staging through first with
  | nil => exact h
  | cons e events ih =>
    simp only [Binance.replayBuffered]
    split_ifs
    · exact h
    · exact ih (by simp)

/-- Binance is the only venue that asks for snapshots, and a good one is always passed on. -/
theorem Adapter.snapshot_seeds (parse : JsonParser) (adapter : Adapter) (s : adapter.State)
    (body : Bytes) (now : Int) (hrest : (adapter.protocol parse).needsRestSnapshot = true)
    (hok : ((adapter.protocol parse).onRestSnapshot s body now []).verdict = .kOk) :
    ((adapter.protocol parse).onRestSnapshot s body now []).out ≠ [] := by
  cases adapter with
  | okx config => cases hrest
  | bybit config => cases hrest
  | binance config =>
    change (Binance.onRestSnapshot parse s body now []).verdict = .kOk at hok
    change (Binance.onRestSnapshot parse s body now []).out ≠ []
    unfold Binance.onRestSnapshot at hok ⊢
    split at hok
    · cases hok
    · cases hok
    · rename_i id bids asks _
      obtain ⟨staged, through, -, hreplay, heq⟩ := Binance.reconcile_ok hok
      have hstaged : (Binance.replayBuffered now [Binance.snapshotUpdate id bids asks now] id true
          (Binance.survivors id s.buffered)).1 ≠ [] :=
        Binance.replayBuffered_ne_nil (List.cons_ne_nil _ _)
      rw [hreplay] at hstaged
      rw [heq]
      exact hstaged

section System
variable {σ : Type} {p : VenueProtocol σ} {options : Options} {venueIndex : ℕ}

def waitsSinceHealthy (trace : List (Act Note Query)) : ℕ := (trace.foldl Pace.track {}).waits

theorem scheduled_of_honored {acts before after : List (Act Note Query)} {delay : ℕ} {w : Pace}
    (h : Honored Pace.track (PacedAct options) w acts)
    (hacts : acts = before ++ .emitted (.scheduled delay) :: after) :
    reconnectWindow options (before.foldl Pace.track w).waits / 2 ≤ delay ∧
      delay ≤ reconnectWindow options (before.foldl Pace.track w).waits := by
  rw [hacts] at h
  exact (honored_append.mp h).2.1

end System

/-- Each delay is drawn from the window its number since the last healthy batch gives, and
between two handlers that number alone says where the backoff stands. -/
theorem reconnects_back_off (parse : JsonParser) (adapter : Adapter) (options : Options)
    (hinitial : options.reconnectInitial ≤ options.reconnectMax) (venueIndex capacity : ℕ)
    (moves : List VenueMove) :
    let s := (VenueSystem.create adapter.initial options).run (adapter.protocol parse) options
      venueIndex capacity moves
    (∀ before delay after, s.trace = before ++ .emitted (.scheduled delay) :: after →
      reconnectWindow options (waitsSinceHealthy before) / 2 ≤ delay ∧
        delay ≤ reconnectWindow options (waitsSinceHealthy before)) ∧
      ∀ r, s.program = .done r →
        r.backoff.peek = reconnectWindow options (waitsSinceHealthy s.trace) := by
  intro s
  have hconsistent : VenueSystem.Consistent (adapter.protocol parse) options venueIndex
      (Runner.create adapter.initial options) s :=
    VenueSystem.consistent_run _ _ _ _ adapter.initial moves
  have hstart : Paced (adapter.protocol parse) options {}
      (Runner.create adapter.initial options) := by
    refine ⟨?_, (adapter.unsynced_initial parse).symm, fun h => (h rfl).elim⟩
    rw [reconnectWindow_zero hinitial]
    rfl
  have hhandle : ∀ w r event program, Paced (adapter.protocol parse) options w r →
      r.handle (adapter.protocol parse) options venueIndex event = some program →
      Meets (paced options) (Paced (adapter.protocol parse) options) program w := by
    intro w r event program h hprogram
    have hrules := @paced_rules _ _ _ venueIndex (adapter.sequenced parse).synced_reset
      (adapter.snapshot_seeds parse) hinitial event.1
    obtain ⟨requests, hanswered, hsome⟩ := r.answered_eq event.2
    refine hrules.handle ?_ h.needed (Or.inl trivial) hprogram
    rw [hanswered]
    exact ⟨h.backoff, h.synced, fun hne => h.needed (hsome hne)⟩
  obtain ⟨hkept, hmeets⟩ := hconsistent.runs.meets (c := paced options) hstart hhandle
    (honored_of_forall (fun _ _ => trivial) _ _)
  refine ⟨fun before delay after htrace => scheduled_of_honored hkept htrace, fun r hr => ?_⟩
  rw [hr] at hmeets
  exact congrArg ExponentialBackoff.current hmeets.backoff

theorem reconnects_back_off_twice :
    let s := (VenueSystem.create (Adapter.initial (.okx {})) {}).run
      (Adapter.protocol (fun _ => none) (.okx {})) {} 0 1
      (VenueSystem.handled .start ++ VenueSystem.handled (.stage 1 false) ++
        VenueSystem.handled .reconnectExpires ++ VenueSystem.handled .reconnect ++
        VenueSystem.handled (.stage 2 false))
    (∀ r, s.program = .done r →
        r.backoff.peek = reconnectWindow {} (waitsSinceHealthy s.trace)) ∧
      waitsSinceHealthy s.trace = 2 ∧ reconnectWindow {} 2 = 2000 :=
  ⟨(reconnects_back_off (fun _ => none) (.okx {}) {} (by decide) 0 1 _).2, by decide +kernel,
    by decide⟩

end CexAggregator
