import CexAggregator.BybitSound
import CexAggregator.Machine
import CexAggregator.RunnerRules
import CexAggregator.Sequencing
import CexAggregator.VenueSystem
import Mathlib.Data.Finset.Order

/-!
# The request budget is a sliding window

The deque holds the accepted times of the last window and nothing else, so a call is refused
exactly when the window that ends with it is full. The runner asks the budget before every
snapshot request, so the requests of a run are bounded with the accepted calls.
-/

namespace CexAggregator
open Program

/-- After calls of which `accepted` were accepted, the last of them no later than `now`. -/
structure Windowed (b : RateBudget) (accepted : List Int) (now : Int) : Prop where
  sorted : accepted.Pairwise (· ≤ ·)
  events : ∃ last ≤ now, (∀ t ∈ accepted, t ≤ last) ∧
    b.events = accepted.filter fun t => last - t ≤ b.window
  bounded : ∀ start, ((accepted.filter fun t => start ≤ t ∧ t ≤ start + b.window).length : Int) ≤
    b.maxEvents

namespace Windowed
variable {b : RateBudget} {accepted : List Int} {now later : Int}

theorem empty (hmax : 0 ≤ b.maxEvents) (hevents : b.events = []) : Windowed b [] now where
  sorted := List.Pairwise.nil
  events := ⟨now, le_rfl, by simp, by simp [hevents]⟩
  bounded start := by simpa using hmax

theorem wait (h : Windowed b accepted now) (hlater : now ≤ later) :
    Windowed b accepted later := by
  obtain ⟨last, hlast, hevents⟩ := h.events
  exact ⟨h.sorted, ⟨last, hlast.trans hlater, hevents⟩, h.bounded⟩

theorem dropWhile_eq_filter {times : List Int} (hsorted : times.Pairwise (· ≤ ·))
    (now window : Int) :
    (times.dropWhile fun t => now - t > window) = times.filter fun t => now - t ≤ window := by
  induction times with
  | nil => rfl
  | cons t times ih =>
    obtain ⟨hfirst, hrest⟩ := List.pairwise_cons.mp hsorted
    by_cases hout : now - t > window
    · rw [List.dropWhile_cons_of_pos (by exact decide_eq_true hout),
        List.filter_cons_of_neg (by simpa only [decide_eq_true_eq] using not_le.mpr hout), ih hrest]
    · rw [List.dropWhile_cons_of_neg (by simpa only [decide_eq_true_eq] using hout), eq_comm,
        List.filter_eq_self]
      intro u hu
      rcases List.mem_cons.mp hu with rfl | hu
      · exact decide_eq_true (not_lt.mp hout)
      · have hlater := hfirst u hu
        simp only [decide_eq_true_eq]
        omega

theorem kept_eq (h : Windowed b accepted now) :
    (b.events.dropWhile fun t => now - t > b.window) =
      accepted.filter fun t => now - t ≤ b.window := by
  obtain ⟨last, hlast, -, hevents⟩ := h.events
  rw [hevents, dropWhile_eq_filter (h.sorted.sublist List.filter_sublist), List.filter_filter]
  apply List.filter_congr
  intro t _
  have : now - t ≤ b.window → last - t ≤ b.window := by omega
  simpa using this

theorem tryConsume_eq (h : Windowed b accepted now) :
    let kept := accepted.filter fun t => now - t ≤ b.window
    b.tryConsume now =
      if b.maxEvents ≤ kept.length then (false, { b with events := kept })
      else (true, { b with events := kept ++ [now] }) := by
  rw [RateBudget.tryConsume, h.kept_eq]

theorem tryConsume_iff (h : Windowed b accepted now) :
    (b.tryConsume now).1 = true ↔
      ((accepted.filter fun t => now - t ≤ b.window).length : Int) < b.maxEvents := by
  rw [h.tryConsume_eq]
  split_ifs with hfull
  · simpa using hfull
  · simpa using hfull

theorem le_now (h : Windowed b accepted now) : ∀ t ∈ accepted, t ≤ now := by
  obtain ⟨last, hlast, hle, -⟩ := h.events
  exact fun t ht => (hle t ht).trans hlast

theorem bounded_snoc (h : Windowed b accepted now) (hroom : (b.tryConsume now).1 = true)
    (start : Int) :
    (((accepted ++ [now]).filter fun t => start ≤ t ∧ t ≤ start + b.window).length : Int) ≤
      b.maxEvents := by
  rw [h.tryConsume_iff] at hroom
  have hbounded := h.bounded start
  rw [List.filter_append, List.length_append]
  by_cases hin : start ≤ now ∧ now ≤ start + b.window
  · have hsub : (accepted.filter fun t => start ≤ t ∧ t ≤ start + b.window).length ≤
        (accepted.filter fun t => now - t ≤ b.window).length := by
      apply List.Sublist.length_le
      apply List.monotone_filter_right
      intro t ht
      simp only [decide_eq_true_eq] at ht ⊢
      omega
    rw [List.filter_cons_of_pos (by simpa using hin), List.filter_nil, List.length_singleton]
    omega
  · rw [List.filter_cons_of_neg (by simpa using hin), List.filter_nil, List.length_nil]
    omega

theorem tryConsume (h : Windowed b accepted now) (hwindow : 0 ≤ b.window) :
    Windowed (b.tryConsume now).2
      (accepted ++ if (b.tryConsume now).1 then [now] else []) now := by
  by_cases hfull : b.maxEvents ≤ (accepted.filter fun t => now - t ≤ b.window).length
  · rw [h.tryConsume_eq, if_pos hfull, if_neg Bool.false_ne_true, List.append_nil]
    exact ⟨h.sorted, ⟨now, le_rfl, h.le_now, rfl⟩, h.bounded⟩
  · have hbounded := h.bounded_snoc (h.tryConsume_iff.mpr (not_le.mp hfull))
    rw [h.tryConsume_eq, if_neg hfull, if_pos rfl]
    refine ⟨?_, ⟨now, le_rfl, ?_, ?_⟩, hbounded⟩
    · rw [List.pairwise_append]
      refine ⟨h.sorted, List.pairwise_singleton _ now, fun t ht u hu => ?_⟩
      rw [List.mem_singleton.mp hu]
      exact h.le_now t ht
    · intro t ht
      rcases List.mem_append.mp ht with ht | ht
      · exact h.le_now t ht
      · exact (List.mem_singleton.mp ht).le
    · rw [List.filter_append, List.filter_cons_of_pos (by simpa using hwindow), List.filter_nil]

theorem tryConsume_config (b : RateBudget) (now : Int) :
    (b.tryConsume now).2.maxEvents = b.maxEvents ∧ (b.tryConsume now).2.window = b.window := by
  unfold RateBudget.tryConsume
  simp only
  split_ifs
  · exact ⟨rfl, rfl⟩
  · exact ⟨rfl, rfl⟩

end Windowed

section Calls

def RateBudget.calls (b : RateBudget) (times : List Int) : RateBudget × List Int :=
  times.foldl (fun s now =>
    ((s.1.tryConsume now).2, s.2 ++ if (s.1.tryConsume now).1 then [now] else [])) (b, [])

theorem calls_snoc (b : RateBudget) (times : List Int) (now : Int) :
    b.calls (times ++ [now]) =
      (((b.calls times).1.tryConsume now).2,
        (b.calls times).2 ++ if ((b.calls times).1.tryConsume now).1 then [now] else []) := by
  rw [RateBudget.calls, List.foldl_append]
  rfl

theorem calls_windowed {b : RateBudget} {times : List Int} (hmax : 0 ≤ b.maxEvents)
    (hwindow : 0 ≤ b.window) (hfresh : b.events = []) (hsorted : times.Pairwise (· ≤ ·)) :
    (∀ now, (∀ t ∈ times, t ≤ now) → Windowed (b.calls times).1 (b.calls times).2 now) ∧
      (b.calls times).1.maxEvents = b.maxEvents ∧ (b.calls times).1.window = b.window := by
  induction times using List.reverseRecOn with
  | nil => exact ⟨fun now _ => .empty hmax hfresh, rfl, rfl⟩
  | append_singleton times now ih =>
    rw [List.pairwise_append] at hsorted
    obtain ⟨hwindowed, hmaxEvents, hwindow'⟩ := ih hsorted.1
    obtain ⟨hmaxEvents', hwindow''⟩ := Windowed.tryConsume_config (b.calls times).1 now
    have hbefore := hwindowed now fun t ht => hsorted.2.2 t ht now (List.mem_singleton_self now)
    rw [calls_snoc]
    refine ⟨fun later hlater => ?_, hmaxEvents'.trans hmaxEvents, hwindow''.trans hwindow'⟩
    exact (hbefore.tryConsume (hwindow' ▸ hwindow)).wait (hlater now (by simp))

end Calls

section Runs
variable {σ : Type} {p : VenueProtocol σ} {options : Options} {venueIndex capacity : ℕ}

/-- A venue's thread with the clock reading of the handler it is in, the requests that were in
flight when the handler began, and the times at which requests have been issued. -/
structure Metered (σ : Type) where
  system : VenueSystem σ
  now : Int
  held : ℕ := 0
  issued : List Int := []

namespace Metered

def create (initial : σ) (options : Options) (now : Int) : Metered σ where
  system := .create initial options
  now := now

/-- When a handler has returned, what it has added to the requests was issued by it. -/
def settle (m : Metered σ) : Metered σ :=
  match m.system.program with
  | .done r =>
    { m with
      held := r.requests.length
      issued := m.issued ++ List.replicate (r.requests.length - m.held) m.now }
  | _ => m

def begin (m : Metered σ) (reading : Reading) (event : Event) : Metered σ :=
  match m.system.program with
  | .done r => { m with now := reading.now, held := (r.answered event).requests.length }
  | _ => m

variable (p options venueIndex capacity) in
def step (m : Metered σ) (move : VenueMove) : Option (Metered σ) :=
  (m.system.step p options venueIndex capacity move).map fun next =>
    match move with
    | .handle reading event => settle { m.begin reading event with system := next }
    | _ => settle { m with system := next }

def Forward (m : Metered σ) : VenueMove → Prop
  | .handle reading _ => m.now ≤ reading.now
  | _ => True

instance (m : Metered σ) : (move : VenueMove) → Decidable (m.Forward move)
  | .handle reading _ => inferInstanceAs (Decidable (m.now ≤ reading.now))
  | .act => .isTrue trivial
  | .pop => .isTrue trivial
  | .stop => .isTrue trivial

theorem settle_system (m : Metered σ) : m.settle.system = m.system := by
  unfold settle
  split
  · rfl
  · rfl

variable (p options venueIndex capacity) in
theorem run_system (m : Metered σ) (moves : List VenueMove) :
    (Machine.run (step p options venueIndex capacity) m moves).system =
      m.system.run p options venueIndex capacity moves := by
  induction moves generalizing m with
  | nil => rfl
  | cons move moves ih =>
    rw [Machine.run_cons, ih, VenueSystem.run, VenueSystem.run, List.foldl_cons]
    congr 1
    unfold Machine.next step
    cases m.system.step p options venueIndex capacity move with
    | none => rfl
    | some next => cases move <;> exact settle_system _

def Charged (p : VenueProtocol σ) (options : Options) (accepted : List Int) (now : Int)
    (held : ℕ) (r : Runner σ) : Prop :=
  ∃ count, Windowed r.resyncBudget (accepted ++ List.replicate count now) now ∧
    r.requests.length ≤ held + count ∧
    (r.resyncBudget.maxEvents = options.maxResyncsPerMinute ∧
      r.resyncBudget.window = 60000000000) ∧
    (r.requests ≠ [] → p.needsRestSnapshot = true)

theorem Charged.tryConsume {accepted : List Int} {now : Int} {held : ℕ} {r r' : Runner σ}
    (h : Charged p options accepted now held r)
    (hbudget : r'.resyncBudget = (r.resyncBudget.tryConsume now).2)
    (hrequests : r'.requests.length ≤
      r.requests.length + if (r.resyncBudget.tryConsume now).1 then 1 else 0)
    (hneeded : r'.requests ≠ [] → p.needsRestSnapshot = true) :
    Charged p options accepted now held r' := by
  obtain ⟨count, hwindowed, hlength, hconfig, -⟩ := h
  have hnext := hwindowed.tryConsume (by rw [hconfig.2]; decide)
  obtain ⟨hmax, hwindow⟩ := Windowed.tryConsume_config r.resyncBudget now
  have hconfig' : r'.resyncBudget.maxEvents = options.maxResyncsPerMinute ∧
      r'.resyncBudget.window = 60000000000 := by
    rw [hbudget]
    exact ⟨hmax.trans hconfig.1, hwindow.trans hconfig.2⟩
  rw [← hbudget] at hnext
  split_ifs at hnext hrequests with htaken
  · refine ⟨count + 1, ?_, by omega, hconfig', hneeded⟩
    rwa [List.replicate_succ', ← List.append_assoc]
  · exact ⟨count, by simpa using hnext, by omega, hconfig', hneeded⟩

theorem charged_rules (hunsynced : ∀ s, p.synced (p.reset s) = false) (reading : Reading)
    (accepted : List Int) (held : ℕ) :
    Runner.Rules p venueIndex reading
      ⟨fun t _ => t, fun _ _ => True, fun _ _ => True⟩ (fun _ => True)
      (fun (_ : Unit) r => Charged p options accepted reading.now held r)
      (fun _ r => Charged p options accepted reading.now held r) where
  unsynced := hunsynced
  free := trivial
  aside h hsame := by
    obtain ⟨count, hwindowed, hlength, hconfig, hneeded⟩ := h
    unfold Charged
    rw [hsame.resyncBudget, hsame.requests]
    exact ⟨count, hwindowed, hlength, hconfig, hneeded⟩
  handling _ h _ := ⟨trivial, h⟩
  stopping h _ _ := ⟨trivial, h⟩
  disconnected h _ := ⟨trivial, h⟩
  stored h _ _ _ := ⟨trivial, h⟩
  scheduled h _ _ := ⟨trivial, h⟩
  charged h := h.tryConsume rfl (Nat.le_add_right _ _) h.choose_spec.2.2.2
  requested q h hrest htaken :=
    h.tryConsume rfl (by simp [htaken]) fun _ => hrest
  restarted _ _ h _ _ := ⟨trivial, fun _ => ⟨trivial, h⟩⟩
  called _ _ _ h _ _ _ := ⟨trivial, h⟩
  fatal _ h _ _ := ⟨trivial, fun _ => ⟨trivial, h⟩⟩
  pushed h _ _ accepted _ := ⟨trivial, by cases accepted <;> exact h⟩
  unpushed h _ _ _ _ := h
  live h _ _ _ := ⟨trivial, h⟩
  idle h _ := h

structure Sound (p : VenueProtocol σ) (options : Options) (accepted : List Int) (m : Metered σ) :
    Prop where
  issued : m.issued.Sublist accepted
  bounded : ∀ start, ((accepted.filter fun t =>
    start ≤ t ∧ t ≤ start + 60000000000).length : Int) ≤ options.maxResyncsPerMinute
  program : Within (fun _ => True) (Charged p options accepted m.now m.held) m.system.program

theorem Sound.settle {accepted : List Int} {m : Metered σ} (h : Sound p options accepted m) :
    ∃ accepted, Sound p options accepted m.settle := by
  have hprogram := h.program
  unfold Metered.settle
  split
  · rename_i r hdone
    rw [hdone] at hprogram
    obtain ⟨count, hwindowed, hlength, hconfig, hneeded⟩ := hprogram
    refine ⟨accepted ++ List.replicate count m.now, ?_, ?_, ?_⟩
    · apply h.issued.append
      rw [List.replicate_sublist_replicate]
      omega
    · rw [← hconfig.1, ← hconfig.2]
      exact hwindowed.bounded
    · rw [hdone]
      exact ⟨0, by simpa using hwindowed, by simp, hconfig, hneeded⟩
  · exact ⟨accepted, h⟩

theorem Sound.act {accepted : List Int} {m : Metered σ} {next : VenueSystem σ}
    {act : Act Note Query} (h : Sound p options accepted m)
    (hacted : VenueSystem.Acted m.system act next) :
    Sound p options accepted { m with system := next } :=
  ⟨h.issued, h.bounded, (h.program.advance hacted.program trivial).2⟩

theorem Sound.step (hunsynced : ∀ s, p.synced (p.reset s) = false) {m next : Metered σ}
    {move : VenueMove} (h : ∃ accepted, Sound p options accepted m) (hforward : m.Forward move)
    (hstep : m.step p options venueIndex capacity move = some next) :
    ∃ accepted, Sound p options accepted next := by
  obtain ⟨accepted, h⟩ := h
  obtain ⟨system, hsystem, rfl⟩ := Option.map_eq_some_iff.mp hstep
  cases VenueSystem.stepped_of_step hsystem with
  | @handle reading event r program hdone hhandle =>
    have hprogram := h.program
    rw [hdone] at hprogram
    obtain ⟨count, hwindowed, hlength, hconfig, hneeded⟩ := hprogram
    have hbegin : m.begin reading event =
        { m with now := reading.now, held := (r.answered event).requests.length } := by
      rw [Metered.begin, hdone]
    have hlater : Windowed r.resyncBudget (accepted ++ List.replicate count m.now)
        reading.now := hwindowed.wait hforward
    have hstart : Charged p options (accepted ++ List.replicate count m.now) reading.now
        (r.answered event).requests.length (r.answered event) := by
      obtain ⟨requests, hanswered, hsome⟩ := r.answered_eq event
      rw [hanswered]
      exact ⟨0, by simpa using hlater, le_rfl, hconfig, fun h => hneeded (hsome h)⟩
    apply Sound.settle
    refine @Sound.mk _ _ _ (accepted ++ List.replicate count m.now) _ ?_ ?_ ?_
    · rw [hbegin]
      exact h.issued.trans (List.sublist_append_left _ _)
    · rw [← hconfig.1, ← hconfig.2]
      exact hwindowed.bounded
    · rw [hbegin]
      exact (charged_rules hunsynced reading _ _).handle hstart hneeded (Or.inl trivial) hhandle
  | act hacted => exact (h.act hacted).settle
  | pop hring => exact Sound.settle (m := { m with system := _ }) ⟨h.issued, h.bounded, h.program⟩
  | stop => exact Sound.settle (m := { m with system := _ }) ⟨h.issued, h.bounded, h.program⟩

theorem sound_create (initial : σ) (hmax : 0 ≤ options.maxResyncsPerMinute) (now : Int) :
    Sound p options [] (create initial options now) :=
  ⟨.refl _, fun _ => by simpa using hmax, 0, .empty hmax rfl, le_rfl, ⟨rfl, rfl⟩,
    fun h => (h rfl).elim⟩

theorem run_bounded (hunsynced : ∀ s, p.synced (p.reset s) = false) (initial : σ)
    (hmax : 0 ≤ options.maxResyncsPerMinute) (now : Int) {moves : List VenueMove}
    (hforward : Machine.Along (step p options venueIndex capacity) Forward
      (create initial options now) moves) (start : Int) :
    (((Machine.run (step p options venueIndex capacity) (create initial options now)
        moves).issued.filter fun t => start ≤ t ∧ t ≤ start + 60000000000).length : Int) ≤
      options.maxResyncsPerMinute := by
  obtain ⟨accepted, h⟩ := Machine.along_rule (I := fun m => ∃ accepted, Sound p options accepted m)
    (fun m move next h hmove hstep => Sound.step hunsynced h hmove hstep)
    ⟨[], sound_create initial hmax now⟩ hforward
  have hle : ((Machine.run (step p options venueIndex capacity) (create initial options now)
      moves).issued.filter fun t => start ≤ t ∧ t ≤ start + 60000000000).length ≤
      (accepted.filter fun t => start ≤ t ∧ t ≤ start + 60000000000).length :=
    (h.issued.filter _).length_le
  have hbounded := h.bounded start
  omega

end Metered

end Runs

/-- A call is accepted exactly when fewer than `maxEvents` accepted ones lie within the window
that ends with it; no interval of that length holds more, nor do a venue's requests. -/
theorem rateBudget_window (maxEvents window : Int) (hmax : 0 ≤ maxEvents) (hwindow : 0 ≤ window)
    (parse : JsonParser) (adapter : Adapter) (options : Options)
    (hoptions : 0 ≤ options.maxResyncsPerMinute) (venueIndex capacity : ℕ) :
    (∀ times now, (times ++ [now]).Pairwise (· ≤ ·) →
      let s := RateBudget.calls { maxEvents := maxEvents, window := window } times
      ((s.1.tryConsume now).1 = true ↔
        ((s.2.filter fun t => now - t ≤ window).length : Int) < maxEvents)) ∧
    (∀ times, times.Pairwise (· ≤ ·) → ∀ start,
      (((RateBudget.calls { maxEvents := maxEvents, window := window } times).2.filter fun t =>
        start ≤ t ∧ t ≤ start + window).length : Int) ≤ maxEvents) ∧
    (∀ (now : Int) (moves : List VenueMove),
      Machine.Along (Metered.step (adapter.protocol parse) options venueIndex capacity)
        Metered.Forward (Metered.create adapter.initial options now) moves →
      ∀ start, (((Machine.run
        (Metered.step (adapter.protocol parse) options venueIndex capacity)
        (Metered.create adapter.initial options now) moves).issued.filter fun t =>
          start ≤ t ∧ t ≤ start + 60000000000).length : Int) ≤ options.maxResyncsPerMinute) := by
  refine ⟨fun times now hsorted => ?_, fun times hsorted start => ?_,
    fun now moves hforward start => ?_⟩
  · rw [List.pairwise_append] at hsorted
    obtain ⟨hwindowed, hmax', hwindow'⟩ := calls_windowed
      (b := { maxEvents := maxEvents, window := window }) hmax hwindow rfl hsorted.1
    have hiff := (hwindowed now fun t ht =>
      hsorted.2.2 t ht now (List.mem_singleton_self now)).tryConsume_iff
    rwa [hmax', hwindow'] at hiff
  · obtain ⟨hwindowed, hmax', hwindow'⟩ := calls_windowed
      (b := { maxEvents := maxEvents, window := window }) hmax hwindow rfl hsorted
    obtain ⟨now, hnow⟩ : ∃ now, ∀ t ∈ times, t ≤ now := by
      obtain ⟨now, hnow⟩ := times.toFinset.exists_le
      exact ⟨now, fun t ht => hnow t (List.mem_toFinset.mpr ht)⟩
    have hbounded := (hwindowed now hnow).bounded start
    rwa [hmax', hwindow'] at hbounded
  · exact Metered.run_bounded (adapter.sequenced parse).synced_reset adapter.initial hoptions now
      hforward start

theorem rateBudget_window_edge :
    let s := RateBudget.calls { maxEvents := 2, window := 60 } [0, 10]
    let m := Machine.run (Metered.step (Binance.protocol (fun _ => none) {}) {} 0 1)
      (Metered.create {} {} 0) VenueSystem.opened
    ((s.1.tryConsume 60).1 = true ↔ ((s.2.filter fun t => 60 - t ≤ 60).length : Int) < 2) ∧
      (s.1.tryConsume 60).1 = false ∧ (s.1.tryConsume 61).1 = true ∧ m.issued = [0] ∧
      ((m.issued.filter fun t => 0 ≤ t ∧ t ≤ 0 + 60000000000).length : Int) ≤ 6 := by
  obtain ⟨hexact, -, hruns⟩ := rateBudget_window 2 60 (by decide) (by decide) (fun _ => none)
    (.binance {}) {} (by decide) 0 1
  exact ⟨hexact [0, 10] 60 (by decide), by decide, by decide, by decide +kernel,
    hruns 0 VenueSystem.opened (by decide +kernel) 0⟩

end CexAggregator
