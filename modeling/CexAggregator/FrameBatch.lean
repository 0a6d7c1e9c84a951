import CexAggregator.Sequencing

/-!
# A whole batch or nothing

What a message carries is read off the message, and for a REST snapshot off the events it
is reconciled with. A call that returns `kOk` appends exactly that, any other call leaves
`out`, `synced` and the committed position as they were, and what it staged is never seen.
-/

namespace CexAggregator

section Calls
variable {σ : Type*} (p : VenueProtocol σ)

def VenueProtocol.callInto (s : σ) (out : List FeedUpdate) : ProtocolCall → Called σ
  | .frame bytes recvTsNs => p.onFrame s bytes recvTsNs out
  | .restSnapshot body recvTsNs => p.onRestSnapshot s body recvTsNs out
  | .reset => ⟨.kOk, p.reset s, out⟩

theorem VenueProtocol.callInto_nil (s : σ) (c : ProtocolCall) : p.callInto s [] c = p.call s c := by
  cases c <;> rfl

/-- The verdict and `out` of each call in turn, with no reset after a failure. -/
def VenueProtocol.answers (s : σ) :
    List (ProtocolCall × List FeedUpdate) → List (FrameVerdict × List FeedUpdate)
  | [] => []
  | (c, out) :: inputs =>
    ((p.callInto s out c).verdict, (p.callInto s out c).out) ::
      VenueProtocol.answers (p.callInto s out c).protocol inputs

structure BlindToStaging (unstaged : σ → σ) : Prop where
  verdict : ∀ s out c, (p.callInto (unstaged s) out c).verdict = (p.callInto s out c).verdict
  out : ∀ s out c, (p.callInto (unstaged s) out c).out = (p.callInto s out c).out
  protocol : ∀ s out c, unstaged (p.callInto (unstaged s) out c).protocol =
    unstaged (p.callInto s out c).protocol

variable {p}

theorem BlindToStaging.of_call {unstaged : σ → σ}
    (h : ∀ s out c, (p.callInto (unstaged s) out c).verdict = (p.callInto s out c).verdict ∧
      (p.callInto (unstaged s) out c).out = (p.callInto s out c).out ∧
      unstaged (p.callInto (unstaged s) out c).protocol =
        unstaged (p.callInto s out c).protocol) : BlindToStaging p unstaged :=
  ⟨fun s out c => (h s out c).1, fun s out c => (h s out c).2.1, fun s out c => (h s out c).2.2⟩

theorem BlindToStaging.answers_eq {unstaged : σ → σ} (h : BlindToStaging p unstaged) (s : σ)
    (inputs : List (ProtocolCall × List FeedUpdate)) :
    p.answers (unstaged s) inputs = p.answers s inputs := by
  induction inputs generalizing s with
  | nil => rfl
  | cons input inputs ih =>
    obtain ⟨c, out⟩ := input
    have hrest : p.answers (p.callInto (unstaged s) out c).protocol inputs =
        p.answers (p.callInto s out c).protocol inputs := by
      rw [← ih (p.callInto (unstaged s) out c).protocol, h.protocol, ih]
    rw [VenueProtocol.answers, VenueProtocol.answers, h.verdict, h.out, hrest]

variable (p)

/-- `batch` is the complete batch of a call's message, `none` where it cannot be read. -/
structure WholeOrNothing {π : Type*} (position : σ → π) (unstaged : σ → σ)
    (batch : σ → ProtocolCall → Option (List FeedUpdate)) : Prop where
  failed : ∀ s out c, (p.callInto s out c).verdict ≠ .kOk →
    (p.callInto s out c).out = out ∧
      p.synced (p.callInto s out c).protocol = p.synced s ∧
      position (p.callInto s out c).protocol = position s
  accepted : ∀ s out c, (p.callInto s out c).verdict = .kOk →
    ∃ us ∈ batch s c, (p.callInto s out c).out = out ++ us
  leftovers : ∀ s out c, (p.callInto s out c).verdict ≠ .kOk → ∀ inputs,
    p.answers (p.callInto s out c).protocol inputs =
      p.answers (unstaged (p.callInto s out c).protocol) inputs

end Calls

namespace Binance

def unstaged (s : State) : State := { s with staging := [] }

def Frame.batch (s : State) (recvTsNs : Int) : Frame → Option (List FeedUpdate)
  | .ignored => some []
  | .malformed => none
  | .event e => some (if s.synced then [e.update recvTsNs] else [])

def Body.batch (s : State) (recvTsNs : Int) : Body → Option (List FeedUpdate)
  | .snapshot id bids asks => some (snapshotUpdate id bids asks recvTsNs ::
      (survivors id s.buffered).map fun e => e.update recvTsNs)
  | _ => none

def batch (parse : JsonParser) (config : Config) (s : State) :
    ProtocolCall → Option (List FeedUpdate)
  | .frame bytes recvTsNs => (readFrame parse config bytes).batch s recvTsNs
  | .restSnapshot body recvTsNs => (readBody parse body).batch s recvTsNs
  | .reset => some []

section WholeOrNothing
variable {parse : JsonParser} {config : Config} {s : State} {recvTsNs : Int}
  {out : List FeedUpdate}

theorem replayBuffered_staged {events : List PendingEvent} {staging staged : List FeedUpdate}
    {appliedThrough through : Int} {first : Bool}
    (h : replayBuffered recvTsNs staging appliedThrough first events = (staged, through, true)) :
    staged = staging ++ events.map fun e => e.update recvTsNs := by
  induction events generalizing staging appliedThrough first with
  | nil =>
    cases h
    simp
  | cons e events ih =>
    rw [replayBuffered] at h
    split_ifs at h
    · cases h
    · rw [ih h]
      simp

theorem reconcile_failed {id : Int} {bids asks : List Level}
    (h : (reconcile s id bids asks recvTsNs out).verdict ≠ .kOk) :
    (reconcile s id bids asks recvTsNs out).out = out ∧
      (reconcile s id bids asks recvTsNs out).protocol.synced = s.synced ∧
      (reconcile s id bids asks recvTsNs out).protocol.lastUpdateId = s.lastUpdateId := by
  simp only [reconcile] at h ⊢
  split_ifs at h ⊢
  · exact ⟨rfl, rfl, rfl⟩
  · split at h
    · exact ⟨rfl, rfl, rfl⟩
    · exact (h rfl).elim

theorem onEvent_failed {e : PendingEvent} (h : (onEvent config s e recvTsNs out).verdict ≠ .kOk) :
    (onEvent config s e recvTsNs out).out = out ∧
      (onEvent config s e recvTsNs out).protocol.synced = s.synced ∧
      (onEvent config s e recvTsNs out).protocol.lastUpdateId = s.lastUpdateId := by
  unfold onEvent at h ⊢
  split_ifs at h ⊢
  · exact ⟨rfl, rfl, rfl⟩
  · exact (h rfl).elim
  · exact ⟨rfl, rfl, rfl⟩
  · exact (h rfl).elim

theorem callInto_failed (c : ProtocolCall)
    (h : ((protocol parse config).callInto s out c).verdict ≠ .kOk) :
    ((protocol parse config).callInto s out c).out = out ∧
      ((protocol parse config).callInto s out c).protocol.synced = s.synced ∧
      ((protocol parse config).callInto s out c).protocol.lastUpdateId = s.lastUpdateId := by
  cases c with
  | frame bytes recvTsNs =>
    simp only [VenueProtocol.callInto, protocol, onFrame] at h ⊢
    cases hread : readFrame parse config bytes with
    | malformed => exact ⟨rfl, rfl, rfl⟩
    | ignored => simp [hread] at h
    | event e =>
      rw [hread] at h
      exact onEvent_failed h
  | restSnapshot body recvTsNs =>
    simp only [VenueProtocol.callInto, protocol, onRestSnapshot] at h ⊢
    cases hread : readBody parse body with
    | malformed => exact ⟨rfl, rfl, rfl⟩
    | malformedLevels => exact ⟨rfl, rfl, rfl⟩
    | snapshot id bids asks =>
      rw [hread] at h
      exact reconcile_failed h
  | reset => exact (h rfl).elim

theorem onEvent_batch {e : PendingEvent} (h : (onEvent config s e recvTsNs out).verdict = .kOk) :
    (onEvent config s e recvTsNs out).out =
      out ++ if s.synced then [e.update recvTsNs] else [] := by
  unfold onEvent at h ⊢
  split_ifs at h ⊢ with hsynced hfull hlive hgap
  · simp [hlive] at hsynced
  · simp
  · rfl
  · simp_all

theorem callInto_batch (c : ProtocolCall)
    (h : ((protocol parse config).callInto s out c).verdict = .kOk) :
    ∃ us ∈ batch parse config s c, ((protocol parse config).callInto s out c).out = out ++ us := by
  cases c with
  | frame bytes recvTsNs =>
    simp only [VenueProtocol.callInto, protocol, onFrame] at h ⊢
    rw [batch]
    cases hread : readFrame parse config bytes with
    | malformed => simp [hread] at h
    | ignored => exact ⟨[], rfl, (List.append_nil out).symm⟩
    | event e =>
      rw [hread] at h
      exact ⟨_, rfl, onEvent_batch h⟩
  | restSnapshot body recvTsNs =>
    simp only [VenueProtocol.callInto, protocol, onRestSnapshot] at h ⊢
    rw [batch]
    cases hread : readBody parse body with
    | malformed => simp [hread] at h
    | malformedLevels => simp [hread] at h
    | snapshot id bids asks =>
      rw [hread] at h
      obtain ⟨staged, through, -, hreplay, heq⟩ := reconcile_ok h
      refine ⟨_, rfl, ?_⟩
      dsimp only
      rw [heq, replayBuffered_staged hreplay]
      rfl
  | reset => exact ⟨[], rfl, (List.append_nil out).symm⟩

theorem onEvent_unstaged (e : PendingEvent) :
    onEvent config (unstaged s) e recvTsNs out =
      { onEvent config s e recvTsNs out with
        protocol := unstaged (onEvent config s e recvTsNs out).protocol } := by
  by_cases hsynced : s.synced = false
  · by_cases hfull : config.maxBufferedEvents ≤ s.buffered.length
    · simp [onEvent, unstaged, hsynced, hfull]
    · simp [onEvent, unstaged, hsynced, hfull]
  · by_cases hgap : e.firstId = s.lastUpdateId + 1
    · simp [onEvent, unstaged, hsynced, hgap]
    · simp [onEvent, unstaged, hsynced, hgap]

theorem reconcile_unstaged (id : Int) (bids asks : List Level) :
    reconcile (unstaged s) id bids asks recvTsNs out = reconcile s id bids asks recvTsNs out := rfl

theorem blindToStaging : BlindToStaging (protocol parse config) unstaged := by
  apply BlindToStaging.of_call
  intro s out c
  cases c with
  | frame bytes recvTsNs =>
    simp only [VenueProtocol.callInto, protocol, onFrame]
    cases readFrame parse config bytes with
    | malformed => exact ⟨rfl, rfl, rfl⟩
    | ignored => exact ⟨rfl, rfl, rfl⟩
    | event e =>
      dsimp only
      rw [onEvent_unstaged]
      exact ⟨rfl, rfl, rfl⟩
  | restSnapshot body recvTsNs =>
    simp only [VenueProtocol.callInto, protocol, onRestSnapshot]
    cases readBody parse body with
    | malformed => exact ⟨rfl, rfl, rfl⟩
    | malformedLevels => exact ⟨rfl, rfl, rfl⟩
    | snapshot id bids asks =>
      dsimp only
      rw [reconcile_unstaged]
      exact ⟨rfl, rfl, rfl⟩
  | reset => exact ⟨rfl, rfl, rfl⟩

theorem wholeOrNothing : WholeOrNothing (protocol parse config) State.lastUpdateId unstaged
    (batch parse config) where
  failed _ _ c h := callInto_failed c h
  accepted _ _ c h := callInto_batch c h
  leftovers _ _ _ _ inputs := (blindToStaging.answers_eq _ inputs).symm

end WholeOrNothing

end Binance

namespace Okx

def unstaged (s : State) : State := { s with staging := [] }

/-- A delta that repeats its number adds nothing. -/
def entryBatch (isSnapshot : Bool) (recvTsNs : Int) (entry : Json) : Option (List FeedUpdate) := do
  let seqId ← seqIdOf entry
  if isSnapshot = false ∧ prevSeqIdOf entry = some seqId then some []
  else
    let bids ← bidsOf entry
    let asks ← asksOf entry
    some [entryUpdate isSnapshot recvTsNs entry bids asks (entrySeq isSnapshot entry seqId)]

def Frame.batch (recvTsNs : Int) : Frame → Option (List FeedUpdate)
  | .ignored => some []
  | .malformed => none
  | .rejected _ => none
  | .entries isSnapshot data => (data.mapM (entryBatch isSnapshot recvTsNs)).map List.flatten

def batch (parse : JsonParser) (config : Config) (_s : State) :
    ProtocolCall → Option (List FeedUpdate)
  | .frame bytes recvTsNs => (readFrame parse config bytes).batch recvTsNs
  | _ => some []

section WholeOrNothing
variable {parse : JsonParser} {config : Config} {s : State} {recvTsNs : Int}
  {out : List FeedUpdate}

theorem onEntry_batch {isSnapshot synced : Bool} {b next : Batch} {entry : Json}
    (h : onEntry isSnapshot synced recvTsNs b entry = .ok next) :
    ∃ us ∈ entryBatch isSnapshot recvTsNs entry, next.staging = b.staging ++ us := by
  obtain ⟨seqId, hseq, hcont, ⟨hdelta, hsame, rfl⟩ | ⟨hmoved, bids, asks, hbids, hasks, rfl⟩⟩ :=
    onEntry_ok h
  · refine ⟨[], ?_, (List.append_nil _).symm⟩
    have hprev := (hcont hdelta).2.2
    simp [entryBatch, hseq, hdelta, hprev, hsame]
  · refine ⟨_, ?_, rfl⟩
    have hnew : ¬ (isSnapshot = false ∧ prevSeqIdOf entry = some seqId) := by
      rintro ⟨hdelta, hprev⟩
      exact hmoved hdelta (Option.some.inj (hprev.symm.trans (hcont hdelta).2.2))
    simp [entryBatch, hseq, hnew, hbids, hasks]

theorem onEntries_batch {isSnapshot synced : Bool} {data : List Json} {b next : Batch}
    (h : onEntries isSnapshot synced recvTsNs b data = (next, none)) :
    ∃ us ∈ (Frame.entries isSnapshot data).batch recvTsNs, next.staging = b.staging ++ us := by
  induction data generalizing b with
  | nil =>
    cases h
    exact ⟨[], rfl, (List.append_nil _).symm⟩
  | cons entry data ih =>
    obtain ⟨b', hstep, hdone⟩ := onEntries_cons_ok h
    obtain ⟨us, hus, hstaged⟩ := onEntry_batch hstep
    obtain ⟨rest, hrest, hall⟩ := ih hdone
    refine ⟨us ++ rest, ?_, by rw [hall, hstaged, List.append_assoc]⟩
    simp only [Frame.batch, Option.mem_def, Option.map_eq_some_iff] at hus hrest ⊢
    obtain ⟨uss, hmap, rfl⟩ := hrest
    exact ⟨us :: uss, by simp [List.mapM_cons, hus, hmap], rfl⟩

theorem callInto_failed (c : ProtocolCall)
    (h : ((protocol parse config).callInto s out c).verdict ≠ .kOk) :
    ((protocol parse config).callInto s out c).out = out ∧
      ((protocol parse config).callInto s out c).protocol.synced = s.synced ∧
      ((protocol parse config).callInto s out c).protocol.lastSeqId = s.lastSeqId ∧
      ((protocol parse config).callInto s out c).protocol.hasSeq = s.hasSeq := by
  cases c with
  | frame bytes recvTsNs =>
    simp only [VenueProtocol.callInto, protocol, onFrame] at h ⊢
    split at h
    · exact ⟨rfl, rfl, rfl, rfl⟩
    · exact (h rfl).elim
    · exact ⟨rfl, rfl, rfl, rfl⟩
    · split at h
      · exact ⟨rfl, rfl, rfl, rfl⟩
      · exact (h rfl).elim
  | restSnapshot body recvTsNs => exact (h rfl).elim
  | reset => exact (h rfl).elim

theorem callInto_batch (c : ProtocolCall)
    (h : ((protocol parse config).callInto s out c).verdict = .kOk) :
    ∃ us ∈ batch parse config s c, ((protocol parse config).callInto s out c).out = out ++ us := by
  cases c with
  | frame bytes recvTsNs =>
    simp only [VenueProtocol.callInto, protocol, onFrame] at h ⊢
    rw [batch]
    cases hread : readFrame parse config bytes with
    | ignored => exact ⟨[], rfl, (List.append_nil out).symm⟩
    | malformed => simp [hread] at h
    | rejected reason => simp [hread] at h
    | entries isSnapshot data =>
      simp only [hread] at h ⊢
      rcases hloop : onEntries isSnapshot s.synced recvTsNs ⟨[], s.lastSeqId, s.hasSeq⟩ data with
        ⟨b, _ | verdict⟩
      · obtain ⟨us, hus, hstaged⟩ := onEntries_batch hloop
        exact ⟨us, hus, congrArg (out ++ ·) hstaged⟩
      · rw [hloop] at h
        rcases onEntries_error hloop with hverdict | hverdict <;> simp [hverdict] at h
  | restSnapshot body recvTsNs => exact ⟨[], rfl, (List.append_nil out).symm⟩
  | reset => exact ⟨[], rfl, (List.append_nil out).symm⟩

theorem blindToStaging : BlindToStaging (protocol parse config) unstaged := by
  apply BlindToStaging.of_call
  intro s out c
  cases c with
  | frame bytes recvTsNs =>
    simp only [VenueProtocol.callInto, protocol, onFrame, unstaged]
    split
    · exact ⟨rfl, rfl, rfl⟩
    · exact ⟨rfl, rfl, rfl⟩
    · exact ⟨rfl, rfl, rfl⟩
    · split
      · exact ⟨rfl, rfl, rfl⟩
      · exact ⟨rfl, rfl, rfl⟩
  | restSnapshot body recvTsNs => exact ⟨rfl, rfl, rfl⟩
  | reset => exact ⟨rfl, rfl, rfl⟩

theorem wholeOrNothing : WholeOrNothing (protocol parse config)
    (fun s => (s.lastSeqId, s.hasSeq)) unstaged (batch parse config) where
  failed _ _ c h := by
    obtain ⟨hout, hsynced, hlast, hhas⟩ := callInto_failed c h
    exact ⟨hout, hsynced, Prod.ext hlast hhas⟩
  accepted _ _ c h := callInto_batch c h
  leftovers _ _ _ _ inputs := (blindToStaging.answers_eq _ inputs).symm

end WholeOrNothing

end Okx

namespace Bybit

def Frame.batch (recvTsNs : Int) : Frame → Option (List FeedUpdate)
  | .ignored => some []
  | .malformed => none
  | .rejected _ => none
  | .book isSnapshot updateId root data => do
    let bids ← bidsOf data
    let asks ← asksOf data
    some [bookUpdate isSnapshot updateId root bids asks recvTsNs]

def batch (parse : JsonParser) (config : Config) (_s : State) :
    ProtocolCall → Option (List FeedUpdate)
  | .frame bytes recvTsNs => (readFrame parse config bytes).batch recvTsNs
  | _ => some []

section WholeOrNothing
variable {parse : JsonParser} {config : Config} {s : State} {recvTsNs : Int}
  {out : List FeedUpdate}

theorem onBook_failed {isSnapshot : Bool} {id : Int} {root data : Json}
    (h : (onBook s isSnapshot id root data recvTsNs out).verdict ≠ .kOk) :
    (onBook s isSnapshot id root data recvTsNs out).out = out ∧
      (onBook s isSnapshot id root data recvTsNs out).protocol = s := by
  unfold onBook at h ⊢
  split_ifs at h ⊢
  · exact ⟨rfl, rfl⟩
  · exact ⟨rfl, rfl⟩
  · split at h
    · exact (h rfl).elim
    · exact ⟨rfl, rfl⟩

theorem callInto_failed (c : ProtocolCall)
    (h : ((protocol parse config).callInto s out c).verdict ≠ .kOk) :
    ((protocol parse config).callInto s out c).out = out ∧
      ((protocol parse config).callInto s out c).protocol.synced = s.synced ∧
      ((protocol parse config).callInto s out c).protocol.lastUpdateId = s.lastUpdateId := by
  cases c with
  | frame bytes recvTsNs =>
    simp only [VenueProtocol.callInto, protocol, onFrame] at h ⊢
    cases hread : readFrame parse config bytes with
    | malformed => exact ⟨rfl, rfl, rfl⟩
    | ignored => simp [hread] at h
    | rejected reason => exact ⟨rfl, rfl, rfl⟩
    | book isSnapshot updateId root data =>
      rw [hread] at h
      obtain ⟨hout, hsame⟩ := onBook_failed h
      exact ⟨hout, congrArg State.synced hsame, congrArg State.lastUpdateId hsame⟩
  | restSnapshot body recvTsNs => exact (h rfl).elim
  | reset => exact (h rfl).elim

theorem callInto_batch (c : ProtocolCall)
    (h : ((protocol parse config).callInto s out c).verdict = .kOk) :
    ∃ us ∈ batch parse config s c, ((protocol parse config).callInto s out c).out = out ++ us := by
  cases c with
  | frame bytes recvTsNs =>
    simp only [VenueProtocol.callInto, protocol, onFrame] at h ⊢
    rw [batch]
    cases hread : readFrame parse config bytes with
    | ignored => exact ⟨[], rfl, (List.append_nil out).symm⟩
    | malformed => simp [hread] at h
    | rejected reason => simp [hread] at h
    | book isSnapshot updateId root data =>
      rw [hread] at h
      obtain ⟨-, bids, asks, hbids, hasks, heq⟩ := onBook_ok h
      refine ⟨[bookUpdate isSnapshot updateId root bids asks recvTsNs], ?_, congrArg Called.out heq⟩
      simp [Frame.batch, hbids, hasks]
  | restSnapshot body recvTsNs => exact ⟨[], rfl, (List.append_nil out).symm⟩
  | reset => exact ⟨[], rfl, (List.append_nil out).symm⟩

theorem wholeOrNothing : WholeOrNothing (protocol parse config) State.lastUpdateId id
    (batch parse config) where
  failed _ _ c h := callInto_failed c h
  accepted _ _ c h := callInto_batch c h
  leftovers _ _ _ _ _ := rfl

end WholeOrNothing

end Bybit

namespace Adapter

def Position : Adapter → Type
  | binance _ => Int
  | okx _ => Int × Bool
  | bybit _ => Int

def position : (adapter : Adapter) → adapter.State → adapter.Position
  | binance _ => Binance.State.lastUpdateId
  | okx _ => fun s : Okx.State => (s.lastSeqId, s.hasSeq)
  | bybit _ => Bybit.State.lastUpdateId

def unstaged : (adapter : Adapter) → adapter.State → adapter.State
  | binance _ => Binance.unstaged
  | okx _ => Okx.unstaged
  | bybit _ => id

def batch (parse : JsonParser) : (adapter : Adapter) → adapter.State → ProtocolCall →
    Option (List FeedUpdate)
  | binance config => Binance.batch parse config
  | okx config => Okx.batch parse config
  | bybit config => Bybit.batch parse config

theorem callInto_batch (parse : JsonParser) (adapter : Adapter) (s : adapter.State)
    (out : List FeedUpdate) (c : ProtocolCall)
    (h : ((adapter.protocol parse).callInto s out c).verdict = .kOk) :
    ∃ us ∈ adapter.batch parse s c,
      ((adapter.protocol parse).callInto s out c).out = out ++ us := by
  cases adapter with
  | binance config => exact Binance.callInto_batch c h
  | okx config => exact Okx.callInto_batch c h
  | bybit config => exact Bybit.callInto_batch c h

theorem calls_wholeOrNothing (parse : JsonParser) (adapter : Adapter) :
    WholeOrNothing (adapter.protocol parse) adapter.position adapter.unstaged
      (adapter.batch parse) := by
  cases adapter with
  | binance config => exact Binance.wholeOrNothing
  | okx config => exact Okx.wholeOrNothing
  | bybit config => exact Bybit.wholeOrNothing

end Adapter

end CexAggregator
