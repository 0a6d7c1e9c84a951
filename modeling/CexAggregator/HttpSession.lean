import CexAggregator.Machine
import CexAggregator.Reopening

/-!
# One request over HTTP

A session has one operation in flight at a time: resolve, connect, the handshake where there is
one, write, read. With its requests spelled out in such sessions a venue goes through the same
states as one whose requests are answered in a single step.
-/

namespace CexAggregator

inductive HttpStage where
  | resolve
  | connect
  | tls
  | write
  | read
deriving DecidableEq, Repr

structure HttpAnswer where
  ok : Bool
  body : Bytes := []
  error : String := ""
deriving DecidableEq, Repr

/-- Only a connect before a handshake looks at `named`: whether the stream takes the host name. -/
inductive HttpCompletion where
  | failed (message : String)
  | succeeded (named : Bool)
  | responded (status : ℕ) (body : Bytes)
deriving DecidableEq, Repr

def HttpStage.name : HttpStage → String
  | .resolve => "resolve"
  | .connect => "connect"
  | .tls => "tls"
  | .write => "write"
  | .read => "read"

/-- `pending` is the operation in flight and `answers` are the calls of the handler. -/
structure HttpSession where
  secure : Bool
  pending : Option HttpStage := none
  done : Bool := false
  answers : List HttpAnswer := []
deriving DecidableEq, Repr

namespace HttpSession

def finish (s : HttpSession) (answer : HttpAnswer) : HttpSession :=
  if s.done then s else { s with done := true, answers := s.answers ++ [answer] }

def start (secure : Bool) : HttpSession := { secure := secure, pending := some .resolve }

def read (s : HttpSession) : HttpSession := { s with pending := some .read }

def write (s : HttpSession) : HttpSession := { s with pending := some .write }

def onResolve (s : HttpSession) : HttpSession := { s with pending := some .connect }

def onTlsConnect (s : HttpSession) (named : Bool) : HttpSession :=
  if named = false then s.finish { ok := false, error := "sni failed" }
  else { s with pending := some .tls }

def onConnect (s : HttpSession) (named : Bool) : HttpSession :=
  if s.secure then s.onTlsConnect named else s.write

def onResponse (s : HttpSession) (status : ℕ) (body : Bytes) : HttpSession :=
  if status ≠ 200 then s.finish { ok := false, error := "http status " ++ toString status }
  else s.finish { ok := true, body := body }

/-- Nothing for a completion that the operation in flight cannot have. -/
def complete (s : HttpSession) (completion : HttpCompletion) : Option HttpSession :=
  s.pending.bind fun stage =>
    let taken := { s with pending := none }
    match completion, stage with
    | .failed message, stage =>
      some (taken.finish { ok := false, error := stage.name ++ ": " ++ message })
    | .succeeded _, .resolve => some taken.onResolve
    | .succeeded named, .connect => some (taken.onConnect named)
    | .succeeded _, .tls => some taken.write
    | .succeeded _, .write => some taken.read
    | .responded status body, .read => some (taken.onResponse status body)
    | _, _ => none

end HttpSession

def httpGet (url : String) : Except HttpAnswer HttpSession :=
  match (parseUrl (utf8 url)).filter Runner.httpAccepts with
  | none => .error { ok := false, error := "malformed url: " ++ url }
  | some parsed => .ok (.start parsed.secure)

namespace HttpSession

def Live (s : HttpSession) : Prop := ∃ secure stage, s = { secure := secure, pending := some stage }

def Answered (answer : HttpAnswer) (s : HttpSession) : Prop :=
  ∃ secure, s = { secure := secure, done := true, answers := [answer] }

end HttpSession

def HttpCompletion.Tells (answer : HttpAnswer) : HttpCompletion → Prop
  | .failed message => ∃ stage : HttpStage,
      answer = { ok := false, error := stage.name ++ ": " ++ message }
  | .succeeded named => named = false ∧ answer = { ok := false, error := "sni failed" }
  | .responded status body =>
    if status = 200 then answer = { ok := true, body := body }
    else answer = { ok := false, error := "http status " ++ toString status }

namespace HttpSession

theorem live_start (secure : Bool) : (start secure).Live := ⟨secure, .resolve, rfl⟩

theorem complete_cases {secure : Bool} {stage : HttpStage} {completion : HttpCompletion}
    {next : HttpSession}
    (hcomplete : complete { secure := secure, pending := some stage } completion = some next) :
    (∃ later : HttpStage, stage.ctorIdx < later.ctorIdx ∧
      next = { secure := secure, pending := some later }) ∨
    ∃ answer, next.Answered answer ∧ completion.Tells answer := by
  cases completion with
  | failed message =>
    cases hcomplete
    exact Or.inr ⟨_, ⟨secure, rfl⟩, stage, rfl⟩
  | succeeded named =>
    cases stage with
    | resolve =>
      cases hcomplete
      exact Or.inl ⟨.connect, by decide, rfl⟩
    | connect =>
      cases hcomplete
      cases secure with
      | false => exact Or.inl ⟨.write, by decide, rfl⟩
      | true =>
        cases named with
        | false => exact Or.inr ⟨_, ⟨true, rfl⟩, rfl, rfl⟩
        | true => exact Or.inl ⟨.tls, by decide, rfl⟩
    | tls =>
      cases hcomplete
      exact Or.inl ⟨.write, by decide, rfl⟩
    | write =>
      cases hcomplete
      exact Or.inl ⟨.read, by decide, rfl⟩
    | read => cases hcomplete
  | responded status body =>
    cases stage with
    | read =>
      cases hcomplete
      by_cases hstatus : status = 200
      · refine Or.inr ⟨{ ok := true, body := body }, ⟨secure, ?_⟩, ?_⟩
        · simp [onResponse, hstatus, finish]
        · rw [HttpCompletion.Tells, if_pos hstatus]
      · refine Or.inr
          ⟨{ ok := false, error := "http status " ++ toString status }, ⟨secure, ?_⟩, ?_⟩
        · simp [onResponse, hstatus, finish]
        · rw [HttpCompletion.Tells, if_neg hstatus]
    | _ => cases hcomplete

theorem Live.complete {s next : HttpSession} (h : s.Live) {completion : HttpCompletion}
    (hcomplete : s.complete completion = some next) :
    next.Live ∨ ∃ answer, next.Answered answer ∧ completion.Tells answer := by
  obtain ⟨secure, stage, rfl⟩ := h
  obtain ⟨later, -, rfl⟩ | hanswered := complete_cases hcomplete
  · exact Or.inl ⟨secure, later, rfl⟩
  · exact Or.inr hanswered

theorem Answered.complete {s : HttpSession} {answer : HttpAnswer} (h : s.Answered answer)
    (completion : HttpCompletion) : s.complete completion = none := by
  obtain ⟨secure, rfl⟩ := h
  rfl

def left (s : HttpSession) : ℕ := s.pending.elim 0 fun stage => 5 - stage.ctorIdx

theorem left_lt {s next : HttpSession} (h : s.Live) {completion : HttpCompletion}
    (hcomplete : s.complete completion = some next) : next.left < s.left := by
  obtain ⟨secure, stage, rfl⟩ := h
  have hstage : stage.ctorIdx < 5 := by cases stage <;> decide
  obtain ⟨later, hlater, rfl⟩ | ⟨answer, ⟨secure, rfl⟩, -⟩ := complete_cases hcomplete
  · simp only [left, Option.elim_some]
    omega
  · simp only [left, Option.elim_some, Option.elim_none]
    omega

def Once (completions : List HttpCompletion) (s : HttpSession) : Prop :=
  s.Live ∨ ∃ answer, s.Answered answer ∧ ∃ completion ∈ completions, completion.Tells answer

theorem Once.complete {completions : List HttpCompletion} {s next : HttpSession}
    (h : s.Once completions) {completion : HttpCompletion} (hmem : completion ∈ completions)
    (hcomplete : s.complete completion = some next) : s.Live ∧ next.Once completions := by
  obtain hlive | ⟨answer, hanswered, -⟩ := h
  · obtain hnext | ⟨answer, hanswered, htells⟩ := hlive.complete hcomplete
    · exact ⟨hlive, Or.inl hnext⟩
    · exact ⟨hlive, Or.inr ⟨answer, hanswered, completion, hmem, htells⟩⟩
  · rw [hanswered.complete] at hcomplete
    cases hcomplete

/-- The handler is called exactly once, however the operations end: not before an answer is
known, not again afterwards, and by the time five operations have ended. What it is told is what
one of them ended with. -/
theorem handler_runs_once (secure : Bool) (completions : List HttpCompletion) :
    let s := Machine.run HttpSession.complete (start secure) completions
    s.Once completions ∧
      s.left + Machine.counted HttpSession.complete (fun _ => true) (start secure) completions ≤
        5 := by
  have honce : (start secure).Once completions := Or.inl (live_start secure)
  have hmem : Machine.Along HttpSession.complete (fun _ completion => completion ∈ completions)
      (start secure) completions :=
    Machine.along_of_forall fun completion hcompletion => hcompletion
  have hstep : ∀ (s : HttpSession) completion next, s.Once completions →
      completion ∈ completions → s.complete completion = some next → next.Once completions :=
    fun s completion next h hin hnext => (h.complete hin hnext).2
  have hlower : ∀ (s : HttpSession) completion next, s.Once completions →
      completion ∈ completions → s.complete completion = some next → next.left < s.left :=
    fun s completion next h hin hnext => left_lt (h.complete hin hnext).1 hnext
  constructor
  · exact Machine.along_rule hstep honce hmem
  · exact Machine.rank_rule left (fun _ => true) hstep
      (fun s completion next h hin hnext => (hlower s completion next h hin hnext).le)
      (fun s completion next h hin _ hnext => hlower s completion next h hin hnext) honce hmem

end HttpSession

structure HttpVenue (σ : Type) where
  venue : VenueSystem σ
  sessions : List HttpSession := []

/-- A response comes from a session, never by itself. -/
inductive HttpMove where
  | venue (move : VenueMove)
  | http (reading : Reading) (index : ℕ) (completion : HttpCompletion)

def VenueMove.Responds : VenueMove → Bool
  | .handle _ (.response _ _) => true
  | _ => false

theorem VenueMove.responds {move : VenueMove} (h : move.Responds = true) :
    ∃ reading index answer, move = .handle reading (.response index answer) := by
  cases move with
  | handle reading event =>
    cases event with
    | response index answer => exact ⟨reading, index, answer, rfl⟩
    | _ => cases h
  | _ => cases h

def HttpAnswer.received (answer : HttpAnswer) : Option Bytes :=
  if answer.ok then some answer.body else none

namespace HttpVenue
open Program
variable {σ : Type} (p : VenueProtocol σ) (options : Options) (venueIndex capacity : ℕ)

def create (initial : σ) (options : Options) : HttpVenue σ where
  venue := .create initial options

def issued (s : HttpVenue σ) : HttpVenue σ :=
  match s.venue.program, httpGet p.restSnapshotUrl with
  | .done r, .ok session =>
    let missing := r.requests.length - s.sessions.length
    { s with sessions := s.sessions ++ List.replicate missing session }
  | _, _ => s

def step (s : HttpVenue σ) : HttpMove → Option (HttpVenue σ)
  | .venue move =>
    if move.Responds then none
    else
      (s.venue.step p options venueIndex capacity move).map fun venue =>
        issued p { s with venue := venue }
  | .http reading index completion =>
    match s.venue.program with
    | .done r =>
      if r.halted then none
      else
        (s.sessions[index]?).bind fun session =>
          (session.complete completion).bind fun next =>
            match next.answers with
            | [] => some { s with sessions := s.sessions.set index next }
            | answer :: _ =>
              (s.venue.step p options venueIndex capacity
                (.handle reading (.response index answer.received))).map fun venue =>
                  issued p { venue := venue, sessions := s.sessions.eraseIdx index }
    | _ => none

def run (s : HttpVenue σ) (moves : List HttpMove) : HttpVenue σ :=
  Machine.run (step p options venueIndex capacity) s moves

variable {p options venueIndex capacity} {s t : HttpVenue σ} {r : Runner σ}

theorem issued_venue (s : HttpVenue σ) : (issued p s).venue = s.venue := by
  rw [issued]
  split <;> rfl

theorem step_view {move : HttpMove} (hstep : s.step p options venueIndex capacity move = some t) :
    t.venue = s.venue ∨
      ∃ own, s.venue.step p options venueIndex capacity own = some t.venue := by
  cases move with
  | venue move =>
    simp only [step] at hstep
    split_ifs at hstep
    obtain ⟨venue, hvenue, rfl⟩ := Option.map_eq_some_iff.mp hstep
    rw [issued_venue]
    exact Or.inr ⟨move, hvenue⟩
  | http reading index completion =>
    simp only [step] at hstep
    split at hstep
    · split_ifs at hstep
      obtain ⟨session, hsession, hstep⟩ := Option.bind_eq_some_iff.mp hstep
      obtain ⟨next, hnext, hstep⟩ := Option.bind_eq_some_iff.mp hstep
      split at hstep
      · cases hstep
        exact Or.inl rfl
      · obtain ⟨venue, hvenue, rfl⟩ := Option.map_eq_some_iff.mp hstep
        rw [issued_venue]
        exact Or.inr ⟨_, hvenue⟩
    · cases hstep

variable (p) in
def Grown (requests : ℕ) (r : Runner σ) : Prop :=
  requests ≤ r.requests.length ∧ (r.requests ≠ [] → p.needsRestSnapshot = true)

theorem grown_rules (hunsynced : ∀ s, p.synced (p.reset s) = false) (reading : Reading)
    (requests : ℕ) :
    Runner.Rules p venueIndex reading Runner.unchecked (fun _ => True)
      (fun _ => Grown p requests) (fun _ => Grown p requests) where
  unsynced := hunsynced
  free := trivial
  aside h hsame := by
    rw [Grown, hsame.requests]
    exact h
  handling _ h _ := ⟨trivial, h⟩
  stopping h _ _ := ⟨trivial, h⟩
  disconnected h _ := ⟨trivial, h⟩
  stored h _ _ _ := ⟨trivial, h⟩
  scheduled h _ _ := ⟨trivial, h⟩
  charged h := h
  requested q h hrest _ := by
    refine ⟨h.1.trans ?_, fun _ => hrest⟩
    rw [List.length_append]
    exact Nat.le_add_right _ _
  restarted _ _ h _ _ := ⟨trivial, fun _ => ⟨trivial, h⟩⟩
  called _ _ _ h _ _ _ := ⟨trivial, h⟩
  fatal _ h _ _ := ⟨trivial, fun _ => ⟨trivial, h⟩⟩
  pushed h _ _ accepted _ := ⟨trivial, by cases accepted <;> exact h⟩
  unpushed h _ _ _ _ := h
  live h _ _ _ := ⟨trivial, h⟩
  idle h _ := h

variable (p) in
def Grows (requests : ℕ) (program : VenueProgram (Runner σ)) : Prop :=
  Meets Runner.unchecked (fun _ => Grown p requests) program ()

variable (p) in
structure Matched (s : HttpVenue σ) : Prop where
  live : ∀ session ∈ s.sessions, session.Live
  grows : Grows p s.sessions.length s.venue.program
  paired : ∀ r, s.venue.program = .done r → s.sessions.length = r.requests.length

theorem httpGet_addressed (haddressed : p.Addressed) (hrest : p.needsRestSnapshot = true) :
    ∃ secure, httpGet p.restSnapshotUrl = .ok (.start secure) := by
  obtain ⟨url, hurl⟩ := Option.isSome_iff_exists.mp (haddressed.snapshot hrest)
  exact ⟨url.secure, by rw [httpGet, hurl]⟩

theorem httpGet_live {url : String} {session : HttpSession} (h : httpGet url = .ok session) :
    session.Live := by
  rw [httpGet] at h
  split at h
  · cases h
  · cases h
    exact HttpSession.live_start _

theorem matched_issued (haddressed : p.Addressed) (hlive : ∀ session ∈ s.sessions, session.Live)
    (hgrows : Grows p s.sessions.length s.venue.program) : Matched p (issued p s) := by
  rw [issued]
  split
  · rename_i r session hprogram hget
    rw [hprogram] at hgrows
    have hlength : (s.sessions ++
        List.replicate (r.requests.length - s.sessions.length) session).length =
          r.requests.length := by
      rw [List.length_append, List.length_replicate]
      exact Nat.add_sub_cancel' hgrows.1
    refine ⟨List.forall_mem_append.mpr ⟨hlive, ?_⟩, ?_, ?_⟩
    · intro session' hsession'
      rw [(List.mem_replicate.mp hsession').2]
      exact httpGet_live hget
    · rw [hlength, hprogram]
      exact ⟨le_rfl, hgrows.2⟩
    · intro r' hr'
      cases hprogram.symm.trans hr'
      exact hlength
  · rename_i hother
    refine ⟨hlive, hgrows, fun r hprogram => ?_⟩
    rw [hprogram] at hgrows
    by_cases hnone : r.requests = []
    · have hbound := hgrows.1
      rw [hnone, List.length_nil] at hbound ⊢
      exact Nat.le_zero.mp hbound
    · obtain ⟨secure, hget⟩ := httpGet_addressed haddressed (hgrows.2 hnone)
      exact (hother r _ hprogram hget).elim

theorem Grows.handle (hunsynced : ∀ s, p.synced (p.reset s) = false) {requests : ℕ}
    (h : Grown p requests (r.answered event)) (hneeded : r.requests ≠ [] →
      p.needsRestSnapshot = true) {program : VenueProgram (Runner σ)}
    (hhandle : r.handle p options venueIndex (reading, event) = some program) :
    Grows p requests program :=
  (grown_rules hunsynced reading requests).handle h hneeded (Or.inl trivial) hhandle

theorem Matched.venue (hunsynced : ∀ s, p.synced (p.reset s) = false) (haddressed : p.Addressed)
    (h : Matched p s) {move : VenueMove} (hmove : move.Responds = false) {venue : VenueSystem σ}
    (hstep : s.venue.step p options venueIndex capacity move = some venue) :
    Matched p (issued p { s with venue := venue }) := by
  refine matched_issued haddressed h.live ?_
  cases VenueSystem.stepped_of_step hstep with
  | @handle reading event r program hdone hhandle =>
    have hgrown := h.grows
    rw [hdone] at hgrown
    have hanswered : r.answered event = r := by
      cases event <;> first | rfl | cases hmove
    exact Grows.handle hunsynced (hanswered.symm ▸ hgrown) hgrown.2 hhandle
  | act hacted => exact (h.grows.advance hacted.program trivial).2
  | pop hring => exact h.grows
  | stop => exact h.grows

theorem Matched.response (hunsynced : ∀ s, p.synced (p.reset s) = false)
    (haddressed : p.Addressed) (h : Matched p s) {reading : Reading} {index : ℕ}
    {answer : Option Bytes} {venue : VenueSystem σ}
    (hstep : s.venue.step p options venueIndex capacity
      (.handle reading (.response index answer)) = some venue) :
    Matched p (issued p { venue := venue, sessions := s.sessions.eraseIdx index }) := by
  refine matched_issued haddressed (fun session hsession =>
    h.live session (List.mem_of_mem_eraseIdx hsession)) ?_
  cases VenueSystem.stepped_of_step hstep with
  | @handle _ _ r program hdone hhandle =>
    have hgrown := h.grows
    rw [hdone] at hgrown
    refine Grows.handle hunsynced ⟨?_, fun hsome => ?_⟩ hgrown.2 hhandle
    · change _ ≤ (r.requests.eraseIdx index).length
      rw [List.length_eraseIdx, List.length_eraseIdx, h.paired r hdone]
    · obtain ⟨requests, hanswered, hleft⟩ := r.answered_eq (.response index answer)
      rw [hanswered] at hsome
      exact hgrown.2 (hleft hsome)

theorem Matched.set (h : Matched p s) {index : ℕ} {session : HttpSession} (hlive : session.Live) :
    Matched p { s with sessions := s.sessions.set index session } where
  live other hother := by
    obtain hother | rfl := List.mem_or_eq_of_mem_set hother
    · exact h.live other hother
    · exact hlive
  grows := by
    rw [List.length_set]
    exact h.grows
  paired := by
    rw [List.length_set]
    exact h.paired

theorem Matched.step (hunsynced : ∀ s, p.synced (p.reset s) = false) (haddressed : p.Addressed)
    (h : Matched p s) {move : HttpMove}
    (hstep : s.step p options venueIndex capacity move = some t) : Matched p t := by
  cases move with
  | venue move =>
    simp only [HttpVenue.step] at hstep
    split_ifs at hstep with hmove
    obtain ⟨venue, hvenue, rfl⟩ := Option.map_eq_some_iff.mp hstep
    exact h.venue hunsynced haddressed (Bool.not_eq_true _ ▸ hmove) hvenue
  | http reading index completion =>
    simp only [HttpVenue.step] at hstep
    split at hstep
    · split_ifs at hstep
      obtain ⟨session, hsession, hstep⟩ := Option.bind_eq_some_iff.mp hstep
      obtain ⟨next, hnext, hstep⟩ := Option.bind_eq_some_iff.mp hstep
      have hsession := h.live session (List.mem_of_getElem? hsession)
      split at hstep
      · rename_i hanswers
        cases hstep
        obtain hlive | ⟨answer, ⟨secure, rfl⟩, -⟩ := hsession.complete hnext
        · exact h.set hlive
        · cases hanswers
      · obtain ⟨venue, hvenue, rfl⟩ := Option.map_eq_some_iff.mp hstep
        exact h.response hunsynced haddressed hvenue
    · cases hstep

theorem advance (secure : Bool) {stage : HttpStage} (hstage : stage ≠ .read) :
    ∃ later : HttpStage, stage.ctorIdx < later.ctorIdx ∧
      HttpSession.complete { secure := secure, pending := some stage } (.succeeded true) =
        some { secure := secure, pending := some later } := by
  have hnext : ∃ next,
      HttpSession.complete { secure := secure, pending := some stage } (.succeeded true) =
        some next := by
    cases stage with
    | read => exact (hstage rfl).elim
    | _ => exact ⟨_, rfl⟩
  obtain ⟨next, hnext⟩ := hnext
  obtain ⟨later, hlater, rfl⟩ | ⟨answer, -, hnamed, -⟩ := HttpSession.complete_cases hnext
  · exact ⟨later, hlater, hnext⟩
  · cases hnamed

theorem step_answers (hprogram : s.venue.program = .done r) (hrunning : r.halted = false)
    {reading : Reading} {index : ℕ} {session next : HttpSession} (completion : HttpCompletion)
    (answer : HttpAnswer) {venue : VenueSystem σ} (hsession : s.sessions[index]? = some session)
    (hnext : session.complete completion = some next) (hanswered : next.Answered answer)
    (hstep : s.venue.step p options venueIndex capacity
      (.handle reading (.response index answer.received)) = some venue) :
    s.step p options venueIndex capacity (.http reading index completion) =
      some (issued p { venue := venue, sessions := s.sessions.eraseIdx index }) := by
  obtain ⟨secure, rfl⟩ := hanswered
  simp [HttpVenue.step, hprogram, hrunning, hsession, hnext, hstep]

theorem step_advances (hprogram : s.venue.program = .done r) (hrunning : r.halted = false)
    (reading : Reading) {index : ℕ} {session next : HttpSession} {completion : HttpCompletion}
    (hsession : s.sessions[index]? = some session)
    (hnext : session.complete completion = some next) (hlive : next.Live) :
    s.step p options venueIndex capacity (.http reading index completion) =
      some { s with sessions := s.sessions.set index next } := by
  obtain ⟨secure, stage, rfl⟩ := hlive
  simp [HttpVenue.step, hprogram, hrunning, hsession, hnext]

variable (p options venueIndex capacity) in
def Covered (s : HttpVenue σ) (venue : VenueSystem σ) : Prop :=
  ∃ moves, Matched p (s.run p options venueIndex capacity moves) ∧
    (s.run p options venueIndex capacity moves).venue = venue

theorem covered_of_step {move : HttpMove} {venue : VenueSystem σ}
    (hstep : s.step p options venueIndex capacity move = some t)
    (h : Covered p options venueIndex capacity t venue) :
    Covered p options venueIndex capacity s venue := by
  obtain ⟨moves, hmatched, hvenue⟩ := h
  refine ⟨move :: moves, ?_⟩
  rw [run, Machine.run_cons, Machine.next_of_some hstep]
  exact ⟨hmatched, hvenue⟩

theorem covered_of_last (hunsynced : ∀ s, p.synced (p.reset s) = false)
    (haddressed : p.Addressed) (h : Matched p s) {move : HttpMove} {venue : VenueSystem σ}
    (hstep : s.step p options venueIndex capacity move = some t) (hvenue : t.venue = venue) :
    Covered p options venueIndex capacity s venue :=
  covered_of_step hstep ⟨[], h.step hunsynced haddressed hstep, hvenue⟩

theorem covered_body (hunsynced : ∀ s, p.synced (p.reset s) = false) (haddressed : p.Addressed)
    (h : Matched p s) (hprogram : s.venue.program = .done r) (hrunning : r.halted = false)
    {reading : Reading} {index : ℕ} {secure : Bool} {stage : HttpStage} {body : Bytes}
    {venue : VenueSystem σ}
    (hsession : s.sessions[index]? = some { secure := secure, pending := some stage })
    (hstep : s.venue.step p options venueIndex capacity
      (.handle reading (.response index (some body))) = some venue) :
    Covered p options venueIndex capacity s venue := by
  induction hleft : 4 - stage.ctorIdx using Nat.strong_induction_on generalizing s stage with
  | _ left ih =>
    -- Each completion leads to the next stage, and the one of the read brings the body.
    by_cases hread : stage = .read
    · subst hread
      have hlast := step_answers hprogram hrunning (.responded 200 body)
        { ok := true, body := body } hsession rfl ⟨secure, rfl⟩ hstep
      exact covered_of_last hunsynced haddressed h hlast (issued_venue _)
    · obtain ⟨next, hlater, hnext⟩ := advance secure hread
      have hlive : HttpSession.Live { secure := secure, pending := some next } :=
        ⟨secure, next, rfl⟩
      have hbound : index < s.sessions.length := (List.getElem?_eq_some_iff.mp hsession).1
      refine covered_of_step (step_advances hprogram hrunning reading hsession hnext hlive)
        (ih _ ?_ (h.set hlive) hprogram (List.getElem?_set_self hbound) hstep rfl)
      have hlast : stage.ctorIdx < 4 := by
        cases stage <;> first | decide | exact (hread rfl).elim
      omega

theorem covered_response (hunsynced : ∀ s, p.synced (p.reset s) = false)
    (haddressed : p.Addressed) (h : Matched p s) {reading : Reading} {index : ℕ}
    {answer : Option Bytes} {venue : VenueSystem σ}
    (hstep : s.venue.step p options venueIndex capacity
      (.handle reading (.response index answer)) = some venue) :
    Covered p options venueIndex capacity s venue := by
  have hsource := hstep
  cases VenueSystem.stepped_of_step hstep with
  | @handle _ _ r program hdone hhandle =>
    have hrunning : r.halted = false := by
      rw [Runner.handle] at hhandle
      split_ifs at hhandle with hhalted
      exact Bool.not_eq_true _ ▸ hhalted
    cases Runner.handled_of_handle hhandle with
    | response answer hpending =>
      have hbound : index < s.sessions.length := by
        rw [h.paired r hdone]
        exact (List.getElem?_eq_some_iff.mp hpending).1
      obtain ⟨secure, stage, hlive⟩ := h.live _ (List.getElem_mem hbound)
      have hsession := (List.getElem?_eq_getElem hbound).trans (congrArg some hlive)
      cases answer with
      | none =>
        have hlast := step_answers hdone hrunning (.failed "")
          { ok := false, error := stage.name ++ ": " ++ "" } hsession rfl ⟨secure, rfl⟩ hsource
        exact covered_of_last hunsynced haddressed h hlast (issued_venue _)
      | some body => exact covered_body hunsynced haddressed h hdone hrunning hsession hsource

theorem covered (hunsynced : ∀ s, p.synced (p.reset s) = false) (haddressed : p.Addressed)
    (h : Matched p s) {move : VenueMove} {venue : VenueSystem σ}
    (hstep : s.venue.step p options venueIndex capacity move = some venue) :
    Covered p options venueIndex capacity s venue := by
  cases hmove : move.Responds with
  | false =>
    have hown : s.step p options venueIndex capacity (.venue move) =
        some (issued p { s with venue := venue }) := by
      simp [HttpVenue.step, hmove, hstep]
    exact covered_of_last hunsynced haddressed h hown (issued_venue _)
  | true =>
    obtain ⟨reading, index, answer, rfl⟩ := VenueMove.responds hmove
    exact covered_response hunsynced haddressed h hstep

theorem matched_create (initial : σ) (options : Options) : Matched p (create initial options) where
  live session hsession := (List.not_mem_nil hsession).elim
  grows := ⟨le_rfl, fun hsome => (hsome rfl).elim⟩
  paired r hprogram := by
    cases hprogram
    rfl

/-- Answering requests in one step leaves nothing out and adds nothing: with their sessions
spelled out a venue goes through the same states. Between two handlers each request has one
session in flight, which has not called its handler yet. -/
theorem transport_exact (p : VenueProtocol σ) (options : Options) (venueIndex capacity : ℕ)
    (initial : σ) (hunsynced : ∀ s, p.synced (p.reset s) = false) (haddressed : p.Addressed) :
    (∀ moves, ∃ own,
      ((create initial options).run p options venueIndex capacity moves).venue =
        (VenueSystem.create initial options).run p options venueIndex capacity own) ∧
    (∀ own, ∃ moves,
      ((create initial options).run p options venueIndex capacity moves).venue =
        (VenueSystem.create initial options).run p options venueIndex capacity own) ∧
    ∀ moves r,
      ((create initial options).run p options venueIndex capacity moves).venue.program = .done r →
        ((create initial options).run p options venueIndex capacity moves).sessions.length =
          r.requests.length ∧
        ∀ session ∈ ((create initial options).run p options venueIndex capacity moves).sessions,
          session.Live := by
  have hstep : ∀ (s : HttpVenue σ) (move : HttpMove) (t : HttpVenue σ), Matched p s →
      s.step p options venueIndex capacity move = some t → Matched p t :=
    fun s move t h => h.step hunsynced haddressed
  have hcreated : Matched p (create initial options) := matched_create initial options
  have hmatched := Machine.run_rule hstep hcreated
  have hview : ∀ (s : HttpVenue σ) (move : HttpMove) (t : HttpVenue σ), Matched p s →
      s.step p options venueIndex capacity move = some t → t.venue = s.venue ∨
        ∃ own, s.venue.step p options venueIndex capacity own = some t.venue :=
    fun s move t _ => step_view
  have hcovers : ∀ (s : HttpVenue σ) (own : VenueMove) (venue : VenueSystem σ), Matched p s →
      s.venue.step p options venueIndex capacity own = some venue →
        Covered p options venueIndex capacity s venue :=
    fun s own venue h => covered hunsynced haddressed h
  refine ⟨fun moves => ?_, fun own => ?_, fun moves r hprogram => ?_⟩
  · exact Machine.run_view hstep hview hcreated moves
  · exact Machine.run_covers hcovers hcreated own
  · exact ⟨(hmatched moves).paired r hprogram, (hmatched moves).live⟩

theorem transport_exact_binance :
    let p := Binance.protocol (fun _ => none) {}
    ∀ own, ∃ moves, ((create {} {}).run p {} 0 4 moves).venue =
      (VenueSystem.create {} {}).run p {} 0 4 own := by
  intro p
  have haddressed : p.Addressed := ⟨by decide +kernel, fun _ => by decide +kernel⟩
  exact (transport_exact p {} 0 4 {} (fun _ => rfl) haddressed).2.1

end HttpVenue

end CexAggregator
