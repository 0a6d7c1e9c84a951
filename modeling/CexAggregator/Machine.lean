import Mathlib.Order.Lattice
import Mathlib.Tactic.Common

/-!
# Machines that take one move at a time

A machine answers each move with its next state, or not at all when the move cannot happen.
A run takes any moves in any order, so what holds of every run holds of every interleaving.
-/

namespace CexAggregator.Machine

variable {σ μ : Type*} (step : σ → μ → Option σ)

def next (s : σ) (move : μ) : σ := (step s move).getD s

def run (s : σ) (moves : List μ) : σ := moves.foldl (next step) s

/-- Every move that happens has `P`, judged by the state it happens in. -/
def Along (P : σ → μ → Prop) : σ → List μ → Prop
  | _, [] => True
  | s, move :: moves => ((step s move).isSome → P s move) ∧ Along P (next step s move) moves

def decideAlong {P : σ → μ → Prop} [∀ s move, Decidable (P s move)] :
    (s : σ) → (moves : List μ) → Decidable (Along step P s moves)
  | _, [] => inferInstanceAs (Decidable True)
  | s, move :: moves => @instDecidableAnd _ _ _ (decideAlong (next step s move) moves)

instance {P : σ → μ → Prop} [∀ s move, Decidable (P s move)] (s : σ) (moves : List μ) :
    Decidable (Along step P s moves) := decideAlong step s moves

variable {step}

@[simp] theorem run_nil (s : σ) : run step s [] = s := rfl

@[simp] theorem run_cons (s : σ) (move : μ) (moves : List μ) :
    run step s (move :: moves) = run step (next step s move) moves := rfl

theorem run_append (s : σ) (as bs : List μ) :
    run step s (as ++ bs) = run step (run step s as) bs := List.foldl_append

theorem run_snoc (s : σ) (moves : List μ) (move : μ) :
    run step s (moves ++ [move]) = next step (run step s moves) move := by
  simp [run_append]

theorem next_of_some {s t : σ} {move : μ} (h : step s move = some t) : next step s move = t := by
  rw [next, h, Option.getD_some]

theorem next_of_none {s : σ} {move : μ} (h : step s move = none) : next step s move = s := by
  rw [next, h, Option.getD_none]

theorem next_rule {I : σ → Prop} {s : σ} {move : μ} (hs : I s)
    (hsome : ∀ t, step s move = some t → I t) : I (next step s move) := by
  cases hmove : step s move with
  | none =>
    rw [next_of_none hmove]
    exact hs
  | some t =>
    rw [next_of_some hmove]
    exact hsome t hmove

section Rules
variable {I Q : σ → Prop} {P R : σ → μ → Prop} {s : σ} {moves : List μ}

theorem Along.of_append {as bs : List μ} (h : Along step P s (as ++ bs)) : Along step P s as := by
  induction as generalizing s with
  | nil => trivial
  | cons move as ih => exact ⟨h.1, ih h.2⟩

theorem along_rule (hstep : ∀ s move t, I s → P s move → step s move = some t → I t) (hs : I s)
    (h : Along step P s moves) : I (run step s moves) := by
  induction moves generalizing s with
  | nil => exact hs
  | cons move moves ih =>
    apply ih _ h.2
    apply next_rule hs
    intro t hmove
    exact hstep s move t hs (h.1 (by rw [hmove]; rfl)) hmove

theorem along_mono (hstep : ∀ s move t, I s → P s move → step s move = some t → I t)
    (hR : ∀ s move, I s → P s move → R s move) (hs : I s) (h : Along step P s moves) :
    Along step R s moves := by
  induction moves generalizing s with
  | nil => trivial
  | cons move moves ih =>
    refine ⟨fun hsome => hR s move hs (h.1 hsome), ih ?_ h.2⟩
    apply next_rule hs
    intro t hmove
    exact hstep s move t hs (h.1 (by rw [hmove]; rfl)) hmove

theorem along_true (s : σ) (moves : List μ) : Along step (fun _ _ => True) s moves := by
  induction moves generalizing s with
  | nil => trivial
  | cons move moves ih => exact ⟨fun _ => trivial, ih _⟩

theorem along_of_forall {P : μ → Prop} (h : ∀ move ∈ moves, P move) :
    Along step (fun _ => P) s moves := by
  induction moves generalizing s with
  | nil => trivial
  | cons move moves ih =>
    exact ⟨fun _ => h move List.mem_cons_self, ih fun move hmove => h move (.tail _ hmove)⟩

theorem run_rule (hstep : ∀ s move t, I s → step s move = some t → I t) (hs : I s)
    (moves : List μ) : I (run step s moves) :=
  along_rule (fun s move t h _ hmove => hstep s move t h hmove) hs (along_true s moves)

/-- If a step keeps `Q` just when it has `P`, then every state of a run has `Q` just when
every step of it has `P`. -/
theorem forall_prefix_iff_along
    (hstep : ∀ s move t, I s → P s move → step s move = some t → I t) (hI : ∀ s, I s → Q s)
    (hQ : ∀ s move t, I s → step s move = some t → Q t → P s move) (hs : I s) (moves : List μ) :
    (∀ done, done <+: moves → Q (run step s done)) ↔ Along step P s moves := by
  constructor
  · intro h
    induction moves generalizing s with
    | nil => trivial
    | cons move moves ih =>
      have hfirst : Q (next step s move) := h [move] ⟨moves, rfl⟩
      have hP : ∀ t, step s move = some t → P s move := by
        intro t hmove
        rw [next_of_some hmove] at hfirst
        exact hQ s move t hs hmove hfirst
      constructor
      · intro hsome
        obtain ⟨t, hmove⟩ := Option.isSome_iff_exists.mp hsome
        exact hP t hmove
      · apply ih
        · apply next_rule hs
          intro t hmove
          exact hstep s move t hs (hP t hmove) hmove
        · intro done hdone
          exact h (move :: done) (List.cons_prefix_cons.mpr ⟨rfl, hdone⟩)
  · rintro h done ⟨rest, rfl⟩
    exact hI _ (along_rule hstep hs h.of_append)

end Rules

section Rank
variable {I : σ → Prop} {P : σ → μ → Prop} (rank : σ → ℕ) (counts : μ → Bool)

variable (step) in
def counted : σ → List μ → ℕ
  | _, [] => 0
  | s, move :: moves =>
    (if (step s move).isSome ∧ counts move then 1 else 0) + counted (next step s move) moves

/-- No step raises the rank and each one that counts lowers it: there are no more of them than
the rank lets pass. -/
theorem rank_rule (hI : ∀ s move t, I s → P s move → step s move = some t → I t)
    (hkeep : ∀ s move t, I s → P s move → step s move = some t → rank t ≤ rank s)
    (hlower : ∀ s move t, I s → P s move → counts move = true → step s move = some t →
      rank t < rank s)
    {s : σ} {moves : List μ} (hs : I s) (h : Along step P s moves) :
    rank (run step s moves) + counted step counts s moves ≤ rank s := by
  induction moves generalizing s with
  | nil => exact Nat.le_refl _
  | cons move moves ih =>
    rw [run_cons, counted]
    cases hmove : step s move with
    | none =>
      rw [next_of_none hmove]
      have hrest := h.2
      rw [next_of_none hmove] at hrest
      simpa using ih hs hrest
    | some t =>
      have hP : P s move := h.1 (by rw [hmove]; rfl)
      have hrest := h.2
      rw [next_of_some hmove] at hrest ⊢
      have hlast := ih (hI s move t hs hP hmove) hrest
      by_cases hcounts : counts move = true
      · have hless := hlower s move t hs hP hcounts hmove
        simp only [Option.isSome_some, hcounts, and_self, ↓reduceIte]
        omega
      · have hle := hkeep s move t hs hP hmove
        simp only [hcounts, and_false, Bool.false_eq_true, ↓reduceIte]
        omega

end Rank

section View
variable {σ' μ' : Type*} {step' : σ' → μ' → Option σ'} {I : σ → Prop} {view : σ → σ'}

/-- Under a view that follows every step with a step of another machine, or with none, a run
is one of that machine. -/
theorem run_view (hI : ∀ s move t, I s → step s move = some t → I t)
    (hview : ∀ s move t, I s → step s move = some t →
      view t = view s ∨ ∃ move', step' (view s) move' = some (view t))
    {s : σ} (hs : I s) (moves : List μ) :
    ∃ moves', view (run step s moves) = run step' (view s) moves' := by
  induction moves generalizing s with
  | nil => exact ⟨[], rfl⟩
  | cons move moves ih =>
    have hnext : I (next step s move) := next_rule hs fun t hmove => hI s move t hs hmove
    obtain ⟨rest, hrest⟩ := ih hnext
    have hfirst : view (next step s move) = view s ∨
        ∃ move', next step' (view s) move' = view (next step s move) := by
      cases hmove : step s move with
      | none => exact Or.inl (congrArg view (next_of_none hmove))
      | some t =>
        rw [next_of_some hmove]
        obtain hstutter | ⟨move', hmove'⟩ := hview s move t hs hmove
        · exact Or.inl hstutter
        · exact Or.inr ⟨move', next_of_some hmove'⟩
    obtain hstutter | ⟨move', hmove'⟩ := hfirst
    · rw [hstutter] at hrest
      exact ⟨rest, hrest⟩
    · rw [← hmove'] at hrest
      exact ⟨move' :: rest, hrest⟩

theorem run_covers
    (hcovers : ∀ s move' t', I s → step' (view s) move' = some t' →
      ∃ moves, I (run step s moves) ∧ view (run step s moves) = t')
    {s : σ} (hs : I s) (moves' : List μ') :
    ∃ moves, view (run step s moves) = run step' (view s) moves' := by
  induction moves' generalizing s with
  | nil => exact ⟨[], rfl⟩
  | cons move' moves' ih =>
    rw [run_cons]
    cases hmove' : step' (view s) move' with
    | none =>
      rw [next_of_none hmove']
      exact ih hs
    | some t' =>
      rw [next_of_some hmove']
      obtain ⟨first, hfirst, rfl⟩ := hcovers s move' t' hs hmove'
      obtain ⟨rest, hrest⟩ := ih hfirst
      exact ⟨first ++ rest, by rw [run_append, hrest]⟩

end View

section Clock
variable {τ : Type*} [LinearOrder τ] {now later : τ} {as bs : List τ}

/-- A clock that has come to `now` and does not go back between two of these readings. -/
def Forward (now : τ) (readings : List τ) : Prop := (now :: readings).Pairwise (· ≤ ·)

theorem forward_nil (now : τ) : Forward now [] := List.pairwise_singleton _ _

theorem Forward.cons (hnow : now ≤ later) (h : Forward later as) : Forward now (later :: as) := by
  refine List.pairwise_cons.mpr ⟨?_, h⟩
  intro t ht
  obtain rfl | hmem := List.mem_cons.mp ht
  · exact hnow
  · exact hnow.trans ((List.pairwise_cons.mp h).1 t hmem)

theorem Forward.append (h : Forward now as) (hnow : now ≤ later) (hlast : ∀ t ∈ as, t ≤ later)
    (hrest : Forward later bs) : Forward now (as ++ bs) := by
  obtain ⟨hlater, hbs⟩ := List.pairwise_cons.mp hrest
  rw [Forward, ← List.cons_append, List.pairwise_append]
  refine ⟨h, hbs, fun a ha b hb => le_trans ?_ (hlater b hb)⟩
  obtain rfl | hmem := List.mem_cons.mp ha
  · exact hnow
  · exact hlast a hmem

theorem forward_of_forall_eq (h : ∀ t ∈ as, t = now) : Forward now as := by
  induction as with
  | nil => exact forward_nil now
  | cons t as ih =>
    obtain ⟨rfl, hrest⟩ := List.forall_mem_cons.mp h
    exact Forward.cons le_rfl (ih hrest)

theorem exists_later (now : τ) (readings : List τ) :
    ∃ later, now ≤ later ∧ ∀ t ∈ readings, t ≤ later := by
  induction readings with
  | nil => exact ⟨now, le_rfl, List.forall_mem_nil _⟩
  | cons t readings ih =>
    obtain ⟨later, hnow, hlater⟩ := ih
    refine ⟨max t later, hnow.trans (le_max_right _ _), ?_⟩
    refine List.forall_mem_cons.mpr ⟨le_max_left _ _, fun u hu => ?_⟩
    exact (hlater u hu).trans (le_max_right _ _)

end Clock

end CexAggregator.Machine
