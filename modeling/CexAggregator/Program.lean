import Mathlib.Tactic.Common
import Mathlib.Data.List.Basic

/-!
# Programs that act on shared state

A thread works on state of its own and acts, now and then, on state that others see: it
emits, or it asks and goes on with the answer. `Meets` is the weakest precondition of a
contract over these acts, relative to a monitor that watches them; `Runs.meets` carries it
to everything a thread does that handles one event after the other.
-/

namespace CexAggregator

inductive Act (ε β : Type*) where
  | emitted (e : ε)
  | asked (b : β) (answer : Bool)
deriving DecidableEq

inductive Program (ε β α : Type*) where
  | done (a : α)
  | emit (e : ε) (next : Program ε β α)
  | ask (b : β) (next : Bool → Program ε β α)

namespace Program
universe u
variable {ε β : Type*} {α γ : Type u}

protected def bind : Program ε β α → (α → Program ε β γ) → Program ε β γ
  | .done a, f => f a
  | .emit e next, f => .emit e (next.bind f)
  | .ask b next, f => .ask b fun answer => (next answer).bind f

instance : Monad (Program ε β) where
  pure := .done
  bind := Program.bind

def tell (e : ε) : Program ε β Unit := .emit e (.done ())

def query (b : β) : Program ε β Bool := .ask b .done

def endsIn (test : α → Bool) : Program ε β α → Bool
  | .done a => test a
  | _ => false

theorem exists_of_endsIn {test : α → Bool} {program : Program ε β α}
    (h : program.endsIn test = true) : ∃ a, program = .done a ∧ test a = true := by
  cases program with
  | done a => exact ⟨a, rfl, h⟩
  | emit e next => exact (Bool.false_ne_true h).elim
  | ask b next => exact (Bool.false_ne_true h).elim

end Program

/-- What a party may count on, and what it promises, about each act. -/
structure Contract (ε β τ : Type*) where
  track : τ → Act ε β → τ
  rely : τ → Act ε β → Prop
  guarantee : τ → Act ε β → Prop

namespace Program
universe u
variable {ε β τ : Type*} {α γ : Type u} (c : Contract ε β τ)

def Meets (Q : τ → α → Prop) : Program ε β α → τ → Prop
  | .done a, t => Q t a
  | .emit e next, t => c.rely t (.emitted e) →
      c.guarantee t (.emitted e) ∧ Meets Q next (c.track t (.emitted e))
  | .ask b next, t => ∀ answer, c.rely t (.asked b answer) →
      c.guarantee t (.asked b answer) ∧ Meets Q (next answer) (c.track t (.asked b answer))

variable {c} {Q Q' : τ → α → Prop} {t : τ}

@[simp] theorem meets_done {a : α} : Meets c Q (.done a) t ↔ Q t a := Iff.rfl

theorem Meets.mono {p : Program ε β α} (h : Meets c Q p t) (hQ : ∀ t a, Q t a → Q' t a) :
    Meets c Q' p t := by
  induction p generalizing t with
  | done a => exact hQ t a h
  | emit e next ih => exact fun hrely => ⟨(h hrely).1, ih (h hrely).2⟩
  | ask b next ih => exact fun answer hrely => ⟨(h answer hrely).1, ih answer (h answer hrely).2⟩

theorem meets_bind {Q : τ → γ → Prop} {p : Program ε β α} {f : α → Program ε β γ} :
    Meets c Q (p >>= f) t ↔ Meets c (fun t a => Meets c Q (f a) t) p t := by
  change Meets c Q (p.bind f) t ↔ _
  induction p generalizing t with
  | done a => exact Iff.rfl
  | emit e next ih => exact imp_congr_right fun _ => and_congr_right fun _ => ih
  | ask b next ih =>
    exact forall_congr' fun answer => imp_congr_right fun _ => and_congr_right fun _ => ih answer

theorem Meets.bind {P : τ → γ → Prop} {p : Program ε β γ} {f : γ → Program ε β α}
    (hp : Meets c P p t) (hf : ∀ t a, P t a → Meets c Q (f a) t) : Meets c Q (p >>= f) t :=
  meets_bind.mpr (hp.mono hf)

theorem meets_tell {Q : τ → Unit → Prop} {e : ε} :
    Meets c Q (tell e : Program ε β Unit) t ↔ (c.rely t (.emitted e) →
      c.guarantee t (.emitted e) ∧ Q (c.track t (.emitted e)) ()) := Iff.rfl

theorem meets_query {Q : τ → Bool → Prop} {b : β} :
    Meets c Q (query b : Program ε β Bool) t ↔ ∀ answer, c.rely t (.asked b answer) →
      c.guarantee t (.asked b answer) ∧ Q (c.track t (.asked b answer)) answer := Iff.rfl

inductive Advance : Program ε β α → Act ε β → Program ε β α → Prop
  | emit (e : ε) (next : Program ε β α) : Advance (.emit e next) (.emitted e) next
  | ask (b : β) (next : Bool → Program ε β α) (answer : Bool) :
      Advance (.ask b next) (.asked b answer) (next answer)

theorem Meets.advance {p p' : Program ε β α} {act : Act ε β} (h : Meets c Q p t)
    (hact : Advance p act p') (hrely : c.rely t act) :
    c.guarantee t act ∧ Meets c Q p' (c.track t act) := by
  cases hact with
  | emit e next => exact h hrely
  | ask b next answer => exact h answer hrely

/-- The program does no act but the allowed ones and ends in one of the described results,
whatever the answers are. -/
def Within (allowed : Act ε β → Prop) (R : α → Prop) (p : Program ε β α) : Prop :=
  Meets ⟨fun t _ => t, fun _ _ => True, fun _ act => allowed act⟩ (fun _ a => R a) p ()

section Within
variable {allowed : Act ε β → Prop} {R R' : α → Prop}

theorem Within.mono {p : Program ε β α} (h : Within allowed R p) (hR : ∀ a, R a → R' a) :
    Within allowed R' p :=
  Meets.mono h fun _ => hR

theorem within_bind {R : γ → Prop} {p : Program ε β α} {f : α → Program ε β γ} :
    Within allowed R (p >>= f) ↔ Within allowed (fun a => Within allowed R (f a)) p := meets_bind

theorem within_tell {R : Unit → Prop} {e : ε} :
    Within allowed R (tell e : Program ε β Unit) ↔ allowed (.emitted e) ∧ R () :=
  forall_const True

theorem within_query {R : Bool → Prop} {b : β} :
    Within allowed R (query b : Program ε β Bool) ↔
      ∀ answer, allowed (.asked b answer) ∧ R answer :=
  forall_congr' fun _ => forall_const True

theorem Within.meets {p : Program ε β α} (h : Within allowed R p) {I : τ → Prop}
    (hstep : ∀ t act, I t → allowed act → c.rely t act →
      c.guarantee t act ∧ I (c.track t act)) (ht : I t) :
    Meets c (fun t a => I t ∧ R a) p t := by
  induction p generalizing t with
  | done a => exact ⟨ht, h⟩
  | emit e next ih =>
    obtain ⟨hact, hnext⟩ := h trivial
    intro hrely
    obtain ⟨hguarantee, hI⟩ := hstep t _ ht hact hrely
    exact ⟨hguarantee, ih hnext hI⟩
  | ask b next ih =>
    intro answer hrely
    obtain ⟨hact, hnext⟩ := h answer trivial
    obtain ⟨hguarantee, hI⟩ := hstep t _ ht hact hrely
    exact ⟨hguarantee, ih answer hnext hI⟩

end Within

end Program

section Honored
variable {ε β τ : Type*}

/-- The monitor's condition at each act of a trace. -/
def Honored (track : τ → Act ε β → τ) (P : τ → Act ε β → Prop) : τ → List (Act ε β) → Prop
  | _, [] => True
  | t, act :: acts => P t act ∧ Honored track P (track t act) acts

instance decidableHonored {track : τ → Act ε β → τ} {P : τ → Act ε β → Prop}
    [∀ t act, Decidable (P t act)] :
    (t : τ) → (acts : List (Act ε β)) → Decidable (Honored track P t acts)
  | _, [] => .isTrue trivial
  | t, act :: acts =>
    have : Decidable (Honored track P (track t act) acts) :=
      decidableHonored (track t act) acts
    inferInstanceAs (Decidable (P t act ∧ _))

theorem honored_append {track : τ → Act ε β → τ} {P : τ → Act ε β → Prop} {t : τ}
    {as bs : List (Act ε β)} :
    Honored track P t (as ++ bs) ↔
      Honored track P t as ∧ Honored track P (as.foldl track t) bs := by
  induction as generalizing t with
  | nil => simp [Honored]
  | cons act as ih =>
    simp only [List.cons_append, Honored, List.foldl_cons, ih, and_assoc]

theorem Honored.after {track : τ → Act ε β → τ} {P : τ → Act ε β → Prop} {t : τ}
    {before after : List (Act ε β)} {act : Act ε β}
    (h : Honored track P t (before ++ act :: after)) :
    Honored track P (track (before.foldl track t) act) after :=
  (honored_append.mp h).2.2

theorem honored_of_mem {track : τ → Act ε β → τ} {P : Act ε β → Prop} {acts : List (Act ε β)}
    (h : ∀ act ∈ acts, P act) (t : τ) : Honored track (fun _ act => P act) t acts := by
  induction acts generalizing t with
  | nil => trivial
  | cons act acts ih =>
    obtain ⟨hact, hrest⟩ := List.forall_mem_cons.mp h
    exact ⟨hact, ih hrest _⟩

theorem honored_of_forall {track : τ → Act ε β → τ} {P : τ → Act ε β → Prop}
    (h : ∀ t act, P t act) (acts : List (Act ε β)) (t : τ) : Honored track P t acts := by
  induction acts generalizing t with
  | nil => trivial
  | cons act acts ih => exact ⟨h t act, ih _⟩

end Honored

namespace Program
variable {ε β τ ρ η : Type*} (handle : ρ → η → Option (Program ε β ρ))

/-- A thread that handles one event after the other: everything it has done, and what is
left of the handler it is in. -/
inductive Runs (start : ρ) : List (Act ε β) → Program ε β ρ → Prop
  | start : Runs start [] (.done start)
  | handle {trace : List (Act ε β)} {r : ρ} {event : η} {p : Program ε β ρ}
      (h : Runs start trace (.done r)) (hp : handle r event = some p) : Runs start trace p
  | emit {trace : List (Act ε β)} {e : ε} {next : Program ε β ρ}
      (h : Runs start trace (.emit e next)) : Runs start (trace ++ [.emitted e]) next
  | ask {trace : List (Act ε β)} {b : β} {next : Bool → Program ε β ρ}
      (h : Runs start trace (.ask b next)) (answer : Bool) :
      Runs start (trace ++ [.asked b answer]) (next answer)

theorem Runs.advance {handle : ρ → η → Option (Program ε β ρ)} {start : ρ}
    {trace : List (Act ε β)} {p p' : Program ε β ρ} {act : Act ε β}
    (h : Runs handle start trace p) (hact : Advance p act p') :
    Runs handle start (trace ++ [act]) p' := by
  cases hact with
  | emit e next => exact h.emit
  | ask b next answer => exact h.ask answer

theorem Runs.meets {handle : ρ → η → Option (Program ε β ρ)} {c : Contract ε β τ}
    {Q : τ → ρ → Prop} {start : ρ} {t : τ} (hstart : Q t start)
    (hhandle : ∀ t r event p, Q t r → handle r event = some p → Meets c Q p t)
    {trace : List (Act ε β)} {p : Program ε β ρ} (h : Runs handle start trace p)
    (hrely : Honored c.track c.rely t trace) :
    Honored c.track c.guarantee t trace ∧ Meets c Q p (trace.foldl c.track t) := by
  induction h with
  | start => exact ⟨trivial, hstart⟩
  | handle h hp ih =>
    obtain ⟨hkept, hQ⟩ := ih hrely
    exact ⟨hkept, hhandle _ _ _ _ hQ hp⟩
  | emit h ih =>
    obtain ⟨hbefore, hact, -⟩ := honored_append.mp hrely
    obtain ⟨hkept, hmeets⟩ := ih hbefore
    obtain ⟨hguarantee, hnext⟩ := hmeets hact
    rw [List.foldl_append]
    exact ⟨honored_append.mpr ⟨hkept, hguarantee, trivial⟩, hnext⟩
  | ask h answer ih =>
    obtain ⟨hbefore, hact, -⟩ := honored_append.mp hrely
    obtain ⟨hkept, hmeets⟩ := ih hbefore
    obtain ⟨hguarantee, hnext⟩ := hmeets answer hact
    rw [List.foldl_append]
    exact ⟨honored_append.mpr ⟨hkept, hguarantee, trivial⟩, hnext⟩

end Program

end CexAggregator
