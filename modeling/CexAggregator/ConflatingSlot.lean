import CexAggregator.Machine
import CexAggregator.Counter64
import Mathlib.Data.List.ReduceOption

/-!
# The subscriber's slot

A mailbox for one value. Every operation holds the mutex throughout, so the publisher, the
reader and whoever stops the slot take turns. What the reader takes, next to what is pending,
is a selection of the accepted values that always ends in the newest one.
-/

namespace CexAggregator

/-- Values stand for pointers that are not null. -/
structure ConflatingSlot (α : Type*) where
  pending : Option α := none
  stopped : Bool := false
  conflated : UInt64 := 0

namespace ConflatingSlot
variable {α : Type*}

def publish (slot : ConflatingSlot α) (value : α) : Bool × ConflatingSlot α :=
  if slot.stopped then (false, slot)
  else
    (true,
      { slot with
        pending := some value
        conflated := if slot.pending.isSome then slot.conflated + 1 else slot.conflated })

/-- Both waits end in this exchange; without a value they return a null pointer. -/
def take (slot : ConflatingSlot α) : Option α × ConflatingSlot α :=
  (slot.pending, { slot with pending := none })

/-- `none` while the call blocks. -/
def waitNext (slot : ConflatingSlot α) : Option (Option α × ConflatingSlot α) :=
  if slot.pending.isSome || slot.stopped then some slot.take else none

/-- The wait may end at any time, by a value, by the stop or by its timeout. -/
def waitNextFor (slot : ConflatingSlot α) : Option α × ConflatingSlot α := slot.take

def stop (slot : ConflatingSlot α) : ConflatingSlot α := { slot with stopped := true }

end ConflatingSlot

inductive SlotMove (α : Type*) where
  | publish (value : α)
  | waitNext
  | waitNextFor
  | stop

/-- `accepted` are the values of the calls of `Publish` that returned `true`, `answers` what the
reader's calls returned. -/
structure SlotSystem (α : Type*) where
  slot : ConflatingSlot α := {}
  accepted : List α := []
  answers : List (Option α) := []

namespace SlotSystem
open Counter64
variable {α : Type*}

def step (s : SlotSystem α) : SlotMove α → Option (SlotSystem α)
  | .publish value =>
    match s.slot.publish value with
    | (true, slot) => some { s with slot := slot, accepted := s.accepted ++ [value] }
    | (false, slot) => some { s with slot := slot }
  | .waitNext => s.slot.waitNext.map fun r => { s with slot := r.2, answers := s.answers ++ [r.1] }
  | .waitNextFor =>
    some { s with slot := s.slot.waitNextFor.2, answers := s.answers ++ [s.slot.waitNextFor.1] }
  | .stop => some { s with slot := s.slot.stop }

def run (moves : List (SlotMove α)) : SlotSystem α := Machine.run step {} moves

def taken (s : SlotSystem α) : List α := s.answers.reduceOption

def kept (s : SlotSystem α) : List α := s.taken ++ s.slot.pending.toList

/-- The books of a slot: nothing kept is made up or out of order, the newest value is kept, and
every accepted value that is not kept has been counted. -/
structure Ledger (s : SlotSystem α) : Prop where
  order : s.kept.dropLast.Sublist s.accepted.dropLast
  newest : s.kept.getLast? = s.accepted.getLast?
  balance : s.slot.conflated = count (s.accepted.length - s.kept.length)

variable {s t : SlotSystem α}

theorem Ledger.kept_sublist (h : Ledger s) : s.kept.Sublist s.accepted := by
  rcases List.eq_nil_or_concat s.kept with hnil | ⟨as, a, hkept⟩
  · rw [hnil]
    exact List.nil_sublist _
  · have hnewest := h.newest
    have horder := h.order
    rw [List.concat_eq_append] at hkept
    rw [hkept, List.getLast?_concat] at hnewest
    obtain ⟨bs, haccepted⟩ := List.getLast?_eq_some_iff.mp hnewest.symm
    rw [hkept, haccepted, List.dropLast_concat, List.dropLast_concat] at horder
    rw [hkept, haccepted]
    exact horder.append (List.Sublist.refl [a])

theorem Ledger.taken_sublist (h : Ledger s) : s.taken.Sublist s.accepted :=
  (List.sublist_append_left _ _).trans h.kept_sublist

theorem Ledger.kept_le (h : Ledger s) : s.kept.length ≤ s.accepted.length :=
  h.kept_sublist.length_le

theorem Ledger.accept (h : Ledger s) (value : α) : Ledger
    { s with
      slot := { s.slot with
        pending := some value
        conflated := if s.slot.pending.isSome then s.slot.conflated + 1 else s.slot.conflated }
      accepted := s.accepted ++ [value] } := by
  have hle := h.kept_le
  refine ⟨?_, ?_, ?_⟩
  · show (s.taken ++ [value]).dropLast.Sublist (s.accepted ++ [value]).dropLast
    rw [List.dropLast_concat, List.dropLast_concat]
    exact h.taken_sublist
  · show (s.taken ++ [value]).getLast? = (s.accepted ++ [value]).getLast?
    rw [List.getLast?_concat, List.getLast?_concat]
  · show (if s.slot.pending.isSome then s.slot.conflated + 1 else s.slot.conflated) =
      count ((s.accepted ++ [value]).length - (s.taken ++ [value]).length)
    rw [List.length_append, List.length_append, Nat.add_sub_add_right, h.balance]
    rw [kept, List.length_append] at hle ⊢
    cases hpending : s.slot.pending with
    | none => simp
    | some old =>
      -- The old value leaves the slot unseen.
      simp only [hpending, Option.toList_some, List.length_singleton] at hle
      simp only [Option.isSome_some, ↓reduceIte, Option.toList_some, List.length_singleton]
      rw [count_succ]
      congr 1
      omega

theorem Ledger.take (h : Ledger s) :
    Ledger { s with slot := s.slot.take.2, answers := s.answers ++ [s.slot.take.1] } := by
  have hkept : kept { s with slot := s.slot.take.2, answers := s.answers ++ [s.slot.take.1] } =
      s.kept := by
    simp only [kept, taken, ConflatingSlot.take]
    cases s.slot.pending with
    | none => simp [List.reduceOption_append]
    | some value => simp [List.reduceOption_append]
  exact ⟨hkept ▸ h.order, hkept ▸ h.newest, hkept ▸ h.balance⟩

theorem Ledger.step (h : Ledger s) {move : SlotMove α} (hstep : s.step move = some t) :
    Ledger t := by
  cases move with
  | publish value =>
    simp only [SlotSystem.step, ConflatingSlot.publish] at hstep
    by_cases hstopped : s.slot.stopped = true
    · rw [if_pos hstopped] at hstep
      cases hstep
      exact h
    · rw [if_neg hstopped] at hstep
      cases hstep
      exact h.accept value
  | waitNext =>
    simp only [SlotSystem.step, ConflatingSlot.waitNext] at hstep
    split_ifs at hstep
    · cases hstep
      exact h.take
    · cases hstep
  | waitNextFor =>
    cases hstep
    exact h.take
  | stop =>
    cases hstep
    exact ⟨h.order, h.newest, h.balance⟩

theorem ledger_run (moves : List (SlotMove α)) : Ledger (run moves) :=
  Machine.run_rule (fun _ _ _ h hstep => h.step hstep) ⟨.slnil, rfl, rfl⟩ moves

theorem Ledger.total (h : Ledger s) : s.accepted.length =
    s.taken.length + (s.accepted.length - s.kept.length) + s.slot.pending.toList.length := by
  have hle := h.kept_le
  rw [kept, List.length_append] at hle ⊢
  omega

/-- `position` says that the newest value is kept as itself and not as an equal one. -/
structure NewestKept (s : SlotSystem α) : Prop where
  order : s.taken.Sublist s.accepted
  newest : ∀ value ∈ s.accepted.getLast?, s.slot.pending = some value ∨
    s.slot.pending = none ∧ s.taken.getLast? = some value
  position : s.kept.dropLast.Sublist s.accepted.dropLast
  ledger : count s.accepted.length =
    count s.taken.length + s.slot.conflated + count s.slot.pending.toList.length
  exact_ledger : s.accepted.length < 2 ^ 64 → s.accepted.length =
    s.taken.length + s.slot.conflated.toNat + s.slot.pending.toList.length

theorem Ledger.newestKept (h : Ledger s) : NewestKept s where
  order := h.taken_sublist
  newest value hvalue := by
    have hnewest := h.newest
    rw [Option.mem_def.mp hvalue, kept] at hnewest
    cases hpending : s.slot.pending with
    | none =>
      refine Or.inr ⟨rfl, ?_⟩
      simpa [hpending] using hnewest
    | some last =>
      apply Or.inl
      simpa [hpending] using hnewest
  position := h.order
  ledger := by
    conv_lhs => rw [h.total]
    rw [count_add, count_add, h.balance]
  exact_ledger hlt := by
    rw [h.balance, count_toNat, Nat.mod_eq_of_lt (by omega)]
    exact h.total

/-- From a stopped slot on: nothing more is accepted, what was pending is the next answer, and
null pointers are all that follows. -/
structure WindsDown (s t : SlotSystem α) : Prop where
  stopped : t.slot.stopped = true
  accepted : t.accepted = s.accepted
  answers : t.slot.pending = s.slot.pending ∧ t.answers = s.answers ∨
    t.slot.pending = none ∧ ∃ n, t.answers = s.answers ++ s.slot.pending :: List.replicate n none

theorem WindsDown.take (h : WindsDown s t) :
    WindsDown s { t with slot := t.slot.take.2, answers := t.answers ++ [t.slot.take.1] } := by
  refine ⟨h.stopped, h.accepted, Or.inr ⟨rfl, ?_⟩⟩
  rcases h.answers with ⟨hpending, hanswers⟩ | ⟨hpending, n, hanswers⟩
  · exact ⟨0, by simp [ConflatingSlot.take, hpending, hanswers]⟩
  · refine ⟨n + 1, ?_⟩
    simp [ConflatingSlot.take, hpending, hanswers, List.replicate_succ']

theorem WindsDown.step (h : WindsDown s t) {next : SlotSystem α} {move : SlotMove α}
    (hstep : t.step move = some next) : WindsDown s next := by
  cases move with
  | publish value =>
    simp only [SlotSystem.step, ConflatingSlot.publish, h.stopped, ↓reduceIte,
      Option.some.injEq] at hstep
    rw [← hstep]
    exact ⟨h.stopped, h.accepted, h.answers⟩
  | waitNext =>
    simp only [SlotSystem.step, ConflatingSlot.waitNext, h.stopped, Bool.or_true, ↓reduceIte,
      Option.map_some, Option.some.injEq] at hstep
    rw [← hstep]
    exact h.take
  | waitNextFor =>
    cases hstep
    exact h.take
  | stop =>
    cases hstep
    exact ⟨rfl, h.accepted, h.answers⟩

theorem newest_never_lost (before later : List (SlotMove α)) :
    NewestKept (run before) ∧ WindsDown (run (before ++ [.stop])) (run (before ++ .stop :: later)) ∧
      (run (before ++ .stop :: later)).slot.waitNext ≠ none := by
  have hdown : WindsDown (run (before ++ [.stop])) (run (before ++ .stop :: later)) := by
    have hrun : run (before ++ .stop :: later) =
        Machine.run step (run (before ++ [.stop])) later := by
      rw [run, run, ← Machine.run_append, List.append_assoc]
      rfl
    have hstopped : (run (before ++ [.stop])).slot.stopped = true := by
      rw [run, Machine.run_snoc]
      rfl
    rw [hrun]
    exact Machine.run_rule (fun _ _ _ h hstep => h.step hstep)
      ⟨hstopped, rfl, Or.inl ⟨rfl, rfl⟩⟩ later
  refine ⟨(ledger_run before).newestKept, hdown, ?_⟩
  simp [ConflatingSlot.waitNext, hdown.stopped]

end SlotSystem
end CexAggregator
