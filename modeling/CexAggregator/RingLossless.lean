import CexAggregator.SpscRing
import Mathlib.Data.List.Induction

/-!
# The ring loses nothing

The counters stand for the numbers of accepted and popped values. Over the window of counts
that starts at the tail, each slot holds what was written at its count and not taken yet,
so the producer finds its slot empty and the consumer its value in place, however the two
sides interleave and wherever the counters wrap.
-/

namespace CexAggregator
namespace SpscRing
open Counter64

variable {α : Type*}

section RoundUp
variable {v p : UInt64} {j : ℕ}

theorem shiftLeft_toNat (hp : p.toNat = 2 ^ j) (hj : j < 63) : (p <<< 1).toNat = 2 ^ (j + 1) := by
  rw [UInt64.toNat_shiftLeft, hp]
  show (2 ^ j) <<< 1 % 2 ^ 64 = 2 ^ (j + 1)
  rw [Nat.shiftLeft_eq, pow_one, ← pow_succ]
  exact Nat.mod_eq_of_lt (Nat.pow_lt_pow_right (by decide) (by omega))

theorem roundUpPow2_loop (hv : v.toNat ≤ 2 ^ 63) {n : ℕ} (hn : 64 ≤ n + j) (hj : j ≤ 63)
    (hp : p.toNat = 2 ^ j) : ∃ k r, k ≤ 63 ∧ r.toNat = 2 ^ k ∧ v ≤ r ∧
      Loop.exec (roundUpPow2Step v) n p = some r := by
  induction n generalizing p j with
  | zero => omega
  | succ n ih =>
    by_cases hlt : p < v
    · have hstep : roundUpPow2Step v p = .inl (p <<< 1) := if_pos hlt
      have hbelow : j < 63 := by
        rw [UInt64.lt_iff_toNat_lt, hp] at hlt
        exact (Nat.pow_lt_pow_iff_right (by decide)).mp (hlt.trans_le hv)
      simp only [Loop.exec, hstep]
      exact ih (by omega) hbelow (shiftLeft_toNat hp hbelow)
    · have hstep : roundUpPow2Step v p = .inr p := if_neg hlt
      exact ⟨j, p, hj, hp, UInt64.not_lt.mp hlt, by simp [Loop.exec, hstep]⟩

end RoundUp

def Producer.stored : Producer α → List α
  | .storeHead stored _ => [stored]
  | _ => []

def Consumer.takes : Consumer α → ℕ
  | .storeTail _ _ => 1
  | _ => 0

def Producer.Ok (room : ℕ) (index : UInt64) (accepted popped : ℕ) : Producer α → Prop
  | .loadTail _ head => head = index
  | .storeSlot _ head => head = index ∧ accepted < popped + room
  | .storeHead _ head => head = index
  | _ => True

def Consumer.Ok (index : UInt64) (accepted : List α) (popped : ℕ) : Consumer α → Prop
  | .loadHead tail => tail = index
  | .takeSlot tail => tail = index ∧ popped < accepted.length
  | .storeTail taken tail => tail = index ∧ taken = accepted[popped]?
  | _ => True

theorem Producer.Ok.popped {producer : Producer α} {room accepted popped popped' : ℕ}
    {index : UInt64} (h : producer.Ok room index accepted popped) (hle : popped ≤ popped') :
    producer.Ok room index accepted popped' := by
  cases producer with
  | returned ok argument => trivial
  | loadHead value => trivial
  | loadTail value head => exact h
  | storeSlot value head =>
    obtain ⟨hindex, hroom⟩ := h
    exact ⟨hindex, by omega⟩
  | storeHead stored head => exact h

theorem Consumer.Ok.accept {consumer : Consumer α} {index : UInt64} {accepted : List α}
    {popped : ℕ} (h : consumer.Ok index accepted popped) (value : α)
    (hle : popped + consumer.takes ≤ accepted.length) :
    consumer.Ok index (accepted ++ [value]) popped := by
  cases consumer with
  | returned ok out => trivial
  | loadTail => trivial
  | loadHead tail => exact h
  | takeSlot tail =>
    obtain ⟨hindex, hlt⟩ := h
    refine ⟨hindex, ?_⟩
    rw [List.length_append]
    exact Nat.lt_add_right 1 hlt
  | storeTail taken tail =>
    obtain ⟨hindex, htaken⟩ := h
    refine ⟨hindex, ?_⟩
    rw [List.getElem?_append_left hle]
    exact htaken

/-- What the slot of count `i` holds while `i` is in the window. -/
def contents (taken : ℕ) (written : List α) (i : ℕ) : Option α :=
  if i < taken then none else written[i]?

theorem contents_of_lt {taken i : ℕ} (written : List α) (h : i < taken) :
    contents taken written i = none := if_pos h

theorem contents_of_le {taken i : ℕ} (written : List α) (h : taken ≤ i) :
    contents taken written i = written[i]? := if_neg h.not_gt

namespace System

def written (s : System α) : List α := s.accepted ++ s.producer.stored

def taken (s : System α) : ℕ := s.popped.length + s.consumer.takes

structure Inv (k : ℕ) (s : System α) : Prop where
  small : k ≤ 63
  capacity : s.ring.capacity.toNat = 2 ^ k
  mask : s.ring.mask.toNat = 2 ^ k - 1
  head : s.ring.head = count s.accepted.length
  tail : s.ring.tail = count s.popped.length
  taken_le : s.taken ≤ s.accepted.length
  written_le : s.written.length ≤ s.popped.length + 2 ^ k
  slots : ∀ i, s.popped.length ≤ i → i < s.popped.length + 2 ^ k →
    s.ring.slots (count i &&& s.ring.mask) = contents s.taken s.written i
  popped : s.popped = (s.accepted.take s.popped.length).map some
  producer : s.producer.Ok (2 ^ k) s.ring.head s.accepted.length s.popped.length
  consumer : s.consumer.Ok s.ring.tail s.accepted s.popped.length

variable {k : ℕ} {s t : System α}

theorem Inv.lt (h : Inv k s) : 2 ^ k < 2 ^ 64 :=
  Nat.pow_lt_pow_right (by decide) (by have := h.small; omega)

theorem Inv.popped_le (h : Inv k s) : s.popped.length ≤ s.accepted.length :=
  (Nat.le_add_right _ _).trans h.taken_le

theorem Inv.accepted_le (h : Inv k s) : s.accepted.length ≤ s.popped.length + 2 ^ k := by
  have hwritten := h.written_le
  rw [written, List.length_append] at hwritten
  omega

theorem Inv.size_eq (h : Inv k s) :
    (s.ring.head - s.ring.tail).toNat = s.accepted.length - s.popped.length := by
  rw [h.head, h.tail]
  apply count_sub_toNat h.popped_le
  have hroom := h.accepted_le
  have hlt := h.lt
  omega

theorem Inv.full_iff (h : Inv k s) : s.ring.capacity ≤ s.ring.head - s.ring.tail ↔
    s.accepted.length = s.popped.length + 2 ^ k := by
  rw [UInt64.le_iff_toNat_le, h.capacity, h.size_eq]
  have hroom := h.accepted_le
  have hpos := Nat.two_pow_pos k
  omega

theorem Inv.empty_iff (h : Inv k s) : s.ring.tail = s.ring.head ↔
    s.popped.length = s.accepted.length := by
  rw [h.head, h.tail]
  apply count_eq_iff h.popped_le
  have hroom := h.accepted_le
  have hlt := h.lt
  omega

theorem Inv.slot_eq_iff (h : Inv k s) {i j : ℕ} (hi : s.popped.length ≤ i)
    (hi' : i < s.popped.length + 2 ^ k) (hj : s.popped.length ≤ j)
    (hj' : j < s.popped.length + 2 ^ k) :
    count i &&& s.ring.mask = count j &&& s.ring.mask ↔ i = j := by
  have hk : k ≤ 64 := h.small.trans (by decide)
  constructor
  · exact masked_inj hk h.mask hi hj hi' hj'
  · intro hij
    rw [hij]

theorem Inv.withProducer (h : Inv k s) {p : Producer α} (hstored : p.stored = s.producer.stored)
    (hp : p.Ok (2 ^ k) s.ring.head s.accepted.length s.popped.length) :
    Inv k { s with producer := p } where
  small := h.small
  capacity := h.capacity
  mask := h.mask
  head := h.head
  tail := h.tail
  taken_le := h.taken_le
  written_le := by simpa only [written, hstored] using h.written_le
  slots := by simpa only [written, taken, hstored] using h.slots
  popped := h.popped
  producer := hp
  consumer := h.consumer

theorem Inv.withConsumer (h : Inv k s) {c : Consumer α} (htakes : c.takes = s.consumer.takes)
    (hc : c.Ok s.ring.tail s.accepted s.popped.length) : Inv k { s with consumer := c } where
  small := h.small
  capacity := h.capacity
  mask := h.mask
  head := h.head
  tail := h.tail
  taken_le := by simpa only [taken, htakes] using h.taken_le
  written_le := h.written_le
  slots := by simpa only [written, taken, htakes] using h.slots
  popped := h.popped
  producer := h.producer
  consumer := hc

theorem Inv.slot_empty (h : Inv k s) {value : α} {head : UInt64}
    (hpc : s.producer = .storeSlot value head) : s.ring.slots (head &&& s.ring.mask) = none := by
  have hok := h.producer
  rw [hpc] at hok
  obtain ⟨rfl, hroom⟩ := hok
  rw [h.head, h.slots _ h.popped_le hroom, contents_of_le _ h.taken_le, written, hpc]
  simp [Producer.stored]

theorem Inv.storeSlot (h : Inv k s) {value : α} {head : UInt64}
    (hpc : s.producer = .storeSlot value head) :
    Inv k { s with
      ring := { s.ring with
        slots := Function.update s.ring.slots (head &&& s.ring.mask) (some value) }
      producer := .storeHead value head } := by
  have hok := h.producer
  rw [hpc] at hok
  obtain ⟨rfl, hroom⟩ := hok
  have hbefore : s.written = s.accepted := by simp [written, hpc, Producer.stored]
  refine
    { small := h.small
      capacity := h.capacity
      mask := h.mask
      head := h.head
      tail := h.tail
      taken_le := h.taken_le
      written_le := ?_
      slots := fun i hi hi' => ?_
      popped := h.popped
      producer := rfl
      consumer := h.consumer }
  · simp only [written, Producer.stored, List.length_append, List.length_singleton]
    omega
  · change Function.update s.ring.slots _ _ (count i &&& s.ring.mask) =
      contents s.taken (s.accepted ++ [value]) i
    rw [h.head]
    by_cases hnew : i = s.accepted.length
    · rw [hnew, Function.update_self, contents_of_le _ h.taken_le]
      simp
    · have hslot : count i &&& s.ring.mask ≠ count s.accepted.length &&& s.ring.mask := by
        rw [Ne, h.slot_eq_iff hi hi' h.popped_le hroom]
        exact hnew
      rw [Function.update_of_ne hslot, h.slots i hi hi', hbefore]
      by_cases htaken : i < s.taken
      · rw [contents_of_lt _ htaken, contents_of_lt _ htaken]
      · rw [contents_of_le _ (not_lt.mp htaken), contents_of_le _ (not_lt.mp htaken)]
        by_cases hlt : i < s.accepted.length
        · rw [List.getElem?_append_left hlt]
        · rw [List.getElem?_eq_none (by omega), List.getElem?_eq_none (by simp; omega)]

theorem Inv.storeHead (h : Inv k s) {stored : α} {head : UInt64}
    (hpc : s.producer = .storeHead stored head) :
    Inv k { s with
      ring := { s.ring with head := head + 1 }
      producer := .returned true none
      accepted := s.accepted ++ [stored] } := by
  have hok := h.producer
  rw [hpc] at hok
  have hwritten : s.written = s.accepted ++ [stored] := by rw [written, hpc]; rfl
  have hle := h.taken_le
  refine
    { small := h.small
      capacity := h.capacity
      mask := h.mask
      head := ?_
      tail := h.tail
      taken_le := ?_
      written_le := ?_
      slots := ?_
      popped := ?_
      producer := trivial
      consumer := ?_ }
  · show head + 1 = _
    rw [hok, h.head, count_succ, List.length_append, List.length_singleton]
  · show s.taken ≤ (s.accepted ++ [stored]).length
    rw [List.length_append]
    omega
  · show (s.accepted ++ [stored] ++ []).length ≤ _
    rw [List.append_nil, ← hwritten]
    exact h.written_le
  · show ∀ i, _ → _ → _ = contents s.taken (s.accepted ++ [stored] ++ []) i
    rw [List.append_nil, ← hwritten]
    exact h.slots
  · show s.popped = ((s.accepted ++ [stored]).take _).map some
    rw [List.take_append_of_le_length h.popped_le]
    exact h.popped
  · exact h.consumer.accept stored hle

theorem Inv.takeSlot (h : Inv k s) {tail : UInt64} (hpc : s.consumer = .takeSlot tail) :
    Inv k { s with
      ring := { s.ring with
        slots := Function.update s.ring.slots (tail &&& s.ring.mask) none }
      consumer := .storeTail (s.ring.slots (tail &&& s.ring.mask)) tail } := by
  have hok := h.consumer
  rw [hpc] at hok
  obtain ⟨rfl, hlt⟩ := hok
  have hbefore : s.taken = s.popped.length := by simp [System.taken, hpc, Consumer.takes]
  have hroom : s.popped.length < s.popped.length + 2 ^ k :=
    Nat.lt_add_of_pos_right (Nat.two_pow_pos k)
  refine
    { small := h.small
      capacity := h.capacity
      mask := h.mask
      head := h.head
      tail := h.tail
      taken_le := hlt
      written_le := h.written_le
      slots := fun i hi hi' => ?_
      popped := h.popped
      producer := h.producer
      consumer := ⟨rfl, ?_⟩ }
  · change Function.update s.ring.slots _ _ (count i &&& s.ring.mask) =
      contents (s.popped.length + 1) s.written i
    rw [h.tail]
    by_cases hfirst : i = s.popped.length
    · rw [hfirst, Function.update_self, contents_of_lt _ (Nat.lt_succ_self _)]
    · have hslot : count i &&& s.ring.mask ≠ count s.popped.length &&& s.ring.mask := by
        rw [Ne, h.slot_eq_iff hi hi' le_rfl hroom]
        exact hfirst
      have hnext : s.popped.length < i := lt_of_le_of_ne hi (Ne.symm hfirst)
      rw [Function.update_of_ne hslot, h.slots i hi hi', hbefore, contents_of_le _ hi,
        contents_of_le _ hnext]
  · rw [h.tail, h.slots _ le_rfl hroom, contents_of_le _ hbefore.le, written,
      List.getElem?_append_left hlt]

theorem Inv.storeTail (h : Inv k s) {taken : Option α} {tail : UInt64}
    (hpc : s.consumer = .storeTail taken tail) :
    Inv k { s with
      ring := { s.ring with tail := tail + 1 }
      consumer := .returned true taken
      popped := s.popped ++ [taken] } := by
  have hok := h.consumer
  rw [hpc] at hok
  obtain ⟨rfl, htaken⟩ := hok
  have hbefore : s.taken = s.popped.length + 1 := by simp [System.taken, hpc, Consumer.takes]
  have hlt : s.popped.length < s.accepted.length := by
    have hle := h.taken_le
    omega
  have hlen : (s.popped ++ [taken]).length = s.popped.length + 1 := by simp
  have hwritten := h.written_le
  refine
    { small := h.small
      capacity := h.capacity
      mask := h.mask
      head := h.head
      tail := ?_
      taken_le := ?_
      written_le := ?_
      slots := fun i hi hi' => ?_
      popped := ?_
      producer := ?_
      consumer := trivial }
  · show s.ring.tail + 1 = _
    rw [hlen, h.tail, count_succ]
  · show (s.popped ++ [taken]).length ≤ s.accepted.length
    omega
  · show s.written.length ≤ _
    rw [hlen]
    omega
  · show _ = contents (s.popped ++ [taken]).length s.written i
    rw [hlen] at hi hi' ⊢
    by_cases hlast : i < s.popped.length + 2 ^ k
    · rw [← hbefore]
      exact h.slots i (by omega) hlast
    · -- The slot that was just freed now stands for the count one lap ahead.
      have hlap : i = s.popped.length + 2 ^ k := by omega
      have hfreed : s.ring.slots (count i &&& s.ring.mask) = none := by
        rw [hlap, masked_add_capacity (h.small.trans (by decide)) h.mask,
          h.slots _ le_rfl (Nat.lt_add_of_pos_right (Nat.two_pow_pos k)),
          contents_of_lt _ (by omega)]
      rw [contents_of_le _ hi, List.getElem?_eq_none (by omega)]
      exact hfreed
  · show s.popped ++ [taken] = (s.accepted.take (s.popped ++ [taken]).length).map some
    rw [hlen, List.take_add_one, List.map_append, ← h.popped, htaken,
      List.getElem?_eq_getElem hlt]
    rfl
  · apply h.producer.popped
    show s.popped.length ≤ (s.popped ++ [taken]).length
    omega

theorem Inv.producerStep (h : Inv k s) (hstep : s.producerStep = some t) : Inv k t := by
  unfold System.producerStep at hstep
  split at hstep
  · cases hstep
  · rename_i value hpc
    cases hstep
    exact h.withProducer (by rw [hpc]; rfl) rfl
  · rename_i value head hpc
    have hok := h.producer
    rw [hpc] at hok
    cases (show head = s.ring.head from hok)
    split_ifs at hstep with hfull
    · cases hstep
      exact h.withProducer (by rw [hpc]; rfl) trivial
    · cases hstep
      refine h.withProducer (by rw [hpc]; rfl) ⟨rfl, ?_⟩
      have hroom := h.accepted_le
      have hne : s.accepted.length ≠ s.popped.length + 2 ^ k := fun hlen =>
        hfull (h.full_iff.mpr hlen)
      omega
  · rename_i value head hpc
    cases hstep
    exact h.storeSlot hpc
  · rename_i stored head hpc
    cases hstep
    exact h.storeHead hpc

theorem Inv.consumerStep (h : Inv k s) (hstep : s.consumerStep = some t) : Inv k t := by
  unfold System.consumerStep at hstep
  split at hstep
  · cases hstep
  · rename_i hpc
    cases hstep
    exact h.withConsumer (by rw [hpc]; rfl) rfl
  · rename_i tail hpc
    have hok := h.consumer
    rw [hpc] at hok
    cases (show tail = s.ring.tail from hok)
    split_ifs at hstep with hempty
    · cases hstep
      exact h.withConsumer (by rw [hpc]; rfl) trivial
    · cases hstep
      refine h.withConsumer (by rw [hpc]; rfl) ⟨rfl, ?_⟩
      have hle := h.popped_le
      have hne : s.popped.length ≠ s.accepted.length := fun hlen =>
        hempty (h.empty_iff.mpr hlen)
      omega
  · rename_i tail hpc
    cases hstep
    exact h.takeSlot hpc
  · rename_i taken tail hpc
    cases hstep
    exact h.storeTail hpc

theorem Inv.step (h : Inv k s) {move : Move α} (hstep : s.step move = some t) : Inv k t := by
  cases move with
  | push value =>
    simp only [System.step] at hstep
    split at hstep
    · rename_i ok argument hpc
      cases hstep
      exact h.withProducer (by rw [hpc]; rfl) trivial
    · cases hstep
  | producer => exact h.producerStep hstep
  | pop =>
    simp only [System.step] at hstep
    split at hstep
    · rename_i ok out hpc
      cases hstep
      exact h.withConsumer (by rw [hpc]; rfl) trivial
    · cases hstep
  | consumer => exact h.consumerStep hstep

theorem Inv.run (h : Inv k s) (moves : List (Move α)) : Inv k (Machine.run System.step s moves) :=
  Machine.run_rule (fun _ _ _ hs hstep => hs.step hstep) h moves

theorem inv_create {v : UInt64} (hv : v.toNat ≤ 2 ^ 63) :
    ∃ (ring : SpscRing α) (k : ℕ), create v = some ring ∧ v ≤ ring.capacity ∧
      Inv k { ring := ring } := by
  obtain ⟨k, r, hk, hr, hle, hloop⟩ := roundUpPow2_loop (p := 1) (j := 0) hv (n := 65) (by decide)
    (by decide) rfl
  refine ⟨{ capacity := r, mask := r - 1 }, k, ?_, hle, ?_⟩
  · rw [create, roundUpPow2, hloop]
    rfl
  · have hone : (1 : UInt64) ≤ r := by
      rw [UInt64.le_iff_toNat_le, hr]
      exact Nat.two_pow_pos k
    exact
      { small := hk
        capacity := hr
        mask := by
          rw [UInt64.toNat_sub_of_le _ _ hone, hr]
          rfl
        head := rfl
        tail := rfl
        taken_le := le_rfl
        written_le := Nat.zero_le _
        slots := fun i _ _ => by simp [contents, written, Producer.stored]
        popped := rfl
        producer := trivial
        consumer := trivial }

theorem consumer_frame (s : System α) (p : Producer α) {move : Move α}
    (hmove : move.consumes = true) :
    Machine.next step { s with producer := p } move =
      { Machine.next step s move with producer := p } := by
  obtain ⟨ring, producer, consumer, accepted, popped⟩ := s
  cases move with
  | push value => cases hmove
  | producer => cases hmove
  | pop => cases consumer <;> rfl
  | consumer =>
    cases consumer with
    | loadHead tail =>
      simp only [Machine.next, System.step, System.consumerStep]
      split_ifs
      · rfl
      · rfl
    | _ => rfl

/-- A push under way has either touched nothing yet or can only succeed. -/
inductive Underway (value : α) (others : System α) : System α → Prop
  | loadHead : Underway value others { others with producer := .loadHead value }
  | loadTail (head : UInt64) :
    Underway value others { others with producer := .loadTail value head }
  | committed (s : System α) (h : ∃ v head, s.producer = .storeSlot v head ∨
      s.producer = .storeHead v head) : Underway value others s

theorem Underway.consumer {value : α} {others : System α} (h : Underway value others s)
    {move : Move α} (hmove : move.consumes = true) :
    Underway value (Machine.next step others move) (Machine.next step s move) := by
  cases h with
  | loadHead =>
    rw [consumer_frame others (.loadHead value) hmove]
    exact .loadHead
  | loadTail head =>
    rw [consumer_frame others (.loadTail value head) hmove]
    exact .loadTail head
  | committed _ h =>
    have hframe : Machine.next step s move =
        { Machine.next step s move with producer := s.producer } :=
      consumer_frame s s.producer hmove
    rw [hframe]
    exact .committed _ h

theorem Underway.producer {value : α} {others : System α} (h : Underway value others s)
    {move : Move α} (hmove : move.consumes = false)
    (hbusy : (Machine.next step s move).producer.busy = true) :
    Underway value others (Machine.next step s move) := by
  cases move with
  | pop => cases hmove
  | consumer => cases hmove
  | push other =>
    cases h with
    | loadHead => exact .loadHead
    | loadTail head => exact .loadTail head
    | committed _ h =>
      obtain ⟨v, head, hpc | hpc⟩ := h
      · rw [Machine.next_of_none (by simp [System.step, hpc])]
        exact .committed _ ⟨v, head, .inl hpc⟩
      · rw [Machine.next_of_none (by simp [System.step, hpc])]
        exact .committed _ ⟨v, head, .inr hpc⟩
  | producer =>
    cases h with
    | loadHead => exact .loadTail _
    | loadTail head =>
      by_cases hfull : others.ring.capacity ≤ head - others.ring.tail
      · simp [Machine.next, System.step, producerStep, hfull, Producer.busy] at hbusy
      · exact .committed _ ⟨value, head,
          .inl (by simp [Machine.next, System.step, producerStep, hfull])⟩
    | committed _ h =>
      obtain ⟨v, head, hpc | hpc⟩ := h
      · exact .committed _ ⟨v, head, .inr (by simp [Machine.next, System.step, producerStep, hpc])⟩
      · simp [Machine.next, System.step, producerStep, hpc, Producer.busy] at hbusy

theorem underway_run {s : System α} (value : α) (moves : List (Move α))
    (hbusy : ∀ ds, ds <+: moves →
      (Machine.run step { s with producer := .loadHead value } ds).producer.busy = true) :
    Underway value (Machine.run step s (moves.filter Move.consumes))
      (Machine.run step { s with producer := .loadHead value } moves) := by
  induction moves using List.reverseRecOn with
  | nil => exact .loadHead
  | append_singleton moves move ih =>
    have hbefore := ih fun ds hds => hbusy ds (hds.trans (List.prefix_append moves [move]))
    have hafter := hbusy _ (List.prefix_refl _)
    rw [Machine.run_snoc] at hafter ⊢
    cases hmove : move.consumes with
    | true =>
      rw [List.filter_append, List.filter_cons_of_pos hmove, List.filter_nil, Machine.run_snoc]
      exact hbefore.consumer hmove
    | false =>
      rw [List.filter_append, List.filter_cons_of_neg (by simp [hmove]), List.filter_nil,
        List.append_nil]
      exact hbefore.producer hmove hafter

theorem refused_push {value : α} {others : System α} (h : Underway value others s)
    (hstep : s.step .producer = some t) {left : Option α}
    (hrefused : t.producer = .returned false left) :
    left = some value ∧ t = { others with producer := .returned false left } := by
  cases h with
  | loadHead =>
    cases hstep
    cases hrefused
  | loadTail head =>
    by_cases hfull : others.ring.capacity ≤ head - others.ring.tail
    · simp only [System.step, producerStep, if_pos hfull, Option.some.injEq] at hstep
      subst hstep
      cases hrefused
      exact ⟨rfl, rfl⟩
    · simp only [System.step, producerStep, if_neg hfull, Option.some.injEq] at hstep
      subst hstep
      cases hrefused
  | committed _ h =>
    obtain ⟨v, head, hpc | hpc⟩ := h
    · simp only [System.step, producerStep, hpc, Option.some.injEq] at hstep
      subst hstep
      cases hrefused
    · simp only [System.step, producerStep, hpc, Option.some.injEq] at hstep
      subst hstep
      cases hrefused

theorem Inv.refused_full (h : Inv k s) (hstep : s.step .producer = some t) {left : Option α}
    (hrefused : t.producer = .returned false left) :
    ∃ value, s.producer = .loadTail value s.ring.head ∧
      s.ring.head - s.ring.tail = s.ring.capacity ∧
      s.accepted.length = s.popped.length + s.ring.capacity.toNat := by
  have hok := h.producer
  simp only [System.step, System.producerStep] at hstep
  split at hstep
  · cases hstep
  · cases hstep
    cases hrefused
  · rename_i value head hpc
    rw [hpc] at hok
    cases (show head = s.ring.head from hok)
    split_ifs at hstep with hfull
    · have hlen := h.full_iff.mp hfull
      refine ⟨value, hpc, UInt64.toNat_inj.mp ?_, by rw [h.capacity, hlen]⟩
      rw [h.size_eq, h.capacity, hlen, Nat.add_sub_cancel_left]
    · cases hstep
      cases hrefused
  · cases hstep
    cases hrefused
  · cases hstep
    cases hrefused

end System

section Calls

def Producer.argument : Producer α → Option α
  | .returned _ _ => none
  | .loadHead value => some value
  | .loadTail value _ => some value
  | .storeSlot value _ => some value
  | .storeHead stored _ => some stored

/-- What the sides have done is what their callers have been told. -/
structure Tied (s : System α) (c : Calls α) : Prop where
  pushing : ∀ value, s.producer.argument = some value → c.pushing = some value
  accepted : s.accepted = c.pushed
  popped : s.popped = c.given

section Snoc
variable (pushing : Option α) (pushes : List (α × Bool)) (pops : List (Bool × Option α))

theorem pushed_snoc (value : α) (ok : Bool) :
    (Calls.mk pushing (pushes ++ [(value, ok)]) pops).pushed =
      (Calls.mk pushing pushes pops).pushed ++ if ok then [value] else [] := by
  cases ok <;> simp [Calls.pushed]

theorem given_snoc (ok : Bool) (out : Option α) :
    (Calls.mk pushing pushes (pops ++ [(ok, out)])).given =
      (Calls.mk pushing pushes pops).given ++ if ok then [out] else [] := by
  cases ok <;> simp [Calls.given]

end Snoc

theorem Tied.observe {s : System α} {c : Calls α} (h : Tied s c) (move : Move α) :
    Tied (Machine.next System.step s move) (c.observe s move) := by
  obtain ⟨ring, producer, consumer, accepted, popped⟩ := s
  obtain ⟨pushing, pushes, pops⟩ := c
  obtain ⟨hpushing, haccepted, hpopped⟩ := h
  cases move with
  | push value =>
    cases producer with
    | returned ok argument => exact ⟨fun _ hvalue => hvalue, haccepted, hpopped⟩
    | _ => exact ⟨hpushing, haccepted, hpopped⟩
  | producer =>
    cases producer with
    | returned ok argument => exact ⟨hpushing, haccepted, hpopped⟩
    | loadHead value => exact ⟨hpushing, haccepted, hpopped⟩
    | loadTail value head =>
      -- A push returns from here when it is refused, and from its last store when it is not.
      obtain rfl : pushing = some value := hpushing value rfl
      simp only [Machine.next, System.step, System.producerStep, Calls.observe, Producer.busy]
      split_ifs with hfull
      · refine ⟨fun _ hnone => ?_, ?_, hpopped⟩
        · cases hnone
        · simp only [Option.getD_some, Option.toList_some, List.map_cons, List.map_nil, pushed_snoc]
          simpa using haccepted
      · exact ⟨hpushing, haccepted, hpopped⟩
    | storeSlot value head => exact ⟨hpushing, haccepted, hpopped⟩
    | storeHead stored head =>
      obtain rfl : pushing = some stored := hpushing stored rfl
      refine ⟨fun _ hnone => ?_, ?_, hpopped⟩
      · cases hnone
      · simp only [Machine.next, System.step, System.producerStep, Calls.observe, Producer.busy,
          Option.getD_some, Option.toList_some, List.map_cons, List.map_nil, pushed_snoc]
        rw [← haccepted]
        rfl
  | pop => cases consumer <;> exact ⟨hpushing, haccepted, hpopped⟩
  | consumer =>
    cases consumer with
    | loadHead tail =>
      simp only [Machine.next, System.step, System.consumerStep, Calls.observe, Consumer.busy]
      split_ifs with hempty
      · refine ⟨hpushing, haccepted, ?_⟩
        simp only [Option.getD_some, given_snoc]
        simpa using hpopped
      · exact ⟨hpushing, haccepted, hpopped⟩
    | storeTail taken tail =>
      refine ⟨hpushing, haccepted, ?_⟩
      simp only [Machine.next, System.step, System.consumerStep, Calls.observe, Consumer.busy,
        Option.getD_some, given_snoc]
      rw [← hpopped]
      rfl
    | _ => exact ⟨hpushing, haccepted, hpopped⟩

theorem Tied.observed {s : System α} {c : Calls α} (h : Tied s c) (moves : List (Move α)) :
    Tied (Machine.run System.step s moves) (c.observed s moves) := by
  induction moves generalizing s c with
  | nil => exact h
  | cons move moves ih => exact ih (h.observe move)

end Calls

/-- What the ring promises for every order in which the two sides take their steps. What has been
accepted and popped is what the callers were told. A push that is refused leaves what the
consumer's steps alone would have left. -/
structure LosslessFifo (ring : SpscRing α) : Prop where
  accepted : ∀ moves, (interleaving ring moves).accepted = (calls ring moves).pushed
  popped : ∀ moves, (interleaving ring moves).popped = (calls ring moves).given
  fifo : ∀ moves, (interleaving ring moves).popped <+: (interleaving ring moves).accepted.map some
  no_overwrite : ∀ moves value head, (interleaving ring moves).producer = .storeSlot value head →
    (interleaving ring moves).ring.slots (head &&& (interleaving ring moves).ring.mask) = none
  full : ∀ moves t left, (interleaving ring moves).step .producer = some t →
    t.producer = .returned false left →
      (∃ value head, (interleaving ring moves).producer = .loadTail value head ∧
        head - (interleaving ring moves).ring.tail = (interleaving ring moves).ring.capacity) ∧
      (interleaving ring moves).accepted.length =
        (interleaving ring moves).popped.length + (interleaving ring moves).ring.capacity.toNat
  refused : ∀ before value during t left,
    (interleaving ring before).producer.busy = false →
    (∀ ds, ds <+: during →
      (interleaving ring (before ++ .push value :: ds)).producer.busy = true) →
    (interleaving ring (before ++ .push value :: during)).step .producer = some t →
    t.producer = .returned false left →
      left = some value ∧
        t = { interleaving ring (before ++ during.filter Move.consumes) with
          producer := .returned false left }
  size : ∀ moves, (interleaving ring moves).producer.busy = false →
    (interleaving ring moves).consumer.busy = false →
      (interleaving ring moves).ring.size.toNat + (interleaving ring moves).popped.length =
        (interleaving ring moves).accepted.length

theorem lossless {v : UInt64} (hv : v.toNat ≤ 2 ^ 63) :
    ∃ ring : SpscRing α, create v = some ring ∧ v ≤ ring.capacity ∧ LosslessFifo ring := by
  obtain ⟨ring, k, hcreate, hle, hstart⟩ := System.inv_create (α := α) hv
  have hinv : ∀ moves, System.Inv k (interleaving ring moves) := fun moves => hstart.run moves
  have htied : ∀ moves, Tied (interleaving ring moves) (calls ring moves) := fun moves =>
    Tied.observed ⟨fun _ hnone => (Option.some_ne_none _ hnone.symm).elim, rfl, rfl⟩ moves
  refine ⟨ring, hcreate, hle, ?_⟩
  refine
    { accepted := fun moves => (htied moves).accepted
      popped := fun moves => (htied moves).popped
      fifo := fun moves => ?_
      no_overwrite := fun moves value head hpc => (hinv moves).slot_empty hpc
      full := fun moves t left hstep hrefused => ?_
      refused := fun before value during t left hidle hbusy hstep hrefused => ?_
      size := fun moves _ _ => ?_ }
  · rw [(hinv moves).popped]
    exact (List.take_prefix _ _).map some
  · obtain ⟨value, hpc, hobserved, hfull⟩ := (hinv moves).refused_full hstep hrefused
    exact ⟨⟨value, _, hpc, hobserved⟩, hfull⟩
  · have hpush : Machine.next System.step (interleaving ring before) (.push value) =
        { interleaving ring before with producer := .loadHead value } := by
      cases hpc : (interleaving ring before).producer with
      | returned ok argument => simp [Machine.next, System.step, hpc]
      | _ => simp [hpc, Producer.busy] at hidle
    have hcall : ∀ ds, interleaving ring (before ++ .push value :: ds) = Machine.run System.step
        { interleaving ring before with producer := .loadHead value } ds := by
      intro ds
      rw [interleaving, Machine.run_append, Machine.run_cons, ← interleaving, hpush]
    have hunder := System.underway_run value during fun ds hds => by
      rw [← hcall]
      exact hbusy ds hds
    rw [hcall] at hstep
    obtain ⟨hleft, ht⟩ := System.refused_push hunder hstep hrefused
    have hothers : interleaving ring (before ++ during.filter Move.consumes) =
        Machine.run System.step (interleaving ring before) (during.filter Move.consumes) :=
      Machine.run_append _ _ _
    exact ⟨hleft, by rw [ht, hothers]⟩
  · have hle := (hinv moves).popped_le
    rw [size, (hinv moves).size_eq]
    omega

theorem lossless_three : ∃ ring : SpscRing ℕ, create 3 = some ring ∧ 3 ≤ ring.capacity ∧
    LosslessFifo ring :=
  lossless (by decide)

end SpscRing
end CexAggregator
