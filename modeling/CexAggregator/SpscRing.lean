import CexAggregator.Loop
import CexAggregator.Machine
import CexAggregator.Counter64

/-!
# The ring between a venue and the engine

`Push` and `Pop` access by access: the own index, the other side's index, the slot, the own
index again. The producer takes the first part of these steps, the consumer the other, in
any order.
-/

namespace CexAggregator
open Counter64

/-- `slots` is indexed by the masked counters; a slot is `none` where nothing was stored yet
and where the value has been moved out. -/
structure SpscRing (α : Type*) where
  capacity : UInt64
  mask : UInt64
  slots : UInt64 → Option α := fun _ => none
  head : UInt64 := 0
  tail : UInt64 := 0

namespace SpscRing
variable {α : Type*}

def roundUpPow2Step (v p : UInt64) : UInt64 ⊕ UInt64 :=
  if p < v then .inl (p <<< 1) else .inr p

/-- From `2 ^ 63 + 1` on the loop never ends: the power is shifted out. -/
def roundUpPow2 (v : UInt64) : Option UInt64 := Loop.exec (roundUpPow2Step v) 65 1

def create (capacity : UInt64) : Option (SpscRing α) :=
  (roundUpPow2 capacity).map fun p => { capacity := p, mask := p - 1 }

def size (ring : SpscRing α) : UInt64 := ring.head - ring.tail

/-- `returned` is what the last call left: its result and its argument, moved from or not. -/
inductive Producer (α : Type*) where
  | returned (ok : Bool) (argument : Option α)
  | loadHead (value : α)
  | loadTail (value : α) (head : UInt64)
  | storeSlot (value : α) (head : UInt64)
  | storeHead (stored : α) (head : UInt64)

inductive Consumer (α : Type*) where
  | returned (ok : Bool) (out : Option α)
  | loadTail
  | loadHead (tail : UInt64)
  | takeSlot (tail : UInt64)
  | storeTail (taken : Option α) (tail : UInt64)

/-- `accepted` and `popped` are the values whose index store is done, in the order of the
stores. -/
structure System (α : Type*) where
  ring : SpscRing α
  producer : Producer α := .returned true none
  consumer : Consumer α := .returned true none
  accepted : List α := []
  popped : List (Option α) := []

inductive Move (α : Type*) where
  | push (value : α)
  | producer
  | pop
  | consumer

def Move.consumes : Move α → Bool
  | .pop => true
  | .consumer => true
  | _ => false

namespace System

def producerStep (s : System α) : Option (System α) :=
  match s.producer with
  | .returned _ _ => none
  | .loadHead value => some { s with producer := .loadTail value s.ring.head }
  | .loadTail value head =>
    if s.ring.capacity ≤ head - s.ring.tail then
      some { s with producer := .returned false (some value) }
    else some { s with producer := .storeSlot value head }
  | .storeSlot value head =>
    some
      { s with
        ring := { s.ring with
          slots := Function.update s.ring.slots (head &&& s.ring.mask) (some value) }
        producer := .storeHead value head }
  | .storeHead stored head =>
    some
      { s with
        ring := { s.ring with head := head + 1 }
        producer := .returned true none
        accepted := s.accepted ++ [stored] }

def consumerStep (s : System α) : Option (System α) :=
  match s.consumer with
  | .returned _ _ => none
  | .loadTail => some { s with consumer := .loadHead s.ring.tail }
  | .loadHead tail =>
    if tail = s.ring.head then some { s with consumer := .returned false none }
    else some { s with consumer := .takeSlot tail }
  | .takeSlot tail =>
    some
      { s with
        ring := { s.ring with
          slots := Function.update s.ring.slots (tail &&& s.ring.mask) none }
        consumer := .storeTail (s.ring.slots (tail &&& s.ring.mask)) tail }
  | .storeTail taken tail =>
    some
      { s with
        ring := { s.ring with tail := tail + 1 }
        consumer := .returned true taken
        popped := s.popped ++ [taken] }

def step (s : System α) : Move α → Option (System α)
  | .push value =>
    match s.producer with
    | .returned _ _ => some { s with producer := .loadHead value }
    | _ => none
  | .producer => s.producerStep
  | .pop =>
    match s.consumer with
    | .returned _ _ => some { s with consumer := .loadTail }
    | _ => none
  | .consumer => s.consumerStep

end System

def Producer.busy : Producer α → Bool
  | .returned _ _ => false
  | _ => true

def Consumer.busy : Consumer α → Bool
  | .returned _ _ => false
  | _ => true

def interleaving (ring : SpscRing α) (moves : List (Move α)) : System α :=
  Machine.run System.step { ring := ring } moves

/-- What the two callers see: the argument of the push under way, and what every call that has
returned was given and what it answered. -/
structure Calls (α : Type*) where
  pushing : Option α := none
  pushes : List (α × Bool) := []
  pops : List (Bool × Option α) := []

namespace Calls

def observe (c : Calls α) (s : System α) : Move α → Calls α
  | .push value => if s.producer.busy then c else { c with pushing := some value }
  | .producer =>
    match s.producer.busy, (Machine.next System.step s .producer).producer with
    | true, .returned ok _ => { c with pushes := c.pushes ++ c.pushing.toList.map (·, ok) }
    | _, _ => c
  | .pop => c
  | .consumer =>
    match s.consumer.busy, (Machine.next System.step s .consumer).consumer with
    | true, .returned ok out => { c with pops := c.pops ++ [(ok, out)] }
    | _, _ => c

def pushed (c : Calls α) : List α := (c.pushes.filter Prod.snd).map Prod.fst

def given (c : Calls α) : List (Option α) := (c.pops.filter Prod.fst).map Prod.snd

def observed : System α → Calls α → List (Move α) → Calls α
  | _, c, [] => c
  | s, c, move :: moves => observed (Machine.next System.step s move) (c.observe s move) moves

end Calls

def calls (ring : SpscRing α) (moves : List (Move α)) : Calls α :=
  Calls.observed { ring := ring } {} moves

end SpscRing
end CexAggregator
