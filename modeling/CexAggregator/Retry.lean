import Mathlib.Order.Basic
import Mathlib.Data.Nat.Init

/-!
# Backoff and budget

Times and durations are whole numbers of one unit. A jitter draw is a parameter; every
value of the drawn range comes from some draw.
-/

namespace CexAggregator

structure ExponentialBackoff where
  initial : ℕ
  max : ℕ
  current : ℕ
deriving DecidableEq, Repr

namespace ExponentialBackoff

def create (initial max : ℕ) : ExponentialBackoff := ⟨initial, max, initial⟩

def next (b : ExponentialBackoff) (draw : ℕ) : ℕ × ExponentialBackoff :=
  (b.current / 2 + draw % (b.current - b.current / 2 + 1),
    { b with current := min b.max (b.current * 2) })

def peek (b : ExponentialBackoff) : ℕ := b.current

def reset (b : ExponentialBackoff) : ExponentialBackoff := { b with current := b.initial }

end ExponentialBackoff

structure RateBudget where
  maxEvents : Int
  window : Int
  events : List Int := []
deriving DecidableEq, Repr

def RateBudget.tryConsume (b : RateBudget) (now : Int) : Bool × RateBudget :=
  let kept := b.events.dropWhile fun t => now - t > b.window
  if b.maxEvents ≤ kept.length then (false, { b with events := kept })
  else (true, { b with events := kept ++ [now] })

end CexAggregator
