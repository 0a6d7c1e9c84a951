import Mathlib.Algebra.Order.Group.Int
import Mathlib.Tactic.Linarith
import Mathlib.Tactic.Positivity

/-!
# Fixed-point prices, quantities and notionals

Feeds are exact decimal strings, held as integers scaled by `kScale`. The aliases
`Px`, `Qty`, `Notional` (64 bits) and `Wide` (128 bits) are all `Int` here; a result
that must fit 64 bits says so through `FitsInt64`. Narrowing saturates, as it does
in a release build (a debug build asserts instead). Division truncates toward zero.
-/

namespace CexAggregator

def kScale : Int := 100000000
def kScaleDigits : ℕ := 8
def int64Max : Int := 9223372036854775807
def int64Min : Int := -9223372036854775808
def kMaxIntegerPart : Int := int64Max / kScale

def FitsInt64 (v : Int) : Prop := int64Min ≤ v ∧ v ≤ int64Max

instance (v : Int) : Decidable (FitsInt64 v) := inferInstanceAs (Decidable (_ ∧ _))

def narrowSaturating (v : Int) : Int :=
  if v > int64Max then int64Max
  else if v < int64Min then int64Min
  else v

def notionalWide (px : Int) (qty : Int) : Int := (px * qty).tdiv kScale

def notionalE8 (px : Int) (qty : Int) : Int := narrowSaturating (notionalWide px qty)

def qtyForNotional (notional : Int) (px : Int) : Int :=
  if px ≤ 0 ∨ notional ≤ 0 then 0 else narrowSaturating ((notional * kScale).tdiv px)

def vwap (notional qty : Int) : Int :=
  if qty ≤ 0 then 0 else narrowSaturating ((notional * kScale).tdiv qty)

def bpsE8 (delta : Int) (reference : Int) : Int :=
  if reference ≤ 0 then 0 else narrowSaturating ((delta * 10000 * kScale).tdiv reference)

def kBpsScale : Int := 10000 * kScale

/-- `offsetBps` away from `reference`, rounded outward on both sides. -/
def offsetByBpsOutward (reference : Int) (offsetBps : Int) (downward : Bool) : Int :=
  if reference ≤ 0 ∨ offsetBps ≤ 0 then reference
  else
    let numerator : Int := reference * offsetBps
    let delta : Int := (numerator + kBpsScale - 1).tdiv kBpsScale
    narrowSaturating (if downward then reference - delta else reference + delta)

section Text

abbrev Bytes := List UInt8

def utf8 (text : String) : Bytes := text.toUTF8.data.toList

def isDigit (c : UInt8) : Bool := 48 ≤ c && c ≤ 57
def digitValue (c : UInt8) : Int := c.toNat - 48

structure IntegerScan where
  integerPart : Int := 0
  sawDigit : Bool := false
  rest : Bytes

/-- The digits in front of the point; `none` once they exceed the largest integer part. -/
def scanInteger (integerPart : Int) (sawDigit : Bool) : Bytes → Option IntegerScan
  | [] => some ⟨integerPart, sawDigit, []⟩
  | c :: rest =>
    if ¬ isDigit c then some ⟨integerPart, sawDigit, c :: rest⟩
    else if integerPart > kMaxIntegerPart / 10 then none
    else
      let next := integerPart * 10 + digitValue c
      if next > kMaxIntegerPart then none else scanInteger next true rest

structure FractionScan where
  fraction : Int := 0
  digits : ℕ := 0
  sawDigit : Bool
  rest : Bytes

def scanFraction (fraction : Int) (digits : ℕ) (sawDigit : Bool) : Bytes → FractionScan
  | [] => ⟨fraction, digits, sawDigit, []⟩
  | c :: rest =>
    if ¬ isDigit c then ⟨fraction, digits, sawDigit, c :: rest⟩
    else if digits < kScaleDigits then
      scanFraction (fraction * 10 + digitValue c) (digits + 1) true rest
    else scanFraction fraction digits true rest

def parseUnsigned (negative : Bool) (s : Bytes) : Option Int := do
  let whole ← scanInteger 0 false s
  let part : FractionScan :=
    match whole.rest with
    | 46 :: rest => scanFraction 0 0 whole.sawDigit rest
    | rest => ⟨0, 0, whole.sawDigit, rest⟩
  if part.rest ≠ [] ∨ ¬ part.sawDigit then none
  else
    let fraction := part.fraction * 10 ^ (kScaleDigits - part.digits)
    if whole.integerPart > (int64Max - fraction) / kScale then none
    else
      let value := whole.integerPart * kScale + fraction
      some (if negative then -value else value)

def parseFixed : Bytes → Option Int
  | [] => none
  | 43 :: rest => parseUnsigned false rest
  | 45 :: rest => parseUnsigned true rest
  | s => parseUnsigned false s

end Text

theorem fitsInt64_of_nonneg {v : Int} (h0 : 0 ≤ v) (h : v ≤ int64Max) : FitsInt64 v :=
  ⟨by simp only [int64Min]; omega, h⟩

theorem narrowSaturating_of_fits {v : Int} (h : FitsInt64 v) : narrowSaturating v = v := by
  simp only [narrowSaturating]
  rw [if_neg (not_lt.mpr h.2), if_neg (not_lt.mpr h.1)]

theorem narrowSaturating_mono {v w : Int} (h : v ≤ w) :
    narrowSaturating v ≤ narrowSaturating w := by
  simp only [narrowSaturating, int64Max, int64Min]
  split_ifs <;> omega

theorem notionalWide_eq_ediv {px : Int} {qty : Int} (hp : 0 ≤ px) (hq : 0 ≤ qty) :
    notionalWide px qty = px * qty / kScale :=
  Int.tdiv_eq_ediv_of_nonneg (mul_nonneg hp hq)

theorem notionalWide_nonneg {px : Int} {qty : Int} (hp : 0 ≤ px) (hq : 0 ≤ qty) :
    0 ≤ notionalWide px qty := by
  rw [notionalWide_eq_ediv hp hq]
  exact Int.ediv_nonneg (mul_nonneg hp hq) (by decide)

theorem notionalWide_mul_kScale_le {px : Int} {qty : Int} (hp : 0 ≤ px) (hq : 0 ≤ qty) :
    notionalWide px qty * kScale ≤ px * qty := by
  rw [notionalWide_eq_ediv hp hq]
  exact Int.ediv_mul_le _ (by decide)

theorem units_le_of_le_notionalWide {px qty notional : Int} (hp : 0 < px) (hq : 0 ≤ qty)
    (h : notional ≤ notionalWide px qty) : notional * kScale / px ≤ qty := by
  apply Int.ediv_le_of_le_mul hp
  calc notional * kScale
      ≤ notionalWide px qty * kScale := Int.mul_le_mul_of_nonneg_right h (by decide)
    _ ≤ px * qty := notionalWide_mul_kScale_le hp.le hq
    _ = qty * px := mul_comm _ _

end CexAggregator
