import Mathlib.Data.List.TakeWhile
import CexAggregator.Fixed
import CexAggregator.Positional
import CexAggregator.Computed

/-!
# The grammar of fixed-point text

`parseFixed` accepts the decimal literals whose magnitude, scaled by `kScale` and truncated,
fits 64 bits, and none of its `int64` operations overflows on the way to any answer.
-/

namespace CexAggregator
open Positional (value Digits readWithin)

def digits (s : Bytes) : List Int := s.map digitValue

theorem digitValue_bounds {c : UInt8} (h : isDigit c = true) :
    0 ≤ digitValue c ∧ digitValue c < 10 := by
  simp only [isDigit, Bool.and_eq_true, decide_eq_true_eq, UInt8.le_iff_toNat_le] at h
  obtain ⟨hlow, hhigh⟩ := h
  have hlow' : 48 ≤ c.toNat := hlow
  have hhigh' : c.toNat ≤ 57 := hhigh
  unfold digitValue
  omega

theorem digits_digits {s : Bytes} (h : ∀ c ∈ s, isDigit c = true) : Digits 10 (digits s) := by
  intro d hd
  obtain ⟨c, hc, rfl⟩ := List.mem_map.mp hd
  exact digitValue_bounds (h c hc)

theorem takeWhile_digits (s : Bytes) : ∀ c ∈ s.takeWhile isDigit, isDigit c = true := by
  intro c hc
  exact List.mem_takeWhile_imp hc

theorem takeWhile_digits_append {whole rest : Bytes} (h : ∀ c ∈ whole, isDigit c = true)
    (hrest : rest.takeWhile isDigit = []) : (whole ++ rest).takeWhile isDigit = whole := by
  rw [List.takeWhile_append_of_pos h, hrest, List.append_nil]

theorem dropWhile_digits_append {whole rest : Bytes} (h : ∀ c ∈ whole, isDigit c = true)
    (hrest : rest.takeWhile isDigit = []) : (whole ++ rest).dropWhile isDigit = rest := by
  have hsplit := List.takeWhile_append_dropWhile (p := isDigit) (l := whole ++ rest)
  rw [takeWhile_digits_append h hrest] at hsplit
  exact List.append_cancel_left hsplit

theorem scanInteger_eq (n : Int) (sawDigit : Bool) (s : Bytes) :
    scanInteger n sawDigit s =
      (readWithin kMaxIntegerPart 10 n (digits (s.takeWhile isDigit))).map fun v =>
        ⟨v, sawDigit || !(s.takeWhile isDigit).isEmpty, s.dropWhile isDigit⟩ := by
  induction s generalizing n sawDigit with
  | nil => simp [scanInteger, digits, readWithin]
  | cons c rest ih =>
    rw [scanInteger]
    by_cases hc : isDigit c = true
    · have hguard : n > kMaxIntegerPart / 10 → ¬ n * 10 + digitValue c ≤ kMaxIntegerPart := by
        have := digitValue_bounds hc
        unfold kMaxIntegerPart int64Max kScale
        omega
      rw [if_neg (not_not.mpr hc), List.takeWhile_cons_of_pos hc, List.dropWhile_cons_of_pos hc]
      simp only [digits, List.map_cons, readWithin]
      by_cases hle : n * 10 + digitValue c ≤ kMaxIntegerPart
      · rw [if_neg fun h => hguard h hle, if_neg (not_lt.mpr hle), if_pos hle, ih]
        simp [digits]
      · rw [if_neg hle, if_pos (not_le.mp hle), ite_self, Option.map_none]
    · rw [if_pos hc, List.takeWhile_cons_of_neg hc, List.dropWhile_cons_of_neg hc]
      simp [digits, readWithin]

theorem scanFraction_eq {k : ℕ} (hk : k ≤ kScaleDigits) (fraction : Int) (sawDigit : Bool)
    (s : Bytes) :
    scanFraction fraction k sawDigit s =
      ⟨value 10 fraction ((digits (s.takeWhile isDigit)).take (kScaleDigits - k)),
        min kScaleDigits (k + (s.takeWhile isDigit).length),
        sawDigit || !(s.takeWhile isDigit).isEmpty, s.dropWhile isDigit⟩ := by
  induction s generalizing k fraction sawDigit with
  | nil => simp [scanFraction, digits, hk]
  | cons c rest ih =>
    rw [scanFraction]
    by_cases hc : isDigit c = true
    · rw [if_neg (not_not.mpr hc), List.takeWhile_cons_of_pos hc, List.dropWhile_cons_of_pos hc]
      by_cases hlt : k < kScaleDigits
      · obtain ⟨m, hm⟩ : ∃ m, kScaleDigits - k = m + 1 := ⟨kScaleDigits - k - 1, by omega⟩
        have hm' : kScaleDigits - (k + 1) = m := by omega
        rw [if_pos hlt, ih hlt, hm, hm']
        simp only [digits, List.map_cons, List.take_succ_cons, Positional.value_cons,
          List.length_cons, List.isEmpty_cons, Bool.true_or, Bool.not_false, Bool.or_true,
          FractionScan.mk.injEq, true_and, and_true]
        omega
      · have hfull : kScaleDigits - k = 0 := by omega
        rw [if_neg hlt, ih hk, hfull]
        simp only [List.take_zero, List.length_cons, List.isEmpty_cons, Bool.true_or,
          Bool.not_false, Bool.or_true, FractionScan.mk.injEq, true_and, and_true]
        omega
    · rw [if_pos hc, List.takeWhile_cons_of_neg hc, List.dropWhile_cons_of_neg hc]
      simp [digits, hk]

structure Decimal where
  whole : Bytes
  fraction : Option Bytes
  wholeDigits : ∀ c ∈ whole, isDigit c = true
  fractionDigits : ∀ c ∈ fraction.getD [], isDigit c = true
  nonempty : whole ++ fraction.getD [] ≠ []

namespace Decimal
variable (d : Decimal)

def text : Bytes := d.whole ++ (d.fraction.elim [] fun f => 46 :: f)

def decimals : Bytes := d.fraction.getD []

def scaled : Int :=
  value 10 0 (digits (d.whole ++ d.decimals)) * 10 ^ kScaleDigits / 10 ^ d.decimals.length

def places : Int :=
  value 10 0 ((digits d.decimals).take kScaleDigits) *
    10 ^ (kScaleDigits - min kScaleDigits d.decimals.length)

theorem digits_whole : Digits 10 (digits d.whole) := digits_digits d.wholeDigits

theorem digits_decimals : Digits 10 (digits d.decimals) := digits_digits d.fractionDigits

theorem places_nonneg : 0 ≤ d.places := by
  have hd : Digits 10 ((digits d.decimals).take kScaleDigits) :=
    fun x hx => d.digits_decimals x (List.mem_of_mem_take hx)
  exact mul_nonneg (Positional.value_nonneg hd (by norm_num)) (by positivity)

theorem scaled_eq : d.scaled = value 10 0 (digits d.whole) * kScale + d.places := by
  have hkScale : (kScale : Int) = 10 ^ kScaleDigits := rfl
  have happend : digits (d.whole ++ d.decimals) = digits d.whole ++ digits d.decimals :=
    List.map_append
  have hlength : (digits d.decimals).length = d.decimals.length := List.length_map ..
  unfold scaled places
  rw [happend]
  by_cases hshort : d.decimals.length ≤ kScaleDigits
  · rw [min_eq_right hshort, List.take_of_length_le (hlength.trans_le hshort),
      Positional.value_append_zero, hlength, hkScale]
    have hpad : (10 : Int) ^ kScaleDigits =
        10 ^ (kScaleDigits - d.decimals.length) * 10 ^ d.decimals.length := by
      rw [← pow_add, Nat.sub_add_cancel hshort]
    rw [hpad, ← mul_assoc, Int.mul_ediv_cancel _ (by positivity)]
    rw [add_mul, mul_assoc, mul_comm (10 ^ d.decimals.length)]
  · have hlong : kScaleDigits ≤ d.decimals.length := le_of_not_ge hshort
    have hcut : digits d.decimals =
        (digits d.decimals).take kScaleDigits ++ (digits d.decimals).drop kScaleDigits :=
      (List.take_append_drop ..).symm
    have hdrop : ((digits d.decimals).drop kScaleDigits).length =
        d.decimals.length - kScaleDigits := by
      rw [List.length_drop, hlength]
    have hrest : Digits 10 ((digits d.decimals).drop kScaleDigits) :=
      fun x hx => d.digits_decimals x (List.mem_of_mem_drop hx)
    have htake : ((digits d.decimals).take kScaleDigits).length = kScaleDigits := by
      rw [List.length_take, hlength, min_eq_left hlong]
    have hpow : (10 : Int) ^ d.decimals.length =
        10 ^ (d.decimals.length - kScaleDigits) * 10 ^ kScaleDigits := by
      rw [← pow_add, Nat.sub_add_cancel hlong]
    rw [min_eq_left hlong, Nat.sub_self, pow_zero, mul_one, hpow,
      Int.mul_ediv_mul_of_pos_left _ _ (by positivity), hcut, ← List.append_assoc, ← hdrop,
      Positional.value_append_ediv hrest (by norm_num), Positional.value_append_zero, htake,
      List.take_append_of_le_length htake.ge, List.take_take, min_self, hkScale]

theorem takeWhile_tail : (d.fraction.elim [] fun f => 46 :: f).takeWhile isDigit = [] := by
  cases d.fraction with
  | none => rfl
  | some f => rfl

theorem scanInteger_text :
    scanInteger 0 false d.text =
      if value 10 0 (digits d.whole) ≤ kMaxIntegerPart then
        some ⟨value 10 0 (digits d.whole), !d.whole.isEmpty, d.fraction.elim [] fun f => 46 :: f⟩
      else none := by
  have htake : d.text.takeWhile isDigit = d.whole :=
    takeWhile_digits_append d.wholeDigits d.takeWhile_tail
  have hdrop : d.text.dropWhile isDigit = d.fraction.elim [] fun f => 46 :: f :=
    dropWhile_digits_append d.wholeDigits d.takeWhile_tail
  rw [scanInteger_eq, htake, hdrop,
    Positional.readWithin_eq d.digits_whole (by norm_num) le_rfl (by decide), Bool.false_or]
  split_ifs <;> rfl

theorem scanFraction_text {f : Bytes} (hf : d.fraction = some f) (sawDigit : Bool) :
    scanFraction 0 0 sawDigit f =
      ⟨value 10 0 ((digits d.decimals).take kScaleDigits), min kScaleDigits d.decimals.length,
        sawDigit || !d.decimals.isEmpty, []⟩ := by
  have hdecimals : d.decimals = f := by rw [decimals, hf, Option.getD_some]
  have hdigits : ∀ c ∈ f, isDigit c = true := hdecimals ▸ d.fractionDigits
  have htake : f.takeWhile isDigit = f := List.takeWhile_eq_self_iff.mpr hdigits
  have hdrop : f.dropWhile isDigit = [] := List.dropWhile_eq_nil_iff.mpr hdigits
  rw [scanFraction_eq (Nat.zero_le _), htake, hdrop, hdecimals, Nat.zero_add, Nat.sub_zero]

theorem sawDigit_text : (!d.whole.isEmpty || !d.decimals.isEmpty) = true := by
  have hne : d.whole ++ d.decimals ≠ [] := d.nonempty
  rw [← Bool.not_and, Bool.not_eq_true', ← Bool.not_eq_true, Bool.and_eq_true,
    List.isEmpty_iff, List.isEmpty_iff]
  rwa [Ne, List.append_eq_nil_iff] at hne

/-- The guard before the last product decides whether the scaled value fits. -/
theorem guard_iff :
    value 10 0 (digits d.whole) > (int64Max - d.places) / kScale ↔ ¬ d.scaled ≤ int64Max := by
  have hpos : (0 : Int) < kScale := by decide
  rw [gt_iff_lt, Int.ediv_lt_iff_lt_mul hpos, d.scaled_eq, not_le]
  constructor <;> intro h <;> linarith

theorem parseUnsigned_text (negative : Bool) :
    parseUnsigned negative d.text =
      if d.scaled ≤ int64Max then some (if negative then -d.scaled else d.scaled) else none := by
  have hwhole := Positional.value_nonneg d.digits_whole (by norm_num)
  unfold parseUnsigned
  rw [d.scanInteger_text]
  by_cases hmax : value 10 0 (digits d.whole) ≤ kMaxIntegerPart
  · have hsaw := d.sawDigit_text
    have hguard := d.guard_iff
    have hscaled := d.scaled_eq
    rw [if_pos hmax]
    cases hf : d.fraction with
    | none =>
      have hdecimals : d.decimals = [] := by rw [decimals, hf, Option.getD_none]
      have hplaces : d.places = 0 := by simp [places, hdecimals, digits]
      rw [hdecimals, List.isEmpty_nil, Bool.not_true, Bool.or_false] at hsaw
      rw [hplaces, sub_zero, gt_iff_lt] at hguard
      rw [hplaces] at hscaled
      simp only [Option.elim_none, Option.bind_eq_bind, Option.bind_some, hsaw]
      simp only [ne_eq, not_true_eq_false, or_self, if_false, zero_mul, sub_zero, gt_iff_lt,
        ← hscaled, hguard, ite_not]
    | some f =>
      simp only [Option.elim_some, Option.bind_eq_bind, Option.bind_some,
        d.scanFraction_text hf, hsaw]
      simp only [ne_eq, not_true_eq_false, or_self, if_false]
      rw [show value 10 0 ((digits d.decimals).take kScaleDigits) *
        10 ^ (kScaleDigits - min kScaleDigits d.decimals.length) = d.places from rfl, ← hscaled]
      simp only [hguard, ite_not]
  · have hlarge : ¬ d.scaled ≤ int64Max := by
      have hplaces := d.places_nonneg
      rw [d.scaled_eq]
      unfold kMaxIntegerPart int64Max kScale at *
      omega
    rw [if_neg hmax, if_neg hlarge]
    rfl

theorem text_ne_nil : d.text ≠ [] := by
  intro hnil
  obtain ⟨hwhole, hrest⟩ := List.append_eq_nil_iff.mp hnil
  have hne := d.nonempty
  cases hf : d.fraction with
  | none => simp [hwhole, hf] at hne
  | some f => simp [hf] at hrest

theorem head_text {c : UInt8} {rest : Bytes} (h : d.text = c :: rest) :
    isDigit c = true ∨ c = 46 := by
  have hdigits := d.wholeDigits
  unfold text at h
  cases hwhole : d.whole with
  | nil =>
    cases hf : d.fraction with
    | none => simp [hwhole, hf] at h
    | some f =>
      rw [hwhole, hf] at h
      exact .inr (List.head_eq_of_cons_eq h).symm
  | cons c' whole =>
    rw [hwhole] at h hdigits
    have hc : c' = c := List.head_eq_of_cons_eq h
    exact .inl (hc ▸ hdigits c' List.mem_cons_self)

end Decimal

theorem exists_decimal {negative : Bool} {s : Bytes} {v : Int}
    (h : parseUnsigned negative s = some v) : ∃ d : Decimal, d.text = s := by
  have hsplit : s.takeWhile isDigit ++ s.dropWhile isDigit = s := List.takeWhile_append_dropWhile
  have hwhole := takeWhile_digits s
  unfold parseUnsigned at h
  rw [scanInteger_eq] at h
  obtain ⟨scan, hscan, h⟩ := Option.bind_eq_some_iff.mp h
  obtain ⟨n, -, rfl⟩ := Option.map_eq_some_iff.mp hscan
  generalize s.dropWhile isDigit = rest at h hsplit
  generalize s.takeWhile isDigit = whole at h hsplit hwhole
  simp only [Bool.false_or] at h
  split at h
  · rename_i f
    rw [scanFraction_eq (Nat.zero_le _)] at h
    obtain ⟨hend, hsaw⟩ := not_or.mp (Option.ite_none_left_eq_some.mp h).1
    rw [not_not] at hend hsaw
    have hf : ∀ c ∈ f, isDigit c = true := List.dropWhile_eq_nil_iff.mp hend
    rw [List.takeWhile_eq_self_iff.mpr hf] at hsaw
    have hne : whole ++ f ≠ [] := by
      intro hnil
      obtain ⟨rfl, rfl⟩ := List.append_eq_nil_iff.mp hnil
      cases hsaw
    exact ⟨⟨whole, some f, hwhole, hf, hne⟩, hsplit⟩
  · obtain ⟨hend, hsaw⟩ := not_or.mp (Option.ite_none_left_eq_some.mp h).1
    rw [not_not] at hend hsaw
    have hne : whole ++ [] ≠ [] := by
      rw [List.append_nil]
      rintro rfl
      cases hsaw
    have hnone : ∀ c ∈ (none : Option Bytes).getD [], isDigit c = true :=
      List.forall_mem_nil _
    have htext : whole ++ [] = s := (congrArg (whole ++ ·) hend.symm).trans hsplit
    exact ⟨⟨whole, none, hwhole, hnone, hne⟩, htext⟩

inductive Sign where
  | absent
  | plus
  | minus
deriving DecidableEq

def Sign.text : Sign → Bytes
  | .absent => []
  | .plus => [43]
  | .minus => [45]

structure Literal where
  sign : Sign
  decimal : Decimal

namespace Literal
variable (l : Literal)

def text : Bytes := l.sign.text ++ l.decimal.text

def scaled : Int := if l.sign = .minus then -l.decimal.scaled else l.decimal.scaled

end Literal

theorem parseFixed_decimal (d : Decimal) : parseFixed d.text = parseUnsigned false d.text := by
  unfold parseFixed
  split
  · rename_i hnil
    exact (d.text_ne_nil hnil).elim
  · rename_i rest hplus
    exact absurd (d.head_text hplus) (by decide)
  · rename_i rest hminus
    exact absurd (d.head_text hminus) (by decide)
  · rfl

theorem parseFixed_text (l : Literal) :
    parseFixed l.text = if l.decimal.scaled ≤ int64Max then some l.scaled else none := by
  obtain ⟨sign, d⟩ := l
  cases sign with
  | absent => exact (parseFixed_decimal d).trans (d.parseUnsigned_text false)
  | plus => exact d.parseUnsigned_text false
  | minus => exact d.parseUnsigned_text true

theorem exists_literal {s : Bytes} {v : Int} (h : parseFixed s = some v) :
    ∃ l : Literal, l.text = s := by
  unfold parseFixed at h
  split at h
  · cases h
  · obtain ⟨d, rfl⟩ := exists_decimal h
    exact ⟨⟨.plus, d⟩, rfl⟩
  · obtain ⟨d, rfl⟩ := exists_decimal h
    exact ⟨⟨.minus, d⟩, rfl⟩
  · obtain ⟨d, rfl⟩ := exists_decimal h
    exact ⟨⟨.absent, d⟩, rfl⟩

open Computed (int64)

@[simp] theorem fitsWidth_64 {v : Int} : FitsWidth 64 v ↔ FitsInt64 v := Iff.rfl

def scanIntegerOps (integerPart : Int) (sawDigit : Bool) : Bytes → Computed (Option IntegerScan)
  | [] => pure (some ⟨integerPart, sawDigit, []⟩)
  | c :: rest =>
    if ¬ isDigit c then pure (some ⟨integerPart, sawDigit, c :: rest⟩)
    else if integerPart > kMaxIntegerPart / 10 then pure none
    else do
      let shifted ← int64 (integerPart * 10)
      let next ← int64 (shifted + digitValue c)
      if next > kMaxIntegerPart then pure none else scanIntegerOps next true rest

def scanFractionOps (fraction : Int) (digits : ℕ) (sawDigit : Bool) :
    Bytes → Computed FractionScan
  | [] => pure ⟨fraction, digits, sawDigit, []⟩
  | c :: rest =>
    if ¬ isDigit c then pure ⟨fraction, digits, sawDigit, c :: rest⟩
    else if digits < kScaleDigits then do
      let shifted ← int64 (fraction * 10)
      let next ← int64 (shifted + digitValue c)
      scanFractionOps next (digits + 1) true rest
    else scanFractionOps fraction digits true rest

def padFraction (fraction : Int) : ℕ → Computed Int
  | 0 => pure fraction
  | missing + 1 => do
    let shifted ← int64 (fraction * 10)
    padFraction shifted missing

def fractionOps (whole : IntegerScan) : Computed FractionScan :=
  match whole.rest with
  | 46 :: rest => scanFractionOps 0 0 whole.sawDigit rest
  | rest => pure ⟨0, 0, whole.sawDigit, rest⟩

def composeOps (negative : Bool) (integerPart fraction : Int) (out : Int) :
    Computed (Bool × Int) := do
  let room ← int64 (int64Max - fraction)
  if integerPart > room / kScale then pure (false, out)
  else do
    let units ← int64 (integerPart * kScale)
    let value ← int64 (units + fraction)
    let signed ← if negative then int64 (-value) else pure value
    pure (true, signed)

def parseUnsignedOps (negative : Bool) (s : Bytes) (out : Int) : Computed (Bool × Int) := do
  match ← scanIntegerOps 0 false s with
  | none => pure (false, out)
  | some whole => do
    let part ← fractionOps whole
    if part.rest ≠ [] ∨ ¬ part.sawDigit then pure (false, out)
    else do
      let fraction ← padFraction part.fraction (kScaleDigits - part.digits)
      composeOps negative whole.integerPart fraction out

/-- `parseFixed` with its `int64` operations; what it leaves behind `out` comes back too. -/
def parseFixedOps (s : Bytes) (out : Int) : Computed (Bool × Int) :=
  match s with
  | [] => pure (false, out)
  | 43 :: rest => parseUnsignedOps false rest out
  | 45 :: rest => parseUnsignedOps true rest out
  | s => parseUnsignedOps false s out

def answer (out : Int) (v : Option Int) : Bool × Int := v.elim (false, out) fun v => (true, v)

@[simp] theorem scanIntegerOps_value (n : Int) (sawDigit : Bool) (s : Bytes) :
    (scanIntegerOps n sawDigit s).value = scanInteger n sawDigit s := by
  induction s generalizing n sawDigit with
  | nil => rfl
  | cons c rest ih =>
    rw [scanIntegerOps, scanInteger]
    by_cases hc : isDigit c = true
    · rw [if_neg (not_not.mpr hc), if_neg (not_not.mpr hc)]
      split_ifs
      · rfl
      · simp only [Computed.value_op, Computed.value_ite, Computed.value_pure, ih]
    · rw [if_pos hc, if_pos hc]
      rfl

@[simp] theorem scanFractionOps_value (fraction : Int) (k : ℕ) (sawDigit : Bool) (s : Bytes) :
    (scanFractionOps fraction k sawDigit s).value = scanFraction fraction k sawDigit s := by
  induction s generalizing fraction k sawDigit with
  | nil => rfl
  | cons c rest ih =>
    rw [scanFractionOps, scanFraction]
    by_cases hc : isDigit c = true
    · rw [if_neg (not_not.mpr hc), if_neg (not_not.mpr hc)]
      split_ifs
      · exact ih _ _ _
      · exact ih _ _ _
    · rw [if_pos hc, if_pos hc]
      rfl

@[simp] theorem padFraction_value (fraction : Int) (missing : ℕ) :
    (padFraction fraction missing).value = fraction * 10 ^ missing := by
  induction missing generalizing fraction with
  | zero => simp [padFraction]
  | succ missing ih =>
    rw [padFraction, Computed.value_bind, ih, Computed.value_result, pow_succ]
    ring

theorem parseUnsigned_eq_bind (negative : Bool) (s : Bytes) :
    parseUnsigned negative s = (scanInteger 0 false s).bind fun whole =>
      let part := (fractionOps whole).value
      if part.rest ≠ [] ∨ ¬ part.sawDigit then none
      else
        let fraction := part.fraction * 10 ^ (kScaleDigits - part.digits)
        if whole.integerPart > (int64Max - fraction) / kScale then none
        else some (if negative then -(whole.integerPart * kScale + fraction)
          else whole.integerPart * kScale + fraction) := by
  have hpart : ∀ whole : IntegerScan, (fractionOps whole).value =
      match whole.rest with
      | 46 :: rest => scanFraction 0 0 whole.sawDigit rest
      | rest => ⟨0, 0, whole.sawDigit, rest⟩ := by
    intro whole
    unfold fractionOps
    split
    · exact scanFractionOps_value _ _ _ _
    · rfl
  simp only [hpart]
  rfl

theorem composeOps_value (negative : Bool) (integerPart fraction out : Int) :
    (composeOps negative integerPart fraction out).value =
      answer out (if integerPart > (int64Max - fraction) / kScale then none
        else some (if negative then -(integerPart * kScale + fraction)
          else integerPart * kScale + fraction)) := by
  simp only [composeOps, Computed.value_op, Computed.value_ite, Computed.value_pure]
  split_ifs <;> rfl

theorem parseUnsignedOps_value (negative : Bool) (s : Bytes) (out : Int) :
    (parseUnsignedOps negative s out).value = answer out (parseUnsigned negative s) := by
  rw [parseUnsignedOps, parseUnsigned_eq_bind, Computed.value_bind, scanIntegerOps_value]
  cases scanInteger 0 false s with
  | none => rfl
  | some whole =>
    simp only [Computed.value_bind, Option.bind_some, ↓Computed.value_ite, Computed.value_pure,
      padFraction_value, composeOps_value]
    split_ifs <;> rfl

theorem parseFixedOps_value (s : Bytes) (out : Int) :
    (parseFixedOps s out).value = answer out (parseFixed s) := by
  fun_cases parseFixed s with
  | case1 => rfl
  | case2 rest => exact parseUnsignedOps_value _ _ _
  | case3 rest => exact parseUnsignedOps_value _ _ _
  | case4 hnil hplus hminus =>
    rw [← parseUnsignedOps_value]
    simp only [parseFixedOps]

theorem scanIntegerOps_exact {n : Int} (hn : 0 ≤ n) (hmax : n ≤ kMaxIntegerPart)
    (sawDigit : Bool) (s : Bytes) : (scanIntegerOps n sawDigit s).Exact := by
  induction s generalizing n sawDigit with
  | nil => exact Computed.exact_pure _
  | cons c rest ih =>
    rw [scanIntegerOps]
    by_cases hc : isDigit c = true
    · rw [if_neg (not_not.mpr hc)]
      have hd := digitValue_bounds hc
      by_cases hguard : n > kMaxIntegerPart / 10
      · rw [if_pos hguard]
        exact Computed.exact_pure _
      · have hshifted : FitsInt64 (n * 10) := by
          unfold FitsInt64 int64Min int64Max kMaxIntegerPart int64Max kScale at *
          omega
        have hnext : FitsInt64 (n * 10 + digitValue c) := by
          unfold FitsInt64 int64Min int64Max kMaxIntegerPart int64Max kScale at *
          omega
        rw [if_neg hguard]
        simp only [Computed.exact_op, fitsWidth_64]
        refine ⟨hshifted, hnext, ?_⟩
        split_ifs with hlarge
        · exact Computed.exact_pure _
        · exact ih (by omega) (not_lt.mp hlarge) _
    · rw [if_pos hc]
      exact Computed.exact_pure _

structure FractionScan.Bounded (scan : FractionScan) : Prop where
  nonneg : 0 ≤ scan.fraction
  lt_pow : scan.fraction < 10 ^ scan.digits
  digits_le : scan.digits ≤ kScaleDigits

theorem fitsInt64_of_lt_pow {v : Int} {k : ℕ} (hv : 0 ≤ v) (hlt : v < 10 ^ k)
    (hk : k ≤ kScaleDigits) : FitsInt64 v := by
  have hpow : (10 : Int) ^ k ≤ 10 ^ kScaleDigits := pow_le_pow_right₀ (by norm_num) hk
  unfold FitsInt64 int64Min int64Max kScaleDigits at *
  omega

theorem scanFraction_bounded {fraction : Int} {k : ℕ} (hfraction : 0 ≤ fraction)
    (hlt : fraction < 10 ^ k) (hk : k ≤ kScaleDigits) (sawDigit : Bool) (s : Bytes) :
    (scanFractionOps fraction k sawDigit s).Exact ∧
      (scanFraction fraction k sawDigit s).Bounded := by
  induction s generalizing fraction k sawDigit with
  | nil => exact ⟨Computed.exact_pure _, hfraction, hlt, hk⟩
  | cons c rest ih =>
    rw [scanFractionOps, scanFraction]
    by_cases hc : isDigit c = true
    · rw [if_neg (not_not.mpr hc), if_neg (not_not.mpr hc)]
      by_cases hroom : k < kScaleDigits
      · have hd := digitValue_bounds hc
        have hnextLt : fraction * 10 + digitValue c < 10 ^ (k + 1) := by
          rw [pow_succ]
          omega
        have hshifted : fraction * 10 < 10 ^ (k + 1) := by omega
        have hrest := ih (by omega) hnextLt hroom true
        rw [if_pos hroom, if_pos hroom]
        simp only [Computed.exact_op, fitsWidth_64]
        exact ⟨⟨fitsInt64_of_lt_pow (by omega) hshifted hroom,
          fitsInt64_of_lt_pow (by omega) hnextLt hroom, hrest.1⟩, hrest.2⟩
      · rw [if_neg hroom, if_neg hroom]
        exact ih hfraction hlt hk true
    · rw [if_pos hc, if_pos hc]
      exact ⟨Computed.exact_pure _, hfraction, hlt, hk⟩

theorem fractionOps_bounded (whole : IntegerScan) :
    (fractionOps whole).Exact ∧ (fractionOps whole).value.Bounded := by
  unfold fractionOps
  split
  · rw [scanFractionOps_value]
    exact scanFraction_bounded le_rfl (by norm_num) (Nat.zero_le _) _ _
  · exact ⟨Computed.exact_pure _, le_rfl, by norm_num, Nat.zero_le _⟩

theorem padFraction_exact {fraction : Int} {missing : ℕ} (hfraction : 0 ≤ fraction)
    (hmax : fraction * 10 ^ missing ≤ int64Max) : (padFraction fraction missing).Exact := by
  induction missing generalizing fraction with
  | zero => exact Computed.exact_pure _
  | succ missing ih =>
    have hsplit : fraction * 10 ^ (missing + 1) = fraction * 10 * 10 ^ missing := by ring
    rw [hsplit] at hmax
    have hle : fraction * 10 ≤ fraction * 10 * 10 ^ missing :=
      le_mul_of_one_le_right (by omega) (one_le_pow₀ (by norm_num))
    have hfits : FitsInt64 (fraction * 10) := by
      unfold FitsInt64 int64Min
      omega
    rw [padFraction, Computed.exact_op]
    exact ⟨hfits, ih (by omega) hmax⟩

theorem composeOps_exact {integerPart fraction : Int} (hinteger : 0 ≤ integerPart)
    (hfraction : 0 ≤ fraction) (hlt : fraction < kScale) (negative : Bool) (out : Int) :
    (composeOps negative integerPart fraction out).Exact := by
  have hroom : FitsInt64 (int64Max - fraction) := by
    unfold FitsInt64 int64Min int64Max kScale at *
    omega
  unfold composeOps
  simp only [Computed.exact_op, fitsWidth_64]
  refine ⟨hroom, ?_⟩
  by_cases hguard : integerPart > (int64Max - fraction) / kScale
  · rw [if_pos hguard]
    exact Computed.exact_pure _
  · have hsum : integerPart * kScale + fraction ≤ int64Max := by
      unfold int64Max kScale at *
      omega
    have hunits : FitsInt64 (integerPart * kScale) := by
      unfold FitsInt64 int64Min int64Max kScale at *
      omega
    have hvalue : FitsInt64 (integerPart * kScale + fraction) := by
      unfold FitsInt64 int64Min kScale at *
      omega
    have hneg : FitsInt64 (-(integerPart * kScale + fraction)) := by
      unfold FitsInt64 int64Min int64Max kScale at *
      omega
    rw [if_neg hguard]
    simp only [Computed.exact_op, fitsWidth_64]
    refine ⟨hunits, hvalue, ?_⟩
    split_ifs
    · exact (Computed.exact_op ..).mpr ⟨hneg, Computed.exact_pure _⟩
    · exact Computed.exact_pure _

theorem parseUnsignedOps_exact (negative : Bool) (s : Bytes) (out : Int) :
    (parseUnsignedOps negative s out).Exact := by
  unfold parseUnsignedOps
  rw [Computed.exact_bind, scanIntegerOps_value]
  refine ⟨scanIntegerOps_exact le_rfl (by decide) _ _, ?_⟩
  cases hscan : scanInteger 0 false s with
  | none => exact Computed.exact_pure _
  | some whole =>
    have hinteger : 0 ≤ whole.integerPart := by
      have hdigits := digits_digits (takeWhile_digits s)
      rw [scanInteger_eq,
        Positional.readWithin_eq hdigits (by norm_num) le_rfl (by decide)] at hscan
      obtain ⟨n, hn, rfl⟩ := Option.map_eq_some_iff.mp hscan
      obtain ⟨-, hn⟩ := Option.ite_none_right_eq_some.mp hn
      obtain rfl := Option.some.inj hn
      exact Positional.value_nonneg hdigits (by norm_num)
    obtain ⟨hexact, hbounded⟩ := fractionOps_bounded whole
    have hpad : (fractionOps whole).value.fraction *
        10 ^ (kScaleDigits - (fractionOps whole).value.digits) < kScale := by
      have hsplit : kScale = 10 ^ (fractionOps whole).value.digits *
          10 ^ (kScaleDigits - (fractionOps whole).value.digits) := by
        rw [← pow_add, Nat.add_sub_cancel' hbounded.digits_le]
        rfl
      rw [hsplit]
      exact mul_lt_mul_of_pos_right hbounded.lt_pow (by positivity)
    have hpadNonneg := mul_nonneg hbounded.nonneg
      (by positivity : (0 : Int) ≤ 10 ^ (kScaleDigits - (fractionOps whole).value.digits))
    have hmax : kScale ≤ int64Max := by decide
    rw [Computed.exact_bind]
    refine ⟨hexact, ?_⟩
    split_ifs
    · exact Computed.exact_pure _
    · rw [Computed.exact_bind, padFraction_value]
      exact ⟨padFraction_exact hbounded.nonneg (by omega),
        composeOps_exact hinteger hpadNonneg hpad _ _⟩

theorem parseFixedOps_exact (s : Bytes) (out : Int) : (parseFixedOps s out).Exact := by
  unfold parseFixedOps
  split
  · exact Computed.exact_pure _
  · exact parseUnsignedOps_exact _ _ _
  · exact parseUnsignedOps_exact _ _ _
  · exact parseUnsignedOps_exact _ _ _

/-- The accepted texts, their values, and no operation beyond `int64`. -/
theorem parseFixedOps_accepts (s : Bytes) (out : Int) :
    (parseFixedOps s out).Exact ∧
      ((parseFixedOps s out).value.1 = true ↔
        ∃ l : Literal, l.text = s ∧ l.decimal.scaled ≤ int64Max) ∧
      (∀ l : Literal, l.text = s → l.decimal.scaled ≤ int64Max →
        (parseFixedOps s out).value = (true, l.scaled)) ∧
      ((parseFixedOps s out).value.1 = false → (parseFixedOps s out).value.2 = out) := by
  have hvalue := parseFixedOps_value s out
  have htext : ∀ l : Literal, l.text = s → l.decimal.scaled ≤ int64Max →
      (parseFixedOps s out).value = (true, l.scaled) := by
    rintro l rfl hmax
    rw [hvalue, parseFixed_text, if_pos hmax]
    rfl
  refine ⟨parseFixedOps_exact s out, ⟨?_, ?_⟩, htext, ?_⟩
  · intro htrue
    rw [hvalue] at htrue
    cases hparse : parseFixed s with
    | none => simp [hparse, answer] at htrue
    | some v =>
      obtain ⟨l, rfl⟩ := exists_literal hparse
      rw [parseFixed_text] at hparse
      exact ⟨l, rfl, (Option.ite_none_right_eq_some.mp hparse).1⟩
  · rintro ⟨l, hl, hmax⟩
    rw [htext l hl hmax]
  · intro hfalse
    rw [hvalue] at hfalse ⊢
    cases hparse : parseFixed s with
    | none => rfl
    | some v => simp [hparse, answer] at hfalse

end CexAggregator
