import Mathlib.Data.List.GetD
import CexAggregator.FixedParse

/-!
# Rendering fixed-point values

`formatFixed` writes every 64-bit value as a decimal. Reading it back gives the value again
with one exception: the magnitude of the most negative value passes the parser's limit.
-/

namespace CexAggregator
open Positional (value Digits)

/-- `std::to_string`. -/
def toText (n : ℕ) : Bytes := (Nat.toDigits 10 n).map Char.toUInt8

def fracDigits (fraction : UInt64) : ℕ → Bytes
  | 0 => []
  | i + 1 => fracDigits (fraction / 10) i ++ [(48 + fraction % 10).toUInt8]

/-- The digits kept once the zeros behind the least decimals are gone. -/
def keepDigits (minDecimals : ℕ) (frac : Bytes) : ℕ → ℕ
  | 0 => 0
  | keep + 1 =>
    if keep + 1 > minDecimals ∧ frac.getD keep 0 = 48 then keepDigits minDecimals frac keep
    else keep + 1

def magnitude (v : Int64) : UInt64 := if v < 0 then ~~~v.toUInt64 + 1 else v.toUInt64

def formatFixed (v : Int64) (minDecimals : ℕ) : Bytes :=
  let integerPart := magnitude v / 100000000
  let fraction := magnitude v % 100000000
  let frac := fracDigits fraction kScaleDigits
  let keep := keepDigits minDecimals frac kScaleDigits
  (if v < 0 then [45] else []) ++ toText integerPart.toNat ++
    (if keep > 0 then 46 :: frac.take keep else [])

def decimalsOf (text : Bytes) : Bytes := (text.dropWhile fun c => c != 46).tail

theorem isDigit_of_toNat {c : UInt8} {d : ℕ} (hd : d < 10) (h : c.toNat = 48 + d) :
    isDigit c = true ∧ digitValue c = d := by
  have hlow : (48 : UInt8) ≤ c := UInt8.le_iff_toNat_le.mpr (h ▸ Nat.le_add_right 48 d)
  have hhigh : c ≤ (57 : UInt8) := by
    refine UInt8.le_iff_toNat_le.mpr ?_
    rw [h]
    change 48 + d ≤ 57
    omega
  refine ⟨?_, ?_⟩
  · unfold isDigit
    rw [decide_eq_true hlow, decide_eq_true hhigh]
    rfl
  · unfold digitValue
    rw [h]
    push_cast
    ring

theorem isDigit_toUInt8 {c : Char} (h : c.isDigit = true) :
    isDigit c.toUInt8 = true ∧ digitValue c.toUInt8 = (c.toNat - 48 : ℕ) := by
  have hbounds := h
  simp only [Char.isDigit, Bool.and_eq_true, decide_eq_true_eq, ge_iff_le,
    UInt32.le_iff_toNat_le] at hbounds
  obtain ⟨hlow, hhigh⟩ := hbounds
  change 48 ≤ c.toNat at hlow
  change c.toNat ≤ 57 at hhigh
  have htoNat : c.toUInt8.toNat = 48 + (c.toNat - 48) := by
    have hmod : c.toUInt8.toNat = c.toNat % 256 := rfl
    omega
  exact isDigit_of_toNat (by omega) htoNat

theorem toText_digits (n : ℕ) : ∀ c ∈ toText n, isDigit c = true := by
  intro c hc
  obtain ⟨x, hx, rfl⟩ := List.mem_map.mp hc
  exact (isDigit_toUInt8 (Nat.isDigit_of_mem_toDigits (by norm_num) le_rfl hx)).1

theorem toText_ne_nil (n : ℕ) : toText n ≠ [] := by
  unfold toText
  rw [Ne, List.map_eq_nil_iff]
  exact Nat.toDigits_ne_nil

theorem value_chars {cs : List Char} (h : ∀ c ∈ cs, c.isDigit = true) (init : ℕ) :
    value 10 (init : Int) (digits (cs.map Char.toUInt8)) = Nat.ofDigitChars 10 cs init := by
  induction cs generalizing init with
  | nil => simp [digits]
  | cons c cs ih =>
    obtain ⟨hc, hcs⟩ := List.forall_mem_cons.mp h
    have hnext : (init : Int) * 10 + digitValue c.toUInt8 = (10 * init + (c.toNat - 48) : ℕ) := by
      rw [(isDigit_toUInt8 hc).2]
      push_cast
      ring
    rw [Nat.ofDigitChars_cons, List.map_cons, digits, List.map_cons, Positional.value_cons, hnext]
    exact ih hcs _

theorem value_toText (n : ℕ) : value 10 0 (digits (toText n)) = n := by
  have hdigits : ∀ c ∈ Nat.toDigits 10 n, c.isDigit = true :=
    fun c hc => Nat.isDigit_of_mem_toDigits (by norm_num) le_rfl hc
  have hchars := value_chars hdigits 0
  rw [Nat.ofDigitChars_toDigits (by norm_num) le_rfl] at hchars
  exact hchars

theorem fracDigit_spec (fraction : UInt64) :
    isDigit (48 + fraction % 10).toUInt8 = true ∧
      digitValue (48 + fraction % 10).toUInt8 = (fraction.toNat % 10 : ℕ) := by
  have htoNat : (48 + fraction % 10).toUInt8.toNat = 48 + fraction.toNat % 10 := by
    rw [UInt64.toNat_toUInt8, UInt64.toNat_add, UInt64.toNat_mod]
    change (48 + fraction.toNat % 10) % 2 ^ 64 % 2 ^ 8 = _
    omega
  exact isDigit_of_toNat (by omega) htoNat

theorem length_fracDigits (fraction : UInt64) (n : ℕ) : (fracDigits fraction n).length = n := by
  induction n generalizing fraction with
  | zero => rfl
  | succ n ih => rw [fracDigits, List.length_append, ih, List.length_singleton]

theorem fracDigits_digits (fraction : UInt64) (n : ℕ) :
    ∀ c ∈ fracDigits fraction n, isDigit c = true := by
  induction n generalizing fraction with
  | zero => exact List.forall_mem_nil _
  | succ n ih =>
    exact List.forall_mem_append.mpr
      ⟨ih _, List.forall_mem_singleton.mpr (fracDigit_spec fraction).1⟩

theorem value_fracDigits (fraction : UInt64) (n : ℕ) :
    value 10 0 (digits (fracDigits fraction n)) = (fraction.toNat % 10 ^ n : ℕ) := by
  induction n generalizing fraction with
  | zero => simp [fracDigits, digits, Nat.mod_one]
  | succ n ih =>
    have happend : digits (fracDigits fraction (n + 1)) =
        digits (fracDigits (fraction / 10) n) ++ [digitValue (48 + fraction % 10).toUInt8] :=
      List.map_append
    have hdiv : (fraction / 10).toNat = fraction.toNat / 10 := UInt64.toNat_div _ _
    have hmod : fraction.toNat % 10 ^ (n + 1) =
        fraction.toNat / 10 % 10 ^ n * 10 + fraction.toNat % 10 := by
      rw [pow_succ', Nat.mod_mul]
      ring
    rw [happend, Positional.value_append, ih, Positional.value_cons, Positional.value_nil,
      (fracDigit_spec fraction).2, hdiv, hmod]
    push_cast
    rfl

section Trimming
variable (minDecimals : ℕ) (frac : Bytes) (n : ℕ)

theorem keepDigits_le : keepDigits minDecimals frac n ≤ n := by
  induction n with
  | zero => exact le_rfl
  | succ keep ih =>
    rw [keepDigits]
    split_ifs
    · exact ih.trans (Nat.le_succ keep)
    · exact le_rfl

theorem le_keepDigits (h : minDecimals ≤ n) : minDecimals ≤ keepDigits minDecimals frac n := by
  induction n with
  | zero => exact h
  | succ keep ih =>
    rw [keepDigits]
    split_ifs with hzero
    · exact ih (by omega)
    · exact h

theorem keepDigits_zeros (i : ℕ) (hi : keepDigits minDecimals frac n ≤ i) (hn : i < n) :
    frac.getD i 0 = 48 := by
  induction n with
  | zero => omega
  | succ keep ih =>
    rw [keepDigits] at hi
    split_ifs at hi with hzero
    · by_cases hlast : i = keep
      · rw [hlast]
        exact hzero.2
      · exact ih hi (by omega)
    · omega

theorem keepDigits_last (h : minDecimals < keepDigits minDecimals frac n) :
    frac.getD (keepDigits minDecimals frac n - 1) 0 ≠ 48 := by
  induction n with
  | zero => exact (Nat.not_lt_zero _ h).elim
  | succ keep ih =>
    rw [keepDigits] at h ⊢
    split_ifs at h ⊢ with hzero
    · exact ih h
    · intro hlast
      exact hzero ⟨h, hlast⟩

theorem drop_keepDigits (hn : frac.length = n) :
    frac.drop (keepDigits minDecimals frac n) =
      List.replicate (n - keepDigits minDecimals frac n) 48 := by
  apply List.ext_getElem
  · rw [List.length_drop, List.length_replicate, hn]
  · intro i hi _
    rw [List.length_drop, hn] at hi
    have hzero := keepDigits_zeros minDecimals frac n (keepDigits minDecimals frac n + i)
      (Nat.le_add_right _ _) (by omega)
    rw [List.getElem_drop, List.getElem_replicate]
    rwa [List.getD_eq_getElem _ _ (by omega)] at hzero

end Trimming

theorem magnitude_toNat (v : Int64) : (magnitude v).toNat = v.toInt.natAbs := by
  have hlt : v < 0 ↔ v.toInt < 0 := Int64.lt_iff_toInt_lt
  have hInt : v.toInt = v.toBitVec.toInt := rfl
  have hbv := BitVec.toInt_eq_toNat_cond v.toBitVec
  have hbound := v.toBitVec.isLt
  have hnat : v.toUInt64.toNat = v.toBitVec.toNat := rfl
  unfold magnitude
  split_ifs with hneg
  · have hflip : (~~~v.toUInt64 + 1).toNat = (2 ^ 64 - 1 - v.toBitVec.toNat + 1) % 2 ^ 64 := by
      rw [UInt64.toNat_add, UInt64.toNat_not]
      rfl
    rw [hlt] at hneg
    rw [hflip]
    omega
  · rw [hlt] at hneg
    omega

section Rendering
variable (v : Int64) (minDecimals : ℕ)

def renderedFraction : Bytes := fracDigits (magnitude v % 100000000) kScaleDigits

def renderedKeep : ℕ := keepDigits minDecimals (renderedFraction v) kScaleDigits

theorem length_renderedFraction : (renderedFraction v).length = kScaleDigits :=
  length_fracDigits _ _

theorem renderedKeep_le : renderedKeep v minDecimals ≤ kScaleDigits := keepDigits_le _ _ _

def renderedDecimal : Decimal where
  whole := toText (magnitude v / 100000000).toNat
  fraction := if renderedKeep v minDecimals > 0 then
      some ((renderedFraction v).take (renderedKeep v minDecimals))
    else none
  wholeDigits := toText_digits _
  fractionDigits := by
    split_ifs
    · intro c hc
      exact fracDigits_digits _ _ c (List.mem_of_mem_take hc)
    · exact List.forall_mem_nil _
  nonempty := by
    intro hnil
    exact toText_ne_nil _ (List.append_eq_nil_iff.mp hnil).1

def renderedLiteral : Literal where
  sign := if v < 0 then .minus else .absent
  decimal := renderedDecimal v minDecimals

theorem formatFixed_eq_text : formatFixed v minDecimals = (renderedLiteral v minDecimals).text := by
  have hsign : (renderedLiteral v minDecimals).sign.text = if v < 0 then [45] else [] := by
    unfold renderedLiteral
    split_ifs <;> rfl
  have hfraction : ((renderedDecimal v minDecimals).fraction.elim [] fun f => 46 :: f) =
      if renderedKeep v minDecimals > 0 then
        46 :: (renderedFraction v).take (renderedKeep v minDecimals)
      else [] := by
    unfold renderedDecimal
    split_ifs <;> rfl
  rw [Literal.text, hsign]
  change _ = _ ++ (toText _ ++ (renderedDecimal v minDecimals).fraction.elim [] fun f => 46 :: f)
  rw [hfraction, ← List.append_assoc]
  rfl

theorem decimals_rendered : (renderedDecimal v minDecimals).decimals =
    (renderedFraction v).take (renderedKeep v minDecimals) := by
  have hfraction : (renderedDecimal v minDecimals).fraction =
      if renderedKeep v minDecimals > 0 then
        some ((renderedFraction v).take (renderedKeep v minDecimals))
      else none := rfl
  rw [Decimal.decimals, hfraction]
  by_cases hkeep : renderedKeep v minDecimals > 0
  · rw [if_pos hkeep, Option.getD_some]
  · rw [if_neg hkeep, Option.getD_none, Nat.eq_zero_of_not_pos hkeep, List.take_zero]

theorem places_rendered :
    (renderedDecimal v minDecimals).places = ((magnitude v).toNat % 100000000 : ℕ) := by
  have hkeep := renderedKeep_le v minDecimals
  have hlength := length_renderedFraction v
  have htake : ((renderedFraction v).take (renderedKeep v minDecimals)).length =
      renderedKeep v minDecimals := by
    rw [List.length_take, hlength, min_eq_left hkeep]
  have hdrop : digits ((renderedFraction v).drop (renderedKeep v minDecimals)) =
      List.replicate (kScaleDigits - renderedKeep v minDecimals) 0 := by
    rw [renderedKeep, drop_keepDigits _ _ _ hlength, digits, List.map_replicate]
    rfl
  have hvalue : value 10 0 (digits (renderedFraction v)) =
      ((magnitude v).toNat % 100000000 : ℕ) := by
    unfold renderedFraction
    rw [value_fracDigits, UInt64.toNat_mod]
    exact congrArg _ (Nat.mod_mod _ _)
  have hsplit : digits (renderedFraction v) =
      digits ((renderedFraction v).take (renderedKeep v minDecimals)) ++
        digits ((renderedFraction v).drop (renderedKeep v minDecimals)) := by
    rw [digits, digits, digits, ← List.map_append, List.take_append_drop]
  have hshort : (digits ((renderedFraction v).take (renderedKeep v minDecimals))).length ≤
      kScaleDigits := by
    rw [digits, List.length_map, htake]
    exact hkeep
  rw [← hvalue, hsplit, Positional.value_append, hdrop, Positional.value_replicate_zero,
    Decimal.places, decimals_rendered, List.take_of_length_le hshort, htake, min_eq_right hkeep]

theorem scaled_rendered :
    (renderedDecimal v minDecimals).scaled = (v.toInt.natAbs : Int) := by
  have hwhole : value 10 0 (digits (renderedDecimal v minDecimals).whole) =
      ((magnitude v).toNat / 100000000 : ℕ) := by
    rw [renderedDecimal, value_toText, UInt64.toNat_div]
    rfl
  rw [Decimal.scaled_eq, hwhole, places_rendered, ← magnitude_toNat]
  unfold kScale
  omega

theorem parseFixed_formatFixed :
    parseFixed (formatFixed v minDecimals) = some v.toInt ↔ v ≠ Int64.minValue := by
  have hlt : v < 0 ↔ v.toInt < 0 := Int64.lt_iff_toInt_lt
  have hlow := v.le_toInt
  have hhigh := v.toInt_lt
  have hmin : v = Int64.minValue ↔ v.toInt = -9223372036854775808 :=
    Int64.toInt_inj.symm
  have hsigned : (renderedLiteral v minDecimals).scaled = v.toInt := by
    unfold Literal.scaled renderedLiteral
    rw [scaled_rendered]
    by_cases hneg : v < 0
    · rw [if_pos hneg, if_pos rfl]
      rw [hlt] at hneg
      omega
    · have habsent : Sign.absent ≠ Sign.minus := by decide
      rw [if_neg hneg, if_neg habsent]
      rw [hlt] at hneg
      omega
  rw [formatFixed_eq_text, parseFixed_text, hsigned]
  change (if (renderedDecimal v minDecimals).scaled ≤ int64Max then _ else _) = _ ↔ _
  rw [scaled_rendered, Ne, hmin]
  unfold int64Max
  split_ifs with hmax
  · rw [eq_self_iff_true, true_iff]
    omega
  · simp only [false_iff, not_not]
    omega

theorem decimalsOf_text (l : Literal) : decimalsOf l.text = l.decimal.decimals := by
  have hpoint : ∀ c ∈ l.sign.text ++ l.decimal.whole, (c != 46) = true := by
    refine List.forall_mem_append.mpr ⟨?_, ?_⟩
    · cases l.sign with
      | absent => exact List.forall_mem_nil _
      | plus => exact List.forall_mem_singleton.mpr (by decide)
      | minus => exact List.forall_mem_singleton.mpr (by decide)
    · intro c hc
      have hdigit := l.decimal.wholeDigits c hc
      rw [bne_iff_ne]
      rintro rfl
      exact absurd hdigit (by decide)
  rw [decimalsOf, Literal.text, Decimal.text, ← List.append_assoc,
    List.dropWhile_append_of_pos hpoint]
  unfold Decimal.decimals
  cases l.decimal.fraction with
  | none => rfl
  | some f => rfl

theorem decimalsOf_formatFixed : decimalsOf (formatFixed v minDecimals) =
    (renderedFraction v).take (renderedKeep v minDecimals) := by
  rw [formatFixed_eq_text, decimalsOf_text]
  exact decimals_rendered v minDecimals

end Rendering

/-- The rendering reads back as the value, with the decimals asked for and no zero behind them,
exactly when the value is not the most negative one. -/
theorem formatFixed_round_trip (v : Int64) {minDecimals : ℕ} (h : minDecimals ≤ 8) :
    (parseFixed (formatFixed v minDecimals) = some v.toInt ∧
        minDecimals ≤ (decimalsOf (formatFixed v minDecimals)).length ∧
        (minDecimals < (decimalsOf (formatFixed v minDecimals)).length →
          (decimalsOf (formatFixed v minDecimals)).getLast? ≠ some 48)) ↔
      v ≠ Int64.minValue := by
  have hkeep := renderedKeep_le v minDecimals
  have hlength := length_renderedFraction v
  have hdecimals : (decimalsOf (formatFixed v minDecimals)).length =
      renderedKeep v minDecimals := by
    rw [decimalsOf_formatFixed, List.length_take, hlength, min_eq_left hkeep]
  have hleast : minDecimals ≤ renderedKeep v minDecimals := le_keepDigits _ _ _ h
  have hlast : minDecimals < renderedKeep v minDecimals →
      (decimalsOf (formatFixed v minDecimals)).getLast? ≠ some 48 := by
    intro hmore hzero
    have hnotZero := keepDigits_last minDecimals (renderedFraction v) kScaleDigits hmore
    rw [List.getLast?_eq_getElem?, hdecimals, decimalsOf_formatFixed,
      List.getElem?_take_of_lt (by omega)] at hzero
    rw [List.getD_eq_getElem?_getD] at hnotZero
    exact hnotZero (by rw [← renderedKeep, hzero]; rfl)
  rw [parseFixed_formatFixed, hdecimals]
  constructor
  · intro hall
    exact hall.1
  · intro hv
    exact ⟨hv, hleast, hlast⟩

theorem formatFixed_round_trip_largest :
    (parseFixed (formatFixed Int64.maxValue 8) = some Int64.maxValue.toInt ∧
        8 ≤ (decimalsOf (formatFixed Int64.maxValue 8)).length ∧
        (8 < (decimalsOf (formatFixed Int64.maxValue 8)).length →
          (decimalsOf (formatFixed Int64.maxValue 8)).getLast? ≠ some 48)) ↔
      Int64.maxValue ≠ Int64.minValue :=
  formatFixed_round_trip Int64.maxValue le_rfl

/-- The text of the most negative value is one unit beyond the parser's limit. -/
theorem formatFixed_most_negative :
    formatFixed Int64.minValue 2 = utf8 "-92233720368.54775808" ∧
      parseFixed (formatFixed Int64.minValue 2) = none := by
  decide

end CexAggregator
