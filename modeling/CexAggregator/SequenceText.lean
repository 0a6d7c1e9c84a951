import CexAggregator.FixedParse
import CexAggregator.Json

/-!
# Sequence numbers published as strings

The guard of the digit loop, with its one exception on the last digit, accepts exactly the
values of 64 bits.
-/

namespace CexAggregator
open Positional (value)

def signed (negative : Bool) (magnitude : Int) : Int :=
  if negative then -magnitude else magnitude

structure SequenceLiteral where
  negative : Bool
  magnitude : Bytes
  allDigits : ∀ c ∈ magnitude, isDigit c = true
  nonempty : magnitude ≠ []

namespace SequenceLiteral
variable (l : SequenceLiteral)

def text : Bytes := if l.negative then 45 :: l.magnitude else l.magnitude

def number : Int := signed l.negative (value 10 0 (digits l.magnitude))

end SequenceLiteral

namespace Json

theorem scanI64_all_digits {negative : Bool} {parsed v : Int} {s : Bytes}
    (h : scanI64 negative parsed s = some v) : ∀ c ∈ s, isDigit c = true := by
  induction s generalizing parsed with
  | nil => exact List.forall_mem_nil _
  | cons c rest ih =>
    rw [scanI64] at h
    obtain ⟨hc, h⟩ := Option.ite_none_left_eq_some.mp h
    refine List.forall_mem_cons.mpr ⟨not_not.mp hc, ?_⟩
    simp only at h
    split_ifs at h with hguard hlast
    · rw [hlast.2.1]
      exact List.forall_mem_nil _
    · exact ih h

/-- Past the guard only the magnitude of the most negative value is left, and only at the end. -/
theorem scanI64_past_guard {c : UInt8} {rest : Bytes} {parsed : Int}
    (hdigits : ∀ x ∈ c :: rest, isDigit x = true) (hparsed : 0 ≤ parsed)
    (hmax : parsed ≤ int64Max) (hguard : parsed > (int64Max - digitValue c) / 10)
    (negative : Bool) :
    (negative = true ∧ rest = [] ∧ parsed = int64Max / 10 ∧ digitValue c = 8 ∧
        int64Max % 10 = 7) ↔
      FitsInt64 (signed negative (value 10 parsed (digits (c :: rest)))) := by
  obtain ⟨hc, hrest⟩ := List.forall_mem_cons.mp hdigits
  have hd := digitValue_bounds hc
  have hover : int64Max < parsed * 10 + digitValue c := by
    unfold int64Max at *
    omega
  have hle : parsed * 10 + digitValue c ≤ value 10 parsed (digits (c :: rest)) :=
    Positional.le_value (digits_digits hrest) (by norm_num) (by omega)
  have hmodulus : int64Max % 10 = 7 := by decide
  cases negative with
  | false =>
    simp only [signed, FitsInt64, Bool.false_eq_true, false_and, if_false, false_iff, not_and]
    omega
  | true =>
    simp only [signed, FitsInt64, if_true, true_and, hmodulus, and_true]
    cases rest with
    | nil =>
      simp only [true_and, digits, List.map_cons, List.map_nil, Positional.value_cons,
        Positional.value_nil]
      unfold int64Min int64Max at *
      omega
    | cons c' rest =>
      obtain ⟨hc', hrest'⟩ := List.forall_mem_cons.mp hrest
      have hd' := digitValue_bounds hc'
      have hlarge : (parsed * 10 + digitValue c) * 10 + digitValue c' ≤
          value 10 parsed (digits (c :: c' :: rest)) :=
        Positional.le_value (digits_digits hrest') (by norm_num) (by omega)
      simp only [reduceCtorEq, false_and, false_iff, not_and]
      unfold int64Min int64Max at *
      omega

theorem scanI64_eq {negative : Bool} {parsed : Int} {s : Bytes}
    (hdigits : ∀ c ∈ s, isDigit c = true) (hparsed : 0 ≤ parsed) (hmax : parsed ≤ int64Max) :
    scanI64 negative parsed s =
      if FitsInt64 (signed negative (value 10 parsed (digits s))) then
        some (signed negative (value 10 parsed (digits s)))
      else none := by
  induction s generalizing parsed with
  | nil =>
    have hfits : FitsInt64 (signed negative parsed) := by
      unfold FitsInt64 signed int64Min
      unfold int64Max at *
      split_ifs <;> omega
    exact (if_pos hfits).symm
  | cons c rest ih =>
    obtain ⟨hc, hrest⟩ := List.forall_mem_cons.mp hdigits
    have hd := digitValue_bounds hc
    rw [scanI64, if_neg (not_not.mpr hc)]
    by_cases hguard : parsed > (int64Max - digitValue c) / 10
    · have hpast := scanI64_past_guard hdigits hparsed hmax hguard negative
      simp only [hguard, if_true, hpast]
      split_ifs with hfits
      · obtain ⟨hnegative, hnil, hlast, h8, -⟩ := hpast.mpr hfits
        subst hnil hnegative
        simp only [signed, if_true, digits, List.map_cons, List.map_nil, Positional.value_cons,
          Positional.value_nil, hlast, h8]
        rfl
      · rfl
    · have hnext : parsed * 10 + digitValue c ≤ int64Max := by
        unfold int64Max at *
        omega
      simp only [hguard, if_false]
      exact ih hrest (by omega) hnext

theorem parseI64_unsigned {s : Bytes} (hnil : s ≠ []) (hminus : ∀ rest, s ≠ 45 :: rest) :
    parseI64 s = scanI64 false 0 s := by
  unfold parseI64
  split
  · exact (hnil rfl).elim
  · exact (hminus [] rfl).elim
  · exact (hminus _ rfl).elim
  · rfl

theorem parseI64_text (l : SequenceLiteral) :
    parseI64 l.text = if FitsInt64 l.number then some l.number else none := by
  obtain ⟨negative, magnitude, hdigits, hne⟩ := l
  have hscan : scanI64 negative 0 magnitude = _ :=
    scanI64_eq hdigits le_rfl (by decide)
  cases negative with
  | true =>
    cases magnitude with
    | nil => exact (hne rfl).elim
    | cons c rest => exact hscan
  | false =>
    cases magnitude with
    | nil => exact (hne rfl).elim
    | cons c rest =>
      have hc : c ≠ 45 := by
        rintro rfl
        exact absurd (hdigits 45 List.mem_cons_self) (by decide)
      refine (parseI64_unsigned (List.cons_ne_nil _ _) ?_).trans hscan
      rintro tail htail
      exact hc (List.head_eq_of_cons_eq htail)

theorem exists_sequenceLiteral {s : Bytes} {v : Int} (h : parseI64 s = some v) :
    ∃ l : SequenceLiteral, l.text = s := by
  unfold parseI64 at h
  split at h
  · cases h
  · cases h
  · rename_i rest hne
    have hrest : rest ≠ [] := by
      rintro rfl
      exact hne rfl
    exact ⟨⟨true, rest, scanI64_all_digits h, hrest⟩, rfl⟩
  · rename_i hnil hlone hminus
    exact ⟨⟨false, s, scanI64_all_digits h, hnil⟩, rfl⟩

def scanI64Ops (negative : Bool) (parsed : Int) : Bytes → Computed (Option Int)
  | [] => if negative then do
      let opposite ← Computed.int64 (-parsed)
      pure (some opposite)
    else pure (some parsed)
  | c :: rest =>
    if ¬ isDigit c then pure none
    else do
      let digit := digitValue c
      let room ← Computed.int64 (int64Max - digit)
      if parsed > room / 10 then
        if negative ∧ rest = [] ∧ parsed = int64Max / 10 ∧ digit = 8 ∧ int64Max % 10 = 7 then
          pure (some int64Min)
        else pure none
      else do
        let shifted ← Computed.int64 (parsed * 10)
        let next ← Computed.int64 (shifted + digit)
        scanI64Ops negative next rest

def parseI64Ops : Bytes → Computed (Option Int)
  | [] => pure none
  | [45] => pure none
  | 45 :: rest => scanI64Ops true 0 rest
  | text => scanI64Ops false 0 text

def getI64Ops (value : Option Json) : Computed (Option Int) :=
  match value with
  | none => pure none
  | some element =>
    match element.getInt64 with
    | some v => pure (some v)
    | none =>
      match getString (some element) with
      | none => pure none
      | some text => parseI64Ops (utf8 text)

theorem scanI64Ops_value (negative : Bool) (parsed : Int) (s : Bytes) :
    (scanI64Ops negative parsed s).value = scanI64 negative parsed s := by
  induction s generalizing parsed with
  | nil =>
    rw [scanI64Ops, scanI64]
    split_ifs <;> rfl
  | cons c rest ih =>
    rw [scanI64Ops, scanI64]
    simp only [Computed.value_op, Computed.value_ite, Computed.value_pure, ih]

theorem parseI64Ops_value (s : Bytes) : (parseI64Ops s).value = parseI64 s := by
  fun_cases parseI64 s with
  | case1 => rfl
  | case2 => rfl
  | case3 rest hne =>
    cases rest with
    | nil => exact (hne rfl).elim
    | cons c rest => exact scanI64Ops_value _ _ _
  | case4 hnil hlone hminus =>
    rw [← scanI64Ops_value]
    simp only [parseI64Ops]

theorem getI64Ops_value (value : Option Json) : (getI64Ops value).value = getI64 value := by
  cases value with
  | none => rfl
  | some element =>
    simp only [getI64Ops, getI64]
    cases element.getInt64 with
    | some v => rfl
    | none =>
      cases getString (some element) with
      | none => rfl
      | some text => exact parseI64Ops_value _

theorem scanI64Ops_exact {parsed : Int} (hparsed : 0 ≤ parsed) (hmax : parsed ≤ int64Max)
    (negative : Bool) (s : Bytes) : (scanI64Ops negative parsed s).Exact := by
  induction s generalizing parsed with
  | nil =>
    have hfits : FitsInt64 (-parsed) := by
      unfold FitsInt64 int64Min
      unfold int64Max at *
      omega
    rw [scanI64Ops]
    split_ifs
    · exact (Computed.exact_op ..).mpr ⟨hfits, Computed.exact_pure _⟩
    · exact Computed.exact_pure _
  | cons c rest ih =>
    rw [scanI64Ops]
    by_cases hc : isDigit c = true
    · rw [if_neg (not_not.mpr hc)]
      have hd := digitValue_bounds hc
      have hroom : FitsInt64 (int64Max - digitValue c) := by
        unfold FitsInt64 int64Min int64Max
        omega
      simp only [Computed.exact_op, fitsWidth_64]
      refine ⟨hroom, ?_⟩
      by_cases hguard : parsed > (int64Max - digitValue c) / 10
      · rw [if_pos hguard]
        split_ifs <;> exact Computed.exact_pure _
      · have hnext : parsed * 10 + digitValue c ≤ int64Max := by
          unfold int64Max at *
          omega
        have hshifted : FitsInt64 (parsed * 10) := by
          unfold FitsInt64 int64Min
          omega
        have hnextFits : FitsInt64 (parsed * 10 + digitValue c) := by
          unfold FitsInt64 int64Min
          omega
        rw [if_neg hguard]
        simp only [Computed.exact_op, fitsWidth_64]
        exact ⟨hshifted, hnextFits, ih (by omega) hnext⟩
    · rw [if_pos hc]
      exact Computed.exact_pure _

theorem parseI64Ops_exact (s : Bytes) : (parseI64Ops s).Exact := by
  unfold parseI64Ops
  split
  · exact Computed.exact_pure _
  · exact Computed.exact_pure _
  · exact scanI64Ops_exact le_rfl (by decide) _ _
  · exact scanI64Ops_exact le_rfl (by decide) _ _

/-- A string is read as the number it writes, if 64 bits hold it. -/
theorem getI64Ops_string (text : String) :
    (getI64Ops (some (string text))).Exact ∧
      ∀ v, (getI64Ops (some (string text))).value = some v ↔
        ∃ l : SequenceLiteral, l.text = utf8 text ∧ l.number = v ∧ FitsInt64 l.number := by
  have hvalue : (getI64Ops (some (string text))).value = parseI64 (utf8 text) :=
    parseI64Ops_value _
  refine ⟨parseI64Ops_exact _, ?_⟩
  intro v
  rw [hvalue]
  constructor
  · intro hv
    obtain ⟨l, hl⟩ := exists_sequenceLiteral hv
    rw [← hl, parseI64_text] at hv
    obtain ⟨hfits, hnumber⟩ := Option.ite_none_right_eq_some.mp hv
    exact ⟨l, hl, Option.some.inj hnumber, hfits⟩
  · rintro ⟨l, hl, rfl, hfits⟩
    rw [← hl, parseI64_text, if_pos hfits]

end Json

end CexAggregator
