import Mathlib.Tactic.Common
import Mathlib.Data.Nat.ModEq

/-!
# Counters that wrap

A 64-bit counter stands for the number of times it was incremented. Two counters tell the
distance between their counts as long as it fits, and a mask of `k` ones tells counts apart
that lie within `2 ^ k` of each other, whether or not the counter wraps in between.
-/

namespace CexAggregator.Counter64

def count (n : ℕ) : UInt64 := UInt64.ofNat n

theorem count_toNat (n : ℕ) : (count n).toNat = n % 2 ^ 64 := UInt64.toNat_ofNat'

theorem count_add (m n : ℕ) : count (m + n) = count m + count n := UInt64.ofNat_add m n

theorem count_succ (n : ℕ) : count n + 1 = count (n + 1) := (count_add n 1).symm

theorem count_sub_toNat {m n : ℕ} (hle : m ≤ n) (hlt : n - m < 2 ^ 64) :
    (count n - count m).toNat = n - m := by
  rw [UInt64.toNat_sub, count_toNat, count_toNat]
  omega

theorem count_eq_iff {m n : ℕ} (hle : m ≤ n) (hlt : n - m < 2 ^ 64) :
    count m = count n ↔ m = n := by
  constructor
  · intro h
    have hzero := count_sub_toNat hle hlt
    rw [h, UInt64.sub_self, UInt64.toNat_zero] at hzero
    omega
  · intro h
    rw [h]

section Mask
variable {mask : UInt64} {k : ℕ}

theorem masked_toNat (hk : k ≤ 64) (hmask : mask.toNat = 2 ^ k - 1) (n : ℕ) :
    (count n &&& mask).toNat = n % 2 ^ k := by
  rw [UInt64.toNat_and, hmask, Nat.and_two_pow_sub_one_eq_mod, count_toNat]
  exact Nat.mod_mod_of_dvd n (Nat.pow_dvd_pow 2 hk)

theorem masked_add_capacity (hk : k ≤ 64) (hmask : mask.toNat = 2 ^ k - 1) (n : ℕ) :
    count (n + 2 ^ k) &&& mask = count n &&& mask := by
  rw [← UInt64.toNat_inj, masked_toNat hk hmask, masked_toNat hk hmask, Nat.add_mod_right]

/-- Counts in one window of `2 ^ k` have slots of their own. -/
theorem masked_inj (hk : k ≤ 64) (hmask : mask.toNat = 2 ^ k - 1) {m n low : ℕ} (hm : low ≤ m)
    (hn : low ≤ n) (hm' : m < low + 2 ^ k) (hn' : n < low + 2 ^ k)
    (h : count m &&& mask = count n &&& mask) : m = n := by
  rw [← UInt64.toNat_inj, masked_toNat hk hmask, masked_toNat hk hmask] at h
  rcases Nat.le_total m n with hle | hle
  · have hzero : (n - m) % 2 ^ k = 0 := Nat.sub_mod_eq_zero_of_mod_eq h.symm
    rw [Nat.mod_eq_of_lt (by omega)] at hzero
    omega
  · have hzero : (m - n) % 2 ^ k = 0 := Nat.sub_mod_eq_zero_of_mod_eq h
    rw [Nat.mod_eq_of_lt (by omega)] at hzero
    omega

end Mask

end CexAggregator.Counter64
