import Mathlib.Order.Bounds.Basic
import Mathlib.Algebra.Order.Ring.Int
import CexAggregator.Circular
import CexAggregator.Counter64

/-!
# Publish latencies

The last `kLatencySamples` latencies stand in a circular buffer beside their count and the
maximum of all. The count has 64 bits: percentiles are those of the most recent samples until
it wraps.
-/

namespace CexAggregator

def kLatencySamples : ℕ := 4096

structure LatencySummary where
  p50Ns : Int := 0
  p99Ns : Int := 0
  maxNs : Int := 0
  count : UInt64 := 0
deriving DecidableEq

structure Latencies where
  samples : Circular Int := Circular.start kLatencySamples 0 (by decide)
  max : Int := 0
  count : UInt64 := 0

namespace Latencies

def recordLatency (l : Latencies) (nanos : Int) : Latencies where
  samples := l.samples.write nanos
  max := Max.max l.max nanos
  count := l.count + 1

/-- `none` if an index is out of range. -/
def latency (l : Latencies) : Option LatencySummary :=
  if l.count = 0 then some { maxNs := l.max, count := l.count }
  else do
    let filled := min l.count.toNat l.samples.cells.length
    let sorted := (l.samples.cells.take filled).mergeSort
    let p50 ← sorted[filled / 2]?
    let p99 ← sorted[min (filled - 1) (filled * 99 / 100)]?
    some { p50Ns := p50, p99Ns := p99, maxNs := l.max, count := l.count }

def after (nanos : List Int) : Latencies := nanos.foldl recordLatency {}

theorem after_append_singleton (nanos : List Int) (v : Int) :
    after (nanos ++ [v]) = (after nanos).recordLatency v := by
  rw [after, List.foldl_append]
  rfl

theorem samples_after (nanos : List Int) : (after nanos).samples =
    (Circular.start kLatencySamples 0 (by decide)).writeAll nanos := by
  induction nanos using List.reverseRecOn with
  | nil => rfl
  | append_singleton nanos v ih =>
    rw [after_append_singleton, Circular.writeAll_append_singleton, ← ih]
    rfl

theorem count_after (nanos : List Int) :
    (after nanos).count = Counter64.count nanos.length := by
  induction nanos using List.reverseRecOn with
  | nil => rfl
  | append_singleton nanos v ih =>
    have hcount : ((after nanos).recordLatency v).count = (after nanos).count + 1 := rfl
    rw [after_append_singleton, hcount, ih, Counter64.count_succ, List.length_append,
      List.length_singleton]

theorem max_after (nanos : List Int) : 0 ≤ (after nanos).max ∧
    (∀ v ∈ nanos, v ≤ (after nanos).max) ∧ ((after nanos).max = 0 ∨ (after nanos).max ∈ nanos) := by
  induction nanos using List.reverseRecOn with
  | nil => exact ⟨le_rfl, List.forall_mem_nil _, .inl rfl⟩
  | append_singleton nanos v ih =>
    obtain ⟨hnonneg, hupper, hattained⟩ := ih
    have hmax : ((after nanos).recordLatency v).max = Max.max (after nanos).max v := rfl
    rw [after_append_singleton, hmax]
    refine ⟨hnonneg.trans (le_max_left _ _), ?_, ?_⟩
    · refine List.forall_mem_append.mpr ⟨?_, List.forall_mem_singleton.mpr (le_max_right _ _)⟩
      intro w hw
      exact (hupper w hw).trans (le_max_left _ _)
    · obtain hle | hle := le_total v (after nanos).max
      · rw [max_eq_left hle]
        exact hattained.imp_right fun hmem => List.mem_append_left _ hmem
      · rw [max_eq_right hle]
        exact .inr (List.mem_append_right _ (List.mem_singleton_self v))

/-- The maximum covers samples that are overwritten by now. -/
theorem isGreatest_after {nanos : List Int} (hnonneg : ∀ v ∈ nanos, 0 ≤ v) (hne : nanos ≠ []) :
    IsGreatest {v | v ∈ nanos} (after nanos).max := by
  obtain ⟨-, hupper, hattained⟩ := max_after nanos
  refine ⟨?_, hupper⟩
  obtain hzero | hmem := hattained
  · obtain ⟨v, hv⟩ := List.exists_mem_of_ne_nil nanos hne
    have hle := hupper v hv
    have heq : v = (after nanos).max := le_antisymm hle (hzero ▸ hnonneg v hv)
    rwa [heq] at hv
  · exact hmem

def recent (nanos : List Int) : List Int :=
  nanos.drop (nanos.length - min nanos.length kLatencySamples)

theorem length_recent (nanos : List Int) :
    (recent nanos).length = min nanos.length kLatencySamples := by
  rw [recent, List.length_drop]
  omega

theorem mem_of_mem_recent {nanos : List Int} {v : Int} (h : v ∈ recent nanos) : v ∈ nanos :=
  List.mem_of_mem_drop h

theorem filled_perm (nanos : List Int) :
    ((after nanos).samples.cells.take (min nanos.length kLatencySamples)).Perm (recent nanos) := by
  have hperm := Circular.take_writeAll_perm
    (c := Circular.start kLatencySamples 0 (by decide)) rfl nanos
  have hsize : (Circular.start kLatencySamples (0 : Int) (by decide)).cells.length =
      kLatencySamples := List.length_replicate
  rwa [hsize, ← samples_after] at hperm

theorem length_cells_after (nanos : List Int) :
    (after nanos).samples.cells.length = kLatencySamples := by
  rw [samples_after, Circular.length_writeAll]
  exact List.length_replicate

theorem pairwise_mergeSort_le (samples : List Int) :
    (samples.mergeSort fun a b => decide (a ≤ b)).Pairwise (· ≤ ·) := by
  have hpairwise := @List.pairwise_mergeSort Int (fun a b => decide (a ≤ b))
    (fun a b c hab hbc => decide_eq_true
      ((of_decide_eq_true hab).trans (of_decide_eq_true hbc)))
    (fun a b => by simpa using le_total a b) samples
  exact hpairwise.imp fun hab => of_decide_eq_true hab

theorem getElem_le_getElem {sorted : List Int} (h : sorted.Pairwise (· ≤ ·)) {i j : ℕ}
    (hij : i ≤ j) (hj : j < sorted.length) : sorted[i] ≤ sorted[j] := by
  obtain hlt | rfl := hij.lt_or_eq
  · exact List.pairwise_iff_getElem.mp h i j _ hj hlt
  · exact le_rfl

/-- What the summary says of the samples behind it. -/
structure OrderStatistics (nanos : List Int) (summary : LatencySummary) : Prop where
  count : summary.count.toNat = nanos.length
  greatest : nanos ≠ [] → IsGreatest {v | v ∈ nanos} summary.maxNs
  percentiles : nanos ≠ [] → ∃ sorted : List Int, sorted.Perm (recent nanos) ∧
    sorted.Pairwise (· ≤ ·) ∧ sorted[sorted.length / 2]? = some summary.p50Ns ∧
    sorted[min (sorted.length - 1) (99 * sorted.length / 100)]? = some summary.p99Ns
  zeros : nanos = [] → summary.p50Ns = 0 ∧ summary.p99Ns = 0 ∧ summary.maxNs = 0
  ordered : summary.p50Ns ≤ summary.p99Ns ∧ summary.p99Ns ≤ summary.maxNs

theorem latency_after {nanos : List Int} (hnonneg : ∀ v ∈ nanos, 0 ≤ v)
    (hcount : nanos.length < 2 ^ 64) :
    ∃ summary, (after nanos).latency = some summary ∧ OrderStatistics nanos summary := by
  have htoNat : (after nanos).count.toNat = nanos.length := by
    rw [count_after, Counter64.count_toNat, Nat.mod_eq_of_lt hcount]
  have hcells := length_cells_after nanos
  by_cases hne : nanos = []
  · subst hne
    refine ⟨{}, rfl, rfl, fun h => (h rfl).elim, fun h => (h rfl).elim, fun _ => ?_, ?_⟩
    · exact ⟨rfl, rfl, rfl⟩
    · exact ⟨le_rfl, le_rfl⟩
  · have hpos : 0 < nanos.length := List.length_pos_iff.mpr hne
    have hcount0 : (after nanos).count ≠ 0 := by
      intro hzero
      rw [hzero] at htoNat
      exact hpos.ne htoNat
    have hgreatest := isGreatest_after hnonneg hne
    have hperm := (List.mergeSort_perm _ fun a b => decide (a ≤ b)).trans (filled_perm nanos)
    have hsorted := pairwise_mergeSort_le
      ((after nanos).samples.cells.take (min nanos.length kLatencySamples))
    unfold latency
    rw [if_neg hcount0]
    simp only [htoNat, hcells]
    generalize ((after nanos).samples.cells.take (min nanos.length kLatencySamples)).mergeSort
      (fun a b => decide (a ≤ b)) = sorted at hperm hsorted ⊢
    have hlength : min nanos.length kLatencySamples = sorted.length := by
      rw [hperm.length_eq, length_recent]
    have hsize : 0 < sorted.length := by
      rw [← hlength]
      exact lt_min hpos (by decide)
    have h50 : sorted.length / 2 < sorted.length := by omega
    have h99 : min (sorted.length - 1) (99 * sorted.length / 100) < sorted.length := by omega
    have hindices : sorted.length / 2 ≤ min (sorted.length - 1) (99 * sorted.length / 100) := by
      omega
    rw [hlength, mul_comm sorted.length 99, List.getElem?_eq_getElem h50,
      List.getElem?_eq_getElem h99]
    refine ⟨_, rfl, htoNat, fun _ => hgreatest, fun _ => ?_, fun hnone => (hne hnone).elim, ?_, ?_⟩
    · exact ⟨sorted, hperm, hsorted, List.getElem?_eq_getElem h50, List.getElem?_eq_getElem h99⟩
    · exact getElem_le_getElem hsorted hindices h99
    · exact hgreatest.2 (mem_of_mem_recent (hperm.mem_iff.mp (List.getElem_mem h99)))

theorem latency_after_three : ∃ summary, (after [30, 10, 20]).latency = some summary ∧
    OrderStatistics [30, 10, 20] summary :=
  latency_after (by decide) (by decide)

/-- With the count back at zero the percentiles of a run of ones read zero. -/
theorem latency_count_wraps :
    (after (List.replicate (2 ^ 64) 1)).latency =
      some { p50Ns := 0, p99Ns := 0, maxNs := 1, count := 0 } := by
  have hwrap : ∀ n : ℕ, n % 2 ^ 64 = 0 → n ≠ 0 →
      (after (List.replicate n 1)).latency =
        some { p50Ns := 0, p99Ns := 0, maxNs := 1, count := 0 } := by
    intro n hn hpos
    have hcount : (after (List.replicate n 1)).count = 0 := by
      rw [count_after, List.length_replicate, ← UInt64.toNat_inj, Counter64.count_toNat, hn]
      rfl
    have hgreatest := @isGreatest_after (List.replicate n 1)
      (fun v hv => (List.eq_of_mem_replicate hv).ge.trans' (by decide))
      (by rwa [Ne, List.replicate_eq_nil_iff])
    have hmax : (after (List.replicate n 1)).max = 1 :=
      List.eq_of_mem_replicate hgreatest.1
    unfold latency
    rw [if_pos hcount, hmax, hcount]
  exact hwrap (2 ^ 64) (Nat.mod_self _) (Nat.two_pow_pos 64).ne'

end Latencies

end CexAggregator
