import Kortex.Model.EvalMetrics

/-
This file proves when the reported percentiles are nearest-rank.
-/

namespace Kortex.EvalMetrics

/-- This is the rank of a percentile among some samples. -/
def rankOf (p n : Nat) : Nat := ⌈((p : ℚ) * n / 100)⌉₊

theorem rankOf_eq (p n : Nat) : rankOf p n = (p * n + 99) / 100 := by
  have value : (p : ℚ) * n / 100 = ((p * n : Nat) : ℚ) / (100 : Nat) := by
    push_cast
    rfl
  apply le_antisymm
  · rw [rankOf, Nat.ceil_le, value, div_le_iff₀ (by norm_num)]
    exact_mod_cast (by omega : p * n ≤ (p * n + 99) / 100 * 100)
  · have above := Nat.le_ceil ((p : ℚ) * n / 100)
    rw [← rankOf, value, div_le_iff₀ (by norm_num)] at above
    have rounded : p * n ≤ rankOf p n * 100 := by exact_mod_cast above
    omega

/-- The rounding of `pct` gives the rank of nearest-rank, or the clamp at the first sample does. -/
def RoundsUp (p n : Nat) : Prop :=
  p * n < 100 ∨ p * n % 100 = 0 ∨ 50 < p * n % 100 ∨ (p * n % 100 = 50 ∧ p * n / 100 % 2 = 1)

instance (p n : Nat) : Decidable (RoundsUp p n) := by
  unfold RoundsUp
  infer_instance

/-- The index of `pct` is that of nearest-rank, or one too low. -/
theorem indexOf_eq (p n : Nat) (percent : p ≤ 100) (positive : 0 < p) (nonempty : 0 < n) :
    indexOf n p = if RoundsUp p n then rankOf p n - 1 else rankOf p n - 2 := by
  have value : (p : ℚ) / 100 * n = ((p * n : Nat) : ℚ) / (100 : Nat) := by
    push_cast
    ring
  have least : 1 ≤ p * n := Nat.mul_pos positive nonempty
  have most : p * n ≤ 100 * n := Nat.mul_le_mul_right n percent
  rw [indexOf, value, roundHalfEven_div _ 100 (by norm_num), rankOf_eq]
  by_cases up : RoundsUp p n
  · rw [if_pos up]
    unfold RoundsUp at up
    split_ifs <;> omega
  · rw [if_neg up]
    unfold RoundsUp at up
    split_ifs <;> omega

theorem rankOf_bounds (p n : Nat) (percent : p ≤ 100) (positive : 0 < p) (nonempty : 0 < n) :
    0 < rankOf p n ∧ rankOf p n ≤ n := by
  have least : 1 ≤ p * n := Nat.mul_pos positive nonempty
  have most : p * n ≤ 100 * n := Nat.mul_le_mul_right n percent
  rw [rankOf_eq]
  omega

/-- The value is the sample at the rank, and so the least sample such that at least so many percent of the
samples are not above it. -/
structure NearestRank (p : Nat) (samples : List ℚ) (value : ℚ) : Prop where
  rank : samples[rankOf p samples.length - 1]? = some value
  least : IsLeast {x | x ∈ samples ∧ p * samples.length ≤ 100 * samples.countP (· ≤ x)} value

theorem samples_sorted (outcomes : List QueryOutcome) : (samples outcomes).Pairwise (· ≤ ·) :=
  List.pairwise_insertionSort (· ≤ ·) _

theorem nearestRank_iff (p : Nat) (samples : List ℚ) (sorted : samples.Pairwise (· ≤ ·))
    (percent : p ≤ 100) (positive : 0 < p) (nonempty : 0 < samples.length) (value : ℚ) :
    NearestRank p samples value ↔ samples[rankOf p samples.length - 1]? = some value := by
  obtain ⟨first, last⟩ := rankOf_bounds p samples.length percent positive nonempty
  have enough (x : ℚ) : p * samples.length ≤ 100 * samples.countP (· ≤ x) ↔
      rankOf p samples.length - 1 < samples.countP (· ≤ x) := by
    rw [rankOf_eq] at first ⊢
    omega
  refine ⟨NearestRank.rank, fun rank => ⟨rank, ?_⟩⟩
  simp only [enough]
  exact (OrderStatistic.isLeast_iff sorted _ (by omega) value).mpr rank

/-- The rank is right, or the sample before has the same latency. -/
def Agrees (p : Nat) (samples : List ℚ) : Prop :=
  RoundsUp p samples.length ∨
    samples[rankOf p samples.length - 2]? = samples[rankOf p samples.length - 1]?

theorem nearestRank_pct_iff (p : Nat) (samples : List ℚ) (sorted : samples.Pairwise (· ≤ ·))
    (percent : p ≤ 100) (positive : 0 < p) (nonempty : 0 < samples.length) :
    NearestRank p samples (pct samples p) ↔ Agrees p samples := by
  obtain ⟨first, last⟩ := rankOf_bounds p samples.length percent positive nonempty
  have small (i : Nat) (below : i ≤ rankOf p samples.length - 1) :
      samples[i]? = some (samples.getD i 0) := by
    have place : i < samples.length := by omega
    rw [List.getD_eq_getElem?_getD, List.getElem?_eq_getElem place, Option.getD_some]
  rw [nearestRank_iff p samples sorted percent positive nonempty, pct, indexOf_eq p _ percent positive nonempty,
    Agrees]
  by_cases up : RoundsUp p samples.length
  · rw [if_pos up]
    exact iff_of_true (small _ le_rfl) (Or.inl up)
  · rw [if_neg up, ← small _ (by omega)]
    exact ⟨fun same => Or.inr same.symm, fun either => (either.resolve_left up).symm⟩

/-- These are the percentiles in the report. -/
def reported : List (Str × Nat) := [("p50", 50), ("p95", 95), ("p99", 99)]

theorem get?_latencyPercentiles (outcomes : List QueryOutcome) (nonempty : 0 < (samples outcomes).length)
    (entry : Str × Nat) (inside : entry ∈ reported) :
    Dict.get? (latencyPercentiles outcomes) entry.1 = some (pct (samples outcomes) entry.2) := by
  rw [latencyPercentiles]
  cases found : samples outcomes with
  | nil =>
      rw [found] at nonempty
      exact absurd nonempty (Nat.lt_irrefl 0)
  | cons first rest =>
      simp only [reported, List.mem_cons, List.not_mem_nil, or_false] at inside
      rcases inside with rfl | rfl | rfl
      · rfl
      · rfl
      · rfl

/-- A reported percentile is nearest-rank exactly when the rounding gives its rank or the sample one place
before has the same latency. -/
theorem percentile_nearest_iff (outcomes : List QueryOutcome)
    (successful : ∃ o ∈ outcomes, o.error = none) (entry : Str × Nat) (inside : entry ∈ reported) :
    ∃ value, Dict.get? (latencyPercentiles outcomes) entry.1 = some value ∧
      (NearestRank entry.2 (samples outcomes) value ↔ Agrees entry.2 (samples outcomes)) := by
  have nonempty : 0 < (samples outcomes).length := by
    obtain ⟨o, present, fine⟩ := successful
    rw [samples, List.length_insertionSort, List.length_map]
    exact List.length_pos_of_mem (List.mem_filter.mpr ⟨present, by rw [fine]; rfl⟩)
  have percent : 0 < entry.2 ∧ entry.2 ≤ 100 := by
    revert entry
    decide
  exact ⟨_, get?_latencyPercentiles outcomes nonempty entry inside,
    nearestRank_pct_iff entry.2 _ (samples_sorted outcomes) percent.2 percent.1 nonempty⟩

/-- These are as many queries as numbers, with the numbers as latencies. -/
def outcomesOf (latencies : List ℚ) : List QueryOutcome := latencies.map fun latency => ⟨latency, none⟩

/-- The median of five samples is the third one, but the second one is reported. -/
theorem median_is_too_low :
    ¬ ∀ outcomes : List QueryOutcome, (∃ o ∈ outcomes, o.error = none) → ∀ entry ∈ reported,
      ∃ value, Dict.get? (latencyPercentiles outcomes) entry.1 = some value ∧
        NearestRank entry.2 (samples outcomes) value := by
  intro claim
  obtain ⟨value, found, nearest⟩ := claim (outcomesOf [1, 2, 3, 4, 5])
    ⟨⟨1, none⟩, List.mem_cons_self, rfl⟩ ("p50", 50) List.mem_cons_self
  have second : Dict.get? (latencyPercentiles (outcomesOf [1, 2, 3, 4, 5])) "p50" = some 2 := by
    decide +kernel
  have third : (samples (outcomesOf [1, 2, 3, 4, 5]))[2]? = some 3 := by decide +kernel
  have rank := nearest.rank
  rw [rankOf_eq, ← Option.some.inj (second.symm.trans found)] at rank
  exact absurd (third.symm.trans rank) (by decide)

/-- Of four samples, the second one is the median. -/
theorem percentile_nearest_iff_four : Agrees 50 (samples (outcomesOf [4, 2, 3, 1])) ∧
    ∃ value, Dict.get? (latencyPercentiles (outcomesOf [4, 2, 3, 1])) "p50" = some value ∧
      (NearestRank 50 (samples (outcomesOf [4, 2, 3, 1])) value ↔
        Agrees 50 (samples (outcomesOf [4, 2, 3, 1]))) :=
  ⟨Or.inl (by decide), percentile_nearest_iff (outcomesOf [4, 2, 3, 1])
    ⟨⟨4, none⟩, List.mem_cons_self, rfl⟩ ("p50", 50) List.mem_cons_self⟩

end Kortex.EvalMetrics
