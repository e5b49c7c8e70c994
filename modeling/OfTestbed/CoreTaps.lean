import Mathlib.Algebra.Order.Floor.Semiring
import Mathlib.Analysis.Real.Sqrt
import Mathlib.Algebra.Order.Field.Rat
import Mathlib.Data.Rat.Floor
import OfTestbed.LibGroup
import OfTestbed.LibLoop
import OfTestbed.LibStatistics

/-!
The rates of the flows from the summary of a traffic capture (`traffic_analysis/core_taps.py`). The 95th percentile of
a list of rates is looked up in the sorted list at the rounded share of its length, counted from zero: a list of fewer
than twenty rates ends before. `none` is an exception.
-/

namespace OfTestbed.CoreTaps

open Lib

section Model

variable {κ : Type} [Field κ]

def scaleTrafficRates (summary : List (List κ)) : List (List κ) :=
  summary.map fun rates => rates.map fun rate => rate * 16 / (10 ^ 8 : Nat)

/-- The scaled rates of a summary, their means and their standard deviations. -/
def getRatesForFlows (sqrt : κ → κ) (summary : List (List κ)) : List (List κ) × List κ × List κ :=
  let summary := scaleTrafficRates summary
  let stdDev := summary.map (npStd sqrt)
  let means := summary.map npMean
  (summary, means, stdDev)

/-- `math.ceil(0.95 * len(rate_list))`, on the exact product. -/
def percentileIndex (length : Nat) : Nat := ⌈(95 / 100 : ℚ) * length⌉₊

variable [LinearOrder κ]

def get95thPercentileRatesForFlows (sqrt : κ → κ) (summary : List (List κ)) :
    Option (List (List κ) × List κ × List κ) := do
  let (summary, _, stdDev) := getRatesForFlows sqrt summary
  let percentileMeanRates ← (summary.map (sortedBy id)).mapM fun rateList =>
    rateList[percentileIndex rateList.length]?
  return (summary, percentileMeanRates, stdDev)

/-- The rate is one of the list, and at least 95% of the list are not above it. -/
def IsPercentile (rateList : List κ) (rate : κ) : Prop :=
  rate ∈ rateList ∧ 95 * rateList.length ≤ 100 * rateList.countP (· ≤ rate)

end Model

/-! ### The index and the rank -/

/-- The share is rounded up to the length itself for lists of fewer than twenty rates. -/
theorem percentileIndex_lt_iff (length : Nat) : percentileIndex length < length ↔ 20 ≤ length := by
  have hlt : percentileIndex length < length ↔ (95 / 100 : ℚ) * length ≤ ((length - 1 : Nat) : ℚ) ∧ 0 < length := by
    rw [percentileIndex, ← Nat.ceil_le]
    omega
  rw [hlt]
  constructor
  · rintro ⟨hle, hpos⟩
    rw [Nat.cast_sub hpos, Nat.cast_one] at hle
    have hlength : (20 : ℚ) ≤ length := by linarith
    exact_mod_cast hlength
  · intro hlength
    have hcast : (20 : ℚ) ≤ length := by exact_mod_cast hlength
    refine ⟨?_, by omega⟩
    rw [Nat.cast_sub (by omega), Nat.cast_one]
    linarith

theorem le_percentileIndex (length : Nat) : 95 * length ≤ 100 * percentileIndex length := by
  have hceil : (95 / 100 : ℚ) * length ≤ percentileIndex length := Nat.le_ceil _
  have hcast : (95 * length : ℚ) ≤ 100 * percentileIndex length := by linarith
  exact_mod_cast hcast

/-- In a sorted list the elements up to an index are not above the one at the index. -/
theorem lt_countP_le {κ : Type} [LinearOrder κ] {l : List κ} (hl : l.Pairwise (· ≤ ·)) {i : Nat} {a : κ}
    (ha : l[i]? = some a) : i < l.countP (· ≤ a) := by
  obtain ⟨hi, hget⟩ := List.getElem?_eq_some_iff.mp ha
  have hprefix : ∀ b ∈ l.take (i + 1), decide (b ≤ a) = true := by
    intro b hb
    obtain ⟨j, hj, rfl⟩ := List.mem_take_iff_getElem.mp hb
    apply decide_eq_true
    rcases Nat.lt_or_ge j i with hlt | hge
    · exact hget ▸ List.pairwise_iff_getElem.mp hl j i (by omega) hi hlt
    · have heq : j = i := by omega
      subst heq
      exact hget.le
  calc i < (l.take (i + 1)).length := by rw [List.length_take]; omega
    _ = (l.take (i + 1)).countP (· ≤ a) := (List.countP_eq_length.mpr hprefix).symm
    _ ≤ l.countP (· ≤ a) := (List.take_sublist (i + 1) l).countP_le

theorem isPercentile_of_getElem? {κ : Type} [Field κ] [LinearOrder κ] {rateList : List κ} {rate : κ}
    (h : (sortedBy id rateList)[percentileIndex rateList.length]? = some rate) : IsPercentile rateList rate := by
  refine ⟨mem_sortedBy.mp (List.mem_of_getElem? h), ?_⟩
  have hrank := lt_countP_le (pairwise_sortedBy id rateList) h
  rw [(perm_sortedBy id rateList).countP_eq] at hrank
  have hindex := le_percentileIndex rateList.length
  omega

/-- The function returns percentiles exactly when every list has at least twenty rates. -/
theorem percentile_rates_iff {κ : Type} [Field κ] [LinearOrder κ] (sqrt : κ → κ) (summary : List (List κ)) :
    (∃ rates stdDev, get95thPercentileRatesForFlows sqrt summary = some (scaleTrafficRates summary, rates, stdDev) ∧
      List.Forall₂ IsPercentile (scaleTrafficRates summary) rates) ↔
      ∀ rateList ∈ summary, 20 ≤ rateList.length := by
  have hlengths : (∀ rateList ∈ scaleTrafficRates summary, 20 ≤ rateList.length) ↔
      ∀ rateList ∈ summary, 20 ≤ rateList.length := by
    rw [scaleTrafficRates, List.forall_mem_map]
    simp only [List.length_map]
  rw [← hlengths]
  unfold get95thPercentileRatesForFlows getRatesForFlows
  generalize scaleTrafficRates summary = scaled
  simp only [Option.bind_eq_bind, Option.pure_def, List.mapM_map, Function.comp_def]
  constructor
  · rintro ⟨rates, stdDev, hrun, -⟩ rateList hmem
    obtain ⟨rates', hrates, -⟩ := Option.bind_eq_some_iff.mp hrun
    obtain ⟨rate, -, hrate⟩ := exists_of_mem_of_mapM hrates hmem
    obtain ⟨hlt, -⟩ := List.getElem?_eq_some_iff.mp hrate
    rw [(perm_sortedBy id rateList).length_eq] at hlt
    exact (percentileIndex_lt_iff _).mp hlt
  · intro hlong
    obtain ⟨rates, hrates⟩ : ∃ rates, scaled.mapM (fun rateList =>
        (sortedBy id rateList)[percentileIndex (sortedBy id rateList).length]?) = some rates := by
      apply exists_mapM
      intro rateList hmem
      have hlt : percentileIndex (sortedBy id rateList).length < (sortedBy id rateList).length := by
        rw [(perm_sortedBy id rateList).length_eq]
        exact (percentileIndex_lt_iff _).mpr (hlong rateList hmem)
      exact ⟨_, List.getElem?_eq_getElem hlt⟩
    refine ⟨rates, scaled.map (npStd sqrt), ?_, ?_⟩
    · rw [hrates, Option.bind_some]
    · refine (forall₂_of_mapM hrates).imp fun rateList rate hrate => ?_
      rw [(perm_sortedBy id rateList).length_eq] at hrate
      exact isPercentile_of_getElem? hrate

/-- The only index of a list of one rate is 0, and the rounded share of its length is 1. -/
theorem short_list_raises :
    ¬ ∃ rates stdDev, get95thPercentileRatesForFlows Real.sqrt [[1]] = some (scaleTrafficRates [[1]], rates, stdDev) ∧
      List.Forall₂ IsPercentile (scaleTrafficRates [[1]]) rates := by
  have hindex : percentileIndex 1 = 1 := by decide +kernel
  have hraises : get95thPercentileRatesForFlows Real.sqrt [[1]] = none := by
    simp [get95thPercentileRatesForFlows, getRatesForFlows, scaleTrafficRates, sortedBy, hindex]
  rintro ⟨rates, stdDev, hrun, -⟩
  rw [hraises] at hrun
  cases hrun

end OfTestbed.CoreTaps
