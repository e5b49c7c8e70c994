import Mathlib.Algebra.BigOperators.Ring.List
import Mathlib.Algebra.Order.BigOperators.Group.List
import Mathlib.Algebra.Order.Field.Basic
import Mathlib.Tactic.FieldSimp
import Mathlib.Tactic.Linarith

/-!
The mean and the standard deviation of a list of numbers, as `np.mean` and `np.std` compute them: the deviation is the
root of the mean squared distance from the mean. The root is an argument, so that the numbers are those of any field.
-/

namespace OfTestbed.Lib

section Field

variable {κ : Type} [Field κ]

def npMean (values : List κ) : κ := values.sum / values.length

def npStd (sqrt : κ → κ) (values : List κ) : κ :=
  sqrt (npMean (values.map fun value => (value - npMean values) ^ 2))

@[simp] theorem npMean_singleton (value : κ) : npMean [value] = value := by
  simp [npMean]

theorem npStd_singleton (sqrt : κ → κ) (value : κ) : npStd sqrt [value] = sqrt 0 := by
  rw [npStd, npMean_singleton, List.map_singleton, npMean_singleton, sub_self, zero_pow two_ne_zero]

end Field

section Ordered

variable {κ : Type} [Field κ] [LinearOrder κ] [IsStrictOrderedRing κ]

theorem npMean_eq_of_forall {values : List κ} (hne : values ≠ []) {value : κ} (h : ∀ v ∈ values, v = value) :
    npMean values = value := by
  have hlength : (values.length : κ) ≠ 0 := Nat.cast_ne_zero.mpr (mt List.eq_nil_of_length_eq_zero hne)
  rw [npMean, List.eq_replicate_of_mem h, List.sum_replicate, List.length_replicate, nsmul_eq_mul]
  rw [mul_div_cancel_left₀ value hlength]

theorem npMean_nonneg {values : List κ} (h : ∀ v ∈ values, 0 ≤ v) : 0 ≤ npMean values :=
  div_nonneg (List.sum_nonneg h) (Nat.cast_nonneg _)

/-- A mean of numbers that are not negative is zero when all of them are. -/
theorem npMean_eq_zero_iff {values : List κ} (h : ∀ v ∈ values, 0 ≤ v) :
    npMean values = 0 ↔ ∀ v ∈ values, v = 0 := by
  constructor
  · intro hmean v hv
    have hlength : (values.length : κ) ≠ 0 :=
      Nat.cast_ne_zero.mpr (mt List.eq_nil_of_length_eq_zero (List.ne_nil_of_mem hv))
    have hsum : values.sum = 0 := (div_eq_zero_iff.mp hmean).resolve_right hlength
    exact le_antisymm (hsum ▸ List.single_le_sum h v hv) (h v hv)
  · intro hzero
    rw [npMean, List.sum_eq_zero hzero, zero_div]

/-- The deviation of values that are all the same is that of one of them. -/
theorem npStd_eq_zero_iff {sqrt : κ → κ} (hsqrt : ∀ x, 0 ≤ x → (sqrt x = 0 ↔ x = 0)) (values : List κ) :
    npStd sqrt values = 0 ↔ ∀ v ∈ values, v = npMean values := by
  have hsquares : ∀ square ∈ values.map (fun value => (value - npMean values) ^ 2), 0 ≤ square := by
    intro square hmem
    obtain ⟨value, -, rfl⟩ := List.mem_map.mp hmem
    exact sq_nonneg _
  rw [npStd, hsqrt _ (npMean_nonneg hsquares), npMean_eq_zero_iff hsquares, List.forall_mem_map]
  simp only [sq_eq_zero_iff, sub_eq_zero]

end Ordered

end OfTestbed.Lib
