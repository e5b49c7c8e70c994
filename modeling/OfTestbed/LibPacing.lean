import Mathlib.Algebra.BigOperators.Group.List.Basic
import Mathlib.Algebra.Order.Field.Basic
import Mathlib.Data.List.Induction
import Mathlib.Tactic.Linarith
import Mathlib.Tactic.Ring

/-!
Timers that are looked at from time to time. A timer that has run out when it is looked at fires and starts anew with
its full period, whatever time has passed since it ran out. So it fires at most once in each period; and since it is
looked at at least every `bound`, at least once in each period lengthened by the bound.
-/

namespace OfTestbed.Lib

variable {κ : Type} [Field κ] [LinearOrder κ] [IsStrictOrderedRing κ]

structure Timer (κ : Type) where
  left : κ
  fired : Nat

namespace Timer

def start (period : κ) : Timer κ := ⟨period, 0⟩

/-- The timer is looked at, and then some time passes. -/
def turn (period : κ) (timer : Timer κ) (wait : κ) : Timer κ :=
  if timer.left ≤ 0 then ⟨period - wait, timer.fired + 1⟩ else ⟨timer.left - wait, timer.fired⟩

/-- The time that has passed is that of the periods of the firings, the part of the period that has run, and for each
firing a delay below the bound. -/
structure Paced (period bound : κ) (elapsed : κ) (timer : Timer κ) : Prop where
  fired_le : timer.fired * period + (period - timer.left) ≤ elapsed
  le_fired : elapsed ≤ timer.fired * (period + bound) + (period - timer.left)
  left_le : timer.left ≤ period
  lt_left : -bound < timer.left

variable {period bound : κ}

theorem paced_start (hperiod : 0 < period) (hbound : 0 < bound) : (start period).Paced period bound 0 := by
  refine ⟨?_, ?_, le_refl _, ?_⟩
  · simp [start]
  · simp [start]
  · simp only [start]
    linarith

theorem Paced.turn (hperiod : 0 < period) {elapsed : κ} {timer : Timer κ} (h : timer.Paced period bound elapsed)
    {wait : κ} (hnonneg : 0 ≤ wait) (hwait : wait < bound) :
    (timer.turn period wait).Paced period bound (elapsed + wait) := by
  obtain ⟨hfired, hle, hleft, hlt⟩ := h
  unfold Timer.turn
  by_cases hout : timer.left ≤ 0
  · rw [if_pos hout]
    have hcast : ((timer.fired + 1 : Nat) : κ) = timer.fired + 1 := by push_cast; ring
    refine ⟨?_, ?_, ?_, ?_⟩
    · simp only [hcast]
      linarith
    · simp only [hcast]
      linarith
    · simp only
      linarith
    · simp only
      linarith
  · rw [if_neg hout]
    refine ⟨?_, ?_, ?_, ?_⟩
    · simp only
      linarith
    · simp only
      linarith
    · simp only
      linarith
    · simp only
      linarith

theorem paced_foldl (hperiod : 0 < period) (hbound : 0 < bound) {waits : List κ}
    (hwaits : ∀ wait ∈ waits, 0 ≤ wait ∧ wait < bound) :
    (waits.foldl (Timer.turn period) (start period)).Paced period bound waits.sum := by
  induction waits using List.reverseRecOn with
  | nil => exact paced_start hperiod hbound
  | append_singleton before wait ih =>
      rw [List.foldl_append, List.sum_append, List.sum_singleton]
      obtain ⟨hnonneg, hlt⟩ := hwaits wait (by simp)
      exact (ih fun wait' hmem => hwaits wait' (List.mem_append_left _ hmem)).turn hperiod hnonneg hlt

/-- At most one firing for each period that has passed, and at least one for each that has passed with the delay. -/
theorem Paced.bounds {elapsed : κ} {timer : Timer κ} (h : timer.Paced period bound elapsed) :
    timer.fired * period ≤ elapsed ∧ elapsed < (timer.fired + 1) * (period + bound) := by
  obtain ⟨hfired, hle, hleft, hlt⟩ := h
  constructor
  · linarith
  · linarith

end Timer

end OfTestbed.Lib
