import Mathlib.Algebra.Order.Field.Rat
import Mathlib.Tactic.Linarith

/-!
The choice of a mark for a packet (`traffic_generation/traffic_gen.py`). A flow has a proportion and a tag for each
of its paths; a random number picks a path, and its tag, shifted past the two low bits, is the packet's mark. `none` is
an exception.
-/

namespace OfTestbed.TrafficGen

def calcDscpVal (flowNum : Nat) (tagValues : List Nat) : Option Nat := tagValues[flowNum]?.map (· <<< 2)

/-- The loop of `select_dscp` from a path on. It may run out of paths, and then the function returns `None`. -/
def selectDscpFrom (tagValues : List Nat) (randomPick : ℚ) (flowNum : Nat) (accumulator : ℚ) :
    List ℚ → Option (Option Nat)
  | [] => some none
  | proportion :: rest =>
      if randomPick ≤ accumulator + proportion then (calcDscpVal flowNum tagValues).map some
      else selectDscpFrom tagValues randomPick (flowNum + 1) (accumulator + proportion) rest

def selectDscp (probMatrix : List ℚ) (tagValues : List Nat) (randomPick : ℚ) : Option (Option Nat) :=
  selectDscpFrom tagValues randomPick 0 0 probMatrix

/-- The path that the loop stops at. -/
def chosenFrom (randomPick : ℚ) (flowNum : Nat) (accumulator : ℚ) : List ℚ → Option Nat
  | [] => none
  | proportion :: rest =>
      if randomPick ≤ accumulator + proportion then some flowNum
      else chosenFrom randomPick (flowNum + 1) (accumulator + proportion) rest

/-- The path that a random number picks. -/
def chosenPath (probMatrix : List ℚ) (randomPick : ℚ) : Option Nat := chosenFrom randomPick 0 0 probMatrix

theorem selectDscpFrom_eq (tagValues : List Nat) (randomPick : ℚ) (probMatrix : List ℚ) (flowNum : Nat)
    (accumulator : ℚ) : selectDscpFrom tagValues randomPick flowNum accumulator probMatrix =
      match chosenFrom randomPick flowNum accumulator probMatrix with
      | none => some none
      | some chosen => (calcDscpVal chosen tagValues).map some := by
  induction probMatrix generalizing flowNum accumulator with
  | nil => rfl
  | cons proportion rest ih =>
      rw [selectDscpFrom, chosenFrom]
      split
      · rfl
      · exact ih (flowNum + 1) (accumulator + proportion)

/-- The mark is that of the tag of the chosen path. -/
theorem selectDscp_of_chosenPath {probMatrix : List ℚ} {randomPick : ℚ} {chosen : Nat}
    (h : chosenPath probMatrix randomPick = some chosen) {tagValues : List Nat} {tag : Nat}
    (htag : tagValues[chosen]? = some tag) : selectDscp probMatrix tagValues randomPick = some (some (tag <<< 2)) := by
  rw [selectDscp, selectDscpFrom_eq]
  rw [chosenPath] at h
  rw [h]
  simp only [calcDscpVal, htag, Option.map_some]

theorem chosenFrom_zeros {randomPick accumulator : ℚ} (h : accumulator < randomPick) (count flowNum : Nat)
    (rest : List ℚ) : chosenFrom randomPick flowNum accumulator (List.replicate count 0 ++ rest) =
      chosenFrom randomPick (flowNum + count) accumulator rest := by
  induction count generalizing flowNum with
  | zero => rfl
  | succ count ih =>
      rw [List.replicate_succ, List.cons_append, chosenFrom, add_zero, if_neg (not_le.mpr h), ih]
      congr 1
      omega

/-- With all of the traffic on one path every positive random number picks that path. -/
theorem chosenPath_oneHot {flowCount flowNum : Nat} (hflow : flowNum < flowCount) {randomPick : ℚ}
    (hpos : 0 < randomPick) (hle : randomPick ≤ 1) :
    chosenPath ((List.replicate flowCount 0).set flowNum 1) randomPick = some flowNum := by
  have hsplit : (List.replicate flowCount (0 : ℚ)).set flowNum 1 =
      List.replicate flowNum 0 ++ 1 :: List.replicate (flowCount - (flowNum + 1)) 0 := by
    rw [List.set_eq_take_append_cons_drop, List.length_replicate, if_pos hflow, List.take_replicate,
      List.drop_replicate, Nat.min_eq_left hflow.le]
  rw [chosenPath, hsplit, chosenFrom_zeros hpos, chosenFrom, Nat.zero_add, if_pos]
  rw [zero_add]
  exact hle

end OfTestbed.TrafficGen
