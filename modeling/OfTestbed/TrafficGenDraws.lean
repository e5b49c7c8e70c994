import Mathlib.MeasureTheory.Measure.Lebesgue.Basic
import OfTestbed.TrafficGen

/-!
The share of the draws that goes to each path in `select_dscp` of `traffic_generation/traffic_gen.py`. The running
sums of the proportions cut the draws into intervals, open on the left and closed on the right, and the loop stops at
the path of the interval of its draw. The draws of `random.uniform` are real numbers here; on rational ones the choice
is that of `selectDscp`.
-/

namespace OfTestbed.TrafficGen

section Draws

variable {κ : Type} [AddCommGroup κ] [LinearOrder κ]

/-- The path that the loop stops at, for draws from any ordered numbers. -/
def drawnFrom (randomPick : κ) (flowNum : Nat) (accumulator : κ) : List κ → Option Nat
  | [] => none
  | proportion :: rest =>
      if randomPick ≤ accumulator + proportion then some flowNum
      else drawnFrom randomPick (flowNum + 1) (accumulator + proportion) rest

def drawnPath (probMatrix : List κ) (randomPick : κ) : Option Nat := drawnFrom randomPick 0 0 probMatrix

/-- `select_dscp` on a draw: the loop falls off its end with `None`. -/
def selectDscpAt (probMatrix : List κ) (tagValues : List Nat) (randomPick : κ) : Option (Option Nat) :=
  match drawnPath probMatrix randomPick with
  | none => some none
  | some flowNum => (calcDscpVal flowNum tagValues).map some

/-- The draws between the sums of the proportions before a path and up to it. -/
def share (probMatrix : List κ) (flowNum : Nat) : Set κ :=
  Set.Ioc (probMatrix.take flowNum).sum (probMatrix.take (flowNum + 1)).sum

variable [IsOrderedAddMonoid κ]

/-- The loop stops at the first path whose running sum is not below the draw. With no negative proportions the running
sum before it is below the draw, and those after it are not. -/
theorem drawnFrom_eq_some_iff {randomPick accumulator : κ} {probMatrix : List κ} (hnonneg : ∀ p ∈ probMatrix, 0 ≤ p)
    (hstart : accumulator < randomPick) (start flowNum : Nat) :
    drawnFrom randomPick start accumulator probMatrix = some flowNum ↔
      ∃ i, flowNum = start + i ∧ accumulator + (probMatrix.take i).sum < randomPick ∧
        randomPick ≤ accumulator + (probMatrix.take (i + 1)).sum := by
  induction probMatrix generalizing accumulator start with
  | nil =>
      simp only [drawnFrom, List.take_nil, List.sum_nil, add_zero]
      constructor
      · intro hnone
        cases hnone
      · rintro ⟨i, -, -, hle⟩
        exact absurd hle (not_le.mpr hstart)
  | cons proportion rest ih =>
      have hrest : ∀ p ∈ rest, 0 ≤ p := fun p hp => hnonneg p (List.mem_cons_of_mem proportion hp)
      rw [drawnFrom]
      split
      · rename_i hstop
        constructor
        · intro hfirst
          refine ⟨0, (Option.some.inj hfirst).symm, ?_, ?_⟩
          · simpa using hstart
          · simpa using hstop
        · rintro ⟨i, rfl, hbelow, -⟩
          cases i with
          | zero => rfl
          | succ i =>
              have hsum : 0 ≤ (rest.take i).sum := List.sum_nonneg fun p hp => hrest p (List.mem_of_mem_take hp)
              rw [List.take_succ_cons, List.sum_cons, ← add_assoc] at hbelow
              exact absurd (hstop.trans (le_add_of_nonneg_right hsum)) (not_le.mpr hbelow)
      · rename_i hgo
        rw [ih hrest (not_le.mp hgo) (start + 1)]
        constructor
        · rintro ⟨i, rfl, hbelow, habove⟩
          refine ⟨i + 1, by omega, ?_, ?_⟩
          · rwa [List.take_succ_cons, List.sum_cons, ← add_assoc]
          · rwa [List.take_succ_cons, List.sum_cons, ← add_assoc]
        · rintro ⟨i, rfl, hbelow, habove⟩
          cases i with
          | zero =>
              rw [List.take_succ_cons, List.take_zero, List.sum_cons, List.sum_nil, add_zero] at habove
              exact absurd habove hgo
          | succ i =>
              rw [List.take_succ_cons, List.sum_cons, ← add_assoc] at hbelow habove
              exact ⟨i, by omega, hbelow, habove⟩

theorem drawnPath_eq_some_iff {randomPick : κ} {probMatrix : List κ} (hnonneg : ∀ p ∈ probMatrix, 0 ≤ p)
    (hpos : 0 < randomPick) (flowNum : Nat) :
    drawnPath probMatrix randomPick = some flowNum ↔ randomPick ∈ share probMatrix flowNum := by
  rw [drawnPath, drawnFrom_eq_some_iff hnonneg hpos]
  simp only [zero_add, exists_eq_left']
  rfl

omit [LinearOrder κ] [IsOrderedAddMonoid κ] in
/-- The sum up to a path is its proportion more than the sum before it. -/
theorem sum_take_succ_of_getElem? {probMatrix : List κ} {flowNum : Nat} {proportion : κ}
    (h : probMatrix[flowNum]? = some proportion) :
    (probMatrix.take (flowNum + 1)).sum = (probMatrix.take flowNum).sum + proportion := by
  rw [List.take_add_one, h]
  simp

/-- A path with draws has a positive proportion. -/
theorem exists_pos_of_mem_share {randomPick : κ} {probMatrix : List κ} {flowNum : Nat}
    (h : randomPick ∈ share probMatrix flowNum) :
      ∃ proportion, probMatrix[flowNum]? = some proportion ∧ 0 < proportion := by
  obtain ⟨hbelow, habove⟩ := h
  cases hget : probMatrix[flowNum]? with
  | none =>
      have hlong := List.getElem?_eq_none_iff.mp hget
      rw [List.take_of_length_le hlong] at hbelow
      rw [List.take_of_length_le (Nat.le_succ_of_le hlong)] at habove
      exact absurd habove (not_le.mpr hbelow)
  | some proportion =>
      rw [sum_take_succ_of_getElem? hget] at habove
      refine ⟨proportion, rfl, ?_⟩
      have hlt := hbelow.trans_le habove
      exact pos_of_lt_add_right hlt

omit [IsOrderedAddMonoid κ] in
/-- The draws up to the sum of all proportions are shared out. -/
theorem exists_mem_share {randomPick : κ} {probMatrix : List κ} (hpos : 0 < randomPick)
    (hle : randomPick ≤ probMatrix.sum) : ∃ flowNum, randomPick ∈ share probMatrix flowNum := by
  have hreached : ∃ count, randomPick ≤ (probMatrix.take count).sum := ⟨probMatrix.length, by rwa [List.take_length]⟩
  have hfirst := Nat.find_spec hreached
  cases hcount : Nat.find hreached with
  | zero =>
      rw [hcount, List.take_zero, List.sum_nil] at hfirst
      exact absurd hfirst (not_le.mpr hpos)
  | succ flowNum =>
      rw [hcount] at hfirst
      refine ⟨flowNum, not_le.mp (Nat.find_min hreached ?_), hfirst⟩
      rw [hcount]
      exact Nat.lt_succ_self flowNum

/-- The mark is that of the path in whose share the draw lies. -/
theorem selectDscpAt_eq_some_iff {randomPick : κ} {probMatrix : List κ} {tagValues : List Nat}
    (hnonneg : ∀ p ∈ probMatrix, 0 ≤ p) (hpos : 0 < randomPick) (dscp : Nat) :
    selectDscpAt probMatrix tagValues randomPick = some (some dscp) ↔ ∃ flowNum tag,
      randomPick ∈ share probMatrix flowNum ∧ tagValues[flowNum]? = some tag ∧ dscp = tag <<< 2 := by
  rw [selectDscpAt]
  cases hdrawn : drawnPath probMatrix randomPick with
  | none =>
      simp only [Option.some.injEq, reduceCtorEq, false_iff]
      rintro ⟨flowNum, tag, hshare, -⟩
      rw [← drawnPath_eq_some_iff hnonneg hpos, hdrawn] at hshare
      cases hshare
  | some chosen =>
      simp only [calcDscpVal, Option.map_map, Option.map_eq_some_iff, Function.comp_apply, Option.some.injEq]
      constructor
      · rintro ⟨tag, htag, hdscp⟩
        exact ⟨chosen, tag, (drawnPath_eq_some_iff hnonneg hpos chosen).mp hdrawn, htag, hdscp.symm⟩
      · rintro ⟨flowNum, tag, hshare, htag, hdscp⟩
        rw [← drawnPath_eq_some_iff hnonneg hpos, hdrawn] at hshare
        rw [← Option.some.inj hshare] at htag
        exact ⟨tag, htag, hdscp.symm⟩

end Draws

/-! ### Rational proportions and real draws -/

/-- The proportions among the draws. -/
noncomputable def reals (probMatrix : List ℚ) : List ℝ := probMatrix.map Rat.cast

theorem drawnFrom_reals (randomPick : ℚ) (flowNum : Nat) (accumulator : ℚ) (probMatrix : List ℚ) :
    drawnFrom (randomPick : ℝ) flowNum (accumulator : ℝ) (reals probMatrix) =
      chosenFrom randomPick flowNum accumulator probMatrix := by
  induction probMatrix generalizing flowNum accumulator with
  | nil => rfl
  | cons proportion rest ih =>
      rw [reals, List.map_cons, drawnFrom, chosenFrom, ← ih, ← Rat.cast_add]
      simp only [Rat.cast_le, reals]

theorem selectDscpAt_reals (probMatrix : List ℚ) (tagValues : List Nat) (randomPick : ℚ) :
    selectDscpAt (reals probMatrix) tagValues (randomPick : ℝ) = selectDscp probMatrix tagValues randomPick := by
  have hdrawn := drawnFrom_reals randomPick 0 0 probMatrix
  rw [Rat.cast_zero] at hdrawn
  have hmark := selectDscpFrom_eq tagValues randomPick probMatrix 0 0
  cases hchosen : chosenFrom randomPick 0 0 probMatrix <;>
    simp only [selectDscpAt, drawnPath, hdrawn, selectDscp, hmark, hchosen]

theorem reals_nonneg {probMatrix : List ℚ} (h : ∀ p ∈ probMatrix, 0 ≤ p) : ∀ p ∈ reals probMatrix, 0 ≤ p := by
  intro p hp
  obtain ⟨q, hq, rfl⟩ := List.mem_map.mp hp
  exact Rat.cast_nonneg.mpr (h q hq)

theorem sum_reals (probMatrix : List ℚ) : (reals probMatrix).sum = (probMatrix.sum : ℝ) :=
  (map_list_sum (Rat.castHom ℝ) probMatrix).symm

/-- The draw is above the sum of the proportions before the path, and not above the sum up to it. -/
def Between (probMatrix : List ℚ) (flowNum : Nat) (randomPick : ℝ) : Prop :=
  ((probMatrix.take flowNum).sum : ℝ) < randomPick ∧ randomPick ≤ ((probMatrix.take (flowNum + 1)).sum : ℝ)

theorem between_iff {probMatrix : List ℚ} {flowNum : Nat} {randomPick : ℝ} :
    Between probMatrix flowNum randomPick ↔ randomPick ∈ share (reals probMatrix) flowNum := by
  rw [share, reals, ← List.map_take, ← List.map_take]
  show _ ↔ randomPick ∈ Set.Ioc (reals _).sum (reals _).sum
  rw [sum_reals, sum_reals]
  rfl

theorem between_unique {probMatrix : List ℚ} (hnonneg : ∀ p ∈ probMatrix, 0 ≤ p) {randomPick : ℝ}
    (hpos : 0 < randomPick) {flowNum flowNum' : Nat} (h : Between probMatrix flowNum randomPick)
    (h' : Between probMatrix flowNum' randomPick) : flowNum = flowNum' := by
  rw [between_iff, ← drawnPath_eq_some_iff (reals_nonneg hnonneg) hpos] at h h'
  exact Option.some.inj (h.symm.trans h')

theorem exists_pos_of_between {probMatrix : List ℚ} {randomPick : ℝ} {flowNum : Nat}
    (h : Between probMatrix flowNum randomPick) : ∃ p, probMatrix[flowNum]? = some p ∧ 0 < p := by
  obtain ⟨proportion, hget, hpos⟩ := exists_pos_of_mem_share (between_iff.mp h)
  rw [reals, List.getElem?_map] at hget
  obtain ⟨p, hp, rfl⟩ := Option.map_eq_some_iff.mp hget
  exact ⟨p, hp, Rat.cast_pos.mp hpos⟩

/-- A path is chosen on as many draws as its proportion says. -/
theorem volume_drawnPath {probMatrix : List ℝ} (hnonneg : ∀ p ∈ probMatrix, 0 ≤ p) (hsum : probMatrix.sum = 1)
    {flowNum : Nat} {proportion : ℝ} (hget : probMatrix[flowNum]? = some proportion) :
    MeasureTheory.volume {randomPick ∈ Set.Ioc (0 : ℝ) 1 | drawnPath probMatrix randomPick = some flowNum} =
      ENNReal.ofReal proportion := by
  have hshare : {randomPick ∈ Set.Ioc (0 : ℝ) 1 | drawnPath probMatrix randomPick = some flowNum} =
      share probMatrix flowNum := by
    ext randomPick
    constructor
    · intro hdrawn
      exact (drawnPath_eq_some_iff hnonneg hdrawn.1.1 flowNum).mp hdrawn.2
    · intro hmem
      have hbefore : 0 ≤ (probMatrix.take flowNum).sum :=
        List.sum_nonneg fun p hp => hnonneg p (List.mem_of_mem_take hp)
      have hafter : 0 ≤ (probMatrix.drop (flowNum + 1)).sum :=
        List.sum_nonneg fun p hp => hnonneg p (List.mem_of_mem_drop hp)
      have hsplit := List.sum_take_add_sum_drop probMatrix (flowNum + 1)
      have hpos : 0 < randomPick := hbefore.trans_lt hmem.1
      have hle : randomPick ≤ 1 := by linarith [hmem.2]
      exact ⟨⟨hpos, hle⟩, (drawnPath_eq_some_iff hnonneg hpos flowNum).mpr hmem⟩
  rw [hshare, share, Real.volume_Ioc, sum_take_succ_of_getElem? hget, add_sub_cancel_left]

/-- A draw goes to the one path in whose interval of running sums it lies, which has a positive proportion; with
different tags the mark tells the path. If the proportions sum to at least one there is such a path, and if they sum
to one its draws are as many as its proportion says. -/
theorem select_dscp_shares_out (probMatrix : List ℚ) (tagValues : List Nat) (hnonneg : ∀ p ∈ probMatrix, 0 ≤ p)
    (htags : probMatrix.length ≤ tagValues.length) :
    (∀ randomPick ∈ Set.Ioc (0 : ℝ) 1,
      (∀ dscp, selectDscpAt (reals probMatrix) tagValues randomPick = some (some dscp) ↔
        ∃ flowNum tag, Between probMatrix flowNum randomPick ∧ tagValues[flowNum]? = some tag ∧ dscp = tag <<< 2) ∧
      (tagValues.Nodup → ∀ (flowNum tag : Nat), tagValues[flowNum]? = some tag →
        (selectDscpAt (reals probMatrix) tagValues randomPick = some (some (tag <<< 2)) ↔
          Between probMatrix flowNum randomPick)) ∧
      (∀ flowNum flowNum', Between probMatrix flowNum randomPick → Between probMatrix flowNum' randomPick →
        flowNum = flowNum') ∧
      (∀ flowNum, Between probMatrix flowNum randomPick → ∃ p, probMatrix[flowNum]? = some p ∧ 0 < p) ∧
      (1 ≤ probMatrix.sum → ∃ dscp, selectDscpAt (reals probMatrix) tagValues randomPick = some (some dscp))) ∧
    (∀ randomPick : ℚ, selectDscpAt (reals probMatrix) tagValues (randomPick : ℝ) =
      selectDscp probMatrix tagValues randomPick) ∧
    (probMatrix.sum = 1 → ∀ (flowNum : Nat) (p : ℚ), probMatrix[flowNum]? = some p →
      MeasureTheory.volume {randomPick ∈ Set.Ioc (0 : ℝ) 1 | drawnPath (reals probMatrix) randomPick = some flowNum} =
        ENNReal.ofReal (p : ℝ)) := by
  have hreals := reals_nonneg hnonneg
  refine ⟨fun randomPick hpick => ?_, selectDscpAt_reals probMatrix tagValues, fun hsum flowNum p hp => ?_⟩
  · have hselect : ∀ dscp, selectDscpAt (reals probMatrix) tagValues randomPick = some (some dscp) ↔ ∃ flowNum tag,
        Between probMatrix flowNum randomPick ∧ tagValues[flowNum]? = some tag ∧ dscp = tag <<< 2 := by
      intro dscp
      rw [selectDscpAt_eq_some_iff hreals hpick.1]
      simp only [between_iff]
    refine ⟨hselect, fun hnodup flowNum tag htag => ?_, fun _ _ => between_unique hnonneg hpick.1,
      fun _ => exists_pos_of_between, fun hsum => ?_⟩
    · rw [hselect]
      constructor
      · rintro ⟨chosen, tag', hbetween, htag', heq⟩
        rw [Nat.shiftLeft_eq, Nat.shiftLeft_eq] at heq
        have hsame : tag = tag' := by omega
        rw [← hsame] at htag'
        obtain ⟨hi, -⟩ := List.getElem?_eq_some_iff.mp htag
        rwa [(List.getElem?_inj hi hnodup).mp (htag.trans htag'.symm)]
      · intro hbetween
        exact ⟨flowNum, tag, hbetween, htag, rfl⟩
    · have hle : randomPick ≤ (reals probMatrix).sum := by
        rw [sum_reals]
        exact hpick.2.trans (by exact_mod_cast hsum)
      obtain ⟨flowNum, hshare⟩ := exists_mem_share hpick.1 hle
      have hbetween := between_iff.mpr hshare
      obtain ⟨p, hp, -⟩ := exists_pos_of_between hbetween
      obtain ⟨hi, -⟩ := List.getElem?_eq_some_iff.mp hp
      have htag := List.getElem?_eq_getElem (hi.trans_le htags)
      exact ⟨_, (hselect _).mpr ⟨flowNum, _, hbetween, htag, rfl⟩⟩
  · refine volume_drawnPath hreals ?_ ?_
    · rw [sum_reals, hsum, Rat.cast_one]
    · rw [reals, List.getElem?_map, hp]
      rfl

/-- Half of the draws go to the last of three paths, none to the one in the middle. -/
theorem select_dscp_shares_out_halves :
    MeasureTheory.volume {randomPick ∈ Set.Ioc (0 : ℝ) 1 | drawnPath (reals [1 / 2, 0, 1 / 2]) randomPick = some 2} =
      ENNReal.ofReal ((1 / 2 : ℚ) : ℝ) ∧
    MeasureTheory.volume {randomPick ∈ Set.Ioc (0 : ℝ) 1 | drawnPath (reals [1 / 2, 0, 1 / 2]) randomPick = some 1} =
      ENNReal.ofReal ((0 : ℚ) : ℝ) ∧
    selectDscp [1 / 2, 0, 1 / 2] [1, 2, 3] (3 / 4) = some (some 12) := by
  have hshares := select_dscp_shares_out [1 / 2, 0, 1 / 2] [1, 2, 3] (by decide +kernel) (by decide)
  exact ⟨hshares.2.2 (by decide +kernel) 2 (1 / 2) rfl, hshares.2.2 (by decide +kernel) 1 0 rfl, by decide +kernel⟩

end OfTestbed.TrafficGen
