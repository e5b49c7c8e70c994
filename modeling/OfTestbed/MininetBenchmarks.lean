import Mathlib.Analysis.Real.Sqrt
import OfTestbed.LibGroup
import OfTestbed.LibLoop
import OfTestbed.LibStatistics

/-!
The statistics of the benchmark plots (`data_visualization/mininet_benchmarks.py`). The trials are sorted and grouped by
a parameter, and the values of a group are collected in a list; but the point of the group is computed from the variable
of the last value, which also outlives the group. A record whose value cannot be computed is skipped. `none` is an
exception: a `ValueError` of the aggregation, or the variable before its first assignment.
-/

namespace OfTestbed.Benchmarks

open Lib

section Model

variable {τ ι κ : Type}

/-- The variables of the inner loop; `none` is a name that is not bound yet. -/
structure Measuring (κ : Type) where
  measuredStatistic : List κ
  statisticValue : Option κ

def Measuring.add (aggregationFn : τ → Option κ) (measuring : Measuring κ) (trialDict : τ) : Measuring κ :=
  match aggregationFn trialDict with
  | none => measuring
  | some statisticValue => ⟨measuring.measuredStatistic ++ [statisticValue], some statisticValue⟩

/-- The variables of the outer loop. -/
structure Plotting (ι κ : Type) where
  statisticValue : Option κ
  scatterPoints : List (ι × κ × κ)

variable [Field κ] (sqrt : κ → κ)

/-- One turn of the outer loop; `np.mean` and `np.std` of a number are those of a list with it. -/
def plotGroup (aggregationFn : τ → Option κ) (plotting : Plotting ι κ) (group : ι × List τ) :
    Option (Plotting ι κ) := do
  let measured := group.2.foldl (Measuring.add aggregationFn) ⟨[], plotting.statisticValue⟩
  let statisticValue ← measured.statisticValue
  return ⟨measured.statisticValue,
    plotting.scatterPoints ++ [(group.1, npMean [statisticValue], npStd sqrt [statisticValue])]⟩

def computeParameterStatistics [LinearOrder ι] (trialDicts : List τ) (selectorFn : τ → ι)
    (aggregationFn : τ → Option κ) : Option (List (ι × κ × κ)) := do
  let plotted ← (groupby selectorFn (sortedBy selectorFn trialDicts)).foldlM (plotGroup sqrt aggregationFn) ⟨none, []⟩
  return plotted.scatterPoints

/-- What the aggregations read of a trial, and its parameter. -/
structure TrialDict (ι κ : Type) where
  parameter : ι
  receiverFirstRecvTime : κ
  receiverLastRecvTime : κ
  attackerInterceptedBytes : κ

def computeGoodput [DecidableEq κ] (trialDict : TrialDict ι κ) : Option κ :=
  let elapsedTimeUs := trialDict.receiverLastRecvTime - trialDict.receiverFirstRecvTime
  let elapsedTimeS := elapsedTimeUs / 10 ^ 6
  let dataVolumeBits := 10 * 10 ^ 6 * 8
  if elapsedTimeS = 0 then none else some (dataVolumeBits / elapsedTimeS / 10 ^ 6)

def computeMeanGoodput [DecidableEq κ] [LinearOrder ι] (trialDicts : List (TrialDict ι κ))
    (selectorFn : TrialDict ι κ → ι) : Option (List (ι × κ × κ)) :=
  computeParameterStatistics sqrt trialDicts selectorFn computeGoodput

def computeMeanDataRecovery [LinearOrder ι] (trialDicts : List (TrialDict ι κ)) (selectorFn : TrialDict ι κ → ι) :
    Option (List (ι × κ × κ)) :=
  computeParameterStatistics sqrt trialDicts selectorFn fun trialDict => some trialDict.attackerInterceptedBytes

/-! ### The points of the keys -/

/-- The values of the records with a key. -/
def aggregated [DecidableEq ι] (trialDicts : List τ) (selectorFn : τ → ι) (aggregationFn : τ → Option κ) (key : ι) :
    List κ :=
  (trialDicts.filter fun trialDict => selectorFn trialDict = key).filterMap aggregationFn

/-- One point for every key with a value, in increasing order, with the statistics of all values of the key. -/
structure IsStatistics [LinearOrder ι] (trialDicts : List τ) (selectorFn : τ → ι) (aggregationFn : τ → Option κ)
    (points : List (ι × κ × κ)) : Prop where
  increasing : points.Pairwise fun point point' => point.1 < point'.1
  mem_iff : ∀ key mean std, (key, mean, std) ∈ points ↔
    aggregated trialDicts selectorFn aggregationFn key ≠ [] ∧
      mean = npMean (aggregated trialDicts selectorFn aggregationFn key) ∧
      std = npStd sqrt (aggregated trialDicts selectorFn aggregationFn key)

/-- Every key has a record with a value, and all such records of a key have the same one. -/
structure Agrees (trialDicts : List τ) (selectorFn : τ → ι) (aggregationFn : τ → Option κ) : Prop where
  some_value : ∀ trialDict ∈ trialDicts, ∃ trialDict' ∈ trialDicts, selectorFn trialDict' = selectorFn trialDict ∧
    (aggregationFn trialDict').isSome
  same_value : ∀ trialDict ∈ trialDicts, ∀ trialDict' ∈ trialDicts, selectorFn trialDict = selectorFn trialDict' →
    ∀ value value', aggregationFn trialDict = some value → aggregationFn trialDict' = some value' → value = value'

end Model

/-! ### What the loops compute -/

section Loops

variable {τ ι κ : Type} {aggregationFn : τ → Option κ}

theorem foldl_add (group : List τ) (measuring : Measuring κ) :
    group.foldl (Measuring.add aggregationFn) measuring =
      ⟨measuring.measuredStatistic ++ group.filterMap aggregationFn,
        (group.filterMap aggregationFn).getLast?.or measuring.statisticValue⟩ := by
  induction group generalizing measuring with
  | nil => simp
  | cons trialDict rest ih =>
      rw [List.foldl_cons, ih, Measuring.add]
      cases hvalue : aggregationFn trialDict with
      | none => rw [List.filterMap_cons_none hvalue]
      | some value =>
          rw [List.filterMap_cons_some hvalue, List.append_assoc, List.singleton_append]
          cases rest.filterMap aggregationFn <;> simp [List.getLast?_cons]

variable [Field κ] {sqrt : κ → κ}

/-- The value that a group leaves behind is its last one, or else that of the groups before it. -/
theorem plotGroup_eq_some_iff {plotting plotting' : Plotting ι κ} {group : ι × List τ} :
    plotGroup sqrt aggregationFn plotting group = some plotting' ↔
      ∃ value, (group.2.filterMap aggregationFn).getLast?.or plotting.statisticValue = some value ∧
        plotting' = ⟨some value, plotting.scatterPoints ++ [(group.1, npMean [value], npStd sqrt [value])]⟩ := by
  rw [plotGroup, foldl_add, Option.bind_eq_bind, Option.bind_eq_some_iff]
  refine exists_congr fun value => and_congr_right fun hvalue => ?_
  dsimp only at hvalue ⊢
  rw [Option.pure_def, Option.some.injEq, eq_comm, hvalue]

/-- The points are those of the groups, and a group with values has the statistics of its last value. -/
theorem exists_points_of_foldlM {groups : List (ι × List τ)} {plotting plotting' : Plotting ι κ}
    (h : groups.foldlM (plotGroup sqrt aggregationFn) plotting = some plotting') :
    ∃ points, plotting'.scatterPoints = plotting.scatterPoints ++ points ∧
      List.Forall₂ (fun group point => point.1 = group.1 ∧
        ∀ value, (group.2.filterMap aggregationFn).getLast? = some value →
          point.2 = (npMean [value], npStd sqrt [value])) groups points := by
  induction groups generalizing plotting with
  | nil =>
      cases h
      exact ⟨[], (List.append_nil _).symm, .nil⟩
  | cons group rest ih =>
      rw [List.foldlM_cons, Option.bind_eq_bind, Option.bind_eq_some_iff] at h
      obtain ⟨next, hturn, hrest⟩ := h
      obtain ⟨value, hvalue, rfl⟩ := plotGroup_eq_some_iff.mp hturn
      obtain ⟨points, hpoints, hforall⟩ := ih hrest
      refine ⟨(group.1, npMean [value], npStd sqrt [value]) :: points, ?_, .cons ⟨rfl, ?_⟩ hforall⟩
      · rw [hpoints, List.append_assoc, List.singleton_append]
      · intro last hlast
        rw [hlast, Option.some_or, Option.some.injEq] at hvalue
        rw [hvalue]

theorem exists_foldlM_of_ne_nil (sqrt : κ → κ) {groups : List (ι × List τ)}
    (h : ∀ group ∈ groups, group.2.filterMap aggregationFn ≠ []) (plotting : Plotting ι κ) :
    ∃ plotting', groups.foldlM (plotGroup sqrt aggregationFn) plotting = some plotting' := by
  obtain ⟨plotting', hrun, -⟩ := foldlM_total (plotGroup sqrt aggregationFn) groups plotting (fun _ _ => True) trivial
    (by
      intro done group rest plotting hsplit _
      have hne := h group (hsplit ▸ List.mem_append_right done List.mem_cons_self)
      obtain ⟨value, hvalue⟩ := Option.ne_none_iff_exists'.mp (mt List.getLast?_eq_none_iff.mp hne)
      exact ⟨_, plotGroup_eq_some_iff.mpr ⟨value, by rw [hvalue, Option.some_or], rfl⟩, trivial⟩)
  exact ⟨plotting', hrun⟩

end Loops

section Groups

variable {τ ι κ : Type} [LinearOrder ι] {trialDicts : List τ} {selectorFn : τ → ι} {aggregationFn : τ → Option κ}

/-- A group has the values of its key, in the order of the sort. -/
theorem perm_aggregated {key : ι} {group : List τ}
    (h : (key, group) ∈ groupby selectorFn (sortedBy selectorFn trialDicts)) :
    (group.filterMap aggregationFn).Perm (aggregated trialDicts selectorFn aggregationFn key) := by
  rw [(mem_groupby_sortedBy.mp h).2]
  exact ((perm_sortedBy selectorFn trialDicts).filter _).filterMap _

theorem mem_aggregated {key : ι} {value : κ} : value ∈ aggregated trialDicts selectorFn aggregationFn key ↔
    ∃ trialDict ∈ trialDicts, selectorFn trialDict = key ∧ aggregationFn trialDict = some value := by
  simp [aggregated, and_assoc]

theorem exists_group_of_mem (selectorFn : τ → ι) {trialDict : τ} (h : trialDict ∈ trialDicts) :
    ∃ group, (selectorFn trialDict, group) ∈ groupby selectorFn (sortedBy selectorFn trialDicts) :=
  ⟨_, mem_groupby_sortedBy.mpr ⟨⟨trialDict, h, rfl⟩, rfl⟩⟩

end Groups

section Reals

variable {τ ι : Type} [LinearOrder ι] {trialDicts : List τ} {selectorFn : τ → ι} {aggregationFn : τ → Option ℝ}

theorem sqrt_eq_zero_iff (x : ℝ) (hx : 0 ≤ x) : Real.sqrt x = 0 ↔ x = 0 := Real.sqrt_eq_zero hx

/-- The statistics of values that agree are those of any one of them. -/
theorem Agrees.statistics_eq (h : Agrees trialDicts selectorFn aggregationFn) {key : ι} {value : ℝ}
    (hvalue : value ∈ aggregated trialDicts selectorFn aggregationFn key) :
    npMean [value] = npMean (aggregated trialDicts selectorFn aggregationFn key) ∧
      npStd Real.sqrt [value] = npStd Real.sqrt (aggregated trialDicts selectorFn aggregationFn key) := by
  have hsame : ∀ v ∈ aggregated trialDicts selectorFn aggregationFn key, v = value := by
    intro v hv
    obtain ⟨trialDict, hmem, hkey, hv⟩ := mem_aggregated.mp hv
    obtain ⟨trialDict', hmem', hkey', hvalue⟩ := mem_aggregated.mp hvalue
    exact h.same_value trialDict hmem trialDict' hmem' (hkey.trans hkey'.symm) v value hv hvalue
  have hmean := npMean_eq_of_forall (List.ne_nil_of_mem hvalue) hsame
  refine ⟨by rw [hmean, npMean_singleton], ?_⟩
  rw [npStd_singleton, Real.sqrt_zero, eq_comm, npStd_eq_zero_iff sqrt_eq_zero_iff, hmean]
  exact hsame

/-- What a point has to do with its group. -/
def PointOf (aggregationFn : τ → Option ℝ) (group : ι × List τ) (point : ι × ℝ × ℝ) : Prop :=
  point.1 = group.1 ∧ ∀ value, (group.2.filterMap aggregationFn).getLast? = some value →
    point.2 = (npMean [value], npStd Real.sqrt [value])

theorem forall₂_of_computeParameterStatistics {points : List (ι × ℝ × ℝ)}
    (h : computeParameterStatistics Real.sqrt trialDicts selectorFn aggregationFn = some points) :
    List.Forall₂ (PointOf aggregationFn) (groupby selectorFn (sortedBy selectorFn trialDicts)) points := by
  obtain ⟨plotted, hplotted, hreturn⟩ := Option.bind_eq_some_iff.mp h
  obtain ⟨points', hscatter, hforall⟩ := exists_points_of_foldlM hplotted
  cases hreturn
  rw [hscatter]
  exact hforall

/-- The point of a key that has values is made from one of them. -/
theorem PointOf.exists_value {group : ι × List τ} {point : ι × ℝ × ℝ} (h : PointOf aggregationFn group point)
    (hgroup : group ∈ groupby selectorFn (sortedBy selectorFn trialDicts))
    (hne : aggregated trialDicts selectorFn aggregationFn group.1 ≠ []) :
    ∃ value ∈ aggregated trialDicts selectorFn aggregationFn group.1,
      point = (group.1, npMean [value], npStd Real.sqrt [value]) := by
  have hperm : (group.2.filterMap aggregationFn).Perm (aggregated trialDicts selectorFn aggregationFn group.1) :=
    perm_aggregated hgroup
  have hvalues : group.2.filterMap aggregationFn ≠ [] := fun hnil => hne (hnil ▸ hperm).symm.eq_nil
  obtain ⟨value, hvalue⟩ := Option.ne_none_iff_exists'.mp (mt List.getLast?_eq_none_iff.mp hvalues)
  exact ⟨value, hperm.mem_iff.mp (List.mem_of_getLast? hvalue), Prod.ext h.1 (h.2 value hvalue)⟩

theorem IsStatistics.agrees {points : List (ι × ℝ × ℝ)}
    (h : IsStatistics Real.sqrt trialDicts selectorFn aggregationFn points)
    (hforall : List.Forall₂ (PointOf aggregationFn) (groupby selectorFn (sortedBy selectorFn trialDicts)) points) :
    Agrees trialDicts selectorFn aggregationFn := by
  have hkey : ∀ trialDict ∈ trialDicts, ∃ value ∈ aggregated trialDicts selectorFn aggregationFn (selectorFn trialDict),
      ∀ v ∈ aggregated trialDicts selectorFn aggregationFn (selectorFn trialDict), v = value := by
    intro trialDict hmem
    obtain ⟨group, hgroup⟩ := exists_group_of_mem selectorFn hmem
    obtain ⟨point, hpoint, hof⟩ := (exists_mem_of_forall₂ hforall).1 _ hgroup
    have hkey : point.1 = selectorFn trialDict := hof.1
    obtain ⟨hne, -, -⟩ := (h.mem_iff point.1 point.2.1 point.2.2).mp hpoint
    rw [hkey] at hne
    obtain ⟨value, hvalue, rfl⟩ := hof.exists_value hgroup hne
    obtain ⟨-, hmean, hstd⟩ := (h.mem_iff _ _ _).mp hpoint
    refine ⟨value, hvalue, ?_⟩
    rw [npStd_singleton, Real.sqrt_zero] at hstd
    rw [npMean_singleton] at hmean
    rw [hmean]
    exact (npStd_eq_zero_iff sqrt_eq_zero_iff _).mp hstd.symm
  constructor
  · intro trialDict hmem
    obtain ⟨value, hvalue, -⟩ := hkey trialDict hmem
    obtain ⟨trialDict', hmem', hsame, hsome⟩ := mem_aggregated.mp hvalue
    exact ⟨trialDict', hmem', hsame, Option.isSome_of_eq_some hsome⟩
  · intro trialDict hmem trialDict' hmem' hsame value value' hvalue hvalue'
    obtain ⟨common, -, hall⟩ := hkey trialDict hmem
    rw [hall value (mem_aggregated.mpr ⟨trialDict, hmem, rfl, hvalue⟩),
      hall value' (mem_aggregated.mpr ⟨trialDict', hmem', hsame.symm, hvalue'⟩)]

theorem Agrees.aggregated_ne_nil (h : Agrees trialDicts selectorFn aggregationFn) {group : ι × List τ}
    (hgroup : group ∈ groupby selectorFn (sortedBy selectorFn trialDicts)) :
    aggregated trialDicts selectorFn aggregationFn group.1 ≠ [] := by
  obtain ⟨⟨trialDict, hmem, hkey⟩, -⟩ := mem_groupby_sortedBy.mp hgroup
  obtain ⟨trialDict', hmem', hsame, hsome⟩ := h.some_value trialDict hmem
  obtain ⟨value, hvalue⟩ := Option.isSome_iff_exists.mp hsome
  exact List.ne_nil_of_mem (mem_aggregated.mpr ⟨trialDict', hmem', hsame.trans hkey, hvalue⟩)

theorem Agrees.isStatistics (h : Agrees trialDicts selectorFn aggregationFn) {points : List (ι × ℝ × ℝ)}
    (hforall : List.Forall₂ (PointOf aggregationFn) (groupby selectorFn (sortedBy selectorFn trialDicts)) points) :
    IsStatistics Real.sqrt trialDicts selectorFn aggregationFn points where
  increasing := by
    have hkeys : points.map Prod.fst = (groupby selectorFn (sortedBy selectorFn trialDicts)).map Prod.fst :=
      map_eq_of_forall₂ (fun _ _ hof => hof.1) hforall
    have hsorted := List.pairwise_map.mpr (pairwise_groupby_sortedBy selectorFn trialDicts)
    rw [← hkeys] at hsorted
    exact List.pairwise_map.mp hsorted
  mem_iff := by
    intro key mean std
    constructor
    · intro hpoint
      obtain ⟨group, hgroup, hof⟩ := (exists_mem_of_forall₂ hforall).2 _ hpoint
      obtain rfl : key = group.1 := hof.1
      have hne := h.aggregated_ne_nil hgroup
      obtain ⟨value, hvalue, heq⟩ := hof.exists_value hgroup hne
      obtain ⟨hmean, hstd⟩ := h.statistics_eq hvalue
      cases heq
      exact ⟨hne, hmean, hstd⟩
    · rintro ⟨hne, rfl, rfl⟩
      obtain ⟨v, hv⟩ := List.exists_mem_of_ne_nil _ hne
      obtain ⟨trialDict, hmem, rfl, -⟩ := mem_aggregated.mp hv
      obtain ⟨group, hgroup⟩ := exists_group_of_mem selectorFn hmem
      obtain ⟨point, hpoint, hof⟩ := (exists_mem_of_forall₂ hforall).1 _ hgroup
      obtain ⟨value, hvalue, rfl⟩ := hof.exists_value hgroup hne
      obtain ⟨hmean, hstd⟩ := h.statistics_eq hvalue
      rw [← hmean, ← hstd]
      exact hpoint

/-- The points are the statistics of the keys exactly when every key has a value and no key has two. -/
theorem statistics_of_all_values_iff (trialDicts : List τ) (selectorFn : τ → ι) (aggregationFn : τ → Option ℝ) :
    (∃ points, computeParameterStatistics Real.sqrt trialDicts selectorFn aggregationFn = some points ∧
      IsStatistics Real.sqrt trialDicts selectorFn aggregationFn points) ↔
      Agrees trialDicts selectorFn aggregationFn := by
  constructor
  · rintro ⟨points, hrun, hpoints⟩
    exact hpoints.agrees (forall₂_of_computeParameterStatistics hrun)
  · intro h
    have hvalues : ∀ group ∈ groupby selectorFn (sortedBy selectorFn trialDicts),
        group.2.filterMap aggregationFn ≠ [] := by
      intro group hgroup hnil
      have hperm : (group.2.filterMap aggregationFn).Perm (aggregated trialDicts selectorFn aggregationFn group.1) :=
        perm_aggregated hgroup
      rw [hnil] at hperm
      exact h.aggregated_ne_nil hgroup hperm.symm.eq_nil
    obtain ⟨plotted, hplotted⟩ := exists_foldlM_of_ne_nil Real.sqrt hvalues ⟨none, []⟩
    have hrun : computeParameterStatistics Real.sqrt trialDicts selectorFn aggregationFn =
        some plotted.scatterPoints := by
      rw [computeParameterStatistics, hplotted]
      rfl
    exact ⟨_, hrun, h.isStatistics (forall₂_of_computeParameterStatistics hrun)⟩

end Reals

/-- The second parameter has one trial, in which nothing was received. -/
noncomputable def silentTrials : List (TrialDict Nat ℝ) := [⟨1, 0, 8 * 10 ^ 6, 10⟩, ⟨2, 0, 0, 10⟩]

/-- One parameter with two trials. -/
noncomputable def twoTrials : List (TrialDict Nat ℝ) := [⟨1, 0, 8 * 10 ^ 6, 10⟩, ⟨1, 0, 8 * 10 ^ 6, 30⟩]

/-- The goodput of the first parameter is plotted for the second one as well, and the data recovery of the second trial
as the mean of both. -/
theorem other_value_plotted :
    (∃ points, computeMeanGoodput Real.sqrt silentTrials TrialDict.parameter = some points ∧
      ¬ IsStatistics Real.sqrt silentTrials TrialDict.parameter computeGoodput points) ∧
    ∃ points, computeMeanDataRecovery Real.sqrt twoTrials TrialDict.parameter = some points ∧
      ¬ IsStatistics Real.sqrt twoTrials TrialDict.parameter (fun trialDict => some trialDict.attackerInterceptedBytes)
        points := by
  constructor
  · refine ⟨[(1, 10, 0), (2, 10, 0)], ?_, fun hstatistics => ?_⟩
    · norm_num [computeMeanGoodput, computeParameterStatistics, silentTrials, sortedBy, groupby, plotGroup,
        Measuring.add, computeGoodput, npStd, npMean]
    · obtain ⟨hne, -, -⟩ := (hstatistics.mem_iff 2 10 0).mp (by simp)
      exact hne (by simp [aggregated, silentTrials, computeGoodput])
  · refine ⟨[(1, 30, 0)], ?_, fun hstatistics => ?_⟩
    · norm_num [computeMeanDataRecovery, computeParameterStatistics, twoTrials, sortedBy, groupby, plotGroup,
        Measuring.add, npStd, npMean]
    · obtain ⟨-, hmean, -⟩ := (hstatistics.mem_iff 1 30 0).mp (by simp)
      norm_num [aggregated, twoTrials, npMean] at hmean

end OfTestbed.Benchmarks
