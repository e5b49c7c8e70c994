import OfTestbed.TuitiTrial

/-!
The rates of the flow sets that `TuitiTrial.from_solver_file` builds. The volumes of a path go through a dictionary over
the timeslots, whose order of insertion becomes the order of the rates, and are then spread over the seconds of their
timeslots, for the flow and for the background traffic separately.
-/

namespace OfTestbed.Tuiti.TuitiTrial

open Lib

/-! ### Spreading a list over seconds -/

/-- The list of a value for each timeslot, as a list of values for each second. -/
theorem getElem?_flatMap_replicate {α β : Type} {duration : Nat} (hpos : 0 < duration) (f : α → β) (l : List α)
    (second : Nat) :
    (l.flatMap fun a => List.replicate duration (f a))[second]? = l[second / duration]?.map f := by
  induction l generalizing second with
  | nil => rfl
  | cons first rest ih =>
      rw [List.flatMap_cons, List.getElem?_append, List.length_replicate]
      split
      · rename_i hlt
        rw [Nat.div_eq_of_lt hlt, List.getElem?_replicate_of_lt hlt, List.getElem?_cons_zero, Option.map_some]
      · rename_i hge
        rw [ih, ← Nat.sub_add_cancel (Nat.not_lt.mp hge), Nat.add_sub_cancel, Nat.add_div_right _ hpos,
          List.getElem?_cons_succ]

/-- The seconds of one timeslot. -/
theorem take_drop_flatMap_replicate {α β : Type} {duration : Nat} (hpos : 0 < duration) (f : α → β) {l : List α}
    {timeslot : Nat} {a : α} (ha : l[timeslot]? = some a) :
    ((l.flatMap fun a => List.replicate duration (f a)).drop (timeslot * duration)).take duration =
      List.replicate duration (f a) := by
  apply List.ext_getElem?
  intro second
  rw [List.getElem?_take, List.getElem?_replicate]
  split
  · rename_i hlt
    rw [List.getElem?_drop, getElem?_flatMap_replicate hpos, Nat.add_comm, Nat.add_mul_div_right _ _ hpos,
      Nat.div_eq_of_lt hlt, Nat.zero_add, ha, Option.map_some]
  · rfl

/-! ### The volumes of a path -/

/-- The number of timeslots for which a request of the path has an entry. -/
def timeslotsOf (requests : List (List ℚ)) : Nat := requests.foldl (fun most volumes => max most volumes.length) 0

/-- The volume of a path in a timeslot; a request without an entry for it has none. -/
def volumeIn (requests : List (List ℚ)) (timeslot : Nat) : ℚ :=
  (requests.map fun volumes => volumes.getD timeslot 0).sum

theorem timeslotsOf_concat (requests : List (List ℚ)) (volumes : List ℚ) :
    timeslotsOf (requests ++ [volumes]) = max (timeslotsOf requests) volumes.length := by
  rw [timeslotsOf, List.foldl_append, List.foldl_cons, List.foldl_nil, timeslotsOf]

theorem volumeIn_concat (requests : List (List ℚ)) (volumes : List ℚ) (timeslot : Nat) :
    volumeIn (requests ++ [volumes]) timeslot = volumeIn requests timeslot + volumes.getD timeslot 0 := by
  rw [volumeIn, List.map_append, List.sum_append, List.map_singleton, List.sum_singleton, volumeIn]

theorem volumeIn_beyond {requests : List (List ℚ)} {timeslot : Nat} (h : timeslotsOf requests ≤ timeslot) :
    volumeIn requests timeslot = 0 := by
  induction requests using List.reverseRecOn with
  | nil => rfl
  | append_singleton before last ih =>
      rw [timeslotsOf_concat] at h
      rw [volumeIn_concat, ih (by omega), List.getD_eq_getElem?_getD, List.getElem?_eq_none (by omega),
        Option.getD_none, add_zero]

/-- The order of the dictionary is the order of the timeslots also when a later request is longer than the ones before:
it appends what the others did not have. -/
theorem tabulates_traffic (requests : List (List ℚ)) :
    (requests.foldl (fun (traffic : Dict Nat ℚ) timeslots =>
      timeslots.zipIdx.foldl (fun traffic (volume, timeslot) =>
        traffic.addTo timeslot (txRateScalingFactor * volume)) traffic) .empty).Tabulates (timeslotsOf requests)
      fun timeslot => txRateScalingFactor * volumeIn requests timeslot := by
  induction requests using List.reverseRecOn with
  | nil => exact Dict.tabulates_empty _
  | append_singleton before last ih =>
      have hzero : ∀ timeslot, timeslotsOf before ≤ timeslot → txRateScalingFactor * volumeIn before timeslot = 0 := by
        intro timeslot hbeyond
        rw [volumeIn_beyond hbeyond, mul_zero]
      have hvalues : (fun timeslot => txRateScalingFactor * volumeIn (before ++ [last]) timeslot) =
          fun timeslot => txRateScalingFactor * volumeIn before timeslot +
            (last.map (txRateScalingFactor * ·)).getD timeslot 0 := by
        funext timeslot
        rw [volumeIn_concat, mul_add, List.getD_eq_getElem?_getD, List.getD_eq_getElem?_getD, List.getElem?_map]
        cases last[timeslot]? with
        | none => simp
        | some volume => rfl
      rw [List.foldl_append, timeslotsOf_concat, hvalues]
      exact ih.foldl_addTo hzero (txRateScalingFactor * ·) last

theorem pruneFlowAllocationsList_eq (flowAllocations : List (List (List ℚ))) :
    pruneFlowAllocationsList flowAllocations = flowAllocations.map fun requests =>
      (List.range (timeslotsOf requests)).map fun timeslot => txRateScalingFactor * volumeIn requests timeslot := by
  unfold pruneFlowAllocationsList
  apply List.map_congr_left
  intro requests _
  exact (tabulates_traffic requests).values_eq

/-! ### The rates of the flow sets -/

/-- A rate for each second, from the volumes of the timeslots. -/
def spread (duration : Int) (volumes : List ℚ) : List ℚ :=
  volumes.flatMap fun volume => List.replicate duration.toNat (volume / duration)

section Rates

variable {parameters : TrialParameters} {disjointPaths : List (List Nat)} {scalingFactors : List ℚ} {pathId : Nat}
variable {txRateList : List ℚ} {flow : TxFlow} {trial : TuitiTrial}

/-- The scaling factor that is computed is not the one that is used. -/
theorem scalingFactor_eq_one {pathCapacities : List (List ℚ)} {factor : ℚ}
    (h : scalingFactor parameters pathCapacities pathId = some factor) : factor = 1 := by
  simp only [scalingFactor, Option.bind_eq_bind, Option.bind_eq_some_iff] at h
  obtain ⟨capacities, -, greatest, -, hfactor⟩ := h
  split at hfactor
  · cases hfactor
  · exact (Option.some.inj hfactor).symm

theorem perSecond_of_pos {duration : Int} (hpos : 0 < duration) (rate : ℚ) :
    perSecond rate duration = some (List.replicate duration.toNat (rate / duration)) :=
  if_neg (Int.ne_of_gt hpos)

theorem flowTxRate_of_foregroundFlow (hpos : 0 < parameters.durationOfTimeslotInSeconds)
    (hfactor : scalingFactors[pathId]? = some 1)
    (h : foregroundFlow parameters disjointPaths scalingFactors pathId txRateList = some flow) :
    flow.flowTxRate = spread parameters.durationOfTimeslotInSeconds txRateList := by
  simp only [foregroundFlow, hfactor, perSecond_of_pos hpos, mul_one, Option.bind_eq_bind, Option.bind_some,
    Option.bind_eq_some_iff] at h
  obtain ⟨scaledTxRates, hrates, hflow⟩ := h
  cases hflow
  cases (List.mapM_pure (m := Option)).symm.trans hrates
  exact (List.flatMap_def).symm

theorem flowTxRate_of_backgroundFlow (hpos : 0 < parameters.durationOfTimeslotInSeconds)
    (hfactor : scalingFactors[pathId]? = some 1)
    (h : backgroundFlow parameters disjointPaths scalingFactors pathId txRateList = some flow) :
    flow.flowTxRate = (spread parameters.durationOfTimeslotInSeconds txRateList).map
      (totalPathVolumePerSecond - ·) := by
  simp only [backgroundFlow, hfactor, perSecond_of_pos hpos, mul_one, Option.bind_eq_bind, Option.bind_some,
    Option.bind_eq_some_iff] at h
  obtain ⟨greatest, -, least, -, scaledTxRates, hrates, hflow⟩ := h
  cases hflow
  cases (List.mapM_pure (m := Option)).symm.trans hrates
  rw [spread, List.map_flatMap]
  exact (List.flatMap_def).symm

/-- The rates of a path's two flows. -/
theorem flowTxRate_of_fromSolverFile (hpos : 0 < parameters.durationOfTimeslotInSeconds)
    (hfile : fromSolverFile parameters disjointPaths = some trial) {requests : List (List ℚ)}
    (hrequests : parameters.flowAllocations[pathId]? = some requests) :
    ∃ foreground background capacities, trial.flowSet[pathId]? = some foreground ∧
      trial.backgroundTrafficFlowSet[pathId]? = some background ∧
      parameters.pathCapacities[pathId]? = some capacities ∧
      foreground.flowTxRate = spread parameters.durationOfTimeslotInSeconds
        ((List.range (timeslotsOf requests)).map fun timeslot => txRateScalingFactor * volumeIn requests timeslot) ∧
      background.flowTxRate = (spread parameters.durationOfTimeslotInSeconds
        (capacities.map (· * txRateScalingFactor))).map (totalPathVolumePerSecond - ·) := by
  simp only [fromSolverFile] at hfile
  split at hfile
  · cases hfile
  simp only [Option.bind_eq_bind, Option.bind_eq_some_iff] at hfile
  obtain ⟨scalingFactors, hfactors, flowSet, hflows, background, hbackground, hreturn⟩ := hfile
  split at hreturn
  · cases hreturn
  cases hreturn
  -- each path with an allocation has a factor, and the factor asks for a capacity
  have hlt : pathId < (pruneFlowAllocationsList parameters.flowAllocations).length := by
    rw [pruneFlowAllocationsList_eq, List.length_map]
    exact (List.getElem?_eq_some_iff.mp hrequests).1
  obtain ⟨factor, -, hfactor⟩ := exists_of_mem_of_mapM hfactors (List.mem_range.mpr hlt)
  have hone : scalingFactors[pathId]? = some 1 := by
    rw [getElem?_of_mapM hfactors, List.getElem?_range hlt, Option.bind_some, hfactor, scalingFactor_eq_one hfactor]
  obtain ⟨capacities, hcapacities⟩ : ∃ capacities, parameters.pathCapacities[pathId]? = some capacities := by
    have hbound := lt_of_scalingFactor hfactor
    rw [prunePathCapacityList, List.length_map] at hbound
    exact ⟨_, List.getElem?_eq_getElem hbound⟩
  have hvolumes : (pruneFlowAllocationsList parameters.flowAllocations)[pathId]? =
      some ((List.range (timeslotsOf requests)).map fun timeslot =>
        txRateScalingFactor * volumeIn requests timeslot) := by
    rw [pruneFlowAllocationsList_eq, List.getElem?_map, hrequests, Option.map_some]
  have hscaled : (prunePathCapacityList parameters.pathCapacities)[pathId]? =
      some (capacities.map (· * txRateScalingFactor)) := by
    rw [prunePathCapacityList, List.getElem?_map, hcapacities, Option.map_some]
  obtain ⟨foreground, hforeground, hrates⟩ := exists_of_mapM_zipIdx hflows hvolumes
  obtain ⟨background, hbackground, hrates'⟩ := exists_of_mapM_zipIdx hbackground hscaled
  exact ⟨foreground, background, capacities, hforeground, hbackground, hcapacities,
    flowTxRate_of_foregroundFlow hpos hone hrates, flowTxRate_of_backgroundFlow hpos hone hrates'⟩

theorem length_spread (duration : Int) (volumes : List ℚ) :
    (spread duration volumes).length = volumes.length * duration.toNat := by
  simp [spread, List.length_flatMap]

theorem getElem?_spread {duration : Int} (hpos : 0 < duration) (volumes : List ℚ) (second : Nat) :
    (spread duration volumes)[second]? = volumes[second / duration.toNat]?.map (· / (duration : ℚ)) :=
  getElem?_flatMap_replicate (by omega) _ volumes second

/-- The volume of a timeslot is what its seconds carry together. -/
theorem sum_spread {duration : Int} (hpos : 0 < duration) {volumes : List ℚ} {timeslot : Nat} {volume : ℚ}
    (h : volumes[timeslot]? = some volume) :
    (((spread duration volumes).drop (timeslot * duration.toNat)).take duration.toNat).sum = volume := by
  have hduration : ((duration.toNat : Int) : ℚ) = duration := by rw [Int.toNat_of_nonneg hpos.le]
  have hne : (duration : ℚ) ≠ 0 := by exact_mod_cast hpos.ne'
  rw [spread, take_drop_flatMap_replicate (by omega) _ h, List.sum_replicate, nsmul_eq_mul, ← Int.cast_natCast,
    hduration, mul_div_cancel₀ volume hne]

/-- The rates of the flow and of the background traffic of one path. -/
structure PathRates (duration : Int) (requests : List (List ℚ)) (capacities foreground background : List ℚ) :
    Prop where
  foreground_eq : foreground = (List.range (timeslotsOf requests)).flatMap fun timeslot =>
    List.replicate duration.toNat (txRateScalingFactor * volumeIn requests timeslot / duration)
  sum_foreground : ∀ timeslot < timeslotsOf requests,
    ((foreground.drop (timeslot * duration.toNat)).take duration.toNat).sum =
      txRateScalingFactor * volumeIn requests timeslot
  length_background : background.length = capacities.length * duration.toNat
  within_total : (∀ timeslot capacity, capacities[timeslot]? = some capacity → volumeIn requests timeslot ≤ capacity) →
    ∀ second < capacities.length * duration.toNat,
      foreground.getD second 0 + background.getD second 0 ≤ totalPathVolumePerSecond

/-- The rate of the flow in any second, which is zero after its last timeslot. -/
theorem getD_spread_volumes {duration : Int} (hpos : 0 < duration) (requests : List (List ℚ)) (second : Nat) :
    (spread duration ((List.range (timeslotsOf requests)).map fun timeslot =>
      txRateScalingFactor * volumeIn requests timeslot)).getD second 0 =
    txRateScalingFactor * volumeIn requests (second / duration.toNat) / duration := by
  rw [List.getD_eq_getElem?_getD, getElem?_spread hpos, List.getElem?_map]
  by_cases hlt : second / duration.toNat < timeslotsOf requests
  · rw [List.getElem?_range hlt, Option.map_some, Option.map_some, Option.getD_some]
  · rw [List.getElem?_eq_none (by rw [List.length_range]; omega), volumeIn_beyond (Nat.not_lt.mp hlt)]
    simp

theorem pathRates_spread {duration : Int} (hpos : 0 < duration) (requests : List (List ℚ)) (capacities : List ℚ) :
    PathRates duration requests capacities
      (spread duration
        ((List.range (timeslotsOf requests)).map fun timeslot => txRateScalingFactor * volumeIn requests timeslot))
      ((spread duration (capacities.map (· * txRateScalingFactor))).map (totalPathVolumePerSecond - ·)) := by
  refine ⟨?_, ?_, ?_, ?_⟩
  · rw [spread, List.flatMap_map]
  · intro timeslot hlt
    apply sum_spread hpos
    rw [List.getElem?_map, List.getElem?_range hlt, Option.map_some]
  · rw [List.length_map, length_spread, List.length_map]
  · intro hcapacities second hsecond
    have htimeslot : second / duration.toNat < capacities.length := (Nat.div_lt_iff_lt_mul (by omega)).mpr hsecond
    have hcapacity := List.getElem?_eq_getElem htimeslot
    have hcovered := hcapacities _ _ hcapacity
    have hdenominator : (0 : ℚ) < duration := by exact_mod_cast hpos
    have hbackground : ((spread duration (capacities.map (· * txRateScalingFactor))).map
        (totalPathVolumePerSecond - ·)).getD second 0 =
        totalPathVolumePerSecond - capacities[second / duration.toNat] * txRateScalingFactor / duration := by
      rw [List.getD_eq_getElem?_getD, List.getElem?_map, getElem?_spread hpos, List.getElem?_map, hcapacity]
      rfl
    rw [getD_spread_volumes hpos, hbackground]
    have hrate : txRateScalingFactor * volumeIn requests (second / duration.toNat) / duration ≤
        capacities[second / duration.toNat] * txRateScalingFactor / duration := by
      rw [mul_comm txRateScalingFactor]
      have hscale : (0 : ℚ) ≤ txRateScalingFactor := by norm_num [txRateScalingFactor]
      gcongr
    linarith

/-- Each second of a timeslot carries its share of the volumes that the requests of the path have in it, and where the
capacities of the path cover these volumes, the flow and the background traffic together stay within the path's
capacity in every second. -/
theorem path_rates_of_solver_file (parameters : TrialParameters) (disjointPaths : List (List Nat)) (trial : TuitiTrial)
    (hfile : fromSolverFile parameters disjointPaths = some trial)
    (hpos : 0 < parameters.durationOfTimeslotInSeconds) (pathId : Nat) (requests : List (List ℚ))
    (hrequests : parameters.flowAllocations[pathId]? = some requests) :
    ∃ foreground background capacities, trial.flowSet[pathId]? = some foreground ∧
      trial.backgroundTrafficFlowSet[pathId]? = some background ∧
      parameters.pathCapacities[pathId]? = some capacities ∧
      PathRates parameters.durationOfTimeslotInSeconds requests capacities foreground.flowTxRate
        background.flowTxRate := by
  obtain ⟨foreground, background, capacities, hforeground, hbackground, hcapacities, hrates, hrates'⟩ :=
    flowTxRate_of_fromSolverFile hpos hfile hrequests
  refine ⟨foreground, background, capacities, hforeground, hbackground, hcapacities, ?_⟩
  rw [hrates, hrates']
  exact pathRates_spread hpos requests capacities

end Rates

/-- A solver's output for one path, whose second request has the longer list. -/
def raggedParameters : TrialParameters where
  flowAllocations := [[[1], [2, 3]]]
  pathCapacities := [[4, 3]]
  numberOfPaths := 1
  numberOfTimeslots := 2
  durationOfTimeslotInSeconds := 2

theorem path_rates_of_solver_file_ragged : ∃ trial foreground background,
    fromSolverFile raggedParameters [[0, 2, 1]] = some trial ∧ trial.flowSet[0]? = some foreground ∧
    trial.backgroundTrafficFlowSet[0]? = some background ∧
    PathRates 2 [[1], [2, 3]] [4, 3] foreground.flowTxRate background.flowTxRate ∧
    ∀ second < 4, foreground.flowTxRate.getD second 0 + background.flowTxRate.getD second 0 ≤
      totalPathVolumePerSecond := by
  have hsome : (fromSolverFile raggedParameters [[0, 2, 1]]).isSome = true := by decide +kernel
  obtain ⟨trial, hfile⟩ := Option.isSome_iff_exists.mp hsome
  obtain ⟨foreground, background, capacities, hforeground, hbackground, hcapacities, hrates⟩ :=
    path_rates_of_solver_file raggedParameters [[0, 2, 1]] trial hfile (by decide) 0 [[1], [2, 3]] rfl
  cases hcapacities
  refine ⟨trial, foreground, background, hfile, hforeground, hbackground, hrates, hrates.within_total ?_⟩
  intro timeslot capacity hcapacity
  rcases timeslot with _ | _ | timeslot
  · cases hcapacity
    decide +kernel
  · cases hcapacity
    decide +kernel
  · cases hcapacity

end OfTestbed.Tuiti.TuitiTrial
