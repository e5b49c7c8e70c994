import Mathlib.Data.List.MinMax
import OfTestbed.LibDefaultDict
import OfTestbed.RoutingTags

/-!
Trials of bulk transfers over disjoint paths: the flow sets that `TuitiTrial.from_solver_file` builds from a solver's
output (`tuiti/tuiti_trial.py`) and the configuration of the hosts in `conduct_mininet_trial` (`mininet_tuiti.py`).
Foreground flow `i` and background flow `i` are meant for path `i`: one vector of splitting ratios is set to one at
`i` around each configuration. The disjoint paths, the controller's answers, the map from nodes to switches and the
addresses of the hosts are parameters. `none` is an exception.
-/

namespace OfTestbed.Tuiti

open Lib Routing TrafficGen

variable {δ : Type}

/-- The fields of the solver's output that the flow sets are built from. -/
structure TrialParameters where
  flowAllocations : List (List (List ℚ))
  pathCapacities : List (List ℚ)
  numberOfPaths : Nat
  numberOfTimeslots : Nat
  durationOfTimeslotInSeconds : Int

/-- A flow with its list of rates. -/
structure TxFlow extends Flow Nat where
  flowTxRate : List ℚ

structure TuitiTrial where
  flowSet : List TxFlow
  backgroundTrafficFlowSet : List TxFlow

namespace TuitiTrial

def txRateScalingFactor : ℚ := 10000

/-- The rates of each path by timeslot; the dictionary over the path ids is the list of its values. -/
def pruneFlowAllocationsList (flowAllocations : List (List (List ℚ))) : List (List ℚ) :=
  flowAllocations.map fun requests =>
    (requests.foldl (fun (traffic : Dict Nat ℚ) timeslots =>
      timeslots.zipIdx.foldl (fun traffic (volume, timeslot) =>
        traffic.addTo timeslot (txRateScalingFactor * volume)) traffic) .empty).values

def prunePathCapacityList (pathCapacities : List (List ℚ)) : List (List ℚ) :=
  pathCapacities.map fun capacities => capacities.map (· * txRateScalingFactor)

def totalPathVolumePerSecond : ℚ := 50 / 8 * 2 ^ 20

/-- One entry of `scaling_factors`: the factor that is computed may raise, and then it is replaced by one. -/
def scalingFactor (parameters : TrialParameters) (pathCapacities : List (List ℚ)) (pathId : Nat) : Option ℚ := do
  let capacities ← pathCapacities[pathId]?
  let maxRemainingCapacity ← capacities.max?
  let trialDuration := parameters.durationOfTimeslotInSeconds * parameters.numberOfTimeslots
  if maxRemainingCapacity * trialDuration = 0 then none else some 1

/-- `[rate / duration] * duration`. -/
def perSecond (rate : ℚ) (duration : Int) : Option (List ℚ) :=
  if duration = 0 then none else some (List.replicate duration.toNat (rate / duration))

def flowOfRates (parameters : TrialParameters) (disjointPaths : List (List Nat)) (txRates : List ℚ) : TxFlow where
  sourceNode := 0
  destinationNode := 1
  paths := disjointPaths
  splittingRatio := List.replicate parameters.numberOfPaths 0
  flowTxRate := txRates

/-- One turn of the loop over the flow allocations. -/
def foregroundFlow (parameters : TrialParameters) (disjointPaths : List (List Nat)) (scalingFactors : List ℚ)
    (pathId : Nat) (txRateList : List ℚ) : Option TxFlow := do
  let scaledTxRates ← txRateList.mapM fun txRate => do
    perSecond (txRate * (← scalingFactors[pathId]?)) parameters.durationOfTimeslotInSeconds
  return flowOfRates parameters disjointPaths scaledTxRates.flatten

/-- One turn of the loop over the path capacities. -/
def backgroundFlow (parameters : TrialParameters) (disjointPaths : List (List Nat)) (scalingFactors : List ℚ)
    (pathId : Nat) (txRateList : List ℚ) : Option TxFlow := do
  let _ ← txRateList.max?
  let _ ← txRateList.min?
  let scaledTxRates ← txRateList.mapM fun txRate => do
    let scaledCapacities ← perSecond (txRate * (← scalingFactors[pathId]?)) parameters.durationOfTimeslotInSeconds
    return scaledCapacities.map (totalPathVolumePerSecond - ·)
  return flowOfRates parameters disjointPaths scaledTxRates.flatten

/-- The last parameter of the trial is the scaling factor of the last path, which is unbound without paths. -/
def fromSolverFile (parameters : TrialParameters) (disjointPaths : List (List Nat)) : Option TuitiTrial := do
  let flowAllocations := pruneFlowAllocationsList parameters.flowAllocations
  let pathCapacities := prunePathCapacityList parameters.pathCapacities
  if disjointPaths.length < parameters.numberOfPaths then none
  let scalingFactors ← (List.range flowAllocations.length).mapM (scalingFactor parameters pathCapacities)
  let flowSet ← flowAllocations.zipIdx.mapM fun (txRateList, pathId) =>
    foregroundFlow parameters disjointPaths scalingFactors pathId txRateList
  let backgroundTrafficFlowSet ← pathCapacities.zipIdx.mapM fun (txRateList, pathId) =>
    backgroundFlow parameters disjointPaths scalingFactors pathId txRateList
  if flowAllocations = [] then none
  return ⟨flowSet, backgroundTrafficFlowSet⟩

end TuitiTrial

/-! ### The configuration of the hosts -/

/-- The arguments of a traffic generator that decide its packets' path and rate. -/
structure HostFlow where
  srcHost : Nat
  destAddr : Text
  transmitRates : List ℚ
  probMat : List ℚ
  tagValue : List Nat
  flowId : Nat

/-- `k_matrix[flow_id] = value`. -/
def assign (kMatrix : List ℚ) (flowId : Nat) (value : ℚ) : Option (List ℚ) :=
  if flowId < kMatrix.length then some (kMatrix.set flowId value) else none

/-- The configuration of one flow, with the vector set to one at the flow's index and back to zero afterwards. -/
def configureHost (hostIp : Nat → Option Text) (kMatrix : List ℚ) (flowId : Nat) (flow : TxFlow)
    (tagValues : List Nat) : Option (HostFlow × List ℚ) := do
  let kMatrix ← assign kMatrix flowId 1
  let _ ← hostIp flow.sourceNode
  let destAddr ← hostIp flow.destinationNode
  let reset ← assign kMatrix flowId 0
  return (⟨flow.sourceNode, destAddr, flow.flowTxRate, kMatrix, tagValues, flowId⟩, reset)

/-- The variables of `conduct_mininet_trial`, with the requests to the controller and the configured flows. -/
structure MininetState (δ : Type) where
  tagValues : Dict (Nat × Nat) Nat
  kMatrix : List ℚ
  tagValuesForFlow : Option (List Nat)
  requests : List (List (PathDict δ))
  foreground : List HostFlow
  background : List HostFlow

/-- One turn of the loop over the flows. -/
def configureForeground (idToDpid : Nat → Option δ) (installFlow : List (PathDict δ) → Option Text)
    (hostIp : Nat → Option Text) (state : MininetState δ) (flow : TxFlow) (flowId : Nat) :
    Option (MininetState δ) := do
  let installed ← PathHopping.simplePathsToFlowJson flow.paths state.tagValues idToDpid
  let _ ← installFlow installed.pathDicts
  let (hostFlow, kMatrix) ← configureHost hostIp state.kMatrix flowId flow installed.tagValuesForFlow
  return { state with
    tagValues := installed.tagValues
    kMatrix := kMatrix
    tagValuesForFlow := some installed.tagValuesForFlow
    requests := state.requests ++ [installed.pathDicts]
    foreground := state.foreground ++ [hostFlow] }

/-- One turn of the loop over the background flows: the tags are those left over from the loop over the flows. -/
def configureBackground (hostIp : Nat → Option Text) (state : MininetState δ) (flow : TxFlow) (flowId : Nat) :
    Option (MininetState δ) := do
  let (hostFlow, kMatrix) ← configureHost hostIp state.kMatrix flowId flow (← state.tagValuesForFlow)
  return { state with
    kMatrix := kMatrix
    background := state.background ++ [hostFlow] }

/-- The configuration part of `conduct_mininet_trial`. -/
def conductMininetTrial (idToDpid : Nat → Option δ) (installFlow : List (PathDict δ) → Option Text)
    (hostIp : Nat → Option Text) (trial : TuitiTrial) : Option (MininetState δ) := do
  let start : MininetState δ := ⟨.empty, List.replicate trial.flowSet.length 0, none, [], [], []⟩
  let state ← trial.flowSet.zipIdx.foldlM (fun state (flow, flowId) =>
    configureForeground idToDpid installFlow hostIp state flow flowId) start
  trial.backgroundTrafficFlowSet.zipIdx.foldlM (fun state (flow, flowId) =>
    configureBackground hostIp state flow flowId) state

/-! ### The flow sets -/

/-- What the solver file's flows have in common: the end points and the list of disjoint paths. -/
def TxFlow.Over (disjointPaths : List (List Nat)) (flow : TxFlow) : Prop :=
  flow.ends = (0, 1) ∧ flow.paths = disjointPaths

namespace TuitiTrial

theorem over_of_foregroundFlow {parameters : TrialParameters} {disjointPaths : List (List Nat)}
    {scalingFactors : List ℚ} {pathId : Nat} {txRateList : List ℚ} {flow : TxFlow}
    (h : foregroundFlow parameters disjointPaths scalingFactors pathId txRateList = some flow) :
    flow.Over disjointPaths := by
  obtain ⟨scaledTxRates, -, heq⟩ := Option.bind_eq_some_iff.mp h
  cases heq
  exact ⟨rfl, rfl⟩

/-- A background flow needs a scaling factor, which only the paths of the foreground have. -/
theorem over_of_backgroundFlow {parameters : TrialParameters} {disjointPaths : List (List Nat)}
    {scalingFactors : List ℚ} {pathId : Nat} {txRateList : List ℚ} {flow : TxFlow}
    (h : backgroundFlow parameters disjointPaths scalingFactors pathId txRateList = some flow) :
    flow.Over disjointPaths ∧ pathId < scalingFactors.length := by
  simp only [backgroundFlow, Option.bind_eq_bind, Option.bind_eq_some_iff, Option.pure_def, Option.some.injEq] at h
  obtain ⟨greatest, hgreatest, -, -, scaledTxRates, hrates, rfl⟩ := h
  refine ⟨⟨rfl, rfl⟩, ?_⟩
  obtain ⟨rates, -, hfirst⟩ := exists_of_mem_of_mapM hrates (List.max?_mem hgreatest)
  simp only [Option.bind_eq_some_iff] at hfirst
  obtain ⟨factor, hfactor, -⟩ := hfirst
  exact (List.getElem?_eq_some_iff.mp hfactor).1

theorem lt_of_scalingFactor {parameters : TrialParameters} {pathCapacities : List (List ℚ)} {pathId : Nat}
    {factor : ℚ} (h : scalingFactor parameters pathCapacities pathId = some factor) :
    pathId < pathCapacities.length := by
  obtain ⟨capacities, hcapacities, -⟩ := Option.bind_eq_some_iff.mp h
  exact (List.getElem?_eq_some_iff.mp hcapacities).1

/-- There are as many background flows as flows: each path with a capacity needs a scaling factor, and each path with
an allocation needs a capacity. -/
theorem fromSolverFile_spec {parameters : TrialParameters} {disjointPaths : List (List Nat)} {trial : TuitiTrial}
    (h : fromSolverFile parameters disjointPaths = some trial) :
    trial.flowSet ≠ [] ∧ trial.backgroundTrafficFlowSet.length = trial.flowSet.length ∧
    (∀ flow ∈ trial.flowSet, flow.Over disjointPaths) ∧
    ∀ flow ∈ trial.backgroundTrafficFlowSet, flow.Over disjointPaths := by
  simp only [fromSolverFile] at h
  split at h
  · cases h
  simp only [Option.bind_eq_bind, Option.bind_eq_some_iff] at h
  obtain ⟨scalingFactors, hfactors, flowSet, hflows, background, hbackground, hreturn⟩ := h
  have hfactorCount := length_of_mapM hfactors
  have hflowCount := length_of_mapM hflows
  have hbackgroundCount := length_of_mapM hbackground
  rw [List.length_range] at hfactorCount
  rw [List.length_zipIdx] at hflowCount hbackgroundCount
  split at hreturn
  · cases hreturn
  rename_i hnonempty
  cases hreturn
  refine ⟨?_, ?_, ?_, ?_⟩
  · exact List.ne_nil_of_length_pos (hflowCount ▸ List.length_pos_of_ne_nil hnonempty)
  · rw [hbackgroundCount, hflowCount]
    apply Nat.le_antisymm
    · by_contra hlt
      have hlast : ((prunePathCapacityList parameters.pathCapacities)[scalingFactors.length],
          scalingFactors.length) ∈ (prunePathCapacityList parameters.pathCapacities).zipIdx :=
        List.mem_zipIdx_iff_getElem?.mpr (List.getElem?_eq_getElem (by omega))
      obtain ⟨flow, -, hflow⟩ := exists_of_mem_of_mapM hbackground hlast
      have hbound := (over_of_backgroundFlow hflow).2
      omega
    · by_contra hlt
      have hlast : (prunePathCapacityList parameters.pathCapacities).length ∈
          List.range (pruneFlowAllocationsList parameters.flowAllocations).length := List.mem_range.mpr (by omega)
      obtain ⟨factor, -, hfactor⟩ := exists_of_mem_of_mapM hfactors hlast
      exact Nat.lt_irrefl _ (lt_of_scalingFactor hfactor)
  · intro flow hmem
    obtain ⟨turn, -, hflow⟩ := exists_of_mem_mapM hflows hmem
    exact over_of_foregroundFlow hflow
  · intro flow hmem
    obtain ⟨turn, -, hflow⟩ := exists_of_mem_mapM hbackground hmem
    exact (over_of_backgroundFlow hflow).1

end TuitiTrial

/-! ### The hosts' configuration -/

theorem TxFlow.Over.runsThrough {disjointPaths : List (List Nat)} {flow : TxFlow} (h : flow.Over disjointPaths)
    (hpaths : ∀ path ∈ disjointPaths, path.head? = some 0 ∧ path.getLast? = some 1) : flow.toFlow.RunsThrough := by
  obtain ⟨hsource, hdestination⟩ := Prod.mk.inj h.1
  intro path hpath
  rw [hsource, hdestination]
  exact hpaths path (h.2 ▸ hpath)

/-- The vector is a one in a vector of zeroes, and it is all zeroes again afterwards. -/
theorem configureHost_eq_some_iff {hostIp : Nat → Option Text} {flowCount flowId : Nat} {flow : TxFlow}
    {tagValues : List Nat} {configured : HostFlow × List ℚ} :
    configureHost hostIp (List.replicate flowCount 0) flowId flow tagValues = some configured ↔
      flowId < flowCount ∧ (∃ sourceAddr, hostIp flow.sourceNode = some sourceAddr) ∧
      ∃ destAddr, hostIp flow.destinationNode = some destAddr ∧
        configured = (⟨flow.sourceNode, destAddr, flow.flowTxRate, (List.replicate flowCount 0).set flowId 1,
          tagValues, flowId⟩, List.replicate flowCount 0) := by
  have hreset : ((List.replicate flowCount (0 : ℚ)).set flowId 1).set flowId 0 = List.replicate flowCount 0 := by
    rw [List.set_set, List.set_replicate_self]
  rw [configureHost]
  by_cases hflow : flowId < flowCount
  · simp [assign, hflow, hreset, Option.bind_eq_some_iff, eq_comm (a := configured)]
  · simp [assign, hflow]

/-- A flow that sends all of its traffic under one of the tags of a request. -/
structure Directed (flowCount : Nat) (requests : List (List (PathDict δ))) (flowId : Nat) (hostFlow : HostFlow) :
    Prop where
  flowId_lt : flowId < flowCount
  probMat_eq : hostFlow.probMat = (List.replicate flowCount 0).set flowId 1
  tagValue_mem : hostFlow.tagValue ∈ requests.map (·.map PathDict.tagValue)

theorem Directed.mono {flowCount : Nat} {requests requests' : List (List (PathDict δ))} {flowId : Nat}
    {hostFlow : HostFlow} (h : Directed flowCount requests flowId hostFlow) (hsubset : requests ⊆ requests') :
    Directed flowCount requests' flowId hostFlow :=
  ⟨h.flowId_lt, h.probMat_eq, List.map_subset _ hsubset h.tagValue_mem⟩

/-- What the two loops keep. -/
structure Invariant (idToDpid : Nat → Option δ) (disjointPaths : List (List Nat)) (flowCount : Nat)
    (state : MininetState δ) : Prop where
  kMatrix_eq : state.kMatrix = List.replicate flowCount 0
  nodes_eq : ∀ request ∈ state.requests,
    disjointPaths.mapM (·.mapM idToDpid) = some (request.map PathDict.nodes)
  tags_eq : state.requests.flatten.map PathDict.tagValue =
    List.range' 0 (state.requests.length * disjointPaths.length)
  counter_eq : counter 0 state.tagValues (0, 1) = state.requests.length * disjointPaths.length
  leftOver_mem : ∀ tags, state.tagValuesForFlow = some tags → tags ∈ state.requests.map (·.map PathDict.tagValue)
  foreground : ∀ flowId hostFlow, state.foreground[flowId]? = some hostFlow →
    Directed flowCount state.requests flowId hostFlow
  background : ∀ flowId hostFlow, state.background[flowId]? = some hostFlow →
    Directed flowCount state.requests flowId hostFlow

section Steps

variable {idToDpid : Nat → Option δ} {installFlow : List (PathDict δ) → Option Text} {hostIp : Nat → Option Text}
  {disjointPaths : List (List Nat)} {flowCount : Nat} {state state' : MininetState δ} {flow : TxFlow}

theorem Invariant.start (idToDpid : Nat → Option δ) (disjointPaths : List (List Nat)) (flowCount : Nat) :
    Invariant idToDpid disjointPaths flowCount ⟨.empty, List.replicate flowCount 0, none, [], [], []⟩ where
  kMatrix_eq := rfl
  nodes_eq := by simp
  tags_eq := by simp
  counter_eq := by
    rw [List.length_nil, Nat.zero_mul]
    rfl
  leftOver_mem := by simp
  foreground := by simp
  background := by simp

theorem Invariant.configureForeground (h : Invariant idToDpid disjointPaths flowCount state)
    (hflow : flow.Over disjointPaths)
    (hpaths : ∀ path ∈ disjointPaths, path.head? = some 0 ∧ path.getLast? = some 1)
    (hturn : Tuiti.configureForeground idToDpid installFlow hostIp state flow state.foreground.length = some state') :
    Invariant idToDpid disjointPaths flowCount state' ∧
    state'.foreground.length = state.foreground.length + 1 ∧ state'.requests.length = state.requests.length + 1 ∧
    state'.background = state.background := by
  simp only [Tuiti.configureForeground, PathHopping.simplePathsToFlowJson_eq (hflow.runsThrough hpaths),
    h.kMatrix_eq, Option.bind_eq_bind, Option.bind_eq_some_iff, Option.pure_def, Option.some.injEq] at hturn
  obtain ⟨installed, hinstalled, token, -, ⟨hostFlow, kMatrix⟩, hconfigured, rfl⟩ := hturn
  obtain ⟨hlt, -, destAddr, -, hpair⟩ := configureHost_eq_some_iff.mp hconfigured
  cases hpair
  have hnew := installed_of_foldlM hinstalled
  rw [hflow.1, hflow.2] at hnew
  have hsubset : state.requests ⊆ state.requests ++ [installed.pathDicts] := List.subset_append_left ..
  have hhanded : installed.tagValuesForFlow ∈
      (state.requests ++ [installed.pathDicts]).map (·.map PathDict.tagValue) := by
    rw [hnew.handed_eq]
    exact List.mem_map_of_mem (List.mem_append_right _ List.mem_cons_self)
  have hcount : (state.requests ++ [installed.pathDicts]).length = state.requests.length + 1 := by
    rw [List.length_append, List.length_singleton]
  refine ⟨⟨rfl, ?_, ?_, ?_, ?_, ?_, ?_⟩, ?_, hcount, rfl⟩
  · intro request hrequest
    rcases List.mem_append.mp hrequest with hold | hlast
    · exact h.nodes_eq request hold
    · rw [List.mem_singleton.mp hlast]
      exact hnew.nodes_eq
  · rw [hcount, Nat.succ_mul, ← List.range'_append_1, List.flatten_append, List.map_append, h.tags_eq,
      List.flatten_singleton, hnew.tags_eq, h.counter_eq, Nat.zero_add]
  · rw [hcount, hnew.counter_eq, if_pos rfl, h.counter_eq, Nat.succ_mul]
  · intro tags htags
    rw [← Option.some.inj htags]
    exact hhanded
  · exact forall_getElem?_concat (fun flowId old hold => (h.foreground flowId old hold).mono hsubset)
      ⟨hlt, rfl, hhanded⟩
  · exact fun flowId old hold => (h.background flowId old hold).mono hsubset
  · rw [List.length_append, List.length_singleton]

theorem Invariant.configureBackground (h : Invariant idToDpid disjointPaths flowCount state)
    (hturn : Tuiti.configureBackground hostIp state flow state.background.length = some state') :
    Invariant idToDpid disjointPaths flowCount state' ∧ state'.background.length = state.background.length + 1 ∧
    state'.foreground = state.foreground ∧ state'.requests = state.requests := by
  simp only [Tuiti.configureBackground, h.kMatrix_eq, Option.bind_eq_bind, Option.bind_eq_some_iff, Option.pure_def,
    Option.some.injEq] at hturn
  obtain ⟨tags, htags, ⟨hostFlow, kMatrix⟩, hconfigured, rfl⟩ := hturn
  obtain ⟨hlt, -, destAddr, -, hpair⟩ := configureHost_eq_some_iff.mp hconfigured
  cases hpair
  refine ⟨⟨rfl, h.nodes_eq, h.tags_eq, h.counter_eq, h.leftOver_mem, h.foreground, ?_⟩, ?_, rfl, rfl⟩
  · exact forall_getElem?_concat h.background ⟨hlt, rfl, h.leftOver_mem tags htags⟩
  · rw [List.length_append, List.length_singleton]

/-- The loop over the flows. -/
theorem Invariant.of_foreground {flows : List TxFlow} (hflows : ∀ flow ∈ flows, flow.Over disjointPaths)
    (hpaths : ∀ path ∈ disjointPaths, path.head? = some 0 ∧ path.getLast? = some 1)
    (hrun : flows.zipIdx.foldlM (fun state (flow, flowId) =>
      Tuiti.configureForeground idToDpid installFlow hostIp state flow flowId)
      ⟨.empty, List.replicate flowCount 0, none, [], [], []⟩ = some state) :
    Invariant idToDpid disjointPaths flowCount state ∧ state.foreground.length = flows.length ∧
    state.requests.length = flows.length ∧ state.background = [] := by
  refine foldlM_zipIdx_partial (fun done (state : MininetState δ) => Invariant idToDpid disjointPaths flowCount state ∧
    state.foreground.length = done.length ∧ state.requests.length = done.length ∧ state.background = []) ?_ ?_ hrun
  · exact ⟨Invariant.start idToDpid disjointPaths flowCount, rfl, rfl, rfl⟩
  · intro done flow rest state state' hsplit hdone hturn
    obtain ⟨hinv, hforeground, hrequests, hbackground⟩ := hdone
    rw [← hforeground] at hturn
    obtain ⟨hinv', hforeground', hrequests', hbackground'⟩ :=
      hinv.configureForeground (hflows flow (by rw [hsplit]; simp)) hpaths hturn
    rw [List.length_append, List.length_singleton, hforeground', hrequests', hbackground', hforeground, hrequests]
    exact ⟨hinv', rfl, rfl, hbackground⟩

/-- The loop over the background flows, which installs nothing. -/
theorem Invariant.of_background (h : Invariant idToDpid disjointPaths flowCount state)
    (hnone : state.background = []) {flows : List TxFlow}
    (hrun : flows.zipIdx.foldlM (fun state (flow, flowId) =>
      Tuiti.configureBackground hostIp state flow flowId) state = some state') :
    Invariant idToDpid disjointPaths flowCount state' ∧ state'.background.length = flows.length ∧
    state'.foreground = state.foreground ∧ state'.requests = state.requests := by
  refine foldlM_zipIdx_partial (fun done (current : MininetState δ) =>
    Invariant idToDpid disjointPaths flowCount current ∧ current.background.length = done.length ∧
    current.foreground = state.foreground ∧ current.requests = state.requests) ?_ ?_ hrun
  · exact ⟨h, by rw [hnone, List.length_nil, List.length_nil], rfl, rfl⟩
  · intro done flow rest current current' _ hdone hturn
    obtain ⟨hinv, hbackground, hforeground, hrequests⟩ := hdone
    rw [← hbackground] at hturn
    obtain ⟨hinv', hbackground', hforeground', hrequests'⟩ := hinv.configureBackground hturn
    rw [List.length_append, List.length_singleton, hbackground', hforeground', hrequests', hbackground]
    exact ⟨hinv', rfl, hforeground, hrequests⟩

theorem Invariant.of_conductMininetTrial {trial : TuitiTrial}
    (hflows : ∀ flow ∈ trial.flowSet, flow.Over disjointPaths)
    (hpaths : ∀ path ∈ disjointPaths, path.head? = some 0 ∧ path.getLast? = some 1)
    (hrun : conductMininetTrial idToDpid installFlow hostIp trial = some state) :
    Invariant idToDpid disjointPaths trial.flowSet.length state ∧
    state.foreground.length = trial.flowSet.length ∧
    state.background.length = trial.backgroundTrafficFlowSet.length ∧
    state.requests.length = trial.flowSet.length := by
  obtain ⟨middle, hforeground, hbackground⟩ := Option.bind_eq_some_iff.mp hrun
  obtain ⟨hinv, hlength, hrequests, hnone⟩ := Invariant.of_foreground hflows hpaths hforeground
  obtain ⟨hinv', hlength', hsame, hsame'⟩ := hinv.of_background hnone hbackground
  exact ⟨hinv', by rw [hsame, hlength], hlength', by rw [hsame', hrequests]⟩

theorem exists_configureHost (hhosts : (∃ addr, hostIp 0 = some addr) ∧ ∃ addr, hostIp 1 = some addr)
    (hflow : flow.Over disjointPaths) {flowId : Nat} (hlt : flowId < flowCount) (tags : List Nat) :
    ∃ hostFlow, configureHost hostIp (List.replicate flowCount 0) flowId flow tags =
      some (hostFlow, List.replicate flowCount 0) := by
  obtain ⟨hsource, hdestination⟩ := Prod.mk.inj hflow.1
  obtain ⟨⟨sourceAddr, hsourceAddr⟩, destAddr, hdestAddr⟩ := hhosts
  exact ⟨_, configureHost_eq_some_iff.mpr
    ⟨hlt, ⟨sourceAddr, by rw [hsource, hsourceAddr]⟩, destAddr, by rw [hdestination, hdestAddr], rfl⟩⟩

/-- A trial whose nodes are all known, whose requests are granted and whose hosts are up is configured. -/
theorem exists_conductMininetTrial {trial : TuitiTrial} (hsome : trial.flowSet ≠ [])
    (hlength : trial.backgroundTrafficFlowSet.length = trial.flowSet.length)
    (hflows : ∀ flow ∈ trial.flowSet, flow.Over disjointPaths)
    (hflows' : ∀ flow ∈ trial.backgroundTrafficFlowSet, flow.Over disjointPaths)
    (hpaths : ∀ path ∈ disjointPaths, path.head? = some 0 ∧ path.getLast? = some 1)
    (hknown : ∀ path ∈ disjointPaths, ∀ node ∈ path, ∃ dpid, idToDpid node = some dpid)
    (hgranted : ∀ request, ∃ token, installFlow request = some token)
    (hhosts : (∃ addr, hostIp 0 = some addr) ∧ ∃ addr, hostIp 1 = some addr) :
    ∃ state, conductMininetTrial idToDpid installFlow hostIp trial = some state := by
  obtain ⟨middle, hmiddle, hzeroes, htags⟩ := foldlM_zipIdx_total (fun state (flow, flowId) =>
      Tuiti.configureForeground idToDpid installFlow hostIp state flow flowId) trial.flowSet
    ⟨.empty, List.replicate trial.flowSet.length 0, none, [], [], []⟩
    (fun done state => state.kMatrix = List.replicate trial.flowSet.length 0 ∧
      (done ≠ [] → ∃ tags, state.tagValuesForFlow = some tags)) ⟨rfl, fun hne => absurd rfl hne⟩ (by
      intro done flow rest state hsplit hdone
      have hflow := hflows flow (by rw [hsplit]; simp)
      obtain ⟨installed, hinstalled⟩ := exists_foldlM_installPath 0
        (fun path hpath => hknown path (hflow.2 ▸ hpath)) flow.ends state.tagValues
      obtain ⟨token, htoken⟩ := hgranted installed.pathDicts
      obtain ⟨hostFlow, hhostFlow⟩ := exists_configureHost hhosts hflow
        (show done.length < trial.flowSet.length by rw [hsplit]; simp) installed.tagValuesForFlow
      simp only [Tuiti.configureForeground, PathHopping.simplePathsToFlowJson_eq (hflow.runsThrough hpaths),
        hinstalled, htoken, hdone.1, hhostFlow, Option.bind_eq_bind, Option.bind_some]
      exact ⟨_, rfl, rfl, fun _ => ⟨_, rfl⟩⟩)
  obtain ⟨tags, htags⟩ := htags hsome
  obtain ⟨final, hfinal, -⟩ := foldlM_zipIdx_total (fun state (flow, flowId) =>
      Tuiti.configureBackground hostIp state flow flowId) trial.backgroundTrafficFlowSet middle
    (fun _ state => state.kMatrix = List.replicate trial.flowSet.length 0 ∧ state.tagValuesForFlow = some tags)
    ⟨hzeroes, htags⟩ (by
      intro done flow rest state hsplit hdone
      obtain ⟨hostFlow, hhostFlow⟩ := exists_configureHost hhosts (hflows' flow (by rw [hsplit]; simp))
        (show done.length < trial.flowSet.length by rw [← hlength, hsplit]; simp) tags
      simp only [Tuiti.configureBackground, hdone.1, hdone.2, hhostFlow, Option.bind_eq_bind, Option.bind_some]
      exact ⟨_, rfl, rfl, rfl⟩)
  exact ⟨final, Option.bind_eq_some_iff.mpr ⟨middle, hmiddle, hfinal⟩⟩

end Steps

/-! ### Marks of the flows -/

/-- Every packet of the flow is marked with the tag of the one installed route, along the path of the flow's index. -/
structure MarkedFor (idToDpid : Nat → Option δ) (disjointPaths : List (List Nat))
    (requests : List (List (PathDict δ))) (flowId : Nat) (hostFlow : HostFlow) (route : PathDict δ) : Prop where
  installed : route ∈ requests.flatten
  nodes_eq : disjointPaths[flowId]?.bind (·.mapM idToDpid) = some route.nodes
  unique : ∀ other ∈ requests.flatten, other.tagValue = route.tagValue → other = route
  mark_eq : ∀ randomPick : ℚ, 0 < randomPick → randomPick ≤ 1 →
    selectDscp hostFlow.probMat hostFlow.tagValue randomPick = some (some (route.tagValue <<< 2))

theorem Invariant.exists_markedFor {idToDpid : Nat → Option δ} {disjointPaths : List (List Nat)} {flowCount : Nat}
    {state : MininetState δ} (h : Invariant idToDpid disjointPaths flowCount state)
    (henough : flowCount ≤ disjointPaths.length) {flowId : Nat} {hostFlow : HostFlow}
    (hdirected : Directed flowCount state.requests flowId hostFlow) :
    ∃ route, MarkedFor idToDpid disjointPaths state.requests flowId hostFlow route := by
  obtain ⟨request, hrequest, htags⟩ := List.mem_map.mp hdirected.tagValue_mem
  have hlength := length_of_mapM (h.nodes_eq request hrequest)
  rw [List.length_map] at hlength
  have hlt : flowId < request.length := by
    have hflow := hdirected.flowId_lt
    omega
  have hroute : request[flowId] ∈ state.requests.flatten :=
    List.mem_flatten.mpr ⟨request, hrequest, List.getElem_mem hlt⟩
  refine ⟨request[flowId], hroute, ?_, ?_, ?_⟩
  · rw [← getElem?_of_mapM (h.nodes_eq request hrequest), List.getElem?_map, List.getElem?_eq_getElem hlt,
      Option.map_some]
  · intro other hother heq
    have hnodup : (state.requests.flatten.map PathDict.tagValue).Nodup := by
      rw [h.tags_eq]
      exact List.nodup_range' ..
    exact List.inj_on_of_nodup_map hnodup hother hroute heq
  · intro randomPick hpos hle
    rw [hdirected.probMat_eq]
    apply selectDscp_of_chosenPath (chosenPath_oneHot hdirected.flowId_lt hpos hle)
    rw [← htags, List.getElem?_map, List.getElem?_eq_getElem hlt, Option.map_some]

/-- Flows of different indices are marked for different routes. -/
theorem MarkedFor.nodes_ne {idToDpid : Nat → Option δ} {disjointPaths : List (List Nat)}
    {requests : List (List (PathDict δ))} {flowId flowId' : Nat} {hostFlow hostFlow' : HostFlow}
    {route route' : PathDict δ} (h : MarkedFor idToDpid disjointPaths requests flowId hostFlow route)
    (h' : MarkedFor idToDpid disjointPaths requests flowId' hostFlow' route') (hdisjoint : disjointPaths.Nodup)
    (hinjective : ∀ node node' dpid, idToDpid node = some dpid → idToDpid node' = some dpid → node = node')
    (hne : flowId ≠ flowId') : route.nodes ≠ route'.nodes := by
  intro heq
  obtain ⟨path, hpath, hnodes⟩ := Option.bind_eq_some_iff.mp h.nodes_eq
  obtain ⟨path', hpath', hnodes'⟩ := Option.bind_eq_some_iff.mp h'.nodes_eq
  have hsame : path = path' := mapM_injective hinjective hnodes (heq ▸ hnodes')
  apply hne
  apply (List.getElem?_inj (List.getElem?_eq_some_iff.mp hpath).1 hdisjoint).mp
  rw [hpath, hpath', hsame]

/-- The flows of a configured trial keep to the paths of their indices. -/
structure OnOwnPaths (idToDpid : Nat → Option δ) (disjointPaths : List (List Nat)) (flowCount : Nat)
    (state : MininetState δ) : Prop where
  foreground_length : state.foreground.length = flowCount
  background_length : state.background.length = flowCount
  tag_lt : ∀ route ∈ state.requests.flatten, route.tagValue < flowCount * disjointPaths.length
  marked : ∀ flowId hostFlow,
    (state.foreground[flowId]? = some hostFlow ∨ state.background[flowId]? = some hostFlow) →
    ∃ route, MarkedFor idToDpid disjointPaths state.requests flowId hostFlow route
  apart : ∀ flowId flowId' hostFlow hostFlow' route route',
    MarkedFor idToDpid disjointPaths state.requests flowId hostFlow route →
    MarkedFor idToDpid disjointPaths state.requests flowId' hostFlow' route' →
    flowId ≠ flowId' → route.nodes ≠ route'.nodes ∧ route.tagValue ≠ route'.tagValue

/-- In a trial from a solver file, with distinct paths from source to sink and at least as many of them as flows, the
traffic of flow `i` and of background flow `i` is marked, whatever the random numbers, for an installed route along path
`i`; and if the network knows the paths and grants the requests, then the trial is configured. -/
theorem flows_keep_to_own_paths (parameters : TrialParameters) (disjointPaths : List (List Nat)) (trial : TuitiTrial)
    (hfile : TuitiTrial.fromSolverFile parameters disjointPaths = some trial)
    (hpaths : ∀ path ∈ disjointPaths, path.head? = some 0 ∧ path.getLast? = some 1) (hdisjoint : disjointPaths.Nodup)
    (henough : trial.flowSet.length ≤ disjointPaths.length) (idToDpid : Nat → Option δ)
    (hinjective : ∀ node node' dpid, idToDpid node = some dpid → idToDpid node' = some dpid → node = node')
    (installFlow : List (PathDict δ) → Option Text) (hostIp : Nat → Option Text) :
    (∀ state, conductMininetTrial idToDpid installFlow hostIp trial = some state →
      OnOwnPaths idToDpid disjointPaths trial.flowSet.length state) ∧
    ((∀ path ∈ disjointPaths, ∀ node ∈ path, ∃ dpid, idToDpid node = some dpid) →
      (∀ request, ∃ token, installFlow request = some token) →
      ((∃ addr, hostIp 0 = some addr) ∧ ∃ addr, hostIp 1 = some addr) →
      ∃ state, conductMininetTrial idToDpid installFlow hostIp trial = some state) := by
  obtain ⟨hsome, hlength, hflows, hflows'⟩ := TuitiTrial.fromSolverFile_spec hfile
  refine ⟨fun state hrun => ?_, exists_conductMininetTrial hsome hlength hflows hflows' hpaths⟩
  obtain ⟨hinv, hforeground, hbackground, hrequests⟩ := Invariant.of_conductMininetTrial hflows hpaths hrun
  refine ⟨hforeground, hbackground.trans hlength, ?_, ?_, ?_⟩
  · intro route hroute
    have hmem := List.mem_map_of_mem (f := PathDict.tagValue) hroute
    rw [hinv.tags_eq, hrequests] at hmem
    simpa using (List.mem_range'_1.mp hmem).2
  · intro flowId hostFlow hconfigured
    rcases hconfigured with hforeground | hbackground
    · exact hinv.exists_markedFor henough (hinv.foreground flowId hostFlow hforeground)
    · exact hinv.exists_markedFor henough (hinv.background flowId hostFlow hbackground)
  · intro flowId flowId' hostFlow hostFlow' route route' hmarked hmarked' hne
    have hnodes := hmarked.nodes_ne hmarked' hdisjoint hinjective hne
    refine ⟨hnodes, fun htag => hnodes ?_⟩
    rw [hmarked'.unique route hmarked.installed htag]

/-- A solver's output for two paths and one timeslot. -/
def twoPathParameters : TrialParameters where
  flowAllocations := [[[1]], [[2]]]
  pathCapacities := [[3], [4]]
  numberOfPaths := 2
  numberOfTimeslots := 1
  durationOfTimeslotInSeconds := 1

theorem flows_keep_to_own_paths_two : ∃ trial state,
    TuitiTrial.fromSolverFile twoPathParameters [[0, 2, 1], [0, 3, 1]] = some trial ∧
    conductMininetTrial some (fun _ => some "token".toList) (fun _ => some "10.0.0.1".toList) trial = some state ∧
    OnOwnPaths some [[0, 2, 1], [0, 3, 1]] 2 state := by
  have hcount : (TuitiTrial.fromSolverFile twoPathParameters [[0, 2, 1], [0, 3, 1]]).map (·.flowSet.length) =
      some 2 := by decide +kernel
  obtain ⟨trial, hfile, hlength⟩ := Option.map_eq_some_iff.mp hcount
  have hinjective : ∀ node node' dpid : Nat, some node = some dpid → some node' = some dpid → node = node' :=
    fun node node' dpid h h' => Option.some.inj (h.trans h'.symm)
  obtain ⟨hown, hexists⟩ := flows_keep_to_own_paths twoPathParameters [[0, 2, 1], [0, 3, 1]] trial hfile (by decide)
    (by decide) hlength.le some hinjective (fun _ => some "token".toList) (fun _ => some "10.0.0.1".toList)
  obtain ⟨state, hrun⟩ := hexists (fun _ _ node _ => ⟨node, rfl⟩) (fun _ => ⟨_, rfl⟩) ⟨⟨_, rfl⟩, _, rfl⟩
  exact ⟨trial, state, hfile, hrun, hlength ▸ hown state hrun⟩

end OfTestbed.Tuiti
