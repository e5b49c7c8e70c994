import Mathlib.Algebra.Order.Group.Unbundled.Abs
import OfTestbed.LibJson
import OfTestbed.LibText

/-!
Multipath routing trials and their dictionaries (`mp_routing/trial.py`, `mp_routing/vle_trial.py`). The program is
untyped: node names, rates, fractions and seeds are whatever the solver's file holds. `none` is an exception; a
call that raises leaves its object as it was. `json.dumps` and `json.loads` are parameters.
-/

namespace OfTestbed.MpRouting

open Lib

structure Path where
  nodes : Json
  fraction : Json

structure Flow where
  sourceNode : Json
  destinationNode : Json
  paths : List Path
  rate : Json
  variance : Json
  actualTxRates : Json

namespace Flow

/-- `Flow(source_node, destination_node, rate, variance, actual_tx_rates)`. -/
def new (sourceNode destinationNode rate variance actualTxRates : Json) : Flow where
  sourceNode := sourceNode
  destinationNode := destinationNode
  paths := []
  rate := rate
  variance := variance
  actualTxRates := actualTxRates

/-- The check of `add_path`: two nodes at least, from the source to the destination. -/
def isValidPath (flow : Flow) (nodes : Json) : Bool :=
  match nodes.sequence with
  | none => false
  | some nodes => 2 ≤ nodes.length && nodes.head?.any (·.eq flow.sourceNode) &&
      nodes.getLast?.any (·.eq flow.destinationNode)

def addPath (flow : Flow) (nodes demandFraction : Json) : Option Flow :=
  if flow.isValidPath nodes then some { flow with paths := flow.paths ++ [⟨nodes, demandFraction⟩] } else none

def pathToJson (path : Path) : Json := .obj [("nodes", path.nodes), ("fraction", path.fraction)]

def toJson (flowObject : Flow) : Json :=
  .obj [("source_node", flowObject.sourceNode), ("destination_node", flowObject.destinationNode),
    ("paths", .arr (flowObject.paths.map pathToJson)), ("rate", flowObject.rate),
    ("variance", flowObject.variance), ("actual_tx_rates", flowObject.actualTxRates)]

/-- One turn of the reader's loop over the paths. -/
def addPathJson (flow : Flow) (path : Json) : Option Flow := do
  flow.addPath (← path.get? "nodes") (← path.get? "fraction")

def fromJson (jsonObject : Json) : Option Flow := do
  let sourceNode ← jsonObject.get? "source_node"
  let destinationNode ← jsonObject.get? "destination_node"
  let rate ← jsonObject.get? "rate"
  let variance ← jsonObject.get? "variance"
  let actualTxRates ← jsonObject.get? "actual_tx_rates"
  let paths ← (← jsonObject.get? "paths").iter
  paths.foldlM addPathJson (new sourceNode destinationNode rate variance actualTxRates)

/-- The same body as `to_json`. -/
def toDict (flowObject : Flow) : Json := toJson flowObject

/-- The same body as `from_json`. -/
def fromDict (flowDict : Json) : Option Flow := fromJson flowDict

/-- `sum([path.fraction for path in self.paths])`. -/
def totalRateTransported (flow : Flow) : Option ℚ := do
  let fractions ← flow.paths.mapM (·.fraction.number)
  return fractions.sum

/-- The tolerance is `1**-10`, which is one. -/
def verifyFlow (flow : Flow) : Option Bool := do
  let total ← flow.totalRateTransported
  return decide (total - 1 < (1 : ℚ) ^ (-10 : ℤ))

end Flow

structure Trial where
  flows : List Flow
  seed : Json
  solutionTime : Json

namespace Trial

/-- `Trial(seed, solution_time)`. -/
def new (seed solutionTime : Json) : Trial := ⟨[], seed, solutionTime⟩

def setSolutionTime (trial : Trial) (theTime : Json) : Trial := { trial with solutionTime := theTime }

def addFlow (trial : Trial) (flow : Flow) : Option Trial := do
  if ← flow.verifyFlow then some { trial with flows := trial.flows ++ [flow] } else none

def toDict (trialObject : Trial) : Json :=
  .obj [("flows", .arr (trialObject.flows.map Flow.toDict)), ("seed", trialObject.seed),
    ("solution-time", trialObject.solutionTime)]

/-- One turn of the reader's loop over the flows. -/
def addFlowJson (trial : Trial) (flowJson : Json) : Option Trial := do
  let flow ← Flow.fromJson flowJson
  trial.addFlow flow

def fromDict (trialDict : Json) : Option Trial := do
  let trial := new (← trialDict.get? "seed") (← trialDict.get? "solution-time")
  let flows ← (← trialDict.get? "flows").iter
  flows.foldlM addFlowJson trial

def toJson (dumps : Json → Text) (trialObject : Trial) : Text := dumps (toDict trialObject)

def fromJson (loads : Text → Option Json) (jsonStr : Text) : Option Trial := do
  let jsonObject ← loads jsonStr
  fromDict jsonObject

end Trial

structure VleTrial where
  meanFlowTxRates : Json
  stdDevFlowTxRates : Json
  actualFlowTxRates : Json
  solverResults : Trial
  seedNumber : Json

namespace VleTrial

def toDict (theVleTrial : VleTrial) : Json :=
  .obj [("mean-flow-tx-rates", theVleTrial.meanFlowTxRates),
    ("std-dev-flow-tx-rates", theVleTrial.stdDevFlowTxRates),
    ("actual-flow-tx-rates", theVleTrial.actualFlowTxRates),
    ("solver-results", Trial.toDict theVleTrial.solverResults), ("seed-number", theVleTrial.seedNumber)]

def fromDict (vleTrialDict : Json) : Option VleTrial := do
  let txRates ← vleTrialDict.get? "mean-flow-tx-rates"
  let stdDev ← vleTrialDict.get? "std-dev-flow-tx-rates"
  let actualRates ← vleTrialDict.get? "actual-flow-tx-rates"
  let solverResults ← Trial.fromDict (← vleTrialDict.get? "solver-results")
  let seedNumber ← vleTrialDict.get? "seed-number"
  return ⟨txRates, stdDev, actualRates, solverResults, seedNumber⟩

def toJson (dumps : Json → Text) (theVleTrial : VleTrial) : Text := dumps (toDict theVleTrial)

def fromJson (loads : Text → Option Json) (vleTrialJsonStr : Text) : Option VleTrial := do
  let vleTrialDict ← loads vleTrialJsonStr
  fromDict vleTrialDict

end VleTrial

/-! ### Dictionaries are read back -/

namespace Flow

/-- The flows that `add_path` builds. -/
inductive Built : Flow → Prop
  | new (sourceNode destinationNode rate variance actualTxRates : Json) :
      Built (new sourceNode destinationNode rate variance actualTxRates)
  | addPath {flow flow' : Flow} (nodes demandFraction : Json) (hflow : Built flow)
      (hadd : flow.addPath nodes demandFraction = some flow') : Built flow'

theorem addPath_eq_some_iff {flow flow' : Flow} {nodes demandFraction : Json} :
    flow.addPath nodes demandFraction = some flow' ↔ flow.isValidPath nodes = true ∧
      flow' = { flow with paths := flow.paths ++ [⟨nodes, demandFraction⟩] } := by
  rw [addPath]
  split
  · rename_i hvalid
    simp only [hvalid, Option.some.injEq, true_and]
    exact eq_comm
  · rename_i hvalid
    simp [hvalid]

/-- Every path of the flow passes the check of `add_path`. -/
theorem Built.isValidPath {flow : Flow} (h : Built flow) : ∀ path ∈ flow.paths, flow.isValidPath path.nodes = true := by
  induction h with
  | new =>
      intro path hpath
      cases hpath
  | addPath nodes demandFraction hflow hadd ih =>
      obtain ⟨hvalid, rfl⟩ := addPath_eq_some_iff.mp hadd
      intro path hpath
      rcases List.mem_append.mp hpath with hold | hnew
      · exact ih path hold
      · rw [List.mem_singleton.mp hnew]
        exact hvalid

theorem addPathJson_pathToJson {flow : Flow} {path : Path} (h : flow.isValidPath path.nodes = true) :
    flow.addPathJson (pathToJson path) = some { flow with paths := flow.paths ++ [path] } :=
  addPath_eq_some_iff.mpr ⟨h, rfl⟩

theorem foldlM_addPathJson {paths : List Path} (flow : Flow)
    (h : ∀ path ∈ paths, flow.isValidPath path.nodes = true) :
    (paths.map pathToJson).foldlM addPathJson flow = some { flow with paths := flow.paths ++ paths } := by
  induction paths generalizing flow with
  | nil => simp
  | cons path rest ih =>
      have hrest := ih { flow with paths := flow.paths ++ [path] } fun path' hpath' =>
        h path' (List.mem_cons_of_mem path hpath')
      rw [List.map_cons, List.foldlM_cons, addPathJson_pathToJson (h path List.mem_cons_self)]
      simpa using hrest

theorem fromJson_toDict {flow : Flow} (h : Built flow) : fromJson (toDict flow) = some flow :=
  foldlM_addPathJson (new flow.sourceNode flow.destinationNode flow.rate flow.variance flow.actualTxRates)
    h.isValidPath

end Flow

namespace Trial

/-- The trials that `add_flow` builds of flows built before. -/
inductive Built : Trial → Prop
  | new (seed solutionTime : Json) : Built (new seed solutionTime)
  | setSolutionTime {trial : Trial} (theTime : Json) (htrial : Built trial) : Built (trial.setSolutionTime theTime)
  | addFlow {trial trial' : Trial} {flow : Flow} (htrial : Built trial) (hflow : flow.Built)
      (hadd : trial.addFlow flow = some trial') : Built trial'

theorem addFlow_eq_some_iff {trial trial' : Trial} {flow : Flow} :
    trial.addFlow flow = some trial' ↔ flow.verifyFlow = some true ∧
      trial' = { trial with flows := trial.flows ++ [flow] } := by
  rw [addFlow]
  cases flow.verifyFlow with
  | none => simp
  | some verified =>
      cases verified with
      | false => simp
      | true =>
          simp only [Option.bind_eq_bind, Option.bind_some, if_true, Option.some.injEq, true_and]
          exact eq_comm

/-- Every flow of the trial is built of valid paths and passes the check of `add_flow`. -/
theorem Built.readable {trial : Trial} (h : Built trial) :
    ∀ flow ∈ trial.flows, flow.Built ∧ flow.verifyFlow = some true := by
  induction h with
  | new =>
      intro flow hflow
      cases hflow
  | setSolutionTime theTime htrial ih => exact ih
  | addFlow htrial hflow hadd ih =>
      obtain ⟨hverified, rfl⟩ := addFlow_eq_some_iff.mp hadd
      intro flow' hflow'
      rcases List.mem_append.mp hflow' with hold | hnew
      · exact ih flow' hold
      · rw [List.mem_singleton.mp hnew]
        exact ⟨hflow, hverified⟩

theorem addFlowJson_toDict {trial : Trial} {flow : Flow} (hflow : flow.Built)
    (hverified : flow.verifyFlow = some true) :
    trial.addFlowJson flow.toDict = some { trial with flows := trial.flows ++ [flow] } := by
  rw [addFlowJson, Flow.fromJson_toDict hflow]
  exact addFlow_eq_some_iff.mpr ⟨hverified, rfl⟩

theorem foldlM_addFlowJson {flows : List Flow} (trial : Trial)
    (h : ∀ flow ∈ flows, flow.Built ∧ flow.verifyFlow = some true) :
    (flows.map Flow.toDict).foldlM addFlowJson trial = some { trial with flows := trial.flows ++ flows } := by
  induction flows generalizing trial with
  | nil => simp
  | cons flow rest ih =>
      obtain ⟨hflow, hverified⟩ := h flow List.mem_cons_self
      have hrest := ih { trial with flows := trial.flows ++ [flow] } fun flow' hflow' =>
        h flow' (List.mem_cons_of_mem flow hflow')
      rw [List.map_cons, List.foldlM_cons, addFlowJson_toDict hflow hverified]
      simpa using hrest

theorem fromDict_toDict {trial : Trial} (h : Built trial) : fromDict (toDict trial) = some trial :=
  foldlM_addFlowJson (new trial.seed trial.solutionTime) h.readable

end Trial

theorem VleTrial.fromDict_toDict {vleTrial : VleTrial} (h : vleTrial.solverResults.Built) :
    fromDict (toDict vleTrial) = some vleTrial := by
  calc fromDict (toDict vleTrial) = (Trial.fromDict (Trial.toDict vleTrial.solverResults)).bind
        fun solverResults => some { vleTrial with solverResults := solverResults } := rfl
    _ = some vleTrial := by rw [Trial.fromDict_toDict h]; rfl

/-- A trial that was built is read back as it was written, from the dictionary and from its JSON text. -/
theorem trials_read_back :
    (∀ trial : Trial, trial.Built → Trial.fromDict (Trial.toDict trial) = some trial) ∧
    (∀ vleTrial : VleTrial, vleTrial.solverResults.Built →
      VleTrial.fromDict (VleTrial.toDict vleTrial) = some vleTrial) ∧
    (∀ (dumps : Json → Text) (loads : Text → Option Json) (trial : Trial), trial.Built →
      loads (dumps (Trial.toDict trial)) = some (Trial.toDict trial) →
      Trial.fromJson loads (Trial.toJson dumps trial) = some trial) ∧
    (∀ (dumps : Json → Text) (loads : Text → Option Json) (vleTrial : VleTrial), vleTrial.solverResults.Built →
      loads (dumps (VleTrial.toDict vleTrial)) = some (VleTrial.toDict vleTrial) →
      VleTrial.fromJson loads (VleTrial.toJson dumps vleTrial) = some vleTrial) := by
  refine ⟨fun trial => Trial.fromDict_toDict, fun vleTrial => VleTrial.fromDict_toDict, ?_, ?_⟩
  · intro dumps loads trial hbuilt hfaithful
    rw [Trial.fromJson, Trial.toJson, hfaithful]
    exact Trial.fromDict_toDict hbuilt
  · intro dumps loads vleTrial hbuilt hfaithful
    rw [VleTrial.fromJson, VleTrial.toJson, hfaithful]
    exact VleTrial.fromDict_toDict hbuilt

/-- A flow from node 1 to node 4 over two paths of `fraction` each. -/
def twoPaths (fraction : ℚ) : Flow where
  sourceNode := .num 1
  destinationNode := .num 4
  paths := [⟨.arr [.num 1, .num 2, .num 4], .num fraction⟩, ⟨.arr [.num 1, .num 3, .num 4], .num fraction⟩]
  rate := .num 10
  variance := .num 1
  actualTxRates := .arr [.num 9, .num 11]

theorem twoPaths_built (fraction : ℚ) : (twoPaths fraction).Built := by
  have hnew := Flow.Built.new (.num 1) (.num 4) (.num 10) (.num 1) (.arr [.num 9, .num 11])
  have hone := hnew.addPath (.arr [.num 1, .num 2, .num 4]) (.num fraction) rfl
  exact hone.addPath (.arr [.num 1, .num 3, .num 4]) (.num fraction) rfl

/-- The trial of the flow with half of its rate on either path. -/
def halvesTrial : Trial := ⟨[twoPaths (1 / 2)], .num 7, .num 3⟩

theorem halvesTrial_built : halvesTrial.Built :=
  (Trial.Built.new (.num 7) (.num 3)).addFlow (twoPaths_built (1 / 2)) (by
    refine Trial.addFlow_eq_some_iff.mpr ⟨?_, rfl⟩
    decide +kernel)

/-- What `json.dumps` writes for the dictionary of the trial. -/
def halvesText : Text :=
  "\x7b\"flows\": [\x7b\"source_node\": 1, \"destination_node\": 4, ".toList ++
    "\"paths\": [\x7b\"nodes\": [1, 2, 4], \"fraction\": 0.5\x7d, ".toList ++
    "\x7b\"nodes\": [1, 3, 4], \"fraction\": 0.5\x7d], ".toList ++
    "\"rate\": 10, \"variance\": 1, \"actual_tx_rates\": [9, 11]\x7d], ".toList ++
    "\"seed\": 7, \"solution-time\": 3\x7d".toList

/-- The solved trial with the rates that were measured. -/
def halvesVleTrial : VleTrial := ⟨.arr [.num 10], .arr [.num 1], .arr [.arr [.num 9, .num 11]], halvesTrial, .num 7⟩

/-- What `json.dumps` writes for the dictionary of the solved trial. -/
def halvesVleText : Text :=
  "\x7b\"mean-flow-tx-rates\": [10], \"std-dev-flow-tx-rates\": [1], ".toList ++
    "\"actual-flow-tx-rates\": [[9, 11]], \"solver-results\": ".toList ++ halvesText ++
    ", \"seed-number\": 7\x7d".toList

theorem trials_read_back_halves :
    Trial.fromDict (Trial.toDict halvesTrial) = some halvesTrial ∧
    VleTrial.fromDict (VleTrial.toDict halvesVleTrial) = some halvesVleTrial ∧
    Trial.fromJson (fun text => if text = halvesText then some (Trial.toDict halvesTrial) else none)
      (Trial.toJson (fun _ => halvesText) halvesTrial) = some halvesTrial ∧
    VleTrial.fromJson (fun text => if text = halvesVleText then some (VleTrial.toDict halvesVleTrial) else none)
      (VleTrial.toJson (fun _ => halvesVleText) halvesVleTrial) = some halvesVleTrial :=
  ⟨trials_read_back.1 _ halvesTrial_built, trials_read_back.2.1 _ halvesTrial_built,
    trials_read_back.2.2.1 _ _ _ halvesTrial_built (if_pos rfl),
    trials_read_back.2.2.2 _ _ _ halvesTrial_built (if_pos rfl)⟩

/-! ### What `add_flow` admits -/

/-- The splits add up to one. -/
def SplitsAddUp (total : ℚ) : Prop := |total - 1| < 1 / 10 ^ 10

def Flow.IsBalanced (flow : Flow) : Prop := ∃ total, flow.totalRateTransported = some total ∧ SplitsAddUp total

def Trial.IsBalanced (trial : Trial) : Prop := ∀ flow ∈ trial.flows, flow.IsBalanced

/-- Splits that may be offered: those that add up to one, and those that the tolerance of one still rejects. -/
def MayBeOffered (total : Option ℚ) : Prop := ∀ q, total = some q → 2 ≤ q ∨ SplitsAddUp q

namespace Trial

/-- A call of `add_flow` by a caller that goes on after an exception. -/
def offer (trial : Trial) (flow : Flow) : Trial := (trial.addFlow flow).getD trial

/-- A sequence of calls on a new trial. -/
def offerAll (seed solutionTime : Json) (offered : List Flow) : Trial := offered.foldl offer (new seed solutionTime)

/-- The flow entries of a trial's dictionary. -/
def flowEntries (trialDict : Json) : List Json := ((trialDict.get? "flows").bind Json.iter).getD []

end Trial

/-- The sum of the fractions that a flow's dictionary lists. -/
def fractionTotal (flowJson : Json) : Option ℚ := do
  let paths ← (← flowJson.get? "paths").iter
  let fractions ← paths.mapM fun path => (path.get? "fraction").bind Json.number
  return fractions.sum

theorem Flow.verifyFlow_eq_some_true_iff {flow : Flow} :
    flow.verifyFlow = some true ↔ ∃ total, flow.totalRateTransported = some total ∧ total < 2 := by
  rw [verifyFlow]
  cases flow.totalRateTransported with
  | none => simp
  | some total =>
      simp only [Option.bind_eq_bind, Option.bind_some, Option.pure_def, Option.some.injEq, decide_eq_true_eq,
        exists_eq_left', one_zpow]
      constructor <;> intro h <;> linarith

namespace Trial

theorem isBalanced_addFlow_iff {trial trial' : Trial} {flow : Flow} (h : trial.addFlow flow = some trial') :
    trial'.IsBalanced ↔ trial.IsBalanced ∧ MayBeOffered flow.totalRateTransported := by
  obtain ⟨hverified, rfl⟩ := addFlow_eq_some_iff.mp h
  obtain ⟨total, htotal, hlt⟩ := Flow.verifyFlow_eq_some_true_iff.mp hverified
  have hflow : flow.IsBalanced ↔ MayBeOffered flow.totalRateTransported := by
    simp only [Flow.IsBalanced, MayBeOffered, htotal, Option.some.injEq, exists_eq_left', forall_eq']
    exact ⟨Or.inr, fun hoffered => hoffered.resolve_left (not_le.mpr hlt)⟩
  rw [← hflow]
  exact List.forall_mem_append.trans (and_congr_right' (List.forall_mem_singleton))

theorem mayBeOffered_of_addFlow_eq_none {trial : Trial} {flow : Flow} (h : trial.addFlow flow = none) :
    MayBeOffered flow.totalRateTransported := by
  intro total htotal
  refine Or.inl (not_lt.mp fun hlt => ?_)
  have hverified := Flow.verifyFlow_eq_some_true_iff.mpr ⟨total, htotal, hlt⟩
  rw [addFlow_eq_some_iff.mpr ⟨hverified, rfl⟩] at h
  cases h

theorem isBalanced_offer_iff (trial : Trial) (flow : Flow) :
    (trial.offer flow).IsBalanced ↔ trial.IsBalanced ∧ MayBeOffered flow.totalRateTransported := by
  rw [offer]
  cases hadd : trial.addFlow flow with
  | none => exact (and_iff_left (mayBeOffered_of_addFlow_eq_none hadd)).symm
  | some trial' => exact isBalanced_addFlow_iff hadd

theorem isBalanced_new (seed solutionTime : Json) : (new seed solutionTime).IsBalanced :=
  fun _ hflow => absurd hflow (List.not_mem_nil)

theorem isBalanced_foldl_offer_iff (offered : List Flow) (trial : Trial) : (offered.foldl offer trial).IsBalanced ↔
    trial.IsBalanced ∧ ∀ flow ∈ offered, MayBeOffered flow.totalRateTransported := by
  induction offered generalizing trial with
  | nil => simp
  | cons flow rest ih => rw [List.foldl_cons, ih, isBalanced_offer_iff, List.forall_mem_cons, and_assoc]

end Trial

/-- The reader's flow has the splits its dictionary lists. -/
theorem Flow.totalRateTransported_of_fromJson {flowJson : Json} {flow : Flow} (h : fromJson flowJson = some flow) :
    flow.totalRateTransported = fractionTotal flowJson := by
  simp only [fromJson, Option.bind_eq_bind, Option.bind_eq_some_iff] at h
  obtain ⟨sourceNode, -, destinationNode, -, rate, -, variance, -, actualTxRates, -, pathsJson, hpaths, paths,
    hiter, hrun⟩ := h
  have hfractions : flow.paths.mapM (·.fraction.number) =
      paths.mapM fun path => (path.get? "fraction").bind Json.number := by
    refine foldlM_partial (fun done flow => flow.paths.mapM (·.fraction.number) =
      done.mapM fun path => (path.get? "fraction").bind Json.number) rfl ?_ hrun
    intro done pathJson rest flow flow' _ hdone hadd
    simp only [addPathJson, Option.bind_eq_bind, Option.bind_eq_some_iff] at hadd
    obtain ⟨nodes, -, fraction, hfraction, hadd⟩ := hadd
    obtain ⟨-, rfl⟩ := addPath_eq_some_iff.mp hadd
    simp only [List.mapM_append, List.mapM_cons, List.mapM_nil, hdone, hfraction, Option.bind_some]
  simp only [totalRateTransported, fractionTotal, hpaths, hiter, hfractions, Option.bind_eq_bind, Option.bind_some]

theorem Trial.isBalanced_fromDict_iff {trialDict : Json} {trial : Trial} (h : fromDict trialDict = some trial) :
    trial.IsBalanced ↔ ∀ flowJson ∈ flowEntries trialDict, MayBeOffered (fractionTotal flowJson) := by
  simp only [fromDict, Option.bind_eq_bind, Option.bind_eq_some_iff] at h
  obtain ⟨seed, -, solutionTime, -, flowsJson, hflows, flows, hiter, hrun⟩ := h
  have hentries : flowEntries trialDict = flows := by
    rw [flowEntries, hflows, Option.bind_some, hiter, Option.getD_some]
  rw [hentries]
  refine foldlM_partial (fun done trial => trial.IsBalanced ↔
    ∀ flowJson ∈ done, MayBeOffered (fractionTotal flowJson)) ?_ ?_ hrun
  · exact iff_of_true (isBalanced_new _ _) (fun _ hmem => absurd hmem List.not_mem_nil)
  · intro done flowJson rest trial trial' _ hdone hadd
    simp only [addFlowJson, Option.bind_eq_bind, Option.bind_eq_some_iff] at hadd
    obtain ⟨flow, hflow, hadd⟩ := hadd
    rw [isBalanced_addFlow_iff hadd, hdone, Flow.totalRateTransported_of_fromJson hflow, List.forall_mem_append,
      List.forall_mem_singleton]

theorem Trial.rejects_iff (trial : Trial) (flow : Flow) :
    (¬ flow.IsBalanced → trial.addFlow flow = none) ↔ MayBeOffered flow.totalRateTransported := by
  constructor
  · intro h
    by_cases hbalanced : flow.IsBalanced
    · obtain ⟨total, htotal, hsum⟩ := hbalanced
      intro q hq
      rw [htotal] at hq
      cases hq
      exact Or.inr hsum
    · exact mayBeOffered_of_addFlow_eq_none (h hbalanced)
  · intro hoffered hbalanced
    by_contra hadd
    obtain ⟨trial', htrial'⟩ := Option.ne_none_iff_exists'.mp hadd
    obtain ⟨hverified, -⟩ := addFlow_eq_some_iff.mp htrial'
    obtain ⟨total, htotal, hlt⟩ := Flow.verifyFlow_eq_some_true_iff.mp hverified
    exact hbalanced ⟨total, htotal, (hoffered total htotal).resolve_left (not_le.mpr hlt)⟩

/-- The splits of the stored flows add up to one exactly when no flow is offered whose splits sum to less than two
and do not add up: by calls of `add_flow`, in a dictionary that is read, and in a single call. -/
theorem splits_add_up_iff (seed solutionTime trialDict : Json) (offered : List Flow) (trial : Trial) (flow : Flow) :
    ((Trial.offerAll seed solutionTime offered).IsBalanced ↔
      ∀ flow ∈ offered, MayBeOffered flow.totalRateTransported) ∧
    (Trial.fromDict trialDict = some trial →
      (trial.IsBalanced ↔ ∀ flowJson ∈ Trial.flowEntries trialDict, MayBeOffered (fractionTotal flowJson))) ∧
    ((¬ flow.IsBalanced → trial.addFlow flow = none) ↔ MayBeOffered flow.totalRateTransported) := by
  refine ⟨?_, Trial.isBalanced_fromDict_iff, Trial.rejects_iff trial flow⟩
  rw [Trial.offerAll, Trial.isBalanced_foldl_offer_iff, and_iff_right (Trial.isBalanced_new seed solutionTime)]

theorem splits_add_up_iff_halves :
    Trial.fromDict (Trial.toDict halvesTrial) = some halvesTrial ∧
    (halvesTrial.IsBalanced ↔
      ∀ flowJson ∈ Trial.flowEntries (Trial.toDict halvesTrial), MayBeOffered (fractionTotal flowJson)) := by
  have hread := Trial.fromDict_toDict halvesTrial_built
  have hiff := splits_add_up_iff (.num 7) (.num 3) (Trial.toDict halvesTrial) [] halvesTrial (twoPaths (1 / 2))
  exact ⟨hread, hiff.2.1 hread⟩

/-- Two paths of a quarter each are admitted, and read back from the dictionary of the trial that holds them. -/
theorem half_of_the_rate_admitted :
    (∃ trial, (Trial.new (.num 7) (.num 3)).addFlow (twoPaths (1 / 4)) = some trial ∧ ¬ trial.IsBalanced) ∧
    ∃ trial, Trial.fromDict (Trial.toDict ⟨[twoPaths (1 / 4)], .num 7, .num 3⟩) = some trial ∧
      ¬ trial.IsBalanced := by
  have hadd : (Trial.new (.num 7) (.num 3)).addFlow (twoPaths (1 / 4)) =
      some ⟨[twoPaths (1 / 4)], .num 7, .num 3⟩ := by
    refine Trial.addFlow_eq_some_iff.mpr ⟨?_, rfl⟩
    decide +kernel
  have hunbalanced : ¬ (⟨[twoPaths (1 / 4)], .num 7, .num 3⟩ : Trial).IsBalanced := by
    intro hbalanced
    obtain ⟨total, htotal, hsum⟩ := hbalanced (twoPaths (1 / 4)) List.mem_cons_self
    have hhalf : (twoPaths (1 / 4)).totalRateTransported = some (1 / 2) := by decide +kernel
    rw [hhalf] at htotal
    cases htotal
    exact absurd hsum (by norm_num [SplitsAddUp])
  refine ⟨⟨_, hadd, hunbalanced⟩, _, Trial.fromDict_toDict ?_, hunbalanced⟩
  exact (Trial.Built.new (.num 7) (.num 3)).addFlow (twoPaths_built (1 / 4)) hadd

end OfTestbed.MpRouting
