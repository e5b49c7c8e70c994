import OfTestbed.LibDict
import OfTestbed.LibGroup
import OfTestbed.LibLinear
import OfTestbed.LibNetflow
import OfTestbed.FlowAllocationCore

/-!
The multi-commodity flow allocator: the linear model `create_mcf_model` gives the solver, and the routes
`compute_mcf_flow_routes` reads off a solution. `graph` is the undirected topology, its arcs are the
links of `nx.DiGraph(graph)`. The `while` loop of `traverse_graph_iterative` has fuel, and `none` is an exception
or a loop that has not ended yet.
-/

namespace OfTestbed.FlowAllocation

open Lib

/-! ### The model -/

inductive McfVar where
  | F (flowIdx : Nat) (sourceNode destinationNode : NodeId)
  | alpha
  deriving DecidableEq

/-- `flows + [new_flow]`; the new flow has no paths yet. -/
def potentialFlowSet (flows : List Flow) (newFlowSourceNode newFlowDestinationNode : NodeId)
    (newFlowTxRate : ℚ) : List Flow :=
  flows ++ [{ sourceNode := newFlowSourceNode, destinationNode := newFlowDestinationNode,
              flowTxRate := newFlowTxRate, paths := [], splittingRatio := [] }]

/-- The keys of `F`. -/
def flowKeys (graph : Graph) (flowCount : Nat) : List (Nat × NodeId × NodeId) :=
  (List.range flowCount).flatMap fun flowIdx => graph.arcs.map fun (u, v) => (flowIdx, u, v)

def egressFlow (graph : Graph) (flowIdx : Nat) (u : NodeId) : LinExpr McfVar :=
  .sum ((graph.neighbors u).map fun v => .ofVar (.F flowIdx u v))

def ingressFlow (graph : Graph) (flowIdx : Nat) (u : NodeId) : LinExpr McfVar :=
  .sum ((graph.neighbors u).map fun v => .ofVar (.F flowIdx v u))

def conservationConstr (graph : Graph) (flowIdx : Nat) (flow : Flow) (u : NodeId) : LinConstr McfVar :=
  if u = flow.sourceNode then
    ⟨egressFlow graph flowIdx u - ingressFlow graph flowIdx u, .eq, .ofConst 1⟩
  else if u = flow.destinationNode then
    ⟨ingressFlow graph flowIdx u - egressFlow graph flowIdx u, .eq, .ofConst 1⟩
  else
    ⟨ingressFlow graph flowIdx u - egressFlow graph flowIdx u, .eq, .ofConst 0⟩

def conservationConstrs (graph : Graph) (flows : List Flow) : List (LinConstr McfVar) :=
  flows.zipIdx.flatMap fun (flow, flowIdx) => graph.nodes.map (conservationConstr graph flowIdx flow)

/-- `U` of a link: what the flows put on it, in one direction. -/
def linkUtilization (flows : List Flow) (link : NodeId × NodeId) : LinExpr McfVar :=
  .sum (flows.zipIdx.map fun (flow, flowIdx) => (LinExpr.ofVar (.F flowIdx link.1 link.2)).scale flow.flowTxRate)

def capacityConstr (flows : List Flow) (link : NodeId × NodeId) : LinConstr McfVar :=
  ⟨linkUtilization flows link + linkUtilization flows link.swap, .le, (LinExpr.ofVar .alpha).scale linkCapacity⟩

def createMcfModel (graph : Graph) (flows : List Flow) (newFlowSourceNode newFlowDestinationNode : NodeId)
    (newFlowTxRate : ℚ) : LinModel McfVar :=
  let flowSet := potentialFlowSet flows newFlowSourceNode newFlowDestinationNode newFlowTxRate
  { vars := (flowKeys graph flowSet.length).map (fun (flowIdx, u, v) => (McfVar.F flowIdx u v, ({} : VarDecl))) ++
      [(.alpha, { ub := some 1 })]
    constrs := conservationConstrs graph flowSet ++
      (graph.arcs.map sortedLink).dedup.map (capacityConstr flowSet) }

/-- `{k: v.x for k, v in F.items()}`. -/
def feasibleAllocations (graph : Graph) (flowCount : Nat) (x : McfVar → ℚ) : Dict (Nat × NodeId × NodeId) ℚ :=
  .ofList ((flowKeys graph flowCount).map fun (flowIdx, u, v) => ((flowIdx, u, v), x (.F flowIdx u v)))

/-! ### Routes -/

def getPathsForFlow (F : Dict (Nat × NodeId × NodeId) ℚ) (s : NodeId) (f : Nat) :
    List ((NodeId × NodeId) × ℚ) :=
  F.entries.filterMap fun ((flowId, u, v), splitRatio) =>
    if flowId = f ∧ u = s ∧ 1 / 1000 < splitRatio then some ((u, v), splitRatio) else none

/-- One turn of the inner loop; the state are the complete and the incomplete paths. -/
def visitHop (t : NodeId) (currentPath : Path) (currentSr : ℚ)
    (paths : List (Path × ℚ) × List (Path × ℚ)) (hop : (NodeId × NodeId) × ℚ) :
    List (Path × ℚ) × List (Path × ℚ) :=
  let ((_, v), sr) := hop
  if v ∈ currentPath then paths
  else
    let newPath := currentPath ++ [v]
    let newSr := if sr < currentSr then sr else currentSr
    if v = t then (paths.1 ++ [(newPath, newSr)], paths.2) else (paths.1, paths.2 ++ [(newPath, newSr)])

def traverseLoop (F : Dict (Nat × NodeId × NodeId) ℚ) (f : Nat) (t : NodeId) :
    Nat → List (Path × ℚ) → List (Path × ℚ) → Option (List (Path × ℚ))
  | _, pathsFromSToT, [] => some pathsFromSToT
  | 0, _, _ :: _ => none
  | fuel + 1, pathsFromSToT, (currentPath, currentSr) :: incompletePaths => do
      let u ← currentPath.getLast?
      let (pathsFromSToT, incompletePaths) :=
        (getPathsForFlow F u f).foldl (visitHop t currentPath currentSr) (pathsFromSToT, incompletePaths)
      traverseLoop F f t fuel pathsFromSToT incompletePaths

def traverseGraphIterative (fuel : Nat) (F : Dict (Nat × NodeId × NodeId) ℚ) (f : Nat) (s t : NodeId) :
    Option (List (Path × ℚ)) :=
  traverseLoop F f t fuel [] [([s], 1)]

def computeMcfFlowRoutes (fuel : Nat) (flows : List Flow) (F : Dict (Nat × NodeId × NodeId) ℚ) :
    Option (List Flow) :=
  (groupby Prod.fst (sortedBy Prod.fst F.keys)).mapM fun (flowIdx, _) => do
    let theFlow ← flows[flowIdx]?
    let routes ← traverseGraphIterative fuel F flowIdx theFlow.sourceNode theFlow.destinationNode
    return { theFlow with paths := routes.map Prod.fst, splittingRatio := routes.map Prod.snd }

end OfTestbed.FlowAllocation
