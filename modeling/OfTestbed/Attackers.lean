import Mathlib.Data.Finset.Card
import Mathlib.Data.List.Sort
import OfTestbed.LibGroup
import OfTestbed.SimulatorCore

/-!
The attackers of the path hopping simulator (`path_hopping_simulator/attackers.py`). The subclasses of
`Attacker` are the constructors of `AttackerClass`, each with the fields its subclass adds; the methods
that subclasses override dispatch on it. Draws of `np.random.choice` are arguments, as the indices
drawn.
-/

namespace OfTestbed.Simulator

open Lib

inductive AttackerClass where
  | randomNodeHopping (nodeCollection : Option (List NodeId))
  | randomPathHopping (nodeCollection : Option (List NodeId))
  | idealRandomPathHopping (pathCollection : Option (List Path))
  | oneNodePerPath (pathCollection : Option (List Path))
  | fixed (pathCollection : Option (List Path))
  | planned (activePaths monitoredPaths : Finset Nat) (hopIndex : Nat)
  | total
  deriving DecidableEq

structure Attacker where
  monitoredNodes : Finset NodeId
  N : Nat
  K : Nat
  capturedShares : List PathHoppingShare
  hopPeriod : Nat
  hopCount : Nat
  cls : AttackerClass
  deriving DecidableEq

/-- The orders in which `monitor` walks the monitored nodes and their resident sets. -/
structure MonitorOrder where
  monitored : SetOrder NodeId
  resident : NodeId → SetOrder PathHoppingShare

/-- The draws of one call of `select_monitored_nodes`: the indices drawn without replacement, one further
index per path drawn, and the order in which a set is turned into the list that is drawn from. -/
structure Draws where
  sample : List Nat
  picks : List Nat
  setOrder : SetOrder NodeId

/-- `np.random.choice(population, k, replace=False)` with the indices it draws: it raises when the
population is too small. -/
def choiceWithoutReplacement {α : Type} (population : List α) (k : Nat) (sample : List Nat) :
    Option (List α) :=
  if k ≤ population.length then sample.mapM fun idx => population[idx]? else none

/-- `{np.random.choice(p_i) for p_i in paths}` with one drawn index per path: it raises on an empty
path. -/
def chooseOnePerPath (paths : List Path) (picks : List Nat) : Option (List NodeId) :=
  (paths.zip picks).mapM fun (path, pick) => path[pick]?

namespace Attacker

/-- An attacker as the constructor of its class makes it. -/
def new (N K hopPeriod : Nat) (cls : AttackerClass) : Attacker where
  monitoredNodes := ∅
  N := N
  K := K
  capturedShares := []
  hopPeriod := hopPeriod
  hopCount := 0
  cls := cls

/-- `capture_shares`. `PlannedAttacker` also records the first path of flow 0 that visits the node, and
raises when there is none. -/
def captureShares (order : SetOrder PathHoppingShare) (flows : Dict FlowId PathHoppingFlow)
    (attacker : Attacker) (node : PathHoppingNode) : Option Attacker :=
  let shares := node.vulnerableShares order
  match attacker.cls with
  | .planned activePaths monitoredPaths hopIndex => do
      let flow ← flows.get? 0
      let pathIdxForNode ← flow.paths.findIdx? (node.nodeId ∈ ·)
      return { attacker with
        cls := .planned (if shares = [] then activePaths else insert pathIdxForNode activePaths)
          (insert pathIdxForNode monitoredPaths) hopIndex
        capturedShares := attacker.capturedShares ++ shares }
  | _ => some { attacker with capturedShares := attacker.capturedShares ++ shares }

/-- `monitor`: capture the vulnerable shares of every monitored node; a monitored node that does not
exist raises. -/
def monitor (order : MonitorOrder) (nodes : Dict NodeId PathHoppingNode)
    (flows : Dict FlowId PathHoppingFlow) (attacker : Attacker) : Option Attacker :=
  (order.monitored.list attacker.monitoredNodes).foldlM (fun attacker nodeId => do
    let node ← nodes.get? nodeId
    captureShares (order.resident nodeId) flows attacker node) attacker

/-- `reconstruct_captured_messages`: sort by sequence number, group, and keep the sequence numbers
whose group has `K` distinct share numbers. -/
def reconstructCapturedMessages (attacker : Attacker) : List Nat :=
  ((groupby PathHoppingShare.seqNum (sortedBy PathHoppingShare.seqNum attacker.capturedShares)).filter
    fun (_, shareGroup) => (shareGroup.map PathHoppingShare.shareNum).toFinset.card = attacker.K).map
    Prod.fst

/-- Interior nodes of a path, `p_i[1:-1]`. -/
def interior (path : Path) : Path := path.tail.dropLast

/-- Replace the monitored nodes and count the hop. -/
def hopTo (attacker : Attacker) (nodes : List NodeId) : Attacker :=
  { attacker with monitoredNodes := nodes.toFinset, hopCount := attacker.hopCount + 1 }

/-- `simulation_time % hop_period == 0`, which raises for a zero period. -/
def isHopTime (attacker : Attacker) (simulationTime : Nat) : Option Bool :=
  if attacker.hopPeriod = 0 then none else some (simulationTime % attacker.hopPeriod = 0)

/-- The nodes a `RandomNodeHoppingAttacker` draws from: all but the end points of flow 0, built on the
first call. -/
def candidateNodes (nodes : List NodeId) (flows : Dict FlowId PathHoppingFlow) :
    Option (List NodeId) → Option (List NodeId)
  | some nodeCollection => some nodeCollection
  | none => do
      let targetFlow ← flows.get? 0
      return (nodes.filter fun n => n ≠ targetFlow.sourceNode ∧ n ≠ targetFlow.sinkNode).insertionSort
        (· ≤ ·)

/-- `select_monitored_nodes` of `RandomNodeHoppingAttacker`. -/
def selectRandomNodes (draws : Draws) (nodes : List NodeId) (flows : Dict FlowId PathHoppingFlow)
    (simulationTime : Nat) (nodeCollection : Option (List NodeId)) (attacker : Attacker) :
    Option Attacker := do
  let nodeCollection ← candidateNodes nodes flows nodeCollection
  let attacker := { attacker with cls := .randomNodeHopping (some nodeCollection) }
  if ← attacker.isHopTime simulationTime then
    return attacker.hopTo (← choiceWithoutReplacement nodeCollection attacker.K draws.sample)
  return attacker

/-- `select_monitored_nodes` of `RandomPathHoppingAttacker`. -/
def selectRandomPaths (draws : Draws) (flows : Dict FlowId PathHoppingFlow) (simulationTime : Nat)
    (nodeCollection : Option (List NodeId)) (attacker : Attacker) : Option Attacker := do
  let flow ← flows.get? 0
  let nodeCollection := nodeCollection.getD
    (flow.paths.filterMap fun path => if path.length ≤ 2 then none else path[1]?)
  let nodeCollection := nodeCollection.insertionSort (· ≤ ·)
  let attacker := { attacker with cls := .randomPathHopping (some nodeCollection) }
  if ← attacker.isHopTime simulationTime then
    return attacker.hopTo (← choiceWithoutReplacement nodeCollection attacker.K draws.sample)
  return attacker

/-- `select_monitored_nodes` of `IdealRandomPathHoppingAttacker`. -/
def selectIdealRandomPaths (draws : Draws) (flows : Dict FlowId PathHoppingFlow) (simulationTime : Nat)
    (pathCollection : Option (List Path)) (attacker : Attacker) : Option Attacker := do
  let targetFlow ← flows.get? 0
  let pathCollection := pathCollection.getD (targetFlow.paths.map interior)
  let attacker := { attacker with cls := .idealRandomPathHopping (some pathCollection) }
  if ← attacker.isHopTime simulationTime then
    let monitoredPaths ← choiceWithoutReplacement pathCollection attacker.K draws.sample
    return attacker.hopTo monitoredPaths.flatten
  return attacker

/-- `select_monitored_nodes` of `OneNodePerPathAttacker`, whose test is `simulation_time & hop_period == 0`. -/
def selectOneNodePerPath (draws : Draws) (flows : Dict FlowId PathHoppingFlow) (simulationTime : Nat)
    (pathCollection : Option (List Path)) (attacker : Attacker) : Option Attacker := do
  let targetFlow ← flows.get? 0
  let pathCollection := pathCollection.getD (targetFlow.paths.map interior)
  let attacker := { attacker with cls := .oneNodePerPath (some pathCollection) }
  if simulationTime &&& attacker.hopPeriod = 0 then
    let kPaths ← choiceWithoutReplacement pathCollection attacker.K draws.sample
    return attacker.hopTo (← chooseOnePerPath kPaths draws.picks)
  return attacker

/-- `select_monitored_nodes` of `FixedAttacker`: the first call draws, later calls change nothing. -/
def selectFixed (draws : Draws) (flows : Dict FlowId PathHoppingFlow)
    (pathCollection : Option (List Path)) (attacker : Attacker) : Option Attacker := do
  let targetFlow ← flows.get? 0
  match pathCollection with
  | some _ => return attacker
  | none =>
      let pathCollection := targetFlow.paths.map interior
      let kPaths ← choiceWithoutReplacement pathCollection attacker.K draws.sample
      let monitoredNodes ← chooseOnePerPath kPaths draws.picks
      return { attacker with
        cls := .fixed (some pathCollection), monitoredNodes := monitoredNodes.toFinset, hopCount := 1 }

/-- The planned attacker starts over when it has walked past the end of the longest path or has
monitored all `N` paths. -/
def planIsExhausted (longest N hopIndex : Nat) (monitoredPaths : Finset Nat) : Bool :=
  longest ≤ hopIndex || monitoredPaths.card = N

/-- `select_monitored_nodes` of `PlannedAttacker`. It reads the flows it was created with, which are the
objects of the simulation, and never counts a hop. -/
def selectPlanned (draws : Draws) (flows : Dict FlowId PathHoppingFlow) (simulationTime : Nat)
    (activePaths monitoredPaths : Finset Nat) (hopIndex : Nat) (attacker : Attacker) :
    Option Attacker := do
  let targetFlow ← flows.get? 0
  if ← attacker.isHopTime simulationTime then
    let longest ← (targetFlow.paths.map List.length).max?
    let reset := planIsExhausted longest attacker.N hopIndex monitoredPaths
    let hopIndex := if reset then 1 else hopIndex
    let activePaths := if reset then ∅ else activePaths
    let monitoredPaths := if reset then ∅ else monitoredPaths
    let nodesAtHop ← targetFlow.paths.mapM fun path => path[hopIndex]?
    let alreadyMonitored ← (List.range targetFlow.paths.length).filter (· ∈ monitoredPaths) |>.mapM
      fun pathIdx => do (← targetFlow.paths[pathIdx]?)[hopIndex]?
    let possibleNodes := nodesAtHop.toFinset \ alreadyMonitored.toFinset
    let attacker := { attacker with cls := .planned activePaths monitoredPaths (hopIndex + 1) }
    if possibleNodes.card ≤ attacker.K then
      return { attacker with monitoredNodes := possibleNodes }
    let drawn ← choiceWithoutReplacement (draws.setOrder.list possibleNodes) attacker.K draws.sample
    return { attacker with monitoredNodes := drawn.toFinset }
  return { attacker with cls := .planned activePaths monitoredPaths (hopIndex + 1) }

/-- `select_monitored_nodes` of `TotalAttacker`. -/
def selectTotal (flows : Dict FlowId PathHoppingFlow) (attacker : Attacker) : Option Attacker := do
  if attacker.monitoredNodes = ∅ then
    let targetFlow ← flows.get? 0
    let secondNodes ← targetFlow.paths.mapM fun path => path[1]?
    return { attacker with monitoredNodes := secondNodes.toFinset }
  return attacker

/-- `select_monitored_nodes`, dispatched on the class. -/
def selectMonitoredNodes (draws : Draws) (nodes : List NodeId) (flows : Dict FlowId PathHoppingFlow)
    (simulationTime : Nat) (attacker : Attacker) : Option Attacker :=
  match attacker.cls with
  | .randomNodeHopping nodeCollection =>
      attacker.selectRandomNodes draws nodes flows simulationTime nodeCollection
  | .randomPathHopping nodeCollection =>
      attacker.selectRandomPaths draws flows simulationTime nodeCollection
  | .idealRandomPathHopping pathCollection =>
      attacker.selectIdealRandomPaths draws flows simulationTime pathCollection
  | .oneNodePerPath pathCollection =>
      attacker.selectOneNodePerPath draws flows simulationTime pathCollection
  | .fixed pathCollection => attacker.selectFixed draws flows pathCollection
  | .planned activePaths monitoredPaths hopIndex =>
      attacker.selectPlanned draws flows simulationTime activePaths monitoredPaths hopIndex
  | .total => attacker.selectTotal flows

/-- The `create` methods: build the attacker and let it select once, at time 1; the planned attacker
selects at time 0. -/
def create (draws : Draws) (N K : Nat) (graphNodes : List NodeId) (flows : Dict FlowId PathHoppingFlow)
    (hopPeriod : Nat) (cls : AttackerClass) : Option Attacker :=
  let simulationTime := match cls with
    | .planned _ _ _ => 0
    | _ => 1
  (new N K hopPeriod cls).selectMonitoredNodes draws graphNodes flows simulationTime

end Attacker

end OfTestbed.Simulator
