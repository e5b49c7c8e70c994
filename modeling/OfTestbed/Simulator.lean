import OfTestbed.Attackers

/-!
`PathHoppingSimulation` (`path_hopping_simulator/simulator.py`). One `step` injects a message per flow,
moves every resident share one hop, lets the flows hop and then the attackers monitor and select.
Dictionaries and sets are walked in an order that is an argument of the step, and so are the
outcomes of the flows' `hop` and the attackers' `select_monitored_nodes`; `none` is a raised exception.
-/

namespace OfTestbed.Simulator

open Lib

/-- The state of a simulation. `deliveries` is a history variable: the `receive_share` calls made on
flows so far. No operation reads it. -/
structure PathHoppingSimulation where
  ticks : Nat
  nodes : Dict NodeId PathHoppingNode
  flows : Dict FlowId PathHoppingFlow
  attackers : List Attacker
  deliveries : Multiset PathHoppingShare

/-- The orders in which one step walks its dictionaries and sets. `moved` is the order in which the
pairs of `node_id_to_shares_to_inject` are injected. -/
structure StepOrder where
  flows : SetOrder FlowId
  nodes : SetOrder NodeId
  resident : NodeId → SetOrder PathHoppingShare
  moved : SetOrder (NodeId × PathHoppingShare)
  hopping : SetOrder FlowId
  monitoring : Nat → MonitorOrder

/-- An implementation of `select_monitored_nodes(nodes, flows, simulation_time)`. -/
abbrev Select := List NodeId → Dict FlowId PathHoppingFlow → Nat → Attacker → Option Attacker

/-- The state of the moving loop: the simulation and `node_id_to_shares_to_inject`, a defaultdict of sets,
as the set of its (key, member) pairs. -/
structure Moving where
  sim : PathHoppingSimulation
  toInject : Finset (NodeId × PathHoppingShare)

namespace PathHoppingSimulation

/-- `PathHoppingSimulation.create` followed by `add_attacker` for each attacker. -/
def create (graphNodes : List NodeId) (flows : List PathHoppingFlow) (attackers : List Attacker) :
    PathHoppingSimulation where
  ticks := 1
  nodes := Dict.ofList (graphNodes.map fun nodeId => (nodeId, PathHoppingNode.new nodeId))
  flows := Dict.ofList (flows.map fun flow => (flow.flowId, flow))
  attackers := attackers
  deliveries := 0

/-- The shares resident at a node, none at a node that does not exist. -/
def residentAt (sim : PathHoppingSimulation) (nodeId : NodeId) : Finset PathHoppingShare :=
  ((sim.nodes.get? nodeId).map PathHoppingNode.residentShares).getD ∅

/-- `self._nodes[node_id].receive_share(share)`. -/
def injectShare (sim : PathHoppingSimulation) (nodeId : NodeId) (share : PathHoppingShare) :
    Option PathHoppingSimulation := do
  let nodes ← sim.nodes.update? nodeId fun node => some (node.receiveShare share)
  return { sim with nodes := nodes }

/-- Create the next message of one flow and put its shares on the flow's source node. -/
def injectFlow (sim : PathHoppingSimulation) (flowId : FlowId) : Option PathHoppingSimulation := do
  let flow ← sim.flows.get? flowId
  let (sharesForFlow, flow') := flow.createShares
  let sim := { sim with flows := sim.flows.set flowId flow' }
  sharesForFlow.foldlM (fun sim share => sim.injectShare flow.sourceNode share) sim

/-- The first loop of `step`. -/
def injectPackets (sim : PathHoppingSimulation) (order : StepOrder) : Option PathHoppingSimulation :=
  (order.flows.list sim.flows.keySet).foldlM injectFlow sim

/-- `self._flows[share.flow_id].receive_share(share)`. -/
def deliver (sim : PathHoppingSimulation) (share : PathHoppingShare) : Option PathHoppingSimulation := do
  let flows ← sim.flows.update? share.flowId fun flow => flow.receiveShare share
  return { sim with flows := flows, deliveries := share ::ₘ sim.deliveries }

/-- One share of a node: deliver it at the end of its path, else note where it goes next. -/
def moveShare (node : PathHoppingNode) (moving : Moving) (share : PathHoppingShare) : Option Moving := do
  let flow ← moving.sim.flows.get? share.flowId
  let nextHop ← flow.getNextHopForShare share node
  if nextHop = -1 then
    return { moving with sim := ← moving.sim.deliver share }
  return { moving with toInject := insert (nextHop, share) moving.toInject }

/-- All shares of one node, then `clear_resident_packets`. -/
def moveNode (order : StepOrder) (moving : Moving) (nodeId : NodeId) : Option Moving := do
  let node ← moving.sim.nodes.get? nodeId
  let moving ← ((order.resident nodeId).list node.residentShares).foldlM (moveShare node) moving
  return { moving with
    sim := { moving.sim with nodes := moving.sim.nodes.set nodeId node.clearResidentPackets } }

/-- The second and third loop of `step`: collect the moves node by node, then inject them. -/
def movePackets (sim : PathHoppingSimulation) (order : StepOrder) : Option PathHoppingSimulation := do
  let moving ← (order.nodes.list sim.nodes.keySet).foldlM (moveNode order) ⟨sim, ∅⟩
  (order.moved.list moving.toInject).foldlM (fun sim move => sim.injectShare move.1 move.2) moving.sim

/-- `flow.hop()` for one flow. -/
def hopFlow (outcome : FlowId → List Nat) (sim : PathHoppingSimulation) (flowId : FlowId) :
    Option PathHoppingSimulation := do
  let flows ← sim.flows.update? flowId fun flow => flow.hop (outcome flowId)
  return { sim with flows := flows }

/-- The fourth loop of `step`. -/
def hopFlows (sim : PathHoppingSimulation) (order : StepOrder) (outcome : FlowId → List Nat) :
    Option PathHoppingSimulation :=
  (order.hopping.list sim.flows.keySet).foldlM (hopFlow outcome) sim

/-- What `step` does to the nodes and flows. -/
def advance (sim : PathHoppingSimulation) (order : StepOrder) (outcome : FlowId → List Nat) :
    Option PathHoppingSimulation := do
  let sim ← sim.injectPackets order
  let sim ← sim.movePackets order
  sim.hopFlows order outcome

/-- The turn of the attacker at position `idx`: monitor, then select. -/
def attackerTurn (sim : PathHoppingSimulation) (order : StepOrder) (select : Nat → Select)
    (attacker : Attacker) (idx : Nat) : Option Attacker := do
  let attacker ← attacker.monitor (order.monitoring idx) sim.nodes sim.flows
  select idx sim.nodes.keys sim.flows sim.ticks attacker

/-- The last loop of `step`. -/
def attack (sim : PathHoppingSimulation) (order : StepOrder) (select : Nat → Select) :
    Option PathHoppingSimulation := do
  let attackers ← sim.attackers.zipIdx.mapM fun (attacker, idx) =>
    sim.attackerTurn order select attacker idx
  return { sim with attackers := attackers }

def step (sim : PathHoppingSimulation) (order : StepOrder) (outcome : FlowId → List Nat)
    (select : Nat → Select) : Option PathHoppingSimulation := do
  let sim ← sim.advance order outcome
  let sim ← sim.attack order select
  return { sim with ticks := sim.ticks + 1 }

/-- `n` calls of `step`; the `t`-th call gets the `t`-th order and the `t`-th outcomes. -/
def run (sim : PathHoppingSimulation) (order : Nat → StepOrder) (outcome : Nat → FlowId → List Nat)
    (select : Nat → Select) : Nat → Option PathHoppingSimulation
  | 0 => some sim
  | n + 1 => do
      let sim ← run sim order outcome select n
      sim.step (order n) (outcome n) select

end PathHoppingSimulation

end OfTestbed.Simulator
