import OfTestbed.SimulatorOrder

/-!
The attackers' turn and the order of the sets it walks. The list of captured shares is the only thing
that remembers the order: with it erased, capturing is again a loop of commuting turns, and no
selection reads it. Together with the nodes and flows this gives order independence of the whole step.
-/

namespace OfTestbed.Simulator

open Lib

namespace Attacker

/-- The attacker without its captured shares. -/
def erase (attacker : Attacker) : Attacker := { attacker with capturedShares := [] }

/-- The first path of flow 0 through a node. -/
def pathThrough (flows : Dict FlowId PathHoppingFlow) (nodeId : NodeId) : Option Nat :=
  (flows.get? 0).bind fun flow => flow.paths.findIdx? (nodeId ∈ ·)

/-- What capturing at a node does to the class fields: `pathIdx` is the path through the node, and
`seen` says whether the node has a vulnerable share. -/
def visit (pathIdx : Option Nat) (seen : Bool) : AttackerClass → Option AttackerClass
  | .planned activePaths monitoredPaths hopIndex =>
      pathIdx.map fun idx =>
        .planned (if seen then insert idx activePaths else activePaths) (insert idx monitoredPaths) hopIndex
  | cls => some cls

def vulnerable (node : PathHoppingNode) : Bool :=
  decide (∃ share ∈ node.residentShares, share.sourceNode ≠ node.nodeId ∧ share.sinkNode ≠ node.nodeId)

theorem vulnerableShares_eq_nil_iff {node : PathHoppingNode} {order : SetOrder PathHoppingShare} :
    node.vulnerableShares order = [] ↔ vulnerable node = false := by
  simp only [vulnerable, decide_eq_false_iff_not, List.eq_nil_iff_forall_not_mem,
    PathHoppingNode.mem_vulnerableShares, not_exists]

theorem captureShares_erase (order : SetOrder PathHoppingShare) (flows : Dict FlowId PathHoppingFlow)
    (attacker : Attacker) (node : PathHoppingNode) :
    (captureShares order flows attacker node).map erase =
      (visit (pathThrough flows node.nodeId) (vulnerable node) attacker.cls).map fun cls =>
        { attacker.erase with cls := cls } := by
  obtain ⟨monitoredNodes, N, K, capturedShares, hopPeriod, hopCount, cls⟩ := attacker
  cases cls with
  | planned activePaths monitoredPaths hopIndex =>
      simp only [captureShares, visit, pathThrough]
      cases flows.get? 0 with
      | none => rfl
      | some flow =>
          cases hidx : flow.paths.findIdx? (node.nodeId ∈ ·) with
          | none => simp [hidx]
          | some idx =>
              by_cases hseen : vulnerable node = false
              · simp [hidx, erase, vulnerableShares_eq_nil_iff.mpr hseen, hseen]
              · simp [hidx, erase, mt vulnerableShares_eq_nil_iff.mp hseen,
                  Bool.eq_true_of_not_eq_false hseen]
  | _ => rfl

theorem visit_comm (pathIdx pathIdx' : Option Nat) (seen seen' : Bool) :
    StepsCommute (visit pathIdx seen) (visit pathIdx' seen') := by
  intro cls
  cases cls with
  | planned activePaths monitoredPaths hopIndex =>
      cases pathIdx with
      | none => cases pathIdx' <;> rfl
      | some idx =>
          cases pathIdx' with
          | none => rfl
          | some idx' => cases seen <;> cases seen' <;> simp [visit, Finset.insert_comm idx idx']
  | _ => rfl

/-- One turn of `monitor` on the attacker without captured shares. -/
def monitorNode (nodes : Dict NodeId PathHoppingNode) (flows : Dict FlowId PathHoppingFlow)
    (attacker : Attacker) (nodeId : NodeId) : Option Attacker :=
  (nodes.get? nodeId).bind fun node =>
    (visit (pathThrough flows node.nodeId) (vulnerable node) attacker.cls).map fun cls =>
      { attacker with cls := cls }

theorem monitorNode_comm (nodes : Dict NodeId PathHoppingNode) (flows : Dict FlowId PathHoppingFlow)
    (nodeId nodeId' : NodeId) :
    StepsCommute (monitorNode nodes flows · nodeId) (monitorNode nodes flows · nodeId') := by
  intro attacker
  unfold monitorNode
  cases nodes.get? nodeId with
  | none => cases nodes.get? nodeId' <;> simp
  | some node =>
      cases nodes.get? nodeId' with
      | none => simp
      | some node' =>
          simp only [Option.bind_some, Option.bind_map, Function.comp_def]
          exact (visit_comm (pathThrough flows node.nodeId) (pathThrough flows node'.nodeId) _ _).bind_map
            (fun cls => { attacker with cls := cls }) attacker.cls

theorem monitor_erase (order : MonitorOrder) (nodes : Dict NodeId PathHoppingNode)
    (flows : Dict FlowId PathHoppingFlow) (attacker : Attacker) :
    (order.monitored.list attacker.monitoredNodes).foldlM (monitorNode nodes flows) attacker.erase =
      (attacker.monitor order nodes flows).map erase := by
  apply foldlM_hom erase
  intro nodeId _ attacker
  unfold monitorNode
  cases nodes.get? nodeId with
  | none => rfl
  | some node => exact (captureShares_erase (order.resident nodeId) flows attacker node).symm

theorem monitor_congr (order order' : MonitorOrder) (nodes : Dict NodeId PathHoppingNode)
    (flows : Dict FlowId PathHoppingFlow) (attacker : Attacker) :
    (attacker.monitor order nodes flows).map erase = (attacker.monitor order' nodes flows).map erase := by
  rw [← monitor_erase, ← monitor_erase]
  exact foldlM_perm (order.monitored.perm order'.monitored _) (monitorNode_comm nodes flows) attacker.erase

/-- No class looks at the captured shares when it selects. -/
theorem selectMonitoredNodes_erase (draws : Draws) (nodes : List NodeId)
    (flows : Dict FlowId PathHoppingFlow) (simulationTime : Nat) (attacker : Attacker) :
    (attacker.selectMonitoredNodes draws nodes flows simulationTime).map erase =
      (attacker.erase.selectMonitoredNodes draws nodes flows simulationTime).map erase := by
  obtain ⟨monitoredNodes, N, K, capturedShares, hopPeriod, hopCount, cls⟩ := attacker
  cases cls with
  | randomNodeHopping nodeCollection =>
      simp [selectMonitoredNodes, selectRandomNodes, isHopTime, hopTo, erase, Option.map_bind,
        Function.comp_def, apply_ite (Option.map erase)]
      rfl
  | randomPathHopping nodeCollection =>
      simp [selectMonitoredNodes, selectRandomPaths, isHopTime, hopTo, erase, Option.map_bind,
        Function.comp_def, apply_ite (Option.map erase)]
      rfl
  | idealRandomPathHopping pathCollection =>
      simp [selectMonitoredNodes, selectIdealRandomPaths, isHopTime, hopTo, erase, Option.map_bind,
        Function.comp_def, apply_ite (Option.map erase)]
      rfl
  | oneNodePerPath pathCollection =>
      by_cases hhop : simulationTime &&& hopPeriod = 0
      · simp [selectMonitoredNodes, selectOneNodePerPath, hopTo, erase, Option.map_bind, Function.comp_def, hhop]
      · simp [selectMonitoredNodes, selectOneNodePerPath, erase, Option.map_bind, Function.comp_def, hhop]
  | fixed pathCollection =>
      cases pathCollection <;>
        simp [selectMonitoredNodes, selectFixed, erase, Option.map_bind, Function.comp_def]
  | planned activePaths monitoredPaths hopIndex =>
      simp only [selectMonitoredNodes, selectPlanned, isHopTime, erase, Option.bind_eq_bind, Option.map_bind,
        Function.comp_def, Option.pure_def]
      congr 1
      funext targetFlow
      congr 1
      funext hopTime
      cases hopTime with
      | false => rfl
      | true =>
          simp only [if_true, Option.map_bind, Function.comp_def]
          congr 1
          funext longest
          congr 1
          funext nodesAtHop
          congr 1
          funext alreadyMonitored
          by_cases hfew : (nodesAtHop.toFinset \ alreadyMonitored.toFinset).card ≤ K
          · simp [hfew, erase]
            exact ⟨rfl, rfl, rfl⟩
          · simp [hfew, Option.map_bind, Function.comp_def, erase]
            rfl
  | total =>
      by_cases hnone : monitoredNodes = ∅
      · simp [selectMonitoredNodes, selectTotal, erase, Option.map_bind, Function.comp_def, hnone]
      · simp [selectMonitoredNodes, selectTotal, erase, hnone]

/-- The whole turn of an attacker, up to the order of its captured shares. -/
theorem turn_congr (order order' : MonitorOrder) (draws : Draws) (nodes : Dict NodeId PathHoppingNode)
    (flows : Dict FlowId PathHoppingFlow) (simulationTime : Nat) (attacker : Attacker) :
    ((attacker.monitor order nodes flows).bind
        (selectMonitoredNodes draws nodes.keys flows simulationTime)).map erase =
      ((attacker.monitor order' nodes flows).bind
        (selectMonitoredNodes draws nodes.keys flows simulationTime)).map erase := by
  have hturn : ∀ monitored : Option Attacker,
      (monitored.bind (selectMonitoredNodes draws nodes.keys flows simulationTime)).map erase =
        (monitored.map erase).bind fun attacker =>
          (attacker.selectMonitoredNodes draws nodes.keys flows simulationTime).map erase := by
    intro monitored
    cases monitored with
    | none => rfl
    | some attacker => exact selectMonitoredNodes_erase draws nodes.keys flows simulationTime attacker
  rw [hturn, hturn, monitor_congr order order']

end Attacker

namespace PathHoppingSimulation

/-- The simulation without the attackers' captured shares. -/
def eraseCaptured (sim : PathHoppingSimulation) : PathHoppingSimulation :=
  { sim with attackers := sim.attackers.map Attacker.erase }

theorem attack_congr (sim : PathHoppingSimulation) (order order' : StepOrder) (draws : Nat → Draws) :
    (sim.attack order fun idx => Attacker.selectMonitoredNodes (draws idx)).map eraseCaptured =
      (sim.attack order' fun idx => Attacker.selectMonitoredNodes (draws idx)).map eraseCaptured := by
  have hread : ∀ result : Option (List Attacker),
      (result.bind fun attackers => some { sim with attackers := attackers }).map eraseCaptured =
        (result.map (List.map Attacker.erase)).map fun attackers => { sim with attackers := attackers } := by
    intro result
    cases result with
    | none => rfl
    | some attackers => rfl
  rw [attack, attack, Option.bind_eq_bind, Option.pure_def, hread, hread]
  congr 1
  apply mapM_map_congr
  rintro ⟨attacker, idx⟩
  exact Attacker.turn_congr (order.monitoring idx) (order'.monitoring idx) (draws idx) sim.nodes sim.flows
    sim.ticks attacker

/-- A step with the repository's attackers ends, in every order, in the same state up to the order of the
captured shares, or raises in every order. -/
theorem step_congr (sim : PathHoppingSimulation) (order order' : StepOrder)
    (outcome : FlowId → List Nat) (draws : Nat → Draws) :
    (sim.step order outcome fun idx => Attacker.selectMonitoredNodes (draws idx)).map eraseCaptured =
      (sim.step order' outcome fun idx => Attacker.selectMonitoredNodes (draws idx)).map eraseCaptured := by
  have hstep : ∀ order : StepOrder,
      (sim.step order outcome fun idx => Attacker.selectMonitoredNodes (draws idx)).map eraseCaptured =
        (sim.advance order outcome).bind fun moved =>
          ((moved.attack order fun idx => Attacker.selectMonitoredNodes (draws idx)).map eraseCaptured).map
            fun s => { s with ticks := s.ticks + 1 } := by
    intro order
    rw [step]
    cases sim.advance order outcome with
    | none => rfl
    | some moved =>
        simp only [Option.bind_eq_bind, Option.bind_some]
        cases moved.attack order fun idx => Attacker.selectMonitoredNodes (draws idx) <;> rfl
  rw [hstep, hstep, advance_congr sim order order' outcome]
  congr 1
  funext moved
  rw [attack_congr moved order order' draws]

/-- The nodes with their resident shares and the flows with their counters after `step` are the same
whatever order flows, nodes and resident shares are processed in. -/
theorem step_nodes_flows_order_irrelevant (sim : PathHoppingSimulation) (order order' : StepOrder)
    (outcome : FlowId → List Nat) (draws : Nat → Draws) :
    (sim.step order outcome fun idx => Attacker.selectMonitoredNodes (draws idx)).map
        (fun s => (s.nodes, s.flows)) =
      (sim.step order' outcome fun idx => Attacker.selectMonitoredNodes (draws idx)).map
        fun s => (s.nodes, s.flows) := by
  have hread : (fun s : PathHoppingSimulation => (s.nodes, s.flows)) =
      (fun s => (s.nodes, s.flows)) ∘ eraseCaptured := rfl
  rw [hread, ← Option.map_map, ← Option.map_map, step_congr sim order order' outcome draws]

end PathHoppingSimulation

end OfTestbed.Simulator
