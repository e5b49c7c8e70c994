import Mathlib.Data.List.Forall2
import OfTestbed.MirroringNetwork

/-!
The two ways in which the flows and the mirrored ports of a trial reach the network: `map_to_physical_network` of
`trials/port_mirroring_trial.py`, which gives a trial in the words of the network, and the request of
`create_add_port_mirroring_rules_request_json` in `port_mirroring/onos_rest_helpers.py`, which goes to the controller.
Both translate port ids through the same table, each in its own loops.
-/

namespace OfTestbed.PortMirroring

open Lib

/-- A flow by datapath ids and port numbers. -/
structure PhysicalFlow where
  flowId : Int
  trafficRate : ℚ
  hops : List (Text × Int)
  deriving DecidableEq

namespace PhysicalFlow

def path (flow : PhysicalFlow) : List Text := flow.hops.map Prod.fst

def ports (flow : PhysicalFlow) : List Int := flow.hops.map Prod.snd

end PhysicalFlow

structure PhysicalSolution where
  mirrorSwitchId : Text
  mirrorSwitchPort : Int
  objectiveValue : FloatValue
  deriving DecidableEq

/-- The body of `json.dumps` in the request for a flow. -/
structure RulesRequest where
  flowRoute : List Text
  portNumbers : List Int
  tagValue : Int
  mirroredPorts : Dict Text (List Int)

section Translation

variable (onos : Onos) (idToDpid : Dict Int Text) (portIdsToPortNumbers : Dict Int (Dict Int Int))

/-- One turn of the loop over the flows. -/
def mapFlow (flowId : Int) (flow : PortMirroringFlow) : Option PhysicalFlow := do
  let newPath ← flow.path.mapM idToDpid.get?
  let newPorts ← (flow.path.dropLast.zip flow.ports.dropLast).mapM fun hop => portIdsToPortNumbers.get2? hop.1 hop.2
  let zippedPath := newPath.zip newPorts
  let lastHop ← flow.path.getLast?
  let lastHopSwitchDpid ← idToDpid.get? lastHop
  let lastHopEgressPort ← onos.getHostPort lastHopSwitchDpid
  return ⟨flowId, flow.trafficRate, zippedPath ++ [(lastHopSwitchDpid, lastHopEgressPort)]⟩

/-- One turn of the loop over the solutions. -/
def mapSolution (solution : Solution) : Option PhysicalSolution := do
  let newMirrorSwitchId ← idToDpid.get? solution.mirrorSwitchId
  let newMirrorSwitchPort ← portIdsToPortNumbers.get2? solution.mirrorSwitchId solution.mirrorSwitchPort
  return ⟨newMirrorSwitchId, newMirrorSwitchPort, solution.objectiveValue⟩

def createPortNumbersJson (flowDef : PortMirroringFlow) : Option (List Int) := do
  let portNumbers ← (flowDef.path.dropLast.zip flowDef.ports.dropLast).mapM fun hop =>
    portIdsToPortNumbers.get2? hop.1 hop.2
  let lastHop ← flowDef.path.getLast?
  let lastHopSwitchDpid ← idToDpid.get? lastHop
  let lastHopEgressPort ← onos.getHostPort lastHopSwitchDpid
  return portNumbers ++ [lastHopEgressPort]

def createMirroredPortsJson (solutions : Dict Int (List Solution)) : Option (Dict Text (List Int)) :=
  solutions.ungroup.foldlM (fun (mirroredSwitchPorts : Dict Text (List Int)) entry => do
    let actualPortNumber ← portIdsToPortNumbers.get2? entry.2.mirrorSwitchId entry.2.mirrorSwitchPort
    let mirrorSwitchDpid ← idToDpid.get? entry.2.mirrorSwitchId
    return mirroredSwitchPorts.push mirrorSwitchDpid actualPortNumber) .empty

def createAddPortMirroringRulesRequestJson (flowDef : PortMirroringFlow) (solutions : Dict Int (List Solution))
    (tagValue : Int) : Option RulesRequest := do
  let mirroredPortsJson ← createMirroredPortsJson idToDpid portIdsToPortNumbers solutions
  let flowPathJson ← flowDef.path.mapM idToDpid.get?
  let portNumberJson ← createPortNumbersJson onos idToDpid portIdsToPortNumbers flowDef
  return ⟨flowPathJson, portNumberJson, tagValue, mirroredPortsJson⟩

end Translation

/-- The new trial has solutions for the type in force only. -/
def mapToPhysicalNetwork (onos : Onos) (idToDpid : Dict Int Text) (trial : TrialState PortMirroringFlow Solution) :
    Option (TrialState PhysicalFlow PhysicalSolution) := do
  let portIdsToPortNumbers ← onos.mapPortIdsToNwPorts trial.mirroringPorts idToDpid
  let newFlows ← trial.flows.entries.foldlM (fun (newFlows : Dict Int PhysicalFlow) entry => do
    let newFlow ← mapFlow onos idToDpid portIdsToPortNumbers entry.1 entry.2
    return newFlows.set entry.1 newFlow) .empty
  let trialSolutions ← trial.solutions
  let newSolutions ← trialSolutions.ungroup.foldlM (fun (newSolutions : Dict Int (List PhysicalSolution)) entry => do
    let newSolution ← mapSolution idToDpid portIdsToPortNumbers entry.2
    return newSolutions.push entry.1 newSolution) .empty
  let solutions : Dict Text (Dict Int (List PhysicalSolution)) := .ofList [(trial.solutionType.name, newSolutions)]
  let newTrial : PortMirroringTrial (Option (Dict Int (List PhysicalSolution))) := .new (solutions.get? "det".toList)
    (solutions.get? "df".toList) (solutions.get? "greedy".toList) (solutions.get? "optimal".toList)
    (solutions.get? "rnd".toList)
  let newTrial ← newTrial.setSolutionType trial.solutionType.name
  return {
    toPortMirroringTrial := newTrial
    topology := trial.topology
    flows := newFlows
    switches := trial.switches
    duration := trial.duration
    name := trial.name
    mirroringPorts := trial.mirroringPorts }

/-! ### What the translations give -/

/-- The flow on the network: the path by datapath ids, every port that of the link to the next hop, the last one that
of the host. -/
structure Realises (onos : Onos) (idToDpid : Dict Int Text) (flow : PortMirroringFlow) (physical : PhysicalFlow) :
    Prop where
  rate : physical.trafficRate = flow.trafficRate
  path : physical.path.map some = flow.path.map idToDpid.get?
  length : physical.ports.length = flow.path.length
  links : ∀ (i : Nat) sourceId destinationId, flow.path[i]? = some sourceId → flow.path[i + 1]? = some destinationId →
    ∃ port, onos.sourcePort idToDpid sourceId destinationId = some port ∧ physical.ports[i]? = some port
  host : ∀ last, flow.path.getLast? = some last → ∃ dpid port, idToDpid.get? last = some dpid ∧
    onos.getHostPort dpid = some port ∧ physical.ports.getLast? = some port

/-- The table of the port numbers, as far as the trial needs it. -/
def Tabulated (onos : Onos) (idToDpid : Dict Int Text) (mirroringPorts portIdsToPortNumbers : Dict Int (Dict Int Int)) :
    Prop :=
  ∀ switchId neighbourId portId, mirroringPorts.get2? switchId neighbourId = some portId →
    portIdsToPortNumbers.get2? switchId portId = onos.sourcePort idToDpid switchId neighbourId

/-- A mirrored port as it is on the network: the datapath id of the switch, and the port of the link to the neighbour.
-/
def Translates (onos : Onos) (idToDpid : Dict Int Text) (mirroringPorts : Dict Int (Dict Int Int)) (solution : Solution)
    (physical : PhysicalSolution) : Prop :=
  idToDpid.get? solution.mirrorSwitchId = some physical.mirrorSwitchId ∧
    (∃ neighbourId, mirroringPorts.get2? solution.mirrorSwitchId neighbourId = some solution.mirrorSwitchPort ∧
      onos.sourcePort idToDpid solution.mirrorSwitchId neighbourId = some physical.mirrorSwitchPort) ∧
    physical.objectiveValue = solution.objectiveValue

/-- The pairs of the request, one for each solution. -/
def mirroredPair (entry : Int × PhysicalSolution) : Text × Int := (entry.2.mirrorSwitchId, entry.2.mirrorSwitchPort)

/-- A trial whose port ids tell the neighbours of a switch apart and whose flows leave by the port of the next hop, on
a network with the links and hosts it needs. -/
structure Mappable (onos : Onos) (idToDpid : Dict Int Text) (trial : TrialState PortMirroringFlow Solution)
    (solutions : Dict Int (List Solution)) : Prop where
  distinct : ∀ switchId neighbourId neighbourId' portId, trial.mirroringPorts.get2? switchId neighbourId = some portId →
    trial.mirroringPorts.get2? switchId neighbourId' = some portId → neighbourId = neighbourId'
  links : ∀ switchId neighbourId portId, trial.mirroringPorts.get2? switchId neighbourId = some portId →
    (onos.sourcePort idToDpid switchId neighbourId).isSome
  hops : ∀ flow ∈ trial.flows.values, flow.hops ≠ []
  ports : ∀ flow ∈ trial.flows.values, ∀ (i : Nat) switchId nextId portId, flow.path[i]? = some switchId →
    flow.path[i + 1]? = some nextId → flow.ports[i]? = some portId →
      trial.mirroringPorts.get2? switchId nextId = some portId
  hosts : ∀ flow ∈ trial.flows.values, ∀ last, flow.path.getLast? = some last →
    ((idToDpid.get? last).bind onos.getHostPort).isSome
  inForce : trial.solutions = some solutions
  mirrored : ∀ entry ∈ solutions.ungroup, ∃ neighbourId,
    trial.mirroringPorts.get2? entry.2.mirrorSwitchId neighbourId = some entry.2.mirrorSwitchPort

section Translation

variable {onos : Onos} {idToDpid : Dict Int Text} {portIdsToPortNumbers : Dict Int (Dict Int Int)}

theorem zip_dropLast_path_ports (flow : PortMirroringFlow) :
    flow.path.dropLast.zip flow.ports.dropLast = flow.hops.dropLast := by
  rw [PortMirroringFlow.path, PortMirroringFlow.ports, ← List.map_dropLast, ← List.map_dropLast, List.zip_map']
  exact List.map_id flow.hops.dropLast

theorem createPortNumbersJson_eq_some_iff {flow : PortMirroringFlow} {portNumbers : List Int} :
    createPortNumbersJson onos idToDpid portIdsToPortNumbers flow = some portNumbers ↔ ∃ ports last dpid port,
      flow.hops.dropLast.mapM (fun hop => portIdsToPortNumbers.get2? hop.1 hop.2) = some ports ∧
        flow.path.getLast? = some last ∧ idToDpid.get? last = some dpid ∧ onos.getHostPort dpid = some port ∧
          portNumbers = ports ++ [port] := by
  rw [createPortNumbersJson, zip_dropLast_path_ports]
  simp only [Option.bind_eq_bind, Option.bind_eq_some_iff, Option.pure_def, Option.some.injEq]
  constructor
  · rintro ⟨ports, hports, last, hlast, dpid, hdpid, port, hport, heq⟩
    exact ⟨ports, last, dpid, port, hports, hlast, hdpid, hport, heq.symm⟩
  · rintro ⟨ports, last, dpid, port, hports, hlast, hdpid, hport, heq⟩
    exact ⟨ports, hports, last, hlast, dpid, hdpid, port, hport, heq.symm⟩

/-- The trial of the network and the request give a flow the same path and the same ports. -/
theorem mapFlow_of_request {flow : PortMirroringFlow} {flowRoute : List Text} {portNumbers : List Int}
    (hroute : flow.path.mapM idToDpid.get? = some flowRoute)
    (hnumbers : createPortNumbersJson onos idToDpid portIdsToPortNumbers flow = some portNumbers) (flowId : Int) :
    portNumbers.length = flowRoute.length ∧ mapFlow onos idToDpid portIdsToPortNumbers flowId flow =
      some ⟨flowId, flow.trafficRate, flowRoute.zip portNumbers⟩ := by
  obtain ⟨ports, last, dpid, port, hports, hlast, hdpid, hport, rfl⟩ := createPortNumbersJson_eq_some_iff.mp hnumbers
  have hend : flowRoute.getLast? = some dpid := by
    have hmapped := congrArg List.getLast? (mapM_eq_some_iff.mp hroute)
    rw [List.getLast?_map, List.getLast?_map, hlast, Option.map_some, hdpid] at hmapped
    obtain ⟨dpid', hdpid', heq⟩ := Option.map_eq_some_iff.mp hmapped.symm
    rw [hdpid', Option.some.inj heq]
  obtain ⟨before, hbefore⟩ := List.getLast?_eq_some_iff.mp hend
  have hlength : ports.length = before.length := by
    have hhops := length_of_mapM hports
    have hnodes := length_of_mapM hroute
    rw [hbefore, List.length_append, List.length_singleton, PortMirroringFlow.path, List.length_map] at hnodes
    rw [List.length_dropLast] at hhops
    omega
  refine ⟨by simp [hbefore, hlength], ?_⟩
  have hzip : flowRoute.zip ports ++ [(dpid, port)] = flowRoute.zip (ports ++ [port]) := by
    calc flowRoute.zip ports ++ [(dpid, port)] = (before ++ [dpid]).zip (ports ++ []) ++ [(dpid, port)] := by
          rw [hbefore, List.append_nil]
      _ = before.zip ports ++ [(dpid, port)] := by
          rw [List.zip_append hlength.symm, List.zip_nil_right, List.append_nil]
      _ = (before ++ [dpid]).zip (ports ++ [port]) := by
          rw [List.zip_append hlength.symm]
          rfl
      _ = flowRoute.zip (ports ++ [port]) := by rw [hbefore]
  rw [mapFlow, zip_dropLast_path_ports, hroute, hports, hlast]
  simp only [Option.bind_eq_bind, Option.bind_some, hdpid, hport, hzip, Option.pure_def]

end Translation

namespace Mappable

variable {onos : Onos} {idToDpid : Dict Int Text} {trial : TrialState PortMirroringFlow Solution}
  {solutions : Dict Int (List Solution)}

theorem isSome_dpid (h : Mappable onos idToDpid trial solutions) {switchId neighbourId portId : Int}
    (hport : trial.mirroringPorts.get2? switchId neighbourId = some portId) : (idToDpid.get? switchId).isSome := by
  have hlink := h.links switchId neighbourId portId hport
  rw [Onos.sourcePort] at hlink
  cases hdpid : idToDpid.get? switchId with
  | none =>
      rw [hdpid] at hlink
      cases hlink
  | some dpid => rfl

/-- A hop that is not the last leaves by the port to the next one. -/
theorem exists_port_of_hop (h : Mappable onos idToDpid trial solutions) {flow : PortMirroringFlow}
    (hflow : flow ∈ trial.flows.values) {i : Nat} {switchId nextId : Int} (hi : flow.path[i]? = some switchId)
    (hnext : flow.path[i + 1]? = some nextId) :
    ∃ portId, flow.hops[i]? = some (switchId, portId) ∧ trial.mirroringPorts.get2? switchId nextId = some portId := by
  obtain ⟨hop, hhop, rfl⟩ : ∃ hop, flow.hops[i]? = some hop ∧ hop.1 = switchId := by
    rw [PortMirroringFlow.path, List.getElem?_map] at hi
    exact Option.map_eq_some_iff.mp hi
  have hport : flow.ports[i]? = some hop.2 := by
    rw [PortMirroringFlow.ports, List.getElem?_map, hhop]
    rfl
  exact ⟨hop.2, hhop, h.ports flow hflow i hop.1 nextId hop.2 hi hnext hport⟩

/-- Every node of a path is the source of a link of the flow or its last node. -/
theorem exists_flowRoute (h : Mappable onos idToDpid trial solutions) {flow : PortMirroringFlow}
    (hflow : flow ∈ trial.flows.values) : ∃ flowRoute, flow.path.mapM idToDpid.get? = some flowRoute := by
  apply exists_mapM
  intro node hnode
  apply Option.isSome_iff_exists.mp
  obtain ⟨i, hi⟩ := List.mem_iff_getElem?.mp hnode
  cases hnext : flow.path[i + 1]? with
  | none =>
      have hlast : flow.path.getLast? = some node := by
        have hlong := List.getElem?_eq_none_iff.mp hnext
        obtain ⟨hshort, -⟩ := List.getElem?_eq_some_iff.mp hi
        rw [List.getLast?_eq_getElem?, show flow.path.length - 1 = i by omega, hi]
      obtain ⟨port, hhost⟩ := Option.isSome_iff_exists.mp (h.hosts flow hflow node hlast)
      obtain ⟨dpid, hdpid, -⟩ := Option.bind_eq_some_iff.mp hhost
      exact Option.isSome_of_eq_some hdpid
  | some next =>
      obtain ⟨portId, -, hport⟩ := h.exists_port_of_hop hflow hi hnext
      exact h.isSome_dpid hport

/-- The table has the number of the port by which such a hop leaves. -/
theorem exists_number_of_hop (h : Mappable onos idToDpid trial solutions)
    {portIdsToPortNumbers : Dict Int (Dict Int Int)}
    (htable : Tabulated onos idToDpid trial.mirroringPorts portIdsToPortNumbers) {flow : PortMirroringFlow}
    (hflow : flow ∈ trial.flows.values) {i : Nat} {switchId nextId : Int} (hi : flow.path[i]? = some switchId)
    (hnext : flow.path[i + 1]? = some nextId) :
    ∃ portId port, flow.hops.dropLast[i]? = some (switchId, portId) ∧
      onos.sourcePort idToDpid switchId nextId = some port ∧
        portIdsToPortNumbers.get2? switchId portId = some port := by
  obtain ⟨portId, hhop, hport⟩ := h.exists_port_of_hop hflow hi hnext
  obtain ⟨port, hsource⟩ := Option.isSome_iff_exists.mp (h.links switchId nextId portId hport)
  obtain ⟨hshort, -⟩ := List.getElem?_eq_some_iff.mp hnext
  rw [PortMirroringFlow.path, List.length_map] at hshort
  refine ⟨portId, port, ?_, hsource, (htable switchId nextId portId hport).trans hsource⟩
  rw [List.getElem?_dropLast, if_pos (by omega), hhop]

theorem exists_linkNumbers (h : Mappable onos idToDpid trial solutions)
    {portIdsToPortNumbers : Dict Int (Dict Int Int)}
    (htable : Tabulated onos idToDpid trial.mirroringPorts portIdsToPortNumbers) {flow : PortMirroringFlow}
    (hflow : flow ∈ trial.flows.values) :
    ∃ ports, flow.hops.dropLast.mapM (fun hop => portIdsToPortNumbers.get2? hop.1 hop.2) = some ports := by
  apply exists_mapM
  intro hop hhop
  obtain ⟨i, hi⟩ := List.mem_iff_getElem?.mp hhop
  have hhops := hi
  rw [List.getElem?_dropLast] at hhops
  split at hhops
  · rename_i hshort
    have hnode : flow.path[i]? = some hop.1 := by
      rw [PortMirroringFlow.path, List.getElem?_map, hhops]
      rfl
    have hnext : flow.path[i + 1]? = some (flow.path.get ⟨i + 1, by simp [PortMirroringFlow.path]; omega⟩) :=
      List.getElem?_eq_getElem _
    obtain ⟨portId, port, hhop', -, hport⟩ := h.exists_number_of_hop htable hflow hnode hnext
    have hport' : hop.2 = portId := congrArg Prod.snd (Option.some.inj (hi.symm.trans hhop'))
    exact ⟨port, by rw [hport', hport]⟩
  · cases hhops

/-- The request lists the numbers of the ports to the next hops and that of the port to the host. -/
theorem exists_portNumbers (h : Mappable onos idToDpid trial solutions)
    {portIdsToPortNumbers : Dict Int (Dict Int Int)}
    (htable : Tabulated onos idToDpid trial.mirroringPorts portIdsToPortNumbers) {flow : PortMirroringFlow}
    (hflow : flow ∈ trial.flows.values) :
    ∃ portNumbers, createPortNumbersJson onos idToDpid portIdsToPortNumbers flow = some portNumbers ∧
      (∀ (i : Nat) sourceId destinationId, flow.path[i]? = some sourceId → flow.path[i + 1]? = some destinationId →
        ∃ port, onos.sourcePort idToDpid sourceId destinationId = some port ∧ portNumbers[i]? = some port) ∧
      ∀ last, flow.path.getLast? = some last → ∃ dpid port, idToDpid.get? last = some dpid ∧
        onos.getHostPort dpid = some port ∧ portNumbers.getLast? = some port := by
  obtain ⟨ports, hports⟩ := h.exists_linkNumbers htable hflow
  obtain ⟨last, hlast⟩ : ∃ last, flow.path.getLast? = some last := by
    apply Option.ne_none_iff_exists'.mp
    intro hnone
    rw [List.getLast?_eq_none_iff, PortMirroringFlow.path, List.map_eq_nil_iff] at hnone
    exact h.hops flow hflow hnone
  obtain ⟨port, hhost⟩ := Option.isSome_iff_exists.mp (h.hosts flow hflow last hlast)
  obtain ⟨dpid, hdpid, hport⟩ := Option.bind_eq_some_iff.mp hhost
  refine ⟨ports ++ [port], ?_, fun i sourceId destinationId hi hnext => ?_, fun last' hlast' => ?_⟩
  · exact createPortNumbersJson_eq_some_iff.mpr ⟨ports, last, dpid, port, hports, hlast, hdpid, hport, rfl⟩
  · obtain ⟨portId, number, hhop, hsource, hnumber⟩ := h.exists_number_of_hop htable hflow hi hnext
    refine ⟨number, hsource, ?_⟩
    have hget : ports[i]? = some number := by
      rw [getElem?_of_mapM hports, hhop]
      exact hnumber
    obtain ⟨hshort, -⟩ := List.getElem?_eq_some_iff.mp hget
    rw [List.getElem?_append_left hshort, hget]
  · cases hlast.symm.trans hlast'
    exact ⟨dpid, port, hdpid, hport, List.getLast?_concat⟩

theorem exists_mapSolution (h : Mappable onos idToDpid trial solutions) {portIdsToPortNumbers : Dict Int (Dict Int Int)}
    (htable : Tabulated onos idToDpid trial.mirroringPorts portIdsToPortNumbers) {entry : Int × Solution}
    (hentry : entry ∈ solutions.ungroup) : ∃ physical,
      mapSolution idToDpid portIdsToPortNumbers entry.2 = some physical ∧
        Translates onos idToDpid trial.mirroringPorts entry.2 physical := by
  obtain ⟨neighbourId, hport⟩ := h.mirrored entry hentry
  obtain ⟨dpid, hdpid⟩ := Option.isSome_iff_exists.mp (h.isSome_dpid hport)
  obtain ⟨port, hsource⟩ := Option.isSome_iff_exists.mp (h.links _ _ _ hport)
  refine ⟨⟨dpid, port, entry.2.objectiveValue⟩, ?_, hdpid, ⟨neighbourId, hport, hsource⟩, rfl⟩
  rw [mapSolution, hdpid, htable _ _ _ hport, hsource]
  rfl

/-- Both ways of a flow to the network. -/
theorem exists_mapFlow (h : Mappable onos idToDpid trial solutions) {portIdsToPortNumbers : Dict Int (Dict Int Int)}
    (htable : Tabulated onos idToDpid trial.mirroringPorts portIdsToPortNumbers) {flow : PortMirroringFlow}
    (hflow : flow ∈ trial.flows.values) (flowId : Int) : ∃ physical,
      mapFlow onos idToDpid portIdsToPortNumbers flowId flow = some physical ∧
      Realises onos idToDpid flow physical ∧
      flow.path.mapM idToDpid.get? = some physical.path ∧
      createPortNumbersJson onos idToDpid portIdsToPortNumbers flow = some physical.ports := by
  obtain ⟨flowRoute, hroute⟩ := h.exists_flowRoute hflow
  obtain ⟨portNumbers, hnumbers, hlinks, hhost⟩ := h.exists_portNumbers htable hflow
  obtain ⟨hlength, hmap⟩ := mapFlow_of_request hroute hnumbers flowId
  have hpath : PhysicalFlow.path ⟨flowId, flow.trafficRate, flowRoute.zip portNumbers⟩ = flowRoute := by
    unfold PhysicalFlow.path
    exact List.map_fst_zip (Nat.le_of_eq hlength.symm)
  have hports : PhysicalFlow.ports ⟨flowId, flow.trafficRate, flowRoute.zip portNumbers⟩ = portNumbers := by
    unfold PhysicalFlow.ports
    exact List.map_snd_zip (Nat.le_of_eq hlength)
  refine ⟨_, hmap, ⟨rfl, ?_, ?_, ?_, ?_⟩, ?_, ?_⟩
  · rw [hpath, mapM_eq_some_iff.mp hroute]
  · rw [hports, hlength, length_of_mapM hroute]
  · rw [hports]
    exact hlinks
  · rw [hports]
    exact hhost
  · rw [hpath, hroute]
  · rw [hports, hnumbers]

end Mappable

/-- The new trial has its solutions under the type of the old one, and they are in force. -/
theorem exists_setSolutionType {σ : Type} (solutionType : PortSolutionType) (newSolutions : σ) :
    ∃ newTrial, (PortMirroringTrial.new ((Dict.ofList [(solutionType.name, newSolutions)]).get? "det".toList)
      ((Dict.ofList [(solutionType.name, newSolutions)]).get? "df".toList)
      ((Dict.ofList [(solutionType.name, newSolutions)]).get? "greedy".toList)
      ((Dict.ofList [(solutionType.name, newSolutions)]).get? "optimal".toList)
      ((Dict.ofList [(solutionType.name, newSolutions)]).get? "rnd".toList)).setSolutionType solutionType.name =
        some newTrial ∧ newTrial.solutions = some newSolutions ∧ newTrial.solutionType = solutionType := by
  cases solutionType <;> exact ⟨_, rfl, rfl, rfl⟩

section Loops

variable (onos : Onos) (idToDpid : Dict Int Text) (portIdsToPortNumbers : Dict Int (Dict Int Int))

/-- A flow under its id, and what both ways make of it. -/
structure FlowMapped (entry : Int × PortMirroringFlow) (entry' : Int × PhysicalFlow) : Prop where
  id : entry'.1 = entry.1
  mapped : mapFlow onos idToDpid portIdsToPortNumbers entry.1 entry.2 = some entry'.2
  realises : Realises onos idToDpid entry.2 entry'.2
  route : entry.2.path.mapM idToDpid.get? = some entry'.2.path
  numbers : createPortNumbersJson onos idToDpid portIdsToPortNumbers entry.2 = some entry'.2.ports

/-- A solution under its key, and what both ways make of it. -/
structure SolutionMapped (mirroringPorts : Dict Int (Dict Int Int)) (entry : Int × Solution)
    (entry' : Int × PhysicalSolution) : Prop where
  key : entry'.1 = entry.1
  mapped : mapSolution idToDpid portIdsToPortNumbers entry.2 = some entry'.2
  translates : Translates onos idToDpid mirroringPorts entry.2 entry'.2

variable {onos idToDpid portIdsToPortNumbers} {trial : TrialState PortMirroringFlow Solution}
  {solutions : Dict Int (List Solution)}

theorem Mappable.exists_newFlows (h : Mappable onos idToDpid trial solutions)
    (htable : Tabulated onos idToDpid trial.mirroringPorts portIdsToPortNumbers) :
    ∃ newFlows : Dict Int PhysicalFlow,
      trial.flows.entries.foldlM (fun (newFlows : Dict Int PhysicalFlow) entry => do
        let newFlow ← mapFlow onos idToDpid portIdsToPortNumbers entry.1 entry.2
        return newFlows.set entry.1 newFlow) .empty = some newFlows ∧
      List.Forall₂ (FlowMapped onos idToDpid portIdsToPortNumbers) trial.flows.entries newFlows.entries := by
  have hmapped : ∀ entry ∈ trial.flows.entries, ∃ entry',
        FlowMapped onos idToDpid portIdsToPortNumbers entry entry' := by
    intro entry hentry
    obtain ⟨physical, hmap, hrealises, hroute, hnumbers⟩ := h.exists_mapFlow htable (List.mem_map_of_mem hentry) entry.1
    exact ⟨(entry.1, physical), rfl, hmap, hrealises, hroute, hnumbers⟩
  obtain ⟨entries, hentries⟩ := exists_forall₂ hmapped
  have hkeys : (entries.map Prod.fst).Nodup := by
    rw [map_eq_of_forall₂ (fun _ _ hentry => hentry.id) hentries]
    exact trial.flows.nodupKeys
  refine ⟨Dict.ofList entries, ?_, ?_⟩
  · refine foldlM_of_forall₂ (fun newFlows entry entry' hentry => ?_) hentries Dict.empty
    rw [hentry.mapped, hentry.id]
    rfl
  · rw [Dict.entries_ofList hkeys]
    exact hentries

theorem Mappable.exists_newSolutions (h : Mappable onos idToDpid trial solutions)
    (htable : Tabulated onos idToDpid trial.mirroringPorts portIdsToPortNumbers) :
    ∃ newSolutions : Dict Int (List PhysicalSolution),
      solutions.ungroup.foldlM (fun (newSolutions : Dict Int (List PhysicalSolution)) entry => do
        let newSolution ← mapSolution idToDpid portIdsToPortNumbers entry.2
        return newSolutions.push entry.1 newSolution) .empty = some newSolutions ∧
      List.Forall₂ (SolutionMapped onos idToDpid portIdsToPortNumbers trial.mirroringPorts) solutions.ungroup
        newSolutions.ungroup := by
  have hmapped : ∀ entry ∈ solutions.ungroup, ∃ entry',
      SolutionMapped onos idToDpid portIdsToPortNumbers trial.mirroringPorts entry entry' := by
    intro entry hentry
    obtain ⟨physical, hmap, htranslates⟩ := h.exists_mapSolution htable hentry
    exact ⟨(entry.1, physical), rfl, hmap, htranslates⟩
  obtain ⟨entries, hentries⟩ := exists_forall₂ hmapped
  refine ⟨Dict.groups entries, ?_, ?_⟩
  · refine foldlM_of_forall₂ (fun newSolutions entry entry' hentry => ?_) hentries Dict.empty
    rw [hentry.mapped, hentry.key]
    rfl
  · rw [Dict.ungroup_groups (map_eq_of_forall₂ (fun _ _ hentry => hentry.key) hentries)]
    exact hentries

/-- The request groups by switch the pairs that the new trial holds. -/
theorem createMirroredPortsJson_eq {mirroringPorts : Dict Int (Dict Int Int)} {entries : List (Int × PhysicalSolution)}
    (hentries : List.Forall₂ (SolutionMapped onos idToDpid portIdsToPortNumbers mirroringPorts) solutions.ungroup
      entries) :
    createMirroredPortsJson idToDpid portIdsToPortNumbers solutions =
      some (Dict.groups (entries.map mirroredPair)) := by
  rw [createMirroredPortsJson, Dict.groups, List.foldl_map]
  refine foldlM_of_forall₂ (fun mirroredSwitchPorts entry entry' hentry => ?_) hentries Dict.empty
  have hmapped := hentry.mapped
  simp only [mapSolution, Option.bind_eq_bind, Option.bind_eq_some_iff, Option.pure_def, Option.some.injEq] at hmapped
  obtain ⟨dpid, hdpid, port, hport, hentry'⟩ := hmapped
  rw [hport, hdpid, mirroredPair, ← hentry']
  rfl

end Loops

/-- The trial on the network has the same flows, each by its datapath ids and the ports of its links, and these are
the path and the port numbers of its request. Every mirrored port is translated to the same pair. -/
theorem physical_network_matches_requests (onos : Onos) (idToDpid : Dict Int Text)
    (trial : TrialState PortMirroringFlow Solution) (solutions : Dict Int (List Solution))
    (h : Mappable onos idToDpid trial solutions) :
    ∃ physical newSolutions portIdsToPortNumbers, mapToPhysicalNetwork onos idToDpid trial = some physical ∧
      physical.solutions = some newSolutions ∧
      onos.mapPortIdsToNwPorts trial.mirroringPorts idToDpid = some portIdsToPortNumbers ∧
      List.Forall₂ (fun entry entry' => entry'.1 = entry.1 ∧
        Translates onos idToDpid trial.mirroringPorts entry.2 entry'.2) solutions.ungroup newSolutions.ungroup ∧
      List.Forall₂ (fun entry entry' => entry'.1 = entry.1 ∧ Realises onos idToDpid entry.2 entry'.2 ∧
        ∀ tagValue, ∃ request, createAddPortMirroringRulesRequestJson onos idToDpid portIdsToPortNumbers entry.2
            solutions
          tagValue = some request ∧ request.flowRoute = entry'.2.path ∧ request.portNumbers = entry'.2.ports ∧
            request.mirroredPorts = Dict.groups (newSolutions.ungroup.map mirroredPair))
          trial.flows.entries physical.flows.entries := by
  obtain ⟨portIdsToPortNumbers, hmap, htable⟩ := Onos.exists_mapPortIdsToNwPorts h.distinct h.links
  obtain ⟨newFlows, hflows, hflowsMapped⟩ := h.exists_newFlows htable
  obtain ⟨newSolutions, hsolutions, hsolutionsMapped⟩ := h.exists_newSolutions htable
  obtain ⟨newTrial, htrial, hinForce, -⟩ := exists_setSolutionType trial.solutionType newSolutions
  refine ⟨⟨newTrial, trial.topology, newFlows, trial.switches, trial.duration, trial.name, trial.mirroringPorts⟩,
    newSolutions, portIdsToPortNumbers, ?_, hinForce, hmap, ?_, ?_⟩
  · unfold mapToPhysicalNetwork
    refine Option.bind_eq_some_iff.mpr ⟨_, hmap, Option.bind_eq_some_iff.mpr ⟨_, hflows, ?_⟩⟩
    refine Option.bind_eq_some_iff.mpr ⟨_, h.inForce, Option.bind_eq_some_iff.mpr ⟨_, hsolutions, ?_⟩⟩
    exact Option.bind_eq_some_iff.mpr ⟨_, htrial, rfl⟩
  · exact hsolutionsMapped.imp fun entry entry' hentry => ⟨hentry.key, hentry.translates⟩
  · refine hflowsMapped.imp fun entry entry' hentry => ⟨hentry.id, hentry.realises, fun tagValue => ?_⟩
    refine ⟨⟨entry'.2.path, entry'.2.ports, tagValue, _⟩, ?_, rfl, rfl, rfl⟩
    rw [createAddPortMirroringRulesRequestJson, createMirroredPortsJson_eq hsolutionsMapped, hentry.route,
      hentry.numbers]
    rfl

/-- A line of three switches with a host at its end. -/
def lineOnos : Onos where
  links := [⟨⟨"of:b".toList, "6".toList⟩, ⟨"of:c".toList, "1".toList⟩, "DIRECT".toList⟩,
    ⟨⟨"of:a".toList, "3".toList⟩, ⟨"of:b".toList, "2".toList⟩, "DIRECT".toList⟩]
  hosts := [⟨["10.0.0.3".toList], [⟨"of:c".toList, "5".toList⟩]⟩]

def lineIds : Dict Int Text := .ofList [(1, "of:a".toList), (2, "of:b".toList), (3, "of:c".toList)]

def lineSolutions : Dict Int (List Solution) := .ofList [(2, [.port ⟨2, 8, .finite 1⟩]), (1, [])]

def lineTrial : TrialState PortMirroringFlow Solution where
  toPortMirroringTrial := .new none none none (some lineSolutions) none
  topology := []
  flows := .ofList [(0, ⟨0, 1, [(1, 7), (2, 8), (3, 0)]⟩)]
  switches := .ofList [(1, ⟨1, [⟨7, .finite 1, [0]⟩]⟩), (2, ⟨2, [⟨8, .finite 1, [0]⟩]⟩)]
  duration := 1
  name := []
  mirroringPorts := .ofList [(1, .ofList [(2, 7)]), (2, .ofList [(3, 8)])]

theorem mappable_lineTrial : Mappable lineOnos lineIds lineTrial lineSolutions where
  distinct := by
    have hitems : ∀ entry ∈ lineTrial.mirroringPorts.items2, ∀ entry' ∈ lineTrial.mirroringPorts.items2,
        entry.1.1 = entry'.1.1 → entry.2 = entry'.2 → entry.1.2 = entry'.1.2 := by decide
    intro switchId neighbourId neighbourId' portId hport hport'
    exact hitems ((switchId, neighbourId), portId) (Dict.mem_items2.mpr hport) ((switchId, neighbourId'), portId)
      (Dict.mem_items2.mpr hport') rfl rfl
  links := by
    have hitems : ∀ entry ∈ lineTrial.mirroringPorts.items2,
        (lineOnos.sourcePort lineIds entry.1.1 entry.1.2).isSome := by
      decide +kernel
    intro switchId neighbourId portId hport
    exact hitems ((switchId, neighbourId), portId) (Dict.mem_items2.mpr hport)
  hops := by decide +kernel
  ports := by
    have hhops : ∀ flow ∈ lineTrial.flows.values, ∀ i < flow.path.length,
        (flow.path[i + 1]?).all (fun nextId => (flow.path[i]?).bind
          (fun switchId => lineTrial.mirroringPorts.get2? switchId nextId) = flow.ports[i]?) := by decide +kernel
    intro flow hflow i switchId nextId portId hswitch hnext hport
    obtain ⟨hi, -⟩ := List.getElem?_eq_some_iff.mp hswitch
    have hhop := hhops flow hflow i hi
    rw [hnext, Option.all_some, hswitch, Option.bind_some, hport] at hhop
    exact of_decide_eq_true hhop
  hosts := by
    have hlast : ∀ flow ∈ lineTrial.flows.values, (flow.path.getLast?).all
        (fun last => ((lineIds.get? last).bind lineOnos.getHostPort).isSome) := by decide +kernel
    intro flow hflow last hend
    have hhost := hlast flow hflow
    rwa [hend, Option.all_some] at hhost
  inForce := rfl
  mirrored := by
    have hmirrored : ∀ entry ∈ lineSolutions.ungroup,
        lineTrial.mirroringPorts.get2? entry.2.mirrorSwitchId 3 = some entry.2.mirrorSwitchPort := by decide +kernel
    intro entry hentry
    exact ⟨3, hmirrored entry hentry⟩

theorem physical_network_matches_requests_lineTrial : ∃ physical newSolutions portIdsToPortNumbers,
    mapToPhysicalNetwork lineOnos lineIds lineTrial = some physical ∧ physical.solutions = some newSolutions ∧
      lineOnos.mapPortIdsToNwPorts lineTrial.mirroringPorts lineIds = some portIdsToPortNumbers ∧
      List.Forall₂ (fun entry entry' => entry'.1 = entry.1 ∧
        Translates lineOnos lineIds lineTrial.mirroringPorts entry.2 entry'.2) lineSolutions.ungroup
          newSolutions.ungroup ∧
      List.Forall₂ (fun entry entry' => entry'.1 = entry.1 ∧ Realises lineOnos lineIds entry.2 entry'.2 ∧
        ∀ tagValue, ∃ request, createAddPortMirroringRulesRequestJson lineOnos lineIds portIdsToPortNumbers entry.2
          lineSolutions tagValue = some request ∧ request.flowRoute = entry'.2.path ∧
            request.portNumbers = entry'.2.ports ∧
            request.mirroredPorts = Dict.groups (newSolutions.ungroup.map mirroredPair))
          lineTrial.flows.entries physical.flows.entries :=
  physical_network_matches_requests lineOnos lineIds lineTrial lineSolutions mappable_lineTrial

end OfTestbed.PortMirroring
