import OfTestbed.MirroringRecords
import OfTestbed.MirroringSolutions
import OfTestbed.MirroringTrials
import OfTestbed.PortMirroringFlow

/-!
A port mirroring trial with the network it runs on: the trial of `trials/port_mirroring_trial.py`, the answers of the
controller and what `nw_control/topo_mapper.py` reads from them, and the table of port numbers that
`port_mirroring/onos_rest_helpers.py` builds. The controller is asked again for every port; its answers are taken to
stay the same. The ids of the trial are matched to the datapath ids by a graph isomorphism, which is a parameter here.
`none` is an exception.
-/

namespace OfTestbed.PortMirroring

open Lib

/-! ### Trials -/

/-- Both classes of solutions are read through the same attributes. -/
inductive Solution where
  | port (solution : PortMirroringSolution)
  | rnd (solution : RndPortMirroringSolution)
  deriving DecidableEq

namespace Solution

def mirrorSwitchId : Solution → Int
  | port solution => solution.mirrorSwitchId
  | rnd solution => solution.mirrorSwitchId

def mirrorSwitchPort : Solution → Int
  | port solution => solution.mirrorSwitchPort
  | rnd solution => solution.mirrorSwitchPort

def objectiveValue : Solution → FloatValue
  | port solution => solution.objectiveValue
  | rnd solution => solution.objectiveValue

end Solution

/-- A trial with its data: the flows and solutions name switches by the ids of the trial or by datapath ids. A trial
that was read from a repository holds no solutions for the other types. -/
structure TrialState (φ σ : Type) extends PortMirroringTrial (Option (Dict Int (List σ))) where
  topology : Text
  flows : Dict Int φ
  switches : Dict Int PortMirroringSwitch
  duration : ℚ
  name : Text
  mirroringPorts : Dict Int (Dict Int Int)

/-- The name under which `get_solution_of_type` looks a type up. -/
def PortSolutionType.name : PortSolutionType → Text
  | .det => "det".toList
  | .df => "df".toList
  | .greedy => "greedy".toList
  | .optimal => "optimal".toList
  | .rnd => "rnd".toList

/-- `get_solution_of_type`, which gives `None` for a name that it does not know. -/
def TrialState.getSolutionOfType {φ σ : Type} (trial : TrialState φ σ) (solutionType : Text) :
    Option (Dict Int (List σ)) :=
  if solutionType = "df".toList then trial.dfSolutions
  else if solutionType = "optimal".toList then trial.optimalSolutions
  else if solutionType = "det".toList then trial.detSolutions
  else if solutionType = "greedy".toList then trial.greedySolutions
  else if solutionType = "rnd".toList then trial.rndSolutions
  else none

/-! ### Answers of the controller -/

structure ConnectPoint where
  device : Text
  port : Text

structure Link where
  src : ConnectPoint
  dst : ConnectPoint
  linkType : Text

structure HostLocation where
  elementId : Text
  port : Text

structure Host where
  ipAddresses : List Text
  locations : List HostLocation

structure Onos where
  links : List Link
  hosts : List Host

/-- `collector_ip_addr` of `port_mirroring/params.py`. -/
def collectorIpAddr : Text := "10.10.0.18".toList

/-- `dns_server_ip` of `nw_control/params.py`. -/
def dnsServerIp : Text := "10.0.0.1".toList

namespace Onos

def getNwLinks (onos : Onos) : List Link := onos.links.filter (·.linkType ≠ "EDGE".toList)

/-- The ports of the first link from one switch to the other. -/
def getPortsThatConnect (onos : Onos) (sourceDpid destinationDpid : Text) : Option (Int × Int) := do
  let link ← onos.getNwLinks.find? fun link => link.src.device = sourceDpid ∧ link.dst.device = destinationDpid
  let sourcePort ← int link.src.port
  let destinationPort ← int link.dst.port
  return (sourcePort, destinationPort)

/-- The port of the first host at the switch that is neither the collector nor the name server. -/
def getHostPort (onos : Onos) (switchDpid : Text) : Option Int := do
  let location ← onos.hosts.findSome? fun host => host.locations.find? fun location =>
    location.elementId = switchDpid ∧ ¬ host.ipAddresses.contains collectorIpAddr ∧
      ¬ host.ipAddresses.contains dnsServerIp
  int location.port

/-- The port number of a link, as far as the tables need it. -/
def sourcePort (onos : Onos) (idToDpid : Dict Int Text) (sourceId destinationId : Int) : Option Int := do
  let sourceDpid ← idToDpid.get? sourceId
  let destinationDpid ← idToDpid.get? destinationId
  let (sourcePort, _) ← onos.getPortsThatConnect sourceDpid destinationDpid
  return sourcePort

/-- The port numbers by the id of the switch and the id of the port. -/
def mapPortIdsToNwPorts (onos : Onos) (mirroringPorts : Dict Int (Dict Int Int)) (idToDpid : Dict Int Text) :
    Option (Dict Int (Dict Int Int)) :=
  mirroringPorts.items2.foldlM (fun (dpidPortMap : Dict Int (Dict Int Int)) entry => do
    let sourcePort ← onos.sourcePort idToDpid entry.1.1 entry.1.2
    return dpidPortMap.set2 entry.1.1 entry.2 sourcePort) .empty

/-- The table holds the number of every port, if the port ids of a switch tell its neighbours apart. -/
theorem exists_mapPortIdsToNwPorts {onos : Onos} {mirroringPorts : Dict Int (Dict Int Int)} {idToDpid : Dict Int Text}
    (hdistinct : ∀ switchId neighbourId neighbourId' portId, mirroringPorts.get2? switchId neighbourId = some portId →
      mirroringPorts.get2? switchId neighbourId' = some portId → neighbourId = neighbourId')
    (hlinks : ∀ switchId neighbourId portId, mirroringPorts.get2? switchId neighbourId = some portId →
      (onos.sourcePort idToDpid switchId neighbourId).isSome) :
    ∃ portIdsToPortNumbers, onos.mapPortIdsToNwPorts mirroringPorts idToDpid = some portIdsToPortNumbers ∧
      ∀ switchId neighbourId portId, mirroringPorts.get2? switchId neighbourId = some portId →
        portIdsToPortNumbers.get2? switchId portId = onos.sourcePort idToDpid switchId neighbourId := by
  have hnodup : (mirroringPorts.items2.map fun entry => (entry.1.1, entry.2)).Nodup := by
    apply (mirroringPorts.nodup_items2.of_map Prod.fst).map_on
    intro entry hentry entry' hentry' hkey
    obtain ⟨hswitch, hport⟩ := Prod.mk.inj hkey
    have hget : mirroringPorts.get2? entry.1.1 entry.1.2 = some entry.2 := Dict.mem_items2.mp hentry
    have hget' : mirroringPorts.get2? entry'.1.1 entry'.1.2 = some entry'.2 := Dict.mem_items2.mp hentry'
    rw [← hswitch, ← hport] at hget'
    exact Prod.ext (Prod.ext hswitch (hdistinct entry.1.1 entry.1.2 entry'.1.2 entry.2 hget hget')) hport
  have hturn : ∀ entry ∈ mirroringPorts.items2, ∀ dpidPortMap : Dict Int (Dict Int Int), ∃ dpidPortMap',
      (do
        let sourcePort ← onos.sourcePort idToDpid entry.1.1 entry.1.2
        return dpidPortMap.set2 entry.1.1 entry.2 sourcePort) = some dpidPortMap' ∧
      ∀ key : Int × Int, dpidPortMap'.get2? key.1 key.2 =
        (if key = (entry.1.1, entry.2) then onos.sourcePort idToDpid entry.1.1 entry.1.2 else none).or
          (dpidPortMap.get2? key.1 key.2) := by
    intro entry hentry dpidPortMap
    obtain ⟨sourcePort, hsource⟩ :=
      Option.isSome_iff_exists.mp (hlinks entry.1.1 entry.1.2 entry.2 (Dict.mem_items2.mp hentry))
    rw [hsource]
    exact ⟨_, rfl, Dict.get2?_set2_pair dpidPortMap (entry.1.1, entry.2) sourcePort⟩
  obtain ⟨table, htable, hlook⟩ := foldlM_keyed (fun (dpidPortMap : Dict Int (Dict Int Int)) (key : Int × Int) =>
    dpidPortMap.get2? key.1 key.2) _ _ hnodup hturn .empty
  refine ⟨table, htable, fun switchId neighbourId portId hget => ?_⟩
  have hentry : ((switchId, neighbourId), portId) ∈ mirroringPorts.items2 := Dict.mem_items2.mpr hget
  have hfind : mirroringPorts.items2.find? (fun entry => (entry.1.1, entry.2) = (switchId, portId)) =
      some ((switchId, neighbourId), portId) := find?_key_of_mem hnodup hentry
  have hview := hlook (switchId, portId)
  rw [hfind, Option.bind_some, Dict.get2?_empty, Option.or_none] at hview
  exact hview

end Onos

end OfTestbed.PortMirroring
