import Mathlib.Data.Finset.Lattice.Basic
import OfTestbed.LibNxGraph
import OfTestbed.MirroringNetwork

/-!
The topology that the controller sees and the one that a trial is made for (`nw_control/topo_mapper.py`): the first is
built from the links that the controller lists, the second is read from a text, and a graph isomorphism matches the
datapath ids of the switches with the ids of the text. The paths of the flows can be verified on either side. The search
for an isomorphism belongs to the graph library and is a parameter here. `none` is an exception.
-/

namespace OfTestbed.PortMirroring

open Lib

/-- `collector_host_ip` of `nw_control/params.py`. -/
def collectorHostIp : Text := "10.10.0.18".toList

/-! ### The two topologies -/

/-- A line `u v` of the text. -/
def addEdgeEntry (graph : NxGraph Int) (edgeEntry : Text) : Option (NxGraph Int) :=
  match edgeEntry.splitOn ' ' with
  | [sourceNode, destinationNode] => do
      let source ← int sourceNode
      let destination ← int destinationNode
      return graph.addEdge source destination
  | _ => none

def buildGraphFromTopoString (topoStr : Text) : Option (NxGraph Int) := do
  let lines := splitlines topoStr
  let numNodes ← lines.head?.bind int
  let graph : NxGraph Int := (List.range numNodes.toNat).foldl (fun graph nodeIdx => graph.addNode (nodeIdx + 1)) .empty
  (lines.drop 2).foldlM addEdgeEntry graph

namespace Onos

/-- The switch of the first host with the collector's address; the inner `none` is a `StopIteration`. -/
def getCollectorSwitchDpid (onos : Onos) : Option (Option Text) :=
  match onos.hosts.find? fun host => host.ipAddresses.contains collectorHostIp with
  | none => some none
  | some collectorHost => collectorHost.locations.head?.map fun location => some location.elementId

/-- The links between the switches without the one of the collector. -/
def coreTopoLinks (onos : Onos) (collectorSwitchDpid : Text) : List Link :=
  onos.getNwLinks.filter fun link =>
    link.src.device ≠ collectorSwitchDpid ∧ link.dst.device ≠ collectorSwitchDpid

/-- A turn of the loop over the links. -/
def addLink (state : NxGraph Text × List Text) (link : Link) : NxGraph Text × List Text :=
  let sourceDpid := link.src.device
  let destinationDpid := link.dst.device
  let (graph, nodeSet) := if !state.2.contains sourceDpid && !sourceDpid.isEmpty then
    (state.1.addNode sourceDpid, state.2 ++ [sourceDpid]) else state
  let (graph, nodeSet) := if !nodeSet.contains destinationDpid then
    (graph.addNode destinationDpid, nodeSet ++ [destinationDpid]) else (graph, nodeSet)
  (graph.addEdge sourceDpid destinationDpid, nodeSet)

def buildOnosTopoGraph (onos : Onos) : Option (NxGraph Text) := do
  let collectorSwitchDpid ← onos.getCollectorSwitchDpid
  return ((onos.coreTopoLinks (collectorSwitchDpid.getD [])).foldl addLink (.empty, [])).1

end Onos

/-- `generate_graph_isomorphism`, which raises when there is none. -/
abbrev GraphMatcher := NxGraph Text → NxGraph Int → Option (Dict Text Int)

/-- As documented: the mapping is an isomorphism, and one is found if there is one. -/
structure GraphMatcher.Documented (matcher : GraphMatcher) : Prop where
  sound : ∀ graph graph' mapping, matcher graph graph' = some mapping → IsIsomorphism graph graph' mapping
  complete : ∀ graph graph' mapping, IsIsomorphism graph graph' mapping → (matcher graph graph').isSome

section Verify

variable (matcher : GraphMatcher) (onos : Onos) (targetTopoString : Text)

def getAndValidateOnosTopo : Option (Dict Int Text) := do
  let currentTopo ← onos.buildOnosTopoGraph
  let targetTopo ← buildGraphFromTopoString targetTopoString
  let dpidToId ← matcher currentTopo targetTopo
  return dpidToId.inverse

/-- The links that a flow goes along. -/
def hopsOf (flow : PortMirroringFlow) : List (Int × Int) := flow.path.zip flow.path.tail

/-- `(id_to_dpid[u], id_to_dpid[v])`. -/
def dpidsOf (idToDpid : Dict Int Text) (hop : Int × Int) : Option (Text × Text) := do
  let sourceDpid ← idToDpid.get? hop.1
  let destinationDpid ← idToDpid.get? hop.2
  return (sourceDpid, destinationDpid)

def verifyFlowsAgainstNwTopo (flows : Dict Int PortMirroringFlow) : Option (Finset (Int × Int)) := do
  let nwGraph ← onos.buildOnosTopoGraph
  let idToDpid ← getAndValidateOnosTopo matcher onos targetTopoString
  flows.entries.foldlM (fun invalidEdges entry => (hopsOf entry.2).foldlM (fun invalidEdges hop => do
    let dpids ← dpidsOf idToDpid hop
    return if nwGraph.HasEdge dpids.1 dpids.2 then invalidEdges else insert hop invalidEdges) invalidEdges) ∅

/-- Here the datapath ids are only looked up for the message. -/
def verifyFlowsAgainstTargetTopo (flows : Dict Int PortMirroringFlow) : Option (Finset (Int × Int)) := do
  let targetGraph ← buildGraphFromTopoString targetTopoString
  let idToDpid ← getAndValidateOnosTopo matcher onos targetTopoString
  flows.entries.foldlM (fun invalidEdges entry => (hopsOf entry.2).foldlM (fun invalidEdges hop =>
    if targetGraph.HasEdge hop.1 hop.2 then some invalidEdges
    else (dpidsOf idToDpid hop).map fun _ => insert hop invalidEdges) invalidEdges) ∅

end Verify

/-! ### The links of the graph -/

theorem hasEdge_addLink (state : NxGraph Text × List Text) (link : Link) (u v : Text) :
    (Onos.addLink state link).1.HasEdge u v ↔ state.1.HasEdge u v ∨
      (u = link.src.device ∧ v = link.dst.device) ∨ (u = link.dst.device ∧ v = link.src.device) := by
  unfold Onos.addLink
  rw [NxGraph.hasEdge_addEdge]
  split_ifs <;> rfl

theorem hasEdge_foldl_addLink (links : List Link) (state : NxGraph Text × List Text) (u v : Text) :
    (links.foldl Onos.addLink state).1.HasEdge u v ↔ state.1.HasEdge u v ∨ ∃ link ∈ links,
      (u = link.src.device ∧ v = link.dst.device) ∨ (u = link.dst.device ∧ v = link.src.device) := by
  induction links generalizing state with
  | nil => simp
  | cons link links ih =>
      rw [List.foldl_cons, ih, hasEdge_addLink, or_assoc]
      simp only [List.exists_mem_cons_iff]

/-- The controller lists a link between two switches that are joined in the graph. -/
theorem exists_link_of_hasEdge {onos : Onos} {graph : NxGraph Text} (h : onos.buildOnosTopoGraph = some graph)
    {u v : Text} (hedge : graph.HasEdge u v) :
    ∃ link ∈ onos.getNwLinks,
      (u = link.src.device ∧ v = link.dst.device) ∨ (u = link.dst.device ∧ v = link.src.device) := by
  simp only [Onos.buildOnosTopoGraph, Option.bind_eq_bind, Option.bind_eq_some_iff, Option.pure_def,
    Option.some_inj] at h
  obtain ⟨collectorSwitchDpid, -, rfl⟩ := h
  rw [hasEdge_foldl_addLink] at hedge
  rcases hedge with hempty | ⟨link, hmem, hends⟩
  · rcases hempty with hempty | hempty <;> cases hempty
  · exact ⟨link, (List.mem_filter.mp hmem).1, hends⟩

/-! ### Both verifications -/

section Verified

variable {matcher : GraphMatcher} {onos : Onos} {targetTopoString : Text} {idToDpid : Dict Int Text}

theorem getAndValidateOnosTopo_eq_some (hmatcher : matcher.Documented)
    (h : getAndValidateOnosTopo matcher onos targetTopoString = some idToDpid) :
    ∃ currentTopo targetTopo mapping, onos.buildOnosTopoGraph = some currentTopo ∧
      buildGraphFromTopoString targetTopoString = some targetTopo ∧ IsIsomorphism currentTopo targetTopo mapping ∧
        idToDpid = mapping.inverse := by
  simp only [getAndValidateOnosTopo, Option.bind_eq_bind, Option.bind_eq_some_iff, Option.pure_def,
    Option.some_inj] at h
  obtain ⟨currentTopo, hcurrent, targetTopo, htarget, mapping, hmapping, rfl⟩ := h
  exact ⟨currentTopo, targetTopo, mapping, hcurrent, htarget, hmatcher.sound _ _ _ hmapping, rfl⟩

theorem dpidsOf_eq_some_iff {mapping : Dict Text Int}
    (hinjective : ∀ u u' v, mapping.get? u = some v → mapping.get? u' = some v → u = u') {hop : Int × Int}
    {dpids : Text × Text} :
    dpidsOf mapping.inverse hop = some dpids ↔
      mapping.get? dpids.1 = some hop.1 ∧ mapping.get? dpids.2 = some hop.2 := by
  simp only [dpidsOf, Option.bind_eq_bind, Option.bind_eq_some_iff, Option.pure_def, Option.some_inj,
    Dict.get?_inverse hinjective]
  constructor
  · rintro ⟨u, hu, v, hv, rfl⟩
    exact ⟨hu, hv⟩
  · rintro ⟨hu, hv⟩
    exact ⟨dpids.1, hu, dpids.2, hv, rfl⟩

/-- The switches of a hop are looked up exactly when both are nodes of the text. -/
theorem isSome_dpidsOf_iff {currentTopo : NxGraph Text} {targetTopo : NxGraph Int} {mapping : Dict Text Int}
    (h : IsIsomorphism currentTopo targetTopo mapping) (hop : Int × Int) :
    (dpidsOf mapping.inverse hop).isSome ↔ hop.1 ∈ targetTopo.nodes ∧ hop.2 ∈ targetTopo.nodes := by
  rw [Option.isSome_iff_exists, ← h.values, ← h.values]
  simp only [dpidsOf_eq_some_iff h.injective, Prod.exists, exists_and_left, exists_and_right]

/-- A turn of one loop is a turn of the other: a hop whose switches are unknown is in neither graph. -/
theorem turn_eq {currentTopo : NxGraph Text} {targetTopo : NxGraph Int} {mapping : Dict Text Int}
    (h : IsIsomorphism currentTopo targetTopo mapping) (invalidEdges : Finset (Int × Int)) (hop : Int × Int) :
    ((dpidsOf mapping.inverse hop).bind fun dpids =>
      some (if currentTopo.HasEdge dpids.1 dpids.2 then invalidEdges else insert hop invalidEdges)) =
    if targetTopo.HasEdge hop.1 hop.2 then some invalidEdges
    else (dpidsOf mapping.inverse hop).map fun _ => insert hop invalidEdges := by
  cases hdpids : dpidsOf mapping.inverse hop with
  | none =>
      have hunknown : ¬targetTopo.HasEdge hop.1 hop.2 := by
        intro hedge
        have hsome := (isSome_dpidsOf_iff h hop).mpr hedge.mem_nodes
        rw [hdpids] at hsome
        cases hsome
      rw [if_neg hunknown]
      rfl
  | some dpids =>
      obtain ⟨hu, hv⟩ := (dpidsOf_eq_some_iff h.injective).mp hdpids
      have hedges := h.edges _ _ _ _ hu hv
      by_cases hedge : targetTopo.HasEdge hop.1 hop.2
      · rw [if_pos hedge, Option.bind_some, if_pos (hedges.mpr hedge)]
      · rw [if_neg hedge, Option.bind_some, if_neg fun hcurrent => hedge (hedges.mp hcurrent)]
        rfl

/-- What a loop of that kind collects. -/
theorem collect_eq_some_iff {valid : Int × Int → Prop} [DecidablePred valid] {known : Int × Int → Option (Text × Text)}
    {hops : List (Int × Int)} {start invalidEdges : Finset (Int × Int)} :
    hops.foldlM (fun invalidEdges hop => if valid hop then some invalidEdges
      else (known hop).map fun _ => insert hop invalidEdges) start = some invalidEdges ↔
    (∀ hop ∈ hops, ¬valid hop → (known hop).isSome) ∧
      invalidEdges = start ∪ (hops.filter fun hop => ¬valid hop).toFinset := by
  induction hops generalizing start with
  | nil =>
      rw [List.foldlM_nil, List.filter_nil, List.toFinset_nil, Finset.union_empty]
      constructor
      · intro heq
        exact ⟨fun hop hhop => absurd hhop List.not_mem_nil, (Option.some.inj heq).symm⟩
      · rintro ⟨-, rfl⟩
        rfl
  | cons hop hops ih =>
      rw [List.foldlM_cons]
      by_cases hvalid : valid hop
      · rw [if_pos hvalid, Option.bind_eq_bind, Option.bind_some, ih]
        simp [hvalid]
      · rw [if_neg hvalid]
        cases hknown : known hop with
        | none => simp [hvalid, hknown]
        | some dpids =>
            simp only [Option.map_some, Option.bind_eq_bind, Option.bind_some, ih, List.forall_mem_cons, hknown,
              Option.isSome_some, implies_true, true_and]
            rw [List.filter_cons_of_pos (by simpa using hvalid), List.toFinset_cons, Finset.insert_union,
              Finset.union_insert]

/-- The hops of all flows. -/
def allHops (flows : Dict Int PortMirroringFlow) : List (Int × Int) := flows.entries.flatMap fun entry => hopsOf entry.2

/-- The verifications agree. -/
theorem verifyFlowsAgainstNwTopo_eq (hmatcher : matcher.Documented) (flows : Dict Int PortMirroringFlow) :
    verifyFlowsAgainstNwTopo matcher onos targetTopoString flows =
      verifyFlowsAgainstTargetTopo matcher onos targetTopoString flows := by
  cases hvalidated : getAndValidateOnosTopo matcher onos targetTopoString with
  | none =>
      simp only [verifyFlowsAgainstNwTopo, verifyFlowsAgainstTargetTopo, hvalidated, Option.bind_eq_bind,
        Option.bind_none, Option.bind_fun_none]
  | some idToDpid =>
      obtain ⟨currentTopo, targetTopo, mapping, hcurrent, htarget, hiso, rfl⟩ :=
        getAndValidateOnosTopo_eq_some hmatcher hvalidated
      simp only [verifyFlowsAgainstNwTopo, verifyFlowsAgainstTargetTopo, hvalidated, hcurrent, htarget,
        Option.bind_eq_bind, Option.bind_some, Option.pure_def, turn_eq hiso]

/-- All hops are valid exactly when nothing is collected. -/
theorem collect_eq_empty_iff {targetTopo : NxGraph Int} {flows : Dict Int PortMirroringFlow} :
    flows.entries.foldlM (fun invalidEdges entry => (hopsOf entry.2).foldlM (fun invalidEdges hop =>
      if targetTopo.HasEdge hop.1 hop.2 then some invalidEdges
      else (dpidsOf idToDpid hop).map fun _ => insert hop invalidEdges) invalidEdges) (∅ : Finset (Int × Int)) =
        some ∅ ↔
    ∀ hop ∈ allHops flows, targetTopo.HasEdge hop.1 hop.2 := by
  rw [← foldlM_flatMap, collect_eq_some_iff, Finset.empty_union, eq_comm, List.toFinset_eq_empty_iff,
    List.filter_eq_nil_iff]
  constructor
  · rintro ⟨-, hnone⟩ hop hhop
    simpa using hnone hop hhop
  · intro hall
    exact ⟨fun hop hhop hinvalid => absurd (hall hop hhop) hinvalid, fun hop hhop => by simpa using hall hop hhop⟩

/-- Nothing is reported exactly when the topologies match and every hop is an edge of the text. -/
theorem verifyFlowsAgainstTargetTopo_eq_empty_iff (hmatcher : matcher.Documented)
    (flows : Dict Int PortMirroringFlow) :
    verifyFlowsAgainstTargetTopo matcher onos targetTopoString flows = some ∅ ↔
      ∃ currentTopo targetTopo mapping, onos.buildOnosTopoGraph = some currentTopo ∧
        buildGraphFromTopoString targetTopoString = some targetTopo ∧ IsIsomorphism currentTopo targetTopo mapping ∧
          ∀ hop ∈ allHops flows, targetTopo.HasEdge hop.1 hop.2 := by
  constructor
  · intro h
    simp only [verifyFlowsAgainstTargetTopo, Option.bind_eq_bind, Option.bind_eq_some_iff] at h
    obtain ⟨targetTopo, htarget, idToDpid, hvalidated, hcollected⟩ := h
    obtain ⟨currentTopo, targetTopo', mapping, hcurrent, htarget', hiso, -⟩ :=
      getAndValidateOnosTopo_eq_some hmatcher hvalidated
    obtain rfl : targetTopo = targetTopo' := Option.some.inj (htarget.symm.trans htarget')
    exact ⟨currentTopo, targetTopo, mapping, hcurrent, htarget, hiso, collect_eq_empty_iff.mp hcollected⟩
  · rintro ⟨currentTopo, targetTopo, mapping, hcurrent, htarget, hiso, hall⟩
    obtain ⟨mapping', hmapping'⟩ := Option.isSome_iff_exists.mp (hmatcher.complete _ _ _ hiso)
    have hvalidated : getAndValidateOnosTopo matcher onos targetTopoString = some mapping'.inverse := by
      rw [getAndValidateOnosTopo, hcurrent, htarget, Option.bind_eq_bind, Option.bind_some, Option.bind_eq_bind,
        Option.bind_some, hmapping']
      rfl
    rw [verifyFlowsAgainstTargetTopo, htarget, hvalidated, Option.bind_eq_bind, Option.bind_some, Option.bind_eq_bind,
      Option.bind_some]
    exact collect_eq_empty_iff.mpr hall

end Verified

/-- The controller lists every link in both directions, with the numbers of the ports. -/
structure Onos.ListsBothWays (onos : Onos) : Prop where
  back : ∀ link ∈ onos.getNwLinks, ∃ link' ∈ onos.getNwLinks,
    link'.src.device = link.dst.device ∧ link'.dst.device = link.src.device
  ports : ∀ link ∈ onos.getNwLinks, (int link.src.port).isSome ∧ (int link.dst.port).isSome

theorem Onos.ListsBothWays.isSome_getPortsThatConnect {onos : Onos} (h : onos.ListsBothWays) {graph : NxGraph Text}
    (hgraph : onos.buildOnosTopoGraph = some graph) {u v : Text} (hedge : graph.HasEdge u v) :
    (onos.getPortsThatConnect u v).isSome := by
  have hlink : ∃ link ∈ onos.getNwLinks, link.src.device = u ∧ link.dst.device = v := by
    obtain ⟨link, hmem, ⟨rfl, rfl⟩ | ⟨rfl, rfl⟩⟩ := exists_link_of_hasEdge hgraph hedge
    · exact ⟨link, hmem, rfl, rfl⟩
    · exact h.back link hmem
  have hfound : (onos.getNwLinks.find? fun link => link.src.device = u ∧ link.dst.device = v).isSome := by
    obtain ⟨link, hmem, hends⟩ := hlink
    exact List.find?_isSome.mpr ⟨link, hmem, decide_eq_true hends⟩
  obtain ⟨link, hlink⟩ := Option.isSome_iff_exists.mp hfound
  obtain ⟨hsource, hdestination⟩ := h.ports link (List.mem_of_find?_eq_some hlink)
  obtain ⟨sourcePort, hsource⟩ := Option.isSome_iff_exists.mp hsource
  obtain ⟨destinationPort, hdestination⟩ := Option.isSome_iff_exists.mp hdestination
  rw [getPortsThatConnect, hlink]
  simp [hsource, hdestination]

/-- Whatever the controller answers and whatever isomorphism is found, flows that are verified against the network and
against the text have the same result, an exception included. Nothing is reported exactly when the topologies are
isomorphic and all flows go along edges of the text; then, where the controller lists the links in both directions, the
ports of every hop are found. -/
theorem verifications_agree (matcher : GraphMatcher) (hmatcher : matcher.Documented) (onos : Onos)
    (targetTopoString : Text) (flows : Dict Int PortMirroringFlow) :
    verifyFlowsAgainstNwTopo matcher onos targetTopoString flows =
      verifyFlowsAgainstTargetTopo matcher onos targetTopoString flows ∧
    (verifyFlowsAgainstNwTopo matcher onos targetTopoString flows = some ∅ ↔
      ∃ currentTopo targetTopo mapping, onos.buildOnosTopoGraph = some currentTopo ∧
        buildGraphFromTopoString targetTopoString = some targetTopo ∧ IsIsomorphism currentTopo targetTopo mapping ∧
          ∀ hop ∈ allHops flows, targetTopo.HasEdge hop.1 hop.2) ∧
    (onos.ListsBothWays → verifyFlowsAgainstNwTopo matcher onos targetTopoString flows = some ∅ →
      ∃ idToDpid, getAndValidateOnosTopo matcher onos targetTopoString = some idToDpid ∧
        ∀ hop ∈ allHops flows, (onos.sourcePort idToDpid hop.1 hop.2).isSome) := by
  refine ⟨verifyFlowsAgainstNwTopo_eq hmatcher flows, ?_, fun hboth hempty => ?_⟩
  · rw [verifyFlowsAgainstNwTopo_eq hmatcher]
    exact verifyFlowsAgainstTargetTopo_eq_empty_iff hmatcher flows
  rw [verifyFlowsAgainstNwTopo_eq hmatcher] at hempty
  simp only [verifyFlowsAgainstTargetTopo, Option.bind_eq_bind, Option.bind_eq_some_iff] at hempty
  obtain ⟨targetTopo, htarget, idToDpid, hvalidated, hcollected⟩ := hempty
  refine ⟨idToDpid, hvalidated, fun hop hhop => ?_⟩
  obtain ⟨currentTopo, targetTopo', mapping, hcurrent, htarget', hiso, rfl⟩ :=
    getAndValidateOnosTopo_eq_some hmatcher hvalidated
  obtain rfl : targetTopo = targetTopo' := Option.some.inj (htarget.symm.trans htarget')
  have hedge := collect_eq_empty_iff.mp hcollected hop hhop
  obtain ⟨dpids, hdpids⟩ := Option.isSome_iff_exists.mp ((isSome_dpidsOf_iff hiso hop).mpr hedge.mem_nodes)
  obtain ⟨hu, hv⟩ := (dpidsOf_eq_some_iff hiso.injective).mp hdpids
  have hports := hboth.isSome_getPortsThatConnect hcurrent ((hiso.edges _ _ _ _ hu hv).mpr hedge)
  obtain ⟨ports, hports⟩ := Option.isSome_iff_exists.mp hports
  have hsource := (Dict.get?_inverse hiso.injective).mpr hu
  have hdestination := (Dict.get?_inverse hiso.injective).mpr hv
  rw [Onos.sourcePort, hsource, Option.bind_eq_bind, Option.bind_some, hdestination, Option.bind_eq_bind,
    Option.bind_some, hports]
  rfl

/-! ### Two switches -/

open Classical in
/-- Any isomorphism, where there is one. -/
noncomputable def anyIsomorphism : GraphMatcher := fun graph graph' =>
  if h : ∃ mapping, IsIsomorphism graph graph' mapping then some h.choose else none

theorem anyIsomorphism_documented : anyIsomorphism.Documented where
  sound := by
    intro graph graph' mapping h
    unfold anyIsomorphism at h
    split at h
    · rename_i hexists
      exact Option.some.inj h ▸ hexists.choose_spec
    · cases h
  complete := by
    intro graph graph' mapping h
    unfold anyIsomorphism
    rw [dif_pos ⟨mapping, h⟩]
    rfl

def pairOnos : Onos where
  links := [⟨⟨"of:a".toList, "3".toList⟩, ⟨"of:b".toList, "4".toList⟩, "DIRECT".toList⟩,
    ⟨⟨"of:b".toList, "4".toList⟩, ⟨"of:a".toList, "3".toList⟩, "DIRECT".toList⟩]
  hosts := []

theorem pairOnos_listsBothWays : pairOnos.ListsBothWays where
  back := by decide +kernel
  ports := by decide +kernel

/-- The text of two nodes and the edge between them. -/
def pairText : Text := "2\n1\n1 2\n".toList

def pairFlows : Dict Int PortMirroringFlow := .ofList [(1, ⟨1, 1, [(2, 7), (1, 8)]⟩)]

def pairGraph {ν : Type} (u v : ν) (h : u ≠ v) : NxGraph ν where
  nodes := [u, v]
  edges := [(u, v)]
  nodup := by simp [h]
  ends_mem := by simp

def pairIds : Dict Text Int := .ofList [("of:a".toList, 1), ("of:b".toList, 2)]

theorem isIsomorphism_pair : IsIsomorphism (pairGraph "of:a".toList "of:b".toList (by decide))
    (pairGraph (1 : Int) 2 (by decide)) pairIds := by
  have hget : ∀ u v, pairIds.get? u = some v ↔ (u = "of:a".toList ∧ v = 1) ∨ (u = "of:b".toList ∧ v = 2) := by
    intro u v
    rw [pairIds, Dict.get?_ofList (by decide)]
    simp
  refine ⟨fun u => ?_, fun v => ?_, fun u u' v hu hu' => ?_, fun u u' v v' hu hu' => ?_⟩
  · simp only [hget, pairGraph, List.mem_pair]
    constructor
    · rintro ⟨v, ⟨rfl, -⟩ | ⟨rfl, -⟩⟩ <;> simp
    · rintro (rfl | rfl)
      · exact ⟨1, Or.inl ⟨rfl, rfl⟩⟩
      · exact ⟨2, Or.inr ⟨rfl, rfl⟩⟩
  · simp only [hget, pairGraph, List.mem_pair]
    constructor
    · rintro ⟨u, ⟨-, rfl⟩ | ⟨-, rfl⟩⟩ <;> simp
    · rintro (rfl | rfl)
      · exact ⟨_, Or.inl ⟨rfl, rfl⟩⟩
      · exact ⟨_, Or.inr ⟨rfl, rfl⟩⟩
  · rw [hget] at hu hu'
    rcases hu with ⟨rfl, rfl⟩ | ⟨rfl, rfl⟩ <;> rcases hu' with ⟨rfl, h⟩ | ⟨rfl, h⟩ <;> first | rfl | cases h
  · rw [hget] at hu hu'
    rcases hu with ⟨rfl, rfl⟩ | ⟨rfl, rfl⟩ <;> rcases hu' with ⟨rfl, rfl⟩ | ⟨rfl, rfl⟩ <;> decide

theorem verifications_agree_pair :
    verifyFlowsAgainstNwTopo anyIsomorphism pairOnos pairText pairFlows = some ∅ ∧
    verifyFlowsAgainstTargetTopo anyIsomorphism pairOnos pairText pairFlows = some ∅ ∧
    ∃ idToDpid, getAndValidateOnosTopo anyIsomorphism pairOnos pairText = some idToDpid ∧
      (pairOnos.sourcePort idToDpid 2 1).isSome := by
  obtain ⟨hsame, hempty, hports⟩ :=
    verifications_agree anyIsomorphism anyIsomorphism_documented pairOnos pairText pairFlows
  have hverified : verifyFlowsAgainstNwTopo anyIsomorphism pairOnos pairText pairFlows = some ∅ := by
    refine hempty.mpr ⟨_, _, _, ?_, ?_, isIsomorphism_pair, ?_⟩
    · rfl
    · rfl
    · decide +kernel
  obtain ⟨idToDpid, hvalidated, hfound⟩ := hports pairOnos_listsBothWays hverified
  exact ⟨hverified, hsame ▸ hverified, idToDpid, hvalidated, hfound (2, 1) (by decide +kernel)⟩

end OfTestbed.PortMirroring
