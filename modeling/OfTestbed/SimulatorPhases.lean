import OfTestbed.SimulatorInvariant

/-!
The phases of a step, one after the other: inject, move, hop. Between two phases the simulation is
described by three numbers: how many messages each flow has sent, how many moves have been made, and which
hop is active. A step takes `n`, `n`, `n` to `n + 1`, `n + 1`, `n + 1`, one number per phase, and no lookup
in it fails.
-/

namespace OfTestbed.Simulator

open Lib

namespace Scenario

variable {scenario : Scenario}

/-- After `now` moves the share is at this node of its path. -/
def At (scenario : Scenario) (sent now : Nat) (nodeId : NodeId) (share : PathHoppingShare) : Prop :=
  ∃ seqNum < sent, ∃ path, scenario.Sent seqNum share path ∧ (walked path)[now - seqNum]? = some nodeId

/-- After `now` moves the share has reached the end of its path. -/
def Arrived (scenario : Scenario) (sent now : Nat) (share : PathHoppingShare) : Prop :=
  ∃ seqNum < sent, ∃ path, scenario.Sent seqNum share path ∧ (walked path).length ≤ now - seqNum

theorem At.mem_graphNodes {sent now : Nat} {nodeId : NodeId} {share : PathHoppingShare}
    (h : scenario.At sent now nodeId share) : nodeId ∈ scenario.graphNodes := by
  obtain ⟨seqNum, -, path, hsent, hget⟩ := h
  obtain ⟨setup, hsetup, hpath, -⟩ := hsent.mem_paths
  exact (scenario.wellFormed setup hsetup).inGraph path hpath nodeId
    ((walked_isPart path).subset (List.mem_of_getElem? hget))

/-! ### Nodes -/

/-- The nodes are those of the graph, and hold the shares that `holds` says. -/
structure Holds (scenario : Scenario) (holds : NodeId → PathHoppingShare → Prop)
    (nodes : Dict NodeId PathHoppingNode) : Prop where
  known : ∀ nodeId node, nodes.get? nodeId = some node → nodeId ∈ scenario.graphNodes
  entry : ∀ nodeId ∈ scenario.graphNodes, ∃ node, nodes.get? nodeId = some node ∧
    node.nodeId = nodeId ∧ ∀ share, share ∈ node.residentShares ↔ holds nodeId share

theorem Holds.mem_keySet {holds : NodeId → PathHoppingShare → Prop} {nodes : Dict NodeId PathHoppingNode}
    (h : scenario.Holds holds nodes) {nodeId : NodeId} :
    nodeId ∈ nodes.keySet ↔ nodeId ∈ scenario.graphNodes := by
  rw [Dict.mem_keySet, Option.isSome_iff_exists]
  refine ⟨fun ⟨node, hnode⟩ => h.known nodeId node hnode, fun hmem => ?_⟩
  obtain ⟨node, hnode, -⟩ := h.entry nodeId hmem
  exact ⟨node, hnode⟩

theorem Holds.congr {holds holds' : NodeId → PathHoppingShare → Prop}
    {nodes : Dict NodeId PathHoppingNode} (h : scenario.Holds holds nodes)
    (hiff : ∀ nodeId share, holds nodeId share ↔ holds' nodeId share) : scenario.Holds holds' nodes := by
  have heq : holds = holds' := by
    funext nodeId share
    exact propext (hiff nodeId share)
  exact heq ▸ h

theorem Holds.residentAt_iff {holds : NodeId → PathHoppingShare → Prop} {sim : PathHoppingSimulation}
    (h : scenario.Holds holds sim.nodes) {nodeId : NodeId} {share : PathHoppingShare} :
    share ∈ sim.residentAt nodeId ↔ nodeId ∈ scenario.graphNodes ∧ holds nodeId share := by
  by_cases hmem : nodeId ∈ scenario.graphNodes
  · obtain ⟨node, hnode, -, hshares⟩ := h.entry nodeId hmem
    simp [PathHoppingSimulation.residentAt, hnode, hshares, hmem]
  · have hnone : sim.nodes.get? nodeId = none := by
      rw [Dict.get?_eq_none_iff, ← List.mem_toFinset]
      exact fun hkey => hmem (h.mem_keySet.mp hkey)
    simp [PathHoppingSimulation.residentAt, hnone, hmem]

/-- Replacing one node. -/
theorem Holds.set {holds holds' : NodeId → PathHoppingShare → Prop} {nodes : Dict NodeId PathHoppingNode}
    (h : scenario.Holds holds nodes) (node : PathHoppingNode) (hmem : node.nodeId ∈ scenario.graphNodes)
    (hnode : ∀ share, share ∈ node.residentShares ↔ holds' node.nodeId share)
    (hother : ∀ nodeId, nodeId ≠ node.nodeId → ∀ share, holds nodeId share ↔ holds' nodeId share) :
    scenario.Holds holds' (nodes.set node.nodeId node) where
  known := by
    intro nodeId other hget
    by_cases hid : nodeId = node.nodeId
    · exact hid ▸ hmem
    · rw [Dict.get?_set_of_ne hid] at hget
      exact h.known nodeId other hget
  entry := by
    intro nodeId hnodeId
    by_cases hid : nodeId = node.nodeId
    · subst hid
      exact ⟨node, Dict.get?_set_self _ _ _, rfl, hnode⟩
    · obtain ⟨other, hget, hname, hshares⟩ := h.entry nodeId hnodeId
      refine ⟨other, by rw [Dict.get?_set_of_ne hid, hget], hname, fun share => ?_⟩
      rw [hshares, hother nodeId hid]

theorem Holds.injectShare {holds : NodeId → PathHoppingShare → Prop} (sim : PathHoppingSimulation)
    (h : scenario.Holds holds sim.nodes) {nodeId : NodeId} (hmem : nodeId ∈ scenario.graphNodes)
    (share : PathHoppingShare) :
    ∃ nodes, sim.injectShare nodeId share = some { sim with nodes := nodes } ∧
      scenario.Holds (fun v x => holds v x ∨ (v = nodeId ∧ x = share)) nodes := by
  obtain ⟨node, hnode, rfl, hshares⟩ := h.entry nodeId hmem
  refine ⟨sim.nodes.set node.nodeId (node.receiveShare share), ?_, ?_⟩
  · rw [PathHoppingSimulation.injectShare_eq, Dict.update?_of_some hnode]
    rfl
  · refine Holds.set h (node.receiveShare share) hmem ?_ ?_
    · intro x
      simp [hshares, or_comm]
    · intro v hne x
      have hv : v ≠ node.nodeId := hne
      simp [hv]

theorem Holds.injectMoves {holds : NodeId → PathHoppingShare → Prop} (sim : PathHoppingSimulation)
    (h : scenario.Holds holds sim.nodes) {moves : List (NodeId × PathHoppingShare)}
    (hmem : ∀ move ∈ moves, move.1 ∈ scenario.graphNodes) :
    ∃ nodes, moves.foldlM (fun sim move => sim.injectShare move.1 move.2) sim =
        some { sim with nodes := nodes } ∧
      scenario.Holds (fun v x => holds v x ∨ (v, x) ∈ moves) nodes := by
  have hloop := foldlM_total (fun s (move : NodeId × PathHoppingShare) => s.injectShare move.1 move.2)
    moves sim (fun done s => ∃ nodes, s = { sim with nodes := nodes } ∧
      scenario.Holds (fun v x => holds v x ∨ (v, x) ∈ done) nodes)
    ⟨sim.nodes, rfl, h.congr fun v x => by simp⟩ ?_
  · obtain ⟨final, hrun, nodes, rfl, hnodes⟩ := hloop
    exact ⟨nodes, hrun, hnodes⟩
  · intro done move rest s hl ⟨nodes, hs, hnodes⟩
    subst hs
    obtain ⟨nodes', hinject, hnodes'⟩ := Holds.injectShare { sim with nodes := nodes } hnodes
      (hmem move (by rw [hl]; simp)) move.2
    refine ⟨_, hinject, nodes', rfl, hnodes'.congr fun v x => ?_⟩
    rw [List.mem_append, List.mem_singleton, or_assoc, Prod.ext_iff]

/-! ### Injecting a message per flow -/

/-- The description of a simulation between two phases. -/
structure Phase (scenario : Scenario) (sent now active : Nat) (sim : PathHoppingSimulation) : Prop where
  nodes : scenario.Holds (scenario.At sent now) sim.nodes
  ledger : scenario.Ledger (fun _ => sent) (fun _ => active) sim.flows sim.deliveries
  nodup : sim.deliveries.Nodup
  mem_deliveries : ∀ share, share ∈ sim.deliveries ↔ scenario.Arrived sent now share

/-- The new message of each flow is at its source. -/
theorem at_succ_iff {n : Nat} {nodeId : NodeId} {share : PathHoppingShare} :
    scenario.At (n + 1) n nodeId share ↔ scenario.At n n nodeId share ∨
      ∃ setup ∈ scenario.setups, nodeId = setup.sourceNode ∧ share ∈ scenario.sharesOf setup n := by
  constructor
  · intro ⟨seqNum, hlt, path, hsent, hget⟩
    by_cases hnew : seqNum = n
    · subst hnew
      right
      rw [Nat.sub_self, hsent.head] at hget
      obtain ⟨setup, hsetup, -, hshare⟩ := hsent.mem_paths
      exact ⟨setup, hsetup, (Option.some.inj hget).symm.trans (mem_sharesOf.mp hshare).2.2.2.1, hshare⟩
    · exact Or.inl ⟨seqNum, by omega, path, hsent, hget⟩
  · rintro (⟨seqNum, hlt, path, hsent, hget⟩ | ⟨setup, hsetup, rfl, hshare⟩)
    · exact ⟨seqNum, by omega, path, hsent, hget⟩
    · obtain ⟨path, -, -, hsent⟩ := exists_sent hsetup hshare
      refine ⟨n, by omega, path, hsent, ?_⟩
      rw [Nat.sub_self, hsent.head, (mem_sharesOf.mp hshare).2.2.2.1]

theorem arrived_succ_iff {n : Nat} {share : PathHoppingShare} :
    scenario.Arrived (n + 1) n share ↔ scenario.Arrived n n share := by
  constructor
  · intro ⟨seqNum, hlt, path, hsent, hlen⟩
    have hpos := hsent.walked_pos
    exact ⟨seqNum, by omega, path, hsent, hlen⟩
  · intro ⟨seqNum, hlt, path, hsent, hlen⟩
    exact ⟨seqNum, by omega, path, hsent, hlen⟩

theorem arrivals_eq_zero {deliveries : Multiset PathHoppingShare} {n : Nat}
    (h : ∀ share ∈ deliveries, scenario.Arrived n n share) (flowId : FlowId) :
    arrivals deliveries flowId n = 0 := by
  rw [arrivals, Multiset.countP_eq_zero]
  intro share hshare hboth
  obtain ⟨seqNum, hlt, path, hsent, -⟩ := h share hshare
  have hseq := hsent.seqNum_eq
  omega

theorem injectFlow_spec {holds : NodeId → PathHoppingShare → Prop} {sent : FlowId → Nat} {n : Nat}
    (sim : PathHoppingSimulation) {setup : FlowSetup} (hsetup : setup ∈ scenario.setups)
    (hnodes : scenario.Holds holds sim.nodes)
    (hledger : scenario.Ledger sent (fun _ => n) sim.flows sim.deliveries) (hsent : sent setup.flowId = n)
    (hnone : arrivals sim.deliveries setup.flowId n = 0) :
    ∃ nodes flows, sim.injectFlow setup.flowId = some { sim with nodes := nodes, flows := flows } ∧
      scenario.Holds (fun v x => holds v x ∨ (v = setup.sourceNode ∧ x ∈ scenario.sharesOf setup n)) nodes ∧
      scenario.Ledger (Function.update sent setup.flowId (n + 1)) (fun _ => n) flows sim.deliveries := by
  have hwf := scenario.wellFormed setup hsetup
  obtain ⟨path, hpath⟩ := hwf.exists_path
  obtain ⟨flow, hget, hflow⟩ := hledger.entry setup hsetup
  rw [hsent] at hflow
  have hsource : flow.sourceNode = setup.sourceNode := hflow.sameSetup.2.1
  have hmoves : ∀ move ∈ (scenario.sharesOf setup n).map fun x => (setup.sourceNode, x),
      move.1 ∈ scenario.graphNodes := by
    intro move hmove
    obtain ⟨x, -, rfl⟩ := List.mem_map.mp hmove
    exact hwf.sourceNode_mem hpath
  obtain ⟨nodes, hrun, hheld⟩ := Holds.injectMoves sim hnodes hmoves
  refine ⟨nodes, sim.flows.set setup.flowId flow.createShares.2, ?_, ?_, ?_⟩
  · rw [List.foldlM_map] at hrun
    have hall : PathHoppingSimulation.injectAll setup.sourceNode (scenario.sharesOf setup n) sim =
        some { sim with nodes := nodes } := hrun
    rw [PathHoppingSimulation.injectFlow_eq, hget, Option.bind_some, hsource, hflow.createShares_fst, hall]
    rfl
  · refine hheld.congr fun v x => or_congr_right ?_
    simp only [List.mem_map, Prod.mk.injEq]
    exact ⟨fun ⟨y, hy, hv, hx⟩ => ⟨hv.symm, hx ▸ hy⟩, fun ⟨hv, hx⟩ => ⟨x, hx, hv.symm, rfl⟩⟩
  · refine hledger.set hsetup ?_ fun flowId hne => ⟨Function.update_of_ne hne _ _, rfl, rfl⟩
    rw [Function.update_self]
    exact hflow.createShares hwf.K_pos hnone

/-- The first loop of `step`. -/
theorem Phase.injectPackets {n : Nat} {sim : PathHoppingSimulation} (h : scenario.Phase n n n sim)
    (order : StepOrder) :
    ∃ nodes flows, sim.injectPackets order = some { sim with nodes := nodes, flows := flows } ∧
      scenario.Phase (n + 1) n n { sim with nodes := nodes, flows := flows } := by
  have hnone := arrivals_eq_zero fun share hshare => (h.mem_deliveries share).mp hshare
  have hkeys : ∀ flowId, flowId ∈ order.flows.list sim.flows.keySet ↔
      ∃ setup ∈ scenario.setups, setup.flowId = flowId := by
    intro flowId
    rw [order.flows.mem_list, h.ledger.mem_keySet]
  obtain ⟨final, hrun, nodes, flows, rfl, hnodes, hledger⟩ := foldlM_total
    PathHoppingSimulation.injectFlow (order.flows.list sim.flows.keySet) sim
    (fun done s => ∃ nodes flows, s = { sim with nodes := nodes, flows := flows } ∧
      scenario.Holds (fun v x => scenario.At n n v x ∨ ∃ setup ∈ scenario.setups,
        setup.flowId ∈ done ∧ v = setup.sourceNode ∧ x ∈ scenario.sharesOf setup n) nodes ∧
      scenario.Ledger (fun flowId => if flowId ∈ done then n + 1 else n) (fun _ => n) flows sim.deliveries)
    ⟨sim.nodes, sim.flows, rfl, h.nodes.congr fun v x => by simp, by simpa using h.ledger⟩ (by
      intro done flowId rest s hl ⟨nodes, flows, hs, hnodes, hledger⟩
      subst hs
      have hnew : flowId ∉ done := SetOrder.notMem_of_split hl
      obtain ⟨setup, hsetup, rfl⟩ := h.ledger.mem_keySet.mp (SetOrder.mem_of_split hl)
      obtain ⟨nodes', flows', hinject, hnodes', hledger'⟩ := injectFlow_spec
        { sim with nodes := nodes, flows := flows } hsetup hnodes hledger (if_neg hnew) (hnone setup.flowId)
      refine ⟨_, hinject, nodes', flows', rfl, hnodes'.congr fun v x => ?_, ?_⟩
      · simp only [List.mem_append, List.mem_singleton, or_assoc]
        refine or_congr_right ⟨?_, ?_⟩
        · rintro (⟨other, hother, hdone, hv, hx⟩ | ⟨hv, hx⟩)
          · exact ⟨other, hother, Or.inl hdone, hv, hx⟩
          · exact ⟨setup, hsetup, Or.inr rfl, hv, hx⟩
        · rintro ⟨other, hother, hdone | hid, hv, hx⟩
          · exact Or.inl ⟨other, hother, hdone, hv, hx⟩
          · cases setup_unique hother hsetup hid
            exact Or.inr ⟨hv, hx⟩
      · convert hledger' using 1
        funext other
        by_cases hid : other = setup.flowId
        · simp [hid]
        · simp [hid])
  refine ⟨nodes, flows, hrun, hnodes.congr fun v x => ?_, ?_, h.nodup, fun share => ?_⟩
  · rw [at_succ_iff]
    refine or_congr_right ⟨?_, ?_⟩
    · rintro ⟨setup, hsetup, -, hv, hx⟩
      exact ⟨setup, hsetup, hv, hx⟩
    · rintro ⟨setup, hsetup, hv, hx⟩
      exact ⟨setup, hsetup, (hkeys setup.flowId).mpr ⟨setup, hsetup, rfl⟩, hv, hx⟩
  · refine ⟨hledger.known, fun setup hsetup => ?_⟩
    have hentry := hledger.entry setup hsetup
    rwa [if_pos ((hkeys setup.flowId).mpr ⟨setup, hsetup, rfl⟩)] at hentry
  · rw [arrived_succ_iff]
    exact h.mem_deliveries share

/-! ### Moving every share one hop -/

/-- The next hop along a simple path. -/
theorem getNextHopForShare_eq {flow : PathHoppingFlow} {share : PathHoppingShare} {node : PathHoppingNode}
    {path : Path} (hpath : flow.paths[share.pathIdx]? = some path) (hnodup : path.Nodup) {k : Nat}
    (hk : (walked path)[k]? = some node.nodeId) :
    flow.getNextHopForShare share node =
      if k + 1 = (walked path).length then some (-1) else (walked path)[k + 1]? := by
  obtain ⟨hlt, hnode⟩ := List.getElem?_eq_some_iff.mp (getElem?_of_walked hk)
  have hidx : path.idxOf? node.nodeId = some k := by
    rw [List.idxOf?_eq_some_iff, ← hnode]
    refine ⟨hlt, by simp, fun j hj hjk => ?_⟩
    have hsame : j = k := hnodup.getElem_inj_iff.mp (by simpa using hjk)
    omega
  have hhop : flow.getNextHopForShare share node = if k + 1 = path.length then some (-1) else path[k + 1]? := by
    simp [PathHoppingFlow.getNextHopForShare, hpath, hidx]
  have hwalked := (List.getElem?_eq_some_iff.mp hk).1
  have hle := (walked_isPart path).length_le
  rw [hhop]
  by_cases hend : k + 1 = (walked path).length
  · -- the path ends here, or a node -1 comes next
    rw [if_pos hend]
    split
    · rfl
    · have hne : path ≠ [] := by
        rintro rfl
        cases hk
      obtain hnone | hsentinel := getElem?_length_walked hne
      · rw [List.getElem?_eq_none_iff] at hnone
        omega
      · rw [hend, hsentinel]
  · have hnext : (walked path)[k + 1]? = some (walked path)[k + 1] := List.getElem?_eq_getElem (by omega)
    rw [if_neg hend, if_neg (by omega), hnext]
    exact getElem?_of_walked hnext

section Moving

variable {n : Nat}

theorem Sent.nextHop {sent active : FlowId → Nat} {flows : Dict FlowId PathHoppingFlow}
    {deliveries : Multiset PathHoppingShare} (hledger : scenario.Ledger sent active flows deliveries)
    {seqNum : Nat} {share : PathHoppingShare} {path : Path} (h : scenario.Sent seqNum share path)
    {node : PathHoppingNode} {k : Nat} (hk : (walked path)[k]? = some node.nodeId) :
    PathHoppingSimulation.nextHop flows node share =
      if k + 1 = (walked path).length then some (-1) else (walked path)[k + 1]? := by
  obtain ⟨setup, hsetup, hshare, hpath⟩ := h
  obtain ⟨flow, hget, hflow⟩ := hledger.entry setup hsetup
  rw [PathHoppingSimulation.nextHop, (mem_sharesOf.mp hshare).2.1, hget, Option.bind_some]
  rw [← hflow.paths_eq] at hpath
  refine getNextHopForShare_eq hpath ?_ hk
  rw [hflow.paths_eq] at hpath
  exact (scenario.wellFormed setup hsetup).nodup path (List.mem_of_getElem? hpath)

/-- A message never has more than its own `K` shares delivered. -/
theorem arrivals_lt {deliveries : Multiset PathHoppingShare} (hnodup : deliveries.Nodup)
    (hsent : ∀ x ∈ deliveries, ∃ seqNum path, scenario.Sent seqNum x path) {setup : FlowSetup}
    (hsetup : setup ∈ scenario.setups) {seqNum : Nat} {share : PathHoppingShare}
    (hshare : share ∈ scenario.sharesOf setup seqNum) (hnew : share ∉ deliveries) :
    arrivals deliveries setup.flowId seqNum < setup.K := by
  have hmem := mem_sharesOf.mp hshare
  have hof : ∀ x ∈ share ::ₘ deliveries, x.flowId = setup.flowId ∧ x.seqNum = seqNum →
      x ∈ scenario.sharesOf setup seqNum := by
    intro x hx ⟨hid, hseq⟩
    rcases Multiset.mem_cons.mp hx with rfl | hx
    · exact hshare
    · obtain ⟨s, path, setup', hsetup', hx', -⟩ := hsent x hx
      cases setup_unique hsetup' hsetup ((mem_sharesOf.mp hx').2.1.symm.trans hid)
      cases (mem_sharesOf.mp hx').2.2.1.symm.trans hseq
      exact hx'
  have hle : (share ::ₘ deliveries).filter (fun x => x.flowId = setup.flowId ∧ x.seqNum = seqNum) ≤
      (scenario.sharesOf setup seqNum : Multiset PathHoppingShare) := by
    rw [Multiset.le_iff_subset ((Multiset.nodup_cons.mpr ⟨hnew, hnodup⟩).filter _)]
    intro x hx
    exact hof x (Multiset.mem_filter.mp hx).1 (Multiset.mem_filter.mp hx).2
  have hcard := Multiset.card_le_card hle
  rw [← Multiset.countP_eq_card_filter, Multiset.countP_cons, if_pos ⟨hmem.2.1, hmem.2.2.1⟩,
    Multiset.coe_card, length_sharesOf hsetup] at hcard
  exact hcard

/-- The moving loop after the shares in `moved` have been dealt with. -/
structure Moved (scenario : Scenario) (n : Nat) (moved : PathHoppingShare → Prop)
    (flows : Dict FlowId PathHoppingFlow) (deliveries : Multiset PathHoppingShare)
    (toInject : Finset (NodeId × PathHoppingShare)) : Prop where
  ledger : scenario.Ledger (fun _ => n + 1) (fun _ => n) flows deliveries
  nodup : deliveries.Nodup
  mem_deliveries : ∀ share, share ∈ deliveries ↔
    scenario.Arrived (n + 1) n share ∨ (moved share ∧ scenario.Arrived (n + 1) (n + 1) share)
  mem_toInject : ∀ nodeId share, (nodeId, share) ∈ toInject ↔
    moved share ∧ scenario.At (n + 1) (n + 1) nodeId share

variable {moved : PathHoppingShare → Prop} {flows : Dict FlowId PathHoppingFlow}
  {deliveries : Multiset PathHoppingShare} {toInject : Finset (NodeId × PathHoppingShare)}

theorem Moved.sent (h : scenario.Moved n moved flows deliveries toInject) :
    ∀ x ∈ deliveries, ∃ seqNum path, scenario.Sent seqNum x path := by
  intro x hx
  rcases (h.mem_deliveries x).mp hx with ⟨seqNum, -, path, hsent, -⟩ | ⟨-, seqNum, -, path, hsent, -⟩ <;>
    exact ⟨seqNum, path, hsent⟩

theorem at_iff {sent now seqNum : Nat} {share : PathHoppingShare} {path : Path}
    (h : scenario.Sent seqNum share path) (hlt : seqNum < sent) {nodeId : NodeId} :
    scenario.At sent now nodeId share ↔ (walked path)[now - seqNum]? = some nodeId := by
  refine ⟨fun ⟨s, _, path', hsent, hget⟩ => ?_, fun hget => ⟨seqNum, hlt, path, h, hget⟩⟩
  obtain ⟨rfl, rfl⟩ := hsent.unique h
  exact hget

theorem arrived_iff {sent now seqNum : Nat} {share : PathHoppingShare} {path : Path}
    (h : scenario.Sent seqNum share path) (hlt : seqNum < sent) :
    scenario.Arrived sent now share ↔ (walked path).length ≤ now - seqNum := by
  refine ⟨fun ⟨s, _, path', hsent, hlen⟩ => ?_, fun hlen => ⟨seqNum, hlt, path, h, hlen⟩⟩
  obtain ⟨rfl, rfl⟩ := hsent.unique h
  exact hlen

theorem exists_at {sent now seqNum : Nat} {share : PathHoppingShare} {path : Path}
    (h : scenario.Sent seqNum share path) (hlt : seqNum < sent) (hlen : now - seqNum < (walked path).length) :
    ∃ nodeId, scenario.At sent now nodeId share :=
  ⟨(walked path)[now - seqNum], (at_iff h hlt).mpr (List.getElem?_eq_getElem hlen)⟩

/-- A share that is at a node was at a node one move ago. -/
theorem At.exists_before {nodeId : NodeId} {share : PathHoppingShare}
    (h : scenario.At (n + 1) (n + 1) nodeId share) : ∃ nodeId', scenario.At (n + 1) n nodeId' share := by
  obtain ⟨seqNum, hlt, path, hsent, hget⟩ := h
  have hlen := (List.getElem?_eq_some_iff.mp hget).1
  exact exists_at hsent hlt (by omega)

/-- A share has arrived when it had before, or was at a node before and has now. -/
theorem arrived_move_iff {share : PathHoppingShare} :
    scenario.Arrived (n + 1) n share ∨
      ((∃ nodeId, scenario.At (n + 1) n nodeId share) ∧ scenario.Arrived (n + 1) (n + 1) share) ↔
    scenario.Arrived (n + 1) (n + 1) share := by
  constructor
  · rintro (⟨seqNum, hlt, path, hsent, hlen⟩ | ⟨-, harrived⟩)
    · exact ⟨seqNum, hlt, path, hsent, by omega⟩
    · exact harrived
  · rintro ⟨seqNum, hlt, path, hsent, hlen⟩
    by_cases hbefore : (walked path).length ≤ n - seqNum
    · exact Or.inl ⟨seqNum, hlt, path, hsent, hbefore⟩
    · exact Or.inr ⟨exists_at hsent hlt (by omega), seqNum, hlt, path, hsent, hlen⟩

/-- A share at the end of its path is delivered. -/
theorem Moved.arrive (h : scenario.Moved n moved flows deliveries toInject) {seqNum : Nat}
    {share : PathHoppingShare} {path : Path} (hsent : scenario.Sent seqNum share path) (hlt : seqNum < n + 1)
    (hend : n - seqNum + 1 = (walked path).length) (hnew : ¬moved share) :
    ∃ flows', (flows.update? share.flowId fun flow => flow.receiveShare share) = some flows' ∧
      scenario.Moved n (fun x => moved x ∨ x = share) flows' (share ::ₘ deliveries) toInject := by
  obtain ⟨setup, hsetup, hpath, hshare⟩ := hsent.mem_paths
  have hnotin : share ∉ deliveries := by
    rw [h.mem_deliveries, arrived_iff hsent hlt]
    rintro (hle | ⟨hmoved, -⟩)
    · omega
    · exact hnew hmoved
  have hid := (mem_sharesOf.mp hshare).2.1
  have hseq := (mem_sharesOf.mp hshare).2.2.1
  obtain ⟨flows', hupdate, hledger⟩ := h.ledger.deliver hsetup hid (by omega)
    (hseq.symm ▸ arrivals_lt h.nodup h.sent hsetup hshare hnotin)
  refine ⟨flows', hupdate, hledger, Multiset.nodup_cons.mpr ⟨hnotin, h.nodup⟩, fun x => ?_, fun v x => ?_⟩
  · rw [Multiset.mem_cons, h.mem_deliveries]
    by_cases hx : x = share
    · subst hx
      have hnow : scenario.Arrived (n + 1) (n + 1) x := (arrived_iff hsent hlt).mpr (by omega)
      simp [hnow]
    · simp [hx]
  · rw [h.mem_toInject]
    by_cases hx : x = share
    · subst hx
      have hnone : (walked path)[n + 1 - seqNum]? = none := List.getElem?_eq_none (by omega)
      simp [at_iff hsent hlt, hnone]
    · simp [hx]

/-- A share before the end of its path goes to its next node. -/
theorem Moved.travel (h : scenario.Moved n moved flows deliveries toInject) {seqNum : Nat}
    {share : PathHoppingShare} {path : Path} (hsent : scenario.Sent seqNum share path) (hlt : seqNum < n + 1)
    {nextHop : NodeId} (hhop : (walked path)[n - seqNum + 1]? = some nextHop) (hnew : ¬moved share) :
    scenario.Moved n (fun x => moved x ∨ x = share) flows deliveries (insert (nextHop, share) toInject) := by
  have hnext := (List.getElem?_eq_some_iff.mp hhop).1
  refine ⟨h.ledger, h.nodup, fun x => ?_, fun v x => ?_⟩
  · rw [h.mem_deliveries]
    by_cases hx : x = share
    · subst hx
      simp only [arrived_iff hsent hlt, hnew, false_and, or_false, or_true, true_and]
      omega
    · simp [hx]
  · rw [Finset.mem_insert, h.mem_toInject, Prod.mk.injEq]
    by_cases hx : x = share
    · subst hx
      have hk : n + 1 - seqNum = n - seqNum + 1 := by omega
      simp only [at_iff hsent hlt, hk, hhop, hnew, false_and, or_false, and_true, or_true, true_and,
        Option.some.injEq]
      exact eq_comm
    · simp [hx]

/-- One turn of the moving loop. -/
theorem Moved.moveShare (h : scenario.Moved n moved flows deliveries toInject) (sim : PathHoppingSimulation)
    {node : PathHoppingNode} {share : PathHoppingShare} (hat : scenario.At (n + 1) n node.nodeId share)
    (hnew : ¬moved share) :
    ∃ flows' deliveries' toInject',
      PathHoppingSimulation.moveShare node ⟨{ sim with flows := flows, deliveries := deliveries }, toInject⟩ share =
        some ⟨{ sim with flows := flows', deliveries := deliveries' }, toInject'⟩ ∧
      scenario.Moved n (fun x => moved x ∨ x = share) flows' deliveries' toInject' := by
  obtain ⟨seqNum, hlt, path, hsent, hget⟩ := hat
  have hlen : n - seqNum < (walked path).length := (List.getElem?_eq_some_iff.mp hget).1
  rw [PathHoppingSimulation.moveShare_eq, hsent.nextHop h.ledger hget]
  by_cases hend : n - seqNum + 1 = (walked path).length
  · obtain ⟨flows', hupdate, hmoved⟩ := h.arrive hsent hlt hend hnew
    refine ⟨flows', share ::ₘ deliveries, toInject, ?_, hmoved⟩
    rw [if_pos hend]
    simp only [PathHoppingSimulation.moveTo, Option.bind_some, if_true, PathHoppingSimulation.deliver_eq,
      hupdate, Option.map_some]
  · have hnext : n - seqNum + 1 < (walked path).length := by omega
    have hhop : (walked path)[n - seqNum + 1]? = some (walked path)[n - seqNum + 1] := List.getElem?_eq_getElem hnext
    refine ⟨flows, deliveries, insert ((walked path)[n - seqNum + 1], share) toInject, ?_,
      h.travel hsent hlt hhop hnew⟩
    rw [if_neg hend]
    simp only [PathHoppingSimulation.moveTo, hhop, Option.bind_some, if_neg (ne_of_getElem?_walked hhop)]

/-- The loop over the shares of one node, none of which has been moved. -/
theorem Moved.moveAll (sim : PathHoppingSimulation)
    (h : scenario.Moved n moved flows deliveries toInject) (order : SetOrder PathHoppingShare)
    {node : PathHoppingNode} (hat : ∀ share ∈ node.residentShares, scenario.At (n + 1) n node.nodeId share)
    (hnew : ∀ share ∈ node.residentShares, ¬moved share) :
    ∃ flows' deliveries' toInject',
      PathHoppingSimulation.moveAll node (order.list node.residentShares)
          ⟨{ sim with flows := flows, deliveries := deliveries }, toInject⟩ =
        some ⟨{ sim with flows := flows', deliveries := deliveries' }, toInject'⟩ ∧
      scenario.Moved n (fun x => moved x ∨ x ∈ node.residentShares) flows' deliveries' toInject' := by
  obtain ⟨final, hrun, flows', deliveries', toInject', rfl, hmoved⟩ := foldlM_total
    (PathHoppingSimulation.moveShare node) (order.list node.residentShares)
    ⟨{ sim with flows := flows, deliveries := deliveries }, toInject⟩
    (fun done m => ∃ flows' deliveries' toInject',
      m = ⟨{ sim with flows := flows', deliveries := deliveries' }, toInject'⟩ ∧
      scenario.Moved n (fun x => moved x ∨ x ∈ done) flows' deliveries' toInject')
    ⟨flows, deliveries, toInject, rfl, by simpa using h⟩ (by
      intro done share rest m hl ⟨flows', deliveries', toInject', hm, hmoved⟩
      subst hm
      have hmem : share ∈ node.residentShares := SetOrder.mem_of_split hl
      have hfresh : ¬(moved share ∨ share ∈ done) := by
        rintro (hold | hdone)
        · exact hnew share hmem hold
        · exact SetOrder.notMem_of_split hl hdone
      obtain ⟨flows'', deliveries'', toInject'', hmove, hmoved'⟩ :=
        hmoved.moveShare sim (hat share hmem) hfresh
      refine ⟨_, hmove, flows'', deliveries'', toInject'', rfl, ?_⟩
      simpa only [List.mem_append, List.mem_singleton, or_assoc] using hmoved')
  refine ⟨flows', deliveries', toInject', hrun, ?_⟩
  simpa only [order.mem_list] using hmoved

/-- All shares of one node. -/
theorem Moved.moveNode {done : List NodeId} (sim : PathHoppingSimulation) {nodes : Dict NodeId PathHoppingNode}
    (hnodes : scenario.Holds (fun v x => v ∉ done ∧ scenario.At (n + 1) n v x) nodes)
    (h : scenario.Moved n (fun x => ∃ v ∈ done, scenario.At (n + 1) n v x) flows deliveries toInject)
    (order : StepOrder) {nodeId : NodeId} (hmem : nodeId ∈ scenario.graphNodes) (hnew : nodeId ∉ done) :
    ∃ nodes' flows' deliveries' toInject',
      PathHoppingSimulation.moveNode order
          ⟨{ sim with nodes := nodes, flows := flows, deliveries := deliveries }, toInject⟩ nodeId =
        some ⟨{ sim with nodes := nodes', flows := flows', deliveries := deliveries' }, toInject'⟩ ∧
      scenario.Holds (fun v x => v ∉ done ++ [nodeId] ∧ scenario.At (n + 1) n v x) nodes' ∧
      scenario.Moved n (fun x => ∃ v ∈ done ++ [nodeId], scenario.At (n + 1) n v x) flows' deliveries'
        toInject' := by
  obtain ⟨node, hnode, rfl, hshares⟩ := hnodes.entry nodeId hmem
  have hresident : ∀ x, x ∈ node.residentShares ↔ scenario.At (n + 1) n node.nodeId x := by
    intro x
    rw [hshares]
    exact and_iff_right hnew
  -- a share is at one node only, so the shares here were not met at the nodes before
  have hfresh : ∀ x ∈ node.residentShares, ¬∃ v ∈ done, scenario.At (n + 1) n v x := by
    rintro x hx ⟨v, hv, hatv⟩
    obtain ⟨seqNum, hlt, path, hsent, hget⟩ := (hresident x).mp hx
    rw [at_iff hsent hlt, hget] at hatv
    exact hnew (Option.some.inj hatv ▸ hv)
  obtain ⟨flows', deliveries', toInject', hall, hmoved⟩ := h.moveAll { sim with nodes := nodes }
    (order.resident node.nodeId) (fun x hx => (hresident x).mp hx) hfresh
  refine ⟨nodes.set node.nodeId node.clearResidentPackets, flows', deliveries', toInject', ?_, ?_, ?_⟩
  · rw [PathHoppingSimulation.moveNode_eq, hnode, Option.bind_some, hall]
    rfl
  · refine hnodes.set node.clearResidentPackets hmem ?_ ?_
    · intro x
      simp [PathHoppingNode.clearResidentPackets]
    · intro v hne x
      have hv : v ≠ node.nodeId := hne
      simp [hv]
  · have hpred : (fun x => (∃ v ∈ done, scenario.At (n + 1) n v x) ∨ x ∈ node.residentShares) =
        fun x => ∃ v ∈ done ++ [node.nodeId], scenario.At (n + 1) n v x := by
      funext x
      rw [hresident]
      simp [or_and_right, exists_or]
    rw [← hpred]
    exact hmoved

/-- The second and third loop of `step`. -/
theorem Phase.movePackets {sim : PathHoppingSimulation} (h : scenario.Phase (n + 1) n n sim) (order : StepOrder) :
    ∃ nodes flows deliveries,
      sim.movePackets order =
        some { sim with nodes := nodes, flows := flows, deliveries := deliveries } ∧
      scenario.Phase (n + 1) (n + 1) n
        { sim with nodes := nodes, flows := flows, deliveries := deliveries } := by
  have hkeys : ∀ nodeId, nodeId ∈ order.nodes.list sim.nodes.keySet ↔ nodeId ∈ scenario.graphNodes := by
    intro nodeId
    rw [order.nodes.mem_list, h.nodes.mem_keySet]
  obtain ⟨final, hrun, nodes, flows, deliveries, toInject, rfl, hnodes, hmoved⟩ := foldlM_total
    (PathHoppingSimulation.moveNode order) (order.nodes.list sim.nodes.keySet) ⟨sim, ∅⟩
    (fun done m => ∃ nodes flows deliveries toInject,
      m = ⟨{ sim with nodes := nodes, flows := flows, deliveries := deliveries }, toInject⟩ ∧
      scenario.Holds (fun v x => v ∉ done ∧ scenario.At (n + 1) n v x) nodes ∧
      scenario.Moved n (fun x => ∃ v ∈ done, scenario.At (n + 1) n v x) flows deliveries toInject)
    ⟨sim.nodes, sim.flows, sim.deliveries, ∅, rfl, h.nodes.congr fun v x => by simp,
      h.ledger, h.nodup, fun x => by simpa using h.mem_deliveries x, fun v x => by simp⟩ (by
      intro done nodeId rest m hl ⟨nodes, flows, deliveries, toInject, hm, hnodes, hmoved⟩
      subst hm
      have hmem : nodeId ∈ scenario.graphNodes := h.nodes.mem_keySet.mp (SetOrder.mem_of_split hl)
      obtain ⟨nodes', flows', deliveries', toInject', hmove, hnodes', hmoved'⟩ :=
        Moved.moveNode sim hnodes hmoved order hmem (SetOrder.notMem_of_split hl)
      exact ⟨_, hmove, nodes', flows', deliveries', toInject', rfl, hnodes', hmoved'⟩)
  have hmovedAll : ∀ x, (∃ v ∈ order.nodes.list sim.nodes.keySet, scenario.At (n + 1) n v x) ↔
      ∃ v, scenario.At (n + 1) n v x := by
    intro x
    refine ⟨fun ⟨v, _, hx⟩ => ⟨v, hx⟩, fun ⟨v, hx⟩ => ⟨v, (hkeys v).mpr hx.mem_graphNodes, hx⟩⟩
  have htoInject : ∀ v x, (v, x) ∈ order.moved.list toInject ↔ scenario.At (n + 1) (n + 1) v x := by
    intro v x
    rw [order.moved.mem_list, hmoved.mem_toInject, hmovedAll, and_iff_right_iff_imp]
    exact At.exists_before
  have hinGraph : ∀ move ∈ order.moved.list toInject, move.1 ∈ scenario.graphNodes := by
    intro move hmove
    exact ((htoInject move.1 move.2).mp hmove).mem_graphNodes
  obtain ⟨nodes', hinject, hheld⟩ := Holds.injectMoves
    { sim with nodes := nodes, flows := flows, deliveries := deliveries } hnodes hinGraph
  refine ⟨nodes', flows, deliveries, ?_, hheld.congr ?_, hmoved.ledger, hmoved.nodup, ?_⟩
  · rw [PathHoppingSimulation.movePackets, hrun]
    exact hinject
  · intro v x
    rw [htoInject, or_iff_right]
    intro ⟨hout, hx⟩
    exact hout ((hkeys v).mpr hx.mem_graphNodes)
  · intro x
    rw [hmoved.mem_deliveries, hmovedAll, arrived_move_iff]

end Moving

/-! ### Hopping, and the whole step -/

/-- The fourth loop of `step`. -/
theorem Phase.hopFlows {n : Nat} {sim : PathHoppingSimulation} (h : scenario.Phase (n + 1) (n + 1) n sim)
    (order : StepOrder) :
    ∃ flows, sim.hopFlows order (fun flowId => scenario.hops flowId (n + 1)) =
        some { sim with flows := flows } ∧
      scenario.Phase (n + 1) (n + 1) (n + 1) { sim with flows := flows } := by
  have hkeys : ∀ flowId, flowId ∈ order.hopping.list sim.flows.keySet ↔
      ∃ setup ∈ scenario.setups, setup.flowId = flowId := by
    intro flowId
    rw [order.hopping.mem_list, h.ledger.mem_keySet]
  obtain ⟨final, hrun, flows, rfl, hledger⟩ := foldlM_total
    (PathHoppingSimulation.hopFlow fun flowId => scenario.hops flowId (n + 1))
    (order.hopping.list sim.flows.keySet) sim
    (fun done s => ∃ flows, s = { sim with flows := flows } ∧
      scenario.Ledger (fun _ => n + 1) (fun flowId => if flowId ∈ done then n + 1 else n) flows
        sim.deliveries)
    ⟨sim.flows, rfl, by simpa using h.ledger⟩ (by
      intro done flowId rest s hl ⟨flows, hs, hledger⟩
      subst hs
      obtain ⟨setup, hsetup, rfl⟩ := h.ledger.mem_keySet.mp (SetOrder.mem_of_split hl)
      obtain ⟨flow, hget, hflow⟩ := hledger.entry setup hsetup
      obtain ⟨flow', hhop, hflow'⟩ := hflow.hop (scenario.wellFormed setup hsetup).K_le (n + 1)
      refine ⟨{ sim with flows := flows.set setup.flowId flow' }, ?_, _, rfl, ?_⟩
      · simp only [PathHoppingSimulation.hopFlow, Dict.update?_of_some hget, hhop]
        rfl
      · refine hledger.set hsetup (by simpa using hflow') fun other hne => ?_
        simp [hne])
  refine ⟨flows, hrun, h.nodes, ⟨hledger.known, fun setup hsetup => ?_⟩, h.nodup, h.mem_deliveries⟩
  have hentry := hledger.entry setup hsetup
  rwa [if_pos ((hkeys setup.flowId).mpr ⟨setup, hsetup, rfl⟩)] at hentry

/-- The network part of a step takes the description to the next time, and does not raise. -/
theorem Phase.advance {n : Nat} {sim : PathHoppingSimulation} (h : scenario.Phase n n n sim) (order : StepOrder) :
    ∃ moved, sim.advance order (fun flowId => scenario.hops flowId (n + 1)) = some moved ∧
      scenario.Phase (n + 1) (n + 1) (n + 1) moved := by
  obtain ⟨nodes, flows, hinject, hinjected⟩ := h.injectPackets order
  obtain ⟨nodes', flows', deliveries, hmove, hmoved⟩ := hinjected.movePackets order
  obtain ⟨flows'', hhop, hhopped⟩ := hmoved.hopFlows order
  refine ⟨_, ?_, hhopped⟩
  rw [PathHoppingSimulation.advance, hinject]
  change (PathHoppingSimulation.movePackets _ order).bind _ = _
  rw [hmove]
  exact hhop

end Scenario

end OfTestbed.Simulator
