import Mathlib.Order.Lex
import Mathlib.Data.List.Lex
import Mathlib.Data.List.TakeWhile
import OfTestbed.SimulatorOrder

/-!
Runs of a simulation from its start. A scenario fixes everything a run without attackers depends on: the
nodes of the graph, the flows with their paths, and the outcome of every `hop`. Its fields state what
`create_random_flow` and `np.random.choice` provide, so every scenario is a run the program can make.
From the outcomes it is known which share is sent on which path; where a share is at a given time, and
what each flow has counted by then, is stated in these terms.
-/

namespace OfTestbed.Simulator

open Lib

namespace PathHoppingShare

def identifiers (share : PathHoppingShare) : List Int :=
  [share.flowId, share.seqNum, share.shareNum, share.pathIdx, share.sourceNode, share.sinkNode]

theorem identifiers_injective : Function.Injective identifiers := by
  intro ⟨f, s, i, p, a, b⟩ ⟨f', s', i', p', a', b'⟩ h
  simp only [identifiers, List.cons.injEq, Int.ofNat_inj, and_true] at h
  obtain ⟨rfl, rfl, rfl, rfl, rfl, rfl⟩ := h
  rfl

end PathHoppingShare

/-- What a flow is created from. -/
structure FlowSetup where
  flowId : FlowId
  sourceNode : NodeId
  sinkNode : NodeId
  paths : List Path
  K : Nat

namespace FlowSetup

/-- Simple paths from source to sink through nodes of the graph, and at least `K ≥ 1` of them. -/
structure WellFormed (graphNodes : List NodeId) (setup : FlowSetup) : Prop where
  nodup : ∀ path ∈ setup.paths, path.Nodup
  head : ∀ path ∈ setup.paths, path.head? = some setup.sourceNode
  last : ∀ path ∈ setup.paths, path.getLast? = some setup.sinkNode
  inGraph : ∀ path ∈ setup.paths, ∀ nodeId ∈ path, nodeId ∈ graphNodes
  K_pos : 1 ≤ setup.K
  K_le : setup.K ≤ setup.paths.length

/-- An outcome of `hop`: `K` distinct path indices. -/
structure HopOutcome (setup : FlowSetup) (outcome : List Nat) : Prop where
  length : outcome.length = setup.K
  nodup : outcome.Nodup
  lt : ∀ pathIdx ∈ outcome, pathIdx < setup.paths.length

/-- The flow after its first `hop`. -/
def started (setup : FlowSetup) (outcome : List Nat) : PathHoppingFlow :=
  { PathHoppingFlow.new setup.flowId setup.sourceNode setup.sinkNode setup.paths setup.K with
    activePaths := outcome }

theorem WellFormed.sourceNode_mem {graphNodes : List NodeId} {setup : FlowSetup}
    (h : setup.WellFormed graphNodes) {path : Path} (hpath : path ∈ setup.paths) :
    setup.sourceNode ∈ graphNodes :=
  h.inGraph path hpath _ (List.mem_of_head? (h.head path hpath))

theorem WellFormed.sinkNode_mem {graphNodes : List NodeId} {setup : FlowSetup}
    (h : setup.WellFormed graphNodes) {path : Path} (hpath : path ∈ setup.paths) :
    setup.sinkNode ∈ graphNodes :=
  h.inGraph path hpath _ (List.mem_of_getLast? (h.last path hpath))

theorem WellFormed.exists_path {graphNodes : List NodeId} {setup : FlowSetup}
    (h : setup.WellFormed graphNodes) : ∃ path, path ∈ setup.paths := by
  have hpos : 0 < setup.paths.length := Nat.lt_of_lt_of_le h.K_pos h.K_le
  exact List.exists_mem_of_length_pos hpos

/-- `create_random_flow` returns the started flow when `node_disjoint_paths` found at least `N` paths. -/
theorem WellFormed.createRandomFlow_eq {graphNodes : List NodeId} {setup : FlowSetup}
    (h : setup.WellFormed graphNodes) {N : Nat} (hN : N ≤ setup.paths.length) (outcome : List Nat) :
    PathHoppingFlow.createRandomFlow graphNodes setup.paths N setup.K setup.sourceNode setup.sinkNode
      setup.flowId outcome = some (setup.started outcome) := by
  obtain ⟨path, hpath⟩ := h.exists_path
  have hhop : (PathHoppingFlow.new setup.flowId setup.sourceNode setup.sinkNode setup.paths setup.K).hop
      outcome = some (setup.started outcome) :=
    PathHoppingFlow.hop_eq_some_iff.mpr ⟨h.K_le, rfl⟩
  simp [PathHoppingFlow.createRandomFlow, h.sourceNode_mem hpath, h.sinkNode_mem hpath, hN, hhop]

end FlowSetup

/-- The nodes of a path that its shares get to: up to the first one, after the source, that is taken for the end. -/
def walked : Path → Path
  | [] => []
  | sourceNode :: rest => sourceNode :: rest.takeWhile (· ≠ -1)

theorem walked_isPart (path : Path) : walked path <+: path := by
  cases path with
  | nil => exact List.prefix_rfl
  | cons sourceNode rest => exact List.prefix_cons_inj sourceNode |>.mpr (List.takeWhile_prefix _)

theorem walked_eq_self {path : Path} (h : (-1 : NodeId) ∉ path.tail) : walked path = path := by
  cases path with
  | nil => rfl
  | cons sourceNode rest =>
      have hall : rest.takeWhile (fun nodeId : NodeId => decide (nodeId ≠ -1)) = rest := by
        rw [List.takeWhile_eq_self_iff]
        intro nodeId hmem
        exact decide_eq_true fun heq => h (heq ▸ hmem)
      rw [walked, hall]

theorem head?_walked (path : Path) : (walked path).head? = path.head? := by
  cases path <;> rfl

theorem getElem?_of_walked {path : Path} {k : Nat} {nodeId : NodeId} (h : (walked path)[k]? = some nodeId) :
    path[k]? = some nodeId := by
  obtain ⟨hlt, rfl⟩ := List.getElem?_eq_some_iff.mp h
  obtain ⟨rest, heq⟩ := walked_isPart path
  conv_lhs => rw [← heq]
  rw [List.getElem?_append_left hlt, List.getElem?_eq_getElem hlt]

/-- What comes after the walked part of a path is its end or the node that is taken for it. -/
theorem getElem?_length_walked {path : Path} (h : path ≠ []) :
    path[(walked path).length]? = none ∨ path[(walked path).length]? = some (-1) := by
  cases path with
  | nil => exact absurd rfl h
  | cons sourceNode rest =>
      rw [walked, List.length_cons, List.getElem?_cons_succ]
      induction rest with
      | nil => exact Or.inl rfl
      | cons nodeId rest ih =>
          by_cases hend : nodeId = -1
          · subst hend
            exact Or.inr rfl
          · rw [List.takeWhile_cons_of_pos (by simpa using hend), List.length_cons, List.getElem?_cons_succ]
            exact ih (List.cons_ne_nil _ _)

theorem ne_of_getElem?_walked {path : Path} {k : Nat} {nodeId : NodeId} (h : (walked path)[k + 1]? = some nodeId) :
    nodeId ≠ -1 := by
  cases path with
  | nil => cases h
  | cons sourceNode rest =>
      rw [walked, List.getElem?_cons_succ] at h
      have hkept := List.mem_takeWhile_imp (List.mem_of_getElem? h)
      exact of_decide_eq_true hkept

/-- `hops f 0` is the outcome of the `hop` in `create_random_flow`, and `hops f (t + 1)` that of the `hop`
in step `t`; so message `s` of flow `f` is sent on the paths `hops f s`. -/
structure Scenario where
  graphNodes : List NodeId
  graphNodes_nodup : graphNodes.Nodup
  setups : List FlowSetup
  flowIds_nodup : (setups.map FlowSetup.flowId).Nodup
  wellFormed : ∀ setup ∈ setups, setup.WellFormed graphNodes
  hops : FlowId → Nat → List Nat
  hops_valid : ∀ setup ∈ setups, ∀ t, setup.HopOutcome (hops setup.flowId t)

namespace Scenario

variable (scenario : Scenario)

def start (attackers : List Attacker) : PathHoppingSimulation :=
  PathHoppingSimulation.create scenario.graphNodes
    (scenario.setups.map fun setup => setup.started (scenario.hops setup.flowId 0)) attackers

/-- The simulation after `n` steps, `none` when something raised. -/
def run (attackers : List Attacker) (order : Nat → StepOrder) (select : Nat → Select) (n : Nat) :
    Option PathHoppingSimulation :=
  (scenario.start attackers).run order (fun t flowId => scenario.hops flowId (t + 1)) select n

/-- The shares of message `seqNum` of a flow. -/
def sharesOf (setup : FlowSetup) (seqNum : Nat) : List PathHoppingShare :=
  PathHoppingShare.createSharesFor setup.flowId setup.sourceNode setup.sinkNode seqNum
    (scenario.hops setup.flowId seqNum)

/-- The paths on which message `seqNum` of a flow is sent. -/
def pathsOf (setup : FlowSetup) (seqNum : Nat) : List Path :=
  (scenario.hops setup.flowId seqNum).filterMap fun pathIdx => setup.paths[pathIdx]?

/-- `share` is the share of message `seqNum` created on `path`. -/
def Sent (seqNum : Nat) (share : PathHoppingShare) (path : Path) : Prop :=
  ∃ setup ∈ scenario.setups,
    share ∈ scenario.sharesOf setup seqNum ∧ setup.paths[share.pathIdx]? = some path

/-- How many shares of message `seqNum` have reached the end of their path after `n` steps. -/
def arrivedBy (setup : FlowSetup) (n seqNum : Nat) : Nat :=
  (scenario.pathsOf setup seqNum).countP fun path => path.length ≤ n - seqNum

/-- What flow `setup` has counted after `n` steps. -/
structure CountersAfter (setup : FlowSetup) (n : Nat) (flow : PathHoppingFlow) : Prop where
  messagesTx : flow.messagesTx = n
  seqNum : flow.seqNum = n
  messagesRx : flow.messagesRx =
    ((Finset.range n).filter fun s => ∀ path ∈ scenario.pathsOf setup s, path.length ≤ n - s).card
  sharesReceived : ∀ s, flow.sharesReceived.get? s =
    if s < n ∧ ∃ path ∈ scenario.pathsOf setup s, n - s < path.length
    then some (scenario.arrivedBy setup n s) else none
  pending_lt : ∀ s count, flow.sharesReceived.get? s = some count → count < setup.K

/-- The state after `n` steps. -/
structure StateAfter (n : Nat) (sim : PathHoppingSimulation) : Prop where
  resident : ∀ seqNum < n, ∀ share path, scenario.Sent seqNum share path → n - seqNum < path.length →
    (∀ nodeId, share ∈ sim.residentAt nodeId ↔ path[n - seqNum]? = some nodeId) ∧
      sim.deliveries.count share = 0
  delivered : ∀ seqNum < n, ∀ share path, scenario.Sent seqNum share path → path.length ≤ n - seqNum →
    (∀ nodeId, share ∉ sim.residentAt nodeId) ∧ sim.deliveries.count share = 1
  onlySent : ∀ share, share ∈ sim.deliveries ∨ (∃ nodeId, share ∈ sim.residentAt nodeId) →
    ∃ seqNum < n, ∃ path, scenario.Sent seqNum share path
  counters : ∀ setup ∈ scenario.setups,
    ∃ flow, sim.flows.get? setup.flowId = some flow ∧ scenario.CountersAfter setup n flow

/-- After its source, no path visits a node with the identifier that `get_next_hop_for_share` uses for "no next
hop". -/
def AvoidsSentinel : Prop := ∀ setup ∈ scenario.setups, ∀ path ∈ setup.paths, (-1 : NodeId) ∉ path.tail

/-- An exception in the turn of an attacker, the only way in which a run can end early. -/
def AttackerRaises (attackers : List Attacker) (order : Nat → StepOrder) (select : Nat → Select) (t : Nat) :
    Prop :=
  ∃ sim moved, scenario.run attackers order select t = some sim ∧
    sim.advance (order t) (fun flowId => scenario.hops flowId (t + 1)) = some moved ∧
    moved.attack (order t) select = none

end Scenario

/-- An order a run can have: everything by identifier. -/
def StepOrder.byIdentifier : StepOrder :=
  let ids : SetOrder Int := SetOrder.byKey id fun _ _ h => h
  let shares : SetOrder PathHoppingShare := SetOrder.byKey PathHoppingShare.identifiers
    PathHoppingShare.identifiers_injective
  let moves : SetOrder (NodeId × PathHoppingShare) :=
    SetOrder.byKey (fun move => move.1 :: move.2.identifiers) fun _ _ h =>
      Prod.ext (List.cons.inj h).1 (PathHoppingShare.identifiers_injective (List.cons.inj h).2)
  ⟨ids, ids, fun _ => shares, moves, ids, fun _ => ⟨ids, fun _ => shares⟩⟩

/-! ### Which share travels on which path -/

theorem PathHoppingShare.mem_createSharesFor {flowId : FlowId} {sourceNode sinkNode : NodeId}
    {seqNum : Nat} {pathIdxs : List Nat} {share : PathHoppingShare} :
    share ∈ createSharesFor flowId sourceNode sinkNode seqNum pathIdxs ↔
      pathIdxs[share.shareNum]? = some share.pathIdx ∧ share.flowId = flowId ∧ share.seqNum = seqNum ∧
        share.sourceNode = sourceNode ∧ share.sinkNode = sinkNode := by
  obtain ⟨f, s, i, p, a, b⟩ := share
  simp only [createSharesFor, List.mem_map, Prod.exists, List.mem_zipIdx_iff_getElem?, mk.injEq]
  constructor
  · rintro ⟨pathIdx, shareNum, hget, rfl, rfl, rfl, rfl, rfl, rfl⟩
    exact ⟨hget, rfl, rfl, rfl, rfl⟩
  · rintro ⟨hget, rfl, rfl, rfl, rfl⟩
    exact ⟨p, i, hget, rfl, rfl, rfl, rfl, rfl, rfl⟩

theorem PathHoppingShare.nodup_createSharesFor (flowId : FlowId) (sourceNode sinkNode : NodeId)
    (seqNum : Nat) (pathIdxs : List Nat) :
    (createSharesFor flowId sourceNode sinkNode seqNum pathIdxs).Nodup := by
  have hnums : (createSharesFor flowId sourceNode sinkNode seqNum pathIdxs).map shareNum =
      List.range pathIdxs.length := by
    rw [createSharesFor, List.map_map, List.range_eq_range']
    exact List.zipIdx_map_snd 0 pathIdxs
  apply List.Nodup.of_map shareNum
  rw [hnums]
  exact List.nodup_range

namespace Scenario

variable {scenario : Scenario}

theorem get?_flows_start {attackers : List Attacker} {flowId : FlowId} {flow : PathHoppingFlow} :
    (scenario.start attackers).flows.get? flowId = some flow ↔
      ∃ setup ∈ scenario.setups, setup.flowId = flowId ∧ flow = setup.started (scenario.hops setup.flowId 0) := by
  have hids : ((scenario.setups.map fun setup => setup.started (scenario.hops setup.flowId 0)).map
      fun flow => (flow.flowId, flow)).map Prod.fst = scenario.setups.map FlowSetup.flowId := by
    rw [List.map_map, List.map_map]
    rfl
  rw [start, PathHoppingSimulation.create, Dict.get?_ofList (hids ▸ scenario.flowIds_nodup), List.map_map,
    List.mem_map]
  refine exists_congr fun setup => and_congr_right fun _ => ?_
  rw [Function.comp_apply, Prod.mk.injEq]
  exact and_congr_right fun _ => eq_comm

theorem get?_nodes_start {attackers : List Attacker} {nodeId : NodeId} {node : PathHoppingNode} :
    (scenario.start attackers).nodes.get? nodeId = some node ↔
      nodeId ∈ scenario.graphNodes ∧ node = PathHoppingNode.new nodeId := by
  rw [start, PathHoppingSimulation.create, Dict.get?_ofList]
  · simp only [List.mem_map, Prod.mk.injEq]
    exact ⟨fun ⟨v, hv, hid, hnode⟩ => ⟨hid ▸ hv, hnode ▸ hid ▸ rfl⟩,
      fun ⟨hmem, hnode⟩ => ⟨nodeId, hmem, rfl, hnode.symm⟩⟩
  · rw [List.map_map]
    exact (List.map_id scenario.graphNodes).symm ▸ scenario.graphNodes_nodup

theorem setup_unique {setup setup' : FlowSetup} (h : setup ∈ scenario.setups)
    (h' : setup' ∈ scenario.setups) (hid : setup.flowId = setup'.flowId) : setup = setup' :=
  List.inj_on_of_nodup_map scenario.flowIds_nodup h h' hid

theorem mem_sharesOf {setup : FlowSetup} {seqNum : Nat} {share : PathHoppingShare} :
    share ∈ scenario.sharesOf setup seqNum ↔
      (scenario.hops setup.flowId seqNum)[share.shareNum]? = some share.pathIdx ∧
        share.flowId = setup.flowId ∧ share.seqNum = seqNum ∧ share.sourceNode = setup.sourceNode ∧
        share.sinkNode = setup.sinkNode :=
  PathHoppingShare.mem_createSharesFor

theorem length_sharesOf {setup : FlowSetup} (h : setup ∈ scenario.setups) (seqNum : Nat) :
    (scenario.sharesOf setup seqNum).length = setup.K := by
  rw [sharesOf, PathHoppingShare.createSharesFor, List.length_map, List.length_zipIdx,
    (scenario.hops_valid setup h seqNum).length]

/-- Every share of a message has a path of its flow. -/
theorem exists_sent {setup : FlowSetup} (h : setup ∈ scenario.setups) {seqNum : Nat}
    {share : PathHoppingShare} (hshare : share ∈ scenario.sharesOf setup seqNum) :
    ∃ path ∈ setup.paths, setup.paths[share.pathIdx]? = some path ∧ scenario.Sent seqNum share path := by
  have hlt : share.pathIdx < setup.paths.length :=
    (scenario.hops_valid setup h seqNum).lt _ (List.mem_of_getElem? (mem_sharesOf.mp hshare).1)
  have hpath := List.getElem?_eq_getElem hlt
  exact ⟨_, List.getElem_mem hlt, hpath, setup, h, hshare, hpath⟩

theorem Sent.seqNum_eq {seqNum : Nat} {share : PathHoppingShare} {path : Path}
    (h : scenario.Sent seqNum share path) : share.seqNum = seqNum := by
  obtain ⟨setup, -, hshare, -⟩ := h
  exact (mem_sharesOf.mp hshare).2.2.1

/-- A share is sent once, on one path. -/
theorem Sent.unique {seqNum seqNum' : Nat} {share : PathHoppingShare} {path path' : Path}
    (h : scenario.Sent seqNum share path) (h' : scenario.Sent seqNum' share path') :
    seqNum = seqNum' ∧ path = path' := by
  refine ⟨h.seqNum_eq.symm.trans h'.seqNum_eq, ?_⟩
  obtain ⟨setup, hsetup, hshare, hpath⟩ := h
  obtain ⟨setup', hsetup', hshare', hpath'⟩ := h'
  have hid : setup.flowId = setup'.flowId :=
    (mem_sharesOf.mp hshare).2.1.symm.trans (mem_sharesOf.mp hshare').2.1
  rw [setup_unique hsetup hsetup' hid, hpath'] at hpath
  exact (Option.some.inj hpath).symm

theorem Sent.mem_paths {seqNum : Nat} {share : PathHoppingShare} {path : Path}
    (h : scenario.Sent seqNum share path) :
    ∃ setup ∈ scenario.setups, path ∈ setup.paths ∧ share ∈ scenario.sharesOf setup seqNum := by
  obtain ⟨setup, hsetup, hshare, hpath⟩ := h
  exact ⟨setup, hsetup, List.mem_of_getElem? hpath, hshare⟩

/-- A share starts at the source of its flow. -/
theorem Sent.head {seqNum : Nat} {share : PathHoppingShare} {path : Path}
    (h : scenario.Sent seqNum share path) : (walked path)[0]? = some share.sourceNode := by
  obtain ⟨setup, hsetup, hpath, hshare⟩ := h.mem_paths
  rw [← List.head?_eq_getElem?, head?_walked, (scenario.wellFormed setup hsetup).head path hpath,
    (mem_sharesOf.mp hshare).2.2.2.1]

theorem Sent.walked_pos {seqNum : Nat} {share : PathHoppingShare} {path : Path}
    (h : scenario.Sent seqNum share path) : 0 < (walked path).length :=
  (List.getElem?_eq_some_iff.mp h.head).1

theorem Sent.walked_eq (havoid : scenario.AvoidsSentinel) {seqNum : Nat} {share : PathHoppingShare} {path : Path}
    (h : scenario.Sent seqNum share path) : walked path = path := by
  obtain ⟨setup, hsetup, hpath, -⟩ := h.mem_paths
  exact walked_eq_self (havoid setup hsetup path hpath)

theorem map_some_pathsOf {setup : FlowSetup} (h : setup ∈ scenario.setups) (seqNum : Nat) :
    (scenario.pathsOf setup seqNum).map some =
      (scenario.hops setup.flowId seqNum).map fun pathIdx => setup.paths[pathIdx]? := by
  have hidx : ∀ l : List Nat, (∀ pathIdx ∈ l, pathIdx < setup.paths.length) →
      (l.filterMap fun pathIdx => setup.paths[pathIdx]?).map some = l.map fun pathIdx => setup.paths[pathIdx]? := by
    intro l hl
    induction l with
    | nil => rfl
    | cons idx rest ih =>
        have hpath := List.getElem?_eq_getElem (hl idx List.mem_cons_self)
        rw [List.filterMap_cons_some hpath, List.map_cons, List.map_cons, hpath,
          ih fun pathIdx hmem => hl pathIdx (List.mem_cons_of_mem idx hmem)]
  exact hidx _ (scenario.hops_valid setup h seqNum).lt

/-- The paths of a message are those of its shares, one for one. -/
theorem pathsOf_eq_map {setup : FlowSetup} (h : setup ∈ scenario.setups) (seqNum : Nat) :
    (scenario.sharesOf setup seqNum).map (fun share => setup.paths[share.pathIdx]?) =
      (scenario.pathsOf setup seqNum).map some := by
  rw [map_some_pathsOf h, sharesOf, PathHoppingShare.createSharesFor, List.map_map]
  conv_rhs => rw [← List.zipIdx_map_fst 0 (scenario.hops setup.flowId seqNum), List.map_map]
  rfl

/-- Share number `num` of a message travels on path number `num` of the message. -/
theorem getElem?_pathsOf_eq_some_iff {setup : FlowSetup} (h : setup ∈ scenario.setups) {seqNum num : Nat}
    {path : Path} :
    (scenario.pathsOf setup seqNum)[num]? = some path ↔
      ∃ share ∈ scenario.sharesOf setup seqNum, share.shareNum = num ∧ setup.paths[share.pathIdx]? = some path := by
  have hget := congrArg (·[num]?) (map_some_pathsOf h seqNum)
  simp only [List.getElem?_map] at hget
  constructor
  · intro hpath
    rw [hpath, Option.map_some, eq_comm, Option.map_eq_some_iff] at hget
    obtain ⟨pathIdx, hidx, hpath'⟩ := hget
    exact ⟨⟨setup.flowId, seqNum, num, pathIdx, setup.sourceNode, setup.sinkNode⟩,
      mem_sharesOf.mpr ⟨hidx, rfl, rfl, rfl, rfl⟩, rfl, hpath'⟩
  · rintro ⟨share, hshare, rfl, hpath⟩
    rw [(mem_sharesOf.mp hshare).1, Option.map_some, hpath, Option.map_eq_some_iff] at hget
    obtain ⟨path', hpath', heq⟩ := hget
    rw [hpath', Option.some.inj heq]

theorem length_pathsOf {setup : FlowSetup} (h : setup ∈ scenario.setups) (seqNum : Nat) :
    (scenario.pathsOf setup seqNum).length = setup.K := by
  have hmap := congrArg List.length (pathsOf_eq_map h seqNum)
  rw [List.length_map, List.length_map, length_sharesOf h] at hmap
  exact hmap.symm

end Scenario

end OfTestbed.Simulator
