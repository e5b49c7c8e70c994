import Mathlib.Data.Finset.Basic
import Mathlib.Data.Multiset.Basic
import OfTestbed.LibDict

/-!
The objects of the path hopping simulator: shares, nodes and flows
(`path_hopping_simulator/simulator.py`). A method that changes its object returns the changed object;
a method that can raise (`KeyError`, `ValueError`, `IndexError`) returns `none` when it does.
Random draws are arguments. Node and flow identifiers are Python integers; in particular `-1`, which
`get_next_hop_for_share` returns for "no next hop", is an integer like any other.
-/

namespace OfTestbed.Simulator

open Lib

abbrev NodeId := Int

abbrev FlowId := Int

abbrev Path := List NodeId

structure PathHoppingShare where
  flowId : FlowId
  seqNum : Nat
  shareNum : Nat
  pathIdx : Nat
  sourceNode : NodeId
  sinkNode : NodeId
  deriving DecidableEq

/-- `create_shares_for`: one share per path index, numbered in order. The source passes `K` too and does
not read it. -/
def PathHoppingShare.createSharesFor (flowId : FlowId) (flowSourceNode flowSinkNode : NodeId)
    (seqNum : Nat) (pathsForMessage : List Nat) : List PathHoppingShare :=
  pathsForMessage.zipIdx.map fun (pathIdx, shareNum) =>
    ⟨flowId, seqNum, shareNum, pathIdx, flowSourceNode, flowSinkNode⟩

structure PathHoppingNode where
  nodeId : NodeId
  residentShares : Finset PathHoppingShare
  deriving DecidableEq

namespace PathHoppingNode

/-- A node as the constructor makes it. -/
def new (nodeId : NodeId) : PathHoppingNode := ⟨nodeId, ∅⟩

/-- The resident shares that neither start nor end at this node, listed in the order in which the
resident set is walked. -/
def vulnerableShares (node : PathHoppingNode) (order : SetOrder PathHoppingShare) :
    List PathHoppingShare :=
  (order.list node.residentShares).filter fun share =>
    share.sourceNode ≠ node.nodeId ∧ share.sinkNode ≠ node.nodeId

def receiveShare (node : PathHoppingNode) (share : PathHoppingShare) : PathHoppingNode :=
  { node with residentShares := insert share node.residentShares }

def clearResidentPackets (node : PathHoppingNode) : PathHoppingNode :=
  { node with residentShares := ∅ }

@[simp] theorem receiveShare_nodeId (node : PathHoppingNode) (share : PathHoppingShare) :
    (node.receiveShare share).nodeId = node.nodeId := rfl

@[simp] theorem receiveShare_residentShares (node : PathHoppingNode) (share : PathHoppingShare) :
    (node.receiveShare share).residentShares = insert share node.residentShares := rfl

theorem mem_vulnerableShares {node : PathHoppingNode} {order : SetOrder PathHoppingShare}
    {share : PathHoppingShare} :
    share ∈ node.vulnerableShares order ↔
      share ∈ node.residentShares ∧ share.sourceNode ≠ node.nodeId ∧ share.sinkNode ≠ node.nodeId := by
  simp [vulnerableShares, order.mem_list]

end PathHoppingNode

structure PathHoppingFlow where
  flowId : FlowId
  sourceNode : NodeId
  sinkNode : NodeId
  paths : List Path
  activePaths : List Nat
  K : Nat
  seqNum : Nat
  sharesReceived : Dict Nat Nat
  messagesTx : Nat
  messagesRx : Nat
  deriving DecidableEq

namespace PathHoppingFlow

/-- A flow as the constructor makes it: nothing sent, and no active path before the first `hop`. -/
def new (flowId : FlowId) (sourceNode sinkNode : NodeId) (paths : List Path) (K : Nat) :
    PathHoppingFlow where
  flowId := flowId
  sourceNode := sourceNode
  sinkNode := sinkNode
  paths := paths
  activePaths := []
  K := K
  seqNum := 0
  sharesReceived := Dict.empty
  messagesTx := 0
  messagesRx := 0

/-- The node after the current one on the path of the share, `-1` at the end of the path. Fails when the
path index is out of range or the current node is not on the path. -/
def getNextHopForShare (flow : PathHoppingFlow) (share : PathHoppingShare)
    (currentNode : PathHoppingNode) : Option Int := do
  let pathForShare ← flow.paths[share.pathIdx]?
  let currentHopIdx ← pathForShare.idxOf? currentNode.nodeId
  let nextHopIdx := currentHopIdx + 1
  if nextHopIdx = pathForShare.length then return -1
  pathForShare[nextHopIdx]?

def getNextSeqNum (flow : PathHoppingFlow) : Nat × PathHoppingFlow :=
  (flow.seqNum, { flow with seqNum := flow.seqNum + 1 })

/-- The shares of the next message, one per active path, and the flow with the message pending. -/
def createShares (flow : PathHoppingFlow) : List PathHoppingShare × PathHoppingFlow :=
  let flow := { flow with messagesTx := flow.messagesTx + 1 }
  let (seqNumForShare, flow) := flow.getNextSeqNum
  let flow := { flow with sharesReceived := flow.sharesReceived.set seqNumForShare 0 }
  (PathHoppingShare.createSharesFor flow.flowId flow.sourceNode flow.sinkNode seqNumForShare
    flow.activePaths, flow)

/-- Count a delivered share; the `K`-th share of a message completes it and drops its entry. Fails when
the message has no pending entry. -/
def receiveShare (flow : PathHoppingFlow) (share : PathHoppingShare) : Option PathHoppingFlow := do
  let count ← flow.sharesReceived.get? share.seqNum
  let flow := { flow with sharesReceived := flow.sharesReceived.set share.seqNum (count + 1) }
  if count + 1 = flow.K then
    return { flow with
      messagesRx := flow.messagesRx + 1
      sharesReceived := flow.sharesReceived.erase share.seqNum }
  return flow

/-- `hop`, with the outcome of `np.random.choice(range(len(paths)), K, replace=False)`, which raises
when there are fewer than `K` paths. -/
def hop (flow : PathHoppingFlow) (outcome : List Nat) : Option PathHoppingFlow :=
  if flow.K ≤ flow.paths.length then some { flow with activePaths := outcome } else none

/-- `create_random_flow` with both end points given: `disjointPaths` is what `node_disjoint_paths`
found between them and `outcome` the draw of the flow's first `hop`. -/
def createRandomFlow (graphNodes : List NodeId) (disjointPaths : List Path) (N K : Nat)
    (sourceNode sinkNode : NodeId) (flowId : FlowId) (outcome : List Nat) : Option PathHoppingFlow := do
  guard (sourceNode ∈ graphNodes)
  guard (sinkNode ∈ graphNodes)
  guard (N ≤ disjointPaths.length)
  (PathHoppingFlow.new flowId sourceNode sinkNode disjointPaths K).hop outcome

/-- The fields that no operation of a simulation changes. -/
def SameSetup (flow flow' : PathHoppingFlow) : Prop :=
  flow'.flowId = flow.flowId ∧ flow'.sourceNode = flow.sourceNode ∧ flow'.sinkNode = flow.sinkNode ∧
    flow'.paths = flow.paths ∧ flow'.K = flow.K

theorem SameSetup.trans {flow flow' flow'' : PathHoppingFlow} (h : flow.SameSetup flow')
    (h' : flow'.SameSetup flow'') : flow.SameSetup flow'' := by
  obtain ⟨h1, h2, h3, h4, h5⟩ := h
  obtain ⟨h1', h2', h3', h4', h5'⟩ := h'
  exact ⟨h1'.trans h1, h2'.trans h2, h3'.trans h3, h4'.trans h4, h5'.trans h5⟩

theorem createShares_sameSetup (flow : PathHoppingFlow) : flow.SameSetup flow.createShares.2 :=
  ⟨rfl, rfl, rfl, rfl, rfl⟩

theorem hop_eq_some_iff {flow flow' : PathHoppingFlow} {outcome : List Nat} :
    flow.hop outcome = some flow' ↔
      flow.K ≤ flow.paths.length ∧ flow' = { flow with activePaths := outcome } := by
  by_cases hK : flow.K ≤ flow.paths.length
  · simp only [hop, hK, if_true, Option.some.injEq, true_and]
    exact eq_comm
  · simp [hop, hK]

/-- What `receive_share` does, both branches at once. -/
theorem receiveShare_eq_some_iff {flow flow' : PathHoppingFlow} {share : PathHoppingShare} :
    flow.receiveShare share = some flow' ↔
      ∃ count, flow.sharesReceived.get? share.seqNum = some count ∧
        ((count + 1 = flow.K ∧ flow' = { flow with
            messagesRx := flow.messagesRx + 1
            sharesReceived := (flow.sharesReceived.set share.seqNum (count + 1)).erase share.seqNum }) ∨
          (count + 1 ≠ flow.K ∧ flow' = { flow with
            sharesReceived := flow.sharesReceived.set share.seqNum (count + 1) })) := by
  unfold receiveShare
  cases hcount : flow.sharesReceived.get? share.seqNum with
  | none => simp
  | some count =>
      by_cases hK : count + 1 = flow.K
      · simp only [hK, Option.bind_eq_bind, Option.bind_some, if_true, Option.pure_def,
          Option.some.injEq, exists_eq_left', true_and, ne_eq, not_true_eq_false, false_and, or_false]
        exact eq_comm
      · simp only [hK, Option.bind_eq_bind, Option.bind_some, if_false, Option.pure_def,
          Option.some.injEq, exists_eq_left', false_and, ne_eq, not_false_eq_true, true_and, false_or]
        exact eq_comm

theorem receiveShare_sameSetup {flow flow' : PathHoppingFlow} {share : PathHoppingShare}
    (h : flow.receiveShare share = some flow') : flow.SameSetup flow' := by
  obtain ⟨count, -, ⟨-, rfl⟩ | ⟨-, rfl⟩⟩ := receiveShare_eq_some_iff.mp h <;>
    exact ⟨rfl, rfl, rfl, rfl, rfl⟩

theorem SameSetup.getNextHopForShare {flow flow' : PathHoppingFlow} (h : flow.SameSetup flow')
    (share : PathHoppingShare) (node : PathHoppingNode) :
    flow'.getNextHopForShare share node = flow.getNextHopForShare share node := by
  simp only [PathHoppingFlow.getNextHopForShare, h.2.2.2.1]

end PathHoppingFlow

end OfTestbed.Simulator
