import OfTestbed.Simulator

/-!
The order in which `step` walks its dictionaries and sets does not matter. Each loop of the step is
a loop whose turns commute: injections insert into sets, deliveries count in the pending entry of a
message, and a node's turn touches its own resident set only. So any two orders end in the same nodes
and flows, or fail both times; nothing is assumed about the state.
-/

namespace OfTestbed.Simulator

open Lib

namespace PathHoppingFlow

theorem receiveShare_congr {share share' : PathHoppingShare} (h : share.seqNum = share'.seqNum) :
    (receiveShare · share) = (receiveShare · share') := by
  funext flow
  simp only [receiveShare, h]

/-- The pending entries after one share of message `seqNum` arrived, `count` having arrived before. -/
def pendingAfter (pending : Dict Nat Nat) (K seqNum count : Nat) : Dict Nat Nat :=
  if count + 1 = K then (pending.set seqNum (count + 1)).erase seqNum else pending.set seqNum (count + 1)

theorem get?_pendingAfter {pending : Dict Nat Nat} {K seqNum count s : Nat} (hne : s ≠ seqNum) :
    (pendingAfter pending K seqNum count).get? s = pending.get? s := by
  unfold pendingAfter
  split <;> simp [Dict.get?_erase, Dict.get?_set, hne]

theorem get?_pendingAfter_self (pending : Dict Nat Nat) (K seqNum count : Nat) :
    (pendingAfter pending K seqNum count).get? seqNum =
      if count + 1 = K then none else some (count + 1) := by
  unfold pendingAfter
  split <;> simp [Dict.get?_erase]

theorem keys_pendingAfter {pending : Dict Nat Nat} {K seqNum count : Nat} (h : seqNum ∈ pending.keys) :
    (pendingAfter pending K seqNum count).keys =
      pending.keys.filter fun s => ¬(count + 1 = K ∧ s = seqNum) := by
  unfold pendingAfter
  by_cases hK : count + 1 = K
  · rw [if_pos hK, Dict.keys_erase, Dict.keys_set_of_mem h]
    simp [hK]
  · rw [if_neg hK, Dict.keys_set_of_mem h]
    simp [hK]

theorem pendingAfter_comm {pending : Dict Nat Nat} {K s s' c c' : Nat} (hne : s ≠ s')
    (hs : s ∈ pending.keys) (hs' : s' ∈ pending.keys) :
    pendingAfter (pendingAfter pending K s c) K s' c' =
      pendingAfter (pendingAfter pending K s' c') K s c := by
  have hin : s' ∈ (pendingAfter pending K s c).keys :=
    Dict.mem_keys_iff.mpr (by rw [get?_pendingAfter hne.symm]; exact Dict.mem_keys_iff.mp hs')
  have hin' : s ∈ (pendingAfter pending K s' c').keys :=
    Dict.mem_keys_iff.mpr (by rw [get?_pendingAfter hne]; exact Dict.mem_keys_iff.mp hs)
  apply Dict.ext_get?
  · rw [keys_pendingAfter hin, keys_pendingAfter hin', keys_pendingAfter hs, keys_pendingAfter hs',
      List.filter_filter, List.filter_filter]
    simp only [Bool.and_comm]
  · intro j
    by_cases hj : j = s
    · subst hj
      rw [get?_pendingAfter hne, get?_pendingAfter_self, get?_pendingAfter_self]
    · by_cases hj' : j = s'
      · subst hj'
        rw [get?_pendingAfter_self, get?_pendingAfter (Ne.symm hne), get?_pendingAfter_self]
      · rw [get?_pendingAfter hj', get?_pendingAfter hj, get?_pendingAfter hj, get?_pendingAfter hj']

theorem receiveShare_eq (flow : PathHoppingFlow) (share : PathHoppingShare) :
    flow.receiveShare share = (flow.sharesReceived.get? share.seqNum).map fun count =>
      { flow with
        messagesRx := flow.messagesRx + if count + 1 = flow.K then 1 else 0
        sharesReceived := pendingAfter flow.sharesReceived flow.K share.seqNum count } := by
  unfold receiveShare pendingAfter
  cases flow.sharesReceived.get? share.seqNum with
  | none => rfl
  | some count => by_cases hK : count + 1 = flow.K <;> simp [hK]

/-- Two deliveries to one flow commute: of one message they are the same operation, of two messages they
work on different entries. -/
theorem receiveShare_comm (share share' : PathHoppingShare) :
    StepsCommute (receiveShare · share) (receiveShare · share') := by
  by_cases hseq : share.seqNum = share'.seqNum
  · rw [receiveShare_congr hseq]
    exact StepsCommute.refl _
  · intro flow
    simp only [receiveShare_eq]
    cases hs : flow.sharesReceived.get? share.seqNum with
    | none =>
        cases hs' : flow.sharesReceived.get? share'.seqNum with
        | none => rfl
        | some c' => simp [get?_pendingAfter hseq, hs]
    | some c =>
        cases hs' : flow.sharesReceived.get? share'.seqNum with
        | none => simp [get?_pendingAfter (Ne.symm hseq), hs']
        | some c' =>
            have hin : share.seqNum ∈ flow.sharesReceived.keys :=
              Dict.mem_keys_iff.mpr (by rw [hs]; rfl)
            have hin' : share'.seqNum ∈ flow.sharesReceived.keys :=
              Dict.mem_keys_iff.mpr (by rw [hs']; rfl)
            simp only [Option.map_some, Option.bind_some, get?_pendingAfter hseq,
              get?_pendingAfter (Ne.symm hseq), hs, hs', pendingAfter_comm hseq hin hin', Nat.add_right_comm]

end PathHoppingFlow

namespace PathHoppingSimulation

/-! ### Injections -/

theorem injectShare_eq (sim : PathHoppingSimulation) (nodeId : NodeId) (share : PathHoppingShare) :
    sim.injectShare nodeId share =
      (sim.nodes.update? nodeId fun node => some (node.receiveShare share)).map
        fun nodes => { sim with nodes := nodes } := by
  rw [injectShare]
  cases sim.nodes.update? nodeId fun node => some (node.receiveShare share) <;> rfl

theorem injectShare_comm (nodeId nodeId' : NodeId) (share share' : PathHoppingShare) :
    StepsCommute (fun sim => injectShare sim nodeId share) (fun sim => injectShare sim nodeId' share') := by
  intro sim
  have hnode : StepsCommute (fun node : PathHoppingNode => some (node.receiveShare share))
      (fun node => some (node.receiveShare share')) := by
    intro node
    simp [PathHoppingNode.receiveShare, Finset.insert_comm]
  simp only [injectShare_eq, Option.bind_map, Function.comp_def]
  exact (Dict.update?_comm fun _ => hnode).bind_map (fun nodes => { sim with nodes := nodes }) sim.nodes

/-- The shares of one message, injected at their source. -/
def injectAll (nodeId : NodeId) (shares : List PathHoppingShare) (sim : PathHoppingSimulation) :
    Option PathHoppingSimulation :=
  shares.foldlM (fun sim share => sim.injectShare nodeId share) sim

theorem injectAll_comm (nodeId nodeId' : NodeId) (shares shares' : List PathHoppingShare) :
    StepsCommute (injectAll nodeId shares) (injectAll nodeId' shares') := by
  apply StepsCommute.foldlM_right
  intro share' _
  apply StepsCommute.symm
  apply StepsCommute.foldlM_right
  intro share _
  exact injectShare_comm nodeId' nodeId share' share

theorem injectAll_withFlows (nodeId : NodeId) (shares : List PathHoppingShare)
    (sim : PathHoppingSimulation) (flows : Dict FlowId PathHoppingFlow) :
    injectAll nodeId shares { sim with flows := flows } =
      (injectAll nodeId shares sim).map fun sim => { sim with flows := flows } := by
  refine foldlM_hom (fun sim : PathHoppingSimulation => ({ sim with flows := flows } : PathHoppingSimulation)) ?_ sim
  intro share _ sim
  simp only [injectShare_eq, Option.map_map]
  rfl

theorem injectFlow_eq (sim : PathHoppingSimulation) (flowId : FlowId) :
    sim.injectFlow flowId = (sim.flows.get? flowId).bind fun flow =>
      (injectAll flow.sourceNode flow.createShares.1 sim).map fun s =>
        { s with flows := sim.flows.set flowId flow.createShares.2 } := by
  unfold injectFlow
  cases sim.flows.get? flowId with
  | none => rfl
  | some flow => exact injectAll_withFlows flow.sourceNode flow.createShares.1 sim _

theorem injectFlow_comm (flowId flowId' : FlowId) :
    StepsCommute (injectFlow · flowId) (injectFlow · flowId') := by
  by_cases hne : flowId = flowId'
  · rw [hne]
    exact StepsCommute.refl _
  intro sim
  have hget : ∀ (d : Dict FlowId PathHoppingFlow) f, (d.set flowId f).get? flowId' = d.get? flowId' :=
    fun d f => Dict.get?_set_of_ne (Ne.symm hne)
  have hget' : ∀ (d : Dict FlowId PathHoppingFlow) f, (d.set flowId' f).get? flowId = d.get? flowId :=
    fun d f => Dict.get?_set_of_ne hne
  simp only [injectFlow_eq]
  cases hflow : sim.flows.get? flowId with
  | none => cases sim.flows.get? flowId' <;> simp [Option.bind_map, hget', hflow]
  | some flow =>
      cases hflow' : sim.flows.get? flowId' with
      | none => simp [Option.bind_map, hget, hflow']
      | some flow' =>
          have hset : (sim.flows.set flowId flow.createShares.2).set flowId' flow'.createShares.2 =
              (sim.flows.set flowId' flow'.createShares.2).set flowId flow.createShares.2 :=
            Dict.set_set_of_ne hne (Dict.mem_keys_iff.mpr (by rw [hflow]; rfl))
              (Dict.mem_keys_iff.mpr (by rw [hflow']; rfl))
          have hcomm := injectAll_comm flow.sourceNode flow'.sourceNode flow.createShares.1
            flow'.createShares.1
          simp only [Option.bind_some, Option.bind_map, Function.comp_def, hget, hget', hflow, hflow',
            injectAll_withFlows, Option.map_map, hset]
          exact hcomm.bind_map _ sim

theorem injectPackets_congr (sim : PathHoppingSimulation) (order order' : StepOrder) :
    sim.injectPackets order = sim.injectPackets order' :=
  foldlM_perm (order.flows.perm order'.flows _) injectFlow_comm sim

/-! ### Moves -/

/-- The next hop of a share at a node, as the flows of the simulation give it. -/
def nextHop (flows : Dict FlowId PathHoppingFlow) (node : PathHoppingNode) (share : PathHoppingShare) :
    Option Int :=
  (flows.get? share.flowId).bind fun flow => flow.getNextHopForShare share node

theorem deliver_eq (sim : PathHoppingSimulation) (share : PathHoppingShare) :
    sim.deliver share =
      (sim.flows.update? share.flowId fun flow => flow.receiveShare share).map
        fun flows => { sim with flows := flows, deliveries := share ::ₘ sim.deliveries } := by
  rw [deliver]
  cases sim.flows.update? share.flowId fun flow => flow.receiveShare share <;> rfl

theorem deliver_comm (share share' : PathHoppingShare) :
    StepsCommute (deliver · share) (deliver · share') := by
  intro sim
  simp only [deliver_eq, Option.bind_map, Function.comp_def, Multiset.cons_swap share' share]
  exact (Dict.update?_comm fun _ => PathHoppingFlow.receiveShare_comm share share').bind_map
    (fun flows => { sim with flows := flows, deliveries := share ::ₘ share' ::ₘ sim.deliveries }) sim.flows

/-- Deliveries change no path, so they change no next hop. -/
theorem nextHop_of_deliver {sim sim' : PathHoppingSimulation} {share : PathHoppingShare}
    (h : sim.deliver share = some sim') (node : PathHoppingNode) (other : PathHoppingShare) :
    nextHop sim'.flows node other = nextHop sim.flows node other := by
  rw [deliver_eq, Option.map_eq_some_iff] at h
  obtain ⟨flows, hflows, rfl⟩ := h
  obtain ⟨flow, flow', hget, hreceive, rfl⟩ := Dict.update?_eq_some_iff.mp hflows
  simp only [nextHop, Dict.get?_set]
  by_cases hid : other.flowId = share.flowId
  · rw [if_pos hid, hid, hget, Option.bind_some, Option.bind_some]
    exact (PathHoppingFlow.receiveShare_sameSetup hreceive).getNextHopForShare other node
  · rw [if_neg hid]

/-- What is done with a share once its next hop is known. -/
def moveTo (hop : Option Int) (share : PathHoppingShare) (moving : Moving) : Option Moving :=
  hop.bind fun hop =>
    if hop = -1 then (moving.sim.deliver share).map fun sim => { moving with sim := sim }
    else some { moving with toInject := insert (hop, share) moving.toInject }

theorem moveShare_eq (node : PathHoppingNode) (moving : Moving) (share : PathHoppingShare) :
    moveShare node moving share = moveTo (nextHop moving.sim.flows node share) share moving := by
  unfold moveShare moveTo nextHop
  cases moving.sim.flows.get? share.flowId with
  | none => rfl
  | some flow =>
      simp only [Option.bind_eq_bind, Option.bind_some, Option.pure_def]
      congr 1
      funext hop
      by_cases hop = -1 <;> simp [*, Option.map_eq_bind]

/-- A share is delivered to its flow, or is to be injected at its next hop. -/
theorem moveShare_cases {node : PathHoppingNode} {moving moving' : Moving} {share : PathHoppingShare}
    (h : moveShare node moving share = some moving') :
    (∃ flows, (moving.sim.flows.update? share.flowId fun flow => flow.receiveShare share) = some flows ∧
      moving' = { moving with
        sim := { moving.sim with flows := flows, deliveries := share ::ₘ moving.sim.deliveries } }) ∨
      ∃ hop, moving' = { moving with toInject := insert (hop, share) moving.toInject } := by
  rw [moveShare_eq] at h
  obtain ⟨hop, -, h⟩ := Option.bind_eq_some_iff.mp h
  split at h
  · obtain ⟨sim, hdeliver, rfl⟩ := Option.map_eq_some_iff.mp h
    rw [deliver_eq] at hdeliver
    obtain ⟨flows, hflows, rfl⟩ := Option.map_eq_some_iff.mp hdeliver
    exact Or.inl ⟨flows, hflows, rfl⟩
  · exact Or.inr ⟨hop, (Option.some.inj h).symm⟩

theorem moveTo_comm (hop hop' : Option Int) (share share' : PathHoppingShare) :
    StepsCommute (moveTo hop share) (moveTo hop' share') := by
  intro moving
  unfold moveTo
  cases hop with
  | none => cases hop' <;> simp
  | some hop =>
      cases hop' with
      | none => simp
      | some hop' =>
          simp only [Option.bind_some]
          by_cases hend : hop = -1
          · by_cases hend' : hop' = -1
            · simp only [if_pos hend, if_pos hend', Option.bind_map, Function.comp_def]
              exact (deliver_comm share share').bind_map
                (fun sim => { moving with sim := sim }) moving.sim
            · simp only [if_pos hend, if_neg hend', Option.bind_some]
              cases moving.sim.deliver share <;> rfl
          · by_cases hend' : hop' = -1
            · simp only [if_neg hend, if_pos hend', Option.bind_some]
              cases moving.sim.deliver share' <;> rfl
            · simp [if_neg hend, if_neg hend', Finset.insert_comm]

theorem nextHop_of_moveTo {hop : Option Int} {share : PathHoppingShare} {moving moving' : Moving}
    (h : moveTo hop share moving = some moving') (node : PathHoppingNode) (other : PathHoppingShare) :
    nextHop moving'.sim.flows node other = nextHop moving.sim.flows node other := by
  obtain ⟨hop, -, h⟩ := Option.bind_eq_some_iff.mp h
  split at h
  · obtain ⟨sim, hdeliver, rfl⟩ := Option.map_eq_some_iff.mp h
    exact nextHop_of_deliver hdeliver node other
  · cases h
    rfl

/-- No move changes the next hop that another move reads. -/
theorem moveShare_bind (node node' : PathHoppingNode) (share share' : PathHoppingShare)
    (moving : Moving) :
    (moveShare node moving share).bind (moveShare node' · share') =
      (moveTo (nextHop moving.sim.flows node share) share moving).bind
        (moveTo (nextHop moving.sim.flows node' share') share') := by
  rw [moveShare_eq]
  apply Option.bind_congr
  intro moving' hmove
  rw [moveShare_eq, nextHop_of_moveTo hmove]

theorem moveShare_comm (node node' : PathHoppingNode) (share share' : PathHoppingShare) :
    StepsCommute (moveShare node · share) (moveShare node' · share') := by
  intro moving
  calc (moveShare node moving share).bind (moveShare node' · share')
      = (moveTo (nextHop moving.sim.flows node share) share moving).bind
          (moveTo (nextHop moving.sim.flows node' share') share') := moveShare_bind node node' share share' moving
    _ = (moveTo (nextHop moving.sim.flows node' share') share' moving).bind
          (moveTo (nextHop moving.sim.flows node share) share) := moveTo_comm _ _ share share' moving
    _ = (moveShare node' moving share').bind (moveShare node · share) :=
      (moveShare_bind node' node share' share moving).symm

/-- The shares of one node, moved one after the other. -/
def moveAll (node : PathHoppingNode) (shares : List PathHoppingShare) (moving : Moving) : Option Moving :=
  shares.foldlM (moveShare node) moving

theorem moveAll_comm (node node' : PathHoppingNode) (shares shares' : List PathHoppingShare) :
    StepsCommute (moveAll node shares) (moveAll node' shares') := by
  apply StepsCommute.foldlM_right
  intro share' _
  apply StepsCommute.symm
  apply StepsCommute.foldlM_right
  intro share _
  exact moveShare_comm node' node share' share

def clearNode (nodeId : NodeId) (node : PathHoppingNode) (moving : Moving) : Moving :=
  { moving with
    sim := { moving.sim with nodes := moving.sim.nodes.set nodeId node.clearResidentPackets } }

/-- Moving shares neither reads nor writes a resident set. -/
theorem moveShare_clearNode (node : PathHoppingNode) (share : PathHoppingShare) (nodeId : NodeId)
    (cleared : PathHoppingNode) (moving : Moving) :
    moveShare node (clearNode nodeId cleared moving) share =
      (moveShare node moving share).map (clearNode nodeId cleared) := by
  simp only [moveShare_eq]
  change moveTo (nextHop moving.sim.flows node share) share (clearNode nodeId cleared moving) = _
  unfold moveTo
  cases nextHop moving.sim.flows node share with
  | none => rfl
  | some hop =>
      simp only [Option.bind_some]
      by_cases hend : hop = -1
      · simp only [if_pos hend, deliver_eq, Option.map_map]
        rfl
      · simp only [if_neg hend]
        rfl

theorem moveAll_clearNode (node : PathHoppingNode) (shares : List PathHoppingShare) (nodeId : NodeId)
    (cleared : PathHoppingNode) (moving : Moving) :
    moveAll node shares (clearNode nodeId cleared moving) =
      (moveAll node shares moving).map (clearNode nodeId cleared) :=
  foldlM_hom (clearNode nodeId cleared)
    (fun share _ s => moveShare_clearNode node share nodeId cleared s) moving

theorem moveAll_nodes {node : PathHoppingNode} {shares : List PathHoppingShare} {moving moving' : Moving}
    (h : moveAll node shares moving = some moving') : moving'.sim.nodes = moving.sim.nodes := by
  refine foldlM_preserves (fun s => s.sim.nodes = moving.sim.nodes) ?_ rfl h
  intro share _ s s' hs hstep
  rcases moveShare_cases hstep with ⟨flows, -, rfl⟩ | ⟨hop, rfl⟩
  · exact hs
  · exact hs

theorem moveNode_eq (order : StepOrder) (moving : Moving) (nodeId : NodeId) :
    moveNode order moving nodeId = (moving.sim.nodes.get? nodeId).bind fun node =>
      (moveAll node ((order.resident nodeId).list node.residentShares) moving).map
        (clearNode nodeId node) := by
  unfold moveNode
  cases moving.sim.nodes.get? nodeId with
  | none => rfl
  | some node => exact Option.map_eq_bind.symm

theorem moveNode_bind (order : StepOrder) {nodeId nodeId' : NodeId} (hne : nodeId ≠ nodeId')
    (moving : Moving) :
    (moveNode order moving nodeId).bind (moveNode order · nodeId') =
      (moving.sim.nodes.get? nodeId).bind fun node => (moving.sim.nodes.get? nodeId').bind fun node' =>
        ((moveAll node ((order.resident nodeId).list node.residentShares) moving).bind
          (moveAll node' ((order.resident nodeId').list node'.residentShares))).map
            fun moved => clearNode nodeId' node' (clearNode nodeId node moved) := by
  rw [moveNode_eq]
  cases hnode : moving.sim.nodes.get? nodeId with
  | none => rfl
  | some node =>
      simp only [Option.bind_some, Option.bind_map, Option.map_bind, Function.comp_def]
      have hget : ∀ moved, moveAll node ((order.resident nodeId).list node.residentShares) moving = some moved →
          (clearNode nodeId node moved).sim.nodes.get? nodeId' = moving.sim.nodes.get? nodeId' := by
        intro moved hmoved
        rw [clearNode, Dict.get?_set_of_ne hne.symm, moveAll_nodes hmoved]
      cases hnode' : moving.sim.nodes.get? nodeId' with
      | none =>
          apply Option.bind_eq_none_iff.mpr
          intro moved hmoved
          rw [moveNode_eq, hget moved hmoved, hnode']
          rfl
      | some node' =>
          apply Option.bind_congr
          intro moved hmoved
          rw [moveNode_eq, hget moved hmoved, hnode', Option.bind_some, moveAll_clearNode, Option.map_map]
          rfl

theorem clearNode_comm {nodeId nodeId' : NodeId} (hne : nodeId ≠ nodeId') {node node' : PathHoppingNode}
    {moving : Moving} (h : nodeId ∈ moving.sim.nodes.keys) (h' : nodeId' ∈ moving.sim.nodes.keys) :
    clearNode nodeId' node' (clearNode nodeId node moving) =
      clearNode nodeId node (clearNode nodeId' node' moving) := by
  simp only [clearNode, Dict.set_set_of_ne hne h h']

theorem moveNode_comm (order : StepOrder) (nodeId nodeId' : NodeId) :
    StepsCommute (moveNode order · nodeId) (moveNode order · nodeId') := by
  by_cases hne : nodeId = nodeId'
  · rw [hne]
    exact StepsCommute.refl _
  intro moving
  refine (moveNode_bind order hne moving).trans (Eq.trans ?_ (moveNode_bind order (Ne.symm hne) moving).symm)
  cases hnode : moving.sim.nodes.get? nodeId with
  | none => cases moving.sim.nodes.get? nodeId' <;> rfl
  | some node =>
      cases hnode' : moving.sim.nodes.get? nodeId' with
      | none => rfl
      | some node' =>
          simp only [Option.bind_some]
          rw [moveAll_comm node node' _ _ moving]
          cases hmoved : (moveAll node' ((order.resident nodeId').list node'.residentShares) moving).bind
              (moveAll node ((order.resident nodeId).list node.residentShares)) with
          | none => rfl
          | some moved =>
              obtain ⟨between, hfirst, hsecond⟩ := Option.bind_eq_some_iff.mp hmoved
              have hnodes : moved.sim.nodes = moving.sim.nodes :=
                (moveAll_nodes hsecond).trans (moveAll_nodes hfirst)
              simp only [Option.map_some]
              rw [clearNode_comm hne]
              · exact Dict.mem_keys_iff.mpr (by rw [hnodes, hnode]; rfl)
              · exact Dict.mem_keys_iff.mpr (by rw [hnodes, hnode']; rfl)

theorem moveNode_congr (order order' : StepOrder) : moveNode order = moveNode order' := by
  funext moving nodeId
  rw [moveNode_eq, moveNode_eq]
  congr 1
  funext node
  congr 1
  exact foldlM_perm ((order.resident nodeId).perm (order'.resident nodeId) _)
    (fun share share' => moveShare_comm node node share share') moving

theorem movePackets_congr (sim : PathHoppingSimulation) (order order' : StepOrder) :
    sim.movePackets order = sim.movePackets order' := by
  unfold movePackets
  rw [moveNode_congr order order',
    foldlM_perm (order.nodes.perm order'.nodes sim.nodes.keySet) (moveNode_comm order') ⟨sim, ∅⟩]
  congr 1
  funext moving
  exact foldlM_perm (order.moved.perm order'.moved _)
    (fun move move' => injectShare_comm move.1 move'.1 move.2 move'.2) moving.sim

/-! ### Hops, and the whole step -/

theorem hopFlow_comm (outcome : FlowId → List Nat) (flowId flowId' : FlowId) :
    StepsCommute (hopFlow outcome · flowId) (hopFlow outcome · flowId') := by
  by_cases hne : flowId = flowId'
  · rw [hne]
    exact StepsCommute.refl _
  intro sim
  have heq : ∀ (s : PathHoppingSimulation) i, hopFlow outcome s i =
      (s.flows.update? i fun flow => flow.hop (outcome i)).map fun flows => { s with flows := flows } :=
    fun s i => Option.map_eq_bind.symm
  simp only [heq, Option.bind_map, Function.comp_def]
  exact (Dict.update?_comm fun h => absurd h hne).bind_map
    (fun flows => { sim with flows := flows }) sim.flows

theorem hopFlows_congr (sim : PathHoppingSimulation) (order order' : StepOrder)
    (outcome : FlowId → List Nat) : sim.hopFlows order outcome = sim.hopFlows order' outcome :=
  foldlM_perm (order.hopping.perm order'.hopping _) (hopFlow_comm outcome) sim

/-- The nodes, flows and deliveries after a step, and whether it fails before the attackers' turn, do
not depend on any order. -/
theorem advance_congr (sim : PathHoppingSimulation) (order order' : StepOrder)
    (outcome : FlowId → List Nat) : sim.advance order outcome = sim.advance order' outcome := by
  unfold advance
  rw [injectPackets_congr sim order order']
  congr 1
  funext injected
  rw [movePackets_congr injected order order']
  congr 1
  funext moved
  exact hopFlows_congr moved order order' outcome

/-- The attackers' turn leaves nodes and flows alone. -/
theorem step_eq_some {sim sim' : PathHoppingSimulation} {order : StepOrder}
    {outcome : FlowId → List Nat} {select : Nat → Select} (h : sim.step order outcome select = some sim') :
    ∃ moved attackers, sim.advance order outcome = some moved ∧
      (moved.attackers.zipIdx.mapM fun (attacker, idx) => moved.attackerTurn order select attacker idx) =
        some attackers ∧
      sim' = { moved with attackers := attackers, ticks := moved.ticks + 1 } := by
  simp only [step, attack, Option.bind_eq_bind, Option.bind_eq_some_iff, Option.pure_def,
    Option.some.injEq] at h
  obtain ⟨moved, hmoved, attacked, ⟨attackers, hattackers, rfl⟩, rfl⟩ := h
  exact ⟨moved, attackers, hmoved, hattackers, rfl⟩

end PathHoppingSimulation

end OfTestbed.Simulator
