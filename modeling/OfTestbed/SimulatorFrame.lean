import OfTestbed.SimulatorOrder

/-!
What a step preserves from any state, raised exceptions aside. The network part of a step touches neither the
attackers nor the clock. Over a whole run the network itself stays: no node or flow comes or goes, and every flow
keeps its paths.
-/

namespace OfTestbed.Simulator

open Lib

namespace PathHoppingSimulation

/-! ### What the network part of a step does not touch -/

/-- `s` has the attackers and the clock of `sim`. -/
structure SameAttackers (sim s : PathHoppingSimulation) : Prop where
  attackers : s.attackers = sim.attackers
  ticks : s.ticks = sim.ticks

namespace SameAttackers

variable {sim s s' : PathHoppingSimulation}

theorem injectShare (h : SameAttackers sim s) {nodeId : NodeId} {share : PathHoppingShare}
    (hinject : s.injectShare nodeId share = some s') : SameAttackers sim s' := by
  rw [injectShare_eq, Option.map_eq_some_iff] at hinject
  obtain ⟨nodes, -, rfl⟩ := hinject
  exact ⟨h.attackers, h.ticks⟩

theorem injectPackets (h : SameAttackers sim s) {order : StepOrder} (hrun : s.injectPackets order = some s') :
    SameAttackers sim s' := by
  refine foldlM_preserves (SameAttackers sim) ?_ h hrun
  intro flowId _ s s' hs hturn
  obtain ⟨flow, -, hall⟩ := Option.bind_eq_some_iff.mp hturn
  have hstart : SameAttackers sim { s with flows := s.flows.set flowId flow.createShares.2 } :=
    ⟨hs.attackers, hs.ticks⟩
  exact foldlM_preserves (SameAttackers sim) (fun share _ s s' hs hinject => hs.injectShare hinject) hstart hall

theorem moveShare {node : PathHoppingNode} {share : PathHoppingShare} {m m' : Moving} (h : SameAttackers sim m.sim)
    (hmove : PathHoppingSimulation.moveShare node m share = some m') : SameAttackers sim m'.sim := by
  rcases moveShare_cases hmove with ⟨flows, -, rfl⟩ | ⟨hop, rfl⟩
  · exact ⟨h.attackers, h.ticks⟩
  · exact h

theorem movePackets (h : SameAttackers sim s) {order : StepOrder} (hrun : s.movePackets order = some s') :
    SameAttackers sim s' := by
  obtain ⟨moving, hmoves, hinject⟩ := Option.bind_eq_some_iff.mp hrun
  have hmoving : SameAttackers sim moving.sim := by
    refine foldlM_preserves (fun m : Moving => SameAttackers sim m.sim) ?_ h hmoves
    intro nodeId _ m m' hm hturn
    rw [moveNode_eq] at hturn
    obtain ⟨node, -, hall⟩ := Option.bind_eq_some_iff.mp hturn
    obtain ⟨after, hafter, rfl⟩ := Option.map_eq_some_iff.mp hall
    have hmoved : SameAttackers sim after.sim :=
      foldlM_preserves (fun m : Moving => SameAttackers sim m.sim) (fun share _ m m' hm => hm.moveShare) hm hafter
    exact ⟨hmoved.attackers, hmoved.ticks⟩
  exact foldlM_preserves (SameAttackers sim) (fun move _ s s' hs hinject => hs.injectShare hinject) hmoving hinject

theorem hopFlows (h : SameAttackers sim s) {order : StepOrder} {outcome : FlowId → List Nat}
    (hrun : s.hopFlows order outcome = some s') : SameAttackers sim s' := by
  refine foldlM_preserves (SameAttackers sim) ?_ h hrun
  intro flowId _ s s' hs hturn
  obtain ⟨flows, -, hsome⟩ := Option.bind_eq_some_iff.mp hturn
  cases hsome
  exact ⟨hs.attackers, hs.ticks⟩

end SameAttackers

/-! ### What stays of the network -/

/-- The nodes of `sim`, under their identifiers, and its flows, on their paths. -/
structure SameNetwork (sim s : PathHoppingSimulation) : Prop where
  nodes : ∀ nodeId, (s.nodes.get? nodeId).map PathHoppingNode.nodeId =
    (sim.nodes.get? nodeId).map PathHoppingNode.nodeId
  flows : ∀ flowId, (s.flows.get? flowId).map PathHoppingFlow.paths =
    (sim.flows.get? flowId).map PathHoppingFlow.paths

namespace SameNetwork

variable {sim s s' : PathHoppingSimulation}

theorem refl (sim : PathHoppingSimulation) : SameNetwork sim sim := ⟨fun _ => rfl, fun _ => rfl⟩

theorem injectShare (h : SameNetwork sim s) {nodeId : NodeId} {share : PathHoppingShare}
    (hinject : s.injectShare nodeId share = some s') : SameNetwork sim s' := by
  rw [injectShare_eq, Option.map_eq_some_iff] at hinject
  obtain ⟨nodes, hnodes, rfl⟩ := hinject
  refine ⟨fun nodeId' => ?_, h.flows⟩
  rw [← h.nodes nodeId']
  refine Dict.map_get?_update? PathHoppingNode.nodeId (fun node node' hreceive => ?_) hnodes nodeId'
  cases hreceive
  rfl

theorem setFlows (h : SameNetwork sim s) {flowId : FlowId} {change : PathHoppingFlow → Option PathHoppingFlow}
    (hchange : ∀ flow flow', change flow = some flow' → flow'.paths = flow.paths) {flows : Dict FlowId PathHoppingFlow}
    (hflows : s.flows.update? flowId change = some flows) (deliveries : Multiset PathHoppingShare) :
    SameNetwork sim { s with flows := flows, deliveries := deliveries } := by
  refine ⟨h.nodes, fun flowId' => ?_⟩
  rw [← h.flows flowId']
  exact Dict.map_get?_update? PathHoppingFlow.paths hchange hflows flowId'

theorem injectPackets (h : SameNetwork sim s) {order : StepOrder} (hrun : s.injectPackets order = some s') :
    SameNetwork sim s' := by
  refine foldlM_preserves (SameNetwork sim) ?_ h hrun
  intro flowId _ s s' hs hturn
  obtain ⟨flow, hget, hall⟩ := Option.bind_eq_some_iff.mp hturn
  have hstart : SameNetwork sim { s with flows := s.flows.set flowId flow.createShares.2 } := by
    refine ⟨hs.nodes, fun flowId' => ?_⟩
    rw [← hs.flows flowId']
    apply Dict.map_get?_set
    rw [hget]
    rfl
  exact foldlM_preserves (SameNetwork sim) (fun share _ s s' hs hinject => hs.injectShare hinject) hstart hall

theorem moveShare {node : PathHoppingNode} {share : PathHoppingShare} {m m' : Moving} (h : SameNetwork sim m.sim)
    (hmove : PathHoppingSimulation.moveShare node m share = some m') : SameNetwork sim m'.sim := by
  rcases moveShare_cases hmove with ⟨flows, hflows, rfl⟩ | ⟨hop, rfl⟩
  · refine h.setFlows (fun flow flow' hreceive => ?_) hflows _
    exact (PathHoppingFlow.receiveShare_sameSetup hreceive).2.2.2.1
  · exact h

theorem movePackets (h : SameNetwork sim s) {order : StepOrder} (hrun : s.movePackets order = some s') :
    SameNetwork sim s' := by
  obtain ⟨moving, hmoves, hinject⟩ := Option.bind_eq_some_iff.mp hrun
  have hmoving : SameNetwork sim moving.sim := by
    refine foldlM_preserves (fun m : Moving => SameNetwork sim m.sim) ?_ h hmoves
    intro nodeId _ m m' hm hturn
    rw [moveNode_eq] at hturn
    obtain ⟨node, hnode, hall⟩ := Option.bind_eq_some_iff.mp hturn
    obtain ⟨after, hafter, rfl⟩ := Option.map_eq_some_iff.mp hall
    have hmoved : SameNetwork sim after.sim :=
      foldlM_preserves (fun m : Moving => SameNetwork sim m.sim) (fun share _ m m' hm => hm.moveShare) hm hafter
    refine ⟨fun nodeId' => ?_, hmoved.flows⟩
    rw [← hmoved.nodes nodeId']
    apply Dict.map_get?_set
    rw [hmoved.nodes nodeId, ← hm.nodes nodeId, hnode]
    rfl
  exact foldlM_preserves (SameNetwork sim) (fun move _ s s' hs hinject => hs.injectShare hinject) hmoving hinject

theorem advance (h : SameNetwork sim s) {order : StepOrder} {outcome : FlowId → List Nat}
    (hrun : s.advance order outcome = some s') : SameNetwork sim s' := by
  obtain ⟨injected, hinject, hrest⟩ := Option.bind_eq_some_iff.mp hrun
  obtain ⟨moved, hmove, hhops⟩ := Option.bind_eq_some_iff.mp hrest
  refine foldlM_preserves (SameNetwork sim) ?_ ((h.injectPackets hinject).movePackets hmove) hhops
  intro flowId _ s s' hs hturn
  obtain ⟨flows, hflows, hsome⟩ := Option.bind_eq_some_iff.mp hturn
  cases hsome
  refine hs.setFlows (fun flow flow' hhop => ?_) hflows s.deliveries
  rw [(PathHoppingFlow.hop_eq_some_iff.mp hhop).2]

/-- The network stays over a whole run. -/
theorem run {order : Nat → StepOrder} {outcome : Nat → FlowId → List Nat} {select : Nat → Select} {n : Nat}
    (hrun : sim.run order outcome select n = some s) : SameNetwork sim s := by
  induction n generalizing s with
  | zero =>
      cases hrun
      exact refl sim
  | succ n ih =>
      obtain ⟨before, hbefore, hstep⟩ := Option.bind_eq_some_iff.mp hrun
      obtain ⟨moved, attackers, hadvance, -, rfl⟩ := step_eq_some hstep
      exact ⟨((ih hbefore).advance hadvance).nodes, ((ih hbefore).advance hadvance).flows⟩

end SameNetwork

/-- The network part of a step touches neither the attackers nor the clock. -/
theorem advance_frame {sim moved : PathHoppingSimulation} {order : StepOrder} {outcome : FlowId → List Nat}
    (h : sim.advance order outcome = some moved) :
    moved.attackers = sim.attackers ∧ moved.ticks = sim.ticks := by
  obtain ⟨injected, hinject, hrest⟩ := Option.bind_eq_some_iff.mp h
  obtain ⟨delivered, hmove, hhops⟩ := Option.bind_eq_some_iff.mp hrest
  have hstart : SameAttackers sim sim := ⟨rfl, rfl⟩
  have hmoved := ((hstart.injectPackets hinject).movePackets hmove).hopFlows hhops
  exact ⟨hmoved.attackers, hmoved.ticks⟩

/-- A step seen from the attackers: each takes its own turn on the moved network. -/
theorem step_attackers {sim sim' : PathHoppingSimulation} {order : StepOrder}
    {outcome : FlowId → List Nat} {select : Nat → Select} (h : sim.step order outcome select = some sim') :
    ∃ moved, sim.advance order outcome = some moved ∧ moved.attackers = sim.attackers ∧
      moved.ticks = sim.ticks ∧ sim'.ticks = sim.ticks + 1 ∧ sim'.attackers.length = sim.attackers.length ∧
      ∀ idx, sim'.attackers[idx]? = sim.attackers[idx]?.bind fun attacker =>
        moved.attackerTurn order select attacker idx := by
  obtain ⟨moved, attackers, hadvance, hattack, rfl⟩ := step_eq_some h
  obtain ⟨hattackers, hticks⟩ := advance_frame hadvance
  refine ⟨moved, hadvance, hattackers, hticks, congrArg (· + 1) hticks, ?_, fun idx => ?_⟩
  · change attackers.length = _
    rw [length_of_mapM hattack, List.length_zipIdx, hattackers]
  · change attackers[idx]? = _
    rw [getElem?_of_mapM hattack idx, List.getElem?_zipIdx, hattackers, Option.bind_map, Nat.zero_add]
    rfl

theorem ticks_of_run {start : PathHoppingSimulation} {order : Nat → StepOrder}
    {outcome : Nat → FlowId → List Nat} {select : Nat → Select} {n : Nat} {sim : PathHoppingSimulation}
    (hrun : start.run order outcome select n = some sim) : sim.ticks = start.ticks + n := by
  induction n generalizing sim with
  | zero =>
      cases hrun
      rfl
  | succ n ih =>
      obtain ⟨before, hbefore, hstep⟩ := Option.bind_eq_some_iff.mp hrun
      obtain ⟨moved, -, -, -, hticks, -, -⟩ := step_attackers hstep
      rw [hticks, ih hbefore, Nat.add_assoc]

/-- A run that gets to a step has got to all steps before it. -/
theorem run_isSome_of_le {start : PathHoppingSimulation} {order : Nat → StepOrder}
    {outcome : Nat → FlowId → List Nat} {select : Nat → Select} {t n : Nat} (hle : t ≤ n)
    (h : (start.run order outcome select n).isSome) : (start.run order outcome select t).isSome := by
  induction n with
  | zero => exact Nat.le_zero.mp hle ▸ h
  | succ n ih =>
      by_cases heq : t = n + 1
      · exact heq ▸ h
      · apply ih (by omega)
        obtain ⟨sim, hsim⟩ := Option.isSome_iff_exists.mp h
        obtain ⟨before, hbefore, -⟩ := Option.bind_eq_some_iff.mp hsim
        rw [hbefore]
        rfl

end PathHoppingSimulation

end OfTestbed.Simulator
