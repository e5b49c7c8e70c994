import OfTestbed.SimulatorFrame

/-!
What an attacker has captured. Over a run the captured shares are exactly those that were vulnerable at a
monitored node when `monitor` ran, whatever `select_monitored_nodes` does, as long as it leaves the captured
shares and `K` alone; every class of the repository does. A message number is returned by
`reconstruct_captured_messages` when `K` distinct share numbers were captured under it.
-/

namespace OfTestbed.Simulator

open Lib

namespace Attacker

/-- The share is vulnerable at one of the monitored nodes. -/
def Sees (nodes : Dict NodeId PathHoppingNode) (monitored : Finset NodeId) (share : PathHoppingShare) :
    Prop :=
  ∃ nodeId ∈ monitored, ∃ node, nodes.get? nodeId = some node ∧ share ∈ node.residentShares ∧
    share.sourceNode ≠ node.nodeId ∧ share.sinkNode ≠ node.nodeId

theorem captureShares_spec {order : SetOrder PathHoppingShare} {flows : Dict FlowId PathHoppingFlow}
    {attacker attacker' : Attacker} {node : PathHoppingNode}
    (h : captureShares order flows attacker node = some attacker') :
    attacker'.capturedShares = attacker.capturedShares ++ node.vulnerableShares order ∧
      attacker'.K = attacker.K ∧ attacker'.monitoredNodes = attacker.monitoredNodes := by
  unfold captureShares at h
  split at h
  · simp only [Option.bind_eq_bind, Option.bind_eq_some_iff, Option.pure_def, Option.some.injEq] at h
    obtain ⟨flow, -, idx, -, rfl⟩ := h
    exact ⟨rfl, rfl, rfl⟩
  · cases h
    exact ⟨rfl, rfl, rfl⟩

theorem monitor_spec {order : MonitorOrder} {nodes : Dict NodeId PathHoppingNode}
    {flows : Dict FlowId PathHoppingFlow} {attacker attacker' : Attacker}
    (h : attacker.monitor order nodes flows = some attacker') :
    (∀ share, share ∈ attacker'.capturedShares ↔
        share ∈ attacker.capturedShares ∨ Sees nodes attacker.monitoredNodes share) ∧
      attacker'.K = attacker.K ∧ attacker'.monitoredNodes = attacker.monitoredNodes := by
  have hloop := foldlM_partial (fun done a =>
      (∀ share, share ∈ a.capturedShares ↔ share ∈ attacker.capturedShares ∨
        ∃ nodeId ∈ done, ∃ node, nodes.get? nodeId = some node ∧ share ∈ node.residentShares ∧
          share.sourceNode ≠ node.nodeId ∧ share.sinkNode ≠ node.nodeId) ∧
        a.K = attacker.K ∧ a.monitoredNodes = attacker.monitoredNodes)
    ⟨fun share => by simp, rfl, rfl⟩ ?_ h
  · simpa only [Sees, order.monitored.mem_list] using hloop
  · intro done nodeId rest a a' _ hdone hturn
    obtain ⟨hcaptured, hK, hmonitored⟩ := hdone
    obtain ⟨node, hnode, hcapture⟩ := Option.bind_eq_some_iff.mp hturn
    obtain ⟨hshares, hK', hmonitored'⟩ := captureShares_spec hcapture
    refine ⟨fun share => ?_, hK'.trans hK, hmonitored'.trans hmonitored⟩
    rw [hshares, List.mem_append, hcaptured, PathHoppingNode.mem_vulnerableShares]
    simp only [List.mem_append, List.mem_singleton, or_and_right, exists_or, exists_eq_left, or_assoc, hnode,
      Option.some.injEq, exists_eq_left']

/-- The class uses `Attacker.capture_shares`; only `PlannedAttacker` overrides it. -/
def InheritsCapture (attacker : Attacker) : Prop :=
  ∀ activePaths monitoredPaths hopIndex, attacker.cls ≠ .planned activePaths monitoredPaths hopIndex

theorem captureShares_of_inherits {attacker : Attacker} (h : attacker.InheritsCapture)
    (order : SetOrder PathHoppingShare) (flows : Dict FlowId PathHoppingFlow) (node : PathHoppingNode) :
    captureShares order flows attacker node =
      some { attacker with capturedShares := attacker.capturedShares ++ node.vulnerableShares order } := by
  obtain ⟨monitoredNodes, N, K, capturedShares, hopPeriod, hopCount, cls⟩ := attacker
  cases cls with
  | planned activePaths monitoredPaths hopIndex => exact absurd rfl (h activePaths monitoredPaths hopIndex)
  | _ => rfl

/-- `monitor` does not raise when every monitored node exists. -/
theorem exists_monitor {attacker : Attacker} (h : attacker.InheritsCapture) (order : MonitorOrder)
    (nodes : Dict NodeId PathHoppingNode) (flows : Dict FlowId PathHoppingFlow)
    (hnodes : ∀ nodeId ∈ attacker.monitoredNodes, (nodes.get? nodeId).isSome) :
    ∃ attacker', attacker.monitor order nodes flows = some attacker' ∧ attacker'.cls = attacker.cls := by
  refine foldlM_total _ (order.monitored.list attacker.monitoredNodes) attacker
    (fun _ a => a.cls = attacker.cls) rfl ?_
  intro done nodeId rest a hl hcls
  obtain ⟨node, hnode⟩ := Option.isSome_iff_exists.mp (hnodes nodeId (SetOrder.mem_of_split hl))
  have hinherits : a.InheritsCapture := fun p q r => hcls ▸ h p q r
  refine ⟨{ a with capturedShares := a.capturedShares ++ node.vulnerableShares (order.resident nodeId) }, ?_, hcls⟩
  rw [hnode]
  exact captureShares_of_inherits hinherits (order.resident nodeId) flows node

/-- The distinct share numbers captured of message `seqNum` of one flow. -/
def capturedNums (attacker : Attacker) (seqNum : Nat) (flowId : FlowId) : Finset Nat :=
  ((attacker.capturedShares.filter fun share => share.seqNum = seqNum ∧ share.flowId = flowId).map
    PathHoppingShare.shareNum).toFinset

theorem mem_capturedNums {attacker : Attacker} {seqNum : Nat} {flowId : FlowId} {num : Nat} :
    num ∈ attacker.capturedNums seqNum flowId ↔
      ∃ share ∈ attacker.capturedShares,
        share.seqNum = seqNum ∧ share.flowId = flowId ∧ share.shareNum = num := by
  simp [capturedNums, and_assoc]

/-- `reconstruct_captured_messages` groups by sequence number alone. -/
theorem mem_reconstructCapturedMessages {attacker : Attacker} {seqNum : Nat} :
    seqNum ∈ attacker.reconstructCapturedMessages ↔
      (∃ share ∈ attacker.capturedShares, share.seqNum = seqNum) ∧
        (((attacker.capturedShares.filter fun share => share.seqNum = seqNum).map
          PathHoppingShare.shareNum).toFinset).card = attacker.K := by
  have hnums : (((sortedBy PathHoppingShare.seqNum attacker.capturedShares).filter
      fun share => share.seqNum = seqNum).map PathHoppingShare.shareNum).toFinset =
      ((attacker.capturedShares.filter fun share => share.seqNum = seqNum).map
        PathHoppingShare.shareNum).toFinset := by
    ext num
    simp [mem_sortedBy]
  simp only [reconstructCapturedMessages, List.mem_map, List.mem_filter, Prod.exists, decide_eq_true_eq,
    exists_and_right, exists_eq_right]
  constructor
  · intro ⟨group, hmem, hcard⟩
    obtain ⟨hexists, rfl⟩ := mem_groupby_sortedBy.mp hmem
    exact ⟨hexists, hnums ▸ hcard⟩
  · intro ⟨hexists, hcard⟩
    exact ⟨_, mem_groupby_sortedBy.mpr ⟨hexists, rfl⟩, hnums.symm ▸ hcard⟩

theorem pairwise_reconstructCapturedMessages (attacker : Attacker) :
    attacker.reconstructCapturedMessages.Pairwise (· < ·) := by
  rw [reconstructCapturedMessages, List.pairwise_map]
  exact (pairwise_groupby_sortedBy PathHoppingShare.seqNum attacker.capturedShares).filter _

/-- Of the numbers below `K` a set has `K` when it has them all. -/
theorem card_eq_iff_forall_mem {nums : Finset Nat} {K : Nat} (hlt : ∀ num ∈ nums, num < K) :
    nums.card = K ↔ ∀ num < K, num ∈ nums := by
  have hsub : nums ⊆ Finset.range K := fun num hnum => Finset.mem_range.mpr (hlt num hnum)
  constructor
  · intro hcard num hnum
    rw [Finset.eq_of_subset_of_card_le hsub (by rw [hcard, Finset.card_range])]
    exact Finset.mem_range.mpr hnum
  · intro hall
    rw [Finset.Subset.antisymm hsub fun num hnum => hall num (Finset.mem_range.mp hnum), Finset.card_range]

/-- With share numbers below `K`, a message number is returned when all of them were captured. -/
theorem mem_reconstructCapturedMessages_iff {attacker : Attacker} {seqNum : Nat} (hK : 1 ≤ attacker.K)
    (hlt : ∀ share ∈ attacker.capturedShares, share.shareNum < attacker.K) :
    seqNum ∈ attacker.reconstructCapturedMessages ↔
      ∀ num < attacker.K, ∃ share ∈ attacker.capturedShares, share.seqNum = seqNum ∧ share.shareNum = num := by
  have hmem : ∀ num, num ∈ ((attacker.capturedShares.filter fun share => share.seqNum = seqNum).map
      PathHoppingShare.shareNum).toFinset ↔
      ∃ share ∈ attacker.capturedShares, share.seqNum = seqNum ∧ share.shareNum = num := by
    simp [and_assoc]
  have hbound : ∀ num ∈ ((attacker.capturedShares.filter fun share => share.seqNum = seqNum).map
      PathHoppingShare.shareNum).toFinset, num < attacker.K := by
    intro num hnum
    obtain ⟨share, hshare, -, rfl⟩ := (hmem num).mp hnum
    exact hlt share hshare
  rw [mem_reconstructCapturedMessages, card_eq_iff_forall_mem hbound]
  simp only [hmem, and_iff_right_iff_imp]
  intro hall
  obtain ⟨share, hshare, hseq, -⟩ := hall 0 hK
  exact ⟨share, hshare, hseq⟩

theorem card_capturedNums_eq_iff {attacker : Attacker} {seqNum : Nat} {flowId : FlowId}
    (hlt : ∀ share ∈ attacker.capturedShares, share.shareNum < attacker.K) :
    (attacker.capturedNums seqNum flowId).card = attacker.K ↔
      ∀ num < attacker.K, ∃ share ∈ attacker.capturedShares,
        share.seqNum = seqNum ∧ share.flowId = flowId ∧ share.shareNum = num := by
  rw [card_eq_iff_forall_mem]
  · simp only [mem_capturedNums]
  · intro num hnum
    obtain ⟨share, hshare, -, -, rfl⟩ := mem_capturedNums.mp hnum
    exact hlt share hshare

/-! ### Selections leave the captured shares alone -/

/-- A selection that changes neither the captured shares nor `K`. -/
def KeepsCaptures (select : Nat → Select) : Prop :=
  ∀ idx nodes flows simulationTime attacker attacker',
    select idx nodes flows simulationTime attacker = some attacker' →
      attacker'.capturedShares = attacker.capturedShares ∧ attacker'.K = attacker.K

/-- The selection of a class with a period: it hops, or changes nothing. -/
theorem captures_of_hop {before ready after : Attacker} {hop : Option Bool} {α : Type} {drawn : Option α}
    {nodes : α → List NodeId}
    (h : (hop.bind fun isHop =>
      if isHop = true then drawn.bind fun a => some (ready.hopTo (nodes a)) else some ready) = some after)
    (hcaptured : ready.capturedShares = before.capturedShares) (hK : ready.K = before.K) :
    after.capturedShares = before.capturedShares ∧ after.K = before.K := by
  obtain ⟨isHop, -, h⟩ := Option.bind_eq_some_iff.mp h
  split at h
  · obtain ⟨a, -, h⟩ := Option.bind_eq_some_iff.mp h
    cases h
    exact ⟨hcaptured, hK⟩
  · cases h
    exact ⟨hcaptured, hK⟩

/-- Every class of the repository leaves them alone. -/
theorem keepsCaptures_selectMonitoredNodes (draws : Nat → Nat → Draws) :
    KeepsCaptures fun idx nodes flows simulationTime =>
      selectMonitoredNodes (draws idx simulationTime) nodes flows simulationTime := by
  intro idx nodes flows simulationTime attacker attacker' h
  obtain ⟨monitoredNodes, N, K, capturedShares, hopPeriod, hopCount, cls⟩ := attacker
  cases cls with
  | randomNodeHopping nodeCollection =>
      simp only [selectMonitoredNodes, selectRandomNodes, Option.bind_eq_bind, Option.bind_eq_some_iff] at h
      obtain ⟨collection, -, h⟩ := h
      exact captures_of_hop (Option.bind_eq_some_iff.mpr h) rfl rfl
  | randomPathHopping nodeCollection =>
      simp only [selectMonitoredNodes, selectRandomPaths, Option.bind_eq_bind, Option.bind_eq_some_iff] at h
      obtain ⟨flow, -, h⟩ := h
      exact captures_of_hop (Option.bind_eq_some_iff.mpr h) rfl rfl
  | idealRandomPathHopping pathCollection =>
      simp only [selectMonitoredNodes, selectIdealRandomPaths, Option.bind_eq_bind, Option.bind_eq_some_iff] at h
      obtain ⟨flow, -, h⟩ := h
      exact captures_of_hop (Option.bind_eq_some_iff.mpr h) rfl rfl
  | oneNodePerPath pathCollection =>
      simp only [selectMonitoredNodes, selectOneNodePerPath, Option.bind_eq_bind, Option.bind_eq_some_iff] at h
      obtain ⟨flow, -, h⟩ := h
      split at h
      · obtain ⟨paths, -, h⟩ := Option.bind_eq_some_iff.mp h
        obtain ⟨drawn, -, h⟩ := Option.bind_eq_some_iff.mp h
        cases h
        exact ⟨rfl, rfl⟩
      · cases h
        exact ⟨rfl, rfl⟩
  | fixed pathCollection =>
      simp only [selectMonitoredNodes, selectFixed, Option.bind_eq_bind, Option.bind_eq_some_iff] at h
      obtain ⟨flow, -, h⟩ := h
      cases pathCollection with
      | some collection =>
          cases h
          exact ⟨rfl, rfl⟩
      | none =>
          obtain ⟨paths, -, h⟩ := Option.bind_eq_some_iff.mp h
          obtain ⟨drawn, -, h⟩ := Option.bind_eq_some_iff.mp h
          cases h
          exact ⟨rfl, rfl⟩
  | planned activePaths monitoredPaths hopIndex =>
      simp only [selectMonitoredNodes, selectPlanned, Option.bind_eq_bind, Option.bind_eq_some_iff] at h
      obtain ⟨flow, -, isHop, -, h⟩ := h
      split at h
      · obtain ⟨longest, -, h⟩ := Option.bind_eq_some_iff.mp h
        obtain ⟨nodesAtHop, -, h⟩ := Option.bind_eq_some_iff.mp h
        obtain ⟨already, -, h⟩ := Option.bind_eq_some_iff.mp h
        split at h
        · cases h
          exact ⟨rfl, rfl⟩
        · obtain ⟨drawn, -, h⟩ := Option.bind_eq_some_iff.mp h
          cases h
          exact ⟨rfl, rfl⟩
      · cases h
        exact ⟨rfl, rfl⟩
  | total =>
      simp only [selectMonitoredNodes, selectTotal] at h
      split at h
      · obtain ⟨flow, -, h⟩ := Option.bind_eq_some_iff.mp h
        obtain ⟨drawn, -, h⟩ := Option.bind_eq_some_iff.mp h
        cases h
        exact ⟨rfl, rfl⟩
      · cases h
        exact ⟨rfl, rfl⟩

end Attacker

/-! ### Captures over a run -/

namespace PathHoppingSimulation

/-- In step `t` of the run, attacker `idx` sees the share. -/
def SeenInStep (start : PathHoppingSimulation) (order : Nat → StepOrder)
    (outcome : Nat → FlowId → List Nat) (select : Nat → Select) (idx t : Nat) (share : PathHoppingShare) :
    Prop :=
  ∃ sim moved attacker, start.run order outcome select t = some sim ∧
    sim.advance (order t) (outcome t) = some moved ∧ moved.attackers[idx]? = some attacker ∧
    Attacker.Sees moved.nodes attacker.monitoredNodes share

theorem mem_capturedShares_of_run {start : PathHoppingSimulation} {order : Nat → StepOrder}
    {outcome : Nat → FlowId → List Nat} {select : Nat → Select} (hselect : Attacker.KeepsCaptures select)
    {idx : Nat} {attacker : Attacker} (hattacker : start.attackers[idx]? = some attacker)
    (hfresh : attacker.capturedShares = []) {n : Nat} {sim : PathHoppingSimulation}
    (hrun : start.run order outcome select n = some sim) :
    ∃ final, sim.attackers[idx]? = some final ∧ final.K = attacker.K ∧
      ∀ share, share ∈ final.capturedShares ↔ ∃ t < n, SeenInStep start order outcome select idx t share := by
  induction n generalizing sim with
  | zero =>
      cases hrun
      exact ⟨attacker, hattacker, rfl, fun share => by simp [hfresh]⟩
  | succ n ih =>
      obtain ⟨before, hbefore, hstep⟩ := Option.bind_eq_some_iff.mp hrun
      obtain ⟨current, hcurrent, hK, hcaptured⟩ := ih hbefore
      obtain ⟨moved, hadvance, hattackers, -, -, hlength, hturn⟩ := step_attackers hstep
      have hlt : idx < sim.attackers.length :=
        hlength.symm ▸ (List.getElem?_eq_some_iff.mp hcurrent).1
      have hfinal := List.getElem?_eq_getElem hlt
      refine ⟨sim.attackers[idx], hfinal, ?_⟩
      have hsome := (hturn idx).symm.trans hfinal
      rw [hcurrent, Option.bind_some] at hsome
      obtain ⟨monitored, hmonitor, hselected⟩ := Option.bind_eq_some_iff.mp hsome
      obtain ⟨hsees, hK', hmonitored⟩ := Attacker.monitor_spec hmonitor
      obtain ⟨hkept, hK''⟩ := hselect _ _ _ _ _ _ hselected
      refine ⟨by rw [hK'', hK', hK], fun share => ?_⟩
      have hseen : SeenInStep start order outcome select idx n share ↔
          Attacker.Sees moved.nodes current.monitoredNodes share := by
        refine ⟨fun ⟨sim, moved', attacker', hsim, hadvance', hattacker', hsees'⟩ => ?_, fun hsees' => ?_⟩
        · cases hsim.symm.trans hbefore
          cases hadvance'.symm.trans hadvance
          rw [hattackers] at hattacker'
          cases hattacker'.symm.trans hcurrent
          exact hsees'
        · exact ⟨before, moved, current, hbefore, hadvance, by rw [hattackers, hcurrent], hsees'⟩
      rw [hkept, hsees, hcaptured, ← hseen, Nat.exists_lt_succ_right]

end PathHoppingSimulation

end OfTestbed.Simulator
