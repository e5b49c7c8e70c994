import Mathlib.Data.Finset.Card
import Mathlib.Data.Multiset.Count
import OfTestbed.SimulatorScenario

/-!
The state of a simulation after any number of steps. Two invariants are carried through the phases of a
step: the shares each node holds, and a ledger that ties the counters of every flow to the deliveries
made so far. The ledger is indexed by how many messages each flow has sent and which of its hops is
active, since these change flow by flow inside a phase.
-/

namespace OfTestbed.Simulator

open Lib

namespace Scenario

/-! ### The ledger of a flow -/

/-- The shares of message `seqNum` of a flow among the deliveries. -/
def arrivals (deliveries : Multiset PathHoppingShare) (flowId : FlowId) (seqNum : Nat) : Nat :=
  deliveries.countP fun share => share.flowId = flowId ∧ share.seqNum = seqNum

structure FlowLedger (scenario : Scenario) (setup : FlowSetup) (sent active : Nat) (arrived : Nat → Nat)
    (flow : PathHoppingFlow) : Prop where
  sameSetup : (setup.started []).SameSetup flow
  activePaths : flow.activePaths = scenario.hops setup.flowId active
  messagesTx : flow.messagesTx = sent
  seqNum : flow.seqNum = sent
  messagesRx : flow.messagesRx = ((Finset.range sent).filter fun s => arrived s = setup.K).card
  pending : ∀ s, flow.sharesReceived.get? s =
    if s < sent ∧ arrived s < setup.K then some (arrived s) else none

structure Ledger (scenario : Scenario) (sent active : FlowId → Nat) (flows : Dict FlowId PathHoppingFlow)
    (deliveries : Multiset PathHoppingShare) : Prop where
  known : ∀ flowId flow, flows.get? flowId = some flow → ∃ setup ∈ scenario.setups, setup.flowId = flowId
  entry : ∀ setup ∈ scenario.setups, ∃ flow, flows.get? setup.flowId = some flow ∧
    scenario.FlowLedger setup (sent setup.flowId) (active setup.flowId)
      (arrivals deliveries setup.flowId) flow

variable {scenario : Scenario} {setup : FlowSetup} {sent active : Nat} {arrived : Nat → Nat}
  {flow : PathHoppingFlow}

theorem FlowLedger.paths_eq (h : scenario.FlowLedger setup sent active arrived flow) :
    flow.paths = setup.paths := h.sameSetup.2.2.2.1

theorem FlowLedger.K_eq (h : scenario.FlowLedger setup sent active arrived flow) :
    flow.K = setup.K := h.sameSetup.2.2.2.2

theorem FlowLedger.createShares_fst (h : scenario.FlowLedger setup sent sent arrived flow) :
    flow.createShares.1 = scenario.sharesOf setup sent := by
  have hsource : flow.sourceNode = setup.sourceNode := h.sameSetup.2.1
  have hsink : flow.sinkNode = setup.sinkNode := h.sameSetup.2.2.1
  have hid : flow.flowId = setup.flowId := h.sameSetup.1
  simp only [PathHoppingFlow.createShares, PathHoppingFlow.getNextSeqNum, sharesOf, h.activePaths, h.seqNum,
    hsource, hsink, hid]

/-- Sending a message of which nothing has arrived. -/
theorem FlowLedger.createShares (h : scenario.FlowLedger setup sent active arrived flow)
    (hK : 1 ≤ setup.K) (hnone : arrived sent = 0) :
    scenario.FlowLedger setup (sent + 1) active arrived flow.createShares.2 where
  sameSetup := h.sameSetup.trans flow.createShares_sameSetup
  activePaths := h.activePaths
  messagesTx := congrArg (· + 1) h.messagesTx
  seqNum := congrArg (· + 1) h.seqNum
  messagesRx := by
    have hlast : ¬arrived sent = setup.K := by omega
    rw [Finset.range_add_one, Finset.filter_insert, if_neg hlast]
    exact h.messagesRx
  pending := by
    intro s
    change (flow.sharesReceived.set flow.seqNum 0).get? s = _
    rw [h.seqNum, Dict.get?_set]
    by_cases hs : s = sent
    · rw [if_pos hs, hs, hnone, if_pos (by omega)]
    · rw [if_neg hs, h.pending s]
      have hiff : (s < sent ∧ arrived s < setup.K) ↔ (s < sent + 1 ∧ arrived s < setup.K) := by omega
      simp only [hiff]

/-- One more share of message `s` completes it or leaves the number of complete messages as it was. -/
theorem card_complete_update {K s : Nat} (hs : s < sent) (hlt : arrived s < K) :
    ((Finset.range sent).filter fun r => Function.update arrived s (arrived s + 1) r = K).card =
      ((Finset.range sent).filter fun r => arrived r = K).card + if arrived s + 1 = K then 1 else 0 := by
  by_cases hlast : arrived s + 1 = K
  · have hinsert : ((Finset.range sent).filter fun r => Function.update arrived s (arrived s + 1) r = K) =
        insert s ((Finset.range sent).filter fun r => arrived r = K) := by
      ext r
      simp only [Finset.mem_filter, Finset.mem_insert, Finset.mem_range]
      by_cases hr : r = s
      · subst hr
        simp [hs, hlast]
      · simp [hr]
    have hnew : s ∉ (Finset.range sent).filter fun r => arrived r = K := by
      rw [Finset.mem_filter]
      omega
    rw [hinsert, Finset.card_insert_of_notMem hnew, if_pos hlast]
  · rw [if_neg hlast]
    refine congrArg Finset.card (Finset.filter_congr ?_)
    intro r _
    by_cases hr : r = s
    · subst hr
      rw [Function.update_self]
      omega
    · rw [Function.update_of_ne hr]

/-- Delivering a share of a message that is still pending. -/
theorem FlowLedger.receiveShare (h : scenario.FlowLedger setup sent active arrived flow)
    {share : PathHoppingShare} (hsent : share.seqNum < sent) (hlt : arrived share.seqNum < setup.K) :
    ∃ flow', flow.receiveShare share = some flow' ∧
      scenario.FlowLedger setup sent active
        (Function.update arrived share.seqNum (arrived share.seqNum + 1)) flow' := by
  have hget : flow.sharesReceived.get? share.seqNum = some (arrived share.seqNum) := by
    rw [h.pending, if_pos ⟨hsent, hlt⟩]
  refine ⟨_, by rw [PathHoppingFlow.receiveShare_eq, hget, Option.map_some], ?_⟩
  refine ⟨h.sameSetup, h.activePaths, h.messagesTx, h.seqNum, ?_, ?_⟩
  · rw [card_complete_update hsent hlt, h.K_eq, h.messagesRx]
  · intro s
    rw [h.K_eq]
    by_cases hs : s = share.seqNum
    · subst hs
      rw [PathHoppingFlow.get?_pendingAfter_self, Function.update_self]
      by_cases hlast : arrived share.seqNum + 1 = setup.K
      · rw [if_pos hlast, if_neg (by omega)]
      · rw [if_neg hlast, if_pos (by omega)]
    · rw [PathHoppingFlow.get?_pendingAfter hs, h.pending, Function.update_of_ne hs]

theorem FlowLedger.hop (h : scenario.FlowLedger setup sent active arrived flow)
    (hK : setup.K ≤ setup.paths.length) (active' : Nat) :
    ∃ flow', flow.hop (scenario.hops setup.flowId active') = some flow' ∧
      scenario.FlowLedger setup sent active' arrived flow' := by
  refine ⟨_, PathHoppingFlow.hop_eq_some_iff.mpr ⟨?_, rfl⟩, ?_⟩
  · rw [h.K_eq, h.paths_eq]
    exact hK
  · exact ⟨h.sameSetup, rfl, h.messagesTx, h.seqNum, h.messagesRx, h.pending⟩

theorem arrivals_cons_self (share : PathHoppingShare) (deliveries : Multiset PathHoppingShare) :
    arrivals (share ::ₘ deliveries) share.flowId =
      Function.update (arrivals deliveries share.flowId) share.seqNum
        (arrivals deliveries share.flowId share.seqNum + 1) := by
  funext s
  by_cases hs : s = share.seqNum
  · subst hs
    simp [arrivals]
  · rw [Function.update_of_ne hs, arrivals, Multiset.countP_cons, if_neg (fun h => hs h.2.symm)]
    rfl

theorem arrivals_cons_of_ne {share : PathHoppingShare} {flowId : FlowId} (h : flowId ≠ share.flowId)
    (deliveries : Multiset PathHoppingShare) :
    arrivals (share ::ₘ deliveries) flowId = arrivals deliveries flowId := by
  funext s
  rw [arrivals, Multiset.countP_cons, if_neg (fun hshare => h hshare.1.symm)]
  rfl

/-! ### The ledger of all flows -/

section Flows

variable {sent active : FlowId → Nat} {flows : Dict FlowId PathHoppingFlow}
  {deliveries : Multiset PathHoppingShare}

theorem Ledger.mem_keySet (h : scenario.Ledger sent active flows deliveries) {flowId : FlowId} :
    flowId ∈ flows.keySet ↔ ∃ setup ∈ scenario.setups, setup.flowId = flowId := by
  rw [Dict.mem_keySet, Option.isSome_iff_exists]
  constructor
  · rintro ⟨flow, hflow⟩
    exact h.known flowId flow hflow
  · rintro ⟨setup, hsetup, rfl⟩
    obtain ⟨flow, hflow, -⟩ := h.entry setup hsetup
    exact ⟨flow, hflow⟩

/-- Replacing one flow: the other flows must not notice the changed deliveries. -/
theorem Ledger.set (h : scenario.Ledger sent active flows deliveries) {setup : FlowSetup}
    (hsetup : setup ∈ scenario.setups) {flow : PathHoppingFlow} {sent' active' : FlowId → Nat}
    {deliveries' : Multiset PathHoppingShare}
    (hflow : scenario.FlowLedger setup (sent' setup.flowId) (active' setup.flowId)
      (arrivals deliveries' setup.flowId) flow)
    (hother : ∀ flowId, flowId ≠ setup.flowId → sent' flowId = sent flowId ∧
      active' flowId = active flowId ∧ arrivals deliveries' flowId = arrivals deliveries flowId) :
    scenario.Ledger sent' active' (flows.set setup.flowId flow) deliveries' where
  known := by
    intro flowId other hget
    by_cases hid : flowId = setup.flowId
    · exact ⟨setup, hsetup, hid.symm⟩
    · rw [Dict.get?_set_of_ne hid] at hget
      exact h.known flowId other hget
  entry := by
    intro other hother'
    by_cases hid : other.flowId = setup.flowId
    · cases setup_unique hother' hsetup hid
      exact ⟨flow, Dict.get?_set_self flows _ flow, hflow⟩
    · obtain ⟨hsent, hactive, harrivals⟩ := hother other.flowId hid
      rw [Dict.get?_set_of_ne hid, hsent, hactive, harrivals]
      exact h.entry other hother'

theorem Ledger.deliver (h : scenario.Ledger sent active flows deliveries) {setup : FlowSetup}
    (hsetup : setup ∈ scenario.setups) {share : PathHoppingShare} (hid : share.flowId = setup.flowId)
    (hsent : share.seqNum < sent setup.flowId)
    (hlt : arrivals deliveries setup.flowId share.seqNum < setup.K) :
    ∃ flows', (flows.update? share.flowId fun flow => flow.receiveShare share) = some flows' ∧
      scenario.Ledger sent active flows' (share ::ₘ deliveries) := by
  obtain ⟨flow, hget, hflow⟩ := h.entry setup hsetup
  obtain ⟨flow', hreceive, hflow'⟩ := hflow.receiveShare hsent hlt
  refine ⟨flows.set setup.flowId flow', ?_, ?_⟩
  · rw [hid, Dict.update?_of_some hget, hreceive, Option.map_some]
  · refine h.set hsetup ?_ fun flowId hne => ⟨rfl, rfl, arrivals_cons_of_ne (hid.symm ▸ hne) deliveries⟩
    rw [← hid, arrivals_cons_self, hid]
    exact hflow'

end Flows

end Scenario

end OfTestbed.Simulator
