import OfTestbed.SimulatorFrame
import OfTestbed.SimulatorPhases

/-!
Every state a simulation reaches. The description between phases holds at the start and is taken from one
step to the next, so it holds after any number of steps; read back, it says where every share is and what
every flow has counted.
-/

namespace OfTestbed.Simulator

open Lib

namespace Scenario

variable {scenario : Scenario}

/-! ### The start -/

theorem start_phase (attackers : List Attacker) : scenario.Phase 0 0 0 (scenario.start attackers) := by
  have hnothing : ∀ share, ¬scenario.Arrived 0 0 share := fun share ⟨_, hlt, _⟩ => absurd hlt (by omega)
  refine ⟨⟨fun v node hget => (get?_nodes_start.mp hget).1, fun v hmem => ?_⟩, ⟨?_, ?_⟩,
    Multiset.nodup_zero, fun share => ?_⟩
  · refine ⟨PathHoppingNode.new v, get?_nodes_start.mpr ⟨hmem, rfl⟩, rfl, fun share => ?_⟩
    refine ⟨fun hshare => absurd hshare (Finset.notMem_empty share), fun ⟨_, hlt, _⟩ => absurd hlt (by omega)⟩
  · intro flowId flow hget
    obtain ⟨setup, hsetup, hid, -⟩ := get?_flows_start.mp hget
    exact ⟨setup, hsetup, hid⟩
  · intro setup hsetup
    refine ⟨_, get?_flows_start.mpr ⟨setup, hsetup, rfl, rfl⟩, ?_⟩
    exact ⟨⟨rfl, rfl, rfl, rfl, rfl⟩, rfl, rfl, rfl, rfl,
      fun s => by simp [FlowSetup.started, PathHoppingFlow.new]⟩
  · exact ⟨fun hshare => absurd hshare (Multiset.notMem_zero share), fun h => absurd h (hnothing share)⟩

/-! ### Reading the description back -/

/-- The shares of a message that were delivered are those whose path has ended. -/
theorem Phase.arrivals_eq (havoid : scenario.AvoidsSentinel) {n : Nat} {sim : PathHoppingSimulation}
    (h : scenario.Phase n n n sim) {setup : FlowSetup} (hsetup : setup ∈ scenario.setups) {seqNum : Nat}
    (hlt : seqNum < n) :
    arrivals sim.deliveries setup.flowId seqNum = scenario.arrivedBy setup n seqNum := by
  have hfilter : sim.deliveries.filter (fun x => x.flowId = setup.flowId ∧ x.seqNum = seqNum) =
      ((scenario.sharesOf setup seqNum).filter fun x =>
        setup.paths[x.pathIdx]?.any fun path => path.length ≤ n - seqNum : List PathHoppingShare) := by
    refine (Multiset.Nodup.ext (h.nodup.filter _) ?_).mpr fun x => ?_
    · exact Multiset.coe_nodup.mpr ((PathHoppingShare.nodup_createSharesFor _ _ _ _ _).filter _)
    · rw [Multiset.mem_filter, h.mem_deliveries, Multiset.mem_coe, List.mem_filter]
      constructor
      · rintro ⟨⟨s, -, path, hsent, hlen⟩, hid, hseq⟩
        rw [hsent.walked_eq havoid] at hlen
        obtain ⟨setup', hsetup', hshare, hpath⟩ := hsent
        cases setup_unique hsetup' hsetup ((mem_sharesOf.mp hshare).2.1.symm.trans hid)
        cases (mem_sharesOf.mp hshare).2.2.1.symm.trans hseq
        exact ⟨hshare, by simpa [hpath] using hlen⟩
      · intro ⟨hshare, hlen⟩
        obtain ⟨path, -, hpath, hsent⟩ := exists_sent hsetup hshare
        have hended : path.length ≤ n - seqNum := by simpa [hpath] using hlen
        refine ⟨(arrived_iff hsent hlt).mpr ((hsent.walked_eq havoid).symm ▸ hended), ?_⟩
        exact ⟨(mem_sharesOf.mp hshare).2.1, (mem_sharesOf.mp hshare).2.2.1⟩
  have hmap := congrArg (List.countP fun path : Option Path => path.any fun path => path.length ≤ n - seqNum)
    (pathsOf_eq_map hsetup seqNum)
  rw [List.countP_map, List.countP_map] at hmap
  rw [arrivals, Multiset.countP_eq_card_filter, hfilter, Multiset.coe_card, ← List.countP_eq_length_filter]
  exact hmap

theorem arrivedBy_eq_K_iff {setup : FlowSetup} (hsetup : setup ∈ scenario.setups) {n seqNum : Nat} :
    scenario.arrivedBy setup n seqNum = setup.K ↔
      ∀ path ∈ scenario.pathsOf setup seqNum, path.length ≤ n - seqNum := by
  rw [arrivedBy, ← length_pathsOf hsetup seqNum, List.countP_eq_length]
  simp

theorem arrivedBy_lt_K_iff {setup : FlowSetup} (hsetup : setup ∈ scenario.setups) {n seqNum : Nat} :
    scenario.arrivedBy setup n seqNum < setup.K ↔
      ∃ path ∈ scenario.pathsOf setup seqNum, n - seqNum < path.length := by
  have hle : scenario.arrivedBy setup n seqNum ≤ setup.K := by
    rw [← length_pathsOf hsetup seqNum]
    exact List.countP_le_length
  rw [lt_iff_le_and_ne, and_iff_right hle, ne_eq, arrivedBy_eq_K_iff hsetup]
  simp only [not_forall, not_le, exists_prop]

theorem Phase.counters (havoid : scenario.AvoidsSentinel) {n : Nat} {sim : PathHoppingSimulation}
    (h : scenario.Phase n n n sim) {setup : FlowSetup} (hsetup : setup ∈ scenario.setups) :
    ∃ flow, sim.flows.get? setup.flowId = some flow ∧ scenario.CountersAfter setup n flow := by
  obtain ⟨flow, hget, hflow⟩ := h.ledger.entry setup hsetup
  refine ⟨flow, hget, hflow.messagesTx, hflow.seqNum, ?_, fun s => ?_, fun s count hcount => ?_⟩
  · rw [hflow.messagesRx]
    congr 1
    apply Finset.filter_congr
    intro s hs
    rw [h.arrivals_eq havoid hsetup (Finset.mem_range.mp hs), arrivedBy_eq_K_iff hsetup]
  · rw [hflow.pending]
    by_cases hs : s < n
    · simp only [h.arrivals_eq havoid hsetup hs, arrivedBy_lt_K_iff hsetup]
    · rw [if_neg (fun hboth => hs hboth.1), if_neg (fun hboth => hs hboth.1)]
  · rw [hflow.pending] at hcount
    split at hcount
    · rename_i hboth
      cases hcount
      exact hboth.2
    · cases hcount

theorem Phase.stateAfter (havoid : scenario.AvoidsSentinel) {n : Nat} {sim : PathHoppingSimulation}
    (h : scenario.Phase n n n sim) : scenario.StateAfter n sim where
  resident := by
    intro seqNum hlt share path hsent hlen
    have hwalked := hsent.walked_eq havoid
    refine ⟨fun nodeId => ?_, ?_⟩
    · rw [h.nodes.residentAt_iff, and_iff_right_of_imp At.mem_graphNodes, at_iff hsent hlt, hwalked]
    · rw [Multiset.count_eq_zero, h.mem_deliveries, arrived_iff hsent hlt, hwalked]
      omega
  delivered := by
    intro seqNum hlt share path hsent hlen
    have hwalked := hsent.walked_eq havoid
    refine ⟨fun nodeId => ?_, ?_⟩
    · rw [h.nodes.residentAt_iff, at_iff hsent hlt, hwalked, List.getElem?_eq_none hlen]
      simp
    · refine Multiset.count_eq_one_of_mem h.nodup ?_
      rw [h.mem_deliveries, arrived_iff hsent hlt, hwalked]
      exact hlen
  onlySent := by
    intro share hshare
    rcases hshare with hdelivered | ⟨nodeId, hresident⟩
    · obtain ⟨seqNum, hlt, path, hsent, -⟩ := (h.mem_deliveries share).mp hdelivered
      exact ⟨seqNum, hlt, path, hsent⟩
    · obtain ⟨seqNum, hlt, path, hsent, -⟩ := (h.nodes.residentAt_iff.mp hresident).2
      exact ⟨seqNum, hlt, path, hsent⟩
  counters := fun _ hsetup => h.counters havoid hsetup

/-! ### Runs -/

theorem run_succ (attackers : List Attacker) (order : Nat → StepOrder) (select : Nat → Select) (n : Nat) :
    scenario.run attackers order select (n + 1) =
      (scenario.run attackers order select n).bind fun sim =>
        sim.step (order n) (fun flowId => scenario.hops flowId (n + 1)) select := rfl

theorem Phase.of_run {attackers : List Attacker} {order : Nat → StepOrder} {select : Nat → Select} {n : Nat}
    {sim : PathHoppingSimulation} (h : scenario.run attackers order select n = some sim) :
    scenario.Phase n n n sim := by
  induction n generalizing sim with
  | zero =>
      cases h
      exact start_phase attackers
  | succ n ih =>
      rw [run_succ, Option.bind_eq_some_iff] at h
      obtain ⟨before, hbefore, hstep⟩ := h
      obtain ⟨moved, attacked, hadvance, -, rfl⟩ := PathHoppingSimulation.step_eq_some hstep
      obtain ⟨moved', hadvance', hphase⟩ := (ih hbefore).advance (order n)
      cases hadvance.symm.trans hadvance'
      exact ⟨hphase.nodes, hphase.ledger, hphase.nodup, hphase.mem_deliveries⟩

/-- No step adds or drops an attacker. -/
theorem length_attackers_of_run {attackers : List Attacker} {order : Nat → StepOrder} {select : Nat → Select}
    {n : Nat} {sim : PathHoppingSimulation} (h : scenario.run attackers order select n = some sim) :
    sim.attackers.length = attackers.length := by
  induction n generalizing sim with
  | zero =>
      cases h
      rfl
  | succ n ih =>
      rw [run_succ, Option.bind_eq_some_iff] at h
      obtain ⟨before, hbefore, hstep⟩ := h
      obtain ⟨moved, -, -, -, -, hlength, -⟩ := PathHoppingSimulation.step_attackers hstep
      rw [hlength, ih hbefore]

/-- A run ends early only in the turn of an attacker. -/
theorem exists_attackerRaises {attackers : List Attacker} {order : Nat → StepOrder} {select : Nat → Select} {n : Nat}
    (h : scenario.run attackers order select n = none) :
    ∃ t < n, scenario.AttackerRaises attackers order select t := by
  induction n with
  | zero => cases h
  | succ n ih =>
      cases hbefore : scenario.run attackers order select n with
      | none =>
          obtain ⟨t, hlt, hraises⟩ := ih hbefore
          exact ⟨t, by omega, hraises⟩
      | some sim =>
          obtain ⟨moved, hadvance, -⟩ := (Phase.of_run hbefore).advance (order n)
          refine ⟨n, by omega, sim, moved, hbefore, hadvance, ?_⟩
          rw [run_succ, hbefore, Option.bind_some, PathHoppingSimulation.step, hadvance] at h
          cases hattack : moved.attack (order n) select with
          | none => rfl
          | some attacked =>
              simp [hattack] at h

/-- After any number of steps every share is at its place, every flow has counted what has arrived, and
nothing in the network part of a step has raised. -/
theorem run_state_after (scenario : Scenario) (havoid : scenario.AvoidsSentinel)
    (attackers : List Attacker) (order : Nat → StepOrder) (select : Nat → Select) (n : Nat) :
    (∀ sim, scenario.run attackers order select n = some sim → scenario.StateAfter n sim) ∧
      (scenario.run attackers order select n = none →
        ∃ t < n, scenario.AttackerRaises attackers order select t) ∧
      (scenario.run [] order select n).isSome := by
  refine ⟨fun sim hrun => (Phase.of_run hrun).stateAfter havoid, exists_attackerRaises, ?_⟩
  cases hrun : scenario.run [] order select n with
  | some sim => rfl
  | none =>
      obtain ⟨t, -, sim, moved, hsim, hadvance, hattack⟩ := exists_attackerRaises hrun
      have hattackers := (PathHoppingSimulation.advance_frame hadvance).1
      have hnone : sim.attackers = [] := List.length_eq_zero_iff.mp (length_attackers_of_run hsim)
      rw [PathHoppingSimulation.attack, hattackers, hnone] at hattack
      cases hattack

/-- One flow on one path from node 0 to node 1. -/
def onePath (path : Path) (hnodup : path.Nodup) (hhead : path.head? = some 0)
    (hlast : path.getLast? = some 1) : Scenario where
  graphNodes := path
  graphNodes_nodup := hnodup
  setups := [⟨0, 0, 1, [path], 1⟩]
  flowIds_nodup := List.nodup_singleton _
  wellFormed := by
    intro setup hsetup
    cases List.mem_singleton.mp hsetup
    exact ⟨by simpa, by simpa, by simpa, by simp, Nat.le_refl 1, Nat.le_refl 1⟩
  hops := fun _ _ => [0]
  hops_valid := by
    intro setup hsetup t
    cases List.mem_singleton.mp hsetup
    exact ⟨rfl, List.nodup_singleton 0, by simp⟩

def throughNodeTwo : Scenario := onePath [0, 2, 1] (by decide) rfl rfl

theorem run_state_after_throughNodeTwo :
    throughNodeTwo.AvoidsSentinel ∧
      ∀ sim, throughNodeTwo.run [] (fun _ => .byIdentifier) (fun _ _ _ _ attacker => some attacker) 3 = some sim →
        throughNodeTwo.StateAfter 3 sim := by
  have havoid : throughNodeTwo.AvoidsSentinel := by
    intro setup hsetup
    cases List.mem_singleton.mp hsetup
    decide
  exact ⟨havoid, (run_state_after throughNodeTwo havoid [] _ _ 3).1⟩

def throughSentinel : Scenario := onePath [0, -1, 1] (by decide) rfl rfl

/-- On the path `0, -1, 1` the share of the first message should be at node `-1` after one step; it has
been delivered instead. -/
theorem sentinel_node_ends_path :
    ∃ sim, throughSentinel.run [] (fun _ => .byIdentifier) (fun _ _ _ _ attacker => some attacker) 1 = some sim ∧
      sim.residentAt (-1) = ∅ ∧ sim.deliveries = {⟨0, 0, 0, 0, 0, 1⟩} ∧
      ¬throughSentinel.StateAfter 1 sim := by
  obtain ⟨sim, hsim, hresident, hdelivered⟩ : ∃ sim, throughSentinel.run [] (fun _ => .byIdentifier)
      (fun _ _ _ _ attacker => some attacker) 1 = some sim ∧
      sim.residentAt (-1) = ∅ ∧ sim.deliveries = {⟨0, 0, 0, 0, 0, 1⟩} := by
    refine ⟨_, rfl, ?_, ?_⟩ <;> decide
  refine ⟨sim, hsim, hresident, hdelivered, fun h => ?_⟩
  have hsent : throughSentinel.Sent 0 ⟨0, 0, 0, 0, 0, 1⟩ [0, -1, 1] :=
    ⟨⟨0, 0, 1, [[0, -1, 1]], 1⟩, List.mem_singleton.mpr rfl, by decide, rfl⟩
  have hcount := (h.resident 0 (by decide) _ _ hsent (by decide)).2
  rw [hdelivered] at hcount
  exact absurd hcount (by decide)

end Scenario

end OfTestbed.Simulator
