import OfTestbed.AttackersRuns

/-!
Which messages an attacker recovers. Since `reconstruct_captured_messages` groups by sequence number and
every flow numbers its messages from 0, shares of different flows count together; with one flow the
recovered messages are exactly those all of whose shares passed a monitored interior node in time.
-/

namespace OfTestbed.Simulator

open Lib

namespace Scenario

variable {scenario : Scenario}

/-! ### Recovered messages, in terms of the paths -/

section Recovered

variable {final : Attacker} {K : Nat} {p : Nat → Path → Prop}

theorem forall_mem_pathsOf_iff {setup : FlowSetup} (hsetup : setup ∈ scenario.setups) {seqNum : Nat}
    {q : Path → Prop} :
    (∀ path ∈ scenario.pathsOf setup seqNum, q path) ↔
      ∀ num < setup.K, ∃ path, (scenario.pathsOf setup seqNum)[num]? = some path ∧ q path := by
  constructor
  · intro hall num hnum
    have hget := List.getElem?_eq_getElem ((length_pathsOf hsetup seqNum).symm ▸ hnum)
    exact ⟨_, hget, hall _ (List.mem_of_getElem? hget)⟩
  · intro hall path hpath
    obtain ⟨num, hget⟩ := List.mem_iff_getElem?.mp hpath
    have hnum := (List.getElem?_eq_some_iff.mp hget).1
    rw [length_pathsOf hsetup] at hnum
    obtain ⟨path', hget', hq⟩ := hall num hnum
    rw [Option.some.inj (hget.symm.trans hget')]
    exact hq

/-- A captured share belongs to a flow, and travelled on the path with its number. -/
theorem Captures.mem_iff (h : scenario.Captures p final) (share : PathHoppingShare) :
    share ∈ final.capturedShares ↔ ∃ setup ∈ scenario.setups, share ∈ scenario.sharesOf setup share.seqNum ∧
      ∃ path, setup.paths[share.pathIdx]? = some path ∧ p share.seqNum path := by
  rw [h share]
  exact ⟨fun ⟨path, ⟨setup, hsetup, hshare, hpath⟩, hp⟩ => ⟨setup, hsetup, hshare, path, hpath, hp⟩,
    fun ⟨setup, hsetup, hshare, path, hpath, hp⟩ => ⟨path, ⟨setup, hsetup, hshare, hpath⟩, hp⟩⟩

/-- Share `num` of message `seqNum` of a flow is captured when its path has `p`. -/
theorem Captures.exists_share_iff (h : scenario.Captures p final) {setup : FlowSetup}
    (hsetup : setup ∈ scenario.setups) (seqNum num : Nat) :
    (∃ share ∈ final.capturedShares, share.seqNum = seqNum ∧ share.flowId = setup.flowId ∧ share.shareNum = num) ↔
      ∃ path, (scenario.pathsOf setup seqNum)[num]? = some path ∧ p seqNum path := by
  constructor
  · rintro ⟨share, hshare, rfl, hid, rfl⟩
    obtain ⟨setup', hsetup', hof, path, hpath, hp⟩ := (h.mem_iff share).mp hshare
    cases setup_unique hsetup' hsetup ((mem_sharesOf.mp hof).2.1.symm.trans hid)
    exact ⟨path, (getElem?_pathsOf_eq_some_iff hsetup).mpr ⟨share, hof, rfl, hpath⟩, hp⟩
  · rintro ⟨path, hget, hp⟩
    obtain ⟨share, hof, rfl, hpath⟩ := (getElem?_pathsOf_eq_some_iff hsetup).mp hget
    obtain ⟨-, hid, rfl, -⟩ := mem_sharesOf.mp hof
    exact ⟨share, (h.mem_iff share).mpr ⟨setup, hsetup, hof, path, hpath, hp⟩, rfl, hid, rfl⟩

theorem Captures.shareNum_lt (h : scenario.Captures p final) (hK : ∀ setup ∈ scenario.setups, setup.K = K)
    {share : PathHoppingShare} (hshare : share ∈ final.capturedShares) : share.shareNum < K := by
  obtain ⟨setup, hsetup, hof, -⟩ := (h.mem_iff share).mp hshare
  rw [← hK setup hsetup, ← (scenario.hops_valid setup hsetup share.seqNum).length]
  exact (List.getElem?_eq_some_iff.mp (mem_sharesOf.mp hof).1).1

/-- A message number is recovered when each of its `K` shares is captured, of whatever flow. -/
theorem Captures.mem_reconstruct_iff (h : scenario.Captures p final)
    (hK : ∀ setup ∈ scenario.setups, setup.K = K) (hpos : 1 ≤ K) (hfinal : final.K = K) (seqNum : Nat) :
    seqNum ∈ final.reconstructCapturedMessages ↔ ∀ num < K, ∃ setup ∈ scenario.setups,
      ∃ path, (scenario.pathsOf setup seqNum)[num]? = some path ∧ p seqNum path := by
  rw [Attacker.mem_reconstructCapturedMessages_iff (hfinal.symm ▸ hpos) fun share hshare =>
    hfinal.symm ▸ h.shareNum_lt hK hshare, hfinal]
  refine forall_congr' fun num => imp_congr_right fun _ => ?_
  constructor
  · rintro ⟨share, hshare, hseq, hnum⟩
    obtain ⟨setup, hsetup, hof, -⟩ := (h.mem_iff share).mp hshare
    exact ⟨setup, hsetup, (h.exists_share_iff hsetup seqNum num).mp
      ⟨share, hshare, hseq, (mem_sharesOf.mp hof).2.1, hnum⟩⟩
  · rintro ⟨setup, hsetup, hpath⟩
    obtain ⟨share, hshare, hseq, -, hnum⟩ := (h.exists_share_iff hsetup seqNum num).mpr hpath
    exact ⟨share, hshare, hseq, hnum⟩

/-- All shares of a message of one flow are captured when all its paths have `p`. -/
theorem Captures.card_capturedNums_iff (h : scenario.Captures p final)
    (hK : ∀ setup ∈ scenario.setups, setup.K = K) (hfinal : final.K = K) {setup : FlowSetup}
    (hsetup : setup ∈ scenario.setups) (seqNum : Nat) :
    (final.capturedNums seqNum setup.flowId).card = K ↔ ∀ path ∈ scenario.pathsOf setup seqNum, p seqNum path := by
  have hcard := @Attacker.card_capturedNums_eq_iff final seqNum setup.flowId
    fun share hshare => hfinal.symm ▸ h.shareNum_lt hK hshare
  rw [forall_mem_pathsOf_iff hsetup, hK setup hsetup, ← hfinal, hcard]
  exact forall_congr' fun num => imp_congr_right fun _ => h.exists_share_iff hsetup seqNum num

end Recovered

/-! ### Several flows -/

/-- When every share number of a message is overheard of some flow, all shares of the message are of one flow. -/
def OverheardOfOneFlow (scenario : Scenario) (monitored : Nat → Finset NodeId) (n : Nat) : Prop :=
  ∀ seqNum, ∀ setup ∈ scenario.setups,
    (∀ num < setup.K, ∃ other ∈ scenario.setups, ∃ path, (scenario.pathsOf other seqNum)[num]? = some path ∧
      Overheard monitored n seqNum path) →
    ∃ other ∈ scenario.setups, ∀ path ∈ scenario.pathsOf other seqNum, Overheard monitored n seqNum path

/-- Every returned message number has all `K` shares captured of one flow, exactly when no message number is
overheard completely only by mixing flows. -/
theorem recovered_of_one_flow_iff (scenario : Scenario) (attackers : List Attacker) (order : Nat → StepOrder)
    (select : Nat → Select) (hselect : Attacker.KeepsCaptures select) (idx : Nat) (attacker : Attacker)
    (hattacker : attackers[idx]? = some attacker) (hfresh : attacker.capturedShares = [])
    (hK : ∀ setup ∈ scenario.setups, setup.K = attacker.K) (n : Nat) (monitored : Nat → Finset NodeId)
    (hmonitored : ∀ t < n, scenario.monitoredIn attackers order select idx t = monitored t)
    (sim : PathHoppingSimulation) (final : Attacker)
    (hrun : scenario.run attackers order select n = some sim) (hfinal : sim.attackers[idx]? = some final) :
    (∀ seqNum ∈ final.reconstructCapturedMessages,
        ∃ flowId, (final.capturedNums seqNum flowId).card = attacker.K) ↔
      scenario.OverheardOfOneFlow monitored n := by
  obtain ⟨final', hfinal', hsame, hcaptured⟩ := captures_overheard hselect hattacker hfresh hrun
  cases hfinal'.symm.trans hfinal
  have hcaptures : scenario.Captures (Overheard monitored n) final := by
    intro share
    rw [hcaptured share]
    exact exists_congr fun path => and_congr_right fun _ => overheard_congr hmonitored share.seqNum path
  constructor
  · intro hall seqNum setup hsetup hcovered
    have hpos : 1 ≤ attacker.K := hK setup hsetup ▸ (scenario.wellFormed setup hsetup).K_pos
    rw [hK setup hsetup] at hcovered
    obtain ⟨flowId, hcard⟩ := hall seqNum ((hcaptures.mem_reconstruct_iff hK hpos hsame seqNum).mpr hcovered)
    -- one of the shares tells which flow it is
    obtain ⟨num, hnum⟩ := Finset.card_pos.mp (hcard.symm ▸ hpos : 0 < (final.capturedNums seqNum flowId).card)
    obtain ⟨share, hshare, -, rfl, -⟩ := Attacker.mem_capturedNums.mp hnum
    obtain ⟨other, hother, hof, -⟩ := (hcaptures.mem_iff share).mp hshare
    rw [(mem_sharesOf.mp hof).2.1] at hcard
    exact ⟨other, hother, (hcaptures.card_capturedNums_iff hK hsame hother seqNum).mp hcard⟩
  · intro hone seqNum hmem
    obtain ⟨⟨share, hshare, -⟩, -⟩ := Attacker.mem_reconstructCapturedMessages.mp hmem
    obtain ⟨setup, hsetup, -⟩ := (hcaptures.mem_iff share).mp hshare
    have hpos : 1 ≤ attacker.K := hK setup hsetup ▸ (scenario.wellFormed setup hsetup).K_pos
    have hcovered := (hcaptures.mem_reconstruct_iff hK hpos hsame seqNum).mp hmem
    rw [← hK setup hsetup] at hcovered
    obtain ⟨other, hother, hall⟩ := hone seqNum setup hsetup hcovered
    exact ⟨other.flowId, (hcaptures.card_capturedNums_iff hK hsame hother seqNum).mpr hall⟩

/-- Two flows with two disjoint paths each, both of which every hop draws. -/
def twoFlows : Scenario where
  graphNodes := [0, 1, 2, 3, 4, 5, 6, 7]
  graphNodes_nodup := by decide
  setups := [⟨0, 0, 2, [[0, 1, 2], [0, 3, 2]], 2⟩, ⟨1, 4, 6, [[4, 5, 6], [4, 7, 6]], 2⟩]
  flowIds_nodup := by decide
  wellFormed := by
    intro setup hsetup
    rcases List.mem_cons.mp hsetup with rfl | hsetup
    · exact ⟨by decide, by decide, by decide, by decide, by decide, by decide⟩
    · cases List.mem_singleton.mp hsetup
      exact ⟨by decide, by decide, by decide, by decide, by decide, by decide⟩
  hops := fun _ _ => [0, 1]
  hops_valid := by
    intro setup hsetup t
    rcases List.mem_cons.mp hsetup with rfl | hsetup
    · exact ⟨rfl, by decide, by decide⟩
    · cases List.mem_singleton.mp hsetup
      exact ⟨rfl, by decide, by decide⟩

/-- An attacker at the first path of flow 0 and the second path of flow 1. -/
def straddling : Attacker := { Attacker.new 2 2 1 .total with monitoredNodes := {1, 7} }

def stay : Nat → Select := fun _ _ _ _ attacker => some attacker

/-- One share of each flow is captured, and message 0 is returned although no flow's message 0 is known. -/
theorem mixed_shares_recovered :
    ∃ sim final, twoFlows.run [straddling] (fun _ => .byIdentifier) stay 1 = some sim ∧
      sim.attackers[0]? = some final ∧ final.reconstructCapturedMessages = [0] ∧
      ∀ flowId, (final.capturedNums 0 flowId).card ≠ 2 := by
  refine ⟨_, { straddling with capturedShares := [⟨0, 0, 0, 0, 0, 2⟩, ⟨1, 0, 1, 1, 4, 6⟩] },
    rfl, ?_, ?_, ?_⟩
  · decide
  · decide
  · intro flowId
    by_cases hzero : flowId = 0
    · subst hzero
      decide
    · by_cases hone : flowId = 1
      · subst hone
        decide
      · simp [Attacker.capturedNums, Ne.symm hzero, Ne.symm hone]

theorem recovered_of_one_flow_iff_straddling :
    ∃ sim final, twoFlows.run [straddling] (fun _ => .byIdentifier) stay 1 = some sim ∧
      sim.attackers[0]? = some final ∧
      ((∀ seqNum ∈ final.reconstructCapturedMessages, ∃ flowId, (final.capturedNums seqNum flowId).card = 2) ↔
        twoFlows.OverheardOfOneFlow (fun _ => {1, 7}) 1) := by
  obtain ⟨sim, final, hrun, hfinal⟩ : ∃ sim final,
      twoFlows.run [straddling] (fun _ => .byIdentifier) stay 1 = some sim ∧ sim.attackers[0]? = some final :=
    ⟨_, _, rfl, rfl⟩
  refine ⟨sim, final, hrun, hfinal, ?_⟩
  refine recovered_of_one_flow_iff twoFlows [straddling] (fun _ => .byIdentifier) stay ?_ 0 straddling rfl rfl ?_ 1
    (fun _ => {1, 7}) ?_ sim final hrun hfinal
  · intro idx nodes flows time attacker attacker' h
    cases h
    exact ⟨rfl, rfl⟩
  · decide
  · intro t ht
    obtain rfl : t = 0 := by omega
    rfl

/-! ### One flow -/

/-- Attacker `idx` monitors `schedule idx t` in step `t`: step `t` selects at simulation time `t + 1`. -/
def scheduled (schedule : Nat → Nat → Finset NodeId) : Nat → Select :=
  fun idx _ _ simulationTime attacker =>
    some { attacker with monitoredNodes := schedule idx simulationTime }

theorem keepsCaptures_scheduled (schedule : Nat → Nat → Finset NodeId) :
    Attacker.KeepsCaptures (scheduled schedule) := by
  intro idx nodes flows simulationTime attacker attacker' h
  cases h
  exact ⟨rfl, rfl⟩

/-- An attacker that follows the schedule at time `t`. -/
structure Follows (schedule : Nat → Nat → Finset NodeId) (idx t : Nat) (attacker : Attacker) : Prop where
  inherits : attacker.InheritsCapture
  monitored : attacker.monitoredNodes = schedule idx t

theorem Follows.attackerTurn {schedule : Nat → Nat → Finset NodeId} {idx t : Nat} {attacker : Attacker}
    (h : Follows schedule idx t attacker) (sim : PathHoppingSimulation) (hticks : sim.ticks = t + 1)
    (hnodes : ∀ nodeId ∈ schedule idx t, (sim.nodes.get? nodeId).isSome) (order : StepOrder) :
    ∃ attacker', sim.attackerTurn order (scheduled schedule) attacker idx = some attacker' ∧
      Follows schedule idx (t + 1) attacker' := by
  obtain ⟨monitored, hmonitor, hcls⟩ := Attacker.exists_monitor h.inherits (order.monitoring idx) sim.nodes
    sim.flows (h.monitored ▸ hnodes)
  refine ⟨{ monitored with monitoredNodes := schedule idx (t + 1) }, ?_, fun p q r => ?_, rfl⟩
  · rw [PathHoppingSimulation.attackerTurn, hmonitor]
    change some { monitored with monitoredNodes := schedule idx sim.ticks } = _
    rw [hticks]
  · exact hcls ▸ h.inherits p q r

/-- A run in which every attacker follows a schedule of nodes of the graph never raises. -/
theorem exists_run_scheduled {schedule : Nat → Nat → Finset NodeId}
    (hschedule : ∀ idx t, ∀ nodeId ∈ schedule idx t, nodeId ∈ scenario.graphNodes)
    {attackers : List Attacker}
    (hattackers : ∀ idx attacker, attackers[idx]? = some attacker → Follows schedule idx 0 attacker)
    (order : Nat → StepOrder) (n : Nat) :
    ∃ sim, scenario.run attackers order (scheduled schedule) n = some sim ∧
      ∀ idx attacker, sim.attackers[idx]? = some attacker → Follows schedule idx n attacker := by
  refine exists_run_of_turns hattackers ?_ n
  rintro idx t moved attacker ⟨sim, hrun, hadvance, -⟩ hfollows
  obtain ⟨moved', hadvance', hphase⟩ := (Phase.of_run hrun).advance (order t)
  cases hadvance'.symm.trans hadvance
  refine hfollows.attackerTurn moved (ticks_of_advance hrun hadvance) (fun v hv => ?_) (order t)
  obtain ⟨node, hnode, -⟩ := hphase.nodes.entry v (hschedule idx t v hv)
  rw [hnode]
  rfl

/-- The path passes a monitored interior node within `n` steps of the run. -/
def Exposed (monitored : Nat → Finset NodeId) (n seqNum : Nat) (path : Path) : Prop :=
  ∃ k, 1 ≤ k ∧ k ≤ path.length - 2 ∧ seqNum + k - 1 ≤ n - 1 ∧
    ∃ nodeId ∈ monitored (seqNum + k - 1), path[k]? = some nodeId

/-- On a path that is walked to its end, the share is overheard when the path is exposed. -/
theorem overheard_iff_exposed {monitored : Nat → Finset NodeId} {n seqNum : Nat} {path : Path}
    (hwalked : walked path = path) :
    Overheard monitored n seqNum path ↔ seqNum < n ∧ Exposed monitored n seqNum path := by
  constructor
  · rintro h
    have hlt := h.seqNum_lt
    obtain ⟨k, hone, htwo, htime, nodeId, hmem, hget⟩ := h
    exact ⟨hlt, k, hone, htwo, by omega, nodeId, hmem, hwalked ▸ hget⟩
  · rintro ⟨hlt, k, hone, htwo, htime, nodeId, hmem, hget⟩
    exact ⟨k, hone, htwo, by omega, nodeId, hmem, hwalked.symm ▸ hget⟩

/-- The messages that an attacker recovers are those all of whose paths passed a node that it monitored. -/
theorem mem_reconstruct_of_run (havoid : scenario.AvoidsSentinel) {setup : FlowSetup}
    (hsingle : scenario.setups = [setup]) {attackers : List Attacker} {order : Nat → StepOrder}
    {select : Nat → Select} (hselect : Attacker.KeepsCaptures select) {idx : Nat} {attacker : Attacker}
    (hattacker : attackers[idx]? = some attacker) (hfresh : attacker.capturedShares = [])
    (hK : attacker.K = setup.K) {n : Nat} {sim : PathHoppingSimulation}
    (hrun : scenario.run attackers order select n = some sim) {monitored : Nat → Finset NodeId}
    (hmonitored : ∀ t < n, scenario.monitoredIn attackers order select idx t = monitored t) :
    ∃ final, sim.attackers[idx]? = some final ∧ ∀ seqNum, seqNum ∈ final.reconstructCapturedMessages ↔
      seqNum < n ∧ ∀ path ∈ scenario.pathsOf setup seqNum, Exposed monitored n seqNum path := by
  obtain ⟨final, hfinal, hK', hcaptured⟩ := captures_overheard hselect hattacker hfresh hrun
  have hcaptures : scenario.Captures (fun s path => s < n ∧ Exposed monitored n s path) final := by
    intro share
    rw [hcaptured share]
    refine exists_congr fun path => and_congr_right fun hsent => ?_
    rw [overheard_congr hmonitored, overheard_iff_exposed (hsent.walked_eq havoid)]
  have hsetup : setup ∈ scenario.setups := hsingle ▸ List.mem_singleton.mpr rfl
  have hsame : ∀ other ∈ scenario.setups, other.K = setup.K := by
    intro other hother
    rw [hsingle, List.mem_singleton] at hother
    rw [hother]
  have hpos := (scenario.wellFormed setup hsetup).K_pos
  refine ⟨final, hfinal, fun seqNum => ?_⟩
  rw [hcaptures.mem_reconstruct_iff hsame hpos (hK'.trans hK)]
  simp only [hsingle, List.mem_singleton, exists_eq_left]
  rw [← forall_mem_pathsOf_iff hsetup]
  -- there is a path, so the message was sent in time
  obtain ⟨path, hpath⟩ := List.exists_mem_of_length_pos ((length_pathsOf hsetup seqNum).symm ▸ hpos)
  exact ⟨fun hall => ⟨(hall path hpath).1, fun path hpath => (hall path hpath).2⟩,
    fun hall path hpath => ⟨hall.1, hall.2 path hpath⟩⟩

/-- With one flow and attackers that monitor arbitrary nodes of the graph, each attacker recovers exactly the
messages all of whose paths are exposed, in increasing order. -/
theorem reconstruct_exposed_messages (scenario : Scenario) (havoid : scenario.AvoidsSentinel)
    (setup : FlowSetup) (hsingle : scenario.setups = [setup]) (schedule : Nat → Nat → Finset NodeId)
    (hschedule : ∀ idx t, ∀ nodeId ∈ schedule idx t, nodeId ∈ scenario.graphNodes)
    (attackers : List Attacker)
    (hattackers : ∀ idx attacker, attackers[idx]? = some attacker → Follows schedule idx 0 attacker ∧
      attacker.capturedShares = [] ∧ attacker.K = setup.K)
    (order : Nat → StepOrder) (n : Nat) :
    ∃ sim, scenario.run attackers order (scheduled schedule) n = some sim ∧
      ∀ idx < attackers.length, ∃ final, sim.attackers[idx]? = some final ∧
        final.reconstructCapturedMessages.Pairwise (· < ·) ∧
        ∀ seqNum, seqNum ∈ final.reconstructCapturedMessages ↔
          seqNum < n ∧ ∀ path ∈ scenario.pathsOf setup seqNum, Exposed (schedule idx) n seqNum path := by
  have hruns := exists_run_scheduled hschedule (fun idx attacker h => (hattackers idx attacker h).1) order
  obtain ⟨sim, hrun, -⟩ := hruns n
  refine ⟨sim, hrun, fun idx hidx => ?_⟩
  have hattacker := List.getElem?_eq_getElem hidx
  obtain ⟨-, hfresh, hK⟩ := hattackers idx _ hattacker
  have hmonitored : ∀ t < n, scenario.monitoredIn attackers order (scheduled schedule) idx t = schedule idx t := by
    intro t _
    obtain ⟨before, hbefore, hfollows⟩ := hruns t
    have hget := List.getElem?_eq_getElem ((length_attackers_of_run hbefore).symm ▸ hidx)
    rw [monitoredIn_eq hbefore hget, (hfollows idx _ hget).monitored]
  obtain ⟨final, hfinal, hmem⟩ := mem_reconstruct_of_run havoid hsingle (keepsCaptures_scheduled schedule)
    hattacker hfresh hK hrun hmonitored
  exact ⟨final, hfinal, final.pairwise_reconstructCapturedMessages, hmem⟩

/-- An attacker that stays at node 2. -/
def watcher : Attacker := { Attacker.new 1 1 1 .total with monitoredNodes := {2} }

theorem watcher_follows (idx : Nat) (attacker : Attacker) (h : [watcher][idx]? = some attacker) :
    Follows (fun _ _ => {2}) idx 0 attacker ∧ attacker.capturedShares = [] ∧ attacker.K = 1 := by
  cases List.mem_singleton.mp (List.mem_of_getElem? h)
  exact ⟨⟨fun _ _ _ => AttackerClass.noConfusion, rfl⟩, rfl, rfl⟩

theorem reconstruct_exposed_messages_throughNodeTwo :
    throughNodeTwo.AvoidsSentinel ∧
      ∃ sim, throughNodeTwo.run [watcher] (fun _ => .byIdentifier) (scheduled fun _ _ => {2}) 2 = some sim ∧
        ∀ idx < 1, ∃ final, sim.attackers[idx]? = some final ∧
          final.reconstructCapturedMessages.Pairwise (· < ·) ∧
          ∀ seqNum, seqNum ∈ final.reconstructCapturedMessages ↔
            seqNum < 2 ∧ ∀ path ∈ throughNodeTwo.pathsOf ⟨0, 0, 1, [[0, 2, 1]], 1⟩ seqNum,
              Exposed (fun _ => {2}) 2 seqNum path := by
  have havoid : throughNodeTwo.AvoidsSentinel := by
    intro setup hsetup
    cases List.mem_singleton.mp hsetup
    decide
  refine ⟨havoid, reconstruct_exposed_messages throughNodeTwo havoid ⟨0, 0, 1, [[0, 2, 1]], 1⟩ rfl
    (fun _ _ => {2}) ?_ [watcher] watcher_follows (fun _ => .byIdentifier) 2⟩
  intro _ _ nodeId hmem
  cases Finset.mem_singleton.mp hmem
  decide

def throughSentinelAndTwo : Scenario := onePath [0, -1, 2, 1] (by decide) rfl rfl

/-- On the path `0, -1, 2, 1` message 0 should pass node 2 in step 1; it never gets there. -/
theorem sentinel_node_hides_message :
    (∀ path ∈ throughSentinelAndTwo.pathsOf ⟨0, 0, 1, [[0, -1, 2, 1]], 1⟩ 0,
      Exposed (fun _ => {2}) 2 0 path) ∧
      ∃ sim final, throughSentinelAndTwo.run [watcher] (fun _ => .byIdentifier) (scheduled fun _ _ => {2}) 2 =
        some sim ∧
        sim.attackers[0]? = some final ∧ final.reconstructCapturedMessages = [] := by
  refine ⟨?_, _, watcher, rfl, ?_, ?_⟩
  · intro path hpath
    cases List.mem_singleton.mp (show path ∈ [[0, -1, 2, 1]] from hpath)
    exact ⟨2, by decide, by decide, by decide, 2, by decide, rfl⟩
  · decide
  · decide

end Scenario

end OfTestbed.Simulator
