import OfTestbed.AttackersCapture
import OfTestbed.SimulatorReachable

/-!
Runs with attackers of any classes. A run goes on as long as every attacker can take its turn, so an invariant of each
attacker that makes its turn succeed and survives it holds after every step. What an attacker captures is decided by
the nodes that it monitored in each step, however it chose them.
-/

namespace OfTestbed.Simulator

open Lib

namespace Scenario

/-- Step `n` of a run comes to the turn of the attacker at position `idx`, on the moved network. -/
def Reaches (scenario : Scenario) (attackers : List Attacker) (order : Nat → StepOrder) (select : Nat → Select)
    (idx n : Nat) (moved : PathHoppingSimulation) (attacker : Attacker) : Prop :=
  ∃ sim, scenario.run attackers order select n = some sim ∧
    sim.advance (order n) (fun flowId => scenario.hops flowId (n + 1)) = some moved ∧
    sim.attackers[idx]? = some attacker

variable {scenario : Scenario} {attackers : List Attacker} {order : Nat → StepOrder} {select : Nat → Select}

theorem ticks_of_advance {n : Nat} {sim moved : PathHoppingSimulation}
    (hrun : scenario.run attackers order select n = some sim)
    (hadvance : sim.advance (order n) (fun flowId => scenario.hops flowId (n + 1)) = some moved) :
    moved.ticks = n + 1 := by
  rw [(PathHoppingSimulation.advance_frame hadvance).2, PathHoppingSimulation.ticks_of_run hrun, Nat.add_comm]
  rfl

/-- Attackers that can always take their turn, by an invariant of each of them. -/
theorem exists_run_of_turns {Inv : Nat → Nat → Attacker → Prop}
    (hstart : ∀ idx attacker, attackers[idx]? = some attacker → Inv idx 0 attacker)
    (hturn : ∀ idx t moved attacker, scenario.Reaches attackers order select idx t moved attacker →
      Inv idx t attacker → ∃ after, moved.attackerTurn (order t) select attacker idx = some after ∧
        Inv idx (t + 1) after) (n : Nat) :
    ∃ sim, scenario.run attackers order select n = some sim ∧
      ∀ idx attacker, sim.attackers[idx]? = some attacker → Inv idx n attacker := by
  induction n with
  | zero => exact ⟨_, rfl, hstart⟩
  | succ n ih =>
      obtain ⟨sim, hrun, hinv⟩ := ih
      obtain ⟨moved, hadvance, -⟩ := (Phase.of_run hrun).advance (order n)
      have hsame := (PathHoppingSimulation.advance_frame hadvance).1
      have hturns : ∀ idx attacker, sim.attackers[idx]? = some attacker →
          ∃ after, moved.attackerTurn (order n) select attacker idx = some after ∧ Inv idx (n + 1) after :=
        fun idx attacker hget => hturn idx n moved attacker ⟨sim, hrun, hadvance, hget⟩ (hinv idx attacker hget)
      cases hnext : scenario.run attackers order select (n + 1) with
      | none =>
          rw [run_succ, hrun, Option.bind_some, PathHoppingSimulation.step, hadvance] at hnext
          have hall : ∀ turn ∈ moved.attackers.zipIdx,
              ∃ after, moved.attackerTurn (order n) select turn.1 turn.2 = some after := by
            intro turn hmem
            rw [hsame] at hmem
            obtain ⟨after, hafter, -⟩ := hturns turn.2 turn.1 (List.mem_zipIdx_iff_getElem?.mp hmem)
            exact ⟨after, hafter⟩
          obtain ⟨afters, hafters⟩ := exists_mapM hall
          have hattack : moved.attack (order n) select = some { moved with attackers := afters } :=
            Option.bind_eq_some_iff.mpr ⟨afters, hafters, rfl⟩
          simp [hattack] at hnext
      | some sim' =>
          refine ⟨sim', rfl, fun idx after hafter => ?_⟩
          rw [run_succ, hrun, Option.bind_some] at hnext
          obtain ⟨moved', hadvance', -, -, -, -, hget⟩ := PathHoppingSimulation.step_attackers hnext
          obtain rfl : moved' = moved := Option.some_inj.mp (hadvance'.symm.trans hadvance)
          rw [hget] at hafter
          obtain ⟨attacker, hattacker, hsome⟩ := Option.bind_eq_some_iff.mp hafter
          obtain ⟨after', hafter', hinv'⟩ := hturns idx attacker hattacker
          obtain rfl : after' = after := Option.some_inj.mp (hafter'.symm.trans hsome)
          exact hinv'

/-- The nodes that the attacker at position `idx` monitors in step `t`. -/
def monitoredIn (scenario : Scenario) (attackers : List Attacker) (order : Nat → StepOrder) (select : Nat → Select)
    (idx t : Nat) : Finset NodeId :=
  ((scenario.run attackers order select t).bind fun sim => sim.attackers[idx]?).elim ∅ Attacker.monitoredNodes

theorem monitoredIn_eq {t : Nat} {sim : PathHoppingSimulation} (hrun : scenario.run attackers order select t = some sim)
    {idx : Nat} {attacker : Attacker} (hget : sim.attackers[idx]? = some attacker) :
    scenario.monitoredIn attackers order select idx t = attacker.monitoredNodes := by
  rw [monitoredIn, hrun, Option.bind_some, hget]
  rfl

/-- What an attacker sees in a step is what is at the nodes that it monitors. -/
theorem seenInStep_iff {n : Nat} (hrun : (scenario.run attackers order select n).isSome) {idx : Nat}
    (hidx : idx < attackers.length) {t : Nat} (ht : t < n) (share : PathHoppingShare) :
    PathHoppingSimulation.SeenInStep (scenario.start attackers) order (fun t flowId => scenario.hops flowId (t + 1))
        select idx t share ↔
      ∃ nodeId ∈ scenario.monitoredIn attackers order select idx t, scenario.At (t + 1) (t + 1) nodeId share ∧
        share.sourceNode ≠ nodeId ∧ share.sinkNode ≠ nodeId := by
  obtain ⟨sim, hsim⟩ := Option.isSome_iff_exists.mp (PathHoppingSimulation.run_isSome_of_le ht.le hrun)
  have hlt : idx < sim.attackers.length := by
    rw [length_attackers_of_run hsim]
    exact hidx
  have hget := List.getElem?_eq_getElem hlt
  rw [monitoredIn_eq hsim hget]
  obtain ⟨moved, hadvance, hphase⟩ := (Phase.of_run hsim).advance (order t)
  have hsame := (PathHoppingSimulation.advance_frame hadvance).1
  constructor
  · rintro ⟨sim₀, moved₀, attacker, hsim₀, hadvance₀, hattacker, nodeId, hmem, node, hnode, hresident, hends⟩
    cases hsim₀.symm.trans hsim
    cases hadvance₀.symm.trans hadvance
    rw [hsame, hget] at hattacker
    cases hattacker
    obtain ⟨node', hnode', hname, hshares⟩ := hphase.nodes.entry nodeId (hphase.nodes.known nodeId node hnode)
    cases hnode'.symm.trans hnode
    exact ⟨nodeId, hmem, (hshares share).mp hresident, hname ▸ hends⟩
  · rintro ⟨nodeId, hmem, hat, hends⟩
    obtain ⟨node, hnode, hname, hshares⟩ := hphase.nodes.entry nodeId hat.mem_graphNodes
    refine ⟨sim, moved, _, hsim, hadvance, by rw [hsame, hget], nodeId, hmem, node, hnode, ?_⟩
    exact ⟨(hshares share).mpr hat, hname.symm ▸ hends⟩

/-! ### The paths on which a share is captured -/

/-- Within `n` steps the share of message `seqNum` on the path gets to an interior node that is monitored when it is
there. -/
def Overheard (monitored : Nat → Finset NodeId) (n seqNum : Nat) (path : Path) : Prop :=
  ∃ k, 1 ≤ k ∧ k ≤ path.length - 2 ∧ seqNum + k ≤ n ∧
    ∃ nodeId ∈ monitored (seqNum + k - 1), (walked path)[k]? = some nodeId

theorem Overheard.seqNum_lt {monitored : Nat → Finset NodeId} {n seqNum : Nat} {path : Path}
    (h : Overheard monitored n seqNum path) : seqNum < n := by
  obtain ⟨k, hone, -, htime, -⟩ := h
  omega

theorem overheard_congr {monitored monitored' : Nat → Finset NodeId} {n : Nat}
    (h : ∀ t < n, monitored t = monitored' t) (seqNum : Nat) (path : Path) :
    Overheard monitored n seqNum path ↔ Overheard monitored' n seqNum path := by
  refine exists_congr fun k => and_congr_right fun hone => and_congr_right fun _ => and_congr_right fun htime => ?_
  rw [h (seqNum + k - 1) (by omega)]

/-- The node at index `k` of a simple path is an end point when `k` is the first or the last index. -/
theorem interior_iff {path : Path} (hnodup : path.Nodup) {sourceNode sinkNode nodeId : NodeId}
    (hhead : path.head? = some sourceNode) (hlast : path.getLast? = some sinkNode) {k : Nat}
    (hk : path[k]? = some nodeId) :
    (sourceNode ≠ nodeId ∧ sinkNode ≠ nodeId) ↔ 1 ≤ k ∧ k ≤ path.length - 2 := by
  obtain ⟨hlt, hnode⟩ := List.getElem?_eq_some_iff.mp hk
  rw [List.head?_eq_getElem?] at hhead
  rw [List.getLast?_eq_getElem?] at hlast
  obtain ⟨hlt0, hsource⟩ := List.getElem?_eq_some_iff.mp hhead
  obtain ⟨hltl, hsink⟩ := List.getElem?_eq_some_iff.mp hlast
  rw [← hnode, ← hsource, ← hsink, ne_eq, ne_eq, hnodup.getElem_inj_iff, hnodup.getElem_inj_iff]
  omega

/-- A share is seen within `n` steps when it is overheard on its path. -/
theorem Sent.seen_iff {monitored : Nat → Finset NodeId} {n seqNum : Nat} {share : PathHoppingShare}
    {path : Path} (h : scenario.Sent seqNum share path) :
    (∃ t < n, ∃ nodeId ∈ monitored t, scenario.At (t + 1) (t + 1) nodeId share ∧
        share.sourceNode ≠ nodeId ∧ share.sinkNode ≠ nodeId) ↔ Overheard monitored n seqNum path := by
  obtain ⟨setup, hsetup, hpath, hshare⟩ := h.mem_paths
  have hwf := scenario.wellFormed setup hsetup
  obtain ⟨-, -, -, hsource, hsink⟩ := mem_sharesOf.mp hshare
  have hinterior : ∀ {k nodeId}, (walked path)[k]? = some nodeId →
      ((share.sourceNode ≠ nodeId ∧ share.sinkNode ≠ nodeId) ↔ 1 ≤ k ∧ k ≤ path.length - 2) := by
    intro k nodeId hk
    rw [hsource, hsink]
    exact interior_iff (hwf.nodup path hpath) (hwf.head path hpath) (hwf.last path hpath) (getElem?_of_walked hk)
  constructor
  · intro ⟨t, ht, nodeId, hmem, ⟨s, hs, path', hsent, hget⟩, hends⟩
    obtain ⟨rfl, rfl⟩ := hsent.unique h
    obtain ⟨hone, htwo⟩ := (hinterior hget).mp hends
    have htime : s + (t + 1 - s) - 1 = t := by omega
    exact ⟨t + 1 - s, hone, htwo, by omega, nodeId, htime.symm ▸ hmem, hget⟩
  · intro ⟨k, hone, htwo, htime, nodeId, hmem, hget⟩
    refine ⟨seqNum + k - 1, by omega, nodeId, hmem, ⟨seqNum, by omega, path, h, ?_⟩,
      (hinterior hget).mpr ⟨hone, htwo⟩⟩
    rw [show seqNum + k - 1 + 1 - seqNum = k by omega]
    exact hget

/-- The captured shares are those sent on a path with `p`. -/
def Captures (scenario : Scenario) (p : Nat → Path → Prop) (attacker : Attacker) : Prop :=
  ∀ share, share ∈ attacker.capturedShares ↔ ∃ path, scenario.Sent share.seqNum share path ∧ p share.seqNum path

/-- An attacker has captured what it could overhear at the nodes that it monitored. -/
theorem captures_overheard (hselect : Attacker.KeepsCaptures select) {idx : Nat} {attacker : Attacker}
    (hattacker : attackers[idx]? = some attacker) (hfresh : attacker.capturedShares = []) {n : Nat}
    {sim : PathHoppingSimulation} (hrun : scenario.run attackers order select n = some sim) :
    ∃ final, sim.attackers[idx]? = some final ∧ final.K = attacker.K ∧
      scenario.Captures (Overheard (scenario.monitoredIn attackers order select idx) n) final := by
  have hstart : (scenario.start attackers).attackers[idx]? = some attacker := hattacker
  obtain ⟨final, hfinal, hK, hcaptured⟩ :=
    PathHoppingSimulation.mem_capturedShares_of_run hselect hstart hfresh hrun
  have hidx : idx < attackers.length := (List.getElem?_eq_some_iff.mp hattacker).1
  refine ⟨final, hfinal, hK, fun share => ?_⟩
  have hseen : (∃ t < n, PathHoppingSimulation.SeenInStep (scenario.start attackers) order
        (fun t flowId => scenario.hops flowId (t + 1)) select idx t share) ↔
      ∃ t < n, ∃ nodeId ∈ scenario.monitoredIn attackers order select idx t,
        scenario.At (t + 1) (t + 1) nodeId share ∧ share.sourceNode ≠ nodeId ∧ share.sinkNode ≠ nodeId :=
    exists_congr fun t => and_congr_right fun ht => seenInStep_iff (Option.isSome_of_eq_some hrun) hidx ht share
  rw [hcaptured, hseen]
  constructor
  · intro hsome
    obtain ⟨s, path, hsent⟩ : ∃ s path, scenario.Sent s share path := by
      obtain ⟨t, -, nodeId, -, ⟨s, -, path, hsent, -⟩, -⟩ := hsome
      exact ⟨s, path, hsent⟩
    have hseq := hsent.seqNum_eq
    subst hseq
    exact ⟨path, hsent, hsent.seen_iff.mp hsome⟩
  · rintro ⟨path, hsent, hoverheard⟩
    exact hsent.seen_iff.mpr hoverheard

end Scenario

end OfTestbed.Simulator
