import Mathlib.Data.Nat.Bitwise
import Mathlib.Data.Nat.Size
import OfTestbed.AttackersCapture
import OfTestbed.SimulatorScenario

/-!
When attackers hop. Four classes select new nodes with a period. Three of them test
`simulation_time % hop_period == 0`, `OneNodePerPathAttacker` tests `simulation_time & hop_period == 0`.
Attackers select once when they are created, at time 1, and then at times 1 to `n` in the steps of a run, so
the tests agree over a run when they agree at all times up to `max n 1`.
-/

namespace OfTestbed.Simulator

open Lib

/-- The classes with a hop period. -/
inductive HopClass where
  | randomNode
  | randomPath
  | idealRandomPath
  | oneNodePerPath
  deriving DecidableEq

/-- The class fields as its constructor sets them. -/
def HopClass.fresh : HopClass → AttackerClass
  | .randomNode => .randomNodeHopping none
  | .randomPath => .randomPathHopping none
  | .idealRandomPath => .idealRandomPathHopping none
  | .oneNodePerPath => .oneNodePerPath none

def AttackerClass.hopClass? : AttackerClass → Option HopClass
  | .randomNodeHopping _ => some .randomNode
  | .randomPathHopping _ => some .randomPath
  | .idealRandomPathHopping _ => some .idealRandomPath
  | .oneNodePerPath _ => some .oneNodePerPath
  | _ => none

/-- The test a class makes before it hops. -/
def HopClass.HopsAt (hopClass : HopClass) (hopPeriod simulationTime : Nat) : Prop :=
  match hopClass with
  | .oneNodePerPath => simulationTime &&& hopPeriod = 0
  | _ => hopPeriod ∣ simulationTime

instance (hopClass : HopClass) (hopPeriod simulationTime : Nat) :
    Decidable (hopClass.HopsAt hopPeriod simulationTime) := by
  cases hopClass <;> unfold HopClass.HopsAt <;> infer_instance

/-! ### The two tests -/

theorem dvd_succ_iff {m p : Nat} (hm : 0 < m) : m ∣ p + 1 ↔ p % m = m - 1 := by
  constructor
  · intro ⟨k, hk⟩
    cases k with
    | zero => omega
    | succ k =>
        rw [Nat.mul_succ] at hk
        rw [show p = m * k + (m - 1) by omega, Nat.mul_add_mod, Nat.mod_eq_of_lt (by omega)]
  · intro hmod
    have hdiv := Nat.div_add_mod p m
    exact ⟨p / m + 1, by rw [Nat.mul_succ]; omega⟩

/-- Every time from 1 to `T` shares a bit with `p` when the low bits of `p` are all set. -/
theorem and_ne_zero_iff_two_pow_dvd {T p : Nat} :
    (∀ t, 1 ≤ t → t ≤ T → t &&& p ≠ 0) ↔ 2 ^ T.size ∣ p + 1 := by
  have hbits : 2 ^ T.size ∣ p + 1 ↔ ∀ i < T.size, p.testBit i = true := by
    rw [dvd_succ_iff (Nat.two_pow_pos _)]
    constructor
    · intro heq i hi
      have htest := congrArg (Nat.testBit · i) heq
      simpa [hi] using htest
    · intro hall
      apply Nat.eq_of_testBit_eq
      intro i
      by_cases hi : i < T.size
      · simp [hi, hall i hi]
      · simp [hi]
  rw [hbits]
  constructor
  · intro hshare i hi
    by_contra hbit
    refine hshare (2 ^ i) (Nat.one_le_two_pow) (Nat.lt_size.mp hi) ?_
    rw [Nat.and_comm, Nat.and_two_pow, Bool.eq_false_of_not_eq_true hbit]
    simp
  · intro hall t hone hle hzero
    obtain ⟨i, hi⟩ := Nat.exists_testBit_of_ne_zero (show t ≠ 0 by omega)
    have hsize : i < T.size :=
      Nat.lt_size.mpr (Nat.le_trans (Nat.ge_two_pow_of_testBit hi) hle)
    have hand := congrArg (Nat.testBit · i) hzero
    simp [hi, hall i hsize] at hand

/-- The tests agree at all times from 1 to `T` when the period is not reached and its low bits are set. -/
theorem tests_agree_iff {T p : Nat} (hp : 1 ≤ p) :
    (∀ t, 1 ≤ t → t ≤ T → (t &&& p = 0 ↔ p ∣ t)) ↔ T < p ∧ 2 ^ T.size ∣ p + 1 := by
  have hnot : T < p → ∀ t, 1 ≤ t → t ≤ T → ¬p ∣ t := by
    intro hlt t hone hle hdvd
    have hpt := Nat.le_of_dvd hone hdvd
    omega
  rw [← and_ne_zero_iff_two_pow_dvd]
  constructor
  · intro hagree
    have hlt : T < p := by
      by_contra hge
      have hself := (hagree p hp (by omega)).mpr (Nat.dvd_refl p)
      rw [Nat.and_self] at hself
      omega
    refine ⟨hlt, fun t hone hle hzero => ?_⟩
    exact hnot hlt t hone hle ((hagree t hone hle).mp hzero)
  · intro ⟨hlt, hne⟩ t hone hle
    exact ⟨fun hzero => absurd hzero (hne t hone hle), fun hdvd => absurd hdvd (hnot hlt t hone hle)⟩

/-! ### One call of `select_monitored_nodes` -/

namespace Attacker

/-- The nodes that a class with a period draws from the collection it keeps. -/
def drawnNodes (draws : Draws) (attacker : Attacker) : Option (List NodeId) :=
  match attacker.cls with
  | .randomNodeHopping (some nodeCollection) => choiceWithoutReplacement nodeCollection attacker.K draws.sample
  | .randomPathHopping (some nodeCollection) => choiceWithoutReplacement nodeCollection attacker.K draws.sample
  | .idealRandomPathHopping (some pathCollection) =>
      (choiceWithoutReplacement pathCollection attacker.K draws.sample).map List.flatten
  | .oneNodePerPath (some pathCollection) =>
      (choiceWithoutReplacement pathCollection attacker.K draws.sample).bind fun kPaths =>
        chooseOnePerPath kPaths draws.picks
  | _ => none

/-- The attacker monitors the nodes of its draws. -/
def MonitorsDrawn (draws : Draws) (attacker : Attacker) : Prop :=
  ∃ nodes, attacker.drawnNodes draws = some nodes ∧ attacker.monitoredNodes = nodes.toFinset

/-- What one call does to the monitored nodes and the hop count of a class with a period. -/
structure Selected (hopClass : HopClass) (simulationTime : Nat) (draws : Draws) (before after : Attacker) : Prop where
  sameClass : after.cls.hopClass? = some hopClass
  hopPeriod : after.hopPeriod = before.hopPeriod
  hopCount : after.hopCount =
    before.hopCount + if hopClass.HopsAt before.hopPeriod simulationTime then 1 else 0
  selects : hopClass.HopsAt before.hopPeriod simulationTime → after.MonitorsDrawn draws
  stays : ¬hopClass.HopsAt before.hopPeriod simulationTime → after.monitoredNodes = before.monitoredNodes

theorem isHopTime_eq {attacker : Attacker} (hp : 1 ≤ attacker.hopPeriod) (simulationTime : Nat) :
    attacker.isHopTime simulationTime = some (decide (attacker.hopPeriod ∣ simulationTime)) := by
  have hne : attacker.hopPeriod ≠ 0 := by omega
  simp [isHopTime, hne, Nat.dvd_iff_mod_eq_zero]

/-- The classes whose test is a divisibility: hop and replace the nodes, or stay. -/
theorem Selected.of_period {hopClass : HopClass} {simulationTime : Nat} {draws : Draws}
    {before ready after : Attacker}
    (htest : hopClass.HopsAt before.hopPeriod simulationTime ↔ before.hopPeriod ∣ simulationTime)
    (hp : 1 ≤ before.hopPeriod) (hclass : ready.cls.hopClass? = some hopClass)
    (hready : ready = { before with cls := ready.cls }) {α : Type} {drawn : Option α} {nodes : α → List NodeId}
    (hdrawn : ready.drawnNodes draws = drawn.map nodes)
    (h : ((ready.isHopTime simulationTime).bind fun isHop =>
      if isHop = true then drawn.bind fun a => some (ready.hopTo (nodes a)) else some ready) = some after) :
    Selected hopClass simulationTime draws before after := by
  have hperiod : ready.hopPeriod = before.hopPeriod := by rw [hready]
  have hcount : ready.hopCount = before.hopCount := by rw [hready]
  have hmonitored : ready.monitoredNodes = before.monitoredNodes := by rw [hready]
  rw [isHopTime_eq (hperiod.symm ▸ hp), Option.bind_some, hperiod] at h
  by_cases hdvd : before.hopPeriod ∣ simulationTime
  · simp only [hdvd, decide_true, if_true] at h
    obtain ⟨a, ha, hafter⟩ := Option.bind_eq_some_iff.mp h
    cases hafter
    rw [ha, Option.map_some] at hdrawn
    refine ⟨hclass, hperiod, ?_, fun _ => ⟨nodes a, hdrawn, rfl⟩, fun hnot => absurd (htest.mpr hdvd) hnot⟩
    rw [if_pos (htest.mpr hdvd)]
    exact congrArg (· + 1) hcount
  · simp only [hdvd, decide_false, Bool.false_eq_true, if_false, Option.some.injEq] at h
    subst h
    refine ⟨hclass, hperiod, ?_, fun hhops => absurd (htest.mp hhops) hdvd, fun _ => hmonitored⟩
    rw [if_neg (fun hhops => hdvd (htest.mp hhops))]
    exact hcount

theorem selectMonitoredNodes_selected {hopClass : HopClass} {draws : Draws} {nodes : List NodeId}
    {flows : Dict FlowId PathHoppingFlow} {simulationTime : Nat} {before after : Attacker}
    (hclass : before.cls.hopClass? = some hopClass) (hp : 1 ≤ before.hopPeriod)
    (h : before.selectMonitoredNodes draws nodes flows simulationTime = some after) :
    Selected hopClass simulationTime draws before after := by
  obtain ⟨monitoredNodes, N, K, capturedShares, hopPeriod, hopCount, cls⟩ := before
  cases cls with
  | randomNodeHopping nodeCollection =>
      cases hclass
      simp only [selectMonitoredNodes, selectRandomNodes, Option.bind_eq_bind, Option.bind_eq_some_iff] at h
      obtain ⟨collection, -, h⟩ := h
      exact Selected.of_period Iff.rfl hp rfl rfl Option.map_id'.symm (Option.bind_eq_some_iff.mpr h)
  | randomPathHopping nodeCollection =>
      cases hclass
      simp only [selectMonitoredNodes, selectRandomPaths, Option.bind_eq_bind, Option.bind_eq_some_iff] at h
      obtain ⟨flow, -, h⟩ := h
      exact Selected.of_period Iff.rfl hp rfl rfl Option.map_id'.symm (Option.bind_eq_some_iff.mpr h)
  | idealRandomPathHopping pathCollection =>
      cases hclass
      simp only [selectMonitoredNodes, selectIdealRandomPaths, Option.bind_eq_bind, Option.bind_eq_some_iff] at h
      obtain ⟨flow, -, h⟩ := h
      exact Selected.of_period Iff.rfl hp rfl rfl rfl (Option.bind_eq_some_iff.mpr h)
  | oneNodePerPath pathCollection =>
      cases hclass
      simp only [selectMonitoredNodes, selectOneNodePerPath, Option.bind_eq_bind, Option.bind_eq_some_iff] at h
      obtain ⟨flow, -, h⟩ := h
      by_cases hzero : simulationTime &&& hopPeriod = 0
      · rw [if_pos hzero] at h
        obtain ⟨paths, hpaths, h⟩ := Option.bind_eq_some_iff.mp h
        obtain ⟨drawn, hdrawn, h⟩ := Option.bind_eq_some_iff.mp h
        cases h
        refine ⟨rfl, rfl, by simp [HopClass.HopsAt, hzero, hopTo], fun _ => ⟨drawn, ?_, rfl⟩,
          fun hnot => absurd hzero hnot⟩
        exact Option.bind_eq_some_iff.mpr ⟨paths, hpaths, hdrawn⟩
      · rw [if_neg hzero] at h
        cases h
        exact ⟨rfl, rfl, by simp [HopClass.HopsAt, hzero], fun hhops => absurd hhops hzero, fun _ => rfl⟩
  | fixed pathCollection => cases hclass
  | planned activePaths monitoredPaths hopIndex => cases hclass
  | total => cases hclass

theorem captureShares_keeps {order : SetOrder PathHoppingShare} {flows : Dict FlowId PathHoppingFlow}
    {attacker attacker' : Attacker} {node : PathHoppingNode}
    (h : captureShares order flows attacker node = some attacker') :
    attacker'.cls.hopClass? = attacker.cls.hopClass? ∧ attacker'.hopPeriod = attacker.hopPeriod ∧
      attacker'.hopCount = attacker.hopCount := by
  unfold captureShares at h
  split at h
  · rename_i activePaths monitoredPaths hopIndex hcls
    simp only [Option.bind_eq_bind, Option.bind_eq_some_iff, Option.pure_def, Option.some.injEq] at h
    obtain ⟨flow, -, idx, -, rfl⟩ := h
    rw [hcls]
    exact ⟨rfl, rfl, rfl⟩
  · cases h
    exact ⟨rfl, rfl, rfl⟩

theorem monitor_keeps {order : MonitorOrder} {nodes : Dict NodeId PathHoppingNode}
    {flows : Dict FlowId PathHoppingFlow} {attacker attacker' : Attacker}
    (h : attacker.monitor order nodes flows = some attacker') :
    attacker'.cls.hopClass? = attacker.cls.hopClass? ∧ attacker'.hopPeriod = attacker.hopPeriod ∧
      attacker'.hopCount = attacker.hopCount := by
  refine foldlM_preserves (fun a => a.cls.hopClass? = attacker.cls.hopClass? ∧
    a.hopPeriod = attacker.hopPeriod ∧ a.hopCount = attacker.hopCount) ?_ ⟨rfl, rfl, rfl⟩ h
  intro nodeId _ a a' ⟨hclass, hperiod, hcount⟩ hturn
  obtain ⟨node, -, hcapture⟩ := Option.bind_eq_some_iff.mp hturn
  obtain ⟨hclass', hperiod', hcount'⟩ := captureShares_keeps hcapture
  exact ⟨hclass'.trans hclass, hperiod'.trans hperiod, hcount'.trans hcount⟩

/-- A call that hops to the nodes of its draws when its time is a multiple of the period and changes nothing
otherwise. -/
def OnSchedule (hopPeriod simulationTime : Nat) (draws : Draws) (before after : Attacker) : Prop :=
  if hopPeriod ∣ simulationTime then after.hopCount = before.hopCount + 1 ∧ after.MonitorsDrawn draws
  else after.hopCount = before.hopCount ∧ after.monitoredNodes = before.monitoredNodes

theorem Selected.onSchedule_iff {hopClass : HopClass} {simulationTime : Nat} {draws : Draws}
    {before after : Attacker} (h : Selected hopClass simulationTime draws before after) :
    OnSchedule before.hopPeriod simulationTime draws before after ↔
      (hopClass.HopsAt before.hopPeriod simulationTime ↔ before.hopPeriod ∣ simulationTime) := by
  have hcount := h.hopCount
  unfold OnSchedule
  by_cases hhops : hopClass.HopsAt before.hopPeriod simulationTime
  · rw [if_pos hhops] at hcount
    by_cases hdvd : before.hopPeriod ∣ simulationTime
    · simp [hhops, hdvd, hcount, h.selects hhops]
    · simp [hhops, hdvd, hcount]
  · rw [if_neg hhops] at hcount
    by_cases hdvd : before.hopPeriod ∣ simulationTime
    · simp [hhops, hdvd, hcount]
    · simp [hhops, hdvd, hcount, h.stays hhops]

end Attacker

/-! ### All calls of a run -/

namespace PathHoppingSimulation

/-- The attacker at position `idx` after `t` steps. -/
def attackerAfter (start : PathHoppingSimulation) (order : Nat → StepOrder)
    (outcome : Nat → FlowId → List Nat) (draws : Nat → Nat → Draws) (idx t : Nat) : Option Attacker :=
  (start.run order outcome (fun idx nodes flows simulationTime =>
    Attacker.selectMonitoredNodes (draws idx simulationTime) nodes flows simulationTime) t).bind
      fun sim => sim.attackers[idx]?

/-- The turn of an attacker with a period in step `t`, seen from outside. -/
theorem attackerAfter_succ {start : PathHoppingSimulation} {order : Nat → StepOrder}
    {outcome : Nat → FlowId → List Nat} {draws : Nat → Nat → Draws} {idx t : Nat} {before after : Attacker}
    {hopClass : HopClass} (hbefore : start.attackerAfter order outcome draws idx t = some before)
    (hclass : before.cls.hopClass? = some hopClass) (hp : 1 ≤ before.hopPeriod)
    (hafter : start.attackerAfter order outcome draws idx (t + 1) = some after) :
    Attacker.Selected hopClass (start.ticks + t) (draws idx (start.ticks + t)) before after := by
  obtain ⟨sim, hrun, hget⟩ := Option.bind_eq_some_iff.mp hbefore
  obtain ⟨sim', hrun', hget'⟩ := Option.bind_eq_some_iff.mp hafter
  obtain ⟨sim'', hsame, hstep⟩ := Option.bind_eq_some_iff.mp hrun'
  cases hsame.symm.trans hrun
  obtain ⟨moved, -, -, hticks, -, -, hturn⟩ := step_attackers hstep
  have hsome := (hturn idx).symm.trans hget'
  rw [hget, Option.bind_some] at hsome
  obtain ⟨monitored, hmonitor, hselect⟩ := Option.bind_eq_some_iff.mp hsome
  obtain ⟨hclass', hperiod, hcount⟩ := Attacker.monitor_keeps hmonitor
  have hmonitored := (Attacker.monitor_spec hmonitor).2.2
  have hselected := Attacker.selectMonitoredNodes_selected (hclass'.trans hclass) (hperiod.symm ▸ hp) hselect
  rw [hticks, ticks_of_run hrun] at hselected
  refine ⟨hselected.sameClass, hselected.hopPeriod.trans hperiod, ?_, fun hhops => ?_, fun hnot => ?_⟩
  · rw [hselected.hopCount, hperiod, hcount]
  · exact hselected.selects (hperiod.symm ▸ hhops)
  · rw [hselected.stays (hperiod.symm ▸ hnot), hmonitored]

/-- A run with one attacker of each class: `created` are the four attackers and `idx` their positions. -/
structure FourHoppers (start : PathHoppingSimulation) (order : Nat → StepOrder)
    (outcome : Nat → FlowId → List Nat) (atCreation : HopClass → Draws) (draws : Nat → Nat → Draws)
    (graphNodes : List NodeId) (N K p n : Nat) (created : HopClass → Attacker) (idx : HopClass → Nat) : Prop where
  ticks : start.ticks = 1
  period_pos : 1 ≤ p
  created_eq : ∀ c, Attacker.create (atCreation c) N K graphNodes start.flows p c.fresh = some (created c)
  present : ∀ c, start.attackers[idx c]? = some (created c)
  finished : (start.run order outcome (fun idx nodes flows simulationTime =>
    Attacker.selectMonitoredNodes (draws idx simulationTime) nodes flows simulationTime) n).isSome

/-- All calls of `select_monitored_nodes` are on schedule and the hop counts are always the same. -/
structure AllOnSchedule (start : PathHoppingSimulation) (order : Nat → StepOrder)
    (outcome : Nat → FlowId → List Nat) (atCreation : HopClass → Draws) (draws : Nat → Nat → Draws) (N K p n : Nat)
    (created : HopClass → Attacker) (idx : HopClass → Nat) : Prop where
  creation : ∀ c, Attacker.OnSchedule p 1 (atCreation c) (Attacker.new N K p c.fresh) (created c)
  steps : ∀ c, ∀ t < n, ∀ before after, start.attackerAfter order outcome draws (idx c) t = some before →
    start.attackerAfter order outcome draws (idx c) (t + 1) = some after →
    Attacker.OnSchedule p (t + 1) (draws (idx c) (t + 1)) before after
  sameCount : ∀ t ≤ n, ∀ c c', (start.attackerAfter order outcome draws (idx c) t).map Attacker.hopCount =
    (start.attackerAfter order outcome draws (idx c') t).map Attacker.hopCount

section Schedule

variable {start : PathHoppingSimulation} {order : Nat → StepOrder} {outcome : Nat → FlowId → List Nat}
  {atCreation : HopClass → Draws} {draws : Nat → Nat → Draws} {graphNodes : List NodeId} {N K p n : Nat}
  {created : HopClass → Attacker} {idx : HopClass → Nat}

theorem FourHoppers.selected_at_creation
    (h : FourHoppers start order outcome atCreation draws graphNodes N K p n created idx) (c : HopClass) :
    Attacker.Selected c 1 (atCreation c) (Attacker.new N K p c.fresh) (created c) := by
  have hcreate := h.created_eq c
  have hcall : (Attacker.new N K p c.fresh).selectMonitoredNodes (atCreation c) graphNodes start.flows 1 =
      some (created c) := by
    cases c <;> exact hcreate
  have hclass : (Attacker.new N K p c.fresh).cls.hopClass? = some c := by
    cases c <;> rfl
  exact Attacker.selectMonitoredNodes_selected hclass h.period_pos hcall

/-- Every attacker is there at all times, with its class and period. -/
theorem FourHoppers.exists_attackerAfter
    (h : FourHoppers start order outcome atCreation draws graphNodes N K p n created idx) (c : HopClass) {t : Nat}
    (ht : t ≤ n) :
    ∃ attacker, start.attackerAfter order outcome draws (idx c) t = some attacker ∧
      attacker.cls.hopClass? = some c ∧ attacker.hopPeriod = p := by
  induction t with
  | zero => exact ⟨created c, h.present c, (h.selected_at_creation c).sameClass,
    (h.selected_at_creation c).hopPeriod⟩
  | succ t ih =>
      obtain ⟨before, hbefore, hclass, hperiod⟩ := ih (by omega)
      obtain ⟨sim', hrun'⟩ := Option.isSome_iff_exists.mp (run_isSome_of_le ht h.finished)
      obtain ⟨sim, hrun, hstep⟩ := Option.bind_eq_some_iff.mp hrun'
      obtain ⟨sim₀, hsame, hget⟩ := Option.bind_eq_some_iff.mp hbefore
      cases hsame.symm.trans hrun
      obtain ⟨moved, -, -, -, -, hlength, -⟩ := step_attackers hstep
      have hlt : idx c < sim'.attackers.length := hlength.symm ▸ (List.getElem?_eq_some_iff.mp hget).1
      have hafter : start.attackerAfter order outcome draws (idx c) (t + 1) = some sim'.attackers[idx c] := by
        rw [attackerAfter, hrun', Option.bind_some, List.getElem?_eq_getElem hlt]
      have hselected := attackerAfter_succ hbefore hclass (hperiod.symm ▸ h.period_pos) hafter
      exact ⟨_, hafter, hselected.sameClass, hselected.hopPeriod.trans hperiod⟩

theorem FourHoppers.selected_in_step
    (h : FourHoppers start order outcome atCreation draws graphNodes N K p n created idx) (c : HopClass) {t : Nat}
    (ht : t < n) {before after : Attacker}
    (hbefore : start.attackerAfter order outcome draws (idx c) t = some before)
    (hafter : start.attackerAfter order outcome draws (idx c) (t + 1) = some after) :
    Attacker.Selected c (t + 1) (draws (idx c) (t + 1)) before after ∧ before.hopPeriod = p := by
  obtain ⟨attacker, hattacker, hclass, hperiod⟩ := h.exists_attackerAfter c (show t ≤ n by omega)
  cases hattacker.symm.trans hbefore
  refine ⟨?_, hperiod⟩
  have hselected := attackerAfter_succ hbefore hclass (hperiod.symm ▸ h.period_pos) hafter
  rwa [h.ticks, Nat.add_comm] at hselected

/-- The calls of one class are on schedule when its test is the divisibility at every time of the run. -/
theorem FourHoppers.class_onSchedule_iff
    (h : FourHoppers start order outcome atCreation draws graphNodes N K p n created idx) (c : HopClass) :
    (Attacker.OnSchedule p 1 (atCreation c) (Attacker.new N K p c.fresh) (created c) ∧
      ∀ t < n, ∀ before after, start.attackerAfter order outcome draws (idx c) t = some before →
        start.attackerAfter order outcome draws (idx c) (t + 1) = some after →
        Attacker.OnSchedule p (t + 1) (draws (idx c) (t + 1)) before after) ↔
      ∀ t, 1 ≤ t → t ≤ max n 1 → (c.HopsAt p t ↔ p ∣ t) := by
  have hcreation := (h.selected_at_creation c).onSchedule_iff
  constructor
  · intro ⟨hfirst, hsteps⟩ t hone hle
    by_cases hlater : t ≤ n
    · obtain ⟨before, hbefore, -, -⟩ := h.exists_attackerAfter c (show t - 1 ≤ n by omega)
      obtain ⟨after, hafter, -, -⟩ := h.exists_attackerAfter c hlater
      rw [show t = t - 1 + 1 by omega] at hafter ⊢
      obtain ⟨hselected, hperiod⟩ := h.selected_in_step c (by omega) hbefore hafter
      have hiff := hselected.onSchedule_iff
      rw [hperiod] at hiff
      exact hiff.mp (hsteps (t - 1) (by omega) before after hbefore hafter)
    · rw [show t = 1 by omega]
      exact hcreation.mp hfirst
  · intro hagree
    refine ⟨hcreation.mpr (hagree 1 (by omega) (by omega)), fun t ht before after hbefore hafter => ?_⟩
    obtain ⟨hselected, hperiod⟩ := h.selected_in_step c ht hbefore hafter
    have hiff := hselected.onSchedule_iff
    rw [hperiod] at hiff
    exact hiff.mpr (hagree (t + 1) (by omega) (by omega))

/-- Attackers whose calls are on schedule count the multiples of the period. -/
theorem FourHoppers.hopCount_eq
    (h : FourHoppers start order outcome atCreation draws graphNodes N K p n created idx) (c : HopClass)
    (hagree : ∀ t, 1 ≤ t → t ≤ max n 1 → (c.HopsAt p t ↔ p ∣ t)) {t : Nat} (ht : t ≤ n) :
    (start.attackerAfter order outcome draws (idx c) t).map Attacker.hopCount =
      some ((if p ∣ 1 then 1 else 0) + ((List.range t).countP fun s => p ∣ s + 1)) := by
  induction t with
  | zero =>
      have hcount := (h.selected_at_creation c).hopCount
      have htest : c.HopsAt (Attacker.new N K p c.fresh).hopPeriod 1 ↔ p ∣ 1 :=
        hagree 1 (by omega) (by omega)
      simp only [htest] at hcount
      change (start.attackers[idx c]?).map Attacker.hopCount = _
      rw [h.present c, Option.map_some, hcount]
      simp [Attacker.new]
  | succ t ih =>
      obtain ⟨before, hbefore, -, -⟩ := h.exists_attackerAfter c (show t ≤ n by omega)
      obtain ⟨after, hafter, -, -⟩ := h.exists_attackerAfter c ht
      obtain ⟨hselected, hperiod⟩ := h.selected_in_step c (by omega) hbefore hafter
      have hcount := hselected.hopCount
      simp only [hperiod, hagree (t + 1) (by omega) (by omega)] at hcount
      have hbase := ih (by omega)
      rw [hbefore, Option.map_some, Option.some.injEq] at hbase
      rw [hafter, Option.map_some, hcount, hbase, List.range_succ, List.countP_append]
      simp [Nat.add_assoc]

/-- The four attackers keep the schedule over a run of `n` steps exactly when the run ends before the first
multiple of the period and the low bits of the period, as many as `max n 1` has, are all set. -/
theorem all_on_schedule_iff (start : PathHoppingSimulation) (order : Nat → StepOrder)
    (outcome : Nat → FlowId → List Nat) (atCreation : HopClass → Draws) (draws : Nat → Nat → Draws)
    (graphNodes : List NodeId) (N K p n : Nat) (created : HopClass → Attacker) (idx : HopClass → Nat)
    (h : FourHoppers start order outcome atCreation draws graphNodes N K p n created idx) :
    AllOnSchedule start order outcome atCreation draws N K p n created idx ↔
      max n 1 < p ∧ 2 ^ (max n 1).size ∣ p + 1 := by
  rw [← tests_agree_iff h.period_pos]
  constructor
  · intro hall
    exact (h.class_onSchedule_iff .oneNodePerPath).mp ⟨hall.creation .oneNodePerPath, hall.steps .oneNodePerPath⟩
  · intro hagree
    have hclass : ∀ c : HopClass, ∀ t, 1 ≤ t → t ≤ max n 1 → (c.HopsAt p t ↔ p ∣ t) := by
      intro c
      cases c with
      | oneNodePerPath => exact hagree
      | _ => exact fun _ _ _ => Iff.rfl
    refine ⟨fun c => ((h.class_onSchedule_iff c).mpr (hclass c)).1,
      fun c => ((h.class_onSchedule_iff c).mpr (hclass c)).2, fun t ht c c' => ?_⟩
    rw [h.hopCount_eq c (hclass c) ht, h.hopCount_eq c' (hclass c') ht]

end Schedule

/-! ### A small network -/

/-- Draw the first path and its first node. -/
def firstDraws : Draws := ⟨[0], [0], StepOrder.byIdentifier.nodes⟩

def smallFlows : List PathHoppingFlow := [FlowSetup.started ⟨0, 0, 1, [[0, 2, 1], [0, 3, 1]], 1⟩ [0]]

/-- The attacker of a class, created on the small network. -/
def smallAttacker (p : Nat) (c : HopClass) : Attacker :=
  (Attacker.create firstDraws 2 1 [0, 1, 2, 3] (Dict.ofList (smallFlows.map fun flow => (flow.flowId, flow))) p
    c.fresh).getD (Attacker.new 2 1 p c.fresh)

def smallStart (p : Nat) : PathHoppingSimulation :=
  create [0, 1, 2, 3] smallFlows ([.randomNode, .randomPath, .idealRandomPath, .oneNodePerPath].map (smallAttacker p))

def smallIdx : HopClass → Nat
  | .randomNode => 0
  | .randomPath => 1
  | .idealRandomPath => 2
  | .oneNodePerPath => 3

theorem all_on_schedule_iff_period_three :
    FourHoppers (smallStart 3) (fun _ => .byIdentifier) (fun _ _ => [0]) (fun _ => firstDraws) (fun _ _ => firstDraws)
        [0, 1, 2, 3] 2 1 3 2 (smallAttacker 3) smallIdx ∧
      (AllOnSchedule (smallStart 3) (fun _ => .byIdentifier) (fun _ _ => [0]) (fun _ => firstDraws)
          (fun _ _ => firstDraws) 2 1 3 2 (smallAttacker 3) smallIdx ↔ max 2 1 < 3 ∧ 2 ^ (max 2 1).size ∣ 3 + 1) := by
  have h : FourHoppers (smallStart 3) (fun _ => .byIdentifier) (fun _ _ => [0]) (fun _ => firstDraws)
      (fun _ _ => firstDraws) [0, 1, 2, 3] 2 1 3 2 (smallAttacker 3) smallIdx := by
    refine ⟨rfl, by decide, fun c => ?_, fun c => ?_, by decide⟩
    · cases c <;> decide
    · cases c <;> rfl
  exact ⟨h, all_on_schedule_iff _ _ _ _ _ _ _ _ _ _ _ _ h⟩

/-- With period 2 the fourth attacker hops at its creation and in step 0, but not in step 1 at time 2. -/
theorem one_node_per_path_off_schedule :
    FourHoppers (smallStart 2) (fun _ => .byIdentifier) (fun _ _ => [0]) (fun _ => firstDraws) (fun _ _ => firstDraws)
        [0, 1, 2, 3] 2 1 2 2 (smallAttacker 2) smallIdx ∧
      ((smallStart 2).attackerAfter (fun _ => .byIdentifier) (fun _ _ => [0]) (fun _ _ => firstDraws) 0 2).map
        Attacker.hopCount = some 1 ∧
      ((smallStart 2).attackerAfter (fun _ => .byIdentifier) (fun _ _ => [0]) (fun _ _ => firstDraws) 3 2).map
        Attacker.hopCount = some 2 ∧
      ¬AllOnSchedule (smallStart 2) (fun _ => .byIdentifier) (fun _ _ => [0]) (fun _ => firstDraws)
          (fun _ _ => firstDraws) 2 1 2 2 (smallAttacker 2) smallIdx := by
  refine ⟨⟨rfl, by decide, fun c => ?_, fun c => ?_, by decide⟩, by decide, by decide,
    fun h => ?_⟩
  · cases c <;> decide
  · cases c <;> rfl
  · exact absurd (h.sameCount 2 (Nat.le_refl 2) .randomNode .oneNodePerPath) (by decide)

end PathHoppingSimulation

end OfTestbed.Simulator
