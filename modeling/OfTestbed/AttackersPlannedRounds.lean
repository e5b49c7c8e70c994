import OfTestbed.AttackersPlanned

/-!
The planned attacker on parallel paths. The flow has internally disjoint paths of one length, so that the hop index
passes the ends of all of them together. A path is recorded one step after a node on it was chosen; the recorded paths,
together with those of the nodes being monitored, are the paths chosen since the plan last started over. A selection
leaves them out, also at the sink, which all paths share: there it chooses nothing.
-/

namespace OfTestbed.Simulator

open Lib

/-- Internally disjoint paths of one length. -/
structure Parallel (paths : List Path) (length : Nat) : Prop where
  length_eq : ∀ path ∈ paths, path.length = length
  disjoint : paths.Pairwise fun path path' => ∀ nodeId ∈ Attacker.interior path, nodeId ∉ Attacker.interior path'

/-- A node of the path is monitored. -/
def Attacker.Watches (paths : List Path) (pathIdx : Nat) (attacker : Attacker) : Prop :=
  ∃ path, paths[pathIdx]? = some path ∧ ∃ nodeId ∈ attacker.monitoredNodes, nodeId ∈ path

/-- The paths chosen since the plan last started over. -/
def Plan.chosen (paths : List Path) (attacker : Attacker) (plan : Plan) : Finset Nat :=
  (plan.record paths attacker.monitoredNodes).monitoredPaths

/-! ### Interior nodes -/

theorem mem_interior_iff {path : Path} {nodeId : NodeId} :
    nodeId ∈ Attacker.interior path ↔ ∃ i, 0 < i ∧ i + 1 < path.length ∧ path[i]? = some nodeId := by
  unfold Attacker.interior
  rw [List.mem_iff_getElem?]
  constructor
  · rintro ⟨i, hget⟩
    have hlt := (List.getElem?_eq_some_iff.mp hget).1
    rw [List.length_dropLast, List.length_tail] at hlt
    rw [List.getElem?_dropLast, List.length_tail, if_pos hlt, List.getElem?_tail] at hget
    exact ⟨i + 1, Nat.succ_pos i, by omega, hget⟩
  · rintro ⟨i, hpos, hlt, hget⟩
    refine ⟨i - 1, ?_⟩
    rw [List.getElem?_dropLast, List.length_tail, if_pos (by omega), List.getElem?_tail,
      Nat.sub_add_cancel hpos]
    exact hget

section Parallel

variable {graphNodes : List NodeId} {setup : FlowSetup} {length : Nat} {plan : Plan} {attacker : Attacker}

/-- An interior node is on no other path. -/
theorem Parallel.eq_of_mem (h : Parallel setup.paths length) (hwf : setup.WellFormed graphNodes) {i j : Nat}
    {path path' : Path} (hi : setup.paths[i]? = some path) (hj : setup.paths[j]? = some path') {nodeId : NodeId}
    (hinterior : nodeId ∈ Attacker.interior path) (hmem : nodeId ∈ path') : i = j := by
  have hpath := List.mem_of_getElem? hi
  have hpath' := List.mem_of_getElem? hj
  obtain ⟨m, hpos, hlast, hm⟩ := mem_interior_iff.mp hinterior
  obtain ⟨k, hk⟩ := List.mem_iff_getElem?.mp hmem
  have hklt := (List.getElem?_eq_some_iff.mp hk).1
  -- the end points of the other path are those of this one, which has no node twice
  have hplace : ∀ m', path[m']? = some nodeId → m' = m := by
    intro m' hm'
    rw [← hm] at hm'
    exact ((List.getElem?_inj (by omega) (hwf.nodup path hpath)).mp hm'.symm).symm
  have hfirst : k ≠ 0 := by
    rintro rfl
    have hsource := hwf.head path' hpath'
    rw [List.head?_eq_getElem?, hk, Option.some_inj] at hsource
    have hzero := hplace 0 (by rw [← List.head?_eq_getElem?, hwf.head path hpath, hsource])
    omega
  have hend : k + 1 ≠ path'.length := by
    intro hk1
    have hsink := hwf.last path' hpath'
    rw [List.getLast?_eq_getElem?, show path'.length - 1 = k by omega, hk, Option.some_inj] at hsink
    have hlength := hplace (path.length - 1) (by rw [← List.getLast?_eq_getElem?, hwf.last path hpath, hsink])
    omega
  have hinterior' : nodeId ∈ Attacker.interior path' := mem_interior_iff.mpr ⟨k, by omega, by omega, hk⟩
  obtain ⟨hilt, rfl⟩ := List.getElem?_eq_some_iff.mp hi
  obtain ⟨hjlt, rfl⟩ := List.getElem?_eq_some_iff.mp hj
  have hdisjoint := List.pairwise_iff_getElem.mp h.disjoint
  rcases Nat.lt_trichotomy i j with hlt | heq | hgt
  · exact absurd hinterior' (hdisjoint i j hilt hjlt hlt nodeId hinterior)
  · exact heq
  · exact absurd hinterior (hdisjoint j i hjlt hilt hgt nodeId hinterior')

/-- The path under which an interior node is recorded. -/
theorem Parallel.findIdx_eq (h : Parallel setup.paths length) (hwf : setup.WellFormed graphNodes) {i : Nat}
    {path : Path} (hi : setup.paths[i]? = some path) {nodeId : NodeId} (hinterior : nodeId ∈ Attacker.interior path) :
    setup.paths.findIdx (nodeId ∈ ·) = i := by
  obtain ⟨m, -, -, hm⟩ := mem_interior_iff.mp hinterior
  have hlt : setup.paths.findIdx (nodeId ∈ ·) < setup.paths.length :=
    List.findIdx_lt_length_of_exists ⟨path, List.mem_of_getElem? hi, decide_eq_true (List.mem_of_getElem? hm)⟩
  have hmem := List.findIdx_getElem (w := hlt)
  exact (h.eq_of_mem hwf hi (List.getElem?_eq_getElem hlt) hinterior (of_decide_eq_true hmem)).symm

/-! ### What a plan leaves -/

theorem Plan.mem_population {paths : List Path} {nodeId : NodeId} :
    nodeId ∈ plan.population paths ↔
      (∃ (i : Nat) (path : Path), paths[i]? = some path ∧ path[plan.hopIndex]? = some nodeId) ∧
      ∀ i ∈ plan.monitoredPaths, ∀ path, paths[i]? = some path → path[plan.hopIndex]? ≠ some nodeId := by
  simp only [population, Finset.mem_sdiff, List.mem_toFinset, List.mem_filterMap, List.mem_filter, List.mem_range,
    decide_eq_true_eq, Option.bind_eq_some_iff]
  refine and_congr ?_ ?_
  · constructor
    · rintro ⟨path, hpath, hget⟩
      obtain ⟨i, hi⟩ := List.mem_iff_getElem?.mp hpath
      exact ⟨i, path, hi, hget⟩
    · rintro ⟨i, path, hi, hget⟩
      exact ⟨path, List.mem_of_getElem? hi, hget⟩
  · push Not
    constructor
    · intro hnone i hmem path hi
      exact hnone i ⟨(List.getElem?_eq_some_iff.mp hi).1, hmem⟩ path hi
    · intro hnone i hi path hget
      exact hnone i hi.2 path hget

/-- Before the sink, a plan leaves interior nodes of paths that are not recorded. -/
theorem Plan.interior_of_mem_population (h : Parallel setup.paths length) (hindex : 0 < plan.hopIndex)
    (hlt : plan.hopIndex + 1 < length) {nodeId : NodeId} (hmem : nodeId ∈ plan.population setup.paths) :
    ∃ (i : Nat) (path : Path), setup.paths[i]? = some path ∧ nodeId ∈ Attacker.interior path ∧
      i ∉ plan.monitoredPaths := by
  obtain ⟨⟨i, path, hi, hget⟩, hnone⟩ := mem_population.mp hmem
  refine ⟨i, path, hi, mem_interior_iff.mpr ⟨plan.hopIndex, hindex, ?_, hget⟩, fun hrecorded => ?_⟩
  · rw [h.length_eq path (List.mem_of_getElem? hi)]
    exact hlt
  · exact hnone i hrecorded path hi hget

/-- At the sink a plan leaves nothing when a path is recorded. -/
theorem Plan.population_eq_empty (h : Parallel setup.paths length) (hwf : setup.WellFormed graphNodes)
    (hsink : plan.hopIndex + 1 = length) {i : Nat} (hi : i ∈ plan.monitoredPaths) (hlt : i < setup.paths.length) :
    plan.population setup.paths = ∅ := by
  have hat : ∀ path ∈ setup.paths, path[plan.hopIndex]? = some setup.sinkNode := by
    intro path hpath
    have hlength := h.length_eq path hpath
    rw [← hwf.last path hpath, List.getLast?_eq_getElem?, show path.length - 1 = plan.hopIndex by omega]
  rw [Finset.eq_empty_iff_forall_notMem]
  intro nodeId hmem
  obtain ⟨⟨j, path, hj, hget⟩, hnone⟩ := mem_population.mp hmem
  refine hnone i hi _ (List.getElem?_eq_getElem hlt) ?_
  rw [hat _ (List.getElem_mem hlt), ← hat path (List.mem_of_getElem? hj), hget]

theorem Plan.population_nonempty (hne : setup.paths ≠ []) (hrange : plan.InRange setup.paths)
    (hfresh : plan.monitoredPaths = ∅) : (plan.population setup.paths).Nonempty := by
  obtain ⟨path, hpath⟩ := List.exists_mem_of_ne_nil _ hne
  obtain ⟨i, hi⟩ := List.mem_iff_getElem?.mp hpath
  refine ⟨_, mem_population.mpr ⟨⟨i, path, hi, List.getElem?_eq_getElem (hrange path hpath)⟩, ?_⟩⟩
  rw [hfresh]
  exact fun i hi => absurd hi (Finset.notMem_empty i)

/-! ### One selection -/

/-- The attacker monitors at most `K` nodes, all interior, and has chosen a path since its plan last started over. -/
structure InRound (paths : List Path) (K : Nat) (attacker : Attacker) (plan : Plan) : Prop where
  card_le : attacker.monitoredNodes.card ≤ K
  interior : ∀ nodeId ∈ attacker.monitoredNodes, ∃ path ∈ paths, nodeId ∈ Attacker.interior path
  started : 0 < K → ∃ i ∈ plan.chosen paths attacker, i < paths.length

theorem Plan.mem_chosen_of_recorded {paths : List Path} {i : Nat} (hi : i ∈ plan.monitoredPaths) :
    i ∈ plan.chosen paths attacker := Finset.mem_union_left _ hi

/-- The paths that are watched have been chosen. -/
theorem InRound.mem_chosen (h : Parallel setup.paths length) (hwf : setup.WellFormed graphNodes) {K : Nat}
    (hround : InRound setup.paths K attacker plan) {i : Nat} (hwatches : attacker.Watches setup.paths i) :
    i ∈ plan.chosen setup.paths attacker := by
  obtain ⟨path, hi, nodeId, hnode, hmem⟩ := hwatches
  obtain ⟨path', hpath', hinterior⟩ := hround.interior nodeId hnode
  obtain ⟨j, hj⟩ := List.mem_iff_getElem?.mp hpath'
  obtain rfl : j = i := h.eq_of_mem hwf hj hi hinterior hmem
  refine Finset.mem_union_right _ (Finset.mem_image.mpr ⟨nodeId, hnode, ?_⟩)
  exact h.findIdx_eq hwf hj hinterior

/-- A selection that the plan allows: the plan is fresh or has recorded a path. It keeps the bounds and chooses no path
that is recorded. -/
theorem Attacker.ChoosesFrom.inRound (h : Parallel setup.paths length) (hwf : setup.WellFormed graphNodes)
    (hlength : 3 ≤ length) {K : Nat} (hchosen : attacker.ChoosesFrom setup.paths K plan) (hindex : 0 < plan.hopIndex)
    (hlt : plan.hopIndex < length)
    (hstart : plan = ⟨∅, 1⟩ ∨ (0 < K → ∃ i ∈ plan.monitoredPaths, i < setup.paths.length)) :
    InRound setup.paths K attacker { plan with hopIndex := plan.hopIndex + 1 } ∧
      ∀ i, attacker.Watches setup.paths i → i ∉ plan.monitoredPaths := by
  have hcard : attacker.monitoredNodes.card ≤ K := by
    rw [hchosen.card_eq]
    exact Nat.min_le_left _ _
  -- what is chosen is interior: at the sink nothing is left, and nothing is chosen when `K` is 0
  have hinterior : ∀ nodeId ∈ attacker.monitoredNodes, ∃ (i : Nat) (path : Path), setup.paths[i]? = some path ∧
      nodeId ∈ Attacker.interior path ∧ i ∉ plan.monitoredPaths := by
    intro nodeId hnode
    by_cases hbefore : plan.hopIndex + 1 < length
    · exact Plan.interior_of_mem_population h hindex hbefore (hchosen.subset hnode)
    · have hsome : 0 < K := Nat.lt_of_lt_of_le (Finset.card_pos.mpr ⟨nodeId, hnode⟩) hcard
      rcases hstart with hfresh | hrecorded
      · rw [hfresh] at hbefore
        exact absurd (show 1 + 1 < length by omega) hbefore
      · obtain ⟨i, hi, hilt⟩ := hrecorded hsome
        have hempty := Plan.population_eq_empty h hwf (by omega) hi hilt
        exact absurd (hempty ▸ hchosen.subset hnode) (Finset.notMem_empty nodeId)
  refine ⟨⟨hcard, fun nodeId hnode => ?_, fun hK => ?_⟩, fun i hwatches hrecorded => ?_⟩
  · obtain ⟨i, path, hi, hmem, -⟩ := hinterior nodeId hnode
    exact ⟨path, List.mem_of_getElem? hi, hmem⟩
  · rcases hstart with rfl | hrecorded
    · obtain ⟨path, hpath⟩ := hwf.exists_path
      have hleft : 0 < (Plan.population setup.paths ⟨∅, 1⟩).card := by
        refine Finset.card_pos.mpr (Plan.population_nonempty (List.ne_nil_of_mem hpath) (fun path hpath => ?_) rfl)
        rw [h.length_eq path hpath]
        exact hlt
      have hpos : 0 < attacker.monitoredNodes.card := by
        rw [hchosen.card_eq]
        omega
      obtain ⟨nodeId, hnode⟩ := Finset.card_pos.mp hpos
      obtain ⟨i, path, hi, hmem, -⟩ := hinterior nodeId hnode
      refine ⟨i, Finset.mem_union_right _ (Finset.mem_image.mpr ⟨nodeId, hnode, h.findIdx_eq hwf hi hmem⟩), ?_⟩
      exact (List.getElem?_eq_some_iff.mp hi).1
    · obtain ⟨i, hi, hilt⟩ := hrecorded hK
      exact ⟨i, Plan.mem_chosen_of_recorded hi, hilt⟩
  · obtain ⟨path, hi, nodeId, hnode, hmem⟩ := hwatches
    obtain ⟨j, path', hj, hmem', hfresh⟩ := hinterior nodeId hnode
    obtain rfl : j = i := h.eq_of_mem hwf hj hi hmem' hmem
    exact hfresh hrecorded

/-! ### One turn -/

/-- The test with which a plan starts over. -/
def Plan.Exhausted (paths : List Path) (N : Nat) (plan : Plan) : Prop :=
  Attacker.planIsExhausted (longest paths) N plan.hopIndex plan.monitoredPaths = true

theorem Plan.resume_of_exhausted {paths : List Path} {N : Nat} (h : plan.Exhausted paths N) :
    plan.resume paths N = ⟨∅, 1⟩ := if_pos h

theorem Plan.resume_of_not_exhausted {paths : List Path} {N : Nat} (h : ¬plan.Exhausted paths N) :
    plan.resume paths N = plan := if_neg h

theorem Plan.hopIndex_lt (h : Parallel setup.paths length) {N : Nat} (hgoes : ¬plan.Exhausted setup.paths N) :
    plan.hopIndex < length := by
  by_contra hpassed
  apply hgoes
  have hlongest : longest setup.paths ≤ plan.hopIndex := by
    rw [longest_le_iff]
    intro path hpath
    rw [h.length_eq path hpath]
    omega
  rw [Exhausted, Attacker.planIsExhausted, Bool.or_eq_true, decide_eq_true_eq]
  exact Or.inl hlongest

/-- In this turn the plan starts over. -/
def StartsOver (paths : List Path) (n : Nat) (attacker : Attacker) (plan : Plan) : Prop :=
  attacker.hopPeriod ∣ n + 1 ∧ (plan.record paths attacker.monitoredNodes).Exhausted paths attacker.N

variable {N K hopPeriod n : Nat} {after : Attacker}

/-- A turn keeps the attacker in its round or starts a new one; in the same round it adds to the chosen paths, and a
selection adds only new ones. -/
theorem IsTurn.inRound (h : Parallel setup.paths length) (hwf : setup.WellFormed graphNodes) (hlength : 3 ≤ length)
    (hplanned : IsPlanned setup.paths N K hopPeriod n attacker plan) (hround : InRound setup.paths K attacker plan)
    (hturn : IsTurn setup.paths n attacker plan after) :
    ∃ plan', after.plan? = some plan' ∧ InRound setup.paths K after plan' ∧
      (¬StartsOver setup.paths n attacker plan →
        plan.chosen setup.paths attacker ⊆ plan'.chosen setup.paths after ∧
        (hopPeriod ∣ n + 1 → ∀ i, after.Watches setup.paths i → i ∉ plan.chosen setup.paths attacker)) := by
  obtain ⟨-, hN, hK, hperiod, -, hindex, -⟩ := hplanned
  subst hN hK hperiod
  by_cases htime : attacker.hopPeriod ∣ n + 1
  · have hchosen := hturn.hop htime
    by_cases hover : (plan.record setup.paths attacker.monitoredNodes).Exhausted setup.paths attacker.N
    · rw [Plan.resume_of_exhausted hover] at hchosen
      refine ⟨_, hchosen.plan_eq, ?_, fun hgoes => absurd ⟨htime, hover⟩ hgoes⟩
      exact (hchosen.inRound h hwf hlength Nat.one_pos (by dsimp only; omega) (Or.inl rfl)).1
    · rw [Plan.resume_of_not_exhausted hover] at hchosen
      obtain ⟨hround', hnew⟩ := hchosen.inRound h hwf hlength hindex (Plan.hopIndex_lt h hover) (Or.inr hround.started)
      refine ⟨_, hchosen.plan_eq, hround', fun _ => ⟨fun i hi => ?_, fun _ => hnew⟩⟩
      exact Plan.mem_chosen_of_recorded hi
  · obtain ⟨hsame, hplan⟩ := hturn.between htime
    have hkept : plan.chosen setup.paths attacker ⊆ Plan.chosen setup.paths after
        { plan.record setup.paths attacker.monitoredNodes with hopIndex := plan.hopIndex + 1 } :=
      fun i hi => Plan.mem_chosen_of_recorded hi
    refine ⟨_, hplan, ⟨?_, ?_, fun hpos => ?_⟩, fun _ => ⟨hkept, fun hdvd => absurd hdvd htime⟩⟩
    · rw [hsame]
      exact hround.card_le
    · rw [hsame]
      exact hround.interior
    · obtain ⟨i, hi, hlt⟩ := hround.started hpos
      exact ⟨i, hkept hi, hlt⟩

end Parallel

/-! ### A whole run -/

namespace Scenario

/-- The attacker at position `idx` sets its monitored paths back in step `n`, after it has captured. -/
def Resets (scenario : Scenario) (paths : List Path) (attackers : List Attacker) (order : Nat → StepOrder)
    (select : Nat → Select) (idx n : Nat) : Prop :=
  ∃ moved attacker monitored plan, scenario.Reaches attackers order select idx n moved attacker ∧
    attacker.monitor ((order n).monitoring idx) moved.nodes moved.flows = some monitored ∧
    monitored.plan? = some plan ∧ monitored.isHopTime moved.ticks = some true ∧ plan.Exhausted paths monitored.N

namespace PlannedRun

variable {scenario : Scenario} {setup : FlowSetup} {N K hopPeriod : Nat} {draw : Nat → Attacker → Draws}
  {attackers : List Attacker} {idx n length : Nat} {order : Nat → StepOrder} {select : Nat → Select}
  {sim : PathHoppingSimulation} {attacker : Attacker} {plan : Plan}

theorem three_le (h : PlannedRun scenario setup N K hopPeriod draw attackers idx select)
    (hparallel : Parallel setup.paths length) : 3 ≤ length := by
  obtain ⟨path, hpath⟩ := (scenario.wellFormed setup h.setup_mem).exists_path
  exact hparallel.length_eq path hpath ▸ h.three_le_length path hpath

theorem resets_of_startsOver (h : PlannedRun scenario setup N K hopPeriod draw attackers idx select)
    (hpos : 0 < hopPeriod) (hrun : scenario.run attackers order select n = some sim) {sim' : PathHoppingSimulation}
    (hrun' : scenario.run attackers order select (n + 1) = some sim') (hget : sim.attackers[idx]? = some attacker)
    (hplanned : IsPlanned setup.paths N K hopPeriod n attacker plan)
    (hover : StartsOver setup.paths n attacker plan) :
    scenario.Resets setup.paths attackers order select idx n := by
  obtain ⟨before, hbefore, hstep⟩ := Option.bind_eq_some_iff.mp hrun'
  obtain rfl : before = sim := Option.some_inj.mp (hbefore.symm.trans hrun)
  obtain ⟨moved, hadvance, -⟩ := PathHoppingSimulation.step_attackers hstep
  obtain ⟨⟨flow, hflow, hpaths⟩, hnodes⟩ := network_of_run h.setup_mem hrun hadvance
  obtain ⟨monitored, hmonitor, htask, hrecorded⟩ := Attacker.exists_monitor_planned hplanned.plan_eq
    (h.target ▸ hflow) (hpaths ▸ hplanned.onPaths) (fun nodeId hmem => by
      obtain ⟨path, hpath, hon⟩ := hplanned.onPaths nodeId hmem
      exact hnodes path hpath nodeId hon) ((order n).monitoring idx)
  rw [hpaths] at hrecorded
  refine ⟨moved, attacker, monitored, _, ⟨before, hrun, hadvance, hget⟩, hmonitor, hrecorded, ?_, ?_⟩
  · have hperiod : 0 < monitored.hopPeriod := by
      rw [htask.hopPeriod_eq, hplanned.hopPeriod_eq]
      exact hpos
    rw [Attacker.isHopTime_eq hperiod, ticks_of_advance hrun hadvance, htask.hopPeriod_eq]
    exact congrArg some (decide_eq_true hover.1)
  · rw [htask.N_eq]
    exact hover.2

/-- In every state of a run the attacker is in a round. -/
theorem inRound_of_run (h : PlannedRun scenario setup N K hopPeriod draw attackers idx select) (hpos : 0 < hopPeriod)
    (hparallel : Parallel setup.paths length) (hrun : scenario.run attackers order select n = some sim) :
    ∃ attacker plan, sim.attackers[idx]? = some attacker ∧ IsPlanned setup.paths N K hopPeriod n attacker plan ∧
      InRound setup.paths K attacker plan := by
  have hwf := scenario.wellFormed setup h.setup_mem
  have hlength := h.three_le hparallel
  induction n generalizing sim with
  | zero =>
      cases hrun
      obtain ⟨created, hget, hchosen, hplanned⟩ := h.exists_created hpos
      refine ⟨created, _, hget, hplanned, ?_⟩
      exact (hchosen.inRound hparallel hwf hlength Nat.one_pos (by dsimp only; omega) (Or.inl rfl)).1
  | succ n ih =>
      obtain ⟨before, hbefore, -⟩ := Option.bind_eq_some_iff.mp hrun
      obtain ⟨attacker, plan, hget, hplanned, hround⟩ := ih hbefore
      obtain ⟨after, hafter, hturn⟩ := h.exists_turn hpos hbefore hrun hget hplanned
      obtain ⟨plan', hplan', hround', -⟩ := hturn.inRound hparallel hwf hlength hplanned hround
      obtain ⟨plan'', hplanned'⟩ := hplanned.of_turn hturn
      obtain rfl : plan'' = plan' := Option.some_inj.mp (hplanned'.plan_eq.symm.trans hplan')
      exact ⟨after, plan'', hafter, hplanned', hround'⟩

section Rounds

variable {sim' : PathHoppingSimulation} {attacker' : Attacker} {m : Nat}

/-- A step without a reset adds to the chosen paths, and a selection in it adds only new ones. -/
theorem chosen_of_step (h : PlannedRun scenario setup N K hopPeriod draw attackers idx select) (hpos : 0 < hopPeriod)
    (hparallel : Parallel setup.paths length) (hrun : scenario.run attackers order select n = some sim)
    (hrun' : scenario.run attackers order select (n + 1) = some sim') (hget : sim.attackers[idx]? = some attacker)
    (hget' : sim'.attackers[idx]? = some attacker') (hplan : attacker.plan? = some plan)
    (hno : ¬scenario.Resets setup.paths attackers order select idx n) :
    ∃ plan', attacker'.plan? = some plan' ∧ plan.chosen setup.paths attacker ⊆ plan'.chosen setup.paths attacker' ∧
      (hopPeriod ∣ n + 1 → ∀ i, attacker'.Watches setup.paths i → i ∉ plan.chosen setup.paths attacker) := by
  obtain ⟨same, plan₀, hget₀, hplanned, hround⟩ := h.inRound_of_run hpos hparallel hrun
  obtain rfl : same = attacker := Option.some_inj.mp (hget₀.symm.trans hget)
  obtain rfl : plan₀ = plan := Option.some_inj.mp (hplanned.plan_eq.symm.trans hplan)
  obtain ⟨after, hafter, hturn⟩ := h.exists_turn hpos hrun hrun' hget hplanned
  obtain rfl : after = attacker' := Option.some_inj.mp (hafter.symm.trans hget')
  obtain ⟨plan', hplan', -, hadds⟩ := hturn.inRound hparallel (scenario.wellFormed setup h.setup_mem)
    (h.three_le hparallel) hplanned hround
  exact ⟨plan', hplan', hadds fun hover => hno (h.resets_of_startsOver hpos hrun hrun' hget hplanned hover)⟩

/-- Without a reset the chosen paths only grow. -/
theorem chosen_subset_of_run (h : PlannedRun scenario setup N K hopPeriod draw attackers idx select)
    (hpos : 0 < hopPeriod) (hparallel : Parallel setup.paths length) (hle : n ≤ m)
    (hrun : scenario.run attackers order select n = some sim)
    (hrun' : scenario.run attackers order select m = some sim') (hget : sim.attackers[idx]? = some attacker)
    (hget' : sim'.attackers[idx]? = some attacker') (hplan : attacker.plan? = some plan)
    (hno : ∀ k, n ≤ k → k < m → ¬scenario.Resets setup.paths attackers order select idx k) :
    ∃ plan', attacker'.plan? = some plan' ∧
      plan.chosen setup.paths attacker ⊆ plan'.chosen setup.paths attacker' := by
  induction m, hle using Nat.le_induction generalizing sim' attacker' with
  | base =>
      obtain rfl : sim = sim' := Option.some_inj.mp (hrun.symm.trans hrun')
      obtain rfl : attacker = attacker' := Option.some_inj.mp (hget.symm.trans hget')
      exact ⟨plan, hplan, Finset.Subset.refl _⟩
  | succ m hle ih =>
      obtain ⟨middle, hmiddle, -⟩ := Option.bind_eq_some_iff.mp hrun'
      obtain ⟨between, plan₁, hbetween, -⟩ := h.isPlanned_of_run hpos hmiddle
      obtain ⟨plan₁, hplan₁, hgrown⟩ := ih hmiddle hbetween fun k hk hlt => hno k hk (by omega)
      obtain ⟨plan', hplan', hgrown', -⟩ := h.chosen_of_step hpos hparallel hmiddle hrun' hbetween hget' hplan₁
        (hno m hle (by omega))
      exact ⟨plan', hplan', hgrown.trans hgrown'⟩

end Rounds

end PlannedRun

/-- On parallel paths the planned attacker never monitors more than `K` nodes, and until its monitored paths are set
back no later selection chooses a path that it has chosen. -/
theorem planned_attacker_chooses_paths_once (scenario : Scenario) (setup : FlowSetup) (N K hopPeriod length : Nat)
    (draw : Nat → Attacker → Draws) (attackers : List Attacker) (idx : Nat) (order : Nat → StepOrder)
    (select : Nat → Select) (h : PlannedRun scenario setup N K hopPeriod draw attackers idx select)
    (hparallel : Parallel setup.paths length) (created : Attacker)
    (hcreated : Attacker.create (draw 0 (Attacker.newPlanned N K hopPeriod)) N K scenario.graphNodes
      (scenario.start attackers).flows hopPeriod (.planned ∅ ∅ 1) = some created) :
    (∀ n sim attacker, scenario.run attackers order select n = some sim → sim.attackers[idx]? = some attacker →
      attacker.monitoredNodes.card ≤ K) ∧
    ∀ n m sim sim' attacker attacker', n < m → scenario.run attackers order select n = some sim →
      scenario.run attackers order select m = some sim' → sim.attackers[idx]? = some attacker →
      sim'.attackers[idx]? = some attacker' → hopPeriod ∣ m →
      (∀ k, n ≤ k → k < m → ¬scenario.Resets setup.paths attackers order select idx k) →
      ∀ i, ¬(attacker.Watches setup.paths i ∧ attacker'.Watches setup.paths i) := by
  have hpos := h.create_spec.1.mp (Option.isSome_of_eq_some hcreated)
  constructor
  · intro n sim attacker hrun hget
    obtain ⟨same, plan, hget', -, hround⟩ := h.inRound_of_run hpos hparallel hrun
    obtain rfl : same = attacker := Option.some_inj.mp (hget'.symm.trans hget)
    exact hround.card_le
  · rintro n m sim sim' attacker attacker' hlt hrun hrun' hget hget' htime hno i ⟨hwatched, hwatches⟩
    obtain ⟨same, plan, hget₀, hplanned, hround⟩ := h.inRound_of_run hpos hparallel hrun
    obtain rfl : same = attacker := Option.some_inj.mp (hget₀.symm.trans hget)
    have hchosen := hround.mem_chosen hparallel (scenario.wellFormed setup h.setup_mem) hwatched
    cases m with
    | zero => omega
    | succ m =>
        -- the step before the second selection
        obtain ⟨middle, hmiddle, -⟩ := Option.bind_eq_some_iff.mp hrun'
        obtain ⟨between, -, hbetween, -⟩ := h.isPlanned_of_run hpos hmiddle
        obtain ⟨plan₁, hplan₁, hgrown⟩ := h.chosen_subset_of_run hpos hparallel (show n ≤ m by omega) hrun hmiddle hget
          hbetween hplanned.plan_eq fun k hk hlt => hno k hk (by omega)
        obtain ⟨-, -, -, hnew⟩ := h.chosen_of_step hpos hparallel hmiddle hrun' hbetween hget' hplan₁
          (hno m (by omega) (by omega))
        exact hnew htime i hwatches (hgrown hchosen)

def threeParallel : Scenario :=
  overPaths [[0, 2, 3, 1], [0, 4, 5, 1], [0, 6, 7, 1]] (by decide) (by decide) (by decide)

/-- With period 1 the attacker chooses node 2, then node 5 of another path, and starts over after the sink. -/
theorem planned_attacker_chooses_paths_once_threeParallel :
    PlannedRun threeParallel ⟨0, 0, 1, [[0, 2, 3, 1], [0, 4, 5, 1], [0, 6, 7, 1]], 1⟩ 3 1 1 firstNodes
      [threeParallel.plannedAttacker 3 1 1] 0 selectFirstNodes ∧
    Parallel [[0, 2, 3, 1], [0, 4, 5, 1], [0, 6, 7, 1]] 4 ∧
    ((threeParallel.run [threeParallel.plannedAttacker 3 1 1] (fun _ => .byIdentifier) selectFirstNodes 1).bind
      fun sim => sim.attackers[0]?.map Attacker.monitoredNodes) = some {5} ∧
    ∀ n sim attacker, threeParallel.run [threeParallel.plannedAttacker 3 1 1] (fun _ => .byIdentifier)
      selectFirstNodes n = some sim → sim.attackers[0]? = some attacker → attacker.monitoredNodes.card ≤ 1 := by
  have h : PlannedRun threeParallel ⟨0, 0, 1, [[0, 2, 3, 1], [0, 4, 5, 1], [0, 6, 7, 1]], 1⟩ 3 1 1 firstNodes
      [threeParallel.plannedAttacker 3 1 1] 0 selectFirstNodes :=
    plannedRun_firstNodes (List.mem_singleton.mpr rfl) rfl (by decide) 3 1 1
  have hparallel : Parallel [[0, 2, 3, 1], [0, 4, 5, 1], [0, 6, 7, 1]] 4 := ⟨by decide, by decide⟩
  obtain ⟨created, hcreated⟩ := Option.isSome_iff_exists.mp (h.create_spec.1.mpr (by decide))
  refine ⟨h, hparallel, by decide +kernel, ?_⟩
  exact (planned_attacker_chooses_paths_once threeParallel _ 3 1 1 4 firstNodes _ 0 (fun _ => .byIdentifier)
    selectFirstNodes h hparallel created hcreated).1

end Scenario

end OfTestbed.Simulator
