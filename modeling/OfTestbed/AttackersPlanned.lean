import OfTestbed.AttackersRuns
import OfTestbed.AttackersSchedule

/-!
The planned attacker over whole runs. It walks all paths of its target flow in step: at every multiple of its period it
looks at the node that each path has at the hop index, which grows with every tick. The plan starts over when the index
has passed the longest path or `N` paths have been recorded; in between, the index may have passed a shorter path.
-/

namespace OfTestbed.Simulator

open Lib

/-- What a planned attacker remembers from one selection to the next. -/
structure Plan where
  monitoredPaths : Finset Nat
  hopIndex : Nat

namespace Plan

def longest (paths : List Path) : Nat := (paths.map List.length).max?.getD 0

/-- The plan that a selection goes on with. -/
def resume (paths : List Path) (N : Nat) (plan : Plan) : Plan :=
  if Attacker.planIsExhausted (longest paths) N plan.hopIndex plan.monitoredPaths then ⟨∅, 1⟩ else plan

/-- `possible_nodes`, where the index is in range. -/
def population (paths : List Path) (plan : Plan) : Finset NodeId :=
  (paths.filterMap fun path => path[plan.hopIndex]?).toFinset \
    (((List.range paths.length).filter (· ∈ plan.monitoredPaths)).filterMap fun pathIdx =>
      paths[pathIdx]?.bind fun path => path[plan.hopIndex]?).toFinset

/-- The plan after the paths of the given nodes have been recorded: of each node the first path that visits it. -/
def record (paths : List Path) (nodes : Finset NodeId) (plan : Plan) : Plan :=
  { plan with monitoredPaths := plan.monitoredPaths ∪ nodes.image fun nodeId => paths.findIdx (nodeId ∈ ·) }

def InRange (paths : List Path) (plan : Plan) : Prop := ∀ path ∈ paths, plan.hopIndex < path.length

/-- The hop index has passed the end of a path, but not of every path, and `N` paths are not recorded. -/
structure Overruns (paths : List Path) (N : Nat) (plan : Plan) : Prop where
  passed : ∃ path ∈ paths, path.length ≤ plan.hopIndex
  within : ∃ path ∈ paths, plan.hopIndex < path.length
  card_ne : plan.monitoredPaths.card ≠ N

theorem longest_le_iff {paths : List Path} {bound : Nat} :
    longest paths ≤ bound ↔ ∀ path ∈ paths, path.length ≤ bound := by
  unfold longest
  cases hmax : (paths.map List.length).max? with
  | none =>
      rw [List.max?_eq_none_iff, List.map_eq_nil_iff] at hmax
      simp [hmax]
  | some length =>
      rw [Option.getD_some, List.max?_le_iff hmax, List.forall_mem_map]

/-- A plan that is exhausted starts over at the second node, so that the index is out of range only where it overruns
a path. -/
theorem inRange_resume_iff {paths : List Path} (hlength : ∀ path ∈ paths, 3 ≤ path.length) (N : Nat) (plan : Plan) :
    (plan.resume paths N).InRange paths ↔ ¬plan.Overruns paths N := by
  have hexhausted : Attacker.planIsExhausted (longest paths) N plan.hopIndex plan.monitoredPaths = true ↔
      (∀ path ∈ paths, path.length ≤ plan.hopIndex) ∨ plan.monitoredPaths.card = N := by
    rw [Attacker.planIsExhausted, Bool.or_eq_true, decide_eq_true_eq, decide_eq_true_eq, longest_le_iff]
  unfold resume
  split
  · rename_i hreset
    refine iff_of_true (fun path hpath => ?_) fun hover => ?_
    · have hlong := hlength path hpath
      show 1 < path.length
      omega
    · obtain ⟨path, hpath, hlt⟩ := hover.within
      rcases hexhausted.mp hreset with hall | hcard
      · exact absurd (hall path hpath) (not_le.mpr hlt)
      · exact hover.card_ne hcard
  · rename_i hgoes
    rw [hexhausted, not_or] at hgoes
    obtain ⟨hwithin, hcard⟩ := hgoes
    constructor
    · intro hrange hover
      obtain ⟨path, hpath, hle⟩ := hover.passed
      exact absurd (hrange path hpath) (not_lt.mpr hle)
    · intro hover path hpath
      by_contra hle
      push Not at hwithin
      exact hover ⟨⟨path, hpath, not_lt.mp hle⟩, hwithin, hcard⟩

theorem mapM_of_not_inRange {paths : List Path} {plan : Plan} (h : ¬plan.InRange paths) :
    (paths.mapM fun path => path[plan.hopIndex]?) = none := by
  unfold InRange at h
  push Not at h
  obtain ⟨path, hpath, hle⟩ := h
  exact mapM_eq_none_of_mem hpath (List.getElem?_eq_none hle)

/-- In range, both lookups of a selection succeed. -/
theorem mapM_of_inRange {paths : List Path} {plan : Plan} (h : plan.InRange paths) :
    (paths.mapM fun path => path[plan.hopIndex]?) = some (paths.filterMap fun path => path[plan.hopIndex]?) ∧
    (((List.range paths.length).filter (· ∈ plan.monitoredPaths)).mapM fun pathIdx =>
      paths[pathIdx]?.bind fun path => path[plan.hopIndex]?) =
      some (((List.range paths.length).filter (· ∈ plan.monitoredPaths)).filterMap fun pathIdx =>
        paths[pathIdx]?.bind fun path => path[plan.hopIndex]?) := by
  have hat : ∀ path ∈ paths, (path[plan.hopIndex]?).isSome := by
    intro path hpath
    rw [List.getElem?_eq_getElem (h path hpath)]
    rfl
  refine ⟨mapM_of_isSome hat, mapM_of_isSome fun pathIdx hidx => ?_⟩
  have hlt := List.mem_range.mp (List.mem_of_mem_filter hidx)
  rw [List.getElem?_eq_getElem hlt, Option.bind_some]
  exact hat _ (List.getElem_mem hlt)

/-- The fields of the resumed plan, as a selection computes them from the length of the longest path. -/
theorem resume_fields {paths : List Path} {length : Nat} (hlength : (paths.map List.length).max? = some length)
    (N : Nat) (plan : Plan) :
    (if Attacker.planIsExhausted length N plan.hopIndex plan.monitoredPaths then 1 else plan.hopIndex) =
      (plan.resume paths N).hopIndex ∧
    (if Attacker.planIsExhausted length N plan.hopIndex plan.monitoredPaths then ∅ else plan.monitoredPaths) =
      (plan.resume paths N).monitoredPaths := by
  have hlongest : longest paths = length := by
    rw [longest, hlength]
    rfl
  rw [resume, hlongest]
  constructor
  · split <;> rfl
  · split <;> rfl

end Plan

/-- The draw of a selection from the given nodes: `K` different indices, when there are more nodes than that. -/
def Draws.Samples (draws : Draws) (population : Finset NodeId) (K : Nat) : Prop :=
  K < population.card → draws.sample.length = K ∧ draws.sample.Nodup ∧ ∀ idx ∈ draws.sample, idx < population.card

namespace Attacker

def plan? (attacker : Attacker) : Option Plan :=
  match attacker.cls with
  | .planned _ monitoredPaths hopIndex => some ⟨monitoredPaths, hopIndex⟩
  | _ => none

theorem plan?_eq_some_iff {attacker : Attacker} {plan : Plan} :
    attacker.plan? = some plan ↔
      ∃ activePaths, attacker.cls = .planned activePaths plan.monitoredPaths plan.hopIndex := by
  unfold plan?
  split
  · rename_i activePaths monitoredPaths hopIndex hcls
    rw [hcls, Option.some_inj]
    constructor
    · rintro rfl
      exact ⟨activePaths, rfl⟩
    · rintro ⟨activePaths', heq⟩
      obtain ⟨-, rfl, rfl⟩ := AttackerClass.planned.inj heq
      rfl
  · rename_i hother
    refine iff_of_false (by simp) ?_
    rintro ⟨activePaths, heq⟩
    exact hother activePaths plan.monitoredPaths plan.hopIndex heq

def OnPaths (paths : List Path) (attacker : Attacker) : Prop :=
  ∀ nodeId ∈ attacker.monitoredNodes, ∃ path ∈ paths, nodeId ∈ path

/-- The nodes were chosen as the given plan says: `K` of those it leaves, or all if there are no more. -/
structure ChoosesFrom (paths : List Path) (K : Nat) (plan : Plan) (attacker : Attacker) : Prop where
  subset : attacker.monitoredNodes ⊆ plan.population paths
  card_eq : attacker.monitoredNodes.card = min K (plan.population paths).card
  plan_eq : attacker.plan? = some { plan with hopIndex := plan.hopIndex + 1 }

/-- Two states of an attacker with the same task. -/
structure SameTask (attacker attacker' : Attacker) : Prop where
  N_eq : attacker'.N = attacker.N
  K_eq : attacker'.K = attacker.K
  hopPeriod_eq : attacker'.hopPeriod = attacker.hopPeriod

theorem SameTask.trans {attacker attacker' attacker'' : Attacker} (h : SameTask attacker attacker')
    (h' : SameTask attacker' attacker'') : SameTask attacker attacker'' :=
  ⟨h'.N_eq.trans h.N_eq, h'.K_eq.trans h.K_eq, h'.hopPeriod_eq.trans h.hopPeriod_eq⟩

section Turn

variable {attacker : Attacker} {plan : Plan} {flows : Dict FlowId PathHoppingFlow} {flow : PathHoppingFlow}

/-- A node on a path is recorded under the first path that visits it. -/
theorem exists_captureShares_planned (hplan : attacker.plan? = some plan) (hflow : flows.get? 0 = some flow)
    {node : PathHoppingNode} (hnode : ∃ path ∈ flow.paths, node.nodeId ∈ path) (order : SetOrder PathHoppingShare) :
    ∃ attacker', captureShares order flows attacker node = some attacker' ∧ SameTask attacker attacker' ∧
      attacker'.monitoredNodes = attacker.monitoredNodes ∧
      attacker'.plan? = some (plan.record flow.paths {node.nodeId}) := by
  obtain ⟨activePaths, hcls⟩ := plan?_eq_some_iff.mp hplan
  have hfirst : flow.paths.findIdx? (node.nodeId ∈ ·) = some (flow.paths.findIdx (node.nodeId ∈ ·)) := by
    apply List.findIdx?_eq_some_of_exists
    obtain ⟨path, hpath, hmem⟩ := hnode
    exact ⟨path, hpath, decide_eq_true hmem⟩
  simp only [captureShares, hcls, hflow, hfirst, Option.bind_eq_bind, Option.bind_some, Option.pure_def]
  refine ⟨_, rfl, ⟨rfl, rfl, rfl⟩, rfl, ?_⟩
  rw [Plan.record, Finset.image_singleton, Finset.union_comm, ← Finset.insert_eq]
  rfl

/-- `monitor` records the paths of all monitored nodes, and raises nothing when they are on the paths. -/
theorem exists_monitor_planned (hplan : attacker.plan? = some plan) (hflow : flows.get? 0 = some flow)
    {nodes : Dict NodeId PathHoppingNode}
    (hpaths : attacker.OnPaths flow.paths)
    (hnodes : ∀ nodeId ∈ attacker.monitoredNodes, ∃ node, nodes.get? nodeId = some node ∧ node.nodeId = nodeId)
    (order : MonitorOrder) :
    ∃ attacker', attacker.monitor order nodes flows = some attacker' ∧ SameTask attacker attacker' ∧
      attacker'.plan? = some (plan.record flow.paths attacker.monitoredNodes) := by
  obtain ⟨attacker', hmonitor, htask, -, hplan'⟩ := foldlM_total
    (fun (attacker : Attacker) nodeId => do
      let node ← nodes.get? nodeId
      captureShares (order.resident nodeId) flows attacker node)
    (order.monitored.list attacker.monitoredNodes) attacker
    (fun done a => SameTask attacker a ∧ a.monitoredNodes = attacker.monitoredNodes ∧
      a.plan? = some (plan.record flow.paths done.toFinset))
    ⟨⟨rfl, rfl, rfl⟩, rfl, by simpa [Plan.record] using hplan⟩ (by
      rintro done nodeId rest a hsplit ⟨htask, hsame, hplan⟩
      have hmem : nodeId ∈ attacker.monitoredNodes := SetOrder.mem_of_split hsplit
      obtain ⟨node, hnode, rfl⟩ := hnodes nodeId hmem
      obtain ⟨a', hcapture, htask', hsame', hplan'⟩ := exists_captureShares_planned hplan hflow (hpaths _ hmem)
        (order.resident node.nodeId)
      refine ⟨a', ?_, htask.trans htask', hsame'.trans hsame, ?_⟩
      · rw [hnode]
        exact hcapture
      · rw [hplan', Plan.record, Plan.record, Plan.record, List.toFinset_append, Finset.image_union]
        simp [Finset.union_assoc])
  refine ⟨attacker', hmonitor, htask, ?_⟩
  rw [hplan']
  congr 2
  ext nodeId
  rw [List.mem_toFinset, order.monitored.mem_list]

theorem select_between (hplan : attacker.plan? = some plan) (hflow : flows.get? 0 = some flow) {time : Nat}
    (hp : 0 < attacker.hopPeriod) (htime : ¬attacker.hopPeriod ∣ time) (draws : Draws) (nodes : List NodeId) :
    ∃ attacker', attacker.selectMonitoredNodes draws nodes flows time = some attacker' ∧ SameTask attacker attacker' ∧
      attacker'.monitoredNodes = attacker.monitoredNodes ∧
      attacker'.plan? = some { plan with hopIndex := plan.hopIndex + 1 } := by
  obtain ⟨activePaths, hcls⟩ := plan?_eq_some_iff.mp hplan
  have hno : ¬time % attacker.hopPeriod = 0 := fun h => htime (Nat.dvd_of_mod_eq_zero h)
  simp only [selectMonitoredNodes, hcls, selectPlanned, hflow, isHopTime, hp.ne', hno, if_false, decide_false,
    Option.bind_eq_bind, Option.bind_some, Bool.false_eq_true, Option.pure_def]
  exact ⟨_, rfl, ⟨rfl, rfl, rfl⟩, rfl, rfl⟩

/-- What is drawn are `K` of the nodes. -/
theorem exists_choice {draws : Draws} {population : Finset NodeId} {K : Nat} (hdraw : draws.Samples population K)
    (hlarge : ¬population.card ≤ K) :
    ∃ drawn : List NodeId, choiceWithoutReplacement (draws.setOrder.list population) K draws.sample = some drawn ∧
      drawn.toFinset ⊆ population ∧ drawn.toFinset.card = K := by
  have hcard := not_le.mp hlarge
  obtain ⟨hcount, hdistinct, hlt⟩ := hdraw hcard
  have hlength := draws.setOrder.length_list population
  have hindices : ∀ idx ∈ draws.sample, ∃ nodeId, (draws.setOrder.list population)[idx]? = some nodeId :=
    fun idx hidx => ⟨_, List.getElem?_eq_getElem (hlength ▸ hlt idx hidx)⟩
  obtain ⟨drawn, hdrawn⟩ := exists_mapM hindices
  refine ⟨drawn, ?_, fun nodeId hnode => ?_, ?_⟩
  · rw [choiceWithoutReplacement, if_pos (hlength ▸ hcard.le), hdrawn]
  · obtain ⟨idx, -, hget⟩ := exists_of_mem_mapM hdrawn (List.mem_toFinset.mp hnode)
    exact (draws.setOrder.mem_list _ _).mp (List.mem_of_getElem? hget)
  · have hnodup : drawn.Nodup := nodup_of_mapM hdistinct (fun idx hidx idx' _ nodeId hget hget' => by
      rw [← hget'] at hget
      exact (List.getElem?_inj (hlength ▸ hlt idx hidx) (draws.setOrder.nodup population)).mp hget) hdrawn
    rw [List.toFinset_card_of_nodup hnodup, length_of_mapM hdrawn, hcount]

/-- A selection at a multiple of the period raises when the index of the resumed plan is out of range for a path, and
otherwise chooses from the nodes there. -/
theorem select_hop (hplan : attacker.plan? = some plan) (hflow : flows.get? 0 = some flow) (hne : flow.paths ≠ [])
    {time : Nat} (hp : 0 < attacker.hopPeriod) (htime : attacker.hopPeriod ∣ time) {draws : Draws}
    (hdraw : draws.Samples ((plan.resume flow.paths attacker.N).population flow.paths) attacker.K)
    (nodes : List NodeId) :
    (¬(plan.resume flow.paths attacker.N).InRange flow.paths →
      attacker.selectMonitoredNodes draws nodes flows time = none) ∧
    ((plan.resume flow.paths attacker.N).InRange flow.paths → ∃ attacker',
      attacker.selectMonitoredNodes draws nodes flows time = some attacker' ∧ SameTask attacker attacker' ∧
      attacker'.ChoosesFrom flow.paths attacker.K (plan.resume flow.paths attacker.N)) := by
  obtain ⟨activePaths, hcls⟩ := plan?_eq_some_iff.mp hplan
  have hyes : time % attacker.hopPeriod = 0 := Nat.mod_eq_zero_of_dvd htime
  obtain ⟨length, hlength⟩ : ∃ length, (flow.paths.map List.length).max? = some length := by
    apply Option.ne_none_iff_exists'.mp
    rw [Ne, List.max?_eq_none_iff, List.map_eq_nil_iff]
    exact hne
  obtain ⟨hindex, hrecorded⟩ := Plan.resume_fields hlength attacker.N plan
  generalize hresumed : plan.resume flow.paths attacker.N = resumed at *
  simp only [selectMonitoredNodes, hcls, selectPlanned, hflow, isHopTime, hp.ne', hyes, if_false, decide_true, if_true,
    Option.bind_eq_bind, Option.bind_some, hlength, hindex, hrecorded, Option.pure_def]
  refine ⟨fun hrange => ?_, fun hrange => ?_⟩
  · rw [Plan.mapM_of_not_inRange hrange]
    rfl
  · obtain ⟨hat, halready⟩ := Plan.mapM_of_inRange hrange
    rw [hat, Option.bind_some, halready, Option.bind_some]
    change ∃ attacker', (if (resumed.population flow.paths).card ≤ attacker.K then _ else _) = some attacker' ∧ _
    split
    · rename_i hfew
      exact ⟨_, rfl, ⟨rfl, rfl, rfl⟩, Finset.Subset.refl _, (Nat.min_eq_right hfew).symm, rfl⟩
    · rename_i hlarge
      obtain ⟨drawn, hdrawn, hsubset, hcard⟩ := exists_choice hdraw hlarge
      change ∃ attacker', (choiceWithoutReplacement (draws.setOrder.list (resumed.population flow.paths)) attacker.K
        draws.sample).bind _ = some attacker' ∧ _
      rw [hdrawn, Option.bind_some]
      have hmin : min attacker.K (resumed.population flow.paths).card = attacker.K := by omega
      exact ⟨_, rfl, ⟨rfl, rfl, rfl⟩, hsubset, hcard.trans hmin.symm, rfl⟩

theorem select_zero (hplan : attacker.plan? = some plan) (hp : attacker.hopPeriod = 0) (draws : Draws)
    (nodes : List NodeId) (flows : Dict FlowId PathHoppingFlow) (time : Nat) :
    attacker.selectMonitoredNodes draws nodes flows time = none := by
  obtain ⟨activePaths, hcls⟩ := plan?_eq_some_iff.mp hplan
  simp only [selectMonitoredNodes, hcls, selectPlanned, isHopTime, hp, if_true]
  cases flows.get? 0 <;> rfl

end Turn

end Attacker

/-! ### The plan over a run -/

theorem Plan.onPaths_of_mem_population {paths : List Path} {plan : Plan} {nodeId : NodeId}
    (h : nodeId ∈ plan.population paths) : ∃ path ∈ paths, nodeId ∈ path := by
  have hat := (Finset.mem_sdiff.mp h).1
  rw [List.mem_toFinset, List.mem_filterMap] at hat
  obtain ⟨path, hpath, hget⟩ := hat
  exact ⟨path, hpath, List.mem_of_getElem? hget⟩

theorem Attacker.ChoosesFrom.onPaths {paths : List Path} {K : Nat} {plan : Plan} {attacker : Attacker}
    (h : attacker.ChoosesFrom paths K plan) : attacker.OnPaths paths :=
  fun _ hnode => Plan.onPaths_of_mem_population (h.subset hnode)

/-- A planned attacker after `n` steps: its plan, and that it started over at a multiple of the period. -/
structure IsPlanned (paths : List Path) (N K hopPeriod n : Nat) (attacker : Attacker) (plan : Plan) : Prop where
  plan_eq : attacker.plan? = some plan
  N_eq : attacker.N = N
  K_eq : attacker.K = K
  hopPeriod_eq : attacker.hopPeriod = hopPeriod
  onPaths : attacker.OnPaths paths
  hopIndex_pos : 0 < plan.hopIndex
  startedAt : ∃ start, hopPeriod ∣ start ∧ plan.hopIndex + start = n + 2

/-- The draws of a planned attacker: from the nodes that its resumed plan leaves. -/
def SamplesPlan (paths : List Path) (draw : Nat → Attacker → Draws) : Prop :=
  ∀ time attacker plan, attacker.plan? = some plan →
    (draw time attacker).Samples ((plan.resume paths attacker.N).population paths) attacker.K

/-- The next turn is not at a multiple of the period, or the hop index overruns no path then. -/
def TurnFits (paths : List Path) (n : Nat) (attacker : Attacker) : Prop :=
  ∀ plan ∈ attacker.plan?, attacker.hopPeriod ∣ n + 1 →
    ¬(plan.record paths attacker.monitoredNodes).Overruns paths attacker.N

section Run

variable {paths : List Path} {N K hopPeriod n : Nat} {attacker : Attacker} {plan : Plan}
  {draw : Nat → Attacker → Draws}

theorem turnFits_iff (hlength : ∀ path ∈ paths, 3 ≤ path.length) (hplan : attacker.plan? = some plan) :
    TurnFits paths n attacker ↔ (attacker.hopPeriod ∣ n + 1 →
      ((plan.record paths attacker.monitoredNodes).resume paths attacker.N).InRange paths) := by
  rw [Plan.inRange_resume_iff hlength, TurnFits, hplan]
  simp only [Option.mem_some_iff, forall_eq']

/-- A fresh planned attacker. -/
def Attacker.newPlanned (N K hopPeriod : Nat) : Attacker := Attacker.new N K hopPeriod (.planned ∅ ∅ 1)

theorem create_planned_eq (draws : Draws) (graphNodes : List NodeId) (flows : Dict FlowId PathHoppingFlow) :
    Attacker.create draws N K graphNodes flows hopPeriod (.planned ∅ ∅ 1) =
      (Attacker.newPlanned N K hopPeriod).selectMonitoredNodes draws graphNodes flows 0 := rfl

/-- A planned attacker can be created for every period but 0, and then chooses from the second nodes. -/
theorem create_planned_spec (hlength : ∀ path ∈ paths, 3 ≤ path.length) (hne : paths ≠ [])
    {flows : Dict FlowId PathHoppingFlow} {flow : PathHoppingFlow} (hflow : flows.get? 0 = some flow)
    (hpaths : flow.paths = paths) (hdraw : SamplesPlan paths draw) (graphNodes : List NodeId) :
    ((Attacker.create (draw 0 (Attacker.newPlanned N K hopPeriod)) N K graphNodes flows hopPeriod
      (.planned ∅ ∅ 1)).isSome ↔ 0 < hopPeriod) ∧
    ∀ created, Attacker.create (draw 0 (Attacker.newPlanned N K hopPeriod)) N K graphNodes flows hopPeriod
      (.planned ∅ ∅ 1) = some created →
        Attacker.SameTask (Attacker.newPlanned N K hopPeriod) created ∧ created.ChoosesFrom paths K ⟨∅, 1⟩ := by
  subst hpaths
  have hplan : (Attacker.newPlanned N K hopPeriod).plan? = some ⟨∅, 1⟩ := rfl
  have hresumed : (⟨∅, 1⟩ : Plan).resume flow.paths N = ⟨∅, 1⟩ := by
    unfold Plan.resume
    split <;> rfl
  simp only [create_planned_eq]
  rcases Nat.eq_zero_or_pos hopPeriod with hzero | hpos
  · have hraises := Attacker.select_zero hplan hzero (draw 0 (Attacker.newPlanned N K hopPeriod)) graphNodes flows 0
    rw [hraises]
    exact ⟨iff_of_false (by simp) (by omega), fun created h => by cases h⟩
  · obtain ⟨created, hcreated, htask, hchosen⟩ := (Attacker.select_hop hplan hflow hne hpos (Nat.dvd_zero _)
      (hdraw 0 _ _ hplan) graphNodes).2 (by
        rw [show (Attacker.newPlanned N K hopPeriod).N = N from rfl, hresumed]
        intro path hpath
        have hlong := hlength path hpath
        show 1 < path.length
        omega)
    rw [show (Attacker.newPlanned N K hopPeriod).N = N from rfl, hresumed] at hchosen
    rw [hcreated]
    refine ⟨iff_of_true rfl hpos, fun created' heq => ?_⟩
    cases heq
    exact ⟨htask, hchosen⟩

theorem IsPlanned.of_creation (htask : Attacker.SameTask (Attacker.newPlanned N K hopPeriod) attacker)
    (hchosen : attacker.ChoosesFrom paths K ⟨∅, 1⟩) : IsPlanned paths N K hopPeriod 0 attacker ⟨∅, 2⟩ where
  plan_eq := hchosen.plan_eq
  N_eq := htask.N_eq
  K_eq := htask.K_eq
  hopPeriod_eq := htask.hopPeriod_eq
  onPaths := hchosen.onPaths
  hopIndex_pos := Nat.succ_pos _
  startedAt := ⟨0, Nat.dvd_zero _, rfl⟩

/-- A resumed plan started at a multiple of the period. -/
theorem exists_start_resume {start : Nat} (hstart : hopPeriod ∣ start) (hindex : plan.hopIndex + start = n + 2)
    (htime : hopPeriod ∣ n + 1) :
    ∃ start', hopPeriod ∣ start' ∧ (plan.resume paths N).hopIndex + 1 + start' = n + 1 + 2 := by
  unfold Plan.resume
  split
  · exact ⟨n + 1, htime, by dsimp only; omega⟩
  · exact ⟨start, hstart, by omega⟩

/-- What a turn in step `n` makes of a planned attacker. -/
structure IsTurn (paths : List Path) (n : Nat) (attacker : Attacker) (plan : Plan) (after : Attacker) : Prop where
  sameTask : attacker.SameTask after
  hop : attacker.hopPeriod ∣ n + 1 → after.ChoosesFrom paths attacker.K
    ((plan.record paths attacker.monitoredNodes).resume paths attacker.N)
  between : ¬attacker.hopPeriod ∣ n + 1 → after.monitoredNodes = attacker.monitoredNodes ∧
    after.plan? = some { plan.record paths attacker.monitoredNodes with hopIndex := plan.hopIndex + 1 }

theorem IsPlanned.of_turn (h : IsPlanned paths N K hopPeriod n attacker plan) {after : Attacker}
    (hturn : IsTurn paths n attacker plan after) : ∃ plan', IsPlanned paths N K hopPeriod (n + 1) after plan' := by
  obtain ⟨-, hN, hK, hperiod, honPaths, -, start, hstart, hindex⟩ := h
  subst hN hK hperiod
  by_cases htime : attacker.hopPeriod ∣ n + 1
  · have hchosen := hturn.hop htime
    exact ⟨_, hchosen.plan_eq, hturn.sameTask.N_eq, hturn.sameTask.K_eq, hturn.sameTask.hopPeriod_eq,
      hchosen.onPaths, Nat.succ_pos _, exists_start_resume hstart hindex htime⟩
  · obtain ⟨hsame, hplan⟩ := hturn.between htime
    refine ⟨_, hplan, hturn.sameTask.N_eq, hturn.sameTask.K_eq, hturn.sameTask.hopPeriod_eq, ?_, Nat.succ_pos _, start,
      hstart, ?_⟩
    · rw [Attacker.OnPaths, hsame]
      exact honPaths
    · show plan.hopIndex + 1 + start = n + 1 + 2
      omega

/-- The turn of a planned attacker in step `n`. -/
theorem IsPlanned.attackerTurn (h : IsPlanned paths N K hopPeriod n attacker plan) (hpos : 0 < hopPeriod)
    (hlength : ∀ path ∈ paths, 3 ≤ path.length) (hne : paths ≠ []) {moved : PathHoppingSimulation}
    (hticks : moved.ticks = n + 1) {flow : PathHoppingFlow} (hflow : moved.flows.get? 0 = some flow)
    (hpaths : flow.paths = paths)
    (hnodes : ∀ path ∈ paths, ∀ nodeId ∈ path, ∃ node, moved.nodes.get? nodeId = some node ∧ node.nodeId = nodeId)
    (hdraw : SamplesPlan paths draw) {select : Nat → Select} {idx : Nat}
    (hselect : ∀ nodes flows time attacker, select idx nodes flows time attacker =
      attacker.selectMonitoredNodes (draw time attacker) nodes flows time) (order : StepOrder) :
    ((moved.attackerTurn order select attacker idx).isSome ↔ TurnFits paths n attacker) ∧
      ∀ after, moved.attackerTurn order select attacker idx = some after → IsTurn paths n attacker plan after := by
  subst hpaths
  obtain ⟨hplan, hN, hK, hperiod, honPaths, -, -⟩ := h
  subst hN hK hperiod
  obtain ⟨monitored, hmonitor, htask, hrecorded⟩ := Attacker.exists_monitor_planned hplan hflow honPaths
    (fun nodeId hmem => by
      obtain ⟨path, hpath, hon⟩ := honPaths nodeId hmem
      exact hnodes path hpath nodeId hon) (order.monitoring idx)
  have hturn : moved.attackerTurn order select attacker idx =
      monitored.selectMonitoredNodes (draw (n + 1) monitored) moved.nodes.keys moved.flows (n + 1) := by
    rw [PathHoppingSimulation.attackerTurn, hmonitor, Option.bind_eq_bind, Option.bind_some, hselect, hticks]
  rw [hturn, turnFits_iff hlength hplan]
  by_cases htime : attacker.hopPeriod ∣ n + 1
  · obtain ⟨hraises, hchooses⟩ := Attacker.select_hop hrecorded hflow hne (htask.hopPeriod_eq ▸ hpos)
      (htask.hopPeriod_eq ▸ htime) (hdraw (n + 1) _ _ hrecorded) moved.nodes.keys
    rw [htask.N_eq] at hraises hchooses
    by_cases hrange : ((plan.record flow.paths attacker.monitoredNodes).resume flow.paths attacker.N).InRange
        flow.paths
    · obtain ⟨chosen, hchosen, htask', hfrom⟩ := hchooses hrange
      rw [hchosen]
      refine ⟨iff_of_true rfl fun _ => hrange, fun after heq => ?_⟩
      cases heq
      exact ⟨htask.trans htask', fun _ => htask.K_eq ▸ hfrom, fun hno => absurd htime hno⟩
    · rw [hraises hrange]
      exact ⟨iff_of_false (by simp) fun hfit => hrange (hfit htime), fun after heq => by cases heq⟩
  · obtain ⟨next, hnext, htask', hsame, hplan'⟩ := Attacker.select_between hrecorded hflow (htask.hopPeriod_eq ▸ hpos)
      (htask.hopPeriod_eq ▸ htime) (draw (n + 1) monitored) moved.nodes.keys
    rw [hnext]
    refine ⟨iff_of_true rfl fun hdvd => absurd hdvd htime, fun after heq => ?_⟩
    cases heq
    exact ⟨htask.trans htask', fun hdvd => absurd hdvd htime,
      fun _ => ⟨hsame.trans (Attacker.monitor_spec hmonitor).2.2, hplan'⟩⟩

end Run

namespace Scenario

variable {scenario : Scenario} {setup : FlowSetup} {attackers : List Attacker} {order : Nat → StepOrder}
  {select : Nat → Select} {idx n : Nat} {sim moved : PathHoppingSimulation}

/-- The target flow keeps its paths and the nodes on them stay, up to the turn of the attackers. -/
theorem network_of_run (hsetup : setup ∈ scenario.setups) (hrun : scenario.run attackers order select n = some sim)
    (hadvance : sim.advance (order n) (fun flowId => scenario.hops flowId (n + 1)) = some moved) :
    (∃ flow, moved.flows.get? setup.flowId = some flow ∧ flow.paths = setup.paths) ∧
      ∀ path ∈ setup.paths, ∀ nodeId ∈ path, ∃ node, moved.nodes.get? nodeId = some node ∧ node.nodeId = nodeId := by
  have hsame := (PathHoppingSimulation.SameNetwork.run hrun).advance hadvance
  constructor
  · have hpaths := hsame.flows setup.flowId
    rw [get?_flows_start.mpr ⟨setup, hsetup, rfl, rfl⟩] at hpaths
    exact Option.map_eq_some_iff.mp hpaths
  · intro path hpath nodeId hnode
    have hid := hsame.nodes nodeId
    rw [get?_nodes_start.mpr ⟨(scenario.wellFormed setup hsetup).inGraph path hpath nodeId hnode, rfl⟩] at hid
    exact Option.map_eq_some_iff.mp hid

/-- A run with a planned attacker at position `idx`, which selects once when it is created and then in every step. -/
structure PlannedRun (scenario : Scenario) (setup : FlowSetup) (N K hopPeriod : Nat) (draw : Nat → Attacker → Draws)
    (attackers : List Attacker) (idx : Nat) (select : Nat → Select) : Prop where
  setup_mem : setup ∈ scenario.setups
  target : setup.flowId = 0
  three_le_length : ∀ path ∈ setup.paths, 3 ≤ path.length
  samples : SamplesPlan setup.paths draw
  selects : ∀ nodes flows time attacker, select idx nodes flows time attacker =
    attacker.selectMonitoredNodes (draw time attacker) nodes flows time
  present : ∀ created, Attacker.create (draw 0 (Attacker.newPlanned N K hopPeriod)) N K scenario.graphNodes
    (scenario.start attackers).flows hopPeriod (.planned ∅ ∅ 1) = some created → attackers[idx]? = some created

/-- Creation and every turn of the run succeed, and the monitored nodes are on the paths all the time. -/
structure NeverFails (scenario : Scenario) (paths : List Path) (N K hopPeriod : Nat) (draw : Nat → Attacker → Draws)
    (attackers : List Attacker) (idx : Nat) (order : Nat → StepOrder) (select : Nat → Select) : Prop where
  creation : ∃ created, Attacker.create (draw 0 (Attacker.newPlanned N K hopPeriod)) N K scenario.graphNodes
    (scenario.start attackers).flows hopPeriod (.planned ∅ ∅ 1) = some created ∧ created.OnPaths paths
  turns : ∀ n moved attacker, scenario.Reaches attackers order select idx n moved attacker →
    attacker.OnPaths paths ∧ ∃ after, moved.attackerTurn (order n) select attacker idx = some after ∧
      after.OnPaths paths

namespace PlannedRun

variable {N K hopPeriod : Nat} {draw : Nat → Attacker → Draws}

theorem paths_ne_nil (h : PlannedRun scenario setup N K hopPeriod draw attackers idx select) : setup.paths ≠ [] := by
  obtain ⟨path, hpath⟩ := (scenario.wellFormed setup h.setup_mem).exists_path
  exact List.ne_nil_of_mem hpath

theorem create_spec (h : PlannedRun scenario setup N K hopPeriod draw attackers idx select) :
    ((Attacker.create (draw 0 (Attacker.newPlanned N K hopPeriod)) N K scenario.graphNodes
      (scenario.start attackers).flows hopPeriod (.planned ∅ ∅ 1)).isSome ↔ 0 < hopPeriod) ∧
    ∀ created, Attacker.create (draw 0 (Attacker.newPlanned N K hopPeriod)) N K scenario.graphNodes
      (scenario.start attackers).flows hopPeriod (.planned ∅ ∅ 1) = some created →
        created.ChoosesFrom setup.paths K ⟨∅, 1⟩ ∧ IsPlanned setup.paths N K hopPeriod 0 created ⟨∅, 2⟩ := by
  have hflow : (scenario.start attackers).flows.get? 0 = some (setup.started (scenario.hops setup.flowId 0)) :=
    get?_flows_start.mpr ⟨setup, h.setup_mem, h.target, rfl⟩
  obtain ⟨hsome, hspec⟩ := create_planned_spec h.three_le_length h.paths_ne_nil hflow rfl h.samples scenario.graphNodes
  refine ⟨hsome, fun created hcreated => ?_⟩
  obtain ⟨htask, hchosen⟩ := hspec created hcreated
  exact ⟨hchosen, IsPlanned.of_creation htask hchosen⟩

/-- The turn in step `n`, given the plan after `n` steps. -/
theorem turn_spec (h : PlannedRun scenario setup N K hopPeriod draw attackers idx select) (hpos : 0 < hopPeriod)
    (hrun : scenario.run attackers order select n = some sim)
    (hadvance : sim.advance (order n) (fun flowId => scenario.hops flowId (n + 1)) = some moved)
    {attacker : Attacker} {plan : Plan} (hplanned : IsPlanned setup.paths N K hopPeriod n attacker plan) :
    ((moved.attackerTurn (order n) select attacker idx).isSome ↔ TurnFits setup.paths n attacker) ∧
      ∀ after, moved.attackerTurn (order n) select attacker idx = some after →
        IsTurn setup.paths n attacker plan after := by
  obtain ⟨⟨flow, hflow, hpaths⟩, hnodes⟩ := network_of_run h.setup_mem hrun hadvance
  exact hplanned.attackerTurn hpos h.three_le_length h.paths_ne_nil (ticks_of_advance hrun hadvance)
    (h.target ▸ hflow) hpaths hnodes h.samples h.selects (order n)

theorem exists_created (h : PlannedRun scenario setup N K hopPeriod draw attackers idx select)
    (hpos : 0 < hopPeriod) :
    ∃ created, attackers[idx]? = some created ∧ created.ChoosesFrom setup.paths K ⟨∅, 1⟩ ∧
      IsPlanned setup.paths N K hopPeriod 0 created ⟨∅, 2⟩ := by
  obtain ⟨created, hcreated⟩ := Option.isSome_iff_exists.mp (h.create_spec.1.mpr hpos)
  exact ⟨created, h.present created hcreated, h.create_spec.2 created hcreated⟩

/-- From one step to the next the attacker takes its turn, and stays in its place. -/
theorem exists_turn (h : PlannedRun scenario setup N K hopPeriod draw attackers idx select) (hpos : 0 < hopPeriod)
    (hrun : scenario.run attackers order select n = some sim) {sim' : PathHoppingSimulation}
    (hrun' : scenario.run attackers order select (n + 1) = some sim') {attacker : Attacker} {plan : Plan}
    (hget : sim.attackers[idx]? = some attacker) (hplanned : IsPlanned setup.paths N K hopPeriod n attacker plan) :
    ∃ after, sim'.attackers[idx]? = some after ∧ IsTurn setup.paths n attacker plan after := by
  obtain ⟨before, hbefore, hstep⟩ := Option.bind_eq_some_iff.mp hrun'
  obtain rfl : before = sim := Option.some_inj.mp (hbefore.symm.trans hrun)
  obtain ⟨moved, hadvance, -, -, -, hlength, hturn⟩ := PathHoppingSimulation.step_attackers hstep
  have hlt : idx < sim'.attackers.length := hlength.symm ▸ (List.getElem?_eq_some_iff.mp hget).1
  have hafter := hturn idx
  rw [hget, Option.bind_some, List.getElem?_eq_getElem hlt] at hafter
  exact ⟨_, List.getElem?_eq_getElem hlt, (h.turn_spec hpos hrun hadvance hplanned).2 _ hafter.symm⟩

/-- The attacker stays in its place, with a plan that started at a multiple of the period. -/
theorem isPlanned_of_run (h : PlannedRun scenario setup N K hopPeriod draw attackers idx select) (hpos : 0 < hopPeriod)
    (hrun : scenario.run attackers order select n = some sim) :
    ∃ attacker plan, sim.attackers[idx]? = some attacker ∧ IsPlanned setup.paths N K hopPeriod n attacker plan := by
  induction n generalizing sim with
  | zero =>
      cases hrun
      obtain ⟨created, hget, -, hplanned⟩ := h.exists_created hpos
      exact ⟨created, _, hget, hplanned⟩
  | succ n ih =>
      obtain ⟨before, hbefore, -⟩ := Option.bind_eq_some_iff.mp hrun
      obtain ⟨attacker, plan, hget, hplanned⟩ := ih hbefore
      obtain ⟨after, hafter, hturn⟩ := h.exists_turn hpos hbefore hrun hget hplanned
      obtain ⟨plan', hplanned'⟩ := hplanned.of_turn hturn
      exact ⟨after, plan', hafter, hplanned'⟩

theorem isPlanned_of_reaches (h : PlannedRun scenario setup N K hopPeriod draw attackers idx select)
    (hpos : 0 < hopPeriod) {attacker : Attacker}
    (hreach : scenario.Reaches attackers order select idx n moved attacker) :
    ∃ plan, IsPlanned setup.paths N K hopPeriod n attacker plan ∧
      ((moved.attackerTurn (order n) select attacker idx).isSome ↔ TurnFits setup.paths n attacker) ∧
      ∀ after, moved.attackerTurn (order n) select attacker idx = some after → after.OnPaths setup.paths := by
  obtain ⟨sim, hrun, hadvance, hget⟩ := hreach
  obtain ⟨attacker', plan, hget', hplanned⟩ := h.isPlanned_of_run hpos hrun
  obtain rfl : attacker' = attacker := Option.some_inj.mp (hget'.symm.trans hget)
  obtain ⟨hsome, hnext⟩ := h.turn_spec hpos hrun hadvance hplanned
  refine ⟨plan, hplanned, hsome, fun after hafter => ?_⟩
  obtain ⟨plan', hplanned'⟩ := hplanned.of_turn (hnext after hafter)
  exact hplanned'.onPaths

end PlannedRun

/-- At the indices that the attacker can have when it hops, either all paths have ended or none has. -/
def EndTogether (paths : List Path) (hopPeriod : Nat) : Prop :=
  ∀ hops : Nat, (∃ path ∈ paths, path.length ≤ 1 + hopPeriod * hops) →
    ∀ path ∈ paths, path.length ≤ 1 + hopPeriod * hops

/-- When the attacker hops, its index is 1 plus a multiple of the period. -/
theorem turnFits_of_endTogether {paths : List Path} {N K hopPeriod : Nat} {attacker : Attacker} {plan : Plan}
    (hends : EndTogether paths hopPeriod) (hplanned : IsPlanned paths N K hopPeriod n attacker plan) :
    TurnFits paths n attacker := by
  intro plan' hplan' htime hover
  obtain rfl : plan = plan' := Option.some_inj.mp (hplanned.plan_eq.symm.trans hplan')
  obtain ⟨start, hstart, hindex⟩ := hplanned.startedAt
  have hpos := hplanned.hopIndex_pos
  rw [hplanned.hopPeriod_eq] at htime
  obtain ⟨hops, hhops⟩ : hopPeriod ∣ n + 1 - start := Nat.dvd_sub htime hstart
  have hat : (plan.record paths attacker.monitoredNodes).hopIndex = 1 + hopPeriod * hops := by
    show plan.hopIndex = _
    omega
  obtain ⟨path, hpath, hlt⟩ := hover.within
  have hle := hends hops (hat ▸ hover.passed) path hpath
  omega

/-- The planned attacker never fails in a run exactly when its period is positive and its hop index overruns a path in
no turn of the run; paths that end together are enough for that. -/
theorem planned_attacker_never_fails_iff (scenario : Scenario) (setup : FlowSetup) (N K hopPeriod : Nat)
    (draw : Nat → Attacker → Draws) (attackers : List Attacker) (idx : Nat) (order : Nat → StepOrder)
    (select : Nat → Select) (h : PlannedRun scenario setup N K hopPeriod draw attackers idx select) :
    (NeverFails scenario setup.paths N K hopPeriod draw attackers idx order select ↔ 0 < hopPeriod ∧
      ∀ n moved attacker, scenario.Reaches attackers order select idx n moved attacker →
        TurnFits setup.paths n attacker) ∧
    (0 < hopPeriod → EndTogether setup.paths hopPeriod →
      NeverFails scenario setup.paths N K hopPeriod draw attackers idx order select) := by
  have hiff : NeverFails scenario setup.paths N K hopPeriod draw attackers idx order select ↔ 0 < hopPeriod ∧
      ∀ n moved attacker, scenario.Reaches attackers order select idx n moved attacker →
        TurnFits setup.paths n attacker := by
    constructor
    · intro hnever
      obtain ⟨created, hcreated, -⟩ := hnever.creation
      have hpos := h.create_spec.1.mp (Option.isSome_of_eq_some hcreated)
      refine ⟨hpos, fun n moved attacker hreach => ?_⟩
      obtain ⟨plan, -, hsome, -⟩ := h.isPlanned_of_reaches hpos hreach
      obtain ⟨-, after, hafter, -⟩ := hnever.turns n moved attacker hreach
      exact hsome.mp (Option.isSome_of_eq_some hafter)
    · rintro ⟨hpos, hfits⟩
      obtain ⟨created, hcreated⟩ := Option.isSome_iff_exists.mp (h.create_spec.1.mpr hpos)
      refine ⟨⟨created, hcreated, (h.create_spec.2 created hcreated).1.onPaths⟩, fun n moved attacker hreach => ?_⟩
      obtain ⟨plan', hplanned', hsome, hafter⟩ := h.isPlanned_of_reaches hpos hreach
      obtain ⟨after, hturn⟩ := Option.isSome_iff_exists.mp (hsome.mpr (hfits n moved attacker hreach))
      exact ⟨hplanned'.onPaths, after, hturn, hafter after hturn⟩
  refine ⟨hiff, fun hpos hends => hiff.mpr ⟨hpos, fun n moved attacker hreach => ?_⟩⟩
  obtain ⟨plan, hplanned, -, -⟩ := h.isPlanned_of_reaches hpos hreach
  exact turnFits_of_endTogether hends hplanned

/-! ### Attackers that take the first nodes -/

/-- One flow from node 0 to node 1, which always hops to its first path. -/
def overPaths (paths : List Path) (hne : paths ≠ []) (hnodup : ∀ path ∈ paths, path.Nodup)
    (hends : ∀ path ∈ paths, path.head? = some 0 ∧ path.getLast? = some 1) : Scenario where
  graphNodes := paths.flatten.dedup
  graphNodes_nodup := List.nodup_dedup _
  setups := [⟨0, 0, 1, paths, 1⟩]
  flowIds_nodup := List.nodup_singleton _
  wellFormed := by
    intro setup hsetup
    obtain rfl := List.mem_singleton.mp hsetup
    refine ⟨hnodup, fun path hpath => (hends path hpath).1, fun path hpath => (hends path hpath).2,
      fun path hpath nodeId hnode => ?_, Nat.le_refl 1, List.length_pos_of_ne_nil hne⟩
    rw [List.mem_dedup, List.mem_flatten]
    exact ⟨path, hpath, hnode⟩
  hops := fun _ _ => [0]
  hops_valid := by
    intro setup hsetup _
    obtain rfl := List.mem_singleton.mp hsetup
    refine ⟨rfl, List.nodup_singleton _, fun pathIdx hidx => ?_⟩
    rw [List.mem_singleton.mp hidx]
    exact List.length_pos_of_ne_nil hne

def firstNodes (_ : Nat) (attacker : Attacker) : Draws :=
  ⟨List.range attacker.K, [], StepOrder.byIdentifier.nodes⟩

def selectFirstNodes (_ : Nat) : Select := fun nodes flows time attacker =>
  attacker.selectMonitoredNodes (firstNodes time attacker) nodes flows time

/-- The planned attacker as it is created in the scenario. -/
def plannedAttacker (scenario : Scenario) (N K hopPeriod : Nat) : Attacker :=
  (Attacker.create (firstNodes 0 (Attacker.newPlanned N K hopPeriod)) N K scenario.graphNodes (scenario.start []).flows
    hopPeriod (.planned ∅ ∅ 1)).getD (Attacker.newPlanned N K hopPeriod)

theorem samplesPlan_firstNodes (paths : List Path) : SamplesPlan paths firstNodes := by
  intro time attacker plan _ hcard
  refine ⟨List.length_range, List.nodup_range, fun idx hidx => ?_⟩
  exact Nat.lt_trans (List.mem_range.mp hidx) hcard

theorem plannedRun_firstNodes {scenario : Scenario} {setup : FlowSetup} (hsetup : setup ∈ scenario.setups)
    (htarget : setup.flowId = 0) (hlength : ∀ path ∈ setup.paths, 3 ≤ path.length) (N K hopPeriod : Nat) :
    PlannedRun scenario setup N K hopPeriod firstNodes [scenario.plannedAttacker N K hopPeriod] 0
      selectFirstNodes := by
  refine ⟨hsetup, htarget, hlength, samplesPlan_firstNodes setup.paths, fun _ _ _ _ => rfl,
    fun created hcreated => ?_⟩
  rw [show (scenario.start [scenario.plannedAttacker N K hopPeriod]).flows = (scenario.start []).flows from rfl]
    at hcreated
  rw [plannedAttacker, hcreated]
  rfl

def threeAndFour : Scenario :=
  overPaths [[0, 2, 1], [0, 3, 4, 1]] (by decide) (by decide) (by decide)

/-- With period 3 the index is 1 or 4 when the attacker hops. -/
theorem planned_attacker_never_fails_iff_threeAndFour :
    PlannedRun threeAndFour ⟨0, 0, 1, [[0, 2, 1], [0, 3, 4, 1]], 1⟩ 2 1 3 firstNodes
      [threeAndFour.plannedAttacker 2 1 3] 0 selectFirstNodes ∧
    NeverFails threeAndFour [[0, 2, 1], [0, 3, 4, 1]] 2 1 3 firstNodes [threeAndFour.plannedAttacker 2 1 3] 0
      (fun _ => .byIdentifier) selectFirstNodes := by
  have h : PlannedRun threeAndFour ⟨0, 0, 1, [[0, 2, 1], [0, 3, 4, 1]], 1⟩ 2 1 3 firstNodes
      [threeAndFour.plannedAttacker 2 1 3] 0 selectFirstNodes :=
    plannedRun_firstNodes (List.mem_singleton.mpr rfl) rfl (by decide) 2 1 3
  refine ⟨h, (planned_attacker_never_fails_iff threeAndFour _ 2 1 3 firstNodes _ 0 (fun _ => .byIdentifier)
    selectFirstNodes h).2 (by decide) fun hops hended => ?_⟩
  cases hops with
  | zero => exact absurd hended (by decide)
  | succ hops =>
      have hfour : ∀ path ∈ ([[0, 2, 1], [0, 3, 4, 1]] : List Path), path.length ≤ 4 := by decide
      intro path hpath
      have hle : path.length ≤ 4 := hfour path hpath
      omega

def threeAndFive : Scenario :=
  overPaths [[0, 2, 1], [0, 3, 4, 5, 1], [0, 6, 7, 8, 1]] (by decide) (by decide) (by decide)

/-- With period 1 the attacker has recorded two of the three paths when its index is 3, past the end of the first. -/
theorem index_past_short_path :
    ([[0, 2, 1], [0, 3, 4, 5, 1], [0, 6, 7, 8, 1]] : List Path).Pairwise (fun path path' =>
      ∀ nodeId ∈ Attacker.interior path, nodeId ∉ Attacker.interior path') ∧
    PlannedRun threeAndFive ⟨0, 0, 1, [[0, 2, 1], [0, 3, 4, 5, 1], [0, 6, 7, 8, 1]], 1⟩ 3 1 1 firstNodes
      [threeAndFive.plannedAttacker 3 1 1] 0 selectFirstNodes ∧
    (∃ moved attacker, threeAndFive.Reaches [threeAndFive.plannedAttacker 3 1 1] (fun _ => .byIdentifier)
      selectFirstNodes 0 1 moved attacker ∧
      moved.attackerTurn .byIdentifier selectFirstNodes attacker 0 = none) ∧
    ¬NeverFails threeAndFive [[0, 2, 1], [0, 3, 4, 5, 1], [0, 6, 7, 8, 1]] 3 1 1 firstNodes
      [threeAndFive.plannedAttacker 3 1 1] 0 (fun _ => .byIdentifier) selectFirstNodes := by
  have hraises : ∃ moved attacker, threeAndFive.Reaches [threeAndFive.plannedAttacker 3 1 1] (fun _ => .byIdentifier)
      selectFirstNodes 0 1 moved attacker ∧ moved.attackerTurn .byIdentifier selectFirstNodes attacker 0 = none := by
    have heval : ((threeAndFive.run [threeAndFive.plannedAttacker 3 1 1] (fun _ => .byIdentifier) selectFirstNodes
        1).bind fun sim => (sim.advance .byIdentifier (fun flowId => threeAndFive.hops flowId 2)).bind fun moved =>
          sim.attackers[0]?.map fun attacker =>
            (moved.attackerTurn .byIdentifier selectFirstNodes attacker 0).isNone) = some true := by
      decide +kernel
    obtain ⟨sim, hrun, heval⟩ := Option.bind_eq_some_iff.mp heval
    obtain ⟨moved, hadvance, heval⟩ := Option.bind_eq_some_iff.mp heval
    obtain ⟨attacker, hget, hnone⟩ := Option.map_eq_some_iff.mp heval
    exact ⟨moved, attacker, ⟨sim, hrun, hadvance, hget⟩, Option.isNone_iff_eq_none.mp hnone⟩
  refine ⟨by decide, plannedRun_firstNodes (List.mem_singleton.mpr rfl) rfl (by decide) 3 1 1, hraises,
    fun hnever => ?_⟩
  obtain ⟨moved, attacker, hreach, hnone⟩ := hraises
  obtain ⟨-, after, hafter, -⟩ := hnever.turns 1 moved attacker hreach
  cases hafter.symm.trans hnone

end Scenario

end OfTestbed.Simulator
