import OfTestbed.FlowAllocationCut
import OfTestbed.FlowAllocationGreedy
import OfTestbed.LibDefaultDict

/-!
Whole runs of `compute_mcf_flows`. In every round the solver is asked to split the flows drawn so far over the links,
freely and not along given paths, and the loop ends with the first draw for which that is impossible. Each flow puts its
rate at least on the links, so that the loop ends; and since the solver minimises the load of the fullest link, so do
the utilizations that are returned.
-/

namespace OfTestbed.FlowAllocation

open Lib

/-! ### The program -/

structure McfDraw where
  sourceNode : NodeId
  destinationNode : NodeId
  flowTxRate : ℚ

/-- The end points are nodes of the graph; they may be the same one. -/
structure McfDraw.Drawn (graph : Graph) (draw : McfDraw) : Prop where
  source_mem : draw.sourceNode ∈ graph.nodes
  destination_mem : draw.destinationNode ∈ graph.nodes
  lower_le : flowTxRateLowerBound ≤ draw.flowTxRate
  le_upper : draw.flowTxRate ≤ flowTxRateUpperBound

section Program

variable (graph : Graph) (draws : Nat → McfDraw) (solve : LinModel McfVar → Option (McfVar → ℚ))

/-- The loop of `compute_mcf_flows`, with the flows so far and the last solution. -/
def mcfLoop : Nat → List Flow → Option (McfVar → ℚ) → Option (List Flow × Option (McfVar → ℚ))
  | 0, _, _ => none
  | fuel + 1, flows, feasibleModel =>
      let draw := draws flows.length
      match solve (createMcfModel graph flows draw.sourceNode draw.destinationNode draw.flowTxRate) with
      | none => some (flows, feasibleModel)
      | some x =>
          mcfLoop fuel (potentialFlowSet flows draw.sourceNode draw.destinationNode draw.flowTxRate) (some x)

/-- The values of `U`, in both directions together. -/
def bidirectionalUtilization (flows : List Flow) (x : McfVar → ℚ) : Dict (NodeId × NodeId) ℚ :=
  graph.arcs.foldl (fun utilization link =>
    utilization.addTo (sortedLink link) ((linkUtilization flows link).eval x)) .empty

def computeMcfFlows (fuel : Nat) : Option (List Flow × Dict (NodeId × NodeId) ℚ) := do
  let (flows, feasibleModel) ← mcfLoop graph draws solve fuel [] none
  match feasibleModel with
  | none => return ([], .empty)
  | some x =>
      let flowsWithRoutes ← computeMcfFlowRoutes fuel flows (feasibleAllocations graph flows.length x)
      return (flowsWithRoutes, bidirectionalUtilization graph flows x)

end Program

/-! ### Flows that fit -/

/-- What the flows put on a link in one direction. -/
def arcLoad (flowSet : List Flow) (x : McfVar → ℚ) (link : NodeId × NodeId) : ℚ := (linkUtilization flowSet link).eval x

/-- The amounts send every flow from its source to its destination and load no link above the given part of its
capacity. -/
structure McfFits (graph : Graph) (flowSet : List Flow) (x : McfVar → ℚ) (level : ℚ) : Prop where
  nonneg : ∀ flowIdx < flowSet.length, ∀ link ∈ graph.arcs, 0 ≤ amount x flowIdx link
  conserved : ∀ constr ∈ conservationConstrs graph flowSet, constr.Holds x
  within : ∀ link ∈ graph.arcs, arcLoad flowSet x link + arcLoad flowSet x link.swap ≤ linkCapacity * level

/-- The model of a set of flows. -/
def mcfModel (graph : Graph) (flowSet : List Flow) : LinModel McfVar :=
  { vars := (flowKeys graph flowSet.length).map (fun (flowIdx, u, v) => (McfVar.F flowIdx u v, ({} : VarDecl))) ++
      [(.alpha, { ub := some 1 })]
    constrs := conservationConstrs graph flowSet ++
      (graph.arcs.map sortedLink).dedup.map (capacityConstr flowSet) }

theorem createMcfModel_eq (graph : Graph) (flows : List Flow) (source destination : NodeId) (rate : ℚ) :
    createMcfModel graph flows source destination rate =
      mcfModel graph (potentialFlowSet flows source destination rate) := rfl

section Model

variable {graph : Graph} {flowSet : List Flow} {x : McfVar → ℚ}

theorem capacityConstr_holds_iff {link : NodeId × NodeId} : (capacityConstr flowSet link).Holds x ↔
    arcLoad flowSet x link + arcLoad flowSet x link.swap ≤ linkCapacity * x .alpha := by
  simp only [capacityConstr, LinConstr.Holds, LinExpr.eval_add, LinExpr.eval_scale, LinExpr.eval_ofVar, arcLoad]

theorem arcLoad_sortedLink (link : NodeId × NodeId) :
    arcLoad flowSet x (sortedLink link) + arcLoad flowSet x (sortedLink link).swap =
      arcLoad flowSet x link + arcLoad flowSet x link.swap := by
  unfold sortedLink
  split
  · rfl
  · exact add_comm _ _

/-- The model says that the flows fit, at the level of `alpha`. -/
theorem feasible_mcfModel_iff : (mcfModel graph flowSet).Feasible x ↔
    McfFits graph flowSet x (x .alpha) ∧ 0 ≤ x .alpha ∧ x .alpha ≤ 1 := by
  constructor
  · intro h
    have halpha := h.vars (.alpha, { ub := some 1 }) (List.mem_append_right _ List.mem_cons_self)
    refine ⟨⟨fun flowIdx hlt link hlink => ?_, fun constr hconstr => ?_, fun link hlink => ?_⟩, halpha.1, ?_⟩
    · have hkey : (flowIdx, link.1, link.2) ∈ flowKeys graph flowSet.length := mem_flowKeys.mpr ⟨hlt, hlink⟩
      exact (h.vars (.F flowIdx link.1 link.2, {}) (List.mem_append_left _ (List.mem_map.mpr ⟨_, hkey, rfl⟩))).1
    · exact h.constrs constr (List.mem_append_left _ hconstr)
    · have hmem : sortedLink link ∈ (graph.arcs.map sortedLink).dedup :=
        List.mem_dedup.mpr (List.mem_map_of_mem hlink)
      have hholds := h.constrs _ (List.mem_append_right _ (List.mem_map_of_mem hmem))
      rwa [capacityConstr_holds_iff, arcLoad_sortedLink] at hholds
    · exact halpha.2 1 rfl
  · rintro ⟨hfits, hnonneg, hle⟩
    refine ⟨fun decl hdecl => ?_, fun constr hconstr => ?_⟩
    · obtain hvar | halpha := List.mem_append.mp hdecl
      · obtain ⟨⟨flowIdx, u, v⟩, hkey, rfl⟩ := List.mem_map.mp hvar
        obtain ⟨hlt, harc⟩ := mem_flowKeys.mp hkey
        exact ⟨hfits.nonneg flowIdx hlt (u, v) harc, by simp⟩
      · rw [List.mem_singleton.mp halpha]
        exact ⟨hnonneg, by simpa using hle⟩
    · obtain hconserved | hcapacity := List.mem_append.mp hconstr
      · exact hfits.conserved constr hconserved
      · obtain ⟨link, hlink, rfl⟩ := List.mem_map.mp hcapacity
        obtain ⟨arc, harc, rfl⟩ := List.mem_map.mp (List.mem_dedup.mp hlink)
        rw [capacityConstr_holds_iff, arcLoad_sortedLink]
        exact hfits.within arc harc

/-! ### The loop ends -/

theorem arcLoad_eq (link : NodeId × NodeId) :
    arcLoad flowSet x link = (flowSet.zipIdx.map fun e => e.1.flowTxRate * amount x e.2 link).sum := by
  simp [arcLoad, linkUtilization, amount, Function.comp_def]

/-- All of a flow leaves its source. -/
theorem one_le_sum_amount {flowIdx : Nat} {flow : Flow} (hnonneg : ∀ link ∈ graph.arcs, 0 ≤ amount x flowIdx link)
    (h : IsFlow graph.arcs.toFinset (amount x flowIdx) flow.sourceNode flow.destinationNode 1)
    (hne : flow.sourceNode ≠ flow.destinationNode) : 1 ≤ (graph.arcs.map (amount x flowIdx)).sum := by
  have hnet := h flow.sourceNode
  rw [if_pos rfl, if_neg hne, sub_zero, net] at hnet
  have hin : 0 ≤ ∑ link ∈ graph.arcs.toFinset, if link.2 = flow.sourceNode then amount x flowIdx link else 0 :=
    Finset.sum_nonneg (entering_nonneg (fun link hlink => hnonneg link (List.mem_toFinset.mp hlink)) _)
  have hout : (∑ link ∈ graph.arcs.toFinset, if link.1 = flow.sourceNode then amount x flowIdx link else 0) ≤
      ∑ link ∈ graph.arcs.toFinset, amount x flowIdx link := by
    refine Finset.sum_le_sum fun link hlink => ?_
    split
    · exact le_refl _
    · exact hnonneg link (List.mem_toFinset.mp hlink)
  have hsum := List.sum_toFinset (amount x flowIdx) (@Graph.arcs_nodup graph)
  linarith

theorem mem_arcs_of_mem_edges {u v : NodeId} (h : (u, v) ∈ graph.edges) : (u, v) ∈ graph.arcs := by
  have hfrom : ∀ todo seen, (u, v) ∈ graph.edgesFrom seen todo → v ∈ graph.neighbors u := by
    intro todo
    induction todo with
    | nil =>
        intro seen hmem
        cases hmem
    | cons w rest ih =>
        intro seen hmem
        rw [Graph.edgesFrom, List.mem_append] at hmem
        rcases hmem with hfirst | hrest
        · obtain ⟨v', hv', heq⟩ := List.mem_map.mp hfirst
          cases heq
          exact (List.mem_filter.mp hv').1
        · exact ih _ hrest
  exact Graph.mem_arcs.mpr (hfrom _ _ h)

theorem swap_mem_arcs {link : NodeId × NodeId} (h : link ∈ graph.arcs) : link.swap ∈ graph.arcs :=
  Graph.mem_arcs.mpr (graph.neighbors_symm _ _ (Graph.mem_arcs.mp h))

/-- A sum over some of the elements of a list, when all of its terms count. -/
theorem sum_le_of_subset {α : Type} {l m : List α} {f : α → ℚ} (hnodup : l.Nodup) (hsubset : l ⊆ m)
    (hnonneg : ∀ a ∈ m, 0 ≤ f a) : (l.map f).sum ≤ (m.map f).sum := by
  obtain ⟨l', hperm, hsublist⟩ := List.subperm_of_subset hnodup hsubset
  rw [← (hperm.map f).sum_eq]
  apply (hsublist.map f).sum_le_sum
  intro value hvalue
  obtain ⟨a, ha, rfl⟩ := List.mem_map.mp hvalue
  exact hnonneg a ha

/-- The links of the graph, counted in both directions. -/
theorem sum_arcs_le {f : NodeId × NodeId → ℚ} (hnonneg : ∀ link ∈ graph.arcs, 0 ≤ f link) :
    (graph.arcs.map f).sum ≤ (graph.edges.map fun link => f link + f link.swap).sum := by
  have hsubset : graph.arcs ⊆ graph.edges ++ graph.edges.map Prod.swap := by
    rintro ⟨u, v⟩ harc
    rcases Graph.mem_edges_of_mem_arcs harc with hedge | hedge
    · exact List.mem_append_left _ hedge
    · exact List.mem_append_right _ (List.mem_map.mpr ⟨_, hedge, rfl⟩)
  calc (graph.arcs.map f).sum ≤ ((graph.edges ++ graph.edges.map Prod.swap).map f).sum := by
        apply sum_le_of_subset Graph.arcs_nodup hsubset
        intro link hlink
        rcases List.mem_append.mp hlink with hedge | hswap
        · exact hnonneg link (mem_arcs_of_mem_edges hedge)
        · obtain ⟨link, hedge, rfl⟩ := List.mem_map.mp hswap
          exact hnonneg _ (swap_mem_arcs (mem_arcs_of_mem_edges hedge))
    _ = (graph.edges.map fun link => f link + f link.swap).sum := by
        rw [List.map_append, List.sum_append, List.map_map, ← List.sum_map_add]
        rfl

theorem McfFits.arcLoad_nonneg {level : ℚ} (h : McfFits graph flowSet x level)
    (hrates : ∀ flow ∈ flowSet, 0 ≤ flow.flowTxRate) {link : NodeId × NodeId} (hlink : link ∈ graph.arcs) :
    0 ≤ arcLoad flowSet x link := by
  rw [arcLoad_eq]
  apply List.sum_nonneg
  intro load hload
  obtain ⟨entry, hentry, rfl⟩ := List.mem_map.mp hload
  have hget := List.mk_mem_zipIdx_iff_getElem?.mp hentry
  exact mul_nonneg (hrates _ (List.mem_of_getElem? hget))
    (h.nonneg entry.2 (List.getElem?_eq_some_iff.mp hget).1 link hlink)

/-- Every flow puts its rate on the links at least. -/
theorem McfFits.sum_rates_le {level : ℚ} (h : McfFits graph flowSet x level)
    (hrates : ∀ flow ∈ flowSet, 0 ≤ flow.flowTxRate)
    (hends : ∀ flow ∈ flowSet, flow.sourceNode ∈ graph.nodes ∧ flow.destinationNode ∈ graph.nodes) :
    (flowSet.map Flow.flowTxRate).sum ≤ (graph.arcs.map (arcLoad flowSet x)).sum := by
  calc (flowSet.map Flow.flowTxRate).sum
      = (flowSet.zipIdx.map fun entry => entry.1.flowTxRate).sum := by
        conv_lhs => rw [← List.zipIdx_map_fst 0 flowSet, List.map_map]
        rfl
    _ ≤ (flowSet.zipIdx.map fun entry =>
          (graph.arcs.map fun link => entry.1.flowTxRate * amount x entry.2 link).sum).sum := by
        apply List.sum_le_sum
        intro entry hentry
        have hget := List.mk_mem_zipIdx_iff_getElem?.mp hentry
        have hmem := List.mem_of_getElem? hget
        have hflow := isFlow_of_conservation h.conserved hget (hends _ hmem).1 (hends _ hmem).2
        have hone := one_le_sum_amount (h.nonneg entry.2 (List.getElem?_eq_some_iff.mp hget).1) hflow
          (source_ne_destination h.conserved hget (hends _ hmem).1)
        rw [List.sum_map_mul_left]
        exact le_mul_of_one_le_right (hrates _ hmem) hone
    _ = (graph.arcs.map (arcLoad flowSet x)).sum := by
        rw [sum_map_sum_comm, funext (@arcLoad_eq flowSet x)]

/-- The rates of flows that fit are together at most the capacity of all links. -/
theorem McfFits.sum_rates_le_capacity (h : McfFits graph flowSet x 1)
    (hrates : ∀ flow ∈ flowSet, 0 ≤ flow.flowTxRate)
    (hends : ∀ flow ∈ flowSet, flow.sourceNode ∈ graph.nodes ∧ flow.destinationNode ∈ graph.nodes) :
    (flowSet.map Flow.flowTxRate).sum ≤ graph.edges.length * linkCapacity := by
  have hload : ∀ link ∈ graph.arcs, 0 ≤ arcLoad flowSet x link := fun link hlink => h.arcLoad_nonneg hrates hlink
  calc (flowSet.map Flow.flowTxRate).sum ≤ (graph.arcs.map (arcLoad flowSet x)).sum := h.sum_rates_le hrates hends
    _ ≤ (graph.edges.map fun link => arcLoad flowSet x link + arcLoad flowSet x link.swap).sum := sum_arcs_le hload
    _ ≤ graph.edges.length * linkCapacity := by
        rw [← nsmul_eq_mul, ← List.length_map fun link => arcLoad flowSet x link + arcLoad flowSet x link.swap]
        apply List.sum_le_card_nsmul
        intro load hmem
        obtain ⟨link, hlink, rfl⟩ := List.mem_map.mp hmem
        have hwithin := h.within link (mem_arcs_of_mem_edges hlink)
        rwa [mul_one] at hwithin

end Model

/-- The flow that is tried in a round. -/
def mcfFlow (draw : McfDraw) : Flow where
  sourceNode := draw.sourceNode
  destinationNode := draw.destinationNode
  flowTxRate := draw.flowTxRate
  paths := []
  splittingRatio := []

/-- The flows of the rounds before. -/
def mcfFlows (draws : Nat → McfDraw) (turn : Nat) : List Flow := (List.range turn).map fun turn => mcfFlow (draws turn)

/-- `model_for_this_round`. -/
def mcfRoundModel (graph : Graph) (draws : Nat → McfDraw) (turn : Nat) : LinModel McfVar :=
  createMcfModel graph (mcfFlows draws turn) (draws turn).sourceNode (draws turn).destinationNode
    (draws turn).flowTxRate

/-- The solver answers the models of the rounds, as documented; the objective is `alpha`. -/
def AnswersMcf (graph : Graph) (draws : Nat → McfDraw) (solve : LinModel McfVar → Option (McfVar → ℚ)) : Prop :=
  ∀ turn, (mcfRoundModel graph draws turn).Answer .alpha (solve (mcfRoundModel graph draws turn))

/-- The flows of the first `count` draws fit one after the other, and the next one not any more. -/
structure McfAdmits (graph : Graph) (draws : Nat → McfDraw) (count : Nat) : Prop where
  admitted : ∀ turn < count, ∃ x, McfFits graph (mcfFlows draws (turn + 1)) x 1
  rejected : ¬∃ x, McfFits graph (mcfFlows draws (count + 1)) x 1

section Runs

variable {graph : Graph} {draws : Nat → McfDraw} {solve : LinModel McfVar → Option (McfVar → ℚ)}

theorem length_mcfFlows (turn : Nat) : (mcfFlows draws turn).length = turn := by
  rw [mcfFlows, List.length_map, List.length_range]

theorem potentialFlowSet_mcfFlows (turn : Nat) :
    potentialFlowSet (mcfFlows draws turn) (draws turn).sourceNode (draws turn).destinationNode
      (draws turn).flowTxRate = mcfFlows draws (turn + 1) := by
  rw [mcfFlows, mcfFlows, List.range_succ, List.map_append]
  rfl

theorem mcfRoundModel_eq (turn : Nat) :
    mcfRoundModel graph draws turn = mcfModel graph (mcfFlows draws (turn + 1)) := by
  rw [mcfRoundModel, createMcfModel_eq, potentialFlowSet_mcfFlows]

theorem AnswersMcf.answer (h : AnswersMcf graph draws solve) (turn : Nat) :
    (mcfModel graph (mcfFlows draws (turn + 1))).Answer .alpha
      (solve (mcfModel graph (mcfFlows draws (turn + 1)))) := by
  rw [← mcfRoundModel_eq]
  exact h turn

theorem drawn_of_mem_mcfFlows (hdraws : ∀ turn, (draws turn).Drawn graph) {turn : Nat} {flow : Flow}
    (h : flow ∈ mcfFlows draws turn) : ∃ turn' < turn, flow = mcfFlow (draws turn') ∧ (draws turn').Drawn graph := by
  obtain ⟨turn', hturn, rfl⟩ := List.mem_map.mp h
  exact ⟨turn', List.mem_range.mp hturn, rfl, hdraws turn'⟩

theorem rate_nonneg_of_mem_mcfFlows (hdraws : ∀ turn, (draws turn).Drawn graph) (turn : Nat) :
    ∀ flow ∈ mcfFlows draws turn, 0 ≤ flow.flowTxRate := by
  intro flow hflow
  obtain ⟨turn', -, rfl, hdraw⟩ := drawn_of_mem_mcfFlows hdraws hflow
  exact le_trans (by norm_num [flowTxRateLowerBound]) hdraw.lower_le

theorem ends_of_mem_mcfFlows (hdraws : ∀ turn, (draws turn).Drawn graph) (turn : Nat) :
    ∀ flow ∈ mcfFlows draws turn, flow.sourceNode ∈ graph.nodes ∧ flow.destinationNode ∈ graph.nodes := by
  intro flow hflow
  obtain ⟨turn', -, rfl, hdraw⟩ := drawn_of_mem_mcfFlows hdraws hflow
  exact ⟨hdraw.source_mem, hdraw.destination_mem⟩

theorem count_le_of_mcfFits (hdraws : ∀ turn, (draws turn).Drawn graph) {count : Nat} {x : McfVar → ℚ}
    (h : McfFits graph (mcfFlows draws count) x 1) :
    (count : ℚ) ≤ graph.edges.length * linkCapacity / flowTxRateLowerBound := by
  have hlower : (0 : ℚ) < flowTxRateLowerBound := by norm_num [flowTxRateLowerBound]
  rw [le_div_iff₀ hlower]
  calc (count : ℚ) * flowTxRateLowerBound
      = ((mcfFlows draws count).map fun _ => flowTxRateLowerBound).sum := by
        rw [List.map_const', List.sum_replicate, length_mcfFlows, nsmul_eq_mul]
    _ ≤ ((mcfFlows draws count).map Flow.flowTxRate).sum := by
        apply List.sum_le_sum
        intro flow hflow
        obtain ⟨turn, -, rfl, hdraw⟩ := drawn_of_mem_mcfFlows hdraws hflow
        exact hdraw.lower_le
    _ ≤ graph.edges.length * linkCapacity :=
        h.sum_rates_le_capacity (rate_nonneg_of_mem_mcfFlows hdraws count) (ends_of_mem_mcfFlows hdraws count)

theorem exists_mcfAdmits (hdraws : ∀ turn, (draws turn).Drawn graph) :
    ∃ count : Nat, (count : ℚ) ≤ graph.edges.length * linkCapacity / flowTxRateLowerBound ∧
      McfAdmits graph draws count := by
  classical
  have hexists : ∃ count, ¬∃ x, McfFits graph (mcfFlows draws (count + 1)) x 1 := by
    refine ⟨10 * graph.edges.length, ?_⟩
    rintro ⟨x, hx⟩
    have hcount := count_le_of_mcfFits hdraws hx
    rw [flowCount_bound, Nat.cast_le] at hcount
    omega
  refine ⟨Nat.find hexists, ?_, fun turn hturn => not_not.mp (Nat.find_min hexists hturn), Nat.find_spec hexists⟩
  cases hfound : Nat.find hexists with
  | zero =>
      have hcap : (0 : ℚ) ≤ graph.edges.length * linkCapacity := mul_nonneg (Nat.cast_nonneg _) zero_le_one
      exact_mod_cast div_nonneg hcap (by norm_num [flowTxRateLowerBound])
  | succ count =>
      have hlt : count < Nat.find hexists := by omega
      obtain ⟨x, hx⟩ := not_not.mp (Nat.find_min hexists hlt)
      exact count_le_of_mcfFits hdraws hx

/-! ### What the loop returns -/

section Levels

variable {flowSet : List Flow} {x : McfVar → ℚ} {level : ℚ}

theorem McfFits.mono (h : McfFits graph flowSet x level) {level' : ℚ} (hle : level ≤ level') :
    McfFits graph flowSet x level' := by
  refine ⟨h.nonneg, h.conserved, fun link hlink => le_trans (h.within link hlink) ?_⟩
  exact mul_le_mul_of_nonneg_left hle (by norm_num [linkCapacity])

/-- The amounts alone say whether flows fit, not what an assignment has for `alpha`. -/
theorem McfFits.congr (h : McfFits graph flowSet x level) {y : McfVar → ℚ}
    (heq : ∀ flowIdx link, amount y flowIdx link = amount x flowIdx link) : McfFits graph flowSet y level := by
  have hload : arcLoad flowSet y = arcLoad flowSet x := by
    funext link
    simp only [arcLoad_eq, heq]
  refine ⟨fun flowIdx hlt link hlink => ?_, fun constr hconstr => ?_, ?_⟩
  · rw [heq]
    exact h.nonneg flowIdx hlt link hlink
  · have hnet : ∀ flowIdx, amount y flowIdx = amount x flowIdx := fun flowIdx => funext (heq flowIdx)
    obtain ⟨entry, hentry, hmem⟩ := List.mem_flatMap.mp hconstr
    obtain ⟨u, hu, rfl⟩ := List.mem_map.mp hmem
    rw [conservationConstr_holds_iff, hnet, ← conservationConstr_holds_iff]
    exact h.conserved _ hconstr
  · rw [hload]
    exact h.within

/-- At any level that the variable `alpha` may have the model is feasible when the flows fit. -/
theorem McfFits.exists_feasible (h : McfFits graph flowSet x level) (hnonneg : 0 ≤ level) (hle : level ≤ 1) :
    ∃ y, (mcfModel graph flowSet).Feasible y ∧ y .alpha = level := by
  let y : McfVar → ℚ := fun var => if var = .alpha then level else x var
  have halpha : y .alpha = level := if_pos rfl
  have hamount : ∀ flowIdx link, amount y flowIdx link = amount x flowIdx link := by
    intro flowIdx link
    simp [amount, y]
  refine ⟨y, feasible_mcfModel_iff.mpr ?_, halpha⟩
  rw [halpha]
  exact ⟨h.congr hamount, hnonneg, hle⟩

theorem isSome_answer_iff {answer : Option (McfVar → ℚ)} (hanswer : (mcfModel graph flowSet).Answer .alpha answer) :
    answer.isSome ↔ ∃ x, McfFits graph flowSet x 1 := by
  cases answer with
  | some x =>
      obtain ⟨hfits, -, hle⟩ := feasible_mcfModel_iff.mp hanswer.feasible
      exact iff_of_true rfl ⟨x, hfits.mono hle⟩
  | none =>
      refine iff_of_false (by simp) ?_
      rintro ⟨x, hx⟩
      obtain ⟨y, hy, -⟩ := hx.exists_feasible zero_le_one le_rfl
      rcases hanswer with hinfeasible | hunbounded
      · exact hinfeasible y hy
      · obtain ⟨z, hz, hneg⟩ := hunbounded 0
        exact absurd (feasible_mcfModel_iff.mp hz).2.1 (not_le.mpr hneg)

/-- An optimal assignment has the least level of all. -/
theorem alpha_le_of_optimal (h : (mcfModel graph flowSet).Optimal .alpha x)
    (hrates : ∀ flow ∈ flowSet, 0 ≤ flow.flowTxRate) {link : NodeId × NodeId} (hlink : link ∈ graph.arcs)
    {y : McfVar → ℚ} (hfits : McfFits graph flowSet y level) : x .alpha ≤ level := by
  have hnonneg : 0 ≤ level := by
    have hload := add_nonneg (hfits.arcLoad_nonneg hrates hlink) (hfits.arcLoad_nonneg hrates (swap_mem_arcs hlink))
    have hwithin := le_trans hload (hfits.within link hlink)
    rwa [linkCapacity, one_mul] at hwithin
  rcases le_total level 1 with hle | hge
  · obtain ⟨z, hz, halpha⟩ := hfits.exists_feasible hnonneg hle
    exact halpha ▸ h.le z hz
  · exact le_trans (feasible_mcfModel_iff.mp h.feasible).2.2 hge

end Levels

theorem mcfLoop_succ (fuel turn : Nat) (feasibleModel : Option (McfVar → ℚ)) :
    mcfLoop graph draws solve (fuel + 1) (mcfFlows draws turn) feasibleModel =
      match solve (mcfModel graph (mcfFlows draws (turn + 1))) with
      | none => some (mcfFlows draws turn, feasibleModel)
      | some x => mcfLoop graph draws solve fuel (mcfFlows draws (turn + 1)) (some x) := by
  rw [mcfLoop]
  simp only [length_mcfFlows, createMcfModel_eq, potentialFlowSet_mcfFlows]

/-- The solution of the last round before. -/
def lastMcfSolution (graph : Graph) (draws : Nat → McfDraw) (solve : LinModel McfVar → Option (McfVar → ℚ)) :
    Nat → Option (McfVar → ℚ)
  | 0 => none
  | turn + 1 => solve (mcfModel graph (mcfFlows draws (turn + 1)))

/-- The loop admits the flows that fit and keeps the solution of its last round. -/
theorem mcfLoop_eq (hsolve : AnswersMcf graph draws solve) {count : Nat} (hcount : McfAdmits graph draws count)
    {fuel : Nat} (hfuel : count < fuel) : mcfLoop graph draws solve fuel [] none =
      some (mcfFlows draws count, lastMcfSolution graph draws solve count) := by
  -- the rounds up to a turn have been run, and what is left are the rounds from there on
  have hrounds : ∀ turn ≤ count, mcfLoop graph draws solve fuel [] none =
      mcfLoop graph draws solve (fuel - turn) (mcfFlows draws turn) (lastMcfSolution graph draws solve turn) := by
    intro turn
    induction turn with
    | zero => exact fun _ => rfl
    | succ turn ih =>
        intro hturn
        obtain ⟨x, hx⟩ := Option.isSome_iff_exists.mp
          ((isSome_answer_iff (hsolve.answer turn)).mpr (hcount.admitted turn hturn))
        have hfuel' : fuel - turn = (fuel - (turn + 1)) + 1 := by omega
        rw [ih (by omega), hfuel', mcfLoop_succ, lastMcfSolution, hx]
  have hnone : solve (mcfModel graph (mcfFlows draws (count + 1))) = none := by
    rw [← Option.not_isSome_iff_eq_none, isSome_answer_iff (hsolve.answer count)]
    exact hcount.rejected
  have hfuel' : fuel - count = (fuel - count - 1) + 1 := by omega
  rw [hrounds count le_rfl, hfuel', mcfLoop_succ, hnone]

/-! ### What is returned -/

/-- What the values of a link's arcs sum up to. -/
def bothWays (graph : Graph) (load : NodeId × NodeId → ℚ) (link : NodeId × NodeId) : ℚ :=
  ((graph.arcs.filter fun arc => sortedLink arc = sortedLink link).map load).sum

theorem bothWays_le {load : NodeId × NodeId → ℚ} (hnonneg : ∀ link ∈ graph.arcs, 0 ≤ load link)
    {link : NodeId × NodeId} (hlink : link ∈ graph.arcs) :
    bothWays graph load link ≤ load link + load link.swap := by
  have hsubset : (graph.arcs.filter fun arc => sortedLink arc = sortedLink link) ⊆ [link, link.swap] := by
    rintro ⟨u, v⟩ harc
    rcases sortedLink_eq_iff.mp (of_decide_eq_true (List.mem_filter.mp harc).2) with ⟨rfl, rfl⟩ | ⟨rfl, rfl⟩
    · exact List.mem_cons_self
    · exact List.mem_cons_of_mem _ List.mem_cons_self
  have hboth : ∀ arc ∈ [link, link.swap], 0 ≤ load arc := by
    intro arc harc
    rcases List.mem_pair.mp harc with rfl | rfl
    · exact hnonneg _ hlink
    · exact hnonneg _ (swap_mem_arcs hlink)
  simpa [bothWays] using sum_le_of_subset (Graph.arcs_nodup.filter _) hsubset hboth

theorem bothWays_nonneg {load : NodeId × NodeId → ℚ} (hnonneg : ∀ link ∈ graph.arcs, 0 ≤ load link)
    (link : NodeId × NodeId) : 0 ≤ bothWays graph load link := by
  apply List.sum_nonneg
  intro value hvalue
  obtain ⟨arc, harc, rfl⟩ := List.mem_map.mp hvalue
  exact hnonneg arc (List.mem_filter.mp harc).1

theorem get?_bidirectionalUtilization (flows : List Flow) (x : McfVar → ℚ) {link : NodeId × NodeId}
    (hlink : link ∈ graph.arcs) :
    (bidirectionalUtilization graph flows x).get? (sortedLink link) = some (bothWays graph (arcLoad flows x) link) := by
  rw [bidirectionalUtilization, Dict.get?_foldl_addTo, if_pos (List.mem_map_of_mem hlink)]
  rfl

/-- The amounts that the flows put on the links, as a whole as low as possible: no other way to send the flows keeps
every link below the part of its capacity that the fullest link has here. -/
structure LeastUtilized (graph : Graph) (flowSet : List Flow) (x : McfVar → ℚ) : Prop where
  fits : McfFits graph flowSet x 1
  nonneg : ∀ link ∈ graph.arcs, 0 ≤ bothWays graph (arcLoad flowSet x) link
  least : ∀ y level, McfFits graph flowSet y level →
    ∀ link ∈ graph.arcs, bothWays graph (arcLoad flowSet x) link ≤ linkCapacity * level

theorem leastUtilized_of_optimal {flowSet : List Flow} {x : McfVar → ℚ}
    (h : (mcfModel graph flowSet).Optimal .alpha x) (hrates : ∀ flow ∈ flowSet, 0 ≤ flow.flowTxRate) :
    LeastUtilized graph flowSet x := by
  obtain ⟨hfits, -, hle⟩ := feasible_mcfModel_iff.mp h.feasible
  have hload : ∀ link ∈ graph.arcs, 0 ≤ arcLoad flowSet x link := fun link hlink => hfits.arcLoad_nonneg hrates hlink
  refine ⟨hfits.mono hle, fun link _ => bothWays_nonneg hload link, fun y level hy link hlink => ?_⟩
  calc bothWays graph (arcLoad flowSet x) link
      ≤ arcLoad flowSet x link + arcLoad flowSet x link.swap := bothWays_le hload hlink
    _ ≤ linkCapacity * x .alpha := hfits.within link hlink
    _ ≤ linkCapacity * level :=
        mul_le_mul_of_nonneg_left (alpha_le_of_optimal h hrates hlink hy) (by norm_num [linkCapacity])

/-- A flow with the paths on which it is sent. -/
structure RoutedAs (graph : Graph) (draw : McfDraw) (flow : Flow) : Prop where
  source_eq : flow.sourceNode = draw.sourceNode
  destination_eq : flow.destinationNode = draw.destinationNode
  rate_eq : flow.flowTxRate = draw.flowTxRate
  paths_ne : flow.paths ≠ []
  routes : ∀ path ∈ flow.paths,
    Route (fun u v => (u, v) ∈ graph.arcs) draw.sourceNode draw.destinationNode path

theorem exists_carrying_route (hdraws : ∀ turn, (draws turn).Drawn graph) (hedges : graph.edges.length < 1000)
    {count : Nat} {x : McfVar → ℚ} (hfits : McfFits graph (mcfFlows draws count) x 1) {turn : Nat}
    (hturn : turn < count) :
    (draws turn).sourceNode ≠ (draws turn).destinationNode ∧
    ∃ path, Route (fun u v => (u, v) ∈ graph.arcs ∧ 1 / 1000 < amount x turn (u, v)) (draws turn).sourceNode
      (draws turn).destinationNode path := by
  have hget : (mcfFlows draws count)[turn]? = some (mcfFlow (draws turn)) := by
    rw [mcfFlows, List.getElem?_map, List.getElem?_range hturn]
    rfl
  have hdraw := hdraws turn
  have hflow := isFlow_of_conservation hfits.conserved hget hdraw.source_mem hdraw.destination_mem
  refine ⟨source_ne_destination hfits.conserved hget hdraw.source_mem, ?_⟩
  exact exists_route_of_conservation hedges (hfits.nonneg turn (by rwa [length_mcfFlows])) hflow hdraw.source_mem

/-- Every admitted flow gets a path. -/
theorem exists_routed (hdraws : ∀ turn, (draws turn).Drawn graph) (hedges : graph.edges.length < 1000) {count : Nat}
    {x : McfVar → ℚ} (hfits : McfFits graph (mcfFlows draws count) x 1) :
    ∃ bound routed, (∀ fuel ≥ bound, computeMcfFlowRoutes fuel (mcfFlows draws count)
        (feasibleAllocations graph (mcfFlows draws count).length x) = some routed) ∧
      routed.length = count ∧ ∀ turn < count, ∃ flow, routed[turn]? = some flow ∧ RoutedAs graph (draws turn) flow := by
  have harcs : (mcfFlows draws count).length = 0 ∨ graph.arcs ≠ [] := by
    rw [length_mcfFlows]
    rcases Nat.eq_zero_or_pos count with hzero | hpos
    · exact Or.inl hzero
    · obtain ⟨hne, path, hpath⟩ := exists_carrying_route hdraws hedges hfits hpos
      obtain ⟨link, hmem⟩ := List.exists_mem_of_ne_nil _ (exists_mem_pairwise_of_ne hpath.head hpath.last hne)
      exact Or.inr (List.ne_nil_of_mem (isChain_iff_forall_mem_pairwise.mp hpath.chain link hmem).1)
  obtain ⟨bound, routed, hrun, hlength, hrouted⟩ := exists_computeMcfFlowRoutes (mcfFlows draws count) x harcs
  refine ⟨bound, routed, hrun, hlength.trans (length_mcfFlows count), fun turn hturn => ?_⟩
  have hlt : turn < (mcfFlows draws count).length := by rwa [length_mcfFlows]
  have hget : (mcfFlows draws count)[turn]? = some (mcfFlow (draws turn)) := by
    rw [mcfFlows, List.getElem?_map, List.getElem?_range hturn]
    rfl
  obtain ⟨routes, hflow, hroutes⟩ := hrouted turn _ hget
  obtain ⟨hne, path, hpath⟩ := exists_carrying_route hdraws hedges hfits hturn
  refine ⟨_, hflow, rfl, rfl, rfl, ?_, fun path' hmem => ?_⟩
  · have hmem :
        (path, leastShare (feasibleAllocations graph (mcfFlows draws count).length x) turn 1 path) ∈ routes := by
      refine (hroutes.mem_iff _ _).mpr ⟨?_, hpath.mono fun u v hlink => ?_, rfl⟩
      · rintro rfl
        exact hne (by simpa [mcfFlow] using hpath.last)
      · exact (hop_feasibleAllocations_iff hlt).mpr hlink
    exact List.ne_nil_of_mem (List.mem_map.mpr ⟨_, hmem, rfl⟩)
  · obtain ⟨⟨path', ratio⟩, hpair, rfl⟩ := List.mem_map.mp hmem
    exact ((hroutes.mem_iff path' ratio).mp hpair).2.1.mono fun u v hhop =>
      ((hop_feasibleAllocations_iff hlt).mp hhop).1

/-- What is returned for the admitted flows. -/
theorem exists_computeMcfFlows_eq (hedges : graph.edges.length < 1000) (hdraws : ∀ turn, (draws turn).Drawn graph)
    (hsolve : AnswersMcf graph draws solve) {count : Nat} (hcount : McfAdmits graph draws count) :
    ∃ (routed : List Flow) (utilization : Dict (NodeId × NodeId) ℚ),
      (∃ bound, ∀ fuel ≥ bound, computeMcfFlows graph draws solve fuel = some (routed, utilization)) ∧
      routed.length = count ∧ (∀ turn < count, ∃ flow, routed[turn]? = some flow ∧ RoutedAs graph (draws turn) flow) ∧
      (0 < count → ∃ x, LeastUtilized graph (mcfFlows draws count) x ∧ ∀ link ∈ graph.arcs,
        utilization.get? (sortedLink link) = some (bothWays graph (arcLoad (mcfFlows draws count) x) link)) := by
  cases count with
  | zero =>
      refine ⟨[], .empty, ⟨1, fun fuel hfuel => ?_⟩, rfl, by simp, by simp⟩
      rw [computeMcfFlows, mcfLoop_eq hsolve hcount hfuel]
      rfl
  | succ turn =>
      obtain ⟨x, hx⟩ := Option.isSome_iff_exists.mp ((isSome_answer_iff (hsolve.answer turn)).mpr
        (hcount.admitted turn (Nat.lt_succ_self turn)))
      have hoptimal : (mcfModel graph (mcfFlows draws (turn + 1))).Optimal .alpha x := by
        have hanswer := hsolve.answer turn
        rwa [hx] at hanswer
      have hleast := leastUtilized_of_optimal hoptimal (rate_nonneg_of_mem_mcfFlows hdraws _)
      obtain ⟨bound, routed, hrun, hlength, hrouted⟩ := exists_routed hdraws hedges hleast.fits
      refine ⟨routed, bidirectionalUtilization graph (mcfFlows draws (turn + 1)) x,
        ⟨bound + (turn + 2), fun fuel hfuel => ?_⟩, hlength, hrouted, fun _ => ⟨x, hleast, fun link hlink => ?_⟩⟩
      · rw [computeMcfFlows, mcfLoop_eq hsolve hcount (by omega), Option.bind_eq_bind, Option.bind_some]
        simp only [lastMcfSolution, hx]
        rw [hrun fuel (by omega), Option.bind_eq_bind, Option.bind_some]
        rfl
      · exact get?_bidirectionalUtilization _ x hlink

end Runs

/-- `compute_mcf_flows` returns. It admits the flows in the order in which they are drawn, up to the first that does not
fit any more, at most as many as the links can carry of the lowest rate. On fewer than 1000 links each of them is
returned with a path at least, and the utilization of every link is what the flows put on it in both directions; no way
to send the same flows leaves all links below the fullest link of this one. -/
theorem mcf_flows_admitted (graph : Graph) (hedges : graph.edges.length < 1000) (draws : Nat → McfDraw)
    (hdraws : ∀ turn, (draws turn).Drawn graph) (solve : LinModel McfVar → Option (McfVar → ℚ))
    (hsolve : AnswersMcf graph draws solve) :
    ∃ (count : Nat) (routed : List Flow) (utilization : Dict (NodeId × NodeId) ℚ),
      (count : ℚ) ≤ graph.edges.length * linkCapacity / flowTxRateLowerBound ∧ McfAdmits graph draws count ∧
      (∃ bound, ∀ fuel ≥ bound, computeMcfFlows graph draws solve fuel = some (routed, utilization)) ∧
      routed.length = count ∧ (∀ turn < count, ∃ flow, routed[turn]? = some flow ∧ RoutedAs graph (draws turn) flow) ∧
      (0 < count → ∃ x, LeastUtilized graph (mcfFlows draws count) x ∧ ∀ link ∈ graph.arcs,
        utilization.get? (sortedLink link) = some (bothWays graph (arcLoad (mcfFlows draws count) x) link)) := by
  obtain ⟨count, hbound, hcount⟩ := exists_mcfAdmits hdraws
  obtain ⟨routed, utilization, hreturned⟩ := exists_computeMcfFlows_eq hedges hdraws hsolve hcount
  exact ⟨count, routed, utilization, hbound, hcount, hreturned⟩

/-! ### A network with one link -/

/-- The same flow is drawn in every round. -/
def overTheLink (_ : Nat) : McfDraw := ⟨0, 1, 2 / 5⟩

theorem drawn_overTheLink (turn : Nat) : (overTheLink turn).Drawn oneLink where
  source_mem := by show (0 : NodeId) ∈ oneLink.nodes; decide
  destination_mem := by show (1 : NodeId) ∈ oneLink.nodes; decide
  lower_le := by norm_num [overTheLink, flowTxRateLowerBound]
  le_upper := by norm_num [overTheLink, flowTxRateUpperBound]

/-- All flows cross the link in its direction. -/
def straightOver (var : McfVar) : ℚ :=
  match var with
  | .F _ 0 1 => 1
  | _ => 0

theorem arcs_oneLink : oneLink.arcs = [(0, 1), (1, 0)] := by decide

theorem sum_rates_overTheLink (count : Nat) :
    ((mcfFlows overTheLink count).map Flow.flowTxRate).sum = count * (2 / 5) := by
  simp [mcfFlows, mcfFlow, overTheLink]

theorem arcLoad_straightOver (count : Nat) :
    arcLoad (mcfFlows overTheLink count) straightOver (0, 1) = count * (2 / 5) ∧
      arcLoad (mcfFlows overTheLink count) straightOver (1, 0) = 0 := by
  constructor
  · rw [← sum_rates_overTheLink, ← List.zipIdx_map_fst 0 (mcfFlows overTheLink count), List.map_map, arcLoad_eq,
      List.zipIdx_map_fst]
    simp [amount, straightOver, Function.comp_def]
  · rw [arcLoad_eq]
    simp [amount, straightOver]

theorem straightOver_fits (count : Nat) :
    McfFits oneLink (mcfFlows overTheLink count) straightOver (count * (2 / 5)) := by
  refine ⟨fun flowIdx _ link hlink => ?_, fun constr hconstr => ?_, fun link hlink => ?_⟩
  · rw [arcs_oneLink] at hlink
    rcases List.mem_pair.mp hlink with rfl | rfl <;> simp [amount, straightOver]
  · obtain ⟨⟨flow, flowIdx⟩, hentry, hmem⟩ := List.mem_flatMap.mp hconstr
    obtain ⟨u, hu, rfl⟩ := List.mem_map.mp hmem
    obtain ⟨turn, -, hflow, -⟩ := drawn_of_mem_mcfFlows drawn_overTheLink (mem_of_mem_zipIdx hentry)
    have hzero : oneLink.neighbors 0 = [1] := by decide
    have hone : oneLink.neighbors 1 = [0] := by decide
    have hends : u = 0 ∨ u = 1 := List.mem_pair.mp hu
    change flow = mcfFlow (overTheLink turn) at hflow
    subst hflow
    rcases hends with rfl | rfl <;>
      simp [conservationConstr, mcfFlow, overTheLink, egressFlow, ingressFlow, hzero, hone, LinConstr.Holds,
        straightOver]
  · obtain ⟨hforth, hback⟩ := arcLoad_straightOver count
    rw [arcs_oneLink] at hlink
    rcases List.mem_pair.mp hlink with rfl | rfl <;>
      simp only [Prod.swap_prod_mk, hforth, hback, linkCapacity] <;> linarith

/-- No way to send the flows puts less than their rates on the link. -/
theorem sum_rates_le_bothWays {count : Nat} {x : McfVar → ℚ} {level : ℚ}
    (h : McfFits oneLink (mcfFlows overTheLink count) x level) :
    count * (2 / 5) ≤ bothWays oneLink (arcLoad (mcfFlows overTheLink count) x) (0, 1) := by
  have hsum := h.sum_rates_le (rate_nonneg_of_mem_mcfFlows drawn_overTheLink _)
    (ends_of_mem_mcfFlows drawn_overTheLink _)
  have hall : (oneLink.arcs.filter fun arc => sortedLink arc = sortedLink (0, 1)) = oneLink.arcs := by decide
  rw [sum_rates_overTheLink] at hsum
  rwa [bothWays, hall]

theorem rates_le_level {count : Nat} {x : McfVar → ℚ} {level : ℚ}
    (h : McfFits oneLink (mcfFlows overTheLink count) x level) : count * (2 / 5) ≤ level := by
  have hload : ∀ link ∈ oneLink.arcs, 0 ≤ arcLoad (mcfFlows overTheLink count) x link := fun link hlink =>
    h.arcLoad_nonneg (rate_nonneg_of_mem_mcfFlows drawn_overTheLink _) hlink
  calc (count : ℚ) * (2 / 5) ≤ bothWays oneLink (arcLoad (mcfFlows overTheLink count) x) (0, 1) :=
        sum_rates_le_bothWays h
    _ ≤ arcLoad (mcfFlows overTheLink count) x (0, 1) + arcLoad (mcfFlows overTheLink count) x (0, 1).swap :=
        bothWays_le hload (by decide)
    _ ≤ linkCapacity * level := h.within (0, 1) (by decide)
    _ = level := one_mul level

theorem answersMcf_overTheLink : AnswersMcf oneLink overTheLink (LinModel.solve .alpha) := by
  intro turn
  rw [mcfRoundModel_eq]
  apply LinModel.answer_solve
  intro x hx
  -- the rates are a bound for every assignment, and crossing the link directly reaches it
  have hbound : ∀ y, (mcfModel oneLink (mcfFlows overTheLink (turn + 1))).Feasible y →
      ((turn + 1 : Nat) : ℚ) * (2 / 5) ≤ y .alpha := fun y hy => rates_le_level (feasible_mcfModel_iff.mp hy).1
  have hle : ((turn + 1 : Nat) : ℚ) * (2 / 5) ≤ 1 := le_trans (hbound x hx) (feasible_mcfModel_iff.mp hx).2.2
  obtain ⟨y, hy, halpha⟩ := (straightOver_fits (turn + 1)).exists_feasible (by positivity) hle
  exact ⟨y, hy, fun z hz => halpha ▸ hbound z hz⟩

/-- Two flows of two fifths fit over the link. -/
theorem overTheLink_fits_iff (count : Nat) : (∃ x, McfFits oneLink (mcfFlows overTheLink count) x 1) ↔ count ≤ 2 := by
  constructor
  · rintro ⟨x, hx⟩
    have hrates := rates_le_level hx
    by_contra hlt
    have hthree : (3 : ℚ) ≤ count := by exact_mod_cast Nat.lt_of_not_le hlt
    linarith
  · intro hle
    have htwo : (count : ℚ) ≤ 2 := by exact_mod_cast hle
    exact ⟨straightOver, (straightOver_fits count).mono (by linarith)⟩

theorem mcf_flows_admitted_oneLink : ∃ routed utilization,
    (∃ bound, ∀ fuel ≥ bound,
      computeMcfFlows oneLink overTheLink (LinModel.solve .alpha) fuel = some (routed, utilization)) ∧
    routed.length = 2 ∧ utilization.get? (0, 1) = some (4 / 5) := by
  obtain ⟨count, routed, utilization, -, hcount, hrun, hlength, -, hutilization⟩ := mcf_flows_admitted oneLink
    (by decide) overTheLink drawn_overTheLink (LinModel.solve .alpha) answersMcf_overTheLink
  have htwo : count = 2 := by
    have hrejected := hcount.rejected
    rw [overTheLink_fits_iff] at hrejected
    by_contra hne
    have hadmitted := (overTheLink_fits_iff _).mp (hcount.admitted 2 (by omega))
    omega
  subst htwo
  obtain ⟨x, hleast, hget⟩ := hutilization (by decide)
  refine ⟨routed, utilization, hrun, hlength, (hget (0, 1) (by decide)).trans (congrArg some ?_)⟩
  have hlower := sum_rates_le_bothWays hleast.fits
  have hupper := hleast.least straightOver _ (straightOver_fits 2) (0, 1) (by decide)
  rw [linkCapacity, one_mul] at hupper
  rw [le_antisymm hupper hlower]
  norm_num

end OfTestbed.FlowAllocation
