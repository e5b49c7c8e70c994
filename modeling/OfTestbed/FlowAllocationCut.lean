import OfTestbed.FlowAllocationRoutes

/-!
What the conservation constraints of the multi-commodity flow model mean: every flow is a flow of value 1 from
its source to its destination, so it crosses every cut with value 1, and on fewer than 1000 links some route
carries more than a thousandth everywhere.
-/

namespace OfTestbed.FlowAllocation

open Lib

/-- The share of a flow on a link in an assignment. -/
def amount (x : McfVar → ℚ) (flowIdx : Nat) (link : NodeId × NodeId) : ℚ := x (.F flowIdx link.1 link.2)

section

variable {graph : Graph} {x : McfVar → ℚ} {flowIdx : Nat}

theorem sum_egress (u : NodeId) :
    (∑ link ∈ graph.arcs.toFinset, if link.1 = u then amount x flowIdx link else 0) =
      (egressFlow graph flowIdx u).eval x := by
  have hout : graph.arcs.toFinset.filter (fun link => link.1 = u) =
      (graph.neighbors u).toFinset.image fun v => (u, v) := by
    ext ⟨a, b⟩
    simp only [Finset.mem_filter, List.mem_toFinset, Graph.mem_arcs, Finset.mem_image, Prod.mk.injEq]
    constructor
    · rintro ⟨hb, rfl⟩
      exact ⟨b, hb, rfl, rfl⟩
    · rintro ⟨v, hv, rfl, rfl⟩
      exact ⟨hv, rfl⟩
  rw [← Finset.sum_filter, hout, Finset.sum_image fun v _ v' _ heq => (Prod.mk.inj heq).2,
    List.sum_toFinset _ (graph.neighbors_nodup u)]
  simp [egressFlow, amount, Function.comp_def]

theorem sum_ingress (u : NodeId) :
    (∑ link ∈ graph.arcs.toFinset, if link.2 = u then amount x flowIdx link else 0) =
      (ingressFlow graph flowIdx u).eval x := by
  have hin : graph.arcs.toFinset.filter (fun link => link.2 = u) =
      (graph.neighbors u).toFinset.image fun v => (v, u) := by
    ext ⟨a, b⟩
    simp only [Finset.mem_filter, List.mem_toFinset, Graph.mem_arcs, Finset.mem_image, Prod.mk.injEq]
    constructor
    · rintro ⟨hb, rfl⟩
      exact ⟨a, graph.neighbors_symm a b hb, rfl, rfl⟩
    · rintro ⟨v, hv, rfl, rfl⟩
      exact ⟨graph.neighbors_symm u v hv, rfl⟩
  rw [← Finset.sum_filter, hin, Finset.sum_image fun v _ v' _ heq => (Prod.mk.inj heq).1,
    List.sum_toFinset _ (graph.neighbors_nodup u)]
  simp [ingressFlow, amount, Function.comp_def]

theorem net_eq (u : NodeId) : net graph.arcs.toFinset (amount x flowIdx) u =
    (egressFlow graph flowIdx u).eval x - (ingressFlow graph flowIdx u).eval x := by
  rw [net, sum_egress, sum_ingress]

theorem net_of_notMem {u : NodeId} (h : u ∉ graph.nodes) : net graph.arcs.toFinset (amount x flowIdx) u = 0 := by
  have hnone : graph.neighbors u = [] := by
    rw [List.eq_nil_iff_forall_not_mem]
    intro v hv
    exact h (graph.mem_nodes v u (graph.neighbors_symm u v hv))
  simp [net_eq, egressFlow, ingressFlow, hnone]

/-- The constraint at a node fixes what the node keeps. -/
theorem conservationConstr_holds_iff {flow : Flow} {u : NodeId} :
    (conservationConstr graph flowIdx flow u).Holds x ↔ net graph.arcs.toFinset (amount x flowIdx) u =
      if u = flow.sourceNode then 1 else if u = flow.destinationNode then -1 else 0 := by
  rw [net_eq, conservationConstr]
  split
  · simp [LinConstr.Holds]
  · split
    · simp only [LinConstr.Holds, LinExpr.eval_sub, LinExpr.eval_ofConst]
      constructor <;> intro h <;> linarith
    · simp only [LinConstr.Holds, LinExpr.eval_sub, LinExpr.eval_ofConst]
      constructor <;> intro h <;> linarith

theorem conservationConstr_of_mem {flows : List Flow}
    (h : ∀ constr ∈ conservationConstrs graph flows, constr.Holds x)
    {flow : Flow} (hflow : flows[flowIdx]? = some flow) {u : NodeId} (hu : u ∈ graph.nodes) :
    (conservationConstr graph flowIdx flow u).Holds x := by
  apply h
  rw [conservationConstrs, List.mem_flatMap]
  exact ⟨(flow, flowIdx), List.mk_mem_zipIdx_iff_getElem?.mpr hflow, List.mem_map.mpr ⟨u, hu, rfl⟩⟩

variable {flows : List Flow} {flow : Flow}

/-- No flow satisfies the constraints with its source as destination: the nodes would keep 1 in total. -/
theorem source_ne_destination (h : ∀ constr ∈ conservationConstrs graph flows, constr.Holds x)
    (hflow : flows[flowIdx]? = some flow) (hsource : flow.sourceNode ∈ graph.nodes) :
    flow.sourceNode ≠ flow.destinationNode := by
  intro heq
  have hnet : ∀ u ∈ graph.nodes.toFinset, net graph.arcs.toFinset (amount x flowIdx) u =
      if u = flow.sourceNode then 1 else 0 := by
    intro u hu
    rw [conservationConstr_holds_iff.mp (conservationConstr_of_mem h hflow (List.mem_toFinset.mp hu)), ← heq]
    split <;> simp_all
  have hcut := sum_net_eq_cut graph.arcs.toFinset (amount x flowIdx) graph.nodes.toFinset
  rw [Finset.sum_congr rfl hnet, Finset.sum_ite_eq', if_pos (List.mem_toFinset.mpr hsource)] at hcut
  have hinside : ∀ link ∈ graph.arcs.toFinset, link.1 ∈ graph.nodes.toFinset ∧
      link.2 ∈ graph.nodes.toFinset := by
    intro link hlink
    simpa using Graph.mem_nodes_of_mem_arcs (List.mem_toFinset.mp hlink)
  have hout : outOf graph.arcs.toFinset (amount x flowIdx) graph.nodes.toFinset = 0 :=
    Finset.sum_eq_zero fun link hlink => if_neg fun hleave => hleave.2 (hinside link hlink).2
  have hin : into graph.arcs.toFinset (amount x flowIdx) graph.nodes.toFinset = 0 :=
    Finset.sum_eq_zero fun link hlink => if_neg fun henter => henter.1 (hinside link hlink).1
  rw [hout, hin] at hcut
  norm_num at hcut

theorem isFlow_of_conservation (h : ∀ constr ∈ conservationConstrs graph flows, constr.Holds x)
    (hflow : flows[flowIdx]? = some flow) (hsource : flow.sourceNode ∈ graph.nodes)
    (hdest : flow.destinationNode ∈ graph.nodes) :
    IsFlow graph.arcs.toFinset (amount x flowIdx) flow.sourceNode flow.destinationNode 1 := by
  have hne := source_ne_destination h hflow hsource
  intro u
  by_cases hu : u ∈ graph.nodes
  · rw [conservationConstr_holds_iff.mp (conservationConstr_of_mem h hflow hu)]
    split
    · rename_i hus
      rw [if_neg (hus ▸ hne), sub_zero]
    · split <;> norm_num
  · have hus : u ≠ flow.sourceNode := fun heq => hu (heq ▸ hsource)
    have hut : u ≠ flow.destinationNode := fun heq => hu (heq ▸ hdest)
    rw [net_of_notMem hu, if_neg hus, if_neg hut, sub_zero]

/-- Every edge leaves a set of nodes in one direction at most. -/
theorem card_leaving_le (S : Finset NodeId) :
    (graph.arcs.toFinset.filter fun link => link.1 ∈ S ∧ link.2 ∉ S).card ≤ graph.edges.length := by
  refine le_trans ?_ (List.toFinset_card_le graph.edges)
  refine Finset.card_le_card_of_injOn (fun link => if link ∈ graph.edges then link else link.swap) ?_ ?_
  · rintro ⟨u, v⟩ hlink
    have harc := List.mem_toFinset.mp (Finset.mem_filter.mp hlink).1
    simp only [Finset.mem_coe, List.mem_toFinset]
    split
    · assumption
    · exact (Graph.mem_edges_of_mem_arcs harc).resolve_left ‹_›
  · rintro ⟨u, v⟩ hlink ⟨u', v'⟩ hlink' heq
    have hleave := (Finset.mem_filter.mp hlink).2
    have hleave' := (Finset.mem_filter.mp hlink').2
    -- a link and its reverse do not both leave the set
    have hreverse : ∀ a b : NodeId × NodeId, a.1 ∈ S → b.2 ∉ S → a ≠ b.swap := by
      rintro a b ha hb rfl
      exact hb ha
    by_cases hedge : (u, v) ∈ graph.edges <;> by_cases hedge' : (u', v') ∈ graph.edges <;>
      simp only [hedge, hedge', if_true, if_false] at heq
    · exact heq
    · exact absurd heq (hreverse _ _ hleave.1 hleave'.2)
    · exact absurd heq.symm (hreverse _ _ hleave'.1 hleave.2)
    · exact Prod.swap_injective heq

/-- A cut that carries 1 over fewer than 1000 links has a link with more than a thousandth. -/
theorem exists_leaving_gt (hedges : graph.edges.length < 1000) {S : Finset NodeId}
    (hout : 1 ≤ outOf graph.arcs.toFinset (amount x flowIdx) S) :
    ∃ link ∈ graph.arcs, link.1 ∈ S ∧ link.2 ∉ S ∧ 1 / 1000 < amount x flowIdx link := by
  by_contra! hsmall
  have hcard : ((graph.arcs.toFinset.filter fun link => link.1 ∈ S ∧ link.2 ∉ S).card : ℚ) ≤ 999 := by
    have hnat : (graph.arcs.toFinset.filter fun link => link.1 ∈ S ∧ link.2 ∉ S).card ≤ 999 :=
      le_trans (card_leaving_le S) (by omega)
    exact_mod_cast hnat
  have hless : outOf graph.arcs.toFinset (amount x flowIdx) S < 1 :=
    calc outOf graph.arcs.toFinset (amount x flowIdx) S
        ≤ ∑ _link ∈ graph.arcs.toFinset.filter (fun link => link.1 ∈ S ∧ link.2 ∉ S), (1 / 1000 : ℚ) := by
          rw [outOf, ← Finset.sum_filter]
          apply Finset.sum_le_sum
          intro link hlink
          obtain ⟨harc, hfrom, hto⟩ := Finset.mem_filter.mp hlink
          exact hsmall link (List.mem_toFinset.mp harc) hfrom hto
      _ = (graph.arcs.toFinset.filter fun link => link.1 ∈ S ∧ link.2 ∉ S).card * (1 / 1000) := by
          rw [Finset.sum_const, nsmul_eq_mul]
      _ < 1 := by linarith
  exact absurd hout (not_le.mpr hless)

/-- Following links with more than a thousandth leads to the destination. -/
theorem exists_route_of_conservation (hedges : graph.edges.length < 1000)
    (hnonneg : ∀ link ∈ graph.arcs, 0 ≤ amount x flowIdx link)
    (h : IsFlow graph.arcs.toFinset (amount x flowIdx) flow.sourceNode flow.destinationNode 1)
    (hsource : flow.sourceNode ∈ graph.nodes) :
    ∃ path, Route (fun u v => (u, v) ∈ graph.arcs ∧ 1 / 1000 < amount x flowIdx (u, v)) flow.sourceNode
      flow.destinationNode path := by
  classical
  apply exists_route
  by_contra hunreached
  -- otherwise the reached nodes are a cut whose links all carry too little
  let R : NodeId → NodeId → Prop := fun u v => (u, v) ∈ graph.arcs ∧ 1 / 1000 < amount x flowIdx (u, v)
  let S := graph.nodes.toFinset.filter (Relation.ReflTransGen R flow.sourceNode)
  have hs : flow.sourceNode ∈ S := Finset.mem_filter.mpr ⟨List.mem_toFinset.mpr hsource, .refl⟩
  have ht : flow.destinationNode ∉ S := fun hmem => hunreached (Finset.mem_filter.mp hmem).2
  have hin : 0 ≤ into graph.arcs.toFinset (amount x flowIdx) S := by
    apply Finset.sum_nonneg
    intro link hlink
    split
    · exact hnonneg link (List.mem_toFinset.mp hlink)
    · exact le_rfl
  have hcut := h.cut hs ht
  obtain ⟨⟨u, v⟩, harc, hu, hv, hlarge⟩ := exists_leaving_gt hedges (by linarith)
  apply hv
  refine Finset.mem_filter.mpr ⟨List.mem_toFinset.mpr (Graph.mem_nodes_of_mem_arcs harc).2, ?_⟩
  exact (Finset.mem_filter.mp hu).2.tail ⟨harc, hlarge⟩

end

/-- With source and destination in the graph and no flow to itself, every flow crosses every cut with value 1,
and on fewer than 1000 links the extraction returns at least one path for every flow. -/
theorem mcf_cut_and_routes (graph : Graph) (flows : List Flow) (x : McfVar → ℚ)
    (hedges : graph.edges.length < 1000)
    (hends : ∀ flow ∈ flows, flow.sourceNode ∈ graph.nodes ∧ flow.destinationNode ∈ graph.nodes ∧
      flow.sourceNode ≠ flow.destinationNode)
    (hnonneg : ∀ flowIdx < flows.length, ∀ link ∈ graph.arcs, 0 ≤ amount x flowIdx link)
    (hconserved : ∀ constr ∈ conservationConstrs graph flows, constr.Holds x) :
    (∀ (flowIdx : Nat) flow, flows[flowIdx]? = some flow → ∀ S : Finset NodeId,
      flow.sourceNode ∈ S → flow.destinationNode ∉ S →
        outOf graph.arcs.toFinset (amount x flowIdx) S - into graph.arcs.toFinset (amount x flowIdx) S = 1) ∧
    ∃ bound routed, (∀ fuel ≥ bound,
        computeMcfFlowRoutes fuel flows (feasibleAllocations graph flows.length x) = some routed) ∧
      routed.length = flows.length ∧
      ∀ (flowIdx : Nat) flow, flows[flowIdx]? = some flow → ∃ routedFlow, routed[flowIdx]? = some routedFlow ∧
        routedFlow.paths ≠ [] ∧ ∀ path ∈ routedFlow.paths,
          Route (fun u v => (u, v) ∈ graph.arcs) flow.sourceNode flow.destinationNode path := by
  have hisFlow : ∀ flowIdx flow, flows[flowIdx]? = some flow →
      IsFlow graph.arcs.toFinset (amount x flowIdx) flow.sourceNode flow.destinationNode 1 := by
    intro flowIdx flow hflow
    have hin := hends flow (List.mem_of_getElem? hflow)
    exact isFlow_of_conservation hconserved hflow hin.1 hin.2.1
  have hroute : ∀ flowIdx flow, flows[flowIdx]? = some flow →
      ∃ path, Route (fun u v => (u, v) ∈ graph.arcs ∧ 1 / 1000 < amount x flowIdx (u, v)) flow.sourceNode
        flow.destinationNode path := by
    intro flowIdx flow hflow
    have hlt : flowIdx < flows.length := (List.getElem?_eq_some_iff.mp hflow).1
    exact exists_route_of_conservation hedges (hnonneg flowIdx hlt) (hisFlow flowIdx flow hflow)
      (hends flow (List.mem_of_getElem? hflow)).1
  have harcs : flows.length = 0 ∨ graph.arcs ≠ [] := by
    rcases Nat.eq_zero_or_pos flows.length with hzero | hpos
    · exact Or.inl hzero
    · obtain ⟨path, hpath⟩ := hroute 0 _ (List.getElem?_eq_getElem hpos)
      have hlink := exists_mem_pairwise_of_ne hpath.head hpath.last (hends _ (List.getElem_mem hpos)).2.2
      obtain ⟨link, hmem⟩ := List.exists_mem_of_ne_nil _ hlink
      exact Or.inr (List.ne_nil_of_mem (isChain_iff_forall_mem_pairwise.mp hpath.chain link hmem).1)
  refine ⟨fun flowIdx flow hflow S hs ht => (hisFlow flowIdx flow hflow).cut hs ht, ?_⟩
  obtain ⟨bound, routed, hrun, hlength, hrouted⟩ := exists_computeMcfFlowRoutes flows x harcs
  refine ⟨bound, routed, hrun, hlength, fun flowIdx flow hflow => ?_⟩
  have hlt : flowIdx < flows.length := (List.getElem?_eq_some_iff.mp hflow).1
  have hne := (hends flow (List.mem_of_getElem? hflow)).2.2
  obtain ⟨routes, hget, hroutes⟩ := hrouted flowIdx flow hflow
  refine ⟨_, hget, ?_, ?_⟩
  · obtain ⟨path, hpath⟩ := hroute flowIdx flow hflow
    have hmem : (path, leastShare (feasibleAllocations graph flows.length x) flowIdx 1 path) ∈ routes := by
      refine (hroutes.mem_iff _ _).mpr ⟨?_, hpath.mono fun u v hlink => ?_, rfl⟩
      · rintro rfl
        exact hne (by simpa using hpath.last)
      · exact (hop_feasibleAllocations_iff hlt).mpr hlink
    exact List.ne_nil_of_mem (List.mem_map.mpr ⟨_, hmem, rfl⟩)
  · intro path hmem
    obtain ⟨⟨path, ratio⟩, hpair, rfl⟩ := List.mem_map.mp hmem
    exact ((hroutes.mem_iff path ratio).mp hpair).2.1.mono fun u v hhop => ((hop_feasibleAllocations_iff hlt).mp hhop).1

def overOneLink : Flow where
  sourceNode := 0
  destinationNode := 1
  flowTxRate := 1 / 2
  paths := []
  splittingRatio := []

theorem mcf_cut_and_routes_oneLink :
    ∃ bound routed, (∀ fuel ≥ bound, computeMcfFlowRoutes fuel [overOneLink]
        (feasibleAllocations oneLink 1 fun var => if var = .F 0 0 1 then 1 else 0) = some routed) ∧
      routed.length = 1 ∧ ∃ flow, routed[0]? = some flow ∧ flow.paths ≠ [] := by
  obtain ⟨-, bound, routed, hrun, hlength, hpaths⟩ := mcf_cut_and_routes oneLink [overOneLink]
    (fun var => if var = .F 0 0 1 then 1 else 0) (by decide) (by decide) (by decide +kernel) (by decide +kernel)
  obtain ⟨flow, hget, hne, -⟩ := hpaths 0 overOneLink rfl
  exact ⟨bound, routed, hrun, hlength, flow, hget, hne⟩

end OfTestbed.FlowAllocation
