import OfTestbed.FlowAllocationCut

/-!
When the routes extracted from a solution of the multi-commodity flow model realise it. Each path is given the
least share on its links, whatever other paths use these links too; that adds up to the solution exactly when
every path of a flow has a link that no other path of the flow uses.
-/

namespace OfTestbed.FlowAllocation

open Lib

/-- What the paths of a flow that traverse a link carry together. -/
def ratioThrough (flow : Flow) (link : NodeId × NodeId) : ℚ :=
  (((flow.paths.zip flow.splittingRatio).filter fun (path, _) => link ∈ pairwise path).map Prod.snd).sum

def Realises (graph : Graph) (x : McfVar → ℚ) (flowIdx : Nat) (flow : Flow) : Prop :=
  (∀ link ∈ graph.arcs, ratioThrough flow link = amount x flowIdx link) ∧ flow.splittingRatio.sum = 1

/-- A path of a flow: a simple path from its source to its destination along links it uses. -/
def FlowPath (graph : Graph) (x : McfVar → ℚ) (flowIdx : Nat) (flow : Flow) : Path → Prop :=
  Route (Carries graph.arcs.toFinset (amount x flowIdx)) flow.sourceNode flow.destinationNode

/-- Every path of the flow has a link that no other path of the flow uses. -/
def HasPrivateLinks (graph : Graph) (x : McfVar → ℚ) (flowIdx : Nat) (flow : Flow) : Prop :=
  ∀ path, FlowPath graph x flowIdx flow path → ∃ link ∈ pairwise path,
    ∀ other, FlowPath graph x flowIdx flow other → link ∈ pairwise other → other = path

section

variable {F : Dict (Nat × NodeId × NodeId) ℚ} {f : Nat}

theorem leastShare_le_start (start : ℚ) (path : Path) : leastShare F f start path ≤ start := by
  induction path generalizing start with
  | nil => exact le_rfl
  | cons u rest ih =>
      cases rest with
      | nil => exact le_rfl
      | cons v rest => exact le_trans (ih _) (min_le_right _ _)

theorem leastShare_le_share {path : Path} {link : NodeId × NodeId} (hlink : link ∈ pairwise path) (start : ℚ) :
    leastShare F f start path ≤ share F f link := by
  induction path generalizing start with
  | nil => cases hlink
  | cons u rest ih =>
      cases rest with
      | nil => cases hlink
      | cons v rest =>
          rw [leastShare_cons_cons]
          rcases List.mem_cons.mp hlink with rfl | hrest
          · exact le_trans (leastShare_le_start _ _) (min_le_left _ _)
          · exact ih hrest _

theorem leastShare_attained (start : ℚ) (path : Path) :
    leastShare F f start path = start ∨ ∃ link ∈ pairwise path, leastShare F f start path = share F f link := by
  induction path generalizing start with
  | nil => exact Or.inl rfl
  | cons u rest ih =>
      cases rest with
      | nil => exact Or.inl rfl
      | cons v rest =>
          rw [leastShare_cons_cons, pairwise_cons_cons]
          rcases ih (min (share F f (u, v)) start) with hstart | ⟨link, hlink, hshare⟩
          · rcases min_choice (share F f (u, v)) start with hmin | hmin
            · exact Or.inr ⟨(u, v), List.mem_cons_self, hstart.trans hmin⟩
            · exact Or.inl (hstart.trans hmin)
          · exact Or.inr ⟨link, List.mem_cons_of_mem _ hlink, hshare⟩

end

section

variable {graph : Graph} {n flowIdx : Nat} {x : McfVar → ℚ} {flow : Flow} {routes : List (Path × ℚ)}

/-- The amount the routes put on a link, as a sum over their paths. -/
theorem ratioThrough_eq {F : Dict (Nat × NodeId × NodeId) ℚ} {s t : NodeId} (h : AllRoutes F flowIdx s t routes)
    (link : NodeId × NodeId) :
    ratioThrough { flow with paths := routes.map Prod.fst, splittingRatio := routes.map Prod.snd } link =
      ∑ path ∈ (routes.map Prod.fst).toFinset, along path (leastShare F flowIdx 1 path) link := by
  have hratio : ∀ route ∈ routes, route.2 = leastShare F flowIdx 1 route.1 :=
    fun route hroute => ((h.mem_iff route.1 route.2).mp hroute).2.2
  rw [List.sum_toFinset _ h.nodup, ratioThrough, List.zip_map', List.map_map]
  simp only [Prod.mk.eta, List.map_id']
  clear h
  induction routes with
  | nil => rfl
  | cons route rest ih =>
      have hrest := ih fun r hr => hratio r (List.mem_cons_of_mem route hr)
      rw [List.filter_cons, List.map_cons, List.sum_cons, ← hrest, Function.comp_apply, along,
        ← hratio route List.mem_cons_self]
      split <;> simp_all

theorem sum_splittingRatio_eq {F : Dict (Nat × NodeId × NodeId) ℚ} {s t : NodeId}
    (h : AllRoutes F flowIdx s t routes) :
    (routes.map Prod.snd).sum = ∑ path ∈ (routes.map Prod.fst).toFinset, leastShare F flowIdx 1 path := by
  rw [List.sum_toFinset _ h.nodup, List.map_map]
  refine congrArg List.sum (List.map_congr_left fun route hroute => ?_)
  exact ((h.mem_iff route.1 route.2).mp hroute).2.2

theorem hop_iff_carries (hlt : flowIdx < n)
    (hthreshold : ∀ link ∈ graph.arcs, amount x flowIdx link ≠ 0 → 1 / 1000 < amount x flowIdx link)
    {u v : NodeId} :
    Hop (feasibleAllocations graph n x) flowIdx u v ↔ Carries graph.arcs.toFinset (amount x flowIdx) u v := by
  rw [hop_feasibleAllocations_iff hlt, Carries, List.mem_toFinset]
  refine and_congr_right fun harc => ⟨fun hlarge => ?_, hthreshold (u, v) harc⟩
  have hpos : (0 : ℚ) < x (.F flowIdx u v) := lt_trans (by norm_num) hlarge
  exact hpos.ne'

/-- The extracted paths are the paths of the flow. -/
theorem AllRoutes.mem_paths_iff
    (h : AllRoutes (feasibleAllocations graph n x) flowIdx flow.sourceNode flow.destinationNode routes)
    (hlt : flowIdx < n)
    (hthreshold : ∀ link ∈ graph.arcs, amount x flowIdx link ≠ 0 → 1 / 1000 < amount x flowIdx link)
    (hne : flow.sourceNode ≠ flow.destinationNode) {path : Path} :
    path ∈ (routes.map Prod.fst).toFinset ↔ FlowPath graph x flowIdx flow path := by
  have hhop : ∀ u v, Hop (feasibleAllocations graph n x) flowIdx u v ↔
      Carries graph.arcs.toFinset (amount x flowIdx) u v := fun u v => hop_iff_carries hlt hthreshold
  rw [List.mem_toFinset, List.mem_map]
  constructor
  · rintro ⟨⟨path, ratio⟩, hmem, rfl⟩
    exact ((h.mem_iff path ratio).mp hmem).2.1.mono fun u v => (hhop u v).mp
  · intro hpath
    refine ⟨(path, _), (h.mem_iff path _).mpr ⟨?_, hpath.mono fun u v => (hhop u v).mpr, rfl⟩, rfl⟩
    rintro rfl
    exact hne (by simpa using hpath.last)

theorem FlowPath.mem_arcs {path : Path} (h : FlowPath graph x flowIdx flow path) :
    ∀ link ∈ pairwise path, link ∈ graph.arcs.toFinset := fun link hlink =>
  (isChain_iff_forall_mem_pairwise.mp h.chain link hlink).1

/-- Each path of a flow gets the least share on its links, when no link carries more than the whole flow. -/
theorem leastAmount_leastShare {paths : Finset Path} (hpaths : ∀ path ∈ paths, FlowPath graph x flowIdx flow path)
    (hlt : flowIdx < n) (hnonneg : ∀ link ∈ graph.arcs, 0 ≤ amount x flowIdx link)
    (hle : ∀ link ∈ graph.arcs.toFinset, amount x flowIdx link ≤ 1)
    (hne : flow.sourceNode ≠ flow.destinationNode) :
    LeastAmount (amount x flowIdx) paths (leastShare (feasibleAllocations graph n x) flowIdx 1) := by
  have hshare : ∀ link ∈ graph.arcs.toFinset, share (feasibleAllocations graph n x) flowIdx link =
      amount x flowIdx link :=
    fun link hlink => share_feasibleAllocations hlt (List.mem_toFinset.mp hlink)
  have hbelow : ∀ path ∈ paths, ∀ link ∈ pairwise path,
      leastShare (feasibleAllocations graph n x) flowIdx 1 path ≤ amount x flowIdx link := by
    intro path hpath link hlink
    rw [← hshare link ((hpaths path hpath).mem_arcs link hlink)]
    exact leastShare_le_share hlink 1
  have hattained : ∀ path ∈ paths, ∃ link ∈ pairwise path,
      leastShare (feasibleAllocations graph n x) flowIdx 1 path = amount x flowIdx link := by
    intro path hpath
    have hroute := hpaths path hpath
    rcases leastShare_attained (F := feasibleAllocations graph n x) (f := flowIdx) 1 path
      with hone | ⟨link, hlink, heq⟩
    -- all links carry the whole flow: each of them will do
    · obtain ⟨link, hlink⟩ := List.exists_mem_of_ne_nil _ (exists_mem_pairwise_of_ne hroute.head hroute.last hne)
      refine ⟨link, hlink, le_antisymm (hbelow path hpath link hlink) ?_⟩
      rw [hone]
      exact hle link (hroute.mem_arcs link hlink)
    · exact ⟨link, hlink, heq.trans (hshare link (hroute.mem_arcs link hlink))⟩
  refine ⟨fun path hpath => ?_, hbelow, hattained⟩
  obtain ⟨link, hlink, heq⟩ := hattained path hpath
  have hcarries := isChain_iff_forall_mem_pairwise.mp (hpaths path hpath).chain link hlink
  rw [heq]
  exact lt_of_le_of_ne (hnonneg link (List.mem_toFinset.mp hcarries.1)) (Ne.symm hcarries.2)

/-- The ratios of one flow add up to its shares exactly when its paths have private links. -/
theorem AllRoutes.realises_iff
    (h : AllRoutes (feasibleAllocations graph n x) flowIdx flow.sourceNode flow.destinationNode routes)
    (hlt : flowIdx < n) (hnonneg : ∀ link ∈ graph.arcs, 0 ≤ amount x flowIdx link)
    (hthreshold : ∀ link ∈ graph.arcs, amount x flowIdx link ≠ 0 → 1 / 1000 < amount x flowIdx link)
    (hne : flow.sourceNode ≠ flow.destinationNode)
    (hacyclic : Acyclic (Carries graph.arcs.toFinset (amount x flowIdx)))
    (hflow : IsFlow graph.arcs.toFinset (amount x flowIdx) flow.sourceNode flow.destinationNode 1) :
    Realises graph x flowIdx { flow with paths := routes.map Prod.fst, splittingRatio := routes.map Prod.snd } ↔
      HasPrivateLinks graph x flowIdx flow := by
  set paths := (routes.map Prod.fst).toFinset with hpaths
  have hmem : ∀ path, path ∈ paths ↔ FlowPath graph x flowIdx flow path :=
    fun path => h.mem_paths_iff hlt hthreshold hne
  have hlinks : ∀ path ∈ paths, ∀ link ∈ pairwise path, link ∈ graph.arcs.toFinset :=
    fun path hpath => ((hmem path).mp hpath).mem_arcs
  obtain ⟨part, hdecomp⟩ := hflow.exists_decomposition zero_le_one hne
    (fun link hlink => hnonneg link (List.mem_toFinset.mp hlink)) hacyclic (fun path hpath => (hmem path).mpr hpath)
  have hleast := leastAmount_leastShare (fun path hpath => (hmem path).mp hpath) hlt hnonneg
    (fun link hlink => hdecomp.le_val hlink) hne
  have hrealises := hleast.realises_iff hlinks hdecomp
  have hprivate : PrivateLinks paths ↔ HasPrivateLinks graph x flowIdx flow := by
    simp only [PrivateLinks, HasPrivateLinks, hmem]
  rw [← hprivate, ← hrealises, Realises]
  simp only [ratioThrough_eq h, List.mem_toFinset, ← hpaths]
  refine ⟨fun hboth => hboth.1, fun hall => ⟨hall, ?_⟩⟩
  have hown := hrealises.mp fun link hlink => hall link (List.mem_toFinset.mp hlink)
  calc (routes.map Prod.snd).sum = ∑ path ∈ paths, leastShare (feasibleAllocations graph n x) flowIdx 1 path :=
        sum_splittingRatio_eq h
    _ = ∑ path ∈ paths, part path :=
        Finset.sum_congr rfl fun path hpath => hleast.eq_share hown hlinks hdecomp hpath
    _ = 1 := hdecomp.total

end

/-! ### Feasible assignments -/

section

variable {graph : Graph} {flows : List Flow} {source dest : NodeId} {rate : ℚ} {x : McfVar → ℚ}

theorem conserved_of_feasible (h : (createMcfModel graph flows source dest rate).Feasible x) :
    ∀ constr ∈ conservationConstrs graph (potentialFlowSet flows source dest rate), constr.Holds x :=
  fun constr hconstr => h.constrs constr (List.mem_append_left _ hconstr)

theorem amount_nonneg_of_feasible (h : (createMcfModel graph flows source dest rate).Feasible x) {flowIdx : Nat}
    (hflow : flowIdx < (potentialFlowSet flows source dest rate).length) {link : NodeId × NodeId}
    (hlink : link ∈ graph.arcs) : 0 ≤ amount x flowIdx link := by
  have hvar := h.vars (.F flowIdx link.1 link.2, {}) (List.mem_append_left _ (List.mem_map.mpr
    ⟨(flowIdx, link.1, link.2), mem_flowKeys.mpr ⟨hflow, hlink⟩, rfl⟩))
  exact hvar.1

/-- A graph in which the flows can be routed has links. -/
theorem arcs_ne_nil_of_feasible (h : (createMcfModel graph flows source dest rate).Feasible x)
    (hends : ∀ flow ∈ potentialFlowSet flows source dest rate, flow.sourceNode ∈ graph.nodes) :
      graph.arcs ≠ [] := by
  intro hnone
  have hpos : 0 < (potentialFlowSet flows source dest rate).length := by simp [potentialFlowSet]
  have hflow := List.getElem?_eq_getElem hpos
  have hsource := hends _ (List.getElem_mem hpos)
  have hnet := conservationConstr_holds_iff.mp (conservationConstr_of_mem (conserved_of_feasible h) hflow hsource)
  rw [if_pos rfl, hnone] at hnet
  simp [net] at hnet

end

theorem mcf_routes_realise_iff (graph : Graph) (flows : List Flow) (source dest : NodeId) (rate : ℚ)
    (x : McfVar → ℚ)
    (hends : ∀ flow ∈ potentialFlowSet flows source dest rate,
      flow.sourceNode ∈ graph.nodes ∧ flow.destinationNode ∈ graph.nodes)
    (hfeasible : (createMcfModel graph flows source dest rate).Feasible x)
    (hacyclic : ∀ flowIdx < (potentialFlowSet flows source dest rate).length,
      Acyclic (Carries graph.arcs.toFinset (amount x flowIdx)))
    (hthreshold : ∀ flowIdx < (potentialFlowSet flows source dest rate).length, ∀ link ∈ graph.arcs,
      amount x flowIdx link ≠ 0 → 1 / 1000 < amount x flowIdx link) :
    ∃ bound routed, (∀ fuel ≥ bound, computeMcfFlowRoutes fuel (potentialFlowSet flows source dest rate)
        (feasibleAllocations graph (potentialFlowSet flows source dest rate).length x) = some routed) ∧
      routed.length = (potentialFlowSet flows source dest rate).length ∧
      ((∀ (flowIdx : Nat) flow, routed[flowIdx]? = some flow → Realises graph x flowIdx flow) ↔
        ∀ (flowIdx : Nat) flow, (potentialFlowSet flows source dest rate)[flowIdx]? = some flow →
          HasPrivateLinks graph x flowIdx flow) := by
  have hconserved := conserved_of_feasible hfeasible
  have harcs := arcs_ne_nil_of_feasible hfeasible fun flow hflow => (hends flow hflow).1
  obtain ⟨bound, routed, hrun, hlength, hrouted⟩ :=
    exists_computeMcfFlowRoutes (potentialFlowSet flows source dest rate) x (Or.inr harcs)
  refine ⟨bound, routed, hrun, hlength, ?_⟩
  have hone : ∀ (flowIdx : Nat) flow, (potentialFlowSet flows source dest rate)[flowIdx]? = some flow →
      ∃ routedFlow, routed[flowIdx]? = some routedFlow ∧
        (Realises graph x flowIdx routedFlow ↔ HasPrivateLinks graph x flowIdx flow) := by
    intro flowIdx flow hflow
    have hlt := (List.getElem?_eq_some_iff.mp hflow).1
    have hin := hends flow (List.mem_of_getElem? hflow)
    obtain ⟨routes, hget, hroutes⟩ := hrouted flowIdx flow hflow
    refine ⟨_, hget, hroutes.realises_iff hlt (fun link hlink => amount_nonneg_of_feasible hfeasible hlt hlink)
      (hthreshold flowIdx hlt) (source_ne_destination hconserved hflow hin.1) (hacyclic flowIdx hlt)
      (isFlow_of_conservation hconserved hflow hin.1 hin.2)⟩
  constructor
  · intro hall flowIdx flow hflow
    obtain ⟨routedFlow, hget, hiff⟩ := hone flowIdx flow hflow
    exact hiff.mp (hall flowIdx routedFlow hget)
  · intro hall flowIdx routedFlow hget
    have hlt : flowIdx < (potentialFlowSet flows source dest rate).length :=
      hlength ▸ (List.getElem?_eq_some_iff.mp hget).1
    obtain ⟨routedFlow', hget', hiff⟩ := hone flowIdx _ (List.getElem?_eq_getElem hlt)
    cases hget.symm.trans hget'
    exact hiff.mpr (hall flowIdx _ (List.getElem?_eq_getElem hlt))

/-- Two triangles in a row: from 0 to 2 directly or through 1, from 2 to 4 directly or through 3. -/
def twoTriangles : Graph := .ofEdges [0, 1, 2, 3, 4] (by decide) [(0, 1), (0, 2), (1, 2), (2, 3), (2, 4), (3, 4)]

/-- Half of the flow from 0 to 4 takes the direct link of each triangle, half goes around. -/
def halfEachWay : McfVar → ℚ
  | .F 0 u v => if u < v then 1 / 2 else 0
  | .F _ _ _ => 0
  | .alpha => 1

theorem halfEachWay_acyclic : Acyclic (Carries twoTriangles.arcs.toFinset (amount halfEachWay 0)) := by
  apply Acyclic.of_rank Int.toNat
  rintro u v ⟨hlink, hcarries⟩
  have hup : ∀ link ∈ twoTriangles.arcs, amount halfEachWay 0 link ≠ 0 → link.1.toNat < link.2.toNat := by
    decide +kernel
  exact hup (u, v) (List.mem_toFinset.mp hlink) hcarries

/-- What the extraction returns for it. -/
def fourHalves : Flow where
  sourceNode := 0
  destinationNode := 4
  flowTxRate := 1 / 2
  paths := [[0, 2, 4], [0, 1, 2, 4], [0, 2, 3, 4], [0, 1, 2, 3, 4]]
  splittingRatio := [1 / 2, 1 / 2, 1 / 2, 1 / 2]

theorem half_each_way_not_realised :
    (createMcfModel twoTriangles [] 0 4 (1 / 2)).Feasible halfEachWay ∧
    Acyclic (Carries twoTriangles.arcs.toFinset (amount halfEachWay 0)) ∧
    (∀ link ∈ twoTriangles.arcs, amount halfEachWay 0 link ≠ 0 → 1 / 1000 < amount halfEachWay 0 link) ∧
    computeMcfFlowRoutes 10 (potentialFlowSet [] 0 4 (1 / 2)) (feasibleAllocations twoTriangles 1 halfEachWay) =
      some [fourHalves] ∧
    ratioThrough fourHalves (0, 2) = 1 ∧ amount halfEachWay 0 (0, 2) = 1 / 2 ∧
      fourHalves.splittingRatio.sum = 2 := by
  refine ⟨by decide +kernel, halfEachWay_acyclic, by decide +kernel, by decide +kernel, ?_, ?_, ?_⟩ <;>
    decide +kernel

theorem mcf_routes_realise_iff_halfEachWay :
    ∃ bound routed, (∀ fuel ≥ bound, computeMcfFlowRoutes fuel (potentialFlowSet [] 0 4 (1 / 2))
        (feasibleAllocations twoTriangles 1 halfEachWay) = some routed) ∧
      routed.length = 1 ∧
      ((∀ (flowIdx : Nat) flow, routed[flowIdx]? = some flow → Realises twoTriangles halfEachWay flowIdx flow) ↔
        ∀ (flowIdx : Nat) flow, (potentialFlowSet [] 0 4 (1 / 2))[flowIdx]? = some flow →
          HasPrivateLinks twoTriangles halfEachWay flowIdx flow) := by
  refine mcf_routes_realise_iff twoTriangles [] 0 4 (1 / 2) halfEachWay (by decide) (by decide +kernel) ?_ ?_
  · intro flowIdx hlt
    obtain rfl : flowIdx = 0 := Nat.lt_one_iff.mp hlt
    exact halfEachWay_acyclic
  · decide +kernel

end OfTestbed.FlowAllocation
