import Mathlib.Algebra.Order.BigOperators.Group.List
import Mathlib.Tactic.Linarith
import OfTestbed.LibDict
import OfTestbed.LibLinear
import OfTestbed.FlowAllocationCore

/-!
The path allocation models: `create_k_paths_model` splits every flow over its paths in any way,
`create_path_hopping_ilp_model` over exactly `K` of them in equal parts. The two differ in the declaration of the
splitting ratios only. `Y` starts as a variable and becomes an expression by `+=`, so the variable stays in it
as a slack; likewise `U`. `none` is a `KeyError` for a path that leaves the topology, or a division by zero.
-/

namespace OfTestbed.FlowAllocation

open Lib

inductive KPathsVar where
  | X (flowIndex pathIndex : Nat)
  | Y (flowIndex linkIndex : Nat)
  | T (flowIndex linkIndex : Nat)
  | alpha
  | U (linkIndex : Nat)
  | K (linkIndex : Nat)
  deriving DecidableEq

/-- `{tuple(sorted(link_tuple)): link_idx for link_idx, link_tuple in enumerate(target_topology.edges)}`. -/
def linkSet (graph : Graph) : Dict (NodeId × NodeId) Nat :=
  .ofList (graph.edges.zipIdx.map fun (link, linkIdx) => (sortedLink link, linkIdx))

/-- `link_set[tuple(sorted(link_tuple))]`. -/
def linkIndexOf (graph : Graph) (link : NodeId × NodeId) : Option Nat := (linkSet graph).get? (sortedLink link)

def newPathsFlow (source dest : NodeId) (rate : ℚ) (paths : List Path) : Flow where
  sourceNode := source
  destinationNode := dest
  flowTxRate := rate
  paths := paths
  splittingRatio := []

/-- `frc`: the ratios of a flow. -/
def flowRoutingConstr (flowIndex : Nat) (flow : Flow) : LinConstr KPathsVar :=
  ⟨.sum ((List.range flow.paths.length).map fun pathIndex => .ofVar (.X flowIndex pathIndex)), .eq, .ofConst 1⟩

/-- `Y` of a flow and a link after the loop over the paths. -/
def portionOnLink (graph : Graph) (flowIndex : Nat) (flow : Flow) (linkIndex : Nat) : LinExpr KPathsVar :=
  .ofVar (.Y flowIndex linkIndex) + .sum (flow.paths.zipIdx.flatMap fun (path, pathIndex) =>
    ((pairwise path).filter fun hop => linkIndexOf graph hop = some linkIndex).map fun _ =>
      (LinExpr.ofVar (.X flowIndex pathIndex)).scale flow.flowTxRate)

/-- `U` of a link after the loop over `T`. -/
def utilizationOfLink (flowCount linkIndex : Nat) : LinExpr KPathsVar :=
  .ofVar (.U linkIndex) + .sum ((List.range flowCount).map fun flowIndex => .ofVar (.T flowIndex linkIndex))

def pathAllocationVars (xDecl : VarDecl) (flowSet : List Flow) (links : List Nat) : List (KPathsVar × VarDecl) :=
  (flowSet.zipIdx.flatMap fun (flow, flowIndex) =>
    (List.range flow.paths.length).map fun pathIndex => (.X flowIndex pathIndex, xDecl)) ++
  ((List.range flowSet.length).flatMap fun flowIndex =>
    links.map fun linkIndex => (.Y flowIndex linkIndex, { ub := some 1 })) ++
  ((List.range flowSet.length).flatMap fun flowIndex =>
    links.map fun linkIndex => (.T flowIndex linkIndex, { ub := some 1 })) ++
  [(.alpha, { ub := some 1 })] ++
  (links.map fun linkIndex => (.U linkIndex, ({} : VarDecl))) ++
  links.map fun linkIndex => (.K linkIndex, ({} : VarDecl))

def pathAllocationConstrs (graph : Graph) (flowSet : List Flow) (links : List Nat) : List (LinConstr KPathsVar) :=
  (flowSet.zipIdx.map fun (flow, flowIndex) => flowRoutingConstr flowIndex flow) ++
  (flowSet.zipIdx.flatMap fun (flow, flowIndex) =>
    links.map fun linkIndex => ⟨.ofVar (.T flowIndex linkIndex), .eq,
      portionOnLink graph flowIndex flow linkIndex⟩) ++
  [⟨.ofVar .alpha, .ge, .ofConst 0⟩] ++
  links.flatMap fun linkIndex =>
    [⟨.ofVar (.K linkIndex), .eq, utilizationOfLink flowSet.length linkIndex⟩,
      ⟨.ofVar (.K linkIndex), .le, (LinExpr.ofVar .alpha).scale linkCapacity⟩]

/-- Every link of every path is a link of the topology. -/
def LinksFound (graph : Graph) (flowSet : List Flow) : Prop :=
  ∀ flow ∈ flowSet, ∀ path ∈ flow.paths, ∀ hop ∈ pairwise path, (linkIndexOf graph hop).isSome

instance (graph : Graph) (flowSet : List Flow) : Decidable (LinksFound graph flowSet) :=
  inferInstanceAs (Decidable (∀ flow ∈ flowSet, ∀ path ∈ flow.paths, ∀ hop ∈ pairwise path,
    (linkIndexOf graph hop).isSome))

def pathAllocationModel (xDecl : VarDecl) (graph : Graph) (flowSet : List Flow) : Option (LinModel KPathsVar) :=
  let links := (linkSet graph).values
  if LinksFound graph flowSet then
    some { vars := pathAllocationVars xDecl flowSet links, constrs := pathAllocationConstrs graph flowSet links }
  else none

def createKPathsModel (targetTopology : Graph) (flows : List Flow) (newSourceNode newDestinationNode : NodeId)
    (newFlowTxRate : ℚ) (kShortestPaths : List Path) : Option (LinModel KPathsVar) :=
  pathAllocationModel { lb := 0, ub := some 1 } targetTopology
    (flows ++ [newPathsFlow newSourceNode newDestinationNode newFlowTxRate kShortestPaths])

def createPathHoppingIlpModel (substrateTopology : Graph) (flows : List Flow)
    (newFlowSourceNode newFlowDestinationNode : NodeId) (newFlowTxRate : ℚ) (newFlowDisjointPaths : List Path)
    (K : Nat) : Option (LinModel KPathsVar) :=
  let flowSet := flows ++ [newPathsFlow newFlowSourceNode newFlowDestinationNode newFlowTxRate newFlowDisjointPaths]
  if K = 0 ∧ ∃ flow ∈ flowSet, flow.paths ≠ [] then none
  else pathAllocationModel { lb := 1 / K, ub := some (1 / K), vtype := .semicont } substrateTopology flowSet

/-! ### Links -/

variable {graph : Graph}

theorem entries_linkSet : (linkSet graph).entries =
    graph.edges.zipIdx.map fun (link, linkIdx) => (sortedLink link, linkIdx) := by
  apply Dict.entries_ofList
  have hkeys : (graph.edges.zipIdx.map fun (link, linkIdx) => (sortedLink link, linkIdx)).map Prod.fst =
      (graph.edges.zipIdx.map Prod.fst).map sortedLink := by
    simp only [List.map_map]
    rfl
  rw [hkeys, List.zipIdx_map_fst]
  exact Graph.edges_nodup

theorem linkIndexOf_eq_some_iff {link : NodeId × NodeId} {linkIndex : Nat} :
    linkIndexOf graph link = some linkIndex ↔
      ∃ edge, graph.edges[linkIndex]? = some edge ∧ sortedLink edge = sortedLink link := by
  rw [linkIndexOf, Dict.get?_eq_some_iff, entries_linkSet, List.mem_map]
  constructor
  · rintro ⟨⟨edge, idx⟩, hmem, heq⟩
    obtain ⟨hlink, rfl⟩ := Prod.mk.inj heq
    exact ⟨edge, List.mk_mem_zipIdx_iff_getElem?.mp hmem, hlink⟩
  · rintro ⟨edge, hget, hlink⟩
    exact ⟨(edge, linkIndex), List.mk_mem_zipIdx_iff_getElem?.mpr hget, by rw [← hlink]⟩

theorem values_linkSet : (linkSet graph).values = List.range graph.edges.length := by
  rw [Dict.values, entries_linkSet, List.map_map]
  change graph.edges.zipIdx.map Prod.snd = _
  rw [List.zipIdx_map_snd, List.range_eq_range']

theorem mem_values_linkSet {linkIndex : Nat} :
    linkIndex ∈ (linkSet graph).values ↔ linkIndex < graph.edges.length := by
  rw [values_linkSet, List.mem_range]

theorem exists_linkIndexOf {u v : NodeId} (h : (u, v) ∈ graph.arcs) :
    ∃ linkIndex, linkIndexOf graph (u, v) = some linkIndex := by
  rcases Graph.mem_edges_of_mem_arcs h with hedge | hedge
  · obtain ⟨idx, hget⟩ := List.mem_iff_getElem?.mp hedge
    exact ⟨idx, linkIndexOf_eq_some_iff.mpr ⟨_, hget, rfl⟩⟩
  · obtain ⟨idx, hget⟩ := List.mem_iff_getElem?.mp hedge
    exact ⟨idx, linkIndexOf_eq_some_iff.mpr ⟨_, hget, sortedLink_eq_iff.mpr (Or.inr ⟨rfl, rfl⟩)⟩⟩

/-! ### Loads -/

/-- The path crosses the link, in some direction. -/
def Crosses (path : Path) (link : NodeId × NodeId) : Prop := sortedLink link ∈ (pairwise path).map sortedLink

instance (path : Path) (link : NodeId × NodeId) : Decidable (Crosses path link) :=
  inferInstanceAs (Decidable (sortedLink link ∈ (pairwise path).map sortedLink))

/-- What a flow puts on a link when its paths carry the given ratios. -/
def flowLoad (flow : Flow) (ratio : Nat → ℚ) (link : NodeId × NodeId) : ℚ :=
  (flow.paths.zipIdx.map fun (path, pathIndex) =>
    if Crosses path link then ratio pathIndex * flow.flowTxRate else 0).sum

/-- The true load of a link. -/
def linkLoad (flowSet : List Flow) (ratio : Nat → Nat → ℚ) (link : NodeId × NodeId) : ℚ :=
  (flowSet.zipIdx.map fun (flow, flowIndex) => flowLoad flow (ratio flowIndex) link).sum

def maxLinkLoad (graph : Graph) (flowSet : List Flow) (ratio : Nat → Nat → ℚ) : ℚ :=
  (graph.edges.map (linkLoad flowSet ratio)).foldr max 0

theorem eval_portionOnLink {flowIndex : Nat} {flow : Flow} {link : NodeId × NodeId} {linkIndex : Nat}
    (hpaths : ∀ path ∈ flow.paths, path.Nodup) (hindex : linkIndexOf graph link = some linkIndex)
    (x : KPathsVar → ℚ) :
    (portionOnLink graph flowIndex flow linkIndex).eval x =
      x (.Y flowIndex linkIndex) + flowLoad flow (fun pathIndex => x (.X flowIndex pathIndex)) link := by
  -- a simple path crosses the link once or not at all
  have hhops : ∀ path ∈ flow.paths,
      ((pairwise path).filter fun hop => linkIndexOf graph hop = some linkIndex).length =
      if Crosses path link then 1 else 0 := by
    intro path hpath
    have hsame : ∀ hop, linkIndexOf graph hop = some linkIndex ↔ sortedLink hop = sortedLink link := by
      intro hop
      obtain ⟨edge, hedge, hlink⟩ := linkIndexOf_eq_some_iff.mp hindex
      rw [linkIndexOf_eq_some_iff, hedge]
      constructor
      · rintro ⟨edge', hedge', hhop⟩
        cases hedge'
        exact hhop.symm.trans hlink
      · intro hhop
        exact ⟨edge, rfl, hlink.trans hhop.symm⟩
    have hcount : ((pairwise path).filter fun hop => linkIndexOf graph hop = some linkIndex).length =
        ((pairwise path).map sortedLink).count (sortedLink link) := by
      rw [List.count, List.countP_map, List.countP_eq_length_filter]
      refine congrArg List.length (List.filter_congr fun hop _ => ?_)
      rw [Bool.eq_iff_iff, decide_eq_true_eq, Function.comp_apply, beq_iff_eq]
      exact hsame hop
    rw [hcount, List.Nodup.count (nodup_map_sortedLink (hpaths path hpath))]
    rfl
  rw [portionOnLink, LinExpr.eval_add, LinExpr.eval_ofVar, LinExpr.eval_sum, List.map_flatMap, flowLoad]
  congr 1
  rw [List.flatMap, List.sum_flatten, List.map_map]
  refine congrArg List.sum (List.map_congr_left fun entry hentry => ?_)
  obtain ⟨path, pathIndex⟩ := entry
  have hlength := hhops path (List.mem_of_getElem? (List.mk_mem_zipIdx_iff_getElem?.mp hentry))
  simp only [Function.comp_def, List.map_const', hlength]
  split <;> simp [mul_comm]

theorem foldr_max_le {l : List ℚ} {bound : ℚ} (hzero : 0 ≤ bound) (h : ∀ a ∈ l, a ≤ bound) :
    l.foldr max 0 ≤ bound := by
  induction l with
  | nil => exact hzero
  | cons a rest ih => exact max_le (h a List.mem_cons_self) (ih fun b hb => h b (List.mem_cons_of_mem a hb))

theorem le_foldr_max {l : List ℚ} {a : ℚ} (h : a ∈ l) : a ≤ l.foldr max 0 := by
  induction l with
  | nil => cases h
  | cons b rest ih =>
      rcases List.mem_cons.mp h with rfl | hrest
      · exact le_max_left _ _
      · exact le_trans (ih hrest) (le_max_right _ _)

theorem foldr_max_nonneg (l : List ℚ) : 0 ≤ l.foldr max 0 := by
  cases l with
  | nil => exact le_rfl
  | cons a rest => exact le_trans (foldr_max_nonneg rest) (le_max_right _ _)

/-! ### The models are exact -/

/-- No link is loaded beyond its capacity. -/
def WithinCapacity (graph : Graph) (flowSet : List Flow) (ratio : Nat → Nat → ℚ) : Prop :=
  ∀ link ∈ graph.edges, linkLoad flowSet ratio link ≤ linkCapacity

/-- The feasible assignments of a model are the admissible splittings within capacity; each of them is feasible
with its largest load as objective. -/
structure Exact (graph : Graph) (flowSet : List Flow) (model : LinModel KPathsVar)
    (admissible : (Nat → Nat → ℚ) → Prop) : Prop where
  sound : ∀ x, model.Feasible x → admissible (fun flowIndex pathIndex => x (.X flowIndex pathIndex)) ∧
    WithinCapacity graph flowSet fun flowIndex pathIndex => x (.X flowIndex pathIndex)
  complete : ∀ ratio, admissible ratio → WithinCapacity graph flowSet ratio → ∃ x, model.Feasible x ∧
    (∀ flowIndex pathIndex, x (.X flowIndex pathIndex) = ratio flowIndex pathIndex) ∧
    x .alpha = maxLinkLoad graph flowSet ratio

/-- The ratios obey their declaration and add up to 1. -/
def Splits (xDecl : VarDecl) (flowSet : List Flow) (ratio : Nat → Nat → ℚ) : Prop :=
  ∀ entry ∈ flowSet.zipIdx, (∀ pathIndex ∈ List.range entry.1.paths.length,
    xDecl.Allows (ratio entry.2 pathIndex)) ∧
    ((List.range entry.1.paths.length).map (ratio entry.2)).sum = 1

/-- What a model expects of the paths of its flows. -/
structure Routed (graph : Graph) (flowSet : List Flow) : Prop where
  simple : ∀ flow ∈ flowSet, ∀ path ∈ flow.paths, path.Nodup ∧ path.IsChain fun u v => (u, v) ∈ graph.arcs
  rate_pos : ∀ flow ∈ flowSet, 0 < flow.flowTxRate

variable {flowSet : List Flow} {xDecl : VarDecl}

theorem Routed.linksFound (h : Routed graph flowSet) : LinksFound graph flowSet := by
  intro flow hflow path hpath hop hhop
  have harc := isChain_iff_forall_mem_pairwise.mp (h.simple flow hflow path hpath).2 hop hhop
  obtain ⟨linkIndex, hindex⟩ := exists_linkIndexOf harc
  rw [hindex]
  rfl

theorem mem_of_mem_zipIdx {entry : Flow × Nat} (h : entry ∈ flowSet.zipIdx) : entry.1 ∈ flowSet :=
  List.mem_of_getElem? (List.mk_mem_zipIdx_iff_getElem?.mp h)

theorem flowLoad_nonneg {flow : Flow} {ratio : Nat → ℚ} (hrate : 0 ≤ flow.flowTxRate)
    (hratio : ∀ pathIndex ∈ List.range flow.paths.length, 0 ≤ ratio pathIndex) (link : NodeId × NodeId) :
    0 ≤ flowLoad flow ratio link := by
  apply List.sum_nonneg
  intro load hload
  obtain ⟨⟨path, pathIndex⟩, hentry, rfl⟩ := List.mem_map.mp hload
  have hlt := (List.getElem?_eq_some_iff.mp (List.mk_mem_zipIdx_iff_getElem?.mp hentry)).1
  dsimp only
  split
  · exact mul_nonneg (hratio pathIndex (List.mem_range.mpr hlt)) hrate
  · exact le_rfl

/-- A sum over the entries of a list and their indices, as a sum over the indices. -/
theorem sum_map_zipIdx_snd {α : Type} (l : List α) (g : Nat → ℚ) :
    (l.zipIdx.map fun entry => g entry.2).sum = ((List.range l.length).map g).sum := by
  have hsnd : l.zipIdx.map (fun entry => g entry.2) = (l.zipIdx.map Prod.snd).map g := by
    rw [List.map_map]
    rfl
  rw [hsnd, List.zipIdx_map_snd, List.range_eq_range']

theorem flowRoutingConstr_holds_iff {flowIndex : Nat} {flow : Flow} {x : KPathsVar → ℚ} :
    (flowRoutingConstr flowIndex flow).Holds x ↔
      ((List.range flow.paths.length).map fun pathIndex => x (.X flowIndex pathIndex)).sum = 1 := by
  simp [LinConstr.Holds, flowRoutingConstr, Function.comp_def]

theorem eval_utilizationOfLink (flowCount linkIndex : Nat) (x : KPathsVar → ℚ) :
    (utilizationOfLink flowCount linkIndex).eval x =
      x (.U linkIndex) + ((List.range flowCount).map fun flowIndex => x (.T flowIndex linkIndex)).sum := by
  simp [utilizationOfLink, Function.comp_def]

/-- The true load of a link is at most its variable `K`: the slacks can only add to it. -/
theorem linkLoad_le_of_feasible (h : Routed graph flowSet) {x : KPathsVar → ℚ}
    (hvars : ∀ decl ∈ pathAllocationVars xDecl flowSet (linkSet graph).values, decl.2.Allows (x decl.1))
    (hconstrs : ∀ constr ∈ pathAllocationConstrs graph flowSet (linkSet graph).values, constr.Holds x)
    {link : NodeId × NodeId} {linkIndex : Nat} (hindex : linkIndexOf graph link = some linkIndex)
    (hlink : linkIndex ∈ (linkSet graph).values) :
    linkLoad flowSet (fun flowIndex pathIndex => x (.X flowIndex pathIndex)) link ≤ x (.K linkIndex) := by
  simp only [pathAllocationVars, List.forall_mem_append, List.forall_mem_map, List.forall_mem_flatMap,
    List.forall_mem_singleton] at hvars
  simp only [pathAllocationConstrs, List.forall_mem_append, List.forall_mem_map, List.forall_mem_flatMap,
    List.forall_mem_singleton, List.forall_mem_cons] at hconstrs
  obtain ⟨⟨⟨⟨⟨-, hY⟩, -⟩, -⟩, hU⟩, -⟩ := hvars
  obtain ⟨⟨⟨-, hT⟩, -⟩, hK⟩ := hconstrs
  have hKeq : x (.K linkIndex) = (utilizationOfLink flowSet.length linkIndex).eval x := by
    simpa [LinConstr.Holds] using (hK linkIndex hlink).1
  have hUnonneg : 0 ≤ x (.U linkIndex) := (hU linkIndex hlink).1
  have hportion : linkLoad flowSet (fun flowIndex pathIndex => x (.X flowIndex pathIndex)) link ≤
      (flowSet.zipIdx.map fun entry => x (.T entry.2 linkIndex)).sum := by
    apply List.sum_le_sum
    intro entry hentry
    have hTeq : x (.T entry.2 linkIndex) = (portionOnLink graph entry.2 entry.1 linkIndex).eval x := by
      simpa [LinConstr.Holds] using hT entry hentry linkIndex hlink
    rw [eval_portionOnLink (fun path hpath => (h.simple _ (mem_of_mem_zipIdx hentry) path hpath).1) hindex] at hTeq
    have hlt := (List.getElem?_eq_some_iff.mp (List.mk_mem_zipIdx_iff_getElem?.mp hentry)).1
    have hYnonneg : 0 ≤ x (.Y entry.2 linkIndex) := (hY entry.2 (List.mem_range.mpr hlt) linkIndex hlink).1
    rw [hTeq]
    exact le_add_of_nonneg_left hYnonneg
  rw [sum_map_zipIdx_snd flowSet fun flowIndex => x (.T flowIndex linkIndex)] at hportion
  rw [hKeq, eval_utilizationOfLink]
  linarith

/-- The assignment for a splitting: no slack, every other variable at its true value. -/
def assignmentOf (graph : Graph) (flowSet : List Flow) (ratio : Nat → Nat → ℚ) : KPathsVar → ℚ
  | .X flowIndex pathIndex => ratio flowIndex pathIndex
  | .Y _ _ => 0
  | .T flowIndex linkIndex =>
      ((flowSet[flowIndex]?.bind fun flow => graph.edges[linkIndex]?.map (flowLoad flow (ratio flowIndex))).getD 0)
  | .alpha => maxLinkLoad graph flowSet ratio
  | .U _ => 0
  | .K linkIndex => (graph.edges[linkIndex]?.map (linkLoad flowSet ratio)).getD 0

section

variable {ratio : Nat → Nat → ℚ}

theorem assignmentOf_T {flow : Flow} {flowIndex linkIndex : Nat} (hentry : (flow, flowIndex) ∈ flowSet.zipIdx)
    {link : NodeId × NodeId} (hedge : graph.edges[linkIndex]? = some link) :
    assignmentOf graph flowSet ratio (.T flowIndex linkIndex) = flowLoad flow (ratio flowIndex) link := by
  rw [assignmentOf, List.mk_mem_zipIdx_iff_getElem?.mp hentry, hedge]
  rfl

theorem assignmentOf_K {link : NodeId × NodeId} {linkIndex : Nat} (hedge : graph.edges[linkIndex]? = some link) :
    assignmentOf graph flowSet ratio (.K linkIndex) = linkLoad flowSet ratio link := by
  rw [assignmentOf, hedge]
  rfl

theorem exists_edge {linkIndex : Nat} (h : linkIndex ∈ (linkSet graph).values) :
    ∃ link ∈ graph.edges, graph.edges[linkIndex]? = some link :=
  ⟨_, List.getElem_mem (mem_values_linkSet.mp h), List.getElem?_eq_getElem (mem_values_linkSet.mp h)⟩

theorem assignmentOf_vars (hload : ∀ entry ∈ flowSet.zipIdx, ∀ link, 0 ≤ flowLoad entry.1 (ratio entry.2) link)
    (hsplits : Splits xDecl flowSet ratio) (hcap : WithinCapacity graph flowSet ratio) :
    ∀ decl ∈ pathAllocationVars xDecl flowSet (linkSet graph).values,
      decl.2.Allows (assignmentOf graph flowSet ratio decl.1) := by
  have hlink : ∀ link, 0 ≤ linkLoad flowSet ratio link := by
    intro link
    apply List.sum_nonneg
    intro load hmem
    obtain ⟨entry, hentry, rfl⟩ := List.mem_map.mp hmem
    exact hload entry hentry link
  simp only [pathAllocationVars, List.forall_mem_append, List.forall_mem_map, List.forall_mem_flatMap,
    List.forall_mem_singleton]
  refine ⟨⟨⟨⟨⟨fun entry hentry => (hsplits entry hentry).1, ?_⟩, ?_⟩, ?_⟩, ?_⟩, ?_⟩
  · intro flowIndex _ linkIndex _
    exact ⟨le_rfl, by simp [assignmentOf]⟩
  · intro flowIndex hflow linkIndex hindex
    obtain ⟨link, hedge, hget⟩ := exists_edge hindex
    obtain ⟨flow, hentry⟩ : ∃ flow, (flow, flowIndex) ∈ flowSet.zipIdx :=
      ⟨_, List.mk_mem_zipIdx_iff_getElem?.mpr (List.getElem?_eq_getElem (List.mem_range.mp hflow))⟩
    rw [assignmentOf_T hentry hget]
    refine ⟨hload _ hentry link, ?_⟩
    intro ub hub
    cases hub
    refine le_trans ?_ (hcap link hedge)
    exact List.single_le_sum (fun load hmem => by
      obtain ⟨entry, hentry, rfl⟩ := List.mem_map.mp hmem
      exact hload entry hentry link) _ (List.mem_map.mpr ⟨_, hentry, rfl⟩)
  · refine ⟨foldr_max_nonneg _, ?_⟩
    intro ub hub
    cases hub
    apply foldr_max_le zero_le_one
    intro load hmem
    obtain ⟨link, hedge, rfl⟩ := List.mem_map.mp hmem
    exact hcap link hedge
  · intro linkIndex _
    exact ⟨le_rfl, by simp⟩
  · intro linkIndex hindex
    obtain ⟨link, -, hget⟩ := exists_edge hindex
    rw [assignmentOf_K hget]
    exact ⟨hlink link, by simp⟩

theorem assignmentOf_constrs (h : Routed graph flowSet) (hsplits : Splits xDecl flowSet ratio) :
    ∀ constr ∈ pathAllocationConstrs graph flowSet (linkSet graph).values,
      constr.Holds (assignmentOf graph flowSet ratio) := by
  simp only [pathAllocationConstrs, List.forall_mem_append, List.forall_mem_map, List.forall_mem_flatMap,
    List.forall_mem_singleton, List.forall_mem_cons]
  refine ⟨⟨⟨?_, ?_⟩, ?_⟩, fun linkIndex hindex => ⟨?_, ?_⟩⟩
  · intro entry hentry
    rw [flowRoutingConstr_holds_iff]
    exact (hsplits entry hentry).2
  · intro entry hentry linkIndex hindex
    obtain ⟨link, -, hget⟩ := exists_edge hindex
    have hlink : linkIndexOf graph link = some linkIndex := linkIndexOf_eq_some_iff.mpr ⟨link, hget, rfl⟩
    simp only [LinConstr.Holds, LinExpr.eval_ofVar]
    rw [eval_portionOnLink (fun path hpath => (h.simple _ (mem_of_mem_zipIdx hentry) path hpath).1) hlink,
      assignmentOf_T hentry hget]
    exact (zero_add _).symm
  · simp only [LinConstr.Holds, LinExpr.eval_ofVar, LinExpr.eval_ofConst]
    exact foldr_max_nonneg _
  · obtain ⟨link, -, hget⟩ := exists_edge hindex
    simp only [LinConstr.Holds, LinExpr.eval_ofVar, eval_utilizationOfLink]
    rw [← sum_map_zipIdx_snd flowSet fun flowIndex => assignmentOf graph flowSet ratio (.T flowIndex linkIndex),
      assignmentOf_K hget, linkLoad]
    change _ = 0 + _
    rw [zero_add]
    refine congrArg List.sum (List.map_congr_left fun entry hentry => ?_)
    exact (assignmentOf_T hentry hget).symm
  · obtain ⟨link, hedge, hget⟩ := exists_edge hindex
    simp only [LinConstr.Holds, LinExpr.eval_ofVar, LinExpr.eval_scale, linkCapacity, one_mul]
    rw [assignmentOf_K hget]
    exact le_foldr_max (List.mem_map.mpr ⟨link, hedge, rfl⟩)

end

/-- The variable `K` of a link lies between its true load and the objective. -/
theorem K_mem_bounds (h : Routed graph flowSet) {model : LinModel KPathsVar}
    (hmodel : pathAllocationModel xDecl graph flowSet = some model) {x : KPathsVar → ℚ} (hx : model.Feasible x)
    {link : NodeId × NodeId} {linkIndex : Nat} (hget : graph.edges[linkIndex]? = some link) :
    linkLoad flowSet (fun flowIndex pathIndex => x (.X flowIndex pathIndex)) link ≤ x (.K linkIndex) ∧
      x (.K linkIndex) ≤ x .alpha := by
  rw [pathAllocationModel, if_pos h.linksFound] at hmodel
  cases hmodel
  have hindex : linkIndexOf graph link = some linkIndex := linkIndexOf_eq_some_iff.mpr ⟨link, hget, rfl⟩
  have hmem : linkIndex ∈ (linkSet graph).values := mem_values_linkSet.mpr (List.getElem?_eq_some_iff.mp hget).1
  refine ⟨linkLoad_le_of_feasible h hx.vars hx.constrs hindex hmem, ?_⟩
  have hconstrs := hx.constrs
  simp only [pathAllocationConstrs, List.forall_mem_append, List.forall_mem_flatMap, List.forall_mem_cons] at hconstrs
  simpa [LinConstr.Holds, linkCapacity] using (hconstrs.2 linkIndex hmem).2.1

theorem alpha_mem_bounds (hfound : LinksFound graph flowSet) {model : LinModel KPathsVar}
    (hmodel : pathAllocationModel xDecl graph flowSet = some model) {x : KPathsVar → ℚ} (hx : model.Feasible x) :
    0 ≤ x .alpha ∧ x .alpha ≤ linkCapacity := by
  rw [pathAllocationModel, if_pos hfound] at hmodel
  cases hmodel
  have hvars := hx.vars
  simp only [pathAllocationVars, List.forall_mem_append, List.forall_mem_singleton] at hvars
  exact ⟨hvars.1.1.2.1, hvars.1.1.2.2 1 rfl⟩

/-- The objective of a feasible assignment is at least the largest load. -/
theorem maxLinkLoad_le_alpha (h : Routed graph flowSet) {model : LinModel KPathsVar}
    (hmodel : pathAllocationModel xDecl graph flowSet = some model) {x : KPathsVar → ℚ} (hx : model.Feasible x) :
    maxLinkLoad graph flowSet (fun flowIndex pathIndex => x (.X flowIndex pathIndex)) ≤ x .alpha := by
  apply foldr_max_le (alpha_mem_bounds h.linksFound hmodel hx).1
  intro load hload
  obtain ⟨link, hlink, rfl⟩ := List.mem_map.mp hload
  obtain ⟨linkIndex, hget⟩ := List.mem_iff_getElem?.mp hlink
  obtain ⟨hle, hK⟩ := K_mem_bounds h hmodel hx hget
  exact le_trans hle hK

/-- The path allocation model describes exactly the splittings its declaration of the ratios allows. -/
theorem pathAllocationModel_exact (h : Routed graph flowSet) (hdecl : ∀ value, xDecl.Allows value → 0 ≤ value) :
    ∃ model, pathAllocationModel xDecl graph flowSet = some model ∧
      Exact graph flowSet model (Splits xDecl flowSet) := by
  refine ⟨_, if_pos h.linksFound, fun x hx => ⟨?_, ?_⟩, fun ratio hsplits hcap => ?_⟩
  · have hvars := hx.vars
    have hconstrs := hx.constrs
    simp only [pathAllocationVars, List.forall_mem_append, List.forall_mem_map, List.forall_mem_flatMap,
      List.forall_mem_singleton] at hvars
    simp only [pathAllocationConstrs, List.forall_mem_append, List.forall_mem_map] at hconstrs
    intro entry hentry
    exact ⟨hvars.1.1.1.1.1 entry hentry, flowRoutingConstr_holds_iff.mp (hconstrs.1.1.1 entry hentry)⟩
  · intro link hlink
    calc linkLoad flowSet (fun flowIndex pathIndex => x (.X flowIndex pathIndex)) link
        ≤ maxLinkLoad graph flowSet _ := le_foldr_max (List.mem_map_of_mem hlink)
      _ ≤ x .alpha := maxLinkLoad_le_alpha h (if_pos h.linksFound) hx
      _ ≤ linkCapacity := (alpha_mem_bounds h.linksFound (if_pos h.linksFound) hx).2
  · have hload : ∀ entry ∈ flowSet.zipIdx, ∀ link, 0 ≤ flowLoad entry.1 (ratio entry.2) link := by
      intro entry hentry link
      exact flowLoad_nonneg (h.rate_pos _ (mem_of_mem_zipIdx hentry)).le
        (fun pathIndex hpath => hdecl _ ((hsplits entry hentry).1 pathIndex hpath)) link
    exact ⟨assignmentOf graph flowSet ratio, ⟨assignmentOf_vars hload hsplits hcap,
      assignmentOf_constrs h hsplits⟩,
      fun _ _ => rfl, rfl⟩

theorem Exact.congr {model : LinModel KPathsVar} {admissible admissible' : (Nat → Nat → ℚ) → Prop}
    (h : Exact graph flowSet model admissible) (heq : ∀ ratio, admissible ratio ↔ admissible' ratio) :
    Exact graph flowSet model admissible' :=
  ⟨fun x hx => ⟨(heq _).mp (h.sound x hx).1, (h.sound x hx).2⟩,
    fun ratio hratio hcap => h.complete ratio ((heq ratio).mpr hratio) hcap⟩

/-! ### The two declarations of the ratios -/

/-- Every flow has nonnegative ratios that add up to 1. -/
def IsSplitting (flowSet : List Flow) (ratio : Nat → Nat → ℚ) : Prop :=
  ∀ entry ∈ flowSet.zipIdx, (∀ pathIndex ∈ List.range entry.1.paths.length, 0 ≤ ratio entry.2 pathIndex) ∧
    ((List.range entry.1.paths.length).map (ratio entry.2)).sum = 1

/-- Every flow uses exactly `K` of its paths, each at the ratio `1 / K`. -/
def UsesExactly (K : Nat) (flowSet : List Flow) (ratio : Nat → Nat → ℚ) : Prop :=
  ∀ entry ∈ flowSet.zipIdx,
    (∀ pathIndex ∈ List.range entry.1.paths.length,
      ratio entry.2 pathIndex = 0 ∨ ratio entry.2 pathIndex = 1 / K) ∧
    ((List.range entry.1.paths.length).filter fun pathIndex => ratio entry.2 pathIndex = 1 / K).length = K

theorem splits_continuous_iff (ratio : Nat → Nat → ℚ) :
    Splits { lb := 0, ub := some 1 } flowSet ratio ↔ IsSplitting flowSet ratio := by
  refine forall₂_congr fun entry _ => and_congr_left fun htotal => ?_
  refine ⟨fun hallows pathIndex hpath => (hallows pathIndex hpath).1,
    fun hnonneg pathIndex hpath => ⟨hnonneg pathIndex hpath, ?_⟩⟩
  intro ub hub
  cases hub
  rw [← htotal]
  exact List.single_le_sum (fun value hvalue => by
    obtain ⟨pathIndex, hpath, rfl⟩ := List.mem_map.mp hvalue
    exact hnonneg pathIndex hpath) _ (List.mem_map.mpr ⟨pathIndex, hpath, rfl⟩)

/-- Values that are 0 or `c` add up to `c` times the number of those that are `c`. -/
theorem sum_of_zero_or {l : List Nat} {g : Nat → ℚ} {c : ℚ} (hc : c ≠ 0)
    (h : ∀ i ∈ l, g i = 0 ∨ g i = c) :
    (l.map g).sum = (l.filter fun i => g i = c).length * c := by
  induction l with
  | nil => simp
  | cons i rest ih =>
      have hrest := ih fun j hj => h j (List.mem_cons_of_mem i hj)
      rw [List.map_cons, List.sum_cons, hrest, List.filter_cons]
      rcases h i List.mem_cons_self with hzero | hone
      · simp [hzero, Ne.symm hc]
      · simp only [hone, decide_true, if_true, List.length_cons]
        push_cast
        ring

theorem splits_semicont_iff {K : Nat} (hK : 0 < K) (ratio : Nat → Nat → ℚ) :
    Splits { lb := 1 / K, ub := some (1 / K), vtype := .semicont } flowSet ratio ↔ UsesExactly K flowSet ratio := by
  have hne : (K : ℚ) ≠ 0 := Nat.cast_ne_zero.mpr (Nat.pos_iff_ne_zero.mp hK)
  have hallows : ∀ value, ({ lb := 1 / K, ub := some (1 / K), vtype := .semicont } : VarDecl).Allows value ↔
      value = 0 ∨ value = 1 / K := by
    intro value
    simp only [VarDecl.Allows, VarDecl.InBounds, Option.mem_def, Option.some.injEq, forall_eq']
    exact or_congr_right ⟨fun hbounds => le_antisymm hbounds.2 hbounds.1, fun heq => ⟨heq.ge, heq.le⟩⟩
  simp only [Splits, UsesExactly, hallows]
  refine forall₂_congr fun entry _ => and_congr_right fun hvalues => ?_
  rw [sum_of_zero_or (one_div_ne_zero hne) hvalues, mul_one_div, div_eq_one_iff_eq hne]
  exact Nat.cast_inj

theorem createKPathsModel_exact {flows : List Flow} {source dest : NodeId} {rate : ℚ} {paths : List Path}
    (h : Routed graph (flows ++ [newPathsFlow source dest rate paths])) :
    ∃ model, createKPathsModel graph flows source dest rate paths = some model ∧
      Exact graph (flows ++ [newPathsFlow source dest rate paths]) model
        (IsSplitting (flows ++ [newPathsFlow source dest rate paths])) := by
  have hdecl : ∀ value, ({ lb := 0, ub := some 1 } : VarDecl).Allows value → 0 ≤ value :=
    fun value hvalue => hvalue.1
  obtain ⟨model, hmodel, hexact⟩ := pathAllocationModel_exact h hdecl
  exact ⟨model, hmodel, hexact.congr splits_continuous_iff⟩

theorem createPathHoppingIlpModel_exact {flows : List Flow} {source dest : NodeId} {rate : ℚ} {paths : List Path}
    (h : Routed graph (flows ++ [newPathsFlow source dest rate paths])) {K : Nat} (hK : 0 < K) :
    ∃ model, createPathHoppingIlpModel graph flows source dest rate paths K = some model ∧
      Exact graph (flows ++ [newPathsFlow source dest rate paths]) model
        (UsesExactly K (flows ++ [newPathsFlow source dest rate paths])) := by
  have hdecl : ∀ value,
      ({ lb := 1 / K, ub := some (1 / K), vtype := .semicont } : VarDecl).Allows value → 0 ≤ value := by
    intro value hvalue
    have hlb : (0 : ℚ) ≤ 1 / K := div_nonneg zero_le_one (Nat.cast_nonneg K)
    rcases hvalue with rfl | hbounds
    · exact le_rfl
    · exact le_trans hlb hbounds.1
  obtain ⟨model, hmodel, hexact⟩ := pathAllocationModel_exact h hdecl
  refine ⟨model, ?_, hexact.congr (splits_semicont_iff hK)⟩
  rw [createPathHoppingIlpModel, if_neg fun hzero => Nat.pos_iff_ne_zero.mp hK hzero.1]
  exact hmodel

/-- Both path allocation models are exact, for flows on simple paths of the topology. -/
theorem path_allocation_models_exact (graph : Graph) (flows : List Flow) (source dest : NodeId) (rate : ℚ)
    (paths : List Path) (h : Routed graph (flows ++ [newPathsFlow source dest rate paths])) :
    (∃ model, createKPathsModel graph flows source dest rate paths = some model ∧
      Exact graph (flows ++ [newPathsFlow source dest rate paths]) model
        (IsSplitting (flows ++ [newPathsFlow source dest rate paths]))) ∧
    ∀ K, 0 < K → ∃ model, createPathHoppingIlpModel graph flows source dest rate paths K = some model ∧
      Exact graph (flows ++ [newPathsFlow source dest rate paths]) model
        (UsesExactly K (flows ++ [newPathsFlow source dest rate paths])) :=
  ⟨createKPathsModel_exact h, fun _ hK => createPathHoppingIlpModel_exact h hK⟩

/-- Three nodes, each linked to the two others. -/
def triangle : Graph := .ofEdges [0, 1, 2] (by decide) [(0, 1), (0, 2), (1, 2)]

theorem path_allocation_models_exact_triangle :
    (∃ model, createKPathsModel triangle [] 0 1 (1 / 2) [[0, 1], [0, 2, 1]] = some model ∧
      Exact triangle [newPathsFlow 0 1 (1 / 2) [[0, 1], [0, 2, 1]]] model
        (IsSplitting [newPathsFlow 0 1 (1 / 2) [[0, 1], [0, 2, 1]]])) ∧
    ∀ K, 0 < K → ∃ model, createPathHoppingIlpModel triangle [] 0 1 (1 / 2) [[0, 1], [0, 2, 1]] K = some model ∧
      Exact triangle [newPathsFlow 0 1 (1 / 2) [[0, 1], [0, 2, 1]]] model
        (UsesExactly K [newPathsFlow 0 1 (1 / 2) [[0, 1], [0, 2, 1]]]) :=
  path_allocation_models_exact triangle [] 0 1 (1 / 2) [[0, 1], [0, 2, 1]] ⟨by decide, by decide +kernel⟩

end OfTestbed.FlowAllocation
