import Mathlib.Data.Finset.Max
import Mathlib.Data.Finset.Powerset
import OfTestbed.FlowAllocationIlpRuns

/-!
The utilization that `compute_path_hopping_flows_ilp` returns. It is read off the variables `K`, which the model binds
to the true loads only up to the slacks `Y` and `U`: on a link whose load is not the largest one an optimal solution
may report any value from the true load to the largest. The splittings into equal parts are finitely many, so that a
feasible model has an optimal solution.
-/

namespace OfTestbed.FlowAllocation

open Lib

/-- Every flow is split into `K` equal parts. -/
def EqualParts (K : Nat) (flowSet : List Flow) (ratio : Nat → Nat → ℚ) : Prop := 0 < K ∧ UsesExactly K flowSet ratio

/-- The model of a round of `compute_path_hopping_flows_ilp`. -/
def hoppingModel (graph : Graph) (K : Nat) : CreateModel := fun flows source dest rate paths =>
  createPathHoppingIlpModel graph flows source dest rate paths K

/-- `lb=(1.0/K), ub=(1.0/K)`. -/
def partDecl (K : Nat) : VarDecl where
  lb := 1 / K
  ub := some (1 / K)
  vtype := .semicont

/-- The utilization of every link is the load that the flows put on it. -/
def HoldsUtilization (graph : Graph) (flows : List Flow) (utilization : Dict (NodeId × NodeId) ℚ) : Prop :=
  ∀ link ∈ graph.edges, utilization.get? (sortedLink link) = some (splitLoad flows link)

/-- However the flows are split in an optimal way, every link has the largest load. -/
def FullyLoaded (graph : Graph) (K : Nat) (flowSet : List Flow) : Prop :=
  ∀ ratio, LeastLoaded graph (EqualParts K) flowSet ratio →
    ∀ link ∈ graph.edges, linkLoad flowSet ratio link = maxLinkLoad graph flowSet ratio

section

variable {graph : Graph} {flowSet : List Flow} {K : Nat}

theorem EqualParts.isSplitting {ratio : Nat → Nat → ℚ} (h : EqualParts K flowSet ratio) :
    IsSplitting flowSet ratio := by
  have hsplits := (splits_semicont_iff h.1 ratio).mpr h.2
  intro entry hentry
  refine ⟨fun pathIndex hpath => ?_, (hsplits entry hentry).2⟩
  rcases (h.2 entry hentry).1 pathIndex hpath with hzero | hpart
  · exact hzero.ge
  · rw [hpart]
    exact div_nonneg zero_le_one (Nat.cast_nonneg K)

/-! ### There is a least loaded splitting -/

/-- The indices of the ratios that matter. -/
def ratioIndices (flowSet : List Flow) : List (Nat × Nat) :=
  flowSet.zipIdx.flatMap fun entry => (List.range entry.1.paths.length).map fun pathIndex => (entry.2, pathIndex)

theorem mem_ratioIndices {entry : Flow × Nat} (hentry : entry ∈ flowSet.zipIdx) {pathIndex : Nat}
    (hpath : pathIndex ∈ List.range entry.1.paths.length) : (entry.2, pathIndex) ∈ ratioIndices flowSet :=
  List.mem_flatMap.mpr ⟨entry, hentry, List.mem_map.mpr ⟨pathIndex, hpath, rfl⟩⟩

theorem usesExactly_congr {ratio ratio' : Nat → Nat → ℚ}
    (h : ∀ index ∈ ratioIndices flowSet, ratio index.1 index.2 = ratio' index.1 index.2)
    (huses : UsesExactly K flowSet ratio) : UsesExactly K flowSet ratio' := by
  intro entry hentry
  obtain ⟨hvalues, hcount⟩ := huses entry hentry
  have hsame : ∀ pathIndex ∈ List.range entry.1.paths.length, ratio entry.2 pathIndex = ratio' entry.2 pathIndex :=
    fun pathIndex hpath => h _ (mem_ratioIndices hentry hpath)
  refine ⟨fun pathIndex hpath => ?_, ?_⟩
  · rw [← hsame pathIndex hpath]
    exact hvalues pathIndex hpath
  · refine Eq.trans (congrArg List.length (List.filter_congr fun pathIndex hpath => ?_)) hcount
    rw [hsame pathIndex hpath]

theorem linkLoad_congr {ratio ratio' : Nat → Nat → ℚ}
    (h : ∀ index ∈ ratioIndices flowSet, ratio index.1 index.2 = ratio' index.1 index.2) :
    linkLoad flowSet ratio = linkLoad flowSet ratio' := by
  funext link
  unfold linkLoad
  congr 1
  apply List.map_congr_left
  intro entry hentry
  show flowLoad entry.1 (ratio entry.2) link = flowLoad entry.1 (ratio' entry.2) link
  unfold flowLoad
  congr 1
  apply List.map_congr_left
  intro split hsplit
  have hlt := (List.getElem?_eq_some_iff.mp (List.mk_mem_zipIdx_iff_getElem?.mp hsplit)).1
  show (if Crosses split.1 link then ratio entry.2 split.2 * entry.1.flowTxRate else 0) = _
  rw [h _ (mem_ratioIndices hentry (List.mem_range.mpr hlt))]

/-- The splitting that uses the given paths. -/
def partsOn (K : Nat) (used : Finset (Nat × Nat)) (flowIndex pathIndex : Nat) : ℚ :=
  if (flowIndex, pathIndex) ∈ used then 1 / K else 0

/-- Every splitting into equal parts is one that uses some of the paths. -/
theorem exists_partsOn {ratio : Nat → Nat → ℚ} (huses : UsesExactly K flowSet ratio) :
    ∃ used ⊆ (ratioIndices flowSet).toFinset,
      ∀ index ∈ ratioIndices flowSet, ratio index.1 index.2 = partsOn K used index.1 index.2 := by
  refine ⟨(ratioIndices flowSet).toFinset.filter fun index => ratio index.1 index.2 = 1 / K,
    Finset.filter_subset _ _, fun index hindex => ?_⟩
  have hvalue : ratio index.1 index.2 = 0 ∨ ratio index.1 index.2 = 1 / K := by
    obtain ⟨entry, hentry, hmem⟩ := List.mem_flatMap.mp hindex
    obtain ⟨pathIndex, hpath, rfl⟩ := List.mem_map.mp hmem
    exact (huses entry hentry).1 pathIndex hpath
  unfold partsOn
  by_cases hpart : ratio index.1 index.2 = 1 / K
  · rw [if_pos (Finset.mem_filter.mpr ⟨List.mem_toFinset.mpr hindex, hpart⟩), hpart]
  · have hunused : (index.1, index.2) ∉ (ratioIndices flowSet).toFinset.filter fun index =>
        ratio index.1 index.2 = 1 / K := fun hmem => hpart (Finset.mem_filter.mp hmem).2
    rw [if_neg hunused]
    exact hvalue.resolve_right hpart

theorem exists_leastLoaded (h : Embeddable graph (EqualParts K) flowSet) :
    ∃ ratio, LeastLoaded graph (EqualParts K) flowSet ratio := by
  classical
  let candidates := (ratioIndices flowSet).toFinset.powerset.filter fun used =>
    EqualParts K flowSet (partsOn K used) ∧ WithinCapacity graph flowSet (partsOn K used)
  -- a splitting is as good as the candidate that uses the same paths
  have hcandidate : ∀ ratio, EqualParts K flowSet ratio → WithinCapacity graph flowSet ratio →
      ∃ used ∈ candidates, maxLinkLoad graph flowSet (partsOn K used) = maxLinkLoad graph flowSet ratio := by
    intro ratio hparts hcap
    obtain ⟨used, hsubset, hsame⟩ := exists_partsOn hparts.2
    have hload := linkLoad_congr hsame
    refine ⟨used, Finset.mem_filter.mpr ⟨Finset.mem_powerset.mpr hsubset, ⟨hparts.1, ?_⟩, fun link hlink => ?_⟩, ?_⟩
    · exact usesExactly_congr hsame hparts.2
    · rw [← hload]
      exact hcap link hlink
    · rw [maxLinkLoad, ← hload, maxLinkLoad]
  obtain ⟨ratio, hparts, hcap⟩ := h
  obtain ⟨first, hfirst, -⟩ := hcandidate ratio hparts hcap
  obtain ⟨best, hbest, hleast⟩ := Finset.exists_min_image candidates
    (fun used => maxLinkLoad graph flowSet (partsOn K used)) ⟨first, hfirst⟩
  obtain ⟨hbestParts, hbestCap⟩ := (Finset.mem_filter.mp hbest).2
  refine ⟨partsOn K best, hbestParts, hbestCap, fun ratio' hparts' hcap' => ?_⟩
  obtain ⟨used, hused, heq⟩ := hcandidate ratio' hparts' hcap'
  exact heq ▸ hleast used hused

/-! ### The slack of a solution -/

/-- The assignment for a splitting that reports the largest load for every link. -/
def slackAssignment (graph : Graph) (flowSet : List Flow) (ratio : Nat → Nat → ℚ) : KPathsVar → ℚ
  | .U linkIndex => maxLinkLoad graph flowSet ratio - assignmentOf graph flowSet ratio (.K linkIndex)
  | .K _ => maxLinkLoad graph flowSet ratio
  | .X flowIndex pathIndex => ratio flowIndex pathIndex
  | .Y _ _ => 0
  | .T flowIndex linkIndex => assignmentOf graph flowSet ratio (.T flowIndex linkIndex)
  | .alpha => maxLinkLoad graph flowSet ratio

theorem slackAssignment_vars {xDecl : VarDecl} {ratio : Nat → Nat → ℚ}
    (h : ∀ decl ∈ pathAllocationVars xDecl flowSet (linkSet graph).values,
      decl.2.Allows (assignmentOf graph flowSet ratio decl.1)) :
    ∀ decl ∈ pathAllocationVars xDecl flowSet (linkSet graph).values,
      decl.2.Allows (slackAssignment graph flowSet ratio decl.1) := by
  simp only [pathAllocationVars, List.forall_mem_append, List.forall_mem_map, List.forall_mem_flatMap,
    List.forall_mem_singleton] at h ⊢
  obtain ⟨⟨⟨⟨⟨hX, hY⟩, hT⟩, halpha⟩, -⟩, -⟩ := h
  refine ⟨⟨⟨⟨⟨hX, hY⟩, hT⟩, halpha⟩, fun linkIndex hindex => ⟨?_, by simp⟩⟩, fun linkIndex _ => ⟨?_, by simp⟩⟩
  · obtain ⟨link, hedge, hget⟩ := exists_edge hindex
    have hload : assignmentOf graph flowSet ratio (.K linkIndex) ≤ maxLinkLoad graph flowSet ratio := by
      rw [assignmentOf_K hget]
      exact le_foldr_max (List.mem_map_of_mem hedge)
    exact sub_nonneg.mpr hload
  · exact foldr_max_nonneg _

theorem slackAssignment_constrs {ratio : Nat → Nat → ℚ} (hrouted : Routed graph flowSet)
    (h : ∀ constr ∈ pathAllocationConstrs graph flowSet (linkSet graph).values,
      constr.Holds (assignmentOf graph flowSet ratio)) :
    ∀ constr ∈ pathAllocationConstrs graph flowSet (linkSet graph).values,
      constr.Holds (slackAssignment graph flowSet ratio) := by
  simp only [pathAllocationConstrs, List.forall_mem_append, List.forall_mem_map, List.forall_mem_flatMap,
    List.forall_mem_singleton, List.forall_mem_cons] at h ⊢
  obtain ⟨⟨⟨hfrc, hT⟩, halpha⟩, hlinks⟩ := h
  refine ⟨⟨⟨fun entry hentry => ?_, fun entry hentry linkIndex hindex => ?_⟩, ?_⟩, fun linkIndex hindex => ⟨?_, ?_⟩⟩
  · have hfrc' := hfrc entry hentry
    rw [flowRoutingConstr_holds_iff] at hfrc' ⊢
    exact hfrc'
  · obtain ⟨link, -, hget⟩ := exists_edge hindex
    have hlink : linkIndexOf graph link = some linkIndex := linkIndexOf_eq_some_iff.mpr ⟨link, hget, rfl⟩
    have hsimple := fun path hpath => (hrouted.simple _ (mem_of_mem_zipIdx hentry) path hpath).1
    have hT' := hT entry hentry linkIndex hindex
    simp only [LinConstr.Holds, LinExpr.eval_ofVar] at hT' ⊢
    rw [eval_portionOnLink hsimple hlink] at hT' ⊢
    exact hT'
  · exact halpha
  · have hK := (hlinks linkIndex hindex).1
    simp only [LinConstr.Holds, LinExpr.eval_ofVar, eval_utilizationOfLink] at hK ⊢
    change assignmentOf graph flowSet ratio (.K linkIndex) = 0 + _ at hK
    change maxLinkLoad graph flowSet ratio = maxLinkLoad graph flowSet ratio -
      assignmentOf graph flowSet ratio (.K linkIndex) + _
    rw [hK, zero_add]
    exact (sub_add_cancel _ _).symm
  · simp only [LinConstr.Holds, LinExpr.eval_ofVar, LinExpr.eval_scale, linkCapacity, one_mul]
    exact le_rfl

theorem slackAssignment_feasible (hrouted : Routed graph flowSet) {model : LinModel KPathsVar}
    (hmodel : pathAllocationModel (partDecl K) graph flowSet = some model) {ratio : Nat → Nat → ℚ}
    (hparts : EqualParts K flowSet ratio) (hcap : WithinCapacity graph flowSet ratio) :
    model.Feasible (slackAssignment graph flowSet ratio) := by
  rw [pathAllocationModel, if_pos hrouted.linksFound] at hmodel
  cases hmodel
  have hsplits : Splits (partDecl K) flowSet ratio := (splits_semicont_iff hparts.1 ratio).mpr hparts.2
  have hload : ∀ entry ∈ flowSet.zipIdx, ∀ link, 0 ≤ flowLoad entry.1 (ratio entry.2) link := by
    intro entry hentry
    exact flowLoad_nonneg (hrouted.rate_pos _ (mem_of_mem_zipIdx hentry)).le (hparts.isSplitting entry hentry).1
  exact ⟨slackAssignment_vars (assignmentOf_vars hload hsplits hcap),
    slackAssignment_constrs hrouted (assignmentOf_constrs hrouted hsplits)⟩

end

/-! ### What is reported -/

theorem zip_map_range (paths : List Path) (f : Nat → ℚ) :
    paths.zip ((List.range paths.length).map f) = paths.zipIdx.map fun entry => (entry.1, f entry.2) := by
  rw [List.zipIdx_eq_zip_range', ← List.range_eq_range', List.zip_map_right]
  rfl

/-- The load of the flows as a solution splits them. -/
theorem splitLoad_splitBy (flowSet : List Flow) (x : KPathsVar → ℚ) (link : NodeId × NodeId) :
    splitLoad (flowSet.zipIdx.map (splitBy x)) link =
      linkLoad flowSet (fun flowIndex pathIndex => x (.X flowIndex pathIndex)) link := by
  rw [splitLoad, List.map_map, linkLoad]
  congr 1
  apply List.map_congr_left
  intro entry _
  show ((entry.1.paths.zip ((List.range entry.1.paths.length).map fun pathIndex => x (.X entry.2 pathIndex))).map
    fun split => if Crosses split.1 link then split.2 * entry.1.flowTxRate else 0).sum = _
  rw [zip_map_range, List.map_map]
  rfl

theorem get?_utilizationOf {graph : Graph} {link : NodeId × NodeId} {linkIndex : Nat}
    (hget : graph.edges[linkIndex]? = some link) (x : KPathsVar → ℚ) :
    (utilizationOf (graph.edges.map sortedLink) x).get? (sortedLink link) = some (x (.K linkIndex)) := by
  have hkeys : ((graph.edges.map sortedLink).zipIdx.map fun entry => (entry.1, x (.K entry.2))).map Prod.fst =
      graph.edges.map sortedLink := by
    rw [List.map_map]
    exact List.zipIdx_map_fst 0 _
  have hnodup :
      (((graph.edges.map sortedLink).zipIdx.map fun entry => (entry.1, x (.K entry.2))).map Prod.fst).Nodup := by
    rw [hkeys]
    exact Graph.edges_nodup
  rw [utilizationOf, Dict.get?_ofList hnodup]
  refine List.mem_map.mpr ⟨(sortedLink link, linkIndex), List.mk_mem_zipIdx_iff_getElem?.mpr ?_, rfl⟩
  rw [List.getElem?_map, hget]
  rfl

section

variable {search : PathSearch} {graph : Graph} {draws : Nat → GreedyDraw} {K : Nat}
  {solve : LinModel KPathsVar → Option (KPathsVar → ℚ)}

theorem exists_hoppingRound (hsearch : search.Documented graph) (hdraws : ∀ turn, (draws turn).Drawn graph)
    (hK : 0 < K) (turn : Nat) :
    ∃ model, IsRound search draws graph (EqualParts K) (hoppingModel graph K) (partDecl K) turn model := by
  have hrouted := routed_roundFlows hsearch hdraws (turn + 1)
  obtain ⟨model, hmodel, hexact⟩ := createPathHoppingIlpModel_exact (roundFlows_succ turn ▸ hrouted) hK
  have hpath := pathAllocationModel_of_createPathHoppingIlpModel hmodel
  have hparts := hexact.congr fun ratio => (and_iff_right hK).symm
  exact ⟨model, hmodel, (congrArg _ (roundFlows_succ turn)).trans hpath, roundFlows_succ turn ▸ hparts, hrouted⟩

/-- What is returned when flows were admitted: they are split, and the utilization is reported, as an optimal solution
says. -/
theorem exists_computePathHoppingFlowsIlp_eq (hsearch : search.Documented graph)
    (hdraws : ∀ turn, (draws turn).Drawn graph) (hK : 0 < K)
    (hsolve : AnswersRounds search draws (hoppingModel graph K) solve) {last : Nat}
    (hcount : AdmitsExactly search draws graph (EqualParts K) (last + 1)) :
    ∃ model x, IsRound search draws graph (EqualParts K) (hoppingModel graph K) (partDecl K) last model ∧
      solve model = some x ∧ model.Optimal .alpha x ∧ ∀ fuel, last + 1 < fuel →
        computePathHoppingFlowsIlp solve search fuel graph K draws =
          some ((roundFlows search draws (last + 1)).zipIdx.map (splitBy x),
            utilizationOf (graph.edges.map sortedLink) x) := by
  obtain ⟨model, x, hround, hx, hoptimal, hlast⟩ :=
    exists_lastSolution (exists_hoppingRound hsearch hdraws hK) hsolve hcount
  refine ⟨model, x, hround, hx, hoptimal, fun fuel hfuel => ?_⟩
  unfold computePathHoppingFlowsIlp
  show (admissionLoop (hoppingModel graph K) solve search draws fuel [] none).bind _ = _
  rw [admissionLoop_eq (exists_hoppingRound hsearch hdraws hK) hsolve hcount hfuel, Option.bind_some, hlast]
  simp only [readVariables_getVars hround.model_eq x (List.length_map _), map_withRatios roundFlows_unsplit]

theorem computePathHoppingFlowsIlp_of_none (hsearch : search.Documented graph)
    (hdraws : ∀ turn, (draws turn).Drawn graph) (hK : 0 < K)
    (hsolve : AnswersRounds search draws (hoppingModel graph K) solve)
    (hcount : AdmitsExactly search draws graph (EqualParts K) 0) {fuel : Nat} (hfuel : 0 < fuel) :
    computePathHoppingFlowsIlp solve search fuel graph K draws = some ([], .empty) := by
  unfold computePathHoppingFlowsIlp
  show (admissionLoop (hoppingModel graph K) solve search draws fuel [] none).bind _ = _
  rw [admissionLoop_eq (exists_hoppingRound hsearch hdraws hK) hsolve hcount hfuel]
  rfl

/-- An optimal solution splits the flows in a least loaded way, with the largest load as objective. -/
theorem leastLoaded_of_optimal {turn : Nat} {model : LinModel KPathsVar}
    (hround : IsRound search draws graph (EqualParts K) (hoppingModel graph K) (partDecl K) turn model)
    {x : KPathsVar → ℚ} (hx : model.Optimal .alpha x) :
    LeastLoaded graph (EqualParts K) (roundFlows search draws (turn + 1))
        (fun flowIndex pathIndex => x (.X flowIndex pathIndex)) ∧
      x .alpha ≤ maxLinkLoad graph (roundFlows search draws (turn + 1))
        fun flowIndex pathIndex => x (.X flowIndex pathIndex) := by
  obtain ⟨hparts, hcap⟩ := hround.exact.sound x hx.feasible
  have hle : ∀ ratio, EqualParts K (roundFlows search draws (turn + 1)) ratio →
      WithinCapacity graph (roundFlows search draws (turn + 1)) ratio →
      x .alpha ≤ maxLinkLoad graph (roundFlows search draws (turn + 1)) ratio := by
    intro ratio hratio hwithin
    obtain ⟨y, hy, -, hload⟩ := hround.exact.complete ratio hratio hwithin
    exact hload ▸ hx.le y hy
  refine ⟨⟨hparts, hcap, fun ratio hratio hwithin => ?_⟩, hle _ hparts hcap⟩
  exact le_trans (maxLinkLoad_le_alpha hround.routed hround.model_eq hx.feasible) (hle ratio hratio hwithin)

/-- No slack is left where all links have the largest load. -/
theorem holdsUtilization_of_fullyLoaded {turn : Nat} {model : LinModel KPathsVar}
    (hround : IsRound search draws graph (EqualParts K) (hoppingModel graph K) (partDecl K) turn model)
    (hfull : FullyLoaded graph K (roundFlows search draws (turn + 1))) {x : KPathsVar → ℚ}
    (hx : model.Optimal .alpha x) :
    HoldsUtilization graph ((roundFlows search draws (turn + 1)).zipIdx.map (splitBy x))
      (utilizationOf (graph.edges.map sortedLink) x) := by
  obtain ⟨hleast, halpha⟩ := leastLoaded_of_optimal hround hx
  intro link hlink
  obtain ⟨linkIndex, hget⟩ := List.mem_iff_getElem?.mp hlink
  obtain ⟨hload, hK⟩ := K_mem_bounds hround.routed hround.model_eq hx.feasible hget
  have hmax := hfull _ hleast link hlink
  rw [get?_utilizationOf hget, splitLoad_splitBy, Option.some_inj]
  linarith

/-- A least loaded splitting may be returned with the largest load reported for every link. -/
theorem exists_solve_slack (hsearch : search.Documented graph) (hdraws : ∀ turn, (draws turn).Drawn graph) (hK : 0 < K)
    {last : Nat} (hcount : AdmitsExactly search draws graph (EqualParts K) (last + 1)) {ratio : Nat → Nat → ℚ}
    (hleast : LeastLoaded graph (EqualParts K) (roundFlows search draws (last + 1)) ratio) :
    ∃ solve, AnswersRounds search draws (hoppingModel graph K) solve ∧ ∀ fuel, last + 1 < fuel →
      computePathHoppingFlowsIlp solve search fuel graph K draws =
        some ((roundFlows search draws (last + 1)).zipIdx.map
            (splitBy (slackAssignment graph (roundFlows search draws (last + 1)) ratio)),
          utilizationOf (graph.edges.map sortedLink)
            (slackAssignment graph (roundFlows search draws (last + 1)) ratio)) := by
  classical
  obtain ⟨model, hround⟩ := exists_hoppingRound hsearch hdraws hK last
  have hslack : model.Optimal .alpha (slackAssignment graph (roundFlows search draws (last + 1)) ratio) := by
    refine hround.optimal hleast ?_ rfl
    exact slackAssignment_feasible hround.routed hround.model_eq hleast.obeys hleast.within
  have hsolve : AnswersRounds search draws (hoppingModel graph K) fun other => if other = model
      then some (slackAssignment graph (roundFlows search draws (last + 1)) ratio)
      else LinModel.solve .alpha other := by
    intro turn other hother
    dsimp only
    split
    · rename_i heq
      exact heq ▸ hslack
    · obtain ⟨model', hround'⟩ := exists_hoppingRound hsearch hdraws hK turn
      obtain rfl : model' = other := Option.some.inj (hround'.created.symm.trans hother)
      apply LinModel.answer_solve
      intro x hx
      obtain ⟨ratio', hleast'⟩ := exists_leastLoaded ⟨_, hround'.exact.sound x hx⟩
      exact hround'.exists_optimal hleast'
  refine ⟨_, hsolve, fun fuel hfuel => ?_⟩
  obtain ⟨model', x, hround', hx, -, hrun⟩ := exists_computePathHoppingFlowsIlp_eq hsearch hdraws hK hsolve hcount
  obtain rfl : model' = model := Option.some.inj (hround'.created.symm.trans hround.created)
  rw [if_pos rfl, Option.some_inj] at hx
  rw [hrun fuel hfuel, ← hx]

/-- A model can be made for zero parts only when the flow has no paths, and then its ratios do not add up to 1. -/
theorem not_feasible_zero {model : LinModel KPathsVar}
    (hmodel : roundModel search draws (hoppingModel graph 0) 0 = some model)
    (x : KPathsVar → ℚ) : ¬model.Feasible x := by
  intro hx
  change createPathHoppingIlpModel graph [] _ _ _ _ 0 = some model at hmodel
  rw [createPathHoppingIlpModel] at hmodel
  split at hmodel
  · cases hmodel
  · rename_i hdivides
    have hpaths : turnPaths search draws 0 = [] := by
      by_contra hne
      exact hdivides ⟨rfl, _, List.mem_singleton_self _, hne⟩
    rw [hpaths, pathAllocationModel] at hmodel
    split at hmodel
    · cases hmodel
      have hfrc := hx.constrs (flowRoutingConstr 0 (newPathsFlow (draws 0).sourceNode (draws 0).destinationNode
        (draws 0).flowTxRate [])) List.mem_cons_self
      rw [flowRoutingConstr_holds_iff] at hfrc
      exact absurd hfrc (by simp [newPathsFlow])
    · cases hmodel

/-- No flow is split into zero parts: the model divides by zero, or has a flow without paths. -/
theorem computePathHoppingFlowsIlp_zero (hsolve : AnswersRounds search draws (hoppingModel graph 0) solve) {fuel : Nat}
    {flows : List Flow} {utilization : Dict (NodeId × NodeId) ℚ}
    (h : computePathHoppingFlowsIlp solve search fuel graph 0 draws = some (flows, utilization)) : flows = [] := by
  unfold computePathHoppingFlowsIlp at h
  change (admissionLoop (hoppingModel graph 0) solve search draws fuel [] none).bind _ = _ at h
  cases fuel with
  | zero => cases h
  | succ fuel =>
      cases hmodel : roundModel search draws (hoppingModel graph 0) 0 with
      | none =>
          rw [admissionLoop] at h
          change ((roundModel search draws (hoppingModel graph 0) 0).bind _).bind _ = _ at h
          rw [hmodel] at h
          cases h
      | some model =>
          have hnone : solve model = none := by
            have hanswer := hsolve 0 model hmodel
            cases hx : solve model with
            | none => rfl
            | some x =>
                rw [hx] at hanswer
                exact absurd hanswer.feasible (not_feasible_zero hmodel x)
          have hloop := admissionLoop_stop hmodel hnone fuel none
          rw [show roundFlows search draws 0 = [] from rfl] at hloop
          rw [hloop] at h
          cases h
          rfl

end

theorem fullyLoaded_nil (graph : Graph) (K : Nat) : FullyLoaded graph K [] := by
  intro ratio _ link _
  have hzero : linkLoad [] ratio = fun _ => 0 := rfl
  rw [maxLinkLoad, hzero, List.map_const']
  induction graph.edges.length with
  | zero => rfl
  | succ n ih => rw [List.replicate_succ, List.foldr_cons, ← ih, max_self]

/-- Every utilization that `compute_path_hopping_flows_ilp` may return is the load of the link exactly when in every
optimal splitting of the admitted flows all links have the same, largest load. -/
theorem path_hopping_utilization_iff (graph : Graph) (search : PathSearch) (hsearch : search.Documented graph)
    (draws : Nat → GreedyDraw) (hdraws : ∀ turn, (draws turn).Drawn graph) (K : Nat) :
    ∃ count, AdmitsExactly search draws graph (EqualParts K) count ∧
      (0 < K → ∀ solve, AnswersRounds search draws (hoppingModel graph K) solve →
        ∀ fuel : Nat, graph.edges.length * linkCapacity / flowTxRateLowerBound < fuel → ∃ flows utilization,
          computePathHoppingFlowsIlp solve search fuel graph K draws = some (flows, utilization) ∧
            flows.length = count) ∧
      ((∀ solve, AnswersRounds search draws (hoppingModel graph K) solve →
        ∀ fuel : Nat, graph.edges.length * linkCapacity / flowTxRateLowerBound < fuel → ∀ flows utilization,
          computePathHoppingFlowsIlp solve search fuel graph K draws = some (flows, utilization) → flows ≠ [] →
            HoldsUtilization graph flows utilization) ↔
        FullyLoaded graph K (roundFlows search draws count)) := by
  obtain ⟨count, hle, hcount⟩ := exists_admitsExactly hsearch hdraws fun _ _ (h : EqualParts K _ _) => h.isSplitting
  have hfuel : ∀ {fuel : Nat}, graph.edges.length * linkCapacity / flowTxRateLowerBound < fuel → count < fuel := by
    intro fuel hfuel
    exact_mod_cast lt_of_le_of_lt hle hfuel
  refine ⟨count, hcount, fun hK solve hsolve fuel hbound => ?_, fun hall => ?_, fun hfull => ?_⟩
  · cases count with
    | zero => exact ⟨[], _, computePathHoppingFlowsIlp_of_none hsearch hdraws hK hsolve hcount (hfuel hbound), rfl⟩
    | succ last =>
        obtain ⟨model, x, -, -, -, hrun⟩ := exists_computePathHoppingFlowsIlp_eq hsearch hdraws hK hsolve hcount
        refine ⟨_, _, hrun fuel (hfuel hbound), ?_⟩
        rw [List.length_map, List.length_zipIdx, length_roundFlows]
  · cases count with
    | zero => exact fullyLoaded_nil graph K
    | succ last =>
        intro ratio hleast link hlink
        obtain ⟨solve, hsolve, hrun⟩ := exists_solve_slack hsearch hdraws hleast.obeys.1 hcount hleast
        have hbound : graph.edges.length * linkCapacity / flowTxRateLowerBound <
            ((10 * graph.edges.length + 1 : Nat) : ℚ) := by
          rw [flowCount_bound, Nat.cast_lt]
          exact Nat.lt_succ_self _
        have hheld := hall solve hsolve _ hbound _ _ (hrun _ (hfuel hbound)) (by
          rw [Ne, List.map_eq_nil_iff, ← List.length_eq_zero_iff, List.length_zipIdx, length_roundFlows]
          exact Nat.succ_ne_zero last) link hlink
        obtain ⟨linkIndex, hget⟩ := List.mem_iff_getElem?.mp hlink
        rw [get?_utilizationOf hget, splitLoad_splitBy, Option.some_inj] at hheld
        exact hheld.symm
  · intro solve hsolve fuel hbound flows utilization hrun hne
    cases K with
    | zero => exact absurd (computePathHoppingFlowsIlp_zero hsolve hrun) hne
    | succ less =>
        cases count with
        | zero =>
            rw [computePathHoppingFlowsIlp_of_none hsearch hdraws (Nat.succ_pos less) hsolve hcount (hfuel hbound)]
              at hrun
            cases hrun
            exact absurd rfl hne
        | succ last =>
            obtain ⟨model, x, hround, -, hx, heq⟩ :=
              exists_computePathHoppingFlowsIlp_eq hsearch hdraws (Nat.succ_pos less) hsolve hcount
            rw [heq fuel (hfuel hbound)] at hrun
            cases hrun
            exact holdsUtilization_of_fullyLoaded hround hfull hx

/-! ### Networks with and without an idle link -/

/-- Flows with one path are embedded in one way only. -/
theorem leastLoaded_of_single {graph : Graph} {flowSet : List Flow}
    (hsingle : ∀ flow ∈ flowSet, flow.paths.length = 1)
    {K : Nat} {ratio : Nat → Nat → ℚ} (hparts : EqualParts K flowSet ratio)
    (hcap : WithinCapacity graph flowSet ratio) :
    LeastLoaded graph (EqualParts K) flowSet ratio := by
  refine ⟨hparts, hcap, fun ratio' hparts' _ => ?_⟩
  unfold maxLinkLoad
  rw [funext (linkLoad_of_single hsingle hparts.isSplitting), funext (linkLoad_of_single hsingle hparts'.isSplitting)]

theorem fullyLoaded_oneLink {flowSet : List Flow} (h : Routed oneLink flowSet) (K : Nat) :
    FullyLoaded oneLink K flowSet := by
  intro ratio hleast link hlink
  have hedges : oneLink.edges = [(0, 1)] := by decide +kernel
  have hnonneg : 0 ≤ linkLoad flowSet ratio link := by
    apply List.sum_nonneg
    intro load hload
    obtain ⟨entry, hentry, rfl⟩ := List.mem_map.mp hload
    exact flowLoad_nonneg (h.rate_pos _ (mem_of_mem_zipIdx hentry)).le (hleast.obeys.isSplitting entry hentry).1 link
  rw [hedges, List.mem_singleton] at hlink
  rw [maxLinkLoad, hedges, List.map_singleton, List.foldr_cons, List.foldr_nil, ← hlink]
  exact (max_eq_left hnonneg).symm

/-- With a single link there is no other one to report slack for. -/
theorem path_hopping_utilization_iff_oneLink : ∃ count,
    AdmitsExactly (treeSearch oneLink) (alwaysBetween 0 1) oneLink (EqualParts 1) count ∧
    ∀ solve, AnswersRounds (treeSearch oneLink) (alwaysBetween 0 1) (hoppingModel oneLink 1) solve →
      ∀ fuel : Nat, oneLink.edges.length * linkCapacity / flowTxRateLowerBound < fuel → ∀ flows utilization,
        computePathHoppingFlowsIlp solve (treeSearch oneLink) fuel oneLink 1 (alwaysBetween 0 1) =
          some (flows, utilization) → flows ≠ [] → HoldsUtilization oneLink flows utilization := by
  have hdraws := @drawn_alwaysBetween oneLink 0 1 (by decide) (by decide) (by decide)
  obtain ⟨count, hcount, -, hiff⟩ := path_hopping_utilization_iff oneLink (treeSearch oneLink) (treeSearch_documented _)
    (alwaysBetween 0 1) hdraws 1
  exact ⟨count, hcount, hiff.mpr (fullyLoaded_oneLink (routed_roundFlows (treeSearch_documented _) hdraws count) 1)⟩

/-- Two flows load the second link; a solver may report the same load for the first one, which no flow crosses. -/
theorem idle_link_reported_loaded : (treeSearch threeInRow).Documented threeInRow ∧
    (∀ turn, (alwaysBetween 1 2 turn).Drawn threeInRow) ∧
    ∃ solve, AnswersRounds (treeSearch threeInRow) (alwaysBetween 1 2) (hoppingModel threeInRow 1) solve ∧
      ∃ flows utilization, (∀ fuel, 2 < fuel →
        computePathHoppingFlowsIlp solve (treeSearch threeInRow) fuel threeInRow 1 (alwaysBetween 1 2) =
          some (flows, utilization)) ∧ flows.length = 2 ∧
        utilization.get? (0, 1) = some (4 / 5) ∧ splitLoad flows (0, 1) = 0 := by
  have hdraws := @drawn_alwaysBetween threeInRow 1 2 (by decide) (by decide) (by decide)
  have hsingle : ∀ count, ∀ flow ∈ roundFlows (treeSearch threeInRow) (alwaysBetween 1 2) count,
      flow.paths.length = 1 := by
    intro count flow hflow
    obtain ⟨turn, -, rfl⟩ := exists_turn_of_mem_roundFlows hflow
    show (routesBetween threeInRow 1 2).length = 1
    decide +kernel
  have hparts : ∀ turn < 2, EqualParts 1 (roundFlows (treeSearch threeInRow) (alwaysBetween 1 2) (turn + 1))
      (fun _ _ => 1) := by
    refine fun turn hturn => ⟨Nat.one_pos, ?_⟩
    unfold UsesExactly
    revert turn
    decide +kernel
  have hcap : ∀ turn < 2, WithinCapacity threeInRow (roundFlows (treeSearch threeInRow) (alwaysBetween 1 2) (turn + 1))
      (fun _ _ => 1) := by
    unfold WithinCapacity
    decide +kernel
  have hcount : AdmitsExactly (treeSearch threeInRow) (alwaysBetween 1 2) threeInRow (EqualParts 1) 2 := by
    refine ⟨fun turn hturn => ⟨_, hparts turn hturn, hcap turn hturn⟩, ?_⟩
    rintro ⟨ratio, hratio, hwithin⟩
    have hload := hwithin (1, 2) (by decide +kernel)
    rw [linkLoad_of_single (hsingle 3) hratio.isSplitting] at hload
    exact absurd hload (by decide +kernel)
  obtain ⟨solve, hsolve, hrun⟩ := exists_solve_slack (treeSearch_documented _) hdraws Nat.one_pos hcount
    (leastLoaded_of_single (hsingle 2) (hparts 1 (by decide)) (hcap 1 (by decide)))
  refine ⟨treeSearch_documented _, hdraws, solve, hsolve, _, _, hrun, ?_, ?_, ?_⟩
  · rw [List.length_map, List.length_zipIdx, length_roundFlows]
  · decide +kernel
  · decide +kernel

end OfTestbed.FlowAllocation
