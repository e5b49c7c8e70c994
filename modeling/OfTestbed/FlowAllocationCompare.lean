import OfTestbed.FlowAllocationIlpUtilization
import OfTestbed.FlowAllocationMcfRuns

/-!
The allocators side by side. `multiflow_tests` runs them with the same seed, so that they draw the same flows, and
compares how many of them each admits. Sending a flow over its node-disjoint paths, in equal parts or in parts that the
solver chooses, is one way to send it over the links of the network, so that the allocators are ordered by what they
allow: whatever one admits, the more liberal one admits as well.
-/

namespace OfTestbed.FlowAllocation

open Lib

/-! ### Paths as a flow over links -/

section Splitting

variable {search : PathSearch} {graph : Graph} {draws : Nat → GreedyDraw}

/-- A path in one direction and in the other. -/
theorem along_add_along_swap {path : Path} (hnodup : path.Nodup) (share : ℚ) (link : NodeId × NodeId) :
    along path share link + along path share link.swap = if Crosses path link then share else 0 := by
  obtain ⟨u, v⟩ := link
  have hcrosses : Crosses path (u, v) ↔ (u, v) ∈ pairwise path ∨ (v, u) ∈ pairwise path := by
    rw [Crosses, List.mem_map]
    constructor
    · rintro ⟨⟨a, b⟩, hhop, heq⟩
      rcases sortedLink_eq_iff.mp heq with ⟨rfl, rfl⟩ | ⟨rfl, rfl⟩
      · exact Or.inl hhop
      · exact Or.inr hhop
    · rintro (hhop | hhop)
      · exact ⟨(u, v), hhop, rfl⟩
      · exact ⟨(v, u), hhop, sortedLink_eq_iff.mpr (Or.inr ⟨rfl, rfl⟩)⟩
  simp only [along, Prod.swap_prod_mk, hcrosses]
  by_cases hforth : (u, v) ∈ pairwise path
  · have hback := swap_notMem_pairwise hnodup hforth
    simp [hforth, hback]
  · simp [hforth]

/-- The draws as the multi-commodity flow allocator sees them: without paths. -/
def mcfDraws (draws : Nat → GreedyDraw) (turn : Nat) : McfDraw :=
  ⟨(draws turn).sourceNode, (draws turn).destinationNode, (draws turn).flowTxRate⟩

theorem drawn_mcfDraws (hdraws : ∀ turn, (draws turn).Drawn graph) (turn : Nat) :
    (mcfDraws draws turn).Drawn graph :=
  ⟨(hdraws turn).source_mem, (hdraws turn).destination_mem, (hdraws turn).lower_le, (hdraws turn).le_upper⟩

/-- What a flow puts on the links when its paths get the given ratios. -/
def overPaths (search : PathSearch) (draws : Nat → GreedyDraw) (ratio : Nat → Nat → ℚ) (var : McfVar) : ℚ :=
  match var with
  | .F flowIdx u v =>
      ((turnPaths search draws flowIdx).zipIdx.map fun entry => along entry.1 (ratio flowIdx entry.2) (u, v)).sum
  | .alpha => 0

theorem zipIdx_map_range {α β : Type} (f : Nat → α) (g : α → Nat → β) (n : Nat) :
    (((List.range n).map f).zipIdx.map fun entry => g entry.1 entry.2) = (List.range n).map fun i => g (f i) i := by
  apply List.ext_getElem?
  intro i
  rcases Nat.lt_or_ge i n with hi | hi
  · simp [hi]
  · simp [hi]

/-- The flows that are split over their paths load a link, in both directions, as the splitting says. -/
theorem arcLoad_overPaths (hpaths : ∀ turn, ∀ path ∈ turnPaths search draws turn, path.Nodup)
    (ratio : Nat → Nat → ℚ) (count : Nat) (link : NodeId × NodeId) :
    arcLoad (mcfFlows (mcfDraws draws) count) (overPaths search draws ratio) link +
        arcLoad (mcfFlows (mcfDraws draws) count) (overPaths search draws ratio) link.swap =
      linkLoad (roundFlows search draws count) ratio link := by
  have hflows := zipIdx_map_range (fun turn => mcfFlow (mcfDraws draws turn))
    (fun flow flowIdx => flow.flowTxRate * amount (overPaths search draws ratio) flowIdx link) count
  have hswapped := zipIdx_map_range (fun turn => mcfFlow (mcfDraws draws turn))
    (fun flow flowIdx => flow.flowTxRate * amount (overPaths search draws ratio) flowIdx link.swap) count
  have hrounds := zipIdx_map_range (roundFlow search draws)
    (fun flow flowIdx => flowLoad flow (ratio flowIdx) link) count
  rw [arcLoad_eq, arcLoad_eq, linkLoad, mcfFlows, hflows, hswapped, roundFlows, hrounds, ← List.sum_map_add]
  congr 1
  apply List.map_congr_left
  intro turn _
  calc (draws turn).flowTxRate * amount (overPaths search draws ratio) turn link +
        (draws turn).flowTxRate * amount (overPaths search draws ratio) turn link.swap
      = (draws turn).flowTxRate * ((turnPaths search draws turn).zipIdx.map fun entry =>
          along entry.1 (ratio turn entry.2) link + along entry.1 (ratio turn entry.2) link.swap).sum := by
        rw [List.sum_map_add, mul_add]
        rfl
    _ = ((turnPaths search draws turn).zipIdx.map fun entry =>
          if Crosses entry.1 link then ratio turn entry.2 * (draws turn).flowTxRate else 0).sum := by
        rw [← List.sum_map_mul_left]
        congr 1
        apply List.map_congr_left
        intro entry hentry
        have hmem := List.mem_of_getElem? (List.mk_mem_zipIdx_iff_getElem?.mp hentry)
        rw [along_add_along_swap (hpaths turn entry.1 hmem)]
        split
        · exact mul_comm _ _
        · exact mul_zero _
    _ = flowLoad (roundFlow search draws turn) (ratio turn) link := rfl

/-- A splitting sends every flow from its source to its destination. -/
theorem isFlow_overPaths (hsearch : search.Documented graph) (hdraws : ∀ turn, (draws turn).Drawn graph)
    {ratio : Nat → Nat → ℚ} {turn : Nat}
    (htotal : ((List.range (turnPaths search draws turn).length).map (ratio turn)).sum = 1) :
    IsFlow graph.arcs.toFinset (amount (overPaths search draws ratio) turn) (draws turn).sourceNode
      (draws turn).destinationNode 1 := by
  have hdraw := hdraws turn
  have hpath : ∀ entry ∈ (turnPaths search draws turn).zipIdx, IsFlow graph.arcs.toFinset
      (along entry.1 (ratio turn entry.2)) (draws turn).sourceNode (draws turn).destinationNode
      (ratio turn entry.2) := by
    intro entry hentry
    have hmem := List.mem_of_getElem? (List.mk_mem_zipIdx_iff_getElem?.mp hentry)
    have hroute := hsearch.route_of_mem_nodeDisjointPaths _ hdraw.source_mem _ hdraw.destination_mem hdraw.source_ne
      entry.1 hmem
    exact isFlow_along hroute.head hroute.last hroute.nodup (fun link hlink =>
      List.mem_toFinset.mpr (isChain_iff_forall_mem_pairwise.mp hroute.chain link hlink)) _
  have hsum := isFlow_sum (turnPaths search draws turn).zipIdx (fun entry => along entry.1 (ratio turn entry.2))
    (fun entry => ratio turn entry.2) hpath
  rw [sum_map_zipIdx_snd, htotal] at hsum
  exact hsum

theorem crosses_swap (path : Path) (link : NodeId × NodeId) : Crosses path link.swap ↔ Crosses path link := by
  rw [Crosses, Crosses, show sortedLink link.swap = sortedLink link from sortedLink_eq_iff.mpr (Or.inr ⟨rfl, rfl⟩)]

/-- No arc is overloaded when no edge is. -/
theorem WithinCapacity.arc {flowSet : List Flow} {ratio : Nat → Nat → ℚ} (h : WithinCapacity graph flowSet ratio)
    {link : NodeId × NodeId} (hlink : link ∈ graph.arcs) : linkLoad flowSet ratio link ≤ linkCapacity := by
  rcases Graph.mem_edges_of_mem_arcs hlink with hedge | hedge
  · exact h link hedge
  · have hswap : linkLoad flowSet ratio link.swap = linkLoad flowSet ratio link := by
      simp only [linkLoad, flowLoad, crosses_swap]
    exact hswap ▸ h link.swap hedge

/-- Flows that can be split over their paths within capacity fit on the links. -/
theorem mcfFits_of_embeddable (hsearch : search.Documented graph) (hdraws : ∀ turn, (draws turn).Drawn graph)
    {count : Nat} (h : Embeddable graph IsSplitting (roundFlows search draws count)) :
    ∃ x, McfFits graph (mcfFlows (mcfDraws draws) count) x 1 := by
  obtain ⟨ratio, hsplits, hcap⟩ := h
  have hpaths : ∀ turn, ∀ path ∈ turnPaths search draws turn, path.Nodup := by
    intro turn path hpath
    have hdraw := hdraws turn
    exact (hsearch.route_of_mem_nodeDisjointPaths _ hdraw.source_mem _ hdraw.destination_mem hdraw.source_ne path
      hpath).nodup
  have hsplit : ∀ turn < count,
      (∀ pathIndex ∈ List.range (turnPaths search draws turn).length, 0 ≤ ratio turn pathIndex) ∧
        ((List.range (turnPaths search draws turn).length).map (ratio turn)).sum = 1 := by
    intro turn hturn
    have hget : (roundFlows search draws count)[turn]? = some (roundFlow search draws turn) := by
      rw [roundFlows, List.getElem?_map, List.getElem?_range hturn]
      rfl
    exact hsplits _ (List.mk_mem_zipIdx_iff_getElem?.mpr hget)
  refine ⟨overPaths search draws ratio, fun turn hturn link _ => ?_, fun constr hconstr => ?_, fun link hlink => ?_⟩
  · rw [length_mcfFlows] at hturn
    apply List.sum_nonneg
    intro value hvalue
    obtain ⟨entry, hentry, rfl⟩ := List.mem_map.mp hvalue
    have hlt := (List.getElem?_eq_some_iff.mp (List.mk_mem_zipIdx_iff_getElem?.mp hentry)).1
    dsimp only [along]
    split
    · exact (hsplit turn hturn).1 entry.2 (List.mem_range.mpr hlt)
    · exact le_rfl
  · obtain ⟨⟨flow, turn⟩, hentry, hmem⟩ := List.mem_flatMap.mp hconstr
    obtain ⟨u, -, rfl⟩ := List.mem_map.mp hmem
    have hget := List.mk_mem_zipIdx_iff_getElem?.mp hentry
    have hturn : turn < count := by
      have hlt := (List.getElem?_eq_some_iff.mp hget).1
      rwa [length_mcfFlows] at hlt
    rw [mcfFlows, List.getElem?_map, List.getElem?_range hturn] at hget
    obtain rfl : mcfFlow (mcfDraws draws turn) = flow := Option.some.inj hget
    have hne : (draws turn).sourceNode ≠ (draws turn).destinationNode := (hdraws turn).source_ne
    have hflow := isFlow_overPaths hsearch hdraws (hsplit turn hturn).2 u
    rw [conservationConstr_holds_iff, hflow]
    show _ = if u = (draws turn).sourceNode then (1 : ℚ) else if u = (draws turn).destinationNode then -1 else 0
    by_cases hsource : u = (draws turn).sourceNode
    · rw [if_pos hsource, if_pos hsource, if_neg (hsource ▸ hne), sub_zero]
    · rw [if_neg hsource, if_neg hsource, zero_sub]
      split <;> simp
  · rw [arcLoad_overPaths hpaths, mul_one]
    exact hcap.arc hlink

/-- The part of its rate that the greedy allocator sends over each path of a flow. -/
def equalRatio (search : PathSearch) (draws : Nat → GreedyDraw) (turn _ : Nat) : ℚ :=
  1 / (turnPaths search draws turn).length

theorem linkLoad_equalRatio (count : Nat) (link : NodeId × NodeId) :
    linkLoad (roundFlows search draws count) (equalRatio search draws) link =
      greedyLoad (flowsBefore search draws count) link := by
  have hrounds := zipIdx_map_range (roundFlow search draws)
    (fun flow flowIdx => flowLoad flow (equalRatio search draws flowIdx) link) count
  rw [linkLoad, roundFlows, hrounds, greedyLoad, flowsBefore, List.map_map]
  congr 1
  apply List.map_congr_left
  intro turn _
  have hpaths : ((turnPaths search draws turn).zipIdx.map fun entry =>
        if Crosses entry.1 link then equalRatio search draws turn entry.2 * (draws turn).flowTxRate else 0) =
      (turnPaths search draws turn).map fun path =>
        if Crosses path link then (draws turn).flowTxRate / (turnPaths search draws turn).length else 0 := by
    rw [← List.zipIdx_map_fst 0 (turnPaths search draws turn), List.map_map, List.zipIdx_map_fst]
    apply List.map_congr_left
    intro entry _
    dsimp only [Function.comp_apply, equalRatio]
    rw [one_div_mul_eq_div]
  exact congrArg List.sum hpaths

/-- The equal parts of the greedy allocator are a splitting. -/
theorem embeddable_of_fits (hpaths : ∀ turn, TurnPaths graph (turnPaths search draws turn)) {turn : Nat}
    (h : Fits search graph draws turn) : Embeddable graph IsSplitting (roundFlows search draws (turn + 1)) := by
  refine ⟨equalRatio search draws, fun entry hentry => ?_, fun link hlink => ?_⟩
  · obtain ⟨flow, flowIdx⟩ := entry
    have hget := List.mk_mem_zipIdx_iff_getElem?.mp hentry
    have hlt := (List.getElem?_eq_some_iff.mp hget).1
    rw [length_roundFlows] at hlt
    rw [roundFlows, List.getElem?_map, List.getElem?_range hlt] at hget
    obtain rfl : roundFlow search draws flowIdx = flow := Option.some.inj hget
    have hcount : ((turnPaths search draws flowIdx).length : ℚ) ≠ 0 :=
      Nat.cast_ne_zero.mpr (List.length_pos_iff.mpr (hpaths flowIdx).ne_nil).ne'
    refine ⟨fun _ _ => div_nonneg zero_le_one (Nat.cast_nonneg _), ?_⟩
    show ((List.range (turnPaths search draws flowIdx).length).map fun _ =>
      1 / ((turnPaths search draws flowIdx).length : ℚ)).sum = 1
    rw [List.map_const', List.sum_replicate, List.length_range, nsmul_eq_mul, mul_one_div_cancel hcount]
  · rw [linkLoad_equalRatio]
    exact h link hlink

end Splitting

/-! ### The counts -/

/-- What is admitted as long as `P` holds is not more than what is admitted as long as the weaker `Q` holds. -/
theorem admitted_le {P Q : Nat → Prop} {p q : Nat} (hP : ∀ turn < p, P turn) (hQ : ¬Q q) (h : ∀ turn, P turn → Q turn) :
    p ≤ q := by
  by_contra hlt
  exact hQ (h q (hP q (Nat.lt_of_not_le hlt)))

/-- The flows are those of the first draws: their end points and rates, in the order in which they were drawn. -/
def AreFirst (draws : Nat → GreedyDraw) (count : Nat) (flows : List Flow) : Prop :=
  flows.map (fun flow => (flow.sourceNode, flow.destinationNode, flow.flowTxRate)) =
    (List.range count).map fun turn =>
      ((draws turn).sourceNode, (draws turn).destinationNode, (draws turn).flowTxRate)

section Compared

variable {search : PathSearch} {graph : Graph} {draws : Nat → GreedyDraw}

theorem areFirst_flowsBefore (count : Nat) : AreFirst draws count (flowsBefore search draws count) := by
  rw [AreFirst, flowsBefore, List.map_map]
  rfl

theorem areFirst_splitBy (count : Nat) (x : KPathsVar → ℚ) :
    AreFirst draws count ((roundFlows search draws count).zipIdx.map (splitBy x)) := by
  rw [AreFirst, List.map_map]
  exact zipIdx_map_range (roundFlow search draws)
    (fun flow _ => (flow.sourceNode, flow.destinationNode, flow.flowTxRate)) count

theorem areFirst_of_routedAs {count : Nat} {routed : List Flow} (hlength : routed.length = count)
    (h : ∀ turn < count, ∃ flow, routed[turn]? = some flow ∧ RoutedAs graph (mcfDraws draws turn) flow) :
    AreFirst draws count routed := by
  apply List.ext_getElem?
  intro turn
  rcases Nat.lt_or_ge turn count with hlt | hge
  · obtain ⟨flow, hget, hrouted⟩ := h turn hlt
    rw [List.getElem?_map, hget, List.getElem?_map, List.getElem?_range hlt, Option.map_some, Option.map_some,
      hrouted.source_eq, hrouted.destination_eq, hrouted.rate_eq]
    rfl
  · rw [List.getElem?_eq_none (by simpa [hlength] using hge), List.getElem?_eq_none (by simpa using hge)]

/-- The greedy allocator returns the flows up to the first that does not fit. -/
theorem exists_firstRejected (hsearch : search.Documented graph) (hconn : graph.Connected)
    (hdraws : ∀ turn, (draws turn).Drawn graph) :
    ∃ count linkUtilization, FirstRejected search graph draws count ∧
      ∀ fuel : Nat, graph.edges.length * linkCapacity / flowTxRateLowerBound < fuel →
        computeGreedyFlowAllocations search fuel graph draws =
          some (flowsBefore search draws count, linkUtilization) := by
  obtain ⟨point, hpoint, hstops, hrun⟩ := exists_stop hsearch hconn hdraws
  obtain ⟨visited, hinv⟩ := hpoint.invariant hsearch hconn hdraws
  have hflows : point.flows = flowsBefore search draws point.turn := hinv.flows_eq
  rw [hflows] at hrun
  exact ⟨point.turn, point.linkUtilization,
    hinv.firstRejected (fun turn => turnPaths_spec hsearch hconn (hdraws turn)) hdraws hstops, hrun⟩

/-- The path hopping allocator returns the flows that can be embedded in equal parts. -/
theorem exists_computePathHoppingFlowsIlp_first (hsearch : search.Documented graph)
    (hdraws : ∀ turn, (draws turn).Drawn graph) {K : Nat} (hK : 0 < K)
    {solve : LinModel KPathsVar → Option (KPathsVar → ℚ)}
    (hsolve : AnswersRounds search draws (hoppingModel graph K) solve) {count : Nat}
    (hcount : AdmitsExactly search draws graph (EqualParts K) count) :
    ∃ flows utilization, AreFirst draws count flows ∧ ∀ fuel, count < fuel →
      computePathHoppingFlowsIlp solve search fuel graph K draws = some (flows, utilization) := by
  cases count with
  | zero => exact ⟨[], .empty, rfl, fun fuel => computePathHoppingFlowsIlp_of_none hsearch hdraws hK hsolve hcount⟩
  | succ last =>
      obtain ⟨model, x, -, -, -, hrun⟩ := exists_computePathHoppingFlowsIlp_eq hsearch hdraws hK hsolve hcount
      exact ⟨_, _, areFirst_splitBy (last + 1) x, hrun⟩

end Compared

/-- The allocators on the same draws. Each of them returns the flows of the first draws, and they are ordered by how
many: the greedy and the path hopping allocator never admit a flow that the splitting solver does not, which never
admits one that the multi-commodity flow does not. -/
theorem allocators_compared (graph : Graph) (hconn : graph.Connected) (hedges : graph.edges.length < 1000)
    (search : PathSearch) (hsearch : search.Documented graph) (draws : Nat → GreedyDraw)
    (hdraws : ∀ turn, (draws turn).Drawn graph) (K : Nat) (hK : 0 < K)
    (solve solve' : LinModel KPathsVar → Option (KPathsVar → ℚ))
    (hsolve : AnswersRounds search draws (createKPathsModel graph) solve)
    (hsolve' : AnswersRounds search draws (hoppingModel graph K) solve')
    (solveMcf : LinModel McfVar → Option (McfVar → ℚ)) (hsolveMcf : AnswersMcf graph (mcfDraws draws) solveMcf) :
    ∃ greedy hopping split mcf : Nat, greedy ≤ split ∧ hopping ≤ split ∧ split ≤ mcf ∧ 0 < split ∧
      ∃ bound, ∀ fuel ≥ bound,
        (∃ flows utilization, computeGreedyFlowAllocations search fuel graph draws = some (flows, utilization) ∧
          AreFirst draws greedy flows) ∧
        (∃ flows utilization, computePathHoppingFlowsIlp solve' search fuel graph K draws = some (flows, utilization) ∧
          AreFirst draws hopping flows) ∧
        (∀ flows utilization, computeIlpFlows solve search fuel graph draws = some (flows, utilization) →
          AreFirst draws split flows) ∧
        ∃ flows utilization, computeMcfFlows graph (mcfDraws draws) solveMcf fuel = some (flows, utilization) ∧
          AreFirst draws mcf flows := by
  have hpaths : ∀ turn, TurnPaths graph (turnPaths search draws turn) :=
    fun turn => turnPaths_spec hsearch hconn (hdraws turn)
  obtain ⟨greedy, greedyUtilization, hrejected, hgreedy⟩ := exists_firstRejected hsearch hconn hdraws
  obtain ⟨hopping, -, hcountHopping⟩ :=
    exists_admitsExactly hsearch hdraws fun _ _ (h : EqualParts K _ _) => h.isSplitting
  obtain ⟨hoppingFlows, hoppingUtilization, hfirstHopping, hhopping⟩ :=
    exists_computePathHoppingFlowsIlp_first hsearch hdraws hK hsolve' hcountHopping
  obtain ⟨split, x, hpos, hcountSplit, hsplit⟩ := exists_computeIlpFlows_eq hsearch hconn hdraws hsolve
  obtain ⟨mcf, -, hcountMcf⟩ := exists_mcfAdmits (drawn_mcfDraws hdraws)
  obtain ⟨routed, mcfUtilization, ⟨bound, hmcf⟩, hlength, hrouted, -⟩ :=
    exists_computeMcfFlows_eq hedges (drawn_mcfDraws hdraws) hsolveMcf hcountMcf
  refine ⟨greedy, hopping, split, mcf, ?_, ?_, ?_, hpos, bound + 10 * graph.edges.length + hopping + 1,
    fun fuel hfuel => ?_⟩
  · exact admitted_le hrejected.fits_before hcountSplit.rejected fun turn => embeddable_of_fits hpaths
  · have hweaker : ∀ turn, Embeddable graph (EqualParts K) (roundFlows search draws (turn + 1)) →
        Embeddable graph IsSplitting (roundFlows search draws (turn + 1)) := by
      rintro turn ⟨ratio, hparts, hcap⟩
      exact ⟨ratio, hparts.isSplitting, hcap⟩
    exact admitted_le hcountHopping.admitted hcountSplit.rejected hweaker
  · exact admitted_le hcountSplit.admitted hcountMcf.rejected fun turn => mcfFits_of_embeddable hsearch hdraws
  have henough : graph.edges.length * linkCapacity / flowTxRateLowerBound < (fuel : ℚ) := by
    rw [flowCount_bound, Nat.cast_lt]
    omega
  refine ⟨⟨_, _, hgreedy fuel henough, areFirst_flowsBefore greedy⟩, ⟨_, _, hhopping fuel (by omega), hfirstHopping⟩,
    fun flows utilization hreturned => ?_, ⟨_, _, hmcf fuel (by omega), areFirst_of_routedAs hlength hrouted⟩⟩
  rw [hsplit fuel henough] at hreturned
  obtain ⟨utilization', -, heq⟩ := Option.map_eq_some_iff.mp hreturned
  obtain ⟨rfl, -⟩ := Prod.mk.inj heq
  exact areFirst_splitBy split x

/-- Equal parts can be put on the paths in finitely many ways, so that an optimal one exists. -/
theorem answersRounds_hopping {search : PathSearch} {graph : Graph} {draws : Nat → GreedyDraw}
    (hsearch : search.Documented graph) (hdraws : ∀ turn, (draws turn).Drawn graph) {K : Nat} (hK : 0 < K) :
    AnswersRounds search draws (hoppingModel graph K) (LinModel.solve .alpha) := by
  intro turn model hmodel
  obtain ⟨model', hround⟩ := exists_hoppingRound hsearch hdraws hK turn
  obtain rfl : model' = model := Option.some.inj (hround.created.symm.trans hmodel)
  apply LinModel.answer_solve
  intro x hx
  obtain ⟨ratio, hleast⟩ := exists_leastLoaded ⟨_, hround.exact.sound x hx⟩
  exact hround.exists_optimal hleast

theorem allocators_compared_oneLink : ∃ greedy mcf : Nat, greedy ≤ mcf ∧ 0 < mcf ∧ ∃ bound, ∀ fuel ≥ bound,
    (∃ flows utilization, computeGreedyFlowAllocations (treeSearch oneLink) fuel oneLink (alwaysBetween 0 1) =
      some (flows, utilization) ∧ flows.length = greedy) ∧
    ∃ flows utilization, computeMcfFlows oneLink (mcfDraws (alwaysBetween 0 1)) (LinModel.solve .alpha) fuel =
      some (flows, utilization) ∧ flows.length = mcf := by
  have hdraws := @drawn_alwaysBetween oneLink 0 1 (by decide) (by decide) (by decide)
  have hsolve : AnswersRounds (treeSearch oneLink) (alwaysBetween 0 1) (createKPathsModel oneLink)
      (LinModel.solve .alpha) := by
    apply answersRounds_of_single (treeSearch_documented _) hdraws
    intro turn
    show (routesBetween oneLink 0 1).length = 1
    decide +kernel
  have hlength : ∀ {count : Nat} {flows : List Flow}, AreFirst (alwaysBetween 0 1) count flows →
      flows.length = count := by
    intro count flows hfirst
    simpa using congrArg List.length hfirst
  obtain ⟨greedy, hopping, split, mcf, hgreedy, -, hmcf, hpos, bound, hrun⟩ := allocators_compared oneLink
    oneLink_connected (by decide) (treeSearch oneLink) (treeSearch_documented _) (alwaysBetween 0 1) hdraws 1
    Nat.one_pos (LinModel.solve .alpha) (LinModel.solve .alpha) hsolve
    (answersRounds_hopping (treeSearch_documented _) hdraws Nat.one_pos) (LinModel.solve .alpha)
    answersMcf_overTheLink
  refine ⟨greedy, mcf, hgreedy.trans hmcf, lt_of_lt_of_le hpos hmcf, bound, fun fuel hfuel => ?_⟩
  obtain ⟨⟨flows, utilization, hflows, hfirst⟩, -, -, flows', utilization', hflows', hfirst'⟩ := hrun fuel hfuel
  exact ⟨⟨flows, utilization, hflows, hlength hfirst⟩, flows', utilization', hflows', hlength hfirst'⟩

end OfTestbed.FlowAllocation
