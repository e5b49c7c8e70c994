import Mathlib.Algebra.BigOperators.Group.List.Basic
import Mathlib.Tactic.FieldSimp
import OfTestbed.LibDefaultDict
import OfTestbed.LibGroup
import OfTestbed.FlowAllocationCore

/-!
The allocators that work without a solver. What they draw at random is an argument: the destination of each node,
the source and the destinations of a test, the end points and rates of the greedy allocator. The path searches of
networkx are a parameter, with what their documentation says as a hypothesis. `none` is an exception, or a `while`
loop that has not ended yet.
-/

namespace OfTestbed.FlowAllocation

open Lib

/-- The path searches of networkx on a graph. -/
structure PathSearch where
  allSimplePaths : NodeId → NodeId → Nat → List Path
  nodeDisjointPaths : NodeId → NodeId → List Path
  shortestPath : NodeId → NodeId → Path

/-- What the documentation of networkx says about them. -/
structure PathSearch.Documented (search : PathSearch) (graph : Graph) : Prop where
  nodup_allSimplePaths : ∀ s t cutoff, (search.allSimplePaths s t cutoff).Nodup
  mem_allSimplePaths : ∀ s ∈ graph.nodes, ∀ t ∈ graph.nodes, s ≠ t → ∀ cutoff path,
    path ∈ search.allSimplePaths s t cutoff ↔
      Route (fun u v => (u, v) ∈ graph.arcs) s t path ∧ path.length ≤ cutoff + 1
  route_of_mem_nodeDisjointPaths : ∀ s ∈ graph.nodes, ∀ t ∈ graph.nodes, s ≠ t →
    ∀ path ∈ search.nodeDisjointPaths s t, Route (fun u v => (u, v) ∈ graph.arcs) s t path
  nodeDisjointPaths_ne_nil : ∀ s ∈ graph.nodes, ∀ t ∈ graph.nodes, s ≠ t →
    (∃ path, Route (fun u v => (u, v) ∈ graph.arcs) s t path) → search.nodeDisjointPaths s t ≠ []
  route_shortestPath : ∀ s ∈ graph.nodes, ∀ t ∈ graph.nodes, s ≠ t →
    (∃ path, Route (fun u v => (u, v) ∈ graph.arcs) s t path) →
      Route (fun u v => (u, v) ∈ graph.arcs) s t (search.shortestPath s t)

/-! ### The allocators -/

variable (search : PathSearch)

/-- `islice(sorted(all_simple_paths(…, cutoff=3), key=len), K)`. -/
def kShortestPaths (sourceNode destinationNode : NodeId) (K : Nat) : List Path :=
  (sortedBy List.length (search.allSimplePaths sourceNode destinationNode 3)).take K

def computeEqualFlowAllocations (targetGraph : Graph) (destinationOf : NodeId → NodeId) (K : Nat) :
    Nat × List Flow :=
  (0xDEADBEEF, targetGraph.nodes.map fun node =>
    { sourceNode := node
      destinationNode := destinationOf node
      flowTxRate := 10
      paths := kShortestPaths search node (destinationOf node) K
      splittingRatio := List.replicate K (1 / K) })

def computeUnequalFlowAllocations (targetGraph : Graph) (destinationOf : NodeId → NodeId) : Nat × List Flow :=
  (0xDEADBEEF, targetGraph.nodes.map fun node =>
    { sourceNode := node
      destinationNode := destinationOf node
      flowTxRate := 10
      paths := [search.shortestPath node (destinationOf node)]
      splittingRatio := [1] })

/-- `link_utilization[u, v] += flow_rate_per_subpath`, for one link after the other. -/
def addUtilization (flowRatePerSubpath : ℚ) (linkUtilization : Dict (NodeId × NodeId) ℚ)
    (links : List (NodeId × NodeId)) :
    Option (Dict (NodeId × NodeId) ℚ) :=
  links.foldlM (fun (d : Dict (NodeId × NodeId) ℚ) link =>
    d.update? link fun used => some (used + flowRatePerSubpath)) linkUtilization

/-- The state of the test allocator: the flows so far and the utilization of the links. -/
abbrev TestState := List Flow × Dict (NodeId × NodeId) ℚ

def addTestFlow (sourceNode : NodeId) (K : Nat) (state : TestState) (destinationNode : NodeId) : Option TestState := do
  let paths := kShortestPaths search sourceNode destinationNode K
  let flowTxRate : ℚ := 10
  let linkUtilization ← addUtilization (flowTxRate / K) state.2
    (paths.flatMap fun path => (pairwise path).map sortedLink)
  return (state.1 ++ [{ sourceNode := sourceNode
                        destinationNode := destinationNode
                        flowTxRate := flowTxRate / 10
                        paths := paths
                        splittingRatio := List.replicate K (1 / K) }], linkUtilization)

/-- The links are looked up sorted, but kept as the graph lists them. -/
def computeTestFlowAllocations (targetGraph : Graph) (sourceNode : NodeId) (destinationNodes : List NodeId) (K : Nat) :
    Option (Nat × TestState) := do
  let state ← destinationNodes.foldlM (addTestFlow search sourceNode K)
    ([], .ofList (targetGraph.edges.map fun link => (link, 0)))
  return (123456789, state)

structure GreedyDraw where
  sourceNode : NodeId
  destinationNode : NodeId
  flowTxRate : ℚ

/-- Put a share of a flow on the links of a path; `true` when a link would exceed its capacity. -/
def addAlongLinks (flowRatePerSubpath : ℚ) :
    Dict (NodeId × NodeId) ℚ → List (NodeId × NodeId) → Option (Dict (NodeId × NodeId) ℚ × Bool)
  | linkUtilization, [] => some (linkUtilization, false)
  | linkUtilization, link :: links => do
      let used ← linkUtilization.get? link
      if linkCapacity < used + flowRatePerSubpath then some (linkUtilization, true)
      else addAlongLinks flowRatePerSubpath (linkUtilization.set link (used + flowRatePerSubpath)) links

def addAlongPaths (flowRatePerSubpath : ℚ) :
    Dict (NodeId × NodeId) ℚ → List Path → Option (Dict (NodeId × NodeId) ℚ × Bool)
  | linkUtilization, [] => some (linkUtilization, false)
  | linkUtilization, path :: paths => do
      let (linkUtilization, exceeded) ←
        addAlongLinks flowRatePerSubpath linkUtilization ((pairwise path).map sortedLink)
      if exceeded then some (linkUtilization, true)
      else addAlongPaths flowRatePerSubpath linkUtilization paths

def greedyFlow (draw : GreedyDraw) (connectingPaths : List Path) : Flow where
  sourceNode := draw.sourceNode
  destinationNode := draw.destinationNode
  flowTxRate := draw.flowTxRate
  paths := connectingPaths
  splittingRatio := List.replicate connectingPaths.length (1 / connectingPaths.length)

/-- `while True`: the draws are a stream, `turn` counts the flows tried. -/
def greedyLoop (draws : Nat → GreedyDraw) :
    Nat → Nat → List Flow → Dict (NodeId × NodeId) ℚ → Option (List Flow × Dict (NodeId × NodeId) ℚ)
  | 0, _, _, _ => none
  | fuel + 1, turn, flows, linkUtilization =>
      let draw := draws turn
      let connectingPaths := search.nodeDisjointPaths draw.sourceNode draw.destinationNode
      let disjointPathCount := connectingPaths.length
      -- the division by the number of paths
      if disjointPathCount = 0 then none
      else
        match addAlongPaths (draw.flowTxRate / disjointPathCount) linkUtilization connectingPaths with
        | none => none
        | some (linkUtilization, true) => some (flows, linkUtilization)
        | some (linkUtilization, false) =>
            greedyLoop draws fuel (turn + 1) (flows ++ [greedyFlow draw connectingPaths]) linkUtilization

def computeGreedyFlowAllocations (fuel : Nat) (targetGraph : Graph) (draws : Nat → GreedyDraw) :
    Option (List Flow × Dict (NodeId × NodeId) ℚ) :=
  greedyLoop search draws fuel 0 [] (.ofList (targetGraph.edges.map fun link => (sortedLink link, 0)))

def singleFlow (sourceNode destinationNode : NodeId) : Nat × List Flow :=
  let disjointPaths := search.nodeDisjointPaths sourceNode destinationNode
  (0xCAFEBABE, [{ sourceNode := sourceNode
                  destinationNode := destinationNode
                  flowTxRate := 1 / 2
                  paths := disjointPaths
                  splittingRatio := [1] ++ List.replicate (disjointPaths.length - 1) 0 }])

/-! ### Well-formed flows -/

/-- A path of the graph between two nodes. -/
structure IsPath (graph : Graph) (s t : NodeId) (path : Path) : Prop where
  head : path.head? = some s
  last : path.getLast? = some t
  chain : path.IsChain fun u v => (u, v) ∈ graph.arcs

structure WellFormed (graph : Graph) (flow : Flow) : Prop where
  paths_ne_nil : flow.paths ≠ []
  isPath : ∀ path ∈ flow.paths, IsPath graph flow.sourceNode flow.destinationNode path
  length_eq : flow.splittingRatio.length = flow.paths.length
  nonneg : ∀ ratio ∈ flow.splittingRatio, 0 ≤ ratio
  sum_eq : flow.splittingRatio.sum = 1

/-- The two nodes are joined by `K` different simple paths of at most three links. -/
def HasShortPaths (graph : Graph) (K : Nat) (s t : NodeId) : Prop :=
  ∃ paths : List Path, paths.Nodup ∧ paths.length = K ∧
    ∀ path ∈ paths, Route (fun u v => (u, v) ∈ graph.arcs) s t path ∧ path.length ≤ 4

variable {search} {graph : Graph}

theorem isPath_of_route {s t : NodeId} {path : Path} (h : Route (fun u v => (u, v) ∈ graph.arcs) s t path) :
    IsPath graph s t path :=
  ⟨h.head, h.last, h.chain⟩

theorem sum_replicate_share {K : Nat} (hK : 0 < K) : (List.replicate K (1 / K : ℚ)).sum = 1 := by
  have hne : (K : ℚ) ≠ 0 := Nat.cast_ne_zero.mpr (Nat.pos_iff_ne_zero.mp hK)
  rw [List.sum_replicate, nsmul_eq_mul, mul_one_div, div_self hne]

/-- Equal shares for each of the paths. -/
theorem WellFormed.of_equal_shares {flow : Flow} (hne : flow.paths ≠ [])
    (hpaths : ∀ path ∈ flow.paths, IsPath graph flow.sourceNode flow.destinationNode path)
    (hratio : flow.splittingRatio = List.replicate flow.paths.length (1 / flow.paths.length : ℚ)) :
      WellFormed graph flow := by
  refine ⟨hne, hpaths, by simp [hratio], fun ratio hmem => ?_, ?_⟩
  · rw [hratio] at hmem
    rw [List.eq_of_mem_replicate hmem]
    exact div_nonneg zero_le_one (Nat.cast_nonneg _)
  · rw [hratio]
    exact sum_replicate_share (List.length_pos_iff.mpr hne)

section

variable (hsearch : search.Documented graph)
include hsearch

theorem hasShortPaths_iff {s t : NodeId} (hs : s ∈ graph.nodes) (ht : t ∈ graph.nodes) (hne : s ≠ t) (K : Nat) :
    HasShortPaths graph K s t ↔ K ≤ (search.allSimplePaths s t 3).length := by
  constructor
  · rintro ⟨paths, hnodup, rfl, hpaths⟩
    refine (List.subperm_of_subset hnodup fun path hpath => ?_).length_le
    exact (hsearch.mem_allSimplePaths s hs t ht hne 3 path).mpr (hpaths path hpath)
  · intro hle
    refine ⟨(search.allSimplePaths s t 3).take K,
      (hsearch.nodup_allSimplePaths s t 3).sublist (List.take_sublist _ _), ?_, ?_⟩
    · rw [List.length_take]
      omega
    · intro path hpath
      exact (hsearch.mem_allSimplePaths s hs t ht hne 3 path).mp (List.mem_of_mem_take hpath)

/-- A flow split into `K` equal parts over the `K` shortest of the short paths. -/
theorem wellFormed_kShortest_iff {K : Nat} (hK : 0 < K) {flow : Flow} (hs : flow.sourceNode ∈ graph.nodes)
    (ht : flow.destinationNode ∈ graph.nodes) (hne : flow.sourceNode ≠ flow.destinationNode)
    (hpaths : flow.paths = kShortestPaths search flow.sourceNode flow.destinationNode K)
    (hratio : flow.splittingRatio = List.replicate K (1 / K : ℚ)) :
    WellFormed graph flow ↔ HasShortPaths graph K flow.sourceNode flow.destinationNode := by
  have hlength : flow.paths.length = min K (search.allSimplePaths flow.sourceNode flow.destinationNode 3).length := by
    rw [hpaths, kShortestPaths, List.length_take, (perm_sortedBy _ _).length_eq]
  rw [hasShortPaths_iff hsearch hs ht hne]
  constructor
  · intro hwell
    have heq := hwell.length_eq
    rw [hratio, List.length_replicate, hlength] at heq
    omega
  · intro hle
    have hcount : flow.paths.length = K := by omega
    refine WellFormed.of_equal_shares (List.length_pos_iff.mp (by omega)) (fun path hpath => ?_)
      (by rw [hratio, hcount])
    rw [hpaths] at hpath
    have hmem := mem_sortedBy.mp (List.mem_of_mem_take hpath)
    exact isPath_of_route ((hsearch.mem_allSimplePaths _ hs _ ht hne 3 path).mp hmem).1

/-! ### What each allocator returns -/

theorem equal_wellFormed_iff {destinationOf : NodeId → NodeId}
    (hdraws : ∀ node ∈ graph.nodes, destinationOf node ∈ graph.nodes ∧ node ≠ destinationOf node)
    {K : Nat} (hK : 0 < K) :
    (∀ flow ∈ (computeEqualFlowAllocations search graph destinationOf K).2, WellFormed graph flow) ↔
      ∀ node ∈ graph.nodes, HasShortPaths graph K node (destinationOf node) := by
  simp only [computeEqualFlowAllocations, List.forall_mem_map]
  refine forall₂_congr fun node hnode => ?_
  exact wellFormed_kShortest_iff hsearch hK hnode (hdraws node hnode).1 (hdraws node hnode).2 rfl rfl

theorem unequal_wellFormed (hconn : graph.Connected) {destinationOf : NodeId → NodeId}
    (hdraws : ∀ node ∈ graph.nodes, destinationOf node ∈ graph.nodes ∧ node ≠ destinationOf node) :
    ∀ flow ∈ (computeUnequalFlowAllocations search graph destinationOf).2, WellFormed graph flow := by
  simp only [computeUnequalFlowAllocations, List.forall_mem_map]
  intro node hnode
  obtain ⟨hdest, hne⟩ := hdraws node hnode
  have hroute := hsearch.route_shortestPath node hnode _ hdest hne (exists_route (hconn node hnode _ hdest))
  refine WellFormed.of_equal_shares (by simp) (fun path hpath => ?_) (by simp)
  rw [List.mem_singleton.mp hpath]
  exact isPath_of_route hroute

theorem single_wellFormed (hconn : graph.Connected) {s t : NodeId} (hs : s ∈ graph.nodes) (ht : t ∈ graph.nodes)
    (hne : s ≠ t) : ∀ flow ∈ (singleFlow search s t).2, WellFormed graph flow := by
  intro flow hflow
  obtain rfl := List.mem_singleton.mp hflow
  have hpaths := hsearch.nodeDisjointPaths_ne_nil s hs t ht hne (exists_route (hconn s hs t ht))
  have hpos := List.length_pos_iff.mpr hpaths
  refine ⟨hpaths, fun path hpath => ?_, ?_, ?_, ?_⟩
  · exact isPath_of_route (hsearch.route_of_mem_nodeDisjointPaths s hs t ht hne path hpath)
  · simp only [List.length_append, List.length_singleton, List.length_replicate]
    omega
  · intro ratio hratio
    rcases List.mem_append.mp hratio with hone | hzero
    · rw [List.mem_singleton.mp hone]
      exact zero_le_one
    · rw [List.eq_of_mem_replicate hzero]
  · simp

theorem greedyFlow_wellFormed (hconn : graph.Connected) {draw : GreedyDraw} (hs : draw.sourceNode ∈ graph.nodes)
    (ht : draw.destinationNode ∈ graph.nodes) (hne : draw.sourceNode ≠ draw.destinationNode) :
    WellFormed graph (greedyFlow draw (search.nodeDisjointPaths draw.sourceNode draw.destinationNode)) := by
  have hpaths := hsearch.nodeDisjointPaths_ne_nil _ hs _ ht hne (exists_route (hconn _ hs _ ht))
  refine WellFormed.of_equal_shares hpaths (fun path hpath => ?_) rfl
  exact isPath_of_route (hsearch.route_of_mem_nodeDisjointPaths _ hs _ ht hne path hpath)

/-- Every turn of the greedy loop keeps the flows well formed. -/
theorem greedy_wellFormed (hconn : graph.Connected) {draws : Nat → GreedyDraw}
    (hdraws : ∀ turn, (draws turn).sourceNode ∈ graph.nodes ∧ (draws turn).destinationNode ∈ graph.nodes ∧
      (draws turn).sourceNode ≠ (draws turn).destinationNode)
    {fuel turn : Nat} {flows final : List Flow} {linkUtilization linkUtilization' : Dict (NodeId × NodeId) ℚ}
    (hflows : ∀ flow ∈ flows, WellFormed graph flow)
    (hrun : greedyLoop search draws fuel turn flows linkUtilization = some (final, linkUtilization')) :
    ∀ flow ∈ final, WellFormed graph flow := by
  induction fuel generalizing turn flows linkUtilization with
  | zero => cases hrun
  | succ fuel ih =>
      rw [greedyLoop] at hrun
      split at hrun
      · cases hrun
      · split at hrun
        · cases hrun
        · cases hrun
          exact hflows
        · refine ih (fun flow hflow => ?_) hrun
          rcases List.mem_append.mp hflow with hold | hnew
          · exact hflows flow hold
          · obtain ⟨hs, ht, hne⟩ := hdraws turn
            rw [List.mem_singleton.mp hnew]
            exact greedyFlow_wellFormed hsearch hconn hs ht hne

end

/-! ### The test allocator -/

/-- The links of the paths are links as the graph lists them. -/
def LinksListed (graph : Graph) (paths : List Path) : Prop :=
  ∀ path ∈ paths, ∀ hop ∈ pairwise path, sortedLink hop ∈ graph.edges

def testFlow (search : PathSearch) (sourceNode : NodeId) (K : Nat) (destinationNode : NodeId) : Flow where
  sourceNode := sourceNode
  destinationNode := destinationNode
  flowTxRate := 10 / 10
  paths := kShortestPaths search sourceNode destinationNode K
  splittingRatio := List.replicate K (1 / K)

theorem keys_addUtilization {rate : ℚ} {d d' : Dict (NodeId × NodeId) ℚ} {links : List (NodeId × NodeId)}
    (h : addUtilization rate d links = some d') : d'.keys = d.keys := by
  refine foldlM_preserves (fun d' => d'.keys = d.keys) (fun link _ d₁ d₂ hd₁ hupdate => ?_) rfl h
  exact (Dict.keys_update? hupdate).trans hd₁

/-- Adding up along links succeeds when they are all there. -/
theorem isSome_addUtilization_iff (rate : ℚ) (d : Dict (NodeId × NodeId) ℚ) (links : List (NodeId × NodeId)) :
    (addUtilization rate d links).isSome ↔ ∀ link ∈ links, link ∈ d.keys :=
  Dict.isSome_foldlM_update?_iff links id (fun _ => rate) d

section

variable {sourceNode destinationNode : NodeId} {K : Nat} {state state' : TestState}

theorem addTestFlow_eq_some (h : addTestFlow search sourceNode K state destinationNode = some state') :
    state'.1 = state.1 ++ [testFlow search sourceNode K destinationNode] ∧ state'.2.keys = state.2.keys := by
  rw [addTestFlow, Option.bind_eq_bind, Option.bind_eq_some_iff] at h
  obtain ⟨linkUtilization, hadd, hresult⟩ := h
  cases hresult
  exact ⟨rfl, keys_addUtilization hadd⟩

theorem isSome_addTestFlow_iff (hkeys : state.2.keys = graph.edges) :
    (addTestFlow search sourceNode K state destinationNode).isSome ↔
      LinksListed graph (kShortestPaths search sourceNode destinationNode K) := by
  have hsome := isSome_addUtilization_iff (10 / K) state.2
    ((kShortestPaths search sourceNode destinationNode K).flatMap fun path => (pairwise path).map sortedLink)
  rw [hkeys] at hsome
  simp only [List.forall_mem_flatMap, List.forall_mem_map] at hsome
  rw [LinksListed, ← hsome, addTestFlow, Option.bind_eq_bind, Option.isSome_bind]
  cases addUtilization (10 / K) state.2
    ((kShortestPaths search sourceNode destinationNode K).flatMap fun path => (pairwise path).map sortedLink) <;> simp

/-- The test allocator returns a flow for every destination drawn, or raises when a link is not found. -/
theorem testRun_flows {destinationNodes : List NodeId}
    (h : destinationNodes.foldlM (addTestFlow search sourceNode K) state = some state') :
    state'.1 = state.1 ++ destinationNodes.map (testFlow search sourceNode K) := by
  refine foldlM_partial (fun done s => s.1 = state.1 ++ done.map (testFlow search sourceNode K)) (by simp) ?_ h
  intro done destinationNode rest s s' _ hinv hadd
  rw [(addTestFlow_eq_some hadd).1, hinv, List.map_append, List.append_assoc]
  rfl

theorem isSome_testRun_iff {destinationNodes : List NodeId} (hkeys : state.2.keys = graph.edges) :
    (destinationNodes.foldlM (addTestFlow search sourceNode K) state).isSome ↔
      ∀ destinationNode ∈ destinationNodes,
        LinksListed graph (kShortestPaths search sourceNode destinationNode K) := by
  induction destinationNodes generalizing state with
  | nil => simp
  | cons destinationNode rest ih =>
      rw [List.foldlM_cons, List.forall_mem_cons, ← isSome_addTestFlow_iff hkeys]
      cases hadd : addTestFlow search sourceNode K state destinationNode with
      | none => simp
      | some next =>
          have hnext : next.2.keys = graph.edges := (addTestFlow_eq_some hadd).2.trans hkeys
          simpa using ih hnext

end

theorem test_wellFormed_iff (hsearch : search.Documented graph) {sourceNode : NodeId} {destinationNodes : List NodeId}
    (hsource : sourceNode ∈ graph.nodes)
    (hdraws : ∀ node ∈ destinationNodes, node ∈ graph.nodes ∧ sourceNode ≠ node) {K : Nat} (hK : 0 < K) :
    (∀ result, computeTestFlowAllocations search graph sourceNode destinationNodes K = some result →
        ∀ flow ∈ result.2.1, WellFormed graph flow) ↔
      ((∀ node ∈ destinationNodes, LinksListed graph (kShortestPaths search sourceNode node K)) →
        ∀ node ∈ destinationNodes, HasShortPaths graph K sourceNode node) := by
  have hedges : graph.edges.Nodup := Graph.edges_nodup.of_map
  have hkeys : (Dict.ofList (graph.edges.map fun link => (link, (0 : ℚ)))).keys = graph.edges := by
    have hmap : (graph.edges.map fun link => (link, (0 : ℚ))).map Prod.fst = graph.edges := by
      simp [Function.comp_def]
    rw [Dict.keys, Dict.entries_ofList (by rwa [hmap]), hmap]
  have hsome : (destinationNodes.foldlM (addTestFlow search sourceNode K)
      ([], Dict.ofList (graph.edges.map fun link => (link, 0)))).isSome ↔
        ∀ node ∈ destinationNodes, LinksListed graph (kShortestPaths search sourceNode node K) :=
          isSome_testRun_iff hkeys
  rw [← hsome]
  have hflow : ∀ node ∈ destinationNodes, (WellFormed graph (testFlow search sourceNode K node) ↔
      HasShortPaths graph K sourceNode node) := fun node hnode =>
    wellFormed_kShortest_iff hsearch hK hsource (hdraws node hnode).1 (hdraws node hnode).2 rfl rfl
  rw [computeTestFlowAllocations]
  cases hrun : destinationNodes.foldlM (addTestFlow search sourceNode K)
      ([], Dict.ofList (graph.edges.map fun link => (link, 0))) with
  | none => simp
  | some state =>
      have hflows := testRun_flows hrun
      rw [List.nil_append] at hflows
      simp only [Option.bind_eq_bind, Option.bind_some, Option.pure_def, Option.some.injEq, forall_eq', hflows,
        List.forall_mem_map, Option.isSome_some, forall_true_left]
      exact forall₂_congr hflow

/-! ### All allocators -/

/-- The outcomes of the random draws of the five allocators on a graph; `np.random.choice` returns nodes out of
the list it is given, different ones without replacement. -/
structure Draws (graph : Graph) where
  equalDestination : NodeId → NodeId
  equal_mem : ∀ node ∈ graph.nodes, equalDestination node ∈ graph.nodes ∧ node ≠ equalDestination node
  unequalDestination : NodeId → NodeId
  unequal_mem : ∀ node ∈ graph.nodes, unequalDestination node ∈ graph.nodes ∧ node ≠ unequalDestination node
  testSource : NodeId
  testSource_mem : testSource ∈ graph.nodes
  testDestinations : List NodeId
  test_mem : ∀ node ∈ testDestinations, node ∈ graph.nodes ∧ testSource ≠ node
  greedy : Nat → GreedyDraw
  greedy_mem : ∀ turn, (greedy turn).sourceNode ∈ graph.nodes ∧ (greedy turn).destinationNode ∈ graph.nodes ∧
    (greedy turn).sourceNode ≠ (greedy turn).destinationNode
  singleSource : NodeId
  singleDestination : NodeId
  single_mem : singleSource ∈ graph.nodes ∧ singleDestination ∈ graph.nodes ∧ singleSource ≠ singleDestination

/-- Every flow that one of the five allocators returns is well formed. -/
structure AllocationsWellFormed (search : PathSearch) (graph : Graph) (draws : Draws graph) (K : Nat) : Prop where
  equal : ∀ flow ∈ (computeEqualFlowAllocations search graph draws.equalDestination K).2, WellFormed graph flow
  test : ∀ result, computeTestFlowAllocations search graph draws.testSource draws.testDestinations K = some result →
    ∀ flow ∈ result.2.1, WellFormed graph flow
  greedy : ∀ fuel result, computeGreedyFlowAllocations search fuel graph draws.greedy = some result →
    ∀ flow ∈ result.1, WellFormed graph flow
  unequal : ∀ flow ∈ (computeUnequalFlowAllocations search graph draws.unequalDestination).2, WellFormed graph flow
  single : ∀ flow ∈ (singleFlow search draws.singleSource draws.singleDestination).2, WellFormed graph flow

/-- The flows are well formed exactly when the equal and the test allocator draw end points with `K` short paths
between them, the test allocator only where it does not raise. -/
theorem allocations_wellFormed_iff (graph : Graph) (hconn : graph.Connected) (search : PathSearch)
    (hsearch : search.Documented graph) (draws : Draws graph) (K : Nat) (hK : 0 < K) :
    AllocationsWellFormed search graph draws K ↔
      (∀ node ∈ graph.nodes, HasShortPaths graph K node (draws.equalDestination node)) ∧
      ((∀ node ∈ draws.testDestinations, LinksListed graph (kShortestPaths search draws.testSource node K)) →
        ∀ node ∈ draws.testDestinations, HasShortPaths graph K draws.testSource node) := by
  rw [← equal_wellFormed_iff hsearch draws.equal_mem hK,
    ← test_wellFormed_iff hsearch draws.testSource_mem draws.test_mem hK]
  refine ⟨fun h => ⟨h.equal, h.test⟩, fun h => ⟨h.1, h.2, ?_, ?_, ?_⟩⟩
  · intro fuel result hrun
    exact greedy_wellFormed hsearch hconn draws.greedy_mem (by simp) hrun
  · exact unequal_wellFormed hsearch hconn draws.unequal_mem
  · exact single_wellFormed hsearch hconn draws.single_mem.1 draws.single_mem.2.1 draws.single_mem.2.2

/-! ### Two nodes with one link -/

/-- The path searches on the graph with one link. -/
def directSearch : PathSearch where
  allSimplePaths := fun s t cutoff => if cutoff = 0 then [] else [[s, t]]
  nodeDisjointPaths := fun s t => [[s, t]]
  shortestPath := fun s t => [s, t]

theorem route_oneLink_iff {s t : NodeId} (hs : s ∈ oneLink.nodes) (ht : t ∈ oneLink.nodes) (hne : s ≠ t)
    {path : Path} :
    Route (fun u v => (u, v) ∈ oneLink.arcs) s t path ↔ path = [s, t] := by
  have harcs : ∀ u ∈ oneLink.nodes, ∀ v ∈ oneLink.nodes, u ≠ v → (u, v) ∈ oneLink.arcs := by decide
  constructor
  · intro hroute
    have hnodes : ∀ v ∈ path, v ∈ oneLink.nodes :=
      hroute.forall_mem (fun u v harc => (Graph.mem_nodes_of_mem_arcs harc).1) ht
    have hlength : path.length ≤ 2 := (List.subperm_of_subset hroute.nodup hnodes).length_le
    have hhead := hroute.head
    have hlast := hroute.last
    match path, hlength, hhead, hlast with
    | [a], _, hhead, hlast =>
        cases hhead
        cases hlast
        exact absurd rfl hne
    | [a, b], _, hhead, hlast =>
        cases hhead
        cases hlast
        rfl
  · rintro rfl
    exact ⟨rfl, rfl, List.isChain_pair.mpr (harcs s hs t ht hne), by simpa using hne⟩

theorem directSearch_documented : directSearch.Documented oneLink where
  nodup_allSimplePaths := by
    intro s t cutoff
    unfold directSearch
    dsimp only
    split
    · exact List.nodup_nil
    · exact List.nodup_singleton _
  mem_allSimplePaths := by
    intro s hs t ht hne cutoff path
    rw [route_oneLink_iff hs ht hne, directSearch]
    dsimp only
    split
    · refine ⟨fun hmem => (List.not_mem_nil hmem).elim, fun ⟨heq, hlength⟩ => ?_⟩
      rw [heq, List.length_cons, List.length_singleton] at hlength
      omega
    · rw [List.mem_singleton]
      refine ⟨fun heq => ⟨heq, ?_⟩, fun h => h.1⟩
      rw [heq, List.length_cons, List.length_singleton]
      omega
  route_of_mem_nodeDisjointPaths := by
    intro s hs t ht hne path hpath
    exact (route_oneLink_iff hs ht hne).mpr (List.mem_singleton.mp hpath)
  nodeDisjointPaths_ne_nil := by
    intro s _ t _ _ _
    exact List.cons_ne_nil _ _
  route_shortestPath := by
    intro s hs t ht hne _
    exact (route_oneLink_iff hs ht hne).mpr rfl

theorem oneLink_connected : oneLink.Connected := by
  intro u hu v hv
  by_cases hne : u = v
  · exact hne ▸ .refl
  · exact ((route_oneLink_iff hu hv hne).mpr rfl).reflTransGen

/-- Every node draws the other one. -/
def drawsOverOneLink : Draws oneLink where
  equalDestination := fun node => 1 - node
  equal_mem := by decide
  unequalDestination := fun node => 1 - node
  unequal_mem := by decide
  testSource := 0
  testSource_mem := by decide
  testDestinations := [1]
  test_mem := by decide
  greedy := fun _ => { sourceNode := 0, destinationNode := 1, flowTxRate := 1 / 2 }
  greedy_mem := fun _ => by decide
  singleSource := 0
  singleDestination := 1
  single_mem := by decide

theorem allocations_wellFormed_iff_oneLink :
    AllocationsWellFormed directSearch oneLink drawsOverOneLink 1 ↔
      (∀ node ∈ oneLink.nodes, HasShortPaths oneLink 1 node (1 - node)) ∧
      ((∀ node ∈ [1], LinksListed oneLink (kShortestPaths directSearch 0 node 1)) →
        ∀ node ∈ [1], HasShortPaths oneLink 1 0 node) :=
  allocations_wellFormed_iff oneLink oneLink_connected directSearch directSearch_documented drawsOverOneLink 1
    (by decide)

/-- With the default of three paths, the one path there is gets three ratios. -/
theorem three_ratios_for_one_path :
    oneLink.Connected ∧ directSearch.Documented oneLink ∧
    (computeEqualFlowAllocations directSearch oneLink drawsOverOneLink.equalDestination 3).2.head? =
      some { sourceNode := 0, destinationNode := 1, flowTxRate := 10, paths := [[0, 1]],
             splittingRatio := [1 / 3, 1 / 3, 1 / 3] } ∧
    ¬AllocationsWellFormed directSearch oneLink drawsOverOneLink 3 := by
  refine ⟨oneLink_connected, directSearch_documented, by decide +kernel, fun h => ?_⟩
  have hflow := h.equal _ List.mem_cons_self
  exact absurd hflow.length_eq (by decide)

end OfTestbed.FlowAllocation
