import OfTestbed.LibParallel
import OfTestbed.FlowAllocationCore
import OfTestbed.AttackersPlannedRounds

/-!
The graph on which the simulations run (`build_n_parallel_graph` in `path_hopping_simulator.py`): parallel chains of
nodes between a source and a sink. The nodes are numbered as they are made, chain after chain, and then the source and
the sink. The flow that `create_random_flow` makes on it has all chains as its paths.
-/

namespace OfTestbed.FlowAllocation.Graph

open Lib

/-- Adding a key to a dictionary: at the end, unless it is there. -/
def addKey (keys : List NodeId) (key : NodeId) : List NodeId := if key ∈ keys then keys else keys ++ [key]

@[simp] theorem mem_addKey {keys : List NodeId} {key key' : NodeId} :
    key' ∈ addKey keys key ↔ key' ∈ keys ∨ key' = key := by
  unfold addKey
  split <;> rename_i h
  · exact ⟨.inl, fun hor => hor.elim id fun heq => heq ▸ h⟩
  · simp

theorem nodup_addKey {keys : List NodeId} (h : keys.Nodup) (key : NodeId) : (addKey keys key).Nodup := by
  unfold addKey
  split
  · exact h
  · rename_i hkey
    exact List.nodup_append.mpr ⟨h, List.nodup_singleton key, fun a ha b hb heq => by simp_all⟩

/-- `nx.Graph()`. -/
def empty : Graph where
  nodes := []
  neighbors := fun _ => []
  nodes_nodup := List.nodup_nil
  neighbors_nodup := fun _ => List.nodup_nil
  neighbors_symm := fun _ _ h => by cases h
  mem_nodes := fun _ _ h => by cases h

def addNode (graph : Graph) (node : NodeId) : Graph :=
  { graph with
    nodes := addKey graph.nodes node
    nodes_nodup := nodup_addKey graph.nodes_nodup node
    mem_nodes := fun u v h => mem_addKey.mpr (.inl (graph.mem_nodes u v h)) }

/-- `adj[u][v] = {}`. -/
def connect (u v : NodeId) (neighbors : NodeId → List NodeId) (w : NodeId) : List NodeId :=
  if w = u then addKey (neighbors w) v else neighbors w

theorem mem_connect {neighbors : NodeId → List NodeId} {u v w x : NodeId} :
    x ∈ connect u v neighbors w ↔ x ∈ neighbors w ∨ (w = u ∧ x = v) := by
  unfold connect
  split_ifs with h <;> simp [h]

theorem nodup_connect {neighbors : NodeId → List NodeId} (h : ∀ w, (neighbors w).Nodup) (u v w : NodeId) :
    (connect u v neighbors w).Nodup := by
  unfold connect
  split_ifs
  · exact nodup_addKey (h w) v
  · exact h w

theorem mem_connect_connect {neighbors : NodeId → List NodeId} {u v w x : NodeId} :
    x ∈ connect v u (connect u v neighbors) w ↔ x ∈ neighbors w ∨ (w, x) = (u, v) ∨ (x, w) = (u, v) := by
  rw [mem_connect, mem_connect, Prod.mk.injEq, Prod.mk.injEq, or_assoc, and_comm (a := w = v)]

/-- Both end points are added where they are missing, and each becomes a neighbour of the other. -/
def addEdge (graph : Graph) (u v : NodeId) : Graph where
  nodes := addKey (addKey graph.nodes u) v
  neighbors := connect v u (connect u v graph.neighbors)
  nodes_nodup := nodup_addKey (nodup_addKey graph.nodes_nodup u) v
  neighbors_nodup := nodup_connect (nodup_connect graph.neighbors_nodup u v) v u
  neighbors_symm := by
    intro w x hx
    rw [mem_connect_connect] at hx ⊢
    exact hx.imp (graph.neighbors_symm w x) Or.symm
  mem_nodes := by
    intro w x hx
    rw [mem_connect_connect] at hx
    rw [mem_addKey, mem_addKey]
    obtain hx | hx | hx := hx
    · exact .inl (.inl (graph.mem_nodes w x hx))
    · exact .inr (Prod.mk.inj hx).2
    · exact .inl (.inr (Prod.mk.inj hx).1)

def addEdges (graph : Graph) (edges : List (NodeId × NodeId)) : Graph :=
  edges.foldl (fun graph edge => graph.addEdge edge.1 edge.2) graph

theorem mem_neighbors_addEdges {graph : Graph} {edges : List (NodeId × NodeId)} {w x : NodeId} :
    x ∈ (graph.addEdges edges).neighbors w ↔ x ∈ graph.neighbors w ∨ (w, x) ∈ edges ∨ (x, w) ∈ edges := by
  unfold addEdges
  induction edges generalizing graph with
  | nil => simp
  | cons edge rest ih =>
      rw [List.foldl_cons, ih, List.mem_cons, List.mem_cons]
      have hfirst : x ∈ (graph.addEdge edge.1 edge.2).neighbors w ↔
          x ∈ graph.neighbors w ∨ (w, x) = edge ∨ (x, w) = edge := mem_connect_connect
      rw [hfirst]
      rw [or_assoc, or_or_or_comm]

/-- Edges between nodes that are there add none. -/
theorem nodes_addEdges {graph : Graph} {edges : List (NodeId × NodeId)}
    (hends : ∀ edge ∈ edges, edge.1 ∈ graph.nodes ∧ edge.2 ∈ graph.nodes) :
    (graph.addEdges edges).nodes = graph.nodes := by
  unfold addEdges
  induction edges generalizing graph with
  | nil => rfl
  | cons edge rest ih =>
      obtain ⟨hedge, hrest⟩ := List.forall_mem_cons.mp hends
      have hnodes : (graph.addEdge edge.1 edge.2).nodes = graph.nodes := by
        show addKey (addKey graph.nodes edge.1) edge.2 = graph.nodes
        rw [addKey, addKey, if_pos hedge.1, if_pos hedge.2]
      rw [List.foldl_cons, ih, hnodes]
      rwa [hnodes]

theorem mem_neighbors_of_mem_edgesFrom {graph : Graph} {todo seen : List NodeId} {u v : NodeId}
    (h : (u, v) ∈ graph.edgesFrom seen todo) : v ∈ graph.neighbors u := by
  induction todo generalizing seen with
  | nil => cases h
  | cons w rest ih =>
      rw [edgesFrom, List.mem_append] at h
      obtain hfirst | hrest := h
      · obtain ⟨v', hv', heq⟩ := List.mem_map.mp hfirst
        cases heq
        exact List.mem_of_mem_filter hv'
      · exact ih hrest

/-- The edges that are listed are those between neighbours. -/
theorem sortedLink_mem_iff {graph : Graph} {u v : NodeId} :
    sortedLink (u, v) ∈ graph.edges.map sortedLink ↔ v ∈ graph.neighbors u := by
  rw [List.mem_map]
  constructor
  · rintro ⟨⟨u', v'⟩, hedge, heq⟩
    have hneighbors := mem_neighbors_of_mem_edgesFrom hedge
    obtain ⟨rfl, rfl⟩ | ⟨rfl, rfl⟩ := sortedLink_eq_iff.mp heq
    · exact hneighbors
    · exact graph.neighbors_symm _ _ hneighbors
  · intro hv
    obtain hedge | hedge := mem_edges_of_mem_arcs (mem_arcs.mpr hv)
    · exact ⟨(u, v), hedge, rfl⟩
    · exact ⟨(v, u), hedge, sortedLink_eq_iff.mpr (.inr ⟨rfl, rfl⟩)⟩

/-- A list of links without repeats that links the same nodes has as many members as the graph has edges. -/
theorem length_edges_eq {graph : Graph} {links : List (NodeId × NodeId)} (hnodup : (links.map sortedLink).Nodup)
    (hmem : ∀ u v, v ∈ graph.neighbors u ↔ (u, v) ∈ links ∨ (v, u) ∈ links) :
    graph.edges.length = links.length := by
  have hperm : (graph.edges.map sortedLink).Perm (links.map sortedLink) := by
    refine (List.perm_ext_iff_of_nodup edges_nodup hnodup).mpr fun link => ⟨fun hlink => ?_, fun hlink => ?_⟩
    · obtain ⟨⟨u, v⟩, -, rfl⟩ := List.mem_map.mp hlink
      rw [sortedLink_mem_iff, hmem] at hlink
      obtain hlink | hlink := hlink
      · exact List.mem_map_of_mem hlink
      · exact List.mem_map.mpr ⟨(v, u), hlink, sortedLink_eq_iff.mpr (.inr ⟨rfl, rfl⟩)⟩
    · obtain ⟨⟨u, v⟩, huv, rfl⟩ := List.mem_map.mp hlink
      rw [sortedLink_mem_iff, hmem]
      exact .inl huv
  simpa using hperm.length_eq

end OfTestbed.FlowAllocation.Graph

namespace OfTestbed.Simulator

open Lib
open FlowAllocation (Graph)

/-- The variables of the first loop; `path` is `p_i`. -/
structure Numbering where
  G : Graph
  paths : List Path
  path : Path
  nodeIdCounter : Nat

namespace Numbering

def start : Numbering := ⟨Graph.empty, [], [], 0⟩

/-- A turn of the inner loop: the next node of the path. -/
def addPathNode (vars : Numbering) : Numbering :=
  { vars with
    G := vars.G.addNode vars.nodeIdCounter
    path := vars.path ++ [(vars.nodeIdCounter : NodeId)]
    nodeIdCounter := vars.nodeIdCounter + 1 }

/-- A turn of the outer loop: the nodes of one path. -/
def addPath (pathLength : Nat) (vars : Numbering) : Numbering :=
  let vars := addPathNode^[pathLength] { vars with path := [] }
  { vars with paths := vars.paths ++ [vars.path] }

end Numbering

/-- A turn of the second loop, which raises for a path without nodes. -/
def addPathEdges (sourceNode sinkNode : NodeId) (G : Graph) (path : Path) : Option Graph := do
  let first ← path.head?
  let last ← path.getLast?
  return ((G.addEdge sourceNode first).addEdge sinkNode last).addEdges (pairwise path)

def buildNParallelGraph (numberOfPaths pathLength : Nat) : Option (Graph × NodeId × NodeId) := do
  let vars := (Numbering.addPath pathLength)^[numberOfPaths] .start
  let sourceNode : NodeId := vars.nodeIdCounter
  let sinkNode : NodeId := vars.nodeIdCounter + 1
  let G ← vars.paths.foldlM (addPathEdges sourceNode sinkNode) vars.G
  return (G, sourceNode, sinkNode)

/-! ### The numbers of the nodes -/

/-- The first nodes. -/
def nodesBelow (n : Nat) : List NodeId := (List.range n).map fun k : Nat => (k : Int)

/-- The nodes of one path. -/
def chainOf (pathLength i : Nat) : Path := (List.range pathLength).map fun h => ((i * pathLength + h : Nat) : Int)

def chainsOf (numberOfPaths pathLength : Nat) : List Path := (List.range numberOfPaths).map (chainOf pathLength)

theorem mem_nodesBelow {n : Nat} {node : Int} : node ∈ nodesBelow n ↔ 0 ≤ node ∧ node < n := by
  rw [nodesBelow, List.mem_map]
  constructor
  · rintro ⟨k, hk, rfl⟩
    have := List.mem_range.mp hk
    omega
  · rintro ⟨hnonneg, hlt⟩
    exact ⟨node.toNat, List.mem_range.mpr (by omega), by omega⟩

theorem addKey_nodesBelow (n : Nat) : Graph.addKey (nodesBelow n) (n : Int) = nodesBelow (n + 1) := by
  have hnew : (n : Int) ∉ nodesBelow n := by
    rw [mem_nodesBelow]
    omega
  rw [Graph.addKey, if_neg hnew, nodesBelow, nodesBelow, List.range_succ, List.map_append, List.map_singleton]

namespace Numbering

/-- The nodes made so far are the numbers below the counter, and there are no edges. -/
structure Numbered (vars : Numbering) : Prop where
  nodes : vars.G.nodes = nodesBelow vars.nodeIdCounter
  neighbors : ∀ node, vars.G.neighbors node = []

theorem numbered_addPathNode {vars : Numbering} (h : vars.Numbered) : vars.addPathNode.Numbered where
  nodes := by
    show Graph.addKey vars.G.nodes vars.nodeIdCounter = nodesBelow (vars.nodeIdCounter + 1)
    rw [h.nodes, addKey_nodesBelow]
  neighbors := h.neighbors

/-- The inner loop numbers its nodes from where the counter stands. -/
theorem addPathNode_iterate {vars : Numbering} (h : vars.Numbered) (k : Nat) :
    let after := addPathNode^[k] vars
    after.Numbered ∧ after.nodeIdCounter = vars.nodeIdCounter + k ∧ after.paths = vars.paths ∧
      after.path = vars.path ++ (List.range k).map fun h => ((vars.nodeIdCounter + h : Nat) : Int) := by
  induction k with
  | zero => exact ⟨h, rfl, rfl, by simp⟩
  | succ k ih =>
      obtain ⟨hnumbered, hcounter, hpaths, hpath⟩ := ih
      rw [Function.iterate_succ_apply']
      refine ⟨numbered_addPathNode hnumbered, ?_, hpaths, ?_⟩
      · show _ + 1 = _
        omega
      · show _ ++ [_] = _
        rw [hpath, hcounter, List.range_succ, List.map_append, List.append_assoc]
        rfl

theorem addPath_iterate (pathLength i : Nat) :
    let after := (addPath pathLength)^[i] start
    after.Numbered ∧ after.nodeIdCounter = i * pathLength ∧ after.paths = chainsOf i pathLength := by
  induction i with
  | zero => exact ⟨⟨rfl, fun _ => rfl⟩, (Nat.zero_mul _).symm, rfl⟩
  | succ i ih =>
      obtain ⟨hnumbered, hcounter, hpaths⟩ := ih
      rw [Function.iterate_succ_apply']
      have hturn : Numbered { (addPath pathLength)^[i] start with path := [] } := ⟨hnumbered.nodes, hnumbered.neighbors⟩
      obtain ⟨hnumbered', hcounter', hpaths', hpath'⟩ := addPathNode_iterate hturn pathLength
      refine ⟨⟨hnumbered'.nodes, hnumbered'.neighbors⟩, ?_, ?_⟩
      · show (addPathNode^[pathLength] _).nodeIdCounter = _
        rw [hcounter', hcounter, Nat.succ_mul]
      · show (addPathNode^[pathLength] _).paths ++ [(addPathNode^[pathLength] _).path] = _
        rw [hpaths', hpath', hpaths, hcounter, chainsOf, chainsOf, List.range_succ, List.map_append]
        rfl

end Numbering

/-! ### The chains -/

section Chains

variable {N L : Nat}

theorem mem_chainOf {i : Nat} {node : Int} : node ∈ chainOf L i ↔ ∃ h < L, node = (i * L + h : Nat) := by
  simp only [chainOf, List.mem_map, List.mem_range]
  exact exists_congr fun h => and_congr_right fun _ => eq_comm

/-- Nodes with numbers of different chains differ. -/
theorem chain_number_inj {i j h h' : Nat} (hh : h < L) (hh' : h' < L) (heq : i * L + h = j * L + h') : i = j := by
  have hdiv : ∀ k m, m < L → (k * L + m) / L = k := by
    intro k m hm
    rw [Nat.mul_comm, Nat.mul_add_div (by omega), Nat.div_eq_of_lt hm, Nat.add_zero]
  rw [← hdiv i h hh, heq, hdiv j h' hh']

theorem lt_of_mem_chainsOf {chain : Path} (hchain : chain ∈ chainsOf N L) {node : Int} (hnode : node ∈ chain) :
    0 ≤ node ∧ node < (N * L : Nat) := by
  obtain ⟨i, hi, rfl⟩ := List.mem_map.mp hchain
  obtain ⟨h, hh, rfl⟩ := mem_chainOf.mp hnode
  have hle : (i + 1) * L ≤ N * L := Nat.mul_le_mul_right L (List.mem_range.mp hi)
  rw [Nat.succ_mul] at hle
  omega

theorem parallelChains_chainsOf (hL : 1 ≤ L) :
    ParallelChains ((N * L : Nat) : Int) ((N * L + 1 : Nat) : Int) (chainsOf N L) where
  ends_ne := by omega
  source_notMem := fun chain hchain hmem => by
    have := lt_of_mem_chainsOf hchain hmem
    omega
  sink_notMem := fun chain hchain hmem => by
    have := lt_of_mem_chainsOf hchain hmem
    omega
  ne_nil := by
    intro chain hchain
    obtain ⟨i, -, rfl⟩ := List.mem_map.mp hchain
    refine List.ne_nil_of_length_pos ?_
    rw [chainOf, List.length_map, List.length_range]
    exact hL
  nodup := by
    intro chain hchain
    obtain ⟨i, -, rfl⟩ := List.mem_map.mp hchain
    refine List.nodup_range.map fun h h' heq => ?_
    simp only [Nat.cast_inj] at heq
    omega
  disjoint := by
    rw [chainsOf, List.pairwise_map]
    refine List.nodup_range.imp fun hne node hnode hnode' => ?_
    obtain ⟨h, hh, rfl⟩ := mem_chainOf.mp hnode
    obtain ⟨h', hh', heq⟩ := mem_chainOf.mp hnode'
    exact hne (chain_number_inj hh hh' (Nat.cast_inj.mp heq))

end Chains

/-! ### The edges -/

/-- The edges of one turn of the second loop, in their order. -/
def edgesAlong (sourceNode sinkNode : NodeId) (chain : Path) : List (NodeId × NodeId) :=
  (chain.head?.map fun first => (sourceNode, first)).toList ++
    (chain.getLast?.map fun last => (sinkNode, last)).toList ++ pairwise chain

theorem exists_ends {chain : Path} (hne : chain ≠ []) :
    ∃ first last, chain.head? = some first ∧ chain.getLast? = some last :=
  ⟨chain.head hne, chain.getLast hne, List.head?_eq_some_head hne, List.getLast?_eq_some_getLast hne⟩

theorem addPathEdges_eq {s t : NodeId} {chain : Path} (hne : chain ≠ []) (G : Graph) :
    addPathEdges s t G chain = some (G.addEdges (edgesAlong s t chain)) := by
  obtain ⟨first, last, hfirst, hlast⟩ := exists_ends hne
  simp only [addPathEdges, edgesAlong, hfirst, hlast]
  rfl

theorem foldlM_addPathEdges {s t : NodeId} {chains : List Path} (hne : ∀ chain ∈ chains, chain ≠ []) (G : Graph) :
    chains.foldlM (addPathEdges s t) G = some (G.addEdges (chains.flatMap (edgesAlong s t))) := by
  induction chains generalizing G with
  | nil => rfl
  | cons chain rest ih =>
      obtain ⟨hchain, hrest⟩ := List.forall_mem_cons.mp hne
      rw [List.foldlM_cons, addPathEdges_eq hchain, List.flatMap_cons, Graph.addEdges, Graph.addEdges,
        List.foldl_append]
      exact ih hrest _

/-- Up to the direction, the edges of a turn are the links along the chain. -/
theorem mem_edgesAlong_iff {s t : NodeId} {chain : Path} (hne : chain ≠ []) {u v : NodeId} :
    (u, v) ∈ edgesAlong s t chain ∨ (v, u) ∈ edgesAlong s t chain ↔
      (u, v) ∈ pairwise (chainPath s t chain) ∨ (v, u) ∈ pairwise (chainPath s t chain) := by
  obtain ⟨first, last, hfirst, hlast⟩ := exists_ends hne
  rw [pairwise_chainPath hfirst hlast]
  simp only [edgesAlong, hfirst, hlast, Option.map_some, Option.toList_some, List.mem_append, List.mem_cons,
    Prod.mk.injEq, List.not_mem_nil, or_false]
  tauto

/-- The links along all chains, in whatever direction, are all different. -/
theorem nodup_links {s t : Int} {chains : List Path} (h : ParallelChains s t chains) :
    ((chains.flatMap fun chain => pairwise (chainPath s t chain)).map FlowAllocation.sortedLink).Nodup := by
  rw [List.map_flatMap, List.nodup_flatMap]
  refine ⟨fun chain hchain => FlowAllocation.nodup_map_sortedLink (h.nodup_chainPath hchain), ?_⟩
  refine h.disjoint.imp_of_mem fun {chain chain'} hchain hchain' hdisjoint => ?_
  show List.Disjoint _ _
  rw [List.disjoint_left]
  intro link hlink hlink'
  obtain ⟨⟨u, v⟩, huv, rfl⟩ := List.mem_map.mp hlink
  obtain ⟨⟨u', v'⟩, huv', heq⟩ := List.mem_map.mp hlink'
  -- both ends are on the path along the first chain, and one of them is on the other chain
  have hends : ∀ x, x = u' ∨ x = v' → x ∈ chainPath s t chain := by
    obtain ⟨hu, hv⟩ := mem_of_mem_pairwise huv
    have hv := List.mem_of_mem_tail hv
    intro x hx
    obtain ⟨rfl, rfl⟩ | ⟨rfl, rfl⟩ := FlowAllocation.sortedLink_eq_iff.mp heq <;> obtain rfl | rfl := hx <;> assumption
  have hnone : ∀ x, x = u' ∨ x = v' → x ∉ chain' := by
    intro x hx hmem
    have hs : x ≠ s := fun hxs => h.source_notMem chain' hchain' (hxs ▸ hmem)
    have ht : x ≠ t := fun hxt => h.sink_notMem chain' hchain' (hxt ▸ hmem)
    exact hdisjoint (ParallelChains.mem_of_mem_chainPath (hends x hx) hs ht) hmem
  obtain hmem | hmem := ParallelChains.mem_chain_of_link (h.ne_nil chain' hchain') huv'
  · exact hnone u' (.inl rfl) hmem
  · exact hnone v' (.inr rfl) hmem

theorem length_links {s t : Int} {N L : Nat} :
    ((chainsOf N L).flatMap fun chain => pairwise (chainPath s t chain)).length = N * (L + 1) := by
  have hlength : ∀ chain ∈ chainsOf N L, (pairwise (chainPath s t chain)).length = L + 1 := by
    intro chain hchain
    obtain ⟨i, -, rfl⟩ := List.mem_map.mp hchain
    simp [pairwise, chainOf]
  rw [List.length_flatMap, List.map_congr_left hlength, List.map_const']
  simp [chainsOf]

section Graph

variable {N L : Nat}

theorem buildNParallelGraph_eq (hL : 1 ≤ L) :
    ∃ G : Graph, buildNParallelGraph N L =
        some (G.addEdges ((chainsOf N L).flatMap (edgesAlong (N * L : Nat) (N * L + 1 : Nat))),
          ((N * L : Nat) : Int), ((N * L + 1 : Nat) : Int)) ∧
      G.nodes = nodesBelow (N * L) ∧ ∀ node, G.neighbors node = [] := by
  obtain ⟨hnumbered, hcounter, hpaths⟩ := Numbering.addPath_iterate L N
  refine ⟨_, ?_, hcounter ▸ hnumbered.nodes, hnumbered.neighbors⟩
  have hne := (parallelChains_chainsOf (N := N) hL).ne_nil
  simp only [buildNParallelGraph, hpaths, hcounter, foldlM_addPathEdges hne]
  rfl

/-- An edge from the next number to a node that is there adds the number. -/
theorem nodes_addEdge_new {G : Graph} {n : Nat} (hnodes : G.nodes = nodesBelow n) {node : NodeId}
    (hnode : node ∈ nodesBelow (n + 1)) : (G.addEdge (n : Int) node).nodes = nodesBelow (n + 1) := by
  show Graph.addKey (Graph.addKey G.nodes (n : Int)) node = _
  rw [hnodes, addKey_nodesBelow, Graph.addKey, if_pos hnode]

/-- The ends of the edges are source, sink and nodes of the chains. -/
theorem ends_of_mem_edges {edge : NodeId × NodeId}
    (hedge : edge ∈ (chainsOf N L).flatMap (edgesAlong (N * L : Nat) (N * L + 1 : Nat))) :
    edge.1 ∈ nodesBelow (N * L + 2) ∧ edge.2 ∈ nodesBelow (N * L + 2) := by
  obtain ⟨chain, hchain, hedge⟩ := List.mem_flatMap.mp hedge
  have hbelow : ∀ node ∈ chain, node ∈ nodesBelow (N * L + 2) := by
    intro node hnode
    have := lt_of_mem_chainsOf hchain hnode
    rw [mem_nodesBelow]
    omega
  have hsource : ((N * L : Nat) : Int) ∈ nodesBelow (N * L + 2) := mem_nodesBelow.mpr (by omega)
  have hsink : ((N * L + 1 : Nat) : Int) ∈ nodesBelow (N * L + 2) := mem_nodesBelow.mpr (by omega)
  rw [edgesAlong, List.mem_append, List.mem_append, Option.mem_toList, Option.mem_toList, Option.map_eq_some_iff,
    Option.map_eq_some_iff] at hedge
  obtain (⟨first, hfirst, rfl⟩ | ⟨last, hlast, rfl⟩) | hlink := hedge
  · exact ⟨hsource, hbelow first (List.mem_of_head? hfirst)⟩
  · exact ⟨hsink, hbelow last (List.mem_of_getLast? hlast)⟩
  · obtain ⟨hu, hv⟩ := mem_of_mem_pairwise hlink
    exact ⟨hbelow _ hu, hbelow _ (List.mem_of_mem_tail hv)⟩

/-- Source and sink become nodes with the first chain; every other end of an edge is there already. -/
theorem nodes_addEdges_chains (hN : 1 ≤ N) (hL : 1 ≤ L) {G : Graph} (hnodes : G.nodes = nodesBelow (N * L)) :
    (G.addEdges ((chainsOf N L).flatMap (edgesAlong (N * L : Nat) (N * L + 1 : Nat)))).nodes =
      nodesBelow (N * L + 2) := by
  obtain ⟨chain, rest, hchains⟩ : ∃ chain rest, chainsOf N L = chain :: rest := by
    refine List.exists_cons_of_ne_nil (List.ne_nil_of_length_pos ?_)
    rw [chainsOf, List.length_map, List.length_range]
    exact hN
  have hchain : chain ∈ chainsOf N L := hchains ▸ List.mem_cons_self
  obtain ⟨first, last, hfirst, hlast⟩ := exists_ends ((parallelChains_chainsOf hL).ne_nil chain hchain)
  have hbelow : ∀ node ∈ chain, node ∈ nodesBelow (N * L + 1) ∧ node ∈ nodesBelow (N * L + 1 + 1) := by
    intro node hnode
    have := lt_of_mem_chainsOf hchain hnode
    rw [mem_nodesBelow, mem_nodesBelow]
    omega
  have hsource : (G.addEdge (N * L : Nat) first).nodes = nodesBelow (N * L + 1) :=
    nodes_addEdge_new hnodes (hbelow first (List.mem_of_head? hfirst)).1
  have hsink : ((G.addEdge (N * L : Nat) first).addEdge (N * L + 1 : Nat) last).nodes = nodesBelow (N * L + 1 + 1) :=
    nodes_addEdge_new hsource (hbelow last (List.mem_of_getLast? hlast)).2
  have hedges : (chainsOf N L).flatMap (edgesAlong (N * L : Nat) (N * L + 1 : Nat)) =
      (((N * L : Nat) : Int), first) :: (((N * L + 1 : Nat) : Int), last) ::
        (pairwise chain ++ rest.flatMap (edgesAlong (N * L : Nat) (N * L + 1 : Nat))) := by
    rw [hchains, List.flatMap_cons, edgesAlong, hfirst, hlast]
    rfl
  rw [hedges]
  show (((G.addEdge (N * L : Nat) first).addEdge (N * L + 1 : Nat) last).addEdges _).nodes = _
  rw [Graph.nodes_addEdges, hsink]
  intro edge hedge
  rw [hsink]
  refine ends_of_mem_edges ?_
  rw [hedges]
  exact List.mem_cons_of_mem _ (List.mem_cons_of_mem _ hedge)

theorem mem_neighbors_iff (hL : 1 ≤ L) {G : Graph} (hneighbors : ∀ node, G.neighbors node = []) {u v : NodeId} :
    v ∈ (G.addEdges ((chainsOf N L).flatMap (edgesAlong (N * L : Nat) (N * L + 1 : Nat)))).neighbors u ↔
      ChainLink ((N * L : Nat) : Int) ((N * L + 1 : Nat) : Int) (chainsOf N L) u v := by
  have hne := (parallelChains_chainsOf (N := N) hL).ne_nil
  rw [Graph.mem_neighbors_addEdges, hneighbors, List.mem_flatMap, List.mem_flatMap]
  constructor
  · rintro (hnone | ⟨chain, hchain, hlink⟩ | ⟨chain, hchain, hlink⟩)
    · cases hnone
    · exact ⟨chain, hchain, (mem_edgesAlong_iff (hne chain hchain)).mp (.inl hlink)⟩
    · exact ⟨chain, hchain, (mem_edgesAlong_iff (hne chain hchain)).mp (.inr hlink)⟩
  · rintro ⟨chain, hchain, hlink⟩
    exact .inr (((mem_edgesAlong_iff (hne chain hchain)).mpr hlink).imp (fun h => ⟨chain, hchain, h⟩)
      fun h => ⟨chain, hchain, h⟩)

/-- The graph that is built: its nodes are numbered from zero, and its links are those along the chains. -/
theorem buildNParallelGraph_spec (hN : 1 ≤ N) (hL : 1 ≤ L) :
    ∃ G, buildNParallelGraph N L = some (G, ((N * L : Nat) : Int), ((N * L + 1 : Nat) : Int)) ∧
      G.nodes = nodesBelow (N * L + 2) ∧
      (fun u v => (u, v) ∈ G.arcs) = ChainLink ((N * L : Nat) : Int) ((N * L + 1 : Nat) : Int) (chainsOf N L) := by
  obtain ⟨G, hbuild, hnodes, hneighbors⟩ := buildNParallelGraph_eq (N := N) hL
  refine ⟨_, hbuild, nodes_addEdges_chains hN hL hnodes, ?_⟩
  funext u v
  exact propext (Graph.mem_arcs.trans (mem_neighbors_iff hL hneighbors))

/-- What the simulations rely on: `N` paths of `L + 2` nodes that share their end points only, and no others. -/
structure NParallel (N L : Nat) (G : Graph) (sourceNode sinkNode : NodeId) (paths : List Path) : Prop where
  nodes : G.nodes.length = N * L + 2
  edges : G.edges.length = N * (L + 1)
  routes : ∀ path, Route (fun u v => (u, v) ∈ G.arcs) sourceNode sinkNode path ↔ path ∈ paths
  number : paths.length = N
  nodup : paths.Nodup
  length : ∀ path ∈ paths, path.length = L + 2
  disjoint : paths.Pairwise fun path path' => ∀ node ∈ path, node ∈ path' → node = sourceNode ∨ node = sinkNode

/-- The paths along the chains. -/
def pathsOf (N L : Nat) : List Path := (chainsOf N L).map (chainPath ((N * L : Nat) : Int) ((N * L + 1 : Nat) : Int))

theorem nParallel_pathsOf (hL : 1 ≤ L) {G : Graph} (hnodes : G.nodes = nodesBelow (N * L + 2))
    (hlinks : (fun u v => (u, v) ∈ G.arcs) =
      ChainLink ((N * L : Nat) : Int) ((N * L + 1 : Nat) : Int) (chainsOf N L)) :
    NParallel N L G (N * L : Nat) (N * L + 1 : Nat) (pathsOf N L) where
  nodes := by rw [hnodes, nodesBelow, List.length_map, List.length_range]
  edges := by
    rw [Graph.length_edges_eq (nodup_links (parallelChains_chainsOf hL)), length_links]
    intro u v
    have hlink := congrFun (congrFun hlinks u) v
    rw [← Graph.mem_arcs, hlink, ChainLink, List.mem_flatMap, List.mem_flatMap]
    simp only [and_or_left, exists_or]
  routes := by
    rw [hlinks]
    exact fun path => (parallelChains_chainsOf hL).route_iff
  number := by rw [pathsOf, chainsOf, List.length_map, List.length_map, List.length_range]
  nodup := (parallelChains_chainsOf hL).nodup_of_disjointRoutes (parallelChains_chainsOf hL).disjointRoutes_chainPath
  length := by
    intro path hpath
    obtain ⟨chain, hchain, rfl⟩ := List.mem_map.mp hpath
    obtain ⟨i, -, rfl⟩ := List.mem_map.mp hchain
    rw [length_chainPath, chainOf, List.length_map, List.length_range]
  disjoint := (parallelChains_chainsOf hL).disjointRoutes_chainPath.disjoint

end Graph

/-! ### The flow on the graph -/

section Flow

variable {N L : Nat}

theorem interior_chainPath (s t : NodeId) (chain : Path) : Attacker.interior (chainPath s t chain) = chain := by
  rw [Attacker.interior, chainPath, List.tail_cons, List.dropLast_concat]

/-- The paths of a flow, in whatever order they are found. -/
theorem parallel_of_perm (hL : 1 ≤ L) {paths : List Path} (hperm : paths.Perm (pathsOf N L)) :
    Parallel paths (L + 2) where
  length_eq := by
    intro path hpath
    obtain ⟨chain, hchain, rfl⟩ := List.mem_map.mp (hperm.subset hpath)
    obtain ⟨i, -, rfl⟩ := List.mem_map.mp hchain
    rw [length_chainPath, chainOf, List.length_map, List.length_range]
  disjoint := by
    have hsymm : ∀ {path path' : Path}, (∀ node ∈ Attacker.interior path, node ∉ Attacker.interior path') →
        ∀ node ∈ Attacker.interior path', node ∉ Attacker.interior path :=
      fun h node hnode hnode' => h node hnode' hnode
    refine (hperm.pairwise_iff hsymm).mpr ?_
    rw [pathsOf, List.pairwise_map]
    refine (parallelChains_chainsOf hL).disjoint.imp fun hdisjoint node hnode hnode' => ?_
    rw [interior_chainPath] at hnode hnode'
    exact hdisjoint hnode hnode'

theorem createRandomFlow_of_perm {paths : List Path} (hperm : paths.Perm (pathsOf N L)) {K : Nat} (hK : K ≤ N)
    (flowId : FlowId) (outcome : List Nat) :
    ∃ flow, PathHoppingFlow.createRandomFlow (nodesBelow (N * L + 2)) paths N K (N * L : Nat) (N * L + 1 : Nat) flowId
      outcome = some flow ∧ flow.paths = paths := by
  have hlength : paths.length = N := by
    rw [hperm.length_eq, pathsOf, chainsOf, List.length_map, List.length_map, List.length_range]
  have hsource : ((N * L : Nat) : Int) ∈ nodesBelow (N * L + 2) := mem_nodesBelow.mpr (by omega)
  have hsink : ((N * L + 1 : Nat) : Int) ∈ nodesBelow (N * L + 2) := mem_nodesBelow.mpr (by omega)
  let flow := PathHoppingFlow.new flowId (N * L : Nat) (N * L + 1 : Nat) paths K
  have hhop : flow.hop outcome = some { flow with activePaths := outcome } :=
    PathHoppingFlow.hop_eq_some_iff.mpr ⟨hlength.symm ▸ hK, rfl⟩
  refine ⟨{ flow with activePaths := outcome }, ?_, rfl⟩
  rw [PathHoppingFlow.createRandomFlow, guard, if_pos hsource, guard, if_pos hsink, guard, if_pos hlength.ge]
  exact hhop

/-- **The graph of the simulations.** For whatever disjoint paths are found on it, the flow has all `N` of them. -/
theorem build_n_parallel_graph_spec (N L : Nat) (hN : 1 ≤ N) (hL : 1 ≤ L) :
    ∃ (G : Graph) (paths : List Path),
      buildNParallelGraph N L = some (G, ((N * L : Nat) : Int), ((N * L + 1 : Nat) : Int)) ∧
      NParallel N L G (N * L : Nat) (N * L + 1 : Nat) paths ∧
      ∀ disjointPaths,
        MaximumDisjointRoutes (fun u v => (u, v) ∈ G.arcs) ((N * L : Nat) : Int) ((N * L + 1 : Nat) : Int)
          disjointPaths →
        ∀ K ≤ N, ∀ flowId outcome,
          ∃ flow, PathHoppingFlow.createRandomFlow G.nodes disjointPaths N K (N * L : Nat) (N * L + 1 : Nat) flowId
              outcome = some flow ∧ flow.paths.Perm paths ∧ Parallel flow.paths (L + 2) := by
  obtain ⟨G, hbuild, hnodes, hlinks⟩ := buildNParallelGraph_spec hN hL
  refine ⟨G, pathsOf N L, hbuild, nParallel_pathsOf hL hnodes hlinks, ?_⟩
  intro disjointPaths hmaximum K hK flowId outcome
  rw [hlinks] at hmaximum
  have hperm : disjointPaths.Perm (pathsOf N L) := (parallelChains_chainsOf hL).perm_of_maximum hmaximum
  obtain ⟨flow, hflow, rfl⟩ := createRandomFlow_of_perm hperm hK flowId outcome
  rw [hnodes]
  exact ⟨flow, hflow, hperm, parallel_of_perm hL hperm⟩

/-- Two chains of one node each, and the flow on them. -/
theorem build_n_parallel_graph_spec_two_one :
    ∃ G, buildNParallelGraph 2 1 = some (G, 2, 3) ∧ G.nodes.length = 4 ∧ G.edges.length = 4 ∧
      MaximumDisjointRoutes (fun u v => (u, v) ∈ G.arcs) 2 3 [[2, 0, 3], [2, 1, 3]] ∧
      ∃ flow, PathHoppingFlow.createRandomFlow G.nodes [[2, 0, 3], [2, 1, 3]] 2 1 2 3 0 [0] = some flow ∧
        Parallel flow.paths 3 := by
  obtain ⟨G, hbuild, -, hlinks⟩ := buildNParallelGraph_spec (N := 2) (L := 1) (by decide) (by decide)
  obtain ⟨G', paths, hbuild', hparallel, hflow⟩ := build_n_parallel_graph_spec 2 1 (by decide) (by decide)
  obtain rfl : G = G' := congrArg Prod.fst (Option.some.inj (hbuild.symm.trans hbuild'))
  have hmaximum : MaximumDisjointRoutes (fun u v => (u, v) ∈ G.arcs) 2 3 [[2, 0, 3], [2, 1, 3]] := by
    have hchains : ParallelChains (2 : Int) 3 (chainsOf 2 1) := parallelChains_chainsOf (N := 2) (L := 1) (by decide)
    exact hlinks ▸ hchains.maximum_chainPath
  obtain ⟨flow, hcreate, -, hpaths⟩ := hflow _ hmaximum 1 (by decide) 0 [0]
  exact ⟨G, hbuild, hparallel.nodes, hparallel.edges, hmaximum, flow, hcreate, hpaths⟩

end Flow

end OfTestbed.Simulator
