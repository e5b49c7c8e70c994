import Mathlib.Algebra.Order.Field.Rat
import Mathlib.Data.List.Dedup
import OfTestbed.LibRoute

/-!
What the flow allocators work on (`path_hopping/flow_allocation.py`): flows, and the networkx graphs they are
allocated in. Floats are exact rationals. A graph is undirected; `nx.DiGraph(graph)` has both directions of
every edge, in the order of nodes and neighbours.
-/

namespace OfTestbed.FlowAllocation

open Lib

abbrev NodeId := Int

instance : LawfulBEq (NodeId × NodeId) := inferInstance

abbrev Path := List NodeId

def linkCapacity : ℚ := 1

structure Flow where
  sourceNode : NodeId
  destinationNode : NodeId
  flowTxRate : ℚ
  paths : List Path
  splittingRatio : List ℚ
  deriving DecidableEq

/-- An undirected graph as networkx keeps it: its nodes, and for each node its neighbours in order. -/
structure Graph where
  nodes : List NodeId
  neighbors : NodeId → List NodeId
  nodes_nodup : nodes.Nodup
  neighbors_nodup : ∀ u, (neighbors u).Nodup
  neighbors_symm : ∀ u v, v ∈ neighbors u → u ∈ neighbors v
  mem_nodes : ∀ u v, v ∈ neighbors u → v ∈ nodes

namespace Graph

/-- The graph with the given nodes and edges, edges between other nodes left out. -/
def ofEdges (nodes : List NodeId) (hnodup : nodes.Nodup) (edges : List (NodeId × NodeId)) : Graph where
  nodes := nodes
  neighbors := fun u => if u ∈ nodes then nodes.filter fun v => (u, v) ∈ edges ∨ (v, u) ∈ edges else []
  nodes_nodup := hnodup
  neighbors_nodup := by
    intro u
    split
    · exact hnodup.filter _
    · exact List.nodup_nil
  neighbors_symm := by
    intro u v hv
    split at hv
    · rename_i hu
      obtain ⟨hmem, hedge⟩ := List.mem_filter.mp hv
      rw [if_pos hmem, List.mem_filter]
      exact ⟨hu, by simpa [or_comm] using hedge⟩
    · cases hv
  mem_nodes := by
    intro u v hv
    split at hv
    · exact List.mem_of_mem_filter hv
    · cases hv

variable (graph : Graph)

/-- `nx.DiGraph(graph).edges`. -/
def arcs : List (NodeId × NodeId) :=
  graph.nodes.flatMap fun u => (graph.neighbors u).map fun v => (u, v)

/-- `graph.edges`: every edge once, from the end point that comes first. `seen` are the nodes before. -/
def edgesFrom : List NodeId → List NodeId → List (NodeId × NodeId)
  | _, [] => []
  | seen, u :: rest =>
      ((graph.neighbors u).filter (· ∉ seen)).map (fun v => (u, v)) ++ edgesFrom (u :: seen) rest

def edges : List (NodeId × NodeId) := graph.edgesFrom [] graph.nodes

variable {graph}

theorem mem_arcs {u v : NodeId} : (u, v) ∈ graph.arcs ↔ v ∈ graph.neighbors u := by
  simp only [arcs, List.mem_flatMap, List.mem_map, Prod.mk.injEq]
  constructor
  · rintro ⟨u', -, v', hv, rfl, rfl⟩
    exact hv
  · intro hv
    exact ⟨u, graph.mem_nodes v u (graph.neighbors_symm u v hv), v, hv, rfl, rfl⟩

theorem arcs_nodup : graph.arcs.Nodup := by
  rw [arcs, List.nodup_flatMap]
  refine ⟨fun u _ => (graph.neighbors_nodup u).map fun v v' h => (Prod.mk.inj h).2, ?_⟩
  apply graph.nodes_nodup.imp
  intro u u' hne
  show List.Disjoint _ _
  rw [List.disjoint_left]
  intro arc harc harc'
  obtain ⟨v, -, rfl⟩ := List.mem_map.mp harc
  obtain ⟨v', -, heq⟩ := List.mem_map.mp harc'
  exact hne (Prod.mk.inj heq).1.symm

theorem mem_nodes_of_mem_arcs {u v : NodeId} (h : (u, v) ∈ graph.arcs) : u ∈ graph.nodes ∧ v ∈ graph.nodes :=
  ⟨graph.mem_nodes v u (graph.neighbors_symm u v (mem_arcs.mp h)), graph.mem_nodes u v (mem_arcs.mp h)⟩

theorem mem_edgesFrom {todo seen : List NodeId} {u v : NodeId} (hv : v ∈ graph.neighbors u)
    (hu : u ∈ todo) (hv' : v ∈ todo) (hseen : u ∉ seen ∧ v ∉ seen) :
    (u, v) ∈ graph.edgesFrom seen todo ∨ (v, u) ∈ graph.edgesFrom seen todo := by
  induction todo generalizing seen with
  | nil => cases hu
  | cons w rest ih =>
      simp only [edgesFrom, List.mem_append, List.mem_map, List.mem_filter, decide_eq_true_eq, Prod.mk.injEq]
      by_cases huw : u = w
      · subst huw
        exact Or.inl (Or.inl ⟨v, ⟨hv, hseen.2⟩, rfl, rfl⟩)
      · by_cases hvw : v = w
        · subst hvw
          exact Or.inr (Or.inl ⟨u, ⟨graph.neighbors_symm u v hv, hseen.1⟩, rfl, rfl⟩)
        · have hseen' : u ∉ w :: seen ∧ v ∉ w :: seen := by simp [huw, hvw, hseen]
          have hrest := ih ((List.mem_cons.mp hu).resolve_left huw) ((List.mem_cons.mp hv').resolve_left hvw) hseen'
          exact hrest.imp Or.inr Or.inr

/-- Every arc is an edge, in one of its directions. -/
theorem mem_edges_of_mem_arcs {u v : NodeId} (h : (u, v) ∈ graph.arcs) :
    (u, v) ∈ graph.edges ∨ (v, u) ∈ graph.edges :=
  mem_edgesFrom (mem_arcs.mp h) (mem_nodes_of_mem_arcs h).1 (mem_nodes_of_mem_arcs h).2 (by simp)

/-- The graph is connected: every node can be reached from every other one. -/
def Connected (graph : Graph) : Prop :=
  ∀ u ∈ graph.nodes, ∀ v ∈ graph.nodes, Relation.ReflTransGen (fun a b => (a, b) ∈ graph.arcs) u v

end Graph

/-- Two nodes with one link between them. -/
def oneLink : Graph := .ofEdges [0, 1] (by decide) [(0, 1)]

/-- `tuple(sorted(link))`. -/
def sortedLink (link : Int × Int) : Int × Int :=
  if link.1 ≤ link.2 then link else (link.2, link.1)

theorem sortedLink_eq_iff {u v u' v' : Int} :
    sortedLink (u, v) = sortedLink (u', v') ↔ (u = u' ∧ v = v') ∨ (u = v' ∧ v = u') := by
  by_cases h : u ≤ v <;> by_cases h' : u' ≤ v' <;> simp only [sortedLink, h, h', if_true, if_false,
    Prod.mk.injEq] <;>
    omega

/-- A simple path crosses a link at most once, in whatever direction. -/
theorem nodup_map_sortedLink {path : Path} (h : path.Nodup) : ((pairwise path).map sortedLink).Nodup := by
  refine List.Nodup.map_on ?_ (pairwise_nodup h)
  rintro ⟨u, v⟩ hlink ⟨u', v'⟩ hlink' heq
  rcases sortedLink_eq_iff.mp heq with ⟨rfl, rfl⟩ | ⟨rfl, rfl⟩
  · rfl
  · exact absurd hlink' (swap_notMem_pairwise h hlink)

namespace Graph

variable {graph : Graph}

theorem mem_of_mem_edgesFrom {todo seen : List NodeId} {u v : NodeId} (h : (u, v) ∈ graph.edgesFrom seen todo) :
    u ∈ todo ∧ v ∉ seen := by
  induction todo generalizing seen with
  | nil => cases h
  | cons w rest ih =>
      rw [edgesFrom, List.mem_append] at h
      rcases h with hfirst | hrest
      · obtain ⟨v', hv', heq⟩ := List.mem_map.mp hfirst
        cases heq
        exact ⟨List.mem_cons_self, by simpa using (List.mem_filter.mp hv').2⟩
      · obtain ⟨hu, hv⟩ := ih hrest
        exact ⟨List.mem_cons_of_mem w hu, fun hseen => hv (List.mem_cons_of_mem w hseen)⟩

/-- Every edge is listed once, in whatever direction. -/
theorem edges_nodup : (graph.edges.map sortedLink).Nodup := by
  suffices h : ∀ todo seen, todo.Nodup → ((graph.edgesFrom seen todo).map sortedLink).Nodup from
    h graph.nodes [] graph.nodes_nodup
  intro todo
  induction todo with
  | nil =>
      intro seen _
      exact List.nodup_nil
  | cons u rest ih =>
      intro seen hnodup
      obtain ⟨hu, hrest⟩ := List.nodup_cons.mp hnodup
      rw [edgesFrom, List.map_append, List.map_map]
      refine List.Nodup.append ?_ (ih (u :: seen) hrest) ?_
      · refine List.Nodup.map_on ?_ ((graph.neighbors_nodup u).filter _)
        intro v _ v' _ heq
        rcases sortedLink_eq_iff.mp heq with ⟨-, rfl⟩ | ⟨rfl, rfl⟩ <;> rfl
      · rw [List.disjoint_left]
        intro link hfirst hlater
        obtain ⟨v, -, rfl⟩ := List.mem_map.mp hfirst
        obtain ⟨⟨u', v'⟩, hmem, heq⟩ := List.mem_map.mp hlater
        obtain ⟨hu', hv'⟩ := mem_of_mem_edgesFrom hmem
        rcases sortedLink_eq_iff.mp heq with ⟨rfl, -⟩ | ⟨-, rfl⟩
        · exact hu hu'
        · exact hv' List.mem_cons_self

end Graph

end OfTestbed.FlowAllocation
