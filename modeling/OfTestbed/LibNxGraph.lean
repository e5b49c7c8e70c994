import Mathlib.Data.List.Nodup
import OfTestbed.LibDict

/-!
Undirected graphs as the graph library keeps them, built by adding nodes and edges, and isomorphisms between two of
them as dictionaries from the nodes of the one to those of the other.
-/

namespace OfTestbed.Lib

/-- The nodes in the order in which they were added, and the edges, each in one direction. -/
structure NxGraph (ν : Type) where
  nodes : List ν
  edges : List (ν × ν)
  nodup : nodes.Nodup
  ends_mem : ∀ edge ∈ edges, edge.1 ∈ nodes ∧ edge.2 ∈ nodes

namespace NxGraph

variable {ν μ : Type}

def HasEdge (graph : NxGraph ν) (u v : ν) : Prop := (u, v) ∈ graph.edges ∨ (v, u) ∈ graph.edges

theorem HasEdge.mem_nodes {graph : NxGraph ν} {u v : ν} (h : graph.HasEdge u v) :
    u ∈ graph.nodes ∧ v ∈ graph.nodes := by
  rcases h with h | h
  · exact graph.ends_mem _ h
  · exact (graph.ends_mem _ h).symm

def empty : NxGraph ν := ⟨[], [], List.nodup_nil, fun _ h => absurd h List.not_mem_nil⟩

variable [DecidableEq ν]

instance (graph : NxGraph ν) (u v : ν) : Decidable (graph.HasEdge u v) :=
  inferInstanceAs (Decidable ((u, v) ∈ graph.edges ∨ (v, u) ∈ graph.edges))

def addNode (graph : NxGraph ν) (v : ν) : NxGraph ν where
  nodes := if v ∈ graph.nodes then graph.nodes else graph.nodes ++ [v]
  edges := graph.edges
  nodup := by
    split
    · exact graph.nodup
    · rename_i hnew
      exact List.nodup_append.mpr ⟨graph.nodup, List.nodup_singleton v, by grind⟩
  ends_mem := by
    intro edge hedge
    have hends := graph.ends_mem edge hedge
    split
    · exact hends
    · exact ⟨List.mem_append_left _ hends.1, List.mem_append_left _ hends.2⟩

theorem mem_nodes_addNode {graph : NxGraph ν} {v w : ν} : w ∈ (graph.addNode v).nodes ↔ w ∈ graph.nodes ∨ w = v := by
  unfold addNode
  split
  · rename_i hmem
    exact ⟨Or.inl, fun h => h.elim id fun heq => heq ▸ hmem⟩
  · rw [List.mem_append, List.mem_singleton]

/-- An edge, with its ends where they are missing; an edge that is there is kept. -/
def addEdge (graph : NxGraph ν) (u v : ν) : NxGraph ν where
  nodes := ((graph.addNode u).addNode v).nodes
  edges := if graph.HasEdge u v then graph.edges else graph.edges ++ [(u, v)]
  nodup := ((graph.addNode u).addNode v).nodup
  ends_mem := by
    have hold : ∀ w, w ∈ graph.nodes → w ∈ ((graph.addNode u).addNode v).nodes := fun w hw =>
      mem_nodes_addNode.mpr (Or.inl (mem_nodes_addNode.mpr (Or.inl hw)))
    intro edge hedge
    split at hedge
    · exact ⟨hold _ (graph.ends_mem edge hedge).1, hold _ (graph.ends_mem edge hedge).2⟩
    · rcases List.mem_append.mp hedge with hedge | hedge
      · exact ⟨hold _ (graph.ends_mem edge hedge).1, hold _ (graph.ends_mem edge hedge).2⟩
      · cases List.mem_singleton.mp hedge
        exact ⟨mem_nodes_addNode.mpr (Or.inl (mem_nodes_addNode.mpr (Or.inr rfl))), mem_nodes_addNode.mpr (Or.inr rfl)⟩

theorem hasEdge_addEdge {graph : NxGraph ν} {u v u' v' : ν} :
    (graph.addEdge u v).HasEdge u' v' ↔ graph.HasEdge u' v' ∨ (u' = u ∧ v' = v) ∨ (u' = v ∧ v' = u) := by
  by_cases hedge : graph.HasEdge u v
  · have hsame : (graph.addEdge u v).edges = graph.edges := if_pos hedge
    rw [HasEdge, hsame]
    refine ⟨Or.inl, ?_⟩
    rintro (h | ⟨rfl, rfl⟩ | ⟨rfl, rfl⟩)
    · exact h
    · exact hedge
    · exact hedge.symm
  · have hnew : (graph.addEdge u v).edges = graph.edges ++ [(u, v)] := if_neg hedge
    rw [HasEdge, hnew, HasEdge]
    simp only [List.mem_append, List.mem_singleton, Prod.mk.injEq]
    tauto

end NxGraph

/-- A dictionary that maps the nodes of one graph one to one onto those of the other, and edges to edges. -/
structure IsIsomorphism {ν μ : Type} [DecidableEq ν] (graph : NxGraph ν) (graph' : NxGraph μ) (mapping : Dict ν μ) :
    Prop where
  keys : ∀ u, (∃ v, mapping.get? u = some v) ↔ u ∈ graph.nodes
  values : ∀ v, (∃ u, mapping.get? u = some v) ↔ v ∈ graph'.nodes
  injective : ∀ u u' v, mapping.get? u = some v → mapping.get? u' = some v → u = u'
  edges : ∀ u u' v v', mapping.get? u = some v → mapping.get? u' = some v' →
    (graph.HasEdge u u' ↔ graph'.HasEdge v v')

namespace Dict

variable {κ ν : Type} [DecidableEq κ] [DecidableEq ν]

/-- `{v: k for k, v in d.items()}`. -/
def inverse (d : Dict κ ν) : Dict ν κ := .ofList (d.entries.map fun entry => (entry.2, entry.1))

theorem get?_inverse {d : Dict κ ν} (hinjective : ∀ k k' v, d.get? k = some v → d.get? k' = some v → k = k') {k : κ}
    {v : ν} : d.inverse.get? v = some k ↔ d.get? k = some v := by
  have hnodup : ((d.entries.map fun entry => (entry.2, entry.1)).map Prod.fst).Nodup := by
    rw [List.map_map]
    apply (d.nodupKeys.of_map Prod.fst).map_on
    intro entry hentry entry' hentry' heq
    have heq : entry.2 = entry'.2 := heq
    have hget : d.get? entry.1 = some entry.2 := get?_eq_some_iff.mpr hentry
    have hget' : d.get? entry'.1 = some entry'.2 := get?_eq_some_iff.mpr hentry'
    rw [← heq] at hget'
    exact Prod.ext (hinjective _ _ _ hget hget') heq
  rw [inverse, get?_ofList hnodup, get?_eq_some_iff, List.mem_map]
  constructor
  · rintro ⟨entry, hentry, heq⟩
    cases heq
    exact hentry
  · intro hentry
    exact ⟨(k, v), hentry, rfl⟩

end Dict

end OfTestbed.Lib
