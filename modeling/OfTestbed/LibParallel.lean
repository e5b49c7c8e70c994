import Mathlib.Data.List.Basic
import Mathlib.Data.List.Perm.Subperm
import OfTestbed.LibRoute

/-!
Chains of nodes between a source and a sink that have no node in common. In the undirected graph of their links the
simple paths from source to sink are those along the chains and no others: on a chain, a path that does not turn back
has only one way to go.
-/

namespace OfTestbed.Lib

variable {V : Type}

/-! ### Neighbours in a simple path -/

theorem mem_pairwise_iff {path : List V} {u v : V} :
    (u, v) ∈ pairwise path ↔ ∃ before after, path = before ++ u :: v :: after := by
  constructor
  · intro hlink
    induction path with
    | nil => cases hlink
    | cons w rest ih =>
        cases rest with
        | nil => cases hlink
        | cons x rest =>
            rw [pairwise_cons_cons, List.mem_cons] at hlink
            obtain hfirst | hlater := hlink
            · cases hfirst
              exact ⟨[], rest, rfl⟩
            · obtain ⟨before, after, heq⟩ := ih hlater
              exact ⟨w :: before, after, by rw [heq, List.cons_append]⟩
  · rintro ⟨before, after, rfl⟩
    induction before with
    | nil => exact List.mem_cons_self
    | cons w before ih =>
        cases before with
        | nil => exact List.mem_cons_of_mem _ ih
        | cons x before => exact List.mem_cons_of_mem _ ih

/-- A node stands in one place of a simple path only. -/
theorem split_inj {before after before' after' : List V} {x : V} (hnodup : (before ++ x :: after).Nodup)
    (heq : before ++ x :: after = before' ++ x :: after') : before = before' ∧ after = after' := by
  obtain ⟨-, hafter, hdisjoint⟩ := List.nodup_append.mp hnodup
  have hbefore : x ∉ before := fun h => hdisjoint x h x List.mem_cons_self rfl
  obtain ⟨h, -, h'⟩ := (List.append_cons_inj_of_notMem hbefore (List.nodup_cons.mp hafter).1).mp heq
  exact ⟨h, h'⟩

/-- In a simple path a node has at most one successor. -/
theorem head?_of_mem_pairwise {before after : List V} {x y : V} (hnodup : (before ++ x :: after).Nodup)
    (hlink : (x, y) ∈ pairwise (before ++ x :: after)) : after.head? = some y := by
  obtain ⟨before', after', heq⟩ := mem_pairwise_iff.mp hlink
  rw [(split_inj hnodup heq).2, List.head?_cons]

/-- In a simple path the predecessor of a node stands before it. -/
theorem mem_of_mem_pairwise_split {before after : List V} {x y : V} (hnodup : (before ++ x :: after).Nodup)
    (hlink : (y, x) ∈ pairwise (before ++ x :: after)) : y ∈ before := by
  obtain ⟨before', after', heq⟩ := mem_pairwise_iff.mp hlink
  rw [List.append_cons before'] at heq
  rw [(split_inj hnodup heq).1]
  exact List.mem_append_right _ List.mem_cons_self

/-! ### Parallel chains -/

/-- The path along a chain. -/
def chainPath (s t : V) (chain : List V) : List V := s :: (chain ++ [t])

@[simp] theorem length_chainPath (s t : V) (chain : List V) : (chainPath s t chain).length = chain.length + 2 := by
  simp [chainPath]

theorem pairwise_concat {chain : List V} {last : V} (hlast : chain.getLast? = some last) (t : V) :
    pairwise (chain ++ [t]) = pairwise chain ++ [(last, t)] := by
  induction chain with
  | nil => cases hlast
  | cons x rest ih =>
      cases rest with
      | nil =>
          cases hlast
          rfl
      | cons y rest =>
          rw [List.getLast?_cons_cons] at hlast
          rw [List.cons_append, List.cons_append, pairwise_cons_cons, ← List.cons_append, ih hlast, pairwise_cons_cons,
            List.cons_append]

/-- The links along a chain are those to its first node, of the chain, and from its last node. -/
theorem pairwise_chainPath {chain : List V} {first last : V} (hfirst : chain.head? = some first)
    (hlast : chain.getLast? = some last) (s t : V) :
    pairwise (chainPath s t chain) = (s, first) :: (pairwise chain ++ [(last, t)]) := by
  cases chain with
  | nil => cases hfirst
  | cons x rest =>
      cases hfirst
      rw [chainPath, List.cons_append, pairwise_cons_cons, ← List.cons_append, pairwise_concat hlast]

/-- Chains without a node in common that neither contain the source nor the sink. -/
structure ParallelChains (s t : V) (chains : List (List V)) : Prop where
  ends_ne : s ≠ t
  source_notMem : ∀ chain ∈ chains, s ∉ chain
  sink_notMem : ∀ chain ∈ chains, t ∉ chain
  ne_nil : ∀ chain ∈ chains, chain ≠ []
  nodup : ∀ chain ∈ chains, chain.Nodup
  disjoint : chains.Pairwise List.Disjoint

/-- Two nodes are linked if one follows the other on some chain. -/
def ChainLink (s t : V) (chains : List (List V)) (u v : V) : Prop :=
  ∃ chain ∈ chains, (u, v) ∈ pairwise (chainPath s t chain) ∨ (v, u) ∈ pairwise (chainPath s t chain)

namespace ParallelChains

variable {s t : V} {chains : List (List V)}

theorem eq_of_mem (h : ParallelChains s t chains) {chain chain' : List V} (hchain : chain ∈ chains)
    (hchain' : chain' ∈ chains) {x : V} (hx : x ∈ chain) (hx' : x ∈ chain') : chain = chain' := by
  by_contra hne
  have : Std.Symm (List.Disjoint : List V → List V → Prop) := ⟨fun _ _ hdisjoint => hdisjoint.symm⟩
  exact h.disjoint.forall hchain hchain' hne hx hx'

theorem nodup_chainPath (h : ParallelChains s t chains) {chain : List V} (hchain : chain ∈ chains) :
    (chainPath s t chain).Nodup := by
  rw [chainPath, List.nodup_cons, List.mem_append, List.mem_singleton, List.nodup_append]
  refine ⟨?_, h.nodup chain hchain, List.nodup_singleton t, ?_⟩
  · rintro (hmem | heq)
    · exact h.source_notMem chain hchain hmem
    · exact h.ends_ne heq
  · intro x hx y hy heq
    rw [List.mem_singleton] at hy
    rw [heq, hy] at hx
    exact h.sink_notMem chain hchain hx

theorem mem_of_mem_chainPath {chain : List V} {x : V} (hx : x ∈ chainPath s t chain) (hs : x ≠ s) (ht : x ≠ t) :
    x ∈ chain := by
  rw [chainPath, List.mem_cons, List.mem_append, List.mem_singleton] at hx
  exact (hx.resolve_left hs).resolve_right ht

/-- Every link of a chain has an end on it. -/
theorem mem_chain_of_link {chain : List V} (hne : chain ≠ []) {u v : V}
    (hlink : (u, v) ∈ pairwise (chainPath s t chain)) : u ∈ chain ∨ v ∈ chain := by
  obtain ⟨before, after, heq⟩ := mem_pairwise_iff.mp hlink
  cases before with
  | nil =>
      obtain ⟨-, htail⟩ := List.cons.inj heq
      cases chain with
      | nil => exact absurd rfl hne
      | cons x chain =>
          cases (List.cons.inj htail).1
          exact .inr List.mem_cons_self
  | cons w before =>
      left
      have htail : chain ++ [t] = before ++ u :: v :: after := (List.cons.inj heq).2
      have hmem : u ∈ (before ++ u :: v :: after).dropLast := by
        rw [List.dropLast_append_of_ne_nil (List.cons_ne_nil u _), List.dropLast_cons_cons]
        exact List.mem_append_right _ List.mem_cons_self
      rwa [← htail, List.dropLast_concat] at hmem

/-- The links of a node on a chain are links of this chain. -/
theorem link_of_mem (h : ParallelChains s t chains) {chain : List V} (hchain : chain ∈ chains) {x y : V}
    (hx : x ∈ chain) (hlink : ChainLink s t chains x y) :
    (x, y) ∈ pairwise (chainPath s t chain) ∨ (y, x) ∈ pairwise (chainPath s t chain) := by
  obtain ⟨chain', hchain', hlink⟩ := hlink
  have hs : x ≠ s := fun heq => h.source_notMem chain hchain (heq ▸ hx)
  have ht : x ≠ t := fun heq => h.sink_notMem chain hchain (heq ▸ hx)
  have hmem : x ∈ chainPath s t chain' := by
    obtain hlink | hlink := hlink
    · exact (mem_of_mem_pairwise hlink).1
    · exact List.mem_of_mem_tail (mem_of_mem_pairwise hlink).2
  have heq := h.eq_of_mem hchain hchain' hx (mem_of_mem_chainPath hmem hs ht)
  rwa [heq]

/-- From a node on a chain a simple path goes on to the next one: it has come from the other side. -/
theorem next_of_route (h : ParallelChains s t chains) {chain before after rest : List V} (hchain : chain ∈ chains)
    {x : V} (hsplit : chain = before ++ x :: after)
    (hroute : Route (ChainLink s t chains) s t (s :: before ++ x :: rest)) :
    ∃ y rest', rest = y :: rest' ∧ (after ++ [t]).head? = some y := by
  have hx : x ∈ chain := hsplit ▸ List.mem_append_right _ List.mem_cons_self
  cases rest with
  | nil =>
      have hlast := hroute.last
      rw [List.getLast?_concat, Option.some_inj] at hlast
      exact absurd (hlast ▸ hx) (h.sink_notMem chain hchain)
  | cons y rest =>
      refine ⟨y, rest, rfl, ?_⟩
      have hlink : ChainLink s t chains x y := (List.isChain_cons_cons.mp hroute.chain.right_of_append).1
      have halong : chainPath s t chain = (s :: before) ++ x :: (after ++ [t]) := by
        rw [chainPath, hsplit]
        simp
      have hnodup := h.nodup_chainPath hchain
      rw [halong] at hnodup
      obtain hnext | hback := h.link_of_mem hchain hx hlink
      · rw [halong] at hnext
        exact head?_of_mem_pairwise hnodup hnext
      · rw [halong] at hback
        have hmem := mem_of_mem_pairwise_split hnodup hback
        have hfresh := (List.nodup_append.mp hroute.nodup).2.2 y hmem y
        exact absurd rfl (hfresh (List.mem_cons_of_mem _ List.mem_cons_self))

theorem eq_singleton_of_sink {path rest : List V} {R : V → V → Prop} (hroute : Route R s t (path ++ t :: rest)) :
    rest = [] := by
  cases rest with
  | nil => rfl
  | cons y rest =>
      have hlast : t ∈ y :: rest := by
        refine List.mem_of_getLast? ?_
        rw [← hroute.last, List.getLast?_append_of_ne_nil _ (List.cons_ne_nil t _), List.getLast?_cons_cons]
      exact absurd hlast (List.nodup_cons.mp (List.nodup_append.mp hroute.nodup).2.1).1

/-- On a chain there is only one way to go: a simple path that has come to `x` from the source goes on to the sink. -/
theorem rest_eq_of_route (h : ParallelChains s t chains) {chain : List V} (hchain : chain ∈ chains)
    {after before rest : List V} {x : V} (hsplit : chain = before ++ x :: after)
    (hroute : Route (ChainLink s t chains) s t (s :: before ++ x :: rest)) : rest = after ++ [t] := by
  induction after generalizing before rest x with
  | nil =>
      obtain ⟨y, rest, rfl, hy⟩ := h.next_of_route hchain hsplit hroute
      cases hy
      rw [List.append_cons] at hroute
      rw [eq_singleton_of_sink hroute, List.nil_append]
  | cons z after ih =>
      obtain ⟨y, rest, rfl, hy⟩ := h.next_of_route hchain hsplit hroute
      cases hy
      rw [List.append_cons] at hsplit hroute
      rw [ih hsplit hroute, List.cons_append]

theorem route_chainPath (h : ParallelChains s t chains) {chain : List V} (hchain : chain ∈ chains) :
    Route (ChainLink s t chains) s t (chainPath s t chain) where
  head := rfl
  last := by
    rw [chainPath, ← List.cons_append, List.getLast?_concat]
  chain := isChain_iff_forall_mem_pairwise.mpr fun _ hlink => ⟨chain, hchain, .inl hlink⟩
  nodup := h.nodup_chainPath hchain

/-- **The simple paths from source to sink** are those along the chains. -/
theorem route_iff (h : ParallelChains s t chains) {path : List V} :
    Route (ChainLink s t chains) s t path ↔ path ∈ chains.map (chainPath s t) := by
  rw [List.mem_map]
  constructor
  · intro hroute
    cases path with
    | nil => cases hroute.head
    | cons a path =>
        cases hroute.head
        cases path with
        | nil =>
            cases hroute.last
            exact absurd rfl h.ends_ne
        | cons x rest =>
            obtain ⟨chain, hchain, hlink⟩ := (List.isChain_cons_cons.mp hroute.chain).1
            have hnodup : ([] ++ s :: (chain ++ [t])).Nodup := h.nodup_chainPath hchain
            obtain hnext | hback := hlink
            · have hx := head?_of_mem_pairwise hnodup hnext
              cases chain with
              | nil => exact absurd rfl (h.ne_nil [] hchain)
              | cons y after =>
                  cases hx
                  refine ⟨x :: after, hchain, ?_⟩
                  rw [h.rest_eq_of_route hchain (show x :: after = [] ++ x :: after from rfl) hroute]
                  rfl
            · cases mem_of_mem_pairwise_split hnodup hback
  · rintro ⟨chain, hchain, rfl⟩
    exact h.route_chainPath hchain

end ParallelChains

/-! ### Disjoint routes -/

/-- Simple paths that share no node but the source and the sink. -/
structure DisjointRoutes (R : V → V → Prop) (s t : V) (paths : List (List V)) : Prop where
  route : ∀ path ∈ paths, Route R s t path
  disjoint : paths.Pairwise fun path path' => ∀ v ∈ path, v ∈ path' → v = s ∨ v = t

/-- As many disjoint routes as there can be. -/
structure MaximumDisjointRoutes (R : V → V → Prop) (s t : V) (paths : List (List V)) : Prop
    extends DisjointRoutes R s t paths where
  maximum : ∀ paths', DisjointRoutes R s t paths' → paths'.length ≤ paths.length

namespace ParallelChains

variable {s t : V} {chains : List (List V)}

theorem exists_interior (h : ParallelChains s t chains) {path : List V} (hpath : path ∈ chains.map (chainPath s t)) :
    ∃ v ∈ path, v ≠ s ∧ v ≠ t := by
  obtain ⟨chain, hchain, rfl⟩ := List.mem_map.mp hpath
  obtain ⟨v, hv⟩ := List.exists_mem_of_ne_nil chain (h.ne_nil chain hchain)
  refine ⟨v, List.mem_cons_of_mem _ (List.mem_append_left _ hv), ?_, ?_⟩
  · rintro rfl
    exact h.source_notMem chain hchain hv
  · rintro rfl
    exact h.sink_notMem chain hchain hv

theorem disjointRoutes_chainPath (h : ParallelChains s t chains) :
    DisjointRoutes (ChainLink s t chains) s t (chains.map (chainPath s t)) where
  route := fun _ hpath => h.route_iff.mpr hpath
  disjoint := by
    rw [List.pairwise_map]
    refine h.disjoint.imp fun hdisjoint v hv hv' => ?_
    by_contra hends
    obtain ⟨hs, ht⟩ := not_or.mp hends
    exact hdisjoint (mem_of_mem_chainPath hv hs ht) (mem_of_mem_chainPath hv' hs ht)

theorem nodup_of_disjointRoutes (h : ParallelChains s t chains) {paths : List (List V)}
    (hpaths : DisjointRoutes (ChainLink s t chains) s t paths) : paths.Nodup := by
  refine hpaths.disjoint.imp_of_mem fun {path path'} hpath _ hdisjoint heq => ?_
  obtain ⟨v, hv, hs, ht⟩ := h.exists_interior (h.route_iff.mp (hpaths.route path hpath))
  obtain hend | hend := hdisjoint v hv (heq ▸ hv)
  · exact hs hend
  · exact ht hend

theorem subperm_of_disjointRoutes (h : ParallelChains s t chains) {paths : List (List V)}
    (hpaths : DisjointRoutes (ChainLink s t chains) s t paths) : paths.Subperm (chains.map (chainPath s t)) :=
  List.subperm_of_subset (h.nodup_of_disjointRoutes hpaths) fun path hpath => h.route_iff.mp (hpaths.route path hpath)

theorem maximum_chainPath (h : ParallelChains s t chains) :
    MaximumDisjointRoutes (ChainLink s t chains) s t (chains.map (chainPath s t)) where
  toDisjointRoutes := h.disjointRoutes_chainPath
  maximum := fun _ hpaths => (h.subperm_of_disjointRoutes hpaths).length_le

/-- As many disjoint routes as there can be are all the paths along the chains, in some order. -/
theorem perm_of_maximum (h : ParallelChains s t chains) {paths : List (List V)}
    (hpaths : MaximumDisjointRoutes (ChainLink s t chains) s t paths) : paths.Perm (chains.map (chainPath s t)) :=
  (h.subperm_of_disjointRoutes hpaths.toDisjointRoutes).perm_of_length_le (hpaths.maximum _ h.disjointRoutes_chainPath)

end ParallelChains

end OfTestbed.Lib
