import Mathlib.Data.List.Chain
import Mathlib.Data.List.Nodup
import Mathlib.Data.Finset.Card
import Mathlib.Logic.Relation
import Mathlib.Order.WellFounded

/-!
Routes in a directed graph. A graph is a relation on its nodes, a path is the list of nodes it visits, and
its links are the consecutive pairs. A route is a simple path between two given nodes; a node that can be
reached has one. In a graph without cycles every path is simple, and following links leads nowhere
forever.
-/

namespace OfTestbed.Lib

variable {V : Type}

/-- The links of a path. -/
def pairwise (path : List V) : List (V × V) := path.zip path.tail

@[simp] theorem pairwise_nil : pairwise ([] : List V) = [] := rfl

@[simp] theorem pairwise_singleton (v : V) : pairwise [v] = [] := rfl

@[simp] theorem pairwise_cons_cons (u v : V) (path : List V) :
    pairwise (u :: v :: path) = (u, v) :: pairwise (v :: path) := rfl

theorem mem_of_mem_pairwise {path : List V} {link : V × V} (h : link ∈ pairwise path) :
    link.1 ∈ path ∧ link.2 ∈ path.tail :=
  List.of_mem_zip (a := link.1) (b := link.2) h

theorem isChain_iff_forall_mem_pairwise {R : V → V → Prop} {path : List V} :
    path.IsChain R ↔ ∀ link ∈ pairwise path, R link.1 link.2 := by
  induction path with
  | nil => simp
  | cons u rest ih =>
      cases rest with
      | nil => simp
      | cons v rest => simp [List.isChain_cons_cons, ih]

theorem pairwise_nodup {path : List V} (h : path.Nodup) : (pairwise path).Nodup := by
  induction path with
  | nil => exact List.nodup_nil
  | cons u rest ih =>
      cases rest with
      | nil => exact List.nodup_nil
      | cons v rest =>
          rw [List.nodup_cons] at h
          refine List.nodup_cons.mpr ⟨fun hmem => h.1 (mem_of_mem_pairwise hmem).1, ih h.2⟩

/-- A simple path does not use a link in both directions. -/
theorem swap_notMem_pairwise {path : List V} (h : path.Nodup) {u v : V} (hlink : (u, v) ∈ pairwise path) :
    (v, u) ∉ pairwise path := by
  induction path with
  | nil => cases hlink
  | cons a rest ih =>
      cases rest with
      | nil => cases hlink
      | cons b rest =>
          obtain ⟨hout, hnodup⟩ := List.nodup_cons.mp h
          intro hback
          rw [pairwise_cons_cons, List.mem_cons] at hlink hback
          rcases hlink with hfirst | hlink
          · cases hfirst
            rcases hback with hfirst | hback
            · cases hfirst
              exact hout List.mem_cons_self
            · exact hout (List.mem_of_mem_tail (mem_of_mem_pairwise hback).2)
          · rcases hback with hfirst | hback
            · cases hfirst
              exact hout (List.mem_of_mem_tail (mem_of_mem_pairwise hlink).2)
            · exact ih hnodup hlink hback

theorem exists_mem_pairwise_of_ne {path : List V} {s t : V} (hhead : path.head? = some s)
    (hlast : path.getLast? = some t) (hne : s ≠ t) : pairwise path ≠ [] := by
  cases path with
  | nil => cases hhead
  | cons a rest =>
      cases rest with
      | nil =>
          cases hhead
          cases hlast
          exact absurd rfl hne
      | cons b rest => simp

/-- A simple path from `s` to `t`. -/
structure Route (R : V → V → Prop) (s t : V) (path : List V) : Prop where
  head : path.head? = some s
  last : path.getLast? = some t
  chain : path.IsChain R
  nodup : path.Nodup

theorem Route.mono {R R' : V → V → Prop} (hle : ∀ u v, R u v → R' u v) {s t : V} {path : List V}
    (h : Route R s t path) : Route R' s t path :=
  ⟨h.head, h.last, h.chain.imp fun u v => hle u v, h.nodup⟩

/-- What holds of the start of every link and of the end holds along the whole path. -/
theorem Route.forall_mem {R : V → V → Prop} {s t : V} {path : List V} (h : Route R s t path) {P : V → Prop}
    (hlink : ∀ u v, R u v → P u) (hend : P t) : ∀ v ∈ path, P v := by
  intro v hv
  obtain ⟨before, after, rfl⟩ := List.append_of_mem hv
  cases after with
  | nil =>
      have hlast : v = t := by simpa using h.last
      exact hlast ▸ hend
  | cons w after => exact hlink v w (List.isChain_cons_cons.mp h.chain.right_of_append).1

/-- A simple path does not reach its end before. -/
theorem Route.notMem_dropLast {R : V → V → Prop} {s t : V} {path : List V} (h : Route R s t path) :
    t ∉ path.dropLast := by
  intro hmem
  obtain ⟨before, rfl⟩ := List.getLast?_eq_some_iff.mp h.last
  rw [List.dropLast_concat] at hmem
  exact (List.nodup_append.mp h.nodup).2.2 t hmem t List.mem_cons_self rfl

theorem exists_route [DecidableEq V] {R : V → V → Prop} {s t : V} (h : Relation.ReflTransGen R s t) :
    ∃ path, Route R s t path := by
  induction h using Relation.ReflTransGen.head_induction_on with
  | refl => exact ⟨[t], rfl, rfl, List.isChain_singleton t, List.nodup_singleton t⟩
  | @head u v hlink _ ih =>
      obtain ⟨path, hroute⟩ := ih
      by_cases hmem : u ∈ path
      -- the route from the next node comes back to `u`: cut it off there
      · obtain ⟨before, after, rfl⟩ := List.append_of_mem hmem
        refine ⟨u :: after, rfl, ?_, hroute.chain.right_of_append, hroute.nodup.of_append_right⟩
        have hlast := hroute.last
        rwa [List.getLast?_append_of_ne_nil _ (List.cons_ne_nil u after)] at hlast
      · refine ⟨u :: path, rfl, ?_, ?_, List.nodup_cons.mpr ⟨hmem, hroute.nodup⟩⟩
        · rw [List.getLast?_cons, hroute.last]
          rfl
        · apply hroute.chain.cons
          intro w hw
          rw [hroute.head] at hw
          cases hw
          exact hlink

theorem Route.reflTransGen {R : V → V → Prop} {s t : V} {path : List V} (h : Route R s t path) :
    Relation.ReflTransGen R s t := by
  have hne : path ≠ [] := by
    rintro rfl
    cases h.head
  have hreach := List.relationReflTransGen_of_exists_isChain path h.chain hne
  rwa [List.head_eq_iff_head?_eq_some hne |>.mpr h.head,
    List.getLast_eq_iff_getLast?_eq_some hne |>.mpr h.last] at hreach

/-! ### Graphs without cycles -/

/-- No node can be reached from itself by following links. -/
def Acyclic (R : V → V → Prop) : Prop := ∀ v, ¬Relation.TransGen R v v

theorem Acyclic.mono {R R' : V → V → Prop} (h : Acyclic R') (hle : ∀ u v, R u v → R' u v) : Acyclic R :=
  fun v hcycle => h v (Relation.TransGen.mono (fun u w => hle u w) v v hcycle)

/-- Links that always lead up admit no cycle. -/
theorem Acyclic.of_rank {R : V → V → Prop} (rank : V → Nat) (h : ∀ u v, R u v → rank u < rank v) :
    Acyclic R := by
  intro v hcycle
  have hup : ∀ w, Relation.TransGen R v w → rank v < rank w := by
    intro w hpath
    induction hpath with
    | single hlink => exact h _ _ hlink
    | tail _ hlink ih => exact ih.trans (h _ _ hlink)
  exact Nat.lt_irrefl _ (hup v hcycle)

theorem Acyclic.nodup {R : V → V → Prop} (h : Acyclic R) {path : List V} (hpath : path.IsChain R) :
    path.Nodup := by
  have htrans : path.IsChain (Relation.TransGen R) := hpath.imp fun _ _ hlink => Relation.TransGen.single hlink
  refine (List.isChain_iff_pairwise.mp htrans).imp ?_
  rintro u v huv rfl
  exact h u huv

/-- Following links ends, when the links enter finitely many nodes only. -/
theorem Acyclic.wellFounded {R : V → V → Prop} (h : Acyclic R) (nodes : Finset V)
    (hnodes : ∀ u v, R u v → v ∈ nodes) : WellFounded fun v u => R u v := by
  classical
  -- the number of nodes below drops with every link
  refine Subrelation.wf ?_ (measure fun u => (nodes.filter fun w => Relation.TransGen R u w).card).wf
  intro v u hlink
  refine Finset.card_lt_card (Finset.ssubset_iff_of_subset ?_ |>.mpr ⟨v, ?_, ?_⟩)
  · intro w hw
    rw [Finset.mem_filter] at hw ⊢
    exact ⟨hw.1, Relation.TransGen.head hlink hw.2⟩
  · rw [Finset.mem_filter]
    exact ⟨hnodes u v hlink, Relation.TransGen.single hlink⟩
  · rw [Finset.mem_filter]
    exact fun hw => h v hw.2

end OfTestbed.Lib
