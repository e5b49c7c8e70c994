import Mathlib.Tactic.Linarith
import Mathlib.Tactic.NormNum
import OfTestbed.LibWorklist
import OfTestbed.FlowAllocationMcf

/-!
What the route extraction computes: `traverse_graph_iterative` ends on every allocation, and returns every
simple path from source to destination along links with more than a thousandth of the flow, each once and
with the least share on its links.
-/

namespace OfTestbed.FlowAllocation

open Lib

variable (F : Dict (Nat × NodeId × NodeId) ℚ) (f : Nat)

/-- The share of flow `f` on a link, 0 where the allocation has no entry. -/
def share (link : NodeId × NodeId) : ℚ := (F.get? (f, link.1, link.2)).getD 0

/-- The links the traversal follows. -/
def Hop (u v : NodeId) : Prop := 1 / 1000 < share F f (u, v)

/-- The least share on the links of a path, or `start` where that is less. -/
def leastShare (start : ℚ) (path : Path) : ℚ :=
  (pairwise path).foldl (fun least link => min (share F f link) least) start

variable {F f}

@[simp] theorem leastShare_singleton (start : ℚ) (u : NodeId) : leastShare F f start [u] = start := rfl

@[simp] theorem leastShare_cons_cons (start : ℚ) (u v : NodeId) (path : Path) :
    leastShare F f start (u :: v :: path) = leastShare F f (min (share F f (u, v)) start) (v :: path) := rfl

theorem share_of_get? {u v : NodeId} {r : ℚ} (h : F.get? (f, u, v) = some r) : share F f (u, v) = r := by
  rw [share, h]
  rfl

theorem Hop.get? {u v : NodeId} (h : Hop F f u v) : F.get? (f, u, v) = some (share F f (u, v)) := by
  unfold Hop share at h
  unfold share
  cases hget : F.get? (f, u, v) with
  | none =>
      rw [hget, Option.getD_none] at h
      exact absurd h (by norm_num)
  | some r => rfl

theorem mem_getPathsForFlow {s u v : NodeId} {r : ℚ} :
    ((u, v), r) ∈ getPathsForFlow F s f ↔ u = s ∧ Hop F f u v ∧ r = share F f (u, v) := by
  rw [getPathsForFlow, List.mem_filterMap]
  constructor
  · rintro ⟨⟨⟨flowId, u', v'⟩, r'⟩, hentry, hsome⟩
    obtain ⟨⟨rfl, hu, hr⟩, heq⟩ := Option.ite_none_right_eq_some.mp hsome
    cases heq
    have hshare := share_of_get? (Dict.get?_eq_some_iff.mpr hentry)
    exact ⟨hu, by rwa [Hop, hshare], hshare.symm⟩
  · rintro ⟨rfl, hhop, rfl⟩
    refine ⟨((f, u, v), share F f (u, v)), Dict.get?_eq_some_iff.mp hhop.get?, ?_⟩
    exact if_pos ⟨rfl, rfl, hhop⟩

theorem pairwise_getPathsForFlow (s : NodeId) :
    (getPathsForFlow F s f).Pairwise fun hop hop' => hop.1.2 ≠ hop'.1.2 := by
  have hkeys : F.entries.Pairwise fun e e' => e.1 ≠ e'.1 := List.pairwise_map.mp F.nodupKeys
  rw [getPathsForFlow]
  refine List.Pairwise.filterMap _ ?_ hkeys
  intro e e' hne hop hhop hop' hhop' heq
  obtain ⟨⟨hf, hu, -⟩, hsome⟩ := Option.ite_none_right_eq_some.mp hhop
  obtain ⟨⟨hf', hu', -⟩, hsome'⟩ := Option.ite_none_right_eq_some.mp hhop'
  cases hsome
  cases hsome'
  exact hne (Prod.ext (hf.trans hf'.symm) (Prod.ext (hu.trans hu'.symm) heq))

/-! ### The traversal is a worklist loop -/

variable (F f)

/-- The paths one link longer. -/
def extensions (u : NodeId) (item : Path × ℚ) : List (Path × ℚ) :=
  ((getPathsForFlow F u f).filter fun hop => hop.1.2 ∉ item.1).map fun hop =>
    (item.1 ++ [hop.1.2], min hop.2 item.2)

/-- The complete and the incomplete paths that one turn adds. -/
def expand (t : NodeId) (item : Path × ℚ) : Option (List (Path × ℚ) × List (Path × ℚ)) :=
  item.1.getLast?.map fun u =>
    ((extensions F f u item).filter fun next => next.1.getLast? = some t,
      (extensions F f u item).filter fun next => next.1.getLast? ≠ some t)

variable {F f}

theorem foldl_visitHop (t : NodeId) (path : Path) (sr : ℚ) (hops : List ((NodeId × NodeId) × ℚ))
    (out queue : List (Path × ℚ)) :
    let next := (hops.filter fun hop => hop.1.2 ∉ path).map fun hop => (path ++ [hop.1.2], min hop.2 sr)
    hops.foldl (visitHop t path sr) (out, queue) =
      (out ++ next.filter fun item => item.1.getLast? = some t,
        queue ++ next.filter fun item => item.1.getLast? ≠ some t) := by
  induction hops generalizing out queue with
  | nil => simp
  | cons hop rest ih =>
      obtain ⟨⟨u, v⟩, r⟩ := hop
      rw [List.foldl_cons]
      by_cases hloop : v ∈ path
      · have hvisit : visitHop t path sr (out, queue) ((u, v), r) = (out, queue) := if_pos hloop
        rw [hvisit, ih]
        simp [hloop]
      · by_cases ht : v = t
        · subst ht
          have hvisit : visitHop v path sr (out, queue) ((u, v), r) = (out ++ [(path ++ [v], min r sr)], queue) := by
            simp only [visitHop, if_neg hloop, if_true, min_def_lt]
          rw [hvisit, ih]
          simp [hloop]
        · have hvisit : visitHop t path sr (out, queue) ((u, v), r) = (out, queue ++ [(path ++ [v], min r sr)]) := by
            simp only [visitHop, if_neg hloop, if_neg ht, min_def_lt]
          rw [hvisit, ih]
          simp [hloop, ht]

theorem traverseLoop_eq_drain (t : NodeId) (fuel : Nat) (out queue : List (Path × ℚ)) :
    traverseLoop F f t fuel out queue = drain (expand F f t) fuel out queue := by
  induction fuel generalizing out queue with
  | zero => cases queue <;> rfl
  | succ fuel ih =>
      cases queue with
      | nil => rfl
      | cons item queue =>
          obtain ⟨path, sr⟩ := item
          rw [traverseLoop, drain, expand]
          cases hlast : path.getLast? with
          | none => rfl
          | some u =>
              simp only [Option.bind_eq_bind, Option.bind_some, Option.map_some, foldl_visitHop, ih]
              rfl

/-! ### What it finds -/

/-- The turns of one path: what each next link gives. -/
theorem mem_extensions {u : NodeId} {path : Path} {sr : ℚ} {item : Path × ℚ} :
    item ∈ extensions F f u (path, sr) ↔
      ∃ v, v ∉ path ∧ Hop F f u v ∧ item = (path ++ [v], min (share F f (u, v)) sr) := by
  rw [extensions, List.mem_map]
  constructor
  · rintro ⟨⟨⟨u', v⟩, r⟩, hmem, rfl⟩
    rw [List.mem_filter, mem_getPathsForFlow, decide_eq_true_eq] at hmem
    obtain ⟨⟨rfl, hhop, rfl⟩, hloop⟩ := hmem
    exact ⟨v, hloop, hhop, rfl⟩
  · rintro ⟨v, hloop, hhop, rfl⟩
    refine ⟨((u, v), share F f (u, v)), ?_, rfl⟩
    rw [List.mem_filter, mem_getPathsForFlow, decide_eq_true_eq]
    exact ⟨⟨rfl, hhop, rfl⟩, hloop⟩

variable {t : NodeId}

theorem expand_eq {u : NodeId} {item : Path × ℚ} (hlast : item.1.getLast? = some u) :
    expand F f t item = some ((extensions F f u item).filter fun next => next.1.getLast? = some t,
      (extensions F f u item).filter fun next => next.1.getLast? ≠ some t) := by
  rw [expand, hlast]
  rfl

/-- The simple paths to `t` that go on from a path ending at `u`. -/
def Completes (F : Dict (Nat × NodeId × NodeId) ℚ) (f : Nat) (t u : NodeId) (item result : Path × ℚ) : Prop :=
  ∃ ext, result = (item.1 ++ ext, leastShare F f item.2 (u :: ext)) ∧ ext.getLast? = some t ∧
    (item.1 ++ ext).Nodup ∧ (u :: ext).IsChain (Hop F f)

theorem yields_of_completes {u : NodeId} {item result : Path × ℚ} (hlast : item.1.getLast? = some u)
    (h : Completes F f t u item result) : Yields (expand F f t) item result := by
  obtain ⟨ext, rfl, hend, hnodup, hchain⟩ := h
  induction ext generalizing item u with
  | nil => cases hend
  | cons v rest ih =>
      obtain ⟨path, sr⟩ := item
      have hhop := (List.isChain_cons_cons.mp hchain).1
      have hnew : v ∉ path := fun hmem => (List.nodup_append.mp hnodup).2.2 v hmem v List.mem_cons_self rfl
      have hext : (path ++ [v], min (share F f (u, v)) sr) ∈ extensions F f u (path, sr) :=
        mem_extensions.mpr ⟨v, hnew, hhop, rfl⟩
      cases rest with
      | nil =>
          cases hend
          refine .now (expand_eq hlast) (List.mem_filter.mpr ⟨hext, ?_⟩)
          simp
      | cons w rest =>
          have hend' : (w :: rest).getLast? = some t := by simpa using hend
          have hne : v ≠ t := by
            rintro rfl
            have hdisjoint := (List.nodup_append.mp hnodup).2.1
            exact (List.nodup_cons.mp hdisjoint).1 (List.mem_of_getLast? hend')
          have hrest : Yields (expand F f t) (path ++ [v], min (share F f (u, v)) sr)
              (path ++ [v] ++ w :: rest, leastShare F f (min (share F f (u, v)) sr) (v :: w :: rest)) :=
            ih (by simp) hend' (by simpa using hnodup) (List.isChain_cons_cons.mp hchain).2
          refine .later (expand_eq hlast) (List.mem_filter.mpr ⟨hext, by simpa using hne⟩) ?_
          simpa using hrest

theorem completes_of_yields {item result : Path × ℚ} (h : Yields (expand F f t) item result) {u : NodeId}
    (hlast : item.1.getLast? = some u) (hnodup : item.1.Nodup) : Completes F f t u item result := by
  have hnodup' : ∀ (path : Path) v, path.Nodup → v ∉ path → (path ++ [v]).Nodup := by
    intro path v hpath hv
    exact hpath.append (List.nodup_singleton v) (by simpa using hv)
  induction h generalizing u with
  | @now item found more result hwork hmem =>
      obtain ⟨path, sr⟩ := item
      cases (expand_eq hlast).symm.trans hwork
      obtain ⟨hext, hend⟩ := List.mem_filter.mp hmem
      obtain ⟨v, hnew, hhop, rfl⟩ := mem_extensions.mp hext
      have ht : v = t := by simpa using hend
      exact ⟨[v], rfl, by simp [ht], hnodup' path v hnodup hnew, List.isChain_pair.mpr hhop⟩
  | @later item found more next result hwork hmem _ ih =>
      obtain ⟨path, sr⟩ := item
      cases (expand_eq hlast).symm.trans hwork
      obtain ⟨v, hnew, hhop, rfl⟩ := mem_extensions.mp (List.mem_of_mem_filter hmem)
      obtain ⟨ext, rfl, hend, hall, hchain⟩ := ih (u := v) (by simp) (hnodup' path v hnodup hnew)
      refine ⟨v :: ext, ?_, ?_, ?_, List.isChain_cons_cons.mpr ⟨hhop, hchain⟩⟩
      · simp
      · simp [List.getLast?_cons, hend]
      · simpa using hall

/-! ### No path twice -/

/-- Neither path goes on from the other. -/
def Apart (path path' : Path) : Prop := ¬path <+: path' ∧ ¬path' <+: path

theorem Apart.symm {path path' : Path} (h : Apart path path') : Apart path' path := ⟨h.2, h.1⟩

theorem Apart.concat {path path' : Path} (h : Apart path path') (v : NodeId) : Apart path (path' ++ [v]) := by
  refine ⟨fun hstart => ?_, fun hstart => h.2 ((List.prefix_append path' [v]).trans hstart)⟩
  rcases List.prefix_concat_iff.mp hstart with rfl | hstart
  · exact h.2 (List.prefix_append path' [v])
  · exact h.1 hstart

theorem apart_concat {path : Path} {v v' : NodeId} (hne : v ≠ v') : Apart (path ++ [v]) (path ++ [v']) := by
  have hlength : (path ++ [v]).length = (path ++ [v']).length := by simp
  refine ⟨fun hstart => hne ?_, fun hstart => hne ?_⟩
  · simpa using hstart.eq_of_length hlength
  · simpa using (hstart.eq_of_length hlength.symm).symm

theorem pairwise_extensions (u : NodeId) (item : Path × ℚ) :
    (extensions F f u item).Pairwise fun next next' => Apart next.1 next'.1 := by
  rw [extensions, List.pairwise_map]
  exact ((pairwise_getPathsForFlow u).filter _).imp fun hne => apart_concat hne

theorem expand_apart {out queue found more : List (Path × ℚ)} {item : Path × ℚ}
    (h : (out ++ item :: queue).Pairwise fun a b => Apart a.1 b.1) (hwork : expand F f t item = some (found, more)) :
    (out ++ found ++ (queue ++ more)).Pairwise fun a b => Apart a.1 b.1 := by
  have hsymm : ∀ {a b : Path × ℚ}, Apart a.1 b.1 → Apart b.1 a.1 := fun hab => hab.symm
  obtain ⟨u, hlast, hresult⟩ := Option.map_eq_some_iff.mp hwork
  cases hresult
  set next := extensions F f u item with hnext
  have hnew : (next.filter (fun next => next.1.getLast? = some t) ++
      next.filter fun next => next.1.getLast? ≠ some t).Perm next := by
    simpa using List.filter_append_perm (fun next : Path × ℚ => next.1.getLast? = some t) next
  have hperm : (out ++ next.filter (fun next => next.1.getLast? = some t) ++
      (queue ++ next.filter fun next => next.1.getLast? ≠ some t)).Perm (out ++ queue ++ next) := by
    refine List.Perm.trans ?_ (List.Perm.append_left (out ++ queue) hnew)
    simp only [List.append_assoc]
    apply List.Perm.append_left out
    rw [← List.append_assoc, ← List.append_assoc]
    exact List.Perm.append_right _ List.perm_append_comm
  rw [hperm.pairwise_iff hsymm]
  have hold : (item :: (out ++ queue)).Pairwise fun a b => Apart a.1 b.1 :=
    (List.perm_middle.pairwise_iff hsymm).mp h
  refine List.pairwise_append.mpr ⟨(List.pairwise_cons.mp hold).2, pairwise_extensions u item, ?_⟩
  intro a ha b hb
  obtain ⟨v, -, -, rfl⟩ := mem_extensions.mp hb
  exact ((List.pairwise_cons.mp hold).1 a ha).symm.concat v

/-! ### The whole traversal -/

/-- Along a path from the queue: it is simple, and its nodes are the start and link targets. -/
def Pending (F : Dict (Nat × NodeId × NodeId) ℚ) (s : NodeId) (item : Path × ℚ) : Prop :=
  item.1 ≠ [] ∧ item.1.Nodup ∧ item.1 ⊆ s :: F.keys.map fun key => key.2.2

theorem Pending.length_le {s : NodeId} {item : Path × ℚ} (h : Pending F s item) :
    item.1.length ≤ F.keys.length + 1 := by
  have hle := (List.subperm_of_subset h.2.1 h.2.2).length_le
  simpa using hle

theorem Pending.expand {s : NodeId} {item : Path × ℚ} (h : Pending F s item) :
    ∃ found more, expand F f t item = some (found, more) ∧ ∀ next ∈ more,
      Pending F s next ∧ F.keys.length + 1 - next.1.length < F.keys.length + 1 - item.1.length := by
  obtain ⟨path, sr⟩ := item
  obtain ⟨hne, hnodup, hsub⟩ := h
  have hlast : path.getLast? = some (path.getLast hne) := List.getLast?_eq_some_getLast hne
  refine ⟨_, _, expand_eq hlast, fun next hmem => ?_⟩
  obtain ⟨v, hnew, hhop, rfl⟩ := mem_extensions.mp (List.mem_of_mem_filter hmem)
  have hkey : v ∈ s :: F.keys.map fun key => key.2.2 := by
    refine List.mem_cons_of_mem s (List.mem_map.mpr ⟨(f, path.getLast hne, v), ?_, rfl⟩)
    rw [Dict.mem_keys_iff, hhop.get?]
    rfl
  have hnext : Pending F s (path ++ [v], min (share F f (path.getLast hne, v)) sr) := by
    refine ⟨by simp, hnodup.append (List.nodup_singleton v) (by simpa using hnew), ?_⟩
    intro w hw
    rcases List.mem_append.mp hw with hold | hv
    · exact hsub hold
    · exact List.mem_singleton.mp hv ▸ hkey
  have hlength := hnext.length_le
  refine ⟨hnext, ?_⟩
  simp only [List.length_append, List.length_singleton] at hlength ⊢
  omega

/-- Every simple path of at least one link, once, with its least share. -/
structure AllRoutes (F : Dict (Nat × NodeId × NodeId) ℚ) (f : Nat) (s t : NodeId) (routes : List (Path × ℚ)) :
    Prop where
  nodup : (routes.map Prod.fst).Nodup
  mem_iff : ∀ path ratio, (path, ratio) ∈ routes ↔
    path ≠ [s] ∧ Route (Hop F f) s t path ∧ ratio = leastShare F f 1 path

theorem exists_traverse (F : Dict (Nat × NodeId × NodeId) ℚ) (f : Nat) (s t : NodeId) :
    ∃ bound routes, (∀ fuel ≥ bound, traverseGraphIterative fuel F f s t = some routes) ∧
      AllRoutes F f s t routes := by
  have hstart : ∀ item ∈ [([s], (1 : ℚ))], Pending F s item := by
    intro item hitem
    rw [List.mem_singleton] at hitem
    subst hitem
    exact ⟨by simp, List.nodup_singleton s, by simp⟩
  obtain ⟨bound, routes, hroutes⟩ :=
    exists_drain (fun item h => Pending.expand (F := F) (f := f) (t := t) h) [] hstart
  have hrun := hroutes bound le_rfl
  refine ⟨bound, routes, fun fuel hfuel => ?_, ?_, fun path ratio => ?_⟩
  · rw [traverseGraphIterative, traverseLoop_eq_drain]
    exact hroutes fuel hfuel
  · have happart := drain_invariant (fun out queue => (out ++ queue).Pairwise fun a b => Apart a.1 b.1)
      (fun out item queue found more h hwork => expand_apart h hwork) (List.pairwise_singleton _ _) hrun
    rw [List.append_nil] at happart
    refine List.pairwise_map.mpr (happart.imp ?_)
    rintro a b hab heq
    exact hab.1 (heq ▸ List.prefix_refl a.1)
  · rw [mem_drain_iff hrun]
    simp only [List.not_mem_nil, false_or, List.mem_singleton, exists_eq_left]
    constructor
    · intro hyields
      obtain ⟨ext, heq, hend, hnodup, hchain⟩ := completes_of_yields hyields rfl (List.nodup_singleton s)
      cases heq
      have hext : ext ≠ [] := by
        rintro rfl
        cases hend
      exact ⟨by simpa using hext, ⟨rfl, by simp [List.getLast?_cons, hend], hchain, hnodup⟩, rfl⟩
    · rintro ⟨hne, hroute, rfl⟩
      cases path with
      | nil => cases hroute.head
      | cons s' ext =>
          cases hroute.head
          have hext : ext ≠ [] := by simpa using hne
          have hend := hroute.last
          rw [← List.singleton_append, List.getLast?_append_of_ne_nil _ hext] at hend
          exact yields_of_completes rfl ⟨ext, rfl, hend, hroute.nodup, hroute.chain⟩

/-- One turn makes paths of one more node. -/
theorem length_of_expand {item : Path × ℚ} {found more : List (Path × ℚ)}
    (h : expand F f t item = some (found, more)) :
    (∀ result ∈ found, result.1.length = item.1.length + 1) ∧ ∀ next ∈ more, next.1.length = item.1.length + 1 := by
  obtain ⟨u, -, heq⟩ := Option.map_eq_some_iff.mp h
  cases heq
  have hlength : ∀ next ∈ extensions F f u item, next.1.length = item.1.length + 1 := by
    intro next hnext
    obtain ⟨v, -, -, rfl⟩ := mem_extensions.mp hnext
    rw [List.length_append, List.length_singleton]
  exact ⟨fun result hresult => hlength result (List.mem_of_mem_filter hresult),
    fun next hnext => hlength next (List.mem_of_mem_filter hnext)⟩

/-- Between different nodes the traversal ends, whatever cycles there are, and returns the simple paths along links
with more than a thousandth of the flow: each once, the shorter ones first, and with the least of 1 and its shares. -/
theorem traverse_returns_routes (F : Dict (Nat × NodeId × NodeId) ℚ) (f : Nat) (s t : NodeId) (hne : s ≠ t) :
    ∃ bound routes, (∀ fuel ≥ bound, traverseGraphIterative fuel F f s t = some routes) ∧
      (∀ path ratio, (path, ratio) ∈ routes ↔
        (Route (Hop F f) s t path ∧ t ∉ path.dropLast) ∧ ratio = leastShare F f 1 path) ∧
      (routes.map Prod.fst).Nodup ∧ routes.Pairwise fun a b => a.1.length ≤ b.1.length := by
  obtain ⟨bound, routes, hrun, hall⟩ := exists_traverse F f s t
  refine ⟨bound, routes, hrun, fun path ratio => ?_, hall.nodup, ?_⟩
  · rw [hall.mem_iff]
    constructor
    · rintro ⟨-, hroute, hratio⟩
      exact ⟨⟨hroute, hroute.notMem_dropLast⟩, hratio⟩
    · rintro ⟨⟨hroute, -⟩, hratio⟩
      refine ⟨?_, hroute, hratio⟩
      rintro rfl
      exact hne (Option.some.inj hroute.last)
  · have hdrain := hrun bound le_rfl
    rw [traverseGraphIterative, traverseLoop_eq_drain] at hdrain
    exact pairwise_drain (fun item found more hwork => length_of_expand hwork) hdrain

/-- A flow on the sides of a triangle, with a link back to the start. -/
def triangleShares : Dict (Nat × NodeId × NodeId) ℚ :=
  .ofList [((0, 0, 1), 1 / 2), ((0, 1, 2), 1 / 4), ((0, 0, 2), 1 / 2), ((0, 1, 0), 1 / 4)]

theorem traverse_returns_routes_triangle :
    ∃ bound routes, (∀ fuel ≥ bound, traverseGraphIterative fuel triangleShares 0 0 2 = some routes) ∧
      (∀ path ratio, (path, ratio) ∈ routes ↔
        (Route (Hop triangleShares 0) 0 2 path ∧ 2 ∉ path.dropLast) ∧ ratio = leastShare triangleShares 0 1 path) ∧
      (routes.map Prod.fst).Nodup ∧ routes.Pairwise fun a b => a.1.length ≤ b.1.length :=
  traverse_returns_routes triangleShares 0 0 2 (by decide)

/-! ### All flows -/

section

variable {graph : Graph} {n : Nat} {x : McfVar → ℚ}

theorem mem_flowKeys {flowIdx : Nat} {u v : NodeId} :
    (flowIdx, u, v) ∈ flowKeys graph n ↔ flowIdx < n ∧ (u, v) ∈ graph.arcs := by
  rw [flowKeys, List.mem_flatMap]
  constructor
  · rintro ⟨i, hi, hmem⟩
    obtain ⟨⟨u', v'⟩, harc, heq⟩ := List.mem_map.mp hmem
    cases heq
    exact ⟨List.mem_range.mp hi, harc⟩
  · rintro ⟨hi, harc⟩
    exact ⟨flowIdx, List.mem_range.mpr hi, List.mem_map.mpr ⟨(u, v), harc, rfl⟩⟩

theorem flowKeys_nodup : (flowKeys graph n).Nodup := by
  rw [flowKeys, List.nodup_flatMap]
  refine ⟨fun flowIdx _ => Graph.arcs_nodup.map fun arc arc' heq => (Prod.mk.inj heq).2, ?_⟩
  apply List.nodup_range.imp
  intro i j hne
  show List.Disjoint _ _
  rw [List.disjoint_left]
  intro key hkey hkey'
  obtain ⟨arc, -, rfl⟩ := List.mem_map.mp hkey
  obtain ⟨arc', -, heq⟩ := List.mem_map.mp hkey'
  exact hne (Prod.mk.inj heq).1.symm

theorem entries_feasibleAllocations : (feasibleAllocations graph n x).entries =
    (flowKeys graph n).map fun (flowIdx, u, v) => ((flowIdx, u, v), x (.F flowIdx u v)) := by
  apply Dict.entries_ofList
  rw [List.map_map]
  exact (List.map_id' (flowKeys graph n)).symm ▸ flowKeys_nodup

theorem keys_feasibleAllocations : (feasibleAllocations graph n x).keys = flowKeys graph n := by
  rw [Dict.keys, entries_feasibleAllocations, List.map_map]
  exact List.map_id' (flowKeys graph n)

theorem share_feasibleAllocations {flowIdx : Nat} (hflow : flowIdx < n) {link : NodeId × NodeId}
    (hlink : link ∈ graph.arcs) :
    share (feasibleAllocations graph n x) flowIdx link = x (.F flowIdx link.1 link.2) := by
  apply share_of_get?
  rw [Dict.get?_eq_some_iff, entries_feasibleAllocations]
  exact List.mem_map.mpr ⟨(flowIdx, link.1, link.2), mem_flowKeys.mpr ⟨hflow, hlink⟩, rfl⟩

theorem hop_feasibleAllocations_iff {flowIdx : Nat} (hflow : flowIdx < n) {u v : NodeId} :
    Hop (feasibleAllocations graph n x) flowIdx u v ↔ (u, v) ∈ graph.arcs ∧ 1 / 1000 < x (.F flowIdx u v) := by
  constructor
  · intro hhop
    have hkey : (flowIdx, u, v) ∈ (feasibleAllocations graph n x).keys := by
      rw [Dict.mem_keys_iff, hhop.get?]
      rfl
    rw [keys_feasibleAllocations, mem_flowKeys] at hkey
    refine ⟨hkey.2, ?_⟩
    rwa [Hop, share_feasibleAllocations hflow hkey.2] at hhop
  · rintro ⟨harc, hshare⟩
    rwa [Hop, share_feasibleAllocations hflow harc]

/-- There is one group of keys for each flow, in the order of the flows. -/
theorem groups_flowKeys (harcs : n = 0 ∨ graph.arcs ≠ []) :
    (groupby Prod.fst (sortedBy Prod.fst (flowKeys graph n))).map Prod.fst = List.range n := by
  have hmem : ∀ i, i ∈ (groupby Prod.fst (sortedBy Prod.fst (flowKeys graph n))).map Prod.fst ↔
      i ∈ List.range n := by
    intro i
    rw [List.mem_map, List.mem_range]
    constructor
    · rintro ⟨⟨i, group⟩, hgroup, rfl⟩
      obtain ⟨⟨⟨j, u, v⟩, hkey, rfl⟩, -⟩ := mem_groupby_sortedBy.mp hgroup
      exact (mem_flowKeys.mp hkey).1
    · intro hi
      obtain ⟨⟨u, v⟩, harc⟩ := List.exists_mem_of_ne_nil _ (harcs.resolve_left (by omega))
      exact ⟨(i, _), mem_groupby_sortedBy.mpr ⟨⟨(i, u, v), mem_flowKeys.mpr ⟨hi, harc⟩, rfl⟩, rfl⟩, rfl⟩
  have hsorted : ((groupby Prod.fst (sortedBy Prod.fst (flowKeys graph n))).map Prod.fst).Pairwise (· < ·) :=
    List.pairwise_map.mpr (pairwise_groupby_sortedBy _ _)
  have hperm : ((groupby Prod.fst (sortedBy Prod.fst (flowKeys graph n))).map Prod.fst).Perm (List.range n) :=
    (List.perm_ext_iff_of_nodup (hsorted.imp fun h => Nat.ne_of_lt h) List.nodup_range).mpr hmem
  exact hperm.eq_of_pairwise (fun i j _ _ hij hji => absurd hij (Nat.lt_asymm hji)) hsorted List.pairwise_lt_range

/-- The extraction ends, and gives every flow all its routes. -/
theorem exists_computeMcfFlowRoutes (flows : List Flow) (x : McfVar → ℚ)
    (harcs : flows.length = 0 ∨ graph.arcs ≠ []) :
    ∃ bound routed, (∀ fuel ≥ bound,
        computeMcfFlowRoutes fuel flows (feasibleAllocations graph flows.length x) = some routed) ∧
      routed.length = flows.length ∧
      ∀ flowIdx flow, flows[flowIdx]? = some flow → ∃ routes,
        routed[flowIdx]? = some { flow with paths := routes.map Prod.fst, splittingRatio := routes.map Prod.snd } ∧
        AllRoutes (feasibleAllocations graph flows.length x) flowIdx flow.sourceNode flow.destinationNode routes := by
  set F := feasibleAllocations graph flows.length x with hF
  choose bound routes hroutes using exists_traverse F
  let route : Flow × Nat → Flow := fun turn =>
    let found := routes turn.2 turn.1.sourceNode turn.1.destinationNode
    { turn.1 with paths := found.map Prod.fst, splittingRatio := found.map Prod.snd }
  let enough := (flows.zipIdx.map fun turn => bound turn.2 turn.1.sourceNode turn.1.destinationNode).sum
  have henough : ∀ flowIdx flow, flows[flowIdx]? = some flow →
      bound flowIdx flow.sourceNode flow.destinationNode ≤ enough := by
    intro flowIdx flow hflow
    refine List.le_sum_of_mem (List.mem_map.mpr ⟨(flow, flowIdx), ?_, rfl⟩)
    exact List.mk_mem_zipIdx_iff_getElem?.mpr hflow
  refine ⟨enough, flows.zipIdx.map route, fun fuel hfuel => ?_, by simp, fun flowIdx flow hflow => ?_⟩
  · let body : Nat → Option Flow := fun flowIdx => do
      let theFlow ← flows[flowIdx]?
      let routes ← traverseGraphIterative fuel F flowIdx theFlow.sourceNode theFlow.destinationNode
      return { theFlow with paths := routes.map Prod.fst, splittingRatio := routes.map Prod.snd }
    have hbody : ∀ flowIdx flow, flows[flowIdx]? = some flow → body flowIdx = some (route (flow, flowIdx)) := by
      intro flowIdx flow hflow
      have hrun := (hroutes flowIdx flow.sourceNode flow.destinationNode).1 fuel
        (le_trans (henough flowIdx flow hflow) hfuel)
      simp only [body, hflow, Option.bind_eq_bind, Option.bind_some, hrun]
      rfl
    change (groupby Prod.fst (sortedBy Prod.fst F.keys)).mapM (body ∘ Prod.fst) = _
    rw [mapM_eq_some_iff, ← List.map_map, hF, keys_feasibleAllocations, groups_flowKeys harcs]
    apply List.ext_getElem?
    intro i
    rcases Nat.lt_or_ge i flows.length with hi | hi
    · have hflow := List.getElem?_eq_getElem hi
      simp [hi, hbody i _ hflow]
    · simp [hi]
  · refine ⟨routes flowIdx flow.sourceNode flow.destinationNode, ?_, (hroutes _ _ _).2⟩
    simp [hflow, route]

end

end OfTestbed.FlowAllocation
