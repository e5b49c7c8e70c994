import Mathlib.Tactic.Linarith
import OfTestbed.FlowAllocationAllocators
import OfTestbed.FlowAllocationKPaths
import OfTestbed.LibDefaultDict

/-!
The greedy allocator as a state machine. `compute_greedy_flow_allocations` draws one flow after the other and puts an
equal share of it on every link of its paths, link by link, until a link has no room for it. The points that the loop
runs through are those between two updates of the dictionary. The sum of its values is a potential: it grows by the
rate of a flow at least with every flow admitted, and it is at most the number of links.
-/

namespace OfTestbed.FlowAllocation

open Lib

def flowTxRateLowerBound : ℚ := 1 / 10

def flowTxRateUpperBound : ℚ := 1 / 2

/-- What the loop draws: two different nodes and a rate within the bounds. -/
structure GreedyDraw.Drawn (graph : Graph) (draw : GreedyDraw) : Prop where
  source_mem : draw.sourceNode ∈ graph.nodes
  destination_mem : draw.destinationNode ∈ graph.nodes
  source_ne : draw.sourceNode ≠ draw.destinationNode
  lower_le : flowTxRateLowerBound ≤ draw.flowTxRate
  le_upper : draw.flowTxRate ≤ flowTxRateUpperBound

/-- The links of the paths in the order in which they are visited. -/
def linksOf (paths : List Path) : List (NodeId × NodeId) := paths.flatMap fun path => (pairwise path).map sortedLink

section Machine

variable (search : PathSearch) (graph : Graph) (draws : Nat → GreedyDraw)

def turnPaths (turn : Nat) : List Path :=
  search.nodeDisjointPaths (draws turn).sourceNode (draws turn).destinationNode

/-- `flow_rate_per_subpath`. -/
def turnShare (turn : Nat) : ℚ := (draws turn).flowTxRate / (turnPaths search draws turn).length

def turnFlow (turn : Nat) : Flow := greedyFlow (draws turn) (turnPaths search draws turn)

def initialUtilization : Dict (NodeId × NodeId) ℚ := .ofList (graph.edges.map fun link => (sortedLink link, 0))

/-- A point of the loop: the flow being tried, the flows admitted, the links that are still to get their share. -/
structure GreedyPoint where
  turn : Nat
  flows : List Flow
  links : List (NodeId × NodeId)
  linkUtilization : Dict (NodeId × NodeId) ℚ

/-- The points that the loop runs through. -/
inductive GreedyReaches : GreedyPoint → Prop
  | start : GreedyReaches ⟨0, [], linksOf (turnPaths search draws 0), initialUtilization graph⟩
  | add {turn : Nat} {flows : List Flow} {link : NodeId × NodeId} {links : List (NodeId × NodeId)}
      {linkUtilization : Dict (NodeId × NodeId) ℚ} {used : ℚ} :
      GreedyReaches ⟨turn, flows, link :: links, linkUtilization⟩ → linkUtilization.get? link = some used →
      used + turnShare search draws turn ≤ linkCapacity →
      GreedyReaches ⟨turn, flows, links, linkUtilization.set link (used + turnShare search draws turn)⟩
  | accept {turn : Nat} {flows : List Flow} {linkUtilization : Dict (NodeId × NodeId) ℚ} :
      GreedyReaches ⟨turn, flows, [], linkUtilization⟩ →
      GreedyReaches ⟨turn + 1, flows ++ [turnFlow search draws turn], linksOf (turnPaths search draws (turn + 1)),
        linkUtilization⟩

/-- The next link has no room for its share. -/
def GreedyPoint.Stops (point : GreedyPoint) : Prop :=
  ∃ link links used, point.links = link :: links ∧ point.linkUtilization.get? link = some used ∧
    linkCapacity < used + turnShare search draws point.turn

end Machine

/-! ### Loads -/

/-- What a flow puts on a link when each of its paths gets an equal part of its rate. -/
def equalLoad (flow : Flow) (link : NodeId × NodeId) : ℚ :=
  (flow.paths.map fun path => if Crosses path link then flow.flowTxRate / flow.paths.length else 0).sum

/-- The load that the flows put on a link. -/
def greedyLoad (flows : List Flow) (link : NodeId × NodeId) : ℚ := (flows.map (equalLoad · link)).sum

theorem greedyLoad_concat (flows : List Flow) (flow : Flow) (link : NodeId × NodeId) :
    greedyLoad (flows ++ [flow]) link = greedyLoad flows link + equalLoad flow link := by
  rw [greedyLoad, List.map_append, List.sum_append, List.map_singleton, List.sum_singleton, greedyLoad]

/-- Simple paths cross a link as often as it is among their links. -/
theorem count_linksOf {paths : List Path} (hpaths : ∀ path ∈ paths, path.Nodup) (link : NodeId × NodeId) (share : ℚ) :
    ((linksOf paths).count (sortedLink link) : ℚ) * share =
      (paths.map fun path => if Crosses path link then share else 0).sum := by
  induction paths with
  | nil => simp [linksOf]
  | cons path rest ih =>
      have hcount : ((pairwise path).map sortedLink).count (sortedLink link) = if Crosses path link then 1 else 0 :=
        List.Nodup.count (nodup_map_sortedLink (hpaths path List.mem_cons_self))
      have hrest := ih fun path' hpath' => hpaths path' (List.mem_cons_of_mem path hpath')
      rw [linksOf, List.flatMap_cons, List.count_append, hcount, List.map_cons, List.sum_cons, ← hrest, linksOf]
      push_cast
      split <;> ring

/-! ### The invariant of the loop -/

section Invariant

variable {search : PathSearch} {graph : Graph} {draws : Nat → GreedyDraw} {turn : Nat}

/-- A turn of the loop has at least one path, every path has at least one link, and the links are keys. -/
structure TurnPaths (graph : Graph) (paths : List Path) : Prop where
  ne_nil : paths ≠ []
  nodup : ∀ path ∈ paths, path.Nodup
  links_mem : ∀ link ∈ linksOf paths, link ∈ graph.edges.map sortedLink
  length_le : paths.length ≤ (linksOf paths).length

theorem sortedLink_mem_edges {u v : NodeId} (h : (u, v) ∈ graph.arcs) :
    sortedLink (u, v) ∈ graph.edges.map sortedLink := by
  rcases Graph.mem_edges_of_mem_arcs h with hedge | hedge
  · exact List.mem_map_of_mem hedge
  · exact List.mem_map.mpr ⟨(v, u), hedge, sortedLink_eq_iff.mpr (Or.inr ⟨rfl, rfl⟩)⟩

theorem turnPaths_spec (hsearch : search.Documented graph) (hconn : graph.Connected)
    (hdraw : (draws turn).Drawn graph) : TurnPaths graph (turnPaths search draws turn) := by
  obtain ⟨hs, ht, hne, -, -⟩ := hdraw
  have hroute := hsearch.route_of_mem_nodeDisjointPaths _ hs _ ht hne
  refine ⟨?_, fun path hpath => (hroute path hpath).nodup, ?_, ?_⟩
  · exact hsearch.nodeDisjointPaths_ne_nil _ hs _ ht hne (exists_route (hconn _ hs _ ht))
  · intro link hlink
    obtain ⟨path, hpath, hlink⟩ := List.mem_flatMap.mp hlink
    obtain ⟨hop, hhop, rfl⟩ := List.mem_map.mp hlink
    exact sortedLink_mem_edges (isChain_iff_forall_mem_pairwise.mp (hroute path hpath).chain hop hhop)
  · rw [linksOf, List.length_flatMap]
    have hlength := List.length_le_sum_of_one_le
      ((turnPaths search draws turn).map fun path => ((pairwise path).map sortedLink).length) (by
        intro length hmem
        obtain ⟨path, hpath, rfl⟩ := List.mem_map.mp hmem
        have hlink := exists_mem_pairwise_of_ne (hroute path hpath).head (hroute path hpath).last hne
        rw [List.length_map]
        exact List.length_pos_iff.mpr hlink)
    rwa [List.length_map] at hlength

theorem turnShare_pos (hdraw : (draws turn).Drawn graph) (hpaths : TurnPaths graph (turnPaths search draws turn)) :
    0 < turnShare search draws turn := by
  have hrate : 0 < (draws turn).flowTxRate := lt_of_lt_of_le (by norm_num [flowTxRateLowerBound]) hdraw.lower_le
  exact div_pos hrate (Nat.cast_pos.mpr (List.length_pos_iff.mpr hpaths.ne_nil))

/-- What the turn puts on a link in the end. -/
theorem equalLoad_turnFlow (hpaths : TurnPaths graph (turnPaths search draws turn)) (link : NodeId × NodeId) :
    equalLoad (turnFlow search draws turn) link =
      (linksOf (turnPaths search draws turn)).count (sortedLink link) * turnShare search draws turn := by
  rw [count_linksOf hpaths.nodup]
  rfl

/-- The dictionary holds the load of the admitted flows and what the flow being tried has put on the links so far. -/
structure GreedyInvariant (search : PathSearch) (graph : Graph) (draws : Nat → GreedyDraw) (point : GreedyPoint)
    (visited : List (NodeId × NodeId)) : Prop where
  flows_eq : point.flows = (List.range point.turn).map (turnFlow search draws)
  links_eq : linksOf (turnPaths search draws point.turn) = visited ++ point.links
  keys_eq : point.linkUtilization.keys = graph.edges.map sortedLink
  used_eq : ∀ link ∈ graph.edges, point.linkUtilization.get? (sortedLink link) =
    some (greedyLoad point.flows link + visited.count (sortedLink link) * turnShare search draws point.turn)
  within : ∀ link used, point.linkUtilization.get? link = some used → used ≤ linkCapacity
  potential : point.turn * flowTxRateLowerBound + visited.length * turnShare search draws point.turn ≤
    point.linkUtilization.values.sum

theorem get?_initialUtilization {link : NodeId × NodeId} (hlink : link ∈ graph.edges) :
    (initialUtilization graph).get? (sortedLink link) = some 0 := by
  have hkeys : ((graph.edges.map fun link => (sortedLink link, (0 : ℚ))).map Prod.fst).Nodup := by
    rw [List.map_map]
    exact Graph.edges_nodup
  rw [initialUtilization, Dict.get?_ofList hkeys]
  exact List.mem_map.mpr ⟨link, hlink, rfl⟩

theorem entries_initialUtilization :
    (initialUtilization graph).entries = graph.edges.map fun link => (sortedLink link, (0 : ℚ)) := by
  apply Dict.entries_ofList
  rw [List.map_map]
  exact Graph.edges_nodup

theorem GreedyInvariant.start : GreedyInvariant search graph draws
    ⟨0, [], linksOf (turnPaths search draws 0), initialUtilization graph⟩ [] := by
  refine ⟨rfl, rfl, ?_, ?_, ?_, ?_⟩
  · rw [Dict.keys, entries_initialUtilization, List.map_map]
    rfl
  · intro link hlink
    rw [get?_initialUtilization hlink]
    simp [greedyLoad]
  · intro link used hused
    have hmem := Dict.get?_eq_some_iff.mp hused
    rw [entries_initialUtilization] at hmem
    obtain ⟨edge, -, heq⟩ := List.mem_map.mp hmem
    rw [← (Prod.mk.inj heq).2]
    exact zero_le_one
  · simp [Dict.values, entries_initialUtilization, Function.comp_def]

/-- The share of one more link. -/
theorem GreedyInvariant.add {flows : List Flow} {link : NodeId × NodeId} {links visited : List (NodeId × NodeId)}
    {linkUtilization : Dict (NodeId × NodeId) ℚ} {used : ℚ}
    (h : GreedyInvariant search graph draws ⟨turn, flows, link :: links, linkUtilization⟩ visited)
    (hused : linkUtilization.get? link = some used) (hroom : used + turnShare search draws turn ≤ linkCapacity) :
    GreedyInvariant search graph draws
      ⟨turn, flows, links, linkUtilization.set link (used + turnShare search draws turn)⟩ (visited ++ [link]) := by
  have hmem : link ∈ linkUtilization.keys := Dict.mem_keys_iff.mpr (by rw [hused]; rfl)
  refine ⟨h.flows_eq, ?_, ?_, ?_, ?_, ?_⟩
  · rw [h.links_eq, List.append_assoc, List.singleton_append]
  · rw [Dict.keys_set_of_mem hmem]
    exact h.keys_eq
  · intro edge hedge
    have hbefore := h.used_eq edge hedge
    rw [Dict.get?_set, List.count_append, List.count_singleton]
    by_cases hsame : sortedLink edge = link
    · rw [hsame, hused] at hbefore
      rw [if_pos hsame, if_pos (by simp [hsame]), hsame, Option.some.inj hbefore]
      push_cast
      congr 1
      ring
    · rw [if_neg hsame, hbefore, if_neg (by simpa using Ne.symm hsame), Nat.add_zero]
  · intro other used' hused'
    rw [Dict.get?_set] at hused'
    split at hused'
    · rw [← Option.some.inj hused']
      exact hroom
    · exact h.within other used' hused'
  · have hsum := Dict.sum_values_set hused (turnShare search draws turn)
    have hpotential := h.potential
    simp only at hpotential ⊢
    rw [hsum, List.length_append, List.length_singleton]
    push_cast
    linarith

/-- A flow whose links all had room. -/
theorem GreedyInvariant.accept {flows : List Flow} {visited : List (NodeId × NodeId)}
    {linkUtilization : Dict (NodeId × NodeId) ℚ} (hdraw : (draws turn).Drawn graph)
    (hpaths : TurnPaths graph (turnPaths search draws turn))
    (h : GreedyInvariant search graph draws ⟨turn, flows, [], linkUtilization⟩ visited) :
    GreedyInvariant search graph draws ⟨turn + 1, flows ++ [turnFlow search draws turn],
      linksOf (turnPaths search draws (turn + 1)), linkUtilization⟩ [] := by
  have hvisited : linksOf (turnPaths search draws turn) = visited := by
    rw [h.links_eq, List.append_nil]
  refine ⟨?_, rfl, h.keys_eq, ?_, h.within, ?_⟩
  · rw [List.range_succ, List.map_append, ← h.flows_eq]
    rfl
  · intro link hlink
    rw [h.used_eq link hlink, greedyLoad_concat, equalLoad_turnFlow hpaths, hvisited]
    simp
  · have hpotential := h.potential
    have hcount : (0 : ℚ) < (turnPaths search draws turn).length :=
      Nat.cast_pos.mpr (List.length_pos_iff.mpr hpaths.ne_nil)
    -- every path has a link, so that the links together get the whole rate at least
    have hrate : (draws turn).flowTxRate ≤ visited.length * turnShare search draws turn := by
      calc (draws turn).flowTxRate
          = (turnPaths search draws turn).length * turnShare search draws turn := by
            rw [turnShare, mul_div_cancel₀ _ hcount.ne']
        _ ≤ visited.length * turnShare search draws turn := by
            apply mul_le_mul_of_nonneg_right _ (turnShare_pos hdraw hpaths).le
            rw [← hvisited]
            exact_mod_cast hpaths.length_le
    have hlower := hdraw.lower_le
    simp only [List.length_nil] at hpotential ⊢
    push_cast
    linarith

theorem GreedyReaches.invariant (hsearch : search.Documented graph) (hconn : graph.Connected)
    (hdraws : ∀ turn, (draws turn).Drawn graph) {point : GreedyPoint} (h : GreedyReaches search graph draws point) :
    ∃ visited, GreedyInvariant search graph draws point visited := by
  induction h with
  | start => exact ⟨[], .start⟩
  | add _ hused hroom ih =>
      obtain ⟨visited, hinv⟩ := ih
      exact ⟨_, hinv.add hused hroom⟩
  | accept _ ih =>
      obtain ⟨visited, hinv⟩ := ih
      exact ⟨[], hinv.accept (hdraws _) (turnPaths_spec hsearch hconn (hdraws _))⟩

/-- The number of admitted flows is bounded: the potential is at most the number of links. -/
theorem GreedyInvariant.turn_le {point : GreedyPoint} {visited : List (NodeId × NodeId)}
    (h : GreedyInvariant search graph draws point visited) (hshare : 0 ≤ turnShare search draws point.turn) :
    (point.turn : ℚ) ≤ graph.edges.length * linkCapacity / flowTxRateLowerBound := by
  have hvalues : point.linkUtilization.values.sum ≤ graph.edges.length * linkCapacity := by
    have hlength : point.linkUtilization.values.length = graph.edges.length := by
      have hkeys := congrArg List.length h.keys_eq
      rwa [Dict.keys, List.length_map, List.length_map, ← List.length_map Prod.snd] at hkeys
    rw [← hlength, ← nsmul_eq_mul]
    apply List.sum_le_card_nsmul
    intro used hused
    obtain ⟨e, he, rfl⟩ := List.mem_map.mp hused
    exact h.within e.1 e.2 (Dict.get?_eq_some_iff.mpr he)
  have hpotential := h.potential
  have hvisited : (0 : ℚ) ≤ visited.length * turnShare search draws point.turn :=
    mul_nonneg (Nat.cast_nonneg _) hshare
  have hlower : (0 : ℚ) < flowTxRateLowerBound := by norm_num [flowTxRateLowerBound]
  rw [le_div_iff₀ hlower]
  linarith

theorem GreedyInvariant.exists_used {point : GreedyPoint} {visited : List (NodeId × NodeId)}
    (h : GreedyInvariant search graph draws point visited)
    (hpaths : TurnPaths graph (turnPaths search draws point.turn)) {link : NodeId × NodeId}
    (hlink : link ∈ point.links) :
    ∃ used, point.linkUtilization.get? link = some used := by
  have hmem : link ∈ graph.edges.map sortedLink :=
    hpaths.links_mem link (h.links_eq ▸ List.mem_append_right visited hlink)
  rw [← h.keys_eq] at hmem
  exact Option.isSome_iff_exists.mp (Dict.mem_keys_iff.mp hmem)

end Invariant

/-! ### The loop runs through the points -/

section Loop

variable {search : PathSearch} {graph : Graph} {draws : Nat → GreedyDraw} {turn : Nat} {flows : List Flow}
variable {linkUtilization : Dict (NodeId × NodeId) ℚ}

theorem addAlongLinks_append (share : ℚ) (linkUtilization : Dict (NodeId × NodeId) ℚ)
    (links links' : List (NodeId × NodeId)) :
    addAlongLinks share linkUtilization (links ++ links') = (addAlongLinks share linkUtilization links).bind fun out =>
      if out.2 then some out else addAlongLinks share out.1 links' := by
  induction links generalizing linkUtilization with
  | nil => rfl
  | cons link rest ih =>
      rw [List.cons_append, addAlongLinks, addAlongLinks]
      cases linkUtilization.get? link with
      | none => rfl
      | some used =>
          simp only [Option.bind_eq_bind, Option.bind_some]
          split
          · rfl
          · exact ih _

/-- The two nested loops are one loop over the links. -/
theorem addAlongPaths_eq (share : ℚ) (linkUtilization : Dict (NodeId × NodeId) ℚ) (paths : List Path) :
    addAlongPaths share linkUtilization paths = addAlongLinks share linkUtilization (linksOf paths) := by
  induction paths generalizing linkUtilization with
  | nil => rfl
  | cons path rest ih =>
      rw [linksOf, List.flatMap_cons, addAlongLinks_append, addAlongPaths]
      cases addAlongLinks share linkUtilization ((pairwise path).map sortedLink) with
      | none => rfl
      | some out =>
          obtain ⟨linkUtilization', exceeded⟩ := out
          cases exceeded with
          | true => rfl
          | false => exact ih linkUtilization'

/-- One turn ends after its last link, or at a link without room. -/
theorem GreedyReaches.addAlongLinks (hsearch : search.Documented graph) (hconn : graph.Connected)
    (hdraws : ∀ turn, (draws turn).Drawn graph) {links : List (NodeId × NodeId)}
    (h : GreedyReaches search graph draws ⟨turn, flows, links, linkUtilization⟩) :
    ∃ out, FlowAllocation.addAlongLinks (turnShare search draws turn) linkUtilization links = some out ∧
      ((out.2 = false ∧ GreedyReaches search graph draws ⟨turn, flows, [], out.1⟩) ∨
        (out.2 = true ∧ ∃ rest, GreedyReaches search graph draws ⟨turn, flows, rest, out.1⟩ ∧
          GreedyPoint.Stops search draws ⟨turn, flows, rest, out.1⟩)) := by
  induction links generalizing linkUtilization with
  | nil => exact ⟨(linkUtilization, false), rfl, Or.inl ⟨rfl, h⟩⟩
  | cons link rest ih =>
      obtain ⟨visited, hinv⟩ := h.invariant hsearch hconn hdraws
      obtain ⟨used, hused⟩ := hinv.exists_used (turnPaths_spec hsearch hconn (hdraws turn)) List.mem_cons_self
      change linkUtilization.get? link = some used at hused
      rw [FlowAllocation.addAlongLinks, hused]
      simp only [Option.bind_eq_bind, Option.bind_some]
      split
      · rename_i hfull
        exact ⟨_, rfl, Or.inr ⟨rfl, link :: rest, h, link, rest, used, rfl, hused, hfull⟩⟩
      · rename_i hroom
        exact ih (h.add hused (not_lt.mp hroom))

/-- With turns to spare the loop ends at a point that stops it. -/
theorem GreedyReaches.greedyLoop (hsearch : search.Documented graph) (hconn : graph.Connected)
    (hdraws : ∀ turn, (draws turn).Drawn graph) (fuel : Nat)
    (h : GreedyReaches search graph draws ⟨turn, flows, linksOf (turnPaths search draws turn), linkUtilization⟩)
    (hfuel : graph.edges.length * linkCapacity / flowTxRateLowerBound < turn + fuel) :
    ∃ point, GreedyReaches search graph draws point ∧ point.Stops search draws ∧
      FlowAllocation.greedyLoop search draws fuel turn flows linkUtilization =
        some (point.flows, point.linkUtilization) := by
  induction fuel generalizing turn flows linkUtilization with
  | zero =>
      obtain ⟨visited, hinv⟩ := h.invariant hsearch hconn hdraws
      have hle := hinv.turn_le (turnShare_pos (hdraws turn) (turnPaths_spec hsearch hconn (hdraws turn))).le
      simp only at hle
      push_cast at hfuel
      linarith
  | succ fuel ih =>
      have hpaths := turnPaths_spec hsearch hconn (hdraws turn)
      have hcount : ¬(search.nodeDisjointPaths (draws turn).sourceNode (draws turn).destinationNode).length = 0 :=
        Nat.pos_iff_ne_zero.mp (List.length_pos_iff.mpr hpaths.ne_nil)
      obtain ⟨out, hout, hcases⟩ := h.addAlongLinks hsearch hconn hdraws
      rw [turnShare, ← addAlongPaths_eq] at hout
      change addAlongPaths ((draws turn).flowTxRate /
        (search.nodeDisjointPaths (draws turn).sourceNode (draws turn).destinationNode).length) linkUtilization
        (search.nodeDisjointPaths (draws turn).sourceNode (draws turn).destinationNode) = some out at hout
      rw [FlowAllocation.greedyLoop, if_neg hcount, hout]
      obtain ⟨linkUtilization', exceeded⟩ := out
      rcases hcases with ⟨rfl, hreach⟩ | ⟨rfl, rest, hreach, hstops⟩
      · apply ih hreach.accept
        push_cast at hfuel ⊢
        linarith
      · exact ⟨_, hreach, hstops, rfl⟩

/-- More turns do not change what an ended loop returned. -/
theorem greedyLoop_mono {fuel fuel' : Nat} (hle : fuel ≤ fuel') {out : List Flow × Dict (NodeId × NodeId) ℚ}
    (h : FlowAllocation.greedyLoop search draws fuel turn flows linkUtilization = some out) :
    FlowAllocation.greedyLoop search draws fuel' turn flows linkUtilization = some out := by
  induction fuel generalizing turn flows linkUtilization fuel' with
  | zero => cases h
  | succ fuel ih =>
      obtain ⟨more, rfl⟩ : ∃ more, fuel' = more + 1 := ⟨fuel' - 1, by omega⟩
      rw [FlowAllocation.greedyLoop] at h ⊢
      split at h
      · cases h
      · rename_i hcount
        rw [if_neg hcount]
        split at h
        · cases h
        · exact h
        · exact ih (Nat.le_of_succ_le_succ hle) h

/-- The capacity of all links holds at most ten flows for each link. -/
theorem flowCount_bound (graph : Graph) :
    graph.edges.length * linkCapacity / flowTxRateLowerBound = ((10 * graph.edges.length : Nat) : ℚ) := by
  unfold linkCapacity flowTxRateLowerBound
  push_cast
  ring

/-- The loop ends, at a point that stops it, and what it returns are the flows and the dictionary of that point. -/
theorem exists_stop (hsearch : search.Documented graph) (hconn : graph.Connected)
    (hdraws : ∀ turn, (draws turn).Drawn graph) :
    ∃ point, GreedyReaches search graph draws point ∧ point.Stops search draws ∧
      ∀ fuel : Nat, graph.edges.length * linkCapacity / flowTxRateLowerBound < fuel →
        computeGreedyFlowAllocations search fuel graph draws = some (point.flows, point.linkUtilization) := by
  obtain ⟨point, hreach, hstops, hrun⟩ := (GreedyReaches.start : GreedyReaches search graph draws _).greedyLoop
    hsearch hconn hdraws (10 * graph.edges.length + 1) (by
      rw [flowCount_bound]
      push_cast
      linarith)
  refine ⟨point, hreach, hstops, fun fuel hfuel => ?_⟩
  rw [flowCount_bound, Nat.cast_lt] at hfuel
  exact greedyLoop_mono hfuel hrun

end Loop

/-! ### A network of three nodes -/

/-- The lists of at most `n` of the nodes. -/
def listsUpTo (nodes : List NodeId) : Nat → List (List NodeId)
  | 0 => [[]]
  | n + 1 => [] :: nodes.flatMap fun u => (listsUpTo nodes n).map (u :: ·)

theorem mem_listsUpTo {nodes : List NodeId} {n : Nat} {path : Path} :
    path ∈ listsUpTo nodes n ↔ path.length ≤ n ∧ ∀ v ∈ path, v ∈ nodes := by
  induction n generalizing path with
  | zero => cases path <;> simp [listsUpTo]
  | succ n ih =>
      cases path with
      | nil => simp [listsUpTo]
      | cons u rest => simp [listsUpTo, ih, and_left_comm]

instance (graph : Graph) (s t : NodeId) (path : Path) :
    Decidable (Route (fun u v => (u, v) ∈ graph.arcs) s t path) :=
  decidable_of_iff (path.head? = some s ∧ path.getLast? = some t ∧ (path.IsChain fun u v => (u, v) ∈ graph.arcs) ∧
    path.Nodup) ⟨fun h => ⟨h.1, h.2.1, h.2.2.1, h.2.2.2⟩, fun h => ⟨h.head, h.last, h.chain, h.nodup⟩⟩

/-- The simple paths of a small network, by enumeration. -/
def routesBetween (graph : Graph) (s t : NodeId) : List Path :=
  ((listsUpTo graph.nodes graph.nodes.length).filter fun path =>
    Route (fun u v => (u, v) ∈ graph.arcs) s t path).dedup

theorem mem_routesBetween {graph : Graph} {s t : NodeId} (ht : t ∈ graph.nodes) {path : Path} :
    path ∈ routesBetween graph s t ↔ Route (fun u v => (u, v) ∈ graph.arcs) s t path := by
  rw [routesBetween, List.mem_dedup, List.mem_filter, mem_listsUpTo, decide_eq_true_eq]
  refine ⟨fun h => h.2, fun hroute => ⟨?_, hroute⟩⟩
  have hnodes : ∀ v ∈ path, v ∈ graph.nodes :=
    hroute.forall_mem (fun u v harc => (Graph.mem_nodes_of_mem_arcs harc).1) ht
  exact ⟨(List.subperm_of_subset hroute.nodup hnodes).length_le, hnodes⟩

/-- A search for networks in which every two nodes are joined by one simple path only. -/
def treeSearch (graph : Graph) : PathSearch where
  allSimplePaths := fun s t cutoff => (routesBetween graph s t).filter (·.length ≤ cutoff + 1)
  nodeDisjointPaths := fun s t => routesBetween graph s t
  shortestPath := fun s t => (routesBetween graph s t).headD []

theorem treeSearch_documented (graph : Graph) : (treeSearch graph).Documented graph where
  nodup_allSimplePaths := fun s t cutoff => (List.nodup_dedup _).filter _
  mem_allSimplePaths := by
    intro s _ t ht _ cutoff path
    show path ∈ (routesBetween graph s t).filter (·.length ≤ cutoff + 1) ↔ _
    rw [List.mem_filter, mem_routesBetween ht, decide_eq_true_eq]
  route_of_mem_nodeDisjointPaths := fun s _ t ht _ path hpath => (mem_routesBetween ht).mp hpath
  nodeDisjointPaths_ne_nil := by
    rintro s _ t ht _ ⟨path, hroute⟩
    exact List.ne_nil_of_mem ((mem_routesBetween ht).mpr hroute)
  route_shortestPath := by
    rintro s _ t ht _ ⟨path, hroute⟩
    have hne : routesBetween graph s t ≠ [] := List.ne_nil_of_mem ((mem_routesBetween ht).mpr hroute)
    obtain ⟨first, rest, heq⟩ := List.exists_cons_of_ne_nil hne
    show Route _ s t ((routesBetween graph s t).headD [])
    rw [heq, List.headD_cons]
    exact (mem_routesBetween ht).mp (heq ▸ List.mem_cons_self)

theorem nodup_threeNodes : ([0, 1, 2] : List NodeId).Nodup := by decide

/-- Three nodes in a row. -/
def threeInRow : Graph := .ofEdges [0, 1, 2] nodup_threeNodes [(0, 1), (1, 2)]

theorem connected_of_routesBetween {graph : Graph}
    (h : ∀ u ∈ graph.nodes, ∀ v ∈ graph.nodes, routesBetween graph u v ≠ []) : graph.Connected := by
  intro u hu v hv
  obtain ⟨path, hpath⟩ := List.exists_mem_of_ne_nil _ (h u hu v hv)
  exact ((mem_routesBetween hv).mp hpath).reflTransGen

theorem threeInRow_connected : threeInRow.Connected := connected_of_routesBetween (by decide +kernel)

/-- Two flows leave no room on the second link; from then on the flows go over both links. -/
def lastLinkFirst (turn : Nat) : GreedyDraw where
  sourceNode := if turn < 2 then 1 else 0
  destinationNode := 2
  flowTxRate := 2 / 5

theorem drawn_lastLinkFirst (turn : Nat) : (lastLinkFirst turn).Drawn threeInRow := by
  by_cases hlt : turn < 2
  · refine ⟨?_, ?_, ?_, ?_, ?_⟩ <;> simp only [lastLinkFirst, if_pos hlt] <;> decide +kernel
  · refine ⟨?_, ?_, ?_, ?_, ?_⟩ <;> simp only [lastLinkFirst, if_neg hlt] <;> decide +kernel

/-! ### Capacity and termination -/

theorem GreedyInvariant.greedyLoad_le {search : PathSearch} {graph : Graph} {draws : Nat → GreedyDraw}
    {point : GreedyPoint} {visited : List (NodeId × NodeId)} (h : GreedyInvariant search graph draws point visited)
    (hshare : 0 ≤ turnShare search draws point.turn) {link : NodeId × NodeId} (hlink : link ∈ graph.edges) :
    greedyLoad point.flows link ≤ linkCapacity := by
  have hused := h.within _ _ (h.used_eq link hlink)
  have hnonneg : (0 : ℚ) ≤ visited.count (sortedLink link) * turnShare search draws point.turn :=
    mul_nonneg (Nat.cast_nonneg _) hshare
  linarith

/-- At every point of the loop the links to visit have an entry, no entry exceeds the capacity of a link, and neither
does the load of the flows admitted so far; the loop ends at the point that stops it. -/
theorem greedy_points_within_capacity (graph : Graph) (hconn : graph.Connected) (search : PathSearch)
    (hsearch : search.Documented graph) (draws : Nat → GreedyDraw) (hdraws : ∀ turn, (draws turn).Drawn graph) :
    (∀ point, GreedyReaches search graph draws point →
      (∀ link ∈ point.links, ∃ used, point.linkUtilization.get? link = some used) ∧
      (∀ link used, point.linkUtilization.get? link = some used → used ≤ linkCapacity) ∧
      ∀ link ∈ graph.edges, greedyLoad point.flows link ≤ linkCapacity) ∧
    ∃ point, GreedyReaches search graph draws point ∧ point.Stops search draws ∧
      ∀ fuel : Nat, graph.edges.length * linkCapacity / flowTxRateLowerBound < fuel →
        computeGreedyFlowAllocations search fuel graph draws = some (point.flows, point.linkUtilization) := by
  refine ⟨fun point hpoint => ?_, ?_⟩
  · obtain ⟨visited, hinv⟩ := hpoint.invariant hsearch hconn hdraws
    have hpaths := turnPaths_spec hsearch hconn (hdraws point.turn)
    refine ⟨fun link hlink => hinv.exists_used hpaths hlink, hinv.within, fun link hlink => ?_⟩
    exact hinv.greedyLoad_le (turnShare_pos (hdraws point.turn) hpaths).le hlink
  · exact exists_stop hsearch hconn hdraws

theorem greedy_points_within_capacity_threeInRow :
    (∀ point, GreedyReaches (treeSearch threeInRow) threeInRow lastLinkFirst point →
      (∀ link ∈ point.links, ∃ used, point.linkUtilization.get? link = some used) ∧
      (∀ link used, point.linkUtilization.get? link = some used → used ≤ linkCapacity) ∧
      ∀ link ∈ threeInRow.edges, greedyLoad point.flows link ≤ linkCapacity) ∧
    ∃ point, GreedyReaches (treeSearch threeInRow) threeInRow lastLinkFirst point ∧
      point.Stops (treeSearch threeInRow) lastLinkFirst ∧
      ∀ fuel : Nat, threeInRow.edges.length * linkCapacity / flowTxRateLowerBound < fuel →
        computeGreedyFlowAllocations (treeSearch threeInRow) fuel threeInRow lastLinkFirst =
          some (point.flows, point.linkUtilization) :=
  greedy_points_within_capacity threeInRow threeInRow_connected (treeSearch threeInRow) (treeSearch_documented _)
    lastLinkFirst drawn_lastLinkFirst

/-- The loop ends after admitting at most as many flows of the least rate as the links could carry together. -/
theorem greedy_loop_ends (graph : Graph) (hconn : graph.Connected) (search : PathSearch)
    (hsearch : search.Documented graph) (draws : Nat → GreedyDraw) (hdraws : ∀ turn, (draws turn).Drawn graph) :
    ∃ flows linkUtilization,
      (flows.length : ℚ) ≤ graph.edges.length * linkCapacity / flowTxRateLowerBound ∧
      ∀ fuel : Nat, graph.edges.length * linkCapacity / flowTxRateLowerBound < fuel →
        computeGreedyFlowAllocations search fuel graph draws = some (flows, linkUtilization) := by
  obtain ⟨point, hpoint, -, hrun⟩ := exists_stop hsearch hconn hdraws
  obtain ⟨visited, hinv⟩ := hpoint.invariant hsearch hconn hdraws
  refine ⟨point.flows, point.linkUtilization, ?_, hrun⟩
  have hlength : point.flows.length = point.turn := by
    rw [hinv.flows_eq, List.length_map, List.length_range]
  rw [hlength]
  exact hinv.turn_le (turnShare_pos (hdraws point.turn) (turnPaths_spec hsearch hconn (hdraws point.turn))).le

theorem greedy_loop_ends_threeInRow : ∃ flows linkUtilization,
    (flows.length : ℚ) ≤ threeInRow.edges.length * linkCapacity / flowTxRateLowerBound ∧
    ∀ fuel : Nat, threeInRow.edges.length * linkCapacity / flowTxRateLowerBound < fuel →
      computeGreedyFlowAllocations (treeSearch threeInRow) fuel threeInRow lastLinkFirst =
        some (flows, linkUtilization) :=
  greedy_loop_ends threeInRow threeInRow_connected (treeSearch threeInRow) (treeSearch_documented _) lastLinkFirst
    drawn_lastLinkFirst

/-! ### The flow that is rejected -/

section Rejected

variable (search : PathSearch) (graph : Graph) (draws : Nat → GreedyDraw)

/-- The flows of the draws before a turn. -/
def flowsBefore (turn : Nat) : List Flow := (List.range turn).map (turnFlow search draws)

/-- The flow of a turn fits on the links together with those before it. -/
def Fits (turn : Nat) : Prop :=
  ∀ link ∈ graph.edges, greedyLoad (flowsBefore search draws (turn + 1)) link ≤ linkCapacity

/-- The first turn whose flow does not fit. -/
structure FirstRejected (turn : Nat) : Prop where
  fits_before : ∀ earlier < turn, Fits search graph draws earlier
  not_fits : ¬Fits search graph draws turn

/-- The first link of the first path of the turn's flow has no room for the flow's share. -/
def FirstLinkFull (turn : Nat) : Prop :=
  ∀ link ∈ (linksOf (turnPaths search draws turn)).head?,
    linkCapacity < greedyLoad (flowsBefore search draws turn) link + turnShare search draws turn

/-- The dictionary holds for every link the load of the flows. -/
def AccountsFor (graph : Graph) (flows : List Flow) (linkUtilization : Dict (NodeId × NodeId) ℚ) : Prop :=
  ∀ link ∈ graph.edges, linkUtilization.get? (sortedLink link) = some (greedyLoad flows link)

end Rejected

theorem sortedLink_sortedLink (link : NodeId × NodeId) : sortedLink (sortedLink link) = sortedLink link := by
  unfold sortedLink
  by_cases hle : link.1 ≤ link.2
  · rw [if_pos hle, if_pos hle]
  · rw [if_neg hle, if_pos (show link.2 ≤ link.1 from (Int.not_le.mp hle).le)]

theorem greedyLoad_sortedLink (flows : List Flow) (link : NodeId × NodeId) :
    greedyLoad flows (sortedLink link) = greedyLoad flows link := by
  have hcrosses : ∀ path, Crosses path (sortedLink link) ↔ Crosses path link := by
    intro path
    rw [Crosses, sortedLink_sortedLink, Crosses]
  simp only [greedyLoad, equalLoad, hcrosses]

section

variable {search : PathSearch} {graph : Graph} {draws : Nat → GreedyDraw}

theorem greedyLoad_flowsBefore_succ {turn : Nat} (hpaths : TurnPaths graph (turnPaths search draws turn))
    (link : NodeId × NodeId) :
    greedyLoad (flowsBefore search draws (turn + 1)) link = greedyLoad (flowsBefore search draws turn) link +
      (linksOf (turnPaths search draws turn)).count (sortedLink link) * turnShare search draws turn := by
  rw [flowsBefore, List.range_succ, List.map_append, List.map_singleton, greedyLoad_concat, equalLoad_turnFlow hpaths,
    flowsBefore]

theorem greedyLoad_flowsBefore_mono (hpaths : ∀ turn, TurnPaths graph (turnPaths search draws turn))
    (hdraws : ∀ turn, (draws turn).Drawn graph) (link : NodeId × NodeId) :
    Monotone fun turn => greedyLoad (flowsBefore search draws turn) link := by
  apply monotone_nat_of_le_succ
  intro turn
  rw [greedyLoad_flowsBefore_succ (hpaths turn)]
  exact le_add_of_nonneg_right (mul_nonneg (Nat.cast_nonneg _) (turnShare_pos (hdraws turn) (hpaths turn)).le)

/-- The loop stops at the first flow that does not fit. -/
theorem GreedyInvariant.firstRejected {point : GreedyPoint} {visited : List (NodeId × NodeId)}
    (h : GreedyInvariant search graph draws point visited)
    (hpaths : ∀ turn, TurnPaths graph (turnPaths search draws turn)) (hdraws : ∀ turn, (draws turn).Drawn graph)
    (hstops : point.Stops search draws) : FirstRejected search graph draws point.turn := by
  have hshare := turnShare_pos (hdraws point.turn) (hpaths point.turn)
  refine ⟨fun earlier hlt link hlink => ?_, fun hfits => ?_⟩
  · have hmono := greedyLoad_flowsBefore_mono hpaths hdraws link (Nat.succ_le_of_lt hlt)
    have hload := h.greedyLoad_le hshare.le hlink
    rw [h.flows_eq] at hload
    exact le_trans hmono hload
  · obtain ⟨link, links, used, hlinks, hused, hfull⟩ := hstops
    have hmem : link ∈ linksOf (turnPaths search draws point.turn) := by
      rw [h.links_eq, hlinks]
      simp
    obtain ⟨edge, hedge, rfl⟩ := List.mem_map.mp ((hpaths point.turn).links_mem link hmem)
    have hused' := h.used_eq edge hedge
    rw [hused, Option.some_inj, h.flows_eq] at hused'
    have hfit := hfits edge hedge
    have hcount : visited.count (sortedLink edge) + 1 ≤
        (linksOf (turnPaths search draws point.turn)).count (sortedLink edge) := by
      rw [h.links_eq, hlinks, List.count_append, List.count_cons_self]
      omega
    have htotal : ((visited.count (sortedLink edge) : ℚ) + 1) * turnShare search draws point.turn ≤
        (linksOf (turnPaths search draws point.turn)).count (sortedLink edge) * turnShare search draws point.turn := by
      apply mul_le_mul_of_nonneg_right _ hshare.le
      exact_mod_cast hcount
    rw [greedyLoad_flowsBefore_succ (hpaths point.turn), flowsBefore] at hfit
    linarith

/-- Nothing of the rejected flow stays in the dictionary exactly when its first link is full. -/
theorem GreedyInvariant.accountsFor_iff {point : GreedyPoint} {visited : List (NodeId × NodeId)}
    (h : GreedyInvariant search graph draws point visited)
    (hpaths : TurnPaths graph (turnPaths search draws point.turn)) (hdraw : (draws point.turn).Drawn graph)
    (hstops : point.Stops search draws) :
    AccountsFor graph point.flows point.linkUtilization ↔ FirstLinkFull search draws point.turn := by
  have hshare := turnShare_pos hdraw hpaths
  have hflows : point.flows = flowsBefore search draws point.turn := h.flows_eq
  cases visited with
  | nil =>
      obtain ⟨link, links, used, hlinks, hused, hfull⟩ := hstops
      have hall : linksOf (turnPaths search draws point.turn) = link :: links := by
        rw [h.links_eq, List.nil_append, hlinks]
      obtain ⟨edge, hedge, rfl⟩ := List.mem_map.mp (hpaths.links_mem link (by rw [hall]; exact List.mem_cons_self))
      have hload : AccountsFor graph point.flows point.linkUtilization := by
        intro edge' hedge'
        rw [h.used_eq edge' hedge']
        simp
      refine iff_of_true hload ?_
      intro first hfirst
      rw [hall, List.head?_cons, Option.mem_some_iff] at hfirst
      subst hfirst
      have hused' := hload edge hedge
      rw [hused, Option.some_inj] at hused'
      rw [greedyLoad_sortedLink, ← hflows, ← hused']
      exact hfull
  | cons first rest =>
      have hhead : (linksOf (turnPaths search draws point.turn)).head? = some first := by
        rw [h.links_eq]
        rfl
      obtain ⟨edge, hedge, rfl⟩ := List.mem_map.mp
        (hpaths.links_mem first (List.mem_of_mem_head? (by rw [hhead]; rfl)))
      have hused := h.used_eq edge hedge
      have hcount : turnShare search draws point.turn ≤
          (sortedLink edge :: rest).count (sortedLink edge) * turnShare search draws point.turn := by
        rw [List.count_cons_self]
        push_cast
        have hrest : (0 : ℚ) ≤ rest.count (sortedLink edge) * turnShare search draws point.turn :=
          mul_nonneg (Nat.cast_nonneg _) hshare.le
        linarith
      refine iff_of_false (fun haccounts => ?_) (fun hfull => ?_)
      · rw [haccounts edge hedge, Option.some_inj] at hused
        linarith
      · have hlt := hfull (sortedLink edge) (by rw [hhead]; rfl)
        have hle := h.within _ _ hused
        rw [greedyLoad_sortedLink, ← hflows] at hlt
        linarith

end

/-- The returned dictionary holds the load of the returned flows exactly when the flow that is rejected, the first one
that does not fit, finds no room on the very first link of its first path. -/
theorem greedy_accounts_iff (graph : Graph) (hconn : graph.Connected) (search : PathSearch)
    (hsearch : search.Documented graph) (draws : Nat → GreedyDraw) (hdraws : ∀ turn, (draws turn).Drawn graph) :
    ∃ turn linkUtilization, FirstRejected search graph draws turn ∧
      (∀ fuel : Nat, graph.edges.length * linkCapacity / flowTxRateLowerBound < fuel →
        computeGreedyFlowAllocations search fuel graph draws =
          some (flowsBefore search draws turn, linkUtilization)) ∧
      (AccountsFor graph (flowsBefore search draws turn) linkUtilization ↔ FirstLinkFull search draws turn) := by
  have hpaths : ∀ turn, TurnPaths graph (turnPaths search draws turn) :=
    fun turn => turnPaths_spec hsearch hconn (hdraws turn)
  obtain ⟨point, hpoint, hstops, hrun⟩ := exists_stop hsearch hconn hdraws
  obtain ⟨visited, hinv⟩ := hpoint.invariant hsearch hconn hdraws
  have hflows : point.flows = flowsBefore search draws point.turn := hinv.flows_eq
  have hiff := hinv.accountsFor_iff (hpaths point.turn) (hdraws point.turn) hstops
  rw [hflows] at hrun hiff
  exact ⟨point.turn, point.linkUtilization, hinv.firstRejected hpaths hdraws hstops, hrun, hiff⟩

theorem greedy_accounts_iff_threeInRow : ∃ turn linkUtilization,
    FirstRejected (treeSearch threeInRow) threeInRow lastLinkFirst turn ∧
    (∀ fuel : Nat, threeInRow.edges.length * linkCapacity / flowTxRateLowerBound < fuel →
      computeGreedyFlowAllocations (treeSearch threeInRow) fuel threeInRow lastLinkFirst =
        some (flowsBefore (treeSearch threeInRow) lastLinkFirst turn, linkUtilization)) ∧
    (AccountsFor threeInRow (flowsBefore (treeSearch threeInRow) lastLinkFirst turn) linkUtilization ↔
      FirstLinkFull (treeSearch threeInRow) lastLinkFirst turn) :=
  greedy_accounts_iff threeInRow threeInRow_connected (treeSearch threeInRow) (treeSearch_documented _) lastLinkFirst
    drawn_lastLinkFirst

/-- The third flow is rejected on its second link, after it has put its rate on the first one. -/
theorem rejected_flow_leaves_rate : threeInRow.Connected ∧ (treeSearch threeInRow).Documented threeInRow ∧
    (∀ turn, (lastLinkFirst turn).Drawn threeInRow) ∧ ∃ flows linkUtilization,
      (∀ fuel, 3 ≤ fuel → computeGreedyFlowAllocations (treeSearch threeInRow) fuel threeInRow lastLinkFirst =
        some (flows, linkUtilization)) ∧
      linkUtilization.get? (0, 1) = some (2 / 5) ∧ greedyLoad flows (0, 1) = 0 ∧
      ¬AccountsFor threeInRow flows linkUtilization := by
  refine ⟨threeInRow_connected, treeSearch_documented _, drawn_lastLinkFirst, ?_⟩
  have hrun : (computeGreedyFlowAllocations (treeSearch threeInRow) 3 threeInRow lastLinkFirst).map
      (fun out => (out.2.get? (0, 1), greedyLoad out.1 (0, 1))) = some (some (2 / 5), 0) := by decide +kernel
  obtain ⟨⟨flows, linkUtilization⟩, hsome, hvalues⟩ := Option.map_eq_some_iff.mp hrun
  obtain ⟨hused, hload⟩ := Prod.mk.inj hvalues
  refine ⟨flows, linkUtilization, fun fuel hfuel => greedyLoop_mono hfuel hsome, hused, hload, fun haccounts => ?_⟩
  have hentry : linkUtilization.get? (0, 1) = some (greedyLoad flows (0, 1)) := haccounts (0, 1) (by decide +kernel)
  rw [hused, hload, Option.some_inj] at hentry
  exact absurd hentry (by norm_num)

end OfTestbed.FlowAllocation
