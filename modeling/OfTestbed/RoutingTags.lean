import OfTestbed.LibDict
import OfTestbed.LibText
import OfTestbed.TrafficGen

/-!
Tags of installed paths: `simple_paths_to_flow_json` and the configuration of the hosts in `path_hopping.py`, and
`OnosRouteAdder` in `mp_routing/onos_route_adder.py`. A counter for each pair of end points, shared by all flows of a
trial, gives each path the next tag of its pair; the tag goes to the controller with the path and to the traffic
generator with the flow. The controller's answers and the map from nodes to switches are parameters. `none` is an
exception.
-/

namespace OfTestbed.Routing

open Lib TrafficGen

variable {ν δ : Type} [DecidableEq ν]

/-- The attributes of a flow that the configuration of the hosts reads. -/
structure Flow (ν : Type) where
  sourceNode : ν
  destinationNode : ν
  paths : List (List ν)
  splittingRatio : List ℚ

namespace Flow

def ends (flow : Flow ν) : ν × ν := (flow.sourceNode, flow.destinationNode)

/-- Every path runs from the flow's source to its destination. -/
def RunsThrough (flow : Flow ν) : Prop :=
  ∀ path ∈ flow.paths, path.head? = some flow.sourceNode ∧ path.getLast? = some flow.destinationNode

end Flow

/-- A path in a request to the controller. -/
structure PathDict (δ : Type) where
  nodes : List δ
  tagValue : Nat

/-- A flow as the controller and the traffic generator have it: the installed paths, and the arguments `prob_mat` and
`tag_value` of the generator. -/
structure ConfiguredFlow (ν δ : Type) where
  ends : ν × ν
  paths : List (PathDict δ)
  probMat : List ℚ
  tagValue : List Nat

/-- The state of the loop over the paths of a flow. -/
structure InstallState (ν δ : Type) where
  pathDicts : List (PathDict δ)
  tagValuesForFlow : List Nat
  tagValues : Dict (ν × ν) Nat

/-- `tag_values[pair]`, for counters that start at `start`. -/
def counter (start : Nat) (tagValues : Dict (ν × ν) Nat) (pair : ν × ν) : Nat := (tagValues.get? pair).getD start

/-- One turn of the loop over the paths. -/
def installPath (start : Nat) (toDpid : ν → Option δ) (pair : ν × ν) (state : InstallState ν δ) (path : List ν) :
    Option (InstallState ν δ) := do
  let nodes ← path.mapM toDpid
  let tagValue := counter start state.tagValues pair
  return {
    pathDicts := state.pathDicts ++ [⟨nodes, tagValue⟩]
    tagValuesForFlow := state.tagValuesForFlow ++ [tagValue]
    tagValues := state.tagValues.set pair (tagValue + 1) }

namespace PathHopping

/-- The counters are those of a `defaultdict(int)`, under the end points of the path. -/
def simplePathsToFlowJson (simplePaths : List (List ν)) (tagValues : Dict (ν × ν) Nat) (idToDpid : ν → Option δ) :
    Option (InstallState ν δ) :=
  simplePaths.foldlM (fun state path => do
    let sourceNode ← path.head?
    let destinationNode ← path.getLast?
    installPath 0 idToDpid (sourceNode, destinationNode) state path) ⟨[], [], tagValues⟩

/-- One turn of the loop over the flows in `conduct_path_hopping_trial`. -/
def configureFlow (idToDpid : ν → Option δ) (installFlow : List (PathDict δ) → Option Text)
    (state : Dict (ν × ν) Nat × List (ConfiguredFlow ν δ)) (flow : Flow ν) :
    Option (Dict (ν × ν) Nat × List (ConfiguredFlow ν δ)) := do
  let installed ← simplePathsToFlowJson flow.paths state.1 idToDpid
  let _ ← installFlow installed.pathDicts
  return (installed.tagValues,
    state.2 ++ [⟨flow.ends, installed.pathDicts, flow.splittingRatio, installed.tagValuesForFlow⟩])

/-- The flows of a trial as they are configured. -/
def configureFlows (idToDpid : ν → Option δ) (installFlow : List (PathDict δ) → Option Text)
    (flows : List (Flow ν)) : Option (List (ConfiguredFlow ν δ)) :=
  (flows.foldlM (configureFlow idToDpid installFlow) (.empty, [])).map Prod.snd

end PathHopping

namespace OnosRouteAdder

structure RoutePath (ν : Type) where
  nodes : List ν
  fraction : ℚ

structure RouteFlow (ν : Type) where
  sourceNode : ν
  destinationNode : ν
  paths : List (RoutePath ν)

/-- `tag_values`, `tag_counters` and the requests to the controller. -/
structure RouteState (ν δ : Type) where
  tagValues : Dict Nat (List Nat)
  tagCounters : Dict (ν × ν) Nat
  requests : List (List (PathDict δ))

/-- The counters are those of a `defaultdict` with default 1, under the end points of the flow. -/
def installRoute (mapSwToDpid : ν → Option δ) (addRoute : List (PathDict δ) → Option Text)
    (state : RouteState ν δ) (routeId : Nat) (flow : RouteFlow ν) : Option (RouteState ν δ) := do
  let installed ← (flow.paths.map RoutePath.nodes).foldlM
    (installPath 1 mapSwToDpid (flow.sourceNode, flow.destinationNode)) ⟨[], [], state.tagCounters⟩
  let _ ← addRoute installed.pathDicts
  return {
    tagValues := state.tagValues.set routeId installed.tagValuesForFlow
    tagCounters := installed.tagValues
    requests := state.requests ++ [installed.pathDicts] }

def installRoutes (mapSwToDpid : ν → Option δ) (addRoute : List (PathDict δ) → Option Text)
    (flows : List (RouteFlow ν)) : Option (RouteState ν δ) :=
  flows.zipIdx.foldlM (fun state (flow, flowId) => installRoute mapSwToDpid addRoute state flowId flow)
    ⟨.empty, .empty, []⟩

/-- The flows of a trial as `conduct_onos_trial` configures them: the generator of a flow gets the fractions of its
paths and the entry of the flow's index in the `tag_values` that `install_routes` returns. -/
def configureFlows (mapSwToDpid : ν → Option δ) (addRoute : List (PathDict δ) → Option Text)
    (flows : List (RouteFlow ν)) : Option (List (ConfiguredFlow ν δ)) := do
  let state ← installRoutes mapSwToDpid addRoute flows
  flows.zipIdx.mapM fun (flow, flowId) => do
    let paths ← state.requests[flowId]?
    let tagValue ← state.tagValues.get? flowId
    return ⟨(flow.sourceNode, flow.destinationNode), paths, flow.paths.map RoutePath.fraction, tagValue⟩

/-- The flow with its paths and fractions apart. -/
def RouteFlow.toFlow (flow : RouteFlow ν) : Flow ν where
  sourceNode := flow.sourceNode
  destinationNode := flow.destinationNode
  paths := flow.paths.map RoutePath.nodes
  splittingRatio := flow.paths.map RoutePath.fraction

end OnosRouteAdder

/-! ### The paths of one flow -/

theorem counter_set (start : Nat) (tagValues : Dict (ν × ν) Nat) (pair pair' : ν × ν) (value : Nat) :
    counter start (tagValues.set pair value) pair' = if pair' = pair then value else counter start tagValues pair' := by
  rw [counter, Dict.get?_set]
  split
  · rfl
  · rfl

/-- What the loop over the paths of a pair leaves: the next tags of the pair, for the controller and for the
generator. -/
structure Installed (start : Nat) (toDpid : ν → Option δ) (pair : ν × ν) (tagValues : Dict (ν × ν) Nat)
    (paths : List (List ν)) (state : InstallState ν δ) : Prop where
  nodes_eq : paths.mapM (·.mapM toDpid) = some (state.pathDicts.map PathDict.nodes)
  tags_eq : state.pathDicts.map PathDict.tagValue = List.range' (counter start tagValues pair) paths.length
  handed_eq : state.tagValuesForFlow = state.pathDicts.map PathDict.tagValue
  counter_eq : ∀ pair', counter start state.tagValues pair' =
    counter start tagValues pair' + if pair' = pair then paths.length else 0

theorem Installed.start (start : Nat) (toDpid : ν → Option δ) (pair : ν × ν) (tagValues : Dict (ν × ν) Nat) :
    Installed start toDpid pair tagValues [] ⟨[], [], tagValues⟩ :=
  ⟨rfl, rfl, rfl, fun pair' => by simp⟩

theorem Installed.installPath {start : Nat} {toDpid : ν → Option δ} {pair : ν × ν} {tagValues : Dict (ν × ν) Nat}
    {paths : List (List ν)} {state state' : InstallState ν δ} (h : Installed start toDpid pair tagValues paths state)
    {path : List ν} (hpath : Routing.installPath start toDpid pair state path = some state') :
    Installed start toDpid pair tagValues (paths ++ [path]) state' := by
  simp only [Routing.installPath, Option.bind_eq_bind, Option.bind_eq_some_iff, Option.pure_def,
    Option.some.injEq] at hpath
  obtain ⟨nodes, hnodes, rfl⟩ := hpath
  have hcounter := h.counter_eq pair
  rw [if_pos rfl] at hcounter
  refine ⟨?_, ?_, ?_, fun pair' => ?_⟩
  · rw [List.mapM_append, h.nodes_eq, List.mapM_cons, hnodes]
    simp
  · rw [List.map_append, h.tags_eq, List.length_append, List.length_singleton, List.range'_concat, hcounter]
    simp
  · rw [List.map_append, h.handed_eq]
    rfl
  · rw [counter_set]
    by_cases hpair : pair' = pair
    · rw [if_pos hpair, if_pos hpair, hpair, List.length_append, List.length_singleton, hcounter, Nat.add_assoc]
    · rw [if_neg hpair, if_neg hpair, h.counter_eq pair', if_neg hpair]

theorem installed_of_foldlM {start : Nat} {toDpid : ν → Option δ} {pair : ν × ν} {tagValues : Dict (ν × ν) Nat}
    {paths : List (List ν)} {state : InstallState ν δ}
    (h : paths.foldlM (installPath start toDpid pair) ⟨[], [], tagValues⟩ = some state) :
    Installed start toDpid pair tagValues paths state :=
  foldlM_partial (fun done state => Installed start toDpid pair tagValues done state)
    (Installed.start start toDpid pair tagValues)
    (fun _ _ _ _ _ _ hdone hpath => hdone.installPath hpath) h

/-! ### Whole trials -/

/-- The flow is installed along its paths, and the generator has its ratios and the tags of these paths in order. -/
structure Configures (toDpid : ν → Option δ) (flow : Flow ν) (configured : ConfiguredFlow ν δ) : Prop where
  ends_eq : configured.ends = flow.ends
  nodes_eq : flow.paths.mapM (·.mapM toDpid) = some (configured.paths.map PathDict.nodes)
  probMat_eq : configured.probMat = flow.splittingRatio
  handed_eq : configured.tagValue = configured.paths.map PathDict.tagValue

/-- The tags installed for a pair, in the order of their installation. -/
def installedTags (configured : List (ConfiguredFlow ν δ)) (pair : ν × ν) : List Nat :=
  (configured.filter (·.ends = pair)).flatMap (·.paths.map PathDict.tagValue)

/-- The number of paths between a pair. -/
def pathCount (flows : List (Flow ν)) (pair : ν × ν) : Nat :=
  ((flows.filter (·.ends = pair)).map (·.paths.length)).sum

/-- The tags of a pair are the numbers from `start` on, and the counters stand behind them. -/
structure Allotted (start : Nat) (toDpid : ν → Option δ) (flows : List (Flow ν))
    (configured : List (ConfiguredFlow ν δ)) (tagValues : Dict (ν × ν) Nat) : Prop where
  aligned : List.Forall₂ (Configures toDpid) flows configured
  tags_eq : ∀ pair, installedTags configured pair = List.range' start (pathCount flows pair)
  counter_eq : ∀ pair, counter start tagValues pair = start + pathCount flows pair

theorem Allotted.start (start : Nat) (toDpid : ν → Option δ) : Allotted start toDpid [] [] .empty :=
  ⟨.nil, fun _ => rfl, fun _ => rfl⟩

theorem pathCount_concat (flows : List (Flow ν)) (flow : Flow ν) (pair : ν × ν) :
    pathCount (flows ++ [flow]) pair = pathCount flows pair + if pair = flow.ends then flow.paths.length else 0 := by
  rw [pathCount, List.filter_append, List.map_append, List.sum_append, pathCount]
  by_cases hpair : pair = flow.ends
  · simp [hpair]
  · simp [hpair, Ne.symm hpair]

/-- Installing one more flow. -/
theorem Allotted.install {start : Nat} {toDpid : ν → Option δ} {flows : List (Flow ν)}
    {configured : List (ConfiguredFlow ν δ)} {tagValues : Dict (ν × ν) Nat}
    (h : Allotted start toDpid flows configured tagValues) {flow : Flow ν} {state : InstallState ν δ}
    (hinstalled : Installed start toDpid flow.ends tagValues flow.paths state) :
    Allotted start toDpid (flows ++ [flow])
      (configured ++ [⟨flow.ends, state.pathDicts, flow.splittingRatio, state.tagValuesForFlow⟩]) state.tagValues where
  aligned := List.rel_append h.aligned (.cons ⟨rfl, hinstalled.nodes_eq, rfl, hinstalled.handed_eq⟩ .nil)
  tags_eq := by
    intro pair
    have htags : installedTags (configured ++
        [⟨flow.ends, state.pathDicts, flow.splittingRatio, state.tagValuesForFlow⟩]) pair =
        installedTags configured pair ++ if pair = flow.ends then state.pathDicts.map PathDict.tagValue else [] := by
      rw [installedTags, List.filter_append, List.flatMap_append, installedTags]
      by_cases hpair : pair = flow.ends
      · simp [hpair]
      · simp [hpair, Ne.symm hpair]
    rw [htags, h.tags_eq, pathCount_concat]
    by_cases hpair : pair = flow.ends
    · rw [if_pos hpair, if_pos hpair, hinstalled.tags_eq, h.counter_eq, ← hpair, List.range'_append_1]
    · rw [if_neg hpair, if_neg hpair, List.append_nil, Nat.add_zero]
  counter_eq := by
    intro pair
    rw [hinstalled.counter_eq, h.counter_eq, pathCount_concat, Nat.add_assoc]

/-- The paths of the flow go through the loop under the flow's end points. -/
theorem PathHopping.simplePathsToFlowJson_eq {flow : Flow ν} (h : flow.RunsThrough) (tagValues : Dict (ν × ν) Nat)
    (idToDpid : ν → Option δ) : simplePathsToFlowJson flow.paths tagValues idToDpid =
      flow.paths.foldlM (installPath 0 idToDpid flow.ends) ⟨[], [], tagValues⟩ := by
  apply foldlM_congr_mem
  intro path hpath state
  obtain ⟨hsource, hdestination⟩ := h path hpath
  rw [hsource, hdestination]
  rfl

/-- The configured flows are installed under the next tags of their pairs, and the generator marks packets for the path
it picks with the tag of that path. -/
structure TagsMatchPaths (start : Nat) (toDpid : ν → Option δ) (flows : List (Flow ν))
    (configured : List (ConfiguredFlow ν δ)) : Prop where
  aligned : List.Forall₂ (Configures toDpid) flows configured
  tags_eq : ∀ pair, installedTags configured pair = List.range' start (pathCount flows pair)
  mark_eq : ∀ flow ∈ configured, ∀ (randomPick : ℚ) (j : Nat) path, chosenPath flow.probMat randomPick = some j →
    flow.paths[j]? = some path → selectDscp flow.probMat flow.tagValue randomPick = some (some (path.tagValue <<< 2))

theorem Allotted.tagsMatchPaths {start : Nat} {toDpid : ν → Option δ} {flows : List (Flow ν)}
    {configured : List (ConfiguredFlow ν δ)} {tagValues : Dict (ν × ν) Nat}
    (h : Allotted start toDpid flows configured tagValues) : TagsMatchPaths start toDpid flows configured where
  aligned := h.aligned
  tags_eq := h.tags_eq
  mark_eq := by
    intro flow hflow randomPick j path hchosen hpath
    have hhanded : flow.tagValue = flow.paths.map PathDict.tagValue := by
      obtain ⟨i, hi, rfl⟩ := List.getElem_of_mem hflow
      obtain ⟨hlength, hget⟩ := List.forall₂_iff_get.mp h.aligned
      exact (hget i (hlength ▸ hi) hi).handed_eq
    apply selectDscp_of_chosenPath hchosen
    rw [hhanded, List.getElem?_map, hpath, Option.map_some]

namespace PathHopping

theorem allotted_configureFlows {idToDpid : ν → Option δ} {installFlow : List (PathDict δ) → Option Text}
    {flows : List (Flow ν)} (hflows : ∀ flow ∈ flows, flow.RunsThrough)
    {final : Dict (ν × ν) Nat × List (ConfiguredFlow ν δ)}
    (h : flows.foldlM (configureFlow idToDpid installFlow) (.empty, []) = some final) :
    Allotted 0 idToDpid flows final.2 final.1 := by
  refine foldlM_partial (fun done (state : Dict (ν × ν) Nat × List (ConfiguredFlow ν δ)) =>
    Allotted 0 idToDpid done state.2 state.1) (Allotted.start 0 idToDpid) ?_ h
  intro done flow rest state state' hsplit hdone hconfigure
  have hflow := hflows flow (by rw [hsplit]; simp)
  simp only [configureFlow, Option.bind_eq_bind, Option.bind_eq_some_iff, Option.pure_def,
    Option.some.injEq] at hconfigure
  obtain ⟨installed, hinstalled, token, -, rfl⟩ := hconfigure
  rw [simplePathsToFlowJson_eq hflow] at hinstalled
  exact hdone.install (installed_of_foldlM hinstalled)

end PathHopping

namespace OnosRouteAdder

/-- The state of the route adder against the flows it has installed. -/
structure Tracks (mapSwToDpid : ν → Option δ) (flows : List (RouteFlow ν)) (configured : List (ConfiguredFlow ν δ))
    (state : RouteState ν δ) : Prop where
  allotted : Allotted 1 mapSwToDpid (flows.map RouteFlow.toFlow) configured state.tagCounters
  requests_eq : state.requests = configured.map ConfiguredFlow.paths
  tagValues_eq : ∀ flowId, state.tagValues.get? flowId = configured[flowId]?.map ConfiguredFlow.tagValue

theorem Tracks.length_eq {mapSwToDpid : ν → Option δ} {flows : List (RouteFlow ν)}
    {configured : List (ConfiguredFlow ν δ)} {state : RouteState ν δ}
    (h : Tracks mapSwToDpid flows configured state) : configured.length = flows.length := by
  rw [← h.allotted.aligned.length_eq, List.length_map]

theorem Tracks.installRoute {mapSwToDpid : ν → Option δ} {addRoute : List (PathDict δ) → Option Text}
    {flows : List (RouteFlow ν)} {configured : List (ConfiguredFlow ν δ)} {state state' : RouteState ν δ}
    (h : Tracks mapSwToDpid flows configured state) {flow : RouteFlow ν}
    (hroute : OnosRouteAdder.installRoute mapSwToDpid addRoute state flows.length flow = some state') :
    ∃ configured', Tracks mapSwToDpid (flows ++ [flow]) configured' state' := by
  simp only [OnosRouteAdder.installRoute, Option.bind_eq_bind, Option.bind_eq_some_iff, Option.pure_def,
    Option.some.injEq] at hroute
  obtain ⟨installed, hinstalled, token, -, rfl⟩ := hroute
  have hpaths : Installed 1 mapSwToDpid flow.toFlow.ends state.tagCounters flow.toFlow.paths installed :=
    installed_of_foldlM hinstalled
  have hallotted := h.allotted.install hpaths
  refine ⟨_, ⟨by simpa using hallotted, ?_, fun flowId => ?_⟩⟩
  · rw [h.requests_eq, List.map_append]
    rfl
  · rw [Dict.get?_set, h.tagValues_eq, ← h.length_eq]
    by_cases hlast : flowId = configured.length
    · simp [hlast]
    · rw [if_neg hlast]
      by_cases hlt : flowId < configured.length
      · rw [List.getElem?_append_left hlt]
      · rw [List.getElem?_append_right (by omega), List.getElem?_eq_none (by omega),
          List.getElem?_eq_none (by simp; omega)]

theorem exists_tracks {mapSwToDpid : ν → Option δ} {addRoute : List (PathDict δ) → Option Text}
    {flows : List (RouteFlow ν)} {state : RouteState ν δ} (h : installRoutes mapSwToDpid addRoute flows = some state) :
    ∃ configured, Tracks mapSwToDpid flows configured state := by
  refine foldlM_zipIdx_partial (fun done (state : RouteState ν δ) =>
    ∃ configured, Tracks mapSwToDpid done configured state) ?_ ?_ h
  · exact ⟨[], ⟨Allotted.start 1 mapSwToDpid, rfl, fun _ => rfl⟩⟩
  · intro done flow rest state state' _ hdone hroute
    obtain ⟨configured, htracks⟩ := hdone
    exact htracks.installRoute hroute

theorem configureFlows_eq_of_tracks {mapSwToDpid : ν → Option δ} {addRoute : List (PathDict δ) → Option Text}
    {flows : List (RouteFlow ν)} {configured : List (ConfiguredFlow ν δ)} {state : RouteState ν δ}
    (hroutes : installRoutes mapSwToDpid addRoute flows = some state)
    (h : Tracks mapSwToDpid flows configured state) :
    configureFlows mapSwToDpid addRoute flows = some configured := by
  rw [configureFlows, hroutes, Option.bind_eq_bind, Option.bind_some, mapM_eq_some_iff]
  apply List.ext_getElem?
  intro i
  obtain ⟨hlength, hget⟩ := List.forall₂_iff_get.mp h.allotted.aligned
  rw [List.length_map] at hlength
  rw [List.getElem?_map, List.getElem?_map, List.getElem?_zipIdx]
  by_cases hi : i < flows.length
  · have hi' : i < configured.length := hlength ▸ hi
    have hspec := hget i (by simpa using hi) hi'
    simp only [List.get_eq_getElem, List.getElem_map] at hspec
    simp only [List.getElem?_eq_getElem hi, List.getElem?_eq_getElem hi', Option.map_some, Nat.zero_add,
      h.requests_eq, h.tagValues_eq, List.getElem?_map, Option.bind_eq_bind, Option.bind_some, Option.pure_def]
    congr 2
    calc (⟨(flows[i].sourceNode, flows[i].destinationNode), configured[i].paths,
          flows[i].paths.map RoutePath.fraction, configured[i].tagValue⟩ : ConfiguredFlow ν δ) =
          ⟨configured[i].ends, configured[i].paths, configured[i].probMat, configured[i].tagValue⟩ := by
            rw [hspec.ends_eq, hspec.probMat_eq]
            rfl
      _ = configured[i] := rfl
  · rw [List.getElem?_eq_none (by omega), List.getElem?_eq_none (by omega)]
    rfl

theorem allotted_configureFlows {mapSwToDpid : ν → Option δ} {addRoute : List (PathDict δ) → Option Text}
    {flows : List (RouteFlow ν)} {configured : List (ConfiguredFlow ν δ)}
    (h : configureFlows mapSwToDpid addRoute flows = some configured) :
    ∃ tagCounters, Allotted 1 mapSwToDpid (flows.map RouteFlow.toFlow) configured tagCounters := by
  have hroutes : ∃ state, installRoutes mapSwToDpid addRoute flows = some state := by
    rw [configureFlows, Option.bind_eq_bind, Option.bind_eq_some_iff] at h
    obtain ⟨state, hstate, -⟩ := h
    exact ⟨state, hstate⟩
  obtain ⟨state, hstate⟩ := hroutes
  obtain ⟨configured', htracks⟩ := exists_tracks hstate
  cases (configureFlows_eq_of_tracks hstate htracks).symm.trans h
  exact ⟨state.tagCounters, htracks.allotted⟩

end OnosRouteAdder

/-! ### Trials whose nodes are all known -/

/-- Every node of the flow's paths has a switch. -/
def Flow.Known (toDpid : ν → Option δ) (flow : Flow ν) : Prop :=
  ∀ path ∈ flow.paths, ∀ node ∈ path, ∃ dpid, toDpid node = some dpid

theorem exists_foldlM_installPath (start : Nat) {toDpid : ν → Option δ} {flow : Flow ν} (h : flow.Known toDpid)
    (pair : ν × ν) (tagValues : Dict (ν × ν) Nat) :
    ∃ state, flow.paths.foldlM (installPath start toDpid pair) ⟨[], [], tagValues⟩ = some state := by
  obtain ⟨state, hstate, -⟩ := foldlM_total (installPath start toDpid pair) flow.paths ⟨[], [], tagValues⟩
    (fun _ _ => True) trivial (by
      intro done path rest state hsplit _
      obtain ⟨nodes, hnodes⟩ := exists_mapM (h path (by rw [hsplit]; simp))
      rw [installPath, hnodes]
      exact ⟨_, rfl, trivial⟩)
  exact ⟨state, hstate⟩

theorem PathHopping.exists_configureFlows {idToDpid : ν → Option δ} {installFlow : List (PathDict δ) → Option Text}
    {flows : List (Flow ν)} (hflows : ∀ flow ∈ flows, flow.RunsThrough) (hknown : ∀ flow ∈ flows, flow.Known idToDpid)
    (hinstall : ∀ request, ∃ token, installFlow request = some token) :
    ∃ configured, configureFlows idToDpid installFlow flows = some configured := by
  obtain ⟨final, hfinal, -⟩ := foldlM_total (configureFlow idToDpid installFlow) flows (.empty, [])
    (fun _ _ => True) trivial (by
      intro done flow rest state hsplit _
      have hmem : flow ∈ flows := by rw [hsplit]; simp
      obtain ⟨installed, hinstalled⟩ := exists_foldlM_installPath 0 (hknown flow hmem) flow.ends state.1
      obtain ⟨token, htoken⟩ := hinstall installed.pathDicts
      rw [configureFlow, simplePathsToFlowJson_eq (hflows flow hmem), hinstalled]
      simp only [Option.bind_eq_bind, Option.bind_some, htoken]
      exact ⟨_, rfl, trivial⟩)
  exact ⟨final.2, by rw [configureFlows, hfinal, Option.map_some]⟩

theorem OnosRouteAdder.exists_configureFlows {mapSwToDpid : ν → Option δ}
    {addRoute : List (PathDict δ) → Option Text} {flows : List (RouteFlow ν)}
    (hknown : ∀ flow ∈ flows, flow.toFlow.Known mapSwToDpid)
    (hadd : ∀ request, ∃ token, addRoute request = some token) :
    ∃ configured, configureFlows mapSwToDpid addRoute flows = some configured := by
  obtain ⟨state, hstate, -⟩ := foldlM_zipIdx_total
    (fun (state : RouteState ν δ) (flow, flowId) => installRoute mapSwToDpid addRoute state flowId flow) flows
    ⟨.empty, .empty, []⟩ (fun _ _ => True) trivial (by
      intro done flow rest state hsplit _
      have hmem : flow ∈ flows := by rw [hsplit]; simp
      obtain ⟨installed, hinstalled⟩ := exists_foldlM_installPath 1 (hknown flow hmem) flow.toFlow.ends
        state.tagCounters
      obtain ⟨token, htoken⟩ := hadd installed.pathDicts
      have hloop : (flow.paths.map RoutePath.nodes).foldlM
          (installPath 1 mapSwToDpid (flow.sourceNode, flow.destinationNode)) ⟨[], [], state.tagCounters⟩ =
            some installed := hinstalled
      simp only [installRoute, hloop, Option.bind_eq_bind, Option.bind_some, htoken]
      exact ⟨_, rfl, trivial⟩)
  obtain ⟨configured, htracks⟩ := exists_tracks hstate
  exact ⟨configured, configureFlows_eq_of_tracks hstate htracks⟩

/-- In a trial the tags of every pair are consecutive from the first one on, the generator of a flow has the tags of
its paths in order, and it marks packets for the path it picks; and a trial whose nodes are all known and whose
requests are granted is configured. -/
theorem tags_match_paths :
    (∀ (idToDpid : ν → Option δ) (installFlow : List (PathDict δ) → Option Text) (flows : List (Flow ν)),
      (∀ flow ∈ flows, flow.RunsThrough) →
      (∀ configured, PathHopping.configureFlows idToDpid installFlow flows = some configured →
        TagsMatchPaths 0 idToDpid flows configured) ∧
      ((∀ flow ∈ flows, flow.Known idToDpid) → (∀ request, ∃ token, installFlow request = some token) →
        ∃ configured, PathHopping.configureFlows idToDpid installFlow flows = some configured)) ∧
    (∀ (mapSwToDpid : ν → Option δ) (addRoute : List (PathDict δ) → Option Text)
      (flows : List (OnosRouteAdder.RouteFlow ν)), (∀ flow ∈ flows, flow.toFlow.RunsThrough) →
      (∀ configured, OnosRouteAdder.configureFlows mapSwToDpid addRoute flows = some configured →
        TagsMatchPaths 1 mapSwToDpid (flows.map OnosRouteAdder.RouteFlow.toFlow) configured) ∧
      ((∀ flow ∈ flows, flow.toFlow.Known mapSwToDpid) → (∀ request, ∃ token, addRoute request = some token) →
        ∃ configured, OnosRouteAdder.configureFlows mapSwToDpid addRoute flows = some configured)) := by
  constructor
  · intro idToDpid installFlow flows hflows
    refine ⟨fun configured hconfigured => ?_, fun hknown => PathHopping.exists_configureFlows hflows hknown⟩
    obtain ⟨final, hfinal, rfl⟩ := Option.map_eq_some_iff.mp hconfigured
    exact (PathHopping.allotted_configureFlows hflows hfinal).tagsMatchPaths
  · intro mapSwToDpid addRoute flows _
    refine ⟨fun configured hconfigured => ?_, fun hknown => OnosRouteAdder.exists_configureFlows hknown⟩
    obtain ⟨tagCounters, hallotted⟩ := OnosRouteAdder.allotted_configureFlows hconfigured
    exact hallotted.tagsMatchPaths

/-- A flow from node 0 to node 3 over two paths. -/
def twoPathFlow : Flow Nat := ⟨0, 3, [[0, 1, 3], [0, 2, 3]], [1 / 2, 1 / 2]⟩

/-- Two flows from node 0 to node 3 with one from node 0 to node 2 in between. -/
def interleaved : List (Flow Nat) := [twoPathFlow, ⟨0, 2, [[0, 2]], [1]⟩, twoPathFlow]

/-- The same flows for the route adder. -/
def interleavedRoutes : List (OnosRouteAdder.RouteFlow Nat) :=
  interleaved.map fun flow => ⟨flow.sourceNode, flow.destinationNode, flow.paths.map fun path => ⟨path, 1 / 2⟩⟩

theorem tags_match_paths_interleaved :
    (∃ configured, PathHopping.configureFlows some (fun _ => some "0".toList) interleaved = some configured ∧
      TagsMatchPaths 0 some interleaved configured) ∧
    ∃ configured, OnosRouteAdder.configureFlows some (fun _ => some "0".toList) interleavedRoutes = some configured ∧
      TagsMatchPaths 1 some (interleavedRoutes.map OnosRouteAdder.RouteFlow.toFlow) configured := by
  have hflows : ∀ flow ∈ interleaved, flow.RunsThrough := by
    simp [interleaved, twoPathFlow, Flow.RunsThrough]
  have hroutes : ∀ flow ∈ interleavedRoutes, flow.toFlow.RunsThrough := by
    simp [interleavedRoutes, interleaved, twoPathFlow, Flow.RunsThrough, OnosRouteAdder.RouteFlow.toFlow]
  have hgranted : ∀ request : List (PathDict Nat), ∃ token : Text, (fun _ => some "0".toList) request = some token :=
    fun _ => ⟨"0".toList, rfl⟩
  obtain ⟨hmatch, hexists⟩ := tags_match_paths.1 some (fun _ => some "0".toList) interleaved hflows
  obtain ⟨configured, hconfigured⟩ := hexists (fun _ _ _ _ node _ => ⟨node, rfl⟩) hgranted
  obtain ⟨hmatch', hexists'⟩ := tags_match_paths.2 some (fun _ => some "0".toList) interleavedRoutes hroutes
  obtain ⟨configured', hconfigured'⟩ := hexists' (fun _ _ _ _ node _ => ⟨node, rfl⟩) hgranted
  exact ⟨⟨configured, hconfigured, hmatch configured hconfigured⟩, configured', hconfigured',
    hmatch' configured' hconfigured'⟩

/-! ### Marks on the wire -/

/-- The marks of a flow's paths. -/
def flowMarks (flow : ConfiguredFlow ν δ) : List Nat :=
  (List.range flow.tagValue.length).filterMap fun flowNum => calcDscpVal flowNum flow.tagValue

/-- The marks of the paths installed for a pair. -/
def installedMarks (configured : List (ConfiguredFlow ν δ)) (pair : ν × ν) : List Nat :=
  (configured.filter (·.ends = pair)).flatMap flowMarks

/-- The marks fit in a byte, and the low bytes differ. -/
def MarksDistinct (marks : List Nat) : Prop := (∀ mark ∈ marks, mark < 2 ^ 8) ∧ (marks.map (· % 2 ^ 8)).Nodup

omit [DecidableEq ν] in
theorem flowMarks_eq (flow : ConfiguredFlow ν δ) : flowMarks flow = flow.tagValue.map (· <<< 2) := by
  have hindices : (List.range flow.tagValue.length).map (flow.tagValue[·]?) = flow.tagValue.map some := by
    apply List.ext_getElem
    · simp
    · intro i hi hi'
      rw [List.length_map] at hi'
      simp [hi']
  calc flowMarks flow = ((List.range flow.tagValue.length).map (flow.tagValue[·]?)).filterMap
        fun tag => tag.map (· <<< 2) := by
          rw [List.filterMap_map]
          rfl
    _ = flow.tagValue.map (· <<< 2) := by
          rw [hindices, List.filterMap_map, ← List.filterMap_eq_map]
          rfl

theorem TagsMatchPaths.installedMarks_eq {start : Nat} {toDpid : ν → Option δ} {flows : List (Flow ν)}
    {configured : List (ConfiguredFlow ν δ)} (h : TagsMatchPaths start toDpid flows configured) (pair : ν × ν) :
    installedMarks configured pair = (List.range' start (pathCount flows pair)).map (· <<< 2) := by
  rw [← h.tags_eq, installedMarks, installedTags, List.map_flatMap]
  apply List.flatMap_congr
  intro flow hflow
  obtain ⟨i, hi, rfl⟩ := List.getElem_of_mem (List.mem_of_mem_filter hflow)
  obtain ⟨hlength, hget⟩ := List.forall₂_iff_get.mp h.aligned
  rw [flowMarks_eq]
  congr 1
  exact (hget i (hlength ▸ hi) hi).handed_eq

theorem marksDistinct_range'_iff (count : Nat) : MarksDistinct ((List.range' 0 count).map (· <<< 2)) ↔ count ≤ 64 := by
  constructor
  · intro h
    by_contra hlt
    have hmark := h.1 (64 <<< 2) (List.mem_map.mpr ⟨64, List.mem_range'_1.mpr (by omega), rfl⟩)
    exact absurd hmark (by decide)
  · intro hle
    have hlow : ∀ tag ∈ List.range' 0 count, tag <<< 2 < 2 ^ 8 := by
      intro tag htag
      have hbound := (List.mem_range'_1.mp htag).2
      rw [Nat.shiftLeft_eq]
      omega
    refine ⟨List.forall_mem_map.mpr hlow, ?_⟩
    rw [List.map_map]
    refine List.Nodup.map_on ?_ (List.nodup_range' ..)
    intro tag htag tag' htag' heq
    have hmod : tag <<< 2 % 2 ^ 8 = tag' <<< 2 % 2 ^ 8 := heq
    rw [Nat.mod_eq_of_lt (hlow tag htag), Nat.mod_eq_of_lt (hlow tag' htag'), Nat.shiftLeft_eq,
      Nat.shiftLeft_eq] at hmod
    omega

/-- In a path hopping trial the marks of every pair are distinct exactly when no pair has more than 64 paths. -/
theorem marks_distinct_iff (idToDpid : ν → Option δ) (installFlow : List (PathDict δ) → Option Text)
    (flows : List (Flow ν)) (hflows : ∀ flow ∈ flows, flow.RunsThrough) (configured : List (ConfiguredFlow ν δ))
    (hconfigured : PathHopping.configureFlows idToDpid installFlow flows = some configured) :
    (∀ pair, MarksDistinct (installedMarks configured pair)) ↔ ∀ pair, pathCount flows pair ≤ 64 := by
  obtain ⟨final, hfinal, rfl⟩ := Option.map_eq_some_iff.mp hconfigured
  have hmatch := (PathHopping.allotted_configureFlows hflows hfinal).tagsMatchPaths
  apply forall_congr'
  intro pair
  rw [hmatch.installedMarks_eq, marksDistinct_range'_iff]

theorem marks_distinct_iff_twoPathFlow : ∃ configured : List (ConfiguredFlow Nat Nat),
    PathHopping.configureFlows some (fun _ => some "0".toList) [twoPathFlow] = some configured ∧
    ((∀ pair, MarksDistinct (installedMarks configured pair)) ↔ ∀ pair, pathCount [twoPathFlow] pair ≤ 64) := by
  have hflows : ∀ flow ∈ [twoPathFlow], flow.RunsThrough := by simp [twoPathFlow, Flow.RunsThrough]
  obtain ⟨configured, hconfigured⟩ : ∃ configured : List (ConfiguredFlow Nat Nat),
      PathHopping.configureFlows some (fun _ => some "0".toList) [twoPathFlow] = some configured := ⟨_, rfl⟩
  exact ⟨configured, hconfigured, marks_distinct_iff _ _ _ hflows configured hconfigured⟩

/-- A flow from node 0 to node 1 over the nine disjoint paths between them in the complete graph on ten nodes. -/
def ninePathFlow : Flow Nat :=
  ⟨0, 1, [0, 1] :: (List.range' 2 8).map (fun node => [0, node, 1]), List.replicate 9 (1 / 9)⟩

/-- Eight such flows install 72 paths, and the mark of the 65th does not fit. -/
theorem eight_flows_overflow : ∃ configured : List (ConfiguredFlow Nat Nat),
    PathHopping.configureFlows some (fun _ => some "0".toList) (List.replicate 8 ninePathFlow) = some configured ∧
    ¬ MarksDistinct (installedMarks configured (0, 1)) := by
  have hflow : ninePathFlow.RunsThrough := by
    intro path hpath
    rcases List.mem_cons.mp hpath with rfl | hrest
    · exact ⟨rfl, rfl⟩
    · obtain ⟨node, -, rfl⟩ := List.mem_map.mp hrest
      exact ⟨rfl, rfl⟩
  have hflows : ∀ flow ∈ List.replicate 8 ninePathFlow, flow.RunsThrough := by
    intro flow hmem
    rw [List.eq_of_mem_replicate hmem]
    exact hflow
  obtain ⟨configured, hconfigured⟩ : ∃ configured : List (ConfiguredFlow Nat Nat), PathHopping.configureFlows some
      (fun _ => some "0".toList) (List.replicate 8 ninePathFlow) = some configured :=
    PathHopping.exists_configureFlows hflows (fun _ _ _ _ node _ => ⟨node, rfl⟩) (fun _ => ⟨"0".toList, rfl⟩)
  obtain ⟨final, hfinal, rfl⟩ := Option.map_eq_some_iff.mp hconfigured
  have hmatch := (PathHopping.allotted_configureFlows hflows hfinal).tagsMatchPaths
  refine ⟨final.2, hconfigured, ?_⟩
  rw [hmatch.installedMarks_eq, marksDistinct_range'_iff]
  decide

end OfTestbed.Routing
