import OfTestbed.LibDefaultDict
import OfTestbed.LibLiteral

/-!
The files of a trial with varying rates (`VariableRateFileParser` in `mp_routing/file_parsing.py`). Three kinds of files
are joined: the routes by their position, the splits and the rates under the ids of network and flow. The routes are
consumed three at a time, whatever the number of paths of a flow. `none` is an exception.
-/

namespace OfTestbed.FileParsing

open Lib

abbrev Path := List Int

/-- The files of a trial. `xMatrix` and the rate files are given by what `readlines` gives, the rate files with their
names in the order of `iterdir`. -/
structure Directory where
  paths : Text
  xMatrix : List Text
  rateFiles : List (Text × List Text)

/-- The factors of a parser. -/
structure Parser where
  mu : ℚ
  sigma : ℚ

/-- A flow definition: the end points, the splits and the rate with its deviation. -/
structure FlowDef where
  srcHost : Int
  dstHost : Int
  splits : List ℚ
  txRate : ℚ × ℚ
  deriving DecidableEq

/-! ### Routes -/

def readPath (path : Literal) : Option Path := do (← path.items?).mapM Literal.int?

/-- `eval(rf.read())`: networks, flows, paths. -/
def readNets (text : Text) : Option (List (List (List Path))) := do
  (← (← Literal.eval text).items?).mapM fun vn => do
    (← vn.items?).mapM fun flow => do
      (← flow.items?).mapM readPath

/-- Every path with its number within its flow, the nodes counted from one. -/
def getRoutes (directory : Directory) : Option (List (Nat × Path)) := do
  let nets ← readNets directory.paths
  return nets.flatMap fun vn => vn.flatMap fun flow => flow.zipIdx.map fun path => (path.2, path.1.map (· + 1))

/-! ### Splits -/

/-- A line of the X matrix, such as `X(0,1,2):0.25`. -/
def readPartition (line : Text) : Option (Int × Int × Int × ℚ) := do
  let tupLit ← (line.tail.splitOn ':').head?
  let t ← (← Literal.eval tupLit).items?
  let flowVal ← float (← (line.splitOn ':')[1]?)
  return (← (← t[0]?).int?, ← (← t[1]?).int?, ← (← t[2]?).int?, flowVal)

/-- `defaultdict(lambda : defaultdict(dict))`. -/
abbrev Parts := Dict Int (Dict Int (Dict Int ℚ))

/-- `flow_vs[t[0]][t[1]][t[2]] = flow_val`. -/
def setPart (flowVs : Parts) (e : Int × Int × Int × ℚ) : Parts :=
  flowVs.set e.1 (((flowVs.get? e.1).getD .empty).set2 e.2.1 e.2.2.1 e.2.2.2)

def readPartitionsFile (lines : List Text) : Option Parts :=
  lines.foldlM (fun flowVs line => do return setPart flowVs (← readPartition line)) .empty

/-! ### Rates -/

/-- The number after the second underscore. -/
def getNwId (fileName : Text) : Option Int := do int (← (fileName.splitOn '_')[2]?)

/-- `int(x)` of a float, which rounds towards zero. -/
def truncate (q : ℚ) : Int := q.num.tdiv q.den

/-- A line such as `Link 0,1 with (mu,sigma): 1,0.0`. -/
def getFlowParams (line : Text) : Option (Int × ℚ) := do
  let parmList := (← (line.splitOn ':').getLast?).splitOn ','
  let mu := truncate (← float (← parmList[0]?))
  let sigma ← float (← parmList[1]?)
  return (mu, sigma)

abbrev Rates := Dict Int (Dict Int (ℚ × ℚ))

variable (parser : Parser)

/-- The rate of a line, in the parser's units. -/
def scaled (params : Int × ℚ) : ℚ × ℚ := (params.1 * parser.mu, params.2 * parser.sigma)

/-- A turn of the inner loop: one line of a file. -/
def setRate (netId : Int) (rates : Rates) (line : Text × Nat) : Option Rates := do
  return rates.set2 netId line.2 (scaled parser (← getFlowParams line.1))

def constructRateTable (files : List (Text × List Text)) : Option Rates :=
  files.foldlM (fun rates nwFile => do nwFile.2.zipIdx.foldlM (setRate parser (← getNwId nwFile.1)) rates) .empty

/-! ### Flow definitions -/

/-- A turn of the inner loop of `get_flow_defs`: the first of the remaining routes gives the end points. -/
def addFlowDef (txRates : Rates) (netId : Int) (state : List (Nat × Path) × List FlowDef)
    (entry : Int × Dict Int ℚ) : Option (List (Nat × Path) × List FlowDef) := do
  let route ← state.1.head?
  let srcHost ← route.2.head?
  let dstHost ← route.2.getLast?
  let txRate ← txRates.get2? netId entry.1
  return (state.1.drop 3, state.2 ++ [⟨srcHost, dstHost, entry.2.values, txRate⟩])

def getFlowDefs (directory : Directory) : Option (List FlowDef) := do
  let parts ← readPartitionsFile directory.xMatrix
  let routes ← getRoutes directory
  let txRates ← constructRateTable parser directory.rateFiles
  let final ← parts.entries.foldlM (fun state net => net.2.entries.foldlM (addFlowDef txRates net.1) state) (routes, [])
  return final.2

/-! ### What the files say -/

/-- A flow with `K` paths between its end points and a split for each of them. -/
structure FlowInput (K : Nat) where
  source : Int
  destination : Int
  paths : List Path
  splits : List ℚ
  mu : Int
  sigma : ℚ
  length_paths : paths.length = K
  length_splits : splits.length = K
  ends : ∀ path ∈ paths, path.head? = some source ∧ path.getLast? = some destination

variable {K : Nat}

/-- The definition that a flow should get. -/
def FlowInput.flowDef (flow : FlowInput K) : FlowDef :=
  ⟨flow.source + 1, flow.destination + 1, flow.splits, scaled parser (flow.mu, flow.sigma)⟩

/-- The entries of the X matrix for one flow, without the number of the network. -/
def FlowInput.partition (flow : FlowInput K × Nat) : List (Int × Int × ℚ) :=
  flow.1.splits.zipIdx.map fun split => ((flow.2 : Int), (split.2 : Int), split.1)

/-- The entries for one network. -/
def netPartition (flows : List (FlowInput K)) : List (Int × Int × ℚ) := flows.zipIdx.flatMap FlowInput.partition

/-- The files of networks of flows: the paths nested, the X matrix in the same order, and one rate file for each network
with one line for each flow. -/
structure Consistent (directory : Directory) (nets : List (List (FlowInput K))) : Prop where
  paths : readNets directory.paths = some (nets.map fun flows => flows.map FlowInput.paths)
  xMatrix : directory.xMatrix.mapM readPartition =
    some (nets.zipIdx.flatMap fun net => (netPartition net.1).map ((net.2 : Int), ·))
  rateFiles : ∃ table : List (Int × List (Int × ℚ)),
    directory.rateFiles.mapM (fun nwFile => do return (← getNwId nwFile.1, ← nwFile.2.mapM getFlowParams)) =
        some table ∧
      table.Perm (nets.zipIdx.map fun net => ((net.2 : Int), net.1.map fun flow => (flow.mu, flow.sigma)))

/-- Every flow has the end points of the flow whose route it reads. -/
def Aligned (flows : List (FlowInput K)) : Prop :=
  ∀ m flow, flows[m]? = some flow →
    ∃ other, flows[3 * m / K]? = some other ∧ other.source = flow.source ∧ other.destination = flow.destination

/-- All flows with the ids of their network and their own. -/
def indexed (nets : List (List (FlowInput K))) : List ((Int × Int) × FlowInput K) :=
  nets.zipIdx.flatMap fun net => net.1.zipIdx.map fun flow => (((net.2 : Int), (flow.2 : Int)), flow.1)

theorem map_snd_indexed (nets : List (List (FlowInput K))) : (indexed nets).map Prod.snd = nets.flatten := by
  have hflow : ∀ flows : List (FlowInput K), flows.zipIdx.map Prod.fst = flows :=
    fun flows => List.zipIdx_map_fst 0 flows
  calc (indexed nets).map Prod.snd = nets.zipIdx.flatMap fun net => net.1.zipIdx.map Prod.fst := by
        simp only [indexed, List.map_flatMap, List.map_map]
        rfl
    _ = (nets.zipIdx.map Prod.fst).flatten := by
        simp only [hflow]
        rw [List.flatMap_def]
    _ = nets.flatten := by rw [List.zipIdx_map_fst]

/-! ### Reading the splits -/

/-- The splits of a flow under the numbers of their paths. -/
def FlowInput.splitDict (flow : FlowInput K) : Dict Int ℚ :=
  Dict.ofList (flow.splits.zipIdx.map fun split => ((split.2 : Int), split.1))

theorem nodup_intIdx {α : Type} (l : List α) : (l.zipIdx.map fun e => (e.2 : Int)).Nodup := by
  have hsnd : (l.zipIdx.map fun e => (e.2 : Int)) = (l.zipIdx.map Prod.snd).map fun i : Nat => (i : Int) := by
    rw [List.map_map]
    rfl
  rw [hsnd]
  exact (nodup_zipIdx_snd l).map fun i j h => Int.ofNat_inj.mp h

theorem values_splitDict (flow : FlowInput K) : flow.splitDict.values = flow.splits := by
  have hkeys : ((flow.splits.zipIdx.map fun split => ((split.2 : Int), split.1)).map Prod.fst).Nodup := by
    rw [List.map_map]
    exact nodup_intIdx flow.splits
  rw [FlowInput.splitDict, Dict.values, Dict.entries_ofList hkeys, List.map_map]
  exact List.zipIdx_map_fst 0 flow.splits

/-- `flow_vs[t[1]][t[2]] = flow_val` within one network. -/
def setSplit (netFlows : Dict Int (Dict Int ℚ)) (e : Int × Int × ℚ) : Dict Int (Dict Int ℚ) :=
  netFlows.set2 e.1 e.2.1 e.2.2

/-- What the entries of one network leave: one dictionary for each flow. -/
theorem entries_netPartition (hK : 1 ≤ K) (flows : List (FlowInput K)) :
    ((netPartition flows).foldl setSplit .empty).entries =
      flows.zipIdx.map fun flow => ((flow.2 : Int), flow.1.splitDict) := by
  let blocks := flows.zipIdx.map fun flow =>
    ((flow.2 : Int), flow.1.splits.zipIdx.map fun split => ((split.2 : Int), split.1))
  have hkeys : (blocks.map Prod.fst).Nodup := by
    rw [List.map_map]
    exact nodup_intIdx flows
  have hfilter : blocks.filter (fun b => !b.2.isEmpty) = blocks := by
    refine List.filter_eq_self.mpr fun b hb => ?_
    obtain ⟨flow, -, rfl⟩ := List.mem_map.mp hb
    have hlength := flow.1.length_splits
    rw [Bool.not_eq_true', List.isEmpty_eq_false_iff]
    refine List.ne_nil_of_length_pos ?_
    rw [List.length_map, List.length_zipIdx]
    omega
  have hblocks : netPartition flows = blocks.flatMap fun b => b.2.map (b.1, ·) := by
    rw [netPartition, List.flatMap_map]
    refine List.flatMap_congr fun flow _ => ?_
    rw [FlowInput.partition, List.map_map]
    rfl
  have hbuild := Dict.entries_foldl_addIn (fun d (e : Int × ℚ) => d.set e.1 e.2) (Dict.empty : Dict Int ℚ) blocks hkeys
  rw [hfilter, ← hblocks, List.map_map] at hbuild
  exact hbuild

/-- What the X matrix leaves, read flow by flow. -/
theorem items_readPartitionsFile (hK : 1 ≤ K) {directory : Directory} {nets : List (List (FlowInput K))}
    (h : Consistent directory nets) :
    ∃ parts, readPartitionsFile directory.xMatrix = some parts ∧
      (parts.entries.flatMap fun net => net.2.entries.map (net.1, ·)) =
        (indexed nets).map fun flow => (flow.1.1, flow.1.2, flow.2.splitDict) := by
  let blocks := nets.zipIdx.map fun net => ((net.2 : Int), netPartition net.1)
  have hkeys : (blocks.map Prod.fst).Nodup := by
    rw [List.map_map]
    exact nodup_intIdx nets
  have hblocks : (nets.zipIdx.flatMap fun net => (netPartition net.1).map ((net.2 : Int), ·)) =
      blocks.flatMap fun b => b.2.map (b.1, ·) := by
    rw [List.flatMap_map]
  have hbuild := Dict.entries_foldl_addIn setSplit (Dict.empty : Dict Int (Dict Int ℚ)) blocks hkeys
  refine ⟨(blocks.flatMap fun b => b.2.map (b.1, ·)).foldl setPart .empty, ?_, ?_⟩
  · rw [← hblocks]
    refine foldlM_of_forall₂ (fun flowVs line e hread => ?_) (forall₂_of_mapM h.xMatrix) Dict.empty
    rw [hread]
    rfl
  · have hentries : ((blocks.flatMap fun b => b.2.map (b.1, ·)).foldl setPart .empty).entries = _ := hbuild
    rw [hentries, List.flatMap_map, flatMap_filter_of_nil, List.flatMap_map, indexed, List.map_flatMap]
    · refine List.flatMap_congr fun net _ => ?_
      rw [entries_netPartition hK, List.map_map, List.map_map]
      rfl
    · intro b _ hempty
      rw [Bool.not_eq_false', List.isEmpty_iff] at hempty
      rw [hempty]
      rfl

/-! ### Reading the rates -/

/-- The assignments of one rate file. -/
def rateEntries (file : Int × List (Int × ℚ)) : List ((Int × Int) × (ℚ × ℚ)) :=
  file.2.zipIdx.map fun params => ((file.1, (params.2 : Int)), scaled parser params.1)

theorem foldlM_setRate {lines : List Text} {params : List (Int × ℚ)} (hparams : lines.mapM getFlowParams = some params)
    (netId : Int) (rates : Rates) :
    lines.zipIdx.foldlM (setRate parser netId) rates =
      some ((rateEntries parser (netId, params)).foldl (fun rates e => rates.set2 e.1.1 e.1.2 e.2) rates) := by
  rw [rateEntries, List.foldl_map]
  refine foldlM_of_forall₂ (r := fun line e => getFlowParams line.1 = some e.1 ∧ line.2 = e.2) ?_ ?_ rates
  · rintro rates ⟨line, i⟩ ⟨params, j⟩ ⟨hread, rfl⟩
    rw [setRate, hread]
    rfl
  · exact forall₂_zipIdx (forall₂_of_mapM hparams) 0

theorem constructRateTable_eq {files : List (Text × List Text)} {table : List (Int × List (Int × ℚ))}
    (htable : files.mapM (fun nwFile => do return (← getNwId nwFile.1, ← nwFile.2.mapM getFlowParams)) = some table) :
    constructRateTable parser files =
      some ((table.flatMap (rateEntries parser)).foldl (fun rates e => rates.set2 e.1.1 e.1.2 e.2) .empty) := by
  rw [List.foldl_flatMap]
  refine foldlM_of_forall₂ (fun rates nwFile file hread => ?_) (forall₂_of_mapM htable) Dict.empty
  obtain ⟨netId, hnetId, hrest⟩ := Option.bind_eq_some_iff.mp hread
  obtain ⟨params, hparams, heq⟩ := Option.bind_eq_some_iff.mp hrest
  cases heq
  rw [hnetId]
  exact foldlM_setRate parser hparams netId rates

/-- Every flow finds its own rate. -/
theorem get2?_constructRateTable {directory : Directory} {nets : List (List (FlowInput K))}
    (h : Consistent directory nets) :
    ∃ txRates, constructRateTable parser directory.rateFiles = some txRates ∧
      ∀ flow ∈ indexed nets, txRates.get2? flow.1.1 flow.1.2 = some (scaled parser (flow.2.mu, flow.2.sigma)) := by
  obtain ⟨table, htable, hperm⟩ := h.rateFiles
  refine ⟨_, constructRateTable_eq parser htable, fun flow hflow => ?_⟩
  refine Dict.get2?_foldl_set2 ?_ ?_ _
  · have hkeys : (table.map Prod.fst).Nodup := by
      refine (hperm.map Prod.fst).nodup_iff.mpr ?_
      rw [List.map_map]
      exact nodup_intIdx nets
    rw [List.map_flatMap, List.nodup_flatMap]
    refine ⟨fun file _ => ?_, (List.pairwise_map.mp hkeys).imp fun hne => ?_⟩
    · refine List.Nodup.of_map Prod.snd ?_
      rw [rateEntries, List.map_map, List.map_map]
      exact nodup_intIdx file.2
    · intro ids hids hids'
      obtain ⟨e, he, rfl⟩ := List.mem_map.mp hids
      obtain ⟨e', he', heq⟩ := List.mem_map.mp hids'
      obtain ⟨_, -, rfl⟩ := List.mem_map.mp he
      obtain ⟨_, -, rfl⟩ := List.mem_map.mp he'
      exact hne (Prod.mk.inj heq).1.symm
  · obtain ⟨net, hnet, hflow⟩ := List.mem_flatMap.mp hflow
    obtain ⟨own, hown, rfl⟩ := List.mem_map.mp hflow
    refine List.mem_flatMap.mpr ⟨_, hperm.mem_iff.mpr (List.mem_map_of_mem hnet), ?_⟩
    rw [rateEntries, List.zipIdx_map, List.map_map]
    exact List.mem_map_of_mem hown

/-! ### The loop -/

/-- The end points of the route that the flow at position `m` reads. -/
def endsAt (routes : List (Nat × Path)) (m : Nat) : Option (Int × Int) := do
  let route ← routes[3 * m]?
  return (← route.2.head?, ← route.2.getLast?)

/-- The definition of the flow at position `m`, with the end points it reads. -/
def readFlowDef (routes : List (Nat × Path)) (flow : FlowInput K × Nat) : Option FlowDef :=
  (endsAt routes flow.2).map fun ends =>
    ⟨ends.1, ends.2, flow.1.splits, scaled parser (flow.1.mu, flow.1.sigma)⟩

theorem addFlowDef_eq {txRates : Rates} {flow : (Int × Int) × FlowInput K}
    (hrate : txRates.get2? flow.1.1 flow.1.2 = some (scaled parser (flow.2.mu, flow.2.sigma)))
    (routes : List (Nat × Path)) (m : Nat) (done : List FlowDef) :
    addFlowDef txRates flow.1.1 (routes.drop (3 * m), done) (flow.1.2, flow.2.splitDict) =
      (readFlowDef parser routes (flow.2, m)).map fun flowDef => (routes.drop (3 * (m + 1)), done ++ [flowDef]) := by
  have hdrop : (routes.drop (3 * m)).drop 3 = routes.drop (3 * (m + 1)) := by rw [List.drop_drop, Nat.mul_succ]
  rw [addFlowDef, readFlowDef, endsAt]
  simp only [hrate, values_splitDict, List.head?_drop, hdrop]
  cases routes[3 * m]? with
  | none => rfl
  | some route =>
      cases hsrc : route.2.head? with
      | none => simp [hsrc]
      | some srcHost =>
          cases hdst : route.2.getLast? with
          | none => simp [hsrc, hdst]
          | some dstHost => simp [hsrc, hdst]

/-- The loop reads the routes three apart. -/
theorem foldlM_addFlowDef {txRates : Rates} {flows : List ((Int × Int) × FlowInput K)}
    (hrates : ∀ flow ∈ flows, txRates.get2? flow.1.1 flow.1.2 = some (scaled parser (flow.2.mu, flow.2.sigma)))
    (routes : List (Nat × Path)) (m : Nat) (done : List FlowDef) :
    (flows.map fun flow => (flow.1.1, flow.1.2, flow.2.splitDict)).foldlM
        (fun state item => addFlowDef txRates item.1 state item.2) (routes.drop (3 * m), done) =
      (((flows.map Prod.snd).zipIdx m).mapM (readFlowDef parser routes)).map fun flowDefs =>
        (routes.drop (3 * (m + flows.length)), done ++ flowDefs) := by
  induction flows generalizing m done with
  | nil => simp
  | cons flow rest ih =>
      obtain ⟨hfirst, hrest⟩ := List.forall_mem_cons.mp hrates
      rw [List.map_cons, List.foldlM_cons, addFlowDef_eq parser hfirst, List.map_cons, List.zipIdx_cons, List.mapM_cons]
      cases readFlowDef parser routes (flow.2, m) with
      | none => rfl
      | some flowDef =>
          show List.foldlM _ _ _ = _
          rw [ih hrest]
          cases (rest.map Prod.snd).zipIdx (m + 1) |>.mapM (readFlowDef parser routes) with
          | none => rfl
          | some flowDefs => simp [Nat.add_assoc, Nat.add_comm 1]

/-! ### The routes -/

/-- The routes of one flow. -/
def FlowInput.routes (flow : FlowInput K) : List (Nat × Path) :=
  flow.paths.zipIdx.map fun path => (path.2, path.1.map (· + 1))

theorem getRoutes_eq {directory : Directory} {nets : List (List (FlowInput K))} (h : Consistent directory nets) :
    getRoutes directory = some (nets.flatten.flatMap FlowInput.routes) := by
  rw [getRoutes, h.paths]
  show some _ = some _
  rw [List.flatMap_map, ← List.flatMap_id, List.flatMap_assoc]
  congr 1
  refine List.flatMap_congr fun flows _ => ?_
  rw [List.flatMap_map]
  rfl

/-- The route at a position belongs to the flow in whose block it is. -/
theorem endsAt_routes (hK : 1 ≤ K) (flows : List (FlowInput K)) (m : Nat) :
    endsAt (flows.flatMap FlowInput.routes) m =
      flows[3 * m / K]?.map fun other => (other.source + 1, other.destination + 1) := by
  have hlength : ∀ flow ∈ flows, flow.routes.length = K := by
    intro flow _
    rw [FlowInput.routes, List.length_map, List.length_zipIdx, flow.length_paths]
  rw [endsAt, getElem?_flatMap_of_length hK hlength]
  cases flows[3 * m / K]? with
  | none => rfl
  | some other =>
      have hlt : 3 * m % K < other.paths.length := by
        rw [other.length_paths]
        exact Nat.mod_lt _ hK
      have hroute : other.routes[3 * m % K]? = some (3 * m % K, other.paths[3 * m % K].map (· + 1)) := by
        rw [FlowInput.routes, List.getElem?_map, List.getElem?_zipIdx, List.getElem?_eq_getElem hlt, Nat.zero_add]
        rfl
      obtain ⟨hhead, hlast⟩ := other.ends _ (List.getElem_mem hlt)
      simp [hroute, hhead, hlast]

/-- A flow gets its own definition if the route it reads has its end points. -/
theorem readFlowDef_eq_iff (hK : 1 ≤ K) {flows : List (FlowInput K)} {flow : FlowInput K} {m : Nat} :
    readFlowDef parser (flows.flatMap FlowInput.routes) (flow, m) = some (flow.flowDef parser) ↔
      ∃ other, flows[3 * m / K]? = some other ∧ other.source = flow.source ∧
        other.destination = flow.destination := by
  rw [readFlowDef, endsAt_routes hK]
  cases flows[3 * m / K]? with
  | none => simp
  | some other => simp [FlowInput.flowDef]

theorem getFlowDefs_eq (hK : 1 ≤ K) {directory : Directory} {nets : List (List (FlowInput K))}
    (h : Consistent directory nets) :
    getFlowDefs parser directory =
      nets.flatten.zipIdx.mapM (readFlowDef parser (nets.flatten.flatMap FlowInput.routes)) := by
  obtain ⟨parts, hparts, hitems⟩ := items_readPartitionsFile hK h
  obtain ⟨txRates, htxRates, hrates⟩ := get2?_constructRateTable parser h
  have hloop : ∀ start,
      parts.entries.foldlM (fun state net => net.2.entries.foldlM (addFlowDef txRates net.1) state) start =
      ((indexed nets).map fun flow => (flow.1.1, flow.1.2, flow.2.splitDict)).foldlM
        (fun state item => addFlowDef txRates item.1 state item.2) start := by
    intro start
    rw [← hitems, foldlM_flatMap]
    simp only [List.foldlM_map]
  have hrun := foldlM_addFlowDef parser hrates (nets.flatten.flatMap FlowInput.routes) 0 []
  rw [map_snd_indexed] at hrun
  have hfinal : getFlowDefs parser directory =
      ((indexed nets).map fun flow => (flow.1.1, flow.1.2, flow.2.splitDict)).foldlM
        (fun state item => addFlowDef txRates item.1 state item.2) (nets.flatten.flatMap FlowInput.routes, []) >>=
          fun final => some final.2 := by
    rw [getFlowDefs, hparts, getRoutes_eq h, htxRates, ← hloop]
    rfl
  have hstart : (nets.flatten.flatMap FlowInput.routes).drop (3 * 0) = nets.flatten.flatMap FlowInput.routes := rfl
  rw [hstart] at hrun
  rw [hfinal, hrun]
  cases nets.flatten.zipIdx.mapM (readFlowDef parser (nets.flatten.flatMap FlowInput.routes)) <;> rfl

/-- **What a trial's files give.** Every flow gets its own end points, splits and rate exactly if the fixed stride of
three meets a route with its end points at every position. -/
theorem get_flow_defs_iff_aligned (K : Nat) (hK : 1 ≤ K) (parser : Parser) (directory : Directory)
    (nets : List (List (FlowInput K))) (h : Consistent directory nets) :
    getFlowDefs parser directory = some (nets.flatten.map (FlowInput.flowDef parser)) ↔ Aligned nets.flatten := by
  rw [getFlowDefs_eq parser hK h, mapM_eq_some_iff]
  constructor
  · intro heq m flow hflow
    have hget := congrArg (fun l : List (Option FlowDef) => l[m]?) heq
    simp only [List.getElem?_map, List.getElem?_zipIdx, hflow, Option.map_some, Nat.zero_add, Option.some_inj] at hget
    exact (readFlowDef_eq_iff parser hK).mp hget
  · intro haligned
    refine List.ext_getElem? fun m => ?_
    simp only [List.getElem?_map, List.getElem?_zipIdx, Nat.zero_add]
    cases hflow : nets.flatten[m]? with
    | none => rfl
    | some flow =>
        simp only [Option.map_some, Option.some_inj]
        exact (readFlowDef_eq_iff parser hK).mpr (haligned m flow hflow)

/-- With three paths for each flow the stride is right. -/
theorem aligned_of_three (flows : List (FlowInput 3)) : Aligned flows := by
  intro m flow hflow
  refine ⟨flow, ?_, rfl, rfl⟩
  rw [Nat.mul_div_cancel_left m (by decide), hflow]

/-- One network with two flows of three paths each. -/
def threePaths : List (List (FlowInput 3)) :=
  [[⟨1, 10, [[1, 10], [1, 0, 10], [1, 2, 10]], [1, 0, 0], 2, 0, rfl, rfl, by decide⟩,
    ⟨10, 9, [[10, 9], [10, 3, 9], [10, 0, 9]], [1 / 2, 1 / 4, 1 / 4], 1, 1, rfl, rfl, by decide⟩]]

def threePathFiles : Directory where
  paths := "[[[[1, 10], [1, 0, 10], [1, 2, 10]], [[10, 9], [10, 3, 9], [10, 0, 9]]]]".toList
  xMatrix := ["X(0,0,0):1.0\n".toList, "X(0,0,1):0.0\n".toList, "X(0,0,2):0.0\n".toList, "X(0,1,0):0.5\n".toList,
    "X(0,1,1):0.25\n".toList, "X(0,1,2):0.25\n".toList]
  rateFiles := [("VN_req_0_info.txt".toList,
    ["Link 0,1 with (mu,sigma): 2,0.0\n".toList, "Link 1,2 with (mu,sigma): 1,1.0\n".toList])]

theorem consistent_threePathFiles : Consistent threePathFiles threePaths where
  paths := by decide +kernel
  xMatrix := by decide +kernel
  rateFiles := ⟨[(0, [(2, 0), (1, 1)])], by decide +kernel, by decide +kernel⟩

theorem get_flow_defs_threePaths :
    Consistent threePathFiles threePaths ∧ Aligned threePaths.flatten ∧
      getFlowDefs ⟨10, 1⟩ threePathFiles =
        some [⟨2, 11, [1, 0, 0], (20, 0)⟩, ⟨11, 10, [1 / 2, 1 / 4, 1 / 4], (10, 1)⟩] := by
  refine ⟨consistent_threePathFiles, aligned_of_three threePaths.flatten, ?_⟩
  have hdefs := (get_flow_defs_iff_aligned 3 (by decide) ⟨10, 1⟩ threePathFiles threePaths
    consistent_threePathFiles).mpr (aligned_of_three threePaths.flatten)
  have hexpected : threePaths.flatten.map (FlowInput.flowDef ⟨10, 1⟩) =
      [⟨2, 11, [1, 0, 0], (20, 0)⟩, ⟨11, 10, [1 / 2, 1 / 4, 1 / 4], (10, 1)⟩] := by
    decide +kernel
  rw [hdefs, hexpected]

/-- One network with two flows of one path each. -/
def onePath : List (List (FlowInput 1)) :=
  [[⟨1, 10, [[1, 10]], [1], 2, 0, rfl, rfl, by decide⟩, ⟨10, 9, [[10, 9]], [1], 1, 1, rfl, rfl, by decide⟩]]

def onePathFiles : Directory where
  paths := "[[[[1, 10]], [[10, 9]]]]".toList
  xMatrix := ["X(0,0,0):1.0\n".toList, "X(0,1,0):1.0\n".toList]
  rateFiles := threePathFiles.rateFiles

/-- The second flow finds no route. -/
theorem second_flow_has_no_route :
    Consistent onePathFiles onePath ∧ getFlowDefs ⟨10, 1⟩ onePathFiles = none := by
  refine ⟨⟨by decide +kernel, by decide +kernel, [(0, [(2, 0), (1, 1)])], by decide +kernel, by decide +kernel⟩, ?_⟩
  decide +kernel

end OfTestbed.FileParsing
