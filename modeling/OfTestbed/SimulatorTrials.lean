import OfTestbed.AttackersRecovery
import OfTestbed.SimulatorParallel

/-!
A whole simulation trial (`conduct_path_hopping_simulation` in `path_hopping_simulator.py`): a flow on `N` parallel
paths, one attacker of each class, and `sim_duration` steps. Random draws are arguments. An attacker class draws
positions on the paths from time to time; which messages it recovers is given here by these draws alone, without the
network and its shares: a share of message `s` on path `i` is at the `h`-th node between source and sink in step
`s + h`, and is captured when that position is among the ones drawn last.
-/

namespace OfTestbed.Simulator

open Lib

/-- The parameters of a trial that the simulation reads. -/
structure SimulationTrial where
  N : Nat
  K : Nat
  pathLength : Nat
  attackerHopPeriod : Nat
  simDuration : Nat

/-- The attackers in the order in which they are added. -/
def attackerClasses : List AttackerClass :=
  [.randomPathHopping none, .randomNodeHopping none, .idealRandomPathHopping none, .oneNodePerPath none, .fixed none,
    .planned ∅ ∅ 1, .total]

def HopClass.position : HopClass → Nat
  | .randomPath => 0
  | .randomNode => 1
  | .idealRandomPath => 2
  | .oneNodePerPath => 3

/-- The draws of all attackers, by the time of the call, which is 0 for the call when they are created. The fixed
attacker draws only then. -/
structure TrialDraws where
  hopping : HopClass → Nat → Draws
  fixed : Draws
  planned : Nat → Attacker → Draws

/-- The draws of the attacker at a position. -/
def TrialDraws.ofPosition (draws : TrialDraws) (time : Nat) (attacker : Attacker) : Nat → Draws
  | 0 => draws.hopping .randomPath time
  | 1 => draws.hopping .randomNode time
  | 2 => draws.hopping .idealRandomPath time
  | 3 => draws.hopping .oneNodePerPath time
  | 5 => draws.planned time attacker
  | _ => draws.fixed

def TrialDraws.select (draws : TrialDraws) : Nat → Select := fun idx nodes flows simulationTime attacker =>
  attacker.selectMonitoredNodes (draws.ofPosition simulationTime attacker idx) nodes flows simulationTime

namespace SimulationTrial

variable (trial : SimulationTrial) (disjointPaths : List Path) (hops : Nat → List Nat) (draws : TrialDraws)
  (order : Nat → StepOrder)

/-- `create` of each attacker class. -/
def createAttackers (graphNodes : List NodeId) (flows : Dict FlowId PathHoppingFlow) : Option (List Attacker) :=
  attackerClasses.zipIdx.mapM fun (cls, idx) =>
    Attacker.create
      (draws.ofPosition 0 (Attacker.new trial.N trial.K trial.attackerHopPeriod cls) idx)
      trial.N trial.K graphNodes flows trial.attackerHopPeriod cls

/-- `conduct_path_hopping_simulation`, up to the loop over the steps: `disjointPaths` is what `node_disjoint_paths`
finds in the graph and `hops` are the draws of the flow. -/
def conductPathHoppingSimulation : Option PathHoppingSimulation := do
  let (G, sourceId, sinkId) ← buildNParallelGraph trial.N trial.pathLength
  let flow ← PathHoppingFlow.createRandomFlow G.nodes disjointPaths trial.N trial.K sourceId sinkId 0 (hops 0)
  let simulation := PathHoppingSimulation.create G.nodes [flow] []
  let attackers ← trial.createAttackers draws G.nodes simulation.flows
  let simulation := { simulation with attackers := attackers }
  simulation.run order (fun t _ => hops (t + 1)) draws.select trial.simDuration

end SimulationTrial

/-- The names of the parameters that are added to the trial; the total attacker is left out. -/
def recoveredParameters : List String :=
  ["random-path-hopping-attacker-recovered-messages", "random-node-hopping-attacker-recovered-messages",
    "ideal-random-path-hopping-attacker-recovered-messages", "one-node-per-path-attacker-recovered-messages",
    "fixed-attacker-recovered-messages", "planned-attacker-recovered-messages"]

def HopClass.parameterName : HopClass → String
  | .randomPath => "random-path-hopping-attacker-recovered-messages"
  | .randomNode => "random-node-hopping-attacker-recovered-messages"
  | .idealRandomPath => "ideal-random-path-hopping-attacker-recovered-messages"
  | .oneNodePerPath => "one-node-per-path-attacker-recovered-messages"

/-- The parameters that are added after the steps. -/
def addedParameters (simulation : PathHoppingSimulation) : List (String × List Nat) :=
  recoveredParameters.zip (simulation.attackers.map Attacker.reconstructCapturedMessages)

/-! ### What is drawn -/

/-- What `np.random.choice(population, k, replace=False)` draws: `k` different indices. -/
structure Draws.Distinct (draws : Draws) (population k : Nat) : Prop where
  length : draws.sample.length = k
  nodup : draws.sample.Nodup
  lt : ∀ idx ∈ draws.sample, idx < population

/-- One further draw for each path. -/
structure Draws.OnePerPath (draws : Draws) (population k pathLength : Nat) : Prop
    extends Draws.Distinct draws population k where
  picks_length : draws.picks.length = k
  picks_lt : ∀ pick ∈ draws.picks, pick < pathLength

/-- The draws of one call of a class with a period. -/
def HopClass.Documented (draws : Draws) (N K pathLength : Nat) : HopClass → Prop
  | .randomNode => draws.Distinct (N * pathLength) K
  | .oneNodePerPath => draws.OnePerPath N K pathLength
  | _ => draws.Distinct N K

/-- The draws of a trial are such as the calls of `np.random.choice` make. -/
structure TrialDraws.Documented (draws : TrialDraws) (trial : SimulationTrial) (paths : List Path) : Prop where
  hopping : ∀ (hopClass : HopClass) time,
    hopClass.Documented (draws.hopping hopClass time) trial.N trial.K trial.pathLength
  fixed : draws.fixed.OnePerPath trial.N trial.K trial.pathLength
  planned : SamplesPlan paths draws.planned

/-- The draws of the latest hop, in step `t`: the call in step `t` has simulation time `t + 1`. -/
def inForce (hopClass : HopClass) (hopPeriod : Nat) (draws : Nat → Draws) : Nat → Option Draws
  | 0 => if hopClass.HopsAt hopPeriod 1 then some (draws 0) else none
  | t + 1 => if hopClass.HopsAt hopPeriod (t + 1) then some (draws (t + 1)) else inForce hopClass hopPeriod draws t

/-- The node at a position: the `h`-th one between source and sink on path `i`. -/
def nodeAt (paths : List Path) (i h : Nat) : Option NodeId := paths[i]?.bind (·[h + 1]?)

/-- The positions drawn by one class. -/
def HopClass.Watches (paths : List Path) (pathLength : Nat) (draws : Draws) (i h : Nat) : HopClass → Prop
  | .randomNode => ∃ j ∈ draws.sample, nodeAt paths i h = some (j : Int)
  | .randomPath => h = 0 ∧ ∃ j ∈ draws.sample, nodeAt paths i 0 = some ((j * pathLength : Nat) : Int)
  | .idealRandomPath => i ∈ draws.sample
  | .oneNodePerPath => (i, h) ∈ draws.sample.zip draws.picks

/-- Message `s` is sent before step `n`, and every path on which it is sent has a position that is watched in the step
in which the share passes it. -/
def RecoveredWithin (hops : Nat → List Nat) (pathLength n : Nat) (watched : Nat → Nat → Nat → Prop) (s : Nat) : Prop :=
  s < n ∧ ∀ i ∈ hops s, ∃ h < pathLength, s + h < n ∧ watched (s + h) i h

theorem exists_choiceWithoutReplacement {α : Type} {population : List α} {k : Nat} {sample : List Nat}
    (hk : k ≤ population.length) (hlt : ∀ idx ∈ sample, idx < population.length) :
    ∃ chosen, choiceWithoutReplacement population k sample = some chosen ∧
      sample.map (population[·]?) = chosen.map some := by
  have hsome : ∀ idx ∈ sample, ∃ a, population[idx]? = some a :=
    fun idx hidx => ⟨_, List.getElem?_eq_getElem (hlt idx hidx)⟩
  obtain ⟨chosen, hchosen⟩ := exists_mapM hsome
  refine ⟨chosen, ?_, mapM_eq_some_iff.mp hchosen⟩
  rw [choiceWithoutReplacement, if_pos hk, hchosen]

theorem mem_of_map_getElem? {α : Type} {population chosen : List α} {sample : List Nat}
    (h : sample.map (population[·]?) = chosen.map some) {a : α} :
    a ∈ chosen ↔ ∃ idx ∈ sample, population[idx]? = some a := mem_iff_of_mapM (mapM_eq_some_iff.mpr h)

/-- One node for each of the drawn paths. -/
theorem exists_chooseOnePerPath {collection chosen : List Path} {sample picks : List Nat} {pathLength : Nat}
    (hlength : ∀ path ∈ collection, path.length = pathLength)
    (hchosen : sample.map (collection[·]?) = chosen.map some) (hpicks : ∀ pick ∈ picks, pick < pathLength) :
    ∃ nodes, chooseOnePerPath chosen picks = some nodes ∧ ∀ nodeId, nodeId ∈ nodes ↔
      ∃ j pick, (j, pick) ∈ sample.zip picks ∧ collection[j]?.bind (·[pick]?) = some nodeId := by
  have hcollection : ∀ path ∈ chosen, path ∈ collection := by
    intro path hpath
    obtain ⟨idx, -, hget⟩ := (mem_of_map_getElem? hchosen).mp hpath
    exact List.mem_of_getElem? hget
  have hsome : ∀ entry ∈ chosen.zip picks, ∃ nodeId, entry.1[entry.2]? = some nodeId := by
    rintro ⟨path, pick⟩ hentry
    have hpath := hcollection path (List.of_mem_zip hentry).1
    have hpick := hpicks pick (List.of_mem_zip hentry).2
    exact ⟨_, List.getElem?_eq_getElem (by rw [hlength path hpath]; exact hpick)⟩
  obtain ⟨nodes, hnodes⟩ := exists_mapM hsome
  refine ⟨nodes, hnodes, fun nodeId => ?_⟩
  have hentries : (chosen.zip picks).map (fun entry => entry.1[entry.2]?) =
      (sample.zip picks).map fun entry => collection[entry.1]?.bind (·[entry.2]?) := by
    have hzip : (chosen.map some).zip picks = (sample.map (collection[·]?)).zip picks := by rw [hchosen]
    rw [List.zip_map_left, List.zip_map_left] at hzip
    have hread := congrArg (List.map fun entry : Option Path × Nat => entry.1.bind (·[entry.2]?)) hzip
    rw [List.map_map, List.map_map] at hread
    exact hread
  rw [mem_iff_of_mapM hnodes, ← List.mem_map, hentries, List.mem_map]
  simp only [Prod.exists]

/-! ### Positions on the paths -/

section Paths

variable {N L : Nat} {paths : List Path}

theorem exists_chain (hperm : paths.Perm (pathsOf N L)) {i : Nat} {path : Path} (h : paths[i]? = some path) :
    ∃ j < N, path = chainPath ((N * L : Nat) : Int) ((N * L + 1 : Nat) : Int) (chainOf L j) := by
  obtain ⟨chain, hchain, rfl⟩ := List.mem_map.mp (hperm.subset (List.mem_of_getElem? h))
  obtain ⟨j, hj, rfl⟩ := List.mem_map.mp hchain
  exact ⟨j, List.mem_range.mp hj, rfl⟩

theorem length_of_perm (hperm : paths.Perm (pathsOf N L)) : paths.length = N := by
  rw [hperm.length_eq, pathsOf, chainsOf, List.length_map, List.length_map, List.length_range]

theorem getElem?_chainPath {s t : NodeId} {j h : Nat} (hh : h < L) :
    (chainPath s t (chainOf L j))[h + 1]? = some ((j * L + h : Nat) : Int) := by
  rw [chainPath, List.getElem?_cons_succ, List.getElem?_append_left (by simpa [chainOf] using hh), chainOf,
    List.getElem?_map, List.getElem?_range hh]
  rfl

/-- The positions of one path are the nodes of one chain. -/
theorem exists_forall_nodeAt (hperm : paths.Perm (pathsOf N L)) {i : Nat} (hi : i < N) :
    ∃ j < N, ∀ h < L, nodeAt paths i h = some ((j * L + h : Nat) : Int) := by
  obtain ⟨path, hget⟩ : ∃ path, paths[i]? = some path :=
    ⟨_, List.getElem?_eq_getElem (by rw [length_of_perm hperm]; exact hi)⟩
  obtain ⟨j, hj, rfl⟩ := exists_chain hperm hget
  refine ⟨j, hj, fun h hh => ?_⟩
  rw [nodeAt, hget, Option.bind_some, getElem?_chainPath hh]

theorem lt_of_nodeAt (hperm : paths.Perm (pathsOf N L)) {i h : Nat} {v : NodeId} (hv : nodeAt paths i h = some v) :
    i < N := by
  obtain ⟨path, hget, -⟩ := Option.bind_eq_some_iff.mp hv
  rw [← length_of_perm hperm]
  exact (List.getElem?_eq_some_iff.mp hget).1

/-- A node is at one position. -/
theorem nodeAt_inj (hL : 1 ≤ L) (hperm : paths.Perm (pathsOf N L)) {i i' h h' : Nat} (hh : h < L) (hh' : h' < L)
    {v : NodeId} (hv : nodeAt paths i h = some v) (hv' : nodeAt paths i' h' = some v) : i = i' ∧ h = h' := by
  obtain ⟨path, hget, hpath⟩ := Option.bind_eq_some_iff.mp hv
  obtain ⟨path', hget', hpath'⟩ := Option.bind_eq_some_iff.mp hv'
  obtain ⟨j, -, rfl⟩ := exists_chain hperm hget
  obtain ⟨j', -, rfl⟩ := exists_chain hperm hget'
  rw [getElem?_chainPath hh] at hpath
  rw [getElem?_chainPath hh', ← hpath, Option.some_inj, Nat.cast_inj] at hpath'
  obtain rfl : j' = j := chain_number_inj hh' hh hpath'
  have hnodup : paths.Nodup := hperm.nodup_iff.mpr
    ((parallelChains_chainsOf hL).nodup_of_disjointRoutes (parallelChains_chainsOf hL).disjointRoutes_chainPath)
  refine ⟨(List.getElem?_inj (List.getElem?_eq_some_iff.mp hget).1 hnodup).mp (hget.trans hget'.symm), by omega⟩

/-- The nodes between source and sink of the paths. -/
theorem interiors_get (hperm : paths.Perm (pathsOf N L)) {i h : Nat} (hh : h < L) :
    (paths.map Attacker.interior)[i]?.bind (·[h]?) = nodeAt paths i h := by
  rw [nodeAt, List.getElem?_map]
  cases hget : paths[i]? with
  | none => rfl
  | some path =>
      obtain ⟨j, -, rfl⟩ := exists_chain hperm hget
      rw [Option.map_some, Option.bind_some, Option.bind_some, interior_chainPath, getElem?_chainPath hh, chainOf,
        List.getElem?_map, List.getElem?_range hh]
      rfl

theorem length_interiors (hperm : paths.Perm (pathsOf N L)) :
    ∀ path ∈ paths.map Attacker.interior, path.length = L := by
  intro path hpath
  obtain ⟨whole, hwhole, rfl⟩ := List.mem_map.mp hpath
  obtain ⟨i, hget⟩ := List.mem_iff_getElem?.mp hwhole
  obtain ⟨j, -, rfl⟩ := exists_chain hperm hget
  rw [interior_chainPath, chainOf, List.length_map, List.length_range]

/-- The monitored nodes are on the paths, and between source and sink they are those at the watched positions. -/
structure Monitors (paths : List Path) (L : Nat) (watched : Nat → Nat → Prop) (nodes : Finset NodeId) : Prop where
  onPaths : ∀ v ∈ nodes, ∃ i h, h < L ∧ nodeAt paths i h = some v
  position : ∀ i h v, h < L → nodeAt paths i h = some v → (v ∈ nodes ↔ watched i h)

theorem monitors_empty : Monitors paths L (fun _ _ => False) ∅ where
  onPaths := fun v hv => absurd hv (Finset.notMem_empty v)
  position := fun _ _ v _ _ => iff_of_false (Finset.notMem_empty v) not_false

theorem Monitors.congr {watched watched' : Nat → Nat → Prop} {nodes : Finset NodeId}
    (h : Monitors paths L watched nodes) (hiff : ∀ i h, watched i h ↔ watched' i h) :
    Monitors paths L watched' nodes where
  onPaths := h.onPaths
  position := fun i j v hj hat => (h.position i j v hj hat).trans (hiff i j)

/-- Nodes given by the positions they are at. -/
theorem Monitors.of_positions (hL : 1 ≤ L) (hperm : paths.Perm (pathsOf N L)) {watched : Nat → Nat → Prop}
    {nodes : Finset NodeId}
    (hnodes : ∀ v, v ∈ nodes ↔ ∃ i h, h < L ∧ nodeAt paths i h = some v ∧ watched i h) :
    Monitors paths L watched nodes where
  onPaths := by
    intro v hv
    obtain ⟨i, h, hh, hat, -⟩ := (hnodes v).mp hv
    exact ⟨i, h, hh, hat⟩
  position := by
    intro i h v hh hat
    rw [hnodes]
    constructor
    · rintro ⟨i', h', hh', hat', hwatched⟩
      obtain ⟨rfl, rfl⟩ := nodeAt_inj hL hperm hh hh' hat hat'
      exact hwatched
    · exact fun hwatched => ⟨i, h, hh, hat, hwatched⟩

end Paths

/-! ### The classes with a period -/

/-- The second nodes of the paths, sorted. -/
def secondNodes (N L : Nat) : List NodeId := (List.range N).map fun j => ((j * L : Nat) : Int)

/-- The class fields after the first call. -/
def HopClass.ready (paths : List Path) (N L : Nat) : HopClass → AttackerClass
  | .randomNode => .randomNodeHopping (some (nodesBelow (N * L)))
  | .randomPath => .randomPathHopping (some (secondNodes N L))
  | .idealRandomPath => .idealRandomPathHopping (some (paths.map Attacker.interior))
  | .oneNodePerPath => .oneNodePerPath (some (paths.map Attacker.interior))

/-- The flow of the trial. -/
structure IsTarget (paths : List Path) (N L : Nat) (flow : PathHoppingFlow) : Prop where
  paths_eq : flow.paths = paths
  sourceNode_eq : flow.sourceNode = ((N * L : Nat) : Int)
  sinkNode_eq : flow.sinkNode = ((N * L + 1 : Nat) : Int)

section Collections

variable {N L : Nat} {paths : List Path}

theorem pairwise_nodesBelow (n : Nat) : (nodesBelow n).Pairwise (· ≤ ·) := by
  rw [nodesBelow, List.pairwise_map]
  exact List.pairwise_le_range.imp fun hle => Int.ofNat_le.mpr hle

theorem nodesBelow_succ (n : Nat) : nodesBelow (n + 1) = nodesBelow n ++ [(n : Int)] := by
  rw [nodesBelow, List.range_succ, List.map_append]
  rfl

theorem candidateNodes_eq {flows : Dict FlowId PathHoppingFlow} {flow : PathHoppingFlow}
    (hflow : flows.get? 0 = some flow) (htarget : IsTarget paths N L flow) :
    Attacker.candidateNodes (nodesBelow (N * L + 2)) flows none = some (nodesBelow (N * L)) := by
  have hfilter : (nodesBelow (N * L + 2)).filter (fun n => n ≠ flow.sourceNode ∧ n ≠ flow.sinkNode) =
      nodesBelow (N * L) := by
    rw [htarget.sourceNode_eq, htarget.sinkNode_eq, nodesBelow_succ, nodesBelow_succ, List.filter_append,
      List.filter_append, List.filter_eq_self.mpr]
    · simp
    · intro node hnode
      have hlt := (mem_nodesBelow.mp hnode).2
      exact decide_eq_true ⟨hlt.ne, (hlt.trans (Int.ofNat_lt.mpr (Nat.lt_succ_self _))).ne⟩
  rw [Attacker.candidateNodes, hflow]
  simp only [Option.bind_eq_bind, Option.bind_some, Option.pure_def, hfilter]
  rw [(pairwise_nodesBelow _).insertionSort_eq]

theorem pairwise_secondNodes (N L : Nat) : (secondNodes N L).Pairwise (· ≤ ·) := by
  rw [secondNodes, List.pairwise_map]
  exact List.pairwise_le_range.imp fun hle => Int.ofNat_le.mpr (Nat.mul_le_mul_right L hle)

theorem insertionSort_secondNodes (hL : 1 ≤ L) (hperm : paths.Perm (pathsOf N L)) :
    (paths.filterMap fun path => if path.length ≤ 2 then none else path[1]?).insertionSort (· ≤ ·) =
      secondNodes N L := by
  have hread : (pathsOf N L).filterMap (fun path => if path.length ≤ 2 then none else path[1]?) =
      secondNodes N L := by
    rw [pathsOf, chainsOf, List.map_map, List.filterMap_map, secondNodes, ← List.filterMap_eq_map]
    apply List.filterMap_congr
    intro j _
    have hlength : ¬(chainPath ((N * L : Nat) : Int) ((N * L + 1 : Nat) : Int) (chainOf L j)).length ≤ 2 := by
      rw [length_chainPath, chainOf, List.length_map, List.length_range]
      omega
    have hsecond := getElem?_chainPath (s := ((N * L : Nat) : Int)) (t := ((N * L + 1 : Nat) : Int)) (j := j)
      (show 0 < L from hL)
    simp only [Function.comp_apply, if_neg hlength]
    exact hsecond
  have hsort := (hperm.filterMap fun path => if path.length ≤ 2 then none else path[1]?)
  rw [hread] at hsort
  exact ((List.perm_insertionSort _ _).trans hsort).eq_of_pairwise' (List.pairwise_insertionSort _ _)
    (pairwise_secondNodes N L)

end Collections

namespace Attacker

/-- The selection of a class that tests the period, when the draw succeeds. -/
theorem hop_or_stay (ready : Attacker) (hp : 1 ≤ ready.hopPeriod) (time : Nat) {α : Type} {drawn : Option α} {a : α}
    (hdrawn : drawn = some a) (nodes : α → List NodeId) :
    ((ready.isHopTime time).bind fun isHop =>
        if isHop = true then drawn.bind fun a => some (ready.hopTo (nodes a)) else some ready) =
      some (if ready.hopPeriod ∣ time then ready.hopTo (nodes a) else ready) := by
  rw [isHopTime_eq hp, Option.bind_some, hdrawn]
  by_cases hdvd : ready.hopPeriod ∣ time
  · simp [hdvd]
  · simp [hdvd]

end Attacker

/-- What a call does to an attacker of the class, given its draws. -/
structure Turned (hopClass : HopClass) (paths : List Path) (N L : Nat) (draws : Draws) (time : Nat)
    (before after : Attacker) : Prop where
  cls_eq : after.cls = hopClass.ready paths N L
  sameTask : before.SameTask after
  hops : hopClass.HopsAt before.hopPeriod time →
    Monitors paths L (fun i h => hopClass.Watches paths L draws i h) after.monitoredNodes
  stays : ¬hopClass.HopsAt before.hopPeriod time → after.monitoredNodes = before.monitoredNodes

/-- The two outcomes of a call. -/
theorem Turned.of_ite {hopClass : HopClass} {paths : List Path} {N L : Nat} {draws : Draws} {time : Nat}
    {before : Attacker} {nodes : List NodeId}
    (hmonitors : Monitors paths L (fun i h => hopClass.Watches paths L draws i h) nodes.toFinset)
    {q : Prop} [Decidable q] (htest : hopClass.HopsAt before.hopPeriod time ↔ q) :
    Turned hopClass paths N L draws time before
      (if q then { before with cls := hopClass.ready paths N L }.hopTo nodes
        else { before with cls := hopClass.ready paths N L }) := by
  by_cases h : q
  · rw [if_pos h]
    exact ⟨rfl, ⟨rfl, rfl, rfl⟩, fun _ => hmonitors, fun hnot => absurd (htest.mpr h) hnot⟩
  · rw [if_neg h]
    exact ⟨rfl, ⟨rfl, rfl, rfl⟩, fun hhops => absurd (htest.mp hhops) h, fun _ => rfl⟩

section Select

variable {N L K : Nat} {paths : List Path} {flows : Dict FlowId PathHoppingFlow} {flow : PathHoppingFlow}
  {draws : Draws} {attacker : Attacker} {nodes : List NodeId}

theorem nodesBelow_get {n idx : Nat} (h : idx < n) : (nodesBelow n)[idx]? = some (idx : Int) := by
  rw [nodesBelow, List.getElem?_map, List.getElem?_range h]
  rfl

/-- The node with number `j` is at a position of a path. -/
theorem exists_position (hL : 1 ≤ L) (hperm : paths.Perm (pathsOf N L)) {j : Nat} (hj : j < N * L) :
    ∃ i h, h < L ∧ nodeAt paths i h = some (j : Int) := by
  have hchain : j / L < N := Nat.div_lt_of_lt_mul (by rwa [Nat.mul_comm])
  have hmem : chainPath ((N * L : Nat) : Int) ((N * L + 1 : Nat) : Int) (chainOf L (j / L)) ∈ paths :=
    hperm.mem_iff.mpr (List.mem_map_of_mem (List.mem_map_of_mem (List.mem_range.mpr hchain)))
  obtain ⟨i, hget⟩ := List.mem_iff_getElem?.mp hmem
  have hmod : j % L < L := Nat.mod_lt j hL
  refine ⟨i, j % L, hmod, ?_⟩
  rw [nodeAt, hget, Option.bind_some, getElem?_chainPath hmod, Nat.div_add_mod']

theorem select_randomNode (hL : 1 ≤ L) (hperm : paths.Perm (pathsOf N L)) (hK : attacker.K ≤ N * L)
    (hflow : flows.get? 0 = some flow) (htarget : IsTarget paths N L flow)
    (hdraws : draws.Distinct (N * L) attacker.K)
    (hcls : attacker.cls = .randomNodeHopping none ∧ nodes = nodesBelow (N * L + 2) ∨
      attacker.cls = HopClass.randomNode.ready paths N L) (hp : 1 ≤ attacker.hopPeriod) (time : Nat) :
    ∃ after, attacker.selectMonitoredNodes draws nodes flows time = some after ∧
      Turned .randomNode paths N L draws time attacker after := by
  obtain ⟨collection, hcls, hready⟩ : ∃ collection, attacker.cls = .randomNodeHopping collection ∧
      Attacker.candidateNodes nodes flows collection = some (nodesBelow (N * L)) := by
    rcases hcls with ⟨hcls, rfl⟩ | hcls
    · exact ⟨none, hcls, candidateNodes_eq hflow htarget⟩
    · exact ⟨some (nodesBelow (N * L)), hcls, rfl⟩
  have hlength : (nodesBelow (N * L)).length = N * L := by rw [nodesBelow, List.length_map, List.length_range]
  obtain ⟨chosen, hchosen, hmap⟩ := exists_choiceWithoutReplacement (hlength.symm ▸ hK)
    (fun idx hidx => hlength.symm ▸ hdraws.lt idx hidx)
  have hmonitors : Monitors paths L (fun i h => HopClass.randomNode.Watches paths L draws i h) chosen.toFinset := by
    apply Monitors.of_positions hL hperm
    intro v
    rw [List.mem_toFinset, mem_of_map_getElem? hmap]
    constructor
    · rintro ⟨j, hj, hget⟩
      rw [nodesBelow_get (hdraws.lt j hj), Option.some_inj] at hget
      subst hget
      obtain ⟨i, h, hh, hat⟩ := exists_position hL hperm (hdraws.lt j hj)
      exact ⟨i, h, hh, hat, j, hj, hat⟩
    · rintro ⟨i, h, -, hat, j, hj, hat'⟩
      refine ⟨j, hj, ?_⟩
      rw [nodesBelow_get (hdraws.lt j hj), ← hat', hat]
  refine ⟨_, ?_, Turned.of_ite hmonitors Iff.rfl⟩
  simp only [Attacker.selectMonitoredNodes, hcls, Attacker.selectRandomNodes, hready, Option.bind_eq_bind,
    Option.bind_some]
  exact Attacker.hop_or_stay { attacker with cls := HopClass.randomNode.ready paths N L } hp time hchosen id

theorem secondNodes_get {j : Nat} (hj : j < N) : (secondNodes N L)[j]? = some ((j * L : Nat) : Int) := by
  rw [secondNodes, List.getElem?_map, List.getElem?_range hj]
  rfl

theorem select_randomPath (hL : 1 ≤ L) (hperm : paths.Perm (pathsOf N L)) (hK : attacker.K ≤ N)
    (hflow : flows.get? 0 = some flow) (htarget : IsTarget paths N L flow) (hdraws : draws.Distinct N attacker.K)
    (hcls : attacker.cls = .randomPathHopping none ∨ attacker.cls = HopClass.randomPath.ready paths N L)
    (hp : 1 ≤ attacker.hopPeriod) (nodes : List NodeId) (time : Nat) :
    ∃ after, attacker.selectMonitoredNodes draws nodes flows time = some after ∧
      Turned .randomPath paths N L draws time attacker after := by
  obtain ⟨collection, hcls, hready⟩ : ∃ collection, attacker.cls = .randomPathHopping collection ∧
      (collection.getD (flow.paths.filterMap fun path => if path.length ≤ 2 then none else path[1]?)).insertionSort
        (· ≤ ·) = secondNodes N L := by
    rw [htarget.paths_eq]
    rcases hcls with hcls | hcls
    · exact ⟨none, hcls, insertionSort_secondNodes hL hperm⟩
    · exact ⟨some (secondNodes N L), hcls, (pairwise_secondNodes N L).insertionSort_eq⟩
  have hlength : (secondNodes N L).length = N := by rw [secondNodes, List.length_map, List.length_range]
  obtain ⟨chosen, hchosen, hmap⟩ := exists_choiceWithoutReplacement (hlength.symm ▸ hK)
    (fun idx hidx => hlength.symm ▸ hdraws.lt idx hidx)
  have hmonitors : Monitors paths L (fun i h => HopClass.randomPath.Watches paths L draws i h) chosen.toFinset := by
    apply Monitors.of_positions hL hperm
    intro v
    rw [List.mem_toFinset, mem_of_map_getElem? hmap]
    constructor
    · rintro ⟨j, hj, hget⟩
      have hlt := hdraws.lt j hj
      rw [secondNodes_get hlt, Option.some_inj] at hget
      subst hget
      obtain ⟨i, h, hh, hat⟩ := exists_position hL hperm (Nat.mul_lt_mul_of_pos_right hlt hL)
      obtain ⟨m, -, hm⟩ := exists_forall_nodeAt hperm (lt_of_nodeAt hperm hat)
      have hnumber := (hm h hh).symm.trans hat
      rw [Option.some_inj, Nat.cast_inj] at hnumber
      obtain rfl : m = j := chain_number_inj hh hL (hnumber.trans (Nat.add_zero _).symm)
      obtain rfl : h = 0 := by omega
      exact ⟨i, 0, hL, hat, rfl, m, hj, hat⟩
    · rintro ⟨i, h, -, hat, rfl, j, hj, hat'⟩
      refine ⟨j, hj, ?_⟩
      rw [secondNodes_get (hdraws.lt j hj), ← hat', hat]
  refine ⟨_, ?_, Turned.of_ite hmonitors Iff.rfl⟩
  simp only [Attacker.selectMonitoredNodes, hcls, Attacker.selectRandomPaths, hflow, hready, Option.bind_eq_bind,
    Option.bind_some]
  exact Attacker.hop_or_stay { attacker with cls := HopClass.randomPath.ready paths N L } hp time hchosen id

theorem interiors_getD {collection : Option (List Path)} (htarget : IsTarget paths N L flow)
    (h : collection = none ∨ collection = some (paths.map Attacker.interior)) :
    collection.getD (flow.paths.map Attacker.interior) = paths.map Attacker.interior := by
  rcases h with rfl | rfl
  · rw [htarget.paths_eq]
    rfl
  · rfl

theorem select_idealRandomPath (hL : 1 ≤ L) (hperm : paths.Perm (pathsOf N L)) (hK : attacker.K ≤ N)
    (hflow : flows.get? 0 = some flow) (htarget : IsTarget paths N L flow) (hdraws : draws.Distinct N attacker.K)
    (hcls : attacker.cls = .idealRandomPathHopping none ∨ attacker.cls = HopClass.idealRandomPath.ready paths N L)
    (hp : 1 ≤ attacker.hopPeriod) (nodes : List NodeId) (time : Nat) :
    ∃ after, attacker.selectMonitoredNodes draws nodes flows time = some after ∧
      Turned .idealRandomPath paths N L draws time attacker after := by
  obtain ⟨collection, hcls, hready⟩ : ∃ collection, attacker.cls = .idealRandomPathHopping collection ∧
      collection.getD (flow.paths.map Attacker.interior) = paths.map Attacker.interior := by
    rcases hcls with hcls | hcls
    · exact ⟨none, hcls, interiors_getD htarget (.inl rfl)⟩
    · exact ⟨_, hcls, interiors_getD htarget (.inr rfl)⟩
  have hlength : (paths.map Attacker.interior).length = N := by rw [List.length_map, length_of_perm hperm]
  obtain ⟨chosen, hchosen, hmap⟩ := exists_choiceWithoutReplacement (hlength.symm ▸ hK)
    (fun idx hidx => hlength.symm ▸ hdraws.lt idx hidx)
  have hmonitors : Monitors paths L (fun i h => HopClass.idealRandomPath.Watches paths L draws i h)
      chosen.flatten.toFinset := by
    apply Monitors.of_positions hL hperm
    intro v
    rw [List.mem_toFinset, List.mem_flatten]
    constructor
    · rintro ⟨path, hpath, hv⟩
      obtain ⟨i, hi, hget⟩ := (mem_of_map_getElem? hmap).mp hpath
      obtain ⟨h, hv⟩ := List.mem_iff_getElem?.mp hv
      have hh : h < L := by
        rw [← length_interiors hperm path (List.mem_of_getElem? hget)]
        exact (List.getElem?_eq_some_iff.mp hv).1
      refine ⟨i, h, hh, ?_, hi⟩
      rw [← interiors_get hperm hh, hget, Option.bind_some, hv]
    · rintro ⟨i, h, hh, hat, hi⟩
      rw [← interiors_get hperm hh] at hat
      obtain ⟨path, hget, hv⟩ := Option.bind_eq_some_iff.mp hat
      exact ⟨path, (mem_of_map_getElem? hmap).mpr ⟨i, hi, hget⟩, List.mem_of_getElem? hv⟩
  refine ⟨_, ?_, Turned.of_ite hmonitors Iff.rfl⟩
  simp only [Attacker.selectMonitoredNodes, hcls, Attacker.selectIdealRandomPaths, hflow, hready, Option.bind_eq_bind,
    Option.bind_some]
  exact Attacker.hop_or_stay { attacker with cls := HopClass.idealRandomPath.ready paths N L } hp time hchosen
    List.flatten

/-- One node on each of the drawn paths. -/
theorem exists_one_per_path {k : Nat} (hL : 1 ≤ L) (hperm : paths.Perm (pathsOf N L)) (hk : k ≤ N)
    (hdraws : draws.OnePerPath N k L) :
    ∃ chosen nodes, choiceWithoutReplacement (paths.map Attacker.interior) k draws.sample = some chosen ∧
      chooseOnePerPath chosen draws.picks = some nodes ∧
      Monitors paths L (fun i h => (i, h) ∈ draws.sample.zip draws.picks) nodes.toFinset := by
  have hlength : (paths.map Attacker.interior).length = N := by rw [List.length_map, length_of_perm hperm]
  obtain ⟨chosen, hchosen, hmap⟩ := exists_choiceWithoutReplacement (hlength.symm ▸ hk)
    (fun idx hidx => hlength.symm ▸ hdraws.lt idx hidx)
  obtain ⟨nodes, hnodes, hmem⟩ := exists_chooseOnePerPath (length_interiors hperm) hmap hdraws.picks_lt
  refine ⟨chosen, nodes, hchosen, hnodes, Monitors.of_positions hL hperm fun v => ?_⟩
  rw [List.mem_toFinset, hmem]
  constructor
  · rintro ⟨i, h, hdrawn, hat⟩
    have hh := hdraws.picks_lt h (List.of_mem_zip hdrawn).2
    rw [interiors_get hperm hh] at hat
    exact ⟨i, h, hh, hat, hdrawn⟩
  · rintro ⟨i, h, hh, hat, hdrawn⟩
    refine ⟨i, h, hdrawn, ?_⟩
    rw [interiors_get hperm hh, hat]

theorem select_oneNodePerPath (hL : 1 ≤ L) (hperm : paths.Perm (pathsOf N L)) (hK : attacker.K ≤ N)
    (hflow : flows.get? 0 = some flow) (htarget : IsTarget paths N L flow) (hdraws : draws.OnePerPath N attacker.K L)
    (hcls : attacker.cls = .oneNodePerPath none ∨ attacker.cls = HopClass.oneNodePerPath.ready paths N L)
    (nodes : List NodeId) (time : Nat) :
    ∃ after, attacker.selectMonitoredNodes draws nodes flows time = some after ∧
      Turned .oneNodePerPath paths N L draws time attacker after := by
  obtain ⟨collection, hcls, hready⟩ : ∃ collection, attacker.cls = .oneNodePerPath collection ∧
      collection.getD (flow.paths.map Attacker.interior) = paths.map Attacker.interior := by
    rcases hcls with hcls | hcls
    · exact ⟨none, hcls, interiors_getD htarget (.inl rfl)⟩
    · exact ⟨_, hcls, interiors_getD htarget (.inr rfl)⟩
  obtain ⟨chosen, drawn, hchosen, hdrawn, hmonitors⟩ := exists_one_per_path hL hperm hK hdraws
  refine ⟨_, ?_, Turned.of_ite (q := time &&& attacker.hopPeriod = 0) hmonitors Iff.rfl⟩
  simp only [Attacker.selectMonitoredNodes, hcls, Attacker.selectOneNodePerPath, hflow, hready, hchosen, hdrawn,
    Option.bind_eq_bind, Option.bind_some]
  exact (apply_ite some _ _ _).symm

/-- Every call of a class with a period succeeds, on the graph when the attacker is created and later anywhere. -/
theorem HopClass.select_spec (hopClass : HopClass) (hL : 1 ≤ L) (hperm : paths.Perm (pathsOf N L))
    (hK : attacker.K ≤ N) (hflow : flows.get? 0 = some flow) (htarget : IsTarget paths N L flow)
    (hdraws : hopClass.Documented draws N attacker.K L)
    (hcls : attacker.cls = hopClass.fresh ∧ nodes = nodesBelow (N * L + 2) ∨
      attacker.cls = hopClass.ready paths N L)
    (hp : 1 ≤ attacker.hopPeriod) (time : Nat) :
    ∃ after, attacker.selectMonitoredNodes draws nodes flows time = some after ∧
      Turned hopClass paths N L draws time attacker after := by
  have hclass := hcls.imp_left And.left
  cases hopClass with
  | randomNode =>
      have hnodes : attacker.K ≤ N * L := hK.trans (Nat.le_mul_of_pos_right N hL)
      exact select_randomNode hL hperm hnodes hflow htarget hdraws hcls hp time
  | randomPath => exact select_randomPath hL hperm hK hflow htarget hdraws hclass hp nodes time
  | idealRandomPath => exact select_idealRandomPath hL hperm hK hflow htarget hdraws hclass hp nodes time
  | oneNodePerPath => exact select_oneNodePerPath hL hperm hK hflow htarget hdraws hclass nodes time

end Select

/-! ### Turns -/

namespace Attacker

/-- `monitor` of a class that inherits `capture_shares` changes the captured shares only. -/
theorem exists_monitor_eq {attacker : Attacker} (h : attacker.InheritsCapture) (order : MonitorOrder)
    (nodes : Dict NodeId PathHoppingNode) (flows : Dict FlowId PathHoppingFlow)
    (hnodes : ∀ nodeId ∈ attacker.monitoredNodes, (nodes.get? nodeId).isSome) :
    ∃ shares, attacker.monitor order nodes flows = some { attacker with capturedShares := shares } := by
  have hloop : ∃ after, attacker.monitor order nodes flows = some after ∧
      ∃ shares, after = { attacker with capturedShares := shares } := by
    refine foldlM_total _ (order.monitored.list attacker.monitoredNodes) attacker
      (fun _ a => ∃ shares, a = { attacker with capturedShares := shares }) ⟨attacker.capturedShares, rfl⟩ ?_
    rintro done nodeId rest a hl ⟨shares, rfl⟩
    obtain ⟨node, hnode⟩ := Option.isSome_iff_exists.mp (hnodes nodeId (SetOrder.mem_of_split hl))
    have hinherits : InheritsCapture { attacker with capturedShares := shares } := h
    refine ⟨_, ?_, shares ++ node.vulnerableShares (order.resident nodeId), rfl⟩
    rw [hnode]
    exact captureShares_of_inherits hinherits (order.resident nodeId) flows node
  obtain ⟨after, hafter, shares, rfl⟩ := hloop
  exact ⟨shares, hafter⟩

end Attacker

section Turns

variable {N K L p : Nat} {paths : List Path}

/-- An attacker with a period, in step `t`. -/
structure HopperIn (paths : List Path) (N K L p : Nat) (hopClass : HopClass) (draws : Nat → Draws) (t : Nat)
    (attacker : Attacker) : Prop where
  cls_eq : attacker.cls = hopClass.ready paths N L
  K_eq : attacker.K = K
  hopPeriod_eq : attacker.hopPeriod = p
  monitors : Monitors paths L (fun i h => ∃ d ∈ inForce hopClass p draws t, hopClass.Watches paths L d i h)
    attacker.monitoredNodes

/-- The fixed attacker, at any time. -/
structure FixedIn (paths : List Path) (L : Nat) (draws : Draws) (attacker : Attacker) : Prop where
  cls_eq : ∃ collection, attacker.cls = .fixed (some collection)
  monitors : Monitors paths L (fun i h => (i, h) ∈ draws.sample.zip draws.picks) attacker.monitoredNodes

/-- The total attacker, at any time. -/
structure TotalIn (paths : List Path) (L : Nat) (attacker : Attacker) : Prop where
  cls_eq : attacker.cls = .total
  ne_empty : attacker.monitoredNodes ≠ ∅
  monitors : Monitors paths L (fun _ h => h = 0) attacker.monitoredNodes

/-- What the turn of an attacker finds on the moved network. -/
structure Network (paths : List Path) (N L t : Nat) (moved : PathHoppingSimulation) : Prop where
  ticks : moved.ticks = t + 1
  target : ∃ flow, moved.flows.get? 0 = some flow ∧ IsTarget paths N L flow
  nodes : ∀ path ∈ paths, ∀ nodeId ∈ path, ∃ node, moved.nodes.get? nodeId = some node ∧ node.nodeId = nodeId

theorem Monitors.isSome {watched : Nat → Nat → Prop} {nodes : Finset NodeId} (h : Monitors paths L watched nodes)
    {t : Nat} {moved : PathHoppingSimulation} (hnetwork : Network paths N L t moved) :
    ∀ nodeId ∈ nodes, (moved.nodes.get? nodeId).isSome := by
  intro nodeId hnode
  obtain ⟨i, k, -, hat⟩ := h.onPaths nodeId hnode
  obtain ⟨path, hget, hk⟩ := Option.bind_eq_some_iff.mp hat
  obtain ⟨node, hnode, -⟩ := hnetwork.nodes path (List.mem_of_getElem? hget) nodeId (List.mem_of_getElem? hk)
  rw [hnode]
  rfl

/-- The draws in force change when the attacker hops, and stay otherwise. -/
theorem HopperIn.of_turned {hopClass : HopClass} {draws : Nat → Draws} {t : Nat} {attacker after : Attacker}
    (h : HopperIn paths N K L p hopClass draws t attacker)
    (hturned : Turned hopClass paths N L (draws (t + 1)) (t + 1) attacker after) :
    HopperIn paths N K L p hopClass draws (t + 1) after where
  cls_eq := hturned.cls_eq
  K_eq := hturned.sameTask.K_eq.trans h.K_eq
  hopPeriod_eq := hturned.sameTask.hopPeriod_eq.trans h.hopPeriod_eq
  monitors := by
    by_cases htime : hopClass.HopsAt p (t + 1)
    · refine (hturned.hops (h.hopPeriod_eq ▸ htime)).congr fun i k => ?_
      simp [inForce, htime]
    · rw [hturned.stays (h.hopPeriod_eq ▸ htime)]
      refine h.monitors.congr fun i k => ?_
      rw [inForce, if_neg htime]

theorem TrialDraws.ofPosition_position (draws : TrialDraws) (time : Nat) (attacker : Attacker) (hopClass : HopClass) :
    draws.ofPosition time attacker hopClass.position = draws.hopping hopClass time := by
  cases hopClass <;> rfl

/-- The turn of an attacker that inherits `capture_shares`. -/
theorem exists_attackerTurn {attacker : Attacker} (hinherits : attacker.InheritsCapture) {t : Nat}
    {moved : PathHoppingSimulation} (hnetwork : Network paths N L t moved)
    (hnodes : ∀ nodeId ∈ attacker.monitoredNodes, (moved.nodes.get? nodeId).isSome) (order : StepOrder)
    (draws : TrialDraws) (idx : Nat) :
    ∃ shares, moved.attackerTurn order draws.select attacker idx =
      draws.select idx moved.nodes.keys moved.flows (t + 1) { attacker with capturedShares := shares } := by
  obtain ⟨shares, hmonitor⟩ :=
    Attacker.exists_monitor_eq hinherits (order.monitoring idx) moved.nodes moved.flows hnodes
  refine ⟨shares, ?_⟩
  rw [PathHoppingSimulation.attackerTurn, hmonitor, Option.bind_eq_bind, Option.bind_some, hnetwork.ticks]

theorem HopperIn.attackerTurn {hopClass : HopClass} {draws : TrialDraws} {t : Nat} {attacker : Attacker}
    (h : HopperIn paths N K L p hopClass (draws.hopping hopClass) t attacker) (hL : 1 ≤ L)
    (hperm : paths.Perm (pathsOf N L)) (hK : K ≤ N) (hp : 1 ≤ p)
    (hdraws : ∀ time, hopClass.Documented (draws.hopping hopClass time) N K L) {moved : PathHoppingSimulation}
    (hnetwork : Network paths N L t moved) (order : StepOrder) :
    ∃ after, moved.attackerTurn order draws.select attacker hopClass.position = some after ∧
      HopperIn paths N K L p hopClass (draws.hopping hopClass) (t + 1) after := by
  have hinherits : attacker.InheritsCapture := by
    intro activePaths monitoredPaths hopIndex hplanned
    rw [h.cls_eq] at hplanned
    cases hopClass <;> cases hplanned
  obtain ⟨shares, hturn⟩ := exists_attackerTurn hinherits hnetwork (h.monitors.isSome hnetwork) order draws
    hopClass.position
  obtain ⟨flow, hflow, htarget⟩ := hnetwork.target
  have hmonitored : HopperIn paths N K L p hopClass (draws.hopping hopClass) t
      { attacker with capturedShares := shares } := ⟨h.cls_eq, h.K_eq, h.hopPeriod_eq, h.monitors⟩
  obtain ⟨after, hafter, hturned⟩ := hopClass.select_spec hL hperm (hmonitored.K_eq.trans_le hK) hflow htarget
    (hmonitored.K_eq ▸ hdraws (t + 1)) (.inr hmonitored.cls_eq) (hmonitored.hopPeriod_eq ▸ hp) (t + 1)
  refine ⟨after, ?_, hmonitored.of_turned hturned⟩
  rw [hturn, TrialDraws.select, draws.ofPosition_position]
  exact hafter

theorem FixedIn.attackerTurn {draws : TrialDraws} {t : Nat} {attacker : Attacker}
    (h : FixedIn paths L draws.fixed attacker) {moved : PathHoppingSimulation} (hnetwork : Network paths N L t moved)
    (order : StepOrder) (idx : Nat) :
    ∃ after, moved.attackerTurn order draws.select attacker idx = some after ∧ FixedIn paths L draws.fixed after := by
  obtain ⟨collection, hcls⟩ := h.cls_eq
  have hinherits : attacker.InheritsCapture := fun _ _ _ hplanned => by
    rw [hcls] at hplanned
    cases hplanned
  obtain ⟨shares, hturn⟩ := exists_attackerTurn hinherits hnetwork (h.monitors.isSome hnetwork) order draws idx
  obtain ⟨flow, hflow, -⟩ := hnetwork.target
  refine ⟨{ attacker with capturedShares := shares }, ?_, ⟨collection, hcls⟩, h.monitors⟩
  rw [hturn, TrialDraws.select]
  simp only [Attacker.selectMonitoredNodes, hcls, Attacker.selectFixed, hflow, Option.bind_eq_bind, Option.bind_some]
  rfl

theorem TotalIn.attackerTurn {draws : TrialDraws} {t : Nat} {attacker : Attacker} (h : TotalIn paths L attacker)
    {moved : PathHoppingSimulation} (hnetwork : Network paths N L t moved) (order : StepOrder) (idx : Nat) :
    ∃ after, moved.attackerTurn order draws.select attacker idx = some after ∧ TotalIn paths L after := by
  have hinherits : attacker.InheritsCapture := fun _ _ _ hplanned => by
    rw [h.cls_eq] at hplanned
    cases hplanned
  obtain ⟨shares, hturn⟩ := exists_attackerTurn hinherits hnetwork (h.monitors.isSome hnetwork) order draws idx
  refine ⟨{ attacker with capturedShares := shares }, ?_, h.cls_eq, h.ne_empty, h.monitors⟩
  rw [hturn, TrialDraws.select]
  simp only [Attacker.selectMonitoredNodes, h.cls_eq, Attacker.selectTotal, if_neg h.ne_empty]
  rfl

end Turns

/-! ### Creating the attackers -/

section Creation

variable {N K L p : Nat} {paths : List Path} {flows : Dict FlowId PathHoppingFlow} {flow : PathHoppingFlow}

theorem create_hopper (hopClass : HopClass) (hL : 1 ≤ L) (hperm : paths.Perm (pathsOf N L)) (hK : K ≤ N) (hp : 1 ≤ p)
    (hflow : flows.get? 0 = some flow) (htarget : IsTarget paths N L flow) {draws : Nat → Draws}
    (hdraws : hopClass.Documented (draws 0) N K L) :
    ∃ created, Attacker.create (draws 0) N K (nodesBelow (N * L + 2)) flows p hopClass.fresh = some created ∧
      HopperIn paths N K L p hopClass draws 0 created := by
  obtain ⟨created, hcreated, hturned⟩ : ∃ created, (Attacker.new N K p hopClass.fresh).selectMonitoredNodes (draws 0)
      (nodesBelow (N * L + 2)) flows 1 = some created ∧
        Turned hopClass paths N L (draws 0) 1 (Attacker.new N K p hopClass.fresh) created :=
    hopClass.select_spec hL hperm hK hflow htarget hdraws (.inl ⟨rfl, rfl⟩) hp 1
  refine ⟨created, ?_, hturned.cls_eq, hturned.sameTask.K_eq, hturned.sameTask.hopPeriod_eq, ?_⟩
  · cases hopClass <;> exact hcreated
  · by_cases htime : hopClass.HopsAt p 1
    · refine (hturned.hops htime).congr fun i k => ?_
      simp [inForce, htime]
    · rw [hturned.stays htime]
      refine monitors_empty.congr fun i k => ?_
      simp [inForce, htime]

theorem create_fixed (hL : 1 ≤ L) (hperm : paths.Perm (pathsOf N L)) (hK : K ≤ N) (hflow : flows.get? 0 = some flow)
    (htarget : IsTarget paths N L flow) {draws : Draws} (hdraws : draws.OnePerPath N K L) (graphNodes : List NodeId) :
    ∃ created, Attacker.create draws N K graphNodes flows p (.fixed none) = some created ∧
      FixedIn paths L draws created := by
  obtain ⟨chosen, nodes, hchosen, hnodes, hmonitors⟩ := exists_one_per_path hL hperm hK hdraws
  refine ⟨{ Attacker.new N K p (.fixed (some (paths.map Attacker.interior))) with
    monitoredNodes := nodes.toFinset, hopCount := 1 }, ?_, ⟨_, rfl⟩, hmonitors⟩
  simp only [Attacker.create, Attacker.selectMonitoredNodes, Attacker.new, Attacker.selectFixed, hflow,
    htarget.paths_eq, hchosen, hnodes, Option.bind_eq_bind, Option.bind_some]
  rfl

theorem create_total (hN : 1 ≤ N) (hL : 1 ≤ L) (hperm : paths.Perm (pathsOf N L)) (hflow : flows.get? 0 = some flow)
    (htarget : IsTarget paths N L flow) (draws : Draws) (graphNodes : List NodeId) :
    ∃ created, Attacker.create draws N K graphNodes flows p .total = some created ∧ TotalIn paths L created := by
  have hsome : ∀ path ∈ paths, ∃ v, path[1]? = some v := by
    intro path hpath
    obtain ⟨i, hget⟩ := List.mem_iff_getElem?.mp hpath
    obtain ⟨j, -, rfl⟩ := exists_chain hperm hget
    exact ⟨_, getElem?_chainPath (show 0 < L from hL)⟩
  obtain ⟨nodes, hnodes⟩ := exists_mapM hsome
  have hmem : ∀ v, v ∈ nodes ↔ ∃ i, nodeAt paths i 0 = some v := by
    intro v
    rw [mem_iff_of_mapM hnodes]
    constructor
    · rintro ⟨path, hpath, hv⟩
      obtain ⟨i, hget⟩ := List.mem_iff_getElem?.mp hpath
      refine ⟨i, ?_⟩
      rw [nodeAt, hget, Option.bind_some, hv]
    · rintro ⟨i, hat⟩
      obtain ⟨path, hget, hv⟩ := Option.bind_eq_some_iff.mp hat
      exact ⟨path, List.mem_of_getElem? hget, hv⟩
  obtain ⟨m, -, hfirst⟩ := exists_forall_nodeAt hperm (show 0 < N from hN)
  refine ⟨{ Attacker.new N K p .total with monitoredNodes := nodes.toFinset }, ?_, rfl, ?_, ?_⟩
  · simp only [Attacker.create, Attacker.selectMonitoredNodes, Attacker.new, Attacker.selectTotal, hflow,
      htarget.paths_eq, hnodes, if_true, Option.bind_eq_bind, Option.bind_some]
    rfl
  · exact Finset.ne_empty_of_mem (List.mem_toFinset.mpr ((hmem _).mpr ⟨0, hfirst 0 hL⟩))
  · apply Monitors.of_positions hL hperm
    intro v
    rw [List.mem_toFinset, hmem]
    constructor
    · rintro ⟨i, hat⟩
      exact ⟨i, 0, hL, hat, rfl⟩
    · rintro ⟨i, h, -, hat, rfl⟩
      exact ⟨i, hat⟩

end Creation

/-! ### The trial as a scenario -/

namespace SimulationTrial

/-- The parameters with which a trial can be conducted. -/
structure Proper (trial : SimulationTrial) : Prop where
  K_pos : 1 ≤ trial.K
  K_le : trial.K ≤ trial.N
  pathLength_pos : 1 ≤ trial.pathLength
  period_pos : 1 ≤ trial.attackerHopPeriod

/-- What the flow of the trial is created from. -/
def setup (trial : SimulationTrial) (paths : List Path) : FlowSetup where
  flowId := 0
  sourceNode := ((trial.N * trial.pathLength : Nat) : Int)
  sinkNode := ((trial.N * trial.pathLength + 1 : Nat) : Int)
  paths := paths
  K := trial.K

section Scenario

variable {trial : SimulationTrial} {paths : List Path} {hops : Nat → List Nat}

theorem mem_nodesBelow_of_perm (hperm : paths.Perm (pathsOf trial.N trial.pathLength)) {path : Path}
    (hpath : path ∈ paths) {nodeId : NodeId} (hnode : nodeId ∈ path) :
    nodeId ∈ nodesBelow (trial.N * trial.pathLength + 2) := by
  obtain ⟨i, hget⟩ := List.mem_iff_getElem?.mp hpath
  obtain ⟨j, hj, rfl⟩ := exists_chain hperm hget
  rw [chainPath, List.mem_cons, List.mem_append, List.mem_singleton] at hnode
  rcases hnode with rfl | hchain | rfl
  · exact mem_nodesBelow.mpr ⟨Int.natCast_nonneg _, Int.ofNat_lt.mpr (by omega)⟩
  · have hmem : chainOf trial.pathLength j ∈ chainsOf trial.N trial.pathLength :=
      List.mem_map_of_mem (List.mem_range.mpr hj)
    obtain ⟨hnonneg, hlt⟩ := lt_of_mem_chainsOf hmem hchain
    exact mem_nodesBelow.mpr ⟨hnonneg, hlt.trans (Int.ofNat_lt.mpr (by omega))⟩
  · exact mem_nodesBelow.mpr ⟨Int.natCast_nonneg _, Int.ofNat_lt.mpr (by omega)⟩

theorem wellFormed_setup (h : trial.Proper) (hperm : paths.Perm (pathsOf trial.N trial.pathLength)) :
    (trial.setup paths).WellFormed (nodesBelow (trial.N * trial.pathLength + 2)) where
  nodup := by
    intro path hpath
    obtain ⟨chain, hchain, rfl⟩ := List.mem_map.mp (hperm.subset hpath)
    exact (parallelChains_chainsOf h.pathLength_pos).nodup_chainPath hchain
  head := by
    intro path hpath
    obtain ⟨chain, -, rfl⟩ := List.mem_map.mp (hperm.subset hpath)
    rfl
  last := by
    intro path hpath
    obtain ⟨chain, -, rfl⟩ := List.mem_map.mp (hperm.subset hpath)
    rw [chainPath, ← List.cons_append, List.getLast?_concat]
    rfl
  inGraph := fun path hpath nodeId hnode => mem_nodesBelow_of_perm hperm hpath hnode
  K_pos := h.K_pos
  K_le := h.K_le.trans_eq (length_of_perm hperm).symm

/-- The scenario of a trial. -/
def scenario (h : trial.Proper) (hperm : paths.Perm (pathsOf trial.N trial.pathLength))
    (hhops : ∀ t, (trial.setup paths).HopOutcome (hops t)) : Scenario where
  graphNodes := nodesBelow (trial.N * trial.pathLength + 2)
  graphNodes_nodup := List.nodup_range.map Nat.cast_injective
  setups := [trial.setup paths]
  flowIds_nodup := List.nodup_singleton _
  wellFormed := by
    intro setup hsetup
    rw [List.mem_singleton.mp hsetup]
    exact wellFormed_setup h hperm
  hops := fun _ => hops
  hops_valid := by
    intro setup hsetup t
    rw [List.mem_singleton.mp hsetup]
    exact hhops t

variable (h : trial.Proper) (hperm : paths.Perm (pathsOf trial.N trial.pathLength))
  (hhops : ∀ t, (trial.setup paths).HopOutcome (hops t))

theorem avoidsSentinel : (scenario h hperm hhops).AvoidsSentinel := by
  intro setup hsetup path hpath hmem
  rw [List.mem_singleton.mp hsetup] at hpath
  have hnonneg := (mem_nodesBelow.mp (mem_nodesBelow_of_perm hperm hpath (List.mem_of_mem_tail hmem))).1
  exact absurd hnonneg (by decide)

/-- Conducting the trial is creating the attackers and running the scenario. -/
theorem conductPathHoppingSimulation_eq (draws : TrialDraws) (order : Nat → StepOrder) :
    trial.conductPathHoppingSimulation paths hops draws order =
      (trial.createAttackers draws (nodesBelow (trial.N * trial.pathLength + 2))
        ((scenario h hperm hhops).start []).flows).bind fun attackers =>
          (scenario h hperm hhops).run attackers order draws.select trial.simDuration := by
  obtain ⟨G, hbuild, hnodes, -⟩ := buildNParallelGraph_spec (h.K_pos.trans h.K_le) h.pathLength_pos
  have hflow : PathHoppingFlow.createRandomFlow (nodesBelow (trial.N * trial.pathLength + 2)) paths trial.N trial.K
      (trial.N * trial.pathLength : Nat) (trial.N * trial.pathLength + 1 : Nat) 0 (hops 0) =
        some ((trial.setup paths).started (hops 0)) :=
    (wellFormed_setup h hperm).createRandomFlow_eq (length_of_perm hperm).ge (hops 0)
  rw [conductPathHoppingSimulation, hbuild]
  simp only [Option.bind_eq_bind, Option.bind_some, hnodes]
  rw [hflow, Option.bind_some]
  rfl

/-- The network on which the attackers take their turns. -/
theorem network_of_reaches {attackers : List Attacker} {order : Nat → StepOrder} {select : Nat → Select} {idx t : Nat}
    {moved : PathHoppingSimulation} {attacker : Attacker}
    (hreach : (scenario h hperm hhops).Reaches attackers order select idx t moved attacker) :
    Network paths trial.N trial.pathLength t moved := by
  obtain ⟨sim, hrun, hadvance, -⟩ := hreach
  have hsetup : trial.setup paths ∈ (scenario h hperm hhops).setups := List.mem_singleton.mpr rfl
  obtain ⟨moved', hadvance', hphase⟩ := (Scenario.Phase.of_run hrun).advance (order t)
  obtain rfl : moved' = moved := Option.some_inj.mp (hadvance'.symm.trans hadvance)
  obtain ⟨flow, hflow, hledger⟩ := hphase.ledger.entry _ hsetup
  exact ⟨Scenario.ticks_of_advance hrun hadvance,
    ⟨flow, hflow, hledger.paths_eq, hledger.sameSetup.2.1, hledger.sameSetup.2.2.1⟩,
    (Scenario.network_of_run hsetup hrun hadvance).2⟩

/-- What holds of the attacker at each position, in step `t`. -/
def Inv (trial : SimulationTrial) (paths : List Path) (draws : TrialDraws) (idx t : Nat) (attacker : Attacker) : Prop :=
  match idx with
  | 0 => HopperIn paths trial.N trial.K trial.pathLength trial.attackerHopPeriod .randomPath
      (draws.hopping .randomPath) t attacker
  | 1 => HopperIn paths trial.N trial.K trial.pathLength trial.attackerHopPeriod .randomNode
      (draws.hopping .randomNode) t attacker
  | 2 => HopperIn paths trial.N trial.K trial.pathLength trial.attackerHopPeriod .idealRandomPath
      (draws.hopping .idealRandomPath) t attacker
  | 3 => HopperIn paths trial.N trial.K trial.pathLength trial.attackerHopPeriod .oneNodePerPath
      (draws.hopping .oneNodePerPath) t attacker
  | 4 => FixedIn paths trial.pathLength draws.fixed attacker
  | 5 => ∃ plan, IsPlanned paths trial.N trial.K trial.attackerHopPeriod t attacker plan
  | _ => TotalIn paths trial.pathLength attacker

theorem inv_position_iff {draws : TrialDraws} {hopClass : HopClass} {t : Nat} {attacker : Attacker} :
    trial.Inv paths draws hopClass.position t attacker ↔
      HopperIn paths trial.N trial.K trial.pathLength trial.attackerHopPeriod hopClass (draws.hopping hopClass) t
        attacker := by
  cases hopClass <;> rfl

theorem three_le_length (hL : 1 ≤ trial.pathLength) (hperm : paths.Perm (pathsOf trial.N trial.pathLength)) :
    ∀ path ∈ paths, 3 ≤ path.length := by
  intro path hpath
  have hlength := (parallel_of_perm hL hperm).length_eq path hpath
  omega

/-- The planned attacker of the trial. -/
theorem plannedRun {draws : TrialDraws} (hdraws : draws.Documented trial paths) {attackers : List Attacker}
    (hpresent : ∀ created, Attacker.create (draws.planned 0 (Attacker.newPlanned trial.N trial.K
      trial.attackerHopPeriod)) trial.N trial.K (scenario h hperm hhops).graphNodes
      ((scenario h hperm hhops).start attackers).flows trial.attackerHopPeriod (.planned ∅ ∅ 1) = some created →
        attackers[5]? = some created) :
    Scenario.PlannedRun (scenario h hperm hhops) (trial.setup paths) trial.N trial.K trial.attackerHopPeriod
      draws.planned attackers 5 draws.select where
  setup_mem := List.mem_singleton.mpr rfl
  target := rfl
  three_le_length := three_le_length h.pathLength_pos hperm
  samples := hdraws.planned
  selects := fun _ _ _ _ => rfl
  present := hpresent

/-- The paths end together, so the planned attacker does not overrun one of them. -/
theorem endTogether (hL : 1 ≤ trial.pathLength) (hperm : paths.Perm (pathsOf trial.N trial.pathLength)) (p : Nat) :
    Scenario.EndTogether paths p := by
  intro count hended path hpath
  obtain ⟨path', hpath', hle⟩ := hended
  have hlength := (parallel_of_perm hL hperm).length_eq
  rw [hlength path hpath, ← hlength path' hpath']
  exact hle

theorem inv_turn {draws : TrialDraws} (hdraws : draws.Documented trial paths) {attackers : List Attacker}
    (hplanned : Scenario.PlannedRun (scenario h hperm hhops) (trial.setup paths) trial.N trial.K
      trial.attackerHopPeriod draws.planned attackers 5 draws.select) (order : Nat → StepOrder) (idx t : Nat)
    (moved : PathHoppingSimulation) (attacker : Attacker)
    (hreach : (scenario h hperm hhops).Reaches attackers order draws.select idx t moved attacker)
    (hinv : trial.Inv paths draws idx t attacker) :
    ∃ after, moved.attackerTurn (order t) draws.select attacker idx = some after ∧
      trial.Inv paths draws idx (t + 1) after := by
  have hnetwork := network_of_reaches h hperm hhops hreach
  have hhopper : ∀ hopClass : HopClass, hopClass.position = idx →
      ∃ after, moved.attackerTurn (order t) draws.select attacker idx = some after ∧
        trial.Inv paths draws idx (t + 1) after := by
    rintro hopClass rfl
    obtain ⟨after, hafter, hnext⟩ := (inv_position_iff.mp hinv).attackerTurn h.pathLength_pos hperm h.K_le h.period_pos
      (hdraws.hopping hopClass) hnetwork (order t)
    exact ⟨after, hafter, inv_position_iff.mpr hnext⟩
  match idx with
  | 0 => exact hhopper .randomPath rfl
  | 1 => exact hhopper .randomNode rfl
  | 2 => exact hhopper .idealRandomPath rfl
  | 3 => exact hhopper .oneNodePerPath rfl
  | 4 => exact FixedIn.attackerTurn hinv hnetwork (order t) 4
  | 5 =>
      obtain ⟨plan, hplan⟩ := hinv
      obtain ⟨sim, hrun, hadvance, -⟩ := hreach
      obtain ⟨hsome, hturn⟩ := hplanned.turn_spec h.period_pos hrun hadvance hplan
      have hfits := Scenario.turnFits_of_endTogether (endTogether h.pathLength_pos hperm _) hplan
      obtain ⟨after, hafter⟩ := Option.isSome_iff_exists.mp (hsome.mpr hfits)
      exact ⟨after, hafter, hplan.of_turn (hturn after hafter)⟩
  | _ + 6 => exact TotalIn.attackerTurn hinv hnetwork (order t) _

/-- The attacker of each class can be created. -/
theorem exists_create {draws : TrialDraws} (hdraws : draws.Documented trial paths) :
    ∀ entry ∈ attackerClasses.zipIdx, ∃ created,
      Attacker.create (draws.ofPosition 0 (Attacker.new trial.N trial.K trial.attackerHopPeriod entry.1) entry.2)
          trial.N trial.K (nodesBelow (trial.N * trial.pathLength + 2)) ((scenario h hperm hhops).start []).flows
          trial.attackerHopPeriod entry.1 = some created ∧
        trial.Inv paths draws entry.2 0 created := by
  have hflow : ((scenario h hperm hhops).start []).flows.get? 0 = some ((trial.setup paths).started (hops 0)) :=
    Scenario.get?_flows_start.mpr ⟨trial.setup paths, List.mem_singleton.mpr rfl, rfl, rfl⟩
  have htarget : IsTarget paths trial.N trial.pathLength ((trial.setup paths).started (hops 0)) := ⟨rfl, rfl, rfl⟩
  have hhopper : ∀ hopClass : HopClass, ∃ created,
      Attacker.create (draws.hopping hopClass 0) trial.N trial.K (nodesBelow (trial.N * trial.pathLength + 2))
          ((scenario h hperm hhops).start []).flows trial.attackerHopPeriod hopClass.fresh = some created ∧
        HopperIn paths trial.N trial.K trial.pathLength trial.attackerHopPeriod hopClass (draws.hopping hopClass) 0
          created := fun hopClass =>
    create_hopper hopClass h.pathLength_pos hperm h.K_le h.period_pos hflow htarget (hdraws.hopping hopClass 0)
  have hne : paths ≠ [] := by
    apply List.ne_nil_of_length_pos
    rw [length_of_perm hperm]
    exact h.K_pos.trans h.K_le
  obtain ⟨hsome, hspec⟩ := create_planned_spec (three_le_length h.pathLength_pos hperm) hne hflow rfl
    hdraws.planned (nodesBelow (trial.N * trial.pathLength + 2))
  intro entry hentry
  simp only [attackerClasses, List.zipIdx_cons, List.zipIdx_nil, List.mem_cons, List.not_mem_nil, or_false] at hentry
  rcases hentry with rfl | rfl | rfl | rfl | rfl | rfl | rfl
  · exact hhopper .randomPath
  · exact hhopper .randomNode
  · exact hhopper .idealRandomPath
  · exact hhopper .oneNodePerPath
  · exact create_fixed h.pathLength_pos hperm h.K_le hflow htarget hdraws.fixed _
  · obtain ⟨created, hcreated⟩ := Option.isSome_iff_exists.mp (hsome.mpr h.period_pos)
    obtain ⟨htask, hchosen⟩ := hspec created hcreated
    exact ⟨created, hcreated, _, IsPlanned.of_creation htask hchosen⟩
  · exact create_total (h.K_pos.trans h.K_le) h.pathLength_pos hperm hflow htarget _ _

/-- The attackers of the trial can be created, and have captured nothing. -/
theorem exists_createAttackers {draws : TrialDraws} (hdraws : draws.Documented trial paths) :
    ∃ attackers, trial.createAttackers draws (nodesBelow (trial.N * trial.pathLength + 2))
        ((scenario h hperm hhops).start []).flows = some attackers ∧ attackers.length = 7 ∧
      (∀ idx attacker, attackers[idx]? = some attacker →
        trial.Inv paths draws idx 0 attacker ∧ attacker.capturedShares = [] ∧ attacker.K = trial.K) ∧
      Scenario.PlannedRun (scenario h hperm hhops) (trial.setup paths) trial.N trial.K trial.attackerHopPeriod
        draws.planned attackers 5 draws.select := by
  have hcreated := exists_create h hperm hhops hdraws
  obtain ⟨attackers, hattackers⟩ := exists_mapM fun entry hentry => (hcreated entry hentry).imp fun _ => And.left
  have hget : ∀ idx, attackers[idx]? = attackerClasses.zipIdx[idx]?.bind fun entry : AttackerClass × Nat =>
      Attacker.create (draws.ofPosition 0 (Attacker.new trial.N trial.K trial.attackerHopPeriod entry.1) entry.2)
        trial.N trial.K (nodesBelow (trial.N * trial.pathLength + 2)) ((scenario h hperm hhops).start []).flows
        trial.attackerHopPeriod entry.1 := fun idx => getElem?_of_mapM hattackers idx
  refine ⟨attackers, hattackers, length_of_mapM hattackers, fun idx attacker hattacker => ?_, ?_⟩
  · rw [hget] at hattacker
    obtain ⟨⟨cls, idx'⟩, hentry, hcreate⟩ := Option.bind_eq_some_iff.mp hattacker
    obtain ⟨created, hcreate', hinv⟩ := hcreated _ (List.mem_of_getElem? hentry)
    obtain rfl : created = attacker := Option.some_inj.mp (hcreate'.symm.trans hcreate)
    obtain rfl : idx' = idx := by
      rw [List.getElem?_zipIdx, Option.map_eq_some_iff] at hentry
      obtain ⟨cls', -, heq⟩ := hentry
      have hidx : 0 + idx = idx' := (Prod.ext_iff.mp heq).2
      omega
    obtain ⟨hshares, hK⟩ := Attacker.keepsCaptures_selectMonitoredNodes (fun _ _ => draws.ofPosition 0
      (Attacker.new trial.N trial.K trial.attackerHopPeriod cls) idx') 0 _ _ _ _ _ hcreate
    exact ⟨hinv, hshares, hK⟩
  · refine plannedRun h hperm hhops hdraws fun created hcreate => ?_
    rw [hget]
    exact hcreate

/-- A share passes the `h`-th node of its path in step `s + h`. -/
theorem exposed_iff (hperm : paths.Perm (pathsOf trial.N trial.pathLength)) {monitored : Nat → Finset NodeId}
    {watched : Nat → Nat → Nat → Prop} {n s i : Nat} (hs : s < n)
    (hmonitors : ∀ t < n, Monitors paths trial.pathLength (watched t) (monitored t)) {path : Path}
    (hget : paths[i]? = some path) :
    Scenario.Exposed monitored n s path ↔ ∃ j < trial.pathLength, s + j < n ∧ watched (s + j) i j := by
  have hlength : path.length - 2 = trial.pathLength := by
    obtain ⟨j, -, rfl⟩ := exists_chain hperm hget
    rw [length_chainPath, chainOf, List.length_map, List.length_range]
    rfl
  constructor
  · rintro ⟨k, hone, hle, htime, v, hv, hk⟩
    obtain ⟨j, rfl⟩ : ∃ j, k = j + 1 := ⟨k - 1, by omega⟩
    have hstep : s + (j + 1) - 1 = s + j := by omega
    rw [hstep] at hv htime
    have hj : j < trial.pathLength := by omega
    have hlt : s + j < n := by omega
    refine ⟨j, hj, hlt, ((hmonitors (s + j) hlt).position i j v hj ?_).mp hv⟩
    rw [nodeAt, hget, Option.bind_some, hk]
  · rintro ⟨j, hj, hlt, hwatched⟩
    obtain ⟨m, -, rfl⟩ := exists_chain hperm hget
    have hk := getElem?_chainPath (s := ((trial.N * trial.pathLength : Nat) : Int))
      (t := ((trial.N * trial.pathLength + 1 : Nat) : Int)) (j := m) hj
    have hat : nodeAt paths i j = some ((m * trial.pathLength + j : Nat) : Int) := by
      rw [nodeAt, hget, Option.bind_some, hk]
    have hv := ((hmonitors (s + j) hlt).position i j _ hj hat).mpr hwatched
    have hstep : s + (j + 1) - 1 = s + j := by omega
    exact ⟨j + 1, by omega, by omega, by omega, _, hstep.symm ▸ hv, hk⟩

include h hperm hhops in
/-- The trial runs to its end, and an attacker whose invariant gives the positions that it watches recovers the messages
that pass them. -/
theorem exists_conducted {draws : TrialDraws} (hdraws : draws.Documented trial paths) (order : Nat → StepOrder) :
    ∃ simulation, trial.conductPathHoppingSimulation paths hops draws order = some simulation ∧
      simulation.attackers.length = 7 ∧
      ∀ idx final, simulation.attackers[idx]? = some final →
        (∀ s ∈ final.reconstructCapturedMessages, s < trial.simDuration) ∧
        ∀ watched : Nat → Nat → Nat → Prop,
          (∀ t attacker, trial.Inv paths draws idx t attacker →
            Monitors paths trial.pathLength (watched t) attacker.monitoredNodes) →
          ∀ s, s ∈ final.reconstructCapturedMessages ↔
            RecoveredWithin hops trial.pathLength trial.simDuration watched s := by
  obtain ⟨attackers, hcreate, hlength, hcreated, hplanned⟩ := exists_createAttackers h hperm hhops hdraws
  have hruns := fun n => Scenario.exists_run_of_turns
    (fun idx attacker hget => (hcreated idx attacker hget).1) (inv_turn h hperm hhops hdraws hplanned order) n
  obtain ⟨simulation, hrun, -⟩ := hruns trial.simDuration
  refine ⟨simulation, ?_, (Scenario.length_attackers_of_run hrun).trans hlength, fun idx final hfinal => ?_⟩
  · rw [conductPathHoppingSimulation_eq h hperm hhops, hcreate, Option.bind_some, hrun]
  have hidx : idx < attackers.length := by
    rw [← Scenario.length_attackers_of_run hrun]
    exact (List.getElem?_eq_some_iff.mp hfinal).1
  have hattacker := List.getElem?_eq_getElem hidx
  obtain ⟨-, hfresh, hK⟩ := hcreated idx _ hattacker
  have hselect : Attacker.KeepsCaptures draws.select := fun idx nodes flows time attacker attacker' hselected =>
    Attacker.keepsCaptures_selectMonitoredNodes (fun _ _ => draws.ofPosition time attacker idx) idx nodes flows time
      attacker attacker' hselected
  obtain ⟨final', hfinal', hmem⟩ := Scenario.mem_reconstruct_of_run (avoidsSentinel h hperm hhops) rfl hselect hattacker
    hfresh hK hrun fun _ _ => rfl
  obtain rfl : final' = final := Option.some_inj.mp (hfinal'.symm.trans hfinal)
  refine ⟨fun s hs => ((hmem s).mp hs).1, fun watched hwatched s => ?_⟩
  have hmonitors : ∀ t < trial.simDuration, Monitors paths trial.pathLength (watched t)
      ((scenario h hperm hhops).monitoredIn attackers order draws.select idx t) := by
    intro t _
    obtain ⟨sim, hsim, hinv⟩ := hruns t
    have hlt : idx < sim.attackers.length := by
      rw [Scenario.length_attackers_of_run hsim]
      exact hidx
    rw [Scenario.monitoredIn_eq hsim (List.getElem?_eq_getElem hlt)]
    exact hwatched t _ (hinv idx _ (List.getElem?_eq_getElem hlt))
  rw [hmem, RecoveredWithin]
  refine and_congr_right fun hs => ?_
  constructor
  · intro hall i hi
    have hlt : i < paths.length := (hhops s).lt i hi
    have hget := List.getElem?_eq_getElem hlt
    exact (exposed_iff hperm hs hmonitors hget).mp (hall _ (List.mem_filterMap.mpr ⟨i, hi, hget⟩))
  · intro hall path hpath
    obtain ⟨i, hi, hget⟩ := List.mem_filterMap.mp hpath
    exact (exposed_iff hperm hs hmonitors hget).mpr (hall i hi)

end Scenario

/-! ### Results -/

/-- The paths that are found and the draws are as `node_disjoint_paths` and `np.random.choice` document them. A trial
that raises draws nothing after that. -/
structure Documented (trial : SimulationTrial) (disjointPaths : List Path) (hops : Nat → List Nat)
    (draws : TrialDraws) : Prop where
  found : ∀ G sourceId sinkId, buildNParallelGraph trial.N trial.pathLength = some (G, sourceId, sinkId) →
    sourceId ∈ G.nodes → sinkId ∈ G.nodes →
      MaximumDisjointRoutes (fun u v => (u, v) ∈ G.arcs) sourceId sinkId disjointPaths
  hops : trial.Proper → ∀ t, (trial.setup disjointPaths).HopOutcome (hops t)
  draws : trial.Proper → draws.Documented trial disjointPaths

variable {trial : SimulationTrial} {disjointPaths : List Path} {hops : Nat → List Nat} {draws : TrialDraws}

theorem Documented.perm (h : trial.Documented disjointPaths hops draws) (hN : 1 ≤ trial.N)
    (hL : 1 ≤ trial.pathLength) : disjointPaths.Perm (pathsOf trial.N trial.pathLength) := by
  obtain ⟨G, hbuild, hnodes, hlinks⟩ := buildNParallelGraph_spec hN hL
  have hmaximum := h.found G _ _ hbuild (by rw [hnodes]; exact mem_nodesBelow.mpr (by omega))
    (by rw [hnodes]; exact mem_nodesBelow.mpr (by omega))
  rw [hlinks] at hmaximum
  exact (parallelChains_chainsOf hL).perm_of_maximum hmaximum

/-- Two paths of one node each, one share per message. -/
def twoPathTrial : SimulationTrial := ⟨2, 1, 1, 1, 3⟩

/-- Every class draws its first choice in every call. -/
def firstChoices : TrialDraws :=
  ⟨fun _ _ => ⟨[0], [0], StepOrder.byIdentifier.nodes⟩, ⟨[0], [0], StepOrder.byIdentifier.nodes⟩, Scenario.firstNodes⟩

theorem distinct_firstChoice {population : Nat} (h : 0 < population) :
    Draws.Distinct ⟨[0], [0], StepOrder.byIdentifier.nodes⟩ population 1 :=
  ⟨rfl, List.nodup_singleton 0, fun idx hidx => by rw [List.mem_singleton.mp hidx]; exact h⟩

theorem onePerPath_firstChoice : Draws.OnePerPath ⟨[0], [0], StepOrder.byIdentifier.nodes⟩ 2 1 1 :=
  ⟨distinct_firstChoice Nat.two_pos, rfl, fun pick hpick => by rw [List.mem_singleton.mp hpick]; exact Nat.one_pos⟩

/-- The flow sends on its two paths in turn. -/
theorem documented_twoPathTrial :
    twoPathTrial.Documented [[2, 0, 3], [2, 1, 3]] (fun t => [t % 2]) firstChoices where
  found := by
    intro G sourceId sinkId hbuild _ _
    obtain ⟨G', hbuild', -, hlinks⟩ := buildNParallelGraph_spec (N := 2) (L := 1) (by decide) (by decide)
    obtain ⟨rfl, hends⟩ := Prod.mk.inj (Option.some.inj (hbuild'.symm.trans hbuild))
    obtain ⟨rfl, rfl⟩ := Prod.mk.inj hends
    have hchains : ParallelChains (2 : Int) 3 (chainsOf 2 1) := parallelChains_chainsOf (N := 2) (L := 1) (by decide)
    exact hlinks ▸ hchains.maximum_chainPath
  hops := fun _ t => ⟨rfl, List.nodup_singleton _, fun pathIdx hidx => by
    rw [List.mem_singleton.mp hidx]
    exact Nat.mod_lt t Nat.two_pos⟩
  draws := fun _ => ⟨fun hopClass _ => by
      cases hopClass with
      | oneNodePerPath => exact onePerPath_firstChoice
      | _ => exact distinct_firstChoice Nat.two_pos, onePerPath_firstChoice, Scenario.samplesPlan_firstNodes _⟩

theorem getElem?_addedParameters {simulation : PathHoppingSimulation} {idx : Nat} {name : String} {final : Attacker}
    (hname : recoveredParameters[idx]? = some name) (hfinal : simulation.attackers[idx]? = some final) :
    (addedParameters simulation)[idx]? = some (name, final.reconstructCapturedMessages) := by
  rw [addedParameters, List.getElem?_zip_eq_some]
  refine ⟨hname, ?_⟩
  rw [List.getElem?_map, hfinal]
  rfl

/-- The parameters that are added to the trial list, for each attacker but the planned one, exactly the messages whose
shares all pass a position that was among the ones it had drawn last; the total attacker recovers every message. -/
theorem simulation_results (trial : SimulationTrial) (disjointPaths : List Path) (hops : Nat → List Nat)
    (draws : TrialDraws) (order : Nat → StepOrder) (h : trial.Proper)
    (hdocumented : trial.Documented disjointPaths hops draws) :
    ∃ simulation, trial.conductPathHoppingSimulation disjointPaths hops draws order = some simulation ∧
      (∀ hopClass : HopClass, ∃ messages,
        (addedParameters simulation)[hopClass.position]? = some (hopClass.parameterName, messages) ∧
        messages.Pairwise (· < ·) ∧ ∀ s, s ∈ messages ↔
          RecoveredWithin hops trial.pathLength trial.simDuration (fun t i j =>
            ∃ d ∈ inForce hopClass trial.attackerHopPeriod (draws.hopping hopClass) t,
              hopClass.Watches disjointPaths trial.pathLength d i j) s) ∧
      (∃ messages, (addedParameters simulation)[4]? = some ("fixed-attacker-recovered-messages", messages) ∧
        messages.Pairwise (· < ·) ∧ ∀ s, s ∈ messages ↔
          RecoveredWithin hops trial.pathLength trial.simDuration (fun _ i j =>
            (i, j) ∈ draws.fixed.sample.zip draws.fixed.picks) s) ∧
      (∃ messages, (addedParameters simulation)[5]? = some ("planned-attacker-recovered-messages", messages) ∧
        messages.Pairwise (· < ·) ∧ ∀ s ∈ messages, s < trial.simDuration) ∧
      ∃ total, simulation.attackers[6]? = some total ∧
        total.reconstructCapturedMessages = List.range trial.simDuration := by
  have hperm := hdocumented.perm (h.K_pos.trans h.K_le) h.pathLength_pos
  obtain ⟨simulation, hconduct, hlength, hresults⟩ :=
    exists_conducted h hperm (hdocumented.hops h) (hdocumented.draws h) order
  have hget : ∀ idx, idx < 7 → ∃ final, simulation.attackers[idx]? = some final :=
    fun idx hidx => ⟨_, List.getElem?_eq_getElem (hlength.symm ▸ hidx)⟩
  refine ⟨simulation, hconduct, fun hopClass => ?_, ?_, ?_, ?_⟩
  · obtain ⟨final, hfinal⟩ := hget hopClass.position (by cases hopClass <;> decide)
    refine ⟨_, getElem?_addedParameters (by cases hopClass <;> rfl) hfinal,
      final.pairwise_reconstructCapturedMessages, (hresults _ final hfinal).2 _ fun t attacker hinv => ?_⟩
    exact (inv_position_iff.mp hinv).monitors
  · obtain ⟨final, hfinal⟩ := hget 4 (by decide)
    refine ⟨_, getElem?_addedParameters rfl hfinal, final.pairwise_reconstructCapturedMessages,
      (hresults 4 final hfinal).2 _ fun t attacker hinv => ?_⟩
    exact FixedIn.monitors hinv
  · obtain ⟨final, hfinal⟩ := hget 5 (by decide)
    exact ⟨_, getElem?_addedParameters rfl hfinal, final.pairwise_reconstructCapturedMessages,
      (hresults 5 final hfinal).1⟩
  · obtain ⟨total, htotal⟩ := hget 6 (by decide)
    refine ⟨total, htotal, ?_⟩
    have hmem := (hresults 6 total htotal).2 (fun _ _ j => j = 0) fun t attacker hinv => TotalIn.monitors hinv
    have hsame : ∀ s, s ∈ total.reconstructCapturedMessages ↔ s ∈ List.range trial.simDuration := by
      intro s
      rw [hmem, List.mem_range, RecoveredWithin]
      exact ⟨fun hs => hs.1, fun hs => ⟨hs, fun i _ => ⟨0, h.pathLength_pos, hs, rfl⟩⟩⟩
    have hsorted := total.pairwise_reconstructCapturedMessages
    have hnodup : total.reconstructCapturedMessages.Nodup := hsorted.imp fun hlt => hlt.ne
    exact ((List.perm_ext_iff_of_nodup hnodup List.nodup_range).mpr hsame).eq_of_pairwise'
      (hsorted.imp fun hlt => hlt.le) (List.pairwise_lt_range.imp fun hlt => hlt.le)

/-- The fixed attacker watches the node of the first path, and gets every other message. -/
theorem simulation_results_twoPaths : ∃ simulation messages,
    twoPathTrial.conductPathHoppingSimulation [[2, 0, 3], [2, 1, 3]] (fun t => [t % 2]) firstChoices
      (fun _ => .byIdentifier) = some simulation ∧
    (addedParameters simulation)[4]? = some ("fixed-attacker-recovered-messages", messages) ∧
    ∀ s, s ∈ messages ↔ s < 3 ∧ s % 2 = 0 := by
  have hproper : twoPathTrial.Proper := ⟨by decide, by decide, by decide, by decide⟩
  obtain ⟨simulation, hconduct, -, ⟨messages, hadded, -, hmem⟩, -⟩ :=
    simulation_results twoPathTrial _ _ _ (fun _ => .byIdentifier) hproper documented_twoPathTrial
  refine ⟨simulation, messages, hconduct, hadded, fun s => (hmem s).trans (and_congr_right fun hs => ?_)⟩
  constructor
  · intro hall
    obtain ⟨j, -, -, hwatched⟩ := hall (s % 2) List.mem_cons_self
    exact (Prod.mk.inj (List.mem_singleton.mp hwatched)).1
  · intro heven i hi
    obtain rfl : i = 0 := (List.mem_singleton.mp hi).trans heven
    exact ⟨0, Nat.one_pos, hs, List.mem_cons_self⟩

end SimulationTrial

end OfTestbed.Simulator
