import OfTestbed.LibText
import OfTestbed.FlowAllocationAllocators
import OfTestbed.FlowAllocationKPaths

/-!
The allocators that work with a solver: `compute_ilp_flows` and `compute_path_hopping_flows_ilp`. Flows are drawn and
admitted as long as the path allocation model for all of them has a solution; the splitting ratios and the utilization
of the links are then read off the variables of the last solution, by their names. The solver is a parameter: it
answers with the values of the variables, or that there is no solution. The variables are in the order of their
creation.
-/

namespace OfTestbed.FlowAllocation

open Lib

/-! ### Names of variables -/

def bracketed (family : Char) (indices : Text) : Text := family :: '\x7b' :: indices ++ ['\x7d']

def KPathsVar.varName : KPathsVar → Text
  | .X flowIndex pathIndex => bracketed 'X' (formatD flowIndex ++ ',' :: formatD pathIndex)
  | .Y flowIndex linkIndex => bracketed 'Y' (formatD flowIndex ++ ',' :: formatD linkIndex)
  | .T flowIndex linkIndex => bracketed 'T' (formatD flowIndex ++ ',' :: ' ' :: formatD linkIndex)
  | .alpha => "alpha".toList
  | .U linkIndex => bracketed 'U' (formatD linkIndex)
  | .K linkIndex => bracketed 'K' (formatD linkIndex)

inductive VariableIndex where
  | tuple (indices : List Int)
  | single (index : Int)
  deriving DecidableEq

/-- `variable_name_to_index_tuple`; a name of another family gives `None`. -/
def variableNameToIndexTuple (variableName : Text) : Option (Option VariableIndex) :=
  let indices := (variableName.drop 2).dropLast
  if 'X' ∈ variableName then do return some (.tuple (← (indices.splitOn ',').mapM int))
  else if 'Y' ∈ variableName then do return some (.tuple (← (indices.splitOn ',').mapM int))
  else if 'U' ∈ variableName then do return some (.single (← int indices))
  else if 'K' ∈ variableName then do return some (.single (← int indices))
  else some none

/-! ### Reading a solution -/

/-- The position that `items[i]` stands for in a list of the given length. -/
def listIndex (length : Nat) (i : Int) : Option Nat :=
  if 0 ≤ i then if i < length then some i.toNat else none
  else if 0 ≤ i + length then some (i + length).toNat else none

/-- The variables of a solved model with their values. -/
def getVars (model : LinModel KPathsVar) (x : KPathsVar → ℚ) : List (Text × ℚ) :=
  model.vars.map fun decl => (decl.1.varName, x decl.1)

/-- The flows with the ratios read so far, and the utilization `U`. -/
abbrev ReadState := List Flow × Dict (NodeId × NodeId) ℚ

/-- One turn of the loop over the variables; `linkSet` has the links by their indices. -/
def readVariable (linkSet : List (NodeId × NodeId)) (state : ReadState) (v : Text × ℚ) : Option ReadState :=
  if 'X' ∈ v.1 then do
    match ← variableNameToIndexTuple v.1 with
    | some (.tuple [flowIndex, _]) =>
        let position ← listIndex state.1.length flowIndex
        let flow ← state.1[position]?
        return (state.1.set position { flow with splittingRatio := flow.splittingRatio ++ [v.2] }, state.2)
    | _ => none
  else if 'K' ∈ v.1 then do
    match ← variableNameToIndexTuple v.1 with
    | some (.single linkIndex) =>
        let linkTuple ← if 0 ≤ linkIndex then linkSet[linkIndex.toNat]? else none
        return (state.1, state.2.set linkTuple v.2)
    | _ => none
  else some state

def readVariables (linkSet : List (NodeId × NodeId)) (modelVariables : List (Text × ℚ)) (flows : List Flow) :
    Option ReadState :=
  modelVariables.foldlM (readVariable linkSet) (flows, .empty)

/-! ### The allocators -/

/-- A model with the values that the solver found for its variables. -/
abbrev Solution := LinModel KPathsVar × (KPathsVar → ℚ)

/-- `while True`: the flows admitted so far and the last model that had a solution; the draws are a stream, of which
each admitted flow took one. -/
def admissionLoop
    (createModel : List Flow → NodeId → NodeId → ℚ → List Path → Option (LinModel KPathsVar))
    (solve : LinModel KPathsVar → Option (KPathsVar → ℚ)) (search : PathSearch) (draws : Nat → GreedyDraw) :
    Nat → List Flow → Option Solution → Option (List Flow × Option Solution)
  | 0, _, _ => none
  | fuel + 1, flows, feasibleModel => do
      let draw := draws flows.length
      let paths := search.nodeDisjointPaths draw.sourceNode draw.destinationNode
      let modelForThisRound ← createModel flows draw.sourceNode draw.destinationNode draw.flowTxRate paths
      match solve modelForThisRound with
      | none => some (flows, feasibleModel)
      | some x =>
          admissionLoop createModel solve search draws fuel
            (flows ++ [newPathsFlow draw.sourceNode draw.destinationNode draw.flowTxRate paths])
            (some (modelForThisRound, x))

/-- `link_capacity_map[sorted_link_tuple] += splitting_ratio * flow.flow_tx_rate` along the paths of a flow. -/
def addSplitFlow (linkCapacityMap : Dict (NodeId × NodeId) ℚ) (flow : Flow) : Option (Dict (NodeId × NodeId) ℚ) :=
  (flow.paths.zip flow.splittingRatio).foldlM (fun linkCapacityMap split =>
    addUtilization (split.2 * flow.flowTxRate) linkCapacityMap ((pairwise split.1).map sortedLink)) linkCapacityMap

/-- The accounting at the end of `compute_ilp_flows`: the keys are the links as the graph lists them. -/
def accountFlows (targetGraph : Graph) (flows : List Flow) : Option (Dict (NodeId × NodeId) ℚ) :=
  flows.foldlM addSplitFlow (.ofList (targetGraph.edges.map fun link => (link, 0)))

def computeIlpFlows (solve : LinModel KPathsVar → Option (KPathsVar → ℚ)) (search : PathSearch) (fuel : Nat)
    (targetGraph : Graph) (draws : Nat → GreedyDraw) : Option (List Flow × Dict (NodeId × NodeId) ℚ) := do
  let (flows, feasibleModel) ← admissionLoop (createKPathsModel targetGraph) solve search draws fuel [] none
  match feasibleModel with
  | none => return ([], .empty)
  | some (model, x) =>
      let (flows, _) ← readVariables targetGraph.edges (getVars model x) flows
      let linkCapacityMap ← accountFlows targetGraph flows
      return (flows, linkCapacityMap)

def computePathHoppingFlowsIlp (solve : LinModel KPathsVar → Option (KPathsVar → ℚ)) (search : PathSearch)
    (fuel : Nat) (targetGraph : Graph) (K : Nat) (draws : Nat → GreedyDraw) :
    Option (List Flow × Dict (NodeId × NodeId) ℚ) := do
  let createModel := fun flows source dest rate paths =>
    createPathHoppingIlpModel targetGraph flows source dest rate paths K
  let (flows, feasibleModel) ← admissionLoop createModel solve search draws fuel [] none
  match feasibleModel with
  | none => return ([], .empty)
  | some (model, x) => readVariables (targetGraph.edges.map sortedLink) (getVars model x) flows

/-! ### What the names say -/

/-- The letters of a name. -/
def KPathsVar.letters : KPathsVar → Text
  | .X _ _ => ['X']
  | .Y _ _ => ['Y']
  | .T _ _ => ['T']
  | .alpha => "alpha".toList
  | .U _ => ['U']
  | .K _ => ['K']

theorem inner_bracketed (family : Char) (indices : Text) : ((bracketed family indices).drop 2).dropLast = indices := by
  show (indices ++ ['\x7d']).dropLast = indices
  exact List.dropLast_concat

/-- What stands in a name beside letters. -/
def indexChars : List Char := ['\x7b', '\x7d', ',', ' '] ++ numberChars

theorem mem_bracketed_iff {c family : Char} {indices : Text} (hc : c ∉ indexChars)
    (hindices : ∀ d ∈ indices, d ∈ indexChars) : c ∈ bracketed family indices ↔ c ∈ [family] := by
  have hopen : c ≠ '\x7b' := fun h => hc (h ▸ by decide)
  have hclose : c ≠ '\x7d' := fun h => hc (h ▸ by decide)
  have hinner : c ∉ indices := fun h => hc (hindices c h)
  simp [bracketed, hopen, hclose, hinner]

theorem mem_indexChars_of_mem_formatD {n : Int} {c : Char} (h : c ∈ formatD n) : c ∈ indexChars :=
  List.mem_append_right _ (mem_numberChars_of_mem_formatD h)

theorem mem_indexChars_of_mem_pair {m n : Int} {separator : Text} (hseparator : ∀ d ∈ separator, d ∈ indexChars) :
    ∀ d ∈ formatD m ++ (separator ++ formatD n), d ∈ indexChars := by
  intro d hd
  rcases List.mem_append.mp hd with h | h
  · exact mem_indexChars_of_mem_formatD h
  · rcases List.mem_append.mp h with h | h
    · exact hseparator d h
    · exact mem_indexChars_of_mem_formatD h

/-- The indices have no letters. -/
theorem mem_varName_iff {c : Char} (hc : c ∉ indexChars) (v : KPathsVar) : c ∈ v.varName ↔ c ∈ v.letters := by
  have hcomma : ∀ d ∈ [','], d ∈ indexChars := by simp [indexChars]
  have hblank : ∀ d ∈ [',', ' '], d ∈ indexChars := by simp [indexChars]
  cases v with
  | X flowIndex pathIndex => exact mem_bracketed_iff hc (mem_indexChars_of_mem_pair hcomma)
  | Y flowIndex linkIndex => exact mem_bracketed_iff hc (mem_indexChars_of_mem_pair hcomma)
  | T flowIndex linkIndex => exact mem_bracketed_iff hc (mem_indexChars_of_mem_pair hblank)
  | alpha => exact Iff.rfl
  | U linkIndex => exact mem_bracketed_iff hc fun _ => mem_indexChars_of_mem_formatD
  | K linkIndex => exact mem_bracketed_iff hc fun _ => mem_indexChars_of_mem_formatD

theorem X_mem_varName_iff (v : KPathsVar) : 'X' ∈ v.varName ↔ ∃ flowIndex pathIndex, v = .X flowIndex pathIndex := by
  rw [mem_varName_iff (by decide)]
  cases v <;> simp [KPathsVar.letters]

theorem K_mem_varName_iff (v : KPathsVar) : 'K' ∈ v.varName ↔ ∃ linkIndex, v = .K linkIndex := by
  rw [mem_varName_iff (by decide)]
  cases v <;> simp [KPathsVar.letters]

theorem splitOn_pair (m n : Int) : (formatD m ++ ',' :: formatD n).splitOn ',' = [formatD m, formatD n] := by
  have hcomma : ',' ∉ numberChars := by decide
  have hjoin : formatD m ++ ',' :: formatD n = [','].intercalate [formatD m, formatD n] := by
    simp [List.intercalate]
  rw [hjoin]
  apply List.splitOn_intercalate ',' _ (List.cons_ne_nil _ _)
  intro token htoken hmem
  have hformat : ∃ n, token = formatD n := by
    rcases List.mem_cons.mp htoken with h | h
    · exact ⟨m, h⟩
    · exact ⟨n, List.mem_singleton.mp h⟩
  obtain ⟨n, rfl⟩ := hformat
  exact hcomma (mem_numberChars_of_mem_formatD hmem)

theorem variableNameToIndexTuple_X (flowIndex pathIndex : Nat) :
    variableNameToIndexTuple (KPathsVar.X flowIndex pathIndex).varName =
      some (some (.tuple [flowIndex, pathIndex])) := by
  have hX : 'X' ∈ (KPathsVar.X flowIndex pathIndex).varName := List.mem_cons_self
  have hindices : (((KPathsVar.X flowIndex pathIndex).varName.drop 2).dropLast.splitOn ',').mapM int =
      some [(flowIndex : Int), (pathIndex : Int)] := by
    rw [KPathsVar.varName, inner_bracketed, splitOn_pair, mapM_eq_some_iff]
    simp [int_formatD]
  simp only [variableNameToIndexTuple, if_pos hX, hindices, Option.bind_eq_bind, Option.bind_some]
  rfl

theorem variableNameToIndexTuple_K (linkIndex : Nat) :
    variableNameToIndexTuple (KPathsVar.K linkIndex).varName = some (some (.single linkIndex)) := by
  have hletters : ∀ c ∈ ['X', 'Y', 'U'], c ∉ (KPathsVar.K linkIndex).varName := by
    intro c hc
    have hchars : ∀ c ∈ ['X', 'Y', 'U'], c ∉ indexChars ∧ c ∉ ['K'] := by simp [indexChars, numberChars]
    rw [mem_varName_iff (hchars c hc).1]
    exact (hchars c hc).2
  have hK : 'K' ∈ (KPathsVar.K linkIndex).varName := List.mem_cons_self
  have hindex : int ((KPathsVar.K linkIndex).varName.drop 2).dropLast = some (linkIndex : Int) := by
    rw [KPathsVar.varName, inner_bracketed, int_formatD]
  simp only [variableNameToIndexTuple, if_neg (hletters 'X' (by simp)), if_neg (hletters 'Y' (by simp)),
    if_neg (hletters 'U' (by simp)), if_pos hK, hindex, Option.bind_eq_bind, Option.bind_some]
  rfl

/-! ### What a solution is read as -/

section Reading

variable {linkSet : List (NodeId × NodeId)} {flows : List Flow} {utilization : Dict (NodeId × NodeId) ℚ}

theorem listIndex_natCast {length i : Nat} (h : i < length) : listIndex length i = some i := by
  rw [listIndex, if_pos (Int.natCast_nonneg i), if_pos (by exact_mod_cast h), Int.toNat_natCast]

theorem readVariable_X {flowIndex : Nat} {flow : Flow} (hflow : flows[flowIndex]? = some flow) (pathIndex : Nat)
    (value : ℚ) :
    readVariable linkSet (flows, utilization) ((KPathsVar.X flowIndex pathIndex).varName, value) =
      some (flows.set flowIndex { flow with splittingRatio := flow.splittingRatio ++ [value] }, utilization) := by
  have hX : 'X' ∈ (KPathsVar.X flowIndex pathIndex).varName := List.mem_cons_self
  have hlt := (List.getElem?_eq_some_iff.mp hflow).1
  simp only [readVariable, if_pos hX, variableNameToIndexTuple_X, listIndex_natCast hlt, hflow, Option.bind_eq_bind,
    Option.bind_some]
  rfl

theorem readVariable_K {linkIndex : Nat} {link : NodeId × NodeId} (hlink : linkSet[linkIndex]? = some link)
    (value : ℚ) :
    readVariable linkSet (flows, utilization) ((KPathsVar.K linkIndex).varName, value) =
      some (flows, utilization.set link value) := by
  have hX : 'X' ∉ (KPathsVar.K linkIndex).varName := by simp [X_mem_varName_iff]
  have hK : 'K' ∈ (KPathsVar.K linkIndex).varName := List.mem_cons_self
  simp only [readVariable, if_neg hX, if_pos hK, variableNameToIndexTuple_K, Option.bind_eq_bind, Option.bind_some,
    if_pos (Int.natCast_nonneg linkIndex), Int.toNat_natCast, hlink]
  rfl

/-- The other variables are passed over. -/
theorem readVariable_other {v : KPathsVar} (hX : ∀ flowIndex pathIndex, v ≠ .X flowIndex pathIndex)
    (hK : ∀ linkIndex, v ≠ .K linkIndex) (state : ReadState) (value : ℚ) :
    readVariable linkSet state (v.varName, value) = some state := by
  have hX' : 'X' ∉ v.varName := by
    rw [X_mem_varName_iff]
    rintro ⟨flowIndex, pathIndex, rfl⟩
    exact hX flowIndex pathIndex rfl
  have hK' : 'K' ∉ v.varName := by
    rw [K_mem_varName_iff]
    rintro ⟨linkIndex, rfl⟩
    exact hK linkIndex rfl
  rw [readVariable, if_neg hX', if_neg hK']

theorem readVariables_other {vars : List KPathsVar} (hX : ∀ v ∈ vars, ∀ flowIndex pathIndex, v ≠ .X flowIndex pathIndex)
    (hK : ∀ v ∈ vars, ∀ linkIndex, v ≠ .K linkIndex) (x : KPathsVar → ℚ) (state : ReadState) :
    (vars.map fun v => (v.varName, x v)).foldlM (readVariable linkSet) state = some state := by
  induction vars with
  | nil => rfl
  | cons v rest ih =>
      rw [List.map_cons, List.foldlM_cons,
        readVariable_other (hX v List.mem_cons_self) (hK v List.mem_cons_self)]
      exact ih (fun v' hv' => hX v' (List.mem_cons_of_mem v hv')) fun v' hv' => hK v' (List.mem_cons_of_mem v hv')

/-- The variables of one flow. -/
theorem readVariables_flow {flowIndex : Nat} {flow : Flow} (hflow : flows[flowIndex]? = some flow)
    (x : KPathsVar → ℚ) (pathIndices : List Nat) :
    ((pathIndices.map (KPathsVar.X flowIndex)).map fun v => (v.varName, x v)).foldlM (readVariable linkSet)
        (flows, utilization) =
      some (flows.set flowIndex { flow with
        splittingRatio := flow.splittingRatio ++ pathIndices.map fun pathIndex => x (.X flowIndex pathIndex) },
        utilization) := by
  induction pathIndices generalizing flows flow with
  | nil =>
      obtain ⟨hlt, rfl⟩ := List.getElem?_eq_some_iff.mp hflow
      rw [List.map_nil, List.map_nil, List.map_nil, List.append_nil, List.set_getElem_self hlt]
      rfl
  | cons pathIndex rest ih =>
      have hlt := (List.getElem?_eq_some_iff.mp hflow).1
      rw [List.map_cons, List.map_cons, List.foldlM_cons, readVariable_X hflow]
      simp only [Option.bind_eq_bind, Option.bind_some]
      rw [ih (List.getElem?_set_self hlt), List.set_set, List.map_cons, List.append_assoc, List.singleton_append]

/-- A flow with the ratios of its variables. -/
def withRatios (x : KPathsVar → ℚ) (entry : Flow × Nat) : Flow :=
  { entry.1 with splittingRatio := entry.1.splittingRatio ++
      (List.range entry.1.paths.length).map fun pathIndex => x (.X entry.2 pathIndex) }

/-- The variables of all flows; those of the flows before have been read. -/
theorem readVariables_flows (linkSet : List (NodeId × NodeId)) (utilization : Dict (NodeId × NodeId) ℚ)
    (x : KPathsVar → ℚ) (done rest : List Flow) :
    (((rest.zipIdx done.length).flatMap fun entry =>
      (List.range entry.1.paths.length).map (KPathsVar.X entry.2)).map fun v => (v.varName, x v)).foldlM
        (readVariable linkSet) (done ++ rest, utilization) =
      some (done ++ (rest.zipIdx done.length).map (withRatios x), utilization) := by
  induction rest generalizing done with
  | nil => rfl
  | cons flow rest ih =>
      have hflow : (done ++ flow :: rest)[done.length]? = some flow := by simp
      have hset : (done ++ flow :: rest).set done.length (withRatios x (flow, done.length)) =
          done ++ [withRatios x (flow, done.length)] ++ rest := by simp
      have hnext := ih (done ++ [withRatios x (flow, done.length)])
      rw [List.length_append, List.length_singleton] at hnext
      rw [List.zipIdx_cons, List.flatMap_cons, List.map_append, List.foldlM_append, readVariables_flow hflow,
        Option.bind_eq_bind, Option.bind_some]
      change List.foldlM _
        ((done ++ flow :: rest).set done.length (withRatios x (flow, done.length)), utilization) _ = _
      rw [hset, hnext, List.map_cons, List.append_assoc, List.singleton_append]

/-- The variables of the links. -/
theorem readVariables_links (x : KPathsVar → ℚ) {entries : List ((NodeId × NodeId) × Nat)}
    (hentries : ∀ entry ∈ entries, linkSet[entry.2]? = some entry.1) :
    ((entries.map fun entry => KPathsVar.K entry.2).map fun v => (v.varName, x v)).foldlM (readVariable linkSet)
        (flows, utilization) =
      some (flows, (entries.map fun entry => (entry.1, x (.K entry.2))).foldl (fun d e => d.set e.1 e.2)
        utilization) := by
  induction entries generalizing utilization with
  | nil => rfl
  | cons entry rest ih =>
      rw [List.map_cons, List.map_cons, List.foldlM_cons, readVariable_K (hentries entry List.mem_cons_self),
        Option.bind_eq_bind, Option.bind_some,
        ih fun entry' hentry' => hentries entry' (List.mem_cons_of_mem entry hentry')]
      rfl

end Reading

/-- The utilization that is read off a solution. -/
def utilizationOf (linkSet : List (NodeId × NodeId)) (x : KPathsVar → ℚ) : Dict (NodeId × NodeId) ℚ :=
  .ofList (linkSet.zipIdx.map fun entry => (entry.1, x (.K entry.2)))

theorem getVars_eq (model : LinModel KPathsVar) (x : KPathsVar → ℚ) :
    getVars model x = (model.vars.map Prod.fst).map fun v => (v.varName, x v) := by
  rw [getVars, List.map_map]
  rfl

/-- The ratios come first among the variables and the utilizations last. -/
theorem exists_vars_eq (xDecl : VarDecl) (flowSet : List Flow) (links : List Nat) :
    ∃ others, (∀ v ∈ others, (∀ flowIndex pathIndex, v ≠ .X flowIndex pathIndex) ∧ ∀ linkIndex, v ≠ .K linkIndex) ∧
      (pathAllocationVars xDecl flowSet links).map Prod.fst =
        (flowSet.zipIdx.flatMap fun entry => (List.range entry.1.paths.length).map (KPathsVar.X entry.2)) ++
          (others ++ links.map KPathsVar.K) := by
  refine ⟨((List.range flowSet.length).flatMap fun flowIndex => links.map (KPathsVar.Y flowIndex)) ++
    ((List.range flowSet.length).flatMap fun flowIndex => links.map (KPathsVar.T flowIndex)) ++ [.alpha] ++
    links.map KPathsVar.U, ?_, ?_⟩
  · simp only [List.forall_mem_append, List.forall_mem_flatMap, List.forall_mem_map, List.forall_mem_singleton]
    simp
  · simp only [pathAllocationVars, List.map_append, List.map_flatMap, List.map_map, List.map_singleton,
      List.append_assoc]
    rfl

/-- Every flow gets the ratios of its own variables, in the order of its paths, and every link the value of its own
variable. -/
theorem readVariables_getVars {xDecl : VarDecl} {graph : Graph} {flowSet : List Flow} {model : LinModel KPathsVar}
    (hmodel : pathAllocationModel xDecl graph flowSet = some model) (x : KPathsVar → ℚ)
    {links : List (NodeId × NodeId)} (hlength : links.length = graph.edges.length) :
    readVariables links (getVars model x) flowSet =
      some (flowSet.zipIdx.map (withRatios x), utilizationOf links x) := by
  rw [pathAllocationModel] at hmodel
  split at hmodel
  · cases hmodel
    obtain ⟨others, hothers, hvars⟩ := exists_vars_eq xDecl flowSet (linkSet graph).values
    have hlinks : (linkSet graph).values.map KPathsVar.K = links.zipIdx.map fun entry => KPathsVar.K entry.2 := by
      rw [values_linkSet, ← hlength, List.range_eq_range', ← List.zipIdx_map_snd 0 links, List.map_map]
      rfl
    have hflows := readVariables_flows links .empty x [] flowSet
    rw [List.nil_append, List.length_nil] at hflows
    rw [readVariables, getVars_eq, hvars, List.map_append, List.foldlM_append, hflows, Option.bind_eq_bind,
      Option.bind_some, List.map_append, List.foldlM_append,
      readVariables_other (fun v hv => (hothers v hv).1) (fun v hv => (hothers v hv).2), Option.bind_eq_bind,
      Option.bind_some, hlinks, readVariables_links x fun entry hentry => List.mk_mem_zipIdx_iff_getElem?.mp hentry]
    rfl
  · cases hmodel

/-- The flow as the solution splits it. -/
def splitBy (x : KPathsVar → ℚ) (entry : Flow × Nat) : Flow :=
  { entry.1 with splittingRatio := (List.range entry.1.paths.length).map fun pathIndex => x (.X entry.2 pathIndex) }

theorem map_withRatios {flowSet : List Flow} (hempty : ∀ flow ∈ flowSet, flow.splittingRatio = [])
    (x : KPathsVar → ℚ) : flowSet.zipIdx.map (withRatios x) = flowSet.zipIdx.map (splitBy x) := by
  apply List.map_congr_left
  intro entry hentry
  rw [withRatios, hempty entry.1 (mem_of_mem_zipIdx hentry), List.nil_append, splitBy]

theorem pathAllocationModel_of_createPathHoppingIlpModel {graph : Graph} {flows : List Flow} {source dest : NodeId}
    {rate : ℚ} {paths : List Path} {K : Nat} {model : LinModel KPathsVar}
    (h : createPathHoppingIlpModel graph flows source dest rate paths K = some model) :
    pathAllocationModel { lb := 1 / K, ub := some (1 / K), vtype := .semicont } graph
      (flows ++ [newPathsFlow source dest rate paths]) = some model := by
  rw [createPathHoppingIlpModel] at h
  split at h
  · cases h
  · exact h

/-! ### What the allocators read -/

section Admission

variable {createModel : List Flow → NodeId → NodeId → ℚ → List Path → Option (LinModel KPathsVar)}
  {solve : LinModel KPathsVar → Option (KPathsVar → ℚ)}

/-- The flows are unsplit, and the last model that had a solution is the one of these flows. -/
def LastSolved (createModel : List Flow → NodeId → NodeId → ℚ → List Path → Option (LinModel KPathsVar))
    (solve : LinModel KPathsVar → Option (KPathsVar → ℚ)) (flows : List Flow) : Option Solution → Prop
  | none => flows = []
  | some (model, x) => solve model = some x ∧ ∃ before source dest rate paths,
      flows = before ++ [newPathsFlow source dest rate paths] ∧ createModel before source dest rate paths = some model ∧
        ∀ flow ∈ flows, flow.splittingRatio = []

theorem LastSolved.unsplit {flows : List Flow} {feasibleModel : Option Solution}
    (h : LastSolved createModel solve flows feasibleModel) : ∀ flow ∈ flows, flow.splittingRatio = [] := by
  cases feasibleModel with
  | none =>
      obtain rfl : flows = [] := h
      exact fun flow hflow => absurd hflow List.not_mem_nil
  | some solution =>
      obtain ⟨-, before, source, dest, rate, paths, -, -, hunsplit⟩ := h
      exact hunsplit

theorem LastSolved.snoc {flows : List Flow} {feasibleModel : Option Solution}
    (h : LastSolved createModel solve flows feasibleModel) {source dest : NodeId} {rate : ℚ} {paths : List Path}
    {model : LinModel KPathsVar} {x : KPathsVar → ℚ} (hmodel : createModel flows source dest rate paths = some model)
    (hsolved : solve model = some x) :
    LastSolved createModel solve (flows ++ [newPathsFlow source dest rate paths]) (some (model, x)) := by
  refine ⟨hsolved, flows, source, dest, rate, paths, rfl, hmodel, fun flow hflow => ?_⟩
  rcases List.mem_append.mp hflow with hold | hnew
  · exact h.unsplit flow hold
  · rw [List.mem_singleton.mp hnew]
    rfl

theorem LastSolved.admissionLoop {search : PathSearch} {draws : Nat → GreedyDraw} {fuel : Nat} {flows : List Flow}
    {feasibleModel : Option Solution} (h : LastSolved createModel solve flows feasibleModel)
    {admitted : List Flow} {last : Option Solution}
    (hrun : admissionLoop createModel solve search draws fuel flows feasibleModel = some (admitted, last)) :
    LastSolved createModel solve admitted last := by
  induction fuel generalizing flows feasibleModel with
  | zero => cases hrun
  | succ fuel ih =>
      rw [FlowAllocation.admissionLoop, Option.bind_eq_bind, Option.bind_eq_some_iff] at hrun
      obtain ⟨model, hmodel, hrun⟩ := hrun
      cases hsolved : solve model with
      | none =>
          rw [hsolved] at hrun
          cases hrun
          exact h
      | some x =>
          rw [hsolved] at hrun
          exact ih (h.snoc hmodel hsolved) hrun

/-- The returned flows are those that the loop admitted, split by the values of the last model that had a solution. -/
def SplitAsSolved (createModel : List Flow → NodeId → NodeId → ℚ → List Path → Option (LinModel KPathsVar))
    (solve : LinModel KPathsVar → Option (KPathsVar → ℚ)) (search : PathSearch) (draws : Nat → GreedyDraw) (fuel : Nat)
    (returned : List Flow) : Prop :=
  ∃ admitted feasibleModel, admissionLoop createModel solve search draws fuel [] none = some (admitted, feasibleModel) ∧
    match feasibleModel with
    | none => returned = []
    | some (model, x) => solve model = some x ∧ returned = admitted.zipIdx.map (splitBy x)

theorem computeIlpFlows_splits {search : PathSearch} {fuel : Nat} {graph : Graph} {draws : Nat → GreedyDraw}
    {returned : List Flow} {linkCapacityMap : Dict (NodeId × NodeId) ℚ}
    (h : computeIlpFlows solve search fuel graph draws = some (returned, linkCapacityMap)) :
    SplitAsSolved (createKPathsModel graph) solve search draws fuel returned := by
  rw [computeIlpFlows, Option.bind_eq_bind, Option.bind_eq_some_iff] at h
  obtain ⟨⟨admitted, feasibleModel⟩, hrun, h⟩ := h
  have hlast := LastSolved.admissionLoop (show LastSolved (createKPathsModel graph) solve [] none from rfl) hrun
  refine ⟨admitted, feasibleModel, hrun, ?_⟩
  cases feasibleModel with
  | none =>
      cases h
      rfl
  | some solution =>
      obtain ⟨hsolved, before, source, dest, rate, paths, rfl, hmodel, hunsplit⟩ := hlast
      refine ⟨hsolved, ?_⟩
      simp only [readVariables_getVars hmodel solution.2 rfl, map_withRatios hunsplit, Option.bind_eq_bind,
        Option.bind_some, Option.bind_eq_some_iff] at h
      obtain ⟨accounted, -, h⟩ := h
      cases h
      rfl

theorem computePathHoppingFlowsIlp_splits {search : PathSearch} {fuel : Nat} {graph : Graph} {K : Nat}
    {draws : Nat → GreedyDraw} {returned : List Flow} {linkUtilization : Dict (NodeId × NodeId) ℚ}
    (h : computePathHoppingFlowsIlp solve search fuel graph K draws = some (returned, linkUtilization)) :
    SplitAsSolved (fun flows source dest rate paths => createPathHoppingIlpModel graph flows source dest rate paths K)
      solve search draws fuel returned := by
  rw [computePathHoppingFlowsIlp, Option.bind_eq_bind, Option.bind_eq_some_iff] at h
  obtain ⟨⟨admitted, feasibleModel⟩, hrun, h⟩ := h
  have hlast := LastSolved.admissionLoop (show LastSolved (fun flows source dest rate paths =>
    createPathHoppingIlpModel graph flows source dest rate paths K) solve [] none from rfl) hrun
  refine ⟨admitted, feasibleModel, hrun, ?_⟩
  cases feasibleModel with
  | none =>
      cases h
      rfl
  | some solution =>
      obtain ⟨hsolved, before, source, dest, rate, paths, rfl, hmodel, hunsplit⟩ := hlast
      refine ⟨hsolved, ?_⟩
      simp only [readVariables_getVars (pathAllocationModel_of_createPathHoppingIlpModel hmodel) solution.2
        (List.length_map _), map_withRatios hunsplit] at h
      cases h
      rfl

end Admission

/-- The names are read back as the indices that they were made from, no other variable is taken for a ratio or a
utilization, and both allocators give every flow exactly the ratios of its own variables, in the order of its paths. -/
theorem ratios_read_from_names (graph : Graph) (flows : List Flow) (hempty : ∀ flow ∈ flows, flow.splittingRatio = [])
    (source dest : NodeId) (rate : ℚ) (paths : List Path) (x : KPathsVar → ℚ) :
    (∀ flowIndex pathIndex : Nat, variableNameToIndexTuple (KPathsVar.X flowIndex pathIndex).varName =
      some (some (.tuple [flowIndex, pathIndex]))) ∧
    (∀ linkIndex : Nat, variableNameToIndexTuple (KPathsVar.K linkIndex).varName = some (some (.single linkIndex))) ∧
    (∀ v : KPathsVar, 'X' ∈ v.varName ↔ ∃ flowIndex pathIndex, v = .X flowIndex pathIndex) ∧
    (∀ v : KPathsVar, 'K' ∈ v.varName ↔ ∃ linkIndex, v = .K linkIndex) ∧
    (∀ model, createKPathsModel graph flows source dest rate paths = some model →
      readVariables graph.edges (getVars model x) (flows ++ [newPathsFlow source dest rate paths]) =
        some ((flows ++ [newPathsFlow source dest rate paths]).zipIdx.map (splitBy x),
          utilizationOf graph.edges x)) ∧
    (∀ K model, createPathHoppingIlpModel graph flows source dest rate paths K = some model →
      readVariables (graph.edges.map sortedLink) (getVars model x) (flows ++ [newPathsFlow source dest rate paths]) =
        some ((flows ++ [newPathsFlow source dest rate paths]).zipIdx.map (splitBy x),
          utilizationOf (graph.edges.map sortedLink) x)) ∧
    (∀ solve search fuel draws returned linkCapacityMap,
      computeIlpFlows solve search fuel graph draws = some (returned, linkCapacityMap) →
        SplitAsSolved (createKPathsModel graph) solve search draws fuel returned) ∧
    ∀ solve search fuel K draws returned linkUtilization,
      computePathHoppingFlowsIlp solve search fuel graph K draws = some (returned, linkUtilization) →
        SplitAsSolved (fun flows source dest rate paths =>
          createPathHoppingIlpModel graph flows source dest rate paths K) solve search draws fuel returned := by
  have hadmitted : ∀ flow ∈ flows ++ [newPathsFlow source dest rate paths], flow.splittingRatio = [] := by
    intro flow hflow
    rcases List.mem_append.mp hflow with hold | hnew
    · exact hempty flow hold
    · rw [List.mem_singleton.mp hnew]
      rfl
  refine ⟨variableNameToIndexTuple_X, variableNameToIndexTuple_K, X_mem_varName_iff, K_mem_varName_iff, ?_, ?_,
    fun solve search fuel draws returned linkCapacityMap => computeIlpFlows_splits,
    fun solve search fuel K draws returned linkUtilization => computePathHoppingFlowsIlp_splits⟩
  · intro model hmodel
    rw [readVariables_getVars hmodel x rfl, map_withRatios hadmitted]
  · intro K model hmodel
    rw [readVariables_getVars (pathAllocationModel_of_createPathHoppingIlpModel hmodel) x (List.length_map _),
      map_withRatios hadmitted]

/-- A quarter of the first flow goes over its first path. -/
def quarterFirst : KPathsVar → ℚ
  | .X _ 0 => 1 / 4
  | .X _ _ => 3 / 4
  | .K _ => 1 / 2
  | _ => 0

theorem ratios_read_from_names_triangle : ∃ model,
    createKPathsModel triangle [] 0 1 (1 / 2) [[0, 1], [0, 2, 1]] = some model ∧
    readVariables triangle.edges (getVars model quarterFirst) [newPathsFlow 0 1 (1 / 2) [[0, 1], [0, 2, 1]]] =
      some ([{ newPathsFlow 0 1 (1 / 2) [[0, 1], [0, 2, 1]] with splittingRatio := [1 / 4, 3 / 4] }],
        utilizationOf triangle.edges quarterFirst) := by
  have hread := ratios_read_from_names triangle [] (by decide) 0 1 (1 / 2) [[0, 1], [0, 2, 1]] quarterFirst
  exact ⟨_, rfl, hread.2.2.2.2.1 _ rfl⟩

end OfTestbed.FlowAllocation
