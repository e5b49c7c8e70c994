import OfTestbed.FlowAllocationGreedy
import OfTestbed.FlowAllocationIlp

/-!
Whole runs of the allocators that work with a solver. In every round the solver is asked for a splitting of the flows
drawn so far, and the loop ends with the first draw for which there is none. Each flow puts its rate at least on the
links, so that the rates of the flows that can be embedded are bounded by the capacity of all links: the loop ends.
The accounting at the end of `compute_ilp_flows` looks its links up in sorted order, in a dictionary that has them as
the graph lists them.
-/

namespace OfTestbed.FlowAllocation

open Lib

/-- The flows can be split in an admissible way that overloads no link. -/
def Embeddable (graph : Graph) (admissible : List Flow → (Nat → Nat → ℚ) → Prop) (flowSet : List Flow) : Prop :=
  ∃ ratio, admissible flowSet ratio ∧ WithinCapacity graph flowSet ratio

/-- How a model is made from the flows so far, the end points, the rate and the paths of a new one. -/
abbrev CreateModel := List Flow → NodeId → NodeId → ℚ → List Path → Option (LinModel KPathsVar)

section Rounds

variable (search : PathSearch) (draws : Nat → GreedyDraw)

/-- The flow that is tried in a round. -/
def roundFlow (turn : Nat) : Flow :=
  newPathsFlow (draws turn).sourceNode (draws turn).destinationNode (draws turn).flowTxRate
    (turnPaths search draws turn)

/-- The flows of the rounds before. -/
def roundFlows (turn : Nat) : List Flow := (List.range turn).map (roundFlow search draws)

/-- `model_for_this_round`. -/
def roundModel (createModel : CreateModel) (turn : Nat) : Option (LinModel KPathsVar) :=
  createModel (roundFlows search draws turn) (draws turn).sourceNode (draws turn).destinationNode
    (draws turn).flowTxRate (turnPaths search draws turn)

/-- The solver answers the models of the rounds, as documented; the objective is `alpha`. -/
def AnswersRounds (createModel : CreateModel) (solve : LinModel KPathsVar → Option (KPathsVar → ℚ)) : Prop :=
  ∀ turn, ∀ model ∈ roundModel search draws createModel turn, model.Answer .alpha (solve model)

/-- The flows of the first `count` draws can be embedded one after the other, and the next one not any more. -/
structure AdmitsExactly (graph : Graph) (admissible : List Flow → (Nat → Nat → ℚ) → Prop) (count : Nat) : Prop where
  admitted : ∀ turn < count, Embeddable graph admissible (roundFlows search draws (turn + 1))
  rejected : ¬Embeddable graph admissible (roundFlows search draws (count + 1))

/-- What a round has: an exact model of the flows up to its own. -/
structure IsRound (graph : Graph) (admissible : List Flow → (Nat → Nat → ℚ) → Prop) (createModel : CreateModel)
    (xDecl : VarDecl) (turn : Nat) (model : LinModel KPathsVar) : Prop where
  created : roundModel search draws createModel turn = some model
  model_eq : pathAllocationModel xDecl graph (roundFlows search draws (turn + 1)) = some model
  exact : Exact graph (roundFlows search draws (turn + 1)) model (admissible (roundFlows search draws (turn + 1)))
  routed : Routed graph (roundFlows search draws (turn + 1))

end Rounds

section

variable {search : PathSearch} {graph : Graph} {draws : Nat → GreedyDraw}

theorem roundFlows_succ (turn : Nat) :
    roundFlows search draws (turn + 1) = roundFlows search draws turn ++ [roundFlow search draws turn] := by
  rw [roundFlows, List.range_succ, List.map_append]
  rfl

theorem length_roundFlows (turn : Nat) : (roundFlows search draws turn).length = turn := by
  rw [roundFlows, List.length_map, List.length_range]

theorem exists_turn_of_mem_roundFlows {turn : Nat} {flow : Flow} (h : flow ∈ roundFlows search draws turn) :
    ∃ turn' < turn, roundFlow search draws turn' = flow := by
  obtain ⟨turn', hturn, heq⟩ := List.mem_map.mp h
  exact ⟨turn', List.mem_range.mp hturn, heq⟩

theorem GreedyDraw.Drawn.rate_pos {draw : GreedyDraw} (h : draw.Drawn graph) : 0 < draw.flowTxRate :=
  lt_of_lt_of_le (by norm_num [flowTxRateLowerBound]) h.lower_le

theorem routed_roundFlows (hsearch : search.Documented graph) (hdraws : ∀ turn, (draws turn).Drawn graph) (turn : Nat) :
    Routed graph (roundFlows search draws turn) := by
  refine ⟨fun flow hflow path hpath => ?_, fun flow hflow => ?_⟩
  · obtain ⟨turn', -, rfl⟩ := exists_turn_of_mem_roundFlows hflow
    have hdraw := hdraws turn'
    have hroute := hsearch.route_of_mem_nodeDisjointPaths _ hdraw.source_mem _ hdraw.destination_mem hdraw.source_ne
      path hpath
    exact ⟨hroute.nodup, hroute.chain⟩
  · obtain ⟨turn', -, rfl⟩ := exists_turn_of_mem_roundFlows hflow
    exact (hdraws turn').rate_pos

/-! ### The loop ends -/

/-- A flow puts its whole rate at least on the links when each of its paths crosses one. -/
theorem rate_le_sum_flowLoad {flow : Flow} {ratio : Nat → ℚ} (hrate : 0 ≤ flow.flowTxRate)
    (hcrosses : ∀ path ∈ flow.paths, ∃ link ∈ graph.edges, Crosses path link)
    (hratio : ∀ pathIndex ∈ List.range flow.paths.length, 0 ≤ ratio pathIndex)
    (htotal : ((List.range flow.paths.length).map ratio).sum = 1) :
    flow.flowTxRate ≤ (graph.edges.map (flowLoad flow ratio)).sum := by
  calc flow.flowTxRate
      = ((List.range flow.paths.length).map fun pathIndex => ratio pathIndex * flow.flowTxRate).sum := by
        rw [List.sum_map_mul_right, htotal, one_mul]
    _ = (flow.paths.zipIdx.map fun entry => ratio entry.2 * flow.flowTxRate).sum :=
        (sum_map_zipIdx_snd flow.paths fun pathIndex => ratio pathIndex * flow.flowTxRate).symm
    _ ≤ (flow.paths.zipIdx.map fun entry => (graph.edges.map fun link =>
          if Crosses entry.1 link then ratio entry.2 * flow.flowTxRate else 0).sum).sum := by
        apply List.sum_le_sum
        intro entry hentry
        have hget := List.mk_mem_zipIdx_iff_getElem?.mp hentry
        have hlt := (List.getElem?_eq_some_iff.mp hget).1
        have hshare : 0 ≤ ratio entry.2 * flow.flowTxRate :=
          mul_nonneg (hratio entry.2 (List.mem_range.mpr hlt)) hrate
        obtain ⟨link, hlink, hcross⟩ := hcrosses entry.1 (List.mem_of_getElem? hget)
        refine List.single_le_sum (fun load hload => ?_) _ (List.mem_map.mpr ⟨link, hlink, if_pos hcross⟩)
        obtain ⟨link', -, rfl⟩ := List.mem_map.mp hload
        split
        · exact hshare
        · exact le_rfl
    _ = (graph.edges.map (flowLoad flow ratio)).sum := sum_map_sum_comm _ _ _

theorem exists_crosses (hsearch : search.Documented graph) (hdraws : ∀ turn, (draws turn).Drawn graph) (turn : Nat) :
    ∀ path ∈ turnPaths search draws turn, ∃ link ∈ graph.edges, Crosses path link := by
  intro path hpath
  have hdraw := hdraws turn
  have hroute := hsearch.route_of_mem_nodeDisjointPaths _ hdraw.source_mem _ hdraw.destination_mem hdraw.source_ne
    path hpath
  obtain ⟨hop, hhop⟩ := List.exists_mem_of_ne_nil _ (exists_mem_pairwise_of_ne hroute.head hroute.last hdraw.source_ne)
  have harc := isChain_iff_forall_mem_pairwise.mp hroute.chain hop hhop
  obtain ⟨link, hlink, heq⟩ := List.mem_map.mp (sortedLink_mem_edges harc)
  refine ⟨link, hlink, ?_⟩
  rw [Crosses, heq]
  exact List.mem_map_of_mem hhop

/-- The flows that can be embedded have together at most the capacity of all links. -/
theorem count_le_of_embeddable (hsearch : search.Documented graph) (hdraws : ∀ turn, (draws turn).Drawn graph)
    {count : Nat} (h : Embeddable graph IsSplitting (roundFlows search draws count)) :
    (count : ℚ) ≤ graph.edges.length * linkCapacity / flowTxRateLowerBound := by
  obtain ⟨ratio, hsplits, hcap⟩ := h
  have hlower : (0 : ℚ) < flowTxRateLowerBound := by norm_num [flowTxRateLowerBound]
  rw [le_div_iff₀ hlower]
  calc (count : ℚ) * flowTxRateLowerBound
      = ((roundFlows search draws count).zipIdx.map fun _ => flowTxRateLowerBound).sum := by
        rw [List.map_const', List.sum_replicate, List.length_zipIdx, length_roundFlows, nsmul_eq_mul]
    _ ≤ ((roundFlows search draws count).zipIdx.map fun entry =>
          (graph.edges.map fun link => flowLoad entry.1 (ratio entry.2) link).sum).sum := by
        apply List.sum_le_sum
        intro entry hentry
        obtain ⟨hratio, htotal⟩ := hsplits entry hentry
        obtain ⟨turn, -, hflow⟩ := exists_turn_of_mem_roundFlows (mem_of_mem_zipIdx hentry)
        rw [← hflow] at hratio htotal ⊢
        exact le_trans (hdraws turn).lower_le
          (rate_le_sum_flowLoad (hdraws turn).rate_pos.le (exists_crosses hsearch hdraws turn) hratio htotal)
    _ = (graph.edges.map (linkLoad (roundFlows search draws count) ratio)).sum := sum_map_sum_comm _ _ _
    _ ≤ graph.edges.length * linkCapacity := by
        rw [← nsmul_eq_mul, ← List.length_map (linkLoad (roundFlows search draws count) ratio)]
        apply List.sum_le_card_nsmul
        intro load hload
        obtain ⟨link, hlink, rfl⟩ := List.mem_map.mp hload
        exact hcap link hlink

theorem exists_admitsExactly (hsearch : search.Documented graph) (hdraws : ∀ turn, (draws turn).Drawn graph)
    {admissible : List Flow → (Nat → Nat → ℚ) → Prop}
    (hadmissible : ∀ flowSet ratio, admissible flowSet ratio → IsSplitting flowSet ratio) :
    ∃ count : Nat, (count : ℚ) ≤ graph.edges.length * linkCapacity / flowTxRateLowerBound ∧
      AdmitsExactly search draws graph admissible count := by
  classical
  have hbound : ∀ {count : Nat}, Embeddable graph admissible (roundFlows search draws count) →
      (count : ℚ) ≤ graph.edges.length * linkCapacity / flowTxRateLowerBound := by
    rintro count ⟨ratio, hratio, hcap⟩
    exact count_le_of_embeddable hsearch hdraws ⟨ratio, hadmissible _ _ hratio, hcap⟩
  have hexists : ∃ count, ¬Embeddable graph admissible (roundFlows search draws (count + 1)) := by
    refine ⟨10 * graph.edges.length, fun hembeds => ?_⟩
    have hcount := hbound hembeds
    rw [flowCount_bound, Nat.cast_le] at hcount
    omega
  refine ⟨Nat.find hexists, ?_, fun turn hturn => not_not.mp (Nat.find_min hexists hturn), Nat.find_spec hexists⟩
  cases hfound : Nat.find hexists with
  | zero =>
      have hcap : (0 : ℚ) ≤ graph.edges.length * linkCapacity := mul_nonneg (Nat.cast_nonneg _) zero_le_one
      exact_mod_cast div_nonneg hcap (by norm_num [flowTxRateLowerBound])
  | succ count =>
      have hlt : count < Nat.find hexists := by omega
      exact hbound (not_not.mp (Nat.find_min hexists hlt))

/-! ### What the loop returns -/

/-- The model of the last round before with the values that the solver found. -/
def lastSolution (search : PathSearch) (draws : Nat → GreedyDraw) (createModel : CreateModel)
    (solve : LinModel KPathsVar → Option (KPathsVar → ℚ)) : Nat → Option Solution
  | 0 => none
  | turn + 1 => do
      let model ← roundModel search draws createModel turn
      let x ← solve model
      return (model, x)

section Loop

variable {createModel : CreateModel} {solve : LinModel KPathsVar → Option (KPathsVar → ℚ)}
  {admissible : List Flow → (Nat → Nat → ℚ) → Prop} {xDecl : VarDecl} {turn : Nat} {model : LinModel KPathsVar}

/-- A solver finds a solution when the flows can be embedded. -/
theorem IsRound.isSome_iff (h : IsRound search draws graph admissible createModel xDecl turn model)
    {answer : Option (KPathsVar → ℚ)} (hanswer : model.Answer .alpha answer) :
    answer.isSome ↔ Embeddable graph admissible (roundFlows search draws (turn + 1)) := by
  cases answer with
  | some x => exact iff_of_true rfl ⟨_, h.exact.sound x hanswer.feasible⟩
  | none =>
      refine iff_of_false (by simp) ?_
      rintro ⟨ratio, hratio, hcap⟩
      obtain ⟨x, hx, -⟩ := h.exact.complete ratio hratio hcap
      rcases hanswer with hinfeasible | hunbounded
      · exact hinfeasible x hx
      · obtain ⟨y, hy, hneg⟩ := hunbounded 0
        exact absurd (le_trans (foldr_max_nonneg _) (maxLinkLoad_le_alpha h.routed h.model_eq hy)) (not_le.mpr hneg)

/-- An admissible splitting that overloads no link and whose largest load is the least possible. -/
structure LeastLoaded (graph : Graph) (admissible : List Flow → (Nat → Nat → ℚ) → Prop) (flowSet : List Flow)
    (ratio : Nat → Nat → ℚ) : Prop where
  obeys : admissible flowSet ratio
  within : WithinCapacity graph flowSet ratio
  least : ∀ ratio', admissible flowSet ratio' → WithinCapacity graph flowSet ratio' →
    maxLinkLoad graph flowSet ratio ≤ maxLinkLoad graph flowSet ratio'

/-- An assignment for such a splitting with its largest load as objective is optimal. -/
theorem IsRound.optimal (h : IsRound search draws graph admissible createModel xDecl turn model)
    {ratio : Nat → Nat → ℚ} (hleast : LeastLoaded graph admissible (roundFlows search draws (turn + 1)) ratio)
    {x : KPathsVar → ℚ} (hx : model.Feasible x)
    (halpha : x .alpha = maxLinkLoad graph (roundFlows search draws (turn + 1)) ratio) : model.Optimal .alpha x := by
  refine ⟨hx, fun y hy => ?_⟩
  obtain ⟨hadmissible, hwithin⟩ := h.exact.sound y hy
  calc x .alpha = maxLinkLoad graph (roundFlows search draws (turn + 1)) ratio := halpha
    _ ≤ maxLinkLoad graph (roundFlows search draws (turn + 1)) _ := hleast.least _ hadmissible hwithin
    _ ≤ y .alpha := maxLinkLoad_le_alpha h.routed h.model_eq hy

theorem IsRound.exists_optimal (h : IsRound search draws graph admissible createModel xDecl turn model)
    {ratio : Nat → Nat → ℚ} (hleast : LeastLoaded graph admissible (roundFlows search draws (turn + 1)) ratio) :
    ∃ x, model.Optimal .alpha x := by
  obtain ⟨x, hx, -, halpha⟩ := h.exact.complete ratio hleast.obeys hleast.within
  exact ⟨x, h.optimal hleast hx halpha⟩

theorem admissionLoop_succ
    (hmodel : roundModel search draws createModel turn = some model) {x : KPathsVar → ℚ} (hx : solve model = some x)
    (fuel : Nat) :
    admissionLoop createModel solve search draws (fuel + 1) (roundFlows search draws turn)
        (lastSolution search draws createModel solve turn) =
      admissionLoop createModel solve search draws fuel (roundFlows search draws (turn + 1))
        (lastSolution search draws createModel solve (turn + 1)) := by
  have hlast : lastSolution search draws createModel solve (turn + 1) = some (model, x) := by
    rw [lastSolution, hmodel, Option.bind_eq_bind, Option.bind_some, hx]
    rfl
  rw [hlast, roundFlows_succ, admissionLoop]
  simp only [length_roundFlows]
  change (roundModel search draws createModel turn >>= _) = _
  rw [hmodel, Option.bind_eq_bind, Option.bind_some, hx]
  rfl

theorem admissionLoop_stop
    (hmodel : roundModel search draws createModel turn = some model) (hnone : solve model = none) (fuel : Nat)
    (feasibleModel : Option Solution) :
    admissionLoop createModel solve search draws (fuel + 1) (roundFlows search draws turn) feasibleModel =
      some (roundFlows search draws turn, feasibleModel) := by
  rw [admissionLoop]
  simp only [length_roundFlows]
  change (roundModel search draws createModel turn >>= _) = _
  rw [hmodel, Option.bind_eq_bind, Option.bind_some, hnone]

/-- The loop admits the flows that can be embedded and keeps the solution of its last round. -/
theorem admissionLoop_eq
    (hrounds : ∀ turn, ∃ model, IsRound search draws graph admissible createModel xDecl turn model)
    (hsolve : AnswersRounds search draws createModel solve) {count : Nat}
    (hcount : AdmitsExactly search draws graph admissible count) {fuel : Nat} (hfuel : count < fuel) :
    admissionLoop createModel solve search draws fuel [] none =
      some (roundFlows search draws count, lastSolution search draws createModel solve count) := by
  -- by induction on the rounds that are still to come
  have hrest : ∀ gap turn fuel, turn + gap = count → gap < fuel →
      admissionLoop createModel solve search draws fuel (roundFlows search draws turn)
          (lastSolution search draws createModel solve turn) =
        some (roundFlows search draws count, lastSolution search draws createModel solve count) := by
    intro gap
    induction gap with
    | zero =>
        intro turn fuel hturn hfuel
        obtain ⟨fuel, rfl⟩ : ∃ less, fuel = less + 1 := ⟨fuel - 1, by omega⟩
        obtain rfl : turn = count := by omega
        obtain ⟨model, hround⟩ := hrounds turn
        have hnone : solve model = none := by
          rw [← Option.not_isSome_iff_eq_none, hround.isSome_iff (hsolve turn model hround.created)]
          exact hcount.rejected
        exact admissionLoop_stop hround.created hnone fuel _
    | succ gap ih =>
        intro turn fuel hturn hfuel
        obtain ⟨fuel, rfl⟩ : ∃ less, fuel = less + 1 := ⟨fuel - 1, by omega⟩
        obtain ⟨model, hround⟩ := hrounds turn
        have hsome := (hround.isSome_iff (hsolve turn model hround.created)).mpr (hcount.admitted turn (by omega))
        obtain ⟨x, hx⟩ := Option.isSome_iff_exists.mp hsome
        rw [admissionLoop_succ hround.created hx]
        exact ih (turn + 1) fuel (by omega) (by omega)
  exact hrest count 0 fuel (Nat.zero_add count) hfuel

/-- The solution that is kept is an optimal one of a model of all admitted flows. -/
theorem exists_lastSolution
    (hrounds : ∀ turn, ∃ model, IsRound search draws graph admissible createModel xDecl turn model)
    (hsolve : AnswersRounds search draws createModel solve) {last : Nat}
    (hcount : AdmitsExactly search draws graph admissible (last + 1)) :
    ∃ model x, IsRound search draws graph admissible createModel xDecl last model ∧ solve model = some x ∧
      model.Optimal .alpha x ∧ lastSolution search draws createModel solve (last + 1) = some (model, x) := by
  obtain ⟨model, hround⟩ := hrounds last
  have hanswer := hsolve last model hround.created
  obtain ⟨x, hx⟩ := Option.isSome_iff_exists.mp
    ((hround.isSome_iff hanswer).mpr (hcount.admitted last (Nat.lt_succ_self last)))
  refine ⟨model, x, hround, hx, ?_, ?_⟩
  · rw [hx] at hanswer
    exact hanswer
  · rw [lastSolution, hround.created, Option.bind_eq_bind, Option.bind_some, hx]
    rfl

theorem roundFlows_unsplit : ∀ flow ∈ roundFlows search draws turn, flow.splittingRatio = [] := by
  intro flow hflow
  obtain ⟨turn, -, rfl⟩ := exists_turn_of_mem_roundFlows hflow
  rfl

end Loop

/-! ### Rounds of `compute_ilp_flows` -/

theorem exists_kPathsRound (hsearch : search.Documented graph) (hdraws : ∀ turn, (draws turn).Drawn graph)
    (turn : Nat) :
    ∃ model, IsRound search draws graph IsSplitting (createKPathsModel graph) { lb := 0, ub := some 1 } turn model := by
  have hrouted := routed_roundFlows hsearch hdraws (turn + 1)
  obtain ⟨model, hmodel, hexact⟩ := createKPathsModel_exact (roundFlows_succ turn ▸ hrouted)
  rw [createKPathsModel] at hmodel
  exact ⟨model, hmodel, (congrArg _ (roundFlows_succ turn)).trans hmodel, roundFlows_succ turn ▸ hexact, hrouted⟩

/-- No link gets more of a flow than its rate. -/
theorem flowLoad_le_rate {flow : Flow} {ratio : Nat → ℚ} (hrate : 0 ≤ flow.flowTxRate)
    (hratio : ∀ pathIndex ∈ List.range flow.paths.length, 0 ≤ ratio pathIndex)
    (htotal : ((List.range flow.paths.length).map ratio).sum = 1) (link : NodeId × NodeId) :
    flowLoad flow ratio link ≤ flow.flowTxRate := by
  calc flowLoad flow ratio link
      ≤ (flow.paths.zipIdx.map fun entry => ratio entry.2 * flow.flowTxRate).sum := by
        apply List.sum_le_sum
        intro entry hentry
        have hlt := (List.getElem?_eq_some_iff.mp (List.mk_mem_zipIdx_iff_getElem?.mp hentry)).1
        dsimp only
        split
        · exact le_rfl
        · exact mul_nonneg (hratio entry.2 (List.mem_range.mpr hlt)) hrate
    _ = ((List.range flow.paths.length).map fun pathIndex => ratio pathIndex * flow.flowTxRate).sum :=
        sum_map_zipIdx_snd flow.paths fun pathIndex => ratio pathIndex * flow.flowTxRate
    _ = flow.flowTxRate := by rw [List.sum_map_mul_right, htotal, one_mul]

/-- A single flow always fits: its rate is at most half the capacity of a link. -/
theorem embeddable_first (hsearch : search.Documented graph) (hconn : graph.Connected)
    (hdraws : ∀ turn, (draws turn).Drawn graph) :
    Embeddable graph IsSplitting (roundFlows search draws 1) := by
  have hpos : 0 < (turnPaths search draws 0).length :=
    List.length_pos_iff.mpr (turnPaths_spec hsearch hconn (hdraws 0)).ne_nil
  have hnonneg : ∀ pathIndex ∈ List.range (turnPaths search draws 0).length,
      (0 : ℚ) ≤ if pathIndex = 0 then 1 else 0 := by
    intro pathIndex _
    split
    · exact zero_le_one
    · exact le_rfl
  have htotal : ((List.range (turnPaths search draws 0).length).map fun pathIndex =>
      if pathIndex = 0 then (1 : ℚ) else 0).sum = 1 := by
    obtain ⟨more, hmore⟩ : ∃ more, (turnPaths search draws 0).length = more + 1 :=
      ⟨_ - 1, (Nat.sub_add_cancel hpos).symm⟩
    rw [hmore, List.range_succ_eq_map, List.map_cons, List.map_map, List.sum_cons]
    simp [Function.comp_def]
  refine ⟨fun _ pathIndex => if pathIndex = 0 then 1 else 0, ?_, ?_⟩
  · intro entry hentry
    obtain rfl : entry = (roundFlow search draws 0, 0) := by simpa [roundFlows] using hentry
    exact ⟨hnonneg, htotal⟩
  · intro link _
    have hsingle : linkLoad (roundFlows search draws 1) (fun _ pathIndex => if pathIndex = 0 then 1 else 0) link =
        flowLoad (roundFlow search draws 0) (fun pathIndex => if pathIndex = 0 then 1 else 0) link := by
      simp [linkLoad, roundFlows]
    calc linkLoad (roundFlows search draws 1) (fun _ pathIndex => if pathIndex = 0 then 1 else 0) link
        = flowLoad (roundFlow search draws 0) (fun pathIndex => if pathIndex = 0 then 1 else 0) link := hsingle
      _ ≤ (draws 0).flowTxRate := flowLoad_le_rate (hdraws 0).rate_pos.le hnonneg htotal link
      _ ≤ flowTxRateUpperBound := (hdraws 0).le_upper
      _ ≤ linkCapacity := by norm_num [flowTxRateUpperBound, linkCapacity]

/-- `compute_ilp_flows` admits at least one flow, splits the admitted ones as an optimal solution says, and goes on to
the accounting. -/
theorem exists_computeIlpFlows_eq (hsearch : search.Documented graph) (hconn : graph.Connected)
    (hdraws : ∀ turn, (draws turn).Drawn graph) {solve : LinModel KPathsVar → Option (KPathsVar → ℚ)}
    (hsolve : AnswersRounds search draws (createKPathsModel graph) solve) :
    ∃ count x, 0 < count ∧ AdmitsExactly search draws graph IsSplitting count ∧
      ∀ fuel : Nat, graph.edges.length * linkCapacity / flowTxRateLowerBound < fuel →
        computeIlpFlows solve search fuel graph draws =
          (accountFlows graph ((roundFlows search draws count).zipIdx.map (splitBy x))).map
            ((roundFlows search draws count).zipIdx.map (splitBy x), ·) := by
  have hadmissible : ∀ flowSet ratio, IsSplitting flowSet ratio → IsSplitting flowSet ratio := fun _ _ h => h
  obtain ⟨count, hle, hcount⟩ := exists_admitsExactly hsearch hdraws hadmissible
  cases count with
  | zero => exact absurd (embeddable_first hsearch hconn hdraws) hcount.rejected
  | succ last =>
      obtain ⟨model, x, hround, -, -, hlast⟩ := exists_lastSolution (exists_kPathsRound hsearch hdraws) hsolve hcount
      refine ⟨last + 1, x, Nat.succ_pos last, hcount, fun fuel hfuel => ?_⟩
      have hlt : last + 1 < fuel := by exact_mod_cast lt_of_le_of_lt hle hfuel
      rw [computeIlpFlows, admissionLoop_eq (exists_kPathsRound hsearch hdraws) hsolve hcount hlt, Option.bind_eq_bind,
        Option.bind_some, hlast]
      simp only [readVariables_getVars hround.model_eq x rfl, map_withRatios roundFlows_unsplit, Option.bind_eq_bind,
        Option.bind_some]
      cases accountFlows graph ((roundFlows search draws (last + 1)).zipIdx.map (splitBy x)) <;> rfl

/-! ### The accounting -/

/-- The load that the flows put on a link with their own ratios. -/
def splitLoad (flows : List Flow) (link : NodeId × NodeId) : ℚ :=
  (flows.map fun flow => ((flow.paths.zip flow.splittingRatio).map fun split =>
    if Crosses split.1 link then split.2 * flow.flowTxRate else 0).sum).sum

/-- One entry for every link of the graph, and in it the load of the link. -/
structure HoldsLoads (graph : Graph) (flows : List Flow) (linkCapacityMap : Dict (NodeId × NodeId) ℚ) : Prop where
  keys_eq : linkCapacityMap.keys = graph.edges
  load_eq : ∀ link ∈ graph.edges, linkCapacityMap.get? link = some (splitLoad flows link)

/-- The links that a flow is accounted on, in the order of its paths, each with what is added there. -/
def chargesOf (flow : Flow) : List ((NodeId × NodeId) × ℚ) :=
  (flow.paths.zip flow.splittingRatio).flatMap fun split =>
    (pairwise split.1).map fun hop => (sortedLink hop, split.2 * flow.flowTxRate)

theorem accountFlows_eq (graph : Graph) (flows : List Flow) :
    accountFlows graph flows = (flows.flatMap chargesOf).foldlM
      (fun (d : Dict (NodeId × NodeId) ℚ) charge => d.update? charge.1 fun used => some (used + charge.2))
      (.ofList (graph.edges.map fun link => (link, 0))) := by
  rw [accountFlows, foldlM_flatMap]
  congr 1
  funext d flow
  rw [addSplitFlow, chargesOf, foldlM_flatMap]
  congr 1
  funext d split
  rw [addUtilization, List.foldlM_map, List.foldlM_map]

theorem entries_zeroMap (graph : Graph) :
    (Dict.ofList (graph.edges.map fun link => (link, (0 : ℚ)))).entries = graph.edges.map fun link => (link, 0) := by
  apply Dict.entries_ofList
  rw [List.map_map]
  exact (List.map_id _).symm ▸ List.Nodup.of_map _ Graph.edges_nodup

theorem keys_zeroMap (graph : Graph) :
    (Dict.ofList (graph.edges.map fun link => (link, (0 : ℚ)))).keys = graph.edges := by
  rw [Dict.keys, entries_zeroMap, List.map_map]
  exact List.map_id _

theorem sum_map_ite_eq (links : List (NodeId × NodeId)) (link : NodeId × NodeId) (charge : ℚ) :
    (links.map fun other => if other = link then charge else 0).sum = links.count link * charge := by
  induction links with
  | nil => simp
  | cons first rest ih =>
      rw [List.map_cons, List.sum_cons, ih, List.count_cons]
      by_cases heq : first = link
      · rw [if_pos heq, if_pos (beq_iff_eq.mpr heq)]
        push_cast
        ring
      · rw [if_neg heq, if_neg (fun h => heq (beq_iff_eq.mp h)), zero_add, Nat.add_zero]

/-- What the flows are charged for a link is its load. -/
theorem sum_charges {flows : List Flow} (hpaths : ∀ flow ∈ flows, ∀ path ∈ flow.paths, path.Nodup)
    (link : NodeId × NodeId) :
    ((flows.flatMap chargesOf).map fun charge => if charge.1 = sortedLink link then charge.2 else 0).sum =
      splitLoad flows link := by
  rw [List.map_flatMap, List.flatMap, List.sum_flatten, List.map_map, splitLoad]
  congr 1
  apply List.map_congr_left
  intro flow hflow
  rw [Function.comp_apply, chargesOf, List.map_flatMap, List.flatMap, List.sum_flatten, List.map_map]
  congr 1
  apply List.map_congr_left
  intro split hsplit
  have hcount : ((pairwise split.1).map sortedLink).count (sortedLink link) = if Crosses split.1 link then 1 else 0 :=
    List.Nodup.count (nodup_map_sortedLink (hpaths flow hflow split.1 (List.of_mem_zip hsplit).1))
  have hsum := sum_map_ite_eq ((pairwise split.1).map sortedLink) (sortedLink link) (split.2 * flow.flowTxRate)
  rw [hcount, List.map_map] at hsum
  rw [Function.comp_apply, List.map_map]
  refine hsum.trans ?_
  split <;> simp

/-- The charges of split flows go to all links of their paths. -/
theorem forall_charges_iff (graph : Graph) (flows : List Flow)
    (hlength : ∀ flow ∈ flows, flow.paths.length ≤ flow.splittingRatio.length) :
    (∀ charge ∈ flows.flatMap chargesOf, charge.1 ∈ graph.edges) ↔ ∀ flow ∈ flows, LinksListed graph flow.paths := by
  simp only [chargesOf, List.forall_mem_flatMap, List.forall_mem_map]
  refine forall₂_congr fun flow hflow => ?_
  have hpaths : (flow.paths.zip flow.splittingRatio).map Prod.fst = flow.paths :=
    List.map_fst_zip (hlength flow hflow)
  constructor
  · intro h path hpath
    rw [← hpaths] at hpath
    obtain ⟨split, hsplit, rfl⟩ := List.mem_map.mp hpath
    exact h split hsplit
  · intro h split hsplit
    exact h split.1 (List.of_mem_zip hsplit).1

/-- A charged link that the graph lists is listed in sorted order, and in no other. -/
theorem eq_iff_of_mem_edges {hop link : NodeId × NodeId} (hhop : sortedLink hop ∈ graph.edges)
    (hlink : link ∈ graph.edges) :
    sortedLink hop = link ↔ sortedLink hop = sortedLink link := by
  refine ⟨fun h => ?_, fun h => ?_⟩
  · rw [← h, sortedLink_sortedLink]
  · rw [← sortedLink_sortedLink hop] at h
    exact List.inj_on_of_nodup_map Graph.edges_nodup hhop hlink h

/-- The accounting raises no `KeyError` when the links of the paths are listed in sorted order. -/
theorem isSome_accountFlows_iff {flows : List Flow}
    (hlength : ∀ flow ∈ flows, flow.paths.length ≤ flow.splittingRatio.length) :
    (accountFlows graph flows).isSome ↔ ∀ flow ∈ flows, LinksListed graph flow.paths := by
  have hiff := Dict.isSome_foldlM_update?_iff (flows.flatMap chargesOf) Prod.fst Prod.snd
    (Dict.ofList (graph.edges.map fun link => (link, (0 : ℚ))))
  rw [keys_zeroMap, forall_charges_iff graph flows hlength] at hiff
  rw [accountFlows_eq]
  exact hiff

theorem holdsLoads_of_accountFlows {flows : List Flow} (hpaths : ∀ flow ∈ flows, ∀ path ∈ flow.paths, path.Nodup)
    (hlength : ∀ flow ∈ flows, flow.paths.length ≤ flow.splittingRatio.length)
    {linkCapacityMap : Dict (NodeId × NodeId) ℚ} (h : accountFlows graph flows = some linkCapacityMap) :
    HoldsLoads graph flows linkCapacityMap := by
  have hlisted : ∀ flow ∈ flows, LinksListed graph flow.paths :=
    (isSome_accountFlows_iff hlength).mp (by rw [h]; rfl)
  rw [accountFlows_eq] at h
  obtain ⟨hkeys, hget⟩ := Dict.get?_foldlM_update? h
  refine ⟨hkeys.trans (keys_zeroMap graph), fun link hlink => ?_⟩
  have hzero : (Dict.ofList (graph.edges.map fun link => (link, (0 : ℚ)))).get? link = some 0 := by
    rw [Dict.get?_eq_some_iff, entries_zeroMap]
    exact List.mem_map.mpr ⟨link, hlink, rfl⟩
  rw [hget link 0 hzero, zero_add, ← sum_charges hpaths link]
  congr 2
  apply List.map_congr_left
  intro charge hcharge
  have hcharged := (forall_charges_iff graph flows hlength).mpr hlisted charge hcharge
  simp only [chargesOf, List.mem_flatMap, List.mem_map] at hcharge
  obtain ⟨flow, -, split, -, hop, -, rfl⟩ := hcharge
  simp only [eq_iff_of_mem_edges hcharged hlink]

/-- Splitting changes nothing but the ratios, and gives every path one. -/
theorem exists_turn_of_mem_split {count : Nat} {x : KPathsVar → ℚ} {flow : Flow}
    (h : flow ∈ (roundFlows search draws count).zipIdx.map (splitBy x)) :
    ∃ turn < count, flow.paths = turnPaths search draws turn ∧ flow.paths.length ≤ flow.splittingRatio.length := by
  obtain ⟨entry, hentry, rfl⟩ := List.mem_map.mp h
  obtain ⟨turn, hturn, hflow⟩ := exists_turn_of_mem_roundFlows (mem_of_mem_zipIdx hentry)
  refine ⟨turn, hturn, ?_, by simp [splitBy]⟩
  rw [splitBy, ← hflow]
  rfl

theorem forall_split_linksListed_iff (count : Nat) (x : KPathsVar → ℚ) :
    (∀ flow ∈ (roundFlows search draws count).zipIdx.map (splitBy x), LinksListed graph flow.paths) ↔
      ∀ turn < count, LinksListed graph (turnPaths search draws turn) := by
  constructor
  · intro h turn hturn
    have hget : (roundFlows search draws count)[turn]? = some (roundFlow search draws turn) := by
      rw [roundFlows, List.getElem?_map, List.getElem?_range hturn]
      rfl
    exact h _ (List.mem_map_of_mem (List.mk_mem_zipIdx_iff_getElem?.mpr hget))
  · intro h flow hflow
    obtain ⟨turn, hturn, hpaths, -⟩ := exists_turn_of_mem_split hflow
    rw [hpaths]
    exact h turn hturn

end

/-- `compute_ilp_flows` returns, with the load of every link in its dictionary, exactly when the graph lists every link
that an admitted flow crosses with the smaller end point first; otherwise it raises. -/
theorem ilp_accounts_iff (graph : Graph) (hconn : graph.Connected) (search : PathSearch)
    (hsearch : search.Documented graph) (draws : Nat → GreedyDraw) (hdraws : ∀ turn, (draws turn).Drawn graph)
    (solve : LinModel KPathsVar → Option (KPathsVar → ℚ))
    (hsolve : AnswersRounds search draws (createKPathsModel graph) solve) :
    ∃ count, AdmitsExactly search draws graph IsSplitting count ∧
      ∀ fuel : Nat, graph.edges.length * linkCapacity / flowTxRateLowerBound < fuel →
        ((∃ flows linkCapacityMap, computeIlpFlows solve search fuel graph draws = some (flows, linkCapacityMap) ∧
          HoldsLoads graph flows linkCapacityMap) ↔
        ∀ turn < count, LinksListed graph (turnPaths search draws turn)) := by
  obtain ⟨count, x, -, hcount, hrun⟩ := exists_computeIlpFlows_eq hsearch hconn hdraws hsolve
  refine ⟨count, hcount, fun fuel hfuel => ?_⟩
  have hlength : ∀ flow ∈ (roundFlows search draws count).zipIdx.map (splitBy x),
      flow.paths.length ≤ flow.splittingRatio.length := by
    intro flow hflow
    obtain ⟨turn, -, -, hle⟩ := exists_turn_of_mem_split hflow
    exact hle
  have hpaths : ∀ flow ∈ (roundFlows search draws count).zipIdx.map (splitBy x), ∀ path ∈ flow.paths, path.Nodup := by
    intro flow hflow
    obtain ⟨turn, -, heq, -⟩ := exists_turn_of_mem_split hflow
    rw [heq]
    exact (turnPaths_spec hsearch hconn (hdraws turn)).nodup
  have hsome := @isSome_accountFlows_iff graph _ hlength
  rw [forall_split_linksListed_iff] at hsome
  rw [hrun fuel hfuel, ← hsome]
  constructor
  · rintro ⟨flows, linkCapacityMap, hmap, -⟩
    obtain ⟨account, haccount, -⟩ := Option.map_eq_some_iff.mp hmap
    rw [haccount]
    rfl
  · intro haccount
    obtain ⟨account, haccount⟩ := Option.isSome_iff_exists.mp haccount
    rw [haccount]
    exact ⟨_, account, rfl, holdsLoads_of_accountFlows hpaths hlength haccount⟩

/-! ### A network with a link listed the other way round -/

/-- A flow with one path can be split in one way only. -/
theorem linkLoad_of_single {flowSet : List Flow} (hsingle : ∀ flow ∈ flowSet, flow.paths.length = 1)
    {ratio : Nat → Nat → ℚ} (hratio : IsSplitting flowSet ratio) (link : NodeId × NodeId) :
    linkLoad flowSet ratio link = linkLoad flowSet (fun _ _ => 1) link := by
  unfold linkLoad
  congr 1
  apply List.map_congr_left
  intro entry hentry
  obtain ⟨path, hpath⟩ := List.length_eq_one_iff.mp (hsingle entry.1 (mem_of_mem_zipIdx hentry))
  have hone : ratio entry.2 0 = 1 := by
    have htotal := (hratio entry hentry).2
    rw [hpath] at htotal
    simpa using htotal
  simp [flowLoad, hpath, hone]

/-- Where there is one path only between the nodes, an optimal solution is known. -/
theorem answersRounds_of_single {search : PathSearch} {graph : Graph} {draws : Nat → GreedyDraw}
    (hsearch : search.Documented graph) (hdraws : ∀ turn, (draws turn).Drawn graph)
    (hsingle : ∀ turn, (turnPaths search draws turn).length = 1) :
    AnswersRounds search draws (createKPathsModel graph) (LinModel.solve .alpha) := by
  intro turn model hmodel
  obtain ⟨model', hround⟩ := exists_kPathsRound hsearch hdraws turn
  obtain rfl : model' = model := Option.some.inj (hround.created.symm.trans hmodel)
  have hpaths : ∀ flow ∈ roundFlows search draws (turn + 1), flow.paths.length = 1 := by
    intro flow hflow
    obtain ⟨turn', -, rfl⟩ := exists_turn_of_mem_roundFlows hflow
    exact hsingle turn'
  apply LinModel.answer_solve
  intro x hx
  obtain ⟨hsplits, hcap⟩ := hround.exact.sound x hx
  refine hround.exists_optimal ⟨hsplits, hcap, fun ratio hratio _ => ?_⟩
  unfold maxLinkLoad
  rw [funext (linkLoad_of_single hpaths hsplits), funext (linkLoad_of_single hpaths hratio)]

/-- Two links, the second of them listed as `(2, 1)`. -/
def twoFirst : Graph := .ofEdges [0, 2, 1] (by decide) [(0, 2), (1, 2)]

theorem twoFirst_connected : twoFirst.Connected := connected_of_routesBetween (by decide +kernel)

/-- The same two nodes are drawn in every round. -/
def alwaysBetween (sourceNode destinationNode : NodeId) (_ : Nat) : GreedyDraw where
  sourceNode := sourceNode
  destinationNode := destinationNode
  flowTxRate := 2 / 5

theorem drawn_alwaysBetween {graph : Graph} {s t : NodeId} (hs : s ∈ graph.nodes) (ht : t ∈ graph.nodes) (hne : s ≠ t)
    (turn : Nat) : (alwaysBetween s t turn).Drawn graph :=
  ⟨hs, ht, hne, by norm_num [alwaysBetween, flowTxRateLowerBound], by norm_num [alwaysBetween, flowTxRateUpperBound]⟩

/-- Flows over the first link only are accounted for. -/
theorem ilp_accounts_iff_twoFirst : ∃ count,
    AdmitsExactly (treeSearch twoFirst) (alwaysBetween 0 2) twoFirst IsSplitting count ∧
    ∀ fuel : Nat, twoFirst.edges.length * linkCapacity / flowTxRateLowerBound < fuel →
      ∃ flows linkCapacityMap, computeIlpFlows (LinModel.solve .alpha) (treeSearch twoFirst) fuel twoFirst
        (alwaysBetween 0 2) = some (flows, linkCapacityMap) ∧ HoldsLoads twoFirst flows linkCapacityMap := by
  have hdraws := @drawn_alwaysBetween twoFirst 0 2 (by decide) (by decide) (by decide)
  have hsolve : AnswersRounds (treeSearch twoFirst) (alwaysBetween 0 2) (createKPathsModel twoFirst)
      (LinModel.solve .alpha) := by
    apply answersRounds_of_single (treeSearch_documented _) hdraws
    intro turn
    show (routesBetween twoFirst 0 2).length = 1
    decide +kernel
  obtain ⟨count, hcount, hiff⟩ := ilp_accounts_iff twoFirst twoFirst_connected (treeSearch twoFirst)
    (treeSearch_documented _) (alwaysBetween 0 2) hdraws (LinModel.solve .alpha) hsolve
  refine ⟨count, hcount, fun fuel hfuel => (hiff fuel hfuel).mpr fun turn _ => ?_⟩
  show ∀ path ∈ routesBetween twoFirst 0 2, ∀ hop ∈ pairwise path, sortedLink hop ∈ twoFirst.edges
  decide +kernel

/-- Flows over the second link are looked up as `(1, 2)`, which is not there. -/
theorem reversed_link_not_found : twoFirst.Connected ∧ (treeSearch twoFirst).Documented twoFirst ∧
    (∀ turn, (alwaysBetween 1 2 turn).Drawn twoFirst) ∧
    AnswersRounds (treeSearch twoFirst) (alwaysBetween 1 2) (createKPathsModel twoFirst) (LinModel.solve .alpha) ∧
    ∀ fuel : Nat, twoFirst.edges.length * linkCapacity / flowTxRateLowerBound < fuel →
      computeIlpFlows (LinModel.solve .alpha) (treeSearch twoFirst) fuel twoFirst (alwaysBetween 1 2) = none := by
  have hdraws := @drawn_alwaysBetween twoFirst 1 2 (by decide) (by decide) (by decide)
  have hsolve : AnswersRounds (treeSearch twoFirst) (alwaysBetween 1 2) (createKPathsModel twoFirst)
      (LinModel.solve .alpha) := by
    apply answersRounds_of_single (treeSearch_documented _) hdraws
    intro turn
    show (routesBetween twoFirst 1 2).length = 1
    decide +kernel
  refine ⟨twoFirst_connected, treeSearch_documented _, hdraws, hsolve, fun fuel hfuel => ?_⟩
  obtain ⟨count, x, hpos, -, hrun⟩ :=
    exists_computeIlpFlows_eq (treeSearch_documented _) twoFirst_connected hdraws hsolve
  have hunlisted : ¬∀ flow ∈ (roundFlows (treeSearch twoFirst) (alwaysBetween 1 2) count).zipIdx.map (splitBy x),
      LinksListed twoFirst flow.paths := by
    rw [forall_split_linksListed_iff]
    intro hlisted
    have hroute : [1, 2] ∈ turnPaths (treeSearch twoFirst) (alwaysBetween 1 2) 0 := by decide +kernel
    have hlink : sortedLink (1, 2) ∈ twoFirst.edges := hlisted 0 hpos [1, 2] hroute (1, 2) (by decide)
    exact absurd hlink (by decide +kernel)
  rw [← isSome_accountFlows_iff] at hunlisted
  · rw [hrun fuel hfuel, Option.not_isSome_iff_eq_none.mp hunlisted]
    rfl
  · intro flow hflow
    obtain ⟨turn, -, -, hle⟩ := exists_turn_of_mem_split hflow
    exact hle

end OfTestbed.FlowAllocation
