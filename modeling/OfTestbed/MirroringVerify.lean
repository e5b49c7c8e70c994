import OfTestbed.MirroringNetwork

/-!
The two checks that every flow of a port mirroring trial is mirrored: `verify_trial_state` of the trial, which counts
the flows that the chosen ports carry, and `verify_that_all_flows_are_mirrored` of
`port_mirroring/onos_rest_helpers.py`, which looks for a hop of every flow at a mirrored port. The first compares
numbers and only after the last type, the second looks port ids up in a table of switch ids: both can report success
with a flow that no chosen port carries.
-/

namespace OfTestbed.PortMirroring

open Lib

/-! ### The check of the trial -/

namespace TrialState

variable (trial : TrialState PortMirroringFlow Solution)

/-- `switches[switch_id].get_port(port_id)`. -/
def chosenPort (solution : Solution) : Option SwitchPort := do
  let switch ← trial.switches.get? solution.mirrorSwitchId
  switch.getPort solution.mirrorSwitchPort

/-- The flows that are added for one solution type. -/
def mirroredFlows (solution : Dict Int (List Solution)) : Option (Finset Int) :=
  solution.values.flatten.foldlM (fun (mirroredFlows : Finset Int) solution => do
    let port ← trial.chosenPort solution
    return port.flowList.foldl (fun mirroredFlows flowId => insert flowId mirroredFlows) mirroredFlows) ∅

/-- The set starts anew with every type, and without a type it is not bound. -/
def verifyTrialState : Option Bool := do
  let mirroredFlows ← trial.getSolutionTypes.foldlM (fun (_ : Option (Finset Int)) solutionType => do
    let solution ← trial.getSolutionOfType solutionType
    let mirroredFlows ← trial.mirroredFlows solution
    return some mirroredFlows) none
  let mirroredFlows ← mirroredFlows
  return mirroredFlows.card == trial.flows.entries.length

/-- The ports that the solution of a type chooses. -/
def chosenPorts (solutionType : Text) : List SwitchPort :=
  match trial.getSolutionOfType solutionType with
  | none => []
  | some solution => solution.values.flatten.filterMap trial.chosenPort

/-- Every flow of the trial is on a port that the solution of the type chooses. -/
def Covers (solutionType : Text) : Prop :=
  ∀ flowId ∈ trial.flows.keys, ∃ port ∈ trial.chosenPorts solutionType, flowId ∈ port.flowList

/-- The solutions of the listed types name switches and ports of the trial. -/
def NamesExisting : Prop := ∀ solutionType ∈ trial.getSolutionTypes, ∀ solution,
  trial.getSolutionOfType solutionType = some solution → ∀ entry ∈ solution.values.flatten,
    (trial.chosenPort entry).isSome

def listedFlows (solutionType : Text) : Finset Int := ((trial.chosenPorts solutionType).flatMap (·.flowList)).toFinset

/-- The ids on the chosen ports that are no flows of the trial. -/
def foreignFlows (solutionType : Text) : Finset Int := trial.listedFlows solutionType \ trial.flows.keySet

/-- The flows of the trial that are on no chosen port. -/
def uncoveredFlows (solutionType : Text) : Finset Int := trial.flows.keySet \ trial.listedFlows solutionType

/-- The numbers tell whether all types cover the flows: the last type lists no foreign flow if they do, and as many as
it leaves uncovered only if they do. -/
def NumbersTell : Prop := ∃ last, trial.getSolutionTypes.getLast? = some last ∧
  ((∀ solutionType ∈ trial.getSolutionTypes, trial.Covers solutionType) →
    (∀ solutionType ∈ trial.getSolutionTypes, (trial.getSolutionOfType solutionType).isSome) ∧
      trial.foreignFlows last = ∅) ∧
  ((∀ solutionType ∈ trial.getSolutionTypes, (trial.getSolutionOfType solutionType).isSome) →
    (∃ solutionType ∈ trial.getSolutionTypes, ¬ trial.Covers solutionType) →
      (trial.foreignFlows last).card ≠ (trial.uncoveredFlows last).card)

variable {trial}

theorem mirroredFlows_eq (h : trial.NamesExisting) {solutionType : Text} {solution : Dict Int (List Solution)}
    (htype : solutionType ∈ trial.getSolutionTypes) (hsolution : trial.getSolutionOfType solutionType = some solution) :
    trial.mirroredFlows solution = some (trial.listedFlows solutionType) := by
  have hports := mapM_of_isSome (h solutionType htype solution hsolution)
  have hloop : trial.mirroredFlows solution = some ((solution.values.flatten.filterMap trial.chosenPort).foldl
      (fun mirroredFlows port =>
        port.flowList.foldl (fun mirroredFlows flowId => insert flowId mirroredFlows) mirroredFlows) ∅) := by
    refine foldlM_of_mapM (fun start entry port hport => ?_) hports ∅
    rw [hport]
    rfl
  rw [hloop, foldl_foldl_insert, Finset.empty_union, listedFlows, chosenPorts, hsolution]

/-- The check compares the numbers of the last type, if every listed type has solutions. -/
theorem verifyTrialState_eq (h : trial.NamesExisting) :
    trial.verifyTrialState =
      if ∀ solutionType ∈ trial.getSolutionTypes, (trial.getSolutionOfType solutionType).isSome then
        trial.getSolutionTypes.getLast?.map fun last => (trial.listedFlows last).card == trial.flows.entries.length
      else none := by
  let read : Text → Option (Finset Int) := fun solutionType => do
    let solution ← trial.getSolutionOfType solutionType
    trial.mirroredFlows solution
  have hloop : trial.verifyTrialState = ((trial.getSolutionTypes.mapM read).map
      (·.foldl (fun (_ : Option (Finset Int)) mirroredFlows => some mirroredFlows) none)).bind fun mirroredFlows =>
        mirroredFlows.bind fun mirroredFlows => some (mirroredFlows.card == trial.flows.entries.length) := by
    rw [← foldlM_read, verifyTrialState]
    congr 2
    funext _ solutionType
    simp only [read]
    cases trial.getSolutionOfType solutionType with
    | none => rfl
    | some solution => exact (Option.map_eq_bind ..).symm
  rw [hloop]
  split
  · rename_i hpresent
    have hread : trial.getSolutionTypes.mapM read = some (trial.getSolutionTypes.map trial.listedFlows) := by
      rw [mapM_eq_some_iff, List.map_map]
      apply List.map_congr_left
      intro solutionType htype
      obtain ⟨solution, hsolution⟩ := Option.isSome_iff_exists.mp (hpresent solutionType htype)
      simp only [read, hsolution, Option.bind_eq_bind, Option.bind_some]
      exact mirroredFlows_eq h htype hsolution
    rw [hread, Option.map_some, Option.bind_some, foldl_some_eq_getLast?, List.getLast?_map]
    cases trial.getSolutionTypes.getLast? <;> rfl
  · rename_i hmissing
    obtain ⟨solutionType, hmissing⟩ := not_forall.mp hmissing
    obtain ⟨htype, hmissing⟩ := Classical.not_imp.mp hmissing
    have hnone : read solutionType = none := by
      simp only [read, Option.not_isSome_iff_eq_none.mp hmissing]
      rfl
    rw [mapM_eq_none_of_mem htype hnone]
    rfl

/-- The listed flows are as many as the flows of the trial when the foreign ones are as many as the uncovered ones. -/
theorem card_listedFlows_eq_iff (trial : TrialState PortMirroringFlow Solution) (solutionType : Text) :
    (trial.listedFlows solutionType).card = trial.flows.entries.length ↔
      (trial.foreignFlows solutionType).card = (trial.uncoveredFlows solutionType).card := by
  have hlisted := Finset.card_sdiff_add_card (trial.listedFlows solutionType) trial.flows.keySet
  have hunion := Finset.card_sdiff_add_card trial.flows.keySet (trial.listedFlows solutionType)
  rw [Finset.union_comm] at hunion
  rw [← Dict.card_keySet, foreignFlows, uncoveredFlows]
  omega

theorem verifyTrialState_eq_true_iff (h : trial.NamesExisting) :
    trial.verifyTrialState = some true ↔
      (∀ solutionType ∈ trial.getSolutionTypes, (trial.getSolutionOfType solutionType).isSome) ∧
        ∃ last, trial.getSolutionTypes.getLast? = some last ∧
          (trial.foreignFlows last).card = (trial.uncoveredFlows last).card := by
  rw [verifyTrialState_eq h]
  split
  · rename_i hpresent
    simp only [Option.map_eq_some_iff, beq_iff_eq, card_listedFlows_eq_iff]
    exact ⟨fun hlast => ⟨hpresent, hlast⟩, fun hlast => hlast.2⟩
  · rename_i hmissing
    constructor
    · intro hnone
      cases hnone
    · intro hboth
      exact absurd hboth.1 hmissing

theorem uncoveredFlows_eq_empty {solutionType : Text} (h : trial.Covers solutionType) :
    trial.uncoveredFlows solutionType = ∅ := by
  rw [uncoveredFlows, Finset.sdiff_eq_empty_iff_subset]
  intro flowId hflow
  obtain ⟨port, hport, hlisted⟩ := h flowId (List.mem_toFinset.mp hflow)
  exact List.mem_toFinset.mpr (List.mem_flatMap.mpr ⟨port, hport, hlisted⟩)

/-- The check reports that all types cover the flows of the trial exactly where the numbers tell it. -/
theorem verify_reports_cover_iff (trial : TrialState PortMirroringFlow Solution) (h : trial.NamesExisting) :
    (trial.verifyTrialState = some true ↔ ∀ solutionType ∈ trial.getSolutionTypes, trial.Covers solutionType) ↔
      trial.NumbersTell := by
  rw [verifyTrialState_eq_true_iff h]
  constructor
  · intro hreport
    by_cases hcovers : ∀ solutionType ∈ trial.getSolutionTypes, trial.Covers solutionType
    · obtain ⟨hpresent, last, hlast, hcard⟩ := hreport.mpr hcovers
      refine ⟨last, hlast, fun _ => ⟨hpresent, ?_⟩, fun _ hnot => ?_⟩
      · rw [uncoveredFlows_eq_empty (hcovers last (List.mem_of_getLast? hlast)), Finset.card_empty] at hcard
        exact Finset.card_eq_zero.mp hcard
      · obtain ⟨solutionType, htype, hnot⟩ := hnot
        exact absurd (hcovers solutionType htype) hnot
    · -- a type that does not cover is a type, so that there is a last one
      obtain ⟨last, hlast⟩ : ∃ last, trial.getSolutionTypes.getLast? = some last := by
        apply Option.ne_none_iff_exists'.mp
        intro hnone
        rw [List.getLast?_eq_none_iff] at hnone
        rw [hnone] at hcovers
        exact hcovers fun solutionType htype => absurd htype List.not_mem_nil
      refine ⟨last, hlast, fun hall => absurd hall hcovers, fun hpresent _ hcard => ?_⟩
      exact hcovers (hreport.mp ⟨hpresent, last, hlast, hcard⟩)
  · rintro ⟨last, hlast, hcovered, huncovered⟩
    constructor
    · rintro ⟨hpresent, last', hlast', hcard⟩ solutionType htype
      cases hlast.symm.trans hlast'
      by_contra hnot
      exact huncovered hpresent ⟨solutionType, htype, hnot⟩ hcard
    · intro hall
      obtain ⟨hpresent, hforeign⟩ := hcovered hall
      refine ⟨hpresent, last, hlast, ?_⟩
      rw [hforeign, uncoveredFlows_eq_empty (hall last (List.mem_of_getLast? hlast))]

/-- Two flows that leave a switch by two ports, and the ports that the solution `det` chooses; the others choose both.
-/
def twoFlowTrial (det : List Int) : TrialState PortMirroringFlow Solution where
  toPortMirroringTrial :=
    let chosen := fun portIds : List Int => some (.ofList [(1, portIds.map fun portId => .port ⟨1, portId, .finite 1⟩)])
    .new (chosen det) (chosen [1, 2]) (chosen [1, 2]) (chosen [1, 2])
      (some (.ofList [(1, [.rnd ⟨1, 1, .finite 1, .finite 1⟩, .rnd ⟨1, 2, .finite 1, .finite 1⟩])]))
  topology := []
  flows := .ofList [(0, ⟨0, 1, [(1, 1), (2, 0)]⟩), (1, ⟨1, 1, [(1, 2), (3, 0)]⟩)]
  switches := .ofList [(1, ⟨1, [⟨1, .finite 1, [0]⟩, ⟨2, .finite 1, [1]⟩]⟩)]
  duration := 1
  name := []
  mirroringPorts := .ofList [(1, .ofList [(2, 1), (3, 2)])]

theorem namesExisting_of_flatten (h : ∀ solutionType ∈ trial.getSolutionTypes,
    ∀ entry ∈ ((trial.getSolutionOfType solutionType).map (·.values.flatten)).getD [],
      (trial.chosenPort entry).isSome) :
    trial.NamesExisting := by
  intro solutionType htype solution hsolution entry hentry
  apply h solutionType htype
  rw [hsolution]
  exact hentry

theorem verify_reports_cover_iff_twoFlowTrial : (twoFlowTrial [1, 2]).NumbersTell := by
  apply (verify_reports_cover_iff (twoFlowTrial [1, 2]) (namesExisting_of_flatten (by decide +kernel))).mp
  unfold Covers
  decide +kernel

/-- A type may leave a flow uncovered when the last one covers them all. -/
theorem uncovered_flow_verified : ¬ ∀ trial : TrialState PortMirroringFlow Solution, trial.NamesExisting →
    (trial.verifyTrialState = some true ↔
      ∀ solutionType ∈ trial.getSolutionTypes, trial.Covers solutionType) := by
  intro hclaim
  have hreport := hclaim (twoFlowTrial [1]) (namesExisting_of_flatten (by decide +kernel))
  unfold Covers at hreport
  revert hreport
  decide +kernel

end TrialState

/-! ### The check before the rules are sent -/

/-- `port_ids_to_port_numbers[port_id]`: the table is keyed by switches, and a missing entry is an empty dictionary,
which the look-up leaves behind for look-ups to come. -/
def portNumbersAt (portIdsToPortNumbers : Dict Int (Dict Int Int)) (portId : Int) : Dict Int Int :=
  (portIdsToPortNumbers.get? portId).getD .empty

/-- The flows with a hop that is taken for one at a mirrored port. -/
def mirroredFlowIds (flows : Dict Int PortMirroringFlow) (solutions : Dict Int (List Solution))
    (portIdsToPortNumbers : Dict Int (Dict Int Int)) (idToDpid : Dict Int Text) : Option (Finset Int) :=
  solutions.values.flatten.foldlM (fun (mirroredFlowIds : Finset Int) solution => do
    let mirroredDpid ← idToDpid.get? solution.mirrorSwitchId
    let mirroredPortNumber := portNumbersAt portIdsToPortNumbers solution.mirrorSwitchPort
    flows.entries.foldlM (fun mirroredFlowIds entry =>
      (entry.2.path.zip entry.2.ports).foldlM (fun mirroredFlowIds hop => do
        let flowDpid ← idToDpid.get? hop.1
        let actualPortNumber := portNumbersAt portIdsToPortNumbers hop.2
        return if actualPortNumber.SameItems mirroredPortNumber ∧ flowDpid = mirroredDpid then
            insert entry.1 mirroredFlowIds
          else mirroredFlowIds) mirroredFlowIds) mirroredFlowIds) ∅

/-- `true` stands for the message that all flows have been mirrored. -/
def verifyThatAllFlowsAreMirrored (flows : Dict Int PortMirroringFlow) (solutions : Dict Int (List Solution))
    (portIdsToPortNumbers : Dict Int (Dict Int Int)) (idToDpid : Dict Int Text) : Option Bool := do
  let mirroredFlowIds ← mirroredFlowIds flows solutions portIdsToPortNumbers idToDpid
  return mirroredFlowIds.card == flows.entries.length

namespace PortMirroringFlow

/-- The flow leaves a mirrored switch by the mirrored port. -/
def Crosses (flow : PortMirroringFlow) (solutions : Dict Int (List Solution)) : Prop :=
  ∃ solution ∈ solutions.values.flatten, ∃ i : Nat,
    flow.path[i]? = some solution.mirrorSwitchId ∧ flow.ports[i]? = some solution.mirrorSwitchPort

/-- The flow leaves a mirrored switch by another port, whose id is that of a switch with the same table as the switch
whose id the mirrored port has. -/
def Confused (flow : PortMirroringFlow) (solutions : Dict Int (List Solution))
    (portIdsToPortNumbers : Dict Int (Dict Int Int)) : Prop :=
  ∃ solution ∈ solutions.values.flatten, ∃ hop ∈ flow.hops, hop.1 = solution.mirrorSwitchId ∧
    hop.2 ≠ solution.mirrorSwitchPort ∧
      (portNumbersAt portIdsToPortNumbers hop.2).SameItems
        (portNumbersAt portIdsToPortNumbers solution.mirrorSwitchPort)

theorem zip_path_ports (flow : PortMirroringFlow) : flow.path.zip flow.ports = flow.hops := by
  rw [path, ports, List.zip_map']
  exact List.map_id flow.hops

theorem crosses_iff {flow : PortMirroringFlow} {solutions : Dict Int (List Solution)} :
    flow.Crosses solutions ↔ ∃ solution ∈ solutions.values.flatten,
      (solution.mirrorSwitchId, solution.mirrorSwitchPort) ∈ flow.hops := by
  unfold Crosses
  simp only [List.mem_iff_getElem?, path, ports, List.getElem?_map, Option.map_eq_some_iff]
  constructor
  · rintro ⟨solution, hsolution, i, ⟨hop, hhop, hswitch⟩, hop', hhop', hport⟩
    cases hhop.symm.trans hhop'
    exact ⟨solution, hsolution, i, by rw [← hswitch, ← hport, hhop]⟩
  · rintro ⟨solution, hsolution, i, hhop⟩
    exact ⟨solution, hsolution, i, ⟨_, hhop, rfl⟩, _, hhop, rfl⟩

end PortMirroringFlow

/-- The datapath ids are those of different switches, and there is one for every switch that a flow or a solution
names. -/
structure NamesSwitches (idToDpid : Dict Int Text) (flows : Dict Int PortMirroringFlow)
    (solutions : Dict Int (List Solution)) : Prop where
  injective : ∀ id id' dpid, idToDpid.get? id = some dpid → idToDpid.get? id' = some dpid → id = id'
  flows : ∀ flow ∈ flows.values, ∀ switchId ∈ flow.path, (idToDpid.get? switchId).isSome
  solutions : ∀ solution ∈ solutions.values.flatten, (idToDpid.get? solution.mirrorSwitchId).isSome

/-- The first half of `add_port_mirroring_flows`: the table is built and the flows are checked against it. The
requests come after it, whatever was reported. -/
def Onos.reportMirroredFlows (onos : Onos) (mirroringPorts : Dict Int (Dict Int Int)) (idToDpid : Dict Int Text)
    (flows : Dict Int PortMirroringFlow) (solutions : Dict Int (List Solution)) : Option Bool := do
  let portIdsToPortNumbers ← onos.mapPortIdsToNwPorts mirroringPorts idToDpid
  verifyThatAllFlowsAreMirrored flows solutions portIdsToPortNumbers idToDpid

section Report

variable {idToDpid : Dict Int Text} {flows : Dict Int PortMirroringFlow} {solutions : Dict Int (List Solution)}

/-- The hop is taken for one at the port of the solution. -/
def Taken (portIdsToPortNumbers : Dict Int (Dict Int Int)) (solution : Solution) (hop : Int × Int) : Prop :=
  (portNumbersAt portIdsToPortNumbers hop.2).SameItems (portNumbersAt portIdsToPortNumbers solution.mirrorSwitchPort) ∧
    hop.1 = solution.mirrorSwitchId

theorem exists_mirroredFlowIds (h : NamesSwitches idToDpid flows solutions)
    (portIdsToPortNumbers : Dict Int (Dict Int Int)) : ∃ flowIds : Finset Int,
    mirroredFlowIds flows solutions portIdsToPortNumbers idToDpid = some flowIds ∧
    ∀ flowId, flowId ∈ flowIds ↔ flowId ∈ (∅ : Finset Int) ∨ ∃ solution ∈ solutions.values.flatten,
      ∃ entry ∈ flows.entries, ∃ hop ∈ entry.2.hops, Taken portIdsToPortNumbers solution hop ∧ flowId = entry.1 := by
  apply foldlM_collects
  intro solution hsolution start
  obtain ⟨mirroredDpid, hmirrored⟩ := Option.isSome_iff_exists.mp (h.solutions solution hsolution)
  rw [hmirrored, Option.bind_eq_bind, Option.bind_some]
  apply foldlM_collects
  intro entry hentry start
  rw [entry.2.zip_path_ports]
  apply foldlM_collects
  intro hop hhop start
  have hswitch := h.flows entry.2 (List.mem_map_of_mem hentry) hop.1 (List.mem_map_of_mem hhop)
  obtain ⟨flowDpid, hflow⟩ := Option.isSome_iff_exists.mp hswitch
  have hsame : flowDpid = mirroredDpid ↔ hop.1 = solution.mirrorSwitchId := by
    constructor
    · rintro rfl
      exact h.injective hop.1 solution.mirrorSwitchId flowDpid hflow hmirrored
    · intro hswitch
      rw [hswitch, hmirrored] at hflow
      exact (Option.some.inj hflow).symm
  refine ⟨_, by rw [hflow]; rfl, fun flowId => ?_⟩
  simp only [hsame]
  split
  · rename_i htaken
    rw [Finset.mem_insert, or_comm]
    exact or_congr_right ⟨fun hid => ⟨htaken, hid⟩, fun hid => hid.2⟩
  · rename_i htaken
    exact ⟨Or.inl, fun hor => hor.resolve_right fun hid => htaken hid.1⟩

/-- It reports success when every flow has such a hop. -/
theorem verifyThatAllFlowsAreMirrored_eq_true_iff (h : NamesSwitches idToDpid flows solutions)
    (portIdsToPortNumbers : Dict Int (Dict Int Int)) :
    verifyThatAllFlowsAreMirrored flows solutions portIdsToPortNumbers idToDpid = some true ↔
      ∀ flow ∈ flows.values, ∃ solution ∈ solutions.values.flatten, ∃ hop ∈ flow.hops,
        Taken portIdsToPortNumbers solution hop := by
  obtain ⟨flowIds, hrun, hmem⟩ := exists_mirroredFlowIds h portIdsToPortNumbers
  simp only [Finset.notMem_empty, false_or] at hmem
  have hsubset : flowIds ⊆ flows.keySet := by
    intro flowId hflow
    obtain ⟨_, -, entry, hentry, -, -, -, rfl⟩ := (hmem flowId).mp hflow
    exact List.mem_toFinset.mpr (List.mem_map_of_mem hentry)
  rw [verifyThatAllFlowsAreMirrored, hrun, Option.bind_eq_bind, Option.bind_some, Option.pure_def, Option.some_inj,
    beq_iff_eq, ← Dict.card_keySet]
  constructor
  · intro hcard flow hflow
    obtain ⟨entry, hentry, rfl⟩ := List.mem_map.mp hflow
    have hkey : entry.1 ∈ flowIds := by
      rw [Finset.eq_of_subset_of_card_le hsubset (Nat.le_of_eq hcard.symm)]
      exact List.mem_toFinset.mpr (List.mem_map_of_mem hentry)
    obtain ⟨solution, hsolution, entry', hentry', hop, hhop, htaken, hid⟩ := (hmem entry.1).mp hkey
    have hsame : entry' = entry := List.inj_on_of_nodup_map flows.nodupKeys hentry' hentry hid.symm
    rw [hsame] at hhop
    exact ⟨solution, hsolution, hop, hhop, htaken⟩
  · intro htaken
    apply congrArg Finset.card
    apply Finset.Subset.antisymm hsubset
    intro flowId hflow
    obtain ⟨entry, hentry, rfl⟩ := List.mem_map.mp (List.mem_toFinset.mp hflow)
    obtain ⟨solution, hsolution, hop, hhop, htaken⟩ := htaken entry.2 (List.mem_map_of_mem hentry)
    exact (hmem entry.1).mpr ⟨solution, hsolution, entry, hentry, hop, hhop, htaken, rfl⟩

/-- What is taken for a crossing is one, or the look-ups are confused. -/
theorem exists_taken_iff {flow : PortMirroringFlow} {portIdsToPortNumbers : Dict Int (Dict Int Int)} :
    (∃ solution ∈ solutions.values.flatten, ∃ hop ∈ flow.hops, Taken portIdsToPortNumbers solution hop) ↔
      flow.Crosses solutions ∨ flow.Confused solutions portIdsToPortNumbers := by
  rw [PortMirroringFlow.crosses_iff]
  constructor
  · rintro ⟨solution, hsolution, hop, hhop, hsame, hswitch⟩
    by_cases hport : hop.2 = solution.mirrorSwitchPort
    · left
      refine ⟨solution, hsolution, ?_⟩
      rw [← hswitch, ← hport]
      exact hhop
    · right
      exact ⟨solution, hsolution, hop, hhop, hswitch, hport, hsame⟩
  · rintro (⟨solution, hsolution, hhop⟩ | ⟨solution, hsolution, hop, hhop, hswitch, -, hsame⟩)
    · exact ⟨solution, hsolution, _, hhop, Dict.SameItems.refl _, rfl⟩
    · exact ⟨solution, hsolution, hop, hhop, hsame, hswitch⟩

end Report

/-- The check reports that every flow crosses a mirrored port exactly where that is so or some flow that crosses none
is not confused either. -/
theorem report_mirrored_iff (onos : Onos) (mirroringPorts : Dict Int (Dict Int Int)) (idToDpid : Dict Int Text)
    (flows : Dict Int PortMirroringFlow) (solutions : Dict Int (List Solution))
    (portIdsToPortNumbers : Dict Int (Dict Int Int))
    (hmap : onos.mapPortIdsToNwPorts mirroringPorts idToDpid = some portIdsToPortNumbers)
    (h : NamesSwitches idToDpid flows solutions) :
    (onos.reportMirroredFlows mirroringPorts idToDpid flows solutions = some true ↔
        ∀ flow ∈ flows.values, flow.Crosses solutions) ↔
      ((∃ flow ∈ flows.values, ¬ flow.Crosses solutions) →
        ∃ flow ∈ flows.values, ¬ flow.Crosses solutions ∧ ¬ flow.Confused solutions portIdsToPortNumbers) := by
  rw [Onos.reportMirroredFlows, hmap, Option.bind_eq_bind, Option.bind_some,
    verifyThatAllFlowsAreMirrored_eq_true_iff h]
  simp only [exists_taken_iff]
  constructor
  · rintro hreport ⟨flow, hflow, hcrosses⟩
    by_contra hall
    apply hcrosses
    refine hreport.mp (fun flow' hflow' => ?_) flow hflow
    by_contra hneither
    exact hall ⟨flow', hflow', not_or.mp hneither⟩
  · intro hcondition
    constructor
    · intro hreport flow hflow
      by_contra hcrosses
      obtain ⟨flow', hflow', hneither⟩ := hcondition ⟨flow, hflow, hcrosses⟩
      exact not_or.mpr hneither (hreport flow' hflow')
    · intro hcrosses flow hflow
      exact Or.inl (hcrosses flow hflow)

/-- A switch with a port to either of two others, of which the first is mirrored. -/
def forkOnos : Onos where
  links := [⟨⟨"of:1".toList, "3".toList⟩, ⟨"of:2".toList, "1".toList⟩, "DIRECT".toList⟩,
    ⟨⟨"of:1".toList, "4".toList⟩, ⟨"of:3".toList, "1".toList⟩, "DIRECT".toList⟩]
  hosts := [⟨["10.0.0.3".toList], [⟨"of:3".toList, "5".toList⟩]⟩]

def forkIds : Dict Int Text := .ofList [(1, "of:1".toList), (2, "of:2".toList), (3, "of:3".toList)]

def forkPorts : Dict Int (Dict Int Int) := .ofList [(1, .ofList [(2, 7), (3, 8)])]

def forkFlows (switchId portId : Int) : Dict Int PortMirroringFlow :=
  .ofList [(0, ⟨0, 1, [(1, portId), (switchId, 0)]⟩)]

def forkSolutions : Dict Int (List Solution) := .ofList [(1, [.port ⟨1, 7, .finite 1⟩])]

theorem forkIds_injective : ∀ id id' dpid, forkIds.get? id = some dpid → forkIds.get? id' = some dpid → id = id' := by
  have hentries : ∀ e ∈ forkIds.entries, ∀ e' ∈ forkIds.entries, e.2 = e'.2 → e.1 = e'.1 := by decide
  intro id id' dpid hid hid'
  exact hentries (id, dpid) (Dict.get?_eq_some_iff.mp hid) (id', dpid) (Dict.get?_eq_some_iff.mp hid') rfl

theorem report_mirrored_iff_fork :
    forkOnos.reportMirroredFlows forkPorts forkIds (forkFlows 2 7) forkSolutions = some true ↔
      ∀ flow ∈ (forkFlows 2 7).values, flow.Crosses forkSolutions := by
  have hmap : forkOnos.mapPortIdsToNwPorts forkPorts forkIds = some (.ofList [(1, .ofList [(7, 3), (8, 4)])]) := by
    decide +kernel
  have hnames : NamesSwitches forkIds (forkFlows 2 7) forkSolutions :=
    ⟨forkIds_injective, by decide +kernel, by decide +kernel⟩
  have hcrosses : ∀ flow ∈ (forkFlows 2 7).values, flow.Crosses forkSolutions := by
    simp only [PortMirroringFlow.crosses_iff]
    decide +kernel
  apply (report_mirrored_iff forkOnos forkPorts forkIds (forkFlows 2 7) forkSolutions _ hmap hnames).mpr
  rintro ⟨flow, hflow, hnone⟩
  exact absurd (hcrosses flow hflow) hnone

/-- The ports 7 and 8 are no switches, so that both are looked up as the empty table. -/
theorem unmirrored_flow_reported : ¬ ∀ (onos : Onos) (mirroringPorts : Dict Int (Dict Int Int))
    (idToDpid : Dict Int Text) (flows : Dict Int PortMirroringFlow) (solutions : Dict Int (List Solution))
    (portIdsToPortNumbers : Dict Int (Dict Int Int)),
    onos.mapPortIdsToNwPorts mirroringPorts idToDpid = some portIdsToPortNumbers →
    NamesSwitches idToDpid flows solutions →
    (∀ solution ∈ solutions.values.flatten, ∃ neighbourId,
      mirroringPorts.get2? solution.mirrorSwitchId neighbourId = some solution.mirrorSwitchPort) →
    (onos.reportMirroredFlows mirroringPorts idToDpid flows solutions = some true ↔
      ∀ flow ∈ flows.values, flow.Crosses solutions) := by
  intro hclaim
  have hmap : forkOnos.mapPortIdsToNwPorts forkPorts forkIds = some (.ofList [(1, .ofList [(7, 3), (8, 4)])]) := by
    decide +kernel
  have hports : ∀ solution ∈ forkSolutions.values.flatten,
      forkPorts.get2? solution.mirrorSwitchId 2 = some solution.mirrorSwitchPort := by decide +kernel
  have hreport := hclaim forkOnos forkPorts forkIds (forkFlows 3 8) forkSolutions _ hmap
    ⟨forkIds_injective, by decide +kernel, by decide +kernel⟩ fun solution hsolution => ⟨2, hports solution hsolution⟩
  have hcrosses := hreport.mp (by decide +kernel)
  simp only [PortMirroringFlow.crosses_iff] at hcrosses
  revert hcrosses
  decide +kernel

end OfTestbed.PortMirroring
