import OfTestbed.LibDefaultDict
import OfTestbed.LibFloatText

/-!
The files of flows and switches of the mirroring trials: `FlowDefinition` and `SwitchDefinition` in
`trials/flow_mirroring_trial.py`, `PortMirroringSwitch` in `trials/port_mirroring_trial.py`. A record is a line of
numbers without a count, so that its list ends with the line; a switch with ports is as many lines, which the reader
groups by the id of the switch. `none` is an exception.
-/

namespace OfTestbed.PortMirroring

open Lib

/-- `to_undelimited_list`, which looks at the last element first and so raises on an empty list. -/
def toUndelimitedList (pythonList : List Int) : Option Text :=
  pythonList.getLast?.map fun last => (pythonList.dropLast.flatMap fun elem => formatD elem ++ [' ']) ++ formatD last

/-- `flow_list_to_str`. -/
def flowListToStr (flowList : List Int) : Text :=
  (flowList.dropLast.flatMap fun flowId => formatD flowId ++ [' ']) ++
    match flowList.getLast? with
    | none => []
    | some flowId => formatD flowId

structure FlowDefinition where
  flowId : Int
  trafficRate : FloatValue
  path : List Int
  deriving DecidableEq

namespace FlowDefinition

/-- The line of a flow, without the line break. -/
def line (flow : FlowDefinition) : Option Text :=
  (toUndelimitedList flow.path).map fun path =>
    formatD flow.flowId ++ ' ' :: flow.trafficRate.format ++ ' ' :: path

def serialize (flows : Dict Int FlowDefinition) : Option Text := do
  let lines ← flows.values.mapM line
  return lines.flatMap (· ++ ['\n'])

def deserializeLine (line : Text) : Option FlowDefinition :=
  match line.splitOn ' ' with
  | flowId :: trafficRate :: path => do
      let flowId ← int flowId
      let trafficRate ← readFloat trafficRate
      let path ← path.mapM int
      return { flowId := flowId, trafficRate := trafficRate, path := path }
  | _ => none

def deserialize (text : Text) : Option (Dict Int FlowDefinition) :=
  (splitlines text).foldlM (fun (flows : Dict Int FlowDefinition) line => do
    let flowDef ← deserializeLine line
    return flows.set flowDef.flowId flowDef) .empty

end FlowDefinition

structure SwitchDefinition where
  switchId : Int
  residentFlows : List Int
  deriving DecidableEq

namespace SwitchDefinition

/-- The line of a switch, without the line break. -/
def line (switch : SwitchDefinition) : Option Text :=
  if 0 < switch.residentFlows.length then
    (toUndelimitedList switch.residentFlows).map fun flows => formatD switch.switchId ++ ' ' :: flows
  else
    some (formatD switch.switchId)

def serialize (switches : Dict Int SwitchDefinition) : Option Text := do
  let lines ← switches.values.mapM line
  return lines.flatMap (· ++ ['\n'])

def deserializeLine (line : Text) : Option SwitchDefinition :=
  match line.splitOn ' ' with
  | switchId :: residentFlows => do
      let switchId ← int switchId
      let residentFlows ← residentFlows.mapM int
      return { switchId := switchId, residentFlows := residentFlows }
  | _ => none

def deserialize (text : Text) : Option (Dict Int SwitchDefinition) :=
  (splitlines text).foldlM (fun (switches : Dict Int SwitchDefinition) line => do
    let switchDef ← deserializeLine line
    return switches.set switchDef.switchId switchDef) .empty

end SwitchDefinition

structure SwitchPort where
  portId : Int
  flowRate : FloatValue
  flowList : List Int
  deriving DecidableEq

structure PortMirroringSwitch where
  switchId : Int
  ports : List SwitchPort
  deriving DecidableEq

namespace PortMirroringSwitch

/-- The first port with the id. -/
def getPort (switch : PortMirroringSwitch) (portId : Int) : Option SwitchPort :=
  switch.ports.find? fun port => port.portId = portId

/-- The line of a port, without the line break. -/
def line (switch : PortMirroringSwitch) (port : SwitchPort) : Text :=
  formatD switch.switchId ++ ' ' :: formatD port.portId ++ ' ' :: port.flowRate.format ++ ' ' ::
    flowListToStr port.flowList

def serialize (switches : Dict Int PortMirroringSwitch) : Text :=
  (switches.values.flatMap fun switch => switch.ports.map switch.line).flatMap (· ++ ['\n'])

/-- A line of the reader: the id of the switch and the port. -/
def readPort (line : Text) : Option (Int × SwitchPort) :=
  match line.splitOn ' ' with
  | switchId :: portId :: portRate :: flowList => do
      let switchId ← int switchId
      let portId ← int portId
      let portRate ← readFloat portRate
      let flowList ← (flowList.filter (· ≠ [])).mapM int
      return (switchId, { portId := portId, flowRate := portRate, flowList := flowList })
  | _ => none

def deserialize (text : Text) : Option (Dict Int PortMirroringSwitch) := do
  let ports ← (splitlines text).foldlM (fun (ports : Dict Int (List SwitchPort)) line => do
    let (switchId, port) ← readPort line
    return ports.push switchId port) .empty
  return .ofList (ports.entries.map fun (switchId, ports) => (switchId, ⟨switchId, ports⟩))

end PortMirroringSwitch

/-! ### Lists in a line -/

theorem toUndelimitedList_eq {pythonList : List Int} (hne : pythonList ≠ []) :
    toUndelimitedList pythonList = some ([' '].intercalate (pythonList.map formatD)) := by
  obtain ⟨last, hlast⟩ := Option.ne_none_iff_exists'.mp (mt List.getLast?_eq_none_iff.mp hne)
  have htokens : (pythonList.map formatD).getLast? = some (formatD last) := by
    rw [List.getLast?_map, hlast]
    rfl
  rw [toUndelimitedList, hlast, Option.map_some, ← flatMap_dropLast_eq_intercalate htokens, ← List.map_dropLast,
    List.flatMap_map]

/-- The tokens of a flow list: an empty list leaves an empty token. -/
def listTokens (flowList : List Int) : List Text := if flowList = [] then [[]] else flowList.map formatD

theorem flowListToStr_eq (flowList : List Int) : flowListToStr flowList = [' '].intercalate (listTokens flowList) := by
  unfold listTokens
  split
  · rename_i hempty
    rw [hempty]
    rfl
  · rename_i hne
    have hlist := toUndelimitedList_eq hne
    obtain ⟨last, hlast⟩ := Option.ne_none_iff_exists'.mp (mt List.getLast?_eq_none_iff.mp hne)
    rw [toUndelimitedList, hlast, Option.map_some, Option.some_inj] at hlist
    rw [flowListToStr, hlast]
    exact hlist

theorem listTokens_ne_nil (flowList : List Int) : listTokens flowList ≠ [] := by
  unfold listTokens
  split
  · exact List.cons_ne_nil _ _
  · rename_i hne
    exact mt List.map_eq_nil_iff.mp hne

theorem mem_chars_of_mem_listTokens {flowList : List Int} : ∀ token ∈ listTokens flowList, ∀ c ∈ token,
    c ∈ FloatValue.chars := by
  unfold listTokens
  split
  · intro token htoken c hc
    rw [List.mem_singleton.mp htoken] at hc
    cases hc
  · exact mem_chars_of_mem_map_formatD

theorem formatD_ne_nil (n : Int) : formatD n ≠ [] := by
  intro hempty
  have hread := int_formatD n
  rw [hempty] at hread
  cases hread

theorem mapM_int_listTokens (flowList : List Int) :
    ((listTokens flowList).filter (· ≠ [])).mapM int = some flowList := by
  unfold listTokens
  split
  · rename_i hempty
    rw [hempty]
    rfl
  · have hall : ∀ token ∈ flowList.map formatD, decide (token ≠ []) = true := by
      intro token htoken
      obtain ⟨n, -, rfl⟩ := List.mem_map.mp htoken
      exact decide_eq_true (formatD_ne_nil n)
    rw [List.filter_eq_self.mpr hall]
    exact mapM_int_formatD flowList

/-! ### Files of lines -/

/-- The reader takes the lines of the writer apart again. -/
theorem exists_lines {α β : Type} {line : α → Option Text} {read : Text → Option β} {back : α → β} {records : List α}
    (h : ∀ record ∈ records, ∃ text, line record = some text ∧ (∀ c ∈ text, isLineBreak c = false) ∧
      read text = some (back record)) :
    ∃ lines, records.mapM line = some lines ∧ splitlines (lines.flatMap (· ++ ['\n'])) = lines ∧
      lines.mapM read = some (records.map back) := by
  obtain ⟨lines, hlines⟩ := exists_mapM fun record hrecord => (h record hrecord).imp fun _ hline => hline.1
  refine ⟨lines, hlines, splitlines_flatMap fun text htext => ?_, ?_⟩
  · obtain ⟨record, hrecord, hline⟩ := exists_of_mem_mapM hlines htext
    obtain ⟨text', hline', hbreaks, -⟩ := h record hrecord
    cases hline.symm.trans hline'
    exact hbreaks
  · rw [mapM_eq_some_iff, List.map_map]
    have hread : lines.map read = records.map fun record => (line record).bind read := by
      calc lines.map read = (lines.map some).map (Option.bind · read) := by
            rw [List.map_map]
            rfl
        _ = (records.map line).map (Option.bind · read) := by rw [mapM_eq_some_iff.mp hlines]
        _ = records.map fun record => (line record).bind read := by
            rw [List.map_map]
            rfl
    rw [hread]
    apply List.map_congr_left
    intro record hrecord
    obtain ⟨text, hline, -, hback⟩ := h record hrecord
    rw [hline, Option.bind_some, hback]
    rfl

/-- Records that are put under their own ids, one after the other, form the map of which they are the values. -/
theorem foldl_set_values {ν : Type} {id : ν → Int} {back : ν → ν} {records : Dict Int ν}
    (hids : ∀ recordId record, records.get? recordId = some record → id (back record) = recordId) :
    (records.values.map back).foldl (fun (d : Dict Int ν) record => d.set (id record) record) .empty =
      records.mapValues back := by
  have hentries : (records.values.map back).map (fun record => (id record, record)) =
      records.entries.map fun entry => (entry.1, back entry.2) := by
    rw [Dict.values, List.map_map, List.map_map]
    apply List.map_congr_left
    intro entry hentry
    rw [← hids entry.1 entry.2 (Dict.get?_eq_some_iff.mpr hentry)]
    rfl
  have hlist : (records.values.map back).foldl (fun (d : Dict Int ν) record => d.set (id record) record) .empty =
      Dict.ofList (records.entries.map fun entry => (entry.1, back entry.2)) := by
    simp only [← hentries, Dict.ofList, List.foldl_map]
  have hkeys : ((records.entries.map fun entry => (entry.1, back entry.2)).map Prod.fst).Nodup := by
    rw [List.map_map]
    exact records.nodupKeys
  rw [hlist]
  exact Dict.ext_entries (Dict.entries_ofList hkeys)

/-! ### Flows and switches of flow mirroring -/

/-- The flow with its rate rounded. -/
def FlowDefinition.rounded (flow : FlowDefinition) : FlowDefinition :=
  { flow with trafficRate := flow.trafficRate.rounded }

theorem FlowDefinition.exists_line {flow : FlowDefinition} (hne : flow.path ≠ []) :
    ∃ text, flow.line = some text ∧ (∀ c ∈ text, isLineBreak c = false) ∧
      deserializeLine text = some flow.rounded := by
  have hchars : ∀ token ∈ formatD flow.flowId :: flow.trafficRate.format :: flow.path.map formatD, ∀ c ∈ token,
      c ∈ FloatValue.chars := by
    refine List.forall_mem_cons.mpr ⟨fun c hc => mem_chars_of_mem_formatD hc, ?_⟩
    exact List.forall_mem_cons.mpr ⟨fun c hc => FloatValue.mem_chars_of_mem_format hc, mem_chars_of_mem_map_formatD⟩
  have htokens : flow.path.map formatD ≠ [] := mt List.map_eq_nil_iff.mp hne
  have hline : flow.line = some ([' '].intercalate
      (formatD flow.flowId :: flow.trafficRate.format :: flow.path.map formatD)) := by
    rw [line, toUndelimitedList_eq hne, Option.map_some, List.intercalate_cons_cons,
      List.intercalate_cons_of_ne_nil htokens]
    simp
  refine ⟨_, hline, isLineBreak_of_mem_numbers hchars, ?_⟩
  rw [deserializeLine, splitOn_numbers (List.cons_ne_nil _ _) hchars]
  simp only [int_formatD, FloatValue.readFloat_format, mapM_int_formatD, Option.bind_eq_bind, Option.bind_some,
    Option.pure_def, rounded]

theorem SwitchDefinition.exists_line (switch : SwitchDefinition) :
    ∃ text, switch.line = some text ∧ (∀ c ∈ text, isLineBreak c = false) ∧ deserializeLine text = some switch := by
  have hchars : ∀ token ∈ formatD switch.switchId :: switch.residentFlows.map formatD, ∀ c ∈ token,
      c ∈ FloatValue.chars :=
    List.forall_mem_cons.mpr ⟨fun c hc => mem_chars_of_mem_formatD hc, mem_chars_of_mem_map_formatD⟩
  have hline : switch.line = some ([' '].intercalate
      (formatD switch.switchId :: switch.residentFlows.map formatD)) := by
    unfold line
    by_cases hempty : switch.residentFlows = []
    · simp [hempty]
    · have htokens : switch.residentFlows.map formatD ≠ [] := mt List.map_eq_nil_iff.mp hempty
      rw [if_pos (List.length_pos_of_ne_nil hempty), toUndelimitedList_eq hempty, Option.map_some,
        List.intercalate_cons_of_ne_nil htokens]
      simp
  refine ⟨_, hline, isLineBreak_of_mem_numbers hchars, ?_⟩
  rw [deserializeLine, splitOn_numbers (List.cons_ne_nil _ _) hchars]
  simp only [int_formatD, mapM_int_formatD, Option.bind_eq_bind, Option.bind_some, Option.pure_def]

theorem FlowDefinition.deserialize_of_lines {flows : Dict Int FlowDefinition} {text : Text} {lines : List Text}
    (hids : ∀ flowId flow, flows.get? flowId = some flow → flow.flowId = flowId) (hsplit : splitlines text = lines)
    (hread : lines.mapM deserializeLine = some (flows.values.map rounded)) :
    deserialize text = some (flows.mapValues rounded) := by
  have hloop : deserialize text = some ((flows.values.map rounded).foldl
      (fun (d : Dict Int FlowDefinition) flow => d.set flow.flowId flow) .empty) := by
    rw [deserialize, hsplit]
    refine foldlM_of_mapM (fun d line flow hline => ?_) hread Dict.empty
    rw [hline]
    rfl
  rw [hloop]
  exact congrArg some (foldl_set_values hids)

theorem SwitchDefinition.deserialize_of_lines {switches : Dict Int SwitchDefinition} {text : Text} {lines : List Text}
    (hids : ∀ switchId switch, switches.get? switchId = some switch → switch.switchId = switchId)
    (hsplit : splitlines text = lines) (hread : lines.mapM deserializeLine = some (switches.values.map id)) :
    deserialize text = some switches := by
  have hloop : deserialize text = some ((switches.values.map id).foldl
      (fun (d : Dict Int SwitchDefinition) switch => d.set switch.switchId switch) .empty) := by
    rw [deserialize, hsplit]
    refine foldlM_of_mapM (fun d line switch hline => ?_) hread Dict.empty
    rw [hline]
    rfl
  have hkept : switches.mapValues id = switches := Dict.ext_entries (List.map_id switches.entries)
  rw [hloop]
  exact congrArg some ((foldl_set_values hids).trans hkept)

/-- Both readers give back what was written: the same ids in the same order, every path and flow list, and the rates
rounded. They reject no line that was written. -/
theorem definitions_read_back (flows : Dict Int FlowDefinition) (switches : Dict Int SwitchDefinition)
    (hflows : ∀ flowId flow, flows.get? flowId = some flow → flow.flowId = flowId ∧ flow.path ≠ [])
    (hswitches : ∀ switchId switch, switches.get? switchId = some switch → switch.switchId = switchId) :
    (∃ text, FlowDefinition.serialize flows = some text ∧
      FlowDefinition.deserialize text = some (flows.mapValues FlowDefinition.rounded) ∧
      ∀ line ∈ splitlines text, (FlowDefinition.deserializeLine line).isSome) ∧
    ∃ text, SwitchDefinition.serialize switches = some text ∧ SwitchDefinition.deserialize text = some switches ∧
      ∀ line ∈ splitlines text, (SwitchDefinition.deserializeLine line).isSome := by
  constructor
  · have hlines : ∀ flow ∈ flows.values, ∃ text, flow.line = some text ∧ (∀ c ∈ text, isLineBreak c = false) ∧
        FlowDefinition.deserializeLine text = some flow.rounded := by
      intro flow hflow
      obtain ⟨entry, hentry, rfl⟩ := List.mem_map.mp hflow
      exact FlowDefinition.exists_line (hflows entry.1 entry.2 (Dict.get?_eq_some_iff.mpr hentry)).2
    obtain ⟨lines, hwritten, hsplit, hread⟩ := exists_lines hlines
    refine ⟨lines.flatMap (· ++ ['\n']), ?_, ?_, fun line hline => ?_⟩
    · rw [FlowDefinition.serialize, hwritten]
      rfl
    · exact FlowDefinition.deserialize_of_lines (fun flowId flow hget => (hflows flowId flow hget).1) hsplit hread
    · rw [hsplit] at hline
      obtain ⟨flow, -, hflow⟩ := exists_of_mem_of_mapM hread hline
      exact Option.isSome_of_eq_some hflow
  · have hlines : ∀ switch ∈ switches.values, ∃ text, switch.line = some text ∧ (∀ c ∈ text, isLineBreak c = false) ∧
        SwitchDefinition.deserializeLine text = some (id switch) := fun switch _ => switch.exists_line
    obtain ⟨lines, hwritten, hsplit, hread⟩ := exists_lines hlines
    refine ⟨lines.flatMap (· ++ ['\n']), ?_, ?_, fun line hline => ?_⟩
    · rw [SwitchDefinition.serialize, hwritten]
      rfl
    · exact SwitchDefinition.deserialize_of_lines hswitches hsplit hread
    · rw [hsplit] at hline
      obtain ⟨switch, -, hswitch⟩ := exists_of_mem_of_mapM hread hline
      exact Option.isSome_of_eq_some hswitch

def twoFlows : Dict Int FlowDefinition := .ofList [(4, ⟨4, .finite (1 / 3), [2, 0, 1]⟩), (1, ⟨1, .infinity false, [7]⟩)]

def twoSwitches : Dict Int SwitchDefinition := .ofList [(2, ⟨2, [4, 1]⟩), (0, ⟨0, []⟩)]

theorem definitions_read_back_two :
    ((∃ text, FlowDefinition.serialize twoFlows = some text ∧
      FlowDefinition.deserialize text = some (twoFlows.mapValues FlowDefinition.rounded) ∧
      ∀ line ∈ splitlines text, (FlowDefinition.deserializeLine line).isSome) ∧
    ∃ text, SwitchDefinition.serialize twoSwitches = some text ∧ SwitchDefinition.deserialize text = some twoSwitches ∧
      ∀ line ∈ splitlines text, (SwitchDefinition.deserializeLine line).isSome) ∧
    twoFlows.mapValues FlowDefinition.rounded =
      .ofList [(4, ⟨4, .finite (333333 / 1000000), [2, 0, 1]⟩), (1, ⟨1, .infinity false, [7]⟩)] := by
  have hflows : ∀ entry ∈ twoFlows.entries, entry.2.flowId = entry.1 ∧ entry.2.path ≠ [] := by decide +kernel
  have hswitches : ∀ entry ∈ twoSwitches.entries, entry.2.switchId = entry.1 := by decide
  refine ⟨definitions_read_back twoFlows twoSwitches ?_ ?_, by decide +kernel⟩
  · intro flowId flow hget
    exact hflows (flowId, flow) (Dict.get?_eq_some_iff.mp hget)
  · intro switchId switch hget
    exact hswitches (switchId, switch) (Dict.get?_eq_some_iff.mp hget)

/-! ### Switches of port mirroring -/

/-- The port with its rate rounded. -/
def SwitchPort.rounded (port : SwitchPort) : SwitchPort := { port with flowRate := port.flowRate.rounded }

namespace PortMirroringSwitch

/-- The switch with the rates of its ports rounded. -/
def rounded (switch : PortMirroringSwitch) : PortMirroringSwitch :=
  { switch with ports := switch.ports.map SwitchPort.rounded }

theorem line_spec (switch : PortMirroringSwitch) (port : SwitchPort) :
    (∀ c ∈ switch.line port, isLineBreak c = false) ∧
      readPort (switch.line port) = some (switch.switchId, port.rounded) := by
  have hchars : ∀ token ∈ formatD switch.switchId :: formatD port.portId :: port.flowRate.format ::
      listTokens port.flowList, ∀ c ∈ token, c ∈ FloatValue.chars := by
    refine List.forall_mem_cons.mpr ⟨fun c hc => mem_chars_of_mem_formatD hc, ?_⟩
    refine List.forall_mem_cons.mpr ⟨fun c hc => mem_chars_of_mem_formatD hc, ?_⟩
    exact List.forall_mem_cons.mpr ⟨fun c hc => FloatValue.mem_chars_of_mem_format hc, mem_chars_of_mem_listTokens⟩
  have hline : switch.line port = [' '].intercalate
      (formatD switch.switchId :: formatD port.portId :: port.flowRate.format :: listTokens port.flowList) := by
    rw [line, flowListToStr_eq, List.intercalate_cons_cons, List.intercalate_cons_cons,
      List.intercalate_cons_of_ne_nil (listTokens_ne_nil port.flowList)]
    simp
  rw [hline]
  refine ⟨isLineBreak_of_mem_numbers hchars, ?_⟩
  rw [readPort, splitOn_numbers (List.cons_ne_nil _ _) hchars]
  simp only [int_formatD, FloatValue.readFloat_format, mapM_int_listTokens, Option.bind_eq_bind, Option.bind_some,
    Option.pure_def, SwitchPort.rounded]

/-- The lines of the file, with the ids and ports that are read from them. -/
theorem read_lines (switches : Dict Int PortMirroringSwitch) :
    splitlines (serialize switches) = (switches.values.flatMap fun switch => switch.ports.map switch.line) ∧
      (splitlines (serialize switches)).mapM readPort =
        some (switches.values.flatMap fun switch => switch.ports.map fun port => (switch.switchId, port.rounded)) := by
  have hlines : ∀ text ∈ switches.values.flatMap fun switch => switch.ports.map switch.line,
      ∀ c ∈ text, isLineBreak c = false := by
    intro text htext
    obtain ⟨switch, -, hport⟩ := List.mem_flatMap.mp htext
    obtain ⟨port, -, rfl⟩ := List.mem_map.mp hport
    exact (switch.line_spec port).1
  have hsplit := splitlines_flatMap hlines
  refine ⟨hsplit, ?_⟩
  rw [serialize, hsplit, mapM_eq_some_iff, List.map_flatMap, List.map_flatMap]
  congr 1
  funext switch
  rw [List.map_map, List.map_map]
  apply List.map_congr_left
  intro port _
  exact (switch.line_spec port).2

/-- The lines of a file are grouped by switch as they were written. -/
theorem groups_lines {switches : Dict Int PortMirroringSwitch}
    (h : ∀ switchId switch, switches.get? switchId = some switch → switch.switchId = switchId ∧ switch.ports ≠ []) :
    Dict.groups (switches.values.flatMap fun switch => switch.ports.map fun port => (switch.switchId, port.rounded)) =
      switches.mapValues fun switch => switch.ports.map SwitchPort.rounded := by
  have hungroup : (switches.values.flatMap fun switch => switch.ports.map fun port =>
      (switch.switchId, port.rounded)) =
        (switches.mapValues fun switch => switch.ports.map SwitchPort.rounded).ungroup := by
    unfold Dict.ungroup Dict.mapValues Dict.values
    rw [List.flatMap_map, List.flatMap_map]
    apply List.flatMap_congr
    intro entry hentry
    rw [List.map_map, (h entry.1 entry.2 (Dict.get?_eq_some_iff.mpr hentry)).1]
    rfl
  rw [hungroup]
  apply Dict.groups_ungroup
  intro entry hentry
  obtain ⟨switch, hswitch, rfl⟩ := List.mem_map.mp hentry
  exact mt List.map_eq_nil_iff.mp (h switch.1 switch.2 (Dict.get?_eq_some_iff.mpr hswitch)).2

/-- The reader gives back what was written: the same switches in the same order, each with its ports in their order,
their flow lists, and the rates rounded. -/
theorem switches_read_back (switches : Dict Int PortMirroringSwitch)
    (h : ∀ switchId switch, switches.get? switchId = some switch → switch.switchId = switchId ∧ switch.ports ≠ []) :
    deserialize (serialize switches) = some (switches.mapValues rounded) := by
  have hloop : (splitlines (serialize switches)).foldlM (fun (ports : Dict Int (List SwitchPort)) line => do
      let (switchId, port) ← readPort line
      return ports.push switchId port) .empty =
        some (switches.mapValues fun switch => switch.ports.map SwitchPort.rounded) := by
    rw [← groups_lines h]
    refine foldlM_of_mapM (fun d line entry hline => ?_) (read_lines switches).2 Dict.empty
    rw [hline]
    rfl
  have hentries : ((switches.mapValues fun switch => switch.ports.map SwitchPort.rounded).entries.map fun entry =>
      (entry.1, (⟨entry.1, entry.2⟩ : PortMirroringSwitch))) = (switches.mapValues rounded).entries := by
    unfold Dict.mapValues
    rw [List.map_map]
    apply List.map_congr_left
    intro entry hentry
    show (entry.1, (⟨entry.1, _⟩ : PortMirroringSwitch)) = (entry.1, ⟨entry.2.switchId, _⟩)
    rw [(h entry.1 entry.2 (Dict.get?_eq_some_iff.mpr hentry)).1]
  rw [deserialize, hloop, Option.bind_eq_bind, Option.bind_some]
  apply congrArg some
  apply Dict.ext_entries
  rw [hentries]
  exact Dict.entries_ofList (switches.mapValues rounded).nodupKeys

def threePorts : Dict Int PortMirroringSwitch :=
  .ofList [(3, ⟨3, [⟨1, .finite (2 / 3), [5, -2]⟩, ⟨0, .finite 0, []⟩]⟩), (0, ⟨0, [⟨1, .nan, [5]⟩]⟩)]

theorem switches_read_back_threePorts :
    deserialize (serialize threePorts) = some (.ofList [
      (3, ⟨3, [⟨1, .finite (666667 / 1000000), [5, -2]⟩, ⟨0, .finite 0, []⟩]⟩), (0, ⟨0, [⟨1, .nan, [5]⟩]⟩)]) := by
  have hports : ∀ entry ∈ threePorts.entries, entry.2.switchId = entry.1 ∧ entry.2.ports ≠ [] := by decide +kernel
  have hrounded : threePorts.mapValues rounded = .ofList [(3, ⟨3, [⟨1, .finite (666667 / 1000000), [5, -2]⟩,
      ⟨0, .finite 0, []⟩]⟩), (0, ⟨0, [⟨1, .nan, [5]⟩]⟩)] := by decide +kernel
  rw [← hrounded]
  apply switches_read_back threePorts
  intro switchId switch hget
  exact hports (switchId, switch) (Dict.get?_eq_some_iff.mp hget)

end PortMirroringSwitch

end OfTestbed.PortMirroring
