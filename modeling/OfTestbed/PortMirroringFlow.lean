import OfTestbed.LibDict
import OfTestbed.LibFloatText

/-!
Flows of port mirroring trials and their files (`PortMirroringFlow` in `trials/port_mirroring_trial.py`). A flow
is written as its id, its rate and the nodes and ports of its path; the reader takes the last number for a node
without a port. `none` is an exception of the reader.
-/

namespace OfTestbed.PortMirroring

open Lib

/-- `hops` is the attribute `_path`: the nodes with their ports. -/
structure PortMirroringFlow where
  flowId : Int
  trafficRate : ℚ
  hops : List (Int × Int)
  deriving DecidableEq

namespace PortMirroringFlow

def path (flow : PortMirroringFlow) : List Int := flow.hops.map Prod.fst

def ports (flow : PortMirroringFlow) : List Int := flow.hops.map Prod.snd

def pathToStr (path : List (Int × Int)) : Text :=
  (path.dropLast.flatMap fun (nodeId, portId) => formatD nodeId ++ ' ' :: formatD portId ++ [' ']) ++
    match path.getLast? with
    | none => []
    | some (nodeId, portId) => formatD nodeId ++ ' ' :: formatD portId

/-- The line of a flow, without the line break. -/
def line (flow : PortMirroringFlow) : Text :=
  formatD flow.flowId ++ ' ' :: formatF flow.trafficRate ++ ' ' :: pathToStr (flow.path.zip flow.ports)

def serialize (flows : Dict Int PortMirroringFlow) : Text :=
  (flows.values.map line).flatMap (· ++ ['\n'])

/-- The hops up to the last number, two numbers each. -/
def readHops : List Text → Option (List (Int × Int))
  | nodeId :: portId :: rest => do
      let node ← int nodeId
      let port ← int portId
      let hops ← readHops rest
      return (node, port) :: hops
  | _ => some []

def deserializeLine (line : Text) : Option PortMirroringFlow :=
  match line.splitOn ' ' with
  | flowId :: trafficRate :: pathStr => do
      let hops ← readHops pathStr
      let last ← pathStr.getLast?
      let lastNode ← int last
      let flowId ← int flowId
      let trafficRate ← float trafficRate
      return { flowId := flowId, trafficRate := trafficRate, hops := hops ++ [(lastNode, 0)] }
  | _ => none

def deserialize (text : Text) : Option (Dict Int PortMirroringFlow) :=
  (splitlines text).foldlM (fun (flows : Dict Int PortMirroringFlow) line => do
    let flow ← deserializeLine line
    return flows.set flow.flowId flow) .empty

/-! ### What is written is read back with a hop too many -/

/-- The tokens of a path. -/
def pathTokens (path : List (Int × Int)) : List Text :=
  path.flatMap fun (nodeId, portId) => [formatD nodeId, formatD portId]

theorem pathToStr_eq {path : List (Int × Int)} (hne : path ≠ []) :
    pathToStr path = [' '].intercalate (pathTokens path) := by
  induction path with
  | nil => exact absurd rfl hne
  | cons hop rest ih =>
      cases rest with
      | nil => simp [pathToStr, pathTokens, List.intercalate]
      | cons next rest =>
          have hrest := ih (List.cons_ne_nil next rest)
          have hstr : pathToStr (hop :: next :: rest) =
              formatD hop.1 ++ ' ' :: formatD hop.2 ++ [' '] ++ pathToStr (next :: rest) := by
            simp [pathToStr]
          have htokens : pathTokens (hop :: next :: rest) = formatD hop.1 :: formatD hop.2 ::
              pathTokens (next :: rest) := rfl
          rw [hstr, hrest, htokens, List.intercalate_cons_cons, List.intercalate_cons_of_ne_nil (by simp [pathTokens])]
          simp

theorem line_eq {flow : PortMirroringFlow} (hne : flow.hops ≠ []) : line flow =
    [' '].intercalate (formatD flow.flowId :: formatF flow.trafficRate :: pathTokens flow.hops) := by
  have hzip : flow.path.zip flow.ports = flow.hops := by simp [path, ports, List.zip_map']
  have htokens : pathTokens flow.hops ≠ [] := by
    obtain ⟨hop, rest, hhops⟩ := List.exists_cons_of_ne_nil hne
    simp [hhops, pathTokens]
  rw [line, hzip, pathToStr_eq hne, List.intercalate_cons_cons, List.intercalate_cons_of_ne_nil htokens]
  simp

theorem mem_chars_of_mem_tokens {flow : PortMirroringFlow} :
    ∀ token ∈ formatD flow.flowId :: formatF flow.trafficRate :: pathTokens flow.hops, ∀ c ∈ token,
      c ∈ FloatValue.chars := by
  intro token htoken c hc
  rcases List.mem_cons.mp htoken with rfl | htoken
  · exact mem_chars_of_mem_formatD hc
  rcases List.mem_cons.mp htoken with rfl | htoken
  · exact List.mem_append_left _ (mem_numberChars_of_mem_formatF hc)
  · obtain ⟨hop, -, hmem⟩ := List.mem_flatMap.mp htoken
    have hnumbers : token ∈ [hop.1, hop.2].map formatD := hmem
    exact mem_chars_of_mem_map_formatD token hnumbers c hc

theorem splitOn_line {flow : PortMirroringFlow} (hne : flow.hops ≠ []) :
    (line flow).splitOn ' ' = formatD flow.flowId :: formatF flow.trafficRate :: pathTokens flow.hops := by
  rw [line_eq hne]
  exact splitOn_numbers (List.cons_ne_nil _ _) mem_chars_of_mem_tokens

theorem readHops_pathTokens (hops : List (Int × Int)) : readHops (pathTokens hops) = some hops := by
  induction hops with
  | nil => rfl
  | cons hop rest ih =>
      have htokens : pathTokens (hop :: rest) = formatD hop.1 :: formatD hop.2 :: pathTokens rest := rfl
      rw [htokens, readHops, int_formatD, int_formatD, ih]
      rfl

/-- What the reader makes of a flow: the port of the last hop becomes a further node. -/
def readBack (flow : PortMirroringFlow) : PortMirroringFlow where
  flowId := flow.flowId
  trafficRate := roundToSix flow.trafficRate
  hops := flow.hops ++ [((flow.ports.getLast?).getD 0, 0)]

theorem deserializeLine_line {flow : PortMirroringFlow} (hne : flow.hops ≠ []) :
    deserializeLine (line flow) = some (readBack flow) := by
  obtain ⟨before, last, hhops⟩ := List.eq_nil_or_concat flow.hops |>.resolve_left hne
  have hlast : (pathTokens flow.hops).getLast? = some (formatD last.2) := by
    simp [hhops, pathTokens]
  have hport : flow.ports.getLast? = some last.2 := by simp [ports, hhops]
  rw [deserializeLine, splitOn_line hne]
  simp only [readHops_pathTokens, hlast, int_formatD, float_formatF, Option.bind_eq_bind, Option.bind_some,
    Option.pure_def, readBack, hport, Option.getD_some]

theorem isLineBreak_of_mem_line {flow : PortMirroringFlow} (hne : flow.hops ≠ []) :
    ∀ c ∈ line flow, isLineBreak c = false := by
  rw [line_eq hne]
  exact isLineBreak_of_mem_numbers mem_chars_of_mem_tokens

theorem deserialize_serialize {flows : Dict Int PortMirroringFlow} (hne : ∀ flow ∈ flows.values, flow.hops ≠ []) :
    deserialize (serialize flows) = some (.ofList (flows.values.map fun flow => (flow.flowId, readBack flow))) := by
  have hbreaks : ∀ text ∈ flows.values.map line, ∀ c ∈ text, isLineBreak c = false := by
    intro text htext
    obtain ⟨flow, hflow, rfl⟩ := List.mem_map.mp htext
    exact isLineBreak_of_mem_line (hne flow hflow)
  rw [deserialize, serialize, splitlines_flatMap hbreaks, Dict.ofList]
  generalize flows.values = values at hne
  generalize Dict.empty = start
  induction values generalizing start with
  | nil => rfl
  | cons flow rest ih =>
      rw [List.map_cons, List.foldlM_cons, deserializeLine_line (hne flow List.mem_cons_self)]
      exact ih (fun flow' hflow' => hne flow' (List.mem_cons_of_mem flow hflow')) _

/-- The reader gives back every flow under its id, with the same path and ports and with its rate rounded. -/
def Restored (flows restored : Dict Int PortMirroringFlow) : Prop :=
  restored.keys = flows.keys ∧ ∀ flowId flow, flows.get? flowId = some flow →
    ∃ flow', restored.get? flowId = some flow' ∧
    flow'.path = flow.path ∧ flow'.ports = flow.ports ∧ flow'.trafficRate = roundToSix flow.trafficRate

/-- No flow survives: only the empty map is read back as it was written. -/
theorem restored_iff_empty (flows : Dict Int PortMirroringFlow)
    (hids : ∀ flowId flow, flows.get? flowId = some flow → flow.flowId = flowId)
    (hpaths : ∀ flowId flow, flows.get? flowId = some flow → flow.hops ≠ [] ∧ flow.ports.getLast? = some 0) :
    (∃ restored, deserialize (serialize flows) = some restored ∧ Restored flows restored) ↔
      flows.entries = [] := by
  have hvalues : ∀ flow ∈ flows.values, ∃ flowId, flows.get? flowId = some flow := by
    intro flow hflow
    obtain ⟨entry, hentry, rfl⟩ := List.mem_map.mp hflow
    exact ⟨entry.1, Dict.get?_eq_some_iff.mpr hentry⟩
  have hne : ∀ flow ∈ flows.values, flow.hops ≠ [] := by
    intro flow hflow
    obtain ⟨flowId, hget⟩ := hvalues flow hflow
    exact (hpaths flowId flow hget).1
  have hkeys : (flows.values.map fun flow => (flow.flowId, readBack flow)).map Prod.fst = flows.keys := by
    rw [Dict.values, Dict.keys, List.map_map, List.map_map]
    apply List.map_congr_left
    intro entry hentry
    exact hids entry.1 entry.2 (Dict.get?_eq_some_iff.mpr hentry)
  rw [deserialize_serialize hne]
  simp only [Option.some.injEq, exists_eq_left']
  constructor
  · rintro ⟨-, hall⟩
    by_contra hentries
    obtain ⟨⟨flowId, flow⟩, hentry⟩ := List.exists_mem_of_ne_nil _ hentries
    have hget : flows.get? flowId = some flow := Dict.get?_eq_some_iff.mpr hentry
    obtain ⟨flow', hget', hpath, -, -⟩ := hall flowId flow hget
    have hread : (Dict.ofList (flows.values.map fun flow => (flow.flowId, readBack flow))).get? flowId =
        some (readBack flow) := by
      rw [Dict.get?_ofList (hkeys ▸ flows.nodupKeys)]
      refine List.mem_map.mpr ⟨flow, List.mem_map.mpr ⟨(flowId, flow), hentry, rfl⟩, ?_⟩
      rw [hids flowId flow hget]
    cases hget'.symm.trans hread
    -- the path has one node more than before
    have hlength := congrArg List.length hpath
    simp [path, readBack] at hlength
  · intro hempty
    refine ⟨?_, fun flowId flow hget => ?_⟩
    · rw [Dict.keys, Dict.entries_ofList (hkeys ▸ flows.nodupKeys), hkeys]
    · rw [Dict.get?_eq_some_iff, hempty] at hget
      cases hget

/-- One flow from node 1 to node 3. -/
def oneFlow : Dict Int PortMirroringFlow :=
  .ofList [(1, { flowId := 1, trafficRate := 1 / 2, hops := [(1, 2), (3, 0)] })]

theorem get?_oneFlow {flowId : Int} {flow : PortMirroringFlow} (h : oneFlow.get? flowId = some flow) :
    flowId = 1 ∧ flow = { flowId := 1, trafficRate := 1 / 2, hops := [(1, 2), (3, 0)] } := by
  rw [oneFlow, Dict.get?_ofList (by decide), List.mem_singleton] at h
  exact Prod.mk.inj h

theorem restored_iff_empty_oneFlow :
    (∃ restored, deserialize (serialize oneFlow) = some restored ∧ Restored oneFlow restored) ↔
      oneFlow.entries = [] := by
  refine restored_iff_empty oneFlow (fun flowId flow hget => ?_) (fun flowId flow hget => ?_)
  · obtain ⟨rfl, rfl⟩ := get?_oneFlow hget
    rfl
  · obtain ⟨rfl, rfl⟩ := get?_oneFlow hget
    decide

/-- The line `1 0.500000 1 2 3 0` is read as a flow through the nodes 1, 3 and 0. -/
theorem extra_hop_read_back :
    serialize oneFlow = "1 0.500000 1 2 3 0\n".toList ∧
    deserialize (serialize oneFlow) =
      some (.ofList [(1, { flowId := 1, trafficRate := 1 / 2, hops := [(1, 2), (3, 0), (0, 0)] })]) ∧
    ¬∃ restored, deserialize (serialize oneFlow) = some restored ∧ Restored oneFlow restored := by
  have hread : deserialize (serialize oneFlow) =
      some (.ofList [(1, { flowId := 1, trafficRate := 1 / 2, hops := [(1, 2), (3, 0), (0, 0)] })]) := by
    decide +kernel
  refine ⟨by decide +kernel, hread, ?_⟩
  rintro ⟨restored, hrestored, -, hall⟩
  obtain ⟨flow, hget, hpath, -⟩ := hall 1 _ rfl
  cases hread.symm.trans hrestored
  cases hget
  exact absurd hpath (by decide)

end PortMirroringFlow

end OfTestbed.PortMirroring
