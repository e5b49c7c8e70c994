import OfTestbed.LibDefaultDict
import OfTestbed.LibFloatText

/-!
Solution files of the mirroring trials (`PortMirroringSolution` and `RndPortMirroringSolution` in
`trials/port_mirroring_trial.py`, `SolutionDefinition` in `trials/flow_mirroring_trial.py`). A file has a line of two
numbers for each entry and the objective value in its last line; in memory every entry holds a copy of it. The
readers fail with `none`; the writers say which exception ends them.
-/

namespace OfTestbed.PortMirroring

open Lib

inductive Raised where
  | typeError
  | nameError
  deriving DecidableEq

/-- The two numbers of an entry line. -/
def readEntry (line : Text) : Option (Int × Int) :=
  match line.splitOn ' ' with
  | [first, second] => do
      let first ← int first
      let second ← int second
      return (first, second)
  | _ => none

/-- The line of an entry, without the line break. -/
def entryLine (first second : Int) : Text := formatD first ++ ' ' :: formatD second

/-- `"%f" % value`, of a value that may be `None`. -/
def formatObjective : Option FloatValue → Except Raised Text
  | none => .error .typeError
  | some value => .ok value.format

/-- One turn of a writer: the text so far, and the objective value of the last entry. -/
def writeEntry (state : Text × Option FloatValue) (first second : Int) (objectiveValue : FloatValue) :
    Text × Option FloatValue :=
  (state.1 ++ (entryLine first second ++ ['\n']), some objectiveValue)

structure PortMirroringSolution where
  mirrorSwitchId : Int
  mirrorSwitchPort : Int
  objectiveValue : FloatValue
  deriving DecidableEq

namespace PortMirroringSolution

def serialize (solutions : Dict Int (List PortMirroringSolution)) : Except Raised Text := do
  let (s, objective) := solutions.values.foldl (fun state solutionList =>
    solutionList.foldl (fun state solution =>
      writeEntry state solution.mirrorSwitchId solution.mirrorSwitchPort solution.objectiveValue) state) ([], none)
  let objectiveText ← formatObjective objective
  return s ++ objectiveText

def deserialize (text : Text) : Option (Dict Int (List PortMirroringSolution)) := do
  let lines := splitlines text
  let objectiveValue ← readFloat (← lines.getLast?)
  lines.dropLast.foldlM (fun (solutions : Dict Int (List PortMirroringSolution)) line =>
    (readEntry line).map fun (switchId, portId) =>
      solutions.push switchId ⟨switchId, portId, objectiveValue⟩) .empty

end PortMirroringSolution

structure RndPortMirroringSolution where
  mirrorSwitchId : Int
  mirrorSwitchPort : Int
  objectiveValue : FloatValue
  coverage : FloatValue
  deriving DecidableEq

namespace RndPortMirroringSolution

/-- The loop over the switches runs over `solutions_list`, a name that is bound nowhere. -/
def serialize (rndSolutions : Dict Int (List RndPortMirroringSolution)) : Except Raised Text := do
  let (s, objective, coverage) ← rndSolutions.entries.foldlM
    (fun (_ : Text × Option FloatValue × Option FloatValue) _ => .error Raised.nameError) ([], none, none)
  let objectiveText ← formatObjective objective
  let coverageText ← formatObjective coverage
  return s ++ objectiveText ++ '\n' :: coverageText ++ ['\n']

def deserialize (text : Text) : Option (Dict Int (List RndPortMirroringSolution)) := do
  let lines := splitlines text
  let objectiveValue ← readFloat (← lines.dropLast.getLast?)
  let coverage ← readFloat (← lines.getLast?)
  lines.dropLast.dropLast.foldlM (fun (solutions : Dict Int (List RndPortMirroringSolution)) line =>
    (readEntry line).map fun (switchId, portId) =>
      solutions.push switchId ⟨switchId, portId, objectiveValue, coverage⟩) .empty

end RndPortMirroringSolution

structure SolutionDefinition where
  flowId : Int
  mirrorSwitchId : Int
  objectiveValue : FloatValue
  deriving DecidableEq

namespace SolutionDefinition

def serialize (solutions : Dict Int SolutionDefinition) : Except Raised Text := do
  let (s, objectiveValue) := solutions.values.foldl (fun state solution =>
    writeEntry state solution.flowId solution.mirrorSwitchId solution.objectiveValue) ([], none)
  let objectiveText ← formatObjective objectiveValue
  return s ++ objectiveText

def deserialize (text : Text) : Option (Dict Int SolutionDefinition) := do
  let lines := splitlines text
  let objectiveValue ← readFloat (← lines.getLast?)
  lines.dropLast.foldlM (fun (solutions : Dict Int SolutionDefinition) line =>
    (readEntry line).map fun (flowId, mirrorSwitchId) =>
      solutions.set flowId ⟨flowId, mirrorSwitchId, objectiveValue⟩) .empty

end SolutionDefinition

/-! ### Entry lines -/

theorem entryLine_eq (first second : Int) :
    entryLine first second = [' '].intercalate ([first, second].map formatD) := by
  simp [entryLine, List.intercalate]

theorem splitOn_entryLine (first second : Int) :
    (entryLine first second).splitOn ' ' = [formatD first, formatD second] := by
  rw [entryLine_eq]
  exact splitOn_numbers (List.cons_ne_nil _ _) mem_chars_of_mem_map_formatD

theorem readEntry_entryLine (first second : Int) : readEntry (entryLine first second) = some (first, second) := by
  rw [readEntry, splitOn_entryLine]
  simp only [int_formatD, Option.bind_eq_bind, Option.bind_some, Option.pure_def]

theorem isLineBreak_of_mem_entryLine {first second : Int} :
    ∀ c ∈ entryLine first second, isLineBreak c = false := by
  rw [entryLine_eq]
  exact isLineBreak_of_mem_numbers mem_chars_of_mem_map_formatD

/-- A file of entries and an objective value. -/
def fileText (entries : List (Int × Int)) (objectiveValue : FloatValue) : Text :=
  (entries.map fun entry => entryLine entry.1 entry.2).flatMap (· ++ ['\n']) ++ objectiveValue.format

theorem splitlines_fileText (entries : List (Int × Int)) (objectiveValue : FloatValue) :
    splitlines (fileText entries objectiveValue) =
      (entries.map fun entry => entryLine entry.1 entry.2) ++ [objectiveValue.format] := by
  apply splitlines_flatMap_append _ FloatValue.isLineBreak_of_mem_format objectiveValue.format_ne_nil
  intro line hline
  obtain ⟨entry, -, rfl⟩ := List.mem_map.mp hline
  exact isLineBreak_of_mem_entryLine

theorem mapM_readEntry_entryLine (entries : List (Int × Int)) :
    (entries.map fun entry => entryLine entry.1 entry.2).mapM readEntry = some entries := by
  rw [mapM_eq_some_iff, List.map_map]
  apply List.map_congr_left
  intro entry _
  exact readEntry_entryLine entry.1 entry.2

/-- What a writer's loop does with entries that all hold the objective value. -/
theorem foldl_writeEntry {α : Type} (l : List α) (entry : α → Int × Int) (objective : α → FloatValue)
    (state : Text × Option FloatValue) :
    l.foldl (fun state a => writeEntry state (entry a).1 (entry a).2 (objective a)) state =
      (state.1 ++ ((l.map entry).map fun e => entryLine e.1 e.2).flatMap (· ++ ['\n']),
        (l.getLast?.map objective).or state.2) := by
  induction l using List.reverseRecOn with
  | nil => simp
  | append_singleton rest last ih =>
      rw [List.foldl_append, ih]
      simp [writeEntry]

/-- A reader that takes the entries and the objective value of a file. -/
theorem read_eq_some_iff {σ : Type} (put : FloatValue → σ → Int × Int → σ) {start final : σ} {text : Text} :
    ((splitlines text).getLast?.bind fun last => (readFloat last).bind fun objectiveValue =>
      (splitlines text).dropLast.foldlM (fun s line => (readEntry line).map (put objectiveValue s)) start) =
        some final ↔
    ∃ lines last objectiveValue entries, splitlines text = lines ++ [last] ∧
      readFloat last = some objectiveValue ∧ lines.mapM readEntry = some entries ∧
      final = entries.foldl (put objectiveValue) start := by
  rcases List.eq_nil_or_concat (splitlines text) with hnil | ⟨lines, last, hlines⟩
  · simp [hnil]
  · rw [hlines, List.concat_eq_append]
    simp only [List.getLast?_append, List.getLast?_singleton, Option.some_or, Option.bind_some,
      List.dropLast_concat, foldlM_read, Option.bind_eq_some_iff, Option.map_eq_some_iff]
    constructor
    · rintro ⟨objectiveValue, hobjective, entries, hentries, hfinal⟩
      exact ⟨lines, last, objectiveValue, entries, rfl, hobjective, hentries, hfinal.symm⟩
    · rintro ⟨lines', last', objectiveValue, entries, hsame, hobjective, hentries, hfinal⟩
      obtain ⟨rfl, hlast⟩ := List.append_inj' hsame rfl
      cases hlast
      exact ⟨objectiveValue, hobjective, entries, hentries, hfinal.symm⟩

/-- A file has entries exactly when it has two lines or more. -/
theorem two_le_length_splitlines_iff {text last : Text} {lines : List Text} {entries : List (Int × Int)}
    (hlines : splitlines text = lines ++ [last]) (hentries : lines.mapM readEntry = some entries) :
    2 ≤ (splitlines text).length ↔ entries ≠ [] := by
  rw [hlines, List.length_append, List.length_singleton, ← length_of_mapM hentries, ← List.length_pos_iff]
  omega

/-- What fails without entries and holds for all others says that the file had a line for an entry. -/
theorem iff_two_le_length_splitlines {P : List (Int × Int) → Prop} (hnil : ¬ P []) (hcons : ∀ entries ≠ [], P entries)
    {text last : Text} {lines : List Text} {entries : List (Int × Int)} (hlines : splitlines text = lines ++ [last])
    (hentries : lines.mapM readEntry = some entries) : P entries ↔ 2 ≤ (splitlines text).length := by
  rw [two_le_length_splitlines_iff hlines hentries]
  refine ⟨fun h => ?_, hcons entries⟩
  rintro rfl
  exact hnil h

/-- The end of a writer whose entries all hold one objective value. -/
theorem writeEntries_eq {α : Type} {l : List α} (entry : α → Int × Int) {objective : α → FloatValue}
    {objectiveValue : FloatValue} (hne : l ≠ []) (hall : ∀ a ∈ l, objective a = objectiveValue) :
    l.foldl (fun state a => writeEntry state (entry a).1 (entry a).2 (objective a)) ([], none) =
      (((l.map entry).map fun e => entryLine e.1 e.2).flatMap (· ++ ['\n']), some objectiveValue) := by
  obtain ⟨before, last, rfl⟩ := List.eq_nil_or_concat l |>.resolve_left hne
  have hlast : objective last = objectiveValue := hall last (by simp)
  rw [foldl_writeEntry, List.concat_eq_append, List.getLast?_append, List.getLast?_singleton, Option.some_or,
    Option.map_some, Option.some_or, hlast, List.nil_append]

/-! ### Port mirroring solutions -/

namespace PortMirroringSolution

def rounded (solution : PortMirroringSolution) : PortMirroringSolution :=
  { solution with objectiveValue := solution.objectiveValue.rounded }

/-- The writer takes the solutions, and the reader gives them back with the objective value rounded. -/
def WrittenBack (solutions : Dict Int (List PortMirroringSolution)) : Prop :=
  ∃ text, serialize solutions = .ok text ∧ deserialize text = some (solutions.mapValues (List.map rounded))

/-- The solutions of a file, in the order of its lines. -/
def ofEntries (entries : List (Int × Int)) (objectiveValue : FloatValue) : List (Int × PortMirroringSolution) :=
  entries.map fun entry => (entry.1, ⟨entry.1, entry.2, objectiveValue⟩)

theorem deserialize_eq_some_iff {text : Text} {solutions : Dict Int (List PortMirroringSolution)} :
    deserialize text = some solutions ↔ ∃ lines last objectiveValue entries, splitlines text = lines ++ [last] ∧
      readFloat last = some objectiveValue ∧ lines.mapM readEntry = some entries ∧
      solutions = Dict.groups (ofEntries entries objectiveValue) := by
  simp only [Dict.groups, ofEntries, List.foldl_map]
  exact read_eq_some_iff (fun objectiveValue (solutions : Dict Int (List PortMirroringSolution)) entry =>
    solutions.push entry.1 ⟨entry.1, entry.2, objectiveValue⟩)

theorem serialize_empty : serialize .empty = .error .typeError := rfl

theorem not_writtenBack_empty : ¬ WrittenBack .empty := by
  intro hwritten
  obtain ⟨written, hok, -⟩ := hwritten
  cases serialize_empty.symm.trans hok

/-- What the reader's groups hold. -/
theorem mem_groups_ofEntries {entries : List (Int × Int)} {objectiveValue : FloatValue}
    {switchId : Int} {solutionList : List PortMirroringSolution}
    (h : (switchId, solutionList) ∈ (Dict.groups (ofEntries entries objectiveValue)).entries) :
    solutionList ≠ [] ∧ ∀ solution ∈ solutionList,
      solution.mirrorSwitchId = switchId ∧ solution.objectiveValue = objectiveValue := by
  obtain ⟨hne, hmem⟩ := Dict.groups_spec _ _ h
  refine ⟨hne, fun solution hsolution => ?_⟩
  obtain ⟨entry, -, heq⟩ := List.mem_map.mp (hmem solution hsolution)
  cases heq
  exact ⟨rfl, rfl⟩

theorem serialize_groups {entries : List (Int × Int)} (hne : entries ≠ []) (objectiveValue : FloatValue) :
    serialize (Dict.groups (ofEntries entries objectiveValue)) =
      .ok (fileText ((Dict.groups (ofEntries entries objectiveValue)).values.flatten.map fun solution =>
        (solution.mirrorSwitchId, solution.mirrorSwitchPort)) objectiveValue) := by
  have hentries : (Dict.groups (ofEntries entries objectiveValue)).entries ≠ [] :=
    Dict.groups_ne_nil (by simpa [ofEntries] using hne)
  have hflat : (Dict.groups (ofEntries entries objectiveValue)).values.flatten ≠ [] := by
    obtain ⟨⟨switchId, solutionList⟩, hmem⟩ := List.exists_mem_of_ne_nil _ hentries
    obtain ⟨solution, hsolution⟩ := List.exists_mem_of_ne_nil _ (mem_groups_ofEntries hmem).1
    exact List.ne_nil_of_mem (List.mem_flatten.mpr ⟨solutionList, List.mem_map.mpr ⟨_, hmem, rfl⟩, hsolution⟩)
  have hobjective : ∀ solution ∈ (Dict.groups (ofEntries entries objectiveValue)).values.flatten,
      solution.objectiveValue = objectiveValue := by
    intro solution hsolution
    obtain ⟨solutionList, hlist, hmem⟩ := List.mem_flatten.mp hsolution
    obtain ⟨entry, hentry, rfl⟩ := List.mem_map.mp hlist
    exact ((mem_groups_ofEntries hentry).2 solution hmem).2
  have hloop := writeEntries_eq (fun solution : PortMirroringSolution =>
    (solution.mirrorSwitchId, solution.mirrorSwitchPort)) hflat hobjective
  simp only [serialize, ← List.foldl_flatten, hloop]
  rfl

theorem deserialize_fileText (entries : List (Int × Int)) (objectiveValue : FloatValue) :
    deserialize (fileText entries objectiveValue) = some (Dict.groups (ofEntries entries objectiveValue.rounded)) :=
  deserialize_eq_some_iff.mpr ⟨_, _, _, _, splitlines_fileText entries objectiveValue,
    objectiveValue.readFloat_format, mapM_readEntry_entryLine entries, rfl⟩

theorem writtenBack_groups {entries : List (Int × Int)} (hne : entries ≠ []) (objectiveValue : FloatValue) :
    WrittenBack (Dict.groups (ofEntries entries objectiveValue)) := by
  refine ⟨_, serialize_groups hne objectiveValue, ?_⟩
  rw [deserialize_fileText]
  congr 1
  have hread : ofEntries ((Dict.groups (ofEntries entries objectiveValue)).values.flatten.map fun solution =>
      (solution.mirrorSwitchId, solution.mirrorSwitchPort)) objectiveValue.rounded =
      ((Dict.groups (ofEntries entries objectiveValue)).mapValues (List.map rounded)).ungroup := by
    simp only [ofEntries, Dict.ungroup, Dict.mapValues, Dict.values, List.map_map, ← List.flatMap_def,
      List.map_flatMap, List.flatMap_map]
    apply List.flatMap_congr
    intro entry hentry
    apply List.map_congr_left
    intro solution hsolution
    obtain ⟨hswitch, hobjective⟩ := (mem_groups_ofEntries hentry).2 solution hsolution
    simp [rounded, hswitch, hobjective]
  rw [hread]
  apply Dict.groups_ungroup
  intro entry hentry
  obtain ⟨entry', hentry', rfl⟩ := List.mem_map.mp hentry
  simpa using (mem_groups_ofEntries hentry').1

/-- Solutions are written back exactly when their file had a line for an entry. -/
theorem writtenBack_iff {text : Text} {solutions : Dict Int (List PortMirroringSolution)}
    (h : deserialize text = some solutions) : WrittenBack solutions ↔ 2 ≤ (splitlines text).length := by
  obtain ⟨lines, last, objectiveValue, entries, hlines, -, hentries, rfl⟩ := deserialize_eq_some_iff.mp h
  exact iff_two_le_length_splitlines (P := fun entries => WrittenBack (Dict.groups (ofEntries entries objectiveValue)))
    not_writtenBack_empty (fun _ hne => writtenBack_groups hne objectiveValue) hlines hentries

end PortMirroringSolution

/-! ### Solution definitions -/

namespace SolutionDefinition

def rounded (solution : SolutionDefinition) : SolutionDefinition :=
  { solution with objectiveValue := solution.objectiveValue.rounded }

/-- The writer takes the solutions, and the reader gives them back with the objective value rounded. -/
def WrittenBack (solutions : Dict Int SolutionDefinition) : Prop :=
  ∃ text, serialize solutions = .ok text ∧ deserialize text = some (solutions.mapValues rounded)

/-- The solutions of a file, in the order of its lines. -/
def ofEntries (entries : List (Int × Int)) (objectiveValue : FloatValue) : List (Int × SolutionDefinition) :=
  entries.map fun entry => (entry.1, ⟨entry.1, entry.2, objectiveValue⟩)

theorem deserialize_eq_some_iff {text : Text} {solutions : Dict Int SolutionDefinition} :
    deserialize text = some solutions ↔ ∃ lines last objectiveValue entries, splitlines text = lines ++ [last] ∧
      readFloat last = some objectiveValue ∧ lines.mapM readEntry = some entries ∧
      solutions = Dict.ofList (ofEntries entries objectiveValue) := by
  simp only [Dict.ofList, ofEntries, List.foldl_map]
  exact read_eq_some_iff (fun objectiveValue (solutions : Dict Int SolutionDefinition) entry =>
    solutions.set entry.1 ⟨entry.1, entry.2, objectiveValue⟩)

theorem serialize_empty : serialize .empty = .error .typeError := rfl

theorem not_writtenBack_empty : ¬ WrittenBack .empty := by
  intro hwritten
  obtain ⟨written, hok, -⟩ := hwritten
  cases serialize_empty.symm.trans hok

theorem mem_ofList_ofEntries {entries : List (Int × Int)} {objectiveValue : FloatValue} {flowId : Int}
    {solution : SolutionDefinition}
    (h : (flowId, solution) ∈ (Dict.ofList (ofEntries entries objectiveValue)).entries) :
    solution.flowId = flowId ∧ solution.objectiveValue = objectiveValue := by
  obtain ⟨entry, -, heq⟩ := List.mem_map.mp (Dict.mem_of_mem_ofList h)
  cases heq
  exact ⟨rfl, rfl⟩

theorem serialize_ofList {entries : List (Int × Int)} (hne : entries ≠ []) (objectiveValue : FloatValue) :
    serialize (Dict.ofList (ofEntries entries objectiveValue)) =
      .ok (fileText ((Dict.ofList (ofEntries entries objectiveValue)).values.map fun solution =>
        (solution.flowId, solution.mirrorSwitchId)) objectiveValue) := by
  have hvalues : (Dict.ofList (ofEntries entries objectiveValue)).values ≠ [] := by
    have hentries := Dict.ofList_ne_nil (l := ofEntries entries objectiveValue) (by simpa [ofEntries] using hne)
    simpa [Dict.values] using hentries
  have hobjective : ∀ solution ∈ (Dict.ofList (ofEntries entries objectiveValue)).values,
      solution.objectiveValue = objectiveValue := by
    intro solution hsolution
    obtain ⟨entry, hentry, rfl⟩ := List.mem_map.mp hsolution
    exact (mem_ofList_ofEntries hentry).2
  have hloop := writeEntries_eq (fun solution : SolutionDefinition =>
    (solution.flowId, solution.mirrorSwitchId)) hvalues hobjective
  simp only [serialize, hloop]
  rfl

theorem deserialize_fileText (entries : List (Int × Int)) (objectiveValue : FloatValue) :
    deserialize (fileText entries objectiveValue) = some (Dict.ofList (ofEntries entries objectiveValue.rounded)) :=
  deserialize_eq_some_iff.mpr ⟨_, _, _, _, splitlines_fileText entries objectiveValue,
    objectiveValue.readFloat_format, mapM_readEntry_entryLine entries, rfl⟩

theorem writtenBack_ofList {entries : List (Int × Int)} (hne : entries ≠ []) (objectiveValue : FloatValue) :
    WrittenBack (Dict.ofList (ofEntries entries objectiveValue)) := by
  refine ⟨_, serialize_ofList hne objectiveValue, ?_⟩
  rw [deserialize_fileText]
  congr 1
  have hread : ofEntries ((Dict.ofList (ofEntries entries objectiveValue)).values.map fun solution =>
      (solution.flowId, solution.mirrorSwitchId)) objectiveValue.rounded =
      ((Dict.ofList (ofEntries entries objectiveValue)).mapValues rounded).entries := by
    simp only [ofEntries, Dict.mapValues, Dict.values, List.map_map]
    apply List.map_congr_left
    intro entry hentry
    obtain ⟨hflow, hobjective⟩ := mem_ofList_ofEntries hentry
    simp [rounded, hflow, hobjective]
  rw [hread]
  exact Dict.ext_entries (Dict.entries_ofList (Dict.nodupKeys _))

/-- Solutions are written back exactly when their file had a line for an entry. -/
theorem writtenBack_iff {text : Text} {solutions : Dict Int SolutionDefinition}
    (h : deserialize text = some solutions) : WrittenBack solutions ↔ 2 ≤ (splitlines text).length := by
  obtain ⟨lines, last, objectiveValue, entries, hlines, -, hentries, rfl⟩ := deserialize_eq_some_iff.mp h
  exact iff_two_le_length_splitlines (P := fun entries => WrittenBack (Dict.ofList (ofEntries entries objectiveValue)))
    not_writtenBack_empty (fun _ hne => writtenBack_ofList hne objectiveValue) hlines hentries

end SolutionDefinition

/-! ### Solutions of random mirroring -/

namespace RndPortMirroringSolution

def rounded (solution : RndPortMirroringSolution) : RndPortMirroringSolution :=
  { solution with objectiveValue := solution.objectiveValue.rounded, coverage := solution.coverage.rounded }

/-- The writer takes the solutions, and the reader gives them back with objective value and coverage rounded. -/
def WrittenBack (rndSolutions : Dict Int (List RndPortMirroringSolution)) : Prop :=
  ∃ text, serialize rndSolutions = .ok text ∧ deserialize text = some (rndSolutions.mapValues (List.map rounded))

/-- The writer raises, whatever it is given. -/
theorem serialize_eq_error (rndSolutions : Dict Int (List RndPortMirroringSolution)) : serialize rndSolutions =
    .error (if rndSolutions.entries = [] then .typeError else .nameError) := by
  rw [serialize]
  cases rndSolutions.entries with
  | nil => rfl
  | cons entry rest => rfl

theorem not_writtenBack (rndSolutions : Dict Int (List RndPortMirroringSolution)) : ¬ WrittenBack rndSolutions := by
  intro hwritten
  obtain ⟨written, hok, -⟩ := hwritten
  cases (serialize_eq_error rndSolutions).symm.trans hok

end RndPortMirroringSolution

/-- A solution file that was read can be written back exactly when it is not one of random mirroring and has a line
for an entry. -/
theorem solution_files_written_back_iff (text : Text) :
    (∀ solutions, PortMirroringSolution.deserialize text = some solutions →
      (PortMirroringSolution.WrittenBack solutions ↔ 2 ≤ (splitlines text).length)) ∧
    (∀ solutions, SolutionDefinition.deserialize text = some solutions →
      (SolutionDefinition.WrittenBack solutions ↔ 2 ≤ (splitlines text).length)) ∧
    (∀ rndSolutions, RndPortMirroringSolution.deserialize text = some rndSolutions →
      ¬ RndPortMirroringSolution.WrittenBack rndSolutions) :=
  ⟨fun _ => PortMirroringSolution.writtenBack_iff, fun _ => SolutionDefinition.writtenBack_iff,
    fun rndSolutions _ => RndPortMirroringSolution.not_writtenBack rndSolutions⟩

/-- A file with two entries of one switch, objective value and coverage. -/
def twoEntries : Text := "1 2\n1 3\n0.5\n1.0".toList

theorem solution_files_written_back_iff_twoEntries :
    (PortMirroringSolution.WrittenBack (.ofList [(1, [⟨1, 2, .finite (1 / 2)⟩, ⟨1, 3, .finite (1 / 2)⟩])]) ↔
      2 ≤ (splitlines (twoEntries.take 11)).length) ∧
    (SolutionDefinition.WrittenBack (.ofList [(1, ⟨1, 3, .finite (1 / 2)⟩)]) ↔
      2 ≤ (splitlines (twoEntries.take 11)).length) ∧
    ¬ RndPortMirroringSolution.WrittenBack
      (.ofList [(1, [⟨1, 2, .finite (1 / 2), .finite 1⟩, ⟨1, 3, .finite (1 / 2), .finite 1⟩])]) :=
  ⟨(solution_files_written_back_iff (twoEntries.take 11)).1 _ (by decide +kernel),
    (solution_files_written_back_iff (twoEntries.take 11)).2.1 _ (by decide +kernel),
    (solution_files_written_back_iff twoEntries).2.2 _ (by decide +kernel)⟩

/-- A file that holds only an objective value is accepted and cannot be written back, and neither can a file of
random mirroring with entries. -/
theorem accepted_and_not_written_back :
    (PortMirroringSolution.deserialize "0.5".toList = some .empty ∧
      ¬ PortMirroringSolution.WrittenBack .empty) ∧
    (SolutionDefinition.deserialize "0.5".toList = some .empty ∧ ¬ SolutionDefinition.WrittenBack .empty) ∧
    ∃ rndSolutions, RndPortMirroringSolution.deserialize twoEntries = some rndSolutions ∧
      ¬ RndPortMirroringSolution.WrittenBack rndSolutions :=
  ⟨⟨by decide +kernel, PortMirroringSolution.not_writtenBack_empty⟩,
    ⟨by decide +kernel, SolutionDefinition.not_writtenBack_empty⟩,
    .ofList [(1, [⟨1, 2, .finite (1 / 2), .finite 1⟩, ⟨1, 3, .finite (1 / 2), .finite 1⟩])],
    by decide +kernel, RndPortMirroringSolution.not_writtenBack _⟩

end OfTestbed.PortMirroring
