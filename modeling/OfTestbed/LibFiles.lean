import Mathlib.Data.List.Infix
import OfTestbed.LibDict

/-!
Trees of files, and the calls of an operating system that make, write and read them. A path is the list of the names on
the way from the root. A tree carries the proof that every file and every directory in it lies in a directory, so that
what is on the way to a path decides how a call fails.
-/

namespace OfTestbed.Lib

inductive Node (α : Type) where
  | dir
  | file (content : α)
  deriving DecidableEq

inductive OsError where
  | fileExists
  | fileNotFound
  | notADirectory
  | isADirectory
  deriving DecidableEq

variable {ν α : Type} [DecidableEq ν]

/-- The root is a directory, and stands for itself. -/
def nodeIn (nodes : Dict (List ν) (Node α)) (path : List ν) : Option (Node α) :=
  if path = [] then some .dir else nodes.get? path

structure FileTree (ν α : Type) [DecidableEq ν] where
  nodes : Dict (List ν) (Node α)
  parents : ∀ (above : List ν) (name : ν) (node : Node α), nodeIn nodes (above ++ [name]) = some node →
    nodeIn nodes above = some .dir

namespace FileTree

def empty : FileTree ν α := ⟨.empty, by simp [nodeIn]⟩

def nodeAt (tree : FileTree ν α) (path : List ν) : Option (Node α) := nodeIn tree.nodes path

theorem nodeIn_set (nodes : Dict (List ν) (Node α)) {place : List ν} (hplace : place ≠ []) (node : Node α)
    (path : List ν) : nodeIn (nodes.set place node) path = if path = place then some node else nodeIn nodes path := by
  unfold nodeIn
  by_cases hroot : path = []
  · rw [if_pos hroot, if_neg (by rw [hroot]; exact hplace.symm), if_pos hroot]
  · rw [if_neg hroot, if_neg hroot, Dict.get?_set]

/-- A node in a directory, at a place where there is no directory yet. -/
def put (tree : FileTree ν α) (above : List ν) (name : ν) (node : Node α) (habove : tree.nodeAt above = some .dir)
    (hplace : tree.nodeAt (above ++ [name]) ≠ some .dir) : FileTree ν α where
  nodes := tree.nodes.set (above ++ [name]) node
  parents above' name' node' hnode := by
    have hne : above ++ [name] ≠ [] := List.append_ne_nil_of_right_ne_nil _ (List.cons_ne_nil _ _)
    rw [nodeIn_set _ hne] at hnode ⊢
    split at hnode
    · rename_i heq
      obtain ⟨rfl, -⟩ := List.append_inj' heq rfl
      rwa [if_neg (by simp)]
    · have hdir := tree.parents above' name' node' hnode
      have hne' : above' ≠ above ++ [name] := by
        rintro rfl
        exact hplace hdir
      rwa [if_neg hne']

theorem nodeAt_put (tree : FileTree ν α) (above : List ν) (name : ν) (node : Node α)
    (habove : tree.nodeAt above = some .dir) (hplace : tree.nodeAt (above ++ [name]) ≠ some .dir) (path : List ν) :
    (tree.put above name node habove hplace).nodeAt path =
      if path = above ++ [name] then some node else tree.nodeAt path :=
  nodeIn_set _ (List.append_ne_nil_of_right_ne_nil _ (List.cons_ne_nil _ _)) node path

/-- What is on the way to a node is a directory. -/
theorem nodeAt_of_append {tree : FileTree ν α} {above below : List ν} (hne : below ≠ []) {node : Node α}
    (h : tree.nodeAt (above ++ below) = some node) : tree.nodeAt above = some .dir := by
  induction below using List.reverseRecOn generalizing node with
  | nil => exact absurd rfl hne
  | append_singleton below name ih =>
      rw [← List.append_assoc] at h
      have hdir := tree.parents _ _ _ h
      by_cases hnil : below = []
      · rwa [hnil, List.append_nil] at hdir
      · exact ih hnil hdir

theorem nodeAt_append_of_none {tree : FileTree ν α} {above : List ν} (h : tree.nodeAt above = none) (below : List ν) :
    tree.nodeAt (above ++ below) = none := by
  by_cases hnil : below = []
  · rwa [hnil, List.append_nil]
  · rw [Option.eq_none_iff_forall_ne_some]
    intro node hnode
    cases h.symm.trans (nodeAt_of_append hnil hnode)

/-! ### Calls of the operating system -/

def isDir (tree : FileTree ν α) (path : List ν) : Bool := match tree.nodeAt path with
  | some .dir => true
  | _ => false

def isFile (tree : FileTree ν α) (path : List ν) : Bool := match tree.nodeAt path with
  | some (.file _) => true
  | _ => false

theorem isDir_iff {tree : FileTree ν α} {path : List ν} : tree.isDir path = true ↔ tree.nodeAt path = some .dir := by
  unfold isDir
  split
  · rename_i hnode
    simp [hnode]
  · rename_i hnode
    simpa using hnode

/-- The error when the way to a path is not one of directories. -/
def wayError (tree : FileTree ν α) (above : List ν) : OsError :=
  if above.inits.any tree.isFile then .notADirectory else .fileNotFound

def osMkdir (tree : FileTree ν α) (above : List ν) (name : ν) : Except OsError (FileTree ν α) :=
  if habove : tree.isDir above then
    if hplace : tree.nodeAt (above ++ [name]) = none then
      .ok (tree.put above name .dir (isDir_iff.mp habove) (by simp [hplace]))
    else .error .fileExists
  else .error (tree.wayError above)

def writeText (tree : FileTree ν α) (above : List ν) (name : ν) (content : α) : Except OsError (FileTree ν α) :=
  if habove : tree.isDir above then
    if hplace : tree.isDir (above ++ [name]) then .error .isADirectory
    else .ok (tree.put above name (.file content) (isDir_iff.mp habove) (fun h => hplace (isDir_iff.mpr h)))
  else .error (tree.wayError above)

def readText (tree : FileTree ν α) (above : List ν) (name : ν) : Except OsError α :=
  if tree.isDir above then
    match tree.nodeAt (above ++ [name]) with
    | none => .error .fileNotFound
    | some .dir => .error .isADirectory
    | some (.file content) => .ok content
  else .error (tree.wayError above)

/-- `Path.write_text`. The root is no file. -/
def writePath (tree : FileTree ν α) (path : List ν) (content : α) : Except OsError (FileTree ν α) :=
  match path.getLast? with
  | none => .error .isADirectory
  | some name => tree.writeText path.dropLast name content

/-- `Path.read_text`. -/
def readPath (tree : FileTree ν α) (path : List ν) : Except OsError α :=
  match path.getLast? with
  | none => .error .isADirectory
  | some name => tree.readText path.dropLast name

theorem writePath_concat (tree : FileTree ν α) (above : List ν) (name : ν) (content : α) :
    tree.writePath (above ++ [name]) content = tree.writeText above name content := by
  rw [writePath, List.getLast?_concat, List.dropLast_concat]

theorem readPath_concat (tree : FileTree ν α) (above : List ν) (name : ν) :
    tree.readPath (above ++ [name]) = tree.readText above name := by
  rw [readPath, List.getLast?_concat, List.dropLast_concat]

/-! ### Directories with what is on the way to them -/

/-- What `Path.mkdir` makes of an error: an existing directory may be accepted. -/
def accept (existOk : Bool) (tree : FileTree ν α) (path : List ν) (e : OsError) : Except OsError Unit :=
  if existOk && tree.isDir path then .ok () else .error e

/-- `Path.mkdir` without its parents. -/
def mkdirAlone (existOk : Bool) (tree : FileTree ν α) (above : List ν) (name : ν) :
    Except OsError Unit × FileTree ν α :=
  match tree.osMkdir above name with
  | .ok tree' => (.ok (), tree')
  | .error .fileNotFound => (.error .fileNotFound, tree)
  | .error e => (accept existOk tree (above ++ [name]) e, tree)

/-- `Path.mkdir` with its parents, along the reversed path. -/
def mkdirFrom (existOk : Bool) (tree : FileTree ν α) : List ν → Except OsError Unit × FileTree ν α
  | [] => (accept existOk tree [] .fileExists, tree)
  | name :: above =>
      match tree.osMkdir above.reverse name with
      | .ok tree' => (.ok (), tree')
      | .error .fileNotFound =>
          match mkdirFrom true tree above with
          | (.ok (), tree') => tree'.mkdirAlone existOk above.reverse name
          | (.error e, tree') => (.error e, tree')
      | .error e => (accept existOk tree (above.reverse ++ [name]) e, tree)

def mkdir (existOk : Bool) (tree : FileTree ν α) (path : List ν) : Except OsError Unit × FileTree ν α :=
  mkdirFrom existOk tree path.reverse

theorem any_isFile_iff {tree : FileTree ν α} {path : List ν} :
    path.inits.any tree.isFile = true ↔ ∃ above content, above <+: path ∧ tree.nodeAt above = some (.file content) := by
  rw [List.any_eq_true]
  constructor
  · rintro ⟨above, hmem, hfile⟩
    unfold isFile at hfile
    split at hfile
    · rename_i content hnode
      exact ⟨above, content, (List.mem_inits _ _).mp hmem, hnode⟩
    · cases hfile
  · rintro ⟨above, content, hle, hnode⟩
    refine ⟨above, (List.mem_inits _ _).mpr hle, ?_⟩
    rw [isFile, hnode]

/-- A place with no file on the way to it. -/
def Free (tree : FileTree ν α) (path : List ν) : Prop :=
  ∀ above, above <+: path → ∀ content, tree.nodeAt above ≠ some (.file content)

theorem wayError_of_free {tree : FileTree ν α} {path : List ν} (h : tree.Free path) :
    tree.wayError path = .fileNotFound := by
  unfold wayError
  rw [if_neg]
  rw [any_isFile_iff]
  rintro ⟨above, content, hle, hnode⟩
  exact h above hle content hnode

theorem wayError_of_file {tree : FileTree ν α} {above path : List ν} {content : α} (hle : above <+: path)
    (h : tree.nodeAt above = some (.file content)) : tree.wayError path = .notADirectory :=
  if_pos (any_isFile_iff.mpr ⟨above, content, hle, h⟩)

section Mkdir

variable {tree : FileTree ν α} {above : List ν} {name : ν}

theorem osMkdir_of_dir (habove : tree.nodeAt above = some .dir) (hplace : tree.nodeAt (above ++ [name]) = none) :
    ∃ tree', tree.osMkdir above name = .ok tree' ∧
      ∀ path, tree'.nodeAt path = if path = above ++ [name] then some .dir else tree.nodeAt path := by
  unfold osMkdir
  rw [dif_pos (isDir_iff.mpr habove), dif_pos hplace]
  exact ⟨_, rfl, nodeAt_put tree above name .dir habove (by simp [hplace])⟩

theorem osMkdir_of_some {node : Node α} (h : tree.nodeAt (above ++ [name]) = some node) :
    tree.osMkdir above name = .error .fileExists := by
  unfold osMkdir
  rw [dif_pos (isDir_iff.mpr (nodeAt_of_append (List.cons_ne_nil _ _) h)), dif_neg (by simp [h])]

theorem osMkdir_of_not_dir (h : tree.nodeAt above ≠ some .dir) :
    tree.osMkdir above name = .error (tree.wayError above) := by
  unfold osMkdir
  rw [dif_neg (fun hdir => h (isDir_iff.mp hdir))]

end Mkdir

theorem Free.mono {tree : FileTree ν α} {path path' : List ν} (h : tree.Free path) (hle : path' <+: path) :
    tree.Free path' := fun above habove => h above (habove.trans hle)

/-- A free place that is taken is one of a directory. -/
theorem Free.eq_none_or_dir {tree : FileTree ν α} {path : List ν} (h : tree.Free path) :
    tree.nodeAt path = none ∨ tree.nodeAt path = some .dir := by
  cases hnode : tree.nodeAt path with
  | none => exact Or.inl rfl
  | some node =>
      cases node with
      | dir => exact Or.inr rfl
      | file content => exact absurd hnode (h path (List.prefix_refl path) content)

theorem mkdirAlone_of_dir {tree : FileTree ν α} {above : List ν} {name : ν} (existOk : Bool)
    (habove : tree.nodeAt above = some .dir) (hplace : tree.nodeAt (above ++ [name]) = none) :
    ∃ tree', tree.mkdirAlone existOk above name = (.ok (), tree') ∧
      ∀ path, tree'.nodeAt path = if path = above ++ [name] then some .dir else tree.nodeAt path := by
  obtain ⟨tree', hmkdir, hnodes⟩ := osMkdir_of_dir habove hplace
  refine ⟨tree', ?_, hnodes⟩
  rw [mkdirAlone, hmkdir]

/-- The prefixes of a path that are not directories, when its parent is one. -/
theorem eq_of_missing {tree : FileTree ν α} {above path : List ν} {name : ν} (habove : tree.nodeAt above = some .dir)
    (hle : path <+: above ++ [name]) (hnone : tree.nodeAt path = none) : path = above ++ [name] := by
  obtain heq | hbelow := List.prefix_concat_iff.mp hle
  · exact heq
  · obtain ⟨below, rfl⟩ := hbelow
    cases (nodeAt_append_of_none hnone below).symm.trans habove

theorem mkdirFrom_of_free {tree : FileTree ν α} {path : List ν} (hfree : tree.Free path.reverse)
    (hnew : tree.nodeAt path.reverse = none) (existOk : Bool) :
    ∃ tree', tree.mkdirFrom existOk path = (.ok (), tree') ∧ ∀ path', tree'.nodeAt path' =
      if path' <+: path.reverse ∧ tree.nodeAt path' = none then some .dir else tree.nodeAt path' := by
  induction path generalizing existOk with
  | nil => cases hnew
  | cons name above ih =>
      rw [List.reverse_cons] at hfree hnew ⊢
      have hfree' : tree.Free above.reverse := hfree.mono (List.prefix_append _ _)
      obtain hnone | habove := hfree'.eq_none_or_dir
      · -- the parent is made first, and then it is a directory
        obtain ⟨tree', hmkdir, hnodes⟩ := ih hfree' hnone true
        have habove' : tree'.nodeAt above.reverse = some .dir := by
          rw [hnodes, if_pos ⟨List.prefix_refl _, hnone⟩]
        have hplace : tree'.nodeAt (above.reverse ++ [name]) = none := by
          rw [hnodes, if_neg (fun h => absurd h.1.length_le (by simp)), hnew]
        obtain ⟨tree'', hlast, hnodes'⟩ := mkdirAlone_of_dir existOk habove' hplace
        refine ⟨tree'', ?_, fun path' => ?_⟩
        · have hos : tree.osMkdir above.reverse name = .error .fileNotFound := by
            rw [osMkdir_of_not_dir (by simp [hnone]), wayError_of_free hfree']
          rw [mkdirFrom, hos]
          simp only [hmkdir, hlast]
        · rw [hnodes', hnodes]
          by_cases heq : path' = above.reverse ++ [name]
          · rw [if_pos heq, if_pos (by rw [heq]; exact ⟨List.prefix_refl _, hnew⟩)]
          · rw [if_neg heq]
            simp only [List.prefix_concat_iff, heq, false_or]
      · obtain ⟨tree', hmkdir, hnodes⟩ := osMkdir_of_dir habove hnew
        refine ⟨tree', ?_, fun path' => ?_⟩
        · rw [mkdirFrom, hmkdir]
        · rw [hnodes]
          by_cases heq : path' = above.reverse ++ [name]
          · rw [if_pos heq, if_pos (by rw [heq]; exact ⟨List.prefix_refl _, hnew⟩)]
          · rw [if_neg heq, if_neg fun h => heq (eq_of_missing habove h.1 h.2)]

/-- The directory that is asked for, and those that were missing on the way to it. -/
theorem mkdir_of_free {tree : FileTree ν α} {path : List ν} (hfree : tree.Free path) (hnew : tree.nodeAt path = none)
    (existOk : Bool) : ∃ tree', tree.mkdir existOk path = (.ok (), tree') ∧
      ∀ path', tree'.nodeAt path' =
        if path' <+: path ∧ tree.nodeAt path' = none then some .dir else tree.nodeAt path' := by
  have h := @mkdirFrom_of_free ν α _ tree path.reverse (by rwa [List.reverse_reverse])
    (by rwa [List.reverse_reverse]) existOk
  rwa [List.reverse_reverse] at h

theorem mkdir_of_some {tree : FileTree ν α} {path : List ν} {node : Node α} (h : tree.nodeAt path = some node)
    (existOk : Bool) : tree.mkdir existOk path = (accept existOk tree path .fileExists, tree) := by
  obtain rfl | ⟨above, name, rfl⟩ := path.eq_nil_or_concat
  · rfl
  · rw [List.concat_eq_append] at h ⊢
    rw [mkdir, List.reverse_append, List.reverse_singleton, List.singleton_append, mkdirFrom, List.reverse_reverse,
      osMkdir_of_some h]

theorem mkdir_below_file {tree : FileTree ν α} {above below : List ν} {content : α} (hne : below ≠ [])
    (h : tree.nodeAt above = some (.file content)) (existOk : Bool) :
    tree.mkdir existOk (above ++ below) = (.error .notADirectory, tree) := by
  obtain rfl | ⟨between, name, rfl⟩ := below.eq_nil_or_concat
  · exact absurd rfl hne
  · rw [List.concat_eq_append, ← List.append_assoc]
    have hnot : tree.nodeAt (above ++ between) ≠ some .dir := by
      by_cases hnil : between = []
      · simp [hnil, h]
      · intro hdir
        cases h.symm.trans (nodeAt_of_append hnil hdir)
    have hplace : tree.isDir (above ++ between ++ [name]) = false := by
      rw [Bool.eq_false_iff, ne_eq, isDir_iff]
      intro hdir
      exact hnot (nodeAt_of_append (List.cons_ne_nil _ _) hdir)
    rw [mkdir, List.reverse_append, List.reverse_singleton, List.singleton_append, mkdirFrom, List.reverse_reverse,
      osMkdir_of_not_dir hnot, wayError_of_file (List.prefix_append _ _) h]
    simp only [accept, hplace, Bool.and_false, Bool.false_eq_true, if_false]

/-! ### Files -/

section Files

variable {tree : FileTree ν α} {above : List ν} {name : ν}

theorem writeText_of_dir (habove : tree.nodeAt above = some .dir) (hplace : tree.nodeAt (above ++ [name]) ≠ some .dir)
    (content : α) : ∃ tree', tree.writeText above name content = .ok tree' ∧
      ∀ path, tree'.nodeAt path = if path = above ++ [name] then some (.file content) else tree.nodeAt path := by
  unfold writeText
  rw [dif_pos (isDir_iff.mpr habove), dif_neg (fun hdir => hplace (isDir_iff.mp hdir))]
  exact ⟨_, rfl, nodeAt_put tree above name (.file content) habove hplace⟩

theorem readText_of_file {content : α} (h : tree.nodeAt (above ++ [name]) = some (.file content)) :
    tree.readText above name = .ok content := by
  unfold readText
  rw [if_pos (isDir_iff.mpr (nodeAt_of_append (List.cons_ne_nil _ _) h)), h]

theorem readText_of_free (hfree : tree.Free above) (h : tree.nodeAt (above ++ [name]) = none) :
    tree.readText above name = .error .fileNotFound := by
  unfold readText
  obtain hnone | hdir := hfree.eq_none_or_dir
  · rw [if_neg (by rw [isDir_iff, hnone]; simp), wayError_of_free hfree]
  · rw [if_pos (isDir_iff.mpr hdir), h]

theorem readText_below_file {below : List ν} {content : α} (h : tree.nodeAt above = some (.file content)) :
    tree.readText (above ++ below) name = .error .notADirectory := by
  unfold readText
  have hnot : ¬ tree.isDir (above ++ below) = true := by
    rw [isDir_iff]
    intro hdir
    by_cases hnil : below = []
    · rw [hnil, List.append_nil, h] at hdir
      cases hdir
    · cases h.symm.trans (nodeAt_of_append hnil hdir)
  rw [if_neg hnot, wayError_of_file (List.prefix_append _ _) h]

end Files

end FileTree

end OfTestbed.Lib
