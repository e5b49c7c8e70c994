import OfTestbed.LibDefaultDict
import OfTestbed.LibFiles
import OfTestbed.ResultsRepository

/-!
The files of a results repository (`nw_control/results_repository.py`). A repository keeps its name and its schema in a
file in its base directory, and below that one directory for each choice of the schema variables, with the files of the
results and of the trial provider. A repository that was created is a store: whatever calls are made, each has the
outcome that it has on a table of directories and their files.

Parts of a path that lead back up are not followed.
-/

namespace OfTestbed.Repository

open Lib

variable {β : Type}

/-! ### Paths -/

/-- `Path(text)`: whether it is absolute, and its parts. -/
def parsePath (text : Text) : Bool × List Text :=
  (text.head? = some '/', (text.splitOn '/').filter fun part => part ≠ [] ∧ part ≠ ['.'])

/-- `path / text`. -/
def joinpath (path : List Text) (text : Text) : List Text :=
  if (parsePath text).1 then (parsePath text).2 else path ++ (parsePath text).2

/-- A name of a file or of a directory. -/
structure Plain (name : Text) : Prop where
  ne_nil : name ≠ []
  ne_dot : name ≠ ['.']
  ne_dots : name ≠ ['.', '.']
  notMem : '/' ∉ name

theorem Plain.joinpath_eq {name : Text} (h : Plain name) (path : List Text) : joinpath path name = path ++ [name] := by
  have hhead : name.head? ≠ some '/' := fun hhead => h.notMem (List.mem_of_head? hhead)
  have hparts : (name.splitOn '/').filter (fun part => part ≠ [] ∧ part ≠ ['.']) = [name] := by
    rw [List.splitOn_eq_singleton h.notMem]
    simp [h.ne_nil, h.ne_dot]
  rw [joinpath, parsePath, hparts]
  simp [hhead]

/-! ### The program -/

structure Metadata where
  repositoryName : Text
  schema : Text
  deriving DecidableEq

/-- What a file holds: text, the metadata as JSON, or a provider that is pickled. -/
inductive Content (β : Type) where
  | text (text : Text)
  | metadata (metadata : Metadata)
  | provider (provider : TrialProvider β)

inductive Failure where
  | keyError
  | os (error : OsError)
  | value (error : ValueError)
  | undecodable
  deriving DecidableEq

abbrev Tree (β : Type) := FileTree Text (Content β)

def repoMetadataFile : Text := ".results_repo".toList

structure ResultsRepository where
  basePath : List Text
  schema : Text
  repositoryName : Text

def repositoryExists (tree : Tree β) (basePath : List Text) : Bool :=
  tree.isDir basePath && (tree.nodeAt (basePath ++ [repoMetadataFile])).isSome

def readRepositoryMetadata (tree : Tree β) (basePath : List Text) : Except Failure Metadata :=
  match tree.readPath (basePath ++ [repoMetadataFile]) with
  | .ok (.metadata metadata) => .ok metadata
  | .ok _ => .error .undecodable
  | .error error => .error (.os error)

def otherRepository (repositoryName : Text) (metadata : Metadata) : ValueError :=
  ⟨"Attempting to create repository ".toList ++ repositoryName ++
    " in base directory that contains repository ".toList ++ metadata.repositoryName⟩

def createRepository (repo : ResultsRepository) (tree : Tree β) : Except Failure Unit × Tree β :=
  if repositoryExists tree repo.basePath then
    match readRepositoryMetadata tree repo.basePath with
    | .error failure => (.error failure, tree)
    | .ok metadata =>
        if metadata.repositoryName ≠ repo.repositoryName ∨ metadata.schema ≠ repo.schema then
          (.error (.value (otherRepository repo.repositoryName metadata)), tree)
        else (.ok (), tree)
  else
    match tree.mkdir false repo.basePath with
    | (.error error, tree) => (.error (.os error), tree)
    | (.ok (), tree) =>
        match tree.writePath (repo.basePath ++ [repoMetadataFile]) (.metadata ⟨repo.repositoryName, repo.schema⟩) with
        | .error error => (.error (.os error), tree)
        | .ok tree => (.ok (), tree)

namespace ResultsRepository

variable (repo : ResultsRepository)

/-- The labels of the schema. -/
def labels : List Text := (repo.schema.splitOn '/').filter (· ≠ [])

def buildOutputPath (schemaVariables : Dict Text Text) : Except Failure (List Text) :=
  match repo.labels.mapM schemaVariables.get? with
  | none => .error .keyError
  | some segments => .ok (segments.foldl joinpath repo.basePath)

/-- The loop over the results. -/
def writeFiles (outputPath : List Text) : List (Text × Text) → Tree β → Except Failure Unit × Tree β
  | [], tree => (.ok (), tree)
  | (fileName, resultsData) :: rest, tree =>
      match tree.writePath (joinpath outputPath fileName) (.text resultsData) with
      | .error error => (.error (.os error), tree)
      | .ok tree => writeFiles outputPath rest tree

def writeTrialResults (schemaVariables results : Dict Text Text) (overwrite : Bool) (tree : Tree β) :
    Except Failure Unit × Tree β :=
  match repo.buildOutputPath schemaVariables with
  | .error failure => (.error failure, tree)
  | .ok outputPath =>
      match tree.mkdir overwrite outputPath with
      | (.error error, tree) => (.error (.os error), tree)
      | (.ok (), tree) => writeFiles outputPath results.entries tree

def readFile (outputPath : List Text) (tree : Tree β) (fileName : Text) : Except Failure (Text × Text) :=
  match tree.readPath (joinpath outputPath fileName) with
  | .ok (.text fileText) => .ok (fileName, fileText)
  | .ok _ => .error .undecodable
  | .error error => .error (.os error)

def readTrialResults (schemaVariables : Dict Text Text) (fileNames : List Text) (tree : Tree β) :
    Except Failure (Dict Text Text) := do
  let outputPath ← repo.buildOutputPath schemaVariables
  return .ofList (← fileNames.mapM (readFile outputPath tree))

def providerFile : Text := "trial-provider.p".toList

/-- The provider that a file holds. -/
def loadProvider (tree : Tree β) (path : List Text) : Except Failure (Option (TrialProvider β)) :=
  if (tree.nodeAt path).isSome then
    match tree.readPath path with
    | .ok (.provider provider) => .ok (some provider)
    | .ok _ => .error .undecodable
    | .error error => .error (.os error)
  else .ok none

/-- `write_trial_provider`, with the provider as it is after the call. -/
def writeProvider [DecidableEq β] (order : SetOrder β) (schemaVariables : Dict Text Text) (provider : TrialProvider β)
    (overwrite mergeExisting : Bool) (tree : Tree β) : Except Failure (TrialProvider β) × Tree β :=
  match repo.buildOutputPath schemaVariables with
  | .error failure => (.error failure, tree)
  | .ok outputPath =>
      match tree.mkdir true outputPath with
      | (.error error, tree) => (.error (.os error), tree)
      | (.ok (), tree) =>
          match loadProvider tree (joinpath outputPath providerFile) with
          | .error failure => (.error failure, tree)
          | .ok stored =>
              match writeTrialProvider order overwrite mergeExisting ⟨stored, provider⟩ with
              | (.error error, _) => (.error (.value error), tree)
              | (.ok (), state) =>
                  match tree.writePath (joinpath outputPath providerFile) (.provider state.passed) with
                  | .error error => (.error (.os error), tree)
                  | .ok tree => (.ok state.passed, tree)

end ResultsRepository

/-! ### The store -/

/-- The directories of the choices of the schema variables, each with its files. -/
abbrev Store (β : Type) := List Text → Option (Text → Option (Content β))

namespace Store

/-- The name of the metadata file is not that of a directory. -/
def Reserved (key : List Text) : Prop := key.head? = some repoMetadataFile

instance (key : List Text) : Decidable (Reserved key) := inferInstanceAs (Decidable (_ = _))

def openDirectory (store : Store β) (existOk : Bool) (key : List Text) : Except OsError (Store β) :=
  if Reserved key then .error (if key.length = 1 then .fileExists else .notADirectory)
  else match store key with
    | some _ => if existOk then .ok store else .error .fileExists
    | none => .ok (Function.update store key (some fun _ => none))

def put (store : Store β) (key : List Text) (name : Text) (content : Content β) : Store β :=
  Function.update store key ((store key).map fun files => Function.update files name (some content))

def get (store : Store β) (key : List Text) (name : Text) : Except OsError (Content β) :=
  if Reserved key then .error .notADirectory
  else match (store key).bind (· name) with
    | none => .error .fileNotFound
    | some content => .ok content

end Store

/-- The files of a repository are those of a store. Outside of it the files are those that were there at first. -/
structure Holds (repo : ResultsRepository) (first tree : Tree β) (store : Store β) : Prop where
  metadata : tree.nodeAt (repo.basePath ++ [repoMetadataFile]) =
    some (.file (.metadata ⟨repo.repositoryName, repo.schema⟩))
  directory : ∀ key : List Text, key.length = repo.labels.length → ¬ Store.Reserved key →
    tree.nodeAt (repo.basePath ++ key) = (store key).map fun _ => .dir
  file : ∀ (key : List Text) (name : Text), key.length = repo.labels.length → ¬ Store.Reserved key →
    tree.nodeAt (repo.basePath ++ (key ++ [name])) = ((store key).bind (· name)).map .file
  between : ∀ above : List Text, above.length < repo.labels.length → ¬ Store.Reserved above →
    ∀ content, tree.nodeAt (repo.basePath ++ above) ≠ some (.file content)
  outside : ∀ path, ¬ repo.basePath <+: path → tree.nodeAt path = first.nodeAt path

namespace Holds

variable {repo : ResultsRepository} {first tree : Tree β} {store : Store β}

theorem base (h : Holds repo first tree store) : tree.nodeAt repo.basePath = some .dir :=
  FileTree.nodeAt_of_append (List.cons_ne_nil _ _) h.metadata

theorem not_reserved_of_le {above key : List Text} (hle : above <+: key) (h : ¬ Store.Reserved key) :
    ¬ Store.Reserved above := by
  intro habove
  obtain ⟨below, rfl⟩ := hle
  refine h ?_
  cases above with
  | nil => cases habove
  | cons first rest => exact habove

/-- There is no file on the way to a directory of the store. -/
theorem free (h : Holds repo first tree store) {key : List Text} (hlength : key.length = repo.labels.length)
    (hkey : ¬ Store.Reserved key) : tree.Free (repo.basePath ++ key) := by
  intro above hle content hnode
  obtain hbase | ⟨below, rfl⟩ := List.prefix_or_prefix_of_prefix hle (List.prefix_append repo.basePath key)
  · obtain ⟨below, hbelow⟩ := hbase
    by_cases hnil : below = []
    · rw [hnil, List.append_nil] at hbelow
      rw [hbelow, h.base] at hnode
      cases hnode
    · have hbase := h.base
      rw [← hbelow] at hbase
      cases hnode.symm.trans (FileTree.nodeAt_of_append hnil hbase)
  · rw [List.prefix_append_right_inj] at hle
    have hbelow := not_reserved_of_le hle hkey
    obtain hlt | heq := lt_or_eq_of_le hle.length_le
    · exact h.between below (hlength ▸ hlt) hbelow content hnode
    · rw [h.directory below (heq.trans hlength) hbelow] at hnode
      cases hget : store below <;> simp [hget] at hnode

/-- A directory that the metadata file is in the way of. -/
theorem mkdir_reserved (h : Holds repo first tree store) (existOk : Bool) {key : List Text}
    (hkey : Store.Reserved key) :
    tree.mkdir existOk (repo.basePath ++ key) =
      (.error (if key.length = 1 then .fileExists else .notADirectory), tree) := by
  obtain ⟨rest, rfl⟩ := List.head?_eq_some_iff.mp hkey
  cases rest with
  | nil =>
      have hdir : tree.isDir (repo.basePath ++ [repoMetadataFile]) = false := by
        rw [FileTree.isDir, h.metadata]
      rw [FileTree.mkdir_of_some h.metadata, FileTree.accept, hdir, Bool.and_false]
      rfl
  | cons second rest =>
      have hbelow := FileTree.mkdir_below_file (List.cons_ne_nil second rest) h.metadata existOk
      rw [List.append_assoc, List.singleton_append] at hbelow
      rw [hbelow, if_neg (by simp)]

/-- A new directory of the store. -/
theorem mkdir_new (h : Holds repo first tree store) {key : List Text} (hlength : key.length = repo.labels.length)
    (hkey : ¬ Store.Reserved key) {tree' : Tree β} (hnodes : ∀ path, tree'.nodeAt path =
      if path <+: repo.basePath ++ key ∧ tree.nodeAt path = none then some .dir else tree.nodeAt path)
    (hnone : store key = none) :
    Holds repo first tree' (Function.update store key (some fun _ => none)) where
  metadata := by
    rw [hnodes, if_neg (by simp [h.metadata]), h.metadata]
  directory key' hlength' hkey' := by
    rw [hnodes]
    by_cases heq : key' = key
    · subst heq
      rw [if_pos ⟨List.prefix_refl _, by rw [h.directory key' hlength hkey, hnone]; rfl⟩, Function.update_self]
      rfl
    · have hother : ¬ repo.basePath ++ key' <+: repo.basePath ++ key := by
        rw [List.prefix_append_right_inj]
        exact fun hle => heq (hle.eq_of_length (hlength'.trans hlength.symm))
      rw [if_neg fun hle => hother hle.1, Function.update_of_ne heq, h.directory key' hlength' hkey']
  file key' name hlength' hkey' := by
    have hlong : ¬ repo.basePath ++ (key' ++ [name]) <+: repo.basePath ++ key := by
      rw [List.prefix_append_right_inj]
      intro hle
      have := hle.length_le
      rw [List.length_append, List.length_singleton] at this
      omega
    rw [hnodes, if_neg fun hle => hlong hle.1, h.file key' name hlength' hkey']
    by_cases heq : key' = key
    · subst heq
      rw [Function.update_self, hnone]
      rfl
    · rw [Function.update_of_ne heq]
  between above hlt habove content hnode := by
    rw [hnodes] at hnode
    split at hnode
    · cases hnode
    · exact h.between above hlt habove content hnode
  outside path hpath := by
    have hthere : ¬ (path <+: repo.basePath ++ key ∧ tree.nodeAt path = none) := by
      rintro ⟨hle, hmissing⟩
      obtain ⟨below, hbelow⟩ := (List.prefix_or_prefix_of_prefix hle (List.prefix_append _ _)).resolve_right hpath
      have hbase := h.base
      rw [← hbelow, FileTree.nodeAt_append_of_none hmissing] at hbase
      cases hbase
    rw [hnodes, if_neg hthere, h.outside path hpath]

/-- A directory is opened as in the store. -/
theorem openDirectory (h : Holds repo first tree store) (existOk : Bool) {key : List Text}
    (hlength : key.length = repo.labels.length) :
    match store.openDirectory existOk key with
    | .error error => tree.mkdir existOk (repo.basePath ++ key) = (.error error, tree)
    | .ok store' => ¬ Store.Reserved key ∧ (store' key).isSome ∧
        ∃ tree', tree.mkdir existOk (repo.basePath ++ key) = (.ok (), tree') ∧ Holds repo first tree' store' := by
  by_cases hkey : Store.Reserved key
  · rw [Store.openDirectory, if_pos hkey]
    exact h.mkdir_reserved existOk hkey
  · rw [Store.openDirectory, if_neg hkey]
    have hnode := h.directory key hlength hkey
    cases hstore : store key with
    | none =>
        rw [hstore, Option.map_none] at hnode
        obtain ⟨tree', hmkdir, hnodes⟩ := FileTree.mkdir_of_free (h.free hlength hkey) hnode existOk
        refine ⟨hkey, ?_, tree', hmkdir, h.mkdir_new hlength hkey hnodes hstore⟩
        rw [Function.update_self]
        rfl
    | some files =>
        rw [hstore, Option.map_some] at hnode
        have hmkdir := FileTree.mkdir_of_some hnode existOk
        rw [FileTree.accept, FileTree.isDir_iff.mpr hnode, Bool.and_true] at hmkdir
        cases existOk with
        | true => exact ⟨hkey, by rw [hstore]; rfl, tree, hmkdir, h⟩
        | false => exact hmkdir

theorem put (h : Holds repo first tree store) {key : List Text} (hlength : key.length = repo.labels.length)
    (hkey : ¬ Store.Reserved key) (hopen : (store key).isSome) (hpos : 0 < repo.labels.length) (name : Text)
    (content : Content β) : ∃ tree', tree.writePath (repo.basePath ++ key ++ [name]) content = .ok tree' ∧
      Holds repo first tree' (store.put key name content) := by
  obtain ⟨files, hfiles⟩ := Option.isSome_iff_exists.mp hopen
  have habove : tree.nodeAt (repo.basePath ++ key) = some .dir := by
    rw [h.directory key hlength hkey, hfiles, Option.map_some]
  have hplace : tree.nodeAt (repo.basePath ++ key ++ [name]) ≠ some .dir := by
    rw [List.append_assoc, h.file key name hlength hkey]
    cases (store key).bind (· name) <;> simp
  obtain ⟨tree', hwrite, hnodes⟩ := FileTree.writeText_of_dir habove hplace content
  rw [List.append_assoc] at hnodes
  have hother : ∀ path : List Text, path.length ≠ key.length + 1 →
      tree'.nodeAt (repo.basePath ++ path) = tree.nodeAt (repo.basePath ++ path) := by
    intro path hne
    rw [hnodes, if_neg]
    intro heq
    rw [List.append_cancel_left heq, List.length_append] at hne
    exact hne rfl
  refine ⟨tree', ?_, ⟨?_, fun key' hlength' hkey' => ?_, fun key' name' hlength' hkey' => ?_,
    fun above hlt hnot content' => ?_, fun path hpath => ?_⟩⟩
  · rw [FileTree.writePath_concat]
    exact hwrite
  · rw [hother _ (by rw [List.length_singleton]; omega), h.metadata]
  · rw [hother _ (by omega), h.directory key' hlength' hkey', Store.put]
    by_cases heq : key' = key
    · subst heq
      rw [Function.update_self, hfiles]
      rfl
    · rw [Function.update_of_ne heq]
  · rw [hnodes, Store.put]
    by_cases heq : key' = key
    · subst heq
      rw [Function.update_self, hfiles]
      by_cases hname : name' = name
      · subst hname
        rw [if_pos rfl]
        simp
      · rw [if_neg fun hpath => hname (by simpa using hpath), h.file key' name' hlength' hkey', hfiles]
        simp [Function.update_of_ne hname]
    · rw [Function.update_of_ne heq, if_neg fun hpath => ?_, h.file key' name' hlength' hkey']
      exact heq (List.append_inj' (List.append_cancel_left hpath) rfl).1
  · rw [hother _ (by omega)]
    exact h.between above hlt hnot content'
  · rw [hnodes, if_neg fun heq => hpath (by rw [heq]; exact List.prefix_append _ _), h.outside path hpath]

theorem get (h : Holds repo first tree store) {key : List Text} (hlength : key.length = repo.labels.length)
    (name : Text) :
    tree.readPath (repo.basePath ++ key ++ [name]) = store.get key name := by
  rw [FileTree.readPath_concat, Store.get]
  by_cases hkey : Store.Reserved key
  · obtain ⟨rest, rfl⟩ := List.head?_eq_some_iff.mp hkey
    rw [if_pos hkey, List.append_cons]
    exact FileTree.readText_below_file h.metadata
  · rw [if_neg hkey]
    have hnode := h.file key name hlength hkey
    rw [← List.append_assoc] at hnode
    cases hget : (store key).bind (· name) with
    | none =>
        rw [hget] at hnode
        exact FileTree.readText_of_free (h.free hlength hkey) hnode
    | some content =>
        rw [hget] at hnode
        exact FileTree.readText_of_file hnode

end Holds

/-! ### Calls -/

/-- A call on a repository: of one of its methods, or of `create_repository` with its base path. -/
inductive RepositoryCall (β : Type) where
  | writeResults (schemaVariables results : Dict Text Text) (overwrite : Bool)
  | readResults (schemaVariables : Dict Text Text) (fileNames : List Text)
  | writeProvider (schemaVariables : Dict Text Text) (provider : TrialProvider β) (overwrite mergeExisting : Bool)
  | create (schema repositoryName : Text)

/-- What a call returns, with the provider that it has changed. -/
inductive Answer (β : Type) where
  | done
  | texts (texts : Dict Text Text)
  | provider (provider : TrialProvider β)

namespace RepositoryCall

variable [DecidableEq β]

/-- A call on the files. -/
def run (order : SetOrder β) (repo : ResultsRepository) (tree : Tree β) :
    RepositoryCall β → Except Failure (Answer β) × Tree β
  | .writeResults schemaVariables results overwrite =>
      (repo.writeTrialResults schemaVariables results overwrite tree).map (·.map fun _ => .done) id
  | .readResults schemaVariables fileNames =>
      ((repo.readTrialResults schemaVariables fileNames tree).map .texts, tree)
  | .writeProvider schemaVariables provider overwrite mergeExisting =>
      (repo.writeProvider order schemaVariables provider overwrite mergeExisting tree).map (·.map .provider) id
  | .create schema repositoryName =>
      (createRepository ⟨repo.basePath, schema, repositoryName⟩ tree).map (·.map fun _ => .done) id

/-- The text of a file. -/
def textOf (fileName : Text) : Except OsError (Content β) → Except Failure (Text × Text)
  | .ok (.text fileText) => .ok (fileName, fileText)
  | .ok _ => .error .undecodable
  | .error error => .error (.os error)

/-- The provider in a file, which may be missing. -/
def providerOf : Except OsError (Content β) → Except Failure (Option (TrialProvider β))
  | .ok (.provider provider) => .ok (some provider)
  | .ok _ => .error .undecodable
  | .error _ => .ok none

/-- The call on a store. -/
def spec (order : SetOrder β) (repo : ResultsRepository) (store : Store β) :
    RepositoryCall β → Except Failure (Answer β) × Store β
  | .writeResults schemaVariables results overwrite =>
      match repo.labels.mapM schemaVariables.get? with
      | none => (.error .keyError, store)
      | some key =>
          match store.openDirectory overwrite key with
          | .error error => (.error (.os error), store)
          | .ok store => (.ok .done, results.entries.foldl (fun store e => store.put key e.1 (.text e.2)) store)
  | .readResults schemaVariables fileNames =>
      match repo.labels.mapM schemaVariables.get? with
      | none => (.error .keyError, store)
      | some key =>
          ((fileNames.mapM fun fileName => textOf fileName (store.get key fileName)).map fun texts =>
            .texts (.ofList texts), store)
  | .writeProvider schemaVariables provider overwrite mergeExisting =>
      match repo.labels.mapM schemaVariables.get? with
      | none => (.error .keyError, store)
      | some key =>
          match store.openDirectory true key with
          | .error error => (.error (.os error), store)
          | .ok store =>
              match providerOf (store.get key ResultsRepository.providerFile) with
              | .error failure => (.error failure, store)
              | .ok stored =>
                  match writeTrialProvider order overwrite mergeExisting ⟨stored, provider⟩ with
                  | (.error error, _) => (.error (.value error), store)
                  | (.ok (), state) =>
                      (.ok (.provider state.passed),
                        store.put key ResultsRepository.providerFile (.provider state.passed))
  | .create schema repositoryName =>
      if repo.repositoryName ≠ repositoryName ∨ repo.schema ≠ schema then
        (.error (.value (otherRepository repositoryName ⟨repo.repositoryName, repo.schema⟩)), store)
      else (.ok .done, store)

/-- The values of the schema variables and the names of files are names. -/
def Plain (repo : ResultsRepository) : RepositoryCall β → Prop
  | .writeResults schemaVariables results _ =>
      (∀ label ∈ repo.labels, ∀ value, schemaVariables.get? label = some value → Repository.Plain value) ∧
      ∀ e ∈ results.entries, Repository.Plain e.1
  | .readResults schemaVariables fileNames =>
      (∀ label ∈ repo.labels, ∀ value, schemaVariables.get? label = some value → Repository.Plain value) ∧
      ∀ fileName ∈ fileNames, Repository.Plain fileName
  | .writeProvider schemaVariables _ _ _ =>
      ∀ label ∈ repo.labels, ∀ value, schemaVariables.get? label = some value → Repository.Plain value
  | .create _ _ => True

end RepositoryCall

/-! ### The files are a store -/

theorem foldl_joinpath {names : List Text} (h : ∀ name ∈ names, Plain name) (path : List Text) :
    names.foldl joinpath path = path ++ names := by
  induction names generalizing path with
  | nil => exact (List.append_nil path).symm
  | cons name rest ih =>
      obtain ⟨hname, hrest⟩ := List.forall_mem_cons.mp h
      rw [List.foldl_cons, hname.joinpath_eq, ih hrest, List.append_assoc]
      rfl

section Refinement

variable {repo : ResultsRepository} {first tree : Tree β} {store : Store β} {schemaVariables : Dict Text Text}

theorem buildOutputPath_of_none (h : repo.labels.mapM schemaVariables.get? = none) :
    repo.buildOutputPath schemaVariables = .error .keyError := by
  rw [ResultsRepository.buildOutputPath, h]

theorem buildOutputPath_of_some
    (hplain : ∀ label ∈ repo.labels, ∀ value, schemaVariables.get? label = some value → Plain value) {key : List Text}
    (h : repo.labels.mapM schemaVariables.get? = some key) :
    repo.buildOutputPath schemaVariables = .ok (repo.basePath ++ key) := by
  have hkey : ∀ name ∈ key, Plain name := by
    intro name hname
    obtain ⟨label, hlabel, hvalue⟩ := exists_of_mem_mapM h hname
    exact hplain label hlabel name hvalue
  rw [ResultsRepository.buildOutputPath, h]
  simp only [foldl_joinpath hkey]

theorem isSome_put {key : List Text} (hopen : (store key).isSome) (name : Text) (content : Content β) :
    (store.put key name content key).isSome := by
  rw [Store.put, Function.update_self, Option.isSome_map]
  exact hopen

theorem Holds.writeFiles (h : Holds repo first tree store) {key : List Text} (hlength : key.length = repo.labels.length)
    (hkey : ¬ Store.Reserved key) (hopen : (store key).isSome) (hpos : 0 < repo.labels.length)
    {results : List (Text × Text)} (hplain : ∀ e ∈ results, Plain e.1) :
    ∃ tree', ResultsRepository.writeFiles (repo.basePath ++ key) results tree = (.ok (), tree') ∧
      Holds repo first tree' (results.foldl (fun store e => store.put key e.1 (.text e.2)) store) := by
  induction results generalizing tree store with
  | nil => exact ⟨tree, rfl, h⟩
  | cons e rest ih =>
      obtain ⟨hname, hrest⟩ := List.forall_mem_cons.mp hplain
      obtain ⟨tree', hwrite, hholds⟩ := h.put hlength hkey hopen hpos e.1 (.text e.2)
      obtain ⟨tree'', hfiles, hholds'⟩ := ih hholds (isSome_put hopen e.1 _) hrest
      refine ⟨tree'', ?_, hholds'⟩
      rw [ResultsRepository.writeFiles, hname.joinpath_eq]
      simp only [hwrite, hfiles]

theorem readFile_eq (h : Holds repo first tree store) {key : List Text} (hlength : key.length = repo.labels.length)
    {fileName : Text} (hplain : Plain fileName) :
    ResultsRepository.readFile (repo.basePath ++ key) tree fileName =
      RepositoryCall.textOf fileName (store.get key fileName) := by
  rw [ResultsRepository.readFile, hplain.joinpath_eq, h.get hlength]
  rfl

theorem plain_providerFile : Plain ResultsRepository.providerFile := ⟨by decide, by decide, by decide, by decide⟩

theorem loadProvider_eq (h : Holds repo first tree store) {key : List Text} (hlength : key.length = repo.labels.length)
    (hkey : ¬ Store.Reserved key) :
    ResultsRepository.loadProvider tree (joinpath (repo.basePath ++ key) ResultsRepository.providerFile) =
      RepositoryCall.providerOf (store.get key ResultsRepository.providerFile) := by
  have hnode := h.file key ResultsRepository.providerFile hlength hkey
  rw [ResultsRepository.loadProvider, plain_providerFile.joinpath_eq, h.get hlength, List.append_assoc, hnode,
    Store.get, if_neg hkey]
  cases (store key).bind (· ResultsRepository.providerFile) with
  | none => rfl
  | some content => cases content <;> rfl

theorem Holds.createRepository (h : Holds repo first tree store) (schema repositoryName : Text) :
    Repository.createRepository ⟨repo.basePath, schema, repositoryName⟩ tree =
      (if repo.repositoryName ≠ repositoryName ∨ repo.schema ≠ schema then
        .error (.value (otherRepository repositoryName ⟨repo.repositoryName, repo.schema⟩))
      else .ok (), tree) := by
  have hexists : repositoryExists tree repo.basePath = true := by
    rw [repositoryExists, FileTree.isDir_iff.mpr h.base, h.metadata]
    rfl
  have hread : readRepositoryMetadata tree repo.basePath = .ok ⟨repo.repositoryName, repo.schema⟩ := by
    rw [readRepositoryMetadata, FileTree.readPath_concat, FileTree.readText_of_file h.metadata]
  rw [Repository.createRepository]
  simp only [hexists, if_true, hread]
  split
  · rfl
  · rfl

variable [DecidableEq β]

/-- The outcome and the files of a call are those of its specification. -/
def Refines (repo : ResultsRepository) (first : Tree β) (result : Except Failure (Answer β) × Tree β)
    (spec : Except Failure (Answer β) × Store β) : Prop :=
  result.1 = spec.1 ∧ Holds repo first result.2 spec.2

theorem Holds.writeResults (order : SetOrder β) (h : Holds repo first tree store) (hpos : 0 < repo.labels.length)
    (results : Dict Text Text) (overwrite : Bool)
    (hplain : (RepositoryCall.writeResults schemaVariables results overwrite : RepositoryCall β).Plain repo) :
    Refines repo first (RepositoryCall.run order repo tree (.writeResults schemaVariables results overwrite))
      (RepositoryCall.spec order repo store (.writeResults schemaVariables results overwrite)) := by
  simp only [RepositoryCall.run, RepositoryCall.spec, ResultsRepository.writeTrialResults]
  cases hkey : repo.labels.mapM schemaVariables.get? with
  | none =>
      rw [buildOutputPath_of_none hkey]
      exact ⟨rfl, h⟩
  | some key =>
      have hlength : key.length = repo.labels.length := length_of_mapM hkey
      have hopen := h.openDirectory overwrite hlength
      simp only [buildOutputPath_of_some hplain.1 hkey]
      cases hspec : store.openDirectory overwrite key with
      | error error =>
          rw [hspec] at hopen
          simp only [hopen]
          exact ⟨rfl, h⟩
      | ok store' =>
          rw [hspec] at hopen
          obtain ⟨hnot, hsome, tree', hmkdir, hholds⟩ := hopen
          obtain ⟨tree'', hfiles, hholds'⟩ := hholds.writeFiles hlength hnot hsome hpos hplain.2
          simp only [hmkdir, hfiles]
          exact ⟨rfl, hholds'⟩

omit [DecidableEq β] in
theorem Holds.readTrialResults (h : Holds repo first tree store) {fileNames : List Text}
    (hvalues : ∀ label ∈ repo.labels, ∀ value, schemaVariables.get? label = some value → Plain value)
    (hnames : ∀ fileName ∈ fileNames, Plain fileName) {key : List Text}
    (hkey : repo.labels.mapM schemaVariables.get? = some key) :
    repo.readTrialResults schemaVariables fileNames tree =
      (fileNames.mapM fun fileName => RepositoryCall.textOf fileName (store.get key fileName)).map Dict.ofList := by
  have hlength : key.length = repo.labels.length := length_of_mapM hkey
  have hread : fileNames.mapM (ResultsRepository.readFile (repo.basePath ++ key) tree) =
      fileNames.mapM fun fileName => RepositoryCall.textOf fileName (store.get key fileName) :=
    mapM_congr_mem fun fileName hmem => readFile_eq h hlength (hnames fileName hmem)
  rw [ResultsRepository.readTrialResults, buildOutputPath_of_some hvalues hkey, ← hread]
  show (fileNames.mapM (ResultsRepository.readFile (repo.basePath ++ key) tree) >>= fun texts =>
    pure (Dict.ofList texts)) = _
  cases fileNames.mapM (ResultsRepository.readFile (repo.basePath ++ key) tree) with
  | error failure => rfl
  | ok texts => rfl

theorem Holds.readResults (order : SetOrder β) (h : Holds repo first tree store) (fileNames : List Text)
    (hplain : (RepositoryCall.readResults schemaVariables fileNames : RepositoryCall β).Plain repo) :
    Refines repo first (RepositoryCall.run order repo tree (.readResults schemaVariables fileNames))
      (RepositoryCall.spec order repo store (.readResults schemaVariables fileNames)) := by
  simp only [RepositoryCall.run, RepositoryCall.spec]
  cases hkey : repo.labels.mapM schemaVariables.get? with
  | none =>
      rw [ResultsRepository.readTrialResults, buildOutputPath_of_none hkey]
      exact ⟨rfl, h⟩
  | some key =>
      rw [h.readTrialResults hplain.1 hplain.2 hkey]
      refine ⟨?_, h⟩
      simp only
      cases fileNames.mapM fun fileName => RepositoryCall.textOf fileName (store.get key fileName) with
      | error failure => rfl
      | ok texts => rfl

theorem Holds.writeProvider (order : SetOrder β) (h : Holds repo first tree store) (hpos : 0 < repo.labels.length)
    (provider : TrialProvider β) (overwrite mergeExisting : Bool)
    (hplain : (RepositoryCall.writeProvider schemaVariables provider overwrite mergeExisting).Plain repo) :
    Refines repo first
      (RepositoryCall.run order repo tree (.writeProvider schemaVariables provider overwrite mergeExisting))
      (RepositoryCall.spec order repo store (.writeProvider schemaVariables provider overwrite mergeExisting)) := by
  simp only [RepositoryCall.run, RepositoryCall.spec, ResultsRepository.writeProvider]
  cases hkey : repo.labels.mapM schemaVariables.get? with
  | none =>
      rw [buildOutputPath_of_none hkey]
      exact ⟨rfl, h⟩
  | some key =>
      have hlength : key.length = repo.labels.length := length_of_mapM hkey
      have hopen := h.openDirectory true hlength
      simp only [buildOutputPath_of_some hplain hkey]
      cases hspec : store.openDirectory true key with
      | error error =>
          rw [hspec] at hopen
          simp only [hopen]
          exact ⟨rfl, h⟩
      | ok store' =>
          rw [hspec] at hopen
          obtain ⟨hnot, hsome, tree', hmkdir, hholds⟩ := hopen
          simp only [hmkdir, loadProvider_eq hholds hlength hnot]
          cases RepositoryCall.providerOf (store'.get key ResultsRepository.providerFile) with
          | error failure => exact ⟨rfl, hholds⟩
          | ok stored =>
              rcases hwrite : writeTrialProvider order overwrite mergeExisting ⟨stored, provider⟩ with ⟨outcome, state⟩
              simp only [hwrite]
              cases outcome with
              | error error => exact ⟨rfl, hholds⟩
              | ok _ =>
                  obtain ⟨tree'', hput, hholds'⟩ := hholds.put hlength hnot hsome hpos ResultsRepository.providerFile
                    (.provider state.passed)
                  simp only [plain_providerFile.joinpath_eq, hput]
                  exact ⟨rfl, hholds'⟩

/-- A call has the outcome that it has on the store. -/
theorem Holds.run (order : SetOrder β) (h : Holds repo first tree store) (hpos : 0 < repo.labels.length)
    (call : RepositoryCall β) (hplain : call.Plain repo) :
    Refines repo first (call.run order repo tree) (call.spec order repo store) := by
  cases call with
  | writeResults schemaVariables results overwrite => exact h.writeResults order hpos results overwrite hplain
  | readResults schemaVariables fileNames => exact h.readResults order fileNames hplain
  | writeProvider schemaVariables provider overwrite mergeExisting =>
      exact h.writeProvider order hpos provider overwrite mergeExisting hplain
  | create schema repositoryName =>
      rw [RepositoryCall.run, RepositoryCall.spec, h.createRepository schema repositoryName]
      split
      · exact ⟨rfl, h⟩
      · exact ⟨rfl, h⟩

end Refinement

/-! ### Runs -/

section Runs

variable [DecidableEq β] (order : SetOrder β) (repo : ResultsRepository)

/-- The outcomes of calls one after the other, and the files after them. -/
def runCalls (tree : Tree β) : List (RepositoryCall β) → List (Except Failure (Answer β)) × Tree β
  | [] => ([], tree)
  | call :: rest =>
      let result := call.run order repo tree
      let later := runCalls result.2 rest
      (result.1 :: later.1, later.2)

/-- The same on a store. -/
def specCalls (store : Store β) : List (RepositoryCall β) → List (Except Failure (Answer β)) × Store β
  | [] => ([], store)
  | call :: rest =>
      let result := call.spec order repo store
      let later := specCalls result.2 rest
      (result.1 :: later.1, later.2)

variable {repo}

theorem Holds.runCalls {first tree : Tree β} {store : Store β} (h : Holds repo first tree store)
    (hpos : 0 < repo.labels.length)
    {calls : List (RepositoryCall β)} (hplain : ∀ call ∈ calls, call.Plain repo) :
    (Repository.runCalls order repo tree calls).1 = (specCalls order repo store calls).1 ∧
      Holds repo first (Repository.runCalls order repo tree calls).2 (specCalls order repo store calls).2 := by
  induction calls generalizing tree store with
  | nil => exact ⟨rfl, h⟩
  | cons call rest ih =>
      obtain ⟨hcall, hrest⟩ := List.forall_mem_cons.mp hplain
      obtain ⟨hresult, hholds⟩ := h.run order hpos call hcall
      obtain ⟨hlater, hholds'⟩ := ih hholds hrest
      refine ⟨?_, hholds'⟩
      simp only [Repository.runCalls, specCalls]
      rw [hresult, hlater]

end Runs

instance (name : Text) : Decidable (Plain name) :=
  decidable_of_iff (name ≠ [] ∧ name ≠ ['.'] ∧ name ≠ ['.', '.'] ∧ '/' ∉ name)
    ⟨fun h => ⟨h.1, h.2.1, h.2.2.1, h.2.2.2⟩, fun h => ⟨h.ne_nil, h.ne_dot, h.ne_dots, h.notMem⟩⟩

section Stable

variable [DecidableEq β] {order : SetOrder β} {repo : ResultsRepository}

/-- The texts of a store are among those of another one. -/
def KeepsTexts (store store' : Store β) : Prop :=
  ∀ (key : List Text) (name text : Text), (store key).bind (· name) = some (.text text) →
    (store' key).bind (· name) = some (.text text)

omit [DecidableEq β] in
theorem KeepsTexts.refl (store : Store β) : KeepsTexts store store := fun _ _ _ h => h

omit [DecidableEq β] in
theorem KeepsTexts.trans {store store' store'' : Store β} (h : KeepsTexts store store')
    (h' : KeepsTexts store' store'') :
    KeepsTexts store store'' := fun key name text hget => h' key name text (h key name text hget)

omit [DecidableEq β] in
/-- A text that is read is read again. -/
theorem KeepsTexts.textOf {store store' : Store β} (h : KeepsTexts store store') {key : List Text} {fileName : Text}
    {pair : Text × Text} (hread : RepositoryCall.textOf fileName (store.get key fileName) = .ok pair) :
    RepositoryCall.textOf fileName (store'.get key fileName) = .ok pair := by
  unfold Store.get at hread ⊢
  split at hread
  · cases hread
  · rename_i hkey
    rw [if_neg hkey]
    cases hget : (store key).bind (· fileName) with
    | none =>
        rw [hget] at hread
        cases hread
    | some content =>
        rw [hget] at hread
        cases content with
        | text text =>
            rw [h key fileName text hget]
            exact hread
        | metadata metadata => cases hread
        | provider provider => cases hread

omit [DecidableEq β] in
theorem KeepsTexts.mapM {store store' : Store β} (h : KeepsTexts store store') {key : List Text} {fileNames : List Text}
    {pairs : List (Text × Text)}
    (hread : fileNames.mapM (fun fileName => RepositoryCall.textOf fileName (store.get key fileName)) = .ok pairs) :
    fileNames.mapM (fun fileName => RepositoryCall.textOf fileName (store'.get key fileName)) = .ok pairs := by
  induction fileNames generalizing pairs with
  | nil => exact hread
  | cons fileName rest ih =>
      rw [List.mapM_cons] at hread ⊢
      cases hfirst : RepositoryCall.textOf fileName (store.get key fileName) with
      | error failure =>
          rw [hfirst] at hread
          cases hread
      | ok pair =>
          rw [hfirst] at hread
          rw [h.textOf hfirst]
          cases hrest : rest.mapM fun fileName => RepositoryCall.textOf fileName (store.get key fileName) with
          | error failure =>
              rw [hrest] at hread
              cases hread
          | ok later =>
              rw [hrest] at hread
              rw [ih hrest]
              exact hread

end Stable

end OfTestbed.Repository
