import Mathlib.Data.List.Sort
import Pkgly.Algorithm.Pool
import Pkgly.Go.Types
import Pkgly.Storage.DynStorage

/-!
# Uploads and deletions of a hosted Go module

What `handle_put`, `handle_athens_upload` and `delete_go_package` do to the files of one module: the
files of a version, the list of versions `@v/list`, and the aliases `@latest` and `go.mod`.  A
request is a list of atomic steps (`Instr`) that its handler lays out; a step that reads puts the
steps that depend on what it has read in front of the others.  `ensure_version_list` and
`update_go_version_list` both read the whole list, change one entry, and write the whole list back
in a later step.

Authentication, the check of an `.info` against its version, and the unpacking of an Athens form
come before the first step; the rows of the catalogue are steps that can fail and change nothing
here.
-/

namespace Pkgly.Go

/-! ### Paths -/

/-- `GoFileType`, for the files of a version. -/
inductive GoFileType
  | goMod
  | info
  | zip
deriving DecidableEq

def GoFileType.suffix : GoFileType → String
  | .goMod => ".mod"
  | .info => ".info"
  | .zip => ".zip"

def moduleFilePath (module : GoModulePath) (version : GoVersion) (fileType : GoFileType) :
    StoragePath :=
  (StoragePath.ofString module.text).push ("@v/" ++ version.text ++ fileType.suffix)

def listPath (module : GoModulePath) : StoragePath :=
  (StoragePath.ofString module.text).push "@v/list"

/-- The path of the alias `@latest`. -/
def latestPath (module : GoModulePath) : StoragePath :=
  (StoragePath.ofString module.text).push "@latest"

/-- The path of the alias `go.mod`. -/
def goModPath (module : GoModulePath) : StoragePath :=
  (StoragePath.ofString module.text).push "go.mod"

/-- `rsplit_once("/@v/")`. -/
def rsplitVersions (path : String) : Option (String × String) :=
  (splitOnce "/v@/".toList path.toList.reverse).map fun r =>
    (String.ofList r.2.reverse, String.ofList r.1.reverse)

def goFileSuffixes : List String := [".zip", ".mod", ".info"]

def stripGoSuffix (text : String) : Option String :=
  goFileSuffixes.findSome? fun suffix =>
    (stripSuffix suffix.toList text.toList).map String.ofList

def goRelatedPaths (path : String) : Option (List String) :=
  match rsplitVersions path with
  | none => none
  | some (_, fileName) =>
    if '/' ∈ fileName.toList then none
    else (stripGoSuffix path).map fun base => goFileSuffixes.map fun suffix => base ++ suffix

/-! ### The list of versions -/

/-- The lines of a list without white space around them, and without empty ones. -/
def readLines (body : String) : List String :=
  ((pieces '\n' body).map fun line => String.ofList (trim line)).filter (· ≠ "")

/-- `join("\n")` with a line break at the end. -/
def joinLines (lines : List String) : String := String.intercalate "\n" lines ++ "\n"

/-- The versions that a list file names; `none` when it is no text. -/
def listedVersions : Option Bytes → Option (List String)
  | none => some []
  | some content => (fromUtf8 content).map readLines

/-- The list with a version, in order (`ensure_version_list`). -/
def ensureVersion (version : GoVersion) (entries : List String) : List String :=
  let versions := entries.filterMap GoVersion.new
  let versions := if versions.any fun v => v.text == version.text then versions
    else versions ++ [version]
  (versions.insertionSort fun v w => v.text ≤ w.text).map GoVersion.text

/-- The list without a version (`update_go_version_list`). -/
def removeVersion (version : String) (entries : List String) : List String :=
  entries.filter (· ≠ version)

/-- `get_latest_go_version`. -/
def latestVersion (entries : List String) : Option GoVersion :=
  ((entries.filterMap GoVersion.new).insertionSort fun v w => v.text ≤ w.text).getLast?

/-! ### Requests -/

inductive Instr
  | saveFile (path : StoragePath) (content : Bytes)
  | deleteFile (path : StoragePath)
  /-- `module_file_exists`. -/
  | moduleFileExists (path : StoragePath)
  /-- Go on only if all files that were looked for exist. -/
  | stopUnlessPresent
  /-- A statement of the database. -/
  | sql
  /-- A module archive or a module path that is rejected. -/
  | reject
  /-- `ensure_version_list` reads the list, and writes it. -/
  | openVersions (path : StoragePath) (version : GoVersion)
  | saveVersions (path : StoragePath) (version : GoVersion) (read : Option Bytes)
  /-- `update_go_version_list` reads the list, and writes it. -/
  | openList (path : StoragePath) (version : String)
  | saveList (path : StoragePath) (version : String) (read : Bytes)
  /-- `refresh_latest_aliases` reads the list, ... -/
  | getLatest (module : GoModulePath)
  /-- ... then each file of the latest version and writes its alias, ... -/
  | loadAlias (source target : StoragePath)
  | saveAlias (target : StoragePath) (content : Bytes)
  /-- ... or deletes the aliases when no version is left. -/
  | deleteAlias (path : StoragePath)
deriving DecidableEq

/-- The steps of `refresh_latest_aliases`, whose errors an upload ignores. -/
def Instr.refreshes : Instr → Bool
  | .getLatest _ | .loadAlias .. | .saveAlias .. | .deleteAlias _ => true
  | _ => false

inductive Request
  | put (fileType : GoFileType) (version : GoVersion) (content : Bytes)
  /-- `canonical` is the canonical archive, if there is one. -/
  | athens (version : GoVersion) (archive : Bytes) (canonical : Option Bytes) (goMod info : Bytes)
  /-- The deletion of a file of a version, by its path. -/
  | delete (fileType : GoFileType) (version : String)

def handlePut (module : GoModulePath) (fileType : GoFileType) (version : GoVersion)
    (content : Bytes) : List Instr :=
  let path := moduleFilePath module version
  let ensure := .openVersions (listPath module) version
  [.saveFile (path fileType) content, .sql] ++
    match fileType with
    | .info => [ensure, .moduleFileExists (path .goMod), .moduleFileExists (path .zip),
        .stopUnlessPresent, .getLatest module]
    | .goMod => [.moduleFileExists (path .info), .moduleFileExists (path .zip),
        .stopUnlessPresent, ensure, .getLatest module]
    | .zip => [.moduleFileExists (path .info), .stopUnlessPresent, ensure,
        .moduleFileExists (path .goMod), .stopUnlessPresent, .getLatest module]

def handleAthensUpload (module : GoModulePath) (version : GoVersion) (archive : Bytes)
    (canonical : Option Bytes) (goMod info : Bytes) : List Instr :=
  let path := moduleFilePath module version
  .saveFile (path .zip) archive ::
    match canonical with
    | none => [.reject]
    | some canonical => [.saveFile (path .zip) canonical, .saveFile (path .goMod) goMod,
        .saveFile (path .info) info, .openVersions (listPath module) version, .sql,
        .getLatest module]

def updateGoVersionList (path : String) : List Instr :=
  match goRelatedPaths path, rsplitVersions path with
  | some _, some (module, fileName) =>
    match stripGoSuffix fileName with
    | some version => [.openList (.ofString (module ++ "/@v/list")) version]
    | none => []
  | _, _ => []

/-- The steps of `delete_go_package` and of the removal of its rows. -/
def deleteGoPackage (path : String) : List Instr :=
  ((goRelatedPaths path).getD [path]).map (fun related => .deleteFile (.ofString related)) ++
    updateGoVersionList path ++
    (match rsplitVersions path with
      | some (module, _) =>
        match GoModulePath.new module with
        | some module => [.getLatest module]
        | none => [.reject]
      | none => []) ++
    [.sql]

def deletedPath (module : GoModulePath) (fileType : GoFileType) (version : String) : String :=
  module.text ++ "/@v/" ++ version ++ fileType.suffix

def Request.program (module : GoModulePath) : Request → List Instr
  | .put fileType version content => handlePut module fileType version content
  | .athens version archive canonical goMod info =>
    handleAthensUpload module version archive canonical goMod info
  | .delete fileType version => deleteGoPackage (deletedPath module fileType version)

def Request.version : Request → String
  | .put _ version _ => version.text
  | .athens version .. => version.text
  | .delete _ version => version

def Request.isUpload : Request → Bool
  | .delete .. => false
  | _ => true

/-! ### Steps -/

inductive Status
  | running (program : List Instr)
  | finished
  | failed
deriving DecidableEq

structure Process where
  request : Request
  /-- All files that were looked for exist. -/
  present : Bool
  /-- The list of versions has been brought up to date. -/
  recorded : Bool
  status : Status

structure Event where
  isUpload : Bool
  version : String
deriving DecidableEq

/-- The storage of the repository, and the uploads and deletions that have completed, in order. -/
structure GoHosted where
  storage : DynStorage
  log : List Event

def openContent (st : DynStorage) (path : StoragePath) : Except StorageError (Option Bytes) :=
  match st.openFile path with
  | .error e => .error e
  | .ok (some (.file content)) => .ok (some content)
  | .ok _ => .ok none

def attempt {α : Type} (fails : Bool) (result : Except StorageError α) : Option α :=
  if fails then none else result.toOption

namespace Process

/-- Go on with `program`. -/
def goto (r : Process) (program : List Instr) : Process := { r with status := .running program }

/-- One step, with `rest` after it; `none` when the request fails. -/
def perform (fails : Bool) (st : DynStorage) (r : Process) (rest : List Instr) :
    Instr → Option (DynStorage × Process)
  | .saveFile path content | .saveAlias path content =>
    (attempt fails (st.saveFile content path)).map fun st => (st, r.goto rest)
  | .deleteFile path =>
    (attempt fails (st.deleteFile path)).map fun result => (result.1, r.goto rest)
  | .moduleFileExists path =>
    (attempt fails (openContent st path)).map fun content =>
      (st, { r.goto rest with present := r.present && content.isSome })
  | .stopUnlessPresent => some (st, if r.present then r.goto rest else r.goto [])
  | .sql => if fails then none else some (st, r.goto rest)
  | .reject => none
  | .openVersions path version =>
    (attempt fails (openContent st path)).map fun read =>
      (st, r.goto (.saveVersions path version read :: rest))
  | .saveVersions path version read =>
    (listedVersions read).bind fun entries =>
      (attempt fails (st.saveFile (intoBytes (joinLines (ensureVersion version entries))) path)).map
        fun st => (st, { r.goto rest with recorded := true })
  | .openList path version =>
    (attempt fails (openContent st path)).map fun read =>
      match read with
      | none => (st, { r.goto rest with recorded := true })
      | some content => (st, r.goto (.saveList path version content :: rest))
  | .saveList path version content =>
    (listedVersions (some content)).bind fun entries =>
      match removeVersion version entries with
      | [] => (attempt fails (st.deleteFile path)).map fun result =>
          (result.1, { r.goto rest with recorded := true })
      | entries => (attempt fails (st.saveFile (intoBytes (joinLines entries)) path)).map fun st =>
          (st, { r.goto rest with recorded := true })
  | .getLatest module =>
    ((attempt fails (openContent st (listPath module))).bind listedVersions).map fun entries =>
      match latestVersion entries with
      | none => (st, r.goto (.deleteAlias (latestPath module) :: .deleteAlias (goModPath module) ::
          rest))
      | some version => (st, r.goto (
          .loadAlias (moduleFilePath module version .info) (latestPath module) ::
          .loadAlias (moduleFilePath module version .goMod) (goModPath module) :: rest))
  -- errors of the following two are only logged
  | .loadAlias source target =>
    match attempt fails (openContent st source) with
    | some (some content) => some (st, r.goto (.saveAlias target content :: rest))
    | _ => some (st, r.goto rest)
  | .deleteAlias path =>
    match attempt fails (st.deleteFile path) with
    | some result => some (result.1, r.goto rest)
    | none => some (st, r.goto rest)

/-- What has been completed when a request ends: a deletion, or an upload that has been listed.  The
upload of a single file of a version that is not complete is none. -/
def events (r : Process) : List Event :=
  if r.request.isUpload && !r.recorded then [] else [⟨r.request.isUpload, r.request.version⟩]

def next (fails : Bool) (s : GoHosted) (r : Process) : Option (GoHosted × Process) :=
  match r.status with
  | .running [] => some ({ s with log := s.log ++ r.events }, { r with status := .finished })
  | .running (instr :: rest) =>
    match r.perform fails s.storage rest instr with
    | some (storage, r') => some ({ s with storage }, r')
    | none =>
      some (s, if r.request.isUpload && instr.refreshes then r.goto []
        else { r with status := .failed })
  | _ => none

end Process

def goHosted (module : GoModulePath) : Program GoHosted Process Request Bool where
  init request := ⟨request, true, false, .running (request.program module)⟩
  next := Process.next

def listGoModuleVersions (st : DynStorage) (module : GoModulePath) : Option (List String) :=
  (openContent st (listPath module)).toOption.bind listedVersions

end Pkgly.Go
