import Pkgly.Algorithm.Effect
import Pkgly.Algorithm.SystemCalls
import Pkgly.Algorithm.Text
import Pkgly.Storage.DynStorage

/-!
# Sidecars of the local storage

Beside each file and in each directory of a local storage lies a sidecar with its `LocationMeta`:
`<name>.nr-meta` beside the file, `.nr-meta` in the directory.  Paths are those below the directory
of the storage, `[repository, component, ...]`.

`Libraries` holds what comes from other crates: the digests, the encoding of a `LocationMeta` and
the guess of a mime type.  A `Moment` is what a step of the storage draws from outside: the time and
the identifier in the names of temporary files.
-/

namespace Pkgly.Local

/-! ### File names -/

def splitLastDot : List Char → Option (List Char × List Char)
  | [] => none
  | c :: s =>
    match splitLastDot s with
    | some (before, after) => some (c :: before, after)
    | none => if c = '.' then some ([], s) else none

/-- `Path::extension`; a leading dot starts no extension. -/
def extension (name : String) : Option String :=
  if name = ".." then none
  else
    match splitLastDot name.toList with
    | none => none
    | some ([], _) => none
    | some (_, after) => some (String.ofList after)

def fileStem (name : String) : String :=
  if name = ".." then name
  else
    match splitLastDot name.toList with
    | none => name
    | some ([], _) => name
    | some (before, _) => String.ofList before

/-- `PathUtils::add_extension`, by way of `set_extension`. -/
def addExtension (name newExtension : String) : String :=
  match extension name with
  | some oldExtension => fileStem name ++ "." ++ (oldExtension ++ "." ++ newExtension)
  | none => fileStem name ++ "." ++ newExtension

/-- `PKGLY_REPO_META_EXTENSION`, the one entry of `HIDDEN_FILE_EXTENSIONS`. -/
def repoMetaExtension : String := "nr-meta"

/-- `PKGLY_REPO_META_FILE`. -/
def repoMetaFile : String := ".nr-meta"

def isHiddenFile (name : String) : Bool :=
  (name == repoMetaFile || containsText ".nr-meta.tmp-" name) ||
    extension name == some repoMetaExtension

/-! ### Metadata -/

structure FileHashes where
  md5 : Option String
  sha1 : Option String
  sha2_256 : Option String
  sha3_256 : Option String
deriving DecidableEq, Repr

structure RepositoryMeta where
  projectId : Option Nat
  projectVersionId : Option Nat
  extraMeta : List (String × String)
deriving DecidableEq, Repr

def RepositoryMeta.default : RepositoryMeta := ⟨none, none, []⟩

inductive LocationTypedMeta
  | directory (numberOfFiles : Nat)
  | file (hashes : FileHashes)
deriving DecidableEq, Repr

/-- `LocationMeta`; times are seconds. -/
structure LocationMeta where
  created : Int
  modified : Int
  locationTypedMeta : LocationTypedMeta
  repositoryMeta : RepositoryMeta
deriving DecidableEq, Repr

inductive FileType
  | file (fileSize : Nat) (mimeType : String) (fileHash : FileHashes)
  | directory (fileCount : Nat)
deriving DecidableEq, Repr

structure StorageFileMeta where
  name : String
  fileType : FileType
  modified : Int
  created : Int
deriving DecidableEq, Repr

/-- The code of other crates that the sidecars rest on. -/
structure Libraries where
  /-- `generate_hashes_from_path`, of the content: the four digests in base 64. -/
  generateHashes : Bytes → FileHashes
  /-- `postcard::to_allocvec`. -/
  toAllocvec : LocationMeta → Bytes
  /-- `postcard::from_bytes`. -/
  fromBytes : Bytes → Option LocationMeta
  /-- `mime_guess::from_path`, or octet stream. -/
  guessMime : String → String

/-- What a step draws from outside: `Local::now` and `Uuid::new_v4`. -/
structure Moment where
  now : Int
  newUuid : String
deriving DecidableEq, Repr

/-! ### The state of a storage -/

inductive LocalStorageError
  | io (error : IoError)
  | invalidStoragePath
  | pathCollision (path conflictsWith : StoragePath)
  | postcard
  | expectedDirectory
  | expectedFile
deriving DecidableEq

abbrev DiskPath := List String

abbrev Files := FileTree String Bytes Int

/-- The state of a local storage: its files, the hashes registered for the next update of a path,
and the paths whose sidecars the background task has still to update. -/
structure LocalDisk where
  tree : Files
  precomputed : Store DiskPath FileHashes
  queue : List DiskPath

/-- Computations on a local storage; what was done before an error stays done. -/
abbrev LocalIO (α : Type) := EStateM LocalStorageError LocalDisk α

def files : LocalIO Files := fun disk => .ok disk.tree disk

def call (systemCall : Files → Except IoError Files) : LocalIO Unit := fun disk =>
  match systemCall disk.tree with
  | .ok tree => .ok () { disk with tree := tree }
  | .error e => .error (.io e) disk

/-- The `?` operator on a result. -/
def orFail {α : Type} (result : Except LocalStorageError α) : LocalIO α := fun disk =>
  match result with
  | .ok a => .ok a disk
  | .error e => .error e disk

/-! ### Reading and writing sidecars -/

/-- The name of the sidecar beside the file `path`. -/
def withMetaExtension (path : DiskPath) : DiskPath :=
  match path.getLast? with
  | some name => path.dropLast ++ [addExtension name repoMetaExtension]
  | none => path

/-- `meta_path`: found by what is at `path` at this moment. -/
def metaPath (tree : Files) (path : DiskPath) : DiskPath :=
  if tree.isDir path then path ++ [repoMetaFile] else withMetaExtension path

/-- The temporary name that `save_meta` writes to before it renames. -/
def tmpPath (newUuid : String) (metaPath : DiskPath) (fileName : String) : DiskPath :=
  metaPath.dropLast ++ [fileName ++ (".tmp-" ++ (newUuid ++ ("." ++ repoMetaExtension)))]

variable (lib : Libraries) (m : Moment)

def saveMeta (path : DiskPath) (location : LocationMeta) : LocalIO Unit := fun disk =>
  let metaPath := metaPath disk.tree path
  match metaPath.getLast? with
  | none => .error (.io .invalidData) disk
  | some fileName =>
    match disk.tree.replaceFile (tmpPath m.newUuid metaPath fileName) metaPath
        (lib.toAllocvec location) m.now with
    | (.ok (), tree) => .ok () { disk with tree := tree }
    | (.error e, tree) => .error (.io e) { disk with tree := tree }

def recountFiles (tree : Files) (path : DiskPath) : Except LocalStorageError Nat :=
  match tree.metadata path with
  | .error e => .error (.io e)
  | .ok entry =>
    if entry.isDir then .ok ((tree.children path).countP fun name => !isHiddenFile name)
    else .error (.io .notADirectory)

def updateHashes (tree : Files) (path : DiskPath) (hashes : Option FileHashes) :
    Except LocalStorageError FileHashes :=
  match hashes with
  | some hashes => .ok hashes
  | none =>
    match tree.readFile path with
    | .ok content => .ok (lib.generateHashes content)
    | .error e => .error (.io e)

def LocationTypedMeta.update (typed : LocationTypedMeta) (tree : Files) (path : DiskPath)
    (hashes : Option FileHashes) : Except LocalStorageError LocationTypedMeta :=
  match typed with
  | .directory _ => (recountFiles tree path).map .directory
  | .file _ => (updateHashes lib tree path hashes).map .file

/-- The `LocationMeta` that `get_or_default_local` builds where there is no readable sidecar. -/
def defaultMeta (tree : Files) (path : DiskPath) (hashes : Option FileHashes) :
    Except LocalStorageError LocationMeta :=
  match tree.metadata path with
  | .error e => .error (.io e)
  | .ok entry =>
    let typed :=
      if entry.isDir then (recountFiles tree path).map LocationTypedMeta.directory
      else (updateHashes lib tree path hashes).map LocationTypedMeta.file
    typed.map fun typed =>
      { created := entry.created
        modified := entry.modified
        locationTypedMeta := typed
        repositoryMeta := .default }

/-- The sidecar that `get_or_default_local` finds; a corrupted one counts as missing. -/
def readMetaFile (tree : Files) (metaPath : DiskPath) :
    Except LocalStorageError (Option LocationMeta) :=
  if tree.pathExists metaPath then
    match tree.readFile metaPath with
    | .ok bytes => .ok (lib.fromBytes bytes)
    | .error e => .error (.io e)
  else .ok none

/-- `LocationMeta::get_or_default_local`; the mark says whether the metadata was created. -/
def getOrDefaultLocal (path : DiskPath) (hashes : Option FileHashes) :
    LocalIO (LocationMeta × Bool) := do
  let tree ← files
  match ← orFail (readMetaFile lib tree (metaPath tree path)) with
  | some location => return (location, false)
  | none =>
    let location ← orFail (defaultMeta lib tree path hashes)
    saveMeta lib m path location
    return (location, true)

def createMetaOrUpdate (path : DiskPath) (hashes : Option FileHashes) : LocalIO Unit := do
  let (location, wasCreated) ← getOrDefaultLocal lib m path hashes
  if wasCreated then return ()
  else
    let tree ← files
    let typed ← orFail (location.locationTypedMeta.update lib tree path hashes)
    saveMeta lib m path { location with locationTypedMeta := typed, modified := m.now }

def setRepositoryMeta (path : DiskPath) (value : RepositoryMeta) : LocalIO Unit := do
  let (location, _) ← getOrDefaultLocal lib m path none
  saveMeta lib m path { location with repositoryMeta := value }

def deleteLocal (path : DiskPath) : LocalIO Unit := do
  let tree ← files
  if tree.pathExists (metaPath tree path) then
    call fun tree' => tree'.removeFile (metaPath tree path) m.now
  else return ()

/-! ### Reading metadata -/

def readFromDirectory (path : DiskPath) : LocalIO StorageFileMeta := do
  let tree ← files
  if tree.isFile path then throw .expectedDirectory
  else
    let (location, _) ← getOrDefaultLocal lib m path none
    match location.locationTypedMeta, path.getLast? with
    | .directory numberOfFiles, some name =>
      return ⟨name, .directory numberOfFiles, location.modified, location.created⟩
    | .directory _, none => throw (.io .invalidData)
    | .file _, _ => throw .expectedDirectory

def mimeTypeForFile (name : String) : String :=
  if extension name == some repoMetaExtension then "application/json" else lib.guessMime name

def readFromFile (path : DiskPath) : LocalIO StorageFileMeta := do
  let tree ← files
  if tree.isDir path then throw .expectedFile
  else
    let content ← orFail ((tree.readFile path).mapError .io)
    let (location, _) ← getOrDefaultLocal lib m path none
    match location.locationTypedMeta, path.getLast? with
    | .file hashes, some name =>
      return ⟨name, .file content.length (mimeTypeForFile lib name) hashes, location.modified,
        location.created⟩
    | .file _, none => throw (.io .invalidData)
    | .directory _, _ => throw .expectedFile

def readFromPath (path : DiskPath) : LocalIO StorageFileMeta := do
  let tree ← files
  if tree.isDir path then readFromDirectory lib m path else readFromFile lib m path

end Pkgly.Local
