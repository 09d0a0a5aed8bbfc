import Pkgly.Algorithm.Run
import Pkgly.Storage.Local.FileMeta

/-!
# The local storage

The operations of `LocalStorage` on the files below the directory of the storage, as sequences of
system calls, and the background task that updates the sidecars of the paths in its queue.  The
content of a file is what `FileContent::write_to` writes.

An `Action` is one operation on one repository, or one update by the background task; the task may
take any path that is in its queue, since up to twenty updates run at once.  A file handle that
`open_append_handle` gives away is not followed further: only the file it makes is.
-/

namespace Pkgly.StoragePath

/-- `StoragePathComponent` is only made without slashes, and never empty. -/
def wellFormed (path : StoragePath) : Bool :=
  path.components.all fun component => component != "" && !component.toList.contains '/'

end Pkgly.StoragePath

namespace Pkgly.Local

/-- A `StoragePath`, as its constructors make it. -/
abbrev Location := { path : StoragePath // path.wellFormed = true }

/-- The text of a `Uuid`: hexadecimal digits and hyphens. -/
def isUuidText (text : String) : Bool :=
  text.length == 36 && text.toList.all fun c => c.isDigit || ('a' ≤ c && c ≤ 'f') || c == '-'

/-- A repository, by the text of its `Uuid`. -/
abbrev Repository := { text : String // isUuidText text = true }

/-! ### Paths -/

def rootPath (repository : Repository) : DiskPath := [repository.val]

def getPath (repository : Repository) (location : Location) : DiskPath :=
  rootPath repository ++ location.val.components

/-- `canonicalize_existing`, over the path and its parents: without links, a path that exists is
canonical. -/
def canonicalizeExisting (tree : Files) : List DiskPath → Except LocalStorageError DiskPath
  | [] => .error (.io .notFound)
  | path :: parents =>
    match tree.metadata path with
    | .ok _ => .ok path
    | .error .notFound => canonicalizeExisting tree parents
    | .error e => .error (.io e)

def ensurePathWithinRepository (tree : Files) (path : DiskPath) (repository : Repository) :
    Except LocalStorageError Unit :=
  match canonicalizeExisting tree (rootPath repository).inits.reverse,
      canonicalizeExisting tree path.inits.reverse with
  | .ok canonicalRoot, .ok canonicalPath =>
    if canonicalRoot <+: canonicalPath then .ok () else .error .invalidStoragePath
  | .error e, _ => .error e
  | .ok _, .error e => .error e

def checkedPath (tree : Files) (repository : Repository) (location : Location) :
    Except LocalStorageError DiskPath :=
  if !location.val.validate then .error .invalidStoragePath
  else
    let path := getPath repository location
    if !(rootPath repository).isPrefixOf path then .error .invalidStoragePath
    else (ensurePathWithinRepository tree path repository).map fun _ => path

/-- `struct CreatePath`. -/
structure CreatePath where
  path : DiskPath
  parentDirectory : DiskPath
  /-- The point at which the new directory starts; `none` if the directory already exists. -/
  newDirectoryStart : Option DiskPath
deriving DecidableEq

/-- The loop of `get_path_for_creation` over the components that are left. -/
def creationLoop (tree : Files) (location : StoragePath) (created : CreatePath)
    (conflictingPath : StoragePath) : List String → Except LocalStorageError CreatePath
  | [] => .ok created
  | part :: rest =>
    let parentDirectory := if rest.isEmpty then created.path else created.parentDirectory
    let path := created.path ++ [part]
    let conflictingPath : StoragePath :=
      ⟨conflictingPath.components ++ [part], StoragePath.shouldAddSlash part⟩
    let continueWith (newDirectoryStart : Option DiskPath) :=
      creationLoop tree location ⟨path, parentDirectory, newDirectoryStart⟩ conflictingPath rest
    if created.newDirectoryStart.isSome then continueWith created.newDirectoryStart
    else
      match tree.metadata path with
      | .ok entry =>
        -- a file cannot have files inside
        if !entry.isDir && !rest.isEmpty then .error (.pathCollision location conflictingPath)
        else continueWith none
      | .error .notFound => continueWith (some path)
      | .error e => .error (.io e)

def getPathForCreation (tree : Files) (repository : Repository) (location : Location) :
    Except LocalStorageError CreatePath :=
  if !location.val.validate then .error .invalidStoragePath
  else
    let root := rootPath repository
    match creationLoop tree location.val ⟨root, root, none⟩ ⟨[], none⟩ location.val.components with
    | .ok created =>
      (ensurePathWithinRepository tree created.path repository).map fun _ => created
    | .error e => .error e

/-! ### The queue of sidecars to update -/

/-- The directories from `nextPath` on that the rest of the path passes through. -/
def newDirectories (nextPath : DiskPath) : List String → List DiskPath
  | [] => []
  | part :: rest => nextPath :: newDirectories (nextPath ++ [part]) rest

/-- `update_meta_and_parent_metas`: the paths that are queued for a new or changed file. -/
def updateMetaAndParentMetas (path : DiskPath) (greatestParent : Option DiskPath) :
    List DiskPath :=
  match greatestParent with
  | some greatestParent =>
    -- the root directory is not updated
    (if path.dropLast = [] then [] else [path.dropLast]) ++
      newDirectories greatestParent (path.drop greatestParent.length)
  | none => [path, path.dropLast]

/-- `run_post_save_file`: the paths reach the queue of the background task. -/
def runPostSaveFile (path : DiskPath) (newDirectoryStart : Option DiskPath) : LocalIO Unit :=
  fun disk =>
    .ok () { disk with queue := disk.queue ++ updateMetaAndParentMetas path newDirectoryStart }

/-- `is_hidden_file`. -/
def isHiddenPath (path : DiskPath) : Bool := path.getLast?.any isHiddenFile

/-! ### Operations -/

section Operations

variable (lib : Libraries) (m : Moment) (repository : Repository)

def createParents (created : CreatePath) : LocalIO Unit :=
  if created.newDirectoryStart.isSome then
    call fun tree => tree.createDirAll m.now [] created.parentDirectory
  else pure ()

def saveFile (content : Bytes) (location : Location) : LocalIO (Nat × Bool) := do
  let created ← orFail (getPathForCreation (← files) repository location)
  createParents m created
  let newFile := !(← files).pathExists created.path
  call fun tree => tree.editFile created.path (fun _ => content) m.now
  -- no update for sidecars themselves
  if !isHiddenPath created.path then runPostSaveFile created.path created.newDirectoryStart
  return (content.length, newFile)

def appendFile (content : Bytes) (location : Location) : LocalIO Nat := do
  let created ← orFail (getPathForCreation (← files) repository location)
  createParents m created
  call fun tree => tree.openOrCreate created.path [] m.now
  -- appending nothing does not write
  if content ≠ [] then
    call fun tree => tree.editFile created.path (fun old => old.getD [] ++ content) m.now
  return content.length

/-- `open_append_handle`: the file is made when it is missing. -/
def openAppendHandle (location : Location) : LocalIO DiskPath := do
  let created ← orFail (getPathForCreation (← files) repository location)
  createParents m created
  call fun tree => tree.openOrCreate created.path [] m.now
  return created.path

def deleteFile (location : Location) : LocalIO Bool := do
  let path ← orFail (checkedPath (← files) repository location)
  let tree ← files
  if !tree.pathExists path then return false
  else if tree.isDir path then
    call fun tree => tree.removeDirAll path m.now
    return true
  else
    call fun tree => tree.removeFile path m.now
    deleteLocal m path
    return true

def moveFile (source target : Location) : LocalIO Bool := do
  let fromPath ← orFail (checkedPath (← files) repository source)
  if !(← files).pathExists fromPath then return false
  else
    let created ← orFail (getPathForCreation (← files) repository target)
    createParents m created
    call fun tree => tree.rename fromPath created.path m.now
    deleteLocal m fromPath
    if !isHiddenPath created.path then runPostSaveFile created.path created.newDirectoryStart
    return true

def getFileInformation (location : Location) : LocalIO (Option StorageFileMeta) := do
  let path ← orFail (checkedPath (← files) repository location)
  if !(← files).pathExists path then return none
  else return some (← readFromPath lib m path)

def getRepositoryMeta (location : Location) : LocalIO (Option RepositoryMeta) := do
  let path ← orFail (checkedPath (← files) repository location)
  if !(← files).pathExists path then return none
  else
    let (found, _) ← getOrDefaultLocal lib m path none
    return some found.repositoryMeta

def putRepositoryMeta (location : Location) (value : RepositoryMeta) : LocalIO Unit := do
  let path ← orFail (checkedPath (← files) repository location)
  if !(← files).pathExists path then throw (.io .notFound)
  else setRepositoryMeta lib m path value

def attempt {α : Type} (computation : LocalIO α) : LocalIO (Except LocalStorageError α) :=
  fun disk =>
    match computation disk with
    | .ok a disk' => .ok (.ok a) disk'
    | .error e disk' => .ok (.error e) disk'

/-- Read the metadata of the named entries of the directory `path`. -/
def readEntries (path : DiskPath) :
    List String → LocalIO (List (Except LocalStorageError StorageFileMeta))
  | [] => return []
  | name :: names => do
    let result ← attempt (readFromPath lib m (path ++ [name]))
    let results ← readEntries path names
    return result :: results

/-- `StorageFile`, with the bytes of a file in place of its reader. -/
inductive OpenedFile
  | directory (location : StorageFileMeta) (files : List StorageFileMeta)
  | file (location : StorageFileMeta) (content : Bytes)
deriving DecidableEq

/-- `open_folder`: hidden files are skipped. -/
def openFolder (path : DiskPath) : LocalIO OpenedFile := do
  let tree ← files
  let names := (tree.children path).filter fun name => !isHiddenFile name
  let results ← readEntries lib m path names
  let location ← readFromDirectory lib m path
  let entries ← orFail (results.mapM id)
  return .directory location entries

def openFile (location : Location) : LocalIO (Option OpenedFile) := do
  let path ← orFail (checkedPath (← files) repository location)
  let tree ← files
  if !tree.pathExists path then return none
  else if tree.isDir path then return some (← openFolder lib m path)
  else
    let found ← readFromFile lib m path
    let content ← orFail (((← files).readFile path).mapError .io)
    return some (.file found content)

/-- `stream_directory`, of whose entries the caller takes the first `polls`; a hidden entry gives
nothing. -/
def streamDirectory (location : Location) (polls : Nat) :
    LocalIO (Option (List (Except LocalStorageError StorageFileMeta))) := do
  let path ← orFail (checkedPath (← files) repository location)
  let tree ← files
  match tree.metadata path with
  | .ok entry =>
    if entry.isDir then
      let _ ← readFromDirectory lib m path
      let names := ((tree.children path).take polls).filter fun name => !isHiddenFile name
      return some (← readEntries lib m path names)
    else if isHiddenPath path then return none
    else
      let _ ← readFromFile lib m path
      if polls = 0 then return some []
      else
        let result ← attempt (readFromPath lib m path)
        return some [result]
  | .error .notFound => return none
  | .error e => throw (.io e)

def deleteRepository : LocalIO Unit := do
  let tree ← files
  if !tree.pathExists (rootPath repository) then return ()
  else if tree.isDir (rootPath repository) then
    call fun tree => tree.removeDirAll (rootPath repository) m.now
  else call fun tree => tree.removeFile (rootPath repository) m.now

def registerPrecomputedHash (location : Location) (hashes : FileHashes) : LocalIO Unit :=
  fun disk =>
    match checkedPath disk.tree repository location with
    | .ok path => .ok () { disk with precomputed := disk.precomputed.put path hashes }
    | .error _ => .ok () disk

/-- One update of the background task: `take_precomputed_hash`, then `create_meta_or_update`. -/
def updateMeta (path : DiskPath) : LocalIO Unit := do
  if !(← files).pathExists path then return ()
  else
    let precomputed ← takePrecomputedHash path
    createMetaOrUpdate lib m path precomputed
where
  takePrecomputedHash (path : DiskPath) : LocalIO (Option FileHashes) := fun disk =>
    .ok (disk.precomputed.get path) { disk with precomputed := disk.precomputed.remove path }

end Operations

/-! ### Runs -/

/-- The operations of a `LocalStorage` that look at or change its files. -/
inductive Operation
  | saveFile (content : Bytes) (location : Location)
  | appendFile (content : Bytes) (location : Location)
  | openAppendHandle (location : Location)
  | deleteFile (location : Location)
  | moveFile (source target : Location)
  | getFileInformation (location : Location)
  | getRepositoryMeta (location : Location)
  | putRepositoryMeta (location : Location) (value : RepositoryMeta)
  | openFile (location : Location)
  | streamDirectory (location : Location) (polls : Nat)
  | deleteRepository
  | registerPrecomputedHash (location : Location) (hashes : FileHashes)

/-- Perform an operation on a repository; its answer is dropped. -/
def Operation.perform (lib : Libraries) (m : Moment) (repository : Repository) :
    Operation → LocalIO Unit
  | .saveFile content location => discard (Local.saveFile m repository content location)
  | .appendFile content location => discard (Local.appendFile m repository content location)
  | .openAppendHandle location => discard (Local.openAppendHandle m repository location)
  | .deleteFile location => discard (Local.deleteFile m repository location)
  | .moveFile source target => discard (Local.moveFile m repository source target)
  | .getFileInformation location => discard (Local.getFileInformation lib m repository location)
  | .getRepositoryMeta location => discard (Local.getRepositoryMeta lib m repository location)
  | .putRepositoryMeta location value => Local.putRepositoryMeta lib m repository location value
  | .openFile location => discard (Local.openFile lib m repository location)
  | .streamDirectory location polls =>
    discard (Local.streamDirectory lib m repository location polls)
  | .deleteRepository => Local.deleteRepository m repository
  | .registerPrecomputedHash location hashes =>
    Local.registerPrecomputedHash repository location hashes

/-- A step of the storage: an operation on a repository, or an update by the background task. -/
inductive Action
  | operate (repository : Repository) (operation : Operation) (m : Moment)
  | update (path : DiskPath) (m : Moment)

/-- Take an action; `none` for the update of a path that is not queued. -/
def step (lib : Libraries) (disk : LocalDisk) : Action → Option LocalDisk
  | .operate repository operation m =>
    some (Effect.endState (operation.perform lib m repository disk))
  | .update path m =>
    if path ∈ disk.queue then
      some (Effect.endState (updateMeta lib m path { disk with queue := disk.queue.erase path }))
    else none

def opened (tree : Files) (precomputed : Store DiskPath FileHashes) : LocalDisk :=
  ⟨tree, precomputed, []⟩

end Pkgly.Local
