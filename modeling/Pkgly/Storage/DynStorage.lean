import Pkgly.Algorithm.Store
import Pkgly.Storage.StoragePath

/-!
# Object storage of one repository

`DynStorage` at the level of whole objects: what `save_file`, `open_file`, `delete_file`,
`delete_files_batch`, `append_file(_staged)` and `move_file` do to the files of one repository, for
the two backends.  An object is named by the components of its path; both backends create content
under the components alone (`get_path_for_creation`).

* `local`: a file tree.  A path is rejected unless it validates, a file cannot have files below
  it, and deleting a directory removes everything below it.
* `s3`: independent keys.  A path with a trailing slash is a key of its own, at which nothing is
  ever created.  Appends accumulate in `staging` until `move_file` uploads them once.

The sidecar metadata, the disk cache and the listing caches of the backends are not part of this
level.
-/

namespace Pkgly

abbrev Bytes := List UInt8

/-- `enum DynStorage`. -/
inductive Backend
  | local
  | s3
deriving DecidableEq, Repr

/-- The `StorageError`s of the operations below. -/
inductive StorageError
  | invalidStoragePath
  | pathCollision
  | ioError
  | conflict
deriving DecidableEq, Repr

/-- The objects of one repository, keyed by the components of their paths. -/
abbrev Objects := Store (List String) Bytes

structure DynStorage where
  backend : Backend
  objects : Objects
  /-- `append_staging` of the S3 storage. -/
  staging : Objects

/-- `StorageFile`: a file with its bytes, or a directory with the names and kinds of its
entries. -/
inductive StorageFile
  | file (content : Bytes)
  | directory (files : List (String × Bool))
deriving DecidableEq

namespace Objects

/-- `below dir key`: the object `key` lies strictly below the directory `dir`. -/
def below (dir key : List String) : Bool := dir.isPrefixOf key && dir != key

/-- Some object lies strictly below `dir`, so that `dir` is a directory. -/
def isDir (objects : Objects) (dir : List String) : Bool := objects.keys.any (below dir)

/-- A proper ancestor of `key` is itself an object. -/
def hasFileAncestor (objects : Objects) (key : List String) : Bool :=
  objects.keys.any fun k => below k key

/-- `is_hidden_file` on the name of a directory entry. -/
def isHiddenName (name : String) : Bool := endsWith ".nr-meta" name

/-- The entries directly below `dir`; the mark says whether the entry is a file. -/
def children (objects : Objects) (dir : List String) : List (String × Bool) :=
  (objects.keys.filterMap fun key =>
    if below dir key then
      match key.drop dir.length with
      | [name] => if isHiddenName name then none else some (name, true)
      | name :: _ => if isHiddenName name then none else some (name, false)
      | [] => none
    else none).dedup

end Objects

namespace DynStorage

open Objects

/-- The path check of the local backend (`get_path_for_creation`, `checked_path`); the S3 backend
has none. -/
def rejects (st : DynStorage) (location : StoragePath) : Bool :=
  match st.backend with
  | .local => !location.validate
  | .s3 => false

/-- The key that S3 looks up for `location`; a trailing slash names no object. -/
def lookupKey? (st : DynStorage) (location : StoragePath) : Option (List String) :=
  match st.backend with
  | .local => some location.components
  | .s3 => if location.isDirectory then none else some location.components

/-- `get_path_for_creation`: the components of the new object, unless an ancestor is a file. -/
def pathForCreation (st : DynStorage) (location : StoragePath) :
    Except StorageError (List String) :=
  if st.rejects location then .error .invalidStoragePath
  else if hasFileAncestor st.objects location.components then .error .pathCollision
  else .ok location.components

def saveFile (st : DynStorage) (content : Bytes) (location : StoragePath) :
    Except StorageError DynStorage := do
  let key ← st.pathForCreation location
  -- opening a directory for writing fails on a local disk
  if st.backend == .local && (key.isEmpty || isDir st.objects key) then .error .ioError
  else .ok { st with objects := st.objects.put key content }

/-- `open_file`: staged uploads are served first, then objects, then directory listings. -/
def openFile (st : DynStorage) (location : StoragePath) :
    Except StorageError (Option StorageFile) :=
  if st.rejects location then .error .invalidStoragePath
  else
    match (st.lookupKey? location).bind st.staging.get with
    | some content => .ok (some (.file content))
    | none =>
      match (st.lookupKey? location).bind st.objects.get with
      | some content => .ok (some (.file content))
      | none =>
        if isDir st.objects location.components then
          .ok (some (.directory (children st.objects location.components)))
        else .ok none

/-- `get_file_information`: the size of a file, and no size for a directory. -/
def getFileInformation (st : DynStorage) (location : StoragePath) :
    Except StorageError (Option (Option ℕ)) :=
  match st.openFile location with
  | .error e => .error e
  | .ok none => .ok none
  | .ok (some (.file content)) => .ok (some (some content.length))
  | .ok (some (.directory _)) => .ok (some none)

/-- `file_exists`: a file or a directory on a local disk, an object on S3. -/
def fileExists (st : DynStorage) (location : StoragePath) : Except StorageError Bool :=
  if st.rejects location then .error .invalidStoragePath
  else
    match st.backend with
    | .local => .ok ((st.objects.get location.components).isSome ||
        isDir st.objects location.components)
    | .s3 => .ok ((st.lookupKey? location).bind st.objects.get).isSome

/-- `is_hidden_file` on the name of a file that is listed. -/
def hides (st : DynStorage) (name : String) : Bool :=
  isHiddenName name || st.backend == .local && containsText ".nr-meta.tmp-" name

/-- `stream_directory`: the names and kinds of the entries of a directory, or the file itself. -/
def streamDirectory (st : DynStorage) (location : StoragePath) :
    Except StorageError (Option (List (String × Bool))) :=
  if st.rejects location then .error .invalidStoragePath
  else
    match (st.lookupKey? location).bind st.objects.get with
    | some _ =>
      match st.backend with
      | .local => .ok ((location.components.getLast?.filter fun name => !st.hides name).map
          fun name => [(name, true)])
      | .s3 => .ok (some [(location.toString', true)])
    | none =>
      if isDir st.objects location.components then
        .ok (some ((children st.objects location.components).filter fun e => !st.hides e.1))
      else .ok none

/-- The keys that deleting `location` removes. -/
def deletes (backend : Backend) (location : StoragePath) (key : List String) : Bool :=
  match backend with
  | .local => location.components.isPrefixOf key
  | .s3 => !location.isDirectory && key == location.components

/-- Remove the objects and staged uploads that deleting `location` removes. -/
def erase (st : DynStorage) (location : StoragePath) : DynStorage :=
  { st with
    objects := st.objects.removeIf (deletes st.backend location)
    staging := st.staging.removeIf (deletes st.backend location) }

def deleteFile (st : DynStorage) (location : StoragePath) :
    Except StorageError (DynStorage × Bool) :=
  if st.rejects location then .error .invalidStoragePath
  else
    let found := (st.objects.keys ++ st.staging.keys).any (deletes st.backend location)
    .ok (st.erase location, found)

/-- `delete_files_batch`: one after the other on a local disk, where a failure leaves the rest
undone; one request on S3. -/
def deleteFilesBatch (st : DynStorage) : List StoragePath → DynStorage × Except StorageError Unit
  | [] => (st, .ok ())
  | location :: rest =>
    match st.deleteFile location with
    | .error e => (st, .error e)
    | .ok (st', _) => st'.deleteFilesBatch rest

/-- The storage that an append changes: the staged copy on S3 (seeded with the object that is
already there), the file itself on a local disk. -/
def appendFile (st : DynStorage) (content : Bytes) (location : StoragePath) :
    Except StorageError DynStorage := do
  let key ← st.pathForCreation location
  match st.backend with
  | .local =>
    if key.isEmpty || isDir st.objects key then .error .ioError
    else .ok { st with objects := st.objects.put key ((st.objects.get key).getD [] ++ content) }
  | .s3 =>
    let current := (st.staging.get key).getD ((st.objects.get key).getD [])
    .ok { st with staging := st.staging.put key (current ++ content) }

/-- `move_file`; the result says whether there was a source.  Uploading a staged file does not
replace an object: a destination of the same size counts as uploaded by an earlier attempt. -/
def moveFile (st : DynStorage) (src dst : StoragePath) :
    Except StorageError (DynStorage × Bool) :=
  match st.backend with
  | .local =>
    if st.rejects src then .error .invalidStoragePath
    else
      match st.objects.get src.components with
      | none => .ok (st, false)
      | some content => do
        let key ← st.pathForCreation dst
        if key.isEmpty || isDir st.objects key then .error .ioError
        else
          .ok ({ st with objects := (st.objects.remove src.components).put key content }, true)
  | .s3 =>
    match (st.lookupKey? src).bind st.staging.get with
    | some content =>
      match st.objects.get dst.components with
      | none =>
        .ok ({ st with
          objects := (st.objects.remove src.components).put dst.components content
          staging := st.staging.remove src.components }, true)
      | some old =>
        if old.length = content.length then
          .ok ({ st with
            objects := st.objects.remove src.components
            staging := st.staging.remove src.components }, true)
        else .error .conflict
    | none =>
      match (st.lookupKey? src).bind st.objects.get with
      | none => .ok (st, false)
      | some content =>
        .ok ({ st with
          objects := (st.objects.remove src.components).put dst.components content }, true)

end DynStorage

end Pkgly
