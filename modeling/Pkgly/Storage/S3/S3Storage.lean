import Pkgly.Algorithm.Lru
import Pkgly.Storage.DynStorage

/-!
# The objects of an S3 storage

`S3Storage` at the level of the keys of its bucket.  The writers build the key of a location
component by component (`getPathForCreation`), and look for an object at each proper ancestor on
the way; ancestors that were found clear are remembered.  The other operations take the key that
the location prints (`s3Path`).

`append_file_staged` collects bytes next to the bucket, and `move_file` uploads them.  S3 gives every
object that is written an ETag, which is an argument here; requests may be made conditional on it.
The calls come one after another and no request fails by itself, so the generation that guards the
memo against writes in between is left out, and so are the caches of contents and listings, the
time stamps and the names in a directory.
-/

namespace Pkgly

namespace S3

structure S3Object where
  content : Bytes
  contentType : String
  eTag : Option String
deriving DecidableEq

/-- `StagedAppend`: the collected bytes and the ETag of the object they started from. -/
structure StagedAppend where
  content : Bytes
  baseEtag : Option String
  reservedUnits : Nat
deriving DecidableEq

inductive S3StorageError
  | pathCollision (path conflictsWith : StoragePath)
  /-- A conditional request failed. -/
  | conflict
  | awsMessage (message : String)
deriving DecidableEq

structure S3Storage where
  objects : Store String S3Object
  appendStaging : Store String StagedAppend
  creationProbes : Lru String Unit

inductive FileType
  | file (fileSize : Nat)
  | directory
deriving DecidableEq

inductive OpenedFile
  | file (content : Bytes)
  | directory
deriving DecidableEq

def creationProbeCacheCapacity : Nat := 4096

def maxStagedUploads : Nat := 64

def s3UploadSpoolPermitBytes : Nat := 1048576

/-- `div_ceil` of a size by the bytes of a permit. -/
def spoolUnits (size : Nat) : Nat :=
  (size + s3UploadSpoolPermitBytes - 1) / s3UploadSpoolPermitBytes

def contentTypeOf (location : StoragePath) : String :=
  if location.isDirectory then "application/x-directory" else "application/octet-stream"

namespace S3Storage

def s3Path (repository : String) (path : StoragePath) : String :=
  repository ++ "/" ++ path.toString'

def doesPathExist (st : S3Storage) (path : String) : Bool := (st.objects.get path).isSome

def noteObjectCreated (st : S3Storage) (path : String) : S3Storage :=
  { st with creationProbes := st.creationProbes.pop path }

/-- Remember that there is no object at `path`. -/
def rememberClear (st : S3Storage) (path : String) : S3Storage :=
  let room :=
    if (st.creationProbes.peek path).isNone ∧
        creationProbeCacheCapacity ≤ st.creationProbes.length then
      match st.creationProbes.popLru with
      | some (_, rest) => rest
      | none => st.creationProbes
    else st.creationProbes
  { st with creationProbes := room.put path () }

/-- The loop of `get_path_for_creation` over the remaining components. -/
def probeAncestors (location : StoragePath) : S3Storage → String → StoragePath → List String →
    S3Storage × Except S3StorageError String
  | st, path, _, [] => (st, .ok path)
  | st, path, conflicting, part :: rest =>
    let path := path ++ "/" ++ part
    let conflicting := conflicting.push part
    match rest with
    | [] => (st, .ok path)
    | _ =>
      if (st.creationProbes.peek path).isSome then probeAncestors location st path conflicting rest
      else if st.doesPathExist path then (st, .error (.pathCollision location conflicting))
      else probeAncestors location (st.rememberClear path) path conflicting rest

def getPathForCreation (st : S3Storage) (repository : String) (location : StoragePath) :
    S3Storage × Except S3StorageError String :=
  probeAncestors location st repository ⟨[], none⟩ location.components

def putObject (st : S3Storage) (path : String) (object : S3Object) : S3Storage :=
  { st with objects := st.objects.put path object }

/-- `save_file`: the size, and whether the object is new. -/
def saveFile (st : S3Storage) (repository : String) (content : Bytes) (location : StoragePath)
    (eTag : Option String) : S3Storage × Except S3StorageError (Nat × Bool) :=
  match st.getPathForCreation repository location with
  | (st, .error e) => (st, .error e)
  | (st, .ok path) =>
    let st := st.noteObjectCreated path
    let alreadyExists := st.doesPathExist path
    let st := st.putObject path ⟨content, contentTypeOf location, eTag⟩
    (st.noteObjectCreated path, .ok (content.length, !alreadyExists))

/-- `append_file`: the number of appended bytes. -/
def appendFile (st : S3Storage) (repository : String) (content : Bytes) (location : StoragePath)
    (eTag : Option String) : S3Storage × Except S3StorageError Nat :=
  match st.getPathForCreation repository location with
  | (st, .error e) => (st, .error e)
  | (st, .ok path) =>
    match st.objects.get path with
    | some ⟨_, _, none⟩ =>
      (st, .error (.awsMessage
        "S3 existing object did not return an ETag; refusing an unguarded append"))
    | current =>
      let combined := ((current.map S3Object.content).getD []) ++ content
      let st := st.putObject path ⟨combined, contentTypeOf location, eTag⟩
      (st.noteObjectCreated path, .ok content.length)

/-- `ensure_staging`; `available` are the free permits of the spool budget. -/
def ensureStaging (st : S3Storage) (path : String) (available : Nat) :
    Except S3StorageError (S3Storage × StagedAppend) :=
  match st.appendStaging.get path with
  | some staged => .ok (st, staged)
  | none =>
    match st.objects.get path with
    | some ⟨_, _, none⟩ =>
      .error (.awsMessage "S3 existing object did not return an ETag; refusing an unguarded append")
    | current =>
      let base := (current.map S3Object.content).getD []
      if available < spoolUnits base.length then
        .error (.awsMessage "S3 append staging byte capacity exceeded")
      else if maxStagedUploads ≤ st.appendStaging.entries.length then
        .error (.awsMessage "S3 append staging capacity exceeded; too many concurrent uploads")
      else
        let staged : StagedAppend :=
          ⟨base, current.bind S3Object.eTag, spoolUnits base.length⟩
        .ok ({ st with appendStaging := st.appendStaging.put path staged }, staged)

/-- `append_file_staged`; `available` are the free permits of the spool budget once the object is
staged. -/
def appendFileStaged (st : S3Storage) (repository : String) (content : Bytes)
    (location : StoragePath) (seed available : Nat) :
    S3Storage × Except S3StorageError Nat :=
  match st.getPathForCreation repository location with
  | (st, .error e) => (st, .error e)
  | (st, .ok path) =>
    let st := st.noteObjectCreated path
    match st.ensureStaging path seed with
    | .error e => (st, .error e)
    | .ok (st, staged) =>
      let size := staged.content.length + content.length
      let additional := spoolUnits size - staged.reservedUnits
      if available < additional then
        (st, .error (.awsMessage "S3 append staging byte capacity exceeded"))
      else
        let staged := { staged with
          content := staged.content ++ content
          reservedUnits := max staged.reservedUnits (spoolUnits size) }
        ({ st with appendStaging := st.appendStaging.put path staged }.noteObjectCreated path,
          .ok content.length)

/-- `DeleteObject`, if the object has the ETag. -/
def deleteIfMatch (st : S3Storage) (path : String) (eTag : String) : Option S3Storage :=
  if (st.objects.get path).bind S3Object.eTag = some eTag then
    some { st with objects := st.objects.remove path }
  else none

/-- The upload of a staged append to `toPath`, and the deletion of the object it started from. -/
def finalizeStaged (st : S3Storage) (fromPath toPath : String) (dst : StoragePath)
    (staged : StagedAppend) (eTag : Option String) : S3Storage × Except S3StorageError Bool :=
  let st := st.noteObjectCreated toPath
  let uploaded : Except S3StorageError S3Storage :=
    match st.objects.get toPath with
    | none => .ok (st.putObject toPath ⟨staged.content, contentTypeOf dst, eTag⟩)
    | some object =>
      -- the destination of an earlier attempt
      if object.content.length = staged.content.length then .ok st else .error .conflict
  match uploaded with
  | .error e => (st, .error e)
  | .ok st =>
    let st := st.noteObjectCreated toPath
    match staged.baseEtag with
    | none => ({ st with appendStaging := st.appendStaging.remove fromPath }, .ok true)
    | some base =>
      match st.deleteIfMatch fromPath base with
      | none => (st, .error .conflict)
      | some st => ({ st with appendStaging := st.appendStaging.remove fromPath }, .ok true)

/-- `move_file`: whether there was a source.  S3 refuses to copy an object to itself. -/
def moveFile (st : S3Storage) (repository : String) (src dst : StoragePath)
    (eTag : Option String) : S3Storage × Except S3StorageError Bool :=
  let fromPath := s3Path repository src
  let toPath := s3Path repository dst
  match st.appendStaging.get fromPath with
  | some staged => st.finalizeStaged fromPath toPath dst staged eTag
  | none =>
    match st.objects.get fromPath with
    | none => (st, .ok false)
    | some object =>
      let st := st.noteObjectCreated toPath
      match object.eTag with
      | none =>
        (st, .error (.awsMessage
          "S3 source object did not return an ETag; refusing an unguarded move"))
      | some source =>
        if fromPath = toPath then (st, .error (.awsMessage "InvalidRequest"))
        else
          let st := (st.putObject toPath { object with eTag }).noteObjectCreated toPath
          match st.deleteIfMatch fromPath source with
          | none => (st, .error .conflict)
          | some st => (st, .ok true)

/-- `delete_file`: whether there was something to delete. -/
def deleteFile (st : S3Storage) (repository : String) (location : StoragePath) :
    S3Storage × Bool :=
  let path := s3Path repository location
  let hadStaging := (st.appendStaging.get path).isSome
  let st := { st with appendStaging := st.appendStaging.remove path }
  if st.doesPathExist path then ({ st with objects := st.objects.remove path }, true)
  else (st, hadStaging)

def fileExists (st : S3Storage) (repository : String) (location : StoragePath) : Bool :=
  st.doesPathExist (s3Path repository location)

/-- There are objects below `path`. -/
def listsBelow (st : S3Storage) (path : String) : Bool :=
  let pat := if endsWith "/" path then path else path ++ "/"
  st.objects.keys.any (startsWith pat)

def getFileInformation (st : S3Storage) (repository : String) (location : StoragePath) :
    Option FileType :=
  let path := s3Path repository location
  match st.appendStaging.get path with
  | some staged => some (.file staged.content.length)
  | none =>
    match st.objects.get path with
    | none => if st.listsBelow path then some .directory else none
    | some object =>
      if object.contentType = "application/x-directory" then some .directory
      else some (.file object.content.length)

def collectDirectory (st : S3Storage) (repository : String) (location : StoragePath) :
    Option OpenedFile :=
  (st.getFileInformation repository location).map fun _ => .directory

def openFile (st : S3Storage) (repository : String) (location : StoragePath) :
    Option OpenedFile :=
  let path := s3Path repository location
  match st.appendStaging.get path with
  | some staged => some (.file staged.content)
  | none =>
    match st.objects.get path with
    | none => st.collectDirectory repository location
    | some object =>
      if object.contentType = "application/x-directory" then
        st.collectDirectory repository location
      else some (.file object.content)

end S3Storage

end S3

end Pkgly
