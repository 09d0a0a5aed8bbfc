import Mathlib.Data.UInt
import Pkgly.Algorithm.U64
import Pkgly.Storage.S3.S3Storage

/-!
# The accounts of staged uploads

`append_file_staged` collects the chunks of an upload in a local file, up to `MAX_STAGED_BYTES` over
all uploads: the permits of `upload_spool_budget` stand for units of 1 MiB, and an upload holds
permits for what it has collected.  The calls are given in the arithmetic of their `u64`s, with the
outcome of each request and of each access to a file.

The lock of an upload lets one call at a time work on it, so that a call is one step here, and the
entry that `ensure_staging` publishes is never there before it.  What a call holds on to only while
it runs, the notes to the memo of clear ancestors, the listings and the cache, whose removals do not
fail, are left out; so is the ordinary move of a file that is not staged.
-/

namespace Pkgly.S3.Staging

open U64

/-- `StagedAppend`, with the length of the file at its path in place of the path. -/
structure StagedAppend where
  size : UInt64
  baseEtag : Option String
  /-- The units of each permit. -/
  budgetPermits : List UInt32
  reservedUnits : UInt64
  fileLength : ℕ
deriving DecidableEq

/-- The staged uploads, and the permits of `upload_spool_budget` that are free. -/
structure AppendStaging where
  appendStaging : Store String StagedAppend
  available : ℕ

inductive StagingError
  | awsMessage (message : String)
  | request
  | io
deriving DecidableEq

def maxStagedBytes : ℕ := 64 * 1024 * 1024 * 1024

/-- The initial permits of `upload_spool_budget`. -/
def initialPermits : ℕ := maxStagedBytes / s3UploadSpoolPermitBytes

def AppendStaging.initial : AppendStaging := ⟨∅, initialPermits⟩

/-- `size.div_ceil(S3_UPLOAD_SPOOL_PERMIT_BYTES)`. -/
def permitUnits (size : UInt64) : UInt64 := divCeil size (.ofNat s3UploadSpoolPermitBytes)

/-- `try_acquire_many_owned`: the permits that are free afterwards. -/
def tryAcquireMany (available : ℕ) (n : UInt32) : Option ℕ :=
  if n.toNat ≤ available then some (available - n.toNat) else none

def StagedAppend.heldUnits (entry : StagedAppend) : ℕ := (entry.budgetPermits.map UInt32.toNat).sum

/-! ### The start of an upload -/

/-- The answer to the request for the object that an upload starts from. -/
inductive ObjectResponse
  /-- `copied` are the bytes of its body, unless reading it or writing the file fails. -/
  | found (eTag : Option String) (contentLength : Option Int64) (copied : Option UInt64)
  | notFound
  | failed
deriving DecidableEq

/-- `u64::try_from`. -/
def tryFromI64 (n : Int64) : Option UInt64 := if 0 ≤ n then some n.toUInt64 else none

/-- The permits for the object that an upload starts from, and those that are left. -/
def acquireBase (available : ℕ) (reservedUnits : UInt64) : Option (List UInt32 × ℕ) :=
  if reservedUnits = 0 then some ([], available)
  else (tryAcquireMany available reservedUnits.toUInt32).map fun left =>
    ([reservedUnits.toUInt32], left)

/-- The part of `ensure_staging` that copies the object, and the permits that are left. -/
def stageObject (available : ℕ) : ObjectResponse → Except StagingError (StagedAppend × ℕ)
  | .notFound => .ok (⟨0, none, [], 0, 0⟩, available)
  | .failed => .error .request
  | .found none _ _ =>
    .error (.awsMessage
      "S3 existing object did not return an ETag; refusing an unguarded append")
  | .found (some eTag) contentLength copied =>
    match contentLength.bind tryFromI64 with
    | none =>
      .error (.awsMessage "S3 existing object did not return a valid content length")
    | some size =>
      match acquireBase available (permitUnits size) with
      | none => .error (.awsMessage "S3 append staging byte capacity exceeded")
      | some (permits, left) =>
        match copied with
        | none => .error .io
        | some copied =>
          if copied ≠ size then
            .error (.awsMessage "S3 existing object length changed while staging")
          else .ok (⟨copied, some eTag, permits, permitUnits size, copied.toNat⟩, left)

structure AppendOutcomes where
  /-- `get_path_for_creation` succeeds. -/
  createPath : Bool
  createFile : Bool
  object : ObjectResponse
  flushBase : Bool
  openFile : Bool
  /-- The bytes that are copied from a file, unless the write fails. -/
  write : Option UInt64
  flush : Bool
  /-- The bytes that have reached the file when the write or the flush fails. -/
  written : ℕ
  setLen : Bool
deriving DecidableEq

namespace AppendStaging

def ensureStaging (st : AppendStaging) (path : String) (o : AppendOutcomes) :
    Except StagingError (AppendStaging × UInt64) :=
  match st.appendStaging.get path with
  | some entry => .ok (st, entry.size)
  | none =>
    if !o.createFile then .error .io
    else
      match stageObject st.available o.object with
      | .error e => .error e
      | .ok (entry, left) =>
        if !o.flushBase then .error .io
        else if maxStagedUploads ≤ st.appendStaging.entries.length then
          .error (.awsMessage
            "S3 append staging capacity exceeded; too many concurrent uploads")
        else .ok (⟨st.appendStaging.put path entry, left⟩, entry.size)

/-! ### The chunks -/

def reserveStagedSize (st : AppendStaging) (path : String) (additional : UInt64) :
    Option (AppendStaging × UInt64) := do
  let entry ← st.appendStaging.get path
  let newSize := saturatingAdd entry.size additional
  let requiredUnits := permitUnits newSize
  let additionalUnits := saturatingSub requiredUnits entry.reservedUnits
  if 0 < additionalUnits then
    let left ← tryAcquireMany st.available additionalUnits.toUInt32
    let entry := { entry with
      size := newSize
      budgetPermits := entry.budgetPermits ++ [additionalUnits.toUInt32]
      reservedUnits := requiredUnits }
    return (⟨st.appendStaging.put path entry, left⟩, additionalUnits)
  else
    let entry := { entry with size := newSize }
    return ({ st with appendStaging := st.appendStaging.put path entry }, additionalUnits)

def releaseStagedSize (st : AppendStaging) (path : String) (amount reservedUnits : UInt64) :
    AppendStaging :=
  match st.appendStaging.get path with
  | none => st
  | some entry =>
    let entry := { entry with size := saturatingSub entry.size amount }
    if 0 < reservedUnits then
      let popped := (entry.budgetPermits.getLast?.map UInt32.toNat).getD 0
      let entry := { entry with
        reservedUnits := saturatingSub entry.reservedUnits reservedUnits
        budgetPermits := entry.budgetPermits.dropLast }
      ⟨st.appendStaging.put path entry, st.available + popped⟩
    else { st with appendStaging := st.appendStaging.put path entry }

def resizeFile (st : AppendStaging) (path : String) (length : ℕ → ℕ) : AppendStaging :=
  match st.appendStaging.get path with
  | none => st
  | some entry =>
    let entry := { entry with fileLength := length entry.fileLength }
    { st with appendStaging := st.appendStaging.put path entry }

end AppendStaging

/-- The content of a chunk: the length of a file, unless it cannot be read, or of the bytes. -/
inductive FileContent
  | path (length : Option UInt64)
  | content (length : UInt64)
  | bytes (length : UInt64)
deriving DecidableEq

def FileContent.incomingSize : FileContent → Option UInt64
  | .path length => length
  | .content length => some length
  | .bytes length => some length

def FileContent.appendedSize (copied : UInt64) : FileContent → UInt64
  | .path _ => copied
  | .content length => length
  | .bytes length => length

namespace AppendStaging

/-- The rest of `append_file_staged` after a write or a flush has failed. -/
def rollBack (st : AppendStaging) (path : String) (o : AppendOutcomes)
    (currentSize incomingSize reservedUnits : UInt64) : AppendStaging :=
  let st := st.resizeFile path fun length => length + o.written
  let st := if o.setLen then st.resizeFile path fun _ => currentSize.toNat else st
  st.releaseStagedSize path incomingSize reservedUnits

/-- The rest of `append_file_staged` once the upload is staged. -/
def appendChunk (st : AppendStaging) (path : String) (file : FileContent) (o : AppendOutcomes)
    (currentSize : UInt64) : AppendStaging × Except StagingError UInt64 :=
  if !o.openFile then (st, .error .io)
  else
    match file.incomingSize with
    | none => (st, .error .io)
    | some incomingSize =>
      match st.reserveStagedSize path incomingSize with
      | none => (st, .error (.awsMessage "S3 append staging byte capacity exceeded"))
      | some (st, reservedUnits) =>
        match o.write with
        | none => (st.rollBack path o currentSize incomingSize reservedUnits, .error .io)
        | some copied =>
          if !o.flush then
            (st.rollBack path o currentSize incomingSize reservedUnits, .error .io)
          else
            let appended := file.appendedSize copied
            (st.resizeFile path fun length => length + appended.toNat, .ok appended)

def appendFileStaged (st : AppendStaging) (path : String) (file : FileContent)
    (o : AppendOutcomes) : AppendStaging × Except StagingError UInt64 :=
  if !o.createPath then (st, .error .request)
  else
    match st.ensureStaging path o with
    | .error e => (st, .error e)
    | .ok (st, currentSize) => st.appendChunk path file o currentSize

/-! ### The end of an upload -/

def removeStaging (st : AppendStaging) (path : String) : AppendStaging × Bool :=
  match st.appendStaging.get path with
  | none => (st, false)
  | some entry => (⟨st.appendStaging.remove path, st.available + entry.heldUnits⟩, true)

def removeAll (st : AppendStaging) (paths : List String) : AppendStaging :=
  paths.foldl (fun st path => (st.removeStaging path).1) st

def removeStagingPrefix (st : AppendStaging) (repository : String) : AppendStaging :=
  st.removeAll (st.appendStaging.keys.filter fun key => (repository ++ "/").isPrefixOf key)

def cleanupStaging (st : AppendStaging) (removeDir : Bool) :
    AppendStaging × Except StagingError Unit :=
  (st.removeAll st.appendStaging.keys, if removeDir then .ok () else .error .io)

end AppendStaging

/-- The answer to the upload of a staged file. -/
inductive PutResponse
  | stored
  | conflict
  | failed
deriving DecidableEq

/-- What happens during the move of a staged file. -/
structure FinalizeOutcomes where
  readFile : Bool
  put : PutResponse
  /-- The content length of the destination, unless the request for it fails. -/
  destination : Option (Option Int64)
  deleteBase : Bool
deriving DecidableEq

def destinationSize (contentLength : Option Int64) : UInt64 :=
  (max (contentLength.getD 0) 0).toUInt64

def uploads (staged : StagedAppend) (o : FinalizeOutcomes) : Bool :=
  match o.put with
  | .stored => true
  | .failed => false
  | .conflict =>
    match o.destination with
    | none => false
    | some contentLength => destinationSize contentLength = staged.size

namespace AppendStaging

/-- The move of a staged file by `move_file`. -/
def finalizeStaged (st : AppendStaging) (staged : StagedAppend) (fromPath : String)
    (o : FinalizeOutcomes) : AppendStaging × Except StagingError Bool :=
  if !o.readFile then (st, .error .io)
  else if !uploads staged o then (st, .error .request)
  else if staged.baseEtag.isSome && !o.deleteBase then (st, .error .request)
  else ((st.removeStaging fromPath).1, .ok true)

def moveFile (st : AppendStaging) (fromPath : String) (o : FinalizeOutcomes) : AppendStaging :=
  match st.appendStaging.get fromPath with
  | none => st
  | some staged => (st.finalizeStaged staged fromPath o).1

end AppendStaging

/-! ### Runs -/

inductive StagingCall
  | append (path : String) (file : FileContent) (outcomes : AppendOutcomes)
  | remove (path : String)
  | removePrefix (repository : String)
  | move (fromPath : String) (outcomes : FinalizeOutcomes)
  | cleanup (removeDir : Bool)
deriving DecidableEq

def AppendStaging.call (st : AppendStaging) : StagingCall → AppendStaging
  | .append path file o => (st.appendFileStaged path file o).1
  | .remove path => (st.removeStaging path).1
  | .removePrefix repository => st.removeStagingPrefix repository
  | .move fromPath o => st.moveFile fromPath o
  | .cleanup removeDir => (st.cleanupStaging removeDir).1

def stagingStep (st : AppendStaging) (call : StagingCall) : Option AppendStaging :=
  some (st.call call)

end Pkgly.S3.Staging
