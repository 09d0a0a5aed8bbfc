import Pkgly.Algorithm.Run
import Pkgly.Docker.Uploads
import Pkgly.Storage.Sha256

/-!
# Upload requests side by side

The requests of `Uploads.lean` cut into the steps that other requests can come between.  A request
in flight (`InFlight`) carries what its handler holds between two steps: its open file, the bytes
its buffered writer has not written out yet, and the bytes its hash has not been fed yet.

* On a local disk `PATCH` and `PUT` open the file, take its lock, and then write every chunk of the
  body into the buffer (`write`, `flush`) and feed it to the hash (`update`).  An open file stays
  open when its path is moved or removed.
* On S3 the whole body is appended to the staged upload (`append`), and then fed to the hash.
* `PUT` goes on to take the session out of the map and to finalize its hash (`finalize`), and to
  move or delete the file (`place`).
* `DELETE` deletes the file (`delete`) and gives up the session (`abandon`).
* A request ends early when its client or one of its operations fails (`abort`).
-/

namespace Pkgly.Docker

/-- The requests on an open session. -/
inductive UploadKind
  | patch
  | put (digest : String)
  | cancel
deriving DecidableEq

inductive Phase
  | begun
  | opened
  | streaming
  | streamed
  | finalized (actual : String)
  | deleted
deriving DecidableEq

structure InFlight where
  kind : UploadKind
  name : String
  uploadId : String
  phase : Phase
  /-- The current path of the open file; `none` when no path leads to it. -/
  file : Option (List String)
  /-- Bytes in the write buffer. -/
  pending : Bytes
  /-- Bytes written that the hash has not seen. -/
  toHash : Bytes
deriving DecidableEq

/-- A hosted repository with the requests in flight.  `posted` records which image a session was
opened for, which the code does not. -/
structure UploadSystem where
  repo : DockerRepository
  posted : Store String String
  requests : Store Nat InFlight

inductive UploadAction
  | post (uploadId name : String)
  | begin (r : Nat) (kind : UploadKind) (name uploadId : String)
  | open (r : Nat)
  | lock (r : Nat)
  | write (r : Nat) (chunk : Bytes)
  | flush (r n : Nat)
  | update (r n : Nat)
  | append (r : Nat) (body : Bytes)
  | close (r : Nat)
  | finalize (r : Nat)
  | place (r : Nat)
  | delete (r : Nat)
  | abandon (r : Nat)
  | abort (r : Nat)

namespace InFlight

def path (q : InFlight) : StoragePath := uploadPath q.name q.uploadId

/-- Everything the request took in is in the file and in the hash. -/
def settled (q : InFlight) : Bool := q.pending.isEmpty && q.toHash.isEmpty

/-- The path of the open file changes by `f`. -/
def redirect (f : List String → Option (List String)) (q : InFlight) : InFlight :=
  { q with file := q.file.bind f }

end InFlight

namespace UploadSystem

/-- The request `r` is now `q`. -/
def set (s : UploadSystem) (r : Nat) (q : InFlight) : UploadSystem :=
  { s with requests := s.requests.put r q }

/-- The request `r` has ended. -/
def finish (s : UploadSystem) (r : Nat) : UploadSystem :=
  { s with requests := s.requests.remove r }

def setStorage (s : UploadSystem) (storage : DynStorage) : UploadSystem :=
  { s with repo := { s.repo with storage } }

def setUploads (s : UploadSystem) (uploads : Store String Bytes) : UploadSystem :=
  { s with repo := { s.repo with uploads } }

def redirect (s : UploadSystem) (f : List String → Option (List String)) : UploadSystem :=
  { s with requests := s.requests.mapValues (InFlight.redirect f) }

/-- Another request holds the lock of the file that `q` has open. -/
def lockHeld (s : UploadSystem) (r : Nat) (q : InFlight) : Bool :=
  s.requests.entries.any fun e =>
    e.1 != r && e.2.phase == .streaming && e.2.file == q.file && q.file.isSome

/-- Some object or staged upload is already named `uploadId`. -/
def idInUse (s : UploadSystem) (uploadId : String) : Bool :=
  (s.repo.storage.objects.keys ++ s.repo.storage.staging.keys).any (·.getLast? == some uploadId)

/-- A file whose path is gone has no path. -/
def unlinked (storage : DynStorage) (key : List String) : Option (List String) :=
  if (storage.objects.get key).isSome then some key else none

/-- A rename takes the open files of `src` along and replaces what was at `dst`. -/
def renamed (src dst key : List String) : Option (List String) :=
  if key = src then some dst else if key = dst then none else some key

/-! ### The steps of one request -/

def post (s : UploadSystem) (uploadId name : String) : Option UploadSystem :=
  if uploadId = "" ∨ '/' ∈ uploadId.toList ∨ (s.posted.get uploadId).isSome ∨ s.idInUse uploadId then
    none
  else
    some { s with
      repo := (initiateBlobUpload s.repo name uploadId true).1
      posted := s.posted.put uploadId name }

/-- An authenticated request arrives and finds its session. -/
def begin (s : UploadSystem) (r : Nat) (kind : UploadKind) (name uploadId : String) :
    Option UploadSystem :=
  if (s.requests.get r).isSome ∨ (s.repo.uploads.get uploadId).isNone then none
  else some (s.set r ⟨kind, name, uploadId, .begun, none, [], []⟩)

/-- The open of `open_append_handle`, which creates the file. -/
def openFile (s : UploadSystem) (r : Nat) (q : InFlight) : Option UploadSystem :=
  if q.phase ≠ .begun ∨ q.kind = .cancel ∨ s.repo.storage.backend ≠ .local then none
  else
    match s.repo.storage.appendFile [] q.path with
    | .error _ => some (s.finish r)
    | .ok storage =>
      some ((s.setStorage storage).set r
        { q with phase := .opened, file := some q.path.components })

/-- The `lock_exclusive` of `open_append_handle`. -/
def lock (s : UploadSystem) (r : Nat) (q : InFlight) : Option UploadSystem :=
  if q.phase ≠ .opened ∨ s.lockHeld r q then none
  else some (s.set r { q with phase := .streaming })

/-- `write_all` of the next chunk, into the buffer. -/
def write (s : UploadSystem) (r : Nat) (q : InFlight) (chunk : Bytes) : Option UploadSystem :=
  if q.phase ≠ .streaming ∨ s.repo.storage.backend ≠ .local ∨ q.toHash ≠ [] then none
  else some (s.set r { q with pending := q.pending ++ chunk, toHash := chunk })

/-- The buffer writes `n` bytes out, to the open file wherever it is. -/
def flush (s : UploadSystem) (r : Nat) (q : InFlight) (n : Nat) : Option UploadSystem :=
  if q.phase ≠ .streaming ∨ s.repo.storage.backend ≠ .local then none
  else
    let objects := s.repo.storage.objects
    let objects := match q.file with
      | none => objects
      | some key =>
        match objects.get key with
        | none => objects
        | some content => objects.put key (content ++ q.pending.take n)
    some ((s.setStorage { s.repo.storage with objects }).set r
      { q with pending := q.pending.drop n })

/-- `UploadState::update` with the next `n` bytes.  A handle whose session has left the map
updates a state that nobody reads any more. -/
def update (s : UploadSystem) (r : Nat) (q : InFlight) (n : Nat) : Option UploadSystem :=
  if q.phase ≠ .streaming then none
  else
    let uploads := match s.repo.uploads.get q.uploadId with
      | none => s.repo.uploads
      | some hashed => s.repo.uploads.put q.uploadId (hashed ++ q.toHash.take n)
    some ((s.setUploads uploads).set r { q with toHash := q.toHash.drop n })

/-- `append_upload_chunk` on S3, of the whole body. -/
def append (s : UploadSystem) (r : Nat) (q : InFlight) (body : Bytes) : Option UploadSystem :=
  if q.phase ≠ .begun ∨ q.kind = .cancel ∨ s.repo.storage.backend ≠ .s3 then none
  else if body.isEmpty then some (s.set r { q with phase := .streaming })
  else
    match s.repo.storage.appendFile body q.path with
    | .error _ => some (s.finish r)
    | .ok storage =>
      some ((s.setStorage storage).set r { q with phase := .streaming, toHash := body })

/-- The body is through; `PATCH` is done and the file is closed. -/
def close (s : UploadSystem) (r : Nat) (q : InFlight) : Option UploadSystem :=
  if q.phase ≠ .streaming ∨ q.settled = false then none
  else if q.kind = .patch then some (s.finish r)
  else some (s.set r { q with phase := .streamed, file := none })

/-- `finalize_blob_upload_state`, or else `recompute_finalized_upload_from_storage_file`. -/
def finalize (sha : Sha256) (s : UploadSystem) (r : Nat) (q : InFlight) : Option UploadSystem :=
  if q.phase ≠ .streamed then none
  else
    match s.repo.uploads.get q.uploadId with
    | some hashed =>
      some ((s.setUploads (s.repo.uploads.remove q.uploadId)).set r
        { q with phase := .finalized (sha.digest hashed) })
    | none =>
      match s.repo.storage.openFile q.path with
      | .ok (some (.file content)) =>
        some (s.set r { q with phase := .finalized (sha.digest content) })
      | _ => some (s.finish r)

def place (s : UploadSystem) (r : Nat) (q : InFlight) : Option UploadSystem :=
  match q.phase, q.kind with
  | .finalized actual, .put digest =>
    let repo := (placeBlob s.repo true q.name q.uploadId digest actual).1
    let dst := (blobPath q.name digest).components
    let moved := match s.repo.storage.moveFile q.path (blobPath q.name digest) with
      | .ok (_, moved) => moved
      | .error _ => false
    let s' := { s.finish r with repo }
    if actual ≠ digest then some (s'.redirect (unlinked repo.storage))
    else if moved then some (s'.redirect (renamed q.path.components dst))
    else some s'
  | _, _ => none

/-- The deletion of `cancel_blob_upload`. -/
def delete (s : UploadSystem) (r : Nat) (q : InFlight) : Option UploadSystem :=
  if q.phase ≠ .begun ∨ q.kind ≠ .cancel then none
  else
    match s.repo.storage.deleteFile q.path with
    | .error _ => some (s.finish r)
    | .ok (storage, _) =>
      some (((s.setStorage storage).set r { q with phase := .deleted }).redirect
        (unlinked storage))

/-- `abandon_blob_upload_state`, the end of `cancel_blob_upload`. -/
def abandon (s : UploadSystem) (r : Nat) (q : InFlight) : Option UploadSystem :=
  if q.phase ≠ .deleted then none
  else some ((s.setUploads (s.repo.uploads.remove q.uploadId)).finish r)

/-- Take the step `f` of the request `r`. -/
def onRequest (s : UploadSystem) (r : Nat) (f : InFlight → Option UploadSystem) :
    Option UploadSystem :=
  (s.requests.get r).bind f

def step (sha : Sha256) (s : UploadSystem) : UploadAction → Option UploadSystem
  | .post uploadId name => s.post uploadId name
  | .begin r kind name uploadId => s.begin r kind name uploadId
  | .open r => s.onRequest r fun q => s.openFile r q
  | .lock r => s.onRequest r fun q => s.lock r q
  | .write r chunk => s.onRequest r fun q => s.write r q chunk
  | .flush r n => s.onRequest r fun q => s.flush r q n
  | .update r n => s.onRequest r fun q => s.update r q n
  | .append r body => s.onRequest r fun q => s.append r q body
  | .close r => s.onRequest r fun q => s.close r q
  | .finalize r => s.onRequest r fun q => s.finalize sha r q
  | .place r => s.onRequest r fun q => s.place r q
  | .delete r => s.onRequest r fun q => s.delete r q
  | .abandon r => s.onRequest r fun q => s.abandon r q
  | .abort r => s.onRequest r fun _ => some (s.finish r)

end UploadSystem

end Pkgly.Docker
