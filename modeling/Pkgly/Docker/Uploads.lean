import Pkgly.Docker.Manifests

/-!
# Blob uploads

The requests of an upload session, each run on its own: `POST` opens a session, `PATCH` and `PUT`
append to its file and its running hash, `PUT` finalizes the hash, compares it with the digest the
client names and moves the file to the blob, `DELETE` gives the session up.  The running hash is
the sequence of bytes it has been fed.  How the steps of several requests interleave is the
subject of `UploadSystem.lean`.
-/

namespace Pkgly.Docker

/-- A hosted repository: its storage and its open upload sessions, with the bytes that went into
the hash of each. -/
structure DockerRepository where
  storage : DynStorage
  uploads : Store String Bytes

def uploadPath (name uploadId : String) : StoragePath :=
  .ofString (objectPath name "uploads" uploadId)

def blobPath (name digest : String) : StoragePath := .ofString (objectPath name "blobs" digest)

/-- `/v2/<name>/blobs/uploads/<uuid>`. -/
def uploadLocation (name uploadId : String) : String :=
  "/v2/" ++ name ++ "/blobs/uploads/" ++ uploadId

def uploadRangeHeader (totalSize : Nat) : String :=
  if totalSize = 0 then "0-0" else "0-" ++ toString (totalSize - 1)

/-- The response about an upload of `totalSize` bytes. -/
def uploadResponse (status : Nat) (name uploadId : String) (totalSize : Nat) : Response :=
  ⟨status, [("Location", uploadLocation name uploadId), ("Range", uploadRangeHeader totalSize),
    ("Docker-Upload-UUID", uploadId), ("Content-Length", "0")], .empty⟩

/-- `initiate_blob_upload`, which draws the id `uploadId`. -/
def initiateBlobUpload (repo : DockerRepository) (name uploadId : String) (hasUser : Bool) :
    DockerRepository × Except DockerError Response :=
  if !hasUser then (repo, .ok .unauthorized)
  else
    let uploads := match repo.uploads.get uploadId with
      | some _ => repo.uploads
      | none => repo.uploads.put uploadId []
    ({ repo with uploads }, .ok (uploadResponse 202 name uploadId 0))

def getBlobUploadStatus (repo : DockerRepository) (name uploadId : String) (hasUser : Bool) :
    Except DockerError Response :=
  if !hasUser then .ok .unauthorized
  else
    match repo.uploads.get uploadId with
    | none => .error (.blobUploadNotFound uploadId)
    | some hashed => .ok (uploadResponse 204 name uploadId hashed.length)

def cancelBlobUpload (repo : DockerRepository) (name uploadId : String) (hasUser : Bool) :
    DockerRepository × Except DockerError Response :=
  if !hasUser then (repo, .ok .unauthorized)
  else
    match repo.uploads.get uploadId with
    | none => (repo, .error (.blobUploadNotFound uploadId))
    | some _ =>
      match repo.storage.deleteFile (uploadPath name uploadId) with
      | .error e => (repo, .error (.storage e))
      | .ok (storage, _) =>
        (⟨storage, repo.uploads.remove uploadId⟩,
          .ok ⟨204, [("Location", uploadLocation name uploadId),
            ("Docker-Upload-UUID", uploadId), ("Content-Length", "0")], .empty⟩)

/-- The part that `PATCH` and `PUT` share: append the body to the file and to the hash.  A local
file is opened for appending also for an empty body. -/
def appendUpload (repo : DockerRepository) (name uploadId : String) (hashed body : Bytes) :
    DockerRepository × Except DockerError Unit :=
  if repo.storage.backend == .s3 && body.isEmpty then (repo, .ok ())
  else
    match repo.storage.appendFile body (uploadPath name uploadId) with
    | .error e => (repo, .error (.storage e))
    | .ok storage => (⟨storage, repo.uploads.put uploadId (hashed ++ body)⟩, .ok ())

def uploadBlobChunk (repo : DockerRepository) (name uploadId : String) (hasUser : Bool)
    (body : Bytes) : DockerRepository × Except DockerError Response :=
  if !hasUser then (repo, .ok .unauthorized)
  else
    match repo.uploads.get uploadId with
    | none => (repo, .error (.blobUploadNotFound uploadId))
    | some hashed =>
      match appendUpload repo name uploadId hashed body with
      | (repo, .error e) => (repo, .error e)
      | (repo, .ok ()) =>
        (repo, .ok (uploadResponse 202 name uploadId (hashed ++ body).length))

/-! ### The digest parameter -/

/-- `hex_pair_to_byte`, one digit. -/
def hexDigitValue (b : UInt8) : Option Nat :=
  let n := b.toNat
  if 48 ≤ n ∧ n ≤ 57 then some (n - 48)
  else if 97 ≤ n ∧ n ≤ 102 then some (n - 97 + 10)
  else if 65 ≤ n ∧ n ≤ 70 then some (n - 65 + 10)
  else none

/-- `percent_decode`: every byte becomes the character of its number. -/
def percentDecode : Bytes → Option (List Char)
  | [] => some []
  | b :: rest =>
    if b = 37 then
      match rest with
      | hi :: lo :: rest => do
        let value := 16 * (← hexDigitValue hi) + (← hexDigitValue lo)
        return Char.ofNat value :: (← percentDecode rest)
      | _ => none
    else if b = 43 then (percentDecode rest).map (' ' :: ·)
    else (percentDecode rest).map (Char.ofNat b.toNat :: ·)

def digestParam (query : String) : Option (List Char) :=
  ((query.toList.splitOn '&').find? ("digest=".toList.isPrefixOf ·)).map (·.drop 7)

def requestDigest (query : Option String) : Option String := do
  let raw ← query.bind digestParam
  return String.ofList (← percentDecode (String.ofList raw).toUTF8.data.toList)

/-! ### Completion -/

/-- `complete_blob_upload` from the finalized hash on: `actual` is the digest of what was hashed.
`recorded` is whether the catalog accepts the blob. -/
def placeBlob (repo : DockerRepository) (recorded : Bool) (name uploadId digest actual : String) :
    DockerRepository × Except DockerError Response :=
  if actual ≠ digest then
    let uploads := repo.uploads.remove uploadId
    match repo.storage.deleteFile (uploadPath name uploadId) with
    | .error e => (⟨repo.storage, uploads⟩, .error (.storage e))
    | .ok (storage, _) => (⟨storage, uploads⟩, .error (.digestMismatch digest actual))
  else
    match repo.storage.moveFile (uploadPath name uploadId) (blobPath name digest) with
    | .error e => (repo, .error (.storage e))
    | .ok (storage, false) =>
      (⟨storage, repo.uploads.remove uploadId⟩, .error (.blobUploadNotFound uploadId))
    | .ok (storage, true) =>
      if !recorded then (⟨storage, repo.uploads⟩, .error .indexing)
      else
        (⟨storage, repo.uploads⟩, .ok ⟨201, [("Location", "/" ++ objectPath name "blobs" digest),
          ("Docker-Content-Digest", actual), ("Docker-Upload-UUID", uploadId),
          ("Content-Length", "0")], .empty⟩)

def completeBlobUpload (sha : Sha256) (repo : DockerRepository) (recorded : Bool)
    (name uploadId : String) (hasUser : Bool) (query : Option String) (body : Bytes) :
    DockerRepository × Except DockerError Response :=
  if !hasUser then (repo, .ok .unauthorized)
  else
    match requestDigest query with
    | none => (repo, .error .invalidManifest)
    | some digest =>
      match repo.uploads.get uploadId with
      | none => (repo, .error (.blobUploadNotFound uploadId))
      | some hashed =>
        match appendUpload repo name uploadId hashed body with
        | (repo, .error e) => (repo, .error e)
        | (repo, .ok ()) =>
          -- the session is taken out of the map before its hash is finalized
          placeBlob ⟨repo.storage, repo.uploads.remove uploadId⟩ recorded name uploadId digest
            (sha.digest (hashed ++ body))

end Pkgly.Docker
