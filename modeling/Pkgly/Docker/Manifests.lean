import Pkgly.Docker.Types
import Pkgly.Storage.Sha256

/-!
# Manifest pushes

`putManifest` is `PUT /v2/<name>/manifests/<reference>`: the checks that come before anything is
stored (`admitManifest`), the save under the reference and, for a tag, a second save under the
digest of the body.  The catalog is a database outside the storage; the model keeps whether the
handler gets past it.  A request whose media types send `from_bytes` into its endless recursion
has no response (`none`).
-/

/-!
## Docker registry metadata

`splitManifestCachePath` reads the repository name and the reference back from a stored manifest's
path; `manifestReferences` are the paths of the objects a manifest refers to directly.
-/

namespace Pkgly.Docker

/-- `split_manifest_cache_path`: the repository name ends at the first `/manifests/`. -/
def splitManifestCachePath (path : String) : Option (String × String) :=
  if startsWith "v2/" path then
    match splitOnce "/manifests/".toList (path.toList.drop 3) with
    | some (repository, reference) =>
      if repository = [] ∨ reference = [] then none
      else some (String.ofList repository, String.ofList reference)
    | none => none
  else none

/-- `parse_manifest`: a manifest by the media type it names, an OCI image by default.  `none` when
the recursion of `from_bytes` does not return, `some none` when nothing was read. -/
def parseManifest (serde : SerdeJson) (bytes : Bytes) : Option (Option Manifest) :=
  if bytes = [] then some none
  else
    match serde.value bytes with
    | none => some none
    | some value =>
      Manifest.fromBytes serde bytes
        ((Json.getStr? "mediaType" value).getD MediaType.ociImageManifest)

/-- `format!("v2/{name}/{kind}/{digest}")`. -/
def objectPath (name kind digest : String) : String :=
  "v2" ++ ("/" ++ (name ++ ("/" ++ (kind ++ ("/" ++ digest)))))

/-- `manifest_references`, as a set: the distinct objects a manifest refers to directly. -/
def manifestReferences (serde : SerdeJson) (name : String) (bytes : Bytes) :
    Option (List String) :=
  (parseManifest serde bytes).map fun
    | none => []
    | some manifest =>
      let (kind, digests) := manifest.digests
      ((digests.map (objectPath name kind)).mergeSort).dedup

end Pkgly.Docker

namespace Pkgly.Docker

/-- The `DockerError`s of the handlers. -/
inductive DockerError
  | manifestNotFound (reference : String)
  | blobNotFound (digest : String)
  | invalidManifest
  | invalidRepositoryName (name : String)
  | digestMismatch (expected actual : String)
  | blobUploadNotFound (uploadId : String)
  | tagOverwriteNotAllowed (reference : String)
  | storage (error : StorageError)
  | indexing
deriving DecidableEq, Repr

/-- Where the next page of a listing starts, and how long it is. -/
structure PaginationCursor where
  last : String
  limit : Nat
deriving DecidableEq, Repr

inductive Body
  | empty
  | text (text : String)
  /-- The content of a stored file. -/
  | stored (content : Bytes)
  | catalog (repositories : List String) (next : Option PaginationCursor)
  | tags (name : String) (tags : List String) (next : Option PaginationCursor)
deriving DecidableEq

structure Response where
  status : Nat
  headers : List (String × String)
  body : Body
deriving DecidableEq

def Response.unauthorized : Response := ⟨401, [], .empty⟩

/-- A `PUT` of a manifest: the parts of the request that the handler reads. -/
structure PutManifest where
  repositoryName : String
  reference : String
  /-- `request.authentication.get_user().is_some()`. -/
  hasUser : Bool
  /-- The `Content-Type` header, if it is a text. -/
  contentType : Option String
  body : Bytes

def manifestPath (name reference : String) : StoragePath :=
  StoragePath.ofString (objectPath name "manifests" reference)

/-- `reference.starts_with("sha256:")`. -/
def isDigestReference (reference : String) : Bool := startsWith "sha256:" reference

/-- The settings of a hosted repository and the outcome of its catalog writes. -/
structure PushSettings where
  allowTagOverwrite : Bool
  catalogIndexingEnabled : Bool
  /-- The catalog accepts the entry of the reference. -/
  recordsReference : Bool
  /-- The catalog accepts the entry of the digest. -/
  recordsDigest : Bool

/-- The checks of `put_manifest` before it stores anything; `none` when it does not return. -/
def admitManifest (serde : SerdeJson) (settings : PushSettings) (st : DynStorage)
    (req : PutManifest) : Option (Except DockerError Unit) :=
  match Manifest.fromBytes serde req.body (req.contentType.getD MediaType.ociImageManifest) with
  | none => none
  | some none => some (.error .invalidManifest)
  | some (some _) =>
    -- check if tag already exists and overwrite is not allowed
    if !isDigestReference req.reference && !settings.allowTagOverwrite then
      match st.openFile (manifestPath req.repositoryName req.reference) with
      | .error e => some (.error (.storage e))
      | .ok (some _) => some (.error (.tagOverwriteNotAllowed req.reference))
      | .ok none => (manifestReferences serde req.repositoryName req.body).map fun _ => .ok ()
    else (manifestReferences serde req.repositoryName req.body).map fun _ => .ok ()

def created (sha : Sha256) (req : PutManifest) : Response :=
  let digest := sha.digest req.body
  ⟨201, [("Docker-Content-Digest", digest),
    ("Location", "/" ++ objectPath req.repositoryName "manifests" digest)], .empty⟩

/-- The saves of `put_manifest`; the storage reached also when one of them fails. -/
def storeManifest (sha : Sha256) (settings : PushSettings) (st : DynStorage) (req : PutManifest) :
    DynStorage × Except DockerError Response :=
  match st.saveFile req.body (manifestPath req.repositoryName req.reference) with
  | .error e => (st, .error (.storage e))
  | .ok st₁ =>
    if settings.catalogIndexingEnabled && !settings.recordsReference then (st₁, .error .indexing)
    else if isDigestReference req.reference then (st₁, .ok (created sha req))
    else
      -- also save by digest if this is a tag reference
      match st₁.saveFile req.body (manifestPath req.repositoryName (sha.digest req.body)) with
      | .error e => (st₁, .error (.storage e))
      | .ok st₂ =>
        if settings.catalogIndexingEnabled && !settings.recordsDigest then
          (st₂, .error .indexing)
        else (st₂, .ok (created sha req))

def putManifest (sha : Sha256) (serde : SerdeJson) (settings : PushSettings) (st : DynStorage)
    (req : PutManifest) : DynStorage × Option (Except DockerError Response) :=
  if !req.hasUser then (st, some (.ok .unauthorized))
  else
    match admitManifest serde settings st req with
    | none => (st, none)
    | some (.error e) => (st, some (.error e))
    | some (.ok ()) =>
      let (st', response) := storeManifest sha settings st req
      (st', some response)

end Pkgly.Docker
