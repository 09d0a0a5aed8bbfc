import Pkgly.Docker.Catalog
import Pkgly.Docker.Deletion
import Pkgly.Docker.Uploads

/-!
# The handlers of a hosted Docker repository

`handleDocker` routes a request by its method and the segments of its path, as `handle_get`,
`handle_head`, `handle_put`, `handle_post`, `handle_patch` and `handle_delete` do, and answers it.
None of the handlers looks at permissions: those that check anything check that the request
carries a user.
-/

namespace Pkgly.Docker

inductive Method
  | get
  | head
  | put
  | post
  | patch
  | delete
  | other (name : String)
deriving DecidableEq, Repr

/-- What the handlers do, with the repository name and the last segment of the path. -/
inductive Route
  | apiVersion
  | catalog
  | tags (name : String)
  | manifest (name reference : String)
  | uploads (name : String)
  | upload (name uploadId : String)
  | blob (name digest : String)
  | notFound
deriving DecidableEq, Repr

def pathParts (path : StoragePath) : List String :=
  ((path.toString'.toList.dropWhile (· = '/')).splitOn '/').map String.ofList

/-- `name.join("/")`, given the segments last to first. -/
def joinName (reversed : List String) : String := "/".intercalate reversed.reverse

/-- The route of a path, `reversed` being its segments after `v2` last to first.  The arms stand in
the order of `handle_get`; the other methods have some of them. -/
def routeOf : (reversed : List String) → Route
  | [] => .apiVersion
  | ["_catalog"] => .catalog
  | "list" :: "tags" :: n :: name => .tags (joinName (n :: name))
  | reference :: "manifests" :: n :: name => .manifest (joinName (n :: name)) reference
  | uploadId :: "uploads" :: "blobs" :: n :: name => .upload (joinName (n :: name)) uploadId
  | digest :: "blobs" :: n :: name => .blob (joinName (n :: name)) digest
  | _ => .notFound

def route (method : Method) (parts : List String) : Route :=
  match parts with
  | "v2" :: rest =>
    match method, rest.reverse with
    | .get, reversed => routeOf reversed
    | .head, reference :: "manifests" :: n :: name => .manifest (joinName (n :: name)) reference
    | .head, digest :: "blobs" :: n :: name => .blob (joinName (n :: name)) digest
    | .put, reference :: "manifests" :: n :: name => .manifest (joinName (n :: name)) reference
    | .put, uploadId :: "uploads" :: "blobs" :: n :: name =>
      .upload (joinName (n :: name)) uploadId
    | .post, "" :: "uploads" :: "blobs" :: n :: name => .uploads (joinName (n :: name))
    | .post, "uploads" :: "blobs" :: n :: name => .uploads (joinName (n :: name))
    | .patch, uploadId :: "uploads" :: "blobs" :: n :: name =>
      .upload (joinName (n :: name)) uploadId
    | .delete, reference :: "manifests" :: n :: name => .manifest (joinName (n :: name)) reference
    | .delete, uploadId :: "uploads" :: "blobs" :: n :: name =>
      .upload (joinName (n :: name)) uploadId
    | .delete, digest :: "blobs" :: n :: name => .blob (joinName (n :: name)) digest
    | _, _ => .notFound
  | _ => .notFound

/-- What a handler reads of a request besides its method and path, and what it meets outside the
storage. -/
structure DockerRequest where
  contentType : Option String
  query : Option String
  /-- `parse_pagination_params` of the query. -/
  pagination : Option Pagination
  body : Bytes
  settings : PushSettings
  /-- The upload id that `POST` draws. -/
  newUploadId : String
  /-- The database accepts what a handler records or forgets about a blob or a manifest. -/
  recorded : Bool

def notFoundResponse : Response := ⟨404, [], .text "Not Found"⟩

/-- `unsupported_method_response`. -/
def unsupportedMethod (method : String) : Response :=
  ⟨405, [], .text ("Method " ++ method ++ " is not supported for repository type docker")⟩

def paginationError : Response :=
  ⟨400, listingHeaders, .text "Query parameter 'n' must be a positive integer"⟩

/-! ### Reading handlers -/

def storedContentType (serde : SerdeJson) (content : Bytes) : String :=
  ((serde.value content).bind (Json.getStr? "mediaType")).getD MediaType.ociImageManifest

/-- `get_manifest` and `head_manifest`, which answer with the same headers. -/
def readManifest (sha : Sha256) (serde : SerdeJson) (st : DynStorage) (name reference : String)
    (withBody : Bool) : Except DockerError Response :=
  match st.openFile (manifestPath name reference) with
  | .error e => .error (.storage e)
  | .ok none => .error (.manifestNotFound reference)
  | .ok (some (.directory _)) => .error .invalidManifest
  | .ok (some (.file content)) =>
    .ok ⟨200, [("Content-Type", storedContentType serde content),
      ("Docker-Content-Digest", sha.digest content),
      ("Content-Length", toString content.length)],
      if withBody then .stored content else .empty⟩

/-- `get_blob` and `head_blob`. -/
def readBlob (st : DynStorage) (req : DockerRequest) (name digest : String) (withBody : Bool) :
    Except DockerError Response :=
  match st.openFile (blobPath name digest) with
  | .error e => .error (.storage e)
  | .ok none => .error (.blobNotFound digest)
  | .ok (some (.directory _)) => .error (.blobNotFound digest)
  | .ok (some (.file content)) =>
    if req.settings.catalogIndexingEnabled && !req.recorded then .error .indexing
    else
      .ok ⟨200, [("Docker-Content-Digest", digest), ("Content-Length", toString content.length),
        ("Content-Type", "application/octet-stream")],
        if withBody then .stored content else .empty⟩

/-! ### Deleting handlers -/

def acceptedResponse : Response := ⟨202, [], .empty⟩

def deleteManifest (sha : Sha256) (serde : SerdeJson) (order : HashOrder) (st : DynStorage)
    (req : DockerRequest) (name reference : String) :
    DynStorage × Option (Except DockerError Response) :=
  match deleteDockerPackage sha serde order req.recorded st
      (manifestPath name reference).toString' with
  | (st', none) => (st', none)
  | (st', some (.ok _)) => (st', some (.ok acceptedResponse))
  | (st', some (.error .manifestMissing)) => (st', some (.ok acceptedResponse))
  | (st', some (.error _)) => (st', some (.error .invalidManifest))

def deleteBlob (st : DynStorage) (req : DockerRequest) (name digest : String) :
    DynStorage × Except DockerError Response :=
  match st.deleteFile (blobPath name digest) with
  | .error e => (st, .error (.storage e))
  | .ok (st', _) => (st', if req.recorded then .ok acceptedResponse else .error .indexing)

/-! ### Routing -/

def answer (repo : DockerRepository) (response : Except DockerError Response) :
    DockerRepository × Option (Except DockerError Response) := (repo, some response)

def putManifestRoute (sha : Sha256) (serde : SerdeJson) (repo : DockerRepository)
    (hasUser : Bool) (req : DockerRequest) (name reference : String) :
    DockerRepository × Option (Except DockerError Response) :=
  let r := putManifest sha serde req.settings repo.storage
    ⟨name, reference, hasUser, req.contentType, req.body⟩
  ({ repo with storage := r.1 }, r.2)

/-- The `handle_…` function of `method`, for a routed request that carries a user or not. -/
def handleRoute (sha : Sha256) (serde : SerdeJson) (order : HashOrder) (repo : DockerRepository)
    (hasUser : Bool) (req : DockerRequest) : Method → Route →
    DockerRepository × Option (Except DockerError Response)
  | .get, .apiVersion =>
    answer repo (.ok ⟨200, [("Docker-Distribution-API-Version", "registry/2.0")], .empty⟩)
  | .get, .catalog =>
    answer repo (match req.pagination with
      | none => .ok paginationError
      | some params => listCatalog repo.storage params)
  | .get, .tags name =>
    answer repo (match req.pagination with
      | none => .ok paginationError
      | some params => listTags repo.storage name params)
  | .get, .manifest name reference =>
    answer repo (readManifest sha serde repo.storage name reference true)
  | .head, .manifest name reference =>
    answer repo (readManifest sha serde repo.storage name reference false)
  | .get, .blob name digest => answer repo (readBlob repo.storage req name digest true)
  | .head, .blob name digest => answer repo (readBlob repo.storage req name digest false)
  | .get, .upload name uploadId =>
    answer repo (getBlobUploadStatus repo name uploadId hasUser)
  | .put, .manifest name reference => putManifestRoute sha serde repo hasUser req name reference
  | .put, .upload name uploadId =>
    let r := completeBlobUpload sha repo (!req.settings.catalogIndexingEnabled || req.recorded)
      name uploadId hasUser req.query req.body
    (r.1, some r.2)
  | .post, .uploads name =>
    let r := initiateBlobUpload repo name req.newUploadId hasUser
    (r.1, some r.2)
  | .patch, .upload name uploadId =>
    let r := uploadBlobChunk repo name uploadId hasUser req.body
    (r.1, some r.2)
  | .delete, .manifest name reference =>
    let r := deleteManifest sha serde order repo.storage req name reference
    ({ repo with storage := r.1 }, r.2)
  | .delete, .upload name uploadId =>
    let r := cancelBlobUpload repo name uploadId hasUser
    (r.1, some r.2)
  | .delete, .blob name digest =>
    let r := deleteBlob repo.storage req name digest
    ({ repo with storage := r.1 }, some r.2)
  | .other name, _ => answer repo (.ok (unsupportedMethod name))
  | _, _ => answer repo (.ok notFoundResponse)

def handleDocker (sha : Sha256) (serde : SerdeJson) (order : HashOrder) (repo : DockerRepository)
    (hasUser : Bool) (req : DockerRequest) (method : Method) (path : StoragePath) :
    DockerRepository × Option (Except DockerError Response) :=
  handleRoute sha serde order repo hasUser req method (route method (pathParts path))

end Pkgly.Docker
