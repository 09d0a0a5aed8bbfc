import Pkgly.Algorithm.Trim
import Pkgly.Docker.Manifests
import Pkgly.Repository.ProxyIndexing

/-!
# Manifests of a Docker proxy

`downloadManifestFromUpstream` fetches a manifest, a second time if the first response is a manifest
of schema 1, checks it against digests and stores it under its reference and under its digest.

The two responses are what `fetch` returns for the `Accept` header of the client and for the one
that names modern media types only.  The storage records the hash of the content that a file has, so
that the digest of a stored file is the digest of its content, recorded or computed.
-/

namespace Pkgly.Docker

open Proxy (ProxyArtifactMeta ProxyIndexingError)

/-! ### Responses -/

/-- What `fetch` and the stream of a body fail with. -/
inductive UpstreamError
  | transport
  | invalidManifest (message : String)
deriving DecidableEq

/-- A response of the upstream; a header is there if its value is a text. -/
structure UpstreamResponse where
  status : ℕ
  contentType : Option String
  dockerContentDigest : Option String
  /-- What is read of the body. -/
  body : Except UpstreamError Bytes

/-- The `DockerError`s of a download. -/
inductive DownloadError
  | manifestNotFound (reference : String)
  | invalidManifest (message : String)
  | digestMismatch (expected actual : String)
  | storage (error : StorageError)
  | indexing (error : ProxyIndexingError)
  | upstream (error : UpstreamError)
deriving DecidableEq

structure DownloadEnvironment where
  sha : Sha256
  serde : SerdeJson
  /-- `Display` of a status. -/
  displayStatus : ℕ → String
  /-- The media type that the storage has recorded for a file, if it is not the placeholder
  `application/octet-stream`. -/
  recordedType : StoragePath → Bytes → Option String
  /-- The text of a `ManifestMeta` with a digest and the present time. -/
  metaText : String → Bytes
  /-- `record_cached_artifact`, with the digest and the references of a manifest. -/
  recordCachedArtifact : ProxyArtifactMeta → String → List String → Except ProxyIndexingError Unit

variable (env : DownloadEnvironment)

structure StreamedDownload where
  content : Bytes
  digest : String

structure CachedManifest where
  content : Bytes
  digest : String
  contentType : String
  length : ℕ
deriving DecidableEq

/-- `status.is_success()`. -/
def isSuccess (status : ℕ) : Bool := 200 ≤ status && status < 300

def schema1Type : String := "application/vnd.docker.distribution.manifest.v1+json"

/-- The member `schemaVersion` of a document is 1. -/
def hasSchemaVersion1 : Json → Bool
  | .obj members =>
    match members.reverse.lookup "schemaVersion" with
    | some (.int n) => n == 1
    | _ => false
  | _ => false

/-- `manifest_media_type`, with the `Content-Type` header. -/
def manifestMediaType (serde : SerdeJson) (bytes : Bytes) (contentType : Option String) : String :=
  match contentType with
  | some value => value
  | none =>
    match serde.value bytes with
    | none => MediaType.ociImageManifest
    | some value =>
      match Json.getStr? "mediaType" value with
      | some mediaType => mediaType
      | none => if hasSchemaVersion1 value then schema1Type else MediaType.ociImageManifest

def isSchema1Manifest (mediaType : String) : Bool :=
  let normalized := toAsciiLowercase
    (String.ofList (trim (String.ofList (mediaType.toList.takeWhile (· ≠ ';')))))
  normalized = schema1Type ||
    normalized = "application/vnd.docker.distribution.manifest.v1+prettyjws"

/-- `stream_response_to_tempfile`. -/
def streamResponse (response : UpstreamResponse) : Except DownloadError StreamedDownload :=
  match response.body with
  | .error e => .error (.upstream e)
  | .ok content => .ok ⟨content, env.sha.digest content⟩

def checkHeader (header : Option String) (digest : String) : Except DownloadError Unit :=
  match header with
  | none => .ok ()
  | some expected => if expected ≠ digest then .error (.digestMismatch expected digest) else .ok ()

/-- The second fetch for a manifest of schema 1, which replaces the first one if it succeeds. -/
def refetchModern (modern : Except UpstreamError UpstreamResponse) (streamed : StreamedDownload)
    (contentType : String) : Except DownloadError (StreamedDownload × String) :=
  match modern with
  | .error e => .error (.upstream e)
  | .ok response =>
    if isSuccess response.status then
      match streamResponse env response with
      | .error e => .error e
      | .ok modern =>
        match checkHeader response.dockerContentDigest modern.digest with
        | .error e => .error e
        | .ok () =>
          .ok (modern, manifestMediaType env.serde modern.content response.contentType)
    else .ok (streamed, contentType)

def checkManifest (header : Option String) (reference : String) (streamed : StreamedDownload)
    (contentType : String) : Except DownloadError (StreamedDownload × String) :=
  match checkHeader header streamed.digest with
  | .error e => .error e
  | .ok () =>
    if isDigestReference reference && reference != streamed.digest then
      .error (.digestMismatch reference streamed.digest)
    else .ok (streamed, contentType)

/-- The part of `download_manifest_from_upstream` up to the checks: the manifest with its media
type. -/
def receiveManifest (reference : String) (first modern : Except UpstreamError UpstreamResponse) :
    Except DownloadError (StreamedDownload × String) :=
  match first with
  | .error e => .error (.upstream e)
  | .ok response =>
    if response.status = 404 then .error (.manifestNotFound reference)
    else if !isSuccess response.status then
      .error (.invalidManifest ("Upstream returned status " ++ env.displayStatus response.status))
    else
      match streamResponse env response with
      | .error e => .error e
      | .ok streamed =>
        let contentType := manifestMediaType env.serde streamed.content response.contentType
        let received := if isSchema1Manifest contentType then
            refetchModern env modern streamed contentType
          else .ok (streamed, contentType)
        match received with
        | .error e => .error e
        | .ok (streamed, contentType) =>
          -- the headers are still those of the first response
          checkManifest response.dockerContentDigest reference streamed contentType

/-! ### Storing a manifest -/

def loadCachedManifest (st : DynStorage) (path : StoragePath) (reference : String) :
    Except DownloadError (Option CachedManifest) :=
  match st.openFile path with
  | .error e => .error (.storage e)
  | .ok none => .ok none
  | .ok (some (.directory _)) => .error (.invalidManifest "Expected file, got directory")
  | .ok (some (.file content)) =>
    let digest := env.sha.digest content
    if isDigestReference reference && reference != digest then
      .error (.digestMismatch reference digest)
    else .ok (some ⟨content, digest,
      (env.recordedType path content).getD (manifestMediaType env.serde content none),
      content.length⟩)

def cachedDigestString (st : DynStorage) (path : StoragePath) (reference : String) : String :=
  match loadCachedManifest env st path reference with
  | .ok (some cached) => cached.digest
  | _ => "unknown"

def verifyCachedDigest (st : DynStorage) (path : StoragePath) (reference expected : String) :
    Except DownloadError Unit :=
  match loadCachedManifest env st path reference with
  | .error e => .error e
  | .ok cached =>
    if cached.map CachedManifest.digest = some expected then .ok ()
    else .error (.digestMismatch expected (cachedDigestString env st path reference))

/-- `delete_file` with its errors ignored. -/
def dropFile (st : DynStorage) (path : StoragePath) : DynStorage :=
  match st.deleteFile path with
  | .ok (st, _) => st
  | .error _ => st

/-- The save of `write_manifest_file`. -/
def saveManifestFile (st : DynStorage) (path : StoragePath) (reference expected : String)
    (streamed : StreamedDownload) : DynStorage × Except DownloadError Unit :=
  match st.saveFile streamed.content path with
  | .ok st => (st, .ok ())
  | .error .pathCollision => (st, verifyCachedDigest env st path reference expected)
  | .error e => (st, .error (.storage e))

def writeManifestFile (st : DynStorage) (path : StoragePath) (reference expected : String)
    (streamed : StreamedDownload) : DynStorage × Except DownloadError Unit :=
  match st.fileExists path with
  | .error e => (st, .error (.storage e))
  | .ok false => saveManifestFile env st path reference expected streamed
  | .ok true =>
    match loadCachedManifest env st path reference with
    | .error e => (st, .error e)
    | .ok existing =>
      if existing.map CachedManifest.digest = some expected then (st, .ok ())
      else saveManifestFile env (dropFile st path) path reference expected streamed

def saveManifestAtomically (st : DynStorage) (tagPath : StoragePath)
    (digestPath : Option StoragePath) (streamed : StreamedDownload)
    (reference computedDigest : String) : DynStorage × Except DownloadError Unit :=
  match writeManifestFile env st tagPath reference computedDigest streamed with
  | (st, .error e) => (st, .error e)
  | (st, .ok ()) =>
    match digestPath with
    | none => (st, .ok ())
    | some digestPath =>
      match writeManifestFile env st digestPath computedDigest computedDigest streamed with
      | (st, .ok ()) => (st, .ok ())
      | (st, .error e) => (dropFile st tagPath, .error e)

def ensureManifestCached (st : DynStorage) (path : StoragePath) (name reference : String)
    (streamed : StreamedDownload) (computedDigest : String) :
    DynStorage × Except DownloadError Unit :=
  let digestPath := if isDigestReference reference then none
    else some (manifestPath name computedDigest)
  saveManifestAtomically env st path digestPath streamed reference computedDigest

def dockerPackageKey (name : String) : String :=
  toAsciiLowercase (String.ofList (trimWhile (· == '/') name.toList))

def recordDockerManifestCacheHit (name reference : String) (path : StoragePath) (digest : String)
    (size : ℕ) (references : List String) : Except DownloadError Unit :=
  match env.recordCachedArtifact ⟨name, dockerPackageKey name, some reference, path.toString',
      some size, none⟩ digest references with
  | .error e => .error (.indexing e)
  | .ok () => .ok ()

def manifestMetaPath (path : StoragePath) : StoragePath :=
  .ofString (path.toString' ++ ".nr-docker-tagmeta")

def saveManifestMeta (st : DynStorage) (path : StoragePath) (digest : String) :
    DynStorage × Except DownloadError Unit :=
  match st.saveFile (env.metaText digest) (manifestMetaPath path) with
  | .error e => (st, .error (.storage e))
  | .ok st => (st, .ok ())

/-- What `download_manifest_from_upstream` does for a tag after it has recorded the reference. -/
def cacheDigest (st : DynStorage) (name : String) (tagPath : StoragePath)
    (streamed : StreamedDownload) (references : List String) :
    DynStorage × Except DownloadError Unit :=
  let digestPath := manifestPath name streamed.digest
  match ensureManifestCached env st digestPath name streamed.digest streamed streamed.digest with
  | (st, .error e) => (st, .error e)
  | (st, .ok ()) =>
    match recordDockerManifestCacheHit env name streamed.digest digestPath streamed.digest
        streamed.content.length references with
    | .error e => (st, .error e)
    | .ok () => saveManifestMeta env st tagPath streamed.digest

/-- What `download_manifest_from_upstream` does after it has stored the manifest. -/
def recordManifest (st : DynStorage) (name reference : String) (streamed : StreamedDownload)
    (references : List String) : DynStorage × Except DownloadError Unit :=
  let path := manifestPath name reference
  match recordDockerManifestCacheHit env name reference path streamed.digest
      streamed.content.length references with
  | .error e => (st, .error e)
  | .ok () =>
    if isDigestReference reference then (st, .ok ())
    else cacheDigest env st name path streamed references

/-- `download_manifest_from_upstream`; `none` when the references of the manifest are never read
to their end. -/
def downloadManifestFromUpstream (st : DynStorage) (name reference : String)
    (first modern : Except UpstreamError UpstreamResponse) :
    Option (DynStorage × Except DownloadError CachedManifest) :=
  match receiveManifest env reference first modern with
  | .error e => some (st, .error e)
  | .ok (streamed, contentType) =>
    match ensureManifestCached env st (manifestPath name reference) name reference streamed
        streamed.digest with
    | (st, .error e) => some (st, .error e)
    | (st, .ok ()) =>
      (manifestReferences env.serde name streamed.content).map fun references =>
        let (st, result) := recordManifest env st name reference streamed references
        (st, result.map fun () =>
          ⟨streamed.content, streamed.digest, contentType, streamed.content.length⟩)

end Pkgly.Docker
