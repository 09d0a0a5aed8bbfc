import Mathlib.Data.List.Sort
import Pkgly.Algorithm.Reference
import Pkgly.Database.Project
import Pkgly.Python.Simple
import Pkgly.Storage.Sha256

/-!
# Hosted Python repositories

Uploads to a hosted Python repository, by path or as a form, and what it answers to the requests
for its simple pages and its files.  Permissions are checked before, and webhooks sent afterwards.

Beside its files a local storage keeps the digest of each file in a sidecar.  A sidecar is made when
its file is read and there is none; saving a file where there is one already leaves the sidecar as
it is and queues the file for the background task, which brings it up to date (`updateMeta`).  S3
lists its files without digests.

A request is known by the text of its path below the repository, with its percent escapes.
-/

namespace Pkgly.Python

structure PythonFormat where
  sha256 : Bytes → Bytes
  /-- `base64_utils::encode`. -/
  encode : Bytes → String
  /-- `base64_utils::decode`. -/
  decode : String → Option Bytes
  decode_encode : ∀ bytes, decode (encode bytes) = some bytes

structure PythonPackageMetadata where
  filename : String
  normalizedName : Option String
  requiresPython : Option String
  sha256 : Option String
deriving DecidableEq

inductive PythonRepositoryError
  | invalidPath (message : String)
  | storage (error : StorageError)
  | database
deriving DecidableEq

structure PythonHosted where
  storage : DynStorage
  /-- The digests in the sidecars of a local storage, in base 64. -/
  sidecars : Store (List String) String
  /-- The files whose sidecars have still to be updated. -/
  queue : List (List String)
  catalogue : Catalogue PythonPackageMetadata
  /-- The names of the projects. -/
  names : Store ℕ String

def PythonHosted.empty (backend : Backend) : PythonHosted := ⟨⟨backend, ∅, ∅⟩, ∅, [], .empty, ∅⟩

variable (format : PythonFormat)

def PythonFormat.digest (content : Bytes) : String := format.encode (format.sha256 content)

/-! ### The storage -/

def PythonHosted.saveFile (s : PythonHosted) (content : Bytes) (location : StoragePath) :
    Except StorageError PythonHosted :=
  (s.storage.saveFile content location).map fun storage =>
    let hidden := s.storage.hides (location.components.getLastD "")
    let queued := s.storage.backend == .local && !hidden &&
      (s.storage.objects.get location.components).isSome
    { s with storage, queue := if queued then s.queue ++ [location.components] else s.queue }

/-- `LocationMeta::get_or_default_local` on a file. -/
def PythonHosted.readMeta (s : PythonHosted) (key : List String) : PythonHosted :=
  match s.storage.backend, s.sidecars.get key, s.storage.objects.get key with
  | .local, none, some content => { s with sidecars := s.sidecars.put key (format.digest content) }
  | _, _, _ => s

local instance lawfulBEqKey : LawfulBEq (List String) := List.instLawfulBEq

/-- The background task updates a sidecar of its queue; a file that is gone is skipped. -/
def PythonHosted.updateMeta (s : PythonHosted) (key : List String) : Option PythonHosted :=
  if key ∈ s.queue then
    some { s with
      queue := s.queue.erase key
      sidecars :=
        match s.storage.objects.get key with
        | some content => s.sidecars.put key (format.digest content)
        | none => s.sidecars }
  else none

/-- The names of the files of a directory, with the digests of those that have one; `none` when the
path is not a directory. -/
def PythonHosted.openFolder (s : PythonHosted) (location : StoragePath) :
    Except StorageError (PythonHosted × Option (List (String × Option String))) :=
  (s.storage.openFile location).map fun
    | some (.directory files) =>
      let names := (files.filter fun file => file.2 && !s.storage.hides file.1).map Prod.fst
      let read := names.foldl
        (fun s name => s.readMeta format (location.components ++ [name])) s
      (read, some (names.map fun name =>
        (name, read.sidecars.get (location.components ++ [name]))))
    | _ => (s, none)

/-! ### Uploads -/

/-- A field of a form: its content, as text and as bytes. -/
structure MultipartField where
  name : Option String
  fileName : Option String
  text : String
  bytes : Bytes

/-- What `handle_multipart_upload` has read of a form. -/
structure UploadForm where
  package : Option String
  version : Option String
  filename : Option String
  fileBytes : Option Bytes

def UploadForm.read (form : UploadForm) (field : MultipartField) : UploadForm :=
  match field.name with
  | some "name" => { form with package := some field.text }
  | some "version" => { form with version := some field.text }
  | some "content" =>
    { form with
      filename := if form.filename.isNone then field.fileName else form.filename
      fileBytes := some field.bytes }
  | _ => form

/-- The body of an upload; a form that cannot be read has no fields. -/
inductive UploadBody
  | raw (content : Bytes)
  | multipart (fields : Option (List MultipartField))

structure Upload where
  /-- The path of the request. -/
  uri : String
  body : UploadBody

def multipartFile (fields : List MultipartField) :
    Except PythonRepositoryError (Bytes × StoragePath) :=
  let form := fields.foldl UploadForm.read ⟨none, none, none, none⟩
  match form.package, form.version, form.filename, form.fileBytes with
  | none, _, _, _ => .error (.invalidPath "missing package name")
  | some _, none, _, _ => .error (.invalidPath "missing package version")
  | some _, some _, none, _ => .error (.invalidPath "missing package filename")
  | some _, some _, some _, none => .error (.invalidPath "missing package content")
  | some package, some version, some filename, some fileBytes =>
    .ok (fileBytes, .ofString (package ++ ("/" ++ (version ++ ("/" ++ filename)))))

def requestPath (uri : String) : Option StoragePath :=
  (percentDecodeStr uri).bind StoragePath.fromUntrusted

def Upload.file (upload : Upload) : Except PythonRepositoryError (Bytes × StoragePath) :=
  match requestPath upload.uri, upload.body with
  | none, _ => .error (.invalidPath upload.uri)
  | some path, .raw content => .ok (content, path)
  | some _, .multipart (some fields) => multipartFile fields
  | some _, .multipart none => .error (.invalidPath "multipart")

variable (c : Collation)

def PythonHosted.findOrInsertProject (s : PythonHosted) (info : PythonPackagePathInfo) :
    Option (PythonHosted × DBProject) :=
  match s.catalogue.findByProjectKey c info.projectKey with
  | some project => some (s, project)
  | none =>
    (s.catalogue.insertProject c info.projectKey info.projectStoragePath).map
      fun (catalogue, project) =>
        ({ s with catalogue, names := s.names.put project.id info.package }, project)

def PythonPackagePathInfo.metadata (info : PythonPackagePathInfo) : PythonPackageMetadata where
  filename := info.fileName
  normalizedName := some (normalizePackageName info.package)
  requiresPython := none
  sha256 := none

def PythonHosted.upsertMetadata (s : PythonHosted) (info : PythonPackagePathInfo) :
    PythonHosted × Except PythonRepositoryError Unit :=
  match s.findOrInsertProject c info with
  | none => (s, .error .database)
  | some (s, project) =>
    match s.catalogue.findByVersionAndProject info.version project.id with
    | some _ => (s, .ok ())
    | none =>
      match s.catalogue.insertVersion c project.id info.version info.versionStoragePath
          info.metadata with
      | some catalogue => ({ s with catalogue }, .ok ())
      | none => (s, .error .database)

/-- `handle_upload`; what is saved before an error stays. -/
def PythonHosted.handleUpload (s : PythonHosted) (upload : Upload) :
    PythonHosted × Except PythonRepositoryError Unit :=
  match upload.file with
  | .error e => (s, .error e)
  | .ok (content, path) =>
    match PythonPackagePathInfo.tryFrom path.components with
    | none => (s, .error (.invalidPath path.toString'))
    | some info =>
      match s.saveFile content path with
      | .error e => (s, .error (.storage e))
      | .ok s => s.upsertMetadata c info

/-! ### Simple pages -/

structure PythonSimpleRequestContext where
  components : List String
  isDirectory : Bool
  redirectNeeded : Bool
  prefixToRoot : String

def PythonSimpleRequestContext.new (path : StoragePath) (uriPath : String) :
    PythonSimpleRequestContext :=
  let components :=
    match path.components with
    | first :: rest => if eqIgnoreAsciiCase first "simple" then rest else first :: rest
    | [] => []
  let trailingSlash := endsWith "/" uriPath
  let isDirectory := path.isDirectory || trailingSlash || components.isEmpty ||
    components.length == 1
  { components
    isDirectory
    redirectNeeded := isDirectory && !trailingSlash
    prefixToRoot := String.join (List.replicate path.components.length "../") }

/-- `trim_end_matches('/')`. -/
def trimEndSlashes (text : String) : String :=
  String.ofList (text.toList.reverse.dropWhile (· == '/')).reverse

/-- `redirect_to_trailing_slash`: the location. -/
def redirectToTrailingSlash (base : String) (path : StoragePath) : String :=
  let trimmed := trimEndSlashes path.toString'
  if trimmed = "" then base ++ "/" else base ++ ("/" ++ (trimmed ++ "/"))

def shouldIgnore (name : String) : Bool := startsWith "." name || endsWith ".nr-meta" name

def base64ToHex (base64Hash : String) : Option String :=
  (format.decode base64Hash).map fun bytes => String.ofList (bytes.flatMap Sha256.hexPair)

def hashFragment : Option String → String
  | some hash => "#sha256=" ++ (base64ToHex format hash).getD hash
  | none => ""

def fileLink (ctx : PythonSimpleRequestContext) (projectDir : String)
    (version : DBProjectVersion PythonPackageMetadata) (file : String × Option String) :
    SimpleIndexLink where
  href := ctx.prefixToRoot ++ (projectDir ++ ("/" ++ (version.version ++ ("/" ++ file.1)))) ++
    hashFragment format (file.2.or version.extra.sha256)
  text := file.1
  requiresPython := version.extra.requiresPython

def PythonHosted.versionLinks (s : PythonHosted) (ctx : PythonSimpleRequestContext)
    (projectDir : String) (version : DBProjectVersion PythonPackageMetadata) :
    Except StorageError (PythonHosted × List SimpleIndexLink) :=
  let location := .ofString (projectDir ++ ("/" ++ (version.version ++ "/")))
  (s.openFolder format location).map fun (read, files) =>
    let entries := (files.getD []).insertionSort fun a b => a.1 ≤ b.1
    (read, (entries.filter fun file => !shouldIgnore file.1).map
      (fileLink format ctx projectDir version))

def PythonHosted.links (ctx : PythonSimpleRequestContext) (projectDir : String) :
    PythonHosted → List (DBProjectVersion PythonPackageMetadata) →
      Except StorageError (PythonHosted × List SimpleIndexLink)
  | s, [] => .ok (s, [])
  | s, version :: rest => do
    let (read, front) ← s.versionLinks format ctx projectDir version
    let (read, back) ← PythonHosted.links ctx projectDir read rest
    return (read, front ++ back)

inductive Response
  | redirect (location : String)
  /-- `render_root_simple_index`, the list of all projects. -/
  | rootIndex
  | package (displayName : String) (links : List SimpleIndexLink)
  | packageNotFound (packageComponent : String)
  | file (content : Bytes)
  | directory
  | notFound
  | badRequest
deriving DecidableEq

def Response.html : Response → Option String
  | .package displayName links => some (packagePage displayName links)
  | .packageNotFound packageComponent => some (notFoundPage packageComponent)
  | _ => none

def PythonHosted.renderPackageSimpleIndex (s : PythonHosted) (ctx : PythonSimpleRequestContext)
    (packageComponent : String) : Except StorageError (PythonHosted × Response) :=
  match s.catalogue.findByProjectKey c (normalizePackageName packageComponent) with
  | none => .ok (s, .packageNotFound packageComponent)
  | some project =>
    let projectDir := trimEndSlashes project.path
    -- the latest first, and then in the order they were made in
    let versions := (s.catalogue.getAllVersions project.id).reverse
    let name := (s.names.get project.id).getD ""
    (PythonHosted.links format ctx projectDir s versions).map fun (read, links) =>
      (read, .package (if name = "" then packageComponent else name) links)

def PythonHosted.serveFile (s : PythonHosted) (path : StoragePath) :
    Except StorageError (PythonHosted × Response) :=
  (s.storage.openFile path).map fun
    | some (.file content) => (s.readMeta format path.components, .file content)
    | some (.directory _) => (s, .directory)
    | none => (s, .notFound)

def PythonHosted.handleGet (base : String) (s : PythonHosted) (uri : String) :
    Except StorageError (PythonHosted × Response) :=
  match requestPath uri with
  | none => .ok (s, .badRequest)
  | some path =>
    let ctx := PythonSimpleRequestContext.new path uri
    if ctx.isDirectory then
      if ctx.redirectNeeded then .ok (s, .redirect (redirectToTrailingSlash base path))
      else
        match ctx.components with
        | [] => .ok (s, .rootIndex)
        | [package] => s.renderPackageSimpleIndex format c ctx package
        | _ => s.serveFile format path
    else s.serveFile format path

/-! ### Runs -/

inductive Event
  /-- An upload that is accepted. -/
  | upload (upload : Upload)
  | get (uri : String)
  | updateMeta (key : List String)

def pythonHosted (base : String) (s : PythonHosted) : Event → Option PythonHosted
  | .upload upload =>
    match s.handleUpload c upload with
    | (s', .ok ()) => some s'
    | (_, .error _) => none
  | .get uri =>
    match s.handleGet format c base uri with
    | .ok (read, _) => some read
    | .error _ => some s
  | .updateMeta key => s.updateMeta format key

end Pkgly.Python
