import Pkgly.Npm.Hosted
import Pkgly.Npm.Types
import Pkgly.Repository.RepoHttp

/-!
# Reading from a hosted npm registry

`handle_get` and `handle_head` with the routes of packages, versions, tarballs and distribution
tags, and the part of `handle_repo_request_core` that such a request runs through.  Only the route of
the tags asks whether the caller may read.

The metadata of a version is the text that the catalogue keeps; reading it as a `PublishVersion` is
the parameter `fromValue`.  The times of a package are not modelled, nor are failures of the
database.
-/

namespace Pkgly.Npm

variable {ε : Type}

/-- What the registry keeps: files, rows with the metadata of versions, and the tags of projects. -/
structure NpmContent where
  storage : DynStorage
  catalogue : Catalogue (Option String)
  /-- `npm_dist_tags`. -/
  tags : (projectId : ℕ) → Option Tags

/-- `NPMHostedRegistry`, as the dispatcher sees it. -/
structure NPMHostedRegistry where
  id : Uuid
  isActive : Bool
  visibility : Visibility
  authConfig : RepositoryAuthConfig

/-- `GET` and `HEAD`. -/
inductive ReadMethod
  | get
  | head
deriving DecidableEq

/-- `NpmRegistryPackageResponse`; `metadata` is the version whose fields are repeated for the
package (`package_fields`). -/
structure NpmRegistryPackageResponse (ε : Type) where
  id : String
  name : String
  metadata : Option (PublishVersion ε)
  distTags : Tags
  versions : Store String (PublishVersion ε)

inductive Body (ε : Type)
  | empty
  | text (message : String)
  | package (response : NpmRegistryPackageResponse ε)
  | version (metadata : String)
  | distTags (tags : Tags)
  | file (file : StorageFile)
  /-- The headers of a file of this size, or of a directory. -/
  | fileMeta (size : Option ℕ)

structure RepoResponse (ε : Type) where
  status : ℕ
  headers : List (String × String)
  body : Body ε

def RepoResponse.text (status : ℕ) (message : String) : RepoResponse ε := ⟨status, [], .text message⟩

/-- `impl IntoResponse for NPMRegistryError`. -/
def NPMRegistryError.intoResponse : NPMRegistryError → RepoResponse ε
  | .invalidGetRequest => .text 404 "Invalid GET request"
  | .invalidTarball route error => .text 400
      ("Invalid tarball. The tarballs location is invalid.\n" ++
        "        This means you used \x60$BASE_URL/repositories/$STORAGE/$REPO\x60 without a " ++
        "trailing slash.\n        tarbar Route: " ++ route ++ " Error: " ++ error)
  | .invalidPublication => .text 400
      "Package name, version or tarball does not match the publish request"
  | .cannotRemoveLatest => .text 400 "The latest distribution tag cannot be removed directly"
  | .invalidDistTags => .text 400 "Invalid npm distribution tags"
  | .other => .text 500 "Internal Service Error. Please Contact the System Admin."

def wwwAuthenticate : RepoResponse ε :=
  ⟨401, [("WWW-Authenticate", "Basic realm=\"Pkgly\"")], .text "Unauthorized"⟩

abbrev Handled (ε : Type) := Except NPMRegistryError (RepoResponse ε)

/-- `impl From<Option<StorageFile>> for RepoResponse`. -/
def fileResponse : Except StorageError (Option StorageFile) → Handled ε
  | .ok (some file) => .ok ⟨200, [], .file file⟩
  | .ok none => .ok (.text 404 "File not found")
  | .error _ => .error .other

/-- `impl From<Option<StorageFileMeta<FileType>>> for RepoResponse`. -/
def fileMetaResponse : Except StorageError (Option (Option ℕ)) → Handled ε
  | .ok (some size) => .ok ⟨200, [], .fileMeta size⟩
  | .ok none => .ok (.text 404 "File not found")
  | .error _ => .error .other

def jsonResponse (body : Body ε) : RepoResponse ε := ⟨200, [("Content-Type", "application/json")], body⟩

def projectNotFound (name : String) : RepoResponse ε :=
  .text 404 ("Project " ++ name ++ " not found in repository")

def loadTags (format : TagFormat) (s : NpmContent) (projectId : ℕ) : Tags :=
  match s.tags projectId with
  | some tags => tags
  | none => legacyDistTags format
      (((s.catalogue.getAllVersions projectId).map (·.version)).filter isStableCandidate)

/-! ### Routes -/

def validVersions (fromValue : String → Option (PublishVersion ε)) (s : NpmContent) (projectId : ℕ) :
    List (String × PublishVersion ε) :=
  (s.catalogue.getAllVersions projectId).filterMap fun v =>
    (v.extra.bind fromValue).map fun data => (v.version, data)

/-- The arm `GetPackageInfo` of `handle_get`. -/
def getPackageInfo (format : TagFormat) (fromValue : String → Option (PublishVersion ε))
    (c : Collation) (s : NpmContent) (name : String) : RepoResponse ε :=
  match s.catalogue.findByProjectKey c name with
  | none => projectNotFound name
  | some project =>
    let distTags := loadTags format s project.id
    let valid := validVersions fromValue s project.id
    let versions := valid.foldl (fun versions (version, data) => versions.put version data)
      ( ∅ : Store String (PublishVersion ε))
    let newest := valid.head?.bind fun (version, _) => versions.get version
    jsonResponse (.package ⟨project.key, project.key,
      ((distTags.get "latest").bind versions.get).or newest, distTags, versions⟩)

/-- The arm `VersionInfo` of `handle_get`. -/
def getVersionInfo (format : TagFormat) (c : Collation) (s : NpmContent) (name version : String) :
    RepoResponse ε :=
  match s.catalogue.findByProjectKey c name with
  | none => projectNotFound name
  | some project =>
    let version := ((loadTags format s project.id).get version).getD version
    match s.catalogue.findByVersionAndProject version project.id with
    | none => .text 404 ("Version " ++ version ++ " not found in project " ++ name)
    | some row =>
      match row.extra with
      | some metadata => jsonResponse (.version metadata)
      | none => .text 500 "Invalid NPM Project"

/-- The arm `GetTar` of `handle_get`. -/
def getTarball (c : Collation) (s : NpmContent) (name version file : String) : Handled ε :=
  match resolveTarballPath c s.catalogue name version file with
  | none => .ok ⟨404, [], .empty⟩
  | some path => fileResponse (s.storage.openFile path)

/-- The arm `GetTar` of `handle_head`. -/
def headTarball (c : Collation) (s : NpmContent) (name version file : String) : Handled ε :=
  match resolveTarballPath c s.catalogue name version file with
  | none => .ok ⟨404, [], .empty⟩
  | some path => fileMetaResponse (s.storage.getFileInformation path)

/-- `handle_dist_tags` of a `GET` request. -/
def handleDistTags (db : AccessTables) (format : TagFormat) (c : Collation)
    (registry : NPMHostedRegistry) (auth : RepositoryAuthentication) (s : NpmContent) (name : String)
    (tag : Option String) : Handled ε :=
  if !canReadTags db auth registry.authConfig.enabled registry.visibility registry.id then
    .ok (.text 401 "Unauthorized")
  else
    match s.catalogue.findByProjectKey c name with
    | none => .ok (.text 404 "Project not found")
    | some project =>
      match tag with
      | none => .ok (jsonResponse (.distTags (loadTags format s project.id)))
      | some _ => .error .invalidDistTags

def handleGet (db : AccessTables) (format : TagFormat)
    (fromValue : String → Option (PublishVersion ε)) (c : Collation) (registry : NPMHostedRegistry)
    (auth : RepositoryAuthentication) (s : NpmContent) (path : StoragePath) : Handled ε :=
  match parseTagPath format path.toString' with
  | some (name, tag) => handleDistTags db format c registry auth s name tag
  | none =>
    match GetPath.tryFrom format.toNpmFormat path with
    | .error e => .ok e.intoResponse
    | .ok (.getPackageInfo name) => .ok (getPackageInfo format fromValue c s name)
    | .ok (.versionInfo name version) => .ok (getVersionInfo format c s name version)
    | .ok (.getTar name version file) => getTarball c s name version file
    | .ok .registryBase => .ok (.text 404 "Not Found")
    | .ok .search => .ok (.text 404 "Not Found")

def handleHead (db : AccessTables) (format : TagFormat)
    (fromValue : String → Option (PublishVersion ε)) (c : Collation) (registry : NPMHostedRegistry)
    (auth : RepositoryAuthentication) (s : NpmContent) (path : StoragePath) : Handled ε :=
  match GetPath.tryFrom format.toNpmFormat path with
  | .ok (.getTar name version file) => headTarball c s name version file
  | _ => (handleGet db format fromValue c registry auth s path).map fun response =>
      { response with body := .empty }

/-! ### The dispatcher -/

def isNpmLoginPath (path : StoragePath) : Bool :=
  startsWith "-/user/org.couchdb.user:" path.toString' || path.toString' == "-/v1/login"

def shouldRequireAuth (config : RepositoryAuthConfig)
    (isReadOperation isNpmLogin isNpmProxyLike : Bool) : Bool :=
  if isNpmLogin then false
  else if isReadOperation && isNpmProxyLike then false
  else if config.enabled then true else !isReadOperation

def handleRepoRequestCore (db : AccessTables) (format : TagFormat)
    (fromValue : String → Option (PublishVersion ε)) (c : Collation) (registry : NPMHostedRegistry)
    (auth : RepositoryAuthentication) (s : NpmContent) (method : ReadMethod) (path : StoragePath) :
    RepoResponse ε :=
  if !registry.isActive then .text 403 "Repository is disabled"
  else
    let requiresAuth := anonymousScopeDenied auth registry.id ||
      shouldRequireAuth registry.authConfig true (isNpmLoginPath path) false
    if requiresAuth && !auth.isAuthenticated then wwwAuthenticate
    else
      let response := match method with
        | .get => handleGet db format fromValue c registry auth s path
        | .head => handleHead db format fromValue c registry auth s path
      match response with
      | .ok response => response
      | .error e => e.intoResponse

end Pkgly.Npm
