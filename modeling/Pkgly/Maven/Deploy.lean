import Pkgly.Algorithm.Effect
import Pkgly.Authentication.Permissions
import Pkgly.Database.Project
import Pkgly.Maven.Reads
import Pkgly.Storage.Local.FileMeta

/-!
# Deploying to a hosted Maven repository

`handle_put` with the three ways of storing a file: a POM is read, parsed and saved, and then
recorded in the catalogue, whose errors are only logged; any other file is written beside its path
and moved there on a local disk, and saved at once on S3.  Every query may fail
(`DeployRequest.answers`), and a request that fails keeps what it has done.

Precomputed hashes, traces and webhooks are left out.
-/

namespace Pkgly.Maven

open Local (RepositoryMeta)

/-- `enum Policy`. -/
inductive Policy
  | release
  | snapshot
  | mixed
deriving DecidableEq

structure MavenPushRules where
  pushPolicy : Policy
  yankingAllowed : Bool
  allowOverwrite : Bool
  /-- If a project exists the user must be a member of the project to push. -/
  mustBeProjectMember : Bool
  requirePkglyDeploy : Bool
  mustUseAuthTokenForPush : Bool
deriving DecidableEq

/-- `ReleaseType`, as far as versions are given one. -/
inductive ReleaseType
  | stable
  | beta
  | alpha
  | snapshot
  | releaseCandidate
deriving DecidableEq

/-- `release_type_from_version`.  No character outside ASCII is lowered to one of these. -/
def ReleaseType.fromVersion (version : String) : ReleaseType :=
  let version := toAsciiLowercase version
  if containsText "snapshot" version then .snapshot
  else if containsText "beta" version then .beta
  else if containsText "alpha" version then .alpha
  else if containsText ".rc" version then .releaseCandidate
  else .stable

/-- What a row of `project_versions` records of a Maven version. -/
structure MavenVersion where
  releaseType : ReleaseType
  publisher : Option Int
  description : Option String
deriving DecidableEq

structure DBProjectMember where
  projectId : ℕ
  userId : Int
  canWrite : Bool
  canManage : Bool
deriving DecidableEq

structure MavenState where
  storage : DynStorage
  metas : Store (List String) RepositoryMeta
  catalogue : Catalogue MavenVersion
  members : List DBProjectMember

structure Pom where
  groupId : Option String
  artifactId : String
  version : Option String
  description : Option String

/-- What the handlers are given: the parser of POMs, and the texts of the database. -/
structure MavenLibraries where
  parsePom : String → Option Pom
  collation : Collation
  /-- What an error prints. -/
  display : String → String

inductive DeployQuery
  | getMeta
  | projectInfo
  | findProject
  | insertProject
  | insertMember
  | putMeta
  | findVersion
  | insertVersion
  | updateVersion
  | packageFile
deriving DecidableEq

/-- A `PUT` request, with what happens while it is served. -/
structure DeployRequest where
  path : StoragePath
  authentication : RepositoryAuthentication
  /-- What `get_pkgly_deploy_header` makes of the headers. -/
  deployHeader : Except Unit (Option (String × ℕ))
  chunks : List Bytes
  /-- The body breaks off after these chunks. -/
  breaksOff : Bool
  /-- The name of the temporary file. -/
  newUuid : String
  answers : DeployQuery → Bool

inductive DeployError
  | badRequest
  | xmlDeserialize
  | missingFromPom (field : String)
  | sqlx
  | storage (error : StorageError)
  | io (message : String)
deriving DecidableEq

def DeployError.status : DeployError → ℕ
  | xmlDeserialize => 400
  | _ => 500

abbrev DeployIO := EStateM DeployError MavenState

def query (request : DeployRequest) (q : DeployQuery) : DeployIO Unit :=
  if request.answers q then pure () else throw .sqlx

def onStorage {α : Type} (operation : DynStorage → Except StorageError (DynStorage × α)) :
    DeployIO α := fun st =>
  match operation st.storage with
  | .ok (storage, a) => .ok a { st with storage }
  | .error e => .error (.storage e) st

def hasExtension (path : StoragePath) (extension : String) : Bool :=
  path.trailingSlash != some true && (path.components.getLast?.any (endsWith extension))

def parsePomBytes (lib : MavenLibraries) (pom : Bytes) : Except DeployError Pom :=
  match fromUtf8 pom with
  | none => .error .badRequest
  | some text =>
    match lib.parsePom text with
    | none => .error .xmlDeserialize
    | some pom => .ok pom

def bodyAsBytes (request : DeployRequest) : Except DeployError Bytes :=
  if request.breaksOff then .error .badRequest else .ok request.chunks.flatten

/-! ### Storing a file -/

/-- `save_file`, which tells whether the file is new. -/
def saveFile (content : Bytes) (path : StoragePath) : DeployIO Bool :=
  onStorage fun storage =>
    (storage.saveFile content path).map fun saved =>
      (saved, (storage.objects.get path.components).isNone)

def tempPath (request : DeployRequest) : StoragePath :=
  .ofString (request.path.toString' ++ ".nr-upload-" ++ request.newUuid)

/-- `delete_file`, without regard to its result. -/
def deleteTemp (path : StoragePath) : DeployIO Unit := fun st =>
  match st.storage.deleteFile path with
  | .ok (storage, _) => .ok () { st with storage }
  | .error _ => .ok () st

def streamUploadToLocalStorage (request : DeployRequest) : DeployIO Bool := do
  let created := !(← onStorage fun storage =>
    (storage.fileExists request.path).map fun found => (storage, found))
  let temp := tempPath request
  onStorage fun storage => (storage.appendFile request.chunks.flatten temp).map (·, ())
  if request.breaksOff then
    deleteTemp temp
    throw .badRequest
  let moved ← onStorage fun storage => storage.moveFile temp request.path
  if !moved then
    deleteTemp temp
    throw (.io "Temp file disappeared before rename")
  return created

/-- The file is stored; a POM is parsed before, and returned. -/
def storeFile (lib : MavenLibraries) (request : DeployRequest) : DeployIO (Bool × Option Pom) := do
  if hasExtension request.path "pom" then
    let body ← MonadExcept.ofExcept (bodyAsBytes request)
    let pom ← MonadExcept.ofExcept (parsePomBytes lib body)
    return (← saveFile body request.path, some pom)
  else if (← get).storage.backend == .local then
    return (← streamUploadToLocalStorage request, none)
  else
    let body ← MonadExcept.ofExcept (bodyAsBytes request)
    return (← saveFile body request.path, none)

/-! ### Recording a POM -/

/-- `get_repository_meta` and `put_repository_meta`, with a change of the metadata in between. -/
def updateMeta (request : DeployRequest) (directory : StoragePath)
    (change : RepositoryMeta → RepositoryMeta) : DeployIO Unit := do
  query request .getMeta
  let old := ((← get).metas.get directory.components).getD .default
  query request .putMeta
  modify fun st => { st with metas := st.metas.put directory.components (change old) }

def findOrCreateProject (lib : MavenLibraries) (request : DeployRequest) (projectKey : String)
    (versionDirectory : StoragePath) (publisher : Option Int) : DeployIO (ℕ × StoragePath) := do
  query request .findProject
  match (← get).catalogue.findByProjectKey lib.collation projectKey with
  | some project => return (project.id, .ofString project.path)
  | none =>
    let projectDirectory := versionDirectory.parent
    query request .insertProject
    match (← get).catalogue.insertProject lib.collation projectKey projectDirectory.toString' with
    | none => throw .sqlx
    | some (catalogue, project) =>
      modify fun st => { st with catalogue }
      if let some publisher := publisher then
        query request .insertMember
        modify fun st => { st with members := st.members ++ [⟨project.id, publisher, true, true⟩] }
      return (project.id, projectDirectory)

def addOrUpdateVersion (lib : MavenLibraries) (request : DeployRequest)
    (versionDirectory : StoragePath) (projectId : ℕ) (publisher : Option Int) (pom : Pom) :
    DeployIO Unit := do
  let some version := pom.version | throw (.missingFromPom "version")
  let releaseType := ReleaseType.fromVersion version
  query request .findVersion
  let versionId ←
    match (← get).catalogue.findByVersionAndProject version projectId with
    | some row =>
      query request .updateVersion
      modify fun st => { st with
        catalogue := { st.catalogue with
          versions := st.catalogue.versions.map fun v =>
            if v.id = row.id then
              { v with extra := { v.extra with releaseType, description := pom.description } }
            else v } }
      query request .packageFile
      pure row.id
    | none =>
      query request .insertVersion
      match (← get).catalogue.insertVersion lib.collation projectId version
          versionDirectory.toString' ⟨releaseType, publisher, pom.description⟩ with
      | none => throw .sqlx
      | some catalogue =>
        let newId := (← get).catalogue.nextId
        modify fun st => { st with catalogue }
        query request .packageFile
        pure newId
  updateMeta request versionDirectory fun old =>
    { old with projectId := some projectId, projectVersionId := some versionId }

def postPomUploadInner (lib : MavenLibraries) (request : DeployRequest) (publisher : Option Int)
    (pom : Pom) : DeployIO Unit := do
  let some groupId := pom.groupId | throw (.missingFromPom "groupId")
  let versionDirectory := request.path.parent
  let (projectId, projectDirectory) ← findOrCreateProject lib request
    (groupId ++ ":" ++ pom.artifactId) versionDirectory publisher
  updateMeta request projectDirectory fun old => { old with projectId := some projectId }
  addOrUpdateVersion lib request versionDirectory projectId publisher pom

/-- `post_pom_upload`: an error is only logged. -/
def postPomUpload (lib : MavenLibraries) (request : DeployRequest) (publisher : Option Int)
    (pom : Pom) : DeployIO Unit := fun st =>
  match postPomUploadInner lib request publisher pom st with
  | .ok _ st => .ok () st
  | .error _ st => .ok () st

/-! ### Requests -/

namespace RepoResponse

def unauthorized : RepoResponse := .other 401 [] "Unauthorized"

def requireAuthToken : RepoResponse :=
  .other 401 [] "Authentication Token is required for this repository."

def requirePkglyDeploy : RepoResponse :=
  .other 400 [] "This repository requires Pkgly Deploy to push"

def unsupportedMethod (method repositoryType : String) : RepoResponse :=
  .other 405 [] ("Method " ++ method ++ " is not supported for repository type " ++ repositoryType)

/-- `HeaderValue::from_str` takes visible ASCII and tabs. -/
def isHeaderValue (value : String) : Bool :=
  value.toList.all fun c => 32 ≤ c.toNat && c.toNat < 127 || c == '\t'

def putResponse (display : String → String) (created : Bool) (location : String) : RepoResponse :=
  if isHeaderValue location then
    .other (if created then 201 else 204) [("Content-Location", location)] ""
  else .other 500 [] ("Internal Error: " ++ display "InvalidHeaderValue")

end RepoResponse

def hasAuthToken : RepositoryAuthentication → Bool
  | .authToken .. => true
  | .basic (some _) _ => true
  | .virtualRepository _ inner => hasAuthToken inner
  | _ => false

structure HostedNames where
  storageName : String
  repositoryName : String

def traceProject (request : DeployRequest) : DeployIO Unit := do
  query request .getMeta
  if let some found := (← get).metas.get request.path.parent.components then
    if found.projectVersionId.isSome || found.projectId.isSome then
      query request .projectInfo

def standardMavenDeploy (lib : MavenLibraries) (names : HostedNames) (rules : MavenPushRules)
    (request : DeployRequest) : DeployIO RepoResponse := do
  let some user := request.authentication.getUser | return .unauthorized
  if rules.requirePkglyDeploy then
    return .requirePkglyDeploy
  traceProject request
  -- the other push rules are not looked at
  let (created, pom) ← storeFile lib request
  let savePath := "/repositories/" ++ names.storageName ++ "/" ++ names.repositoryName ++ "/" ++
    request.path.toString'
  if let some pom := pom then
    postPomUpload lib request (some user.id) pom
  return .putResponse lib.display created savePath

def handlePut (lib : MavenLibraries) (tables : AccessTables) (self : MavenHosted)
    (names : HostedNames) (rules : MavenPushRules) (request : DeployRequest) :
    DeployIO RepoResponse := do
  if rules.mustUseAuthTokenForPush && !hasAuthToken request.authentication then
    return .requireAuthToken
  let some user := request.authentication.getUserIfHasAction tables .write self.id
    | return .unauthorized
  if !user.hasAction tables .write self.id then
    return .forbidden
  match request.deployHeader with
  | .error _ => throw .badRequest
  | .ok none => standardMavenDeploy lib names rules request
  | .ok (some _) => return .unsupportedMethod "PUT" "maven"

/-- The status of a response; a file or its information is answered with 200. -/
def RepoResponse.status : RepoResponse → ℕ
  | .other status _ _ => status
  | _ => 200

end Pkgly.Maven
