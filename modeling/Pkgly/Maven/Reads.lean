import Pkgly.Repository.RepoAuth
import Pkgly.Storage.DynStorage

/-!
# Reading from a Maven repository

`handle_get` and `handle_head` of hosted and of proxy repositories, with the helpers that check a
request: `checkRead` before anything is read, and `indexingCheck` on what has been found.  The
storage, the database and the upstream may fail at every step.

The traces of a request are left out, except for the errors of the queries they make, and so are
the files that a proxy fetches ahead in a task of its own.
-/

namespace Pkgly.Maven

structure MavenProxyRepositoryRoute where
  url : String
  name : Option String
  priority : Option Int
deriving DecidableEq

structure MavenHosted where
  id : Uuid
  visibility : Visibility

structure MavenProxy where
  id : Uuid
  visibility : Visibility
  routes : List MavenProxyRepositoryRoute

inductive MavenRepository
  | hosted (repository : MavenHosted)
  | proxy (repository : MavenProxy)

/-- The row of a repository, as far as it is read when the repository is loaded. -/
structure DBRepository where
  id : Uuid
  visibility : Visibility

inductive MavenRepositoryConfig
  | hosted
  | proxy (routes : List MavenProxyRepositoryRoute)

structure UpstreamResponse where
  isSuccess : Bool
  headers : List (String × String)
  /-- The body, if it arrives. -/
  body : Option Bytes

structure Upstream where
  parsesUrl : String → Bool
  get : String → Option UpstreamResponse
  head : String → Option UpstreamResponse

inductive MavenError
  | sqlx
  | storage (error : StorageError)
  | reqwest
  | proxyIndexing
deriving DecidableEq

structure MavenSite where
  tables : AccessTables
  /-- The row of the configuration `auth`. -/
  authConfig : Uuid → Option RepositoryAuthConfig
  answersAuthConfig : Bool
  answersHasAction : Bool
  answersProject : Bool
  recordsCacheHit : Bool
  upstream : Upstream
  /-- What an error prints. -/
  display : MavenError → String

inductive RepoResponse
  | fileResponse (file : StorageFile)
  /-- The size of a file, or no size for a directory. -/
  | fileMetaResponse (size : Option ℕ)
  /-- The headers that an upstream has sent for a `HEAD`. -/
  | upstreamHead (headers : List (String × String))
  | other (status : ℕ) (headers : List (String × String)) (body : String)
deriving DecidableEq

namespace RepoResponse

def wwwAuthenticate (value : String) : RepoResponse :=
  .other 401 [("WWW-Authenticate", value)] "Unauthorized"

def forbidden : RepoResponse :=
  .other 403 [] "You do not have permission to access this repository"

def indexingNotAllowed : RepoResponse :=
  .other 403 [] "Indexing is not allowed for this repository"

/-- `RepoResponse::from` of a missing file. -/
def notFound : RepoResponse := .other 404 [] "File not found"

end RepoResponse

/-- `get_repository_auth_config`: the setting is enabled unless it is configured. -/
def MavenSite.getRepositoryAuthConfig (site : MavenSite) (id : Uuid) : RepositoryAuthConfig :=
  (site.authConfig id).getD ⟨true⟩

def isNoIdentification : RepositoryAuthentication → Bool
  | .noIdentification => true
  | _ => false

namespace MavenRepository

def load (row : DBRepository) : MavenRepositoryConfig → MavenRepository
  | .hosted => .hosted ⟨row.id, row.visibility⟩
  | .proxy routes => .proxy ⟨row.id, row.visibility, routes⟩

def id : MavenRepository → Uuid
  | hosted repository => repository.id
  | proxy repository => repository.id

def visibility : MavenRepository → Visibility
  | hosted repository => repository.visibility
  -- the field of a proxy is not read
  | proxy _ => .public

def checkRead (self : MavenRepository) (site : MavenSite) (auth : RepositoryAuthentication) :
    Except MavenError (Option RepoResponse) :=
  if !site.answersAuthConfig then .error .sqlx
  else if self.visibility = .private ∨ (site.getRepositoryAuthConfig self.id).enabled then
    if isNoIdentification auth then .ok (some (.wwwAuthenticate "Basic"))
    else if !site.answersHasAction then .error .sqlx
    else if !auth.hasAction site.tables .read self.id then .ok (some .forbidden)
    else .ok none
  else .ok none

/-- `indexing_check`, of a response that may be for a directory. -/
def indexingCheck (self : MavenRepository) (site : MavenSite) (auth : RepositoryAuthentication)
    (isDirectory : Bool) (response : RepoResponse) : Except MavenError RepoResponse :=
  if isDirectory && self.visibility == .hidden then
    if !site.answersHasAction then .error .sqlx
    else if !auth.hasAction site.tables .read self.id then .ok .indexingNotAllowed
    else .ok response
  else .ok response

def isDirectory : StorageFile → Bool
  | .file _ => false
  | .directory _ => true

/-- `indexing_check_option` of an opened file. -/
def indexingCheckFile (self : MavenRepository) (site : MavenSite)
    (auth : RepositoryAuthentication) : Option StorageFile → Except MavenError RepoResponse
  | some file => self.indexingCheck site auth (isDirectory file) (.fileResponse file)
  | none => .ok .notFound

/-- `indexing_check_option` of the information about a file. -/
def indexingCheckMeta (self : MavenRepository) (site : MavenSite)
    (auth : RepositoryAuthentication) : Option (Option ℕ) → Except MavenError RepoResponse
  | some size => self.indexingCheck site auth size.isNone (.fileMetaResponse size)
  | none => .ok .notFound

end MavenRepository

def fromStorage {α : Type} (result : Except StorageError α) : Except MavenError α :=
  result.mapError .storage

def routeUrl (route : MavenProxyRepositoryRoute) (path : StoragePath) : String :=
  let pathAsString := path.toString'
  route.url ++ "/" ++
    match pathAsString.toList with
    | '/' :: rest => String.ofList rest
    | _ => pathAsString

abbrev Handled := DynStorage × Except MavenError RepoResponse

/-- `check_read`, and what follows if it lets the request pass. -/
def MavenRepository.afterCheckRead (self : MavenRepository) (site : MavenSite)
    (auth : RepositoryAuthentication) (storage : DynStorage) (read : Handled) : Handled :=
  match self.checkRead site auth with
  | .error e => (storage, .error e)
  | .ok (some response) => (storage, .ok response)
  | .ok none => read

namespace MavenHosted

/-- What follows when the file has been opened: a file is traced with the project of its
directory. -/
def openedResponse (self : MavenHosted) (site : MavenSite) (auth : RepositoryAuthentication) :
    Except MavenError (Option StorageFile) → Except MavenError RepoResponse
  | .error e => .error e
  | .ok file =>
    if file.any (fun file => !MavenRepository.isDirectory file) && !site.answersProject then
      .error .sqlx
    else (MavenRepository.hosted self).indexingCheckFile site auth file

def handleGet (self : MavenHosted) (site : MavenSite) (storage : DynStorage)
    (auth : RepositoryAuthentication) (path : StoragePath) : Handled :=
  (MavenRepository.hosted self).afterCheckRead site auth storage
    (storage, self.openedResponse site auth (fromStorage (storage.openFile path)))

def handleHead (self : MavenHosted) (site : MavenSite) (storage : DynStorage)
    (auth : RepositoryAuthentication) (path : StoragePath) : Handled :=
  (MavenRepository.hosted self).afterCheckRead site auth storage
    (match fromStorage (storage.getFileInformation path) with
    | .error e => (storage, .error e)
    | .ok file => (storage, (MavenRepository.hosted self).indexingCheckMeta site auth file))

end MavenHosted

namespace MavenProxy

/-- `get_from_proxy`: the first route with an answer is stored and served. -/
def getFromProxy (site : MavenSite) (storage : DynStorage) (path : StoragePath) :
    List MavenProxyRepositoryRoute → DynStorage × Except MavenError (Option StorageFile)
  | [] => (storage, .ok none)
  | route :: routes =>
    let url := routeUrl route path
    if !site.upstream.parsesUrl url then getFromProxy site storage path routes
    else
      match site.upstream.get url with
      | none => getFromProxy site storage path routes
      | some response =>
        if !response.isSuccess then getFromProxy site storage path routes
        else
          match response.body with
          | none => (storage, .error .reqwest)
          | some bytes =>
            match storage.saveFile bytes path with
            | .error e => (storage, .error (.storage e))
            | .ok storage =>
              if !site.recordsCacheHit then (storage, .error .proxyIndexing)
              else (storage, fromStorage (storage.openFile path))

def headFromProxy (site : MavenSite) (path : StoragePath) :
    List MavenProxyRepositoryRoute → Option RepoResponse
  | [] => none
  | route :: routes =>
    let url := routeUrl route path
    if !site.upstream.parsesUrl url then headFromProxy site path routes
    else
      match site.upstream.head url with
      | none => headFromProxy site path routes
      | some response =>
        if response.isSuccess then
          some (.upstreamHead (response.headers.filter fun header =>
            ["content-length", "content-type", "last-modified", "etag"].contains header.1))
        else headFromProxy site path routes

def proxiedResponse (site : MavenSite) : Except MavenError (Option StorageFile) → RepoResponse
  | .ok (some file) => .fileResponse file
  | .ok none => .notFound
  | .error e => .other 503 [] ("Failed to proxy request: " ++ site.display e)

def handleGet (self : MavenProxy) (site : MavenSite) (storage : DynStorage)
    (auth : RepositoryAuthentication) (path : StoragePath) : Handled :=
  (MavenRepository.proxy self).afterCheckRead site auth storage
    (match fromStorage (storage.openFile path) with
    | .error e => (storage, .error e)
    | .ok none =>
      let (storage, file) := getFromProxy site storage path self.routes
      (storage, .ok (proxiedResponse site file))
    | .ok (some file) =>
      (storage, (MavenRepository.proxy self).indexingCheckFile site auth (some file)))

def handleHead (self : MavenProxy) (site : MavenSite) (storage : DynStorage)
    (auth : RepositoryAuthentication) (path : StoragePath) : Handled :=
  (MavenRepository.proxy self).afterCheckRead site auth storage
    (match fromStorage (storage.getFileInformation path) with
    | .error e => (storage, .error e)
    | .ok (some size) =>
      (storage, (MavenRepository.proxy self).indexingCheckMeta site auth (some size))
    | .ok none =>
      match headFromProxy site path self.routes with
      | some response => (storage, .ok response)
      | none => (storage, (MavenRepository.proxy self).indexingCheckMeta site auth none))

end MavenProxy

inductive ReadMethod
  | get
  | head
deriving DecidableEq

def MavenRepository.handleRead (self : MavenRepository) (site : MavenSite) (storage : DynStorage)
    (method : ReadMethod) (auth : RepositoryAuthentication) (path : StoragePath) : Handled :=
  match self, method with
  | hosted repository, .get => repository.handleGet site storage auth path
  | hosted repository, .head => repository.handleHead site storage auth path
  | proxy repository, .get => repository.handleGet site storage auth path
  | proxy repository, .head => repository.handleHead site storage auth path

end Pkgly.Maven
