import Mathlib.Data.List.DropRight
import Pkgly.Algorithm.Resumption
import Pkgly.Nuget.Utils
import Pkgly.Storage.DynStorage

/-!
# The NuGet proxy

`handleRead` as a computation by atomic steps (`Algorithm/Resumption`) on what a proxy shares
between its requests: the cached files, and the resources of the upstream once they are known.  A
step may fail.

The URLs of the `url` crate and the JSON texts of `serde_json` are parameters (`ProxyEnvironment`),
and so is the upstream, which answers one URL in one way.  The rows about cached packages are not
modelled: no read looks at them, and a failure to write them is only logged.
-/

namespace Pkgly.Nuget

/-! ### Texts in documents -/

def stripPrefix (pat s : String) : Option String :=
  if startsWith pat s then some (String.ofList (s.toList.drop pat.toList.length)) else none

mutual

def mapTexts (f : String → String) : Json → Json
  | .str text => .str (f text)
  | .arr items => .arr (mapItems f items)
  | .obj members => .obj (mapMembers f members)
  | value => value

def mapItems (f : String → String) : List Json → List Json
  | [] => []
  | item :: items => mapTexts f item :: mapItems f items

def mapMembers (f : String → String) : List (String × Json) → List (String × Json)
  | [] => []
  | (name, value) :: members => (name, mapTexts f value) :: mapMembers f members

end

mutual

def texts : Json → List String
  | .str text => [text]
  | .arr items => itemTexts items
  | .obj members => memberTexts members
  | _ => []

def itemTexts : List Json → List String
  | [] => []
  | item :: items => texts item ++ itemTexts items

def memberTexts : List (String × Json) → List String
  | [] => []
  | (_, value) :: members => texts value ++ memberTexts members

end

structure ProxyResources where
  flatcontainerBase : String
  registrationBase : String
  publishBase : Option String
deriving DecidableEq

/-- What `rewrite_upstream_urls` makes of a text. -/
def rewriteText (resources : ProxyResources) (localBase text : String) : String :=
  match stripPrefix resources.registrationBase text with
  | some stripped => localBase ++ "/v3/registration" ++ stripped
  | none =>
    match stripPrefix resources.flatcontainerBase text with
    | some stripped => localBase ++ "/v3/flatcontainer" ++ stripped
    | none =>
      match resources.publishBase with
      | none => text
      | some publishBase =>
        match stripPrefix publishBase text with
        | some stripped => localBase ++ "/api/v2/package" ++ stripped
        | none => text

def rewriteUpstreamUrls (resources : ProxyResources) (localBase : String) (value : Json) : Json :=
  mapTexts (rewriteText resources localBase) value

/-! ### The service index -/

inductive ReadError
  | database
  | invalidPackage (message : String)
  | url
  | http
  | json
  | utf8
  | storage (error : StorageError)
  /-- A storage operation fails for a reason of its own. -/
  | io
deriving DecidableEq

/-- `trim_end_matches('/')`. -/
def trimEndSlashes (text : String) : String :=
  String.ofList (text.toList.rdropWhile (· == '/'))

def matchesType (needle : String) : Json → Bool
  | .str value => containsText needle value
  | .arr values => (values.filterMap Json.string).any (containsText needle)
  | _ => false

/-- The `@id` of the first resource of a type. -/
def findBase (needle : String) (resources : List Json) : Option String :=
  resources.findSome? fun resource =>
    match getMember "@type" resource, getText "@id" resource with
    | some resourceType, some resourceId =>
      if matchesType needle resourceType then some (trimEndSlashes resourceId) else none
    | _, _ => none

def readResources (value : Json) : Except ReadError ProxyResources :=
  match getMember "resources" value with
  | some (.arr resources) =>
    match findBase "PackageBaseAddress" resources with
    | none => .error (.invalidPackage "NuGet upstream missing PackageBaseAddress")
    | some flatcontainerBase =>
      match findBase "RegistrationsBaseUrl" resources with
      | none => .error (.invalidPackage "NuGet upstream missing RegistrationsBaseUrl")
      | some registrationBase =>
        .ok ⟨flatcontainerBase, registrationBase, findBase "PackagePublish" resources⟩
  | _ => .error (.invalidPackage "NuGet upstream service index missing resources")

def serviceIndex (baseUrl : String) (allowPublish : Bool) : Json :=
  let resource (path type : String) : Json :=
    .obj [("@id", .str (baseUrl ++ path)), ("@type", .str type)]
  let resources := [resource "/v3/flatcontainer" "PackageBaseAddress/3.0.0",
    resource "/v3/registration" "RegistrationsBaseUrl"]
  let publish := if allowPublish then [resource "/api/v2/package" "PackagePublish/2.0.0"] else []
  .obj [("version", .str "3.0.0"), ("resources", .arr (resources ++ publish))]

/-! ### The proxy -/

structure UpstreamResponse where
  status : ℕ
  /-- What is read of the body. -/
  body : Option Bytes
  /-- What is read of it as a text. -/
  text : Option String

structure ProxyEnvironment (U : Type) where
  serde : SerdeJson
  /-- `to_vec` of a `Value`. -/
  print : Json → Bytes
  /-- `Url::parse`. -/
  parseUrl : String → Option U
  /-- Pushes to the segments of the path, if the URL has any. -/
  pushSegments : U → List String → Option U
  /-- `Display` of a status. -/
  displayStatus : ℕ → String
  /-- What the upstream answers. -/
  get : U → UpstreamResponse
  upstreamUrl : String
  storageName : String
  name : String
  isHttps : Bool
  appUrl : String

structure ProxyState where
  storage : DynStorage
  resources : Option ProxyResources

/-- A request; its path was accepted from outside. -/
structure ProxyRequest where
  path : StoragePath
  method : Method
  /-- The `Host` header, if it is a text. -/
  host : Option String
  /-- What `can_read_with_auth` says. -/
  canRead : Bool
  accepted : ∃ text, StoragePath.fromUntrusted text = some path

/-- `RepoResponse`, as far as a read is answered with it. -/
inductive ReadResponse
  | other (response : Response)
  | file (file : StorageFile)
  | unauthorized

inductive ProxyStep (U : Type)
  | database
  | resources
  | storage
  /-- The upstream is asked for a URL. -/
  | fetch (url : U)

variable {U : Type}

/-- The requests to a proxy; a step fails when the choice says so. -/
abbrev ProxyM (U : Type) :=
  Resumption (ProxyStep U) Bool (ProxyState × ProxyRequest) ReadError

def storageStep {α : Type} (f : DynStorage → Except StorageError (α × DynStorage)) : ProxyM U α :=
  .act .storage fun fails t =>
    if fails then (.error .io, t)
    else match f t.1.storage with
      | .error e => (.error (.storage e), t)
      | .ok (a, storage) => (.ok a, { t.1 with storage }, t.2)

/-- `read_storage_bytes`. -/
def readBytes (path : StoragePath) : ProxyM U (Option Bytes) :=
  storageStep fun st => (st.openFile path).map fun file =>
    match file with
    | some (.file content) => (some content, st)
    | _ => (none, st)

/-- `save_file`. -/
def saveBytes (content : Bytes) (path : StoragePath) : ProxyM U Unit :=
  storageStep fun st => (st.saveFile content path).map fun st => ((), st)

/-- `open_file` and the response with the file. -/
def openResponse (path : StoragePath) : ProxyM U ReadResponse :=
  storageStep fun st => (st.openFile path).map fun file =>
    match file with
    | some file => (.file file, st)
    | none => (.other ⟨404, .text "File not found"⟩, st)

def xmlResponse (method : Method) (xml : String) : Response :=
  if method = .head then ⟨200, .empty⟩ else ⟨200, .text xml⟩

def refusal (response : UpstreamResponse) : Option Response :=
  if response.status = 404 then some ⟨404, .text "Package not found"⟩
  else if !isSuccess response.status then some ⟨502, .text "Upstream NuGet request failed"⟩
  else none

section Reads

variable (env : ProxyEnvironment U)

/-- `base_path`, by `base_repository_path`. -/
def ProxyEnvironment.basePath : String := "/repositories/" ++ env.storageName ++ "/" ++ env.name

def externalRepositoryBase (host : Option String) : String :=
  let scheme := if env.isHttps then "https" else "http"
  match host with
  | some host => scheme ++ "://" ++ host ++ env.basePath
  | none =>
    if env.appUrl ≠ "" then trimEndSlashes env.appUrl ++ env.basePath
    else scheme ++ "://localhost:6742" ++ env.basePath

def send (url : U) : ProxyM U UpstreamResponse :=
  .act (.fetch url) fun fails t => if fails then (.error .http, t) else (.ok (env.get url), t)

/-- `Url::parse`. -/
def parseUrl (text : String) : ProxyM U U :=
  match env.parseUrl text with
  | none => throw .url
  | some url => pure url

def readJson (response : UpstreamResponse) : ProxyM U Json :=
  match response.body.bind env.serde.value with
  | none => throw .http
  | some value => pure value

def upstreamServiceIndexUrl : ProxyM U U := do
  let url ← parseUrl env env.upstreamUrl
  if endsWith "/index.json" env.upstreamUrl then pure url
  else
    match env.pushSegments url ["v3", "index.json"] with
    | none => throw (.invalidPackage "Invalid upstream URL")
    | some url => pure url

def discoverResources : ProxyM U ProxyResources := do
  let cached ← .act .resources fun _ t => (.ok t.1.resources, t)
  match cached with
  | some resources => pure resources
  | none =>
    let url ← upstreamServiceIndexUrl env
    let response ← send env url
    if !isSuccess response.status then
      throw (.invalidPackage
        ("NuGet upstream service index returned " ++ env.displayStatus response.status))
    else
      let value ← readJson env response
      match readResources value with
      | .error e => throw e
      | .ok resources =>
        .act .resources fun _ t =>
          (.ok resources, { t.1 with resources := some resources }, t.2)

def fetchJson (url : U) (path : StoragePath) (method : Method) (localBase : String)
    (rewriteRegistration : Bool) : ProxyM U ReadResponse := do
  match ← readBytes path with
  | some bytes =>
    match env.serde.value bytes with
    | none => throw .json
    | some value => pure (.other (jsonResponse method value))
  | none =>
    let response ← send env url
    match refusal response with
    | some answer => pure (.other answer)
    | none =>
      let value ← readJson env response
      let value ← if rewriteRegistration then do
          let resources ← discoverResources env
          pure (rewriteUpstreamUrls resources localBase value)
        else pure value
      saveBytes (env.print value) path
      pure (.other (jsonResponse method value))

def fetchBinary (url : U) (path : StoragePath) : ProxyM U ReadResponse := do
  let found ← storageStep fun st => (st.fileExists path).map fun found => (found, st)
  if found then
    -- the bytes are only indexed
    let _ ← readBytes path
    openResponse path
  else
    let response ← send env url
    match refusal response with
    | some answer => pure (.other answer)
    | none =>
      match response.body with
      | none => throw .http
      | some bytes =>
        saveBytes bytes path
        openResponse path

def fetchNuspec (url : U) (path : StoragePath) (method : Method) : ProxyM U ReadResponse := do
  match ← readBytes path with
  | some bytes =>
    match fromUtf8 bytes with
    | none => throw .utf8
    | some xml => pure (.other (xmlResponse method xml))
  | none =>
    let response ← send env url
    match refusal response with
    | some answer => pure (.other answer)
    | none =>
      match response.text with
      | none => throw .http
      | some text =>
        saveBytes (intoBytes text) path
        pure (.other (xmlResponse method text))

def isServiceIndexPath (path : String) : Bool :=
  path == "" || path == "v3" || path == "v3/" || path == "v3/index.json" || path == "index.json"

inductive Route
  | json (url : String) (rewriteRegistration : Bool)
  | binary (url : String)
  | nuspec (url : String)
  | unsupported
deriving DecidableEq

/-- The cases of `handle_read` after the service index. -/
def route (resources : ProxyResources) (path : String) : Route :=
  let parts := pieces '/' path
  let part (i : ℕ) : String := parts.getD i ""
  if 4 ≤ parts.length ∧ part 0 = "v3" ∧ part 1 = "flatcontainer" ∧ part 3 = "index.json" then
    .json (resources.flatcontainerBase ++ "/" ++ part 2 ++ "/index.json") false
  else if parts.length = 5 ∧ part 0 = "v3" ∧ part 1 = "flatcontainer" ∧
      endsWith ".nupkg" (part 4) then
    .binary (resources.flatcontainerBase ++ "/" ++ part 2 ++ "/" ++ part 3 ++ "/" ++ part 4)
  else if parts.length = 5 ∧ part 0 = "v3" ∧ part 1 = "flatcontainer" ∧
      endsWith ".nuspec" (part 4) then
    .nuspec (resources.flatcontainerBase ++ "/" ++ part 2 ++ "/" ++ part 3 ++ "/" ++ part 4)
  else if parts.length = 4 ∧ part 0 = "v3" ∧ part 1 = "registration" ∧ part 3 = "index.json" then
    .json (resources.registrationBase ++ "/" ++ part 2 ++ "/index.json") true
  else if parts.length = 4 ∧ part 0 = "v3" ∧ part 1 = "registration" ∧
      endsWith ".json" (part 3) then
    .json (resources.registrationBase ++ "/" ++ part 2 ++ "/" ++ part 3) true
  else .unsupported

def handleRead (request : ProxyRequest) : ProxyM U ReadResponse := do
  let canRead ← .act .database fun fails t =>
    if fails then (.error .database, t) else (.ok request.canRead, t)
  if !canRead then pure .unauthorized
  else
    let path := request.path.toString'
    let localBase := externalRepositoryBase env request.host
    if isServiceIndexPath path then
      pure (.other (jsonResponse request.method (serviceIndex localBase false)))
    else
      let resources ← discoverResources env
      match route resources path with
      | .json url rewriteRegistration =>
        let url ← parseUrl env url
        fetchJson env url request.path request.method localBase rewriteRegistration
      | .binary url =>
        let url ← parseUrl env url
        fetchBinary env url request.path
      | .nuspec url =>
        let url ← parseUrl env url
        fetchNuspec env url request.path request.method
      | .unsupported => pure (.other ⟨404, .text ("Unsupported NuGet path: " ++ path)⟩)

/-- Requests at the same time, as far as `R` selects them. -/
def proxyProgram (R : ProxyRequest → Prop) :
    Program ProxyState
      (Resumption.Thread (ProxyStep U) Bool ProxyState ProxyRequest ReadError ReadResponse)
      {request : ProxyRequest // R request} Bool :=
  Resumption.program fun request => ⟨request.1, handleRead env request.1⟩

end Reads

end Pkgly.Nuget
