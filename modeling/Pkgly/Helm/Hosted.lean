import Pkgly.Algorithm.Resumption
import Pkgly.Database.Project
import Pkgly.Docker.Handlers

/-!
# Publishing to a hosted Helm repository

The three ways to publish a chart, each a computation by atomic steps (`Algorithm/Resumption`): one
operation of the storage or one statement a step, any of which may fail.

* `handlePutChart`: `PUT` of a chart or of a provenance file;
* `handleChartmuseumUpload`: a form with a chart and perhaps its provenance file;
* `handlePutOci`: a manifest push, which the Docker handler stores before the chart is recorded.

The reader of chart archives and of forms is a library (`HelmLibraries`), as is `serde_json`.  Of a
row the model keeps the publisher and the `extra` data; the rows of `package_files`, times, release
types and webhooks are left out, but not the failures of their statements.
-/

namespace Pkgly.Helm

open Docker

/-! ### Data -/

inductive HelmRepositoryMode
  | http
  | oci
deriving DecidableEq

structure HelmRepositoryConfig where
  overwrite : Bool
  /-- In seconds. -/
  indexCacheTtl : Option ℕ
  mode : HelmRepositoryMode
  publicBaseUrl : Option String
  maxChartSize : Option ℕ
  maxFileCount : Option ℕ
deriving DecidableEq

structure HelmChartMetadata where
  name : String
  version : String
  /-- The other fields of `Chart.yaml`, with their values as texts. -/
  fields : List (String × String)
deriving DecidableEq

structure ParsedChartArchive where
  metadata : HelmChartMetadata
  digest : String
  sizeBytes : ℕ
deriving DecidableEq

structure ChartValidationOptions where
  maxChartSize : ℕ
  maxFileCount : ℕ
deriving DecidableEq

structure HelmChartVersionExtra where
  metadata : HelmChartMetadata
  digest : String
  canonicalPath : String
  sizeBytes : ℕ
  provenance : Bool
  provenancePath : Option String
  ociManifestDigest : Option String
  ociConfigDigest : Option String
  ociRepository : Option String
deriving DecidableEq

structure HelmVersion where
  publisher : Option ℤ
  /-- The `extra` of the `VersionData`; `some none` is JSON that is no `HelmChartVersionExtra`. -/
  extra : Option (Option HelmChartVersionExtra)
deriving DecidableEq

structure ChartArtifactPath where
  name : String
  version : String
  isProvenance : Bool
deriving DecidableEq

def ChartArtifactPath.canonicalStoragePath (artifact : ChartArtifactPath) : StoragePath :=
  ((StoragePath.ofString "charts/").push artifact.name).push
    (artifact.name ++ "-" ++ artifact.version ++
      if artifact.isProvenance then ".tgz.prov" else ".tgz")

def rsplitOnce (ch : Char) (text : List Char) : Option (List Char × List Char) :=
  (splitOnce [ch] text.reverse).map fun parts => (parts.2.reverse, parts.1.reverse)

def parseChartArtifact (path : StoragePath) : Option ChartArtifactPath :=
  if path.isDirectory || path.toString' == "" then none
  else
    let segments := path.toString'.toList.splitOn '/'
    match segments.reverse with
    | [] => none
    | file :: dirs =>
      let expected? : Option (Option (List Char)) := match dirs.reverse with
        | [] => some none
        | [charts] => if charts = "charts".toList then some none else none
        | [charts, dir] => if charts = "charts".toList then some (some dir) else none
        | _ => none
      let trimmed? := match stripSuffix ".tgz.prov".toList file with
        | some rest => some (true, rest)
        | none => (stripSuffix ".tgz".toList file).map fun rest => (false, rest)
      match expected?, trimmed? with
      | some expected, some (isProvenance, trimmed) =>
        match rsplitOnce '-' trimmed with
        | some (name, version) =>
          if name = [] || version = [] || expected.any (· != name) then none
          else some ⟨String.ofList name, String.ofList version, isProvenance⟩
        | none => none
      | _, _ => none

inductive HelmRepositoryError
  | chartParse (message : String)
  | chartAlreadyExists (name version : String)
  | chartNotFound (message : String)
  | invalidRequest (message : String)
  | storage (error : Option StorageError)
  | database
  | serde
  | docker (error : Docker.DockerError)
deriving DecidableEq

/-- The answers to a request that fails without an error, or succeeds. -/
inductive HelmResponse
  | methodNotAllowed
  | unauthorized
  | unsupportedMediaType
  | notFound
  /-- The handler does not return. -/
  | unanswered
  | accepted (created : Bool)
deriving DecidableEq

structure FormField where
  name : String
  fileName : Option String
  /-- `none` when the part cannot be read. -/
  content : Option Bytes
deriving DecidableEq

structure HelmLibraries where
  sha : Sha256
  serde : SerdeJson
  /-- The metadata in an archive, or what is wrong with it. -/
  chartMetadata : ChartValidationOptions → Bytes → Except String HelmChartMetadata
  collation : Collation

def HelmLibraries.parseChartArchive (lib : HelmLibraries) (options : ChartValidationOptions)
    (bytes : Bytes) : Except HelmRepositoryError ParsedChartArchive :=
  if options.maxChartSize < bytes.length then
    .error (.chartParse ("Chart archive exceeds configured size limit (" ++
      toString options.maxChartSize ++ " bytes)"))
  else match lib.chartMetadata options bytes with
    | .error message => .error (.chartParse message)
    | .ok metadata => .ok ⟨metadata, lib.sha.digest bytes, bytes.length⟩

/-! ### Steps -/

structure CachedIndex where
  content : String
  generatedAt : ℕ
  /-- The address and the catalogue state that it has been rendered for, which no code reads. -/
  baseUrl : String
  state : ℕ
deriving DecidableEq

structure HelmHosted where
  config : HelmRepositoryConfig
  name : String
  storage : DynStorage
  catalogue : Catalogue HelmVersion
  indexCache : Option CachedIndex

inductive HelmStep
  | storage
  | database
  | memory
  | invalidate
  /-- The cached index is looked at, or replaced. -/
  | lookIndex
  | storeIndex
  /-- A request starts, or has been answered with an error or without one. -/
  | start
  | answer (failed : Bool)
deriving DecidableEq

/-- The requests to a Helm repository; a step fails when the choice says so. -/
abbrev HelmM := Resumption HelmStep Bool HelmHosted HelmRepositoryError

def readConfig : HelmM HelmRepositoryConfig := .act .memory fun _ s => (.ok s.config, s)

def readName : HelmM String := .act .memory fun _ s => (.ok s.name, s)

def saveFile (content : Bytes) (path : StoragePath) : HelmM Unit :=
  .act .storage fun fails s =>
    if fails then (.error (.storage none), s)
    else match s.storage.saveFile content path with
      | .error e => (.error (.storage (some e)), s)
      | .ok storage => (.ok (), { s with storage })

def deleteFile (path : StoragePath) : HelmM Unit :=
  .act .storage fun fails s =>
    if fails then (.error (.storage none), s)
    else match s.storage.deleteFile path with
      | .error e => (.error (.storage (some e)), s)
      | .ok (storage, _) => (.ok (), { s with storage })

def openFile (path : StoragePath) : HelmM (Option StorageFile) :=
  .act .storage fun fails s =>
    if fails then (.error (.storage none), s)
    else match s.storage.openFile path with
      | .error e => (.error (.storage (some e)), s)
      | .ok file => (.ok file, s)

/-- A statement, with its answer and the rows it leaves; `none` when it fails. -/
def statement {α : Type} (f : Catalogue HelmVersion → Option (α × Catalogue HelmVersion)) :
    HelmM α :=
  .act .database fun fails s =>
    if fails then (.error .database, s)
    else match f s.catalogue with
      | none => (.error .database, s)
      | some (a, catalogue) => (.ok a, { s with catalogue })

def query {α : Type} (f : Catalogue HelmVersion → α) : HelmM α :=
  statement fun db => some (f db, db)

def invalidateIndexCache : HelmM Unit :=
  .act .invalidate fun _ s => (.ok (), { s with indexCache := none })

def ofExcept {α : Type} : Except HelmRepositoryError α → HelmM α
  | .ok a => pure a
  | .error e => throw e

/-! ### Rows -/

def HelmRepositoryConfig.chartValidationOptions (config : HelmRepositoryConfig) :
    ChartValidationOptions :=
  ⟨config.maxChartSize.getD (10 * 1024 * 1024), config.maxFileCount.getD 1024⟩

/-- The `UPDATE` of `UpdateProjectVersion::update`, whose publisher is always set. -/
def updateVersion (db : Catalogue HelmVersion) (id : ℕ) (row : HelmVersion) :
    Catalogue HelmVersion :=
  { db with versions := db.versions.map fun v => if v.id = id then { v with extra := row } else v }

/-- `UpdateProjectVersion::update`: the row is looked up again for `package_files`. -/
def update (id : ℕ) (row : HelmVersion) : HelmM Unit := do
  statement fun db => some ((), updateVersion db id row)
  statement fun db => if db.versions.any (·.id = id) then some ((), db) else none

def insert (c : Collation) (projectId : ℕ) (version path : String) (row : HelmVersion) :
    HelmM Unit := do
  statement fun db => (db.insertVersion c projectId version path row).map ((), ·)
  -- the row of `package_files`
  statement fun db => some ((), db)

def HelmVersion.chartExtra (row : HelmVersion) :
    Except HelmRepositoryError (Option HelmChartVersionExtra) :=
  match row.extra with
  | none => .ok none
  | some none => .error .serde
  | some (some extra) => .ok (some extra)

/-- `build_version_extra`, with what `persist_chart_archive` takes over from the row that is
there. -/
def versionExtra (parsed : ParsedChartArchive) (canonicalPath : StoragePath)
    (existing : Option HelmChartVersionExtra) : HelmChartVersionExtra where
  metadata := parsed.metadata
  digest := parsed.digest
  canonicalPath := canonicalPath.toString'
  sizeBytes := parsed.sizeBytes
  provenance := (existing.map (·.provenance)).getD false
  provenancePath := existing.bind (·.provenancePath)
  ociManifestDigest := existing.bind (·.ociManifestDigest)
  ociConfigDigest := existing.bind (·.ociConfigDigest)
  ociRepository := existing.bind (·.ociRepository)

def findOrCreateProject (lib : HelmLibraries) (name : String) : HelmM DBProject := do
  match ← query fun db => db.findByProjectKey lib.collation name with
  | some project => pure project
  | none =>
    statement fun db =>
      (db.insertProject lib.collation name ("charts/" ++ name ++ "/")).map fun r => (r.2, r.1)

/-- The row of a version that is there or not, in `persist_chart_archive`: whether it is new. -/
def writeVersion (lib : HelmLibraries) (parsed : ParsedChartArchive) (artifact : ChartArtifactPath)
    (canonicalPath : StoragePath) (userId : ℤ) (project : DBProject) :
    Option (DBProjectVersion HelmVersion) → HelmM Bool
  | some existing => do
    let extra ← ofExcept existing.extra.chartExtra
    let config ← readConfig
    if config.overwrite then
      update existing.id ⟨some userId, some (some (versionExtra parsed canonicalPath extra))⟩
      pure false
    else throw (.chartAlreadyExists parsed.metadata.name artifact.version)
  | none => do
    insert lib.collation project.id artifact.version canonicalPath.toString'
      ⟨some userId, some (some (versionExtra parsed canonicalPath none))⟩
    pure true

def persistChartArchive (lib : HelmLibraries) (parsed : ParsedChartArchive)
    (artifact : ChartArtifactPath) (canonicalPath : StoragePath) (userId : ℤ) : HelmM Bool := do
  let project ← findOrCreateProject lib parsed.metadata.name
  let existing ← query fun db => db.findByVersionAndProject artifact.version project.id
  writeVersion lib parsed artifact canonicalPath userId project existing

/-- `update_provenance_extra`. -/
def HelmChartVersionExtra.withProvenance (extra : HelmChartVersionExtra)
    (canonicalPath : StoragePath) : HelmChartVersionExtra :=
  { extra with provenance := true, provenancePath := some canonicalPath.toString' }

def HelmVersion.chart (row : HelmVersion) : Except HelmRepositoryError HelmChartVersionExtra :=
  match row.chartExtra with
  | .error e => .error e
  | .ok none => .error (.invalidRequest "missing chart metadata")
  | .ok (some extra) => .ok extra

def found {α : Type} (message : String) : Option α → HelmM α
  | none => throw (.chartNotFound message)
  | some a => pure a

def persistProvenance (lib : HelmLibraries) (artifact : ChartArtifactPath)
    (canonicalPath : StoragePath) (userId : ℤ) : HelmM Unit := do
  let project ← found artifact.name (← query fun db =>
    db.findByProjectKey lib.collation artifact.name)
  let version ← found (artifact.name ++ "@" ++ artifact.version) (← query fun db =>
    db.findByVersionAndProject artifact.version project.id)
  let stored ← ofExcept version.extra.chart
  update version.id ⟨some userId, some (some (stored.withProvenance canonicalPath))⟩

/-! ### Requests -/

def checkArtifact (parsed : ParsedChartArchive) (artifact : ChartArtifactPath)
    (subject : String) : Except HelmRepositoryError Unit :=
  if parsed.metadata.name ≠ artifact.name then
    .error (.invalidRequest ("chart name mismatch: archive declares '" ++ parsed.metadata.name ++
      "' but " ++ subject ++ " '" ++ artifact.name ++ "'"))
  else if parsed.metadata.version ≠ artifact.version then
    .error (.invalidRequest ("chart version mismatch: archive declares '" ++
      parsed.metadata.version ++ "' but " ++ subject ++ " '" ++ artifact.version ++ "'"))
  else .ok ()

def admitArchive (lib : HelmLibraries) (config : HelmRepositoryConfig)
    (artifact : ChartArtifactPath) (subject : String) (bytes : Bytes) :
    Except HelmRepositoryError ParsedChartArchive :=
  let options := config.chartValidationOptions
  if options.maxChartSize < bytes.length then
    .error (.invalidRequest ("chart archive exceeds configured size limit (" ++
      toString options.maxChartSize ++ " bytes)"))
  else match lib.parseChartArchive options bytes with
    | .error e => .error e
    | .ok parsed => (checkArtifact parsed artifact subject).map fun _ => parsed

/-- `handle_put_chart`; `userId?` is what the write permission gives. -/
def handlePutChart (lib : HelmLibraries) (userId? : Option ℤ) (artifact : ChartArtifactPath)
    (bytes : Bytes) : HelmM HelmResponse := do
  let config ← readConfig
  if config.mode ≠ .http then pure .methodNotAllowed
  else match userId? with
    | none => pure .unauthorized
    | some userId =>
      let canonicalPath := artifact.canonicalStoragePath
      if artifact.isProvenance then
        saveFile bytes canonicalPath
        persistProvenance lib artifact canonicalPath userId
        invalidateIndexCache
        pure (.accepted false)
      else
        let parsed ← ofExcept (admitArchive lib config artifact "path expects" bytes)
        saveFile bytes canonicalPath
        let created ← tryCatch (persistChartArchive lib parsed artifact canonicalPath userId)
          fun e => do
            tryCatch (deleteFile canonicalPath) fun _ => pure ()
            throw e
        invalidateIndexCache
        pure (.accepted created)

abbrev FormFile := ChartArtifactPath × Bytes

def formFile (label : String) (provenance : Bool) (field : FormField) :
    Except HelmRepositoryError FormFile :=
  match field.fileName with
  | none => .error (.invalidRequest (label ++ " upload missing filename"))
  | some fileName =>
    match parseChartArtifact (.ofString fileName) with
    | none => .error (.invalidRequest ("unable to parse " ++ label ++ " filename"))
    | some artifact =>
      if provenance && !artifact.isProvenance then
        .error (.invalidRequest "provenance filename must end with .tgz.prov")
      else match field.content with
        | none => .error (.invalidRequest "failed to read field")
        | some content => .ok (artifact, content)

/-- The last chart and the last provenance file of a form; a field that is `none` cannot be
read. -/
def readForm : List (Option FormField) → Option FormFile → Option FormFile →
    Except HelmRepositoryError (Option FormFile × Option FormFile)
  | [], chart, prov => .ok (chart, prov)
  | none :: _, _, _ => .error (.invalidRequest "failed to read field")
  | some field :: fields, chart, prov =>
    if field.name = "chart" then
      match formFile "chart" false field with
      | .error e => .error e
      | .ok file => readForm fields (some file) prov
    else if field.name = "prov" then
      match formFile "provenance" true field with
      | .error e => .error e
      | .ok file => readForm fields chart (some file)
    else readForm fields chart prov

def admitForm (lib : HelmLibraries) (config : HelmRepositoryConfig)
    (fields : List (Option FormField)) :
    Except HelmRepositoryError (FormFile × ParsedChartArchive × Option FormFile) :=
  match readForm fields none none with
  | .error e => .error e
  | .ok (none, _) => .error (.invalidRequest "multipart upload missing chart field")
  | .ok (some chart, prov) =>
    (admitArchive lib config chart.1 "filename is" chart.2).map fun parsed => (chart, parsed, prov)

def storeProvenance (lib : HelmLibraries) (userId : ℤ) : Option FormFile → HelmM Unit
  | none => pure ()
  | some (artifact, content) => do
    saveFile content artifact.canonicalStoragePath
    persistProvenance lib artifact artifact.canonicalStoragePath userId

/-- What `handle_chartmuseum_upload` does with a form. -/
def storeForm (lib : HelmLibraries) (userId : ℤ) (chart : FormFile) (parsed : ParsedChartArchive)
    (prov : Option FormFile) : HelmM HelmResponse := do
  saveFile chart.2 chart.1.canonicalStoragePath
  let created ←
    persistChartArchive lib parsed chart.1 chart.1.canonicalStoragePath userId
  storeProvenance lib userId prov
  invalidateIndexCache
  pure (.accepted created)

/-- `handle_chartmuseum_upload`; the fields are `none` when the content type has no boundary. -/
def handleChartmuseumUpload (lib : HelmLibraries) (userId? : Option ℤ) (contentType : String)
    (fields? : Option (List (Option FormField))) : HelmM HelmResponse := do
  let config ← readConfig
  if config.mode ≠ .http then pure .methodNotAllowed
  else match userId? with
    | none => pure .unauthorized
    | some userId =>
      if startsWith "multipart/form-data" contentType then
        match fields? with
        | none => throw (.invalidRequest "multipart boundary not found")
        | some fields =>
          ofExcept (admitForm lib config fields) >>= fun form =>
            storeForm lib userId form.1 form.2.1 form.2.2
      else pure .unsupportedMediaType

/-! ### Manifest pushes -/

/-- `parse_manifest_request_path`: the name ends at the first segment `manifests`. -/
def parseManifestRequestPath (path : String) : Option (String × String) :=
  let trimmed := path.toList.dropWhile (· == '/')
  if !"v2/".toList.isPrefixOf trimmed then none
  else
    let segments := (trimmed.splitOn '/').map String.ofList
    let index := segments.findIdx (· == "manifests")
    if index < 2 || segments.length ≤ index + 1 then none
    else
      let repository := String.intercalate "/" ((segments.take index).drop 1)
      let reference := (segments[index + 1]?).getD ""
      if repository = "" || reference = "" then none else some (repository, reference)

structure ManifestPush where
  path : StoragePath
  /-- Where the Docker handler stores it. -/
  repositoryName : String
  reference : String
  routed : route .put (pathParts path) = .manifest repositoryName reference
  userId : Option ℤ
  contentType : Option String
  body : Bytes

def ManifestPush.toPutManifest (push : ManifestPush) : PutManifest :=
  ⟨push.repositoryName, push.reference, push.userId.isSome, push.contentType, push.body⟩

/-- The checks of a manifest; `none` when they do not return. -/
def admitPush (lib : HelmLibraries) (overwrite : Bool) (push : ManifestPush) :
    HelmM (Option (Except DockerError Unit)) :=
  .act .storage fun fails s =>
    if fails then (.error (.storage none), s)
    else (.ok (admitManifest lib.serde ⟨overwrite, false, true, true⟩ s.storage
      push.toPutManifest), s)

/-- The saves of a manifest: also by digest, if this is a tag reference. -/
def storePush (lib : HelmLibraries) (push : ManifestPush) : HelmM Unit := do
  saveFile push.body (manifestPath push.repositoryName push.reference)
  if isDigestReference push.reference then pure ()
  else saveFile push.body (manifestPath push.repositoryName (lib.sha.digest push.body))

/-- `put_manifest` of a Docker repository with the settings of this one: whether the manifest has
been stored; `none` when it does not return. -/
def putManifest (lib : HelmLibraries) (push : ManifestPush) : HelmM (Option Bool) := do
  -- `DockerHosted::load`
  query fun _ => ()
  let config ← readConfig
  if push.userId.isNone then pure (some false)
  else match ← admitPush lib config.overwrite push with
    | none => pure none
    | some (.error e) => throw (.docker e)
    | some (.ok ()) =>
      storePush lib push
      pure (some true)

def readFile (path : StoragePath) (missing directory : String) : HelmM Bytes := do
  match ← openFile path with
  | none => throw (.invalidRequest missing)
  | some (.directory _) => throw (.invalidRequest directory)
  | some (.file content) => pure content

def firstLayer (configDigest : String) :
    List Descriptor → Except HelmRepositoryError (String × String)
  | [] => .error (.invalidRequest "manifest missing chart layer")
  | chart :: _ => .ok (configDigest, chart.digest)

def chartDescriptors : Manifest → Except HelmRepositoryError (String × String)
  | .ociImage image =>
    match image.config with
    | none => .error (.invalidRequest "manifest missing config descriptor")
    | some config => firstLayer config.digest image.layers
  | .dockerV2 image => firstLayer image.config.digest image.layers
  | .ociIndex _ => .error (.invalidRequest "manifest list is not supported for Helm chart uploads")

def objectStoragePath (name kind digest : String) : StoragePath :=
  .ofString (objectPath name kind digest)

def readLayers (lib : HelmLibraries) (repositoryName : String) (manifest : Manifest) :
    HelmM (Bytes × ParsedChartArchive) := do
  let digests ← ofExcept (chartDescriptors manifest)
  let _ ← readFile (objectStoragePath repositoryName "blobs" digests.1)
    ("config blob " ++ digests.1 ++ " missing") "config path refers to directory"
  let chart ← readFile (objectStoragePath repositoryName "blobs" digests.2)
    ("chart blob " ++ digests.2 ++ " missing") "chart blob path refers to directory"
  let config ← readConfig
  let parsed ← ofExcept (lib.parseChartArchive config.chartValidationOptions chart)
  pure (chart, parsed)

/-- A stored manifest, its chart, and the bytes of both; `none` when reading the manifest does not
return. -/
def readChart (lib : HelmLibraries) (path : StoragePath) (repositoryName : String) :
    HelmM (Option (Bytes × Bytes × ParsedChartArchive)) := do
  let bytes ← readFile path ("manifest " ++ path.toString' ++ " missing after upload")
    "manifest path refers to directory"
  match Manifest.fromBytes lib.serde bytes MediaType.ociImageManifest with
  | none => pure none
  | some none => throw (.invalidRequest "invalid manifest")
  | some (some manifest) =>
    let chart ← readLayers lib repositoryName manifest
    pure (some (bytes, chart))

def cleanupManifestEntries (repositoryName reference manifestDigest : String) : HelmM Unit := do
  deleteFile (objectStoragePath repositoryName "manifests" reference)
  deleteFile (objectStoragePath repositoryName "manifests" manifestDigest)

/-- The chart file of a push is deleted again, in the mode `http`. -/
def deleteChart (http : Bool) (canonicalPath : StoragePath) : HelmM Unit :=
  if http then tryCatch (deleteFile canonicalPath) fun _ => pure () else pure ()

/-- What `process_helm_manifest_push` does when the chart of a push is not recorded. -/
def undoPush (http : Bool) (canonicalPath : StoragePath)
    (repositoryName reference manifestDigest : String) : HelmRepositoryError → HelmM Unit
  | .chartAlreadyExists _ _ => do
    deleteChart http canonicalPath
    invalidateIndexCache
  | e => do
    deleteChart http canonicalPath
    cleanupManifestEntries repositoryName reference manifestDigest
    throw e

/-- The chart of a push is also stored as a file, in the mode `http`. -/
def saveChart (http : Bool) (chart : Bytes) (canonicalPath : StoragePath) : HelmM Unit :=
  if http then saveFile chart canonicalPath else pure ()

def pushedChartPath (http : Bool) (path : StoragePath) (parsed : ParsedChartArchive) :
    StoragePath :=
  if http then .ofString ("charts/" ++ parsed.metadata.name ++ "/" ++ parsed.metadata.name ++ "-" ++
    parsed.metadata.version ++ ".tgz")
  else path

def recordPush (lib : HelmLibraries) (path : StoragePath) (repositoryName reference : String)
    (userId : ℤ) (bytes chart : Bytes) (parsed : ParsedChartArchive) : HelmM Unit := do
  let config ← readConfig
  let http := config.mode == .http
  let canonicalPath := pushedChartPath http path parsed
  saveChart http chart canonicalPath
  tryCatch (persistChartArchive lib parsed ⟨parsed.metadata.name, parsed.metadata.version, false⟩
      canonicalPath userId >>= fun _ => invalidateIndexCache)
    (undoPush http canonicalPath repositoryName reference (lib.sha.digest bytes))

/-- `process_helm_manifest_push`; `none` when it does not return. -/
def processHelmManifestPush (lib : HelmLibraries) (path : StoragePath) (userId : ℤ) :
    HelmM (Option Unit) :=
  match parseManifestRequestPath path.toString' with
  | none => pure (some ())
  | some (repositoryName, reference) =>
    if isDigestReference reference then pure (some ())
    else do
      match ← readChart lib (.ofString path.toString') repositoryName with
      | none => pure none
      | some (bytes, chart, parsed) =>
        recordPush lib (.ofString path.toString') repositoryName reference userId bytes chart parsed
        pure (some ())

def handlePutOci (lib : HelmLibraries) (push : ManifestPush) : HelmM HelmResponse := do
  let config ← readConfig
  if config.mode ≠ .oci then pure .notFound
  else match ← putManifest lib push with
    | none => pure .unanswered
    | some false => pure .unauthorized
    | some true =>
      match push.userId with
      | none => pure (.accepted true)
      | some userId =>
        match ← processHelmManifestPush lib push.path userId with
        | none => pure .unanswered
        | some () => pure (.accepted true)

/-! ### All requests -/

inductive PublishRequest
  | putChart (userId : Option ℤ) (artifact : ChartArtifactPath) (body : Bytes)
  | chartmuseumUpload (userId : Option ℤ) (contentType : String)
    (fields : Option (List (Option FormField)))
  | putOci (push : ManifestPush)

def publish (lib : HelmLibraries) : PublishRequest → HelmM HelmResponse
  | .putChart userId artifact body => handlePutChart lib userId artifact body
  | .chartmuseumUpload userId contentType fields =>
    handleChartmuseumUpload lib userId contentType fields
  | .putOci push => handlePutOci lib push

end Pkgly.Helm
