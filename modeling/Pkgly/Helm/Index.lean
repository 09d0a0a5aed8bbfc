import Mathlib.Data.List.Dedup
import Mathlib.Data.List.Sort
import Pkgly.Helm.Hosted

/-!
# The index of a Helm repository

`handleGetIndex` answers with the cached index or renders the rows of the versions, with the address
that the request has come to.  Publishes, batch deletions (`deleteChartVersions`) and reloads drop
the cached index.  All of them run at the same time on one `HelmSite`, by atomic steps.

For what is promised of an answer the site keeps the `history` of the rows, which no code reads: the
state that the last dropping of the index has seen (`fresh`), and the last state that a publish or a
deletion has left which has been answered (`floor`).
-/

namespace Pkgly.Helm

/-! ### Rendering -/

structure IndexEntry where
  metadata : HelmChartMetadata
  digest : String
  sizeBytes : ℕ
  urls : List String
  provenance : Bool
deriving DecidableEq

structure IndexRenderConfig where
  httpBaseUrl : String
  includeChartsPrefix : Bool

def IndexRenderConfig.chartDownloadUrl (config : IndexRenderConfig) (name version : String) :
    String :=
  if config.includeChartsPrefix then
    config.httpBaseUrl ++ "/charts/" ++ name ++ "-" ++ version ++ ".tgz"
  else config.httpBaseUrl ++ "/" ++ name ++ "-" ++ version ++ ".tgz"

structure IndexEntryDocument where
  name : String
  version : String
  digest : String
  urls : List String
  provenance : Option String
  fields : List (String × String)
deriving DecidableEq

/-- What the index is given: its texts are those of `serde_yaml`. -/
structure IndexLibraries extends HelmLibraries where
  serdeYaml : ℕ → List (String × List IndexEntryDocument) → Except String String

def withDefault (key value : String) (fields : List (String × String)) :
    List (String × String) :=
  if (fields.lookup key).isSome then fields else fields ++ [(key, value)]

/-- The fields of `Chart.yaml` in the index. -/
def documentFields (fields : List (String × String)) : List (String × String) :=
  withDefault "engine" "gotpl"
    (if fields.lookup "apiVersion" = some "v1" then withDefault "tillerVersion" ">=2.0.0" fields
    else fields)

def IndexEntry.document (config : IndexRenderConfig) (entry : IndexEntry) : IndexEntryDocument where
  name := entry.metadata.name
  version := entry.metadata.version
  digest := entry.digest
  urls := if entry.urls.isEmpty then
    [config.chartDownloadUrl entry.metadata.name entry.metadata.version] else entry.urls
  provenance := if entry.provenance then some "present" else none
  fields := documentFields entry.metadata.fields

/-- `render_index_yaml`: the names in order, with the latest version of each first. -/
def renderIndexYaml (lib : IndexLibraries) (config : IndexRenderConfig) (entries : List IndexEntry)
    (generated : ℕ) : Except HelmRepositoryError String :=
  let documents := entries.map (·.document config)
  let names := (documents.map (·.name)).dedup.insertionSort (· ≤ ·)
  let grouped := names.map fun name =>
    (name, (documents.filter (·.name = name)).insertionSort fun a b => b.version ≤ a.version)
  match lib.serdeYaml generated grouped with
  | .ok yaml => .ok yaml
  | .error message => .error (.invalidRequest ("failed to render Helm index: " ++ message))

/-- The `extra` of the versions, as `fetch_version_metadata` reads them. -/
abbrev IndexRows := List (Option (Option HelmChartVersionExtra))

/-- The query of `fetch_version_metadata`. -/
def indexRows (db : Catalogue HelmVersion) : IndexRows :=
  (db.versions.filter fun v => db.projects.any (·.id = v.projectId)).map (·.extra.extra)

/-- `fetch_version_metadata` of what has been read: rows without `extra` are left out. -/
def readRecords : IndexRows → Except HelmRepositoryError (List HelmChartVersionExtra)
  | [] => .ok []
  | none :: rows => readRecords rows
  | some none :: _ => .error .serde
  | some (some extra) :: rows => (readRecords rows).map (extra :: ·)

def trimEndMatches (ch : Char) (text : List Char) : List Char :=
  (text.reverse.dropWhile (· == ch)).reverse

def trimMatches (ch : Char) (text : List Char) : List Char :=
  trimEndMatches ch (text.dropWhile (· == ch))

/-- An entry of `build_index_entries`. -/
def indexEntry (baseUrl : String) (stored : HelmChartVersionExtra) : IndexEntry where
  metadata := stored.metadata
  digest := stored.digest
  sizeBytes := stored.sizeBytes
  urls := [String.ofList (trimEndMatches '/' baseUrl.toList) ++ "/" ++
    String.ofList (stored.canonicalPath.toList.dropWhile (· == '/'))]
  provenance := stored.provenance

def renderIndex (lib : IndexLibraries) (baseUrl : String) (rows : IndexRows) (generated : ℕ) :
    Except HelmRepositoryError String :=
  match readRecords rows with
  | .error e => .error e
  | .ok records =>
    renderIndexYaml lib ⟨baseUrl, true⟩ (records.map (indexEntry baseUrl)) generated

/-! ### Deletions and reloads -/

def versionPaths (name version : String) : Option HelmChartVersionExtra → List StoragePath
  | none =>
    let file := "charts/" ++ name ++ "/" ++ name ++ "-" ++ version
    [.ofString (file ++ ".tgz"), .ofString (file ++ ".tgz.prov")]
  | some extra =>
    let chart := if extra.canonicalPath = "" then
      "charts/" ++ name ++ "/" ++ name ++ "-" ++ version ++ ".tgz" else extra.canonicalPath
    let oci := match extra.ociRepository with
      | none => []
      | some repository =>
        [objectStoragePath repository "blobs" extra.digest] ++
          (extra.ociConfigDigest.map (objectStoragePath repository "blobs")).toList ++
          [objectStoragePath repository "manifests" version] ++
          (extra.ociManifestDigest.map (objectStoragePath repository "manifests")).toList
    [.ofString chart] ++ (extra.provenancePath.map StoragePath.ofString).toList ++ oci

def deletePaths : List StoragePath → HelmM Unit
  | [] => pure ()
  | path :: paths => do
    deleteFile path
    deletePaths paths

def deleteEmptyProject (project : DBProject) (remaining : ℕ) : HelmM Unit :=
  if remaining = 0 then statement fun db => some ((), db.deleteProject project.id) else pure ()

/-- An entry of `delete_chart_versions`. -/
def deleteEntry (lib : HelmLibraries) (name version : String) : HelmM Unit := do
  let project ← found name (← query fun db => db.findByProjectKey lib.collation name)
  let row ← found (name ++ "@" ++ version)
    (← query fun db => db.findByVersionAndProject version project.id)
  let extra ← ofExcept row.extra.chartExtra
  deletePaths (versionPaths name version extra)
  statement fun db => some ((), { db with
    versions := db.versions.filter fun v => !(v.projectId = project.id && v.version = version) })
  let remaining ← query fun db => db.countVersions project.id
  deleteEmptyProject project remaining

/-- The entries of `delete_chart_versions`, one after another. -/
def deleteEntries (lib : HelmLibraries) : List (String × String) → HelmM Unit
  | [] => pure ()
  | (name, version) :: entries => do
    deleteEntry lib name version
    deleteEntries lib entries

def deleteChartVersions (lib : HelmLibraries) (entries : List (String × String)) : HelmM Unit :=
  if entries.isEmpty then pure ()
  else do
    deleteEntries lib entries
    invalidateIndexCache

/-- `reload`, with what is stored of the repository; the name is replaced before the
configuration. -/
def reload (stored : Option (String × HelmRepositoryConfig)) : HelmM Unit := do
  query fun _ => ()
  match stored with
  | none => pure ()
  | some (name, config) => do
    query fun _ => ()
    .act .memory fun _ s => (.ok (), { s with name })
    .act .memory fun _ s => (.ok (), { s with config })
    invalidateIndexCache

/-! ### The site -/

structure HelmSite where
  hosted : HelmHosted
  storageName : String
  /-- In nanoseconds. -/
  now : ℕ
  /-- What the query of the index would have read, the last one being what it reads now. -/
  history : List IndexRows
  fresh : ℕ
  floor : ℕ

def HelmSite.load (hosted : HelmHosted) (storageName : String) (now : ℕ) : HelmSite :=
  ⟨{ hosted with indexCache := none }, storageName, now, [indexRows hosted.catalogue], 0, 0⟩

structure IndexRequest where
  /-- What `has_read_access_auth` answers. -/
  allowed : Bool
  query : Option String
  host : Option String
  forwardedProto : Option String
  scheme : Option String
deriving DecidableEq

inductive SiteRequest
  | index (request : IndexRequest)
  | publish (request : PublishRequest)
  | delete (entries : List (String × String))
  | reload (stored : Option (String × HelmRepositoryConfig))
  | elapse (time : ℕ)

structure HelmTask where
  request : SiteRequest
  baseUrl : String
  ttl : Option ℕ
  /-- The state of the rows that it has read. -/
  fetched : ℕ
  /-- The `floor` when it has started. -/
  floor : ℕ
  /-- The last state of the rows that it has written. -/
  written : Option ℕ

abbrev SiteM := Resumption HelmStep Bool (HelmSite × HelmTask) HelmRepositoryError

def record (label : HelmStep) (t : HelmSite × HelmTask) (hosted : HelmHosted) :
    HelmSite × HelmTask :=
  if indexRows hosted.catalogue = indexRows t.1.hosted.catalogue then
    (if label = .invalidate then { t.1 with hosted, fresh := t.1.history.length - 1 }
    else { t.1 with hosted }, t.2)
  else ({ t.1 with hosted, history := t.1.history ++ [indexRows hosted.catalogue] },
    { t.2 with written := some t.1.history.length })

def onSite {α : Type} (m : HelmM α) : SiteM α := m.zoom (fun t => t.1.hosted) record

def answered {α : Type} (m : HelmM α) : SiteM (Option String) :=
  let done (failed : Bool) : SiteM (Option String) := .act (.answer failed) fun _ t =>
    (.ok none, ({ t.1 with floor := max t.1.floor (t.2.written.getD 0) }, t.2))
  tryCatch (onSite m >>= fun _ => done false) fun e => done true >>= fun _ => throw e

/-! ### Requests for the index -/

/-- The index is not to be taken from the cache. -/
def forceRefresh (query : Option String) : Bool :=
  query.any fun query => (query.toList.splitOn '&').any fun pair =>
    match splitOnce ['='] pair with
    | some (key, value) => key == "force".toList && value == "true".toList
    | none => pair == "force".toList

/-- `compute_repository_base` without a public address. -/
def requestBase (storageName name : String) (request : IndexRequest) : String :=
  let proto := (request.forwardedProto.or request.scheme).getD "http"
  String.ofList (trimMatches ',' proto.toList) ++ "://" ++
    String.ofList (trimMatches '/' (request.host.getD "localhost").toList) ++ "/repositories/" ++
      storageName ++ "/" ++ name

def computeRepositoryBase (request : IndexRequest) : SiteM String := do
  let config ← onSite readConfig
  match config.publicBaseUrl with
  | some url => pure (String.ofList (trimEndMatches '/' url.toList))
  | none => do
    let name ← onSite readName
    .act .memory fun _ t => (.ok (requestBase t.1.storageName name request), t)

/-- `is_expired`, the time to live being in seconds. -/
def CachedIndex.isExpired (cached : CachedIndex) (now : ℕ) : Option ℕ → Bool
  | some ttl => ttl * 1000000000 ≤ now - cached.generatedAt
  | none => true

def lookIndex (ttl : Option ℕ) : SiteM (Option String) :=
  .act .lookIndex fun _ t =>
    (.ok ((t.1.hosted.indexCache.filter fun cached => !cached.isExpired t.1.now ttl).map
      (·.content)), t)

/-- `build_index_entries`, and the rendering of its entries. -/
def buildIndex (lib : IndexLibraries) (baseUrl : String) : SiteM String := do
  let rows : IndexRows ← .act .database fun fails t =>
    if fails then (.error .database, t)
    else (.ok (indexRows t.1.hosted.catalogue),
      (t.1, { t.2 with fetched := t.1.history.length - 1 }))
  let now : ℕ ← .act .memory fun _ t => (.ok t.1.now, t)
  match renderIndex lib baseUrl rows now with
  | .error e => throw e
  | .ok yaml => pure yaml

def storeIndex (content baseUrl : String) : SiteM Unit :=
  .act .storeIndex fun _ t =>
    let cached : CachedIndex := ⟨content, t.1.now, baseUrl, t.2.fetched⟩
    (.ok (), ({ t.1 with hosted := { t.1.hosted with indexCache := some cached } }, t.2))

def refreshIndex (lib : IndexLibraries) (baseUrl : String) : SiteM (Option String) := do
  let yaml ← buildIndex lib baseUrl
  storeIndex yaml baseUrl
  pure (some yaml)

/-- The cached index, unless the request forces a new one. -/
def cachedIndex (query : Option String) (ttl : Option ℕ) : SiteM (Option String) :=
  if forceRefresh query then pure none else lookIndex ttl

/-- What `handle_get_index` does for who may read. -/
def serveIndex (lib : IndexLibraries) (request : IndexRequest) : SiteM (Option String) := do
  let baseUrl ← computeRepositoryBase request
  let config ← onSite readConfig
  .act .memory fun _ t => (.ok (), (t.1, { t.2 with baseUrl, ttl := config.indexCacheTtl }))
  match ← cachedIndex request.query config.indexCacheTtl with
  | some content => pure (some content)
  | none => refreshIndex lib baseUrl

/-- `handle_get_index`; `none` when it does not answer with an index. -/
def handleGetIndex (lib : IndexLibraries) (request : IndexRequest) : SiteM (Option String) := do
  .act .start fun _ t => (.ok (), (t.1, { t.2 with floor := t.1.floor }))
  let config ← onSite readConfig
  if config.mode ≠ .http then pure none
  else do
    onSite (query fun _ => ())
    if request.allowed then serveIndex lib request else pure none

/-! ### All requests -/

def siteRequest (lib : IndexLibraries) : SiteRequest → SiteM (Option String)
  | .index request => handleGetIndex lib request
  | .publish request => answered (publish lib.toHelmLibraries request)
  | .delete entries => answered (deleteChartVersions lib.toHelmLibraries entries)
  | .reload stored => onSite (reload stored) >>= fun _ => pure none
  | .elapse time => .act .memory fun _ t => (.ok none, ({ t.1 with now := t.1.now + time }, t.2))

def siteProgram (lib : IndexLibraries) : Program HelmSite
    (Resumption.Thread HelmStep Bool HelmSite HelmTask HelmRepositoryError (Option String))
    SiteRequest Bool :=
  Resumption.program fun request => ⟨⟨request, "", none, 0, 0, none⟩, siteRequest lib request⟩

end Pkgly.Helm
