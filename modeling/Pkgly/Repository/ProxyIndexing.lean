import Pkgly.Python.Simple
import Pkgly.Repository.Packages

/-!
# The catalogue of a proxy repository

`DatabaseProxyIndexer` keeps a row for the cached files of a version: `record_cached_artifact`
replaces the row, `evict_cached_artifact` deletes it.  What a proxy records and evicts for a file
follows from the path of the file; Go, Python and Ruby proxies read their paths in different ways.
The rows of Ruby proxies are deleted by the path of the file (`delete_cached_package_paths`).

A cached file is named by the components of its path.  The times, the digests and the references of
Docker manifests are not modelled.
-/

namespace Pkgly.Proxy

structure ProxyArtifactMeta where
  packageName : String
  packageKey : String
  version : Option String
  cachePath : String
  size : Option ℕ
  upstreamUrl : Option String
deriving DecidableEq

structure ProxyArtifactKey where
  packageKey : String
  version : Option String
  cachePath : Option String
deriving DecidableEq

inductive ProxyIndexingError
  | missingVersion (package : String)
  | missingPackageKey
  | missingCachePath
  | database
deriving DecidableEq

/-! ### Rows -/

/-- The rows with what is recorded of the file in them. -/
abbrev ProxyCatalogue := Catalogue ProxyArtifactMeta

/-- `path.trim().trim_matches('/')`. -/
def trimSlashes (path : String) : List Char :=
  Packages.trimEndSlashes ((trim path).dropWhile (· == '/'))

def normalizeVersionPath (c : Collation) (path packageKey version : String) : String :=
  match trimSlashes path with
  | [] => packageKey ++ "/" ++ version
  | trimmed => c.toLowercase (String.ofList trimmed)

def ensureProject (c : Collation) (db : ProxyCatalogue) (artifact : ProxyArtifactMeta) :
    Option (ProxyCatalogue × DBProject) :=
  match db.findByProjectKey c artifact.packageKey with
  | some project => some (db, project)
  | none => db.insertProject c artifact.packageKey (artifact.packageKey ++ "/")

def deleteVersionByPath (c : Collation) (db : ProxyCatalogue) (path : String) : ProxyCatalogue :=
  match trimSlashes path with
  | [] => db
  | trimmed =>
    { db with versions := db.versions.filter fun v =>
        c.lowerPath v.path != c.toLowercase (String.ofList trimmed) }

def recordCachedArtifact (c : Collation) (db : ProxyCatalogue) (artifact : ProxyArtifactMeta) :
    ProxyCatalogue × Except ProxyIndexingError Unit :=
  match artifact.version with
  | none => (db, .error (.missingVersion artifact.packageName))
  | some version =>
    if trim artifact.packageKey = [] then (db, .error .missingPackageKey)
    else if trim artifact.cachePath = [] then (db, .error .missingCachePath)
    else
      match ensureProject c db artifact with
      | none => (db, .error .database)
      | some (db, project) =>
        let db := match db.findByVersionAndProject version project.id with
          | some existing => db.deleteVersion existing.id
          | none => db
        match db.insertVersion c project.id version
          (normalizeVersionPath c artifact.cachePath artifact.packageKey version) artifact with
        | some db => (db, .ok ())
        | none => (db, .error .database)

def evictCachedArtifact (c : Collation) (db : ProxyCatalogue) (key : ProxyArtifactKey) :
    ProxyCatalogue × Except ProxyIndexingError Unit :=
  if trim key.packageKey = [] then (db, .error .missingPackageKey)
  else
    match db.findByProjectKey c key.packageKey with
    | none => (db, .ok ())
    | some project =>
      match key.version with
      | some version =>
        ({ db with versions := db.versions.filter fun v =>
            !(v.projectId == project.id && v.version == version) }, .ok ())
      | none =>
        match key.cachePath with
        | some path => (deleteVersionByPath c db path, .ok ())
        | none => (db, .ok ())

def recordProxyCacheHit (c : Collation) (db : ProxyCatalogue) :
    Option ProxyArtifactMeta → ProxyCatalogue × Except ProxyIndexingError Unit
  | some artifact => recordCachedArtifact c db artifact
  | none => (db, .ok ())

def evictProxyCacheEntry (c : Collation) (db : ProxyCatalogue) :
    Option ProxyArtifactKey → ProxyCatalogue × Except ProxyIndexingError Unit
  | some key => evictCachedArtifact c db key
  | none => (db, .ok ())

/-! ### Paths -/

def pathText (file : List String) : String := (StoragePath.mk file (some false)).toString'

def goProxyComponents (file : List String) : Option (String × String) :=
  if file.length < 4 ∨ file.head? ≠ some "go-proxy-cache" then none
  else
    match file.findIdx? (· == "@v") with
    | none => none
    | some versionIdx =>
      if versionIdx ≤ 1 ∨ file.length ≤ versionIdx + 1 then none
      else
        let module := String.intercalate "/" ((file.take versionIdx).drop 1)
        if module = "" then none else file.getLast?.map fun name => (module, name)

def goProxyVersionFromFilename (fileName : String) : Option String :=
  match [".zip", ".mod", ".info"].findSome? fun suffix => stripSuffix suffix.toList fileName.toList with
  | none | some [] => none
  | some version => some (String.ofList version)

def goProxyMetaFromCachePath (file : List String) (size : ℕ) : Option ProxyArtifactMeta :=
  match goProxyComponents file with
  | none => none
  | some (module, fileName) =>
    if !endsWith ".zip" fileName then none
    else (goProxyVersionFromFilename fileName).map fun version =>
      ⟨module, module, some version, pathText file, some size, none⟩

def goProxyKeyFromCachePath (file : List String) : Option ProxyArtifactKey :=
  match goProxyComponents file with
  | none => none
  | some (module, fileName) => (goProxyVersionFromFilename fileName).map fun version =>
      ⟨module, some version, some (pathText file)⟩

def hyphenSplits : List Char → List (List Char × List Char)
  | [] => []
  | ch :: s => (if ch = '-' then [([], s)] else []) ++
      (hyphenSplits s).map fun (left, right) => (ch :: left, right)

def pythonProxySuffixes : List String :=
  [".tar.gz", ".tar.bz2", ".tar.xz", ".tgz", ".tar", ".zip", ".whl"]

def stripPythonSuffix (fileName : String) : List Char :=
  (pythonProxySuffixes.findSome? fun suffix => stripSuffix suffix.toList fileName.toList).getD
    fileName.toList

def pythonProxyNameVersion (fileName : String) : Option (String × String) :=
  (hyphenSplits (stripPythonSuffix fileName)).findSome? fun (name, remainder) =>
    let trimmed := match remainder with
      | 'v' :: rest | 'V' :: rest => rest
      | rest => rest
    if !trimmed.head?.any Char.isDigit || name.isEmpty then none
    else some (String.ofList name, String.ofList (trimmed.takeWhile (· != '-')))

def pythonProxyMetaFromCachePath (file : List String) (size : ℕ) (upstreamUrl : Option String) :
    Option ProxyArtifactMeta :=
  (file.getLast?.bind pythonProxyNameVersion).map fun (name, version) =>
    ⟨name, Python.normalizePackageName name, some version, pathText file, some size, upstreamUrl⟩

def pythonProxyKeyFromCachePath (file : List String) : Option ProxyArtifactKey :=
  (file.getLast?.bind pythonProxyNameVersion).map fun (name, version) =>
    ⟨Python.normalizePackageName name, some version, some (pathText file)⟩

structure ParsedGemFileName where
  name : String
  version : String
  platform : Option String

def parseGemFileName (fileName : String) : Option ParsedGemFileName :=
  (stripSuffix ".gem".toList fileName.toList).bind fun base =>
    (hyphenSplits base).reverse.findSome? fun (left, right) =>
      let (version, platform) := match splitOnce ['-'] right with
        | some (version, platform) => (version, some platform)
        | none => (right, none)
      if left.isEmpty || right.isEmpty || platform == some [] || !version.head?.any Char.isDigit then
        none
      else some ⟨String.ofList left, String.ofList version, platform.map String.ofList⟩

def rubyProxyMetaFromCachePath (c : Collation) (file : List String) (size : ℕ) :
    Option ProxyArtifactMeta :=
  if startsWith "gems/" (pathText file) then
    (parseGemFileName (String.ofList ((pathText file).toList.drop 5))).map fun parsed =>
      ⟨parsed.name, c.toLowercase parsed.name,
        some (match parsed.platform with
          | some platform => parsed.version ++ "-" ++ platform
          | none => parsed.version),
        pathText file, some size, none⟩
  else none

/-! ### Events -/

inductive ProxyKind
  | go
  | python
  | ruby
deriving DecidableEq

def metaFromCachePath (kind : ProxyKind) (c : Collation) (file : List String) (size : ℕ)
    (upstreamUrl : Option String) : Option ProxyArtifactMeta :=
  match kind with
  | .go => goProxyMetaFromCachePath file size
  | .python => pythonProxyMetaFromCachePath file size upstreamUrl
  | .ruby => rubyProxyMetaFromCachePath c file size

def evictRows (kind : ProxyKind) (c : Collation) (db : ProxyCatalogue) (file : List String) :
    ProxyCatalogue :=
  match kind with
  | .go => (evictProxyCacheEntry c db (goProxyKeyFromCachePath file)).1
  | .python => (evictProxyCacheEntry c db (pythonProxyKeyFromCachePath file)).1
  | .ruby =>
    Packages.deleteVersionRecordsByPath c db
      (pathText file :: (Packages.deriveVersionPath (pathText file) .exactPath).toList) false

structure ProxyCache where
  catalogue : ProxyCatalogue
  recorded : List (List String)

inductive CacheEvent
  | record (file : List String) (size : ℕ) (upstreamUrl : Option String)
  | evict (file : List String)
deriving DecidableEq

def cacheStep (kind : ProxyKind) (c : Collation) (s : ProxyCache) : CacheEvent → Option ProxyCache
  | .record file size upstreamUrl =>
    let artifact := metaFromCachePath kind c file size upstreamUrl
    some ⟨(recordProxyCacheHit c s.catalogue artifact).1,
      if artifact.isSome then file :: s.recorded.filter (· ≠ file) else s.recorded⟩
  | .evict file => some ⟨evictRows kind c s.catalogue file, s.recorded.filter (· ≠ file)⟩

end Pkgly.Proxy
