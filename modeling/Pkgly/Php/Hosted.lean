import Pkgly.Algorithm.Pool
import Pkgly.Algorithm.Reference
import Pkgly.Database.Project
import Pkgly.Storage.DynStorage

/-!
# Uploads to a hosted PHP repository

What an upload does after its archive has been received and checked: the archive is saved, the
metadata file of the package is read, written as a whole to a temporary file and moved into place,
and the project and the version are recorded in the database.  Each operation of the storage and
each statement is one step.

`composer.json` is taken out of the archive by a library, and its fields are kept as JSON texts;
documents are written and read by `serde_json` (`PhpLibraries`).  Authentication comes before the
first step, and webhooks are left out.
-/

namespace Pkgly.Php

/-! ### Packages and documents -/

structure ComposerPackage where
  name : String
  version : String
  /-- The fields of `composer.json`, with their values as JSON texts. -/
  raw : List (String × String)
deriving DecidableEq

/-- An address of this site: what comes before the path, and the path. -/
structure DistUrl where
  base : String
  target : String
deriving DecidableEq

/-- The `dist` of an entry, a zip archive. -/
structure ComposerDist where
  url : DistUrl
  shasum : Option String
deriving DecidableEq

structure ComposerEntry where
  fields : List (String × String)
  name : String
  version : String
  dist : ComposerDist
deriving DecidableEq

abbrev ComposerMetadataDocument := Store String (List ComposerEntry)

def versionEntry (package : ComposerPackage) (distUrl : DistUrl) (sha : Option String) :
    ComposerEntry where
  fields := package.raw.filter fun field => !(["name", "version", "dist"].contains field.1)
  name := toAsciiLowercase package.name
  version := package.version
  dist := ⟨distUrl, sha⟩

def addVersion (doc : ComposerMetadataDocument) (package : ComposerPackage) (distUrl : DistUrl)
    (sha : Option String) : ComposerMetadataDocument :=
  let key := toAsciiLowercase package.name
  doc.put key ((doc.get key).getD [] ++ [versionEntry package distUrl sha])

/-- What the repository is given: the library that reads archives, the digest, `serde_json` on
documents, and the texts of the database. -/
structure PhpLibraries where
  /-- `extract_composer_from_zip`. -/
  extractComposerFromZip : Bytes → Option ComposerPackage
  sha1 : Bytes → String
  toVec : ComposerMetadataDocument → Bytes
  fromSlice : Bytes → Option ComposerMetadataDocument
  fromSlice_toVec : ∀ doc, fromSlice (toVec doc) = some doc
  collation : Collation

/-! ### Paths -/

structure ComposerDistPath where
  vendor : String
  package : String
  version : String
  filename : String
deriving DecidableEq

inductive PhpRepositoryError
  | invalidPath (message : String)
  | invalidComposer (message : String)
deriving DecidableEq

def invalidDistPath (path : StoragePath) : PhpRepositoryError :=
  .invalidPath (path.toString' ++ " is invalid; expected dist/<vendor>/<package>/<version>.zip")

def ComposerDistPath.tryFrom (path : StoragePath) : Except PhpRepositoryError ComposerDistPath :=
  let components := match path.components with
    | "dist" :: rest => rest
    | components => components
  match components with
  | [vendor, package, filename] =>
    match stripSuffix ".zip".toList filename.toList with
    | some version => .ok ⟨vendor, package, String.ofList version, filename⟩
    | none => .error (invalidDistPath path)
  | vendor :: package :: version :: file :: rest =>
    .ok ⟨vendor, package, version, (file :: rest).getLast (List.cons_ne_nil file rest)⟩
  | _ => .error (invalidDistPath path)

inductive PhpHostedPath
  | rootIndex
  | metadata (vendor package : String) (isDev : Bool)
  | dist (dist : ComposerDistPath)
  | unknown
deriving DecidableEq

def trimEndMatches (pat : List Char) : ℕ → List Char → List Char
  | 0, text => text
  | fuel + 1, text =>
    match stripSuffix pat text with
    | some rest => trimEndMatches pat fuel rest
    | none => text

def parsePath (path : StoragePath) : Except PhpRepositoryError PhpHostedPath :=
  match path.components with
  | [] => .ok .rootIndex
  | "p2" :: vendor :: file :: rest =>
    let file := (file :: rest).getLast (List.cons_ne_nil file rest)
    let trimmed := trimEndMatches ".json".toList file.length
      (trimEndMatches "~dev.json".toList file.length file.toList)
    .ok (.metadata vendor (String.ofList trimmed) (endsWith "~dev.json" file))
  | components =>
    if components.length = 1 && components.any (eqIgnoreAsciiCase "packages.json") then
      .ok .rootIndex
    else if components.head? = some "dist" || 3 ≤ components.length then
      (ComposerDistPath.tryFrom path).map .dist
    else .ok .unknown

def validatePackageAgainstPath (package : ComposerPackage) (path : ComposerDistPath) :
    Except PhpRepositoryError Unit :=
  let expectedName := path.vendor ++ "/" ++ path.package
  if toAsciiLowercase package.name ≠ toAsciiLowercase expectedName then
    .error (.invalidComposer ("name/version mismatch: composer.json has " ++ package.name ++
      ", path has " ++ expectedName))
  else if package.version ≠ path.version then
    .error (.invalidComposer ("name/version mismatch: composer.json has " ++ package.version ++
      ", path has " ++ path.version))
  else .ok ()

def metadataPath (vendor package : String) (isDev : Bool) : StoragePath :=
  .ofString ("p2/" ++ toAsciiLowercase vendor ++ "/" ++ toAsciiLowercase package ++
    (if isDev then "~dev" else "") ++ ".json")

def distStoragePath (dist : ComposerDistPath) : StoragePath :=
  .ofString ("dist/" ++ toAsciiLowercase dist.vendor ++ "/" ++ toAsciiLowercase dist.package ++
    "/" ++ dist.filename)

/-- The temporary file of a metadata file. -/
def tmpPath (path : StoragePath) : StoragePath := .ofString (path.toString' ++ ".tmp")

def isDevVersion (version : String) : Bool := containsText "dev" (toAsciiLowercase version)

/-- The metadata file of a package and a version; `none` when the name has no vendor. -/
def metadataPathOf (name version : String) : Option StoragePath :=
  (splitOnce ['/'] name.toList).map fun parts =>
    metadataPath (String.ofList parts.1) (String.ofList parts.2) (isDevVersion version)

/-! ### Addresses -/

structure PhpNames where
  storageName : String
  repositoryName : String

def PhpNames.root (names : PhpNames) : String :=
  "/repositories/" ++ names.storageName ++ "/" ++ names.repositoryName ++ "/"

/-- What comes before the path in `format_dist_url`. -/
def distBase (appUrl : String) (isHttps : Bool) (host : Option String) : String :=
  let scheme := if isHttps then "https" else "http"
  if appUrl ≠ "" then String.ofList (appUrl.toList.reverse.dropWhile (· == '/')).reverse
  else match host with
    | some host => scheme ++ "://" ++ host
    | none => scheme ++ "://localhost:6742"

def formatDistUrl (names : PhpNames) (base : String) (dist : StoragePath) : DistUrl :=
  ⟨base, names.root ++ dist.toString'⟩

/-! ### Uploads -/

/-- An upload whose archive has been received: its path is that of a dist, and its `composer.json`
is one of that dist. -/
structure PhpUpload (lib : PhpLibraries) where
  path : StoragePath
  dist : ComposerDistPath
  content : Bytes
  composer : ComposerPackage
  publisher : Option Int
  base : String
  wellFormed : path.WellFormed
  parsed : parsePath path = .ok (.dist dist)
  extracted : lib.extractComposerFromZip content = some composer
  validated : validatePackageAgainstPath composer dist = .ok ()

namespace PhpUpload

variable {lib : PhpLibraries} (upload : PhpUpload lib)

def name : String := toAsciiLowercase upload.composer.name

def version : String := upload.composer.version

def distPath : StoragePath := distStoragePath upload.dist

def distUrl (names : PhpNames) : DistUrl := formatDistUrl names upload.base upload.distPath

def metadataPath : Option StoragePath := metadataPathOf upload.composer.name upload.version

def updated (names : PhpNames) (read : Option ComposerMetadataDocument) :
    ComposerMetadataDocument :=
  addVersion (read.getD ∅) upload.composer (upload.distUrl names) (some (lib.sha1 upload.content))

end PhpUpload

structure PhpVersion where
  filename : String
  publisher : Option Int
deriving DecidableEq

/-- The storage and the catalogue of the repository, and the packages and versions of the uploads
that have succeeded. -/
structure PhpHosted where
  storage : DynStorage
  catalogue : Catalogue PhpVersion
  log : List (String × String)

/-- The next step of an upload. -/
inductive Status
  | save
  | loadMetadata
  | saveMetadata (read : Option ComposerMetadataDocument)
  | moveMetadata (read : Option ComposerMetadataDocument)
  | findProject
  | insertProject
  | findVersion (projectId : ℕ)
  | insertVersion (projectId : ℕ)
  /-- The row of `package_files`, which is left out. -/
  | indexFile
  | finished
  | failed

structure Process (lib : PhpLibraries) where
  upload : PhpUpload lib
  status : Status

/-- `load_metadata`; `none` is an error. -/
def loadMetadata (lib : PhpLibraries) (st : DynStorage) (path : StoragePath) :
    Option (Option ComposerMetadataDocument) :=
  match st.openFile path with
  | .error _ => none
  | .ok (some (.file bytes)) => (lib.fromSlice bytes).map some
  | .ok _ => some none

namespace Process

variable {lib : PhpLibraries}

def goto (p : Process lib) (status : Status) : Process lib := { p with status }

def onStorage {α : Type} (s : PhpHosted) (p : Process lib) (fails : Bool)
    (result : Except StorageError (DynStorage × α)) (goOn : α → Status) :
    PhpHosted × Process lib :=
  if fails then (s, p.goto .failed)
  else match result with
    | .error _ => (s, p.goto .failed)
    | .ok (storage, a) => ({ s with storage }, p.goto (goOn a))

def finish (s : PhpHosted) (p : Process lib) : PhpHosted × Process lib :=
  ({ s with log := s.log ++ [(p.upload.name, p.upload.version)] }, p.goto .finished)

def next (names : PhpNames) (fails : Bool) (s : PhpHosted) (p : Process lib) :
    Option (PhpHosted × Process lib) :=
  match p.status with
  | .save =>
    some (onStorage s p fails ((s.storage.saveFile p.upload.content p.upload.distPath).map (·, ()))
      fun _ => .loadMetadata)
  | .loadMetadata =>
    match p.upload.metadataPath with
    | none => some (s, p.goto .failed)
    | some path =>
      match loadMetadata lib s.storage path with
      | none => some (s, p.goto .failed)
      | some read => some (s, p.goto (if fails then .failed else .saveMetadata read))
  | .saveMetadata read =>
    match p.upload.metadataPath with
    | none => some (s, p.goto .failed)
    | some path =>
      let document := lib.toVec (p.upload.updated names read)
      some (onStorage s p fails ((s.storage.saveFile document (tmpPath path)).map (·, ()))
        fun _ => .moveMetadata read)
  | .moveMetadata _ =>
    match p.upload.metadataPath with
    | none => some (s, p.goto .failed)
    | some path =>
      some (onStorage s p fails (s.storage.moveFile (tmpPath path) path)
        fun moved => if moved then .findProject else .failed)
  | .findProject =>
    if fails then some (s, p.goto .failed)
    else match s.catalogue.findByProjectKey lib.collation p.upload.name with
      | some project => some (s, p.goto (.findVersion project.id))
      | none => some (s, p.goto .insertProject)
  | .insertProject =>
    if fails then some (s, p.goto .failed)
    else match s.catalogue.insertProject lib.collation p.upload.name p.upload.name with
      | none => some (s, p.goto .failed)
      | some (catalogue, project) =>
        some ({ s with catalogue }, p.goto (.findVersion project.id))
  | .findVersion projectId =>
    if fails then some (s, p.goto .failed)
    else match s.catalogue.findByVersionAndProject p.upload.version projectId with
      | some _ => some (finish s p)
      | none => some (s, p.goto (.insertVersion projectId))
  | .insertVersion projectId =>
    if fails then some (s, p.goto .failed)
    else
      let version : PhpVersion :=
        ⟨(p.upload.distPath.components.getLast?).getD "", p.upload.publisher⟩
      match s.catalogue.insertVersion lib.collation projectId p.upload.version
          p.upload.distPath.toString' version with
      | none => some (s, p.goto .failed)
      | some catalogue => some ({ s with catalogue }, p.goto .indexFile)
  | .indexFile => if fails then some (s, p.goto .failed) else some (finish s p)
  | .finished => none
  | .failed => none

end Process

def phpHosted (lib : PhpLibraries) (names : PhpNames) :
    Program PhpHosted (Process lib) (PhpUpload lib) Bool where
  init upload := ⟨upload, .save⟩
  next := Process.next names

/-! ### Reading -/

def openContent (st : DynStorage) (path : StoragePath) : Option Bytes :=
  match st.openFile path with
  | .ok (some (.file content)) => some content
  | _ => none

def getDistPath (path : StoragePath) : Option StoragePath :=
  match parsePath path with
  | .ok (.dist dist) => some (distStoragePath dist)
  | _ => none

end Pkgly.Php
