import Pkgly.Algorithm.Pool
import Pkgly.Database.Project
import Pkgly.Nuget.Utils
import Pkgly.Storage.DynStorage

/-!
# Publishing to a hosted NuGet repository

`publish_package`, `persist_package` and `upsert_hosted_metadata` as the sequence of their atomic
steps: the existence check, the two writes, the three deletions of cached indexes, and the SQL
statements.  A request is a process (`Algorithm/Pool`) over the storage and the catalogue of the
repository; every step can fail.  `listHostedVersions` is what the indexes are built from.

The zip and XML libraries are the parameter `PackageFormat`.  A request that is not allowed, is not
a form or does not parse is answered before its first step, and the webhook after the last step
changes nothing here.
-/

namespace Pkgly.Nuget

/-! ### Packages -/

structure NugetDependency where
  id : String
  range : Option String

structure NugetDependencyGroup where
  targetFramework : Option String
  dependencies : List NugetDependency

structure NugetMetadata where
  id : String
  version : String
  authors : Option String
  description : Option String
  summary : Option String
  title : Option String
  projectUrl : Option String
  licenseUrl : Option String
  iconUrl : Option String
  tags : Option String
  requireLicenseAcceptance : Option Bool
  dependencyGroups : List NugetDependencyGroup

inductive HostedError
  | zip
  | io
  | utf8
  | xml
  | invalidPackage (message : String)
  | storage (error : StorageError)
  | database
  /-- Any other failure of a step. -/
  | failed
deriving DecidableEq

structure PackageFormat where
  /-- The entries of a `ZipArchive` with their names and what `read_to_string` makes of them;
  `none` inside for an entry that cannot be opened. -/
  entries : Bytes → Option (List (Option (String × Option String)))
  /-- `parse_nuspec`. -/
  parseNuspec : String → Option NugetMetadata

structure ParsedNugetPackage where
  packageId : String
  lowerId : String
  version : String
  lowerVersion : String
  nuspecXml : String
  metadata : NugetMetadata
  nupkgBytes : Bytes

/-- The loop over the entries of the archive: the text of the first `.nuspec`. -/
def findNuspec : List (Option (String × Option String)) → Except HostedError String
  | [] => .error (.invalidPackage "Missing .nuspec")
  | none :: _ => .error .zip
  | some (name, content) :: rest =>
    if endsWith ".nuspec" name then
      match content with
      | some xml => .ok xml
      | none => .error .io
    else findNuspec rest

def parsePublishedPackage (format : PackageFormat) (bytes : Bytes) :
    Except HostedError ParsedNugetPackage :=
  match format.entries bytes with
  | none => .error .zip
  | some entries =>
    match findNuspec entries with
    | .error e => .error e
    | .ok xml =>
      match format.parseNuspec xml with
      | none => .error .xml
      | some metadata =>
        .ok ⟨metadata.id, lowerId metadata.id, metadata.version,
          normalizeVersion metadata.version, xml, metadata, bytes⟩

/-! ### Paths -/

def flatcontainerIndexPath (packageId : String) : StoragePath :=
  .ofString ("v3/flatcontainer/" ++ lowerId packageId ++ "/index.json")

def flatcontainerPackagePath (packageId version : String) : StoragePath :=
  .ofString ("v3/flatcontainer/" ++ lowerId packageId ++ "/" ++ normalizeVersion version ++ "/" ++
    lowerId packageId ++ "." ++ normalizeVersion version ++ ".nupkg")

def flatcontainerNuspecPath (packageId version : String) : StoragePath :=
  .ofString ("v3/flatcontainer/" ++ lowerId packageId ++ "/" ++ normalizeVersion version ++ "/" ++
    lowerId packageId ++ ".nuspec")

def registrationIndexPath (packageId : String) : StoragePath :=
  .ofString ("v3/registration/" ++ lowerId packageId ++ "/index.json")

def registrationLeafPath (packageId version : String) : StoragePath :=
  .ofString ("v3/registration/" ++ lowerId packageId ++ "/" ++ normalizeVersion version ++ ".json")

def projectPath (package : ParsedNugetPackage) : String :=
  (StoragePath.ofString ("v3/flatcontainer/" ++ package.lowerId)).toString'

def versionPath (package : ParsedNugetPackage) : String :=
  (StoragePath.ofString
    ("v3/flatcontainer/" ++ package.lowerId ++ "/" ++ package.lowerVersion ++ "/")).toString'

/-! ### Publishing -/

structure HostedRepository where
  storage : DynStorage
  catalogue : Catalogue NugetMetadata

inductive Answer
  /-- `put_response` with the location below the repository. -/
  | created (location : String)
  | conflict (message : String)
  | error (e : HostedError)
deriving DecidableEq

/-- The step that a request takes next. -/
inductive Stage
  | checkExists
  | saveNupkg
  | saveNuspec
  | deleteFlatIndex
  | deleteRegIndex
  | deleteRegLeaf
  | findProject
  | insertProject
  | findVersion (projectId : ℕ)
  | insertVersion (projectId : ℕ)
  | recordFile
  | done (answer : Answer)
deriving DecidableEq

def locationPath (package : ParsedNugetPackage) : String :=
  "/v3/flatcontainer/" ++ package.lowerId ++ "/" ++ package.lowerVersion ++ "/" ++
    package.lowerId ++ "." ++ package.lowerVersion ++ ".nupkg"

def attempt {α : Type} (fails : Bool) (result : Except StorageError α) : Except HostedError α :=
  if fails then .error .failed
  else
    match result with
    | .ok a => .ok a
    | .error e => .error (.storage e)

def attemptSql {α : Type} (fails : Bool) (result : Option α) : Except HostedError α :=
  if fails then .error .failed
  else
    match result with
    | some a => .ok a
    | none => .error .database

/-- Delete a cached index; an error is only logged. -/
def HostedRepository.invalidate (s : HostedRepository) (fails : Bool) (path : StoragePath) :
    HostedRepository :=
  match attempt fails (s.storage.deleteFile path) with
  | .ok (storage, _) => { s with storage }
  | .error _ => s

/-- The step at a stage; `fails` makes it fail. -/
def performStage (c : Collation) (package : ParsedNugetPackage) (fails : Bool)
    (s : HostedRepository) : Stage → Except HostedError (HostedRepository × Stage)
  | .checkExists =>
    (attempt fails (s.storage.fileExists
        (flatcontainerPackagePath package.packageId package.version))).map fun found =>
      (s, if found then .done (.conflict "Package already exists") else .saveNupkg)
  | .saveNupkg =>
    (attempt fails (s.storage.saveFile package.nupkgBytes
        (flatcontainerPackagePath package.packageId package.version))).map fun storage =>
      ({ s with storage }, .saveNuspec)
  | .saveNuspec =>
    (attempt fails (s.storage.saveFile (intoBytes package.nuspecXml)
        (flatcontainerNuspecPath package.packageId package.version))).map fun storage =>
      ({ s with storage }, .deleteFlatIndex)
  | .deleteFlatIndex =>
    .ok (s.invalidate fails (flatcontainerIndexPath package.packageId), .deleteRegIndex)
  | .deleteRegIndex =>
    .ok (s.invalidate fails (registrationIndexPath package.packageId), .deleteRegLeaf)
  | .deleteRegLeaf =>
    .ok (s.invalidate fails (registrationLeafPath package.packageId package.version), .findProject)
  | .findProject =>
    (attemptSql fails (some (s.catalogue.findByProjectKey c package.packageId))).map fun project =>
      match project with
      | some project => (s, .findVersion project.id)
      | none => (s, .insertProject)
  | .insertProject =>
    (attemptSql fails (s.catalogue.insertProject c package.packageId (projectPath package))).map
      fun (catalogue, project) => ({ s with catalogue }, .findVersion project.id)
  | .findVersion projectId =>
    (attemptSql fails (some (s.catalogue.findByVersionAndProject package.version projectId))).map
      fun version =>
        if version.isSome then (s, .done (.created (locationPath package)))
        else (s, .insertVersion projectId)
  | .insertVersion projectId =>
    (attemptSql fails (s.catalogue.insertVersion c projectId package.version (versionPath package)
        package.metadata)).map fun catalogue => ({ s with catalogue }, .recordFile)
  -- the row of `package_files`, which is not modelled
  | .recordFile =>
    (attemptSql fails (some ())).map fun _ => (s, .done (.created (locationPath package)))
  | .done answer => .ok (s, .done answer)

structure Upload (format : PackageFormat) where
  package : ParsedNugetPackage
  parsed : parsePublishedPackage format package.nupkgBytes = .ok package

/-- A request in progress, or answered. -/
structure Publish (format : PackageFormat) where
  upload : Upload format
  stage : Stage

variable {format : PackageFormat}

/-- The next step of a request; an error ends it. -/
def Publish.next (c : Collation) (fails : Bool) (s : HostedRepository) (r : Publish format) :
    Option (HostedRepository × Publish format) :=
  match r.stage with
  | .done _ => none
  | stage =>
    match performStage c r.upload.package fails s stage with
    | .ok (s', stage') => some (s', { r with stage := stage' })
    | .error e => some (s, { r with stage := .done (.error e) })

def publishPackage (format : PackageFormat) (c : Collation) :
    Program HostedRepository (Publish format) (Upload format) Bool where
  init upload := ⟨upload, .checkExists⟩
  next := Publish.next c

/-- Run a request alone, without failures, for at most `fuel` steps. -/
def Publish.finish (c : Collation) : ℕ → HostedRepository → Publish format → Option Answer
  | 0, _, _ => none
  | fuel + 1, s, r =>
    match r.stage with
    | .done answer => some answer
    | _ =>
      match r.next c false s with
      | some (s', r') => r'.finish c fuel s'
      | none => none

/-- Publish an upload with no other request in between; a request has eleven steps at most. -/
def Upload.publishAlone (c : Collation) (s : HostedRepository) (u : Upload format) :
    Option Answer :=
  Publish.finish c 12 s ⟨u, .checkExists⟩

/-! ### Listing -/

structure HostedVersionRecord where
  version : String
  lowerVersion : String
  metadata : NugetMetadata

def readStorageBytes (storage : DynStorage) (path : StoragePath) :
    Except HostedError (Option Bytes) :=
  match storage.openFile path with
  | .error e => .error (.storage e)
  | .ok (some (.file content)) => .ok (some content)
  | .ok _ => .ok none

/-- The loop over the rows: those with a readable nuspec. -/
def readHostedVersions (format : PackageFormat) (storage : DynStorage) (packageId : String) :
    List (DBProjectVersion NugetMetadata) → Except HostedError (List HostedVersionRecord)
  | [] => .ok []
  | row :: rows =>
    match readStorageBytes storage (flatcontainerNuspecPath packageId row.version) with
    | .error e => .error e
    | .ok none => readHostedVersions format storage packageId rows
    | .ok (some bytes) =>
      match fromUtf8 bytes with
      | none => .error .utf8
      | some xml =>
        match format.parseNuspec xml with
        | none => .error .xml
        | some metadata =>
          match readHostedVersions format storage packageId rows with
          | .error e => .error e
          | .ok records => .ok (⟨row.version, normalizeVersion row.version, metadata⟩ :: records)

def listHostedVersions (format : PackageFormat) (c : Collation) (s : HostedRepository)
    (packageId : String) : Except HostedError (List HostedVersionRecord) :=
  match s.catalogue.findByProjectKey c packageId with
  | none => .ok []
  | some project =>
    match readHostedVersions format s.storage packageId (s.catalogue.getAllVersions project.id) with
    | .error e => .error e
    | .ok records => .ok (records.insertionSort fun a b => a.lowerVersion ≤ b.lowerVersion)

end Pkgly.Nuget
