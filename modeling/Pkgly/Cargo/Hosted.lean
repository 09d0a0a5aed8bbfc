import Pkgly.Algorithm.Resumption
import Pkgly.Cargo.Utils
import Pkgly.Repository.Packages
import Pkgly.Storage.Sha256

/-!
# A hosted Cargo repository

`persistPublish` stores a crate, adds a line to the sparse index of its name and inserts the rows;
`deletePackagePaths` is `delete_cached_package_paths` for such a repository.  Both are computations
by atomic steps (`Algorithm/Resumption`), one operation of the storage or one statement a step.

`CargoSite` is a repository with the requests to it.  It keeps track of the crates whose archive has
been stored and whose row has not been inserted yet (`pending`), which no code reads.
-/

namespace Pkgly.Cargo

/-! ### Data -/

/-- What the repository is given.  `Value` is `serde_json::Value`: `vers` is its member `vers` as a
text, and `ofEntry` the object with the members of an entry. -/
structure CargoLibraries where
  sha : Sha256
  collation : Collation
  fromSlice : Bytes → Except String PublishMetadata
  Value : Type
  vers : Value → Option String
  ofEntry : IndexEntry → Value
  toString : Value → String
  fromStr : String → Option Value

inductive CargoRepositoryError
  | invalidRequest (message : String)
  | versionExists (crateName version : String)
  | unauthorized
  | storage (error : Option StorageError)
  | database
deriving DecidableEq

structure CargoPackageMetadata where
  checksum : String
  crateSize : ℕ
  yanked : Bool
  features : List (String × List String)
  dependencies : List PublishDependency
deriving DecidableEq

structure CargoHosted where
  storage : DynStorage
  catalogue : Catalogue CargoPackageMetadata

inductive CargoStep
  | storage
  | database
  | saveArchive (crate version : String)
  | readIndex (path : StoragePath)
  | writeIndex (path : StoragePath)
  | insertVersion (crate version : String)
  | deleteFile (path : StoragePath)
  | deleteRows (paths : List String) (includeDescendants : Bool)
  /-- A publish is answered with an error or without one. -/
  | answer (failed : Bool)

/-- The requests to a Cargo repository; a step fails when the choice says so. -/
abbrev CargoM := Resumption CargoStep Bool CargoHosted CargoRepositoryError

def storageStep {α : Type} (label : CargoStep)
    (f : DynStorage → Except StorageError (α × DynStorage)) : CargoM α :=
  .act label fun fails s =>
    if fails then (.error (.storage none), s)
    else match f s.storage with
      | .error e => (.error (.storage (some e)), s)
      | .ok (a, storage) => (.ok a, { s with storage })

/-- A statement, with its answer and the rows it leaves; `none` when it fails. -/
def statement {α : Type} (label : CargoStep)
    (f : Catalogue CargoPackageMetadata → Option (α × Catalogue CargoPackageMetadata)) :
    CargoM α :=
  .act label fun fails s =>
    if fails then (.error .database, s)
    else match f s.catalogue with
      | none => (.error .database, s)
      | some (a, catalogue) => (.ok a, { s with catalogue })

def query {α : Type} (f : Catalogue CargoPackageMetadata → α) : CargoM α :=
  statement .database fun db => some (f db, db)

def ofExcept {α : Type} : Except CargoRepositoryError α → CargoM α
  | .ok a => pure a
  | .error e => throw e

def ofUtil {α : Type} : Except CargoUtilError α → Except CargoRepositoryError α
  | .ok a => .ok a
  | .error e => .error (.invalidRequest e.message)

/-! ### Publishing -/

def findOrInsertProject (lib : CargoLibraries) (normalized : String) : CargoM DBProject := do
  match ← query fun db => db.findByProjectKey lib.collation normalized with
  | some project => pure project
  | none =>
    statement .database fun db =>
      (db.insertProject lib.collation normalized ("crates/" ++ normalized ++ "/")).map
        fun r => (r.2, r.1)

/-- `save_crate_archive`: the checksum. -/
def saveCrateArchive (lib : CargoLibraries) (crateName : String) (version : Version)
    (payload : PublishPayload) : CargoM String := do
  storageStep (.saveArchive (normalizeCrateName crateName) version.text) fun st =>
    (st.saveFile payload.crateArchive (crateArchiveStoragePath crateName version)).map fun st =>
      ((), st)
  pure (lib.sha.hex payload.crateArchive)

def readEntries (lib : CargoLibraries) (metadata : PublishMetadata) :
    List String → Except CargoRepositoryError (List lib.Value)
  | [] => .ok []
  | line :: lines =>
    if trim line = [] then readEntries lib metadata lines
    else match lib.fromStr line with
      | none => .error (.invalidRequest "Invalid JSON entry in index")
      | some entry =>
        if lib.vers entry = some metadata.vers.text then
          .error (.versionExists metadata.name metadata.vers.text)
        else (readEntries lib metadata lines).map (entry :: ·)

def existingEntries (lib : CargoLibraries) (metadata : PublishMetadata) :
    Option Bytes → Except CargoRepositoryError (List lib.Value)
  | none | some [] => .ok []
  | some bytes =>
    match fromUtf8 bytes with
    | none => .error (.invalidRequest "Invalid UTF-8 in index file")
    | some existing => readEntries lib metadata ((lines existing).map String.ofList)

/-- The index file with a new line at its end. -/
def appendEntry (lib : CargoLibraries) (metadata : PublishMetadata) (checksum : String)
    (existing : Option Bytes) : Except CargoRepositoryError String :=
  (existingEntries lib metadata existing).map fun entries =>
    String.intercalate "\n"
      ((entries ++ [lib.ofEntry (buildIndexEntry metadata checksum)]).map lib.toString)

/-- The content of the index file; a directory has none. -/
def readIndex (path : StoragePath) : CargoM (Option Bytes) :=
  storageStep (.readIndex path) fun st =>
    match st.openFile path with
    | .error e => .error e
    | .ok (some (.file content)) => .ok (some content, st)
    | .ok _ => .ok (none, st)

def updateSparseIndex (lib : CargoLibraries) (metadata : PublishMetadata) (checksum : String) :
    CargoM Unit := do
  let path ← ofExcept (ofUtil (sparseIndexStoragePath metadata.name))
  let existing ← readIndex path
  let content ← ofExcept (appendEntry lib metadata checksum existing)
  storageStep (.writeIndex path) fun st =>
    (st.saveFile (intoBytes content) path).map fun st => ((), st)

def versionExtra (payload : PublishPayload) (checksum : String) : CargoPackageMetadata :=
  ⟨checksum, payload.crateArchive.length, false, payload.metadata.features, payload.metadata.deps⟩

def persistVersionMetadata (lib : CargoLibraries) (projectId : ℕ) (payload : PublishPayload)
    (checksum : String) : CargoM Unit := do
  let normalized := normalizeCrateName payload.metadata.name
  let version := payload.metadata.vers.text
  statement (.insertVersion normalized version) fun db =>
    (db.insertVersion lib.collation projectId version ("crates/" ++ normalized ++ "/" ++ version)
      (versionExtra payload checksum)).map ((), ·)
  -- the row of `package_files`
  statement .database fun db => some ((), db)

/-- `persist_publish` once the version is known to be new. -/
def storePublish (lib : CargoLibraries) (payload : PublishPayload) (project : DBProject) :
    CargoM Unit := do
  let checksum ← saveCrateArchive lib payload.metadata.name payload.metadata.vers payload
  updateSparseIndex lib payload.metadata checksum
  persistVersionMetadata lib project.id payload checksum

def persistPublish (lib : CargoLibraries) (payload : PublishPayload) : CargoM Unit := do
  let project ← findOrInsertProject lib (normalizeCrateName payload.metadata.name)
  let existing ← query fun db =>
    db.findByVersionAndProject payload.metadata.vers.text project.id
  if existing.isSome then
    throw (.versionExists payload.metadata.name payload.metadata.vers.text)
  else storePublish lib payload project

structure PublishRequest where
  /-- The repository is active. -/
  active : Bool
  /-- The user may write. -/
  authorized : Bool
  body : Bytes
deriving DecidableEq

def handlePublish (lib : CargoLibraries) (request : PublishRequest) : CargoM Unit :=
  if !request.active then throw (.invalidRequest "Repository is not active")
  else do
    -- `get_user_if_has_action`
    query fun _ => ()
    if !request.authorized then throw .unauthorized
    else do
      let payload ← ofExcept (ofUtil (parsePublishPayload lib.fromSlice request.body))
      persistPublish lib payload

/-! ### Deletion -/

/-- The variables of `delete_cached_package_paths`. -/
structure Removal where
  response : Packages.PackageDeleteResponse
  targets : List String
  trees : List String

def Removal.deleted (d : Removal) (path : String) (isDirectory : Bool) : Removal :=
  let response := { d.response with deleted := d.response.deleted + 1 }
  if isDirectory then { d with response, trees := path :: d.trees }
  else
    { d with
      response
      targets := path :: (Packages.deriveVersionPath path
        (Packages.catalogDeletionMode .cargo)).toList ++ d.targets }

def Removal.missing (d : Removal) (path : String) (found : Option Bool) : Removal :=
  let response := { d.response with missing := d.response.missing ++ [path] }
  if found.isSome then { d with response, trees := path :: d.trees } else { d with response }

def isDirectoryAt (path : StoragePath) : CargoM Bool :=
  storageStep .storage fun st =>
    (st.getFileInformation path).map fun info => (decide (info = some none), st)

/-- `delete_file`: whether something was there; `none` when it fails. -/
def deleteFile (path : StoragePath) : CargoM (Option Bool) :=
  .act (.deleteFile path) fun fails s =>
    if fails then (.ok none, s)
    else match s.storage.deleteFile path with
      | .error _ => (.ok none, s)
      | .ok (storage, found) => (.ok (some found), { s with storage })

def deletePath (d : Removal) (path : String) : CargoM Removal :=
  if !Packages.isValidCachePath .cargo path then
    pure { d with response := { d.response with rejected := d.response.rejected ++ [path] } }
  else do
    let isDirectory ← isDirectoryAt (.ofString path)
    let found ← deleteFile (.ofString path)
    pure (if found = some true then d.deleted path isDirectory else d.missing path found)

def deletePaths (d : Removal) : List String → CargoM Removal
  | [] => pure d
  | path :: paths => do
    let d ← deletePath d path
    deletePaths d paths

/-- `delete_version_records_by_path`. -/
def deleteVersionRecords (lib : CargoLibraries) (paths : List String)
    (includeDescendants : Bool) : CargoM Unit :=
  statement (.deleteRows paths includeDescendants) fun db =>
    some ((), Packages.deleteVersionRecordsByPath lib.collation db paths includeDescendants)

/-- `delete_cached_package_paths`. -/
def deletePackagePaths (lib : CargoLibraries) (paths : List String) :
    CargoM Packages.PackageDeleteResponse := do
  let d ← deletePaths ⟨⟨0, [], []⟩, [], []⟩ paths
  deleteVersionRecords lib d.targets false
  deleteVersionRecords lib d.trees true
  pure d.response

/-! ### The site -/

structure CargoSite where
  hosted : CargoHosted
  /-- The crates that have been stored and have no row yet. -/
  pending : List (String × String)

def CargoSite.new (backend : Backend) : CargoSite := ⟨⟨⟨backend, ∅, ∅⟩, .empty⟩, []⟩

inductive CargoRequest
  | publish (request : PublishRequest)
  | delete (paths : List String)
deriving DecidableEq

structure CargoTask where
  request : CargoRequest
  /-- It has stored an archive. -/
  stored : Bool
  /-- What it has stored and not recorded yet. -/
  pending : List (String × String)
  /-- The index file, as it was when the request has read it. -/
  index : Option Bytes

abbrev SiteM := Resumption CargoStep Bool (CargoSite × CargoTask) CargoRepositoryError

def archiveKey (crate version : String) : List String :=
  ["crates", crate, version, crate ++ ("-" ++ (version ++ ".crate"))]

/-- What a step on the repository means for what is kept track of. -/
def record (label : CargoStep) (t : CargoSite × CargoTask) (hosted : CargoHosted) :
    CargoSite × CargoTask :=
  match label with
  | .saveArchive crate version =>
    if (t.1.hosted.storage.objects.get (archiveKey crate version)).isNone &&
        (hosted.storage.objects.get (archiveKey crate version)).isSome then
      (⟨hosted, (crate, version) :: t.1.pending⟩,
        { t.2 with stored := true, pending := (crate, version) :: t.2.pending })
    else ({ t.1 with hosted }, t.2)
  | .readIndex path =>
    ({ t.1 with hosted }, { t.2 with index := t.1.hosted.storage.objects.get path.components })
  | .insertVersion crate version =>
    if t.1.hosted.catalogue.versions.length < hosted.catalogue.versions.length then
      (⟨hosted, t.1.pending.filter (· ≠ (crate, version))⟩,
        { t.2 with pending := t.2.pending.filter (· ≠ (crate, version)) })
    else ({ t.1 with hosted }, t.2)
  | _ => ({ t.1 with hosted }, t.2)

def onSite {α : Type} (m : CargoM α) : SiteM α := m.zoom (fun t => t.1.hosted) record

def answered (m : CargoM Unit) : SiteM Unit :=
  let done (failed : Bool) : SiteM Unit := .act (.answer failed) fun _ t => (.ok (), t)
  tryCatch (onSite m >>= fun _ => done false) fun e => done true >>= fun _ => throw e

def siteRequest (lib : CargoLibraries) : CargoRequest → SiteM Unit
  | .publish request => answered (handlePublish lib request)
  | .delete paths => onSite (deletePackagePaths lib paths) >>= fun _ => pure ()

def siteProgram (lib : CargoLibraries) : Program CargoSite
    (Resumption.Thread CargoStep Bool CargoSite CargoTask CargoRepositoryError Unit)
    CargoRequest Bool :=
  Resumption.program fun request => ⟨⟨request, false, [], none⟩, siteRequest lib request⟩

end Pkgly.Cargo
