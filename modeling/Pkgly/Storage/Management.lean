import Mathlib.Data.List.Sort
import Pkgly.Algorithm.Run
import Pkgly.Algorithm.Store
import Pkgly.Algorithm.Text
import Pkgly.User.Permissions

/-!
# Management of storages

`update_storage`, `delete_storage` and `delete_repository` change up to four things that belong
together: the rows of the database, the storages at run time, the repositories that are loaded, and
the files of the repositories.  They hold the management lock from their first statement to their
last, so that one runs at a time; each of their steps may fail, and what was done before stays.

The model is a server (`Site`) with these four, and each call is one action that carries the outcome
of each of its steps.  The table of names and the audit log are left out.
-/

namespace Pkgly.StorageManagement

/-- `StorageTypeConfig`: its type, the directory or the bucket with the files, and the other
settings. -/
structure StorageTypeConfig where
  typeName : String
  root : String
  settings : String
deriving DecidableEq

structure StorageRow where
  name : String
  storageType : String
  config : StorageTypeConfig
deriving DecidableEq

/-- A row of `repositories`. -/
structure RepositoryRow where
  name : String
  storageId : Uuid
deriving DecidableEq

/-- A storage at run time, with the number of its creation; those of the start have the number 0. -/
structure RuntimeStorage where
  creation : Nat
  config : StorageTypeConfig
deriving DecidableEq

/-- The server.  `created` numbers the storages that are created; `requested` lists the repositories
whose deletion was requested, which the code does not keep. -/
structure Site where
  storageRows : Store Uuid StorageRow
  repositoryRows : Store Uuid RepositoryRow
  storages : Store Uuid RuntimeStorage
  /-- The loaded repositories, each with the storage it holds. -/
  repositories : Store Uuid RuntimeStorage
  /-- The names of the files of a repository, below a root. -/
  files : Store (String × Uuid) (List String)
  created : Nat
  requested : List Uuid

inductive Response
  | ok
  | forbidden
  | notFound
  | invalidStorageType
  | invalidStorageConfig
  /-- The storage contains repositories. -/
  | storageNotEmpty (repositoryCount : Nat)
  | storageBackendUnavailable
  | storageCleanupFailed (repository : Uuid)
  | internalError
deriving DecidableEq

/-- The outcome of `delete_repository` of a storage: a failure leaves some files. -/
inductive Removal
  | done
  | failed (kept : List String)
deriving DecidableEq

/-- The steps of `update_storage` that succeed. -/
structure UpdateOutcome where
  getById : Bool
  testConfig : Bool
  updateConfig : Bool
  createStorage : Bool

structure DeleteRepositoryOutcome where
  getById : Bool
  deleteRow : Bool
  removal : Removal

structure DeleteStorageOutcome where
  lockRow : Bool
  selectRepositories : Bool
  removals : Uuid → Removal
  deleteRow : Bool
  commit : Bool

inductive ManagementAction
  | updateStorage (auth : UserPermissions) (id : Uuid) (config : StorageTypeConfig)
      (outcome : UpdateOutcome)
  | deleteRepository (auth : UserPermissions) (repository : Uuid)
      (outcome : DeleteRepositoryOutcome)
  | deleteStorage (auth : UserPermissions) (id : Uuid) (cascade : Bool)
      (outcome : DeleteStorageOutcome)

def storageFactories : List String := ["Local", "s3"]

namespace Site

/-- `load_storages`, where all storages can be created: those of unknown types are passed over. -/
def loadStorages (storageRows : Store Uuid StorageRow) : Store Uuid RuntimeStorage :=
  (storageRows.removeIf fun id =>
    (storageRows.get id).any fun row => !storageFactories.contains row.storageType).mapValues
      fun row => ⟨0, row.config⟩

/-- `load_repositories`: a repository without a storage stops the start. -/
def loadRepositories (storages : Store Uuid RuntimeStorage)
    (repositoryRows : Store Uuid RepositoryRow) : Option (Store Uuid RuntimeStorage) :=
  if repositoryRows.entries.all fun e => (storages.get e.2.storageId).isSome then
    some (repositoryRows.mapValues fun row =>
      (storages.get row.storageId).getD ⟨0, ⟨"", "", ""⟩⟩)
  else none

def load (storageRows : Store Uuid StorageRow) (repositoryRows : Store Uuid RepositoryRow)
    (files : Store (String × Uuid) (List String)) : Option Site :=
  (loadRepositories (loadStorages storageRows) repositoryRows).map fun repositories =>
    { storageRows, repositoryRows, files, repositories
      storages := loadStorages storageRows
      created := 1
      requested := [] }

def repositoriesOf (s : Site) (id : Uuid) : List Uuid :=
  ((s.repositoryRows.entries.filter fun e => e.2.storageId == id).insertionSort
    fun a b => a.2.name ≤ b.2.name).map (·.1)

/-- The deletion of `ids` is requested. -/
def request (s : Site) (ids : List Uuid) : Site := { s with requested := ids ++ s.requested }

/-! ### Updates -/

/-- `update_storage` up to its `UPDATE`. -/
def checkUpdate (s : Site) (auth : UserPermissions) (id : Uuid) (config : StorageTypeConfig)
    (outcome : UpdateOutcome) : Except Response StorageRow :=
  if !auth.isAdminOrSystemManager then .error .forbidden
  else if !outcome.getById then .error .internalError
  else
    match s.storageRows.get id with
    | none => .error .notFound
    | some existing =>
      if !storageFactories.contains existing.storageType then .error .invalidStorageType
      else if !eqIgnoreAsciiCase existing.storageType config.typeName then
        .error .invalidStorageType
      else if !outcome.testConfig then .error .invalidStorageConfig
      else if !outcome.updateConfig then .error .internalError
      else .ok existing

def updateStorage (s : Site) (auth : UserPermissions) (id : Uuid) (config : StorageTypeConfig)
    (outcome : UpdateOutcome) : Site × Response :=
  match s.checkUpdate auth id config outcome with
  | .error response => (s, response)
  | .ok existing =>
    let s := { s with storageRows := s.storageRows.put id { existing with config } }
    if !outcome.createStorage then (s, .internalError)
    else ({ s with
      storages := s.storages.put id ⟨s.created, config⟩
      created := s.created + 1 }, .ok)

/-! ### Deletions -/

/-- `delete_repository` of a storage: the files that are left, and whether it succeeds. -/
def removeFiles (files : Store (String × Uuid) (List String)) (root : String) (repository : Uuid) :
    Removal → Store (String × Uuid) (List String) × Bool
  | .done => (files.remove (root, repository), true)
  | .failed kept =>
    match files.get (root, repository) with
    | none => (files, false)
    | some names => (files.put (root, repository) (names.filter kept.contains), false)

/-- `delete_repository` up to the `DELETE`. -/
def checkDeleteRepository (s : Site) (auth : UserPermissions) (repository : Uuid)
    (outcome : DeleteRepositoryOutcome) : Except Response RuntimeStorage :=
  if !auth.isAdminOrSystemManager then .error .forbidden
  else if !outcome.getById then .error .internalError
  else
    match s.repositoryRows.get repository with
    | none => .error .notFound
    | some row =>
      match s.storages.get row.storageId with
      | none => .error .storageBackendUnavailable
      | some storage => if !outcome.deleteRow then .error .internalError else .ok storage

/-- `delete_repository`, with `delete_repository_sequence`. -/
def deleteRepository (s : Site) (auth : UserPermissions) (repository : Uuid)
    (outcome : DeleteRepositoryOutcome) : Site × Response :=
  match s.checkDeleteRepository auth repository outcome with
  | .error response => (s, response)
  | .ok storage =>
    let (files, removed) := removeFiles s.files storage.config.root repository outcome.removal
    let s := { s.request [repository] with
      repositoryRows := s.repositoryRows.remove repository, files }
    if !removed then (s, .internalError)
    else ({ s with repositories := s.repositories.remove repository }, .ok)

/-- The loop of `delete_storage` over the repositories; it stops at the first that fails. -/
def removeContents (root : String) (removals : Uuid → Removal) :
    List Uuid → Store (String × Uuid) (List String) →
      Store (String × Uuid) (List String) × Option Uuid
  | [], files => (files, none)
  | repository :: rest, files =>
    match removeFiles files root repository (removals repository) with
    | (files, true) => removeContents root removals rest files
    | (files, false) => (files, some repository)

/-- `delete_storage` up to the removal of files: the repositories of the storage. -/
def checkDeleteStorage (s : Site) (auth : UserPermissions) (id : Uuid) (cascade : Bool)
    (outcome : DeleteStorageOutcome) : Except Response (List Uuid) :=
  if !auth.isAdminOrSystemManager then .error .forbidden
  else if !outcome.lockRow then .error .internalError
  else if (s.storageRows.get id).isNone then .error .notFound
  else if !outcome.selectRepositories then .error .internalError
  else
    let ids := s.repositoriesOf id
    if !ids.isEmpty && !cascade then .error (.storageNotEmpty ids.length) else .ok ids

def removeRepositories (s : Site) (id : Uuid) (ids : List Uuid) (outcome : DeleteStorageOutcome) :
    Site × Option Response :=
  if ids.isEmpty then (s, none)
  else
    match s.storages.get id with
    | none => (s, some .storageBackendUnavailable)
    | some storage =>
      let (files, failed) := removeContents storage.config.root outcome.removals ids s.files
      ({ s with files }, failed.map .storageCleanupFailed)

/-- The end of `delete_storage`, after the commit. -/
def dropStorage (s : Site) (id : Uuid) (ids : List Uuid) : Site :=
  { s with
    storageRows := s.storageRows.remove id
    repositoryRows := s.repositoryRows.removeIf fun repository =>
      (s.repositoryRows.get repository).any fun row => row.storageId == id
    repositories := s.repositories.removeIf fun repository => ids.contains repository
    storages := s.storages.remove id }

def deleteStorage (s : Site) (auth : UserPermissions) (id : Uuid) (cascade : Bool)
    (outcome : DeleteStorageOutcome) : Site × Response :=
  match s.checkDeleteStorage auth id cascade outcome with
  | .error response => (s, response)
  | .ok ids =>
    match (s.request ids).removeRepositories id ids outcome with
    | (s, some response) => (s, response)
    | (s, none) =>
      if !outcome.deleteRow || !outcome.commit then (s, .internalError)
      else (s.dropStorage id ids, .ok)

def step (s : Site) : ManagementAction → Option Site
  | .updateStorage auth id config outcome => some (s.updateStorage auth id config outcome).1
  | .deleteRepository auth repository outcome =>
    some (s.deleteRepository auth repository outcome).1
  | .deleteStorage auth id cascade outcome => some (s.deleteStorage auth id cascade outcome).1

end Site

end Pkgly.StorageManagement
