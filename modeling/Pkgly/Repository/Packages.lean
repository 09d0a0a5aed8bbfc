import Pkgly.Database.Project
import Pkgly.Storage.DynStorage

/-!
# Deleting packages and their rows

`delete_cached_package_paths` for the hosted repositories whose rows are found by the paths of their
files (`catalog_deletion_mode`).  Each requested path is deleted in the storage, and names rows: a
file those at its path and at its version path (`derive_version_path`), any other path those at it
or below it.  `deleteVersionRecordsByPath` then deletes the rows; it compares paths in lower case.

Docker, Helm and Go repositories delete in ways of their own.  The distribution tags of npm, the rows
of `package_files` and the webhooks are not part of this module.
-/

namespace Pkgly.Packages

/-! ### Rows by path -/

/-- `trim_end_matches('/')`, and `RTRIM(path, '/')`. -/
def trimEndSlashes (path : List Char) : List Char := (path.reverse.dropWhile (· == '/')).reverse

def normalizeCatalogPath (c : Collation) (path : String) : Option String :=
  match trim path with
  | [] => none
  | trimmed => some (c.toLowercase (String.ofList (trimEndSlashes trimmed)))

def rowPath (c : Collation) (path : String) : String :=
  c.lowerPath (String.ofList (trimEndSlashes path.toList))

/-- The condition of `sql_delete_project_versions` for one target. -/
def matchesTarget (c : Collation) (includeDescendants : Bool) (target path : String) : Bool :=
  rowPath c path == target || includeDescendants && startsWith (target ++ "/") (rowPath c path)

def matchesPaths (c : Collation) (includeDescendants : Bool) (paths : List String)
    (path : String) : Bool :=
  (paths.filterMap (normalizeCatalogPath c)).any fun target =>
    matchesTarget c includeDescendants target path

def deleteVersionRecordsByPath {ε : Type} (c : Collation) (db : Catalogue ε) (paths : List String)
    (includeDescendants : Bool) : Catalogue ε :=
  { db with versions := db.versions.filter fun v => !matchesPaths c includeDescendants paths v.path }

/-! ### Repositories -/

inductive HostedKind
  | npm
  | python
  | php
  | deb
  | ruby
  | maven
  | nuget
  | cargo
deriving DecidableEq

/-- `CatalogDeletionMode`, without `None`. -/
inductive CatalogDeletionMode
  | exactPath
  | stripLastSegment
deriving DecidableEq

def catalogDeletionMode : HostedKind → CatalogDeletionMode
  | .cargo | .python | .npm | .maven | .nuget => .stripLastSegment
  | .php | .deb | .ruby => .exactPath

def deriveVersionPath (cachePath : String) : CatalogDeletionMode → Option String
  | .exactPath =>
    match trimEndSlashes (trim cachePath) with
    | [] => none
    | trimmed => some (String.ofList trimmed)
  | .stripLastSegment =>
    let components := (StoragePath.ofString cachePath).components
    if components.length ≤ 1 then none
    else
      let stripped := String.intercalate "/" components.dropLast
      if stripped = "" then none else some stripped

def isValidRepositoryPath (path : String) : Bool :=
  path != "" && !startsWith "/" path && !containsText ".." path

def isValidCachePath (kind : HostedKind) (path : String) : Bool :=
  (kind != .ruby || startsWith "gems" path) && isValidRepositoryPath path

/-! ### Deletion -/

structure PackageDeleteResponse where
  deleted : ℕ
  missing : List String
  rejected : List String
deriving DecidableEq

/-- The variables of `delete_cached_package_paths`. -/
structure Deletion where
  storage : DynStorage
  response : PackageDeleteResponse
  /-- `catalog_targets`. -/
  targets : List String
  /-- `catalog_trees`. -/
  trees : List String

def deletePath (kind : HostedKind) (d : Deletion) (path : String) :
    Except StorageError Deletion :=
  let response := d.response
  if !isValidCachePath kind path then
    .ok { d with response := { response with rejected := response.rejected ++ [path] } }
  else
    match d.storage.getFileInformation (.ofString path) with
    | .error e => .error e
    | .ok info =>
      match d.storage.deleteFile (.ofString path) with
      | .ok (storage, true) =>
        let response := { response with deleted := response.deleted + 1 }
        if info = some none then .ok { d with storage, response, trees := path :: d.trees }
        else
          .ok { d with
            storage, response
            targets := path :: (deriveVersionPath path (catalogDeletionMode kind)).toList ++
              d.targets }
      | .ok (storage, false) =>
        .ok { d with
          storage
          response := { response with missing := response.missing ++ [path] }
          trees := path :: d.trees }
      | .error _ =>
        .ok { d with response := { response with missing := response.missing ++ [path] } }

def deletePaths (kind : HostedKind) (d : Deletion) : List String → Except StorageError Deletion
  | [] => .ok d
  | path :: paths =>
    match deletePath kind d path with
    | .error e => .error e
    | .ok d => deletePaths kind d paths

def deleteCachedPackagePaths {ε : Type} (kind : HostedKind) (c : Collation) (storage : DynStorage)
    (db : Catalogue ε) (paths : List String) :
    Except StorageError (DynStorage × Catalogue ε × PackageDeleteResponse) :=
  (deletePaths kind ⟨storage, ⟨0, [], []⟩, [], []⟩ paths).map fun d =>
    (d.storage, deleteVersionRecordsByPath c (deleteVersionRecordsByPath c db d.targets false)
      d.trees true, d.response)

end Pkgly.Packages
