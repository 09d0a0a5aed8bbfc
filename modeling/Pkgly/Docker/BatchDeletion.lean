import Pkgly.Docker.Deletion
import Pkgly.Repository.Packages

/-!
# Deleting many Docker packages at once

`collectDockerDeletionsBatch` collects the paths of all the requested manifests into one set
(`BatchDeletion`), with one set of visited digests for all of them, and deletes what is collected
whenever the set has reached a threshold, and at the end.  Before the end it adds the tag sidecar of
every requested path.  The model is that of a hosted repository, which has no proxy index to evict
from; `accounting` is whether the database forgets the deleted paths.

The walk below one requested path has fuel, as in `collectLoop`; two rounds decide it.
-/

namespace Pkgly.Docker

def isValidDockerManifestPath (path : String) : Bool :=
  !(path == "" || startsWith "/" path || containsText ".." path) &&
    (startsWith "v2/" path && containsText "/manifests/" path)

/-- What a successful `delete_files_batch` counts: the files it found on a local disk, the paths it
was given on S3. -/
def deletedCount (st : DynStorage) : List StoragePath → ℕ
  | [] => 0
  | location :: rest =>
    match st.backend with
    | .s3 => rest.length + 1
    | .local =>
      match st.deleteFile location with
      | .error _ => 0
      | .ok (st', found) => found.toNat + deletedCount st' rest

/-- `StreamingDockerBatchDeletion`. -/
structure BatchDeletion where
  storage : DynStorage
  /-- `visited_manifests` and `paths_to_delete`. -/
  collected : Collected
  missing : List String
  rejected : List String
  deletedPackages : ℕ
  deletedObjects : ℕ

namespace BatchDeletion

def new (st : DynStorage) : BatchDeletion := ⟨st, ⟨[], []⟩, [], [], 0, 0⟩

def setPaths (b : BatchDeletion) (paths : List String) : BatchDeletion :=
  { b with collected := ⟨b.collected.visited, paths⟩ }

/-- `flush`; what was collected is drained also when a deletion fails. -/
def flush (order : HashOrder) (accounting : Bool) (b : BatchDeletion) :
    BatchDeletion × Except DeletionError Unit :=
  if b.collected.paths = [] then (b, .ok ())
  else
    let locations := (order.list b.collected.paths).map StoragePath.ofString
    match b.storage.deleteFilesBatch locations with
    | (st, .error e) => ({ b.setPaths [] with storage := st }, .error (.storage e))
    | (st, .ok ()) =>
      if accounting then
        ({ b.setPaths [] with
          storage := st
          deletedObjects := b.deletedObjects + deletedCount b.storage locations }, .ok ())
      else ({ b.setPaths [] with storage := st }, .error .accounting)

def flushIfNeeded (order : HashOrder) (accounting : Bool) (threshold : ℕ) (b : BatchDeletion) :
    BatchDeletion × Except DeletionError Unit :=
  if threshold ≤ b.collected.paths.length then b.flush order accounting else (b, .ok ())

/-- The walk from the requested path `root`, with `fuel` rounds; the result says whether the
manifest was found. -/
def walk (sha : Sha256) (serde : SerdeJson) (order : HashOrder) (accounting : Bool)
    (threshold : ℕ) (name root : String) :
    (fuel : ℕ) → (stack : List String) → (found : Bool) → BatchDeletion →
      BatchDeletion × Option (Except DeletionError Bool)
  | 0, _, _, b => (b, none)
  | _ + 1, [], found, b => (b, some (.ok found))
  | fuel + 1, path :: stack, found, b =>
    match collectManifestPaths sha serde b.storage name b.collected path with
    | .ok (collected, nested) =>
      match flushIfNeeded order accounting threshold { b with collected := collected } with
      | (b, .error e) => (b, some (.error e))
      | (b, .ok ()) =>
        walk sha serde order accounting threshold name root fuel (nested.reverse ++ stack) true b
    | .error .manifestMissing =>
      -- a nested manifest that is already removed is ignored
      if path = root then ({ b with missing := b.missing ++ [root] }, some (.ok false))
      else walk sha serde order accounting threshold name root fuel stack found b
    | .error .invalidManifestPath =>
      ({ b with rejected := b.rejected ++ [root] }, some (.ok false))
    | .error _ => ({ b with missing := b.missing ++ [root] }, some (.ok false))

/-- One round of the loop over the requested paths. -/
def collectPath (sha : Sha256) (serde : SerdeJson) (order : HashOrder) (accounting : Bool)
    (threshold : ℕ) (path : String) (b : BatchDeletion) :
    BatchDeletion × Option (Except DeletionError Unit) :=
  match (splitManifestCachePath path).filter fun _ => isValidDockerManifestPath path with
  | none => ({ b with rejected := b.rejected ++ [path] }, some (.ok ()))
  | some (name, _) =>
    match walk sha serde order accounting threshold name path 2 [path] false b with
    | (b, none) => (b, none)
    | (b, some (.error e)) => (b, some (.error e))
    | (b, some (.ok true)) =>
      ({ b with deletedPackages := b.deletedPackages + 1 }, some (.ok ()))
    | (b, some (.ok false)) => (b, some (.ok ()))

def collectPaths (sha : Sha256) (serde : SerdeJson) (order : HashOrder) (accounting : Bool)
    (threshold : ℕ) :
    List String → BatchDeletion → BatchDeletion × Option (Except DeletionError Unit)
  | [], b => (b, some (.ok ()))
  | path :: rest, b =>
    match collectPath sha serde order accounting threshold path b with
    | (b, some (.ok ())) => collectPaths sha serde order accounting threshold rest b
    | (b, result) => (b, result)

def collectSidecars (order : HashOrder) (accounting : Bool) (threshold : ℕ) :
    List String → BatchDeletion → BatchDeletion × Except DeletionError Unit
  | [], b => (b, .ok ())
  | path :: rest, b =>
    match flushIfNeeded order accounting threshold
      (b.setPaths (b.collected.paths.insert (tagMeta path))) with
    | (b, .error e) => (b, .error e)
    | (b, .ok ()) => collectSidecars order accounting threshold rest b

end BatchDeletion

open BatchDeletion

/-- `collect_docker_deletions_batch` with a flush threshold; the state reached is returned also
when a deletion fails. -/
def collectDockerDeletionsBatch (sha : Sha256) (serde : SerdeJson) (order : HashOrder)
    (accounting : Bool) (threshold : ℕ) (st : DynStorage) (paths : List String) :
    BatchDeletion × Option (Except DeletionError Unit) :=
  match collectPaths sha serde order accounting threshold paths (.new st) with
  | (b, some (.ok ())) =>
    match collectSidecars order accounting threshold paths b with
    | (b, .error e) => (b, some (.error e))
    | (b, .ok ()) =>
      let (b, result) := b.flush order accounting
      (b, some result)
  | (b, result) => (b, result)

end Pkgly.Docker

/-!
## The deletion endpoint of Docker repositories

`deleteCachedPackagePaths` is `delete_cached_package_paths` on a hosted Docker repository: the batch
of `BatchDeletion.lean`, the report made from it, and the rows of `package_files` that are marked as
deleted.  Docker repositories have no version records to delete, and the webhooks are left out.
-/

namespace Pkgly.Docker

open Packages

/-- A row of `package_files`: its path, and whether `deleted_at` is set. -/
structure PackageFile where
  path : String
  deleted : Bool
deriving DecidableEq

/-- `soft_delete_by_paths`, which compares paths in lower case. -/
def softDeleteByPaths (c : Collation) (files : List PackageFile) (paths : List String) :
    List PackageFile :=
  files.map fun file =>
    if paths.any fun path => c.lowerPath file.path == c.lowerPath path then
      { file with deleted := true }
    else file

def dockerBatchDeleteFlushThreshold : ℕ := 1000

/-- `delete_cached_package_paths`; the storage and the rows reached are returned also when the batch
fails. -/
def deleteCachedPackagePaths (sha : Sha256) (serde : SerdeJson) (order : HashOrder)
    (accounting : Bool) (c : Collation) (st : DynStorage) (files : List PackageFile)
    (paths : List String) :
    (DynStorage × List PackageFile) × Option (Except DeletionError PackageDeleteResponse) :=
  match collectDockerDeletionsBatch sha serde order accounting dockerBatchDeleteFlushThreshold st
    paths with
  | (b, none) => ((b.storage, files), none)
  | (b, some (.error e)) => ((b.storage, files), some (.error e))
  | (b, some (.ok ())) =>
    if 0 < b.deletedObjects then
      ((b.storage, softDeleteByPaths c files paths),
        some (.ok ⟨b.deletedPackages, b.missing, b.rejected⟩))
    else ((b.storage, files), some (.ok ⟨0, paths ++ b.missing, b.rejected⟩))

end Pkgly.Docker
