import Pkgly.Docker.Manifests

/-!
# Deleting a Docker package

`deleteDockerPackage` first collects the paths to delete, starting from one manifest
(`collectLoop`), and then deletes them in one batch, in the arbitrary order in which a hash set
lists its members (`HashOrder`).  The collection follows nothing but what the manifests it visits
refer to.  Its loop is modelled with fuel; two rounds decide it (`collectLoop_add_two`), since
`from_bytes` is always asked for an OCI image here and the arm that collects child manifests is
never taken.
-/

namespace Pkgly.Docker

/-- The `DockerDeletionError`s. -/
inductive DeletionError
  | manifestMissing
  | invalidManifestPath
  | storage (error : StorageError)
  | invalidManifest
  | accounting
deriving DecidableEq, Repr

/-- An order in which a `HashSet` of the given members may list them. -/
structure HashOrder where
  list : List String → List String
  perm : ∀ members, (list members).Perm members

/-- What the first pass has seen: digests of visited manifests and paths to delete. -/
structure Collected where
  visited : List String
  paths : List String

def tagMeta (path : String) : String := path ++ ".nr-docker-tagmeta"

def collectBlobPath (name : String) (acc : List String × List String) (digest : String) :
    List String × List String :=
  if digest ∈ acc.1 then acc
  else (digest :: acc.1, acc.2.insert (objectPath name "blobs" digest))

def manifestPaths (path digestPath : String) : List String :=
  [path, tagMeta path] ++ if digestPath = path then [] else [digestPath, tagMeta digestPath]

/-- `collect_manifest_paths`; the second component is the list of child manifests to visit. -/
def collectManifestPaths (sha : Sha256) (serde : SerdeJson) (st : DynStorage) (name : String)
    (acc : Collected) (path : String) : Except DeletionError (Collected × List String) :=
  match st.openFile (.ofString path) with
  | .error e => .error (.storage e)
  | .ok none => .error .manifestMissing
  | .ok (some (.directory _)) => .error .invalidManifest
  | .ok (some (.file bytes)) =>
    let digest := sha.digest bytes
    match Manifest.fromBytes serde bytes MediaType.ociImageManifest with
    | some (some manifest) =>
      let paths := (manifestPaths path (objectPath name "manifests" digest)).foldl
        (fun paths p => paths.insert p) acc.paths
      if digest ∈ acc.visited then .ok (⟨acc.visited, paths⟩, [])
      else
        let visited := digest :: acc.visited
        match manifest with
        | .dockerV2 m =>
          let (_, paths) := ((m.config :: m.layers).map Descriptor.digest).foldl
            (collectBlobPath name) ([], paths)
          .ok (⟨visited, paths⟩, [])
        | .ociImage m =>
          let (_, paths) := ((m.config.toList ++ m.layers).map Descriptor.digest).foldl
            (collectBlobPath name) ([], paths)
          .ok (⟨visited, paths⟩, [])
        | .ociIndex index =>
          let nested := (index.manifests.map ManifestDescriptor.digest).filter (· ∉ visited)
          .ok (⟨visited, paths⟩, nested.map (objectPath name "manifests"))
    | _ => .error .invalidManifest

/-- The first pass of `delete_docker_package` with `fuel` rounds; the top of the stack comes
first. -/
def collectLoop (sha : Sha256) (serde : SerdeJson) (st : DynStorage) (name root : String) :
    (fuel : Nat) → (stack : List String) → Collected → Option (Except DeletionError Collected)
  | 0, _, _ => none
  | _ + 1, [], acc => some (.ok acc)
  | fuel + 1, path :: stack, acc =>
    match collectManifestPaths sha serde st name acc path with
    | .ok (acc, nested) => collectLoop sha serde st name root fuel (nested.reverse ++ stack) acc
    | .error .manifestMissing =>
      -- a nested manifest that is already removed is skipped
      if path = root then some (.error .manifestMissing)
      else collectLoop sha serde st name root fuel stack acc
    | .error e => some (.error e)

/-- `DockerDeletionResult`. -/
structure DeletionResult where
  removedManifests : Nat
  removedBlobs : Nat
deriving DecidableEq, Repr

/-- The counts of `delete_docker_package`. -/
def deletionResult (paths : List String) : DeletionResult where
  removedManifests := paths.countP fun p =>
    (splitOnce "/manifests/".toList p.toList).isSome && !endsWith ".nr-docker-tagmeta" p
  removedBlobs := paths.countP fun p => (splitOnce "/blobs/".toList p.toList).isSome

/-- `delete_docker_package` on a hosted repository; `accounting` is whether the database forgets
the deleted paths.  The storage reached is returned also when a later part fails. -/
def deleteDockerPackage (sha : Sha256) (serde : SerdeJson) (order : HashOrder) (accounting : Bool)
    (st : DynStorage) (path : String) : DynStorage × Option (Except DeletionError DeletionResult) :=
  match splitManifestCachePath path with
  | none => (st, some (.error .invalidManifestPath))
  | some (name, _) =>
    match collectLoop sha serde st name path 2 [path] ⟨[], []⟩ with
    | none => (st, none)
    | some (.error e) => (st, some (.error e))
    | some (.ok collected) =>
      match st.deleteFilesBatch ((order.list collected.paths).map .ofString) with
      | (st', .error e) => (st', some (.error (.storage e)))
      | (st', .ok ()) =>
        if accounting then (st', some (.ok (deletionResult collected.paths)))
        else (st', some (.error .accounting))

end Pkgly.Docker
