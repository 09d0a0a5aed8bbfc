import Pkgly.Algorithm.BreadthFirst
import Pkgly.Docker.Catalog

/-!
# The walks of the manifest listings

`collect_manifest_entries` walks the directories of a local disk breadth first and compares their
names with the names of the internal directories.  On S3 it asks `load_docker_manifests` for the
keys of the manifests, which walks the common prefixes of the keys and tests how they end, and then
cuts each key at its first `/manifests/`.

The keys are those of one repository, without the identifier before them; the order of the entries,
their sizes and times and the cache of the S3 listing are left out.
-/

namespace Pkgly.Docker

open DynStorage BreadthFirst

/-! ### Local disks -/

/-- A directory as `open_folder` reads it, which leaves out the hidden files. -/
def openFolder (st : DynStorage) (path : StoragePath) :
    Except StorageError (Option (List (String × Bool))) :=
  match st.openFile path with
  | .error e => .error e
  | .ok (some (.directory files)) => .ok (some (files.filter fun entry => !st.hides entry.1))
  | .ok _ => .ok none

/-- The manifests among the entries of a directory `manifests`. -/
def manifestsOf (segments : List String) (files : List (String × Bool)) : List ManifestEntry :=
  files.filterMap fun manifest =>
    if endsWith ".nr-docker-tagmeta" manifest.1 || !manifest.2 then none
    else some ⟨"/".intercalate segments, manifest.1⟩

def collectEntry (st : DynStorage) (segments : List String) (path : StoragePath) :
    String × Bool →
      Except StorageError (List ManifestEntry × List (List String × StoragePath))
  | (_, true) => .ok ([], [])
  | (name, false) =>
    if name = "manifests" then
      match openFolder st (path.push "manifests") with
      | .error e => .error e
      | .ok none => .ok ([], [])
      | .ok (some files) => .ok (manifestsOf segments files, [])
    -- internal storage directories do not represent images
    else if name = "blobs" ∨ name = "uploads" ∨ name = "_uploads" then .ok ([], [])
    else .ok ([], [(segments ++ [name], path.push name)])

/-- The loop over the entries of a directory. -/
def collectFolder (st : DynStorage) (segments : List String) (path : StoragePath) :
    List (String × Bool) →
      Except StorageError (List ManifestEntry × List (List String × StoragePath))
  | [] => .ok ([], [])
  | entry :: files => do
    let first ← collectEntry st segments path entry
    let rest ← collectFolder st segments path files
    return (first.1 ++ rest.1, first.2 ++ rest.2)

/-- One round of the loop of `collect_manifest_entries`. -/
def expandFolder (st : DynStorage) (item : List String × StoragePath) :
    Except StorageError (List ManifestEntry × List (List String × StoragePath)) :=
  match openFolder st item.2 with
  | .error e => .error e
  | .ok none => .ok ([], [])
  | .ok (some files) => collectFolder st item.1 item.2 files

/-! ### S3 -/

def keyText (key : List String) : String := "/".intercalate key

/-- The common prefixes that `ListObjectsV2` returns for a prefix and the delimiter `/`. -/
def commonPrefixes (keys : List String) (dir : String) : List String :=
  (keys.filterMap fun key =>
    if startsWith dir key then
      (splitOnce ['/'] (key.toList.drop dir.length)).map fun r => dir ++ String.ofList r.1 ++ "/"
    else none).dedup

/-- One round of the loop of `load_docker_manifests`. -/
def expandPrefix (keys : List String) (dir : String) : List String × List String :=
  let entered := (commonPrefixes keys dir).filter fun p =>
    !(endsWith "blobs/" p || endsWith "uploads/" p || endsWith "_uploads/" p)
  ((entered.filter fun p => endsWith "manifests/" p).flatMap fun p =>
      keys.filter fun key => startsWith p key && !isHiddenKey key,
    entered.filter fun p => !endsWith "manifests/" p)

/-- The entry that `collect_manifest_entries_s3` makes of a key. -/
def manifestEntryOf (key : String) : Option ManifestEntry :=
  let relative := if startsWith "v2/" key then key.toList.drop 3 else key.toList
  match splitOnce "/manifests/".toList relative with
  | some (repository, reference) =>
    if repository = [] ∨ reference = [] ∨
        endsWith ".nr-docker-tagmeta" (String.ofList reference) then none
    else some ⟨String.ofList repository, String.ofList reference⟩
  | none => none

/-- `collect_manifest_entries` with `fuel` rounds; `none` when they are not enough. -/
def walkManifestEntries (fuel : ℕ) (st : DynStorage) :
    Option (Except StorageError (List ManifestEntry)) :=
  match st.backend with
  | .local => breadthFirst (expandFolder st) fuel [([], .ofString "v2")]
  | .s3 =>
    let keys := st.objects.keys.map keyText
    (breadthFirst (fun dir => .ok (expandPrefix keys dir)) fuel ["v2/"]).map
      (Except.map fun found => found.filterMap manifestEntryOf)

end Pkgly.Docker
