import Pkgly.Docker.Manifests

/-!
# Listings

The catalog of image names and the tags of an image, with their pagination.  Both backends find
the manifests by walking the directories below `v2`; the walk is followed here from the side of a
stored object, which is listed when the walk enters the directories above it (`localEntry`,
`s3Entry`).  The walks themselves are in `ManifestListing.lean`.
-/

namespace Pkgly.Docker

open DynStorage Objects

/-! ### Manifest entries -/

/-- `DockerManifestEntry`: the image name and the reference of a stored manifest. -/
structure ManifestEntry where
  repository : String
  reference : String
deriving DecidableEq, Repr

def isHiddenFile (name : String) : Bool := isHiddenName name || containsText ".nr-meta.tmp-" name

/-- `S3StorageInner::is_hidden_file`. -/
def isHiddenKey (key : String) : Bool :=
  endsWith ".nr-meta" key || (pieces '/' key).any (· == ".nr-meta")

/-- The walk of `collect_manifest_entries` on a local disk, having entered `segments`. -/
def localEntry (segments : List String) : List String → Option ManifestEntry
  | "manifests" :: rest =>
    match rest with
    | [name] =>
      if endsWith ".nr-docker-tagmeta" name || isHiddenFile name then none
      else some ⟨"/".intercalate segments, name⟩
    | _ => none
  | name :: next :: rest =>
    -- internal storage directories do not represent images
    if name = "blobs" ∨ name = "uploads" ∨ name = "_uploads" ∨ isHiddenFile name then none
    else localEntry (segments ++ [name]) (next :: rest)
  | _ => none

/-- The walk of `load_docker_manifests` on S3: some directory above the object ends with
`manifests`, and none before it with the name of an internal directory. -/
def s3Listed : List String → Bool
  | name :: next :: rest =>
    if endsWith "blobs" name || endsWith "uploads" name || endsWith "_uploads" name then false
    else endsWith "manifests" name || s3Listed (next :: rest)
  | _ => false

/-- `collect_manifest_entries_s3` on a listed object, without the `v2/` before it. -/
def s3Entry (relative : List String) : Option ManifestEntry :=
  if s3Listed relative && !isHiddenKey ("/".intercalate ("v2" :: relative)) then
    match splitOnce "/manifests/".toList ("/".intercalate relative).toList with
    | some (repository, reference) =>
      if repository = [] ∨ reference = [] ∨
          endsWith ".nr-docker-tagmeta" (String.ofList reference) then none
      else some ⟨String.ofList repository, String.ofList reference⟩
    | none => none
  else none

def collectManifestEntries (st : DynStorage) : List ManifestEntry :=
  st.objects.keys.filterMap fun
    | "v2" :: relative =>
      match st.backend with
      | .local => localEntry [] relative
      | .s3 => s3Entry relative
    | _ => none

/-! ### Pagination -/

structure Pagination where
  limit : Option Nat
  last : Option String
deriving DecidableEq, Repr

/-- `paginate_lexically` of a sorted list without duplicates. -/
def paginateLexically (all : List String) (pagination : Pagination) :
    List String × Option PaginationCursor :=
  let start := match pagination.last with
    | some last => all.countP (· ≤ last)
    | none => 0
  match pagination.limit with
  | none => (all.drop start, none)
  | some limit =>
    let selected := (all.drop start).take limit
    let next := if start + limit < all.length then
        selected.getLast?.map fun last => ⟨last, limit⟩
      else none
    (selected, next)

/-- Sorted and without duplicates (`BTreeSet`, or `sort` and `dedup`). -/
def sortedSet (names : List String) : List String := names.mergeSort.dedup

def listingHeaders : List (String × String) :=
  [("Content-Type", "application/json"), ("Docker-Distribution-API-Version", "registry/2.0")]

def listCatalog (st : DynStorage) (params : Pagination) : Except DockerError Response :=
  let names := (collectManifestEntries st).map ManifestEntry.repository
  let (values, next) := paginateLexically (sortedSet (names.filter (· ≠ ""))) params
  .ok ⟨200, listingHeaders, .catalog values next⟩

/-! ### Tags -/

/-- `is_digest_reference`. -/
def isDigestName (candidate : String) : Bool :=
  match splitOnce [':'] candidate.toList with
  | some (algorithm, value) =>
    !algorithm.isEmpty && !value.isEmpty &&
      value.all fun c => c.isDigit || ('a' ≤ c && c ≤ 'f') || ('A' ≤ c && c ≤ 'F')
  | none => false

def manifestsDirectory (name : String) : StoragePath :=
  .ofString ("v2" ++ ("/" ++ (name ++ ("/" ++ "manifests"))))

def collectRepositoryTags (st : DynStorage) (name : String) : Except DockerError (List String) :=
  match st.openFile (manifestsDirectory name) with
  | .error e => .error (.storage e)
  | .ok (some (.directory files)) =>
    .ok (sortedSet ((files.filter fun entry => entry.2 && !isDigestName entry.1).map Prod.fst))
  | .ok _ => .error (.invalidRepositoryName name)

def listTags (st : DynStorage) (name : String) (params : Pagination) :
    Except DockerError Response :=
  match collectRepositoryTags st name with
  | .error e => .error e
  | .ok tags =>
    let (values, next) := paginateLexically tags params
    .ok ⟨200, listingHeaders, .tags name values next⟩

end Pkgly.Docker
