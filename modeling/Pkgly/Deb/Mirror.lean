import Pkgly.Deb.Proxy

/-!
# When the files of a mirror agree

A `Release` lists digests of the files below its directory, an index of packages lists the SHA256 of
packages (`listings`).  Files are `Consistent` when each has the digests that the others list of it.
`MirrorMatches` says so of the files that are stored.

The upstream is consistent with what is made of its files too: an index may be stored at its
`by-hash` alias, and a compressed index may be stored decoded (`forms`).
-/

namespace Pkgly.Deb

structure MirrorFile where
  key : List String
  content : Bytes
deriving DecidableEq

structure Listing where
  key : List String
  digest : Bytes → String
  value : String

/-! ### Indexes -/

/-- The digests of a `Release`, with the names of their fields. -/
def releaseDigests (format : DebProxyFormat) : List (String × (Bytes → String)) :=
  [("MD5Sum", format.md5Hex), ("SHA1", format.sha1Hex), ("SHA256", format.sha256Hex)]

/-- A line of a `Release`: digest, size and name. -/
def releaseLine (directory : List String) (digest : Bytes → String) (line : List Char) :
    Option Listing :=
  match words (String.ofList line) with
  | [value, _, name] => some ⟨directory ++ segments '/' name, digest, value⟩
  | _ => none

/-- What a `Release` lists of the files below its directory. -/
def releaseListings (format : DebProxyFormat) (directory : List String) (content : Bytes) :
    List Listing :=
  match (fromUtf8 content).map ControlFile.parse with
  | some (.ok control) =>
    (releaseDigests format).flatMap fun (field, digest) =>
      (lines ((control.get field).getD "")).filterMap (releaseLine directory digest)
  | _ => []

def PackagesIndexEntry.listing? (format : DebProxyFormat) (entry : PackagesIndexEntry) :
    Option Listing :=
  if entry.isDeb then
    entry.sha256.map fun sha256 => ⟨entry.path.components, format.sha256Hex, sha256⟩
  else none

def packagesListings (format : DebProxyFormat) (content : Bytes) : List Listing :=
  match parsePackagesIndex content with
  | .ok entries => entries.filterMap (PackagesIndexEntry.listing? format)
  | .error _ => []

def decodeIndex (format : DebProxyFormat) (name : String) (content : Bytes) : Option Bytes :=
  if name = "Packages" then some content
  else if name = "Packages.gz" then format.gunzip content
  else if name = "Packages.xz" then format.unxz content
  else none

def releaseDirectory? (key : List String) : Option (List String) :=
  if key.head? = some "dists" ∧ key.getLast? = some "Release" ∧ 3 ≤ key.length then
    some key.dropLast
  else none

def MirrorFile.listings (format : DebProxyFormat) (f : MirrorFile) : List Listing :=
  (match releaseDirectory? f.key with
    | some directory => releaseListings format directory f.content
    | none => []) ++
  match f.key.getLast?.bind fun name => decodeIndex format name f.content with
    | some index => packagesListings format index
    | none => []

/-! ### Agreement -/

/-- `g` has the digests that `f` lists of it. -/
def MirrorFile.agrees (format : DebProxyFormat) (f g : MirrorFile) : Bool :=
  (f.listings format).all fun l =>
    l.key != g.key || eqIgnoreAsciiCase l.value (l.digest g.content)

def Consistent (format : DebProxyFormat) (files : List MirrorFile) : Prop :=
  ∀ f ∈ files, ∀ g ∈ files, f.agrees format g = true

instance (format : DebProxyFormat) (files : List MirrorFile) :
    Decidable (Consistent format files) :=
  inferInstanceAs (Decidable (∀ f ∈ files, ∀ g ∈ files, _))

theorem Consistent.subset {format : DebProxyFormat} {files files' : List MirrorFile}
    (h : Consistent format files) (hsub : ∀ f ∈ files', f ∈ files) : Consistent format files' :=
  fun f hf g hg => h f (hsub f hf) g (hsub g hg)

/-! ### Snapshots -/

def filesOf (objects : Objects) : List MirrorFile := objects.entries.map fun e => ⟨e.1, e.2⟩

theorem mem_filesOf {objects : Objects} {f : MirrorFile} :
    f ∈ filesOf objects ↔ objects.get f.key = some f.content := by
  rw [Store.get_eq_some_iff, filesOf, List.mem_map]
  constructor
  · rintro ⟨e, he, rfl⟩
    exact he
  · intro h
    exact ⟨_, h, rfl⟩

def MirrorFile.byHash? (format : DebProxyFormat) (f : MirrorFile) : Option MirrorFile :=
  (byHashPathForIndex ⟨f.key, none⟩ (format.sha256Hex f.content)).map fun path =>
    ⟨path.components, f.content⟩

/-- The index that a compressed file holds, at the path of the uncompressed one. -/
def MirrorFile.decoded? (format : DebProxyFormat) (f : MirrorFile) : Option MirrorFile :=
  if f.key.getLast? = some "Packages.gz" then
    (format.gunzip f.content).map fun index => ⟨f.key.dropLast ++ ["Packages"], index⟩
  else none

def MirrorFile.forms (format : DebProxyFormat) (f : MirrorFile) : List MirrorFile :=
  f :: ((f.byHash? format).toList ++ (f.decoded? format).toList)

def snapshotFiles (format : DebProxyFormat) (snapshot : Snapshot) : List MirrorFile :=
  (filesOf snapshot).flatMap (MirrorFile.forms format)

/-! ### The mirror -/

end Pkgly.Deb
