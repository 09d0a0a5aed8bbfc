import Pkgly.Storage.DynStorage

/-!
# Docker and OCI manifests

The manifest types of the registry and their decoding from JSON.  The JSON text itself is read by
`serde_json`, which is a parameter (`SerdeJson`): the tree of a document as a typed
`from_slice` sees it, and whether the document is also readable as a `Value`.  What the derived
`Deserialize` instances make of the tree is modelled field by field: objects match fields by name
and refuse a known field that occurs twice, arrays match fields by position, an optional field may
be absent from an object but not from an array.

`Manifest.fromBytes` dispatches on a media type.  For an unknown one it retries with the media type
the document names, which does not end when that is unknown as well; the recursion is therefore
modelled with fuel, and two calls decide it (`Equiv/Types.lean`).
-/

namespace Pkgly

/-- A JSON document.  An object lists its members in the order of the text, duplicates included;
`float` is any number that is not an integer literal. -/
inductive Json
  | null
  | bool (b : Bool)
  | int (n : Int)
  | float
  | str (s : String)
  | arr (elems : List Json)
  | obj (members : List (String × Json))

/-- What the registry uses of `serde_json`. -/
structure SerdeJson where
  /-- The document in a text, as `from_slice` reads it into a type that ignores what it does not
  know. -/
  parse : Bytes → Option Json
  /-- The document is also accepted as a `Value` (which bounds its depth and its numbers). -/
  acceptsValue : Json → Bool

namespace SerdeJson

/-- `from_slice::<Value>`. -/
def value (serde : SerdeJson) (bytes : Bytes) : Option Json :=
  (serde.parse bytes).filter serde.acceptsValue

end SerdeJson

/-! ### Derived deserialization -/

namespace Json

/-- `Value::get(name).and_then(Value::as_str)`; the last of several members of one name counts. -/
def getStr? (name : String) : Json → Option String
  | .obj members =>
    match members.reverse.lookup name with
    | some (.str s) => some s
    | _ => none
  | _ => none

/-- What a derived `Deserialize` finds for a field. -/
inductive Slot
  | present (v : Json)
  /-- No member of that name. -/
  | missing
  /-- The array ends before the field's position. -/
  | missingElement

/-- The fields `names` of a struct in a document: by name in an object, by position in an array. -/
def fields (names : List String) : Json → Option (String → Slot)
  | .obj members =>
    if names.any fun name => 1 < (members.map Prod.fst).count name then none
    else some fun name =>
      match members.lookup name with
      | some v => .present v
      | none => .missing
  | .arr elems =>
    if names.length < elems.length then none
    else some fun name =>
      match elems[names.idxOf name]? with
      | some v => .present v
      | none => .missingElement
  | _ => none

variable {α : Type}

/-- A field without a default. -/
def required (decode : Json → Option α) : Slot → Option α
  | .present v => decode v
  | _ => none

/-- A field of type `Option`. -/
def optional (decode : Json → Option α) : Slot → Option (Option α)
  | .present .null => some none
  | .present v => (decode v).map some
  | .missing => some none
  | .missingElement => none

/-- A field with `#[serde(default)]`. -/
def defaulted (default : α) (decode : Json → Option α) : Slot → Option α
  | .present v => decode v
  | _ => some default

def string : Json → Option String
  | .str s => some s
  | _ => none

/-- An integer type with the values `lo ..< hi`. -/
def integer (lo hi : Int) : Json → Option Int
  | .int n => if lo ≤ n ∧ n < hi then some n else none
  | _ => none

def u32 : Json → Option Int := integer 0 (2 ^ 32)

def i64 : Json → Option Int := integer (-2 ^ 63) (2 ^ 63)

/-- `Vec<T>`. -/
def vec (decode : Json → Option α) : Json → Option (List α)
  | .arr elems => elems.mapM decode
  | _ => none

/-- `HashMap<String, String>`, in the order of the text. -/
def stringMap : Json → Option (List (String × String))
  | .obj members => members.mapM fun m => (string m.2).map fun v => (m.1, v)
  | _ => none

end Json

open Json

/-! ### The manifest types -/

structure Descriptor where
  mediaType : String
  digest : String
  size : Int
  urls : Option (List String)
  annotations : Option (List (String × String))
deriving DecidableEq, Repr

def Descriptor.decode (j : Json) : Option Descriptor := do
  let slot ← fields ["mediaType", "digest", "size", "urls", "annotations"] j
  return {
    mediaType := ← required string (slot "mediaType")
    digest := ← required string (slot "digest")
    size := ← required i64 (slot "size")
    urls := ← optional (vec string) (slot "urls")
    annotations := ← optional stringMap (slot "annotations") }

/-- Platform information for multi-arch images. -/
structure Platform where
  architecture : String
  os : String
  osVersion : Option String
  osFeatures : Option (List String)
  variant : Option String
deriving DecidableEq, Repr

def Platform.decode (j : Json) : Option Platform := do
  let slot ← fields ["architecture", "os", "os.version", "os.features", "variant"] j
  return {
    architecture := ← required string (slot "architecture")
    os := ← required string (slot "os")
    osVersion := ← optional string (slot "os.version")
    osFeatures := ← optional (vec string) (slot "os.features")
    variant := ← optional string (slot "variant") }

structure ManifestDescriptor where
  mediaType : String
  digest : String
  size : Int
  platform : Option Platform
  annotations : Option (List (String × String))
deriving DecidableEq, Repr

def ManifestDescriptor.decode (j : Json) : Option ManifestDescriptor := do
  let slot ← fields ["mediaType", "digest", "size", "platform", "annotations"] j
  return {
    mediaType := ← required string (slot "mediaType")
    digest := ← required string (slot "digest")
    size := ← required i64 (slot "size")
    platform := ← optional Platform.decode (slot "platform")
    annotations := ← optional stringMap (slot "annotations") }

structure ImageManifestV2 where
  schemaVersion : Int
  mediaType : String
  config : Descriptor
  layers : List Descriptor
deriving DecidableEq, Repr

def ImageManifestV2.decode (j : Json) : Option ImageManifestV2 := do
  let slot ← fields ["schemaVersion", "mediaType", "config", "layers"] j
  return {
    schemaVersion := ← required u32 (slot "schemaVersion")
    mediaType := ← required string (slot "mediaType")
    config := ← required Descriptor.decode (slot "config")
    layers := ← required (vec Descriptor.decode) (slot "layers") }

structure OciImageManifest where
  schemaVersion : Int
  mediaType : Option String
  config : Option Descriptor
  layers : List Descriptor
  annotations : Option (List (String × String))
deriving DecidableEq, Repr

def OciImageManifest.decode (j : Json) : Option OciImageManifest := do
  let slot ← fields ["schemaVersion", "mediaType", "config", "layers", "annotations"] j
  return {
    schemaVersion := ← required u32 (slot "schemaVersion")
    mediaType := ← optional string (slot "mediaType")
    config := ← optional Descriptor.decode (slot "config")
    layers := ← defaulted [] (vec Descriptor.decode) (slot "layers")
    annotations := ← optional stringMap (slot "annotations") }

structure OciImageIndex where
  schemaVersion : Int
  mediaType : Option String
  manifests : List ManifestDescriptor
  annotations : Option (List (String × String))
deriving DecidableEq, Repr

def OciImageIndex.decode (j : Json) : Option OciImageIndex := do
  let slot ← fields ["schemaVersion", "mediaType", "manifests", "annotations"] j
  return {
    schemaVersion := ← required u32 (slot "schemaVersion")
    mediaType := ← optional string (slot "mediaType")
    manifests := ← required (vec ManifestDescriptor.decode) (slot "manifests")
    annotations := ← optional stringMap (slot "annotations") }

inductive Manifest
  | dockerV2 (manifest : ImageManifestV2)
  | ociImage (manifest : OciImageManifest)
  | ociIndex (index : OciImageIndex)
deriving DecidableEq, Repr

/-! ### Media types -/

namespace MediaType

def dockerManifestV2 : String := "application/vnd.docker.distribution.manifest.v2+json"
def dockerManifestV2Alt : String := "application/vnd.docker.distribution.manifest.v2+prettyjws"
def dockerManifestList : String := "application/vnd.docker.distribution.manifest.list.v2+json"
def ociImageManifest : String := "application/vnd.oci.image.manifest.v1+json"
def ociImageIndex : String := "application/vnd.oci.image.index.v1+json"

end MediaType

namespace Manifest

def decoder? (contentType : String) : Option (Json → Option Manifest) :=
  if contentType = MediaType.dockerManifestV2 ∨ contentType = MediaType.dockerManifestV2Alt then
    some fun j => (ImageManifestV2.decode j).map dockerV2
  else if contentType = MediaType.ociImageManifest then
    some fun j => (OciImageManifest.decode j).map ociImage
  else if contentType = MediaType.ociImageIndex ∨ contentType = MediaType.dockerManifestList then
    some fun j => (OciImageIndex.decode j).map ociIndex
  else none

/-- `Manifest::from_bytes` with `fuel` nested calls: `none` when they do not suffice, `some none`
for an error. -/
def fromBytesFuel (serde : SerdeJson) (bytes : Bytes) :
    (fuel : Nat) → (contentType : String) → Option (Option Manifest)
  | 0, _ => none
  | fuel + 1, contentType =>
    match decoder? contentType with
    | some decode => some ((serde.parse bytes).bind decode)
    | none =>
      -- try to detect from content
      match (serde.value bytes).bind (getStr? "mediaType") with
      | some mediaType => fromBytesFuel serde bytes fuel mediaType
      -- default to OCI manifest
      | none => some ((serde.parse bytes).bind fun j => (OciImageManifest.decode j).map ociImage)

/-- `Manifest::from_bytes`; `none` when the recursion does not return. -/
def fromBytes (serde : SerdeJson) (bytes : Bytes) (contentType : String) :
    Option (Option Manifest) :=
  fromBytesFuel serde bytes 2 contentType

def digests : Manifest → String × List String
  | dockerV2 manifest =>
    ("blobs", (manifest.config :: manifest.layers).map Descriptor.digest)
  | ociImage manifest =>
    ("blobs", (manifest.config.toList ++ manifest.layers).map Descriptor.digest)
  | ociIndex index => ("manifests", index.manifests.map ManifestDescriptor.digest)

end Manifest

end Pkgly
