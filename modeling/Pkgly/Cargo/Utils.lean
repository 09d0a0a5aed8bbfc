import Pkgly.Storage.DynStorage

/-!
# Crates

The names, paths, payloads and index entries of a Cargo registry (`repository/cargo/utils.rs`).
A version is the text of a `semver::Version`.  JSON is read and written by `serde_json`, which is a
parameter of what uses it.
-/

namespace Pkgly.Cargo

/-! ### Payloads -/

def isVersionChar (ch : Char) : Bool :=
  ch.isAlphanum || ch == '.' || ch == '-' || ch == '+'

/-- A `semver::Version`, by its text. -/
structure Version where
  text : String
  nonempty : text.toList ≠ []
  plain : text.toList.all isVersionChar = true
deriving DecidableEq

structure PublishDependency where
  name : String
  vers : Option String
  isOptional : Bool
  defaultFeatures : Bool
  features : List String
  target : Option String
  kind : Option String
  registry : Option String
  package : Option String
deriving DecidableEq

/-- `PublishMetadata`, as far as it gets into the index and into the rows. -/
structure PublishMetadata where
  name : String
  vers : Version
  deps : List PublishDependency
  features : List (String × List String)
  links : Option String
  v : Option ℕ
deriving DecidableEq

structure PublishPayload where
  metadata : PublishMetadata
  crateArchive : Bytes
deriving DecidableEq

inductive CargoUtilError
  | invalidCrateName (name : String)
  | truncatedPayload
  | metadataLengthMismatch
  | archiveLengthMismatch
  | invalidPublishMetadata (message : String)
deriving DecidableEq

def CargoUtilError.message : CargoUtilError → String
  | invalidCrateName name => "Invalid crate name: " ++ name
  | truncatedPayload => "Publish payload is truncated"
  | metadataLengthMismatch => "Publish metadata length mismatch"
  | archiveLengthMismatch => "Crate archive length mismatch"
  | invalidPublishMetadata message => "Invalid publish metadata: " ++ message

/-- `u32::from_le_bytes` of the first four bytes. -/
def u32FromLeBytes (bytes : Bytes) : ℕ :=
  (bytes.take 4).foldr (fun b n => b.toNat + 256 * n) 0

/-- `parse_publish_payload`; the metadata is read by `serde_json`. -/
def parsePublishPayload (fromSlice : Bytes → Except String PublishMetadata) (body : Bytes) :
    Except CargoUtilError PublishPayload :=
  if body.length < 8 then .error .truncatedPayload
  else
    let metadataLen := u32FromLeBytes body
    let rest := body.drop 4
    if rest.length < metadataLen then .error .metadataLengthMismatch
    else
      let archive := rest.drop metadataLen
      if archive.length < 4 then .error .truncatedPayload
      else
        let crateLen := u32FromLeBytes archive
        let content := archive.drop 4
        if content.length < crateLen then .error .archiveLengthMismatch
        else match fromSlice (rest.take metadataLen) with
          | .error message => .error (.invalidPublishMetadata message)
          | .ok metadata => .ok ⟨metadata, content.take crateLen⟩

/-! ### Names and paths -/

def normalizeCrateName (name : String) : String := toAsciiLowercase name

def isCrateChar (ch : Char) : Bool := ch.isLower || ch.isDigit || ch == '_' || ch == '-'

def isCrateName (name : String) : Bool := !name.isEmpty && name.toList.all isCrateChar

def indexDirectory : List Char → List Char
  | [] => []
  | [_] => ['1']
  | [_, _] => ['2']
  | [a, _, _] => ['3', '/', a]
  | a :: b :: c :: d :: _ => [a, b, '/', c, d]

def crateIndexRelativePath (crateName : String) : Except CargoUtilError String :=
  let normalized := normalizeCrateName crateName
  if isCrateName normalized then
    .ok (String.ofList (indexDirectory normalized.toList) ++ ("/" ++ normalized))
  else .error (.invalidCrateName crateName)

def crateArchiveStoragePath (crateName : String) (version : Version) : StoragePath :=
  let normalized := normalizeCrateName crateName
  .ofString ("crates" ++ ("/" ++ (normalized ++ ("/" ++ (version.text ++ ("/" ++
    (normalized ++ ("-" ++ (version.text ++ ".crate")))))))))

def sparseIndexStoragePath (crateName : String) : Except CargoUtilError StoragePath :=
  (crateIndexRelativePath crateName).map fun relative => .ofString ("index" ++ ("/" ++ relative))

/-! ### Index entries -/

structure IndexDependency where
  name : String
  req : String
  features : List String
  isOptional : Bool
  defaultFeatures : Bool
  target : Option String
  kind : Option String
  registry : Option String
  package : Option String
  explicitNameInToml : Bool
deriving DecidableEq

structure IndexEntry where
  name : String
  vers : String
  deps : List IndexDependency
  cksum : String
  features : List (String × List String)
  yanked : Bool
  links : Option String
  v : ℕ
deriving DecidableEq

def buildIndexEntry (metadata : PublishMetadata) (checksum : String) : IndexEntry where
  name := metadata.name
  vers := metadata.vers.text
  deps := metadata.deps.map fun dep => {
    name := dep.name
    req := dep.vers.getD "*"
    features := dep.features
    isOptional := dep.isOptional
    defaultFeatures := dep.defaultFeatures
    target := dep.target
    kind := dep.kind
    registry := dep.registry
    package := dep.package
    explicitNameInToml := dep.package.isSome }
  cksum := checksum
  features := metadata.features
  yanked := false
  links := metadata.links
  v := metadata.v.getD 2

end Pkgly.Cargo
