import Pkgly.Cargo.Utils
import Pkgly.Docker.Types

/-!
# The document of a publication

The derived instances that read `PublishMetadata` (`repository/cargo/utils.rs`).  The text of the
document is parsed by `serde_json`, a version by `semver`; both are parameters.
-/

namespace Pkgly

namespace Json

def boolean : Json → Option Bool
  | .bool b => some b
  | _ => none

/-- `Option<T>`. -/
def nullable {α : Type} (decode : Json → Option α) : Json → Option (Option α)
  | .null => some none
  | v => (decode v).map some

end Json

namespace Cargo

open Json

/-! ### The derived instances -/

def PublishDependency.decode (j : Json) : Option PublishDependency := do
  let slot ← fields ["name", "vers", "optional", "default_features", "features", "target", "kind",
    "registry", "package"] j
  return {
    name := ← required string (slot "name")
    vers := ← optional string (slot "vers")
    isOptional := ← defaulted false boolean (slot "optional")
    defaultFeatures := ← defaulted false boolean (slot "default_features")
    features := ← defaulted [] (vec string) (slot "features")
    target := ← defaulted none (nullable string) (slot "target")
    kind := ← defaulted none (nullable string) (slot "kind")
    registry := ← defaulted none (nullable string) (slot "registry")
    package := ← defaulted none (nullable string) (slot "package") }

/-- `HashMap<String, Vec<String>>`, in the order of the text. -/
def featureMap : Json → Option (List (String × List String))
  | .obj members => members.mapM fun m => (vec string m.2).map fun names => (m.1, names)
  | _ => none

/-- `HashMap<String, Value>`, whose values are not used. -/
def badgeMap : Json → Option Unit
  | .obj _ => some ()
  | _ => none

def textLists : List String := ["authors", "keywords", "categories"]

def optionalTexts : List String :=
  ["description", "documentation", "homepage", "repository", "license", "license_file", "readme",
    "readme_file"]

/-- The fields that are not kept are read as well. -/
def PublishMetadata.decode (semver : String → Option Version) (j : Json) :
    Option PublishMetadata := do
  let slot ← fields (["name", "vers", "deps", "features", "links", "v", "badges"] ++ textLists ++
    optionalTexts) j
  let _ ← textLists.mapM fun name => defaulted [] (vec string) (slot name)
  let _ ← optionalTexts.mapM fun name => defaulted none (nullable string) (slot name)
  let _ ← defaulted () badgeMap (slot "badges")
  return {
    name := ← required string (slot "name")
    vers := ← (required string (slot "vers")).bind semver
    deps := ← defaulted [] (vec PublishDependency.decode) (slot "deps")
    features := ← defaulted [] featureMap (slot "features")
    links := ← defaulted none (nullable string) (slot "links")
    v := ← (defaulted none (nullable u32) (slot "v")).map fun v => v.map Int.toNat }

/-- `serde_json::from_slice`. -/
def fromSlice (semver : String → Option Version) (parse : Bytes → Option Json) (bytes : Bytes) :
    Except String PublishMetadata :=
  match (parse bytes).bind (PublishMetadata.decode semver) with
  | some metadata => .ok metadata
  | none => .error "invalid document"

end Cargo

end Pkgly
