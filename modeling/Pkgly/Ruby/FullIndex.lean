import Pkgly.Ruby.Hosted
import Pkgly.Ruby.Utils

/-!
# Quick gemspecs

`full_index.rs`: the object that `quick/Marshal.4.8` serves for a gem, which is built from the
metadata that was recorded when the gem was published.  The constraints, which are texts there, are
split into operators and versions again.

That Marshal and zlib read back what they write is assumed: only the object is modelled.
-/

/-!
## Gemspecs

`gem.rs`: what is read of the metadata of a gem, which is a YAML document or a Ruby object in the
Marshal format.  The two readers follow the same plan: a constraint is a pair of an operator and a
version, which is kept as a text with a space between them, and the constraints on Ruby and on
RubyGems are joined with ampersands.

The readers of YAML and of Marshal are parameters (`GemFormat`).  The archive around the metadata
and the limits on its size are not modelled.
-/

namespace Pkgly.Ruby

/-! ### Values -/

/-- `serde_yaml::Value`. -/
inductive YamlValue
  | null
  | bool (value : Bool)
  /-- A number, as it is printed. -/
  | number (text : String)
  | string (text : String)
  | sequence (items : List YamlValue)
  | mapping (entries : List (YamlValue × YamlValue))
  | tagged (tag : String) (value : YamlValue)

inductive RbAny
  | int (value : ℤ)
  | false
  | nil
  /-- A symbol; its text is `none` if it is not UTF-8. -/
  | symbol (text : Option String)
  | str (text : String)
  /-- A string with an encoding. -/
  | strI (content : Bytes)
  | array (items : List RbAny)
  | object (name : Option String) (fields : List (String × RbAny))
  /-- Any other value. -/
  | other

structure GemFormat where
  /-- `serde_yaml::from_slice`. -/
  fromSlice : Bytes → Except String YamlValue
  /-- `thurgood::rc::from_reader`. -/
  fromReader : Bytes → Except String RbAny

def joinConstraints (constraints : List String) : Option String :=
  if constraints.isEmpty then none else some (String.intercalate "&" constraints)

/-! ### Marshal -/

def extractString : RbAny → Option String
  | .str text => some text
  | .strI content => fromUtf8 content
  | _ => none

def extractSymbolOrString : RbAny → Option String
  | .symbol text => text
  | value => extractString value

def getStringField (fields : List (String × RbAny)) (key : String) : Option String :=
  (fields.lookup key).bind extractString

def extractGemVersion (value : RbAny) : Option String :=
  (extractSymbolOrString value).or
    (match value with
      | .object name fields =>
        if name = some "Gem::Version" then getStringField fields "@version" else none
      | _ => none)

def extractPlatform (value : RbAny) : Option String :=
  (extractSymbolOrString value).or
    (match value with
      | .object name fields =>
        if name = some "Gem::Platform" then
          (getStringField fields "@cpu").bind fun cpu =>
            (getStringField fields "@os").map fun os =>
              match getStringField fields "@version" with
              | some version => if version = "" then cpu ++ "-" ++ os
                else cpu ++ "-" ++ os ++ "-" ++ version
              | none => cpu ++ "-" ++ os
        else none
      | _ => none)

def extractPairs : List RbAny → Option (List String)
  | [] => some []
  | .array [op, version] :: items =>
    (extractSymbolOrString op).bind fun op =>
      (extractGemVersion version).bind fun version =>
        (extractPairs items).map fun out => (op ++ " " ++ version) :: out
  | .array _ :: items => extractPairs items
  | _ :: _ => none

def extractRequirementConstraints : RbAny → Option (List String)
  | .object name fields =>
    if name = some "Gem::Requirement" then
      match fields.lookup "@requirements" with
      | some (.array items) => extractPairs items
      | _ => none
    else none
  | _ => none

def extractRequirement (value : RbAny) : Option String :=
  (extractRequirementConstraints value).bind joinConstraints

/-- What is read of one dependency; the dependencies for development are left out. -/
def extractDependency : RbAny → Option RubyDependencyMetadata
  | .object _ fields =>
    if (fields.lookup "@type").bind extractSymbolOrString = some "development" then none
    else
      (getStringField fields "@name").map fun name =>
        ⟨name, ((fields.lookup "@requirement").bind extractRequirementConstraints).getD []⟩
  | _ => none

def extractDependencies (values : List RbAny) : List RubyDependencyMetadata :=
  values.filterMap extractDependency

def extractGemspec : RbAny → Except String ParsedGemSpec
  | .object _ fields =>
    match getStringField fields "@name" with
    | none => .error "Gemspec missing @name"
    | some name =>
      match fields.lookup "@version" with
      | none => .error "Gemspec missing @version"
      | some versionValue =>
        match extractGemVersion versionValue with
        | none => .error "Gemspec @version is invalid"
        | some version =>
          .ok {
            name
            version
            platform := ((fields.lookup "@platform").bind extractPlatform).filter (· ≠ "ruby")
            dependencies := match fields.lookup "@dependencies" with
              | some (.array values) => extractDependencies values
              | _ => []
            requiredRuby := (fields.lookup "@required_ruby_version").bind extractRequirement
            requiredRubygems :=
              (fields.lookup "@required_rubygems_version").bind extractRequirement }
  | _ => .error "Gemspec metadata is not an object"

/-! ### YAML -/

/-- `untag_ref`. -/
def YamlValue.untag : YamlValue → YamlValue
  | .tagged _ value => value.untag
  | value => value

def YamlValue.asMapping (value : YamlValue) : Option (List (YamlValue × YamlValue)) :=
  match value.untag with
  | .mapping entries => some entries
  | _ => none

def YamlValue.asSequence (value : YamlValue) : Option (List YamlValue) :=
  match value.untag with
  | .sequence items => some items
  | _ => none

def yamlGet (key : String) : List (YamlValue × YamlValue) → Option YamlValue
  | [] => none
  | (.string name, value) :: entries => if name = key then some value else yamlGet key entries
  | _ :: entries => yamlGet key entries

def yamlStringValue : YamlValue → Option String
  | .string text => some text
  | .number text => some text
  | _ => none

def yamlString (map : List (YamlValue × YamlValue)) (key : String) : Option String :=
  (yamlGet key map).bind yamlStringValue

def yamlVersion (value : YamlValue) : Option String :=
  (yamlStringValue value).or (value.asMapping.bind fun map => yamlString map "version")

def extractYamlPairs : List YamlValue → Option (List String)
  | [] => some []
  | entry :: entries =>
    match entry.asSequence with
    | none => none
    | some [op, version] =>
      (yamlStringValue op).bind fun op =>
        (yamlVersion version).bind fun version =>
          (extractYamlPairs entries).map fun out => (op ++ " " ++ version) :: out
    | some _ => extractYamlPairs entries

def extractYamlRequirementConstraints (value : YamlValue) : Option (List String) :=
  value.asMapping.bind fun map =>
    (yamlGet "requirements" map).bind fun requirements =>
      requirements.asSequence.bind extractYamlPairs

def extractYamlRequirement (value : YamlValue) : Option String :=
  (extractYamlRequirementConstraints value).bind joinConstraints

/-- What is read of one dependency; the dependencies for development are left out. -/
def extractYamlDependency (value : YamlValue) : Option RubyDependencyMetadata :=
  value.asMapping.bind fun map =>
    let depType := ((yamlString map "type").getD "runtime").toList.dropWhile (· == ':')
    if depType = "development".toList then none
    else
      (yamlString map "name").map fun name =>
        ⟨name, ((yamlGet "requirement" map).bind extractYamlRequirementConstraints).getD []⟩

def extractYamlDependencies (values : List YamlValue) : List RubyDependencyMetadata :=
  values.filterMap extractYamlDependency

def extractYamlGemspec (spec : YamlValue) : Except String ParsedGemSpec :=
  match spec.asMapping with
  | none => .error "Gemspec YAML is not a mapping"
  | some map =>
    match yamlString map "name" with
    | none => .error "Gemspec missing name"
    | some name =>
      match yamlGet "version" map with
      | none => .error "Gemspec missing version"
      | some versionValue =>
        match yamlVersion versionValue with
        | none => .error "Gemspec version is invalid"
        | some version =>
          .ok {
            name
            version
            platform := (yamlString map "platform").filter (· ≠ "ruby")
            dependencies := match (yamlGet "dependencies" map).bind YamlValue.asSequence with
              | some values => extractYamlDependencies values
              | none => []
            requiredRuby := (yamlGet "required_ruby_version" map).bind extractYamlRequirement
            requiredRubygems :=
              (yamlGet "required_rubygems_version" map).bind extractYamlRequirement }

def parseYamlGemspec (format : GemFormat) (metadata : Bytes) : Except String ParsedGemSpec :=
  match format.fromSlice metadata with
  | .error err => .error ("Failed to parse gemspec YAML: " ++ err)
  | .ok spec => extractYamlGemspec spec

def parseGemspecMetadata (format : GemFormat) (metadata : Bytes) : Except String ParsedGemSpec :=
  if (intoBytes "---").isPrefixOf metadata then parseYamlGemspec format metadata
  else
    match format.fromReader metadata with
    | .ok gemspec => extractGemspec gemspec
    | .error err =>
      match parseYamlGemspec format metadata with
      | .ok parsed => .ok parsed
      | .error _ => .error ("Failed to parse gemspec metadata: " ++ err)

end Pkgly.Ruby

namespace Pkgly.Ruby

structure GemSpecEntry where
  name : String
  version : String
  platform : String
  dependencies : List RubyDependencyMetadata
  requiredRuby : Option String
  requiredRubygems : Option String

def gemVersion (version : String) : RbAny :=
  .object (some "Gem::Version") [("@version", .str version)]

def parseSingleConstraint (input : String) : Option (String × String) :=
  let trimmed := String.ofList (trim input)
  if trimmed = "" then none
  else
    match words trimmed with
    | [single] => if single.toList.head?.any Char.isDigit then some ("=", single) else none
    | op :: version :: _ => some (op, version)
    | [] => none

def parseRequirementConstraints (raw : Option String) : List (String × String) :=
  match raw with
  | none => [(">=", "0")]
  | some raw =>
    let out := (pieces '&' raw).filterMap parseSingleConstraint
    if out.isEmpty then [(">=", "0")] else out

def buildRequirement (raw : Option String) : RbAny :=
  .object (some "Gem::Requirement")
    [("@requirements", .array ((parseRequirementConstraints raw).map fun constraint =>
      .array [.str constraint.1, gemVersion constraint.2]))]

/-- An operator and a version in one text. -/
def formatConstraint (constraint : String × String) : String :=
  constraint.1 ++ " " ++ constraint.2

def buildDependency (dep : RubyDependencyMetadata) : RbAny :=
  let constraints := dep.requirements.filterMap parseSingleConstraint
  let raw := String.intercalate "&" (constraints.map formatConstraint)
  let requirement := buildRequirement (some raw)
  .object (some "Gem::Dependency") [("@name", .str dep.name), ("@prerelease", .false),
    ("@requirement", requirement), ("@version_requirements", requirement),
    ("@type", .symbol (some "runtime"))]

/-- The object that `build_gemspec_rz` serialises. -/
def gemspecObject (spec : GemSpecEntry) : RbAny :=
  .object (some "Gem::Specification") [("@name", .str spec.name),
    ("@version", gemVersion spec.version), ("@platform", .str spec.platform),
    ("@new_platform", .str spec.platform), ("@original_platform", .str spec.platform),
    ("@dependencies", .array (spec.dependencies.map buildDependency)),
    ("@required_ruby_version", buildRequirement spec.requiredRuby),
    ("@required_rubygems_version", buildRequirement spec.requiredRubygems),
    ("@specification_version", .int 4)]

/-- The gemspec that `build_quick_gemspec_bytes` makes of the parts of the file name that was asked
for and the metadata that was recorded. -/
def quickGemspec (parsed : ParsedGemFileName) (metadata : RubyPackageMetadata) : GemSpecEntry where
  name := parsed.name
  version := parsed.version
  platform := parsed.platform.getD "ruby"
  dependencies := metadata.dependencies
  requiredRuby := metadata.requiredRuby
  requiredRubygems := metadata.requiredRubygems

end Pkgly.Ruby
