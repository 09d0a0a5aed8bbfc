import Pkgly.Algorithm.Store
import Pkgly.Authentication.Permissions
import Pkgly.Storage.DynStorage

/-!
# Names, routes and publications of an npm registry

`NPMPackageName`, the routes of the registry (`GetPath`, `parse_tag_path`), and the check of a
publish request against its route (`validate_publication`).  The crates that parse versions and URLs
are the parameter `NpmFormat`.
-/

namespace Pkgly.Npm

/-! ### Package names -/

structure InvalidNPMPackageName where
  name : String
  reason : String
deriving DecidableEq

/-- The characters that `validate_name` accepts. -/
def isNameChar (c : Char) : Bool :=
  (c.isAlphanum || c == '-' || c == '_') && (!c.isAlpha || c.isLower)

/-- `NPMPackageName::validate_name`: the first character that is not accepted is reported. -/
def validateName (name : String) : Except InvalidNPMPackageName Unit :=
  match name.toList.find? fun c => !isNameChar c with
  | none => .ok ()
  | some c =>
    if !c.isAlphanum && c != '-' && c != '_' then
      .error ⟨name, "All characters must be alphanumeric, \x60_\x60, or \x60-\x60"⟩
    else .error ⟨name, "All characters must be lowercase"⟩

structure NPMPackageName where
  name : String
  scope : Option String
  valid_name : validateName name = .ok ()
  valid_scope : ∀ s ∈ scope, s ≠ "" ∧ validateName s = .ok ()
deriving DecidableEq

/-- `impl Display for NPMPackageName`. -/
def NPMPackageName.toString' (name : NPMPackageName) : String :=
  match name.scope with
  | some scope => "@" ++ scope ++ "/" ++ name.name
  | none => name.name

def NPMPackageName.tryFrom (value : String) : Except InvalidNPMPackageName NPMPackageName :=
  if startsWith "@" value then
    match pieces '/' value with
    | [first, name] =>
      let scope := String.ofList (first.toList.dropWhile (· == '@'))
      if hempty : scope = "" then .error ⟨value, "Scope cannot be empty"⟩
      else
        match hname : validateName name with
        | .error e => .error e
        | .ok () =>
          match hscope : validateName scope with
          | .error e => .error e
          | .ok () => .ok ⟨name, some scope, hname, fun s hs => by
              obtain rfl := Option.some.inj hs
              exact ⟨hempty, hscope⟩⟩
    | _ => .error ⟨value, "Invalid scope format. Must be @scope/name"⟩
  else
    match hname : validateName value with
    | .error e => .error e
    | .ok () => .ok ⟨value, none, hname, fun s hs => by cases hs⟩

/-! ### Other crates -/

structure NpmFormat where
  /-- `semver::Version::parse`: the pre-release of a version. -/
  parseVersion : String → Option String
  /-- `Url::from_str` and `path_segments`. -/
  pathSegments : String → Except String (Option (List String))
  /-- `percent_decode_str` and `decode_utf8`. -/
  percentDecode : String → Option String
  /-- A version has digits, letters, dots, hyphens and plus signs. -/
  version_component : ∀ v, (parseVersion v).isSome → v ≠ "" ∧ '/' ∉ v.toList

/-- `semver::Version::parse(version).is_ok()`. -/
def NpmFormat.isVersion (format : NpmFormat) (version : String) : Bool :=
  (format.parseVersion version).isSome

/-! ### Routes -/

inductive GetPath
  | registryBase
  | search
  | getPackageInfo (name : String)
  | versionInfo (name version : String)
  | getTar (name version file : String)
deriving DecidableEq

/-- `NPMRegistryError`, as far as publishing, reading and tags need it. -/
inductive NPMRegistryError
  | invalidGetRequest
  | invalidTarball (tarballRoute error : String)
  | invalidPublication
  | cannotRemoveLatest
  | invalidDistTags
  /-- The storage or the database fails. -/
  | other
deriving DecidableEq

def stripPrefix (pat s : List Char) : Option (List Char) :=
  if pat.isPrefixOf s then some (s.drop pat.length) else none

def extractVersionFromFile (format : NpmFormat) (file package : String) : Option String :=
  let name := (pieces '/' package).getLast?.getD ""
  ((stripPrefix (name ++ "-").toList file.toList).bind (stripSuffix ".tgz".toList)).bind
    fun version =>
      if format.isVersion (String.ofList version) then some (String.ofList version) else none

def getTar (format : NpmFormat) (name file : String) : Except NPMRegistryError GetPath :=
  match extractVersionFromFile format file name with
  | some version => .ok (.getTar name version file)
  | none => .error .invalidGetRequest

def scopedPackageCall (format : NpmFormat) : List String → Except NPMRegistryError GetPath
  | [scope, name] => .ok (.getPackageInfo (scope ++ "/" ++ name))
  | [scope, name, version] => .ok (.versionInfo (scope ++ "/" ++ name) version)
  | [scope, name, dash, file] =>
    if dash = "-" then getTar format (scope ++ "/" ++ name) file else .error .invalidGetRequest
  | [scope, name, dash, scope', file] =>
    if dash = "-" ∧ scope' = scope then getTar format (scope ++ "/" ++ name) file
    else .error .invalidGetRequest
  | _ => .error .invalidGetRequest

def unscopedPackageCall (format : NpmFormat) : List String → Except NPMRegistryError GetPath
  | [name] => .ok (.getPackageInfo name)
  | [name, version] => .ok (.versionInfo name version)
  | [name, dash, file] => if dash = "-" then getTar format name file else .error .invalidGetRequest
  | _ => .error .invalidGetRequest

/-- `impl TryFrom<StoragePath> for GetPath`. -/
def GetPath.tryFrom (format : NpmFormat) (path : StoragePath) : Except NPMRegistryError GetPath :=
  if path.components.isEmpty then .ok .registryBase
  else if startsWith "@" path.toString' then scopedPackageCall format path.components
  else unscopedPackageCall format path.components

/-! ### Publish requests -/

structure PublishDist where
  integrity : String
  shasum : String
  tarball : String
deriving DecidableEq

/-- `PublishVersion`; `rest` are its other fields. -/
structure PublishVersion (ε : Type) where
  name : NPMPackageName
  version : String
  dist : PublishDist
  rest : ε
deriving DecidableEq

structure RepositoryNames where
  storage : String
  repository : String

def PublishDist.validateTarball (format : NpmFormat) (names : RepositoryNames) (dist : PublishDist) :
    Except NPMRegistryError StoragePath :=
  match format.pathSegments dist.tarball with
  | .error error => .error (.invalidTarball dist.tarball ("Invalid URL: " ++ error))
  | .ok none => .error (.invalidTarball dist.tarball "No Path")
  | .ok (some segments) =>
    if segments[0]? ≠ some "repositories" then
      .error (.invalidTarball dist.tarball "Missing base path")
    else if !segments[1]?.any fun name => eqIgnoreAsciiCase name names.storage then
      .error (.invalidTarball dist.tarball "Missing storage name")
    else if !segments[2]?.any fun name => eqIgnoreAsciiCase name names.repository then
      .error (.invalidTarball dist.tarball "Missing repository name")
    else
      match format.percentDecode (String.intercalate "/" (segments.drop 3)) with
      | none => .error (.invalidTarball dist.tarball "Invalid UTF-8 in tarball path")
      | some decoded => .ok (.ofString decoded)

structure PublishRequest (ε : Type) where
  route : StoragePath
  name : String
  version : String
  data : PublishVersion ε
  attachmentName : String
  attachment : Bytes

/-- `{name}-{version}.tgz`. -/
def PublishVersion.file {ε : Type} (data : PublishVersion ε) : String :=
  data.name.name ++ "-" ++ data.version ++ ".tgz"

def validatePublication {ε : Type} (format : NpmFormat) (names : RepositoryNames)
    (request : PublishRequest ε) : Except NPMRegistryError String :=
  let data := request.data
  if request.name = "" ∨ data.name.name = "" ∨ request.name ≠ data.name.toString' ∨
      request.route.toString' ≠ request.name ∨ request.version ≠ data.version ∨
      format.isVersion request.version = false then .error .invalidPublication
  else
    let file := data.name.name ++ "-" ++ request.version ++ ".tgz"
    if request.attachmentName ≠ file ∧
        data.name.scope.map (fun scope => "@" ++ scope ++ "/" ++ file) ≠
          some request.attachmentName then .error .invalidPublication
    else
      match data.dist.validateTarball format names with
      | .error e => .error e
      | .ok advertised =>
        match GetPath.tryFrom format advertised with
        | .ok (.getTar target targetVersion targetFile) =>
          if target = request.name ∧ targetVersion = request.version ∧ targetFile = file then
            .ok file
          else .error .invalidPublication
        | _ => .error .invalidPublication

end Pkgly.Npm

/-!
## Distribution tags of npm

Which tags are valid, the route of the tags (`parse_tag_path`), who may read them, and the tags of
projects that were published before tags were stored (`legacy_dist_tags`).
-/

namespace Pkgly.Npm

abbrev Tags := Store String String

structure TagFormat extends NpmFormat where
  /-- `semver::VersionReq::parse(range).is_ok()`. -/
  isVersionReq : String → Bool

def isTagChar (ch : Char) : Bool :=
  ch.isAlphanum || ['-', '_', '.', '!', '~', '*', '\x27', '(', ')'].contains ch

def validTag (format : TagFormat) (tag : String) : Bool :=
  tag != "" && tag.toList.all isTagChar &&
    !format.isVersionReq (match tag.toList with
      | 'v' :: rest => String.ofList rest
      | _ => tag)

/-- `publish_tags`: the tags of a publication, if they all name its version. -/
def publishTags (format : TagFormat) (tags : Tags) (version : String) : Option Tags :=
  let tags := if tags.keys = [] then tags.put "latest" version else tags
  if tags.keys.any fun tag => !validTag format tag || tags.get tag != some version then none
  else some tags

/-- `legacy_dist_tags`: the first version that is stable is the latest one. -/
def legacyDistTags (format : TagFormat) (versions : List String) : Tags :=
  match versions.find? fun version => format.parseVersion version == some "" with
  | some version => ( ∅ : Tags).put "latest" version
  | none => ∅

/-- `split_part(version, '+', 1) NOT LIKE '%-%'`. -/
def isStableCandidate (version : String) : Bool :=
  !(version.toList.takeWhile (· != '+')).contains '-'

def parseTagPath (format : TagFormat) (path : String) : Option (String × Option String) :=
  (stripPrefix "-/package/".toList path.toList).bind fun rest =>
    let route := fun (name : String) (components : List String) =>
      match components with
      | ["dist-tags"] => if name = "" then none else some (name, none)
      | ["dist-tags", tag] => if name = "" || !validTag format tag then none else some (name, some tag)
      | _ => none
    match pieces '/' (String.ofList rest) with
    | [] => none
    | first :: components =>
      if startsWith "@" first then
        match components with
        | [] => none
        | second :: components => route (first ++ "/" ++ second) components
      else route first components

def canReadTags (db : AccessTables) (auth : RepositoryAuthentication) (requireAuth : Bool)
    (visibility : Visibility) (repository : Uuid) : Bool :=
  if auth.isVirtualRepository then true
  else if !requireAuth && visibility == .«public» then true
  else auth.canAccessRepository db .read repository

end Pkgly.Npm
