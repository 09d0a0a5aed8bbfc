import Pkgly.Go.Types
import Pkgly.Storage.StoragePath

/-!
# Requests to a Go proxy

`GoModuleRequest::from_path` tells the requests of the `GOPROXY` protocol apart by the suffixes of
the path; a module path stays as it is written there.  A request has a path in the storage, and
`build_proxy_url` gives the url that is asked for upstream.
-/

namespace Pkgly.Go

inductive GoRequestType
  | listVersions
  | versionInfo
  | goMod
  | moduleZip
  | latest
  | goModWithoutVersion
  | sumdbSupported
  | sumdbLookup
  | sumdbTile
deriving DecidableEq

def GoRequestType.isSumdb : GoRequestType → Bool
  | .sumdbSupported | .sumdbLookup | .sumdbTile => true
  | _ => false

structure GoModuleRequest where
  modulePath : GoModulePath
  version : Option GoVersion
  requestType : GoRequestType
  sumdbPath : Option String
deriving DecidableEq

namespace GoModuleRequest

def trimStartMatches (pat s : List Char) : List Char :=
  (fun s => if pat.isPrefixOf s then s.drop pat.length else s)^[s.length] s

/-- `trim_start_matches('/')`. -/
def trimSlashes (s : List Char) : List Char := s.dropWhile (· == '/')

def dummyModule : GoModulePath := ⟨"sumdb.request", by decide⟩

/-- A request to the checksum database; two dots in its path are refused. -/
def sumdbRequest (requestType : GoRequestType) (kind path : List Char) : Option GoModuleRequest :=
  if containsText ".." (String.ofList path) then none
  else some ⟨dummyModule, none, requestType, some (String.ofList (kind ++ path))⟩

def parseSumdbRequest (path : List Char) : Option GoModuleRequest :=
  let lookup := "sum.golang.org/lookup/".toList
  let tile := "sum.golang.org/tile/".toList
  if "/supported".toList.isSuffixOf path then
    let normalized := trimSlashes (trimStartMatches "sum.golang.org/".toList path)
    sumdbRequest .sumdbSupported [] (if normalized = [] then "supported".toList else normalized)
  else if lookup.isPrefixOf path then
    sumdbRequest .sumdbLookup "lookup/".toList (trimSlashes (path.drop lookup.length))
  else if tile.isPrefixOf path then
    sumdbRequest .sumdbTile "tile/".toList (trimSlashes (path.drop tile.length))
  else none

def moduleRequest (module : List Char) (requestType : GoRequestType) : Option GoModuleRequest :=
  (GoModulePath.new (String.ofList module)).map fun module => ⟨module, none, requestType, none⟩

/-- The version and the file that the last part of a path asks for. -/
def versionFile (file : List Char) : Option (List Char × GoRequestType) :=
  [(".info", .versionInfo), (".mod", .goMod), (".zip", .moduleZip)].findSome?
    fun (suffix, requestType) =>
      (stripSuffix suffix.toList file).map fun version => (version, requestType)

def fromPath (path : String) : Option GoModuleRequest :=
  let path := trimSlashes path.toList
  let deprecated := (stripSuffix "/go.mod".toList path).bind fun module =>
    moduleRequest module .goModWithoutVersion
  if path = [] then none
  else if "sumdb/".toList.isPrefixOf path then parseSumdbRequest (path.drop 6)
  else
    match stripSuffix "/@latest".toList path, stripSuffix "/@v/list".toList path,
      splitOnce "/@v/".toList path with
    | some module, _, _ => moduleRequest module .latest
    | _, some module, _ => moduleRequest module .listVersions
    | _, _, some (module, file) =>
      (GoModulePath.new (String.ofList module)).bind fun module =>
        match versionFile file with
        | some (version, requestType) =>
          (GoVersion.new (String.ofList version)).map fun version =>
            ⟨module, some version, requestType, none⟩
        | none => deprecated
    | _, _, _ => deprecated

/-- The text of the path of a request in the storage; `none` is `RepositoryHandlerError::NotFound`,
for a file without a version. -/
def storageText (request : GoModuleRequest) : Option String :=
  let module := request.modulePath.text
  let file := fun suffix => request.version.map fun version =>
    module ++ "/@v/" ++ version.text ++ suffix
  match request.requestType with
  | .listVersions => some (module ++ "/@v/list")
  | .versionInfo => file ".info"
  | .goMod => file ".mod"
  | .moduleZip => file ".zip"
  | .latest => some (module ++ "/@latest")
  | .goModWithoutVersion => some (module ++ "/go.mod")
  | .sumdbSupported => some "sumdb/supported"
  | .sumdbLookup => some "sumdb/lookup"
  | .sumdbTile => some "sumdb/tile"

def storagePath (request : GoModuleRequest) : Option StoragePath :=
  request.storageText.map .ofString

end GoModuleRequest

def withSlash (baseUrl : String) : String :=
  if endsWith "/" baseUrl then baseUrl else baseUrl ++ "/"

/-- `build_proxy_url`, where `parses` says what `Url::parse` accepts. -/
def buildProxyUrl (parses : String → Bool) (baseUrl : String) (request : GoModuleRequest) :
    Option String :=
  let module := request.modulePath.text
  let file := fun suffix => request.version.map fun version =>
    module ++ "/@v/" ++ version.text ++ suffix
  let urlPath := match request.requestType with
    | .listVersions => some (module ++ "/@v/list")
    | .versionInfo => file ".info"
    | .goMod => file ".mod"
    | .moduleZip => file ".zip"
    | .latest => some (module ++ "/@latest")
    | .goModWithoutVersion => some (module ++ "/@latest/go.mod")
    | .sumdbSupported | .sumdbLookup | .sumdbTile => none
  (urlPath.map fun urlPath => withSlash baseUrl ++ urlPath).filter parses

end Pkgly.Go
