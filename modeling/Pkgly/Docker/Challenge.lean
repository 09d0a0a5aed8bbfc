import Pkgly.Algorithm.Trim
import Pkgly.Docker.Auth

/-!
# Bearer challenges of a registry

A request that lacks rights is answered with the text of `buildDockerBearerChallenge`, which names
the token endpoint, the service and the scope that a token is needed for.  A proxy reads the
challenge of its upstream with `parseBearerChallenge`.  The scope of a path is
`dockerRepositoryScope`; a client sends it back to the token endpoint, where `parseScopes` reads it.
-/

namespace Pkgly.Docker

/-! ### Scopes -/

def trimMatches (c : Char) (s : List Char) : List Char := trimWhile (· == c) s

def trimEndMatches (c : Char) (s : List Char) : List Char :=
  s.rdropWhile (· == c)

/-- The markers after which a path no longer names a repository. -/
def scopeMarkers : List String := ["/blobs/", "/manifests/", "/tags/", "/_catalog"]

def scopeEnd (trimmed : List Char) : ℕ :=
  scopeMarkers.foldl (fun end' marker =>
    match splitOnce marker.toList trimmed with
    | some (before, _) => if before.length < end' then before.length else end'
    | none => end') trimmed.length

/-- What a path adds to the name of its repository. -/
def repoSuffix (rest : String) : List Char :=
  let trimmed := trimMatches '/' rest.toList
  trimEndMatches '/' (trimmed.take (scopeEnd trimmed))

def dockerRepositoryScope (storage repository rest : String) : String :=
  if trimMatches '/' rest.toList = [] then storage ++ "/" ++ repository
  else if repoSuffix rest = [] then storage ++ "/" ++ repository
  else storage ++ "/" ++ repository ++ "/" ++ String.ofList (repoSuffix rest)

/-! ### Challenges -/

def challengeScope (repositoryScope : String) (actions : List String) : String :=
  "repository:" ++ repositoryScope ++ ":" ++ String.intercalate "," actions

/-- `build_docker_bearer_challenge`, for the location that `resolve_registry_location` finds. -/
def buildDockerBearerChallenge (baseUrl service repositoryScope : String) (actions : List String) :
    String :=
  "Bearer realm=\"" ++ baseUrl ++ "/v2/token\",service=\"" ++ service ++ "\",scope=\"" ++
    challengeScope repositoryScope actions ++ "\""

structure BearerChallenge where
  realm : String
  service : Option String
  scope : Option String
deriving DecidableEq

structure BearerParams where
  realm : Option String
  service : Option String
  scope : Option String

/-- The key and the value of a part; the value is without the quotes around it. -/
def readParam (part : List Char) : Option (String × String) :=
  match splitOnce ['='] (trim (String.ofList part)) with
  | none => none
  | some (key, val) =>
    some (String.ofList (trim (String.ofList key)),
      String.ofList (trimMatches '"' (trim (String.ofList val))))

/-- Keep the value of a key; other keys are ignored. -/
def BearerParams.set (params : BearerParams) (key val : String) : BearerParams :=
  if key = "realm" then { params with realm := some val }
  else if key = "service" then { params with service := some val }
  else if key = "scope" then { params with scope := some val }
  else params

/-- The loop over the parts; one without an equals sign ends it. -/
def readParams : BearerParams → List (List Char) → Option BearerParams
  | params, [] => some params
  | params, part :: rest =>
    match readParam part with
    | none => none
    | some (key, val) => readParams (params.set key val) rest

def parseBearerChallenge (header : String) : Option BearerChallenge :=
  if startsWith "bearer " (toAsciiLowercase header) then
    match readParams ⟨none, none, none⟩
        ((trim (String.ofList (header.toList.drop "Bearer ".length))).splitOn ',') with
    | none => none
    | some params => params.realm.map fun realm => ⟨realm, params.service, params.scope⟩
  else none

end Pkgly.Docker
