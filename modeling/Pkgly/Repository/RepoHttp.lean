import Pkgly.Docker.Handlers
import Pkgly.Repository.RepoAuth

/-!
# The repository dispatcher

`handleRepoRequestCore` is the part of `handle_repo_request_core` that a request to a hosted
Docker repository runs through: inactive repositories answer nothing, requests that require
authentication and carry none are refused, and everything else goes to the handlers.
-/

namespace Pkgly

open Docker

structure DockerHosted where
  id : Uuid
  isActive : Bool
  visibility : Visibility
  authConfig : RepositoryAuthConfig

def isReadOperation (method : Method) : Bool := method == .get || method == .head

def shouldRequireAuth (config : RepositoryAuthConfig) (isRead : Bool) : Bool :=
  if config.enabled then true else !isRead

def anonymousScopeDenied (auth : RepositoryAuthentication) (repository : Uuid) : Bool :=
  match auth with
  | .anonymousDocker _ repositories => !repositories.contains repository
  | _ => false

/-- The dispatcher hands the request to the handlers. -/
def admits (hosted : DockerHosted) (auth : RepositoryAuthentication) (method : Method) : Bool :=
  hosted.isActive &&
    !((anonymousScopeDenied auth hosted.id ||
        shouldRequireAuth hosted.authConfig (isReadOperation method)) && !auth.isAuthenticated)

def challengeResponse : Response :=
  ⟨401, [("Docker-Distribution-API-Version", "registry/2.0")],
    .text "authentication required"⟩

def disabledResponse : Response := ⟨403, [], .text "Repository is disabled"⟩

def handleRepoRequestCore (sha : Sha256) (serde : SerdeJson) (order : HashOrder)
    (hosted : DockerHosted) (auth : RepositoryAuthentication) (repo : DockerRepository)
    (req : DockerRequest) (method : Method) (path : StoragePath) :
    DockerRepository × Option (Except DockerError Response) :=
  if !hosted.isActive then answer repo (.ok disabledResponse)
  else
    let requiresAuth := anonymousScopeDenied auth hosted.id ||
      shouldRequireAuth hosted.authConfig (isReadOperation method)
    if requiresAuth && !auth.isAuthenticated then answer repo (.ok challengeResponse)
    else
      handleDocker sha serde order repo auth.getUser.isSome req method path

end Pkgly
