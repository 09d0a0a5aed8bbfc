import Pkgly.Algorithm.Store
import Pkgly.Algorithm.Text
import Pkgly.Authentication.Permissions

/-!
# Docker bearer tokens

`handleDockerToken` checks the requested scopes one after another against what the caller may do,
and issues a token for all of them or fails.  The actions are collected for each repository.  A
caller with a user gets an auth token with these repository scopes and no general scope; an
anonymous caller gets a random text, for which the server remembers the repositories alone.

The calls of the database do not fail here, and a caller has been identified: how a token is found
by its text, and when it expires, belongs to the credentials.
-/

namespace Pkgly.Docker

def defaultTokenLifetime : Int := 15 * 60

/-- `DockerTokenQuery`, as far as it is used. -/
structure DockerTokenQuery where
  scope : List String
  clientId : Option String
deriving DecidableEq

/-- `DockerTokenResponse`, up to the time stamp. -/
structure DockerTokenResponse where
  token : String
  accessToken : String
  expiresIn : Int
  scope : Option String
deriving DecidableEq

inductive DockerTokenError
  | authentication
  | forbidden
  | invalidScope (scope : String)
  | repositoryNotFound (repository : String)
deriving DecidableEq

structure ParsedScope where
  raw : String
  storage : String
  repository : String
  actions : List RepositoryActions
deriving DecidableEq

/-! ### Scopes -/

def pushAction (actions : List RepositoryActions) (action : RepositoryActions) :
    List RepositoryActions :=
  if actions.contains action then actions else actions ++ [action]

def parseAction (actions : List RepositoryActions) (action : String) : List RepositoryActions :=
  if action = "pull" then pushAction actions .read
  else if action = "push" then pushAction actions .write
  else if action = "*" then pushAction (pushAction actions .read) .write
  -- the empty action, and the unsupported ones
  else actions

/-- One round of the loop of `parse_scopes`; a scope of another type is skipped. -/
def parseScope (scope : String) : Except DockerTokenError (Option ParsedScope) :=
  match pieces ':' scope with
  | [kind, name, actionsPart] =>
    if kind ≠ "repository" then .ok none
    else
      let parts := segments '/' name
      let parts := if parts.head? = some "repositories" then parts.tail else parts
      match parts with
      | storage :: repository :: _ =>
        .ok (some ⟨scope, storage, repository, (pieces ',' actionsPart).foldl parseAction []⟩)
      | _ => .error (.invalidScope scope)
  | _ => .error (.invalidScope scope)

def parseScopes (scopes : List String) : Except DockerTokenError (List ParsedScope) :=
  (scopes.flatMap words).filterMapM parseScope

/-! ### The state of the site -/

/-- The type of a repository, as far as OCI flows are concerned. -/
inductive RepositoryKind
  | docker
  | helm
  | other
deriving DecidableEq

/-- A repository (`DynRepository`). -/
structure LoadedRepository where
  id : Uuid
  kind : RepositoryKind
  isActive : Bool
  visibility : Visibility
deriving DecidableEq

/-- A row of `user_auth_tokens` with its scopes. -/
structure TokenRow where
  userId : Int
  source : String
  expiresAt : Option Int
  scopes : List NRScope
  repositoryScopes : Uuid → Option (List RepositoryActions)

structure DockerSite where
  users : Int → Option UserPermissions
  users_id : ∀ id user, users id = some user → user.id = id
  /-- `UserRepositoryPermissions::get_actions`. -/
  repositoryActions : Int → Uuid → Option (List RepositoryActions)
  getRepositoryFromNames : String → String → Option LoadedRepository
  repositoryAuthConfig : Uuid → RepositoryAuthConfig
  /-- The repository is in its table; its deletion deletes what the tokens record for it. -/
  repositoryExists : Uuid → Bool
  tokens : Store Int TokenRow
  nextTokenId : Int
  tokens_fresh : ∀ id, nextTokenId ≤ id → tokens.get id = none
  anonymousDockerTokens : Store String (List Uuid)

namespace DockerSite

def tables (site : DockerSite) : AccessTables where
  repositoryActions := site.repositoryActions
  tokenScopes id := ((site.tokens.get id).map TokenRow.scopes).getD []
  tokenRepositoryScopes id repository :=
    if site.repositoryExists repository then
      (site.tokens.get id).bind fun row => row.repositoryScopes repository
    else none

/-- `NewRepositoryToken::insert`. -/
def insertToken (site : DockerSite) (row : TokenRow) : DockerSite where
  users := site.users
  users_id := site.users_id
  repositoryActions := site.repositoryActions
  getRepositoryFromNames := site.getRepositoryFromNames
  repositoryAuthConfig := site.repositoryAuthConfig
  repositoryExists := site.repositoryExists
  tokens := site.tokens.put site.nextTokenId row
  nextTokenId := site.nextTokenId + 1
  tokens_fresh id h := by
    rw [Store.get_put_of_ne _ _ (by omega)]
    exact site.tokens_fresh id (by omega)
  anonymousDockerTokens := site.anonymousDockerTokens

def isAnonymous : RepositoryAuthentication → Bool
  | .noIdentification => true
  | .anonymousDocker .. => true
  | _ => false

/-- The caller may have `action` on `repository`. -/
def allowed (site : DockerSite) (auth : RepositoryAuthentication) (repository : LoadedRepository)
    (action : RepositoryActions) : Bool :=
  if isAnonymous auth then
    action == .read && repository.isActive &&
      canReadRepositoryWithAuth site.tables auth repository.visibility repository.id
        (site.repositoryAuthConfig repository.id)
  else auth.canAccessRepository site.tables action repository.id

abbrev Requests := Store Uuid (List RepositoryActions)

def requestActions (site : DockerSite) (auth : RepositoryAuthentication)
    (repository : LoadedRepository) :
    Requests → List RepositoryActions → Except DockerTokenError Requests
  | requests, [] => .ok requests
  | requests, action :: rest =>
    if site.allowed auth repository action then
      requestActions site auth repository
        (requests.put repository.id
          (pushAction ((requests.get repository.id).getD []) action)) rest
    else .error (if isAnonymous auth then .authentication else .forbidden)

def requestScopes (site : DockerSite) (auth : RepositoryAuthentication) :
    Requests → List ParsedScope → Except DockerTokenError Requests
  | requests, [] => .ok requests
  | requests, scope :: rest =>
    match site.getRepositoryFromNames scope.storage scope.repository with
    | none => .error (.repositoryNotFound scope.raw)
    | some repository =>
      if repository.kind = .other then .error (.invalidScope scope.raw)
      else
        match site.requestActions auth repository requests scope.actions with
        | .error e => .error e
        | .ok requests => requestScopes site auth requests rest

inductive IssuedToken
  | user (token : AuthToken)
  | anonymous (token : String)
deriving DecidableEq

/-- `handle_docker_token`; `secret` is the random text of the token. -/
def handleDockerToken (site : DockerSite) (auth : RepositoryAuthentication)
    (query : DockerTokenQuery) (now : Int) (secret : String) :
    Except DockerTokenError (DockerSite × IssuedToken × DockerTokenResponse) :=
  if auth.getUser.isNone && !isAnonymous auth then .error .authentication
  else
    match parseScopes query.scope with
    | .error e => .error e
    | .ok scopes =>
      match site.requestScopes auth ∅ scopes with
      | .error e => .error e
      | .ok requests =>
        let response : DockerTokenResponse :=
          ⟨secret, secret, defaultTokenLifetime,
            if query.scope.isEmpty then none else some (String.intercalate " " query.scope)⟩
        match auth.getUser with
        | some user =>
          .ok (site.insertToken
            { userId := user.id
              source := query.clientId.getD "docker_bearer"
              expiresAt := some (now + defaultTokenLifetime)
              scopes := []
              repositoryScopes := requests.get }, .user ⟨site.nextTokenId⟩, response)
        | none =>
          .ok ({ site with
            anonymousDockerTokens := site.anonymousDockerTokens.put secret requests.keys },
            .anonymous secret, response)

/-! ### Callers -/

/-- What identifies a caller, before `from_raw` loads the user. -/
inductive Credential
  | authToken (token : AuthToken)
  | session (userId : Int)
  /-- The name and the password of a user. -/
  | basic (userId : Int)
  /-- A token in the place of the password. -/
  | basicToken (token : AuthToken)
  | anonymousDocker (token : String) (repositories : List Uuid)
  | other (scheme value : String)
  | noIdentification

def tokenUser (site : DockerSite) (token : AuthToken) : Option UserPermissions :=
  (site.tokens.get token.id).bind fun row => site.users row.userId

/-- `from_raw`; without a user it fails. -/
def fromRaw (site : DockerSite) : Credential → Option RepositoryAuthentication
  | .authToken token => (site.tokenUser token).map (.authToken token)
  | .session userId => (site.users userId).map .session
  | .basic userId => (site.users userId).map (.basic none)
  | .basicToken token => (site.tokenUser token).map (.basic (some token))
  | .anonymousDocker token repositories => some (.anonymousDocker token repositories)
  | .other scheme value => some (.other scheme value)
  | .noIdentification => some .noIdentification

end DockerSite

end Pkgly.Docker
