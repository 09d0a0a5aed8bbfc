import Pkgly.User.Permissions

/-!
# Repository authentication

`RepositoryAuthentication` is what a request has been authenticated as, and `hasAction` what it
may do with a repository.  The wrapper of virtual repositories (`virtualRepository`) redirects
read checks, and only those, to the virtual repository (`unwrapVirtualForAction`).
`canReadRepositoryWithAuth` is the read check of a repository with its visibility and its
authentication setting.
-/

namespace Pkgly

abbrev UserSafeData := UserPermissions

inductive RepositoryAuthentication
  /-- An auth token was passed under the `Authorization` header. -/
  | authToken (token : AuthToken) (user : UserSafeData)
  /-- A short-lived Docker token permitting anonymous reads of the listed repositories. -/
  | anonymousDocker (token : String) (repositories : List Uuid)
  | session (user : UserSafeData)
  | basic (token : Option AuthToken) (user : UserSafeData)
  | virtualRepository (virtualRepositoryId : Uuid) (inner : RepositoryAuthentication)
  /-- An authorization header of an unknown type. -/
  | other (scheme value : String)
  | noIdentification

namespace RepositoryAuthentication

def wrapForVirtualReads (self : RepositoryAuthentication) (virtualRepositoryId : Uuid) :
    RepositoryAuthentication :=
  virtualRepository virtualRepositoryId self

def unwrapVirtualForAction (action : RepositoryActions) :
    RepositoryAuthentication → Uuid → RepositoryAuthentication × Uuid
  | virtualRepository virtualRepositoryId inner, repository =>
    unwrapVirtualForAction action inner
      (if action = .read then virtualRepositoryId else repository)
  | auth, repository => (auth, repository)

def getUser : RepositoryAuthentication → Option UserSafeData
  | authToken _ user => some user
  | session user => some user
  | basic _ user => some user
  | virtualRepository _ inner => inner.getUser
  | _ => none

def getPermissions (auth : RepositoryAuthentication) : Option UserPermissions := auth.getUser

def userId (auth : RepositoryAuthentication) : Option Int := auth.getUser.map UserPermissions.id

def hasAction (db : AccessTables) (self : RepositoryAuthentication) (action : RepositoryActions)
    (repository : Uuid) : Bool :=
  let (auth, effective) := unwrapVirtualForAction action self repository
  match auth with
  | authToken token user => doesUserAndTokenHaveRepositoryAction db user token action effective
  | basic (some token) user => doesUserAndTokenHaveRepositoryAction db user token action effective
  | auth => checkUserRepositoryAction db auth.getPermissions auth.userId action effective

def isVirtualRepository : RepositoryAuthentication → Bool
  | virtualRepository .. => true
  | _ => false

/-- The request carries the credentials of a user (`is_authenticated`). -/
def isAuthenticated : RepositoryAuthentication → Bool
  | authToken .. => true
  | session .. => true
  | basic .. => true
  | _ => false

theorem isSome_getUser {auth : RepositoryAuthentication} (h : auth.isAuthenticated = true) :
    auth.getUser.isSome = true := by
  cases auth <;> simp [isAuthenticated] at h <;> rfl

end RepositoryAuthentication

inductive Visibility
  | «public»
  /-- Only users with the correct permissions can read. -/
  | «private»
  /-- Readable, but not indexed. -/
  | hidden
deriving DecidableEq, Repr

structure RepositoryAuthConfig where
  enabled : Bool
deriving DecidableEq, Repr

def canReadRepository (db : AccessTables) (auth : RepositoryAuthentication)
    (visibility : Visibility) (repository : Uuid) : Bool :=
  if visibility = .«private» ∨ visibility = .hidden then auth.hasAction db .read repository else true

def canReadRepositoryWithAuth (db : AccessTables) (auth : RepositoryAuthentication)
    (visibility : Visibility) (repository : Uuid) (config : RepositoryAuthConfig) : Bool :=
  if config.enabled then auth.hasAction db .read repository
  else canReadRepository db auth visibility repository

end Pkgly
