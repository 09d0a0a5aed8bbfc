import Pkgly.Repository.RepoAuth

/-!
# Permission checks

The trait `HasPermissions`, with the checks that handlers make: `hasAction` on a repository, the two
checks of a role, and `canReadRepositoryWithAuth`.  Its instances are the user, an `Authentication`
of the API (by session or by auth token), an authentication that may be missing, and a
`RepositoryAuthentication`.
-/

namespace Pkgly

/-- The trait `HasPermissions`. -/
class HasPermissions (α : Type) where
  userId : α → Option Int
  getPermissions : α → Option UserPermissions
  hasAction : AccessTables → α → RepositoryActions → Uuid → Bool

namespace HasPermissions

variable {α : Type} [HasPermissions α]

def isAdminOrUserManager (self : α) : Bool :=
  ((getPermissions self).map UserPermissions.isAdminOrUserManager).getD false

def isAdminOrSystemManager (self : α) : Bool :=
  ((getPermissions self).map UserPermissions.isAdminOrSystemManager).getD false

def canReadRepository (db : AccessTables) (auth : α) (visibility : Visibility)
    (repository : Uuid) : Bool :=
  if visibility = .«private» ∨ visibility = .hidden then hasAction db auth .read repository else true

def canReadRepositoryWithAuth (db : AccessTables) (auth : α) (visibility : Visibility)
    (repository : Uuid) (config : RepositoryAuthConfig) : Bool :=
  if config.enabled then hasAction db auth .read repository
  else canReadRepository db auth visibility repository

end HasPermissions

instance : HasPermissions UserPermissions where
  userId user := some user.id
  getPermissions user := some user
  hasAction := UserPermissions.hasAction

instance {α : Type} [HasPermissions α] : HasPermissions (Option α) where
  userId self := self.bind HasPermissions.userId
  getPermissions self := self.bind HasPermissions.getPermissions
  hasAction db self action repository :=
    match self with
    | some auth => HasPermissions.hasAction db auth action repository
    | none => false

inductive Authentication
  /-- An auth token was passed under the `Authorization` header. -/
  | authToken (token : AuthToken) (user : UserSafeData)
  /-- The session of a cookie. -/
  | session (user : UserSafeData)

namespace Authentication

def user : Authentication → UserSafeData
  | authToken _ user | session user => user

def hasAction (db : AccessTables) (self : Authentication) (action : RepositoryActions)
    (repository : Uuid) : Bool :=
  match self with
  | authToken token user => doesUserAndTokenHaveRepositoryAction db user token action repository
  | session user => user.hasAction db action repository

end Authentication

instance : HasPermissions Authentication where
  userId self := some self.user.id
  getPermissions self := some self.user
  hasAction := Authentication.hasAction

namespace RepositoryAuthentication

def canAccessRepository (db : AccessTables) (self : RepositoryAuthentication)
    (action : RepositoryActions) (repository : Uuid) : Bool :=
  let (auth, effective) := unwrapVirtualForAction action self repository
  match auth with
  | authToken token user | basic (some token) user =>
    doesUserAndTokenHaveRepositoryAction db user token action effective
  | session user | basic none user => user.hasAction db action effective
  | _ => false

def getUserIfHasAction (db : AccessTables) (self : RepositoryAuthentication)
    (action : RepositoryActions) (repository : Uuid) : Option UserSafeData :=
  let (auth, effective) := unwrapVirtualForAction action self repository
  match auth with
  | authToken token user | basic (some token) user =>
    if doesUserAndTokenHaveRepositoryAction db user token action effective then some user else none
  | session user | basic none user =>
    if user.hasAction db action effective then some user else none
  | _ => none

end RepositoryAuthentication

instance : HasPermissions RepositoryAuthentication where
  userId := RepositoryAuthentication.userId
  getPermissions := RepositoryAuthentication.getPermissions
  hasAction := RepositoryAuthentication.hasAction

end Pkgly
