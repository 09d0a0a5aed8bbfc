import Mathlib.Data.List.Basic

/-!
# User permissions and token scopes

`checkUserRepositoryAction` decides what a user may do with a repository, and
`doesUserAndTokenHaveRepositoryAction` what a user may do through an auth token.  Both consult
database tables, which the model takes as functions (`AccessTables`).
-/

namespace Pkgly

abbrev Uuid := Nat

inductive RepositoryActions
  | read
  | write
  | edit
deriving DecidableEq, Repr

inductive NRScope
  | readRepository
  | writeRepository
  | editRepository
  | updatePassword
deriving DecidableEq, Repr

/-- `impl From<RepositoryActions> for NRScope`. -/
def RepositoryActions.toScope : RepositoryActions → NRScope
  | read => .readRepository
  | write => .writeRepository
  | edit => .editRepository

structure UserPermissions where
  id : Int
  admin : Bool
  userManager : Bool
  systemManager : Bool
  defaultRepositoryActions : List RepositoryActions
deriving DecidableEq, Repr

namespace UserPermissions

def isAdminOrUserManager (user : UserPermissions) : Bool := user.admin || user.userManager

def isAdminOrSystemManager (user : UserPermissions) : Bool := user.admin || user.systemManager

end UserPermissions

structure AuthToken where
  id : Int
deriving DecidableEq, Repr

structure AccessTables where
  /-- `UserRepositoryPermissions::get_actions`. -/
  repositoryActions : (userId : Int) → (repository : Uuid) → Option (List RepositoryActions)
  /-- `user_auth_token_scopes`. -/
  tokenScopes : (tokenId : Int) → List NRScope
  /-- `user_auth_token_repository_scopes`. -/
  tokenRepositoryScopes : (tokenId : Int) → (repository : Uuid) → Option (List RepositoryActions)

def checkUserRepositoryAction (db : AccessTables) (permissions : Option UserPermissions)
    (userId : Option Int) (action : RepositoryActions) (repository : Uuid) : Bool :=
  if permissions.any fun p => p.admin || p.systemManager then true
  else
    match userId with
    | none => false
    | some uid =>
      match db.repositoryActions uid repository with
      | some explicit => explicit.contains action
      | none => permissions.any fun p => p.defaultRepositoryActions.contains action

def AuthToken.hasScope (db : AccessTables) (token : AuthToken) (scope : NRScope) : Bool :=
  (db.tokenScopes token.id).contains scope

def AuthToken.hasRepositoryAction (db : AccessTables) (token : AuthToken) (repository : Uuid)
    (action : RepositoryActions) : Bool :=
  if token.hasScope db action.toScope then true
  else
    match db.tokenRepositoryScopes token.id repository with
    | none => false
    | some actions => actions.contains action

def UserPermissions.hasAction (db : AccessTables) (user : UserPermissions)
    (action : RepositoryActions) (repository : Uuid) : Bool :=
  checkUserRepositoryAction db (some user) (some user.id) action repository

def doesUserAndTokenHaveRepositoryAction (db : AccessTables) (user : UserPermissions)
    (token : AuthToken) (action : RepositoryActions) (repository : Uuid) : Bool :=
  if !user.hasAction db action repository then false
  else token.hasRepositoryAction db repository action

end Pkgly
