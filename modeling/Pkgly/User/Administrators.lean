import Pkgly.Algorithm.Run
import Pkgly.Algorithm.Store
import Pkgly.Algorithm.Text
import Pkgly.User.Permissions

/-!
# Operations that change who is an administrator

`update_user_status` and `delete_user` read the user, count the other active administrators if the
user is an administrator, and then change the row; `update_permissions` and the synchronisation of
roles at an OAuth2 login read the user and change the row.  Each is a sequence of SQL statements;
the model is a system of such calls in flight over the table `users` (`AdminSystem`), with one
action for each statement.  A statement may fail.  The statements of `update_permissions` on the
table of repository permissions are left out.
-/

namespace Pkgly.Administrators

/-- A row of `users`, as far as `UserSafeData` and these operations go. -/
structure UserRow where
  id : Int
  active : Bool
  admin : Bool
  userManager : Bool
  systemManager : Bool
  defaultRepositoryActions : List RepositoryActions
deriving DecidableEq

/-- `UpdatePermissions`, up to the permissions for single repositories. -/
structure UpdatePermissions where
  admin : Option Bool
  userManager : Option Bool
  systemManager : Option Bool
  defaultRepositoryActions : Option (List RepositoryActions)
deriving DecidableEq

namespace UpdatePermissions

def hasRegularChange (update : UpdatePermissions) : Bool :=
  update.admin.isSome || update.userManager.isSome || update.systemManager.isSome ||
    update.defaultRepositoryActions.isSome

/-- The columns that `update_regular` sets. -/
def applyTo (update : UpdatePermissions) (user : UserRow) : UserRow :=
  { user with
    admin := update.admin.getD user.admin
    userManager := update.userManager.getD user.userManager
    systemManager := update.systemManager.getD user.systemManager
    defaultRepositoryActions :=
      update.defaultRepositoryActions.getD user.defaultRepositoryActions }

end UpdatePermissions

structure OAuthRoles where
  rbacEnabled : Bool
  mapped : List String
  existing : List String
deriving DecidableEq

namespace OAuthRoles

/-- `effective_roles`. -/
def effective (roles : OAuthRoles) : List String :=
  if roles.mapped.isEmpty then roles.existing else roles.mapped

def has (roles : OAuthRoles) (role : String) : Bool :=
  roles.effective.any fun r => eqIgnoreAsciiCase r role

def denied (roles : OAuthRoles) : Bool :=
  roles.rbacEnabled && roles.mapped.isEmpty && roles.existing.isEmpty

def outOfSync (roles : OAuthRoles) (user : UserRow) : Bool :=
  roles.rbacEnabled && !roles.effective.isEmpty &&
    (roles.has "admin" != user.admin || roles.has "user_manager" != user.userManager ||
      roles.has "system_manager" != user.systemManager)

def update (roles : OAuthRoles) : UpdatePermissions where
  admin := some (roles.has "admin")
  userManager := some (roles.has "user_manager")
  systemManager := some (roles.has "system_manager")
  defaultRepositoryActions := none

end OAuthRoles

inductive AdminOp
  | updatePermissions (auth : UserPermissions) (userId : Int) (update : UpdatePermissions)
  | updateUserStatus (auth : UserPermissions) (userId : Int) (active : Bool)
  | deleteUser (auth : UserPermissions) (userId : Int)
  | oauthLogin (roles : OAuthRoles)
deriving DecidableEq

inductive AdminResult
  | ok
  | noContent
  | missingPermission
  | notFound
  | conflict
  | denied
  | error
deriving DecidableEq

inductive Stage
  | begun
  /-- The user is read, and the other administrators are to be counted. -/
  | found (user : UserRow)
  | checked (user : UserRow)
  | finished (result : AdminResult)
deriving DecidableEq

structure AdminCall where
  op : AdminOp
  stage : Stage
deriving DecidableEq

/-- The table `users` and the calls in flight. -/
structure AdminSystem where
  users : Store Int UserRow
  calls : Store Nat AdminCall

inductive AdminAction
  | start (r : Nat) (op : AdminOp)
  | getById (r : Nat) (ok : Bool)
  | resolveUser (r : Nat) (userId : Int) (ok : Bool)
  | count (r : Nat) (ok : Bool)
  | change (r : Nat) (ok : Bool)

namespace AdminOp

def counts (user : UserRow) : AdminOp → Bool
  | updateUserStatus _ _ active => !active && user.admin
  | deleteUser _ _ => user.admin
  | updatePermissions _ _ _ | oauthLogin _ => false

end AdminOp

namespace AdminSystem

/-! ### Statements -/

/-- An `UPDATE` of the row `id`, if there is one. -/
def updateUser (s : AdminSystem) (id : Int) (f : UserRow → UserRow) : AdminSystem :=
  match s.users.get id with
  | none => s
  | some user => { s with users := s.users.put id (f user) }

/-- `UPDATE users SET active = $1 WHERE id = $2`. -/
def setActive (s : AdminSystem) (active : Bool) (id : Int) : AdminSystem :=
  s.updateUser id fun user => { user with active }

/-- `DELETE FROM users WHERE id = $1`. -/
def deleteRow (s : AdminSystem) (id : Int) : AdminSystem := { s with users := s.users.remove id }

def updatePermissions (s : AdminSystem) (update : UpdatePermissions) (id : Int) : AdminSystem :=
  if update.hasRegularChange then s.updateUser id update.applyTo else s

/-- `SELECT COUNT(*) FROM users WHERE admin = TRUE AND active = TRUE AND id <> $1`. -/
def remainingAdmins (s : AdminSystem) (id : Int) : Nat :=
  s.users.entries.countP fun e => e.2.admin && e.2.active && e.1 != id

/-- `NewUserRequest::insert`, without permissions. -/
def insertUser (s : AdminSystem) (id : Int) : AdminSystem :=
  { s with users := s.users.put id ⟨id, true, false, false, false, []⟩ }

/-! ### Steps -/

/-- The call `r` is now at `stage`. -/
def set (s : AdminSystem) (r : Nat) (call : AdminCall) (stage : Stage) : AdminSystem :=
  { s with calls := s.calls.put r { call with stage } }

def finish (s : AdminSystem) (r : Nat) (call : AdminCall) (result : AdminResult) : AdminSystem :=
  s.set r call (.finished result)

def start (s : AdminSystem) (r : Nat) (op : AdminOp) : Option AdminSystem :=
  if (s.calls.get r).isSome then none else some (s.set r ⟨op, .begun⟩ .begun)

/-- `UserSafeData::get_by_id`, after the check of the caller. -/
def find (s : AdminSystem) (r : Nat) (ok : Bool) (call : AdminCall) (auth : UserPermissions)
    (userId : Int) : AdminSystem :=
  if !auth.isAdminOrUserManager then s.finish r call .missingPermission
  else if !ok then s.finish r call .error
  else
    match s.users.get userId with
    | none => s.finish r call .notFound
    | some user => s.set r call (if call.op.counts user then .found user else .checked user)

def stepGetById (s : AdminSystem) (r : Nat) (ok : Bool) (call : AdminCall) : Option AdminSystem :=
  match call.stage, call.op with
  | .begun, .updatePermissions auth userId _ => some (s.find r ok call auth userId)
  | .begun, .updateUserStatus auth userId _ => some (s.find r ok call auth userId)
  | .begun, .deleteUser auth userId => some (s.find r ok call auth userId)
  | _, _ => none

/-- What follows `resolve_oauth_user`, with the user `userId`. -/
def resolved (s : AdminSystem) (r : Nat) (call : AdminCall) (roles : OAuthRoles) (userId : Int) :
    Option AdminSystem :=
  match s.users.get userId with
  | none => none
  | some user =>
    if !user.active then some (s.finish r call .denied)
    else if roles.outOfSync user then some (s.set r call (.checked user))
    else some (s.finish r call .ok)

/-- `resolve_oauth_user`, which finds the user `userId` or inserts it. -/
def stepResolveUser (s : AdminSystem) (r : Nat) (userId : Int) (ok : Bool) (call : AdminCall) :
    Option AdminSystem :=
  match call.stage, call.op with
  | .begun, .oauthLogin roles =>
    if roles.denied then some (s.finish r call .denied)
    else if !ok then some (s.finish r call .error)
    else if (s.users.get userId).isSome then s.resolved r call roles userId
    else (s.insertUser userId).resolved r call roles userId
  | _, _ => none

def stepCount (s : AdminSystem) (r : Nat) (ok : Bool) (call : AdminCall) : Option AdminSystem :=
  match call.stage with
  | .found user =>
    if !ok then some (s.finish r call .error)
    else if s.remainingAdmins user.id = 0 then some (s.finish r call .conflict)
    else some (s.set r call (.checked user))
  | _ => none

def execute (s : AdminSystem) (user : UserRow) : AdminOp → AdminSystem × AdminResult
  | .updatePermissions _ _ update => (s.updatePermissions update user.id, .noContent)
  | .updateUserStatus _ _ active => (s.setActive active user.id, .ok)
  | .deleteUser _ _ => (s.deleteRow user.id, .noContent)
  | .oauthLogin roles => (s.updatePermissions roles.update user.id, .ok)

/-- The result of the call after this statement has failed; a login goes on. -/
def failure : AdminOp → AdminResult
  | .oauthLogin _ => .ok
  | .updatePermissions _ _ _ | .updateUserStatus _ _ _ | .deleteUser _ _ => .error

def stepChange (s : AdminSystem) (r : Nat) (ok : Bool) (call : AdminCall) : Option AdminSystem :=
  match call.stage with
  | .checked user =>
    if !ok then some (s.finish r call (failure call.op))
    else
      let (s, result) := s.execute user call.op
      some (s.finish r call result)
  | _ => none

/-- Take the step `f` of the call `r`. -/
def onCall (s : AdminSystem) (r : Nat) (f : AdminCall → Option AdminSystem) : Option AdminSystem :=
  (s.calls.get r).bind f

def step (s : AdminSystem) : AdminAction → Option AdminSystem
  | .start r op => s.start r op
  | .getById r ok => s.onCall r (s.stepGetById r ok)
  | .resolveUser r userId ok => s.onCall r (s.stepResolveUser r userId ok)
  | .count r ok => s.onCall r (s.stepCount r ok)
  | .change r ok => s.onCall r (s.stepChange r ok)

end AdminSystem

end Pkgly.Administrators
