import Pkgly.Algorithm.Run
import Pkgly.Algorithm.Store
import Pkgly.User.Permissions

/-!
# Credentials and their withdrawal

A request names its user by a session, by an auth token or by a password.  The middleware turns its
headers into an `AuthenticationRaw`, and the extractor of its route looks the user up: `Authentication`
and `OnlySessionAllowedAuthentication` for the API, `RepositoryAuthentication::from_raw` for
repositories, with the cache `auth_token_cache` in front of the table of tokens.  The access is
withdrawn by `update_user_status`, by `delete_user` and by the deletion of a token.

The model is a system of such operations in flight (`CredentialSystem`), with one action for each
statement, each transaction of the session store and each operation on a cache.  Each of them may
fail.  Times are in microseconds, and the clocks of the server and of the database are taken to be
one.  Identifiers of sessions and tokens that are drawn at random are taken to be new.  How the
database compares names, how tokens are hashed and how passwords are checked are parameters
(`Environment`).
-/

namespace Pkgly.Credentials

/-! ### The stored data -/

/-- The life of a session, `Duration::days(1)`. -/
def sessionLife : Int := 86400000000

def authTokenCacheTtl : Int := 300000000

def defaultTokenLifetime : Int := 900000000

/-- A row of `users`, as far as authentication looks at it. -/
structure UserRow where
  username : String
  email : Option String
  password : Option String
  active : Bool
  admin : Bool
deriving DecidableEq

/-- A row of `user_auth_tokens`; `token` is the hash. -/
structure TokenRow where
  userId : Int
  token : String
  active : Bool
  expiresAt : Option Int
deriving DecidableEq

/-- The token has expired at the time `now`. -/
def TokenRow.isExpired (row : TokenRow) (now : Int) : Bool :=
  row.expiresAt.any fun expires => decide (expires ≤ now)

structure Session where
  userId : Int
  expires : Int
deriving DecidableEq

/-- The outcome of `verify_password`. -/
inductive PasswordCheck
  | ok
  | unauthorized
  | verificationError
deriving DecidableEq

structure Environment where
  /-- The collation of user names and addresses. -/
  collate : String → String → Bool
  hashToken : String → String
  /-- The check of a password against a hash. -/
  verifyHash : String → String → PasswordCheck

def verifyPassword (env : Environment) (password : String) : Option String → PasswordCheck
  | none => .unauthorized
  | some hash => env.verifyHash password hash

/-! ### Requests -/

inductive AuthorizationHeader
  | basic (username password : String)
  | bearer (token : String)
  | session (session : String)
  | other (scheme value : String)
deriving DecidableEq

structure RequestHeaders where
  authorization : Option AuthorizationHeader
  nugetApiKey : Option String
  sessionCookie : Option String
deriving DecidableEq

inductive AuthenticationRaw
  | noIdentification
  | authToken (token : String)
  | session (session : Session)
  | authorizationHeaderUnknown (scheme value : String)
  | basic (username password : String)
deriving DecidableEq

inductive Route
  /-- `Authentication`. -/
  | api
  /-- `OnlySessionAllowedAuthentication`. -/
  | sessionOnly
  /-- `RepositoryAuthentication`. -/
  | repository
deriving DecidableEq

inductive Operation
  | login (emailOrUsername password : String)
  /-- An SSO or an OAuth2 login. -/
  | externalLogin
  | request (route : Route) (headers : RequestHeaders)
  | updateUserStatus (auth : UserPermissions) (userId : Int) (active : Bool)
  | deleteUser (auth : UserPermissions) (userId : Int)
  /-- `delete_token` by the user `authId`. -/
  | deleteToken (authId tokenId : Int)
deriving DecidableEq

inductive Response
  | ok
  | unauthorized
  | forbidden
  | notFound
  | conflict
  | error
deriving DecidableEq

inductive Stage
  | begun
  /-- A login has accepted the user. -/
  | signedIn (userId : Int)
  | identified (raw : AuthenticationRaw)
  /-- `get_by_auth_token_cached` is called. -/
  | lookingUp (token : String)
  /-- The cache has an entry that has expired. -/
  | expired (token : String)
  /-- The token is not in the cache. -/
  | querying (token : String)
  | tokenRead (token : String) (id : Int) (row : TokenRow)
  /-- The user of the token is found, and the cache is to be told. -/
  | caching (token : String) (id : Int) (row : TokenRow)
  | authenticated (userId : Int) (token : Option (Int × TokenRow))
  /-- The request goes on without a user. -/
  | anonymous
  /-- The other administrators are to be counted. -/
  | counting
  /-- The row may be changed. -/
  | checked
  | listingSessions
  | removingSessions (ids : List String)
  | finished (response : Response)
deriving DecidableEq

/-- An operation in flight, with the number of withdrawals that had completed when it started, and
the time of that. -/
structure Call where
  op : Operation
  startedAt : Nat
  startTime : Int
  stage : Stage
deriving DecidableEq

/-- What the token endpoints ask for: `create` of the API, and the Docker token endpoint. -/
inductive TokenRequest
  | api (expiresInDays : Option Nat)
  | docker

def TokenRequest.expiresAt (now : Int) : TokenRequest → Option Int
  | api expiresInDays => expiresInDays.map fun days => now + 86400000000 * days
  | docker => some (now + defaultTokenLifetime)

/-- The state of the server and the operations in flight.  `completed` counts the withdrawals that
have completed, and `disabledUsers` and `disabledTokens` hold the number of the withdrawal for each
user and each token it is in force for; the code keeps none of them. -/
structure CredentialSystem where
  now : Int
  users : Store Int UserRow
  nextUserId : Int
  tokens : Store Int TokenRow
  nextTokenId : Int
  sessions : Store String Session
  /-- `auth_token_cache`: the row of a token and the time it was inserted. -/
  authTokenCache : Store String (Int × TokenRow × Int)
  /-- `anonymous_docker_tokens`, with the time of the insertion. -/
  anonymousDockerTokens : Store String Int
  calls : Store Nat Call
  completed : Nat
  disabledUsers : Store Int Nat
  disabledTokens : Store Int Nat

inductive CredentialAction
  | tick (microseconds : Nat)
  | start (r : Nat) (op : Operation)
  /-- The middleware; a session is read in one transaction. -/
  | processHeaders (r : Nat) (ok : Bool)
  /-- `get_by_username_or_email` finds `found`. -/
  | verifyLogin (r : Nat) (found : Option Int) (ok : Bool)
  /-- An external login is resolved to the user `userId`. -/
  | resolveUser (r : Nat) (userId : Int) (ok : Bool)
  | createSession (r : Nat) (id : String) (ok : Bool)
  | lookupAnonymous (r : Nat)
  | lookupCache (r : Nat)
  | invalidate (r : Nat)
  | getByToken (r : Nat) (ok : Bool)
  | getById (r : Nat) (ok : Bool)
  | insertCache (r : Nat)
  | count (r : Nat) (ok : Bool)
  /-- `get_by_id_and_user_id` of `delete_token`. -/
  | getToken (r : Nat) (ok : Bool)
  /-- The `UPDATE` or the `DELETE`. -/
  | change (r : Nat) (ok : Bool)
  | listSessions (r : Nat) (ok : Bool)
  | removeSessions (r : Nat) (ok : Bool)
  /-- A request that has been authenticated inserts the new token `token`. -/
  | issueToken (r : Nat) (request : TokenRequest) (token : String)
  /-- The Docker token endpoint gives out an anonymous token. -/
  | issueAnonymous (r : Nat) (token : String)
  /-- Another operation inserts a user. -/
  | insertUser (row : UserRow)
  /-- Another operation changes a user, up to the column `active`. -/
  | updateUser (id : Int) (row : UserRow)
  /-- A logout or the cleaner removes a session. -/
  | dropSession (id : String)
  /-- `delete_expired`. -/
  | deleteExpired
  /-- The cache drops an entry. -/
  | evict (token : String)

namespace CredentialSystem

/-! ### The tables and the caches -/

def getSession (s : CredentialSystem) (id : String) : Option Session :=
  (s.sessions.get id).filter fun session => decide (s.now < session.expires)

/-- A live entry of `auth_token_cache`. -/
def cached (s : CredentialSystem) (token : String) : Option (Int × TokenRow) :=
  ((s.authTokenCache.get token).filter fun e => decide (s.now < e.2.2 + authTokenCacheTtl)).map
    fun e => (e.1, e.2.1)

/-- A live entry of `anonymous_docker_tokens`. -/
def isAnonymous (s : CredentialSystem) (token : String) : Bool :=
  (s.anonymousDockerTokens.get token).any fun time => decide (s.now < time + defaultTokenLifetime)

/-- `get_by_token`. -/
def findToken (env : Environment) (s : CredentialSystem) (token : String) :
    Option (Int × TokenRow) :=
  (s.tokens.entries.find? fun e =>
    e.2.token == env.hashToken token && e.2.active && !e.2.isExpired s.now).map
      fun e => (e.1, e.2)

/-- The statement of `get_by_username_or_email` may return `found`. -/
def mayFind (env : Environment) (s : CredentialSystem) (name : String) : Option Int → Bool
  | some id => (s.users.get id).any fun user =>
    user.email.any (env.collate · name) || env.collate user.username name
  | none => !s.users.entries.any fun e =>
    e.2.email.any (env.collate · name) || env.collate e.2.username name

/-- The number of active administrators other than `id`. -/
def remainingAdmins (s : CredentialSystem) (id : Int) : Nat :=
  (s.users.entries.filter fun e => e.2.admin && e.2.active && decide (e.1 ≠ id)).length

def addUser (s : CredentialSystem) (row : UserRow) : CredentialSystem :=
  { s with users := s.users.put s.nextUserId row, nextUserId := s.nextUserId + 1 }

def addToken (s : CredentialSystem) (row : TokenRow) : CredentialSystem :=
  { s with tokens := s.tokens.put s.nextTokenId row, nextTokenId := s.nextTokenId + 1 }

/-- Change the row `id`, up to the column `active`. -/
def setUser (s : CredentialSystem) (id : Int) (row : UserRow) : CredentialSystem :=
  match s.users.get id with
  | none => s
  | some user => { s with users := s.users.put id { row with active := user.active } }

/-- `UPDATE users SET active`; to set it undoes a deactivation. -/
def setActive (s : CredentialSystem) (id : Int) (active : Bool) : CredentialSystem :=
  match s.users.get id with
  | none => s
  | some user =>
    { s with
      users := s.users.put id { user with active }
      disabledUsers := if active then s.disabledUsers.remove id else s.disabledUsers }

/-- The access of the user `id` has been withdrawn. -/
def recordUser (s : CredentialSystem) (id : Int) : CredentialSystem :=
  { s with
    completed := s.completed + 1
    disabledUsers :=
      if (s.disabledUsers.get id).isSome then s.disabledUsers
      else s.disabledUsers.put id (s.completed + 1) }

/-- The deactivation of the user `id` has completed; it is in force if the row is still inactive. -/
def deactivated (s : CredentialSystem) (id : Int) : CredentialSystem :=
  if (s.users.get id).any fun user => !user.active then s.recordUser id else s

/-- `DELETE FROM users`, with the tokens of the user. -/
def deleteUserRow (s : CredentialSystem) (id : Int) : CredentialSystem :=
  if (s.users.get id).isSome then
    { s with
      users := s.users.remove id
      tokens := s.tokens.removeIf fun t =>
        (s.tokens.get t).any fun row : TokenRow => row.userId == id }.recordUser id
  else s

/-- `DELETE FROM user_auth_tokens`. -/
def deleteTokenRow (s : CredentialSystem) (id : Int) : CredentialSystem :=
  if (s.tokens.get id).isSome then
    { s with
      tokens := s.tokens.remove id
      completed := s.completed + 1
      disabledTokens := s.disabledTokens.put id (s.completed + 1) }
  else s

/-- `delete_expired`. -/
def removeExpired (s : CredentialSystem) : CredentialSystem :=
  { s with
    tokens := s.tokens.removeIf fun t =>
      (s.tokens.get t).any fun row => row.expiresAt.any fun expires => decide (expires < s.now) }

/-! ### The steps of an operation -/

/-- The operation `r` is now at `stage`. -/
def set (s : CredentialSystem) (r : Nat) (call : Call) (stage : Stage) : CredentialSystem :=
  { s with calls := s.calls.put r { call with stage } }

/-- `process_from_parts`. -/
def authenticationRaw (s : CredentialSystem) (headers : RequestHeaders) (ok : Bool) :
    AuthenticationRaw :=
  let session (id : String) : AuthenticationRaw :=
    if ok then
      match s.getSession id with
      | some session => .session session
      | none => .noIdentification
    else .noIdentification
  match headers.authorization with
  | some (.basic username password) => .basic username password
  | some (.bearer token) => .authToken token
  | some (.session id) => session id
  | some (.other scheme value) => .authorizationHeaderUnknown scheme value
  | none =>
    match headers.nugetApiKey.filter fun key => key ≠ "" with
    | some key => .authToken key
    | none =>
      match headers.sessionCookie with
      | some id => session id
      | none => .noIdentification

/-- What the extractor does first: it may reject the request, or need no user. -/
def identify (route : Route) (raw : AuthenticationRaw) : Stage :=
  match route, raw with
  | .repository, .noIdentification => .anonymous
  | .repository, .authorizationHeaderUnknown _ _ => .anonymous
  | .api, .authToken _ => .identified raw
  | .repository, .authToken _ => .identified raw
  | .repository, .basic _ _ => .identified raw
  | _, .session _ => .identified raw
  | .sessionOnly, .authToken _ => .finished .forbidden
  | _, _ => .finished .unauthorized

def stepProcessHeaders (s : CredentialSystem) (r : Nat) (ok : Bool) (call : Call) :
    Option CredentialSystem :=
  match call.op, call.stage with
  | .request route headers, .begun =>
    some (s.set r call (identify route (s.authenticationRaw headers ok)))
  | _, _ => none

/-- `verify_login`, with the user that the statement found. -/
def checkLogin (env : Environment) (s : CredentialSystem) (password : String) (found : Option Int) :
    Except Response Int :=
  match found with
  | none => .error .unauthorized
  | some id =>
    match s.users.get id with
    | none => .error .unauthorized
    | some user =>
      match verifyPassword env password user.password with
      | .verificationError => .error .error
      | .unauthorized => .error .unauthorized
      | .ok => if user.active then .ok id else .error .unauthorized

def stepVerifyLogin (env : Environment) (s : CredentialSystem) (r : Nat) (found : Option Int)
    (ok : Bool) (call : Call) : Option CredentialSystem :=
  match call.op, call.stage with
  | .login emailOrUsername password, .begun =>
    if !ok then some (s.set r call (.finished .error))
    else if s.mayFind env emailOrUsername found then
      match s.checkLogin env password found with
      | .ok id => some (s.set r call (.signedIn id))
      | .error response => some (s.set r call (.finished response))
    else none
  | .request .repository _, .identified (.basic username password) =>
    if !ok then some (s.set r call (.finished .error))
    else if s.mayFind env username found then
      match s.checkLogin env password found with
      | .ok id => some (s.set r call (.authenticated id none))
      | .error .unauthorized => some (s.set r call (.lookingUp password))
      | .error response => some (s.set r call (.finished response))
    else none
  | _, _ => none

def stepResolveUser (s : CredentialSystem) (r : Nat) (userId : Int) (ok : Bool) (call : Call) :
    Option CredentialSystem :=
  match call.op, call.stage with
  | .externalLogin, .begun =>
    if !ok then some (s.set r call (.finished .error))
    else
      match s.users.get userId with
      | none => none
      | some user =>
        if user.active then some (s.set r call (.signedIn userId))
        else some (s.set r call (.finished .forbidden))
  | _, _ => none

def stepCreateSession (s : CredentialSystem) (r : Nat) (id : String) (ok : Bool) (call : Call) :
    Option CredentialSystem :=
  match call.stage with
  | .signedIn userId =>
    if !ok then some (s.set r call (.finished .error))
    else if (s.sessions.get id).isSome then none
    else some ({ s with sessions := s.sessions.put id ⟨userId, s.now + sessionLife⟩ }.set r call
      (.finished .ok))
  | _ => none

def stepLookupAnonymous (s : CredentialSystem) (r : Nat) (call : Call) : Option CredentialSystem :=
  match call.op, call.stage with
  | .request .repository _, .identified (.authToken token) =>
    if s.isAnonymous token then some (s.set r call .anonymous)
    else some (s.set r call (.lookingUp token))
  | _, _ => none

def stepLookupCache (s : CredentialSystem) (r : Nat) (call : Call) : Option CredentialSystem :=
  match call.stage with
  | .lookingUp token =>
    match s.cached token with
    | some (id, row) =>
      if row.isExpired s.now then some (s.set r call (.expired token))
      else some (s.set r call (.authenticated row.userId (some (id, row))))
    | none => some (s.set r call (.querying token))
  | _ => none

def stepInvalidate (s : CredentialSystem) (r : Nat) (call : Call) : Option CredentialSystem :=
  match call.stage with
  | .expired token =>
    some ({ s with authTokenCache := s.authTokenCache.remove token }.set r call
      (.finished .unauthorized))
  | _ => none

/-- The token that `get_by_token` is called with. -/
def queriedToken (call : Call) : Option String :=
  match call.op, call.stage with
  | .request .api _, .identified (.authToken token) => some token
  | .request .repository _, .querying token => some token
  | _, _ => none

def stepGetByToken (env : Environment) (s : CredentialSystem) (r : Nat) (ok : Bool) (call : Call) :
    Option CredentialSystem :=
  match queriedToken call with
  | none => none
  | some token =>
    if !ok then some (s.set r call (.finished .error))
    else
      match s.findToken env token with
      | none => some (s.set r call (.finished .unauthorized))
      | some (id, row) =>
        if row.isExpired s.now then some (s.set r call (.finished .unauthorized))
        else some (s.set r call (.tokenRead token id row))

/-- An administrator has been read whose access is to be withdrawn. -/
def Operation.needsCount (op : Operation) (user : UserRow) : Bool :=
  match op with
  | .updateUserStatus _ _ active => !active && user.admin
  | .deleteUser _ _ => user.admin
  | _ => false

def afterChecks : Operation → Stage
  | .deleteUser _ _ => .listingSessions
  | _ => .checked

/-- The first statement of `update_user_status` and `delete_user`. -/
def stepFindUser (s : CredentialSystem) (r : Nat) (ok : Bool) (call : Call)
    (auth : UserPermissions) (userId : Int) : CredentialSystem :=
  if !auth.isAdminOrUserManager then s.set r call (.finished .forbidden)
  else if !ok then s.set r call (.finished .error)
  else
    match s.users.get userId with
    | none => s.set r call (.finished .notFound)
    | some user =>
      if Operation.needsCount call.op user then s.set r call .counting
      else s.set r call (afterChecks call.op)

/-- `get_by_id`, and what follows it. -/
def stepGetById (s : CredentialSystem) (r : Nat) (ok : Bool) (call : Call) :
    Option CredentialSystem :=
  match call.op, call.stage with
  | .request _ _, .identified (.session session) =>
    if !ok then some (s.set r call (.finished .error))
    else
      match s.users.get session.userId with
      | none => some (s.set r call (.finished .unauthorized))
      | some _ => some (s.set r call (.authenticated session.userId none))
  | .request route _, .tokenRead token id row =>
    if !ok then some (s.set r call (.finished .error))
    else
      match s.users.get row.userId with
      | none => some (s.set r call (.finished .unauthorized))
      | some user =>
        -- `get_by_auth_token` lacks the check that `get_user_and_auth_token` makes.
        if route = .repository then some (s.set r call (.caching token id row))
        else if user.active then some (s.set r call (.authenticated row.userId (some (id, row))))
        else some (s.set r call (.finished .unauthorized))
  | .updateUserStatus auth userId _, .begun => some (s.stepFindUser r ok call auth userId)
  | .deleteUser auth userId, .begun => some (s.stepFindUser r ok call auth userId)
  | _, _ => none

def stepInsertCache (s : CredentialSystem) (r : Nat) (call : Call) : Option CredentialSystem :=
  match call.stage with
  | .caching token id row =>
    some ({ s with authTokenCache := s.authTokenCache.put token (id, row, s.now) }.set r call
      (.authenticated row.userId (some (id, row))))
  | _ => none

def Operation.target : Operation → Option Int
  | .updateUserStatus _ userId _ => some userId
  | .deleteUser _ userId => some userId
  | _ => none

def stepCount (s : CredentialSystem) (r : Nat) (ok : Bool) (call : Call) :
    Option CredentialSystem :=
  match Operation.target call.op, call.stage with
  | some userId, .counting =>
    if !ok then some (s.set r call (.finished .error))
    else if s.remainingAdmins userId = 0 then some (s.set r call (.finished .conflict))
    else some (s.set r call (afterChecks call.op))
  | _, _ => none

def stepGetToken (s : CredentialSystem) (r : Nat) (ok : Bool) (call : Call) :
    Option CredentialSystem :=
  match call.op, call.stage with
  | .deleteToken authId tokenId, .begun =>
    if !ok then some (s.set r call (.finished .error))
    else if (s.tokens.get tokenId).any fun row => row.userId == authId then
      some (s.set r call .checked)
    else some (s.set r call (.finished .notFound))
  | _, _ => none

def stepChange (s : CredentialSystem) (r : Nat) (ok : Bool) (call : Call) :
    Option CredentialSystem :=
  match call.op, call.stage with
  | .updateUserStatus _ userId active, .checked =>
    if !ok then some (s.set r call (.finished .error))
    else if active then some ((s.setActive userId true).set r call (.finished .ok))
    else some ((s.setActive userId false).set r call .listingSessions)
  | .deleteUser _ userId, .checked =>
    if !ok then some (s.set r call (.finished .error))
    else some ((s.deleteUserRow userId).set r call (.finished .ok))
  | .deleteToken _ tokenId, .checked =>
    if !ok then some (s.set r call (.finished .error))
    else some ((s.deleteTokenRow tokenId).set r call (.finished .ok))
  | _, _ => none

/-- The sessions of the user are gone: `update_user_status` has completed, and `delete_user` goes on
to the row. -/
def sessionsRemoved (s : CredentialSystem) (r : Nat) (call : Call) (userId : Int) :
    CredentialSystem :=
  match call.op with
  | .deleteUser _ _ => s.set r call .checked
  | _ => (s.deactivated userId).set r call (.finished .ok)

/-- The first transaction of `delete_sessions_for_user`. -/
def stepListSessions (s : CredentialSystem) (r : Nat) (ok : Bool) (call : Call) :
    Option CredentialSystem :=
  match Operation.target call.op, call.stage with
  | some userId, .listingSessions =>
    if !ok then some (s.set r call (.finished .error))
    else
      let ids := (s.sessions.entries.filter fun e => e.2.userId == userId).map (·.1)
      if ids.isEmpty then some (s.sessionsRemoved r call userId)
      else some (s.set r call (.removingSessions ids))
  | _, _ => none

/-- The second transaction of `delete_sessions_for_user`. -/
def stepRemoveSessions (s : CredentialSystem) (r : Nat) (ok : Bool) (call : Call) :
    Option CredentialSystem :=
  match Operation.target call.op, call.stage with
  | some userId, .removingSessions ids =>
    if !ok then some (s.set r call (.finished .error))
    else
      some ({ s with sessions := s.sessions.removeIf fun id => ids.contains id }.sessionsRemoved r
        call userId)
  | _, _ => none

/-- The insertion of a token; it fails if the user is gone. -/
def stepIssueToken (env : Environment) (s : CredentialSystem) (request : TokenRequest)
    (token : String) (call : Call) : Option CredentialSystem :=
  match call.op, call.stage, request with
  | .request .sessionOnly _, .authenticated userId _, .api _
  | .request .repository _, .authenticated userId _, .docker =>
    if s.tokens.entries.any fun e => e.2.token == env.hashToken token then none
    else if (s.users.get userId).isSome then
      some (s.addToken ⟨userId, env.hashToken token, true, request.expiresAt s.now⟩)
    else some s
  | _, _, _ => none

def stepIssueAnonymous (s : CredentialSystem) (token : String) (call : Call) :
    Option CredentialSystem :=
  match call.stage with
  | .anonymous =>
    some { s with anonymousDockerTokens := s.anonymousDockerTokens.put token s.now }
  | _ => none

/-- Take the step `f` of the operation `r`. -/
def onCall (s : CredentialSystem) (r : Nat) (f : Call → Option CredentialSystem) :
    Option CredentialSystem :=
  (s.calls.get r).bind f

def step (env : Environment) (s : CredentialSystem) : CredentialAction → Option CredentialSystem
  | .tick microseconds => some { s with now := s.now + microseconds }
  | .start r op =>
    if (s.calls.get r).isSome then none
    else some { s with calls := s.calls.put r ⟨op, s.completed, s.now, .begun⟩ }
  | .processHeaders r ok => s.onCall r (s.stepProcessHeaders r ok)
  | .verifyLogin r found ok => s.onCall r (s.stepVerifyLogin env r found ok)
  | .resolveUser r userId ok => s.onCall r (s.stepResolveUser r userId ok)
  | .createSession r id ok => s.onCall r (s.stepCreateSession r id ok)
  | .lookupAnonymous r => s.onCall r (s.stepLookupAnonymous r)
  | .lookupCache r => s.onCall r (s.stepLookupCache r)
  | .invalidate r => s.onCall r (s.stepInvalidate r)
  | .getByToken r ok => s.onCall r (s.stepGetByToken env r ok)
  | .getById r ok => s.onCall r (s.stepGetById r ok)
  | .insertCache r => s.onCall r (s.stepInsertCache r)
  | .count r ok => s.onCall r (s.stepCount r ok)
  | .getToken r ok => s.onCall r (s.stepGetToken r ok)
  | .change r ok => s.onCall r (s.stepChange r ok)
  | .listSessions r ok => s.onCall r (s.stepListSessions r ok)
  | .removeSessions r ok => s.onCall r (s.stepRemoveSessions r ok)
  | .issueToken r request token => s.onCall r (s.stepIssueToken env request token)
  | .issueAnonymous r token => s.onCall r (s.stepIssueAnonymous token)
  | .insertUser row => some (s.addUser row)
  | .updateUser id row => some (s.setUser id row)
  | .dropSession id => some { s with sessions := s.sessions.remove id }
  | .deleteExpired => some s.removeExpired
  | .evict token => some { s with authTokenCache := s.authTokenCache.remove token }

end CredentialSystem

end Pkgly.Credentials
