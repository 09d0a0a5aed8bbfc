import Pkgly.Algorithm.Run
import Pkgly.Algorithm.Store
import Pkgly.Algorithm.Text

/-!
# Logins through external providers

An SSO or OAuth2 login turns the verified claims of a token into a principal (`mapClaimsToPrincipal`,
`buildPrincipal`), and then looks for its user: by the e-mail address if the provider has verified
it, then by the user name, and if there is none it may insert one (`create_user`), with the first of
21 candidate names that is free.

The model is a system of logins in flight over the table of accounts (`LoginSystem`), with one action
for each SQL statement; a statement may fail.  How the database compares user names and addresses is
the parameter `collate`.  Roles are left out: they do not decide who the user is.
-/

namespace Pkgly.ExternalLogins

/-! ### User names and addresses -/

/-- `to_lowercase` of one character, up to characters that are dropped afterwards: the Kelvin sign
and the dotted capital I are the only characters outside ASCII with ASCII in lower case. -/
def lowercase (c : Char) : List Char :=
  if c.toNat = 0x212a then ['k'] else if c.toNat = 0x130 then ['i', Char.ofNat 0x307] else [c.toLower]

def validNameChar (c : Char) : Bool := c.isAlphanum || c == '_' || c == '-'

/-- What becomes of a character of a name. -/
def cleanChar (c : Char) : Option Char :=
  if c.isLower || c.isDigit || c == '_' || c == '-' then some c
  else if c == ' ' || c == '.' || c == '@' then some '_'
  else none

def isSeparator (c : Char) : Bool := c == '_' || c == '-'

/-- `normalize_username`; `uuid` and `uuid'` are the random identifiers it may draw. -/
def normalizeUsername (uuid uuid' raw : String) : String :=
  let normalized := (trim raw).flatMap lowercase
  let normalized :=
    if normalized.isEmpty then "user".toList ++ uuid.toList.take 6 else normalized
  let cleaned := normalized.filterMap cleanChar
  let cleaned := ((cleaned.dropWhile isSeparator).reverse.dropWhile isSeparator).reverse
  let cleaned := if cleaned.length < 3 then "usr".toList ++ uuid'.toList.take 5 else cleaned
  String.ofList (cleaned.take 32)

/-- `Username::from_str`. -/
def parseUsername (username : String) : Option String :=
  if username.utf8ByteSize < 3 || 32 < username.utf8ByteSize then none
  else if username.toList.all validNameChar then some username
  else none

/-- `Email::from_str`. -/
def parseEmail (email : String) : Option String :=
  if email.utf8ByteSize < 3 || 32 < email.utf8ByteSize then none
  else if email.toList.contains '@' then some email
  else none

def generateUsernameCandidate (base : String) (attempt : Nat) : String :=
  if attempt = 0 then String.ofList (base.toList.take 32)
  else
    let suffix := toString attempt
    let trimmed := String.ofList (base.toList.take (max (32 - suffix.length) 1))
    let trimmed := if trimmed.utf8ByteSize < 2 then trimmed ++ "us" else trimmed
    trimmed ++ suffix

def buildUserEmail (rawEmail : Option String) (username : String) : Option String :=
  match rawEmail.bind parseEmail with
  | some email => some email
  | none =>
    let localPart := String.ofList (username.toList.take 22)
    let localPart := if localPart.utf8ByteSize < 3 then localPart ++ "usr" else localPart
    parseEmail (localPart ++ "@sso.local")

/-! ### Principals -/

structure SsoPrincipal where
  username : String
  email : Option String
  emailVerified : Bool
  displayName : String
deriving DecidableEq

inductive ClaimValue
  | text (value : String)
  | bool (value : Bool)
  | other

/-- `OidcProviderConfig`, as far as it names claims. -/
structure OidcProviderConfig where
  subjectClaim : Option String
  emailClaim : Option String
  displayNameClaim : Option String

def claimValue (claims : Store String ClaimValue) (key : String) : Option String :=
  match claims.get key with
  | some (.text value) => if (trim value).isEmpty then none else some (String.ofList (trim value))
  | _ => none

def ssoUsernameClaim (provider : OidcProviderConfig) (claims : Store String ClaimValue) :
    Option String :=
  (provider.subjectClaim.bind (claimValue claims)).orElse fun _ =>
    (claimValue claims "preferred_username").orElse fun _ =>
      (claimValue claims "cognito:username").orElse fun _ => claimValue claims "sub"

def mapClaimsToPrincipal (provider : OidcProviderConfig) (claims : Store String ClaimValue)
    (uuid uuid' : String) : Option SsoPrincipal :=
  (ssoUsernameClaim provider claims).map fun rawUsername =>
    { username := normalizeUsername uuid uuid' rawUsername
      email := (provider.emailClaim.bind (claimValue claims)).orElse fun _ =>
        claimValue claims "email"
      emailVerified := match claims.get "email_verified" with
        | some (.bool verified) => verified
        | _ => false
      displayName := ((provider.displayNameClaim.bind (claimValue claims)).orElse fun _ =>
        (claimValue claims "name").orElse fun _ => claimValue claims "common_name").getD
          rawUsername }

structure IdTokenClaims where
  sub : String
  email : Option String
  emailVerified : Option Bool
  preferredUsername : Option String
  name : Option String
  givenName : Option String

def buildPrincipal (claims : IdTokenClaims) (uuid uuid' : String) : SsoPrincipal :=
  let sourceUsername := (claims.preferredUsername.orElse fun _ => claims.email).getD claims.sub
  let username := normalizeUsername uuid uuid' sourceUsername
  { username
    email := claims.email
    emailVerified := claims.emailVerified.getD false
    displayName := (claims.name.orElse fun _ => claims.givenName.orElse fun _ =>
      claims.email).getD username }

inductive ExternalClaims
  | sso (provider : OidcProviderConfig) (claims : Store String ClaimValue)
  | oauth (claims : IdTokenClaims)

def ExternalClaims.principal (uuid uuid' : String) : ExternalClaims → Option SsoPrincipal
  | sso provider claims => mapClaimsToPrincipal provider claims uuid uuid'
  | oauth claims => some (buildPrincipal claims uuid uuid')

/-! ### The system -/

/-- A row of `users`, as far as logins look at it. -/
structure Account where
  username : String
  email : String
deriving DecidableEq

inductive Stage
  | begun
  /-- No account has the verified address, or there is none. -/
  | byName
  | creating (attempt : Nat)
  | resolved (userId : Int) (created : Bool)
  | failed
deriving DecidableEq

structure Login where
  principal : SsoPrincipal
  autoCreateUsers : Bool
  stage : Stage
deriving DecidableEq

structure LoginSystem where
  accounts : Store Int Account
  logins : Store Nat Login

inductive LoginAction
  | login (r : Nat) (claims : ExternalClaims) (uuid uuid' : String) (autoCreateUsers : Bool)
  /-- The statement finds the account `found`. -/
  | getByEmail (r : Nat) (found : Option Int) (ok : Bool)
  | getByUsernameOrEmail (r : Nat) (found : Option Int) (ok : Bool)
  /-- The statement inserts a row with the new id `id`, or fails. -/
  | insert (r : Nat) (id : Int) (ok : Bool)

namespace LoginSystem

variable (collate : String → String → Bool)

def hasEmail (email : String) (account : Account) : Bool := collate account.email email

def hasUsernameOrEmail (username : String) (account : Account) : Bool :=
  collate account.email username || collate account.username username

/-- A `SELECT` may return `found`: a row that meets the condition, or none if no row does. -/
def mayFind (s : LoginSystem) (p : Account → Bool) : Option Int → Bool
  | some id => (s.accounts.get id).any p
  | none => !s.accounts.entries.any fun e => p e.2

/-- The login `r` is now at `stage`. -/
def set (s : LoginSystem) (r : Nat) (login : Login) (stage : Stage) : LoginSystem :=
  { s with logins := s.logins.put r { login with stage } }

def start (s : LoginSystem) (r : Nat) (principal : Option SsoPrincipal) (autoCreateUsers : Bool) :
    Option LoginSystem :=
  if (s.logins.get r).isSome then none
  else
    match principal with
    | none => some s
    | some principal => some (s.set r ⟨principal, autoCreateUsers, .begun⟩ .begun)

def stepGetByEmail (s : LoginSystem) (r : Nat) (found : Option Int) (ok : Bool) (login : Login) :
    Option LoginSystem :=
  match login.stage with
  | .begun =>
    match login.principal.email with
    | none => some (s.set r login .byName)
    | some email =>
      if !login.principal.emailVerified then some (s.set r login .byName)
      else if !ok then some (s.set r login .failed)
      else if s.mayFind (hasEmail collate email) found then
        match found with
        | some id => some (s.set r login (.resolved id false))
        | none => some (s.set r login .byName)
      else none
  | _ => none

def stepGetByUsernameOrEmail (s : LoginSystem) (r : Nat) (found : Option Int) (ok : Bool)
    (login : Login) : Option LoginSystem :=
  match login.stage with
  | .byName =>
    if !ok then some (s.set r login .failed)
    else if s.mayFind (hasUsernameOrEmail collate login.principal.username) found then
      match found with
      | some id => some (s.set r login (.resolved id false))
      | none =>
        if !login.autoCreateUsers then some (s.set r login .failed)
        else if login.principal.email.isSome && !login.principal.emailVerified then
          some (s.set r login .failed)
        else some (s.set r login (.creating 0))
    else none
  | _ => none

/-- The next turn of the loop of `create_user`. -/
def nextAttempt (attempt : Nat) : Stage :=
  if attempt < 20 then .creating (attempt + 1) else .failed

/-- A row with this user name or address exists, and both are unique. -/
def isTaken (s : LoginSystem) (username email : String) : Bool :=
  s.accounts.entries.any fun e => collate e.2.username username || collate e.2.email email

def stepInsert (s : LoginSystem) (r : Nat) (id : Int) (ok : Bool) (login : Login) :
    Option LoginSystem :=
  match login.stage with
  | .creating attempt =>
    let candidate := generateUsernameCandidate login.principal.username attempt
    match parseUsername candidate with
    | none => some (s.set r login (nextAttempt attempt))
    | some username =>
      match buildUserEmail login.principal.email candidate with
      | none => some (s.set r login .failed)
      | some email =>
        if !ok then some (s.set r login .failed)
        else if s.isTaken collate username email then some (s.set r login (nextAttempt attempt))
        else if (s.accounts.get id).isSome then none
        else some ({ s with accounts := s.accounts.put id ⟨username, email⟩ }.set r login
          (.resolved id true))
  | _ => none

/-- Take the step `f` of the login `r`. -/
def onLogin (s : LoginSystem) (r : Nat) (f : Login → Option LoginSystem) : Option LoginSystem :=
  (s.logins.get r).bind f

def step (s : LoginSystem) : LoginAction → Option LoginSystem
  | .login r claims uuid uuid' autoCreateUsers =>
    s.start r (claims.principal uuid uuid') autoCreateUsers
  | .getByEmail r found ok => s.onLogin r (s.stepGetByEmail collate r found ok)
  | .getByUsernameOrEmail r found ok => s.onLogin r (s.stepGetByUsernameOrEmail collate r found ok)
  | .insert r id ok => s.onLogin r (s.stepInsert collate r id ok)

end LoginSystem

end Pkgly.ExternalLogins
