import Mathlib.Data.String.Basic
import Pkgly.Algorithm.Run
import Pkgly.Algorithm.Store

/-!
# Password resets

`request_password_reset` issues a token to the user with a given e-mail address, and
`perform_password_change` lets the bearer of a valid token set a new password.  Both run one SQL
statement after another, and statements of other calls can come between them, so the model is a
system of calls in flight (`ResetSystem`) with one action for each statement.  Every statement can
fail, which ends the call.

`perform_password_change` reads the token (`validate`), reads its user (`load`, after the new
password has been hashed), writes the password (`update`) and marks the token used (`setUsed`).

What happens before the first statement (the check of the panel URL and of the form of the address)
and after the last one (the e-mail) changes no table and is left out.  The clocks of the
application and the database are taken to be one.
-/

namespace Pkgly.PasswordReset

inductive PasswordResetState
  | requested
  | used
  | invalidated
  | expired
deriving DecidableEq

/-- `UserPasswordReset`: a row of `user_password_reset_tokens`.  Times are in seconds. -/
structure UserPasswordReset where
  id : Nat
  userId : Int
  state : PasswordResetState
  token : String
  expiresAt : Int
  stateChangedAt : Option Int
  createdAt : Int
deriving DecidableEq

/-- A row of `users`, as far as password resets read or write it. -/
structure User where
  id : Int
  email : Option String
  password : Option String
  passwordLastChanged : Option Int
  requirePasswordChange : Bool
deriving DecidableEq

/-- The two kinds of calls. -/
inductive ResetOp
  | request (email : String)
  | change (token : String)
deriving DecidableEq

inductive ResetResult
  | ok
  | noContent
  | notFound
  | badRequest
  | error
deriving DecidableEq

inductive Stage
  | begun
  | foundUser (userId : Int)
  | drawn (userId : Int) (token : String)
  | valid (request : UserPasswordReset)
  | loaded (request : UserPasswordReset) (encrypted : String)
  | changed (request : UserPasswordReset)
  /-- The password was written, and then `set_used` failed. -/
  | unmarked (request : UserPasswordReset)
  | finished (result : ResetResult)
deriving DecidableEq

structure ResetCall where
  op : ResetOp
  startedAt : Int
  stage : Stage
deriving DecidableEq

structure PasswordChange where
  resetId : Nat
  startedAt : Int
  userId : Int
  password : String
deriving DecidableEq

/-- The tables and the calls in flight.  `changes` lists the passwords written so far, which the
code does not. -/
structure ResetSystem where
  now : Int
  users : Store Int User
  tokens : Store Nat UserPasswordReset
  nextId : Nat
  calls : Store Nat ResetCall
  changes : List PasswordChange

inductive ResetAction
  | tick (seconds : Nat)
  | request (r : Nat) (email : String)
  | getByEmail (r : Nat) (ok : Bool)
  | drawToken (r : Nat) (token : String) (ok : Bool)
  | insert (r : Nat) (ok : Bool)
  | change (r : Nat) (token : String)
  | validate (r : Nat) (ok : Bool)
  | load (r : Nat) (encrypted : Option String) (ok : Bool)
  | update (r : Nat) (ok : Bool)
  | setUsed (r : Nat) (ok : Bool)

/-- `chrono::Duration::days(1)`. -/
def resetLifetime : Int := 86400

namespace ResetSystem

/-! ### Statements -/

def getByEmail (s : ResetSystem) (email : String) : Option User :=
  (s.users.entries.find? fun e => e.2.email = some email).map fun e => e.2

def doesTokenExist (s : ResetSystem) (token : String) : Bool :=
  s.tokens.entries.any fun e => e.2.token == token

def getIfValid (s : ResetSystem) (token : String) : Option UserPasswordReset :=
  (s.tokens.entries.find? fun e =>
    e.2.token = token ∧ e.2.state = .requested ∧ s.now < e.2.expiresAt).map fun e => e.2

/-- The row that `UserPasswordReset::create` inserts. -/
def newToken (s : ResetSystem) (userId : Int) (token : String) : UserPasswordReset where
  id := s.nextId
  userId := userId
  state := .requested
  token := token
  expiresAt := s.now + resetLifetime
  stateChangedAt := none
  createdAt := s.now

/-- The `INSERT` of `create`. -/
def insertToken (s : ResetSystem) (userId : Int) (token : String) : ResetSystem :=
  { s with
    tokens := s.tokens.put s.nextId (s.newToken userId token)
    nextId := s.nextId + 1 }

def updatePassword (s : ResetSystem) (userId : Int) (encrypted : String) : ResetSystem :=
  match s.users.get userId with
  | none => s
  | some user => { s with
      users := s.users.put userId { user with
        password := some encrypted
        passwordLastChanged := some s.now
        requirePasswordChange := false } }

/-- `set_used`. -/
def markUsed (s : ResetSystem) (id : Nat) : ResetSystem :=
  match s.tokens.get id with
  | none => s
  | some row => { s with
      tokens := s.tokens.put id { row with state := .used, stateChangedAt := some s.now } }

def record (s : ResetSystem) (change : PasswordChange) : ResetSystem :=
  { s with changes := s.changes ++ [change] }

/-! ### Steps -/

/-- The call `r` is now at `stage`. -/
def set (s : ResetSystem) (r : Nat) (call : ResetCall) (stage : Stage) : ResetSystem :=
  { s with calls := s.calls.put r { call with stage } }

def finish (s : ResetSystem) (r : Nat) (call : ResetCall) (result : ResetResult) : ResetSystem :=
  s.set r call (.finished result)

def start (s : ResetSystem) (r : Nat) (op : ResetOp) : Option ResetSystem :=
  if (s.calls.get r).isSome then none else some (s.set r ⟨op, s.now, .begun⟩ .begun)

/-- Look up the user of a reset request; an unknown address gets the same answer. -/
def stepGetByEmail (s : ResetSystem) (r : Nat) (ok : Bool) (call : ResetCall) :
    Option ResetSystem :=
  match call.op, call.stage with
  | .request email, .begun =>
    if !ok then some (s.finish r call .error)
    else
      match s.getByEmail email with
      | none => some (s.finish r call .ok)
      | some user => some (s.set r call (.foundUser user.id))
  | _, _ => none

/-- One turn of the loop of `generate_token`. -/
def stepDrawToken (s : ResetSystem) (r : Nat) (token : String) (ok : Bool) (call : ResetCall) :
    Option ResetSystem :=
  match call.stage with
  | .foundUser userId =>
    if !ok then some (s.finish r call .error)
    else if s.doesTokenExist token then some s
    else some (s.set r call (.drawn userId token))
  | _ => none

/-- The `INSERT`, which fails for a token that exists: tokens are unique. -/
def stepInsert (s : ResetSystem) (r : Nat) (ok : Bool) (call : ResetCall) : Option ResetSystem :=
  match call.stage with
  | .drawn userId token =>
    if !ok || s.doesTokenExist token then some (s.finish r call .error)
    else some ((s.insertToken userId token).finish r call .ok)
  | _ => none

def stepValidate (s : ResetSystem) (r : Nat) (ok : Bool) (call : ResetCall) :
    Option ResetSystem :=
  match call.op, call.stage with
  | .change token, .begun =>
    if !ok then some (s.finish r call .error)
    else
      match s.getIfValid token with
      | none => some (s.finish r call .notFound)
      | some request => some (s.set r call (.valid request))
  | _, _ => none

/-- Hash the password, and read the user of the token. -/
def stepLoad (s : ResetSystem) (r : Nat) (encrypted : Option String) (ok : Bool)
    (call : ResetCall) : Option ResetSystem :=
  match call.stage with
  | .valid request =>
    match encrypted with
    | none => some (s.finish r call .badRequest)
    | some encrypted =>
      if !ok then some (s.finish r call .error)
      else
        match s.users.get request.userId with
        | none => some (s.finish r call .notFound)
        | some _ => some (s.set r call (.loaded request encrypted))
  | _ => none

def stepUpdate (s : ResetSystem) (r : Nat) (ok : Bool) (call : ResetCall) : Option ResetSystem :=
  match call.stage with
  | .loaded request encrypted =>
    if !ok then some (s.finish r call .error)
    else some (((s.updatePassword request.userId encrypted).record
      ⟨request.id, call.startedAt, request.userId, encrypted⟩).set r call (.changed request))
  | _ => none

def stepSetUsed (s : ResetSystem) (r : Nat) (ok : Bool) (call : ResetCall) : Option ResetSystem :=
  match call.stage with
  | .changed request =>
    if !ok then some (s.set r call (.unmarked request))
    else some ((s.markUsed request.id).finish r call .noContent)
  | _ => none

/-- Take the step `f` of the call `r`. -/
def onCall (s : ResetSystem) (r : Nat) (f : ResetCall → Option ResetSystem) : Option ResetSystem :=
  (s.calls.get r).bind f

def step (s : ResetSystem) : ResetAction → Option ResetSystem
  | .tick seconds => some { s with now := s.now + seconds }
  | .request r email => s.start r (.request email)
  | .getByEmail r ok => s.onCall r (s.stepGetByEmail r ok)
  | .drawToken r token ok => s.onCall r (s.stepDrawToken r token ok)
  | .insert r ok => s.onCall r (s.stepInsert r ok)
  | .change r token => s.start r (.change token)
  | .validate r ok => s.onCall r (s.stepValidate r ok)
  | .load r encrypted ok => s.onCall r (s.stepLoad r encrypted ok)
  | .update r ok => s.onCall r (s.stepUpdate r ok)
  | .setUsed r ok => s.onCall r (s.stepSetUsed r ok)

end ResetSystem

end Pkgly.PasswordReset
