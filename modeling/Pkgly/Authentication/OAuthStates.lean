import Mathlib.Data.String.Basic
import Pkgly.Algorithm.Run
import Pkgly.Algorithm.Store

/-!
# The states of OAuth2 logins

`authorize` draws a random state for a login, remembers it with its provider and its PKCE verifier
in the memory of the replica, and then stores a copy in the table `oauth2_states`, which all
replicas share.  `callback` takes the state out of the memory of its replica and exchanges the code;
if it is not there, it reads the row, exchanges the code, and deletes the row afterwards.

The model is a system of calls in flight on any number of replicas (`OAuthSystem`), with one action
for each section under the lock of the memory and for each statement.  A successful look-up and the
start of the exchange after it are one action: nothing is awaited in between.  Times are in
microseconds, and the clocks of the replicas and of the database are taken to be one.  A state that
is drawn at random is taken to be new.
-/

namespace Pkgly.OAuth

inductive OAuth2ProviderKind
  | google
  | microsoft
deriving DecidableEq

namespace OAuth2ProviderKind

/-- `Display`. -/
def toText : OAuth2ProviderKind → String
  | google => "google"
  | microsoft => "microsoft"

def fromLower (s : String) : Option OAuth2ProviderKind :=
  if s = "google" then some google
  else if s ∈ ["microsoft", "azure", "azure_ad", "entra", "entra_id"] then some microsoft
  else none

def fromStr (s : String) : Option OAuth2ProviderKind :=
  fromLower (String.ofList (s.toList.map Char.toLower))

theorem fromStr_toText (p : OAuth2ProviderKind) : fromStr p.toText = some p := by
  cases p <;> decide

end OAuth2ProviderKind

/-- `STATE_TTL`, and `OAUTH_STATE_TTL_SECONDS`. -/
def stateTtl : Int := 300000000

/-- `INTERVAL '15 minutes'`. -/
def pruneAge : Int := 900000000

structure OAuthStateValue where
  provider : OAuth2ProviderKind
  pkceVerifier : String
  redirect : Option String
  createdAt : Int
deriving DecidableEq

structure OAuthStateExport where
  provider : OAuth2ProviderKind
  pkceVerifier : String
  redirect : Option String
deriving DecidableEq

/-- `PersistedOAuthState`: a row of `oauth2_states`. -/
structure PersistedOAuthState where
  provider : String
  pkceVerifier : String
  redirect : Option String
  createdAt : Int
deriving DecidableEq

/-- What `export` copies. -/
def OAuthStateValue.toExport (value : OAuthStateValue) : OAuthStateExport :=
  ⟨value.provider, value.pkceVerifier, value.redirect⟩

namespace PersistedOAuthState

def isExpired (row : PersistedOAuthState) (now : Int) : Bool := row.createdAt < now - stateTtl

def intoExport (row : PersistedOAuthState) : Option OAuthStateExport :=
  (OAuth2ProviderKind.fromStr row.provider).map fun provider =>
    ⟨provider, row.pkceVerifier, row.redirect⟩

end PersistedOAuthState

inductive OAuthOp
  | authorize (state : String)
  | callback (state : String)
deriving DecidableEq

def OAuthOp.state : OAuthOp → String
  | authorize state | callback state => state

inductive OAuthResult
  | ok
  | invalidState
  | error
deriving DecidableEq

inductive Stage
  /-- The state is in memory. -/
  | remembered
  | exported (snapshot : OAuthStateExport)
  | pruned (snapshot : OAuthStateExport)
  /-- The state is in the table. -/
  | persisted
  | begun
  /-- The state is not in memory. -/
  | missed
  | loaded (row : PersistedOAuthState)
  | exchanging (fromRow : Bool)
  | deleting (exchanged : Bool) (result : OAuthResult)
  /-- The call has exchanged a code, and leaves the row behind. -/
  | left (result : OAuthResult)
  | finished (result : OAuthResult)
deriving DecidableEq

structure OAuthCall where
  op : OAuthOp
  replica : Nat
  stage : Stage
deriving DecidableEq

structure Exchange where
  state : String
  provider : OAuth2ProviderKind
  pkceVerifier : String
  startedAt : Int
deriving DecidableEq

/-- The replicas, the table and the calls in flight.  `created` lists the states ever drawn, and
`exchanges` the exchanges ever started; the code keeps neither. -/
structure OAuthSystem where
  now : Int
  memory : Store (Nat × String) OAuthStateValue
  rows : Store String PersistedOAuthState
  calls : Store Nat OAuthCall
  created : Store String OAuthStateValue
  exchanges : List Exchange

inductive OAuthAction
  | tick (microseconds : Nat)
  /-- The memory of a replica is lost. -/
  | restart (replica : Nat)
  | authorize (r replica : Nat) (state : String) (provider : OAuth2ProviderKind)
      (pkceVerifier : String) (redirect : Option String)
  | exportState (r : Nat)
  | prune (r : Nat) (ok : Bool)
  | persist (r : Nat) (ok : Bool)
  | callback (r replica : Nat) (state : String)
  | take (r : Nat) (configured : Bool)
  | load (r : Nat) (ok : Bool)
  | restore (r : Nat) (configured : Bool)
  | exchanged (r : Nat) (ok : Bool)
  | delete (r : Nat) (ok : Bool)

namespace OAuthSystem

/-! ### The memory and the table -/

/-- `purge_expired_locked` on one replica. -/
def purgeExpired (s : OAuthSystem) (replica : Nat) : OAuthSystem :=
  { s with
    memory := s.memory.removeIf fun k =>
      k.1 == replica && (s.memory.get k).any fun value => decide (value.createdAt + stateTtl ≤ s.now) }

def insert (s : OAuthSystem) (replica : Nat) (state : String) (value : OAuthStateValue) :
    OAuthSystem :=
  let s := s.purgeExpired replica
  { s with memory := s.memory.put (replica, state) value }

def forget (s : OAuthSystem) (replica : Nat) (state : String) : OAuthSystem :=
  { s with memory := s.memory.remove (replica, state) }

/-- `prune_persisted_oauth_states`. -/
def pruneRows (s : OAuthSystem) : OAuthSystem :=
  { s with
    rows := s.rows.removeIf fun state =>
      (s.rows.get state).any fun row => decide (row.createdAt < s.now - pruneAge) }

/-- The statement of `persist_oauth_state`. -/
def persistRow (s : OAuthSystem) (state : String) (snapshot : OAuthStateExport) : OAuthSystem :=
  { s with
    rows := s.rows.put state
      ⟨snapshot.provider.toText, snapshot.pkceVerifier, snapshot.redirect, s.now⟩ }

/-- The statement of `delete_persisted_oauth_state`. -/
def deleteRow (s : OAuthSystem) (state : String) : OAuthSystem :=
  { s with rows := s.rows.remove state }

/-! ### Steps -/

/-- The call `r` is now at `stage`. -/
def set (s : OAuthSystem) (r : Nat) (call : OAuthCall) (stage : Stage) : OAuthSystem :=
  { s with calls := s.calls.put r { call with stage } }

def startExchange (s : OAuthSystem) (r : Nat) (call : OAuthCall) (value : OAuthStateExport)
    (fromRow : Bool) : OAuthSystem :=
  { s.set r call (.exchanging fromRow) with
    exchanges := s.exchanges ++
      [⟨call.op.state, value.provider, value.pkceVerifier, s.now⟩] }

/-- `begin_authorization`. -/
def stepAuthorize (s : OAuthSystem) (r replica : Nat) (state : String)
    (value : OAuthStateValue) : Option OAuthSystem :=
  if (s.calls.get r).isSome ∨ (s.created.get state).isSome then none
  else
    some ({ s.insert replica state value with created := s.created.put state value }.set r
      ⟨.authorize state, replica, .remembered⟩ .remembered)

/-- `export_state`. -/
def stepExport (s : OAuthSystem) (r : Nat) (call : OAuthCall) : Option OAuthSystem :=
  match call.stage with
  | .remembered =>
    let s := s.purgeExpired call.replica
    match s.memory.get (call.replica, call.op.state) with
    | none => some (s.set r call (.finished .error))
    | some value => some (s.set r call (.exported value.toExport))
  | _ => none

def stepPrune (s : OAuthSystem) (r : Nat) (ok : Bool) (call : OAuthCall) : Option OAuthSystem :=
  match call.stage with
  | .exported snapshot =>
    if ok then some (s.pruneRows.set r call (.pruned snapshot))
    else some (s.set r call (.finished .error))
  | _ => none

def stepPersist (s : OAuthSystem) (r : Nat) (ok : Bool) (call : OAuthCall) : Option OAuthSystem :=
  match call.stage with
  | .pruned snapshot =>
    if ok then some ((s.persistRow call.op.state snapshot).set r call .persisted)
    else some (s.set r call (.finished .error))
  | _ => none

def stepCallback (s : OAuthSystem) (r replica : Nat) (state : String) : Option OAuthSystem :=
  if (s.calls.get r).isSome then none
  else some (s.set r ⟨.callback state, replica, .begun⟩ .begun)

/-- `exchange_code`, up to its request.  `configured` says that the provider is still configured
and has a redirect URL. -/
def stepTake (s : OAuthSystem) (r : Nat) (configured : Bool) (call : OAuthCall) :
    Option OAuthSystem :=
  match call.stage with
  | .begun =>
    let s := s.purgeExpired call.replica
    match s.memory.get (call.replica, call.op.state) with
    | none => some (s.set r call .missed)
    | some value =>
      let s := s.forget call.replica call.op.state
      if configured then some (s.startExchange r call value.toExport false)
      else some (s.set r call (.finished .error))
  | _ => none

/-- `load_persisted_oauth_state`. -/
def stepLoad (s : OAuthSystem) (r : Nat) (ok : Bool) (call : OAuthCall) : Option OAuthSystem :=
  match call.stage with
  | .missed =>
    if !ok then some (s.set r call (.finished .error))
    else
      match s.rows.get call.op.state with
      | none => some (s.set r call (.finished .invalidState))
      | some row => some (s.set r call (.loaded row))
  | _ => none

/-- What follows a look-up of the row, up to the request of `exchange_code_with_export`. -/
def stepRestore (s : OAuthSystem) (r : Nat) (configured : Bool) (call : OAuthCall) :
    Option OAuthSystem :=
  match call.stage with
  | .loaded row =>
    if row.isExpired s.now then some (s.set r call (.deleting false .invalidState))
    else
      match row.intoExport with
      | none => some (s.set r call (.deleting false .error))
      | some value =>
        if configured then some (s.startExchange r call value true)
        else some (s.set r call (.deleting false .error))
  | _ => none

/-- The answer of the provider.  After a failure the row is deleted only if the state came from
there. -/
def stepExchanged (s : OAuthSystem) (r : Nat) (ok : Bool) (call : OAuthCall) :
    Option OAuthSystem :=
  match call.stage with
  | .exchanging fromRow =>
    if ok then some (s.set r call (.deleting true .ok))
    else if fromRow then some (s.set r call (.deleting true .error))
    else some (s.set r call (.left .error))
  | _ => none

/-- `delete_persisted_oauth_state`; a failure is ignored. -/
def stepDelete (s : OAuthSystem) (r : Nat) (ok : Bool) (call : OAuthCall) : Option OAuthSystem :=
  match call.stage with
  | .deleting exchanged result =>
    if ok then some ((s.deleteRow call.op.state).set r call (.finished result))
    else if exchanged then some (s.set r call (.left result))
    else some (s.set r call (.finished result))
  | _ => none

/-- Take the step `f` of the call `r`. -/
def onCall (s : OAuthSystem) (r : Nat) (f : OAuthCall → Option OAuthSystem) : Option OAuthSystem :=
  (s.calls.get r).bind f

def step (s : OAuthSystem) : OAuthAction → Option OAuthSystem
  | .tick microseconds => some { s with now := s.now + microseconds }
  | .restart replica => some { s with memory := s.memory.removeIf fun k => k.1 == replica }
  | .authorize r replica state provider pkceVerifier redirect =>
    s.stepAuthorize r replica state ⟨provider, pkceVerifier, redirect, s.now⟩
  | .exportState r => s.onCall r (s.stepExport r)
  | .prune r ok => s.onCall r (s.stepPrune r ok)
  | .persist r ok => s.onCall r (s.stepPersist r ok)
  | .callback r replica state => s.stepCallback r replica state
  | .take r configured => s.onCall r (s.stepTake r configured)
  | .load r ok => s.onCall r (s.stepLoad r ok)
  | .restore r configured => s.onCall r (s.stepRestore r configured)
  | .exchanged r ok => s.onCall r (s.stepExchanged r ok)
  | .delete r ok => s.onCall r (s.stepDelete r ok)

end OAuthSystem

end Pkgly.OAuth
