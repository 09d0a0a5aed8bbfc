import Pkgly.Algorithm.Pool
import Pkgly.Algorithm.Store

/-!
# The locks of maintenance runs

A retention run and a refresh of a Debian proxy hold an advisory lock of PostgreSQL while they run.
The lock belongs to the session of a pooled connection (`try_mark_package_retention_started`,
`try_mark_deb_proxy_refresh_started`), is taken again by a session that has it already, and is given
back by `release`, which closes the connection when it fails.  The two kinds of runs differ in the key
of their lock only.

Each statement is one step.  It can fail, its answer can be lost, and a run can be dropped before any
of its steps, by a panic or because its future is no longer polled; its connection then goes back to
the pool as it is.  The rows in which the status of a run is written are read by no step and are not
modelled.
-/

namespace Pkgly.Maintenance

/-! ### Keys -/

inductive Kind
  | packageRetention
  | debProxyRefresh
deriving DecidableEq

def folded (repositoryId : BitVec 128) : BitVec 64 :=
  repositoryId.truncate 64 ^^^ (repositoryId >>> 64).truncate 64

def packageRetentionAdvisoryKey (repositoryId : BitVec 128) : BitVec 64 :=
  folded repositoryId ^^^ 0x706b6772_65746e31#64

def debProxyRefreshAdvisoryKey (repositoryId : BitVec 128) : BitVec 64 := folded repositoryId

structure Job where
  kind : Kind
  repositoryId : BitVec 128
deriving DecidableEq

def Job.key (job : Job) : BitVec 64 :=
  match job.kind with
  | .packageRetention => packageRetentionAdvisoryKey job.repositoryId
  | .debProxyRefresh => debProxyRefreshAdvisoryKey job.repositoryId

/-! ### Sessions -/

/-- The sessions of the pool: the locks that each holds, with repetitions, and the idle ones. -/
structure Sessions where
  locks : Store ℕ (List (BitVec 64))
  idle : List ℕ
  next : ℕ

def Sessions.held (db : Sessions) (session : ℕ) : List (BitVec 64) :=
  (db.locks.get session).getD []

/-- `pool.acquire`: an idle connection, or a new one. -/
def Sessions.acquire (db : Sessions) (session : Option ℕ) : Option (Sessions × ℕ) :=
  match session with
  | none => some ({ db with next := db.next + 1 }, db.next)
  | some session =>
    if session ∈ db.idle then some ({ db with idle := db.idle.erase session }, session) else none

def Sessions.giveBack (db : Sessions) (session : ℕ) : Sessions :=
  { db with idle := session :: db.idle }

def Sessions.close (db : Sessions) (session : ℕ) : Sessions :=
  { db with locks := db.locks.remove session }

/-- `pg_try_advisory_lock`: another session has the lock, or this one takes it, once more if it has
it already. -/
def Sessions.tryAdvisoryLock (db : Sessions) (session : ℕ) (key : BitVec 64) : Sessions × Bool :=
  if db.locks.entries.any fun e => e.1 != session && e.2.contains key then (db, false)
  else ({ db with locks := db.locks.put session (key :: db.held session) }, true)

/-- `pg_advisory_unlock`, which gives one of the locks with the key back. -/
def Sessions.advisoryUnlock (db : Sessions) (session : ℕ) (key : BitVec 64) : Sessions :=
  { db with locks := db.locks.put session ((db.held session).erase key) }

/-! ### Runs -/

inductive Ending
  | finished
  | alreadyRunning
  | failed
  | dropped
deriving DecidableEq

/-- The step that a run takes next, on the connection of its session. -/
inductive Stage
  | acquire
  | tryLock (session : ℕ)
  /-- `ensure_…_status_row`. -/
  | ensureRow (session : ℕ)
  /-- The row says that the run is in progress. -/
  | markStarted (session : ℕ)
  /-- The run itself. -/
  | working (session : ℕ)
  /-- `mark_…_succeeded` or `mark_…_failed`. -/
  | markEnded (session : ℕ) (succeeded : Bool)
  | release (session : ℕ) (succeeded : Bool)
  | done (ending : Ending)
deriving DecidableEq

inductive Event
  /-- It succeeds; the connection is the given one, or a new one. -/
  | succeeds (session : Option ℕ)
  | fails
  /-- It is executed, but the run sees an error. -/
  | answerLost
  /-- The run goes on working. -/
  | continues
  | dropped
deriving DecidableEq

structure Run where
  job : Job
  stage : Stage
deriving DecidableEq

def Stage.session? : Stage → Option ℕ
  | .acquire | .done _ => none
  | .tryLock session | .ensureRow session | .markStarted session | .working session
  | .markEnded session _ | .release session _ => some session

/-- The run is dropped, and its connection goes back to the pool. -/
def Stage.drop (db : Sessions) (stage : Stage) : Sessions :=
  match stage.session? with
  | some session => db.giveBack session
  | none => db

def performStage (key : BitVec 64) (event : Event) (db : Sessions) (stage : Stage) :
    Option (Sessions × Stage) :=
  match event with
  | .dropped =>
    match stage with
    | .done _ => none
    | _ => some (stage.drop db, .done .dropped)
  | .continues =>
    match stage with
    | .working session => some (db, .working session)
    | _ => none
  | .succeeds choice =>
    match stage with
    | .acquire => (db.acquire choice).map fun (db, session) => (db, .tryLock session)
    | .tryLock session =>
      match db.tryAdvisoryLock session key with
      | (db, true) => some (db, .ensureRow session)
      | (db, false) => some (db.giveBack session, .done .alreadyRunning)
    | .ensureRow session => some (db, .markStarted session)
    | .markStarted session => some (db, .working session)
    | .working session => some (db, .markEnded session true)
    | .markEnded session succeeded => some (db, .release session succeeded)
    | .release session succeeded =>
      some ((db.advisoryUnlock session key).giveBack session,
        .done (if succeeded then .finished else .failed))
    | .done _ => none
  | .fails =>
    match stage with
    | .acquire => some (db, .done .failed)
    | .tryLock session => some (db.giveBack session, .done .failed)
    | .ensureRow session | .markStarted session => some (db.close session, .done .failed)
    | .working session => some (db, .markEnded session false)
    -- the error is returned after the release
    | .markEnded session _ => some (db, .release session false)
    | .release session _ => some (db.close session, .done .failed)
    | .done _ => none
  | .answerLost =>
    match stage with
    | .tryLock session =>
      some ((db.tryAdvisoryLock session key).1.giveBack session, .done .failed)
    | .release session _ => some ((db.advisoryUnlock session key).close session, .done .failed)
    | _ => none

def maintenance : Program Sessions Run Job Event where
  init job := ⟨job, .acquire⟩
  next event db r := (performStage r.job.key event db r.stage).map fun (db, stage) =>
    (db, { r with stage })

end Pkgly.Maintenance
