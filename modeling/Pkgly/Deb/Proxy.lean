import Pkgly.Deb.ProxyRefresh

/-!
# A Debian proxy

`handle_get` and `handle_head` with `fetch_and_cache_if_missing`, as sequences of atomic steps, and
the program in which they run beside refreshes and the moves of the upstream.

The check of the permission to read comes before the first step and is not modelled; nor is the
lock that keeps a second refresh from running, so that any number of them may run here.
-/

namespace Pkgly.Deb

inductive ReadMethod
  | get
  | head
deriving DecidableEq

inductive ProxyResponse
  | file (file : StorageFile)
  | information (size : Option ℕ)
  | notFound (message : String)
  /-- Bad gateway, with the status of the upstream. -/
  | upstreamStatus (status : ℕ)
deriving DecidableEq

inductive DebProxyError
  | storage (e : StorageError)
  | upstream
  | indexing
deriving DecidableEq

/-- The step that a request takes next. -/
inductive GetStage
  | look
  /-- `get_file_information` of `fetch_and_cache_if_missing`. -/
  | lookup
  | fetch
  | save (bytes : Bytes)
  | record
  /-- Read what has been saved. -/
  | lookAgain
  | done (answer : Except DebProxyError ProxyResponse)
deriving DecidableEq

structure GetRequest where
  method : ReadMethod
  path : StoragePath
  stage : GetStage

/-- `open_file` or `get_file_information`. -/
def ReadMethod.look (method : ReadMethod) (st : DynStorage) (path : StoragePath) :
    Except StorageError (Option ProxyResponse) :=
  match method with
  | .get => (st.openFile path).map (Option.map ProxyResponse.file)
  | .head => (st.getFileInformation path).map (Option.map ProxyResponse.information)

def attemptRead {α : Type} (outcome : Outcome) (result : Except StorageError α) :
    Except DebProxyError α :=
  match outcome with
  | .succeeds =>
    match result with
    | .ok a => .ok a
    | .error e => .error (.storage e)
  | _ => .error (.storage .ioError)

def GetRequest.perform (outcome : Outcome) (s : DebProxy) (r : GetRequest) : DebProxy × GetStage :=
  match r.stage with
  | .look =>
    match attemptRead outcome (r.method.look s.storage r.path) with
    | .error e => (s, .done (.error e))
    | .ok (some response) => (s, .done (.ok response))
    | .ok none => (s, .lookup)
  | .lookup =>
    match attemptRead outcome (s.storage.getFileInformation r.path) with
    | .error e => (s, .done (.error e))
    | .ok (some _) => (s, .lookAgain)
    | .ok none => (s, .fetch)
  | .fetch =>
    match outcome with
    | .fails => (s, .done (.error .upstream))
    | .refused status => (s, .done (.ok (.upstreamStatus status)))
    | .succeeds =>
      match s.upstream.get r.path.components with
      | none => (s, .done (.ok (.notFound "File not found")))
      | some bytes => (s, .save bytes)
  | .save bytes =>
    match attemptRead outcome (s.storage.saveFile bytes r.path) with
    | .error e => (s, .done (.error e))
    | .ok storage => ({ s with storage }, .record)
  | .record =>
    match outcome with
    | .succeeds => (s, .lookAgain)
    | _ => (s, .done (.error .indexing))
  | .lookAgain =>
    match attemptRead outcome (r.method.look s.storage r.path) with
    | .error e => (s, .done (.error e))
    | .ok (some response) => (s, .done (.ok response))
    | .ok none => (s, .done (.ok (.notFound "File not found")))
  | .done answer => (s, .done answer)

inductive Request
  | read (method : ReadMethod) (path : StoragePath)
  | refresh
  /-- The upstream moves to another snapshot. -/
  | publish (snapshot : Snapshot)

inductive ProxyProcess
  | get (r : GetRequest)
  | refresh (r : Refresh)
  | refreshed (answer : Except DebProxyRefreshError DebProxyRefreshSummary)
  | publish (snapshot : Snapshot)
  | published

def Progress.process : Progress → ProxyProcess
  | .running r => .refresh r
  | .returned summary => .refreshed (.ok summary)

def processOf : Except DebProxyRefreshError Progress → ProxyProcess
  | .error e => .refreshed (.error e)
  | .ok progress => progress.process

def firstStage (path : StoragePath) : GetStage :=
  if path.isDirectory then .done (.ok (.notFound "Directory not found")) else .look

def debProxy (format : DebProxyFormat) (layout : DebProxyLayout) :
    Program DebProxy ProxyProcess Request Outcome where
  init
    | .read method path => .get ⟨method, path, firstStage path⟩
    | .refresh => (proceed layout.tasks ⟨0, 0⟩).process
    | .publish snapshot => .publish snapshot
  next outcome s
    | .get r =>
      match r.stage with
      | .done _ => none
      | _ => some ((r.perform outcome s).1, .get { r with stage := (r.perform outcome s).2 })
    | .refresh r => some ((r.perform format outcome s).1, processOf (r.perform format outcome s).2)
    | .publish snapshot => some ({ s with upstream := snapshot }, .published)
    | .refreshed _ => none
    | .published => none

end Pkgly.Deb
