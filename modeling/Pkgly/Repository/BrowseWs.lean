import Pkgly.Algorithm.Run
import Pkgly.Repository.RepoAuth
import Pkgly.Storage.StoragePath

/-!
# The websocket of the repository browser

A client that browses a repository sends `ListDirectory` and `Authentication` messages over a
websocket.  `handle_socket` loads the authentication setting of the repository, and then waits for
the next message or for the next item of the directory that is open; `handle_message` and
`handle_next_item` run to their end before it waits again.

The model is one connection (`BrowseSystem`), with one action for each point at which the code awaits
something: a message, a query, the storage, the socket.  Other requests may change the tables that
decide access at any time (`changeAccess`).  What a directory lists is fixed when it is opened, the
errors on the way included.  The hashes and times of the entries are left out.
-/

namespace Pkgly.Browse

inductive WebSocketAuthenticationMessage
  | authToken (token : String)
  | session (session : String)
deriving DecidableEq

inductive WebSocketAuthentication
  | authToken (token : AuthToken) (user : UserSafeData)
  | session (user : UserSafeData)
deriving DecidableEq

def WebSocketAuthentication.user : WebSocketAuthentication → UserSafeData
  | authToken _ user => user
  | session user => user

/-- `HasPermissions::has_action` of a websocket: the default one, which knows no tokens. -/
def hasAction (db : AccessTables) (auth : Option WebSocketAuthentication)
    (action : RepositoryActions) (repository : Uuid) : Bool :=
  auth.any fun auth => auth.user.hasAction db action repository

structure Access where
  db : AccessTables
  visibility : Visibility
  /-- The authentication setting that is stored. -/
  authConfig : RepositoryAuthConfig

def canReadRepositoryWithAuth (access : Access) (repository : Uuid)
    (auth : Option WebSocketAuthentication) (config : RepositoryAuthConfig) : Bool :=
  if config.enabled then hasAction access.db auth .read repository
  else if access.visibility = .«private» ∨ access.visibility = .hidden then
    hasAction access.db auth .read repository
  else true

inductive BrowseFile
  | file (name : String) (fileSize : Nat)
  | directory (name : String) (numberOfFiles : Nat)
deriving DecidableEq

structure ProjectResolution where
  projectId : Option Uuid
  versionId : Option Uuid
deriving DecidableEq

structure BrowseStreamPrimaryData where
  projectResolution : Option ProjectResolution
  numberOfFiles : Nat
deriving DecidableEq

inductive WebsocketOutgoingMessage
  | directoryItem (file : BrowseFile)
  | openedDirectory (data : BrowseStreamPrimaryData)
  | endOfDirectory
  | error (text : String)
  | unauthorized
  | authorized
deriving DecidableEq

inductive Incoming
  /-- There is nothing more to receive. -/
  | endOfStream
  | failed (text : String)
  | close
  | pingPong
  | unparsable (text : String)
  | listDirectory (path : StoragePath)
  | authentication (message : WebSocketAuthenticationMessage)

inductive WSPermissionsStatus
  | unauthorized
  | pending
  | authorized
deriving DecidableEq

/-- A `DirectoryListStream`, by the items it still yields: a file, nothing for a hidden file, or an
error. -/
structure DirectoryStream where
  items : List (Except String (Option BrowseFile))
  numberOfFiles : Nat

def emptyStream : DirectoryStream := ⟨[], 0⟩

def DirectoryStream.files (stream : DirectoryStream) : List BrowseFile :=
  stream.items.filterMap fun
    | .ok file => file
    | .error _ => none

structure StoragePathStream where
  path : StoragePath
  current : DirectoryStream
  sentEndOfDirectory : Bool

/-- Where `handle_socket` is. -/
inductive Stage
  | connecting
  /-- In `select!`. -/
  | waiting
  /-- The access is to be checked before the directory is opened. -/
  | checking (path : StoragePath)
  /-- `resolve_browse_path` is called. -/
  | resolving
  /-- `stream_directory` is called. -/
  | opening (target : StoragePath)
  /-- `resolve_project_and_version_for_path` is called. -/
  | resolvingProject
  | loggingIn (message : WebSocketAuthenticationMessage)
  /-- The new authentication is to be checked. -/
  | checkingLogin
  /-- The message is handed to the socket; afterwards the connection may be closed. -/
  | sending (message : WebsocketOutgoingMessage) (ofListDirectory close : Bool)
  | closed

/-- A message that was sent, whether it answers a `ListDirectory`, the files that the open directory
was yet to list, and whether the authentication then held could read the repository under the stored
setting. -/
structure Sent where
  message : WebsocketOutgoingMessage
  ofListDirectory : Bool
  files : List BrowseFile
  allowed : Bool
deriving DecidableEq

structure BrowsedRepository where
  id : Uuid
  isDocker : Bool

/-- A connection: the fields of `BrowseWSState`, what decides access, and the messages sent, the
latest first, which the code does not keep. -/
structure BrowseSystem where
  access : Access
  authentication : Option WebSocketAuthentication
  accessStatus : WSPermissionsStatus
  activePath : StoragePathStream
  authConfig : RepositoryAuthConfig
  stage : Stage
  sent : List Sent

inductive BrowseAction
  /-- The first ping, and `get_repository_auth_config`. -/
  | connect (ping loaded : Bool)
  | receive (message : Incoming)
  /-- `next_item` is ready. -/
  | nextItem
  /-- `can_read_repository_with_auth`, in an answer to `ListDirectory`. -/
  | check (ok : Bool)
  /-- `resolve_browse_path`: the directory `manifests` exists or not. -/
  | resolve (manifests : Except String Bool)
  | streamDirectory (stream : Except String (Option DirectoryStream))
  | resolveProject (resolution : Option ProjectResolution)
  /-- `attempt_login`. -/
  | login (result : Except String WebSocketAuthentication)
  /-- `can_read_repository_with_auth`, after a login. -/
  | checkLogin (ok : Bool)
  | send (ok : Bool)
  /-- Another request changes what decides access. -/
  | changeAccess (access : Access)

namespace BrowseSystem

variable (repository : BrowsedRepository)

def start (access : Access) : BrowseSystem where
  access := access
  authentication := none
  accessStatus := .pending
  activePath := ⟨StoragePath.ofString "/", emptyStream, true⟩
  authConfig := ⟨true⟩
  stage := .connecting
  sent := []

/-- The authentication held may read, under the setting the connection has loaded. -/
def canRead (s : BrowseSystem) : Bool :=
  canReadRepositoryWithAuth s.access repository.id s.authentication s.authConfig

/-- ... and under the setting that is stored. -/
def isAllowed (s : BrowseSystem) : Bool :=
  canReadRepositoryWithAuth s.access repository.id s.authentication s.access.authConfig

def stepConnect (s : BrowseSystem) (ping loaded : Bool) : Option BrowseSystem :=
  match s.stage with
  | .connecting =>
    if !ping then some { s with stage := .closed }
    else some { s with
      authConfig := if loaded then s.access.authConfig else ⟨true⟩, stage := .waiting }
  | _ => none

def changeDirectory (s : BrowseSystem) (path : StoragePath) : BrowseSystem :=
  { s with
    activePath := { s.activePath with path, sentEndOfDirectory := false }
    stage := if repository.isDocker then .resolving else .opening path }

/-- `handle_message`, up to its first await. -/
def stepReceive (s : BrowseSystem) (message : Incoming) : Option BrowseSystem :=
  match s.stage with
  | .waiting =>
    match message with
    | .endOfStream => some { s with stage := .closed }
    | .failed text => some { s with stage := .sending (.error text) false true }
    | .close => some { s with stage := .closed }
    | .pingPong => some s
    | .unparsable text => some { s with stage := .sending (.error text) false false }
    | .listDirectory path =>
      if s.accessStatus ≠ .authorized then some { s with stage := .checking path }
      else some (s.changeDirectory repository path)
    | .authentication message => some { s with stage := .loggingIn message }
  | _ => none

/-- `NextItem::poll` that is ready, and the message of `handle_next_item`. -/
def stepNextItem (s : BrowseSystem) : Option BrowseSystem :=
  match s.stage with
  | .waiting =>
    match s.activePath.current.items with
    | item :: items =>
      let t := { s with
        activePath := { s.activePath with current := { s.activePath.current with items } } }
      match item with
      | .ok (some file) => some { t with stage := .sending (.directoryItem file) false false }
      | .ok none => some { t with stage := .sending .endOfDirectory false false }
      | .error text => some { t with stage := .sending (.error text) false true }
    | [] =>
      if s.activePath.sentEndOfDirectory then none
      else some { s with
        activePath := { s.activePath with sentEndOfDirectory := true }
        stage := .sending .endOfDirectory false false }
  | _ => none

def stepCheck (s : BrowseSystem) (ok : Bool) : Option BrowseSystem :=
  match s.stage with
  | .checking path =>
    if !ok then some { s with stage := .closed }
    else if !s.canRead repository then
      some { s with accessStatus := .unauthorized, stage := .sending .unauthorized false true }
    else some ({ s with accessStatus := .authorized }.changeDirectory repository path)
  | _ => none

def pushMut (path : StoragePath) (component : String) : StoragePath where
  components := path.components ++ (StoragePath.ofString component).components
  trailingSlash := (StoragePath.ofString component).trailingSlash

def resolveBrowsePath (path : StoragePath) (manifests : Bool) : StoragePath :=
  let physical := (segments '/' path.toString').foldl pushMut (StoragePath.ofString "v2")
  if manifests then pushMut physical "manifests" else physical

def stepResolve (s : BrowseSystem) (manifests : Except String Bool) : Option BrowseSystem :=
  match s.stage with
  | .resolving =>
    match manifests with
    | .error text => some { s with stage := .sending (.error text) true false }
    | .ok manifests => some { s with
      stage := .opening (resolveBrowsePath s.activePath.path manifests) }
  | _ => none

def stepStreamDirectory (s : BrowseSystem) (stream : Except String (Option DirectoryStream)) :
    Option BrowseSystem :=
  match s.stage with
  | .opening _ =>
    match stream with
    | .error text => some { s with stage := .sending (.error text) true false }
    | .ok stream => some { s with
      activePath := { s.activePath with current := stream.getD emptyStream }
      stage := .resolvingProject }
  | _ => none

/-- The end of `change_directory`. -/
def stepResolveProject (s : BrowseSystem) (resolution : Option ProjectResolution) :
    Option BrowseSystem :=
  match s.stage with
  | .resolvingProject => some { s with
    stage := .sending (.openedDirectory
      ⟨some (resolution.getD ⟨none, none⟩), s.activePath.current.numberOfFiles⟩) true false }
  | _ => none

def stepLogin (s : BrowseSystem) (result : Except String WebSocketAuthentication) :
    Option BrowseSystem :=
  match s.stage with
  | .loggingIn _ =>
    match result with
    | .error text => some { s with stage := .sending (.error text) false true }
    | .ok auth => some { s with authentication := some auth, stage := .checkingLogin }
  | _ => none

def stepCheckLogin (s : BrowseSystem) (ok : Bool) : Option BrowseSystem :=
  match s.stage with
  | .checkingLogin =>
    if !ok then some { s with stage := .closed }
    else if !s.canRead repository then
      some { s with accessStatus := .unauthorized, stage := .sending .unauthorized false true }
    else
      some { s with accessStatus := .authorized, stage := .sending .authorized false false }
  | _ => none

/-- `socket.send`; an error closes the connection. -/
def stepSend (s : BrowseSystem) (ok : Bool) : Option BrowseSystem :=
  match s.stage with
  | .sending message ofListDirectory close =>
    if !ok then some { s with stage := .closed }
    else some { s with
      stage := if close then .closed else .waiting
      sent := ⟨message, ofListDirectory, s.activePath.current.files, s.isAllowed repository⟩ ::
        s.sent }
  | _ => none

def step (s : BrowseSystem) : BrowseAction → Option BrowseSystem
  | .connect ping loaded => s.stepConnect ping loaded
  | .receive message => s.stepReceive repository message
  | .nextItem => s.stepNextItem
  | .check ok => s.stepCheck repository ok
  | .resolve manifests => s.stepResolve manifests
  | .streamDirectory stream => s.stepStreamDirectory stream
  | .resolveProject resolution => s.stepResolveProject resolution
  | .login result => s.stepLogin result
  | .checkLogin ok => s.stepCheckLogin repository ok
  | .send ok => s.stepSend repository ok
  | .changeAccess access => some { s with access }

end BrowseSystem

end Pkgly.Browse
